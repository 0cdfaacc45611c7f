import DuckRun.Redis.Leadership
/-!
# Handing leadership over

`StopAsync` deletes the leader key but leaves the flag as it is, and the host
stops the scheduler only afterwards. A process that released the key neither
answers true nor fires again exactly as long as nothing raised its flag
(`QuietRelease`): the flag was down and the scheduler outside a leader tick
when the script ran, and no granted result comes in later.
-/

namespace DuckRun.Redis

open DuckRun.Lib DuckRun.Lib.Expiry

/-- The release finds the flag down and the scheduler outside a leader tick;
after it, no granted result is received. -/
def QuietRelease (s : Cluster) (e : ClusterEvent) : Prop :=
  (∀ (i : Nat) (n : CoordinatorNode), e = .act i .release → s.nodes[i]? = some n → valueAt s.clock s.key = some i →
    n.isLeader = false ∧ n.scheduler ≠ .leading) ∧
  ∀ (i : Nat) (n : CoordinatorNode), e = .act i .receive → s.nodes[i]? = some n → n.released = true →
    n.tick ≠ .answered 1

/-- A process that released the key no longer answers true, and has fired nothing since. -/
def CoordinatorNode.HandedOver (n : CoordinatorNode) : Prop :=
  n.released = true → n.isLeaderAsync = false ∧ n.firedAfterRelease = false

/-- A process that released the key stays out of leader ticks. -/
structure CoordinatorNode.Quiet (n : CoordinatorNode) : Prop where
  down : n.released = true → n.isLeader = false
  outside : n.released = true → n.scheduler ≠ .leading
  silent : n.firedAfterRelease = false

variable {clock id : Nat} {key key' : Option (Entry Nat)} {n n' : CoordinatorNode} {a : NodeAct}

theorem CoordinatorNode.quiet_step (hq : n.Quiet)
    (hrel : a = .release → valueAt clock key = some id → n.isLeader = false ∧ n.scheduler ≠ .leading)
    (hrec : a = .receive → n.released = true → n.tick ≠ .answered 1)
    (h : n.step clock key id a = some (key', n')) : n'.Quiet := by
  have hdown := hq.down
  have hout := hq.outside
  cases a with
  | begin_ | send | exit | stop | cancelled | stopReturns =>
    simp only [CoordinatorNode.step] at h
    split at h <;> cases h
    exact ⟨hdown, hout, hq.silent⟩
  | crash =>
    cases h
    exact ⟨hdown, hout, hq.silent⟩
  | awaited gaveUp =>
    simp only [CoordinatorNode.step] at h
    split at h
    · split at h <;> cases h <;> exact ⟨hdown, hout, hq.silent⟩
    · cases h
  | fail =>
    simp only [CoordinatorNode.step] at h
    split at h <;> cases h
    exact ⟨fun _ => rfl, hout, hq.silent⟩
  | execute | executeStray =>
    simp only [CoordinatorNode.step] at h
    split at h <;> cases h
    exact ⟨hdown, hout, hq.silent⟩
  | receive =>
    simp only [CoordinatorNode.step] at h
    split at h
    · rename_i result ht
      split at h <;> cases h
      refine ⟨fun hr => ?_, hout, hq.silent⟩
      have hne := hrec rfl hr
      rw [ht] at hne
      have hresult : result ≠ 1 := fun he => hne (by rw [he])
      simpa using hresult
    · cases h
  | release =>
    simp only [CoordinatorNode.step] at h
    split at h
    · rcases releaseLeader_cases clock id key with ⟨ho, he⟩ | ⟨-, he⟩
      · obtain ⟨hflag, hphase⟩ := hrel rfl ho
        rw [he] at h
        cases h
        exact ⟨fun _ => hflag, fun _ => hphase, hq.silent⟩
      · rw [he] at h
        cases h
        exact ⟨fun hr => hdown (by simpa using hr), fun hr => hout (by simpa using hr), hq.silent⟩
    · cases h
  | check =>
    simp only [CoordinatorNode.step] at h
    split at h <;> cases h
    refine ⟨hdown, fun hr => ?_, hq.silent⟩
    -- The flag is down, so the scheduler takes itself for a follower.
    have hflag : n.isLeaderAsync = false := hdown hr
    dsimp only
    rw [hflag]
    decide
  | fire =>
    simp only [CoordinatorNode.step] at h
    split at h
    · rename_i hlead
      cases h
      refine ⟨hdown, hout, ?_⟩
      have hnot : n.released = false := by
        cases hr : n.released with
        | false => rfl
        | true => exact absurd hlead.1 (hout hr)
      simp [hq.silent, hnot]
    · cases h
  | tickEnds | schedulerStops =>
    simp only [CoordinatorNode.step] at h
    split at h <;> cases h
    refine ⟨hdown, fun _ => ?_, hq.silent⟩
    simp

theorem quiet_cluster {s s' : Cluster} {e : ClusterEvent} (hi : ∀ n ∈ s.nodes, n.Quiet) (hg : QuietRelease s e)
    (h : s.step e = some s') : ∀ n ∈ s'.nodes, n.Quiet := by
  cases e with
  | start leaderTtl =>
    cases h
    intro n hn
    rcases List.mem_append.1 hn with hn | hn
    · exact hi n hn
    · rw [List.mem_singleton.1 hn]
      exact ⟨fun _ => rfl, fun _ => nofun, rfl⟩
  | advance d =>
    cases h
    exact hi
  | act i a =>
    obtain ⟨m, key', m', hm, hs, rfl⟩ := Cluster.act_cases h
    have hstep : m'.Quiet := by
      refine CoordinatorNode.quiet_step (hi m (List.mem_of_getElem? hm)) ?_ ?_ hs
      · rintro rfl ho
        exact hg.1 i m rfl hm ho
      · rintro rfl hr
        exact hg.2 i m rfl hm hr
    intro n hn
    rcases List.mem_or_eq_of_mem_set hn with hn | rfl
    · exact hi n hn
    · exact hstep

/-- In every run whose releases are quiet, a process that has released the
leader key answers false from then on and its scheduler attempts nothing. -/
theorem released_hands_over (es : List ClusterEvent) (s : Cluster) (hrun : exec Cluster.step .empty es = some s)
    (hquiet : Along Cluster.step QuietRelease .empty es) : ∀ n ∈ s.nodes, n.HandedOver := by
  have hi := exec_inv_along QuietRelease (fun s : Cluster => ∀ n ∈ s.nodes, n.Quiet)
    (fun _ _ _ hi hg hs => quiet_cluster hi hg hs) (by simp [Cluster.empty]) hquiet hrun
  intro n hn hr
  exact ⟨(hi n hn).down hr, (hi n hn).silent⟩

/-! ## A rolling deployment -/

/-- `StopAsync` of a process whose loop is in its delay. -/
def gracefulStop (i : Nat) : List ClusterEvent :=
  [.act i .stop, .act i .exit, .act i (.awaited false), .act i .release, .act i .stopReturns]

/-- The leader stops, its successor takes the key, and the stopped node's scheduler ticks once more. -/
def rollingDeployment : List ClusterEvent :=
  .start 15 :: wholeTick 0 ++ .start 15 :: gracefulStop 0 ++ wholeTick 1 ++ [.act 0 .check, .act 0 .fire]

theorem stopped_leader_fires :
    ¬ ∀ es s, exec Cluster.step .empty es = some s → ∀ n ∈ s.nodes, n.HandedOver := by
  intro h
  have hbad := h rollingDeployment _ rfl _ List.mem_cons_self rfl
  cases hbad.1

/-- The last tick fails after `StopAsync` has stopped waiting for it: the flag is down when the key is released. -/
def demotedStop : List ClusterEvent :=
  [.act 0 .begin_, .act 0 .stop, .act 0 (.awaited true), .act 0 .fail]

/-- A step that is neither a release nor a received result is quiet. -/
theorem quietRelease_other {s : Cluster} {e : ClusterEvent}
    (h : (∀ i, e ≠ .act i .release) ∧ ∀ i, e ≠ .act i .receive) : QuietRelease s e :=
  ⟨fun i _ he => absurd he (h.1 i), fun i _ he => absurd he (h.2 i)⟩

theorem quietRelease_receive {s : Cluster} {i : Nat}
    (h : ∀ n : CoordinatorNode, s.nodes[i]? = some n → n.released = false) : QuietRelease s (.act i .receive) := by
  constructor
  · intro j n he
    cases he
  · intro j n he hn hr
    cases he
    rw [h n hn] at hr
    cases hr

theorem quietRelease_release {s : Cluster} {i : Nat}
    (h : ∀ n : CoordinatorNode, s.nodes[i]? = some n → n.isLeader = false ∧ n.scheduler ≠ .leading) :
    QuietRelease s (.act i .release) := by
  constructor
  · intro j n he hn _
    cases he
    exact h n hn
  · intro j n he
    cases he

theorem along_other {s : Cluster} {es : List ClusterEvent}
    (h : ∀ e ∈ es, (∀ i, e ≠ .act i .release) ∧ ∀ i, e ≠ .act i .receive) :
    Along Cluster.step QuietRelease s es :=
  along_mono (fun _ _ => quietRelease_other) (along_of_forall h)

/-- A process whose initial tick is granted, that leads, and that is about to release the key. -/
def grantedNode : CoordinatorNode := { CoordinatorNode.new 15 with tick := .answered 1, grantedAt := some 0 }

def leadingNode : CoordinatorNode := { grantedNode with isLeader := true, tick := .idle }

def demotedNode : CoordinatorNode :=
  { leadingNode with isLeader := false, lifecycle := .releasing, releaseSent := true }

theorem granted_run : exec Cluster.step .empty [.start 15, .act 0 .send, .act 0 .execute] =
    some ⟨0, some ⟨0, some 15000⟩, [grantedNode]⟩ := rfl

theorem leading_run : exec Cluster.step ⟨0, some ⟨0, some 15000⟩, [grantedNode]⟩ (.act 0 .receive :: demotedStop) =
    some ⟨0, some ⟨0, some 15000⟩, [demotedNode]⟩ := rfl

theorem release_run : exec Cluster.step ⟨0, some ⟨0, some 15000⟩, [demotedNode]⟩ [.act 0 .release] =
    some ⟨0, none, [{ demotedNode with releaseSent := false, released := true }]⟩ := rfl

theorem released_hands_over_demoted :
    ∃ s, exec Cluster.step .empty ([.start 15, .act 0 .send, .act 0 .execute] ++
        (.act 0 .receive :: demotedStop ++ [.act 0 .release])) = some s ∧
      s.nodes.map (fun n => n.released) = [true] ∧ ∀ n ∈ s.nodes, n.HandedOver := by
  have hrun : exec Cluster.step .empty ([.start 15, .act 0 .send, .act 0 .execute] ++
      (.act 0 .receive :: demotedStop ++ [.act 0 .release])) =
        some ⟨0, none, [{ demotedNode with releaseSent := false, released := true }]⟩ := by
    rw [exec_append, granted_run, Option.bind_some, exec_append, leading_run, Option.bind_some, release_run]
  refine ⟨_, hrun, rfl, released_hands_over _ _ hrun ?_⟩
  refine along_append_intro (along_other (by simp)) fun t ht => ?_
  rw [granted_run] at ht
  obtain rfl := Option.some.inj ht
  have hresult : QuietRelease ⟨0, some ⟨0, some 15000⟩, [grantedNode]⟩ (.act 0 .receive) := by
    refine quietRelease_receive fun n hn => ?_
    cases hn
    rfl
  refine along_append_intro ⟨hresult, fun u _ => along_other (by simp [demotedStop])⟩ fun u hu => ?_
  rw [leading_run] at hu
  obtain rfl := Option.some.inj hu
  refine ⟨quietRelease_release fun n hn => ?_, fun _ _ => trivial⟩
  cases hn
  exact ⟨rfl, by decide⟩

end DuckRun.Redis
