import DuckRun.Redis.Coordinator
import DuckRun.Lib.Counting
/-!
# Who answers to be the leader

Every process keeps its own flag, and only its own maintenance loop corrects
it. Two processes that run never both answer true as long as nobody is granted
the key while another still relies on a grant that is over (`Timely`); the
lease of `leader_key_lease` then does the rest.
-/

namespace DuckRun.Redis

open DuckRun.Lib DuckRun.Lib.Expiry

/-- The flag is up, or a granted result is on its way to raise it. -/
def CoordinatorNode.claims (n : CoordinatorNode) : Bool := n.isLeader || n.tick = .answered 1

/-- A step in which the server grants the process the key. -/
def Grants (clock : Nat) (key : Option (Entry Nat)) (id : Nat) (a : NodeAct) : Prop :=
  a = .execute ∧ (valueAt clock key = none ∨ valueAt clock key = some id)

/-- What a step of process `id` can do to the key. -/
inductive KeyMove (clock : Nat) (key : Option (Entry Nat)) (id ttl : Nat) (mayRelease : Bool) :
    Option (Entry Nat) → Prop where
  | same : KeyMove clock key id ttl mayRelease key
  | granted (hfree : valueAt clock key = none ∨ valueAt clock key = some id) :
      KeyMove clock key id ttl mayRelease (some ⟨id, some (clock + seconds ttl)⟩)
  | released (hm : mayRelease = true) (ho : valueAt clock key = some id) : KeyMove clock key id ttl mayRelease none

/-- What a step does to the claims of a process and to the key. -/
structure Moves (clock : Nat) (key : Option (Entry Nat)) (id : Nat) (n : CoordinatorNode) (a : NodeAct)
    (key' : Option (Entry Nat)) (n' : CoordinatorNode) : Prop where
  ttl : n'.leaderTtl = n.leaderTtl
  running : n'.lifecycle = .running → n.lifecycle = .running
  releaseSent : n'.lifecycle = .running → n'.releaseSent = true → n.releaseSent = true
  claims : n'.claims = true → n.claims = true ∨ Grants clock key id a
  grantedAt : n'.grantedAt = n.grantedAt ∨
    Grants clock key id a ∧ n'.grantedAt = some clock ∧ key' = some ⟨id, some (clock + seconds n.leaderTtl)⟩
  key : KeyMove clock key id n.leaderTtl n.releaseSent key'

variable {clock id : Nat} {key key' : Option (Entry Nat)} {n n' : CoordinatorNode} {a : NodeAct}

/-- A step that leaves the key and the lease alone and claims nothing new. -/
theorem moves_local (httl : n'.leaderTtl = n.leaderTtl) (hrun : n'.lifecycle = .running → n.lifecycle = .running)
    (hrel : n'.lifecycle = .running → n'.releaseSent = true → n.releaseSent = true)
    (hclaims : n'.claims = true → n.claims = true) (hgranted : n'.grantedAt = n.grantedAt) :
    Moves clock key id n a key n' :=
  ⟨httl, hrun, hrel, fun h => .inl (hclaims h), .inl hgranted, .same⟩

theorem CoordinatorNode.step_moves (h : n.step clock key id a = some (key', n')) : Moves clock key id n a key' n' := by
  cases a with
  | begin_ | send | fail | cancelled | exit =>
    simp only [CoordinatorNode.step] at h
    split at h <;> cases h
    refine moves_local rfl (fun hr => hr) (fun _ hr => hr) ?_ rfl
    simp +contextual [claims]
  | stop | stopReturns =>
    simp only [CoordinatorNode.step] at h
    split at h <;> cases h
    exact moves_local rfl nofun nofun (fun hc => hc) rfl
  | crash =>
    cases h
    exact moves_local rfl nofun nofun (fun hc => hc) rfl
  | fire | tickEnds | schedulerStops | check =>
    simp only [CoordinatorNode.step] at h
    split at h <;> cases h
    exact moves_local rfl (fun hr => hr) (fun _ hr => hr) (fun hc => hc) rfl
  | awaited gaveUp =>
    simp only [CoordinatorNode.step] at h
    split at h
    · split at h <;> cases h <;> exact moves_local rfl nofun nofun (fun hc => hc) rfl
    · cases h
  | receive =>
    simp only [CoordinatorNode.step] at h
    split at h
    · rename_i result ht
      split at h <;> cases h
      refine moves_local rfl (fun hr => hr) (fun _ hr => hr) ?_ rfl
      intro hc
      have hone : result = 1 := by simpa [claims] using hc
      simp [claims, ht, hone]
    · cases h
  | execute =>
    simp only [CoordinatorNode.step] at h
    split at h
    · rcases acquireOrRefreshLeader_cases clock id n.leaderTtl key with ⟨hfree, he⟩ | ⟨-, he⟩
      · rw [he] at h
        cases h
        exact ⟨rfl, fun hr => hr, fun _ hr => hr, fun _ => .inr ⟨rfl, hfree⟩,
          .inr ⟨⟨rfl, hfree⟩, rfl, rfl⟩, .granted hfree⟩
      · rw [he] at h
        cases h
        refine moves_local rfl (fun hr => hr) (fun _ hr => hr) ?_ rfl
        intro hc
        have hflag : n.isLeader = true := by simpa [claims] using hc
        simp [claims, hflag]
    · cases h
  | executeStray =>
    simp only [CoordinatorNode.step] at h
    split at h
    · rcases acquireOrRefreshLeader_cases clock id n.leaderTtl key with ⟨hfree, he⟩ | ⟨-, he⟩
      · rw [he] at h
        cases h
        exact ⟨rfl, fun hr => hr, fun _ hr => hr, fun hc => .inl hc, .inl rfl, .granted hfree⟩
      · rw [he] at h
        cases h
        exact moves_local rfl (fun hr => hr) (fun _ hr => hr) (fun hc => hc) rfl
    · cases h
  | release =>
    simp only [CoordinatorNode.step] at h
    split at h
    · rename_i hsent
      rcases releaseLeader_cases clock id key with ⟨ho, he⟩ | ⟨-, he⟩
      · rw [he] at h
        cases h
        exact ⟨rfl, fun hr => hr, fun _ hr => (Bool.noConfusion hr), fun hc => .inl hc, .inl rfl, .released hsent ho⟩
      · rw [he] at h
        cases h
        exact moves_local rfl (fun hr => hr) (fun _ hr => (Bool.noConfusion hr)) (fun hc => hc) rfl
    · cases h

/-! ## The cluster -/

/-- When a running process is granted the key, no other running process relies
on a grant that is over: each that claims to lead was granted the key less than
its own lease ago. -/
def Timely (s : Cluster) (e : ClusterEvent) : Prop :=
  ∀ (j : Nat) (m : CoordinatorNode), e = .act j .execute → s.nodes[j]? = some m → m.lifecycle = .running →
    (valueAt s.clock s.key = none ∨ valueAt s.clock s.key = some j) →
      ∀ (i : Nat) (n : CoordinatorNode), i ≠ j → s.nodes[i]? = some n → n.lifecycle = .running → n.claims = true →
        ∃ g, n.grantedAt = some g ∧ s.clock < g + seconds n.leaderTtl

structure LeaderInv (s : Cluster) : Prop where
  past : ∀ (i : Nat) (n : CoordinatorNode) g, s.nodes[i]? = some n → n.grantedAt = some g → g ≤ s.clock
  keeps : ∀ (i : Nat) (n : CoordinatorNode), s.nodes[i]? = some n → n.lifecycle = .running → n.releaseSent = false
  holds : ∀ (i : Nat) (n : CoordinatorNode) g, s.nodes[i]? = some n → n.lifecycle = .running → n.grantedAt = some g →
    s.clock < g + seconds n.leaderTtl → Owns i (g + seconds n.leaderTtl) s.key
  one : ∀ (i j : Nat) (n m : CoordinatorNode), s.nodes[i]? = some n → s.nodes[j]? = some m →
    n.lifecycle = .running → m.lifecycle = .running →
    n.claims = true → m.claims = true → i = j

theorem leaderInv_empty : LeaderInv .empty := by
  constructor <;> simp [Cluster.empty]

/-- A step of process `j` leaves a lease of running process `i` that is not over. -/
theorem owns_keyMove {s : Cluster} (hi : LeaderInv s) {i j : Nat} {n m : CoordinatorNode} {g : Nat}
    {key' : Option (Entry Nat)} (hn : s.nodes[i]? = some n) (hrun : n.lifecycle = .running)
    (hm : s.nodes[j]? = some m) (hg : n.grantedAt = some g) (hlt : s.clock < g + seconds n.leaderTtl)
    (hkey : KeyMove s.clock s.key j m.leaderTtl m.releaseSent key') : Owns i (g + seconds n.leaderTtl) key' := by
  have hown := hi.holds i n g hn hrun hg hlt
  have hval := owns_valueAt hown hlt
  cases hkey with
  | same => exact hown
  | granted hfree =>
    rw [hval] at hfree
    obtain rfl : i = j := by
      rcases hfree with hnone | hsome
      · cases hnone
      · exact Option.some.inj hsome
    rw [hn] at hm
    obtain rfl := Option.some.inj hm
    have hpast := hi.past i n g hn hg
    exact ⟨_, by omega, rfl⟩
  | released hsent ho =>
    rw [hval] at ho
    obtain rfl := Option.some.inj ho
    rw [hn] at hm
    obtain rfl := Option.some.inj hm
    rw [hi.keeps i n hn hrun] at hsent
    cases hsent

theorem leaderInv_act {s : Cluster} (hi : LeaderInv s) {j : Nat} {a : NodeAct} {m m' : CoordinatorNode}
    {key' : Option (Entry Nat)} (hm : s.nodes[j]? = some m) (hmv : Moves s.clock s.key j m a key' m')
    (ht : Timely s (.act j a)) : LeaderInv { s with key := key', nodes := s.nodes.set j m' } := by
  refine ⟨?_, ?_, ?_, ?_⟩
  · intro i n g hn hg
    rcases getElem?_set_cases hn with ⟨rfl, rfl⟩ | ⟨-, hn⟩
    · rcases hmv.grantedAt with heq | ⟨-, hclock, -⟩
      · exact hi.past i m g hm (heq ▸ hg)
      · rw [hclock] at hg
        exact Nat.le_of_eq (Option.some.inj hg).symm
    · exact hi.past i n g hn hg
  · intro i n hn hrun
    rcases getElem?_set_cases hn with ⟨rfl, rfl⟩ | ⟨-, hn⟩
    · cases hsent : n.releaseSent with
      | false => rfl
      | true =>
        have hbefore := hmv.releaseSent hrun hsent
        rw [hi.keeps i m hm (hmv.running hrun)] at hbefore
        cases hbefore
    · exact hi.keeps i n hn hrun
  · intro i n g hn hrun hg hlt
    rcases getElem?_set_cases hn with ⟨rfl, rfl⟩ | ⟨-, hn⟩
    · rw [hmv.ttl] at hlt ⊢
      rcases hmv.grantedAt with heq | ⟨-, hclock, hkey⟩
      · rw [heq] at hg
        exact owns_keyMove hi hm (hmv.running hrun) hm hg hlt hmv.key
      · rw [hclock] at hg
        obtain rfl := Option.some.inj hg
        exact ⟨_, Nat.le_refl _, hkey⟩
    · exact owns_keyMove hi hn hrun hm hg hlt hmv.key
  · -- A new claim is a grant, and a grant finds no other claim.
    have hnew : ∀ (i : Nat) (n : CoordinatorNode), i ≠ j → s.nodes[i]? = some n → n.lifecycle = .running → n.claims = true →
        m'.lifecycle = .running → m'.claims = true → False := by
      intro i n hij hn hrun hc hrun' hc'
      rcases hmv.claims hc' with hold | ⟨rfl, hfree⟩
      · exact hij (hi.one i j n m hn hm hrun (hmv.running hrun') hc hold)
      · obtain ⟨g, hg, hlt⟩ := ht j m rfl hm (hmv.running hrun') hfree i n hij hn hrun hc
        rw [owns_valueAt (hi.holds i n g hn hrun hg hlt) hlt] at hfree
        rcases hfree with hnone | hsome
        · cases hnone
        · exact hij (Option.some.inj hsome)
    intro i k n l hn hl hrun hrun' hc hc'
    rcases getElem?_set_cases hn with ⟨rfl, rfl⟩ | ⟨hij, hn0⟩ <;> rcases getElem?_set_cases hl with ⟨rfl, rfl⟩ | ⟨hkj, hl0⟩
    · rfl
    · exact (hnew k l hkj hl0 hrun' hc' hrun hc).elim
    · exact (hnew i n hij hn0 hrun hc hrun' hc').elim
    · exact hi.one i k n l hn0 hl0 hrun hrun' hc hc'

theorem leaderInv_step {s s' : Cluster} {e : ClusterEvent} (hi : LeaderInv s) (ht : Timely s e)
    (h : s.step e = some s') : LeaderInv s' := by
  cases e with
  | start leaderTtl =>
    cases h
    have hfresh : ∀ (i : Nat) n, (s.nodes ++ [CoordinatorNode.new leaderTtl])[i]? = some n →
        n = .new leaderTtl ∨ s.nodes[i]? = some n := fun i n hn => (getElem?_snoc_cases hn).imp_left And.right
    refine ⟨?_, ?_, ?_, ?_⟩
    · intro i n g hn hg
      rcases hfresh i n hn with rfl | hn
      · cases hg
      · exact hi.past i n g hn hg
    · intro i n hn hrun
      rcases hfresh i n hn with rfl | hn
      · rfl
      · exact hi.keeps i n hn hrun
    · intro i n g hn hrun hg hlt
      rcases hfresh i n hn with rfl | hn
      · cases hg
      · exact hi.holds i n g hn hrun hg hlt
    · intro i j n m hn hm hrun hrun' hc hc'
      rcases hfresh i n hn with rfl | hn
      · cases hc
      · rcases hfresh j m hm with rfl | hm
        · cases hc'
        · exact hi.one i j n m hn hm hrun hrun' hc hc'
  | advance d =>
    cases h
    refine { hi with past := ?_, holds := ?_ }
    · intro i n g hn hg
      exact Nat.le_trans (hi.past i n g hn hg) (Nat.le_add_right _ _)
    · intro i n g hn hrun hg hlt
      dsimp only at hlt
      exact hi.holds i n g hn hrun hg (by omega)
  | act j a =>
    obtain ⟨m, key', m', hm, hs, rfl⟩ := Cluster.act_cases h
    exact leaderInv_act hi hm (CoordinatorNode.step_moves hs) ht

/-- In every run whose grants are timely, at every moment at most one running
process answers true from `IsLeaderAsync`. -/
theorem at_most_one_leader (es : List ClusterEvent) (s : Cluster) (hrun : exec Cluster.step .empty es = some s)
    (htimely : Along Cluster.step Timely .empty es) :
    ∀ (i j : Nat) (n m : CoordinatorNode), s.nodes[i]? = some n → s.nodes[j]? = some m →
      n.lifecycle = .running → m.lifecycle = .running → n.isLeaderAsync = true → m.isLeaderAsync = true → i = j := by
  have hi := exec_inv_along Timely LeaderInv (fun _ _ _ hi ht hs => leaderInv_step hi ht hs) leaderInv_empty htimely hrun
  intro i j n m hn hm hrn hrm hin him
  have hcn : n.claims = true := by
    unfold CoordinatorNode.claims
    rw [show n.isLeader = true from hin, Bool.true_or]
  have hcm : m.claims = true := by
    unfold CoordinatorNode.claims
    rw [show m.isLeader = true from him, Bool.true_or]
  exact hi.one i j n m hn hm hrn hrm hcn hcm

/-! ## A delayed tick -/

/-- A tick that goes through. -/
def wholeTick (i : Nat) : List ClusterEvent :=
  [.act i .send, .act i .execute, .act i .receive]

/-- The leader's next tick comes more than the 15 s of its lease late; meanwhile another process starts. -/
def delayedTick : List ClusterEvent := .start 15 :: wholeTick 0 ++ .advance 16000 :: .start 15 :: wholeTick 1

theorem two_can_lead :
    ¬ ∀ es s, exec Cluster.step .empty es = some s →
      ∀ (i j : Nat) (n m : CoordinatorNode), s.nodes[i]? = some n → s.nodes[j]? = some m →
        n.lifecycle = .running → m.lifecycle = .running → n.isLeaderAsync = true → m.isLeaderAsync = true → i = j := by
  intro h
  have hboth := h delayedTick _ rfl 0 1 _ _ rfl rfl rfl rfl rfl rfl
  cases hboth

/-- A second process starts within the lease, and is refused. -/
def promptTick : List ClusterEvent := .start 15 :: wholeTick 0 ++ .advance 5000 :: .start 15 :: wholeTick 1

theorem timely_of_not_execute {s : Cluster} {e : ClusterEvent} (h : ∀ j, e ≠ .act j .execute) : Timely s e :=
  fun j _ he => absurd he (h j)

theorem at_most_one_leader_prompt :
    ∃ s, exec Cluster.step .empty promptTick = some s ∧ s.nodes.map (fun n => n.isLeaderAsync) = [true, false] ∧
      ∀ (i j : Nat) (n m : CoordinatorNode), s.nodes[i]? = some n → s.nodes[j]? = some m →
        n.lifecycle = .running → m.lifecycle = .running → n.isLeaderAsync = true → m.isLeaderAsync = true → i = j := by
  refine ⟨_, rfl, rfl, at_most_one_leader promptTick _ rfl ?_⟩
  refine along_cons (timely_of_not_execute nofun) rfl (along_cons (timely_of_not_execute nofun) rfl ?_)
  refine along_cons ?_ rfl (along_cons (timely_of_not_execute nofun) rfl (along_cons (timely_of_not_execute nofun) rfl
    (along_cons (timely_of_not_execute nofun) rfl (along_cons (timely_of_not_execute nofun) rfl
      (along_cons ?_ rfl (along_cons (timely_of_not_execute nofun) rfl trivial))))))
  · -- The first process is alone.
    intro j m he hm _ _ i n hij hn
    cases he
    cases i with
    | zero => exact absurd rfl hij
    | succ i => cases hn
  · -- The second finds the key of the first.
    intro j m he hm _ hfree
    cases he
    rcases hfree with hnone | hsome
    · cases hnone
    · cases hsome

end DuckRun.Redis
