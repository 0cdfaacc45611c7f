import DuckRun.Redis.Leadership
import Mathlib.Tactic.FinCases
/-!
# Taking over the leadership

A script is refused only while a grant to another process is younger than the
longest lease. So where the other processes' scripts no longer reach the server,
the first tick after a lease takes the leadership over; and a leader whose ticks
go through within its lease keeps it against everybody.
-/

namespace DuckRun.Redis

open DuckRun.Lib DuckRun.Lib.Expiry

/-- The steps in which the server runs `AcquireOrRefreshLeader`. -/
def NodeAct.runsScript : NodeAct → Bool
  | .execute | .executeStray => true
  | _ => false

/-- The script of process `i` was granted the key at `g`. -/
def GrantedAt (es : List ClusterEvent) (i g : Nat) : Prop :=
  ∃ pre a post u, es = pre ++ .act i a :: post ∧ a.runsScript = true ∧ exec Cluster.step .empty pre = some u ∧ u.clock = g ∧
    (valueAt u.clock u.key = none ∨ valueAt u.clock u.key = some i)

/-- Process `j` runs, says that it leads, and has the key for the rest of its lease. -/
def Leads (j : Nat) (s : Cluster) : Prop :=
  ∃ n g, s.nodes[j]? = some n ∧ n.isLeaderAsync = true ∧ n.lifecycle = .running ∧ n.releaseSent = false ∧
    (∀ result, n.tick = .answered result → result = 1) ∧ n.grantedAt = some g ∧ g ≤ s.clock ∧
    Owns j (g + seconds n.leaderTtl) s.key

/-- The last grant to `j` is not over, and neither is the process stopped nor does a tick of it fail. -/
structure Refreshed (j : Nat) (s : Cluster) (e : ClusterEvent) : Prop where
  fresh : ∀ n g, s.nodes[j]? = some n → n.grantedAt = some g → s.clock < g + seconds n.leaderTtl
  undisturbed : ∀ a, e = .act j a → a ≠ .fail ∧ a ≠ .cancelled ∧ a ≠ .stop ∧ a ≠ .crash

/-! ## Where the key comes from -/

/-- What a step does to the key. -/
theorem CoordinatorNode.step_key {clock id : Nat} {key key' : Option (Entry Nat)} {n n' : CoordinatorNode} {a : NodeAct}
    (h : n.step clock key id a = some (key', n')) :
    key' = key ∨
      (a.runsScript = true ∧ (valueAt clock key = none ∨ valueAt clock key = some id) ∧
        key' = some ⟨id, some (clock + seconds n.leaderTtl)⟩) ∨
      (n.releaseSent = true ∧ valueAt clock key = some id ∧ key' = none) := by
  cases a with
  | execute =>
    simp only [CoordinatorNode.step] at h
    split at h
    · rcases acquireOrRefreshLeader_cases clock id n.leaderTtl key with ⟨hfree, he⟩ | ⟨-, he⟩
      · rw [he] at h
        cases h
        exact .inr (.inl ⟨rfl, hfree, rfl⟩)
      · rw [he] at h
        cases h
        exact .inl rfl
    · cases h
  | executeStray =>
    simp only [CoordinatorNode.step] at h
    split at h
    · rcases acquireOrRefreshLeader_cases clock id n.leaderTtl key with ⟨hfree, he⟩ | ⟨-, he⟩
      · rw [he] at h
        cases h
        exact .inr (.inl ⟨rfl, hfree, rfl⟩)
      · rw [he] at h
        cases h
        exact .inl rfl
    · cases h
  | release =>
    simp only [CoordinatorNode.step] at h
    split at h
    · rename_i hsent
      rcases releaseLeader_cases clock id key with ⟨ho, he⟩ | ⟨-, he⟩
      · rw [he] at h
        cases h
        exact .inr (.inr ⟨hsent, ho, rfl⟩)
      · rw [he] at h
        cases h
        exact .inl rfl
    · cases h
  | receive =>
    simp only [CoordinatorNode.step] at h
    split at h
    · split at h <;> cases h
      exact .inl rfl
    · cases h
  | awaited gaveUp =>
    simp only [CoordinatorNode.step] at h
    split at h
    · split at h <;> cases h <;> exact .inl rfl
    · cases h
  | crash =>
    cases h
    exact .inl rfl
  | begin_ | send | fail | cancelled | exit | stop | stopReturns | check | fire | tickEnds | schedulerStops =>
    simp only [CoordinatorNode.step] at h
    split at h <;> cases h
    exact .inl rfl

theorem GrantedAt.snoc {es : List ClusterEvent} {i g : Nat} (h : GrantedAt es i g) (e : ClusterEvent) : GrantedAt (es ++ [e]) i g := by
  obtain ⟨pre, a, post, u, rfl, ha, hu, hg, hfree⟩ := h
  exact ⟨pre, a, post ++ [e], u, by simp, ha, hu, hg, hfree⟩

/-- A grant to another process than the one whose scripts alone run. -/
theorem GrantedAt.before {es fs : List ClusterEvent} {i j g : Nat} (h : GrantedAt (es ++ fs) i g)
    (honly : ∀ e ∈ fs, ∀ i a, e = .act i a → a.runsScript = true → i = j) (hij : i ≠ j) : GrantedAt es i g := by
  obtain ⟨pre, a, post, u, hsplit, ha, hu, hg, hfree⟩ := h
  have hout : .act i a ∉ fs := fun hmem => hij (honly _ hmem i a rfl ha)
  rcases List.append_eq_append_iff.1 hsplit with ⟨mid, -, rfl⟩ | ⟨mid, rfl, htail⟩
  · exact absurd (List.mem_append_right _ List.mem_cons_self) hout
  · cases mid with
    | nil =>
      rw [List.nil_append] at htail
      exact absurd (htail ▸ List.mem_cons_self) hout
    | cons e mid =>
      obtain ⟨rfl, -⟩ := List.cons.inj htail
      exact ⟨pre, a, mid, u, rfl, ha, hu, hg, hfree⟩

/-- Where the key of a reachable state is from, with leases of `L` seconds at most. -/
structure KeyFrom (L : Nat) (es : List ClusterEvent) (s : Cluster) : Prop where
  reached : exec Cluster.step .empty es = some s
  leases : ∀ (i : Nat) n, s.nodes[i]? = some n → n.leaderTtl ≤ L
  quiet : ∀ (i : Nat) n, s.nodes[i]? = some n → n.lifecycle = .running → n.releaseSent = false
  past : ∀ i g, GrantedAt es i g → g ≤ s.clock
  key : ∀ e, s.key = some e → ∃ g d, GrantedAt es e.value g ∧ e.deadline = some d ∧ d ≤ g + seconds L

theorem keyFrom_empty (L : Nat) : KeyFrom L [] .empty where
  reached := rfl
  leases i n hn := by simp [Cluster.empty] at hn
  quiet i n hn := by simp [Cluster.empty] at hn
  past i g h := by
    obtain ⟨pre, a, post, u, hsplit, -⟩ := h
    simp at hsplit
  key e he := by cases he

/-- A grant is one of the grants before, or the last step. -/
theorem grantedAt_snoc {es : List ClusterEvent} {e : ClusterEvent} {s : Cluster} (hs : exec Cluster.step .empty es = some s) {i g : Nat}
    (h : GrantedAt (es ++ [e]) i g) : GrantedAt es i g ∨ g = s.clock := by
  obtain ⟨pre, a, post, u, hsplit, ha, hu, hg, hfree⟩ := h
  rcases snoc_eq_split hsplit with ⟨-, -, hpre⟩ | ⟨post', -, hpre⟩
  · rw [← hpre, hs] at hu
    cases hu
    exact .inr hg.symm
  · exact .inl ⟨pre, a, post', u, hpre, ha, hu, hg, hfree⟩

theorem keyFrom_act {L : Nat} {es : List ClusterEvent} {s : Cluster} (hk : KeyFrom L es s) {i : Nat} {a : NodeAct}
    {n n' : CoordinatorNode} {key' : Option (Entry Nat)} (hn : s.nodes[i]? = some n)
    (h : n.step s.clock s.key i a = some (key', n')) :
    KeyFrom L (es ++ [.act i a]) { s with key := key', nodes := s.nodes.set i n' } := by
  have hmoves := CoordinatorNode.step_moves h
  refine { reached := ?_, leases := fun j m hm => ?_, quiet := fun j m hm hrun => ?_, past := fun j g hg => ?_, key := fun e he => ?_ }
  · rw [exec_append, hk.reached]
    simp [exec_cons, Cluster.step, hn, h]
  · rcases getElem?_set_cases hm with ⟨rfl, rfl⟩ | ⟨-, hm⟩
    · rw [hmoves.ttl]
      exact hk.leases j n hn
    · exact hk.leases j m hm
  · rcases getElem?_set_cases hm with ⟨rfl, rfl⟩ | ⟨-, hm⟩
    · by_contra hsent
      have hbefore := hmoves.releaseSent hrun (Bool.of_not_eq_false hsent)
      rw [hk.quiet j n hn (hmoves.running hrun)] at hbefore
      cases hbefore
    · exact hk.quiet j m hm hrun
  · rcases grantedAt_snoc hk.reached hg with hg | rfl
    · exact hk.past j g hg
    · exact Nat.le_refl _
  · rcases CoordinatorNode.step_key h with rfl | ⟨ha, hfree, rfl⟩ | ⟨-, -, rfl⟩
    · obtain ⟨g, d, hg, hd, hle⟩ := hk.key e he
      exact ⟨g, d, hg.snoc _, hd, hle⟩
    · cases he
      have hlease := hk.leases i n hn
      refine ⟨s.clock, _, ⟨es, a, [], s, rfl, ha, hk.reached, rfl, hfree⟩, rfl, ?_⟩
      unfold seconds
      omega
    · cases he

theorem keyFrom_step {L : Nat} {es : List ClusterEvent} {s s' : Cluster} {e : ClusterEvent} (hk : KeyFrom L es s)
    (hlease : ∀ ttl, e = .start ttl → max 1 ttl ≤ L) (h : s.step e = some s') : KeyFrom L (es ++ [e]) s' := by
  have hreached : exec Cluster.step .empty (es ++ [e]) = some s' := by
    rw [exec_append, hk.reached]
    exact exec_cons_some.2 ⟨s', h, rfl⟩
  have hkey : s'.key = s.key → ∀ x, s'.key = some x → ∃ g d, GrantedAt (es ++ [e]) x.value g ∧ x.deadline = some d ∧
      d ≤ g + seconds L := by
    intro hsame x hx
    obtain ⟨g, d, hg, hd, hle⟩ := hk.key x (hsame ▸ hx)
    exact ⟨g, d, hg.snoc _, hd, hle⟩
  have hpast : s.clock ≤ s'.clock → ∀ i g, GrantedAt (es ++ [e]) i g → g ≤ s'.clock := by
    intro hclock i g hg
    rcases grantedAt_snoc hk.reached hg with hg | rfl
    · exact Nat.le_trans (hk.past i g hg) hclock
    · exact hclock
  cases e with
  | start leaderTtl =>
    cases h
    refine { reached := hreached, leases := fun i n hn => ?_, quiet := fun i n hn hrun => ?_, past := hpast (Nat.le_refl _),
             key := hkey rfl }
    · rcases getElem?_snoc_cases hn with ⟨-, rfl⟩ | hn
      · exact hlease leaderTtl rfl
      · exact hk.leases i n hn
    · rcases getElem?_snoc_cases hn with ⟨-, rfl⟩ | hn
      · rfl
      · exact hk.quiet i n hn hrun
  | advance d =>
    cases h
    exact { reached := hreached, leases := hk.leases, quiet := hk.quiet, past := hpast (Nat.le_add_right _ _), key := hkey rfl }
  | act i a =>
    obtain ⟨n, key', n', hn, hs, rfl⟩ := Cluster.act_cases h
    exact keyFrom_act hk hn hs

theorem keyFrom_exec {L : Nat} {es : List ClusterEvent} {s : Cluster} (hleases : ∀ ttl, .start ttl ∈ es → max 1 ttl ≤ L)
    (hrun : exec Cluster.step .empty es = some s) : KeyFrom L es s := by
  have hinv : (∀ ttl, .start ttl ∈ es → max 1 ttl ≤ L) → KeyFrom L es s := by
    apply exec_history (fun es s => (∀ ttl, .start ttl ∈ es → max 1 ttl ≤ L) → KeyFrom L es s) _ _ hrun
    · intro es s e s' ih hstep hall
      refine keyFrom_step (ih fun ttl hmem => hall ttl (List.mem_append_left _ hmem)) (fun ttl he => hall ttl ?_) hstep
      rw [he]
      exact List.mem_append_right _ (List.mem_singleton_self _)
    · exact fun _ => keyFrom_empty L
  exact hinv hleases

/-! ## Keeping the key -/

/-- A tick that finds the key free makes its process the leader. -/
theorem granted_leads {s : Cluster} {j : Nat} {m : CoordinatorNode} (hm : s.nodes[j]? = some m) (hrunning : m.lifecycle = .running)
    (hquiet : m.releaseSent = false) (hsent : m.tick = .sent)
    (hfree : valueAt s.clock s.key = none ∨ valueAt s.clock s.key = some j) :
    ∃ t, exec Cluster.step s [.act j .execute, .act j .receive] = some t ∧ Leads j t := by
  let granted : CoordinatorNode := { m with tick := .answered 1, grantedAt := some s.clock }
  let leading : CoordinatorNode := { granted with tick := .idle, isLeader := true }
  let key : Option (Entry Nat) := some ⟨j, some (s.clock + seconds m.leaderTtl)⟩
  have hlength : j < s.nodes.length := (List.getElem?_eq_some_iff.1 hm).1
  have hexecute : s.step (.act j .execute) = some ⟨s.clock, key, s.nodes.set j granted⟩ := by
    simp [Cluster.step, hm, CoordinatorNode.step, hsent, acquireOrRefreshLeader_granted hfree, key, granted]
  have hreceive : Cluster.step ⟨s.clock, key, s.nodes.set j granted⟩ (.act j .receive) =
      some ⟨s.clock, key, (s.nodes.set j granted).set j leading⟩ := by
    simp [Cluster.step, CoordinatorNode.step, hlength, hrunning, granted, leading]
  refine ⟨_, exec_cons_some.2 ⟨_, hexecute, exec_cons_some.2 ⟨_, hreceive, rfl⟩⟩, leading, s.clock, ?_⟩
  refine ⟨by simp [hlength], rfl, hrunning, hquiet, (fun _ h => by cases h), rfl, Nat.le_refl _, _, Nat.le_refl _, rfl⟩

/-- While the lease is not over, the key is found to be the leader's. -/
theorem Leads.valueAt {j : Nat} {s : Cluster} (hl : Leads j s) {e : ClusterEvent} (hr : Refreshed j s e) :
    valueAt s.clock s.key = some j := by
  obtain ⟨n, g, hn, -, -, -, -, hg, -, hown⟩ := hl
  exact owns_valueAt hown (hr.fresh n g hn hg)

theorem leads_other {j i : Nat} {s : Cluster} {a : NodeAct} {n n' : CoordinatorNode} {key' : Option (Entry Nat)} (hl : Leads j s)
    (hr : Refreshed j s (.act i a)) (hij : i ≠ j) (h : n.step s.clock s.key i a = some (key', n')) :
    Leads j { s with key := key', nodes := s.nodes.set i n' } := by
  have hvalue := hl.valueAt hr
  have hkey : key' = s.key := by
    rcases CoordinatorNode.step_key h with hkey | ⟨-, hfree, -⟩ | ⟨-, ho, -⟩
    · exact hkey
    · rw [hvalue] at hfree
      rcases hfree with hnone | hsome
      · cases hnone
      · exact absurd (Option.some.inj hsome).symm hij
    · rw [hvalue] at ho
      exact absurd (Option.some.inj ho).symm hij
  obtain ⟨m, g, hm, hrest⟩ := hl
  refine ⟨m, g, ?_, ?_⟩
  · rw [List.getElem?_set_ne hij]
    exact hm
  · rw [hkey]
    exact hrest

theorem leads_own {j : Nat} {s : Cluster} {a : NodeAct} {n n' : CoordinatorNode} {key' : Option (Entry Nat)} (hl : Leads j s)
    (hr : Refreshed j s (.act j a)) (hn : s.nodes[j]? = some n) (h : n.step s.clock s.key j a = some (key', n')) :
    Leads j { s with key := key', nodes := s.nodes.set j n' } := by
  have hvalue := hl.valueAt hr
  obtain ⟨hfail, hcancelled, hstop, hcrash⟩ := hr.undisturbed a rfl
  obtain ⟨m, g, hm, hleader, hrunning, hquiet, hanswer, hgranted, hpast, hown⟩ := hl
  rw [hn] at hm
  obtain rfl := Option.some.inj hm
  have hlength : j < s.nodes.length := (List.getElem?_eq_some_iff.1 hn).1
  have hset : (s.nodes.set j n')[j]? = some n' := List.getElem?_set_self hlength
  have hgrant : acquireOrRefreshLeader s.clock j n.leaderTtl s.key = (some ⟨j, some (s.clock + seconds n.leaderTtl)⟩, 1) :=
    acquireOrRefreshLeader_granted (.inr hvalue)
  cases a with
  | fail => exact absurd rfl hfail
  | cancelled => exact absurd rfl hcancelled
  | stop => exact absurd rfl hstop
  | crash => exact absurd rfl hcrash
  | begin_ | send =>
    simp only [CoordinatorNode.step] at h
    split at h <;> cases h
    exact ⟨_, g, hset, hleader, hrunning, hquiet, (fun _ h => by cases h), hgranted, hpast, hown⟩
  | execute =>
    simp only [CoordinatorNode.step, hgrant] at h
    split at h <;> cases h
    refine ⟨_, s.clock, hset, hleader, hrunning, hquiet, fun result hresult => ?_, rfl, Nat.le_refl _, ⟨_, Nat.le_refl _, rfl⟩⟩
    exact (TickPhase.answered.inj hresult).symm
  | receive =>
    simp only [CoordinatorNode.step] at h
    split at h
    · rename_i result htick
      split at h <;> cases h
      have hone := hanswer result htick
      exact ⟨_, g, hset, by simp [CoordinatorNode.isLeaderAsync, hone], hrunning, hquiet, (fun _ h => by cases h), hgranted, hpast, hown⟩
    · cases h
  | executeStray =>
    simp only [CoordinatorNode.step, hgrant] at h
    split at h <;> cases h
    refine ⟨_, g, hset, hleader, hrunning, hquiet, hanswer, hgranted, hpast, ⟨s.clock + seconds n.leaderTtl, ?_, rfl⟩⟩
    exact Nat.add_le_add_right hpast _
  | exit | awaited | stopReturns | schedulerStops =>
    simp [CoordinatorNode.step, hrunning] at h
  | release =>
    simp [CoordinatorNode.step, hquiet] at h
  | check | fire | tickEnds =>
    simp only [CoordinatorNode.step] at h
    split at h <;> cases h
    exact ⟨_, g, hset, hleader, hrunning, hquiet, hanswer, hgranted, hpast, hown⟩

theorem leads_step {j : Nat} {s s' : Cluster} {e : ClusterEvent} (hl : Leads j s) (hr : Refreshed j s e) (h : s.step e = some s') :
    Leads j s' := by
  cases e with
  | start leaderTtl =>
    cases h
    obtain ⟨n, g, hn, hrest⟩ := hl
    refine ⟨n, g, ?_, hrest⟩
    rw [List.getElem?_append_left (List.getElem?_eq_some_iff.1 hn).1]
    exact hn
  | advance d =>
    cases h
    obtain ⟨n, g, hn, hleader, hrunning, hquiet, hanswer, hgranted, hpast, hown⟩ := hl
    exact ⟨n, g, hn, hleader, hrunning, hquiet, hanswer, hgranted, Nat.le_trans hpast (Nat.le_add_right _ _), hown⟩
  | act i a =>
    obtain ⟨n, key', n', hn, hs, rfl⟩ := Cluster.act_cases h
    by_cases hij : i = j
    · subst hij
      exact leads_own hl hr hn hs
    · exact leads_other hl hr hij hs

/-- In every run with leases of `L` seconds at most: the server refuses a script
only within `L` seconds of a grant to another process; where for `L` seconds no
other process's script reaches it, the next tick of a running process is granted
the key and that process leads; and a leader whose lease is not over at any step,
that is not stopped and of which no tick fails goes on leading, while the server
refuses everybody else. -/
theorem leadership_available (L : Nat) (es : List ClusterEvent) (hleases : ∀ ttl, .start ttl ∈ es → max 1 ttl ≤ L) (s : Cluster)
    (hrun : exec Cluster.step .empty es = some s) :
    (∀ j m key' m', s.nodes[j]? = some m → m.step s.clock s.key j .execute = some (key', m') → m'.tick = .answered 0 →
      ∃ i g, i ≠ j ∧ GrantedAt es i g ∧ s.clock < g + seconds L) ∧
    (∀ j fs s' m, (∀ e ∈ fs, ∀ i a, e = .act i a → a.runsScript = true → i = j) → (∀ ttl, .start ttl ∈ fs → max 1 ttl ≤ L) →
      exec Cluster.step s fs = some s' → s.clock + seconds L ≤ s'.clock → s'.nodes[j]? = some m → m.lifecycle = .running →
      m.tick = .sent → ∃ t, exec Cluster.step s' [.act j .execute, .act j .receive] = some t ∧ Leads j t) ∧
    ∀ j, Leads j s → ∀ fs s', exec Cluster.step s fs = some s' → Along Cluster.step (Refreshed j) s fs → Leads j s' ∧
      ∀ i m key' m', i ≠ j → s'.nodes[i]? = some m → m.step s'.clock s'.key i .execute = some (key', m') →
        Refreshed j s' (.act i .execute) → key' = s'.key ∧ m'.tick = .answered 0 := by
  have hrefused : ∀ es s, KeyFrom L es s → ∀ j, valueAt s.clock s.key ≠ none → valueAt s.clock s.key ≠ some j →
      ∃ i g, i ≠ j ∧ GrantedAt es i g ∧ s.clock < g + seconds L := by
    intro es s hk j hheld hother
    obtain ⟨i, hi⟩ := Option.ne_none_iff_exists'.1 hheld
    obtain ⟨d, hd⟩ := valueAt_some.1 hi
    obtain ⟨hkey, hlive⟩ := lookup_some.1 hd
    obtain ⟨g, d', hg, hdeadline, hle⟩ := hk.key _ hkey
    obtain rfl : d = some d' := hdeadline
    have hlt : s.clock < d' := live_iff.1 hlive
    exact ⟨i, g, fun hij => hother (hij ▸ hi), hg, Nat.lt_of_lt_of_le hlt hle⟩
  refine ⟨fun j m key' m' hm hstep hanswer => ?_, fun j fs s' m honly hnew hcontinued hlater hm hrunning hsent => ?_,
    fun j hleads fs s' hcontinued hfresh => ?_⟩
  · simp only [CoordinatorNode.step] at hstep
    split at hstep
    · rcases acquireOrRefreshLeader_cases s.clock j m.leaderTtl s.key with ⟨-, he⟩ | ⟨⟨owner, ho, hne⟩, -⟩
      · rw [he] at hstep
        cases hstep
        cases hanswer
      · refine hrefused es s (keyFrom_exec hleases hrun) j (by rw [ho]; exact Option.some_ne_none _) ?_
        rw [ho]
        exact fun hsame => hne (Option.some.inj hsame)
    · cases hstep
  · have hall : exec Cluster.step .empty (es ++ fs) = some s' := by
      rw [exec_append, hrun]
      exact hcontinued
    have hk : KeyFrom L (es ++ fs) s' := by
      refine keyFrom_exec (fun ttl hmem => ?_) hall
      rcases List.mem_append.1 hmem with hmem | hmem
      · exact hleases ttl hmem
      · exact hnew ttl hmem
    have hfree : valueAt s'.clock s'.key = none ∨ valueAt s'.clock s'.key = some j := by
      by_contra hheld
      obtain ⟨hheld, hother⟩ := not_or.1 hheld
      obtain ⟨i, g, hij, hgrant, hlt⟩ := hrefused _ s' hk j hheld hother
      -- The grant is one from before these `L` seconds.
      have hpast := (keyFrom_exec hleases hrun).past i g (hgrant.before honly hij)
      omega
    exact granted_leads hm hrunning (hk.quiet j m hm hrunning) hsent hfree
  · have hstay : Leads j s' :=
      exec_inv_along (Refreshed j) (Leads j) (fun _ _ _ hl hr hstep => leads_step hl hr hstep) hleads hfresh hcontinued
    refine ⟨hstay, fun i m key' m' hij hm hstep hr => ?_⟩
    have hvalue := hstay.valueAt hr
    have hrefuse : acquireOrRefreshLeader s'.clock i m.leaderTtl s'.key = (s'.key, 0) :=
      acquireOrRefreshLeader_refused hvalue (Ne.symm hij)
    simp only [CoordinatorNode.step, hrefuse] at hstep
    split at hstep <;> cases hstep
    exact ⟨rfl, rfl⟩

/-- A leader crashes, and another process starts. -/
def crashedLeader : List ClusterEvent :=
  [.start 15, .act 0 .send, .act 0 .execute, .act 0 .receive, .act 0 .crash, .start 15]

/-- Its first tick comes within the lease, the second after it. -/
def successorTicks : List ClusterEvent :=
  [.act 1 .send, .advance 3000, .act 1 .execute, .act 1 .receive, .advance 12000, .act 1 .begin_, .act 1 .send]

theorem leadership_available_crashed :
    ∃ s s' t, exec Cluster.step .empty crashedLeader = some s ∧ exec Cluster.step s successorTicks = some s' ∧
      s'.nodes.map (fun n => n.isLeaderAsync) = [true, false] ∧
      exec Cluster.step s' [.act 1 .execute, .act 1 .receive] = some t ∧ Leads 1 t := by
  have hleases : ∀ ttl, .start ttl ∈ crashedLeader → max 1 ttl ≤ 15 := by
    intro ttl hmem
    simp only [crashedLeader, List.mem_cons, ClusterEvent.start.injEq, reduceCtorEq, false_or, List.not_mem_nil, or_false] at hmem
    omega
  obtain ⟨-, htakes, -⟩ := leadership_available 15 crashedLeader hleases _ rfl
  have honly : ∀ e ∈ successorTicks, ∀ i a, e = .act i a → a.runsScript = true → i = 1 := by
    intro e he i a heq ha
    fin_cases he <;> cases heq <;> rfl
  obtain ⟨t, ht, hleads⟩ := htakes 1 successorTicks _ _ honly (fun ttl hmem => by simp [successorTicks] at hmem) rfl (by decide) rfl rfl rfl
  exact ⟨_, _, t, rfl, rfl, rfl, ht, hleads⟩

end DuckRun.Redis
