import DuckRun.Logging.InMemoryConsoleStore
import DuckRun.Lib.Counting
/-!
# Appends at the same time

Any number of `Append` calls run at once. `TryGetValue`, `GetOrAdd`, `TryRemove`,
the append to a log and every step under `_orderLock` are atomic; between them
another call may go on. A run that one call has created but not yet put in the
order list, and one it has taken from the list but not yet from `_byRun`, is
owed by that call: the runs with a log are those in the list and those owed.
-/

namespace DuckRun.Logging

open DuckRun.Lib DuckRun.Runtime

/-- Where an `Append` is. `bucket` is the log it will write to. -/
inductive AppendPhase where
  | lookup
  | getOrAdd
  /-- `TrackNewRun`, before the lock. -/
  | enter (bucket : Nat)
  | adding (bucket : Nat)
  | trimming (bucket : Nat)
  /-- The last run is out of the order list. -/
  | removing (bucket evict : Nat)
  | writing (bucket : Nat)
  | done
  deriving DecidableEq, Repr

structure AppendCall where
  entry : ConsoleLogEntry
  phase : AppendPhase
  deriving DecidableEq, Repr

structure ConsoleCalls where
  store : InMemoryConsoleStore
  /-- The call that holds `_orderLock`. -/
  orderLock : Option Nat
  calls : List AppendCall

inductive AppendEvent where
  | call (entry : ConsoleLogEntry)
  | act (i : Nat)
  deriving DecidableEq, Repr

section Machine
variable (maxPerRun : Nat) (maxRuns : Int)

/-- One step of call `i`: the store, the lock and the phase after it. -/
def AppendCall.step (i : Nat) (s : InMemoryConsoleStore) (orderLock : Option Nat) (c : AppendCall) :
    Option (InMemoryConsoleStore × Option Nat × AppendPhase) :=
  match c.phase with
  | .lookup =>
    match s.byRun c.entry.runId with
    | some existing => some (s, orderLock, .writing existing)
    | none => some (s, orderLock, .getOrAdd)
  | .getOrAdd =>
    match s.byRun c.entry.runId with
    | some bucket => some (s, orderLock, .writing bucket)
    | none => some (s.addRun c.entry.runId, orderLock, .enter s.logs.length)
  | .enter bucket => if orderLock = none then some (s, some i, .adding bucket) else none
  | .adding bucket => some ({ s with order := c.entry.runId :: s.order }, orderLock, .trimming bucket)
  | .trimming bucket =>
    if runCap maxRuns < s.order.length then
      s.order.getLast?.map fun evict => ({ s with order := s.order.dropLast }, orderLock, .removing bucket evict)
    else some (s, none, .writing bucket)
  | .removing bucket evict => some ({ s with byRun := Function.update s.byRun evict none }, orderLock, .trimming bucket)
  | .writing bucket => some (s.appendTo maxPerRun bucket c.entry, orderLock, .done)
  | .done => none

namespace ConsoleCalls

def start : ConsoleCalls := ⟨.new, none, []⟩

def step (s : ConsoleCalls) : AppendEvent → Option ConsoleCalls
  | .call entry => some { s with calls := s.calls ++ [⟨entry, .lookup⟩] }
  | .act i =>
    match s.calls[i]? with
    | some c =>
      (c.step maxPerRun maxRuns i s.store s.orderLock).map fun (store, orderLock, phase) =>
        ⟨store, orderLock, s.calls.set i { c with phase }⟩
    | none => none

/-- The entries the calls have, the newest in front. -/
def log (s : ConsoleCalls) : List ConsoleLogEntry := (s.calls.map AppendCall.entry).reverse

/-- No `Append` is in progress. -/
def Idle (s : ConsoleCalls) : Prop := ∀ c ∈ s.calls, c.phase = .done

/-- Sequential use: an `Append` is called when the ones before it have returned. -/
def Sequential (s : ConsoleCalls) (e : AppendEvent) : Prop := ∀ entry, e = .call entry → s.Idle

end ConsoleCalls

end Machine

/-! ## What a step can do -/

/-- The run a call has taken from one of the tables only. -/
def AppendCall.owed (c : AppendCall) : Option Nat :=
  match c.phase with
  | .enter _ | .adding _ => some c.entry.runId
  | .removing _ evict => some evict
  | .lookup | .getOrAdd | .trimming _ | .writing _ | .done => none

def AppendPhase.locked : AppendPhase → Bool
  | .adding _ | .trimming _ | .removing _ _ => true
  | .lookup | .getOrAdd | .enter _ | .writing _ | .done => false

/-- The steps of a call, one by one. -/
inductive AppendCall.Takes (maxPerRun : Nat) (maxRuns : Int) (i : Nat) (s : InMemoryConsoleStore) :
    Option Nat → AppendCall → InMemoryConsoleStore → Option Nat → AppendPhase → Prop where
  | found {lock entry bucket} : s.byRun entry.runId = some bucket →
      Takes maxPerRun maxRuns i s lock ⟨entry, .lookup⟩ s lock (.writing bucket)
  | missed {lock entry} : s.byRun entry.runId = none → Takes maxPerRun maxRuns i s lock ⟨entry, .lookup⟩ s lock .getOrAdd
  | got {lock entry bucket} : s.byRun entry.runId = some bucket →
      Takes maxPerRun maxRuns i s lock ⟨entry, .getOrAdd⟩ s lock (.writing bucket)
  | created {lock entry} : s.byRun entry.runId = none →
      Takes maxPerRun maxRuns i s lock ⟨entry, .getOrAdd⟩ (s.addRun entry.runId) lock (.enter s.logs.length)
  | locks {entry bucket} : Takes maxPerRun maxRuns i s none ⟨entry, .enter bucket⟩ s (some i) (.adding bucket)
  | addsFirst {lock entry bucket} : Takes maxPerRun maxRuns i s lock ⟨entry, .adding bucket⟩
      { s with order := entry.runId :: s.order } lock (.trimming bucket)
  | removesLast {lock entry bucket evict} {kept : List Nat} : s.order = kept ++ [evict] → runCap maxRuns ≤ kept.length →
      Takes maxPerRun maxRuns i s lock ⟨entry, .trimming bucket⟩ { s with order := kept } lock (.removing bucket evict)
  | unlocks {lock entry bucket} : s.order.length ≤ runCap maxRuns →
      Takes maxPerRun maxRuns i s lock ⟨entry, .trimming bucket⟩ s none (.writing bucket)
  | removes {lock entry bucket evict} : Takes maxPerRun maxRuns i s lock ⟨entry, .removing bucket evict⟩
      { s with byRun := Function.update s.byRun evict none } lock (.trimming bucket)
  | writes {lock entry bucket} : Takes maxPerRun maxRuns i s lock ⟨entry, .writing bucket⟩
      (s.appendTo maxPerRun bucket entry) lock .done

section Steps
variable {maxPerRun : Nat} {maxRuns : Int} {i : Nat} {s s' : InMemoryConsoleStore} {lock lock' : Option Nat}
  {c : AppendCall} {phase : AppendPhase}

theorem AppendCall.takes_of_step (h : c.step maxPerRun maxRuns i s lock = some (s', lock', phase)) :
    c.Takes maxPerRun maxRuns i s lock s' lock' phase := by
  obtain ⟨entry, before⟩ := c
  cases before with
  | lookup =>
    simp only [AppendCall.step] at h
    split at h <;> cases h
    · exact .found ‹_›
    · exact .missed ‹_›
  | getOrAdd =>
    simp only [AppendCall.step] at h
    split at h <;> cases h
    · exact .got ‹_›
    · exact .created ‹_›
  | enter bucket =>
    simp only [AppendCall.step] at h
    split at h
    · rename_i hfree
      cases h
      cases hfree
      exact .locks
    · cases h
  | adding bucket =>
    cases h
    exact .addsFirst
  | trimming bucket =>
    simp only [AppendCall.step] at h
    split at h
    · rename_i hlong
      rcases List.eq_nil_or_concat s.order with hnil | ⟨kept, evict, horder⟩
      · simp [hnil] at hlong
      · rw [List.concat_eq_append] at horder
        rw [horder, List.length_append, List.length_singleton] at hlong
        rw [horder, List.getLast?_concat, List.dropLast_concat] at h
        cases h
        exact .removesLast horder (Nat.le_of_lt_succ hlong)
    · cases h
      exact .unlocks (Nat.le_of_not_lt ‹_›)
  | removing bucket evict =>
    cases h
    exact .removes
  | writing bucket =>
    cases h
    exact .writes
  | done => cases h

/-- Whatever a call does with a run, it owes it or the tables agree about it. -/
theorem AppendCall.Takes.keys {rest : List Nat} (h : c.Takes maxPerRun maxRuns i s lock s' lock' phase)
    (hk : KeysOf s.byRun (s.order ++ (c.owed.toList ++ rest))) :
    KeysOf s'.byRun (s'.order ++ (({ c with phase } : AppendCall).owed.toList ++ rest)) := by
  cases h with
  | found | missed | got | locks | unlocks | writes => exact hk
  | created hnew => exact (hk.add hnew _).perm List.perm_middle.symm
  | addsFirst => exact hk.perm List.perm_middle
  | removesLast horder =>
    rw [horder] at hk
    exact hk.perm (by simp [AppendCall.owed])
  | removes => exact (hk.perm List.perm_middle).remove

/-- The lock changes hands only at its two ends. -/
theorem AppendCall.Takes.lock_cases (h : c.Takes maxPerRun maxRuns i s lock s' lock' phase) :
    (lock' = lock ∧ phase.locked = c.phase.locked) ∨ (lock = none ∧ lock' = some i) ∨
      (c.phase.locked = true ∧ lock' = none ∧ phase.locked = false ∧ s'.order.length ≤ runCap maxRuns) := by
  cases h with
  | locks => exact .inr (.inl ⟨rfl, rfl⟩)
  | unlocks hshort => exact .inr (.inr ⟨rfl, rfl, rfl, hshort⟩)
  | found | missed | got | created | addsFirst | removesLast | removes | writes => exact .inl ⟨rfl, rfl⟩

/-- Only a call inside the lock changes the order list. -/
theorem AppendCall.Takes.order_eq (h : c.Takes maxPerRun maxRuns i s lock s' lock' phase) (hout : c.phase.locked = false) :
    s'.order = s.order := by
  cases h with
  | found | missed | got | created | locks | writes => rfl
  | addsFirst | removesLast | unlocks | removes => cases hout

end Steps

/-! ## Any interleaving -/

structure AppendInv (maxRuns : Int) (s : ConsoleCalls) : Prop where
  keys : KeysOf s.store.byRun (s.store.order ++ s.calls.filterMap AppendCall.owed)
  holder : ∀ i c, s.calls[i]? = some c → c.phase.locked = true → s.orderLock = some i
  free : s.orderLock = none → s.store.order.length ≤ runCap maxRuns

section Run
variable {maxPerRun : Nat} {maxRuns : Int} {s s' : ConsoleCalls}

theorem ConsoleCalls.step_cases {e : AppendEvent} (h : s.step maxPerRun maxRuns e = some s') :
    (∃ entry, e = .call entry ∧ s' = { s with calls := s.calls ++ [⟨entry, .lookup⟩] }) ∨
    ∃ i c phase, e = .act i ∧ s.calls[i]? = some c ∧
      c.Takes maxPerRun maxRuns i s.store s.orderLock s'.store s'.orderLock phase ∧ s'.calls = s.calls.set i { c with phase } := by
  cases e with
  | call entry =>
    cases h
    exact .inl ⟨entry, rfl, rfl⟩
  | act i =>
    simp only [ConsoleCalls.step] at h
    split at h
    · rename_i c hc
      obtain ⟨⟨store, orderLock, phase⟩, hstep, hs'⟩ := Option.map_eq_some_iff.1 h
      cases hs'
      exact .inr ⟨i, c, phase, rfl, hc, AppendCall.takes_of_step hstep, rfl⟩
    · cases h

theorem appendInv_act {i : Nat} {c : AppendCall} {phase : AppendPhase} (hi : AppendInv maxRuns s) (hc : s.calls[i]? = some c)
    (ht : c.Takes maxPerRun maxRuns i s.store s.orderLock s'.store s'.orderLock phase)
    (hcalls : s'.calls = s.calls.set i { c with phase }) : AppendInv maxRuns s' where
  keys := by
    have howed := (filterMap_perm AppendCall.owed hc).append_left s.store.order
    have howed' := (filterMap_set_perm AppendCall.owed ({ c with phase } : AppendCall) hc).append_left s'.store.order
    rw [hcalls]
    exact (ht.keys (hi.keys.perm howed)).perm howed'.symm
  holder j d hj hlocked := by
    rw [hcalls] at hj
    rcases getElem?_set_cases hj with ⟨rfl, rfl⟩ | ⟨hne, hj⟩
    · rcases ht.lock_cases with ⟨hlock, hphase⟩ | ⟨-, hlock⟩ | ⟨-, -, hphase, -⟩
      · rw [hlock]
        exact hi.holder j c hc (hphase ▸ hlocked)
      · exact hlock
      · rw [hphase] at hlocked
        cases hlocked
    · -- The lock was the other call's, so this one neither took nor released it.
      have hother := hi.holder j d hj hlocked
      rcases ht.lock_cases with ⟨hlock, -⟩ | ⟨hfree, -⟩ | ⟨hown, -⟩
      · rw [hlock]
        exact hother
      · rw [hother] at hfree
        cases hfree
      · have hsame := hi.holder i c hc hown
        rw [hother] at hsame
        exact absurd (Option.some.inj hsame) hne
  free hfree := by
    rcases ht.lock_cases with ⟨hlock, -⟩ | ⟨-, hlock⟩ | ⟨-, -, -, hshort⟩
    · rw [hlock] at hfree
      have hout : c.phase.locked = false := by
        by_contra hlocked
        have hown := hi.holder i c hc (by simpa using hlocked)
        rw [hown] at hfree
        cases hfree
      rw [ht.order_eq hout]
      exact hi.free hfree
    · rw [hlock] at hfree
      cases hfree
    · exact hshort

theorem appendInv_step {e : AppendEvent} (hi : AppendInv maxRuns s) (h : s.step maxPerRun maxRuns e = some s') :
    AppendInv maxRuns s' := by
  obtain ⟨entry, rfl, rfl⟩ | ⟨i, c, phase, rfl, hc, ht, hcalls⟩ := ConsoleCalls.step_cases h
  · have howed : (s.calls ++ [(⟨entry, .lookup⟩ : AppendCall)]).filterMap AppendCall.owed = s.calls.filterMap AppendCall.owed := by
      rw [List.filterMap_append]
      exact List.append_nil _
    refine ⟨?_, fun i c hc hlocked => ?_, hi.free⟩
    · rw [howed]
      exact hi.keys
    · rcases getElem?_snoc_cases hc with ⟨-, rfl⟩ | hc
      · cases hlocked
      · exact hi.holder i c hc hlocked
  · exact appendInv_act hi hc ht hcalls

theorem appendInv_exec {es : List AppendEvent} (h : exec (ConsoleCalls.step maxPerRun maxRuns) .start es = some s) :
    AppendInv maxRuns s := by
  refine exec_inv (AppendInv maxRuns) (fun _ _ _ => appendInv_step) ?_ h
  refine ⟨⟨List.nodup_nil, fun id => ?_⟩, fun i c hc => ?_, fun _ => Nat.zero_le _⟩
  · simp [ConsoleCalls.start, InMemoryConsoleStore.new]
  · simp [ConsoleCalls.start] at hc

/-- With no call in progress nothing is owed. -/
theorem ConsoleCalls.Idle.owed (h : s.Idle) : s.calls.filterMap AppendCall.owed = [] := by
  refine List.filterMap_eq_nil_iff.2 fun c hc => ?_
  unfold AppendCall.owed
  rw [h c hc]

end Run

/-! ## One call after the other -/

/-- What is left of a call that nobody disturbs. -/
def AppendCall.finish (maxPerRun : Nat) (maxRuns : Int) (c : AppendCall) (s : InMemoryConsoleStore) : InMemoryConsoleStore :=
  match c.phase with
  | .lookup | .getOrAdd => s.append maxPerRun maxRuns c.entry
  | .enter bucket | .adding bucket => (s.trackNewRun maxRuns c.entry.runId).appendTo maxPerRun bucket c.entry
  | .trimming bucket => (s.trim maxRuns).appendTo maxPerRun bucket c.entry
  | .removing bucket evict =>
    (InMemoryConsoleStore.trim maxRuns { s with byRun := Function.update s.byRun evict none }).appendTo maxPerRun bucket c.entry
  | .writing bucket => s.appendTo maxPerRun bucket c.entry
  | .done => s

section Sequential
variable {maxPerRun : Nat} {maxRuns : Int}

/-- One turn of the `while`. -/
theorem InMemoryConsoleStore.trim_removesLast {s : InMemoryConsoleStore} {kept : List Nat} {evict : Nat}
    (horder : s.order = kept ++ [evict]) (hlong : runCap maxRuns ≤ kept.length) :
    InMemoryConsoleStore.trim maxRuns { s with order := kept, byRun := Function.update s.byRun evict none } = s.trim maxRuns := by
  unfold InMemoryConsoleStore.trim
  rw [horder, List.take_append_of_le_length hlong, List.drop_append_of_le_length hlong, List.reverse_append]
  rfl

theorem InMemoryConsoleStore.trim_short {s : InMemoryConsoleStore} (hshort : s.order.length ≤ runCap maxRuns) :
    s.trim maxRuns = s := by
  unfold InMemoryConsoleStore.trim
  rw [List.take_of_length_le hshort, List.drop_of_length_le hshort]
  rfl

theorem AppendCall.Takes.finish {i : Nat} {s s' : InMemoryConsoleStore} {lock lock' : Option Nat} {c : AppendCall}
    {phase : AppendPhase} (h : c.Takes maxPerRun maxRuns i s lock s' lock' phase) :
    ({ c with phase } : AppendCall).finish maxPerRun maxRuns s' = c.finish maxPerRun maxRuns s := by
  unfold AppendCall.finish
  cases h with
  | missed | locks | addsFirst | removes | writes => rfl
  | found hb | got hb | created hb =>
    dsimp only
    unfold InMemoryConsoleStore.append
    rw [hb]
  | removesLast horder hlong =>
    dsimp only
    rw [← InMemoryConsoleStore.trim_removesLast horder hlong]
  | unlocks hshort =>
    dsimp only
    rw [InMemoryConsoleStore.trim_short hshort]

/-- At most one call is in progress, and once it is over the store is as after the entries one by one. -/
structure InTurn (maxPerRun : Nat) (maxRuns : Int) (s : ConsoleCalls) : Prop where
  alone : ∀ (i : Nat) (c : AppendCall), s.calls[i]? = some c → c.phase ≠ .done →
    ∀ (j : Nat) (d : AppendCall), s.calls[j]? = some d → j ≠ i → d.phase = .done
  finish : ∀ c ∈ s.calls, c.phase ≠ .done → c.finish maxPerRun maxRuns s.store = .replay maxPerRun maxRuns s.log
  idle : s.Idle → s.store = .replay maxPerRun maxRuns s.log

theorem AppendCall.Takes.not_done {i : Nat} {s s' : InMemoryConsoleStore} {lock lock' : Option Nat} {c : AppendCall}
    {phase : AppendPhase} (h : c.Takes maxPerRun maxRuns i s lock s' lock' phase) : c.phase ≠ .done := by
  cases h <;> simp

theorem inTurn_call {s : ConsoleCalls} (hi : InTurn maxPerRun maxRuns s) (hidle : s.Idle) (entry : ConsoleLogEntry) :
    InTurn maxPerRun maxRuns { s with calls := s.calls ++ [⟨entry, .lookup⟩] } := by
  have hlog : ConsoleCalls.log { s with calls := s.calls ++ [⟨entry, .lookup⟩] } = entry :: s.log := by
    unfold ConsoleCalls.log
    rw [List.map_append, List.reverse_append]
    rfl
  refine ⟨fun i c hc hphase j d hd hne => ?_, fun c hc hphase => ?_, fun hall => ?_⟩
  · rcases getElem?_snoc_cases hd with ⟨rfl, -⟩ | hd
    · rcases getElem?_snoc_cases hc with ⟨rfl, -⟩ | hc
      · exact absurd rfl hne
      · exact absurd (hidle c (List.mem_of_getElem? hc)) hphase
    · exact hidle d (List.mem_of_getElem? hd)
  · rcases List.mem_append.1 hc with hc | hc
    · exact absurd (hidle c hc) hphase
    · cases List.mem_singleton.1 hc
      rw [hlog, InMemoryConsoleStore.replay, ← hi.idle hidle]
      rfl
  · have hnew := hall ⟨entry, .lookup⟩ (List.mem_append_right _ (List.mem_singleton_self _))
    cases hnew

theorem inTurn_act {s s' : ConsoleCalls} (hi : InTurn maxPerRun maxRuns s) {i : Nat} {c : AppendCall} {phase : AppendPhase}
    (hc : s.calls[i]? = some c) (ht : c.Takes maxPerRun maxRuns i s.store s.orderLock s'.store s'.orderLock phase)
    (hcalls : s'.calls = s.calls.set i { c with phase }) : InTurn maxPerRun maxRuns s' := by
  have hothers := hi.alone i c hc ht.not_done
  have hlog : s'.log = s.log := by
    unfold ConsoleCalls.log
    have hentry : ({ c with phase } : AppendCall).entry = c.entry := rfl
    rw [hcalls, map_set_eq hc hentry]
  have hfinish : ({ c with phase } : AppendCall).finish maxPerRun maxRuns s'.store = .replay maxPerRun maxRuns s'.log := by
    rw [ht.finish, hlog]
    exact hi.finish c (List.mem_of_getElem? hc) ht.not_done
  refine ⟨fun j d hd hphase k e he hne => ?_, fun d hd hphase => ?_, fun hall => ?_⟩
  · rw [hcalls] at hd he
    rcases getElem?_set_cases hd with ⟨rfl, -⟩ | ⟨hne', hd⟩
    · rcases getElem?_set_cases he with ⟨rfl, -⟩ | ⟨-, he⟩
      · exact absurd rfl hne
      · exact hothers k e he hne
    · exact absurd (hothers j d hd hne') hphase
  · obtain ⟨j, hd⟩ := List.mem_iff_getElem?.1 hd
    rw [hcalls] at hd
    rcases getElem?_set_cases hd with ⟨-, rfl⟩ | ⟨hne, hd⟩
    · exact hfinish
    · exact absurd (hothers j d hd hne) hphase
  · have hdone : phase = .done := by
      refine hall { c with phase } ?_
      rw [hcalls]
      exact List.mem_of_getElem? (List.getElem?_set_self (List.getElem?_eq_some_iff.1 hc).1)
    subst hdone
    exact hfinish

theorem inTurn_exec {es : List AppendEvent} {s : ConsoleCalls}
    (h : exec (ConsoleCalls.step maxPerRun maxRuns) .start es = some s)
    (hseq : Along (ConsoleCalls.step maxPerRun maxRuns) ConsoleCalls.Sequential .start es) : InTurn maxPerRun maxRuns s := by
  refine exec_inv_along ConsoleCalls.Sequential (InTurn maxPerRun maxRuns) (fun s e s' hi hs h => ?_) ?_ hseq h
  · obtain ⟨entry, rfl, rfl⟩ | ⟨i, c, phase, rfl, hc, ht, hcalls⟩ := ConsoleCalls.step_cases h
    · exact inTurn_call hi (hs entry rfl) entry
    · exact inTurn_act hi hc ht hcalls
  · exact ⟨fun i c hc => by simp [ConsoleCalls.start] at hc, fun c hc => by simp [ConsoleCalls.start] at hc, fun _ => rfl⟩

end Sequential

/-- The store under any interleaving, and what it returns when the calls take
turns: a run among the newest has its last entries since it was created, and a
run whose log was evicted has none. -/
theorem console_store_consistent (maxPerRun : Nat) (maxRuns : Int) (es : List AppendEvent) (s : ConsoleCalls)
    (hrun : exec (ConsoleCalls.step maxPerRun maxRuns) .start es = some s) :
    s.store.order.Nodup ∧
    (∀ id ∈ s.store.order, ∃ bucket, s.store.byRun id = some bucket) ∧
    (s.orderLock = none → s.store.order.length ≤ runCap maxRuns) ∧
    (s.Idle → ∀ id, (∃ bucket, s.store.byRun id = some bucket) ↔ id ∈ s.store.order) ∧
    (Along (ConsoleCalls.step maxPerRun maxRuns) ConsoleCalls.Sequential .start es → s.Idle → ∀ runId,
      s.store.getForRunAsync runId =
        if runId ∈ (createdRuns maxRuns s.log).take (runCap maxRuns) then (sinceCreated maxRuns runId s.log).rtake maxPerRun
        else []) := by
  have hi := appendInv_exec hrun
  refine ⟨(List.nodup_append.1 hi.keys.nodup).1, fun id hid => ?_, hi.free, fun hidle id => ?_, fun hseq hidle runId => ?_⟩
  · exact (hi.keys.mem id).2 (List.mem_append_left _ hid)
  · rw [hi.keys.mem id, hidle.owed, List.append_nil]
  · rw [(inTurn_exec hrun hseq).idle hidle]
    exact getForRunAsync_replay maxPerRun maxRuns s.log runId

/-- A line of run 1, then one of run 2, with room for one run. -/
def evictedRun : List AppendEvent :=
  .call ⟨1, 0, .info, "started"⟩ :: List.replicate 6 (.act 0) ++ .call ⟨2, 0, .info, "started"⟩ :: List.replicate 8 (.act 1)

theorem sequential_acts {maxPerRun : Nat} {maxRuns : Int} {s : ConsoleCalls} {k i : Nat} :
    Along (ConsoleCalls.step maxPerRun maxRuns) ConsoleCalls.Sequential s (List.replicate k (.act i)) := by
  have hacts : Along (ConsoleCalls.step maxPerRun maxRuns) (fun _ e => e = .act i) s (List.replicate k (.act i)) :=
    along_of_forall fun _ he => List.eq_of_mem_replicate he
  refine along_mono (fun s e he entry hcall => ?_) hacts
  rw [he] at hcall
  cases hcall

theorem evictedRun_sequential : Along (ConsoleCalls.step 1 1) ConsoleCalls.Sequential .start evictedRun := by
  refine along_cons (fun _ _ c hc => by cases hc) rfl (along_append_intro sequential_acts fun t ht => ?_)
  cases ht
  refine along_cons (fun _ _ c hc => ?_) rfl sequential_acts
  cases List.mem_singleton.1 hc
  rfl

theorem evicted_log :
    ¬ ∀ (maxPerRun : Nat) (maxRuns : Int) (es : List AppendEvent) (s : ConsoleCalls),
      exec (ConsoleCalls.step maxPerRun maxRuns) .start es = some s →
      Along (ConsoleCalls.step maxPerRun maxRuns) ConsoleCalls.Sequential .start es → s.Idle → ∀ runId,
        s.store.getForRunAsync runId = (sinceCreated maxRuns runId s.log).rtake maxPerRun := by
  intro h
  have hgone := h 1 1 evictedRun _ rfl evictedRun_sequential (by unfold ConsoleCalls.Idle; decide) 1
  cases hgone

/-- Two calls for run 1 meet at `GetOrAdd`, and one for run 2 waits for the lock
with its console made; with room for one run it then removes the other's. -/
def threeAtOnce : List AppendEvent :=
  [.call ⟨1, 0, .info, "started"⟩, .call ⟨1, 1, .warning, "late"⟩, .call ⟨2, 2, .info, "started"⟩,
    .act 0, .act 1, .act 0, .act 1, .act 2, .act 2, .act 0, .act 0, .act 1, .act 0, .act 2, .act 2, .act 0,
    .act 2, .act 2, .act 2, .act 2]

theorem console_store_consistent_raced :
    (∃ s, exec (ConsoleCalls.step 1 1) .start evictedRun = some s ∧
      s.store.getForRunAsync 1 = [] ∧ s.store.getForRunAsync 2 = [⟨2, 0, .info, "started"⟩]) ∧
    ∃ s, exec (ConsoleCalls.step 2 1) .start threeAtOnce = some s ∧ s.log.length = 3 ∧ s.store.order = [2] ∧
      ∀ id, (∃ bucket, s.store.byRun id = some bucket) ↔ id = 2 := by
  constructor
  · obtain ⟨s, hs, hidle, hlog⟩ : ∃ s, exec (ConsoleCalls.step 1 1) .start evictedRun = some s ∧ s.Idle ∧
        s.log = [⟨2, 0, .info, "started"⟩, ⟨1, 0, .info, "started"⟩] :=
      ⟨_, rfl, by unfold ConsoleCalls.Idle; decide, rfl⟩
    obtain ⟨-, -, -, -, hget⟩ := console_store_consistent 1 1 evictedRun s hs
    have hreplay := hget evictedRun_sequential hidle
    rw [hlog] at hreplay
    exact ⟨s, hs, hreplay 1, hreplay 2⟩
  · obtain ⟨s, hs, hidle, hlen, horder⟩ : ∃ s, exec (ConsoleCalls.step 2 1) .start threeAtOnce = some s ∧ s.Idle ∧
        s.log.length = 3 ∧ s.store.order = [2] :=
      ⟨_, rfl, by unfold ConsoleCalls.Idle; decide, rfl, rfl⟩
    obtain ⟨-, -, -, hkeys, -⟩ := console_store_consistent 2 1 threeAtOnce s hs
    refine ⟨s, hs, hlen, horder, fun id => (hkeys hidle id).trans ?_⟩
    rw [horder, List.mem_singleton]

end DuckRun.Logging
