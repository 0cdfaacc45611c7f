import DuckRun.Runtime.Jobs
import DuckRun.Lib.Machine
import DuckRun.Lib.Recent
/-!
# The console store in memory

`InMemoryConsoleStore` keeps a `ConsoleRunLog` for each run that logs, and an
order list of these runs, newest first; when the list is longer than the cap,
the oldest run loses its log. `append` is a call that nobody disturbs: it finds
the run's log or makes one, and after any such calls a run among the newest has
the last lines logged to it, and any other none.
-/

namespace DuckRun.Logging

open DuckRun.Lib DuckRun.Runtime

inductive DuckRunLogLevel where
  | info
  | warning
  | error
  deriving DecidableEq, Repr

structure ConsoleLogEntry where
  runId : Nat
  timestamp : Instant
  level : DuckRunLogLevel
  message : String
  deriving DecidableEq, Repr

/-- The queue of a `ConsoleRunLog`. -/
abbrev ConsoleRunLog := List ConsoleLogEntry

/-- `_byRun` leads to a log by its reference, the place in `logs`; a log that
was removed from `_byRun` stays there for the calls that have its reference. -/
structure InMemoryConsoleStore where
  byRun : Nat → Option Nat
  logs : List ConsoleRunLog
  order : List Nat

/-- `Math.Max(1, maxRuns)`. -/
def runCap (maxRuns : Int) : Nat := (max 1 maxRuns).toNat

namespace InMemoryConsoleStore

def new : InMemoryConsoleStore := ⟨fun _ => none, [], []⟩

section Store
variable (maxPerRun : Nat) (maxRuns : Int) (s : InMemoryConsoleStore)

/-- `bucket.Append(entry)`. -/
def appendTo (bucket : Nat) (entry : ConsoleLogEntry) : InMemoryConsoleStore :=
  { s with logs := s.logs.modify bucket fun log => enqueue maxPerRun log entry }

/-- `_byRun.GetOrAdd`, where it adds a new log. -/
def addRun (runId : Nat) : InMemoryConsoleStore :=
  { s with byRun := Function.update s.byRun runId (some s.logs.length), logs := s.logs ++ [[]] }

/-- The `while` of `TrackNewRun`: the last run of the order list goes from the list and then from `_byRun`. -/
def trim : InMemoryConsoleStore :=
  { s with
    byRun := removeAll s.byRun (s.order.drop (runCap maxRuns)).reverse
    order := s.order.take (runCap maxRuns) }

def trackNewRun (runId : Nat) : InMemoryConsoleStore := trim maxRuns { s with order := runId :: s.order }

def append (entry : ConsoleLogEntry) : InMemoryConsoleStore :=
  match s.byRun entry.runId with
  | some existing => s.appendTo maxPerRun existing entry
  | none => ((s.addRun entry.runId).trackNewRun maxRuns entry.runId).appendTo maxPerRun s.logs.length entry

def getForRunAsync (runId : Nat) : List ConsoleLogEntry :=
  match s.byRun runId with
  | some bucket => (s.logs[bucket]?).getD []
  | none => []

/-- The store after these entries, the newest in front, one call after the other. -/
def replay : List ConsoleLogEntry → InMemoryConsoleStore
  | [] => new
  | entry :: earlier => (replay earlier).append maxPerRun maxRuns entry

end Store

end InMemoryConsoleStore

/-! ## What a console is for -/

section Spec
variable (maxRuns : Int)

/-- The runs in the order they were created, the newest in front: a run is
created by an entry that does not find it among the newest. -/
def createdRuns : List ConsoleLogEntry → List Nat
  | [] => []
  | entry :: earlier =>
    if entry.runId ∈ (createdRuns earlier).take (runCap maxRuns) then createdRuns earlier
    else entry.runId :: createdRuns earlier

/-- The entries appended to a run since it was last created, in order. -/
def sinceCreated (runId : Nat) : List ConsoleLogEntry → List ConsoleLogEntry
  | [] => []
  | entry :: earlier =>
    if entry.runId = runId then
      if runId ∈ (createdRuns maxRuns earlier).take (runCap maxRuns) then sinceCreated runId earlier ++ [entry] else [entry]
    else sinceCreated runId earlier

end Spec

theorem one_le_runCap (maxRuns : Int) : 1 ≤ runCap maxRuns := by
  unfold runCap
  omega

/-! ## One undisturbed call -/

namespace InMemoryConsoleStore

/-- The log `_byRun` has for a run. -/
def contents (s : InMemoryConsoleStore) (runId : Nat) : Option ConsoleRunLog := (s.byRun runId).bind fun bucket => s.logs[bucket]?

theorem getForRunAsync_eq (s : InMemoryConsoleStore) (runId : Nat) : s.getForRunAsync runId = (s.contents runId).getD [] := by
  unfold getForRunAsync contents
  cases s.byRun runId <;> rfl

/-- The references in `_byRun` are logs, each of one run. -/
structure Referenced (s : InMemoryConsoleStore) : Prop where
  bound : ∀ runId bucket, s.byRun runId = some bucket → bucket < s.logs.length
  single : ∀ runId runId' bucket, s.byRun runId = some bucket → s.byRun runId' = some bucket → runId = runId'

section Call
variable {maxPerRun : Nat} {maxRuns : Int} {s : InMemoryConsoleStore}

theorem Referenced.contents_some (h : Referenced s) {runId bucket : Nat} (hb : s.byRun runId = some bucket) :
    ∃ log, s.logs[bucket]? = some log ∧ s.contents runId = some log := by
  have hlog := List.getElem?_eq_getElem (h.bound runId bucket hb)
  exact ⟨_, hlog, by rw [contents, hb, Option.bind_some, hlog]⟩

theorem contents_appendTo (h : Referenced s) {runId bucket : Nat} (hb : s.byRun runId = some bucket)
    (entry : ConsoleLogEntry) (id : Nat) :
    (s.appendTo maxPerRun bucket entry).contents id =
      if id = runId then (s.contents id).map fun log => enqueue maxPerRun log entry else s.contents id := by
  unfold appendTo contents
  dsimp only
  by_cases hid : id = runId
  · rw [if_pos hid, hid, hb]
    simp
  · rw [if_neg hid]
    cases hr : s.byRun id with
    | none => rfl
    | some bucket' =>
      have hne : bucket ≠ bucket' := by
        rintro rfl
        exact hid (h.single id runId bucket hr hb)
      simp [hne]

theorem referenced_appendTo (h : Referenced s) (bucket : Nat) (entry : ConsoleLogEntry) :
    Referenced (s.appendTo maxPerRun bucket entry) where
  bound runId bucket' hb := by
    have hlt := h.bound runId bucket' hb
    unfold appendTo
    simpa using hlt
  single := h.single

theorem contents_addRun (h : Referenced s) (runId id : Nat) :
    (s.addRun runId).contents id = if id = runId then some [] else s.contents id := by
  unfold addRun contents
  dsimp only
  by_cases hid : id = runId
  · simp [hid]
  · rw [if_neg hid, Function.update_of_ne hid]
    cases hr : s.byRun id with
    | none => rfl
    | some bucket =>
      simp only [Option.bind_some]
      rw [List.getElem?_append_left (h.bound id bucket hr)]

theorem referenced_addRun (h : Referenced s) (runId : Nat) : Referenced (s.addRun runId) where
  bound id bucket hb := by
    unfold addRun at hb ⊢
    dsimp only at hb ⊢
    rw [List.length_append, List.length_singleton]
    rw [Function.update_apply] at hb
    split at hb
    · cases hb
      exact Nat.lt_succ_self _
    · exact Nat.lt_succ_of_lt (h.bound id bucket hb)
  single id id' bucket hb hb' := by
    unfold addRun at hb hb'
    dsimp only at hb hb'
    rw [Function.update_apply] at hb hb'
    -- The new reference is beyond all the others.
    split at hb <;> split at hb'
    · rename_i h1 h2
      exact h1.trans h2.symm
    · cases hb
      exact absurd (h.bound id' _ hb') (Nat.lt_irrefl _)
    · cases hb'
      exact absurd (h.bound id _ hb) (Nat.lt_irrefl _)
    · exact h.single id id' bucket hb hb'

theorem contents_trim (s : InMemoryConsoleStore) (id : Nat) :
    (s.trim maxRuns).contents id = if id ∈ s.order.drop (runCap maxRuns) then none else s.contents id := by
  unfold trim contents
  dsimp only
  rw [removeAll_apply]
  simp only [List.mem_reverse]
  split <;> rfl

theorem referenced_trim (h : Referenced s) : Referenced (s.trim maxRuns) := by
  have hsub : ∀ id bucket, (s.trim maxRuns).byRun id = some bucket → s.byRun id = some bucket := by
    intro id bucket hb
    unfold trim at hb
    dsimp only at hb
    rw [removeAll_apply] at hb
    split at hb
    · cases hb
    · exact hb
  exact ⟨fun id bucket hb => h.bound id bucket (hsub id bucket hb),
    fun id id' bucket hb hb' => h.single id id' bucket (hsub id bucket hb) (hsub id' bucket hb')⟩

end Call

end InMemoryConsoleStore

/-! ## Call after call -/

/-- The newest runs have the last entries since they were created, and the other runs have no log. -/
structure ReplayInv (maxPerRun : Nat) (maxRuns : Int) (log : List ConsoleLogEntry) (s : InMemoryConsoleStore) : Prop where
  referenced : s.Referenced
  order : s.order = (createdRuns maxRuns log).take (runCap maxRuns)
  nodup : s.order.Nodup
  contents : ∀ id, s.contents id = if id ∈ s.order then some ((sinceCreated maxRuns id log).rtake maxPerRun) else none

section Replay
variable {maxPerRun : Nat} {maxRuns : Int} {log : List ConsoleLogEntry} {s : InMemoryConsoleStore}

theorem ReplayInv.byRun_iff (hi : ReplayInv maxPerRun maxRuns log s) (id : Nat) :
    (∃ bucket, s.byRun id = some bucket) ↔ id ∈ s.order := by
  have hc := hi.contents id
  constructor
  · rintro ⟨bucket, hb⟩
    obtain ⟨l, -, hl⟩ := hi.referenced.contents_some hb
    by_contra hid
    rw [if_neg hid, hl] at hc
    cases hc
  · intro hid
    rw [if_pos hid] at hc
    unfold InMemoryConsoleStore.contents at hc
    obtain ⟨bucket, hb, -⟩ := Option.bind_eq_some_iff.1 hc
    exact ⟨bucket, hb⟩

theorem ReplayInv.append_found (hi : ReplayInv maxPerRun maxRuns log s) {entry : ConsoleLogEntry}
    (hmem : entry.runId ∈ s.order) : ReplayInv maxPerRun maxRuns (entry :: log) (s.append maxPerRun maxRuns entry) := by
  obtain ⟨bucket, hb⟩ := (hi.byRun_iff _).2 hmem
  have happend : s.append maxPerRun maxRuns entry = s.appendTo maxPerRun bucket entry := by
    unfold InMemoryConsoleStore.append
    rw [hb]
  have hfound : entry.runId ∈ (createdRuns maxRuns log).take (runCap maxRuns) := hi.order ▸ hmem
  have hcreated : createdRuns maxRuns (entry :: log) = createdRuns maxRuns log := if_pos hfound
  rw [happend]
  refine { referenced := ?_, order := ?_, nodup := hi.nodup, contents := fun id => ?_ }
  · exact InMemoryConsoleStore.referenced_appendTo hi.referenced bucket entry
  · rw [hcreated]
    exact hi.order
  · rw [InMemoryConsoleStore.contents_appendTo hi.referenced hb, hi.contents id]
    have horder : (s.appendTo maxPerRun bucket entry).order = s.order := rfl
    rw [horder]
    by_cases hid : id = entry.runId
    · subst hid
      rw [if_pos rfl, if_pos hmem, if_pos hmem, Option.map_some, enqueue_rtake]
      rw [sinceCreated, if_pos rfl, if_pos hfound]
    · rw [if_neg hid, sinceCreated, if_neg (Ne.symm hid)]

theorem ReplayInv.append_created (hi : ReplayInv maxPerRun maxRuns log s) {entry : ConsoleLogEntry}
    (hmem : entry.runId ∉ s.order) : ReplayInv maxPerRun maxRuns (entry :: log) (s.append maxPerRun maxRuns entry) := by
  have hb : s.byRun entry.runId = none := by
    cases hb : s.byRun entry.runId with
    | none => rfl
    | some bucket => exact absurd ((hi.byRun_iff _).1 ⟨bucket, hb⟩) hmem
  have happend : s.append maxPerRun maxRuns entry =
      ((s.addRun entry.runId).trackNewRun maxRuns entry.runId).appendTo maxPerRun s.logs.length entry := by
    unfold InMemoryConsoleStore.append
    rw [hb]
  have hnew : entry.runId ∉ (createdRuns maxRuns log).take (runCap maxRuns) := hi.order ▸ hmem
  have hcreated : createdRuns maxRuns (entry :: log) = entry.runId :: createdRuns maxRuns log := if_neg hnew
  have hnodup : (entry.runId :: s.order).Nodup := List.nodup_cons.2 ⟨hmem, hi.nodup⟩
  have horder : (s.append maxPerRun maxRuns entry).order = (entry.runId :: s.order).take (runCap maxRuns) := by
    rw [happend]
    rfl
  have hadded := InMemoryConsoleStore.referenced_addRun hi.referenced entry.runId
  have hreferenced : ((s.addRun entry.runId).trackNewRun maxRuns entry.runId).Referenced :=
    InMemoryConsoleStore.referenced_trim ⟨hadded.bound, hadded.single⟩
  -- The new run is the first of the list, so with a cap of one or more it is not trimmed.
  have hkept : entry.runId ∈ (entry.runId :: s.order).take (runCap maxRuns) := by
    obtain ⟨n, hn⟩ := Nat.exists_eq_add_of_le' (one_le_runCap maxRuns)
    rw [hn, List.take_succ_cons]
    exact List.mem_cons_self
  have hdisjoint : ∀ id ∈ (entry.runId :: s.order).take (runCap maxRuns), id ∉ (entry.runId :: s.order).drop (runCap maxRuns) := by
    intro id htake hdrop
    rw [← List.take_append_drop (runCap maxRuns) (entry.runId :: s.order)] at hnodup
    exact (List.nodup_append.1 hnodup).2.2 id htake id hdrop rfl
  have hown : ((s.addRun entry.runId).trackNewRun maxRuns entry.runId).byRun entry.runId = some s.logs.length := by
    unfold InMemoryConsoleStore.trackNewRun InMemoryConsoleStore.trim
    dsimp only
    rw [removeAll_apply]
    simp only [List.mem_reverse]
    exact (if_neg (hdisjoint _ hkept)).trans (Function.update_self _ _ _)
  refine { referenced := ?_, order := ?_, nodup := ?_, contents := fun id => ?_ }
  · rw [happend]
    exact InMemoryConsoleStore.referenced_appendTo hreferenced _ entry
  · rw [horder, hcreated, hi.order]
    exact push_take (runCap maxRuns) entry.runId (createdRuns maxRuns log)
  · rw [horder]
    exact hnodup.sublist (List.take_sublist _ _)
  · rw [horder, happend, InMemoryConsoleStore.contents_appendTo hreferenced hown]
    have htrimmed : ((s.addRun entry.runId).trackNewRun maxRuns entry.runId).contents id =
        if id ∈ (entry.runId :: s.order).drop (runCap maxRuns) then none else (s.addRun entry.runId).contents id :=
      InMemoryConsoleStore.contents_trim _ id
    rw [htrimmed, InMemoryConsoleStore.contents_addRun hi.referenced]
    by_cases hid : id = entry.runId
    · subst hid
      rw [if_pos rfl, if_neg (hdisjoint _ hkept), if_pos rfl, if_pos hkept, sinceCreated, if_pos rfl, if_neg hnew]
      rfl
    · rw [if_neg hid, if_neg hid, sinceCreated, if_neg (Ne.symm hid), hi.contents id]
      by_cases hdrop : id ∈ (entry.runId :: s.order).drop (runCap maxRuns)
      · rw [if_pos hdrop, if_neg fun htake => hdisjoint id htake hdrop]
      · rw [if_neg hdrop]
        have hiff : id ∈ s.order ↔ id ∈ (entry.runId :: s.order).take (runCap maxRuns) := by
          constructor
          · intro hold
            have hall : id ∈ (entry.runId :: s.order).take (runCap maxRuns) ++ (entry.runId :: s.order).drop (runCap maxRuns) := by
              rw [List.take_append_drop]
              exact List.mem_cons_of_mem _ hold
            exact (List.mem_append.1 hall).resolve_right hdrop
          · exact fun htake => (List.mem_cons.1 (List.mem_of_mem_take htake)).resolve_left hid
        by_cases hold : id ∈ s.order
        · rw [if_pos hold, if_pos (hiff.1 hold)]
        · rw [if_neg hold, if_neg fun htake => hold (hiff.2 htake)]

theorem replayInv (maxPerRun : Nat) (maxRuns : Int) (log : List ConsoleLogEntry) :
    ReplayInv maxPerRun maxRuns log (.replay maxPerRun maxRuns log) := by
  induction log with
  | nil =>
    refine { referenced := ⟨nofun, nofun⟩, order := ?_, nodup := List.nodup_nil, contents := fun id => ?_ }
    · simp [InMemoryConsoleStore.replay, InMemoryConsoleStore.new, createdRuns]
    · simp [InMemoryConsoleStore.replay, InMemoryConsoleStore.new, InMemoryConsoleStore.contents]
  | cons entry log ih =>
    by_cases hmem : entry.runId ∈ (InMemoryConsoleStore.replay maxPerRun maxRuns log).order
    · exact ih.append_found hmem
    · exact ih.append_created hmem

/-- What `GetForRunAsync` returns after these entries. -/
theorem getForRunAsync_replay (maxPerRun : Nat) (maxRuns : Int) (log : List ConsoleLogEntry) (runId : Nat) :
    (InMemoryConsoleStore.replay maxPerRun maxRuns log).getForRunAsync runId =
      if runId ∈ (createdRuns maxRuns log).take (runCap maxRuns) then (sinceCreated maxRuns runId log).rtake maxPerRun else [] := by
  have hi := replayInv maxPerRun maxRuns log
  rw [InMemoryConsoleStore.getForRunAsync_eq, hi.contents, ← hi.order]
  split <;> rfl

/-- What was appended since the log was last created is the end of what was logged. -/
theorem sinceCreated_suffix (maxRuns : Int) (runId : Nat) (log : List ConsoleLogEntry) :
    sinceCreated maxRuns runId log <:+ (log.filter fun entry => entry.runId = runId).reverse := by
  induction log with
  | nil => exact List.suffix_refl _
  | cons entry log ih =>
    by_cases hrun : entry.runId = runId
    · rw [sinceCreated, if_pos hrun, List.filter_cons_of_pos (by simpa using hrun), List.reverse_cons]
      split
      · obtain ⟨before, hbefore⟩ := ih
        exact ⟨before, by rw [← List.append_assoc, hbefore]⟩
      · exact List.suffix_append _ _
    · rw [sinceCreated, if_neg hrun, List.filter_cons_of_neg (by simpa using hrun)]
      exact ih

theorem getForRunAsync_suffix (maxPerRun : Nat) (maxRuns : Int) (entries : List ConsoleLogEntry) (runId : Nat) :
    (InMemoryConsoleStore.replay maxPerRun maxRuns entries.reverse).getForRunAsync runId <:+
      entries.filter fun entry => entry.runId = runId := by
  rw [getForRunAsync_replay]
  split
  · have hsuffix := sinceCreated_suffix maxRuns runId entries.reverse
    rw [List.filter_reverse, List.reverse_reverse] at hsuffix
    exact (List.drop_suffix _ _).trans hsuffix
  · exact List.nil_suffix

end Replay

end DuckRun.Logging
