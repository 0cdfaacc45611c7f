import DuckRun.Redis.SlotSet
import DuckRun.Runtime.Scheduler
import DuckRun.Lib.Rows
import Mathlib.Data.List.Nodup
import Mathlib.Data.List.Perm.Subperm
/-!
# The slot gate with and without Redis

`JobSlotGate` over any `IClusterCoordinator`, with the two there are. On a node
that is alone, the slots Redis keeps for a job are among those the node holds
itself, so that Redis has room wherever the local tracker has, as long as the
two read `MaxConcurrency` in the same way.
-/

namespace DuckRun.Redis

open DuckRun.Lib DuckRun.Lib.Expiry DuckRun.Runtime

/-! ## The gate -/

/-- When a call is made: by the server's clock, and by the node's in seconds. -/
structure Moment where
  now : Nat
  reading : Nat
  deriving DecidableEq, Repr

/-- What the gate uses of `IClusterCoordinator`. A slot it gives out is known by
the job's name and an id. -/
structure Coordinator (σ : Type) where
  tryAcquireSlot : Moment → String → Int → TimeSpan → Nat → σ → σ × Bool
  disposeSlot : Moment → String → Nat → σ → σ

/-- `LocalClusterCoordinator`: every slot is a `NoOpSlot`. -/
def localClusterCoordinator : Coordinator Unit where
  tryAcquireSlot _ _ _ _ _ s := (s, true)
  disposeSlot _ _ _ s := s

/-- `(int)Math.Max(1, ttl.TotalSeconds)`. -/
def ttlSeconds (ttl : TimeSpan) : Nat := (max 1 (ttl / 10000000)).toNat

/-- The slot keys of a server that only this node uses. -/
abbrev SlotKeys := String → Option (Entry (SortedSet Nat))

/-- `RedisClusterCoordinator`, connected to a healthy server. -/
def redisClusterCoordinator : Coordinator SlotKeys where
  tryAcquireSlot at_ jobName maxConcurrency ttl slotId keys :=
    let result := acquireSlot at_.now at_.reading maxConcurrency (ttlSeconds ttl) slotId (keys jobName)
    (Function.update keys jobName result.1, result.2 = 1)
  disposeSlot at_ jobName slotId keys := Function.update keys jobName (zrem at_.now slotId (keys jobName))

/-- A `JobSlot` that has not been disposed. -/
structure JobSlot where
  id : Nat
  /-- The key of its tracker. -/
  tracker : String
  /-- The job whose distributed slot it has. -/
  remote : Option String
  deriving DecidableEq, Repr

/-- `JobSlotGate`, its trackers and coordinator, the slots in use, and how the
calls of `TryAcquireAsync` were answered. -/
structure JobSlotGate (σ : Type) where
  trackers : String → Option ConcurrencyTracker
  coordinator : σ
  slots : List JobSlot
  answers : List Bool

def JobSlotGate.new {σ : Type} (coordinator : σ) : JobSlotGate σ := ⟨fun _ => none, coordinator, [], []⟩

inductive GateCall where
  | tryAcquire (job : JobDescriptor) (ttl : TimeSpan) (at_ : Moment)
  /-- `DisposeAsync` of the slot that the call with this number got. -/
  | dispose (id : Nat) (at_ : Moment)

def ConcurrencyTracker.tryAcquire (t : ConcurrencyTracker) : Option ConcurrencyTracker :=
  if t.current ≥ t.max then none else some { t with current := t.current + 1 }

section Gate
variable {σ : Type} (fold : String → String) (coordinator : Coordinator σ)

/-- `LocalConcurrencyTrackers.GetTracker`. -/
def JobSlotGate.getTracker (s : JobSlotGate σ) (job : JobDescriptor) : ConcurrencyTracker :=
  (s.trackers (fold job.name)).getD (.new job.maxConcurrency)

def JobSlotGate.tryAcquireAsync (s : JobSlotGate σ) (job : JobDescriptor) (ttl : TimeSpan) (at_ : Moment) : JobSlotGate σ :=
  let key := fold job.name
  let id := s.answers.length
  let tracker := s.getTracker fold job
  match ConcurrencyTracker.tryAcquire tracker with
  | none => { s with trackers := Function.update s.trackers key (some tracker), answers := s.answers ++ [false] }
  | some tracker' =>
    if job.finite then
      let result := coordinator.tryAcquireSlot at_ job.name job.maxConcurrency ttl id s.coordinator
      if result.2 then
        { trackers := Function.update s.trackers key (some tracker')
          coordinator := result.1
          slots := s.slots ++ [⟨id, key, some job.name⟩]
          answers := s.answers ++ [true] }
      else
        { trackers := Function.update s.trackers key (some tracker'.release)
          coordinator := result.1
          slots := s.slots
          answers := s.answers ++ [false] }
    else
      { s with
        trackers := Function.update s.trackers key (some tracker')
        slots := s.slots ++ [⟨id, key, none⟩]
        answers := s.answers ++ [true] }

/-- `JobSlot.DisposeAsync`: once, the distributed half first. -/
def JobSlotGate.dispose (s : JobSlotGate σ) (id : Nat) (at_ : Moment) : JobSlotGate σ :=
  match s.slots.find? (·.id = id) with
  | none => s
  | some slot =>
    { s with
      trackers := Function.update s.trackers slot.tracker ((s.trackers slot.tracker).map ConcurrencyTracker.release)
      coordinator := match slot.remote with
        | some jobName => coordinator.disposeSlot at_ jobName id s.coordinator
        | none => s.coordinator
      slots := s.slots.filter fun other => other.id ≠ id }

def JobSlotGate.step (s : JobSlotGate σ) : GateCall → JobSlotGate σ
  | .tryAcquire job ttl at_ => s.tryAcquireAsync fold coordinator job ttl at_
  | .dispose id at_ => s.dispose coordinator id at_

end Gate

/-- The calls on a node without Redis. -/
def runLocal (fold : String → String) (calls : List GateCall) : JobSlotGate Unit :=
  calls.foldl (JobSlotGate.step fold localClusterCoordinator) (.new ())

/-- The same calls on a node that is alone in its cluster. -/
def runRedis (fold : String → String) (calls : List GateCall) : JobSlotGate SlotKeys :=
  calls.foldl (JobSlotGate.step fold redisClusterCoordinator) (.new fun _ => none)

/-- The job of a call of `TryAcquireAsync`. -/
def GateCall.job : GateCall → Option JobDescriptor
  | .tryAcquire job _ _ => some job
  | .dispose _ _ => none

/-! ## The ids in a slot key -/

section Listed
variable {key : Option (Entry (SortedSet Nat))} {ids : List Nat} {slotId : Nat}

/-- The members of a key are distinct and among `ids`. -/
def Listed (ids : List Nat) (key : Option (Entry (SortedSet Nat))) : Prop :=
  ∀ e, key = some e → (e.value.map Prod.fst).Nodup ∧ ∀ m ∈ e.value, m.1 ∈ ids

theorem Listed.mono {ids' : List Nat} (h : Listed ids key) (hsub : ids ⊆ ids') : Listed ids' key :=
  fun e he => ⟨(h e he).1, fun m hm => hsub ((h e he).2 m hm)⟩

/-- A key with some of its members left. -/
theorem Listed.withMembers {ids' : List Nat} {e : Entry (SortedSet Nat)} {p : Nat × Nat → Bool} (h : Listed ids (some e))
    (hkeep : ∀ m : Nat × Nat, p m = true → m.1 ∈ ids → m.1 ∈ ids') :
    Listed ids' (Redis.withMembers e (e.value.filter p)) := by
  obtain ⟨hnodup, hmem⟩ := h e rfl
  unfold Redis.withMembers
  split
  · exact nofun
  · rintro _ ⟨⟩
    refine ⟨hnodup.sublist (List.filter_sublist.map Prod.fst), fun m hm => ?_⟩
    obtain ⟨hm, hp⟩ := List.mem_filter.1 hm
    exact hkeep m hp (hmem m hm)

theorem Listed.zrem {ids' : List Nat} (h : Listed ids key) (now : Nat) (hkeep : ∀ id ∈ ids, id ≠ slotId → id ∈ ids') :
    Listed ids' (zrem now slotId key) := by
  unfold Redis.zrem
  cases hl : lookup now key with
  | none => exact nofun
  | some e =>
    rw [(lookup_some.1 hl).1] at h
    exact h.withMembers fun m hp hm => hkeep m.1 hm (of_decide_eq_true hp)

theorem Listed.purge (h : Listed ids key) (now lo hi : Nat) : Listed ids (zremrangebyscore now lo hi key) := by
  unfold zremrangebyscore
  cases hl : lookup now key with
  | none => exact nofun
  | some e =>
    rw [(lookup_some.1 hl).1] at h
    exact h.withMembers fun _ _ hm => hm

theorem Listed.acquireSlot (h : Listed ids key) (now reading : Nat) (maxConcurrency : Int) (ttl slotId : Nat) :
    Listed (ids ++ [slotId]) (acquireSlot now reading maxConcurrency ttl slotId key).1 := by
  have hpurged := h.purge now 0 reading
  unfold Redis.acquireSlot
  dsimp only
  split
  · intro e he
    unfold expire at he
    obtain ⟨e1, hl, rfl⟩ := Option.map_eq_some_iff.1 he
    have hadd := (lookup_some.1 hl).1
    unfold zadd at hadd
    split at hadd
    · cases hadd
      exact ⟨List.nodup_singleton slotId, fun m hm => by rw [List.mem_singleton.1 hm]; exact List.mem_append_right _ (List.mem_singleton.2 rfl)⟩
    · rename_i e2 hl2
      cases hadd
      obtain ⟨hnodup, hmem⟩ := hpurged e2 (lookup_some.1 hl2).1
      dsimp only
      constructor
      · rw [List.map_append, List.nodup_append]
        refine ⟨hnodup.sublist (List.filter_sublist.map Prod.fst), List.nodup_singleton slotId, ?_⟩
        intro id hid other hother
        obtain ⟨m, hm, rfl⟩ := List.mem_map.1 hid
        rw [List.mem_singleton.1 hother]
        exact of_decide_eq_true (List.mem_filter.1 hm).2
      · intro m hm
        rcases List.mem_append.1 hm with hm | hm
        · exact List.mem_append_left _ (hmem m (List.mem_of_mem_filter hm))
        · rw [List.mem_singleton.1 hm]
          exact List.mem_append_right _ (List.mem_singleton.2 rfl)
  · exact hpurged.mono (List.subset_append_left _ _)

/-- What a script counts is at most the number of ids. -/
theorem Listed.kept_length (h : Listed ids key) (now reading : Nat) : (kept now reading key).length ≤ ids.length := by
  refine Nat.le_trans (List.length_filter_le _ _) ?_
  cases hl : lookup now key with
  | none =>
    rw [members_of_none hl]
    exact Nat.zero_le _
  | some e =>
    obtain ⟨hnodup, hmem⟩ := h e (lookup_some.1 hl).1
    have hsub : e.value.map Prod.fst ⊆ ids := by
      intro id hid
      obtain ⟨m, hm, rfl⟩ := List.mem_map.1 hid
      exact hmem m hm
    rw [members_of_some hl, ← List.length_map Prod.fst]
    exact (hnodup.subperm hsub).length_le

end Listed

/-! ## One node -/

/-- The gate without what its coordinator knows. -/
def JobSlotGate.withoutRedis (s : JobSlotGate SlotKeys) : JobSlotGate Unit := ⟨s.trackers, (), s.slots, s.answers⟩

/-- How many slots a tracker counts. -/
def JobSlotGate.inUse {σ : Type} (s : JobSlotGate σ) (key : String) : Nat := (s.slots.filter fun slot => slot.tracker = key).length

/-- The ids of the slots with a distributed half. -/
def JobSlotGate.remoteIds {σ : Type} (s : JobSlotGate σ) (jobName : String) : List Nat :=
  (s.slots.filter fun slot => slot.remote = some jobName).map JobSlot.id

section Runs
variable {fold : String → String} {registry : JobRegistry fold}

/-- A gate that has only been asked for jobs with a cap of at least one. -/
structure Alone (registry : JobRegistry fold) (s : JobSlotGate SlotKeys) : Prop where
  ids : (s.slots.map JobSlot.id).Nodup
  issued : ∀ slot ∈ s.slots, slot.id < s.answers.length
  remote : ∀ slot ∈ s.slots, ∀ jobName, slot.remote = some jobName → slot.tracker = fold jobName
  tracked : ∀ job ∈ registry.all, ∀ tr, s.trackers (fold job.name) = some tr →
    1 ≤ job.maxConcurrency ∧ tr.max = job.maxConcurrency ∧ tr.current = s.inUse (fold job.name)
  untracked : ∀ key, s.trackers key = none → s.inUse key = 0
  listed : ∀ jobName, Listed (s.remoteIds jobName) (s.coordinator jobName)

theorem alone_new : Alone registry (.new fun _ => none) where
  ids := List.nodup_nil
  issued := nofun
  remote := nofun
  tracked := nofun
  untracked _ _ := rfl
  listed _ := nofun

/-- Two registered jobs with one tracker are one job. -/
theorem eq_of_fold {job job' : JobDescriptor} (h : job ∈ registry.all) (h' : job' ∈ registry.all)
    (hfold : fold job.name = fold job'.name) : job = job' :=
  List.inj_on_of_nodup_map registry.distinct h h' hfold

theorem getTracker_spec {s : JobSlotGate SlotKeys} (ha : Alone registry s) {job : JobDescriptor} (hjob : job ∈ registry.all)
    (hcap : 1 ≤ job.maxConcurrency) :
    (s.getTracker fold job).max = job.maxConcurrency ∧ (s.getTracker fold job).current = s.inUse (fold job.name) := by
  unfold JobSlotGate.getTracker
  cases htr : s.trackers (fold job.name) with
  | some tr => exact (ha.tracked job hjob tr htr).2
  | none =>
    rw [ha.untracked _ htr]
    exact ⟨if_neg (by omega), rfl⟩

/-- What Redis holds for a job are slots that its tracker counts. -/
theorem remoteIds_le {s : JobSlotGate SlotKeys} (ha : Alone registry s) (jobName : String) :
    (s.remoteIds jobName).length ≤ s.inUse (fold jobName) := by
  unfold JobSlotGate.remoteIds JobSlotGate.inUse
  rw [List.length_map, ← List.countP_eq_length_filter, ← List.countP_eq_length_filter]
  refine List.countP_mono_left fun slot hslot hremote => ?_
  exact decide_eq_true (ha.remote slot hslot jobName (of_decide_eq_true hremote))

/-- A tracker of the job with new contents, the slots and keys as they are. -/
theorem alone_tracker {s : JobSlotGate SlotKeys} (ha : Alone registry s) {job : JobDescriptor} (hjob : job ∈ registry.all)
    (hcap : 1 ≤ job.maxConcurrency) {tr : ConcurrencyTracker} (hmax : tr.max = job.maxConcurrency)
    (hcurrent : tr.current = s.inUse (fold job.name)) (answer : Bool) :
    Alone registry { s with trackers := Function.update s.trackers (fold job.name) (some tr), answers := s.answers ++ [answer] } where
  ids := ha.ids
  issued slot hslot := by
    have hlt := ha.issued slot hslot
    simp only [List.length_append, List.length_singleton]
    omega
  remote := ha.remote
  tracked job' hjob' tr' htr' := by
    dsimp only at htr'
    by_cases hkey : fold job'.name = fold job.name
    · obtain rfl := eq_of_fold hjob' hjob hkey
      rw [Function.update_self] at htr'
      cases htr'
      exact ⟨hcap, hmax, hcurrent⟩
    · rw [Function.update_of_ne hkey] at htr'
      exact ha.tracked job' hjob' tr' htr'
  untracked key hnone := by
    dsimp only at hnone
    by_cases hkey : key = fold job.name
    · rw [hkey, Function.update_self] at hnone
      cases hnone
    · rw [Function.update_of_ne hkey] at hnone
      exact ha.untracked key hnone
  listed := ha.listed

/-- A slot is granted. -/
theorem alone_granted {s : JobSlotGate SlotKeys} (ha : Alone registry s) {job : JobDescriptor} (hjob : job ∈ registry.all)
    (hcap : 1 ≤ job.maxConcurrency) (tr : ConcurrencyTracker) (hmax : tr.max = job.maxConcurrency)
    (hcurrent : tr.current = s.inUse (fold job.name) + 1) (remote : Option String) (hremote : ∀ n, remote = some n → n = job.name)
    {keys : SlotKeys}
    (hkeys : ∀ n, Listed (s.remoteIds n ++ if remote = some n then [s.answers.length] else []) (keys n)) :
    Alone registry
      { trackers := Function.update s.trackers (fold job.name) (some tr)
        coordinator := keys
        slots := s.slots ++ [⟨s.answers.length, fold job.name, remote⟩]
        answers := s.answers ++ [true] } where
  ids := by
    simp only [List.map_append, List.map_singleton]
    refine List.nodup_append.2 ⟨ha.ids, List.nodup_singleton _, ?_⟩
    intro id hid other hother
    obtain ⟨slot, hslot, rfl⟩ := List.mem_map.1 hid
    rw [List.mem_singleton.1 hother]
    exact Nat.ne_of_lt (ha.issued slot hslot)
  issued slot hslot := by
    simp only [List.length_append, List.length_singleton]
    rcases List.mem_append.1 hslot with hslot | hslot
    · have hlt := ha.issued slot hslot
      omega
    · rw [List.mem_singleton.1 hslot]
      exact Nat.lt_succ_self _
  remote slot hslot jobName hname := by
    rcases List.mem_append.1 hslot with hslot | hslot
    · exact ha.remote slot hslot jobName hname
    · rw [List.mem_singleton.1 hslot] at hname ⊢
      rw [hremote jobName hname]
  tracked job' hjob' tr' htr' := by
    dsimp only at htr'
    by_cases hkey : fold job'.name = fold job.name
    · obtain rfl := eq_of_fold hjob' hjob hkey
      rw [Function.update_self] at htr'
      cases htr'
      refine ⟨hcap, hmax, ?_⟩
      rw [hcurrent]
      simp [JobSlotGate.inUse]
    · rw [Function.update_of_ne hkey] at htr'
      have hold := ha.tracked job' hjob' tr' htr'
      simpa [JobSlotGate.inUse, Ne.symm hkey] using hold
  untracked key hnone := by
    dsimp only at hnone
    by_cases hkey : key = fold job.name
    · rw [hkey, Function.update_self] at hnone
      cases hnone
    · rw [Function.update_of_ne hkey] at hnone
      have hold := ha.untracked key hnone
      simpa [JobSlotGate.inUse, Ne.symm hkey] using hold
  listed jobName := by
    refine (hkeys jobName).mono fun id hid => ?_
    unfold JobSlotGate.remoteIds at hid ⊢
    rw [List.filter_append, List.map_append]
    rcases List.mem_append.1 hid with hid | hid
    · exact List.mem_append_left _ hid
    · split at hid
      · rename_i heq
        simpa [heq] using Or.inr (List.mem_singleton.1 hid)
      · cases hid

/-- Redis has room where the tracker has. -/
theorem redis_grants {s : JobSlotGate SlotKeys} (ha : Alone registry s) {job : JobDescriptor}
    (hroom : (s.inUse (fold job.name) : Int) < job.maxConcurrency) (ttl : TimeSpan) (at_ : Moment) :
    (redisClusterCoordinator.tryAcquireSlot at_ job.name job.maxConcurrency ttl s.answers.length s.coordinator).2 = true := by
  have hkept := (ha.listed job.name).kept_length at_.now at_.reading
  have hle := remoteIds_le ha job.name
  refine decide_eq_true (acquireSlot_granted ?_).1
  omega

theorem listed_granted {s : JobSlotGate SlotKeys} (ha : Alone registry s) (job : JobDescriptor) (ttl : TimeSpan) (at_ : Moment)
    (n : String) :
    Listed (s.remoteIds n ++ if some job.name = some n then [s.answers.length] else [])
      ((redisClusterCoordinator.tryAcquireSlot at_ job.name job.maxConcurrency ttl s.answers.length s.coordinator).1 n) := by
  simp only [redisClusterCoordinator]
  by_cases hn : n = job.name
  · rw [hn, Function.update_self, if_pos rfl]
    exact (ha.listed job.name).acquireSlot _ _ _ _ _
  · rw [Function.update_of_ne hn, if_neg fun heq => hn (Option.some.inj heq).symm, List.append_nil]
    exact ha.listed n

/-- A call for a job with a cap of at least one. -/
theorem tryAcquire_step {s : JobSlotGate SlotKeys} (ha : Alone registry s) {job : JobDescriptor} (hjob : job ∈ registry.all)
    (hcap : 1 ≤ job.maxConcurrency) (ttl : TimeSpan) (at_ : Moment) :
    Alone registry (s.tryAcquireAsync fold redisClusterCoordinator job ttl at_) ∧
      s.withoutRedis.tryAcquireAsync fold localClusterCoordinator job ttl at_ =
        (s.tryAcquireAsync fold redisClusterCoordinator job ttl at_).withoutRedis := by
  obtain ⟨hmax, hcurrent⟩ := getTracker_spec ha hjob hcap
  have hsame : s.withoutRedis.getTracker fold job = s.getTracker fold job := rfl
  unfold JobSlotGate.tryAcquireAsync
  rw [hsame]
  generalize s.getTracker fold job = tr at hmax hcurrent
  by_cases hfull : tr.current ≥ tr.max
  · have hnone : ConcurrencyTracker.tryAcquire tr = none := if_pos hfull
    simp only [hnone]
    exact ⟨alone_tracker ha hjob hcap hmax hcurrent false, rfl⟩
  · have hsome : ConcurrencyTracker.tryAcquire tr = some ⟨tr.max, tr.current + 1⟩ := if_neg hfull
    have hone : tr.current + 1 = s.inUse (fold job.name) + 1 := congrArg (· + 1) hcurrent
    simp only [hsome]
    by_cases hfinite : job.finite = true
    · have hroom : (s.inUse (fold job.name) : Int) < job.maxConcurrency := by omega
      have hgrants := redis_grants ha hroom ttl at_
      rw [if_pos hfinite, if_pos hfinite, if_pos hgrants]
      exact ⟨alone_granted ha hjob hcap ⟨tr.max, tr.current + 1⟩ hmax hone (some job.name)
        (fun n hn => (Option.some.inj hn).symm) (listed_granted ha job ttl at_), rfl⟩
    · rw [if_neg hfinite, if_neg hfinite]
      refine ⟨alone_granted ha hjob hcap ⟨tr.max, tr.current + 1⟩ hmax hone none (fun n hn => by cases hn) fun n => ?_, rfl⟩
      rw [if_neg (by simp), List.append_nil]
      exact ha.listed n

/-- A call for a job whose cap is zero or less: the tracker takes it for no cap, Redis for no room. -/
theorem tryAcquire_uncapped {s : JobSlotGate SlotKeys} (ha : Alone registry s) {job : JobDescriptor} (hjob : job ∈ registry.all)
    (hcap : ¬ 1 ≤ job.maxConcurrency) (ttl : TimeSpan) (at_ : Moment) :
    (s.withoutRedis.tryAcquireAsync fold localClusterCoordinator job ttl at_).answers = s.answers ++ [true] ∧
      (s.tryAcquireAsync fold redisClusterCoordinator job ttl at_).answers = s.answers ++ [false] := by
  have hnone : s.trackers (fold job.name) = none := by
    cases htr : s.trackers (fold job.name) with
    | none => rfl
    | some tr => exact absurd (ha.tracked job hjob tr htr).1 hcap
  have htracker : s.getTracker fold job = ⟨intMaxValue, 0⟩ := by
    unfold JobSlotGate.getTracker ConcurrencyTracker.new
    rw [hnone, Option.getD_none, if_pos (by omega)]
  have hsame : s.withoutRedis.getTracker fold job = s.getTracker fold job := rfl
  have hsome : ConcurrencyTracker.tryAcquire ⟨intMaxValue, 0⟩ = some ⟨intMaxValue, 1⟩ := rfl
  have hfinite : job.finite = true := by
    refine decide_eq_true ?_
    unfold intMaxValue
    omega
  have hrefused : (redisClusterCoordinator.tryAcquireSlot at_ job.name job.maxConcurrency ttl s.answers.length s.coordinator).2 =
      false := by
    refine decide_eq_false ?_
    rw [(acquireSlot_refused (by omega)).1]
    exact Nat.zero_ne_one
  unfold JobSlotGate.tryAcquireAsync
  rw [hsame, htracker]
  simp only [hsome, hfinite, if_true, hrefused, Bool.false_eq_true, if_false, and_true]
  rfl

/-- A disposal. -/
theorem dispose_step {s : JobSlotGate SlotKeys} (ha : Alone registry s) (id : Nat) (at_ : Moment) :
    Alone registry (s.dispose redisClusterCoordinator id at_) ∧
      s.withoutRedis.dispose localClusterCoordinator id at_ = (s.dispose redisClusterCoordinator id at_).withoutRedis := by
  unfold JobSlotGate.dispose
  have hslots : s.withoutRedis.slots = s.slots := rfl
  rw [hslots]
  cases hfind : s.slots.find? (fun slot => slot.id = id) with
  | none => exact ⟨ha, rfl⟩
  | some slot =>
    obtain ⟨hslot, rfl⟩ := find_row_mem hfind
    have hperm := perm_delete_row ha.ids hslot
    have hcount : ∀ key, s.inUse key = (s.slots.filter fun other => other.id ≠ slot.id).countP (·.tracker = key) +
        if slot.tracker = key then 1 else 0 := by
      intro key
      unfold JobSlotGate.inUse
      rw [← List.countP_eq_length_filter, hperm.countP_eq, List.countP_cons]
      simp only [decide_eq_true_eq]
    refine ⟨⟨nodup_map_filter _ ha.ids, fun other hother => ha.issued other (List.mem_of_mem_filter hother),
      fun other hother => ha.remote other (List.mem_of_mem_filter hother), ?_, ?_, ?_⟩, ?_⟩
    · intro job hjob tr htr
      dsimp only at htr
      unfold JobSlotGate.inUse
      rw [← List.countP_eq_length_filter]
      by_cases hkey : fold job.name = slot.tracker
      · rw [hkey, Function.update_self] at htr
        obtain ⟨old, hold, rfl⟩ := Option.map_eq_some_iff.1 htr
        rw [← hkey] at hold
        obtain ⟨hcap, hmax, hcurrent⟩ := ha.tracked job hjob old hold
        refine ⟨hcap, hmax, ?_⟩
        rw [hcount, if_pos hkey.symm] at hcurrent
        simp only [ConcurrencyTracker.release, hcurrent]
        omega
      · rw [Function.update_of_ne hkey] at htr
        obtain ⟨hcap, hmax, hcurrent⟩ := ha.tracked job hjob tr htr
        refine ⟨hcap, hmax, ?_⟩
        rw [hcurrent, hcount, if_neg (Ne.symm hkey), Nat.add_zero]
    · intro key hnone
      dsimp only at hnone
      unfold JobSlotGate.inUse
      rw [← List.countP_eq_length_filter]
      by_cases hkey : key = slot.tracker
      · -- The slot's tracker was there.
        rw [hkey, Function.update_self, Option.map_eq_none_iff] at hnone
        have hzero := ha.untracked _ hnone
        rw [hcount, if_pos rfl] at hzero
        omega
      · rw [Function.update_of_ne hkey] at hnone
        have hzero := ha.untracked key hnone
        rw [hcount, if_neg (Ne.symm hkey)] at hzero
        omega
    · intro jobName
      -- A slot that stays keeps its member; only the one disposed may be gone from the set.
      have hstays : ∀ id ∈ s.remoteIds jobName, id ≠ slot.id →
          id ∈ ((s.slots.filter fun other => other.id ≠ slot.id).filter fun other => other.remote = some jobName).map JobSlot.id := by
        intro id hid hne
        obtain ⟨other, hother, rfl⟩ := List.mem_map.1 hid
        obtain ⟨hmem, hremote⟩ := List.mem_filter.1 hother
        exact List.mem_map_of_mem (List.mem_filter.2 ⟨List.mem_filter.2 ⟨hmem, decide_eq_true hne⟩, hremote⟩)
      have hother : slot.remote ≠ some jobName → Listed
          (((s.slots.filter fun other => other.id ≠ slot.id).filter fun other => other.remote = some jobName).map JobSlot.id)
          (s.coordinator jobName) := by
        intro hne
        refine (ha.listed jobName).mono fun id hid => hstays id hid fun heq => ?_
        obtain ⟨other, hother, hid⟩ := List.mem_map.1 hid
        obtain ⟨hmem, hremote⟩ := List.mem_filter.1 hother
        obtain rfl := List.inj_on_of_nodup_map ha.ids hmem hslot (hid.trans heq)
        exact hne (of_decide_eq_true hremote)
      unfold JobSlotGate.remoteIds
      cases hremote : slot.remote with
      | none =>
        simp only [hremote]
        exact hother (by simp [hremote])
      | some name =>
        simp only [hremote, redisClusterCoordinator]
        by_cases hname : jobName = name
        · rw [hname, Function.update_self]
          exact (ha.listed name).zrem at_.now (hname ▸ hstays)
        · rw [Function.update_of_ne hname]
          exact hother (by simpa [hremote] using Ne.symm hname)
    · cases hremote : slot.remote <;> rfl

/-- Answers are given once. -/
theorem answers_grow {σ : Type} {coordinator : Coordinator σ} (calls : List GateCall) (s : JobSlotGate σ) :
    s.answers <+: (calls.foldl (JobSlotGate.step fold coordinator) s).answers ∧
      (calls.foldl (JobSlotGate.step fold coordinator) s).answers.length =
        s.answers.length + calls.countP fun call => call.job.isSome := by
  induction calls generalizing s with
  | nil => exact ⟨List.prefix_rfl, rfl⟩
  | cons call calls ih =>
    obtain ⟨hpre, hlen⟩ := ih (s.step fold coordinator call)
    have hone : ∃ added, (s.step fold coordinator call).answers = s.answers ++ added ∧
        added.length = if call.job.isSome then 1 else 0 := by
      cases call with
      | tryAcquire job ttl at_ =>
        simp only [JobSlotGate.step, JobSlotGate.tryAcquireAsync]
        split
        · exact ⟨[false], rfl, rfl⟩
        · split
          · split
            · exact ⟨[true], rfl, rfl⟩
            · exact ⟨[false], rfl, rfl⟩
          · exact ⟨[true], rfl, rfl⟩
      | dispose id at_ =>
        simp only [JobSlotGate.step, JobSlotGate.dispose]
        split <;> exact ⟨[], (List.append_nil _).symm, rfl⟩
    obtain ⟨added, hadded, hcount⟩ := hone
    rw [hadded] at hpre hlen
    rw [List.foldl_cons, List.countP_cons, hlen, List.length_append, hcount]
    exact ⟨(List.prefix_append _ _).trans hpre, by omega⟩

/-- From a state with the invariant on, the gates agree exactly on calls for capped jobs. -/
theorem agree_from_iff (calls : List GateCall) (hcalls : ∀ call ∈ calls, ∀ job, call.job = some job → job ∈ registry.all)
    {s : JobSlotGate SlotKeys} (ha : Alone registry s) :
    (calls.foldl (JobSlotGate.step fold localClusterCoordinator) s.withoutRedis).answers =
        (calls.foldl (JobSlotGate.step fold redisClusterCoordinator) s).answers ↔
      ∀ call ∈ calls, ∀ job, call.job = some job → 1 ≤ job.maxConcurrency := by
  induction calls generalizing s with
  | nil => exact ⟨nofun, fun _ => rfl⟩
  | cons call calls ih =>
    obtain ⟨hcall, hrest⟩ := List.forall_mem_cons.1 hcalls
    rw [List.foldl_cons, List.foldl_cons, List.forall_mem_cons]
    cases call with
    | dispose id at_ =>
      obtain ⟨ha', heq⟩ := dispose_step ha id at_
      simp only [JobSlotGate.step]
      rw [heq, ih hrest ha']
      exact ⟨fun h => ⟨nofun, h⟩, fun h => h.2⟩
    | tryAcquire job ttl at_ =>
      have hjob := hcall job rfl
      simp only [JobSlotGate.step]
      by_cases hcap : 1 ≤ job.maxConcurrency
      · obtain ⟨ha', heq⟩ := tryAcquire_step ha hjob hcap ttl at_
        rw [heq, ih hrest ha']
        refine ⟨fun h => ⟨?_, h⟩, fun h => h.2⟩
        rintro _ ⟨⟩
        exact hcap
      · -- The two answers differ, and stay where they are.
        obtain ⟨hlocal, hredis⟩ := tryAcquire_uncapped ha hjob hcap ttl at_
        refine ⟨fun h => ?_, fun h => absurd (h.1 job rfl) hcap⟩
        have hpre := (@answers_grow fold _ localClusterCoordinator calls
          (s.withoutRedis.tryAcquireAsync fold localClusterCoordinator job ttl at_)).1
        have hpre' := (@answers_grow fold _ redisClusterCoordinator calls
          (s.tryAcquireAsync fold redisClusterCoordinator job ttl at_)).1
        rw [hlocal] at hpre
        rw [hredis, ← h] at hpre'
        have heq := (List.prefix_of_prefix_length_le hpre hpre' (by simp)).eq_of_length (by simp)
        cases List.append_cancel_left heq

/-- For every registry and every sequence of calls for its jobs, at whatever
times and with whatever TTL: the gate over Redis answers each call as the gate
without Redis does exactly if every job asked for has a `MaxConcurrency` of at
least one. -/
theorem gates_agree_iff (registry : JobRegistry fold) (calls : List GateCall)
    (hcalls : ∀ call ∈ calls, ∀ job, call.job = some job → job ∈ registry.all) :
    (runLocal fold calls).answers = (runRedis fold calls).answers ↔
      ∀ call ∈ calls, ∀ job, call.job = some job → 1 ≤ job.maxConcurrency :=
  agree_from_iff calls hcalls alone_new

end Runs

/-- A slot, a refusal, and the slot again after it was disposed. -/
def oneAfterAnother : List GateCall :=
  [.tryAcquire everyMinute 36000000000 ⟨0, 0⟩, .tryAcquire everyMinute 36000000000 ⟨10, 0⟩, .dispose 0 ⟨20, 0⟩,
    .tryAcquire everyMinute 36000000000 ⟨30, 0⟩]

theorem gates_agree_oneAfterAnother : (runLocal id oneAfterAnother).answers = (runRedis id oneAfterAnother).answers :=
  (gates_agree_iff everyMinuteRegistry oneAfterAnother (by simp [oneAfterAnother, everyMinuteRegistry, GateCall.job])).2
    (by simp [oneAfterAnother, everyMinute, GateCall.job])

/-- A job added with `MaxConcurrency = 0`. -/
def unlimitedJob : JobDescriptor := { everyMinute with maxConcurrency := 0 }

theorem zero_cap_refused :
    ¬ ∀ (fold : String → String) (registry : JobRegistry fold) (calls : List GateCall),
      (∀ call ∈ calls, ∀ job, call.job = some job → job ∈ registry.all) →
      (runLocal fold calls).answers = (runRedis fold calls).answers := by
  intro hall
  have hagree := hall id ⟨[unlimitedJob], by decide⟩ [.tryAcquire unlimitedJob 36000000000 ⟨0, 0⟩]
    (by simp [GateCall.job])
  revert hagree
  decide

end DuckRun.Redis
