import DuckRun.Redis.Scripts
import DuckRun.Lib.Machine
/-!
# The slots of one job

The members of a slot key after each script, and the specification of the key:
on one clock it holds, up to slots whose time is over, exactly the slots that
were granted and not released (`SlotInv`).
-/

namespace DuckRun.Redis

open DuckRun.Lib DuckRun.Lib.Expiry

section Members
variable {κ : Type} [DecidableEq κ]

/-- What a command at `now` finds in the set. -/
def members (now : Nat) (key : Option (Entry (SortedSet κ))) : SortedSet κ := (valueAt now key).getD []

omit [DecidableEq κ] in
theorem members_of_none {now : Nat} {key : Option (Entry (SortedSet κ))} (h : lookup now key = none) :
    members now key = [] := by
  unfold members
  rw [valueAt_eq_none.2 h]
  rfl

omit [DecidableEq κ] in
theorem members_of_some {now : Nat} {key : Option (Entry (SortedSet κ))} {e : Entry (SortedSet κ)}
    (h : lookup now key = some e) : members now key = e.value := by
  unfold members valueAt
  rw [h]
  rfl

omit [DecidableEq κ] in
theorem members_live {now : Nat} {set : SortedSet κ} {d : Option Nat}
    (h : (⟨set, d⟩ : Entry (SortedSet κ)).live now = true) : members now (some ⟨set, d⟩) = set :=
  members_of_some (lookup_some.2 ⟨rfl, h⟩)

omit [DecidableEq κ] in
theorem members_withMembers {now : Nat} {e : Entry (SortedSet κ)} (h : e.live now = true) (set : SortedSet κ) :
    members now (withMembers e set) = set := by
  unfold withMembers
  split
  · rename_i hnil
    exact (List.isEmpty_iff.1 hnil).symm
  · exact members_live h

omit [DecidableEq κ] in
theorem members_zremrangebyscore (now reading : Nat) (key : Option (Entry (SortedSet κ))) :
    members now (zremrangebyscore now 0 reading key) = (members now key).filter fun m => reading < m.2 := by
  unfold zremrangebyscore
  cases h : lookup now key with
  | none =>
    rw [members_of_none h]
    rfl
  | some e =>
    have hset : (e.value.filter fun m => !(decide (0 ≤ m.2) && decide (m.2 ≤ reading))) =
        e.value.filter fun m => decide (reading < m.2) := by
      refine List.filter_congr fun m _ => ?_
      rw [Bool.eq_iff_iff]
      simp
    dsimp only
    rw [hset, members_withMembers (lookup_some.1 h).2, members_of_some h]

theorem members_zrem (now : Nat) (member : κ) (key : Option (Entry (SortedSet κ))) :
    members now (zrem now member key) = (members now key).filter fun m => m.1 ≠ member := by
  unfold zrem
  cases h : lookup now key with
  | none =>
    rw [members_of_none h]
    rfl
  | some e =>
    dsimp only
    rw [members_withMembers (lookup_some.1 h).2, members_of_some h]

theorem members_zadd (now score : Nat) (member : κ) (key : Option (Entry (SortedSet κ))) :
    members now (zadd now score member key) =
      (members now key).filter (fun m => m.1 ≠ member) ++ [(member, score)] := by
  unfold zadd
  cases h : lookup now key with
  | none =>
    rw [members_of_none h]
    rfl
  | some e =>
    rw [members_of_some h]
    exact members_live (lookup_some.1 h).2

omit [DecidableEq κ] in
theorem members_expire {now ttl : Nat} (h : 0 < ttl) (key : Option (Entry (SortedSet κ))) :
    members now (expire now ttl key) = members now key := by
  unfold expire
  cases hl : lookup now key with
  | none =>
    rw [members_of_none hl]
    rfl
  | some e =>
    rw [members_of_some hl]
    refine members_live (live_iff.2 ?_)
    unfold seconds
    omega

/-! ## The scripts -/

/-- The set at `now` without what a purge at `reading` removes. -/
def kept (now reading : Nat) (key : Option (Entry (SortedSet κ))) : SortedSet κ :=
  (members now key).filter fun m => reading < m.2

theorem acquireSlot_granted {now reading ttl : Nat} {maxConcurrency : Int} {slotId : κ}
    {key : Option (Entry (SortedSet κ))} (h : (kept now reading key).length < maxConcurrency) :
    (acquireSlot now reading maxConcurrency ttl slotId key).2 = 1 ∧
      members now (acquireSlot now reading maxConcurrency ttl slotId key).1 =
        (kept now reading key).filter (fun m => m.1 ≠ slotId) ++ [(slotId, reading + ttl)] := by
  have hcard : zcard now (zremrangebyscore now 0 reading key) = (kept now reading key).length := by
    rw [kept, ← members_zremrangebyscore]
    rfl
  unfold acquireSlot
  dsimp only
  rw [hcard, if_pos h, members_expire (by omega), members_zadd, members_zremrangebyscore]
  exact ⟨rfl, rfl⟩

theorem acquireSlot_refused {now reading ttl : Nat} {maxConcurrency : Int} {slotId : κ}
    {key : Option (Entry (SortedSet κ))} (h : ¬ (kept now reading key).length < maxConcurrency) :
    (acquireSlot now reading maxConcurrency ttl slotId key).2 = 0 ∧
      members now (acquireSlot now reading maxConcurrency ttl slotId key).1 = kept now reading key := by
  have hcard : zcard now (zremrangebyscore now 0 reading key) = (kept now reading key).length := by
    rw [kept, ← members_zremrangebyscore]
    rfl
  unfold acquireSlot
  dsimp only
  rw [hcard, if_neg h, members_zremrangebyscore]
  exact ⟨rfl, rfl⟩

/-! ## The deadline of the key -/

/-- The key outlives each of its members by a minute. -/
def Outlives (key : Option (Entry (SortedSet κ))) : Prop :=
  ∀ e, key = some e → ∃ d, e.deadline = some d ∧ ∀ m ∈ e.value, seconds (m.2 + 60) ≤ d

omit [DecidableEq κ] in
/-- Another set under the same deadline, with no later scores. -/
theorem outlives_withMembers {e : Entry (SortedSet κ)} (h : Outlives (some e)) {set : SortedSet κ}
    (hsub : ∀ m ∈ set, m ∈ e.value) : Outlives (withMembers e set) := by
  obtain ⟨d, hd, hall⟩ := h e rfl
  unfold withMembers
  split
  · rintro _ ⟨⟩
  · rintro _ ⟨⟩
    exact ⟨d, hd, fun x hx => hall x (hsub x hx)⟩

omit [DecidableEq κ] in
theorem outlives_purge {key : Option (Entry (SortedSet κ))} (h : Outlives key) (now lo hi : Nat) :
    Outlives (zremrangebyscore now lo hi key) := by
  unfold zremrangebyscore
  cases hl : lookup now key with
  | none => rintro _ ⟨⟩
  | some e => exact outlives_withMembers ((lookup_some.1 hl).1 ▸ h) fun m hm => List.mem_of_mem_filter hm

theorem outlives_zrem {key : Option (Entry (SortedSet κ))} (h : Outlives key) (now : Nat) (member : κ) :
    Outlives (zrem now member key) := by
  unfold zrem
  cases hl : lookup now key with
  | none => rintro _ ⟨⟩
  | some e => exact outlives_withMembers ((lookup_some.1 hl).1 ▸ h) fun m hm => List.mem_of_mem_filter hm

omit [DecidableEq κ] in
theorem outlives_lookup {key : Option (Entry (SortedSet κ))} (h : Outlives key) (now : Nat) :
    Outlives (lookup now key) := by
  intro e he
  exact h e (lookup_some.1 he).1

/-- The caller's clock is not ahead of the server's, and scores of earlier slots are no later. -/
theorem outlives_acquireSlot {now reading ttl : Nat} {maxConcurrency : Int} {slotId : κ}
    {key : Option (Entry (SortedSet κ))} (h : Outlives key) (hread : seconds reading ≤ now)
    (hscores : ∀ e, key = some e → ∀ m ∈ e.value, seconds m.2 ≤ now + seconds ttl) :
    Outlives (acquireSlot now reading maxConcurrency ttl slotId key).1 := by
  have hpurged := outlives_purge h now 0 reading
  unfold acquireSlot
  dsimp only
  split
  · -- A new slot: the deadline is set again, a minute after its time.
    have hold : ∀ m ∈ members now (zremrangebyscore now 0 reading key), seconds m.2 ≤ now + seconds ttl := by
      intro m hm
      rw [members_zremrangebyscore] at hm
      have hm' := List.mem_of_mem_filter hm
      cases hl : lookup now key with
      | none =>
        rw [members_of_none hl] at hm'
        cases hm'
      | some e =>
        rw [members_of_some hl] at hm'
        exact hscores e (lookup_some.1 hl).1 m hm'
    intro e he
    unfold expire at he
    obtain ⟨e', hl, rfl⟩ := Option.map_eq_some_iff.1 he
    refine ⟨_, rfl, fun m hm => ?_⟩
    have hm' : m ∈ members now (zadd now (reading + ttl) slotId (zremrangebyscore now 0 reading key)) := by
      rw [members_of_some hl]
      exact hm
    rw [members_zadd] at hm'
    unfold seconds at hread hold ⊢
    rcases List.mem_append.1 hm' with hm' | hm'
    · have hle := hold m (List.mem_of_mem_filter hm')
      omega
    · rw [List.mem_singleton.1 hm']
      dsimp only
      omega
  · exact hpurged

omit [DecidableEq κ] in
/-- Members whose time is not over by `t'` are not lost to the key's expiry. -/
theorem kept_later {t t' reading : Nat} {key : Option (Entry (SortedSet κ))} (h : Outlives key) (htt : t ≤ t')
    (hread : t' < seconds (reading + 60)) :
    kept t' reading key = kept t reading key := by
  unfold kept
  cases hl : lookup t key with
  | none => rw [members_of_none hl, members_of_none (lookup_none_later htt hl)]
  | some e =>
    obtain ⟨rfl, hlive⟩ := lookup_some.1 hl
    obtain ⟨d, hd, hall⟩ := h e rfl
    rw [members_of_some hl]
    -- The key lives on, or it went as a whole, past the time of all its members.
    by_cases hexp : t' < d
    · have hl' : lookup t' (some e) = some e := by
        refine lookup_some.2 ⟨rfl, ?_⟩
        unfold Entry.live
        rw [hd]
        simpa using hexp
      rw [members_of_some hl']
    · have hl' : lookup t' (some e) = none := by
        cases e
        cases hd
        exact lookup_expired (by omega)
      rw [members_of_none hl', List.filter_nil]
      refine (List.filter_eq_nil_iff.2 fun m hm => ?_).symm
      have hle := hall m hm
      unfold seconds at hle hread
      simp only [decide_eq_true_eq]
      omega

omit [DecidableEq κ] in
/-- A key that is left alone keeps its members until it expires as a whole. -/
theorem members_later {t t' : Nat} (htt : t ≤ t') (key : Option (Entry (SortedSet κ))) :
    members t' key = members t key ∨ members t' key = [] := by
  cases h : lookup t' key with
  | none => exact .inr (members_of_none h)
  | some e =>
    have ht : lookup t key = some e := by
      cases hl : lookup t key with
      | none =>
        rw [lookup_none_later htt hl] at h
        cases h
      | some e' =>
        obtain ⟨rfl, -⟩ := lookup_some.1 hl
        obtain ⟨he, -⟩ := lookup_some.1 h
        exact he
    exact .inl (by rw [members_of_some h, members_of_some ht])

omit [DecidableEq κ] in
theorem member_later {t t' : Nat} {key : Option (Entry (SortedSet κ))} (h : Outlives key) {m : κ × Nat}
    (hm : m ∈ members t key) (hlt : t' < seconds (m.2 + 60)) : m ∈ members t' key := by
  cases hl : lookup t key with
  | none =>
    rw [members_of_none hl] at hm
    cases hm
  | some e =>
    obtain ⟨rfl, -⟩ := lookup_some.1 hl
    rw [members_of_some hl] at hm
    obtain ⟨d, hd, hall⟩ := h e rfl
    have hle := hall m hm
    have hl' : lookup t' (some e) = some e := by
      refine lookup_some.2 ⟨rfl, ?_⟩
      unfold Entry.live
      rw [hd]
      simp only [Option.all_some, decide_eq_true_eq]
      omega
    rw [members_of_some hl']
    exact hm

/-! ## Where members come from -/

omit [DecidableEq κ] in
theorem withMembers_value {now : Nat} {key : Option (Entry (SortedSet κ))} {p : κ × Nat → Bool} {e : Entry (SortedSet κ)}
    (h : (match lookup now key with | none => none | some e => withMembers e (e.value.filter p)) = some e)
    {m : κ × Nat} (hm : m ∈ e.value) : ∃ e0, key = some e0 ∧ m ∈ e0.value := by
  split at h
  · cases h
  · rename_i e0 hl
    unfold withMembers at h
    split at h <;> cases h
    exact ⟨e0, (lookup_some.1 hl).1, List.mem_of_mem_filter hm⟩

theorem zrem_value {now : Nat} {slotId : κ} {key : Option (Entry (SortedSet κ))} {e : Entry (SortedSet κ)}
    (h : zrem now slotId key = some e) {m : κ × Nat} (hm : m ∈ e.value) : ∃ e0, key = some e0 ∧ m ∈ e0.value :=
  withMembers_value h hm

theorem acquireSlot_value {now reading ttl : Nat} {maxConcurrency : Int} {slotId : κ}
    {key : Option (Entry (SortedSet κ))} {e : Entry (SortedSet κ)}
    (h : (acquireSlot now reading maxConcurrency ttl slotId key).1 = some e) {m : κ × Nat} (hm : m ∈ e.value) :
    (∃ e0, key = some e0 ∧ m ∈ e0.value) ∨ m = (slotId, reading + ttl) := by
  unfold acquireSlot at h
  dsimp only at h
  split at h
  · -- The set is purged, the slot added and the deadline set.
    unfold expire at h
    obtain ⟨e1, hl, rfl⟩ := Option.map_eq_some_iff.1 h
    have hadd := (lookup_some.1 hl).1
    unfold zadd at hadd
    split at hadd
    · cases hadd
      exact .inr (List.mem_singleton.1 hm)
    · rename_i e2 hl2
      cases hadd
      rcases List.mem_append.1 hm with hm | hm
      · exact .inl (withMembers_value (lookup_some.1 hl2).1 (List.mem_of_mem_filter hm))
      · exact .inr (List.mem_singleton.1 hm)
  · exact .inl (withMembers_value h hm)

/-! ## One slot key over time -/

inductive SlotOp (κ : Type) where
  | acquire (slotId : κ)
  /-- `RedisSlot.DisposeAsync`. -/
  | release (slotId : κ)
  /-- The server drops the key if its deadline has passed. -/
  | expire
  deriving DecidableEq, Repr

def SlotOp.requested : SlotOp κ → Option κ
  | .acquire slotId => some slotId
  | _ => none

structure SlotCall (κ : Type) where
  time : Nat
  op : SlotOp κ
  deriving DecidableEq, Repr

/-- `ToUnixTimeSeconds`. -/
def toUnixTimeSeconds (t : Nat) : Nat := t / 1000

def SlotCall.reading (c : SlotCall κ) : Nat := toUnixTimeSeconds c.time

structure SlotServer (κ : Type) where
  clock : Nat
  key : Option (Entry (SortedSet κ))
  log : List (SlotCall κ × Nat)

def SlotServer.empty : SlotServer κ := ⟨0, none, []⟩

def evaluateSlot (maxConcurrency : Int) (ttl : Nat) (c : SlotCall κ) (key : Option (Entry (SortedSet κ))) :
    Option (Entry (SortedSet κ)) × Nat :=
  match c.op with
  | .acquire slotId => acquireSlot c.time c.reading maxConcurrency ttl slotId key
  | .release slotId => (zrem c.time slotId key, ofMember slotId (members c.time key))
  | .expire => (lookup c.time key, 0)
where
  /-- The number of members `ZREM` removes. -/
  ofMember (slotId : κ) (set : SortedSet κ) : Nat := (set.filter fun m => m.1 = slotId).length

/-- The ids given to `AcquireSlot` so far. -/
def requested (log : List (SlotCall κ × Nat)) : List κ :=
  log.filterMap fun x => x.1.op.requested

/-- Clock readings do not decrease, and every request has an id of its own. -/
def SlotServer.step (maxConcurrency : Int) (ttl : Nat) (s : SlotServer κ) (c : SlotCall κ) : Option (SlotServer κ) :=
  if s.clock ≤ c.time ∧ ∀ slotId ∈ c.op.requested, slotId ∉ requested s.log then
    some ⟨c.time, (evaluateSlot maxConcurrency ttl c s.key).1,
      s.log ++ [(c, (evaluateSlot maxConcurrency ttl c s.key).2)]⟩
  else none

/-! ## What the key should hold -/

/-- One entry of the log, for the slots that are out. -/
def book (out : List (κ × Nat)) (x : SlotCall κ × Nat) : List (κ × Nat) :=
  match x.1.op with
  | .acquire slotId => if x.2 = 1 then out ++ [(slotId, x.1.reading)] else out
  | .release slotId => out.filter fun g => g.1 ≠ slotId
  | .expire => out

/-- The slots that were granted and not released, with the reading they were granted at. -/
def outstanding (log : List (SlotCall κ × Nat)) : List (κ × Nat) := log.foldl book []

/-- Those whose time is not over at `now`. -/
def current (ttl now : Nat) (out : List (κ × Nat)) : List (κ × Nat) := out.filter fun g => now < g.2 + ttl

/-- A slot as the sorted set has it. -/
def scored (ttl : Nat) (g : κ × Nat) : κ × Nat := (g.1, g.2 + ttl)

/-- The key holds the slots that are out, up to those whose time is over. -/
structure SlotInv (ttl : Nat) (s : SlotServer κ) : Prop where
  outlives : Outlives s.key
  scores : ∀ e, s.key = some e → ∀ m ∈ e.value, seconds m.2 ≤ s.clock + seconds ttl ∧ m.1 ∈ requested s.log
  ids : ∀ g ∈ outstanding s.log, g.1 ∈ requested s.log
  holds : kept s.clock (toUnixTimeSeconds s.clock) s.key =
    (current ttl (toUnixTimeSeconds s.clock) (outstanding s.log)).map (scored ttl)

variable {ttl : Nat} {maxConcurrency : Int}

theorem SlotServer.step_some {s s' : SlotServer κ} {c : SlotCall κ} (h : s.step maxConcurrency ttl c = some s') :
    s.clock ≤ c.time ∧ (∀ slotId ∈ c.op.requested, slotId ∉ requested s.log) ∧
      s' = ⟨c.time, (evaluateSlot maxConcurrency ttl c s.key).1,
        s.log ++ [(c, (evaluateSlot maxConcurrency ttl c s.key).2)]⟩ := by
  unfold SlotServer.step at h
  split at h
  · rename_i hle
    cases h
    exact ⟨hle.1, hle.2, rfl⟩
  · cases h

omit [DecidableEq κ] in
theorem seconds_reading_le (t : Nat) : seconds (toUnixTimeSeconds t) ≤ t := by
  unfold seconds toUnixTimeSeconds
  omega

omit [DecidableEq κ] in
theorem kept_kept {now r r' : Nat} {key : Option (Entry (SortedSet κ))} (h : r ≤ r') :
    (kept now r key).filter (fun m => r' < m.2) = kept now r' key := by
  unfold kept
  rw [List.filter_filter]
  refine List.filter_congr fun m _ => ?_
  rw [Bool.eq_iff_iff]
  simp
  omega

omit [DecidableEq κ] in
theorem current_scored {r : Nat} (out : List (κ × Nat)) :
    (out.map (scored ttl)).filter (fun m => r < m.2) = (current ttl r out).map (scored ttl) := by
  unfold current
  rw [List.filter_map]
  rfl

omit [DecidableEq κ] in
theorem current_current {r r' : Nat} (h : r ≤ r') (out : List (κ × Nat)) :
    current ttl r' (current ttl r out) = current ttl r' out := by
  unfold current
  rw [List.filter_filter]
  refine List.filter_congr fun g _ => ?_
  rw [Bool.eq_iff_iff]
  simp
  omega

/-- The simulation goes on while time passes. -/
theorem SlotInv.holds_later {s : SlotServer κ} (hi : SlotInv ttl s) {t : Nat} (ht : s.clock ≤ t) :
    kept t (toUnixTimeSeconds t) s.key = (current ttl (toUnixTimeSeconds t) (outstanding s.log)).map (scored ttl) := by
  have hle : toUnixTimeSeconds s.clock ≤ toUnixTimeSeconds t := Nat.div_le_div_right ht
  have hlt : t < seconds (toUnixTimeSeconds t + 60) := by
    unfold seconds toUnixTimeSeconds
    omega
  rw [kept_later hi.outlives ht hlt, ← kept_kept hle, hi.holds, current_scored, current_current hle]

theorem outstanding_snoc (log : List (SlotCall κ × Nat)) (x : SlotCall κ × Nat) :
    outstanding (log ++ [x]) = book (outstanding log) x := by
  unfold outstanding
  rw [List.foldl_append]
  rfl

omit [DecidableEq κ] in
theorem requested_snoc (log : List (SlotCall κ × Nat)) (x : SlotCall κ × Nat) :
    requested (log ++ [x]) = requested log ++ x.1.op.requested.toList := by
  unfold requested
  rw [List.filterMap_append]
  cases h : x.1.op.requested <;> simp [h]

theorem slotInv_empty : SlotInv ttl (.empty : SlotServer κ) where
  outlives := by rintro _ ⟨⟩
  scores := by rintro _ ⟨⟩
  ids := by simp [SlotServer.empty, outstanding]
  holds := rfl

/-- The reply to a request, and the key it leaves. -/
theorem acquire_spec {s : SlotServer κ} (hi : SlotInv ttl s) {t : Nat} (ht : s.clock ≤ t) {slotId : κ}
    (hfresh : slotId ∉ requested s.log) :
    ((current ttl (toUnixTimeSeconds t) (outstanding s.log)).length < maxConcurrency ∧
      (evaluateSlot maxConcurrency ttl ⟨t, .acquire slotId⟩ s.key).2 = 1 ∧
      members t (evaluateSlot maxConcurrency ttl ⟨t, .acquire slotId⟩ s.key).1 =
        kept t (toUnixTimeSeconds t) s.key ++ [scored ttl (slotId, toUnixTimeSeconds t)]) ∨
    (¬ (current ttl (toUnixTimeSeconds t) (outstanding s.log)).length < maxConcurrency ∧
      (evaluateSlot maxConcurrency ttl ⟨t, .acquire slotId⟩ s.key).2 = 0 ∧
      members t (evaluateSlot maxConcurrency ttl ⟨t, .acquire slotId⟩ s.key).1 = kept t (toUnixTimeSeconds t) s.key) := by
  have hlen : (kept t (toUnixTimeSeconds t) s.key).length =
      (current ttl (toUnixTimeSeconds t) (outstanding s.log)).length := by
    rw [hi.holds_later ht, List.length_map]
  -- A fresh id is no member, so `ZADD` adds and replaces nothing.
  have hnew : (kept t (toUnixTimeSeconds t) s.key).filter (fun m => m.1 ≠ slotId) =
      kept t (toUnixTimeSeconds t) s.key := by
    refine List.filter_eq_self.2 fun m hm => ?_
    rw [hi.holds_later ht] at hm
    obtain ⟨g, hg, rfl⟩ := List.mem_map.1 hm
    have hreq := hi.ids g (List.mem_of_mem_filter hg)
    simp only [decide_eq_true_eq]
    rintro rfl
    exact hfresh hreq
  rw [← hlen]
  by_cases h : ((kept t (toUnixTimeSeconds t) s.key).length : Int) < maxConcurrency
  · obtain ⟨hone, hmem⟩ := @acquireSlot_granted κ _ t (toUnixTimeSeconds t) ttl maxConcurrency slotId s.key h
    rw [hnew] at hmem
    exact .inl ⟨h, hone, hmem⟩
  · obtain ⟨hzero, hmem⟩ := @acquireSlot_refused κ _ t (toUnixTimeSeconds t) ttl maxConcurrency slotId s.key h
    exact .inr ⟨h, hzero, hmem⟩

/-- Every member after a call was one before, or is the new slot. -/
theorem evaluateSlot_value {c : SlotCall κ} {key : Option (Entry (SortedSet κ))} {e : Entry (SortedSet κ)}
    (h : (evaluateSlot maxConcurrency ttl c key).1 = some e) {m : κ × Nat} (hm : m ∈ e.value) :
    (∃ e0, key = some e0 ∧ m ∈ e0.value) ∨ (c.op.requested = some m.1 ∧ m.2 = c.reading + ttl) := by
  unfold evaluateSlot at h
  split at h
  · rename_i slotId hop
    rcases acquireSlot_value h hm with hold | hnew
    · exact .inl hold
    · rw [hnew, hop]
      exact .inr ⟨rfl, rfl⟩
  · exact .inl (zrem_value h hm)
  · exact .inl ⟨e, (lookup_some.1 h).1, hm⟩

theorem outlives_evaluateSlot {s : SlotServer κ} (hi : SlotInv ttl s) {c : SlotCall κ} (hle : s.clock ≤ c.time) :
    Outlives (evaluateSlot maxConcurrency ttl c s.key).1 := by
  unfold evaluateSlot
  split
  · refine outlives_acquireSlot hi.outlives (seconds_reading_le c.time) fun e he m hm => ?_
    have hscore := (hi.scores e he m hm).1
    omega
  · exact outlives_zrem hi.outlives _ _
  · exact outlives_lookup hi.outlives _

theorem scores_step {s s' : SlotServer κ} {c : SlotCall κ} (hi : SlotInv ttl s)
    (h : s.step maxConcurrency ttl c = some s') :
    ∀ e, s'.key = some e → ∀ m ∈ e.value, seconds m.2 ≤ s'.clock + seconds ttl ∧ m.1 ∈ requested s'.log := by
  obtain ⟨hle, -, rfl⟩ := SlotServer.step_some h
  have hread : s.clock ≤ c.time := hle
  intro e he m hm
  dsimp only at he ⊢
  rw [requested_snoc]
  rcases evaluateSlot_value he hm with ⟨e0, he0, hm0⟩ | ⟨hreq, hscore⟩
  · obtain ⟨hs, hr⟩ := hi.scores e0 he0 m hm0
    exact ⟨by omega, List.mem_append_left _ hr⟩
  · have hsec := seconds_reading_le c.time
    refine ⟨?_, List.mem_append_right _ ?_⟩
    · rw [hscore]
      unfold SlotCall.reading
      unfold seconds at hsec ⊢
      omega
    · rw [hreq]
      simp

theorem ids_step {s s' : SlotServer κ} {c : SlotCall κ} (hi : SlotInv ttl s)
    (h : s.step maxConcurrency ttl c = some s') : ∀ g ∈ outstanding s'.log, g.1 ∈ requested s'.log := by
  obtain ⟨-, -, rfl⟩ := SlotServer.step_some h
  intro g hg
  dsimp only at hg ⊢
  rw [outstanding_snoc] at hg
  rw [requested_snoc]
  unfold book at hg
  split at hg
  · rename_i slotId hop
    split at hg
    · rcases List.mem_append.1 hg with hg | hg
      · exact List.mem_append_left _ (hi.ids g hg)
      · rw [List.mem_singleton.1 hg]
        dsimp only at hop
        refine List.mem_append_right _ ?_
        rw [hop]
        simp [SlotOp.requested]
    · exact List.mem_append_left _ (hi.ids g hg)
  · exact List.mem_append_left _ (hi.ids g (List.mem_of_mem_filter hg))
  · exact List.mem_append_left _ (hi.ids g hg)

/-- The set and the book change together. -/
theorem holds_step (httl : 1 ≤ ttl) {s s' : SlotServer κ} {c : SlotCall κ} (hi : SlotInv ttl s)
    (h : s.step maxConcurrency ttl c = some s') :
    kept s'.clock (toUnixTimeSeconds s'.clock) s'.key =
      (current ttl (toUnixTimeSeconds s'.clock) (outstanding s'.log)).map (scored ttl) := by
  obtain ⟨hle, hfresh, rfl⟩ := SlotServer.step_some h
  dsimp only
  rw [outstanding_snoc]
  -- By the time of the call the same entries have lapsed on both sides; what is left is the call itself.
  have hlater := hi.holds_later hle
  obtain ⟨time, op⟩ := c
  dsimp only at hle hfresh hlater ⊢
  cases op with
  | acquire slotId =>
    have hnew : toUnixTimeSeconds time < toUnixTimeSeconds time + ttl := by omega
    have hself : (kept time (toUnixTimeSeconds time) s.key).filter (fun m => toUnixTimeSeconds time < m.2) =
        kept time (toUnixTimeSeconds time) s.key := by
      rw [kept_kept (Nat.le_refl _)]
    unfold book
    dsimp only
    rcases @acquire_spec κ _ ttl maxConcurrency s hi time hle slotId (hfresh slotId rfl) with
      ⟨-, hone, hmem⟩ | ⟨-, hzero, hmem⟩
    · rw [hone, if_pos rfl, kept, hmem, List.filter_append, hself, hlater]
      unfold current
      rw [List.filter_append, List.map_append]
      simp [scored, SlotCall.reading, hnew]
    · rw [hzero, if_neg (by decide), kept, hmem, hself, hlater]
  | release slotId =>
    have hmem : members time (zrem time slotId s.key) = (members time s.key).filter fun m => m.1 ≠ slotId :=
      members_zrem time slotId s.key
    unfold book evaluateSlot
    dsimp only
    rw [kept, hmem, List.filter_comm, ← kept, hlater]
    unfold current
    rw [List.filter_map, List.filter_comm]
    rfl
  | expire =>
    unfold book evaluateSlot
    dsimp only
    have hmem : members time (lookup time s.key) = members time s.key := by
      unfold members valueAt
      rw [lookup_lookup (Nat.le_refl _)]
    rw [kept, hmem, ← kept, hlater]

theorem slotInv_step (httl : 1 ≤ ttl) {s s' : SlotServer κ} {c : SlotCall κ} (hi : SlotInv ttl s)
    (h : s.step maxConcurrency ttl c = some s') : SlotInv ttl s' where
  outlives := by
    obtain ⟨hle, -, rfl⟩ := SlotServer.step_some h
    exact outlives_evaluateSlot hi hle
  scores := scores_step hi h
  ids := ids_step hi h
  holds := holds_step httl hi h

theorem slotInv_exec (httl : 1 ≤ ttl) {cs : List (SlotCall κ)} {s : SlotServer κ}
    (h : exec (SlotServer.step maxConcurrency ttl) .empty cs = some s) : SlotInv ttl s :=
  exec_inv (SlotInv ttl) (fun _ _ _ hi hs => slotInv_step httl hi hs) slotInv_empty h

/-- A member that a call makes disappear was released, or its time is over. -/
theorem member_step {s s' : SlotServer κ} {c : SlotCall κ} (hi : SlotInv ttl s)
    (h : s.step maxConcurrency ttl c = some s') {m : κ × Nat} (hm : m ∈ members s.clock s.key) :
    m ∈ members s'.clock s'.key ∨ c.op = .release m.1 ∨ m.2 ≤ c.reading := by
  obtain ⟨hle, hfresh, rfl⟩ := SlotServer.step_some h
  by_cases hover : m.2 ≤ c.reading
  · exact .inr (.inr hover)
  -- The key outlives its members by a minute, more than a reading loses in rounding.
  have hread : c.time < seconds (c.reading + 60) := by
    unfold seconds SlotCall.reading toUnixTimeSeconds
    omega
  have hkept : m ∈ kept c.time c.reading s.key := by
    rw [kept_later hi.outlives hle hread]
    exact List.mem_filter.2 ⟨hm, by simpa using hover⟩
  obtain ⟨time, op⟩ := c
  cases op with
  | acquire slotId =>
    refine .inl ?_
    rcases @acquire_spec κ _ ttl maxConcurrency s hi time hle slotId (hfresh slotId rfl) with
      ⟨-, -, hmem⟩ | ⟨-, -, hmem⟩
    · dsimp only
      rw [hmem]
      exact List.mem_append_left _ hkept
    · dsimp only
      rw [hmem]
      exact hkept
  | release slotId =>
    by_cases hid : m.1 = slotId
    · exact .inr (.inl (by rw [hid]))
    · refine .inl ?_
      have hmem := members_zrem time slotId s.key
      show m ∈ members time (zrem time slotId s.key)
      rw [hmem]
      exact List.mem_filter.2 ⟨List.mem_of_mem_filter hkept, by simpa using hid⟩
  | expire =>
    refine .inl ?_
    show m ∈ members time (lookup time s.key)
    unfold members valueAt
    rw [lookup_lookup (Nat.le_refl _)]
    exact List.mem_of_mem_filter hkept

end Members

/-- What a slot key is for. On one clock that does not go back, with fresh
slot ids: a request is granted exactly when fewer than the maximum of slots are
out whose time is not over; a slot that was granted and not released is a
member until its time is over; no call but its own release takes a member away
before that; and the key's own deadline is a minute past the time of each of
its members. -/
theorem slot_set_spec {κ : Type} [DecidableEq κ] (maxConcurrency : Int) (ttl : Nat) (httl : 1 ≤ ttl)
    (cs : List (SlotCall κ)) (s : SlotServer κ)
    (hrun : exec (SlotServer.step maxConcurrency ttl) .empty cs = some s) :
    (∀ t slotId, s.clock ≤ t → slotId ∉ requested s.log →
      ((evaluateSlot maxConcurrency ttl ⟨t, .acquire slotId⟩ s.key).2 = 1 ↔
        (current ttl (toUnixTimeSeconds t) (outstanding s.log)).length < maxConcurrency)) ∧
    (∀ g ∈ current ttl (toUnixTimeSeconds s.clock) (outstanding s.log), scored ttl g ∈ members s.clock s.key) ∧
    (∀ c s', s.step maxConcurrency ttl c = some s' → ∀ m ∈ members s.clock s.key,
      m ∈ members s'.clock s'.key ∨ c.op = .release m.1 ∨ m.2 ≤ c.reading) ∧
    (∀ t slotId, ∀ m ∈ members t s.key, m.1 ≠ slotId →
      m ∈ members t (evaluateSlot maxConcurrency ttl ⟨t, .release slotId⟩ s.key).1) ∧
    ∀ e, s.key = some e → ∃ d, e.deadline = some d ∧ ∀ m ∈ e.value, seconds (m.2 + 60) ≤ d := by
  have hi := slotInv_exec httl hrun
  refine ⟨?_, ?_, fun c s' h m hm => member_step hi h hm, ?_, hi.outlives⟩
  · intro t slotId ht hfresh
    rcases @acquire_spec κ _ ttl maxConcurrency s hi t ht slotId hfresh with ⟨h, hr, -⟩ | ⟨h, hr, -⟩
    · exact iff_of_true hr h
    · exact iff_of_false (by rw [hr]; decide) h
  · intro g hg
    have hm : scored ttl g ∈ kept s.clock (toUnixTimeSeconds s.clock) s.key := by
      rw [hi.holds]
      exact List.mem_map_of_mem hg
    exact List.mem_of_mem_filter hm
  · intro t slotId m hm hne
    show m ∈ members t (zrem t slotId s.key)
    rw [members_zrem]
    exact List.mem_filter.2 ⟨hm, by simpa using hne⟩

/-- A slot granted at 100 s for an hour, one refused, and one granted when the first is over. -/
def oneSlotTwice : List (SlotCall Nat) :=
  [⟨100000, .acquire 1⟩, ⟨200000, .acquire 2⟩, ⟨3700000, .acquire 3⟩, ⟨3700001, .release 1⟩]

theorem slot_set_spec_oneSlotTwice :
    ∃ s, exec (SlotServer.step 1 3600) .empty oneSlotTwice = some s ∧
      s.log.map (fun x => x.2) = [1, 0, 1, 0] ∧
      ((evaluateSlot 1 3600 ⟨3800000, .acquire 4⟩ s.key).2 = 1 ↔
        (current 3600 3800 (outstanding s.log)).length < (1 : Int)) := by
  refine ⟨_, rfl, by decide, ?_⟩
  obtain ⟨hgrant, -⟩ := slot_set_spec 1 3600 (by decide) oneSlotTwice _ rfl
  exact hgrant 3800000 4 (by decide) (by decide)

end DuckRun.Redis
