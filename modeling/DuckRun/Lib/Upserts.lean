import DuckRun.Lib.Folds
import Mathlib.Logic.Function.Basic
/-!
# Batches of upserts

A table is a function from keys to rows, an upsert a record that starts the
row under its key or is merged into it and may throw, and a batch a list of
upserts that is saved as a whole or not at all. A batch acts on each key by
the records of that key alone (`upsertAll_ok_iff`); the laws of batches follow
from the laws of one row.
-/

namespace DuckRun.Lib

variable {κ ρ β ε : Type} [DecidableEq κ]

section Batches
variable (step : κ → Option ρ → β → Except ε ρ)

def upsertOne (rows : κ → Option ρ) (p : κ × β) : Except ε (κ → Option ρ) := do
  let row ← step p.1 (rows p.1) p.2
  return Function.update rows p.1 (some row)

def upsertAll (rows : κ → Option ρ) (ps : List (κ × β)) : Except ε (κ → Option ρ) := ps.foldlM (upsertOne step) rows

/-- A batch that throws leaves the rows as they were. -/
def commitAll (rows : κ → Option ρ) (ps : List (κ × β)) : κ → Option ρ :=
  match upsertAll step rows ps with
  | .ok rows' => rows'
  | .error _ => rows

/-- The records of one key, in the order of the batch. -/
def ofKey (k : κ) (ps : List (κ × β)) : List β := (ps.filter fun p => p.1 = k).map Prod.snd

/-- One row through the records of its key. -/
def mergeAll (k : κ) (row : Option ρ) (bs : List β) : Except ε (Option ρ) :=
  bs.foldlM (fun row b => (step k row b).map some) row

variable {step} {rows rows' m m' : κ → Option ρ} {ps as bs : List (κ × β)}

theorem ofKey_eq_nil {k : κ} (h : ∀ p ∈ ps, p.1 ≠ k) : ofKey k ps = [] := by
  have hnone : ps.filter (fun p => p.1 = k) = [] := List.filter_eq_nil_iff.2 fun p hp => by simpa using h p hp
  rw [ofKey, hnone]
  rfl

/-- A batch is each of its rows through the records of its key. -/
theorem upsertAll_ok_iff :
    upsertAll step rows ps = .ok m ↔ ∀ k, mergeAll step k (rows k) (ofKey k ps) = .ok (m k) := by
  induction ps generalizing rows with
  | nil =>
    refine ⟨fun h k => ?_, fun h => congrArg Except.ok (funext fun k => Except.ok.inj (h k))⟩
    cases h
    rfl
  | cons p ps ih =>
    obtain ⟨k₀, b⟩ := p
    have hhead : ofKey k₀ ((k₀, b) :: ps) = b :: ofKey k₀ ps := by simp [ofKey]
    have hother : ∀ k, k ≠ k₀ → ofKey k ((k₀, b) :: ps) = ofKey k ps := fun k hk => by simp [ofKey, Ne.symm hk]
    rw [upsertAll, List.foldlM_cons]
    cases hstep : step k₀ (rows k₀) b with
    | error e =>
      constructor
      · intro h
        simp [upsertOne, hstep, bind, Except.bind] at h
      · intro h
        have hk := h k₀
        rw [hhead, mergeAll, List.foldlM_cons, hstep] at hk
        cases hk
    | ok row =>
      have hone : upsertOne step rows (k₀, b) = .ok (Function.update rows k₀ (some row)) := by
        simp only [upsertOne, hstep]
        rfl
      rw [hone]
      refine (@ih (Function.update rows k₀ (some row))).trans (forall_congr' fun k => ?_)
      by_cases hk : k = k₀
      · subst hk
        rw [Function.update_self, hhead, mergeAll, mergeAll, List.foldlM_cons, hstep]
        rfl
      · rw [Function.update_of_ne hk, hother k hk]

/-- A batch does not throw if no upsert does at its turn, when its key has no row
only where it had none before and no earlier upsert of the batch has that key. -/
theorem upsertAll_total (h : ∀ before p after, ps = before ++ p :: after →
    ∀ row, (row = none → rows p.1 = none ∧ ∀ q ∈ before, q.1 ≠ p.1) → ∃ row', step p.1 row p.2 = .ok row') :
    ∃ m, upsertAll step rows ps = .ok m := by
  induction ps generalizing rows with
  | nil => exact ⟨rows, rfl⟩
  | cons p ps ih =>
    obtain ⟨row, hrow⟩ := h [] p ps rfl (rows p.1) fun hnone => ⟨hnone, by simp⟩
    obtain ⟨m, hm⟩ := @ih (Function.update rows p.1 (some row)) fun before q after hps row' hrow' => by
      refine h (p :: before) q after (by rw [hps]; rfl) row' fun hnone => ?_
      obtain ⟨hq, hbefore⟩ := hrow' hnone
      have hne : q.1 ≠ p.1 := by
        intro he
        rw [he, Function.update_self] at hq
        cases hq
      rw [Function.update_of_ne hne] at hq
      exact ⟨hq, List.forall_mem_cons.2 ⟨hne.symm, hbefore⟩⟩
    refine ⟨m, ?_⟩
    rw [upsertAll, List.foldlM_cons, except_bind_ok]
    exact ⟨_, by rw [upsertOne, hrow]; rfl, hm⟩

theorem commitAll_ok (h : upsertAll step rows ps = .ok m) : commitAll step rows ps = m := by
  rw [commitAll, h]

theorem commitAll_other {k : κ} (h : ∀ p ∈ ps, p.1 ≠ k) : commitAll step rows ps k = rows k := by
  cases hm : upsertAll step rows ps with
  | ok m =>
    have hk := upsertAll_ok_iff.1 hm k
    rw [ofKey_eq_nil h] at hk
    rw [commitAll_ok hm]
    exact (Except.ok.inj hk).symm
  | error e => rw [commitAll, hm]

/-- What a batch does depends on the rows under its own keys. -/
theorem upsertAll_congr (h : ∀ p ∈ ps, rows p.1 = rows' p.1) (hm : upsertAll step rows ps = .ok m) :
    ∃ m', upsertAll step rows' ps = .ok m' ∧ ∀ p ∈ ps, m' p.1 = m p.1 := by
  have hkeys := upsertAll_ok_iff.1 hm
  refine ⟨fun k => if k ∈ ps.map Prod.fst then m k else rows' k, upsertAll_ok_iff.2 fun k => ?_, fun p hp => ?_⟩
  · by_cases hk : k ∈ ps.map Prod.fst
    · obtain ⟨p, hp, rfl⟩ := List.mem_map.1 hk
      rw [if_pos hk, ← h p hp]
      exact hkeys p.1
    · rw [if_neg hk, ofKey_eq_nil fun p hp he => hk (List.mem_map.2 ⟨p, hp, he⟩)]
      rfl
  · exact if_pos (List.mem_map_of_mem hp)

theorem commitAll_congr (h : ∀ p ∈ ps, rows p.1 = rows' p.1) :
    ∀ p ∈ ps, commitAll step rows ps p.1 = commitAll step rows' ps p.1 := by
  intro p hp
  cases hm : upsertAll step rows ps with
  | ok m =>
    obtain ⟨m', hm', heq⟩ := upsertAll_congr h hm
    rw [commitAll_ok hm, commitAll_ok hm', heq p hp]
  | error e =>
    cases hm' : upsertAll step rows' ps with
    | ok m' =>
      obtain ⟨m, hm'', -⟩ := upsertAll_congr (fun p hp => (h p hp).symm) hm'
      rw [hm] at hm''
      cases hm''
    | error e' =>
      rw [commitAll, commitAll, hm, hm']
      exact h p hp

/-! ## Laws -/

/-- A batch that is saved may be cut in two. -/
theorem commitAll_append (h : upsertAll step rows (as ++ bs) = .ok m) :
    commitAll step rows (as ++ bs) = commitAll step (commitAll step rows as) bs := by
  have happend := h
  rw [upsertAll, List.foldlM_append, except_bind_ok] at happend
  obtain ⟨t, ha, hb⟩ := happend
  rw [commitAll_ok h, commitAll_ok ha]
  exact (commitAll_ok hb).symm

/-- A batch is saved twice as once, where one row merges its records twice as once. -/
theorem commitAll_idem (hidem : ∀ k (row row' : Option ρ) (rs : List β), mergeAll step k row rs = .ok row' →
      mergeAll step k row' rs = .ok row') : commitAll step (commitAll step rows ps) ps = commitAll step rows ps := by
  cases hm : upsertAll step rows ps with
  | ok m =>
    have hagain : upsertAll step m ps = .ok m :=
      upsertAll_ok_iff.2 fun k => hidem k _ _ _ (upsertAll_ok_iff.1 hm k)
    rw [commitAll_ok hm, commitAll_ok hagain]
  | error e =>
    have hsame : commitAll step rows ps = rows := by rw [commitAll, hm]
    rw [hsame, hsame]

/-- Batches without a key in common may trade places. -/
theorem commitAll_comm (hne : ∀ p ∈ as, ∀ q ∈ bs, p.1 ≠ q.1) :
    commitAll step (commitAll step rows as) bs = commitAll step (commitAll step rows bs) as := by
  funext k
  by_cases ha : ∃ p ∈ as, p.1 = k
  · obtain ⟨p, hp, rfl⟩ := ha
    rw [commitAll_other fun q hq => (hne p hp q hq).symm]
    exact commitAll_congr (fun x hx => (commitAll_other fun q hq => (hne x hx q hq).symm).symm) p hp
  · have hka : ∀ p ∈ as, p.1 ≠ k := fun p hp he => ha ⟨p, hp, he⟩
    rw [commitAll_other hka]
    by_cases hb : ∃ q ∈ bs, q.1 = k
    · obtain ⟨q, hq, rfl⟩ := hb
      exact commitAll_congr (fun x hx => commitAll_other fun p hp => hne p hp x hx) q hq
    · have hkb : ∀ q ∈ bs, q.1 ≠ k := fun q hq he => hb ⟨q, hq, he⟩
      rw [commitAll_other hkb, commitAll_other hkb, commitAll_other hka]

end Batches

end DuckRun.Lib
