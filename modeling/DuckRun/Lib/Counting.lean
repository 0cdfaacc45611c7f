import Mathlib.Data.List.Perm.Basic
/-!
# Counting members of a pool

A pool is a list whose members change one at a time. A counter that goes up
and down with one member's state counts the members in that state.
-/

namespace DuckRun.Lib

variable {α : Type}

/-- What a flag adds to a count. -/
def ofFlag (b : Bool) : Int := if b then 1 else 0

@[simp] theorem ofFlag_true : ofFlag true = 1 := rfl

@[simp] theorem ofFlag_false : ofFlag false = 0 := rfl

theorem countP_snoc (p : α → Bool) (l : List α) (a : α) :
    ((l ++ [a]).countP p : Int) = l.countP p + ofFlag (p a) := by
  rw [List.countP_append, List.countP_singleton]
  cases p a <;> simp

/-- One member changes: the count changes by that member's flag. -/
theorem countP_set {p : α → Bool} {l : List α} {i : Nat} {a : α} (b : α) (h : l[i]? = some a) :
    ((l.set i b).countP p : Int) = l.countP p + (ofFlag (p b) - ofFlag (p a)) := by
  induction l generalizing i with
  | nil => cases h
  | cons x l ih =>
    cases i with
    | zero =>
      obtain rfl : x = a := by simpa using h
      rw [List.set_cons_zero, List.countP_cons, List.countP_cons]
      unfold ofFlag
      split <;> split <;> push_cast <;> omega
    | succ i =>
      have hl := ih (by simpa using h)
      rw [List.set_cons_succ, List.countP_cons, List.countP_cons]
      push_cast
      omega

theorem countP_eraseIdx {p : α → Bool} {l : List α} {i : Nat} {a : α} (h : l[i]? = some a) :
    (l.countP p : Int) = (l.eraseIdx i).countP p + ofFlag (p a) := by
  obtain ⟨hi, ha⟩ := List.getElem?_eq_some_iff.1 h
  have hperm := List.getElem_cons_eraseIdx_perm hi
  rw [← hperm.countP_eq p, ha, List.countP_cons]
  unfold ofFlag
  split <;> push_cast <;> omega

/-! ## One member at a time -/

/-- The member at a place of a pool in which place `i` was modified. -/
theorem getElem?_modify_cases {f : α → α} {l : List α} {i j : Nat} {b : α} (h : (l.modify i f)[j]? = some b) :
    (j = i ∧ ∃ a, l[j]? = some a ∧ b = f a) ∨ (j ≠ i ∧ l[j]? = some b) := by
  rw [List.getElem?_modify] at h
  obtain ⟨a, ha, hb⟩ := Option.map_eq_some_iff.1 h
  by_cases hij : i = j
  · rw [if_pos hij] at hb
    exact .inl ⟨hij.symm, a, ha, hb.symm⟩
  · rw [if_neg hij] at hb
    exact .inr ⟨Ne.symm hij, hb ▸ ha⟩

/-- Writing a member does not show in a field that it leaves alone. -/
theorem map_set_eq {β : Type} {f : α → β} {l : List α} {i : Nat} {a b : α} (h : l[i]? = some a) (hf : f b = f a) :
    (l.set i b).map f = l.map f := by
  obtain ⟨hi, rfl⟩ := List.getElem?_eq_some_iff.1 h
  rw [List.map_set, hf, ← List.map_set, List.set_getElem_self hi]

/-- What the members yield, with one of them in front. -/
theorem filterMap_perm {β : Type} (f : α → Option β) {l : List α} {i : Nat} {a : α} (h : l[i]? = some a) :
    (l.filterMap f).Perm ((f a).toList ++ (l.eraseIdx i).filterMap f) := by
  obtain ⟨hi, rfl⟩ := List.getElem?_eq_some_iff.1 h
  have hperm := ((List.getElem_cons_eraseIdx_perm hi).filterMap f).symm
  rw [List.filterMap_cons] at hperm
  cases hf : f l[i] with
  | none => simpa [hf] using hperm
  | some b => simpa [hf] using hperm

theorem filterMap_set_perm {β : Type} (f : α → Option β) {l : List α} {i : Nat} {a : α} (b : α) (h : l[i]? = some a) :
    ((l.set i b).filterMap f).Perm ((f b).toList ++ (l.eraseIdx i).filterMap f) := by
  have hi := (List.getElem?_eq_some_iff.1 h).1
  have hset : (l.set i b)[i]? = some b := by
    rw [List.getElem?_set_self hi]
  have herase : (l.set i b).eraseIdx i = l.eraseIdx i := by
    rw [List.eraseIdx_set_eq]
  rw [← herase]
  exact filterMap_perm f hset

/-- The member at a place of a pool in which place `i` was written. -/
theorem getElem?_set_cases {l : List α} {i j : Nat} {a b : α} (h : (l.set i a)[j]? = some b) :
    (j = i ∧ b = a) ∨ (j ≠ i ∧ l[j]? = some b) := by
  rw [List.getElem?_set] at h
  split at h
  · rename_i hij
    split at h <;> cases h
    exact .inl ⟨hij.symm, rfl⟩
  · rename_i hij
    exact .inr ⟨Ne.symm hij, h⟩

/-- The member at a place of a pool to which one was added. -/
theorem getElem?_snoc_cases {l : List α} {j : Nat} {a b : α} (h : (l ++ [a])[j]? = some b) :
    (j = l.length ∧ b = a) ∨ l[j]? = some b := by
  rw [List.getElem?_append] at h
  split at h
  · exact .inr h
  · rw [List.getElem?_singleton] at h
    split at h <;> cases h
    exact .inl ⟨by omega, rfl⟩

end DuckRun.Lib
