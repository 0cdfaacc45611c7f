import Mathlib.Data.List.Basic
import Mathlib.Data.List.Infix
import Mathlib.Data.List.Count
/-!
# Separated paths

A path is a list of segments joined by a separator: a child's path is its
parent's path, the separator, and a segment without it. `Under sep p q` is the
test on the spelled-out paths ("`q` is `p`, or starts with `p` and a
separator"); the lemmas here say when it agrees with the parent relation.
-/

namespace DuckRun.Lib

variable {α : Type}

/-- `q` is `p`, or `p` followed by the separator and more. -/
def Under (sep : α) (p q : List α) : Prop := q = p ∨ p ++ [sep] <+: q

instance [DecidableEq α] (sep : α) (p q : List α) : Decidable (Under sep p q) := by unfold Under; infer_instance

theorem under_refl (sep : α) (p : List α) : Under sep p p := .inl rfl

/-- A prefix that ends in the separator ends before the last segment does. -/
theorem snoc_prefix_iff {sep : α} {seg : List α} (hseg : sep ∉ seg) (p q : List α) :
    p ++ [sep] <+: q ++ sep :: seg ↔ Under sep p q := by
  constructor
  · rintro ⟨t, ht⟩
    simp only [List.append_assoc, List.cons_append, List.nil_append] at ht
    rcases List.append_eq_append_iff.1 ht with ⟨m, hq, hm⟩ | ⟨m, hp, hm⟩
    · cases m with
      | nil => exact .inl (by simpa using hq)
      | cons c m =>
        simp only [List.cons_append, List.cons.injEq] at hm
        obtain ⟨rfl, -⟩ := hm
        exact .inr ⟨m, by simp [hq]⟩
    · cases m with
      | nil => exact .inl (by simpa using hp.symm)
      | cons c m =>
        simp only [List.cons_append, List.cons.injEq] at hm
        exact absurd (by simp [hm.2]) hseg
  · rintro (rfl | ⟨t, rfl⟩)
    · exact ⟨seg, by simp⟩
    · exact ⟨t ++ sep :: seg, by simp⟩

/-- A child is under `p` exactly when it is `p` itself or its parent is under `p`. -/
theorem under_child_iff {sep : α} {seg : List α} (hseg : sep ∉ seg) (p q : List α) :
    Under sep p (q ++ sep :: seg) ↔ q ++ sep :: seg = p ∨ Under sep p q := by
  unfold Under
  rw [snoc_prefix_iff hseg]
  rfl

/-- A single segment lies under nothing but itself. -/
theorem under_segment_iff {sep : α} {seg : List α} (hseg : sep ∉ seg) (p : List α) :
    Under sep p seg ↔ seg = p := by
  constructor
  · rintro (h | ⟨t, rfl⟩)
    · exact h
    · simp at hseg
  · exact .inl

/-- Paths with the same last segment have the same parent path, and the other way round. -/
theorem path_inj {sep : α} {a b p q : List α} (ha : sep ∉ a) (hb : sep ∉ b) (h : p ++ sep :: a = q ++ sep :: b) :
    p = q ∧ a = b := by
  have hle : ∀ {a b p q : List α}, sep ∉ b → p ++ sep :: a = q ++ sep :: b → q.length ≤ p.length → p = q ∧ a = b := by
    intro a b p q hb h hl
    rcases List.append_eq_append_iff.1 h with ⟨m, hq, hm⟩ | ⟨m, hp, hm⟩
    · cases m with
      | nil => simp only [List.nil_append, List.cons.injEq, true_and, List.append_nil] at hm hq; exact ⟨hq.symm, hm⟩
      | cons c m =>
        rw [hq, List.length_append, List.length_cons] at hl
        omega
    · cases m with
      | nil => simp only [List.nil_append, List.cons.injEq, true_and, List.append_nil] at hm hp; exact ⟨hp, hm.symm⟩
      | cons c m =>
        simp only [List.cons_append, List.cons.injEq] at hm
        exact absurd (by simp [hm.2]) hb
  rcases le_total q.length p.length with hl | hl
  · exact hle hb h hl
  · obtain ⟨h1, h2⟩ := hle ha h.symm hl
    exact ⟨h1.symm, h2.symm⟩

theorem count_child [DecidableEq α] {sep : α} {seg : List α} (hseg : sep ∉ seg) (q : List α) :
    (q ++ sep :: seg).count sep = q.count sep + 1 := by
  rw [List.count_append, List.count_cons_self, List.count_eq_zero_of_not_mem hseg]

/-- Replacing the prefix `p` of a path by `p'` keeps the rest, child by child. -/
theorem rebase_child {sep : α} {seg : List α} {p q : List α} (hq : Under sep p q) (p' : List α) :
    p' ++ (q ++ sep :: seg).drop p.length = p' ++ q.drop p.length ++ sep :: seg := by
  have hl : p.length ≤ q.length := by
    rcases hq with rfl | ⟨t, rfl⟩
    · exact le_rfl
    · simp
  rw [List.drop_append_of_le_length hl, List.append_assoc]

theorem count_rebase [DecidableEq α] {sep : α} {p q : List α} (hq : Under sep p q) (p' : List α) :
    (p' ++ q.drop p.length).count sep + p.count sep = p'.count sep + q.count sep := by
  rcases hq with rfl | ⟨t, rfl⟩
  · simp
  · simp only [List.append_assoc, List.drop_left, List.count_append]
    omega

/-! ## Segments -/

/-- One segment more, behind a separator. -/
theorem intercalate_snoc (sep : α) {segs : List (List α)} (h : segs ≠ []) (seg : List α) :
    [sep].intercalate (segs ++ [seg]) = [sep].intercalate segs ++ sep :: seg := by
  induction segs with
  | nil => exact absurd rfl h
  | cons s segs ih =>
    by_cases hs : segs = []
    · subst hs
      simp
    · rw [List.cons_append, List.intercalate_cons_of_ne_nil (by simp), ih hs, List.intercalate_cons_of_ne_nil hs]
      simp only [List.append_assoc]

end DuckRun.Lib
