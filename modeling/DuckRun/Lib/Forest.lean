import Mathlib.Data.Set.Basic
import Mathlib.Logic.Function.Basic
/-!
# Forests of parent pointers

`f k` is `none` where there is no node `k`, `some none` where `k` is a root and
`some (some p)` where `k` hangs under `p`. Nothing forces `p` to exist or the
pointers to be free of cycles: `Rooted f` says that they are, and the lemmas
say which changes of one node keep it so.
-/

namespace DuckRun.Lib

variable {κ : Type}

abbrev Pointers (κ : Type) := κ → Option (Option κ)

/-- Following the pointers from `k` ends, after finitely many steps, at a root. -/
inductive EndsAtRoot (f : Pointers κ) : κ → Prop where
  | root {k : κ} (h : f k = some none) : EndsAtRoot f k
  | child {k p : κ} (h : f k = some (some p)) (hp : EndsAtRoot f p) : EndsAtRoot f k

/-- `b` is `a` or hangs below it. -/
inductive Below (f : Pointers κ) (a : κ) : κ → Prop where
  | self : Below f a a
  | child {b p : κ} (h : f b = some (some p)) (hp : Below f a p) : Below f a b

/-- Every node's chain ends at a root. -/
def Rooted (f : Pointers κ) : Prop := ∀ k, (f k).isSome → EndsAtRoot f k

theorem EndsAtRoot.exists_node {f : Pointers κ} {k : κ} (h : EndsAtRoot f k) : (f k).isSome := by
  cases h with
  | root h => simp [h]
  | child h _ => simp [h]

theorem EndsAtRoot.parent {f : Pointers κ} {k p : κ} (h : EndsAtRoot f k) (hk : f k = some (some p)) :
    EndsAtRoot f p := by
  cases h with
  | root h => rw [hk] at h; cases h
  | child h hp => rw [hk] at h; cases h; exact hp

/-- New nodes do not disturb the chains of the old ones. -/
theorem EndsAtRoot.mono {f g : Pointers κ} (hfg : ∀ k v, f k = some v → g k = some v) {k : κ}
    (h : EndsAtRoot f k) : EndsAtRoot g k := by
  induction h with
  | root h => exact .root (hfg _ _ h)
  | child h _ ih => exact .child (hfg _ _ h) ih

/-- A chain that ends never comes back to where it started. -/
theorem EndsAtRoot.no_cycle {f : Pointers κ} {k : κ} (h : EndsAtRoot f k) :
    ∀ p, f k = some (some p) → ¬ Below f k p := by
  induction h with
  | root h => intro p hp; rw [h] at hp; cases hp
  | @child k p h _ ih =>
    -- Below `k` again, the parent `p` would be below itself too.
    rintro q hq hb
    rw [h] at hq
    cases hq
    have hpp : ∀ b, Below f k b → b ≠ k → ∃ c, f b = some (some c) ∧ Below f k c := by
      intro b hb hne
      cases hb with
      | self => exact absurd rfl hne
      | child h hp => exact ⟨_, h, hp⟩
    by_cases hpk : p = k
    · subst hpk
      exact ih p h .self
    · obtain ⟨c, hc, hbc⟩ := hpp p hb hpk
      refine ih c hc ?_
      have lift : ∀ b, Below f k b → Below f p b := by
        intro b hb
        induction hb with
        | self => exact .child h .self
        | child h' _ ih' => exact .child h' ih'
      exact lift c hbc

/-- Nothing but the root itself hangs above a root. -/
theorem below_root {f : Pointers κ} {a k : κ} (h : f k = some none) : Below f a k ↔ k = a := by
  constructor
  · intro hb
    cases hb with
    | self => rfl
    | child h' _ => rw [h] at h'; cases h'
  · rintro rfl
    exact .self

theorem below_child {f : Pointers κ} {a k p : κ} (h : f k = some (some p)) : Below f a k ↔ k = a ∨ Below f a p := by
  constructor
  · intro hb
    cases hb with
    | self => exact .inl rfl
    | child h' hp => rw [h] at h'; cases h'; exact .inr hp
  · rintro (rfl | hp)
    · exact .self
    · exact .child h hp

section Changes
variable [DecidableEq κ] {f : Pointers κ}

/-- What hangs below a node does not depend on where the node itself hangs. -/
theorem below_update {a b : κ} {v : Option (Option κ)} : Below (Function.update f a v) a b ↔ Below f a b := by
  constructor
  · intro h
    induction h with
    | self => exact .self
    | @child b p h _ ih =>
      by_cases hba : b = a
      · exact hba ▸ .self
      · exact .child (by rwa [Function.update_of_ne hba] at h) ih
  · intro h
    induction h with
    | self => exact .self
    | @child b p h _ ih =>
      by_cases hba : b = a
      · exact hba ▸ .self
      · exact .child (by rwa [Function.update_of_ne hba]) ih

theorem endsAtRoot_update_of_not_below {a k : κ} {v : Option (Option κ)} (h : EndsAtRoot f k) (hb : ¬ Below f a k) :
    EndsAtRoot (Function.update f a v) k := by
  induction h with
  | @root k h =>
    have hne : k ≠ a := by rintro rfl; exact hb .self
    exact .root (by rw [Function.update_of_ne hne]; exact h)
  | @child k p h _ ih =>
    have hne : k ≠ a := by rintro rfl; exact hb .self
    exact .child (by rw [Function.update_of_ne hne]; exact h) (ih fun hp => hb (.child h hp))

/-- Hanging `a` under a node that is not below `a` keeps the forest rooted. -/
theorem rooted_reparent {a : κ} {t : Option κ} (hf : Rooted f)
    (ht : ∀ p, t = some p → (f p).isSome ∧ ¬ Below f a p) : Rooted (Function.update f a (some t)) := by
  have ha : EndsAtRoot (Function.update f a (some t)) a := by
    cases t with
    | none => exact .root (by simp)
    | some p =>
      obtain ⟨hp, hb⟩ := ht p rfl
      exact .child (by simp) (endsAtRoot_update_of_not_below (hf p hp) hb)
  intro k hk
  by_cases hka : k = a
  · exact hka ▸ ha
  · rw [Function.update_of_ne hka] at hk
    have h := hf k hk
    clear hk hka
    induction h with
    | @root k h =>
      by_cases hka : k = a
      · exact hka ▸ ha
      · exact .root (by rw [Function.update_of_ne hka]; exact h)
    | @child k p h _ ih =>
      by_cases hka : k = a
      · exact hka ▸ ha
      · exact .child (by rw [Function.update_of_ne hka]; exact h) ih

/-- Taking away a node nothing hangs under keeps the forest rooted. -/
theorem rooted_remove {a : κ} (hf : Rooted f) (hleaf : ∀ k, f k ≠ some (some a)) :
    Rooted (Function.update f a none) := by
  intro k hk
  by_cases hka : k = a
  · subst hka
    simp at hk
  · rw [Function.update_of_ne hka] at hk
    have h := hf k hk
    clear hk
    induction h with
    | @root k h => exact .root (by rw [Function.update_of_ne hka]; exact h)
    | @child k p h _ ih =>
      have hpa : p ≠ a := by rintro rfl; exact hleaf k h
      exact .child (by rw [Function.update_of_ne hka]; exact h) (ih hpa)

/-- A new node under an existing one, or a new root. -/
theorem rooted_insert {a : κ} {t : Option κ} (hf : Rooted f) (ha : f a = none)
    (ht : ∀ p, t = some p → (f p).isSome) : Rooted (Function.update f a (some t)) := by
  refine rooted_reparent hf fun p hp => ⟨ht p hp, fun hb => ?_⟩
  -- `a` is not a node yet, so nothing that ends at a root hangs below it.
  have hne : ∀ b, Below f a b → ¬ EndsAtRoot f b := by
    intro b hb
    induction hb with
    | self => intro h; have := h.exists_node; simp [ha] at this
    | child h _ ih => exact fun h' => ih (h'.parent h)
  exact hne p hb (hf p (ht p hp))

end Changes

end DuckRun.Lib
