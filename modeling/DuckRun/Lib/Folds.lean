import Mathlib.Data.List.Basic
/-!
# Loops that may throw

A `foreach` over a batch whose body may throw is a `foldlM` in `Except`. What
its rounds keep holds when it ends; what a round makes true of its own element
and later rounds keep holds of every element.
-/

namespace DuckRun.Lib

variable {ε α β σ : Type}

theorem except_bind_ok {x : Except ε α} {f : α → Except ε β} {b : β} :
    x >>= f = .ok b ↔ ∃ a, x = .ok a ∧ f a = .ok b := by
  cases x with
  | error e => simp [bind, Except.bind]
  | ok a => simp [bind, Except.bind]

theorem forM_ok {f : α → Except ε Unit} {l : List α} : l.forM f = .ok () ↔ ∀ a ∈ l, f a = .ok () := by
  induction l with
  | nil => simp [pure, Except.pure]
  | cons a l ih =>
    have hcons : (a :: l).forM f = f a >>= fun _ => l.forM f := rfl
    rw [hcons, except_bind_ok, List.forall_mem_cons]
    constructor
    · rintro ⟨⟨⟩, ha, hl⟩
      exact ⟨ha, ih.1 hl⟩
    · rintro ⟨ha, hl⟩
      exact ⟨(), ha, ih.2 hl⟩

/-- Two results in step: both throw the same, or both return what `R` relates. -/
inductive InStep {α : Type} {β : Type} {ε : Type} (R : α → β → Prop) : Except ε α → Except ε β → Prop
  | ok {a : α} {b : β} (h : R a b) : InStep R (.ok a) (.ok b)
  | error (e : ε) : InStep R (.error e) (.error e)

theorem InStep.refl (x : Except ε α) : InStep Eq x x := by
  cases x with
  | error e => exact .error e
  | ok a => exact .ok rfl

theorem InStep.bind {α' β' : Type} {R : α → β → Prop} {S : α' → β' → Prop} {x : Except ε α} {y : Except ε β}
    {f : α → Except ε α'} {g : β → Except ε β'} (h : InStep R x y) (hfg : ∀ a b, R a b → InStep S (f a) (g b)) :
    InStep S (x >>= f) (y >>= g) := by
  cases h with
  | ok h => exact hfg _ _ h
  | error e => exact .error e

/-- The body of a loop that appends `g a` to a list, and throws unless `Ok a`. -/
structure Appends (f : List β → α → Except ε (List β)) (g : α → List β) (Ok : α → Prop) : Prop where
  ok : ∀ acc a, Ok a → f acc a = .ok (acc ++ g a)
  throws : ∀ acc a, ¬ Ok a → ∃ e, f acc a = .error e

/-- The whole loop appends and throws in the same way, so that loops nest. -/
theorem Appends.loop {f : List β → α → Except ε (List β)} {g : α → List β} {Ok : α → Prop} (h : Appends f g Ok) :
    Appends (fun acc (l : List α) => l.foldlM f acc) (fun l => l.flatMap g) (fun l => ∀ a ∈ l, Ok a) where
  ok acc l hl := by
    induction l generalizing acc with
    | nil => exact congrArg Except.ok (List.append_nil acc).symm
    | cons a l ih =>
      obtain ⟨ha, hl⟩ := List.forall_mem_cons.1 hl
      rw [List.foldlM_cons, except_bind_ok]
      refine ⟨acc ++ g a, h.ok acc a ha, ?_⟩
      rw [ih _ hl, List.flatMap_cons, List.append_assoc]
  throws acc l hl := by
    induction l generalizing acc with
    | nil => exact absurd (fun a ha => nomatch ha) hl
    | cons a l ih =>
      rw [List.foldlM_cons]
      by_cases ha : Ok a
      · rw [h.ok acc a ha]
        exact ih _ fun hall => hl (List.forall_mem_cons.2 ⟨ha, hall⟩)
      · obtain ⟨e, he⟩ := h.throws acc a ha
        rw [he]
        exact ⟨e, rfl⟩

variable {f : σ → α → Except ε σ}

theorem foldlM_inv (I : σ → Prop) {l : List α} (hstep : ∀ s a s', a ∈ l → I s → f s a = .ok s' → I s') {s s' : σ}
    (h0 : I s) (h : l.foldlM f s = .ok s') : I s' := by
  induction l generalizing s with
  | nil => cases h; exact h0
  | cons a l ih =>
    rw [List.foldlM_cons, except_bind_ok] at h
    obtain ⟨t, ht, h⟩ := h
    exact ih (fun s a s' ha => hstep s a s' (List.mem_cons_of_mem _ ha))
      (hstep s a t List.mem_cons_self h0 ht) h

/-- What each round establishes for its element, and every round keeps. -/
theorem foldlM_each (I : σ → Prop) (P : α → σ → Prop) {l : List α}
    (hstep : ∀ s a s', a ∈ l → I s → f s a = .ok s' → I s' ∧ P a s')
    (hkeep : ∀ s a s' b, a ∈ l → I s → P b s → f s a = .ok s' → P b s') {s s' : σ}
    (h0 : I s) (h : l.foldlM f s = .ok s') : ∀ a ∈ l, P a s' := by
  induction l generalizing s with
  | nil => intro a ha; cases ha
  | cons b l ih =>
    rw [List.foldlM_cons, except_bind_ok] at h
    obtain ⟨t, ht, h⟩ := h
    obtain ⟨hI, hP⟩ := hstep s b t List.mem_cons_self h0 ht
    have hstep' : ∀ s a s', a ∈ l → I s → f s a = .ok s' → I s' ∧ P a s' :=
      fun s a s' ha => hstep s a s' (List.mem_cons_of_mem _ ha)
    have hkeep' : ∀ s a s' b, a ∈ l → I s → P b s → f s a = .ok s' → P b s' :=
      fun s a s' b ha => hkeep s a s' b (List.mem_cons_of_mem _ ha)
    intro a ha
    rcases List.mem_cons.1 ha with rfl | ha
    · -- The later rounds keep what the first one established.
      have hrest : I s' ∧ P a s' := by
        refine foldlM_inv (fun s => I s ∧ P a s) ?_ ⟨hI, hP⟩ h
        rintro s c s' hc ⟨hi, hp⟩ hs
        exact ⟨(hstep' s c s' hc hi hs).1, hkeep' s c s' a hc hi hp hs⟩
      exact hrest.2
    · exact ih hstep' hkeep' hI h a ha

end DuckRun.Lib
