import Mathlib.Data.List.Basic
/-!
# Programs that query a store

`Queries σ α` is a program that asks questions of a store `σ`, one after the
other, and ends with an `α`. `eval` answers every question from one store
(nobody else runs in between). `Yields` lets the store be a different one at
every question, so it holds of a program whatever the others do meanwhile.
-/

namespace DuckRun.Lib

universe v w

/-- A program that queries a store of type `σ` and ends with an `α`. -/
inductive Queries (σ : Type) (α : Type v) : Type (max v 1) where
  | done (a : α)
  | ask {β : Type} (q : σ → β) (k : β → Queries σ α)

namespace Queries

variable {σ : Type} {α : Type v} {γ : Type v}

def bind : Queries σ α → (α → Queries σ γ) → Queries σ γ
  | done a, f => f a
  | ask q k, f => ask q fun b => (k b).bind f

instance : Monad (Queries σ) where
  pure := done
  bind := bind

/-- One query of the store. -/
def query {β : Type} (q : σ → β) : Queries σ β := ask q done

/-- The result when every query reads the store `s`. -/
def eval (s : σ) : Queries σ α → α
  | done a => a
  | ask q k => (k (q s)).eval s

/-- Whatever stores the queries read, the program ends in a result with `Q`. -/
def Yields (Q : α → Prop) : Queries σ α → Prop
  | done a => Q a
  | ask q k => ∀ s, (k (q s)).Yields Q

@[simp] theorem eval_pure (s : σ) (a : α) : eval s (pure a : Queries σ α) = a := rfl

@[simp] theorem eval_done (s : σ) (a : α) : eval s (done a : Queries σ α) = a := rfl

@[simp] theorem eval_query {β : Type} (s : σ) (q : σ → β) : eval s (query q) = q s := rfl

@[simp] theorem eval_bind (s : σ) (p : Queries σ α) (f : α → Queries σ γ) :
    eval s (p >>= f) = eval s (f (eval s p)) := by
  change eval s (p.bind f) = _
  induction p with
  | done a => rfl
  | ask q k ih => exact ih (q s)

/-- A query and what is done with its answer. -/
theorem eval_query_bind {β δ : Type} (s : σ) (q : σ → β) (f : β → Queries σ δ) :
    eval s (query q >>= f) = eval s (f (q s)) := rfl

@[simp] theorem eval_ite (s : σ) (c : Prop) [Decidable c] (p p' : Queries σ α) :
    eval s (if c then p else p') = if c then eval s p else eval s p' := by
  split <;> rfl

@[simp] theorem yields_pure (Q : α → Prop) (a : α) : Yields Q (pure a : Queries σ α) ↔ Q a := .rfl

@[simp] theorem yields_query {β : Type} (Q : β → Prop) (q : σ → β) : Yields Q (query q) ↔ ∀ s, Q (q s) := .rfl

@[simp] theorem yields_bind (Q : γ → Prop) (p : Queries σ α) (f : α → Queries σ γ) :
    Yields Q (p >>= f) ↔ Yields (fun a => Yields Q (f a)) p := by
  change Yields Q (p.bind f) ↔ _
  induction p with
  | done a => exact .rfl
  | ask q k ih => exact forall_congr' fun s => ih (q s)

theorem yields_query_bind {β δ : Type} (Q : δ → Prop) (q : σ → β) (f : β → Queries σ δ) :
    Yields Q (query q >>= f) ↔ ∀ s, Yields Q (f (q s)) := .rfl

theorem Yields.mono {Q R : α → Prop} (hQR : ∀ a, Q a → R a) {p : Queries σ α} (h : Yields Q p) : Yields R p := by
  induction p with
  | done a => exact hQR a h
  | ask q k ih => exact fun s => ih (q s) (h s)

theorem Yields.of_forall {Q : α → Prop} (h : ∀ a, Q a) (p : Queries σ α) : Yields Q p := by
  induction p with
  | done a => exact h a
  | ask q k ih => exact fun s => ih (q s)

/-- The rule for a sub-program: what it yields is all the rest may rely on. -/
theorem Yields.bind {P : α → Prop} {Q : γ → Prop} {p : Queries σ α} {f : α → Queries σ γ} (h : Yields P p)
    (hf : ∀ a, P a → Yields Q (f a)) : Yields Q (p >>= f) :=
  (yields_bind Q p f).2 (h.mono hf)

/-- A program nobody disturbs ends as one somebody might disturb. -/
theorem Yields.eval {Q : α → Prop} {p : Queries σ α} (h : Yields Q p) (s : σ) : Q (p.eval s) := by
  induction p with
  | done a => exact h
  | ask q k ih => exact ih (q s) (h s)

end Queries

end DuckRun.Lib
