import Mathlib.Logic.Basic
/-!
# Computations that may throw

`Throwing ε σ α` runs on a state `σ` and ends in an `α` or an exception `ε`;
what it did to the state before throwing stays. The simp lemmas execute such a
computation on a state, one primitive at a time.
-/

namespace DuckRun.Lib

variable {ε σ α β : Type}

def Throwing (ε σ α : Type) := σ → Except ε α × σ

namespace Throwing

/-- Going on after a result, unless it is an exception. -/
def andThen (r : Except ε α × σ) (f : α → Throwing ε σ β) : Except ε β × σ :=
  match r with
  | (.ok a, s) => f a s
  | (.error e, s) => (.error e, s)

instance : Monad (Throwing ε σ) where
  pure a := fun s => (.ok a, s)
  bind x f := fun s => andThen (x s) f

def throw (e : ε) : Throwing ε σ α := fun s => (.error e, s)

def get : Throwing ε σ σ := fun s => (.ok s, s)

def modify (f : σ → σ) : Throwing ε σ Unit := fun s => (.ok (), f s)

/-- A computation that does not touch the state. -/
def ofExcept : Except ε α → Throwing ε σ α
  | .ok a => fun s => (.ok a, s)
  | .error e => throw e

/-- `try { x } finally { y }`: an exception of `y` replaces one of `x`. -/
def finally_ (x : Throwing ε σ α) (y : Throwing ε σ Unit) : Throwing ε σ α := fun s =>
  match x s with
  | (r, s') =>
    match y s' with
    | (.ok (), s'') => (r, s'')
    | (.error e, s'') => (.error e, s'')

@[simp] theorem andThen_ok (a : α) (s : σ) (f : α → Throwing ε σ β) : andThen (.ok a, s) f = f a s := rfl

@[simp] theorem andThen_error (e : ε) (s : σ) (f : α → Throwing ε σ β) : andThen (.error e, s) f = (.error e, s) := rfl

@[simp] theorem pure_apply (a : α) (s : σ) : (pure a : Throwing ε σ α) s = (.ok a, s) := rfl

@[simp] theorem bind_apply (x : Throwing ε σ α) (f : α → Throwing ε σ β) (s : σ) : (x >>= f) s = andThen (x s) f := rfl

@[simp] theorem throw_apply (e : ε) (s : σ) : (throw e : Throwing ε σ α) s = (.error e, s) := rfl

@[simp] theorem ofExcept_apply (r : Except ε α) (s : σ) : ofExcept r s = (r, s) := by
  cases r <;> rfl

@[simp] theorem get_apply (s : σ) : (get : Throwing ε σ σ) s = (.ok s, s) := rfl

@[simp] theorem modify_apply (f : σ → σ) (s : σ) : (modify f : Throwing ε σ Unit) s = (.ok (), f s) := rfl

theorem finally_apply (x : Throwing ε σ α) (y : Throwing ε σ Unit) (s : σ) :
    finally_ x y s = match y (x s).2 with
      | (.ok (), s') => ((x s).1, s')
      | (.error e, s') => (.error e, s') := rfl

end Throwing

end DuckRun.Lib
