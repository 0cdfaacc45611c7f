import DuckRun.Lib.Machine
import DuckRun.Lib.Queries
/-!
# Sessions

A session queries a store `σ` and may save a batch `κ` of changes wherever it
likes; a save the store refuses ends it. `UnitOfWork` gives it a memory of its
own, from which nothing reaches the store but by a save. A session that saves
last, and then ends well, has left nothing behind when it ends badly
(`Session.SavesLast`), whoever else writes to the store meanwhile.
-/

namespace DuckRun.Lib

universe v w

/-- A program that queries a store of type `σ` and saves changes of type `κ`. -/
inductive Session (σ κ : Type) (α : Type v) : Type (max v 1) where
  | done (a : α)
  | ask {β : Type} (q : σ → β) (k : β → Session σ κ α)
  | save (c : κ) (k : Session σ κ α)

/-- How a session ends; a refused save throws. -/
inductive Ending (α : Type v) where
  | returned (a : α)
  | refused
  deriving DecidableEq

/-- It ended by a refused save or with a bad result. -/
def Ending.Failed {α : Type v} (bad : α → Prop) : Ending α → Prop
  | .returned a => bad a
  | .refused => True

namespace Session

variable {σ τ κ : Type} {α : Type v} {γ : Type v}

def bind : Session σ κ α → (α → Session σ κ γ) → Session σ κ γ
  | done a, f => f a
  | ask q k, f => ask q fun b => (k b).bind f
  | save c k, f => save c (k.bind f)

@[simp] theorem done_bind (a : α) (f : α → Session σ κ γ) : (done a).bind f = f a := rfl

@[simp] theorem ask_bind {β : Type} (q : σ → β) (k : β → Session σ κ α) (f : α → Session σ κ γ) :
    (ask q k).bind f = ask q fun b => (k b).bind f := rfl

@[simp] theorem save_bind (c : κ) (k : Session σ κ α) (f : α → Session σ κ γ) :
    (save c k).bind f = save c (k.bind f) := rfl

theorem bind_assoc {δ : Type v} (p : Session σ κ α) (f : α → Session σ κ γ) (g : γ → Session σ κ δ) :
    (p.bind f).bind g = p.bind fun a => (f a).bind g := by
  induction p with
  | done a => rfl
  | ask q k ih => exact congrArg (ask q) (funext ih)
  | save c k ih => exact congrArg (save c) ih

theorem bind_done (p : Session σ κ α) : p.bind done = p := by
  induction p with
  | done a => rfl
  | ask q k ih => exact congrArg (ask q) (funext ih)
  | save c k ih => exact congrArg (save c) ih

/-- Queries of a part of the store, as a session. -/
def ofQueries (view : σ → τ) : Queries τ α → Session σ κ α
  | .done a => done a
  | .ask q k => ask (fun s => q (view s)) fun b => ofQueries view (k b)

@[simp] theorem ofQueries_pure (view : σ → τ) (a : α) :
    (ofQueries view (pure a : Queries τ α) : Session σ κ α) = done a := rfl

@[simp] theorem ofQueries_query {β : Type} (view : σ → τ) (q : τ → β) :
    (ofQueries view (Queries.query q) : Session σ κ β) = ask (fun s => q (view s)) done := rfl

theorem ofQueries_bind (view : σ → τ) (p : Queries τ α) (f : α → Queries τ γ) :
    (ofQueries view (p >>= f) : Session σ κ γ) = (ofQueries view p).bind fun a => ofQueries view (f a) := by
  change ofQueries view (p.bind f) = _
  induction p with
  | done a => rfl
  | ask q k ih => exact congrArg (ask _) (funext ih)

/-! ## Running alone -/

/-- The session with nobody else at work; `commit` is `none` where the store refuses. -/
def run (commit : σ → κ → Option σ) : σ → Session σ κ α → Ending α × σ
  | s, done a => (.returned a, s)
  | s, ask q k => run commit s (k (q s))
  | s, save c k =>
    match commit s c with
    | none => (.refused, s)
    | some s' => run commit s' k

@[simp] theorem run_done (commit : σ → κ → Option σ) (s : σ) (a : α) :
    run commit s (done a : Session σ κ α) = (.returned a, s) := rfl

@[simp] theorem run_ask {β : Type} (commit : σ → κ → Option σ) (s : σ) (q : σ → β) (k : β → Session σ κ α) :
    run commit s (ask q k) = run commit s (k (q s)) := rfl

theorem run_save_done (commit : σ → κ → Option σ) (s : σ) (c : κ) (a : α) :
    (run commit s (save c (done a))).2 = (commit s c).getD s := by
  unfold run
  cases commit s c <;> rfl

theorem run_ofQueries_bind (commit : σ → κ → Option σ) (s : σ) (view : σ → τ) (p : Queries τ α)
    (f : α → Session σ κ γ) : run commit s ((ofQueries view p).bind f) = run commit s (f (p.eval (view s))) := by
  induction p with
  | done a => rfl
  | ask q k ih => exact ih (q (view s))

/-! ## Running among others -/

/-- The store, and what is left of the session; nothing is after a refused save. -/
structure Stage (σ κ : Type) (α : Type v) where
  store : σ
  rest : Option (Session σ κ α)

inductive Move (σ : Type) where
  /-- The others bring the store to `s`. -/
  | others (s : σ)
  /-- The session goes on; `accepted` is false where the store refuses to save. -/
  | own (accepted : Bool)

def step (commit : Bool → σ → κ → Option σ) (g : Stage σ κ α) : Move σ → Option (Stage σ κ α)
  | .others s => some { g with store := s }
  | .own accepted =>
    match g.rest with
    | some (ask q k) => some { g with rest := some (k (q g.store)) }
    | some (save c k) =>
      match commit accepted g.store c with
      | none => some { g with rest := none }
      | some s => some ⟨s, some k⟩
    | _ => none

/-- The session has ended, by a refused save or with a bad result. -/
def Stage.Failed (bad : α → Prop) (g : Stage σ κ α) : Prop :=
  g.rest = none ∨ ∃ a, g.rest = some (done a) ∧ bad a

/-- Where the session itself moves, the store stays. -/
def LeavesStore (commit : Bool → σ → κ → Option σ) (g : Stage σ κ α) : Move σ → Prop
  | .others _ => True
  | .own accepted => ∀ g', step commit g (.own accepted) = some g' → g'.store = g.store

/-! ## Saving last -/

/-- It saves no more and ends well. -/
def Closes (bad : α → Prop) : Session σ κ α → Prop
  | done a => ¬ bad a
  | ask q k => ∀ s, (k (q s)).Closes bad
  | save _ _ => False

/-- After a save that the store took, it saves no more and ends well. -/
def SavesLast (bad : α → Prop) : Session σ κ α → Prop
  | done _ => True
  | ask q k => ∀ s, (k (q s)).SavesLast bad
  | save _ k => k.Closes bad

section
variable {bad : α → Prop}

theorem SavesLast.ask {β : Type} {q : σ → β} {k : β → Session σ κ α} (h : ∀ b, (k b).SavesLast bad) :
    (Session.ask q k).SavesLast bad := fun s => h (q s)

/-- Queries come before everything else. -/
theorem SavesLast.ofQueries_bind {view : σ → τ} {β : Type v} {Q : β → Prop} {p : Queries τ β}
    {f : β → Session σ κ α} (h : p.Yields Q) (hf : ∀ b, Q b → (f b).SavesLast bad) :
    ((ofQueries view p).bind f).SavesLast bad := by
  induction p with
  | done b => exact hf b h
  | ask q k ih => exact fun s => ih (q (view s)) (h (view s))

theorem closes_run {commit : σ → κ → Option σ} {p : Session σ κ α} (h : p.Closes bad) (s : σ) :
    ¬ (p.run commit s).1.Failed bad := by
  induction p generalizing s with
  | done a => exact h
  | ask q k ih => exact ih (q s) (h s) s
  | save c k => exact h.elim

/-- A session that runs alone and ends badly leaves the store as it was. -/
theorem SavesLast.run {commit : σ → κ → Option σ} {p : Session σ κ α} (h : p.SavesLast bad) {s : σ}
    (hbad : (p.run commit s).1.Failed bad) : (p.run commit s).2 = s := by
  induction p generalizing s with
  | done a => rfl
  | ask q k ih => exact ih (q s) (h s) hbad
  | save c k =>
    simp only [Session.run] at hbad ⊢
    cases hc : commit s c with
    | none => rfl
    | some s' =>
      rw [hc] at hbad
      exact absurd hbad (closes_run h s')

theorem closes_exec {commit : Bool → σ → κ → Option σ} {p : Session σ κ α} (h : p.Closes bad) {s : σ}
    {ms : List (Move σ)} {g : Stage σ κ α} (hrun : exec (step commit) ⟨s, some p⟩ ms = some g) : ¬ g.Failed bad := by
  have hclosing : ∃ p', g.rest = some p' ∧ p'.Closes bad := by
    refine exec_inv (fun g : Stage σ κ α => ∃ p', g.rest = some p' ∧ p'.Closes bad) ?_ ⟨p, rfl, h⟩ hrun
    rintro ⟨s, rest⟩ m g' ⟨p, rfl, hp⟩ hstep
    cases m with
    | others s' => cases hstep; exact ⟨p, rfl, hp⟩
    | own accepted =>
      cases p with
      | done a => cases hstep
      | ask q k => cases hstep; exact ⟨_, rfl, hp s⟩
      | save c k => exact hp.elim
  obtain ⟨p', hp', hc⟩ := hclosing
  rintro (hnone | ⟨a, ha, hbad⟩)
  · rw [hp'] at hnone
    cases hnone
  · rw [hp'] at ha
    cases ha
    exact hc hbad

/-- An ended session does not move. -/
theorem along_ended {commit : Bool → σ → κ → Option σ} (ms : List (Move σ)) (s : σ) :
    Along (step commit) (LeavesStore commit) (⟨s, none⟩ : Stage σ κ α) ms := by
  induction ms generalizing s with
  | nil => trivial
  | cons m ms ih =>
    cases m with
    | others s' => exact along_cons trivial rfl (ih s')
    | own accepted =>
      refine ⟨fun g' hg => ?_, fun g' hg => ?_⟩
      · cases hg
      · cases hg

/-- A session among others that ends badly has changed nothing at any of its moves. -/
theorem SavesLast.along {commit : Bool → σ → κ → Option σ} {p : Session σ κ α} (h : p.SavesLast bad) {s : σ}
    {ms : List (Move σ)} {g : Stage σ κ α} (hrun : exec (step commit) ⟨s, some p⟩ ms = some g)
    (hfail : g.Failed bad) : Along (step commit) (LeavesStore commit) ⟨s, some p⟩ ms := by
  induction ms generalizing s p with
  | nil => trivial
  | cons m ms ih =>
    obtain ⟨g', hstep, hrun⟩ := exec_cons_some.1 hrun
    cases m with
    | others s' => cases hstep; exact along_cons trivial rfl (ih h hrun)
    | own accepted =>
      cases p with
      | done a => cases hstep
      | ask q k =>
        cases hstep
        refine along_cons ?_ rfl (ih (h s) hrun)
        rintro g' ⟨⟩
        rfl
      | save c k =>
        cases hc : commit accepted s c with
        | none =>
          have hnone : step commit ⟨s, some (save c k)⟩ (.own accepted) = some ⟨s, none⟩ := by simp only [step, hc]
          refine along_cons (fun g' hg => ?_) hnone (along_ended ms s)
          cases hnone.symm.trans hg
          rfl
        | some s' =>
          have hsome : step commit ⟨s, some (save c k)⟩ (.own accepted) = some ⟨s', some k⟩ := by simp only [step, hc]
          cases hsome.symm.trans hstep
          exact absurd hfail (closes_exec h hrun)

end

end Session

/-! ## Units of work -/

/-- A session with a memory `ω`. An early end `ε` leaves the memory behind. -/
def UnitOfWork (σ κ ω ε α : Type) : Type 1 := ω → Session σ κ (Except ε (α × ω))

namespace UnitOfWork

variable {σ τ κ ω ε α β : Type}

/-- Going on after a result, unless it is an early end. -/
def andThen (f : α → UnitOfWork σ κ ω ε β) : Except ε (α × ω) → Session σ κ (Except ε (β × ω))
  | .error e => .done (.error e)
  | .ok (a, m) => f a m

instance : Monad (UnitOfWork σ κ ω ε) where
  pure a := fun m => .done (.ok (a, m))
  bind x f := fun m => (x m).bind (andThen f)

def throw (e : ε) : UnitOfWork σ κ ω ε α := fun _ => .done (.error e)

def memory : UnitOfWork σ κ ω ε ω := fun m => .done (.ok (m, m))

def assign (f : ω → ω) : UnitOfWork σ κ ω ε Unit := fun m => .done (.ok ((), f m))

/-- Queries of a part of the store; the memory is not asked. -/
def queries (view : σ → τ) (p : Queries τ α) : UnitOfWork σ κ ω ε α := fun m =>
  (Session.ofQueries view p).bind fun a => .done (.ok (a, m))

/-- Saving what the memory holds. -/
def saveChanges (batch : ω → κ) (after : ω → ω) : UnitOfWork σ κ ω ε Unit := fun m =>
  .save (batch m) (.done (.ok ((), after m)))

/-- What a session has come to when nothing is left to do. -/
def result (early : ε → α) : Except ε (α × ω) → α
  | .error e => early e
  | .ok (a, _) => a

/-- The whole session, from a fresh memory. -/
def session (fresh : ω) (early : ε → α) (x : UnitOfWork σ κ ω ε α) : Session σ κ α :=
  (x fresh).bind fun r => .done (result early r)

section Execution
variable (m : ω)

@[simp] theorem andThen_ok (f : α → UnitOfWork σ κ ω ε β) (a : α) : andThen f (.ok (a, m)) = f a m := rfl

@[simp] theorem andThen_error (f : α → UnitOfWork σ κ ω ε β) (e : ε) : andThen f (.error e) = .done (.error e) := rfl

@[simp] theorem pure_apply (a : α) : (pure a : UnitOfWork σ κ ω ε α) m = .done (.ok (a, m)) := rfl

@[simp] theorem bind_apply (x : UnitOfWork σ κ ω ε α) (f : α → UnitOfWork σ κ ω ε β) :
    (x >>= f) m = (x m).bind (andThen f) := rfl

@[simp] theorem throw_apply (e : ε) : (throw e : UnitOfWork σ κ ω ε α) m = .done (.error e) := rfl

@[simp] theorem memory_apply : (memory : UnitOfWork σ κ ω ε ω) m = .done (.ok (m, m)) := rfl

@[simp] theorem assign_apply (f : ω → ω) : (assign f : UnitOfWork σ κ ω ε Unit) m = .done (.ok ((), f m)) := rfl

theorem queries_apply (view : σ → τ) (p : Queries τ α) :
    (queries view p : UnitOfWork σ κ ω ε α) m = (Session.ofQueries view p).bind fun a => .done (.ok (a, m)) := rfl

@[simp] theorem saveChanges_apply (batch : ω → κ) (after : ω → ω) :
    (saveChanges batch after : UnitOfWork σ κ ω ε Unit) m = .save (batch m) (.done (.ok ((), after m))) := rfl

@[simp] theorem result_ok (early : ε → α) (a : α) : result early (.ok (a, m)) = a := rfl

@[simp] theorem result_error (early : ε → α) (e : ε) : result early (.error e : Except ε (α × ω)) = early e := rfl

end Execution

/-! ### Following a program of queries

`Follows view k v m w p`: from the memory `m` on, the unit of work `w` asks what
`p` asks and saves nothing of its own; what `k` makes of its result is what `v`
makes of the result of `p`. -/

def Follows {γ : Type} (view : σ → τ) (k : Except ε (α × ω) → Session σ κ γ) (v : β → Session σ κ γ) (m : ω)
    (w : UnitOfWork σ κ ω ε α) (p : Queries τ β) : Prop :=
  (w m).bind k = (Session.ofQueries view p).bind v

/-- A part of a unit of work that follows `p` and makes `u` of its result. -/
def Asks (view : σ → τ) (u : β → Except ε (α × ω)) (m : ω) (w : UnitOfWork σ κ ω ε α) (p : Queries τ β) : Prop :=
  Follows view .done (fun b => .done (u b)) m w p

section Rules
variable {γ δ ζ : Type} {view : σ → τ} {k : Except ε (α × ω) → Session σ κ γ} {v : β → Session σ κ γ} {m : ω}
  {w w' : UnitOfWork σ κ ω ε α} {p p' : Queries τ β}

theorem Follows.ite {c : Prop} [Decidable c] (ht : c → Follows view k v m w p) (hf : ¬ c → Follows view k v m w' p') :
    Follows view k v m (if c then w else w') (if c then p else p') := by
  split
  · exact ht ‹_›
  · exact hf ‹_›

theorem Follows.ret {a : α} {b : β} (h : k (.ok (a, m)) = v b) : Follows view k v m (pure a) (pure b) := h

theorem Follows.early {e : ε} {b : β} (h : k (.error e) = v b) : Follows view k v m (throw e) (pure b) := h

theorem Follows.early_bind {e : ε} {f : δ → UnitOfWork σ κ ω ε α} {b : β} (h : k (.error e) = v b) :
    Follows view k v m (throw e >>= f) (pure b) := h

theorem Follows.queries {q : Queries τ δ} {f : δ → UnitOfWork σ κ ω ε α} {g : δ → Queries τ β}
    (h : ∀ d, Follows view k v m (f d) (g d)) : Follows view k v m (queries view q >>= f) (q >>= g) := by
  unfold Follows
  rw [Session.ofQueries_bind, bind_apply, queries_apply, Session.bind_assoc, Session.bind_assoc, Session.bind_assoc]
  exact congrArg _ (funext h)

theorem Follows.assign {u : ω → ω} {f : Unit → UnitOfWork σ κ ω ε α} (h : Follows view k v (u m) (f ()) p) :
    Follows view k v m (assign u >>= f) p := h

theorem Follows.memory {f : ω → UnitOfWork σ κ ω ε α} (h : Follows view k v m (f m) p) :
    Follows view k v m (memory >>= f) p := h

/-- Nothing is asked to decide between two ways on. -/
theorem Follows.ite_not {c : Prop} [Decidable c] [Decidable (¬ c)] (ht : ¬ c → Follows view k v m w p)
    (hf : c → Follows view k v m w' p') : Follows view k v m (if ¬ c then w else w') (if c then p' else p) := by
  by_cases hc : c
  · rw [if_neg (not_not.2 hc), if_pos hc]
    exact hf hc
  · rw [if_pos hc, if_neg hc]
    exact ht hc

/-- A part that asks nothing. -/
theorem Follows.bind_done {x : UnitOfWork σ κ ω ε δ} {r : Except ε (δ × ω)} {f : δ → UnitOfWork σ κ ω ε α}
    (hx : x m = .done r) (hok : ∀ a m', r = .ok (a, m') → Follows view k v m' (f a) p)
    (herr : ∀ e, r = .error e → Follows view k v m (throw e) p) : Follows view k v m (x >>= f) p := by
  unfold Follows
  rw [bind_apply, hx]
  cases hr : r with
  | error e => exact herr e hr
  | ok r' => exact hok r'.1 r'.2 hr

/-- The rule for a part: what it comes to is what both go on from. -/
theorem Follows.bind {x : UnitOfWork σ κ ω ε δ} {q : Queries τ ζ} {u : ζ → Except ε (δ × ω)}
    {f : δ → UnitOfWork σ κ ω ε α} {g : ζ → Queries τ β} (hx : Asks view u m x q)
    (hok : ∀ b a m', u b = .ok (a, m') → Follows view k v m' (f a) (g b))
    (herr : ∀ b e, u b = .error e → Follows view k v m (throw e) (g b)) :
    Follows view k v m (x >>= f) (q >>= g) := by
  have hx : x m = (Session.ofQueries view q).bind fun b => .done (u b) := by
    rw [← Session.bind_done (x m)]
    exact hx
  unfold Follows
  rw [Session.ofQueries_bind, bind_apply, hx, Session.bind_assoc, Session.bind_assoc, Session.bind_assoc]
  congr 1
  funext b
  rw [Session.done_bind]
  cases hu : u b with
  | error e => exact herr b e hu
  | ok r => exact hok b r.1 r.2 hu

end Rules

end UnitOfWork

end DuckRun.Lib
