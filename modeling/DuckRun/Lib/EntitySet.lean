import DuckRun.Lib.Rows
/-!
# A table inside a unit of work

A unit of work queries the committed rows, looks entities up by key, assigns
to them, adds new ones, and saves everything at its end. A query is evaluated
on the committed rows; a lookup by key sees assignments and additions too.
-/

namespace DuckRun.Lib

/-- `current` are the committed rows with what was assigned since. -/
structure EntitySet (α : Type) where
  committed : List α
  current : List α
  added : List α

namespace EntitySet

variable {α κ : Type}

def open_ (rows : List α) : EntitySet α := ⟨rows, rows, []⟩

/-- The table after saving. -/
def saved (t : EntitySet α) : List α := t.current ++ t.added

def add (t : EntitySet α) (r : α) : EntitySet α := { t with added := t.added ++ [r] }

/-- The one committed row with `p`; more than one is an error. -/
def singleOrDefault (t : EntitySet α) (p : α → Bool) : Except String (Option α) :=
  match t.committed.filter p with
  | [] => .ok none
  | [r] => .ok (some r)
  | _ => .error "Sequence contains more than one element."

variable [DecidableEq κ]

def find (key : α → κ) (t : EntitySet α) (k : κ) : Option α := t.saved.find? fun r => key r = k

def modify (key : α → κ) (t : EntitySet α) (k : κ) (f : α → α) : EntitySet α :=
  { t with current := updateKey key k f t.current, added := updateKey key k f t.added }

@[simp] theorem saved_open (rows : List α) : (open_ rows).saved = rows := by simp [open_, saved]

@[simp] theorem committed_open (rows : List α) : (open_ rows).committed = rows := rfl

@[simp] theorem saved_add (t : EntitySet α) (r : α) : (t.add r).saved = t.saved ++ [r] := by simp [add, saved]

@[simp] theorem committed_add (t : EntitySet α) (r : α) : (t.add r).committed = t.committed := rfl

@[simp] theorem saved_modify (key : α → κ) (t : EntitySet α) (k : κ) (f : α → α) :
    (t.modify key k f).saved = updateKey key k f t.saved := by
  simp [modify, saved, updateKey]

@[simp] theorem committed_modify (key : α → κ) (t : EntitySet α) (k : κ) (f : α → α) :
    (t.modify key k f).committed = t.committed := rfl

theorem find_some {key : α → κ} {t : EntitySet α} {k : κ} {r : α} (h : t.find key k = some r) :
    r ∈ t.saved ∧ key r = k := find_row_mem h

theorem find_none {key : α → κ} {t : EntitySet α} {k : κ} (h : t.find key k = none) : ∀ r ∈ t.saved, key r ≠ k :=
  find_row_none h

theorem singleOrDefault_some {t : EntitySet α} {p : α → Bool} {r : α} (h : t.singleOrDefault p = .ok (some r)) :
    r ∈ t.committed ∧ p r = true := by
  unfold singleOrDefault at h
  split at h
  · cases h
  · rename_i r' hr
    cases h
    exact List.mem_filter.1 (hr ▸ List.mem_singleton.2 rfl)
  · cases h

/-! ## Rows a unit of work leaves alone -/

/-- The rows with `p` are the committed ones, and no others. -/
def Keeps (p : α → Bool) (t : EntitySet α) : Prop := t.saved.filter p = t.committed.filter p

theorem keeps_open (p : α → Bool) (rows : List α) : Keeps p (open_ rows) := by simp [Keeps]

theorem Keeps.mem {p : α → Bool} {t : EntitySet α} (h : Keeps p t) {r : α} (hp : p r = true) :
    r ∈ t.saved ↔ r ∈ t.committed := by
  have hmem : r ∈ t.saved.filter p ↔ r ∈ t.committed.filter p := by rw [h]
  simpa [hp] using hmem

theorem Keeps.add {p : α → Bool} {t : EntitySet α} (h : Keeps p t) {r : α} (hr : p r = false) : Keeps p (t.add r) := by
  unfold Keeps at h ⊢
  rw [saved_add, committed_add, List.filter_append, h]
  simp [hr]

/-- Assigning to an entity that is not one of them, as something that is not one of them. -/
theorem Keeps.modify {key : α → κ} {p : α → Bool} {t : EntitySet α} (h : Keeps p t) {k : κ} {f : α → α}
    (hk : ∀ r ∈ t.committed, p r = true → key r ≠ k) (hf : ∀ r, p (f r) = p r) : Keeps p (t.modify key k f) := by
  have hrows : (updateKey key k f t.saved).filter p = t.saved.filter p :=
    filter_updateKey (fun r hr hp => hk r ((h.mem hp).1 hr) hp) hf
  unfold Keeps at h ⊢
  rw [saved_modify, committed_modify, hrows, h]

end EntitySet

end DuckRun.Lib
