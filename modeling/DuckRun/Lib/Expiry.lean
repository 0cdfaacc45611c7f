import Mathlib.Data.Option.Basic
/-!
# Keys that expire

A key of a key-value store holds an entry with an optional deadline. From the
deadline on, commands do not find the entry; when the store really drops it
does not matter (`lookup_lookup`). Times are in milliseconds and grow.
-/

namespace DuckRun.Lib.Expiry

variable {α : Type}

structure Entry (α : Type) where
  value : α
  deadline : Option Nat
  deriving DecidableEq, Repr

/-- Seconds, as the store's clock counts them. -/
def seconds (n : Nat) : Nat := 1000 * n

def Entry.live (now : Nat) (e : Entry α) : Bool := e.deadline.all fun d => now < d

/-- The entry a command at `now` finds. -/
def lookup (now : Nat) (key : Option (Entry α)) : Option (Entry α) := key.filter (Entry.live now)

def valueAt (now : Nat) (key : Option (Entry α)) : Option α := (lookup now key).map Entry.value

/-- `EXPIRE key ttl`. -/
def expire (now ttl : Nat) (key : Option (Entry α)) : Option (Entry α) :=
  (lookup now key).map fun e => { e with deadline := some (now + seconds ttl) }

/-- `SET key v NX EX ttl`, and whether it set the key. -/
def setNxEx (now : Nat) (v : α) (ttl : Nat) (key : Option (Entry α)) : Option (Entry α) × Bool :=
  match lookup now key with
  | none => (some ⟨v, some (now + seconds ttl)⟩, true)
  | some _ => (key, false)

@[simp] theorem lookup_none (now : Nat) : lookup now (none : Option (Entry α)) = none := rfl

theorem lookup_some {now : Nat} {key : Option (Entry α)} {e : Entry α} :
    lookup now key = some e ↔ key = some e ∧ e.live now = true := by
  unfold lookup
  rw [Option.filter_eq_some_iff]

theorem live_iff {now d : Nat} {v : α} : (⟨v, some d⟩ : Entry α).live now = true ↔ now < d := by
  simp [Entry.live]

theorem lookup_of_lt {now d : Nat} {v : α} (h : now < d) :
    lookup now (some ⟨v, some d⟩) = some ⟨v, some d⟩ :=
  lookup_some.2 ⟨rfl, live_iff.2 h⟩

theorem lookup_expired {now d : Nat} {v : α} (h : d ≤ now) : lookup now (some ⟨v, some d⟩) = none := by
  cases hl : lookup now (some (⟨v, some d⟩ : Entry α)) with
  | none => rfl
  | some e =>
    obtain ⟨he, hlive⟩ := lookup_some.1 hl
    cases he
    have hlt := live_iff.1 hlive
    omega

/-- What is not found once is not found later. -/
theorem lookup_none_later {s t : Nat} {key : Option (Entry α)} (hst : s ≤ t) (h : lookup s key = none) :
    lookup t key = none := by
  cases ht : lookup t key with
  | none => rfl
  | some e =>
    obtain ⟨rfl, hlive⟩ := lookup_some.1 ht
    have hs : e.live s = true := by
      unfold Entry.live at hlive ⊢
      rw [Option.all_eq_true] at hlive ⊢
      intro d hd
      have hlt := hlive d hd
      simp only [decide_eq_true_eq] at hlt ⊢
      omega
    rw [lookup_some.2 ⟨rfl, hs⟩] at h
    cases h

theorem lookup_lookup {s t : Nat} (hst : s ≤ t) (key : Option (Entry α)) : lookup t (lookup s key) = lookup t key := by
  cases hs : lookup s key with
  | none =>
    rw [lookup_none_later hst hs]
    rfl
  | some e => rw [(lookup_some.1 hs).1]

theorem valueAt_eq_none {now : Nat} {key : Option (Entry α)} : valueAt now key = none ↔ lookup now key = none := by
  unfold valueAt
  rw [Option.map_eq_none_iff]

theorem valueAt_some {now : Nat} {key : Option (Entry α)} {v : α} :
    valueAt now key = some v ↔ ∃ d, lookup now key = some ⟨v, d⟩ := by
  unfold valueAt
  rw [Option.map_eq_some_iff]
  constructor
  · rintro ⟨e, he, rfl⟩
    exact ⟨e.deadline, he⟩
  · rintro ⟨d, hd⟩
    exact ⟨_, hd, rfl⟩

end DuckRun.Lib.Expiry
