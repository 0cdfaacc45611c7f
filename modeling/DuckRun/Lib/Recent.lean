import Mathlib.Data.List.DropRight
import Mathlib.Data.List.Nodup
import Mathlib.Logic.Function.Basic
/-!
# The newest of a sequence

Two ways to keep the newest `n` of what came: a list with the newest in front
that drops its last elements, and a queue that drops its first. Cutting after
every arrival or once at the end is the same.
-/

namespace DuckRun.Lib

variable {α κ β : Type}

/-! ## Newest first -/

/-- `AddFirst`, then `RemoveLast` while there are more than `n`. -/
def push (n : Nat) (x : α) (l : List α) : List α := (x :: l).take n

/-- What `push` removes, in the order it does. -/
def pushedOut (n : Nat) (x : α) (l : List α) : List α := ((x :: l).drop n).reverse

theorem push_take (n : Nat) (x : α) (l : List α) : push n x (l.take n) = (x :: l).take n := by
  unfold push
  cases n with
  | zero => rfl
  | succ n => rw [List.take_succ_cons, List.take_succ_cons, List.take_take, Nat.min_eq_left (Nat.le_succ n)]

theorem mem_push_or_pushedOut {n : Nat} {x y : α} {l : List α} : y ∈ push n x l ∨ y ∈ pushedOut n x l ↔ y = x ∨ y ∈ l := by
  unfold push pushedOut
  rw [List.mem_reverse, ← List.mem_append, List.take_append_drop, List.mem_cons]

theorem not_mem_pushedOut {n : Nat} {x y : α} {l : List α} (hn : (x :: l).Nodup) (hy : y ∈ push n x l) :
    y ∉ pushedOut n x l := by
  unfold push at hy
  unfold pushedOut
  rw [List.mem_reverse]
  rw [← List.take_append_drop n (x :: l)] at hn
  exact fun hdrop => (List.nodup_append.1 hn).2.2 y hy y hdrop rfl

section Table
variable [DecidableEq κ]

/-- Removing keys from a table, one after the other. -/
def removeAll (table : κ → Option β) (keys : List κ) : κ → Option β :=
  keys.foldl (fun table key => Function.update table key none) table

theorem removeAll_apply (table : κ → Option β) (keys : List κ) (k : κ) :
    removeAll table keys k = if k ∈ keys then none else table k := by
  unfold removeAll
  induction keys generalizing table with
  | nil => simp
  | cons key keys ih =>
    rw [List.foldl_cons, ih]
    by_cases hk : k ∈ keys
    · simp [hk]
    · by_cases he : k = key
      · simp [he]
      · simp [hk, he]

end Table

/-- The table has an entry for exactly these keys, each listed once. -/
structure KeysOf (table : κ → Option β) (keys : List κ) : Prop where
  nodup : keys.Nodup
  mem : ∀ k, (∃ x, table k = some x) ↔ k ∈ keys

theorem KeysOf.perm {table : κ → Option β} {keys keys' : List κ} (h : KeysOf table keys) (hp : keys.Perm keys') :
    KeysOf table keys' :=
  ⟨hp.nodup h.nodup, fun k => (h.mem k).trans hp.mem_iff⟩

theorem KeysOf.add [DecidableEq κ] {table : κ → Option β} {keys : List κ} (h : KeysOf table keys) {key : κ} (hnew : table key = none) (x : β) :
    KeysOf (Function.update table key (some x)) (key :: keys) where
  nodup := by
    refine List.nodup_cons.2 ⟨fun hmem => ?_, h.nodup⟩
    obtain ⟨y, hy⟩ := (h.mem key).2 hmem
    rw [hnew] at hy
    cases hy
  mem k := by
    rw [Function.update_apply, List.mem_cons, ← h.mem k]
    by_cases hk : k = key <;> simp [hk]

theorem KeysOf.remove [DecidableEq κ] {table : κ → Option β} {keys : List κ} {key : κ} (h : KeysOf table (key :: keys)) :
    KeysOf (Function.update table key none) keys where
  nodup := (List.nodup_cons.1 h.nodup).2
  mem k := by
    have hout := (List.nodup_cons.1 h.nodup).1
    rw [Function.update_apply]
    by_cases hk : k = key
    · simp [hk, hout]
    · rw [if_neg hk, h.mem k, List.mem_cons]
      simp [hk]

/-- Keys that are all in a table lose none in `filterMap`. -/
theorem map_some_filterMap {table : κ → Option β} {keys : List κ} (h : ∀ k ∈ keys, ∃ x, table k = some x) :
    (keys.filterMap table).map some = keys.map table := by
  induction keys with
  | nil => rfl
  | cons key keys ih =>
    obtain ⟨x, hx⟩ := h key List.mem_cons_self
    rw [List.filterMap_cons_some hx, List.map_cons, List.map_cons, hx, ih fun k hk => h k (List.mem_cons_of_mem _ hk)]

/-! ## Newest last -/

/-- `Enqueue`, then `Dequeue` while there are more than `n`. -/
def enqueue (n : Nat) (l : List α) (x : α) : List α := (l ++ [x]).rtake n

theorem enqueue_rtake (n : Nat) (l : List α) (x : α) : enqueue n (l.rtake n) x = (l ++ [x]).rtake n := by
  unfold enqueue
  cases n with
  | zero => simp
  | succ n =>
    rw [List.rtake_concat_succ, List.rtake_concat_succ]
    rw [List.rtake_eq_reverse_take_reverse, List.rtake_eq_reverse_take_reverse, List.rtake_eq_reverse_take_reverse]
    rw [List.reverse_reverse, List.take_take, Nat.min_eq_left (Nat.le_succ n)]

theorem rtake_ne_nil {n : Nat} {l : List α} (hn : 1 ≤ n) (hl : l ≠ []) : l.rtake n ≠ [] := by
  obtain ⟨m, rfl⟩ := Nat.exists_eq_add_of_le' hn
  rcases List.eq_nil_or_concat l with rfl | ⟨l', x, rfl⟩
  · exact absurd rfl hl
  · rw [List.concat_eq_append, List.rtake_concat_succ]
    simp

end DuckRun.Lib
