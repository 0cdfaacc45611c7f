import Mathlib.Data.List.Nodup
import Mathlib.Data.List.Basic
/-!
# Rows with a key

A table is a list of rows, its primary key a function with no repeated value.
-/

namespace DuckRun.Lib

variable {α κ : Type}

theorem nodup_map_filter {key : α → κ} {l : List α} (p : α → Bool) (h : (l.map key).Nodup) :
    ((l.filter p).map key).Nodup :=
  h.sublist (List.filter_sublist.map key)

/-- Rows that keep their key keep the table keyed. -/
theorem nodup_map_map {key : α → κ} {f : α → α} {l : List α} (hf : ∀ r, key (f r) = key r)
    (h : (l.map key).Nodup) : ((l.map f).map key).Nodup := by
  rwa [List.map_map, show key ∘ f = key from funext hf]

variable [DecidableEq κ]

theorem find_row_mem {key : α → κ} {l : List α} {k : κ} {r : α} (h : l.find? (fun x => key x = k) = some r) :
    r ∈ l ∧ key r = k :=
  ⟨List.mem_of_find?_eq_some h, by simpa using List.find?_some h⟩

theorem find_row_none {key : α → κ} {l : List α} {k : κ} (h : l.find? (fun x => key x = k) = none) :
    ∀ r ∈ l, key r ≠ k := by
  simpa using h

/-- Looking a key up finds exactly the row that carries it. -/
theorem find_row_iff {key : α → κ} {l : List α} (hn : (l.map key).Nodup) (k : κ) (r : α) :
    l.find? (fun x => key x = k) = some r ↔ r ∈ l ∧ key r = k := by
  refine ⟨find_row_mem, ?_⟩
  rintro ⟨hr, hk⟩
  cases h : l.find? (fun x => key x = k) with
  | none => exact absurd hk (find_row_none h r hr)
  | some r' =>
    obtain ⟨hr', hk'⟩ := find_row_mem h
    rw [List.inj_on_of_nodup_map hn hr' hr (hk'.trans hk.symm)]

/-- A keyed table is the row with a key and the rows without it. -/
theorem perm_delete_row {key : α → κ} {l : List α} (hn : (l.map key).Nodup) {r : α} (hr : r ∈ l) :
    l.Perm (r :: l.filter fun x => key x ≠ key r) := by
  induction l with
  | nil => cases hr
  | cons x l ih =>
    obtain ⟨hx, hn⟩ := List.nodup_cons.1 hn
    rcases List.mem_cons.1 hr with rfl | hr
    · have hall : l.filter (fun y => key y ≠ key r) = l := by
        refine List.filter_eq_self.2 fun y hy => decide_eq_true fun heq => hx ?_
        exact heq ▸ List.mem_map_of_mem hy
      rw [List.filter_cons_of_neg (by simp), hall]
    · have hne : key x ≠ key r := fun heq => hx (heq ▸ List.mem_map_of_mem hr)
      rw [List.filter_cons_of_pos (by simp [hne])]
      exact ((ih hn hr).cons x).trans (.swap r x _)

/-- Updating the row with key `k`, as an `UPDATE ... WHERE key = k` does. -/
def updateKey (key : α → κ) (k : κ) (f : α → α) (l : List α) : List α :=
  l.map fun r => if key r = k then f r else r

theorem map_updateKey {key : α → κ} {f : α → α} (hf : ∀ r, key (f r) = key r) (k : κ) (l : List α) :
    (updateKey key k f l).map key = l.map key := by
  rw [updateKey, List.map_map]
  refine List.map_congr_left fun r _ => ?_
  simp only [Function.comp_apply]
  split
  · exact hf r
  · rfl

theorem mem_updateKey {key : α → κ} {f : α → α} {k : κ} {l : List α} {r : α} :
    r ∈ updateKey key k f l ↔ ∃ x ∈ l, r = if key x = k then f x else x := by
  simp only [updateKey, List.mem_map, eq_comm]

/-- Looking a key up after an update. -/
theorem find_updateKey {key : α → κ} {f : α → α} (hf : ∀ r, key (f r) = key r) (k k' : κ) (l : List α) :
    (updateKey key k f l).find? (fun r => key r = k') =
      if k' = k then (l.find? fun r => key r = k).map f else l.find? fun r => key r = k' := by
  induction l with
  | nil => simp [updateKey]
  | cons r l ih =>
    have hkey : key (if key r = k then f r else r) = key r := by
      split
      · exact hf r
      · rfl
    unfold updateKey at ih ⊢
    rw [List.map_cons, List.find?_cons, List.find?_cons, List.find?_cons, hkey, ih]
    by_cases hr : key r = k'
    · subst hr
      by_cases hk : key r = k
      · simp [hk]
      · simp [hk]
    · by_cases hk' : k' = k
      · subst hk'
        simp [hr]
      · simp [hr, hk']

/-- Updating a row without `p` leaves the rows with `p` alone. -/
theorem filter_updateKey {key : α → κ} {p : α → Bool} {f : α → α} {k : κ} {l : List α}
    (hk : ∀ r ∈ l, p r = true → key r ≠ k) (hf : ∀ r, p (f r) = p r) :
    (updateKey key k f l).filter p = l.filter p := by
  induction l with
  | nil => rfl
  | cons r l ih =>
    have hl := ih fun x hx => hk x (List.mem_cons_of_mem _ hx)
    have hp : p (if key r = k then f r else r) = p r := by
      split
      · exact hf r
      · rfl
    unfold updateKey at hl ⊢
    rw [List.map_cons, List.filter_cons, List.filter_cons, hl, hp]
    split
    · rename_i hpr
      rw [if_neg (hk r List.mem_cons_self hpr)]
    · rfl

/-- Updates of distinct keys, one after the other, are one pass over the table. -/
theorem foldl_updateKey {β : Type} {key : α → κ} (g : β → κ) (f : β → α → α) (hf : ∀ b r, key (f b r) = key r)
    (bs : List β) (hn : (bs.map g).Nodup) (l : List α) :
    bs.foldl (fun l b => updateKey key (g b) (f b) l) l =
      l.map fun r => (bs.find? fun b => g b = key r).elim r (fun b => f b r) := by
  induction bs generalizing l with
  | nil => simp
  | cons b bs ih =>
    simp only [List.map_cons, List.nodup_cons] at hn
    rw [List.foldl_cons, ih hn.2, updateKey, List.map_map]
    refine List.map_congr_left fun r _ => ?_
    simp only [Function.comp_apply, List.find?_cons]
    by_cases hr : key r = g b
    · have hnone : bs.find? (fun b' => g b' = g b) = none := by
        rw [List.find?_eq_none]
        intro b' hb' he
        exact hn.1 (List.mem_map.2 ⟨b', hb', by simpa using he⟩)
      simp [hr, hf, hnone]
    · simp [hr, Ne.symm hr]

end DuckRun.Lib
