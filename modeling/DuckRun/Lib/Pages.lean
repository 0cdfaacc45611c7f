import DuckRun.Lib.Grouping
/-!
# Pages and counts

`ORDER BY column LIMIT n`, and rows counted by a key or by a property, against
what the keys of the rows say.
-/

namespace DuckRun.Lib

variable {α β κ : Type}

/-! ## Pages -/

/-- `ORDER BY column LIMIT n`. -/
def OrderBy.page (o : OrderBy β) (column : α → β) (n : Nat) (rows : List α) : List α := (o.sort column rows).take n

theorem OrderBy.mem_of_mem_page (o : OrderBy β) {column : α → β} {n : Nat} {rows : List α} {r : α}
    (h : r ∈ o.page column n rows) : r ∈ rows :=
  o.mem_sort.1 (List.mem_of_mem_take h)

theorem OrderBy.length_page (o : OrderBy β) (column : α → β) (n : Nat) (rows : List α) :
    (o.page column n rows).length = min n rows.length := by
  rw [OrderBy.page, List.length_take, (o.perm column rows).length_eq]

theorem OrderBy.sorted_page (o : OrderBy β) (column : α → β) (n : Nat) (rows : List α) :
    (o.page column n rows).Pairwise fun a b => o.le (column a) (column b) :=
  (o.sorted column rows).sublist (List.take_sublist _ _)

theorem OrderBy.nodup_page (o : OrderBy β) (column : α → β) (n : Nat) {key : α → κ} {rows : List α} (h : (rows.map key).Nodup) :
    ((o.page column n rows).map key).Nodup :=
  (((o.perm column rows).map key).nodup_iff.2 h).sublist ((List.take_sublist _ _).map key)

/-- A row that is not on the page comes after every row that is. -/
theorem OrderBy.page_first (o : OrderBy β) {column : α → β} {n : Nat} {rows : List α} {r x : α} (hr : r ∈ rows)
    (hout : r ∉ o.page column n rows) (hx : x ∈ o.page column n rows) : o.le (column x) (column r) := by
  have hsplit : o.page column n rows ++ (o.sort column rows).drop n = o.sort column rows := List.take_append_drop n _
  have hsorted := o.sorted column rows
  have hmem : r ∈ o.sort column rows := o.mem_sort.2 hr
  rw [← hsplit] at hsorted hmem
  have hrest : r ∈ (o.sort column rows).drop n := (List.mem_append.1 hmem).resolve_left hout
  exact (List.pairwise_append.1 hsorted).2.2 x hx r hrest

/-! ## Counts -/

/-- Rows counted through their keys. -/
theorem ncard_keys {key : α → κ} {rows : List α} (hn : (rows.map key).Nodup) {p : α → Bool} {q : κ → Prop}
    (hq : ∀ k, q k ↔ ∃ r ∈ rows, key r = k ∧ p r = true) : {k | q k}.ncard = rows.countP p := by
  classical
  have hset : {k | q k} = (((rows.filter p).map key).toFinset : Set κ) := by
    ext k
    simp only [Set.mem_ofPred_eq, hq, List.coe_toFinset, List.mem_map, List.mem_filter]
    exact ⟨fun ⟨r, hr, hk, hp⟩ => ⟨r, ⟨hr, hp⟩, hk⟩, fun ⟨r, ⟨hr, hp⟩, hk⟩ => ⟨r, hr, hk, hp⟩⟩
  have hnodup : ((rows.filter p).map key).Nodup := hn.sublist (List.filter_sublist.map key)
  rw [hset, Set.ncard_coe_finset, List.toFinset_card_of_nodup hnodup, List.length_map, List.countP_eq_length_filter]

variable [DecidableEq κ]

/-- `GROUP BY` with a `COUNT`. -/
def countBy (key : α → κ) (rows : List α) : List (κ × Nat) := (groupBy key rows).map fun g => (g.1, g.2.length)

theorem nodup_countBy (key : α → κ) (rows : List α) : ((countBy key rows).map Prod.fst).Nodup := by
  rw [countBy, List.map_map]
  exact nodup_groupBy key rows

/-- Every key that occurs, with how often. -/
theorem mem_countBy {key : α → κ} {rows : List α} {k : κ} {n : Nat} :
    (k, n) ∈ countBy key rows ↔ n ≠ 0 ∧ n = rows.countP fun r => key r = k := by
  rw [List.countP_eq_length_filter]
  simp only [countBy, List.mem_map, Prod.mk.injEq]
  constructor
  · rintro ⟨g, hg, rfl, rfl⟩
    obtain ⟨hmem, hrows⟩ := mem_groupBy.1 hg
    obtain ⟨r, hr, hrk⟩ := List.mem_map.1 hmem
    refine ⟨?_, by rw [hrows]⟩
    rw [hrows, ne_eq, List.length_eq_zero_iff, List.filter_eq_nil_iff]
    exact fun hnone => hnone r hr (by simpa using hrk)
  · rintro ⟨hne, rfl⟩
    obtain ⟨r, hr⟩ := List.exists_mem_of_length_pos (Nat.pos_of_ne_zero hne)
    obtain ⟨hrows, hk⟩ := List.mem_filter.1 hr
    exact ⟨(k, rows.filter fun r => key r = k), mem_groupBy.2 ⟨List.mem_map.2 ⟨r, hrows, by simpa using hk⟩, rfl⟩, rfl, rfl⟩

end DuckRun.Lib
