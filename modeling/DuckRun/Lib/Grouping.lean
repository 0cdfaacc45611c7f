import Mathlib
/-!
# Sorting and grouping rows

What queries do with the rows of a table: `ORDER BY` a column, and LINQ's
`GroupBy` and `ToDictionary`.
-/

namespace DuckRun.Lib

/-- How a server sorts: the order of its values (a collation), and the rows of
a result in that order. Rows that compare equal come in any order. -/
structure OrderBy (β : Type) where
  le : β → β → Prop
  total : ∀ a b, le a b ∨ le b a
  trans : ∀ {a b c}, le a b → le b c → le a c
  sort {α : Type} (column : α → β) (rows : List α) : List α
  perm {α : Type} (column : α → β) (rows : List α) : (sort column rows).Perm rows
  sorted {α : Type} (column : α → β) (rows : List α) :
    (sort column rows).Pairwise fun a b => le (column a) (column b)

/-- The linear order of the values themselves, by a stable sort. -/
def OrderBy.linear (β : Type) [LinearOrder β] : OrderBy β where
  le := (· ≤ ·)
  total := le_total
  trans := le_trans
  sort column rows := rows.mergeSort fun a b => column a ≤ column b
  perm _ rows := List.mergeSort_perm rows _
  sorted column rows := by
    have h := @List.pairwise_mergeSort _ (fun a b => decide (column a ≤ column b))
      (fun a b c hab hbc => by simp only [decide_eq_true_eq] at hab hbc ⊢; exact hab.trans hbc)
      (fun a b => by simpa using le_total (column a) (column b)) rows
    exact h.imp fun hab => by simpa using hab

/-- The same with the greatest in front. -/
def OrderBy.descending (β : Type) [LinearOrder β] : OrderBy β where
  le := (· ≥ ·)
  total a b := le_total b a
  trans hab hbc := hbc.trans hab
  sort column rows := rows.mergeSort fun a b => column b ≤ column a
  perm _ rows := List.mergeSort_perm rows _
  sorted column rows := by
    have h := @List.pairwise_mergeSort _ (fun a b => decide (column b ≤ column a))
      (fun a b c hab hbc => by simp only [decide_eq_true_eq] at hab hbc ⊢; exact hbc.trans hab)
      (fun a b => by simpa using le_total (column b) (column a)) rows
    exact h.imp fun hab => by simpa using hab

variable {α : Type} {β : Type}

theorem OrderBy.mem_sort (o : OrderBy β) {column : α → β} {rows : List α} {r : α} :
    r ∈ o.sort column rows ↔ r ∈ rows := (o.perm column rows).mem_iff

/-- Rows whose values differ come in one order only. -/
theorem OrderBy.sort_eq (o : OrderBy β) (hanti : ∀ a b, o.le a b → o.le b a → a = b) {column : α → β} {rows l : List α}
    (hp : rows.Perm l) (hinj : (l.map column).Nodup) (hl : l.Pairwise fun a b => o.le (column a) (column b)) :
    o.sort column rows = l := by
  refine List.Perm.eq_of_pairwise (fun a b ha hb hab hba => ?_) (o.sorted column rows) hl ((o.perm column rows).trans hp)
  exact List.inj_on_of_nodup_map hinj (hp.mem_iff.1 (o.mem_sort.1 ha)) hb (hanti _ _ hab hba)

/-! ## Groups -/

variable {κ : Type} [DecidableEq κ]

/-- LINQ's `GroupBy`: the groups in the order in which their keys first occur,
the rows of a group in the order of the source. -/
def groupBy (key : α → κ) (rows : List α) : List (κ × List α) :=
  (rows.map key).eraseDups.map fun k => (k, rows.filter fun r => key r = k)

/-- `ToDictionary`, which throws on a repeated key. -/
def toDictionary (key : α → κ) (value : α → β) (rows : List α) : Except String (List (κ × β)) :=
  if (rows.map key).Nodup then .ok (rows.map fun r => (key r, value r))
  else .error "An item with the same key has already been added."

omit [DecidableEq κ] in
/-- A default that does not occur keeps keys apart. -/
theorem getD_inj {d : κ} {a b : Option κ} (ha : a ≠ some d) (hb : b ≠ some d) : a.getD d = b.getD d ↔ a = b := by
  cases a with
  | none =>
    cases b with
    | none => simp
    | some y => simpa [eq_comm] using hb
  | some x =>
    cases b with
    | none => simpa using ha
    | some y => simp

theorem nodup_eraseDups (l : List κ) : l.eraseDups.Nodup := by
  induction h : l.length using Nat.strong_induction_on generalizing l with
  | _ n ih =>
    cases l with
    | nil => simp
    | cons k l =>
      rw [List.eraseDups_cons, List.nodup_cons]
      refine ⟨by simp [List.mem_eraseDups], ih _ ?_ _ rfl⟩
      rw [← h]
      exact Nat.lt_succ_of_le (List.length_filter_le _ _)

/-- A group per key that occurs, with all the rows that carry it. -/
theorem mem_groupBy {key : α → κ} {rows : List α} {g : κ × List α} :
    g ∈ groupBy key rows ↔ g.1 ∈ rows.map key ∧ g.2 = rows.filter fun r => key r = g.1 := by
  obtain ⟨k, l⟩ := g
  simp only [groupBy, List.mem_map, List.mem_eraseDups, Prod.mk.injEq]
  constructor
  · rintro ⟨_, hk, rfl, rfl⟩
    exact ⟨hk, rfl⟩
  · rintro ⟨hk, hl⟩
    exact ⟨k, hk, rfl, hl.symm⟩

theorem nodup_groupBy (key : α → κ) (rows : List α) : ((groupBy key rows).map Prod.fst).Nodup := by
  rw [groupBy, List.map_map]
  exact (List.map_id _).symm ▸ nodup_eraseDups _

theorem toDictionary_ok {key : α → κ} {value : α → β} {rows : List α} {d : List (κ × β)}
    (h : toDictionary key value rows = .ok d) : (rows.map key).Nodup ∧ d = rows.map fun r => (key r, value r) := by
  unfold toDictionary at h
  split at h
  · cases h
    exact ⟨‹_›, rfl⟩
  · cases h

/-- `TryGetValue` on a dictionary. -/
theorem lookup_toDictionary {key : α → κ} {value : α → β} {rows : List α} {d : List (κ × β)}
    (h : toDictionary key value rows = .ok d) (k : κ) (v : β) :
    d.lookup k = some v ↔ ∃ r ∈ rows, key r = k ∧ value r = v := by
  obtain ⟨hn, rfl⟩ := toDictionary_ok h
  clear h
  induction rows with
  | nil => simp
  | cons r rows ih =>
    obtain ⟨hr, hn⟩ := List.nodup_cons.1 hn
    rw [List.map_cons, List.lookup_cons]
    by_cases hk : k = key r
    · subst hk
      simp only [beq_self_eq_true, Option.some.injEq, List.mem_cons, exists_eq_or_imp, true_and]
      refine ⟨.inl, fun hv => hv.elim id ?_⟩
      rintro ⟨x, hx, hkey, -⟩
      exact absurd (hkey ▸ List.mem_map_of_mem hx) hr
    · rw [beq_false_of_ne hk, ih hn]
      simp [Ne.symm hk]

/-- A dictionary of groups, under keys that `e` keeps apart: what is looked up
under a key comes from the rows that carry it. -/
theorem lookup_groupBy {ι : Type} [DecidableEq ι] {key : α → κ} {e : κ → ι} {v : List α → β} {rows : List α}
    {d : List (ι × β)} (h : toDictionary (fun g => e g.1) (fun g => v g.2) (groupBy key rows) = .ok d) {k : κ}
    (hk : ∀ r ∈ rows, e (key r) = e k → key r = k) :
    (d.lookup (e k)).getD (v []) = v (rows.filter fun r => key r = k) := by
  have hlookup := lookup_toDictionary h (e k)
  cases hl : d.lookup (e k) with
  | none =>
    refine congrArg v (List.filter_eq_nil_iff.2 fun r hr hrk => ?_).symm
    have hg : (k, rows.filter fun r => key r = k) ∈ groupBy key rows :=
      mem_groupBy.2 ⟨List.mem_map.2 ⟨r, hr, by simpa using hrk⟩, rfl⟩
    have hsome := (hlookup _).2 ⟨_, hg, rfl, rfl⟩
    rw [hl] at hsome
    cases hsome
  | some b =>
    obtain ⟨g, hg, hgk, rfl⟩ := (hlookup b).1 hl
    obtain ⟨hmem, hrows⟩ := mem_groupBy.1 hg
    obtain ⟨r, hr, hrk⟩ := List.mem_map.1 hmem
    rw [Option.getD_some, hrows, ← hrk, hk r hr (hrk ▸ hgk)]

theorem toDictionary_groupBy {ι : Type} [DecidableEq ι] (key : α → κ) (e : κ → ι) (v : List α → β) {rows : List α}
    (he : ∀ r ∈ rows, ∀ r' ∈ rows, e (key r) = e (key r') → key r = key r') :
    ∃ d, toDictionary (fun g => e g.1) (fun g => v g.2) (groupBy key rows) = .ok d := by
  refine ⟨_, if_pos ?_⟩
  have hkeys := nodup_groupBy key rows
  rw [List.Nodup, List.pairwise_map] at hkeys ⊢
  refine hkeys.imp_of_mem fun {x y} hx hy hne heq => hne ?_
  obtain ⟨r, hr, hrx⟩ := List.mem_map.1 (mem_groupBy.1 hx).1
  obtain ⟨r', hr', hry⟩ := List.mem_map.1 (mem_groupBy.1 hy).1
  rw [← hrx, ← hry] at heq ⊢
  exact he r hr r' hr' heq

/-- The rows under each of some keys, together. -/
theorem sum_countP (key : α → Option κ) (rows : List α) {ks : List κ} (hn : ks.Nodup) :
    (ks.map fun k => rows.countP fun r => key r = some k).sum = rows.countP fun r => (key r).any (· ∈ ks) := by
  induction ks with
  | nil =>
    refine (List.countP_eq_zero.2 fun r _ => ?_).symm
    cases key r <;> simp
  | cons k ks ih =>
    obtain ⟨hk, hn⟩ := List.nodup_cons.1 hn
    rw [List.map_cons, List.sum_cons, ih hn]
    clear ih
    -- No row is counted twice: its key is `k`, or one of the others.
    induction rows with
    | nil => rfl
    | cons r rows ihr =>
      rw [List.countP_cons, List.countP_cons, List.countP_cons, ← ihr]
      cases hr : key r with
      | none => simp
      | some j =>
        by_cases hj : j = k
        · subst hj
          simp [hk]
          omega
        · simp [hj]
          omega

/-- A count per key and one for the rows without a key count every row. -/
theorem countP_none_add_sum (key : α → Option κ) {rows : List α} {ks : List κ} (hn : ks.Nodup)
    (hks : ∀ r ∈ rows, ∀ k, key r = some k → k ∈ ks) :
    (rows.countP fun r => key r = none) + (ks.map fun k => rows.countP fun r => key r = some k).sum = rows.length := by
  rw [sum_countP key rows hn, List.length_eq_countP_add_countP fun r => key r = none]
  congr 1
  refine List.countP_congr fun r hr => ?_
  cases hk : key r with
  | none => simp
  | some k => simpa using hks r hr k hk

end DuckRun.Lib
