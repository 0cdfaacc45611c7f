import DuckRun.Lib.EntitySet
import DuckRun.Lib.Folds
import Mathlib.Logic.Function.Basic
/-!
# Upserts by a second key

A table has a primary key `id` and a unique index on `key`. A unit of work
upserts by `key`: it queries the committed rows, assigns to the entity of the
row it finds, and adds a row where it finds none. The query does not see rows
added before, so a batch may add one key twice; but then it does not fit the
index. What does fit is the same batch on the map from keys to rows.
-/

namespace DuckRun.Lib

variable {α κ ι : Type}

/-- The row to add under a key, and the assignment to the row that is there. -/
structure Upsert (α κ : Type) where
  key : κ
  new : α
  assign : α → α

section Keys
variable (id : α → ι) (key : α → κ)

/-- The new row has the key, and an assignment changes neither key. -/
structure Upsert.Fits (u : Upsert α κ) : Prop where
  new : key u.new = u.key
  id : ∀ r, id (u.assign r) = id r
  key : ∀ r, key (u.assign r) = key r

/-- The entities stand for the committed rows, one by one. -/
def EntitySet.Aligned (set : EntitySet α) : Prop :=
  set.current.map (fun r => (id r, key r)) = set.committed.map fun r => (id r, key r)

/-- The rows that would be saved fit both keys. -/
structure EntitySet.Indexed (set : EntitySet α) : Prop where
  ids : (set.saved.map id).Nodup
  keys : (set.saved.map key).Nodup

end Keys

section Batches
variable [DecidableEq κ] [DecidableEq ι] (id : α → ι) (key : α → κ)

def EntitySet.upsert (set : EntitySet α) (u : Upsert α κ) : Except String (EntitySet α) := do
  match ← set.singleOrDefault fun r => key r = u.key with
  | none => return set.add u.new
  | some existing => return set.modify id (id existing) u.assign

/-- The upsert on a map from keys to rows. -/
def Upsert.apply (rows : κ → Option α) (u : Upsert α κ) : κ → Option α :=
  Function.update rows u.key (some ((rows u.key).elim u.new u.assign))

end Batches

variable {id : α → ι} {key : α → κ} {set set' : EntitySet α} {u : Upsert α κ}

theorem aligned_open (rows : List α) : (EntitySet.open_ rows).Aligned id key := rfl

theorem EntitySet.Aligned.mem (h : set.Aligned id key) {r : α} (hr : r ∈ set.committed) :
    ∃ x ∈ set.current, id x = id r ∧ key x = key r := by
  have hpair : (id r, key r) ∈ set.current.map fun r => (id r, key r) := by
    rw [h]
    exact List.mem_map_of_mem (f := fun r => (id r, key r)) hr
  obtain ⟨x, hx, hxr⟩ := List.mem_map.1 hpair
  rw [Prod.mk.injEq] at hxr
  exact ⟨x, hx, hxr⟩

variable [DecidableEq κ] [DecidableEq ι]

theorem updateKey_congr {κ' : Type} [DecidableEq κ'] {f : α → α} {k : ι} {key' : α → κ'} {k' : κ'} {l : List α}
    (h : ∀ r ∈ l, id r = k ↔ key' r = k') : updateKey id k f l = updateKey key' k' f l := by
  unfold updateKey
  refine List.map_congr_left fun r hr => ?_
  by_cases hk : id r = k
  · rw [if_pos hk, if_pos ((h r hr).1 hk)]
  · rw [if_neg hk, if_neg fun hk' => hk ((h r hr).2 hk')]

/-- An upsert adds a row or assigns to the entity of a committed one. -/
theorem upsert_cases (h : set.upsert id key u = .ok set') :
    ((∀ r ∈ set.committed, key r ≠ u.key) ∧ set' = set.add u.new) ∨
      ∃ existing ∈ set.committed, key existing = u.key ∧ set' = set.modify id (id existing) u.assign := by
  unfold EntitySet.upsert at h
  obtain ⟨found, hfound, h⟩ := except_bind_ok.1 h
  cases found with
  | none =>
    cases h
    refine .inl ⟨fun r hr hk => ?_, rfl⟩
    unfold EntitySet.singleOrDefault at hfound
    split at hfound
    · rename_i hnone
      exact List.filter_eq_nil_iff.1 hnone r hr (decide_eq_true hk)
    · cases hfound
    · cases hfound
  | some existing =>
    cases h
    obtain ⟨hmem, hk⟩ := EntitySet.singleOrDefault_some hfound
    exact .inr ⟨existing, hmem, of_decide_eq_true hk, rfl⟩

theorem aligned_upsert (hu : u.Fits id key) (ha : set.Aligned id key) (h : set.upsert id key u = .ok set') :
    set'.Aligned id key := by
  rcases upsert_cases h with ⟨-, rfl⟩ | ⟨existing, -, -, rfl⟩
  · exact ha
  · unfold EntitySet.Aligned EntitySet.modify updateKey
    dsimp only
    rw [List.map_map]
    refine Eq.trans (List.map_congr_left fun r _ => ?_) ha
    simp only [Function.comp_apply]
    split
    · rw [hu.id, hu.key]
    · rfl

/-- An upsert whose outcome fits the keys started from rows that did, and is the upsert on the map. -/
theorem find_upsert (hu : u.Fits id key) (ha : set.Aligned id key) (hi : set'.Indexed id key)
    (h : set.upsert id key u = .ok set') : set.Indexed id key ∧ set'.find key = u.apply (set.find key) := by
  rcases upsert_cases h with ⟨hnew, rfl⟩ | ⟨existing, hmem, hk, rfl⟩
  · obtain ⟨hids, hkeys⟩ := hi
    rw [EntitySet.saved_add, List.map_append] at hids hkeys
    obtain ⟨hkeys, -, hdisjoint⟩ := List.nodup_append.1 hkeys
    refine ⟨⟨(List.nodup_append.1 hids).1, hkeys⟩, funext fun k => ?_⟩
    -- The key is on none of the rows, or the index would have it twice.
    have hnone : set.find key u.key = none := by
      unfold EntitySet.find
      refine List.find?_eq_none.2 fun r hr hk => ?_
      refine hdisjoint (key r) (List.mem_map_of_mem hr) (key u.new) (List.mem_singleton.2 rfl) ?_
      rw [hu.new]
      exact of_decide_eq_true hk
    unfold Upsert.apply
    rw [hnone]
    by_cases hk : k = u.key
    · subst hk
      rw [Function.update_self]
      unfold EntitySet.find at hnone ⊢
      rw [EntitySet.saved_add, List.find?_append, hnone]
      simp [hu.new]
    · rw [Function.update_of_ne hk]
      unfold EntitySet.find
      rw [EntitySet.saved_add, List.find?_append]
      simp [hu.new, Ne.symm hk]
  · have hids : set.saved.map id = (set.modify id (id existing) u.assign).saved.map id := by
      rw [EntitySet.saved_modify, map_updateKey hu.id]
    have hkeys : set.saved.map key = (set.modify id (id existing) u.assign).saved.map key := by
      rw [EntitySet.saved_modify]
      unfold updateKey
      rw [List.map_map]
      refine List.map_congr_left fun r _ => ?_
      simp only [Function.comp_apply]
      split
      · exact (hu.key r).symm
      · rfl
    have hindexed : set.Indexed id key := ⟨hids ▸ hi.ids, hkeys ▸ hi.keys⟩
    refine ⟨hindexed, funext fun k => ?_⟩
    obtain ⟨x, hx, hxid, hxkey⟩ := ha.mem hmem
    have hxsaved : x ∈ set.saved := List.mem_append_left _ hx
    have hsame : ∀ r ∈ set.saved, id r = id existing ↔ key r = u.key := by
      intro r hr
      rw [← hk, ← hxid, ← hxkey]
      constructor
      · exact fun h => congrArg key (List.inj_on_of_nodup_map hindexed.ids hr hxsaved h)
      · exact fun h => congrArg id (List.inj_on_of_nodup_map hindexed.keys hr hxsaved h)
    have hfound : set.find key u.key = some x := (find_row_iff hindexed.keys _ _).2 ⟨hxsaved, hxkey.trans hk⟩
    unfold Upsert.apply
    unfold EntitySet.find at hfound ⊢
    rw [EntitySet.saved_modify, updateKey_congr hsame, find_updateKey hu.key, Function.update_apply, hfound]
    rfl

/-- A batch that fits the keys is the batch on the map. -/
theorem find_upserts {us : List (Upsert α κ)} (hu : ∀ u ∈ us, u.Fits id key) (ha : set.Aligned id key) (hi : set'.Indexed id key)
    (h : us.foldlM (EntitySet.upsert id key) set = .ok set') :
    set.Indexed id key ∧ set'.find key = us.foldl Upsert.apply (set.find key) := by
  induction us generalizing set with
  | nil =>
    cases h
    exact ⟨hi, rfl⟩
  | cons u us ih =>
    rw [List.foldlM_cons, except_bind_ok] at h
    obtain ⟨mid, hone, hrest⟩ := h
    obtain ⟨hfits, hus⟩ := List.forall_mem_cons.1 hu
    obtain ⟨hmid, hlater⟩ := ih hus (aligned_upsert hfits ha hone) hrest
    obtain ⟨hindexed, hfirst⟩ := find_upsert hfits ha hmid hone
    refine ⟨hindexed, ?_⟩
    rw [hlater, hfirst, List.foldl_cons]

end DuckRun.Lib
