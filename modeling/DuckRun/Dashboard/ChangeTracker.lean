import DuckRun.Dashboard.Store
/-!
# EF Core's change tracker

A context keeps one entity per primary key: a row that a query returns again
keeps the instance (and the values) the context has. `SaveChanges` sends an
update for each entity that differs from the row it was read from.
-/

namespace DuckRun.Dashboard

open DuckRun.Lib

/-- An entity: the row it was read from and its values now. -/
structure Tracked where
  original : Group
  current : Group
  deriving DecidableEq, Repr

abbrev ChangeTracker := List Tracked

namespace ChangeTracker

def find (t : ChangeTracker) (id : Guid) : Option Tracked := t.find? fun e => e.original.id = id

/-- Rows returned by a query; those not tracked yet are tracked from now on. -/
def attach (t : ChangeTracker) (rows : List Group) : ChangeTracker :=
  t ++ (rows.filter fun g => (find t g.id).isNone).map fun g => ⟨g, g⟩

/-- Assigning to properties of the entity with key `id`. -/
def modify (t : ChangeTracker) (id : Guid) (f : Group → Group) : ChangeTracker :=
  t.map fun e => if e.original.id = id then { e with current := f e.current } else e

def detectChanges (t : ChangeTracker) : List Change :=
  (t.filter fun e => e.original ≠ e.current).map fun e => .updateGroup e.original e.current

/-! ## A tracker that read the store it is saved to -/

/-- What becomes of a row of the store. -/
def image (t : ChangeTracker) (r : Group) : Group := (find t r.id).elim r Tracked.current

/-- The entities were read from `s`, each once, and keep the columns no handler assigns. -/
structure Tracks (s : Store) (t : ChangeTracker) : Prop where
  keys : (t.map fun e => e.original.id).Nodup
  read : ∀ e ∈ t, e.original ∈ s.groups
  fixed : ∀ e ∈ t, e.current.id = e.original.id ∧ e.current.ownerId = e.original.ownerId ∧
    e.current.createdAt = e.original.createdAt

theorem find_eq_some {t : ChangeTracker} {id : Guid} {e : Tracked} (h : find t id = some e) :
    e ∈ t ∧ e.original.id = id :=
  find_row_mem h

theorem find_eq_none {t : ChangeTracker} {id : Guid} (h : find t id = none) : ∀ e ∈ t, e.original.id ≠ id :=
  find_row_none h

theorem foldl_updates (s : Store) (es : List Tracked) :
    s.applyAll (es.map fun e => Change.updateGroup e.original e.current) =
      { s with
        groups := es.foldl (fun l e => updateKey Group.id e.original.id (Group.merge e.original e.current) l) s.groups } := by
  induction es generalizing s with
  | nil => rfl
  | cons e es ih =>
    rw [List.map_cons, Store.applyAll_cons, ih]
    rfl

/-- Saving on the store that was read replaces each tracked row by its entity. -/
theorem applyAll_detectChanges {s : Store} {t : ChangeTracker} (hs : (s.groups.map Group.id).Nodup)
    (ht : Tracks s t) : s.applyAll (detectChanges t) = { s with groups := s.groups.map (image t) } := by
  rw [detectChanges, foldl_updates, foldl_updateKey (fun e : Tracked => e.original.id)
    (fun e : Tracked => Group.merge e.original e.current) (fun _ _ => rfl) _ (nodup_map_filter _ ht.keys)]
  congr 1
  refine List.map_congr_left fun r hr => ?_
  unfold image
  cases h : find t r.id with
  | none =>
    have hn : (t.filter fun e => e.original ≠ e.current).find? (fun e => e.original.id = r.id) = none := by
      rw [List.find?_eq_none]
      intro e he
      simpa using find_eq_none h e (List.mem_filter.1 he).1
    rw [hn]
    rfl
  | some e =>
    obtain ⟨he, hid⟩ := find_eq_some h
    have heq : e.original = r := List.inj_on_of_nodup_map hs (ht.read e he) hr hid
    obtain ⟨h1, h2, h3⟩ := ht.fixed e he
    by_cases hc : e.original = e.current
    · have hn : (t.filter fun e => e.original ≠ e.current).find? (fun e => e.original.id = r.id) = none := by
        rw [List.find?_eq_none]
        intro e' he'
        obtain ⟨he', hne⟩ := List.mem_filter.1 he'
        have : e'.original.id ≠ r.id := by
          intro hid'
          have : e' = e := List.inj_on_of_nodup_map ht.keys he' he (hid'.trans hid.symm)
          subst this
          simp [hc] at hne
        simpa using this
      rw [hn]
      simp [← hc, heq]
    · have hsome : (t.filter fun e => e.original ≠ e.current).find? (fun e => e.original.id = r.id) = some e :=
        (find_row_iff (nodup_map_filter _ ht.keys) _ _).2
          ⟨List.mem_filter.2 ⟨he, by simpa using hc⟩, hid⟩
      rw [hsome, ← heq]
      exact Group.merge_self h1 h2 h3

theorem find_append_left {t u : ChangeTracker} {id : Guid} {e : Tracked} (h : find t id = some e) :
    find (t ++ u) id = some e := by
  simp only [find] at h ⊢
  rw [List.find?_append, h]
  rfl

theorem tracks_attach {s : Store} {t : ChangeTracker} {rows : List Group} (ht : Tracks s t)
    (hrows : ∀ g ∈ rows, g ∈ s.groups) (hn : (rows.map Group.id).Nodup) : Tracks s (attach t rows) where
  keys := by
    rw [attach, List.map_append, List.nodup_append]
    refine ⟨ht.keys, ?_, ?_⟩
    · rw [List.map_map]
      exact nodup_map_filter _ hn
    · rintro a ha b hb rfl
      obtain ⟨e, he, rfl⟩ := List.mem_map.1 ha
      simp only [List.map_map, List.mem_map, List.mem_filter, Function.comp_apply, Option.isNone_iff_eq_none] at hb
      obtain ⟨g, ⟨-, hg⟩, hge⟩ := hb
      exact find_eq_none hg e he hge.symm
  read e he := by
    rcases List.mem_append.1 he with he | he
    · exact ht.read e he
    · obtain ⟨g, hg, rfl⟩ := List.mem_map.1 he
      exact hrows g (List.mem_filter.1 hg).1
  fixed e he := by
    rcases List.mem_append.1 he with he | he
    · exact ht.fixed e he
    · obtain ⟨g, hg, rfl⟩ := List.mem_map.1 he
      exact ⟨rfl, rfl, rfl⟩

theorem tracks_modify {s : Store} {t : ChangeTracker} {id : Guid} {f : Group → Group} (ht : Tracks s t)
    (hf : ∀ g, (f g).id = g.id ∧ (f g).ownerId = g.ownerId ∧ (f g).createdAt = g.createdAt) :
    Tracks s (modify t id f) where
  keys := by
    have : (modify t id f).map (fun e => e.original.id) = t.map fun e => e.original.id := by
      rw [modify, List.map_map]
      refine List.map_congr_left fun e _ => ?_
      simp only [Function.comp_apply]
      split <;> rfl
    rw [this]
    exact ht.keys
  read e he := by
    obtain ⟨e', he', rfl⟩ := List.mem_map.1 he
    split
    · exact ht.read e' he'
    · exact ht.read e' he'
  fixed e he := by
    obtain ⟨e', he', rfl⟩ := List.mem_map.1 he
    have h := ht.fixed e' he'
    split
    · obtain ⟨h1, h2, h3⟩ := hf e'.current
      exact ⟨h1.trans h.1, h2.trans h.2.1, h3.trans h.2.2⟩
    · exact h

theorem find_modify (t : ChangeTracker) (id : Guid) (f : Group → Group) (k : Guid) :
    find (modify t id f) k = (find t k).map fun e => if k = id then { e with current := f e.current } else e := by
  induction t with
  | nil => rfl
  | cons e t ih =>
    simp only [modify, find] at ih ⊢
    rw [List.map_cons, List.find?_cons, List.find?_cons]
    by_cases hk : e.original.id = k
    · subst hk
      by_cases hid : e.original.id = id <;> simp [hid]
    · have : ∀ e' : Tracked, e'.original = e.original → decide (e'.original.id = k) = false := by
        rintro e' he'
        simp [he', hk]
      rw [this _ (by split <;> rfl), this _ rfl]
      exact ih

/-- An assignment changes the image of its own row only. -/
theorem image_modify {t : ChangeTracker} {id : Guid} (f : Group → Group) (ht : (find t id).isSome) (r : Group) :
    image (modify t id f) r = if r.id = id then f (image t r) else image t r := by
  unfold image
  rw [find_modify]
  by_cases hr : r.id = id
  · obtain ⟨e, he⟩ := Option.isSome_iff_exists.1 ht
    simp [hr, he]
  · cases find t r.id <;> simp [hr]

end ChangeTracker

end DuckRun.Dashboard
