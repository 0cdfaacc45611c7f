import DuckRun.Dashboard.Requests
/-!
# Paths and parent pointers

The handlers find a group's subtree by the text of `FullPath`; what is meant is
the groups whose chain of parents passes through it. Under the invariant the
two are the same (`under_iff_below`), so what `Store.relocate` does by prefix it
does to a subtree, and a relocation taken back leaves the rows as they were.
-/

namespace DuckRun.Dashboard

open DuckRun.Lib DuckRun.Lib.Queries GroupEndpoints

section Subtree
variable {s : Store} {g g' : Group}

/-- The prefix test on paths is descent through the parent pointers. -/
theorem under_iff_below (hi : Inv s) {a b : Group} (ha : a ∈ s.groups) (hb : b ∈ s.groups) :
    Under '/' a.fullPath b.fullPath ↔ Below s.pointers a.id b.id := by
  suffices h : ∀ k, EndsAtRoot s.pointers k → ∀ b ∈ s.groups, b.id = k →
      (Under '/' a.fullPath b.fullPath ↔ Below s.pointers a.id b.id) from h b.id (hi.rooted b hb) b hb rfl
  intro k hk
  have hself : ∀ b ∈ s.groups, (b.fullPath = a.fullPath ↔ b.id = a.id) := by
    intro b hb
    constructor
    · exact fun he => congrArg Group.id (hi.paths b hb a ha he)
    · exact fun he => congrArg Group.fullPath (hi.id_inj hb ha he)
  -- Up the chain: a root's path is one segment, a child's is its parent's and one more.
  induction hk with
  | root h =>
    rintro b hb rfl
    obtain ⟨p, -, hp⟩ := hi.placed b hb
    rw [pointers_mem hi.ids hb, hp.1] at h
    cases p with
    | some q => cases h
    | none =>
      have hpath : b.fullPath = b.slug := hp.2
      have hroot : s.pointers b.id = some none := by rw [pointers_mem hi.ids hb, hp.1]; rfl
      rw [below_root hroot, ← hself b hb, hpath, under_segment_iff (hi.slugs b hb).2]
  | child h _ ih =>
    rintro b hb rfl
    rw [pointers_mem hi.ids hb, Option.some.injEq] at h
    obtain ⟨q, hq, rfl⟩ := hi.parents hb h
    have hpath := hi.placed_under hb hq h
    have hchild : s.pointers b.id = some (some q.id) := by rw [pointers_mem hi.ids hb, h]
    rw [below_child hchild, ← ih q hq rfl, ← hself b hb, hpath]
    exact under_child_iff (hi.slugs b hb).2 _ _

/-- Where an id names no row, `IsDescendantAsync` answers no. -/
theorem isDescendantAsync_missing {chars : CharTable} {ancestor candidate : Guid}
    (h : (∀ a ∈ s.groups, a.id ≠ ancestor) ∨ ∀ b ∈ s.groups, b.id ≠ candidate) :
    (isDescendantAsync chars ancestor candidate).eval s = false := by
  simp only [isDescendantAsync, eval_query_bind]
  cases ha : s.findGroup ancestor with
  | none => rfl
  | some a =>
    simp only [eval_query_bind]
    cases hb : s.findGroup candidate with
    | none => rfl
    | some b =>
      obtain ⟨ham, haid⟩ := findGroup_mem ha
      obtain ⟨hbm, hbid⟩ := findGroup_mem hb
      rcases h with h | h
      · exact absurd haid (h a ham)
      · exact absurd hbid (h b hbm)

/-- Between two rows, `IsDescendantAsync` answers descent exactly when the culture agrees on their paths. -/
theorem isDescendantAsync_iff {chars : CharTable} (hi : Inv s) {a b : Group} (ha : a ∈ s.groups) (hb : b ∈ s.groups) :
    ((isDescendantAsync chars a.id b.id).eval s = true ↔ Below s.pointers a.id b.id) ↔
      b = a ∨ chars.Agrees a.fullPath b.fullPath := by
  have heval := @isDescendantAsync_eval chars s _ _ a b ((findGroup_iff hi.ids).2 ⟨ha, rfl⟩) ((findGroup_iff hi.ids).2 ⟨hb, rfl⟩)
  rw [heval, ← under_iff_below hi ha hb, under_iff_startsWith hi ha hb, Bool.or_eq_true, decide_eq_true_eq]
  by_cases hab : b = a
  · subst hab
    simp
  · have hpath : b.fullPath ≠ a.fullPath := fun he => hab (hi.paths b hb a ha he)
    simp only [hpath, hab, false_or]
    exact Bool.eq_iff_iff.symm

/-! ## Relocating a subtree -/

theorem findGroup_relocate (hid : g'.id = g.id) (s : Store) (k : Guid) :
    (s.relocate g g').findGroup k = (s.findGroup k).map (relocated g g') := by
  unfold Store.findGroup Store.relocate
  rw [List.find?_map]
  congr 2
  funext r
  simp only [Function.comp_apply, relocated_id hid]

/-- Only the group itself hangs elsewhere afterwards. -/
theorem pointers_relocate (hi : Inv s) (hg : g ∈ s.groups) (hid : g'.id = g.id) :
    (s.relocate g g').pointers = Function.update s.pointers g.id (some g'.parentGroupId) := by
  funext k
  unfold Store.pointers
  rw [findGroup_relocate hid]
  by_cases hk : k = g.id
  · subst hk
    rw [Function.update_self, (findGroup_iff hi.ids).2 ⟨hg, rfl⟩]
    simp only [Option.map_some, relocated_self]
  · rw [Function.update_of_ne hk]
    cases hf : s.findGroup k with
    | none => rfl
    | some r =>
      have hr : r.id ≠ g.id := by
        rw [(findGroup_mem hf).2]
        exact hk
      simp only [Option.map_some, (relocated_other hr).1]

theorem below_relocate (hi : Inv s) (hg : g ∈ s.groups) (hid : g'.id = g.id) (k : Guid) :
    Below (s.relocate g g').pointers g.id k ↔ Below s.pointers g.id k := by
  rw [pointers_relocate hi hg hid]
  exact below_update

/-- What a relocation does to a row, by where the row hangs. -/
theorem relocated_below (hi : Inv s) (hg : g ∈ s.groups) {r : Group} (hr : r ∈ s.groups)
    (hb : Below s.pointers g.id r.id) (hne : r.id ≠ g.id) :
    ∃ rest, r.fullPath = g.fullPath ++ '/' :: rest ∧
      relocated g g' r =
        { r with fullPath := g'.fullPath ++ '/' :: rest, depth := r.depth + (g'.depth - g.depth) } := by
  have hu := (under_iff_below hi hg hr).2 hb
  rcases (under_iff_startsWith hi hg hr).1 hu with rfl | hs
  · exact absurd rfl hne
  · obtain ⟨rest, hrest⟩ := (startsWith_iff _ _).1 hs
    have hpath : r.fullPath = g.fullPath ++ '/' :: rest := by simpa using hrest.symm
    refine ⟨rest, hpath, ?_⟩
    unfold relocated relocate
    rw [if_neg hne, if_pos hs, hpath, List.drop_left]

theorem relocated_not_below (hi : Inv s) (hg : g ∈ s.groups) {r : Group} (hr : r ∈ s.groups)
    (hb : ¬ Below s.pointers g.id r.id) : relocated g g' r = r := by
  apply relocated_outside hi hg hr
  rwa [under_iff_below hi hg hr]

/-- A relocation taken back: every row below trades the new prefix for the old
one again, and no other row has come to lie under the new path. -/
theorem relocate_back (hi : Inv s) (hg : g ∈ s.groups) (hid : g'.id = g.id) (hi' : Inv (s.relocate g g')) :
    (s.relocate g g').relocate g' g = s := by
  have hback : ∀ r ∈ s.groups, relocated g' g (relocated g g' r) = r := by
    intro r hr
    have hg' : g' ∈ (s.relocate g g').groups := List.mem_map.2 ⟨g, hg, relocated_self g g'⟩
    have hr' : relocated g g' r ∈ (s.relocate g g').groups := List.mem_map_of_mem hr
    by_cases hrg : r.id = g.id
    · rw [hi.id_inj hr hg hrg, relocated_self, relocated_self]
    · have hrid : (relocated g g' r).id = r.id := relocated_id hid r
      by_cases hb : Below s.pointers g.id r.id
      · obtain ⟨rest, hpath, hrow⟩ := @relocated_below s g g' hi hg r hr hb hrg
        have hb' : Below (s.relocate g g').pointers g'.id (relocated g g' r).id := by
          rw [hid, hrid]
          exact (below_relocate hi hg hid _).2 hb
        have hne : (relocated g g' r).id ≠ g'.id := by
          rw [hrid, hid]
          exact hrg
        obtain ⟨rest', hpath', hrow'⟩ := @relocated_below _ g' g hi' hg' _ hr' hb' hne
        -- Both rewrites cut a path at the same place, so the rest is one and the same.
        have hrest : rest' = rest := by
          rw [hrow] at hpath'
          simpa using hpath'.symm
        have hdepth : r.depth + (g'.depth - g.depth) + (g.depth - g'.depth) = r.depth := by omega
        rw [hrow', hrow, hrest, ← hpath]
        dsimp only
        rw [hdepth]
      · have hb' : ¬ Below (s.relocate g g').pointers g'.id (relocated g g' r).id := by
          rw [hid, hrid, below_relocate hi hg hid]
          exact hb
        rw [relocated_not_below hi' hg' hr' hb', relocated_not_below hi hg hr hb]
  have hgroups : (s.groups.map (relocated g g')).map (relocated g' g) = s.groups := by
    rw [List.map_map]
    exact (List.map_congr_left hback).trans (List.map_id _)
  unfold Store.relocate
  rw [hgroups]

end Subtree

end DuckRun.Dashboard
