import DuckRun.Dashboard.Subtrees
import DuckRun.Dashboard.Members
/-!
# Moving and renaming groups

Which moves are accepted, in the stores that requests reach one after the
other. The descent check compares the two paths as the current culture does: a
legal move is accepted exactly when the culture tells the target's path from
one that starts with the group's.
-/

namespace DuckRun.Dashboard

open DuckRun.Lib DuckRun.Lib.Queries ChangeTracker GroupEndpoints

/-- The handler answers with success and its changes are saved. -/
def Succeeds (chars : CharTable) (s : Store) (r : Request) (s' : Store) : Prop :=
  ∃ cs response, (handle chars r).eval s = .save cs response ∧ s.saveChanges true cs = some s'

/-- The store after a request that succeeds. -/
def saved (chars : CharTable) (s : Store) (r : Request) : Option Store :=
  match (handle chars r).eval s with
  | .answer _ => none
  | .save cs _ => s.saveChanges true cs

theorem succeeds_iff_saved {chars : CharTable} {s s' : Store} {r : Request} :
    Succeeds chars s r s' ↔ saved chars s r = some s' := by
  unfold Succeeds saved
  cases (handle chars r).eval s with
  | answer response => simp
  | save cs response => simp

/-- `g` may move under `parent`, or to the top. -/
structure LegalMove (s : Store) (g : Group) (parent : Option Group) : Prop where
  target : ∀ p ∈ parent, p ∈ s.groups ∧ ¬ Below s.pointers g.id p.id
  depths : ∀ d ∈ s.groups, Below s.pointers g.id d.id →
    d.depth + (parent.elim 0 (fun p => p.depth + 1) - g.depth) ≤ maxDepth
  siblings : ∀ h ∈ s.groups, h.parentGroupId = parent.map Group.id → h.slug = g.slug → h.id = g.id

/-! ## What the database accepts -/

/-- Groups in order violate no index, whatever the other tables hold. -/
theorem indexesOk_relocate {s : Store} {g g' : Group} (hok : s.indexesOk = true) (hi : Inv (s.relocate g g')) :
    (s.relocate g g').indexesOk = true := by
  have hgroups : (s.relocate g g').groups.Nodup := List.Nodup.of_map _ hi.ids
  have hpaths : ((s.relocate g g').groups.map Group.fullPath).Nodup :=
    hgroups.map_on fun x hx y hy he => hi.paths x hx y hy he
  have hkeys : (indexKeys Group.parentGroupId Group.slug (s.relocate g g').groups).Nodup :=
    (indexKeys_nodup hgroups).2 fun x hx y hy _ => hi.siblings x hx y hy
  simp only [Store.indexesOk, Bool.and_eq_true, decide_eq_true_eq] at hok ⊢
  obtain ⟨⟨⟨⟨⟨⟨⟨⟨-, -⟩, -⟩, h4⟩, h5⟩, h6⟩, h7⟩, h8⟩, h9⟩ := hok
  exact ⟨⟨⟨⟨⟨⟨⟨⟨hi.ids, hpaths⟩, hkeys⟩, h4⟩, h5⟩, h6⟩, h7⟩, h8⟩, h9⟩

theorem saveChanges_relocate {s : Store} {g g' : Group} {cs : List Change} (hok : s.indexesOk = true)
    (hi : Inv (s.applyAll cs)) (happly : s.applyAll cs = s.relocate g g') :
    s.saveChanges true cs = some (s.relocate g g') := by
  rw [happly] at hi
  unfold Store.saveChanges
  rw [happly, indexesOk_relocate hok hi]
  rfl

theorem Succeeds.serve_eq {chars : CharTable} {s s' : Store} {r : Request} (h : Succeeds chars s r s') :
    serve chars s ⟨r, true⟩ = s' := by
  obtain ⟨cs, response, hsave, hs'⟩ := h
  unfold serve
  rw [hsave]
  dsimp only
  rw [hs']
  rfl

theorem Sound.succeeds {chars : CharTable} (hculture : chars.RecognisesPaths) {s s' : Store} {r : Request} (hs : Sound s)
    (h : Succeeds chars s r s') : Sound s' :=
  h.serve_eq ▸ sound_serve hculture hs _

/-! ## The rewriting always gets through -/

section Total
variable {s : Store}

theorem foldlM_relocateStep_total {oldPath newPath : Text} {delta : Int} {ds : List Group} {t : ChangeTracker}
    (hn : (ds.map Group.id).Nodup)
    (h : ∀ d ∈ ds, ∃ e, find t d.id = some e ∧ oldPath.length ≤ e.current.fullPath.length) :
    ∃ t', ds.foldlM (relocateStep oldPath newPath delta) t = some t' := by
  induction ds generalizing t with
  | nil => exact ⟨t, rfl⟩
  | cons d ds ih =>
    rw [List.map_cons, List.nodup_cons] at hn
    rw [List.forall_mem_cons] at h
    obtain ⟨⟨e, he, hlen⟩, hrest⟩ := h
    have hstep : relocateStep oldPath newPath delta t d = some (t.modify d.id (relocate oldPath newPath delta)) := by
      unfold relocateStep
      rw [he]
      exact if_neg (Nat.not_lt.2 hlen)
    rw [List.foldlM_cons, hstep]
    refine ih hn.2 fun x hx => ?_
    obtain ⟨ex, hex, hxlen⟩ := hrest x hx
    have hne : x.id ≠ d.id := fun he => hn.1 (he ▸ List.mem_map_of_mem hx)
    refine ⟨ex, ?_, hxlen⟩
    rw [find_modify, hex, Option.map_some, if_neg hne]

theorem findAsync_total {t : ChangeTracker} {id : Guid} (h : ∃ p ∈ s.groups, p.id = id) :
    ∃ res, (findAsync t id).eval s = some res := by
  unfold findAsync
  cases find t id with
  | some e => exact ⟨_, rfl⟩
  | none =>
    simp only [eval_query_bind]
    cases hp : s.findGroup id with
    | some p => exact ⟨_, rfl⟩
    | none =>
      obtain ⟨p, hpm, hid⟩ := h
      exact absurd hid (find_row_none hp p hpm)

/-- Every row the query returns is tracked and carries the old path. -/
theorem find_attach_filter {stored group : Group} {t : ChangeTracker} (ht : Holds s stored group t)
    (hn : (s.groups.map Group.id).Nodup) (hmem : stored ∈ s.groups) {d : Group}
    (hd : d ∈ s.groups.filter (startsWith stored.fullPath)) :
    ∃ e, find (attach t (s.groups.filter (startsWith stored.fullPath))) d.id = some e ∧ e.current = d := by
  obtain ⟨hdm, hds⟩ := List.mem_filter.1 hd
  have ha := ht.attach (fun g hg => (List.mem_filter.1 hg).1) (nodup_map_filter (startsWith stored.fullPath) hn)
  have hne : d.id ≠ stored.id := by
    intro he
    rw [List.inj_on_of_nodup_map hn hdm hmem he, startsWith_self] at hds
    cases hds
  cases hf : find (attach t (s.groups.filter (startsWith stored.fullPath))) d.id with
  | some e =>
    obtain ⟨he, hid⟩ := find_eq_some hf
    have hread : e.original = d := List.inj_on_of_nodup_map hn (ha.tracks.read e he) hdm hid
    exact ⟨e, rfl, (ha.others e he (hid ▸ hne)).trans hread⟩
  | none =>
    -- A row the tracker had not is attached by the query.
    exfalso
    cases hold : find t d.id with
    | some e =>
      rw [attach, find_append_left hold] at hf
      cases hf
    | none =>
      refine find_eq_none hf ⟨d, d⟩ ?_ rfl
      exact List.mem_append_right _ (List.mem_map.2 ⟨d, List.mem_filter.2 ⟨hd, by rw [hold]; rfl⟩, rfl⟩)

theorem rewritePathsAsync_total (hn : (s.groups.map Group.id).Nodup) {stored group : Group} {t : ChangeTracker}
    (ht : Holds s stored group t) (hpath : group.fullPath = stored.fullPath) (hmem : stored ∈ s.groups)
    (hid : group.id = stored.id) {np : Option Guid} (hself : np ≠ some stored.id)
    (hnp : ∀ k, np = some k → ∃ p ∈ s.groups, p.id = k) (newSlug : Text) :
    ∃ t', (rewritePathsAsync t group np newSlug).eval s = .ok t' := by
  have hparent : ∃ p t1, (rewriteParent t np).eval s = .ok (p, t1) ∧ Holds s stored group t1 := by
    cases np with
    | none => exact ⟨none, t, rfl, ht⟩
    | some k =>
      obtain ⟨⟨p, t1⟩, hf⟩ := findAsync_total (t := t) (hnp k rfl)
      refine ⟨some p, t1, ?_, (findAsync_some ht (fun he => hself (congrArg some he)) hf).2.2⟩
      simp only [rewriteParent, eval_bind, hf, eval_pure]
  obtain ⟨p, t1, hp, ht1⟩ := hparent
  unfold rewritePathsAsync
  rw [eval_bind, hp]
  simp only [eval_query_bind, hpath]
  -- Every row the loop comes to is tracked, and long enough to cut the old path off.
  obtain ⟨t', ht'⟩ := @foldlM_relocateStep_total stored.fullPath (placeAt np p newSlug group).fullPath
    ((placeAt np p newSlug group).depth - group.depth) _
    ((t1.attach (s.groups.filter (startsWith stored.fullPath))).modify group.id (placeAt np p newSlug))
    (nodup_map_filter (startsWith stored.fullPath) hn) (by
      intro d hd
      obtain ⟨e, he, hcur⟩ := find_attach_filter ht1 hn hmem hd
      obtain ⟨hdm, hds⟩ := List.mem_filter.1 hd
      have hne : d.id ≠ group.id := by
        rw [hid]
        intro hsame
        rw [List.inj_on_of_nodup_map hn hdm hmem hsame, startsWith_self] at hds
        cases hds
      refine ⟨e, ?_, ?_⟩
      · rw [find_modify, he, Option.map_some, if_neg hne]
      · have hlen := ((startsWith_iff _ _).1 hds).length_le
        rw [List.length_append] at hlen
        rw [hcur]
        exact Nat.le_of_add_right_le hlen)
  rw [ht']
  exact ⟨t', rfl⟩

end Total

/-! ## Which moves are accepted -/

section Move
variable {chars : CharTable} {s : Store} {g : Group}

theorem exists_deepest {path : Text} {bound : Int} (hex : ∃ d ∈ s.groups, Under '/' path d.fullPath)
    (hle : ∀ d ∈ s.groups, Under '/' path d.fullPath → d.depth ≤ bound) :
    ∃ m, deepest path s = some m ∧ m ≤ bound := by
  have hunder : ∀ d, (decide (d.fullPath = path) || startsWith path d) = true ↔ Under '/' path d.fullPath := by
    intro d
    rw [Bool.or_eq_true, decide_eq_true_eq, startsWith_iff]
    rfl
  cases hm : deepest path s with
  | none =>
    obtain ⟨d, hd, hu⟩ := hex
    have hnil := List.map_eq_nil_iff.1 (List.max?_eq_none_iff.1 hm)
    exact absurd ((hunder d).2 hu) (List.filter_eq_nil_iff.1 hnil d hd)
  | some m =>
    obtain ⟨hmem, -⟩ := List.max?_eq_some_iff.1 hm
    obtain ⟨d, hd, rfl⟩ := List.mem_map.1 hmem
    obtain ⟨hd, hu⟩ := List.mem_filter.1 hd
    exact ⟨d.depth, rfl, hle d hd ((hunder d).1 hu)⟩

/-- The check for a slug taken by a sibling finds none. -/
theorem no_collision {id : Guid} {parentId : Option Guid} {slug : Text}
    (hfree : ∀ h ∈ s.groups, h.parentGroupId = parentId → h.slug = slug → h.id = id) :
    (s.groups.any fun h => h.parentGroupId = parentId && h.slug = slug && h.id ≠ id) = false := by
  rw [List.any_eq_false]
  intro h hh hand
  simp only [Bool.and_eq_true, decide_eq_true_eq] at hand
  exact hand.2 (hfree h hh hand.1.1 hand.1.2)

/-- The culture's test takes a row that is not below the group for one that is, exactly where
it disagrees with the characters. -/
theorem isDescendantAsync_legal (hi : Inv s) (hg : g ∈ s.groups) {p : Group} (hp : p ∈ s.groups)
    (hbelow : ¬ Below s.pointers g.id p.id) :
    (isDescendantAsync chars g.id p.id).eval s = false ↔ chars.Agrees g.fullPath p.fullPath := by
  have hiff := @isDescendantAsync_iff s chars hi g p hg hp
  have hne : p ≠ g := by
    rintro rfl
    exact hbelow .self
  rw [iff_false_right hbelow, Bool.not_eq_true, or_iff_right hne] at hiff
  exact hiff

theorem moveTarget_ok (hi : Inv s) (hg : g ∈ s.groups) {parent : Option Group}
    (htarget : ∀ p ∈ parent, p ∈ s.groups ∧ ¬ Below s.pointers g.id p.id)
    (hagree : ∀ p ∈ parent, chars.Agrees g.fullPath p.fullPath) :
    ∃ t, (moveTarget chars g.id [⟨g, g⟩] (parent.map Group.id)).eval s = .ok (parent.elim 0 (fun p => p.depth + 1), t) ∧
      Holds s g g t := by
  have ht : Holds s g g [⟨g, g⟩] := holds_single hg rfl rfl rfl
  cases parent with
  | none => exact ⟨_, rfl, ht⟩
  | some p =>
    obtain ⟨hpm, hbelow⟩ := htarget p rfl
    have hne : p.id ≠ g.id := by
      intro he
      rw [he] at hbelow
      exact hbelow .self
    obtain ⟨⟨q, t⟩, hf⟩ := findAsync_total (t := [⟨g, g⟩]) ⟨p, hpm, rfl⟩
    obtain ⟨hqm, hqid, ht'⟩ := findAsync_some ht hne hf
    obtain rfl := hi.id_inj hqm hpm hqid
    have hdesc : (isDescendantAsync chars g.id q.id).eval s = false :=
      (isDescendantAsync_legal hi hg hpm hbelow).2 (hagree q rfl)
    refine ⟨t, ?_, ht'⟩
    simp only [moveTarget, Option.map_some, eval_bind, hf, hdesc, Bool.false_eq_true, if_false, eval_pure,
      Option.elim_some]

/-- A legal move passes every check, in a culture that agrees on the two paths. -/
theorem moveAsync_accepts (hi : Inv s) (hg : g ∈ s.groups) {parent : Option Group} (hl : LegalMove s g parent)
    (hagree : ∀ p ∈ parent, chars.Agrees g.fullPath p.fullPath) :
    ∃ cs r, (moveAsync chars g.id ⟨parent.map Group.id⟩).eval s = .save cs r := by
  have hself : parent.map Group.id ≠ some g.id := by
    intro he
    obtain ⟨p, hp, hid⟩ := Option.map_eq_some_iff.1 he
    apply (hl.target p hp).2
    rw [hid]
    exact .self
  obtain ⟨t, htarget, ht⟩ := moveTarget_ok hi hg hl.target hagree
  obtain ⟨m, hm, hle⟩ := @exists_deepest s g.fullPath
    (maxDepth - (parent.elim 0 (fun p => p.depth + 1) - g.depth)) ⟨g, hg, under_refl _ _⟩ (by
      intro d hd hu
      have hd' := hl.depths d hd ((under_iff_below hi hg hd).1 hu)
      omega)
  have hdepth : ¬ (m + (parent.elim 0 (fun p => p.depth + 1) - g.depth) > maxDepth) := by omega
  have hcollision := no_collision hl.siblings
  obtain ⟨t', hrw⟩ := rewritePathsAsync_total hi.ids ht rfl hg rfl hself (fun k hk => by
    obtain ⟨p, hp, hid⟩ := Option.map_eq_some_iff.1 hk
    exact ⟨p, (hl.target p hp).1, hid⟩) g.slug
  simp only [moveAsync, eval_query_bind, (findGroup_iff hi.ids).2 ⟨hg, rfl⟩, if_neg hself]
  rw [eval_bind, htarget]
  simp only [eval_query_bind, hm, if_neg hdepth, hcollision, Bool.false_eq_true, if_false]
  rw [eval_bind, hrw]
  exact ⟨_, _, rfl⟩

/-- A move that is saved was legal, and the culture agreed on the two paths; it
relocates the group under its target. -/
theorem moveAsync_legal (hculture : chars.RecognisesPaths) (hi : Inv s) (hg : g ∈ s.groups) {target : Option Guid}
    {cs : List Change} {r : Response} (h : (moveAsync chars g.id ⟨target⟩).eval s = .save cs r) :
    ∃ parent, target = parent.map Group.id ∧ LegalMove s g parent ∧
      (∀ p ∈ parent, chars.Agrees g.fullPath p.fullPath) ∧
      s.applyAll cs = s.relocate g (placeAt target parent g.slug g) := by
  obtain ⟨g', hg', hid, parent, htarget, hout, hsib, hmax, hsave⟩ := moveAsync_saves hi h
  obtain rfl := hi.id_inj hg' hg hid
  dsimp only at htarget hsib hsave
  have hbelow : ∀ p ∈ parent, ¬ Below s.pointers g'.id p.id := by
    intro p hp hb
    obtain ⟨hpm, hdesc⟩ := hout p hp
    have hrow : ∀ r ∈ s.groups, s.findGroup r.id = some r := fun r hr => (findGroup_iff hi.ids).2 ⟨hr, rfl⟩
    exact isDescendantAsync_false hculture (hrow g' hg) (hrow p hpm) hdesc ((under_iff_below hi hg hpm).2 hb)
  refine ⟨parent, htarget, { target := fun p hp => ?_, depths := fun d hd hb => ?_, siblings := ?_ }, fun p hp => ?_, hsave⟩
  · exact ⟨(hout p hp).1, hbelow p hp⟩
  · exact hmax d hd ((under_iff_below hi hg hd).2 hb)
  · rw [← htarget]
    exact hsib
  · exact (isDescendantAsync_legal hi hg (hout p hp).1 (hbelow p hp)).1 (hout p hp).2

/-- A legal move succeeds where the culture agrees, and this is the store after it. -/
theorem succeeds_move (hculture : chars.RecognisesPaths) (hs : Sound s) (hg : g ∈ s.groups) {parent : Option Group}
    (hl : LegalMove s g parent) (hagree : ∀ p ∈ parent, chars.Agrees g.fullPath p.fullPath) :
    Succeeds chars s (.moveGroup g.id ⟨parent.map Group.id⟩)
      (s.relocate g (placeAt (parent.map Group.id) parent g.slug g)) := by
  obtain ⟨cs, r, hsave⟩ := moveAsync_accepts hs.inv hg hl hagree
  obtain ⟨parent', hparent, hl', -, happly⟩ := moveAsync_legal hculture hs.inv hg hsave
  have hsame : parent' = parent :=
    hs.inv.parent_unique (fun q hq => (hl'.target q hq).1) (fun q hq => (hl.target q hq).1) hparent.symm
  subst hsame
  exact ⟨cs, r, hsave, saveChanges_relocate hs.indexes (inv_moveGroup hculture hs.inv hsave) happly⟩

theorem move_of_succeeds (hculture : chars.RecognisesPaths) (hs : Sound s) (hg : g ∈ s.groups) {target : Option Guid}
    {s' : Store} (h : Succeeds chars s (.moveGroup g.id ⟨target⟩) s') :
    ∃ parent, target = parent.map Group.id ∧ LegalMove s g parent ∧
      (∀ p ∈ parent, chars.Agrees g.fullPath p.fullPath) ∧
      s' = s.relocate g (placeAt target parent g.slug g) := by
  obtain ⟨cs, r, hsave, hs'⟩ := h
  obtain ⟨rfl, -⟩ := Store.saveChanges_some hs'
  exact moveAsync_legal hculture hs.inv hg hsave

/-- Where the target names an existing group, or nothing, there is one way to read it. -/
theorem legalMove_target (hi : Inv s) {parent : Option Group} {p : Group} (hl : LegalMove s g parent)
    (hp : p ∈ s.groups) (h : parent.map Group.id = some p.id) : parent = some p :=
  hi.parent_unique (fun q hq => (hl.target q hq).1) (by rintro _ ⟨⟩; exact hp) h

end Move

/-- Two groups at the top, and one under the second. -/
def teamsCreated : List AnyEvent :=
  [.hierarchy ⟨.createGroup ⟨9, 1, 101, 0⟩ ⟨some "Ops".toList, none, none, none⟩, true⟩,
    .hierarchy ⟨.createGroup ⟨9, 2, 102, 0⟩ ⟨some "Web".toList, none, none, none⟩, true⟩,
    .hierarchy ⟨.createGroup ⟨9, 3, 103, 0⟩ ⟨some "Api".toList, none, none, some 2⟩, true⟩]

def noUsers : Text → Option Guid := fun _ => none

def opsGroup : Group := ⟨1, "Ops".toList, "ops".toList, none, none, "ops".toList, 0, 9, 0⟩

def webGroup : Group := ⟨2, "Web".toList, "web".toList, none, none, "web".toList, 0, 9, 0⟩

def apiGroup : Group := ⟨3, "Api".toList, "api".toList, none, some 2, "web/api".toList, 1, 9, 0⟩

theorem teamsCreated_groups : (reached ascii noUsers teamsCreated).groups = [opsGroup, webGroup, apiGroup] := by
  decide +kernel

theorem webGroup_mem : webGroup ∈ (reached ascii noUsers teamsCreated).groups := by
  rw [teamsCreated_groups]
  decide

theorem legalMove_webGroup : LegalMove (reached ascii noUsers teamsCreated) webGroup (some opsGroup) := by
  have hroot : (reached ascii noUsers teamsCreated).pointers opsGroup.id = some none := by decide +kernel
  constructor
  · rintro _ ⟨⟩
    rw [below_root hroot, teamsCreated_groups]
    exact ⟨by decide, by decide⟩
  · rw [teamsCreated_groups]
    have hdepths : ∀ d ∈ [opsGroup, webGroup, apiGroup], d.depth + (1 - webGroup.depth) ≤ maxDepth := by decide
    exact fun d hd _ => hdepths d hd
  · rw [teamsCreated_groups]
    have hslugs : ∀ h ∈ [opsGroup, webGroup, apiGroup], h.slug = webGroup.slug → h.id = webGroup.id := by decide
    exact fun h hh _ => hslugs h hh

/-- A top-level group with a Hangul syllable for a slug, another with the syllable's
two letters, and one under the latter. -/
def syllableCreated : List AnyEvent :=
  [.hierarchy ⟨.createGroup ⟨9, 1, 101, 0⟩ ⟨some "\uac00".toList, none, none, none⟩, true⟩,
    .hierarchy ⟨.createGroup ⟨9, 2, 102, 0⟩ ⟨some "\u1100\u1161".toList, none, none, none⟩, true⟩,
    .hierarchy ⟨.createGroup ⟨9, 3, 103, 0⟩ ⟨some "c".toList, none, none, some 2⟩, true⟩]

def syllableGroup : Group := ⟨1, "\uac00".toList, "\uac00".toList, none, none, "\uac00".toList, 0, 9, 0⟩

def lettersGroup : Group :=
  ⟨2, "\u1100\u1161".toList, "\u1100\u1161".toList, none, none, "\u1100\u1161".toList, 0, 9, 0⟩

def underLetters : Group := ⟨3, "c".toList, "c".toList, none, some 2, "\u1100\u1161/c".toList, 1, 9, 0⟩

theorem syllableCreated_groups :
    (reached hangul noUsers syllableCreated).groups = [syllableGroup, lettersGroup, underLetters] := by decide +kernel

theorem not_below_syllable : ¬ Below (reached hangul noUsers syllableCreated).pointers syllableGroup.id underLetters.id := by
  have hchild : (reached hangul noUsers syllableCreated).pointers underLetters.id = some (some lettersGroup.id) := by
    decide +kernel
  have hroot : (reached hangul noUsers syllableCreated).pointers lettersGroup.id = some none := by decide +kernel
  rw [below_child hchild, below_root hroot]
  decide

theorem legalMove_syllable : LegalMove (reached hangul noUsers syllableCreated) syllableGroup (some underLetters) := by
  constructor
  · rintro _ ⟨⟩
    refine ⟨?_, not_below_syllable⟩
    rw [syllableCreated_groups]
    decide
  · rw [syllableCreated_groups]
    have hdepths : ∀ d ∈ [syllableGroup, lettersGroup, underLetters], d.depth + (2 - syllableGroup.depth) ≤ maxDepth := by
      decide
    exact fun d hd _ => hdepths d hd
  · rw [syllableCreated_groups]
    have hslugs : ∀ h ∈ [syllableGroup, lettersGroup, underLetters], h.slug = syllableGroup.slug → h.id = syllableGroup.id := by
      decide
    exact fun h hh _ => hslugs h hh

end DuckRun.Dashboard
