import Mathlib.Data.List.Perm.Basic
import Mathlib.Data.List.Nodup
import DuckRun.Lib.Rows
/-!
# Trees from parent pointers

A table whose rows name their parents, and the trees that a recursion over
the children builds from it. A row that sits one level below its parent is
reached from the roots once and only once (`Levelled.forest`).
-/

namespace DuckRun.Lib

inductive Rose (β : Type) where
  | node (label : β) (children : List (Rose β))

namespace Rose

open scoped List

variable {α β κ : Type}

def label : Rose β → β
  | node b _ => b

def children : Rose β → List (Rose β)
  | node _ ts => ts

mutual

/-- A tree and the trees in it, from the top down. -/
def nodes : Rose β → List (Rose β)
  | node b ts => node b ts :: nodesAll ts

def nodesAll : List (Rose β) → List (Rose β)
  | [] => []
  | t :: ts => nodes t ++ nodesAll ts

end

theorem nodesAll_eq (ts : List (Rose β)) : nodesAll ts = ts.flatMap nodes := by
  induction ts with
  | nil => rfl
  | cons t ts ih => rw [nodesAll, ih, List.flatMap_cons]

/-- The recursion of a tree view: a node for the row, then one for each child.
It is cut off at depth `fuel`. -/
def grow (f : α → β) (kids : α → List α) : Nat → α → Option (Rose β)
  | 0, _ => none
  | fuel + 1, a => do
    let ts ← (kids a).mapM (grow f kids fuel)
    return node (f a) ts

theorem mapM_mono {g g' : α → Option (Rose β)} (hg : ∀ a t, g a = some t → g' a = some t) {as : List α}
    {ts : List (Rose β)} (h : as.mapM g = some ts) : as.mapM g' = some ts := by
  induction as generalizing ts with
  | nil => exact h
  | cons a as ih =>
    rw [List.mapM_cons] at h ⊢
    obtain ⟨t, ht, h⟩ := Option.bind_eq_some_iff.1 h
    obtain ⟨ts', hts, h⟩ := Option.bind_eq_some_iff.1 h
    rw [hg a t ht, ih hts]
    exact h

/-- A recursion that ends ends the same way with more fuel. -/
theorem grow_mono {f : α → β} {kids : α → List α} {fuel fuel' : Nat} (hle : fuel ≤ fuel') :
    ∀ a t, grow f kids fuel a = some t → grow f kids fuel' a = some t := by
  induction fuel generalizing fuel' with
  | zero => exact fun a t h => nomatch h
  | succ fuel ih =>
    intro a t h
    cases fuel' with
    | zero => omega
    | succ fuel' =>
      obtain ⟨ts, hts, h⟩ := Option.bind_eq_some_iff.1 h
      rw [grow, mapM_mono (ih (Nat.le_of_succ_le_succ hle)) hts]
      exact h

/-- The rows `grow` comes by. -/
def visited (kids : α → List α) : Nat → α → List α
  | 0, _ => []
  | fuel + 1, a => a :: (kids a).flatMap (visited kids fuel)

/-- What a grown forest shows: the rows come by, each with its children. -/
structure Shows (f : α → β) (kids : α → List α) (as : List α) (ts : List (Rose β)) (rows : List α) : Prop where
  labels : ts.map label = as.map f
  nodes : (ts.flatMap Rose.nodes).map label = rows.map f
  children : ∀ t ∈ ts.flatMap Rose.nodes, ∃ a ∈ rows, t.label = f a ∧ t.children.map label = (kids a).map f

section Grow
variable {f : α → β} {kids : α → List α}

theorem Shows.cons {a : α} {as rows rows' : List α} {t : Rose β} {ts : List (Rose β)}
    (h : Shows f kids [a] [t] rows) (hs : Shows f kids as ts rows') : Shows f kids (a :: as) (t :: ts) (rows ++ rows') where
  labels := by
    have hl := h.labels
    simp only [List.map_cons, List.map_nil, List.cons.injEq, and_true] at hl
    rw [List.map_cons, List.map_cons, hs.labels, hl]
  nodes := by
    have hn := h.nodes
    rw [List.flatMap_singleton] at hn
    rw [List.flatMap_cons, List.map_append, List.map_append, hn, hs.nodes]
  children x hx := by
    rw [List.flatMap_cons, List.mem_append] at hx
    rcases hx with hx | hx
    · obtain ⟨b, hb, hc⟩ := h.children x (by simpa using hx)
      exact ⟨b, List.mem_append_left _ hb, hc⟩
    · obtain ⟨b, hb, hc⟩ := hs.children x hx
      exact ⟨b, List.mem_append_right _ hb, hc⟩

/-- One more level: the children's forest under a node. -/
theorem Shows.node {a : α} {ts : List (Rose β)} {rows : List α} (h : Shows f kids (kids a) ts rows) :
    Shows f kids [a] [.node (f a) ts] (a :: rows) where
  labels := rfl
  nodes := by
    rw [List.flatMap_singleton, Rose.nodes, nodesAll_eq, List.map_cons, h.nodes]
    rfl
  children x hx := by
    rw [List.flatMap_singleton, Rose.nodes, nodesAll_eq] at hx
    rcases List.mem_cons.1 hx with rfl | hx
    · exact ⟨a, List.mem_cons_self, rfl, h.labels⟩
    · obtain ⟨b, hb, hc⟩ := h.children x hx
      exact ⟨b, List.mem_cons_of_mem _ hb, hc⟩

theorem shows_mapM {g : α → Option (Rose β)} {rows : α → List α} {as : List α}
    (h : ∀ a ∈ as, ∃ t, g a = some t ∧ Shows f kids [a] [t] (rows a)) :
    ∃ ts, as.mapM g = some ts ∧ Shows f kids as ts (as.flatMap rows) := by
  induction as with
  | nil => exact ⟨[], rfl, rfl, rfl, by simp⟩
  | cons a as ih =>
    obtain ⟨t, ht, hshow⟩ := h a List.mem_cons_self
    obtain ⟨ts, hts, hshows⟩ := ih fun b hb => h b (List.mem_cons_of_mem _ hb)
    exact ⟨t :: ts, by simp [ht, hts], hshow.cons hshows⟩

end Grow

/-! ## Tables of parent pointers -/

section Tables
variable [DecidableEq κ] (key : α → κ) (parent : α → Option κ) (level : α → Nat) (rows : List α)

def childrenOf (a : α) : List α := rows.filter fun b => parent b = some (key a)

def atLevel (k : Nat) : List α := rows.filter fun a => level a = k

/-- Every row without a parent is at the top, every other row one below its parent. -/
structure Levelled : Prop where
  keys : (rows.map key).Nodup
  top : ∀ a ∈ rows, parent a = none → level a = 0
  below : ∀ a ∈ rows, ∀ k, parent a = some k → ∃ p ∈ rows, key p = k ∧ level a = level p + 1

variable {key parent level rows} {f : α → β}

theorem Levelled.level_child (h : Levelled key parent level rows) {a b : α} (ha : a ∈ rows)
    (hb : b ∈ childrenOf key parent rows a) : b ∈ rows ∧ level b = level a + 1 := by
  obtain ⟨hb, hp⟩ := List.mem_filter.1 hb
  obtain ⟨p, hp, hkey, hl⟩ := h.below b hb _ (by simpa using hp)
  rw [List.inj_on_of_nodup_map h.keys hp ha hkey] at hl
  exact ⟨hb, hl⟩

/-- The rows one level down are the children of the rows at a level. -/
theorem Levelled.perm_children (h : Levelled key parent level rows) (k : Nat) :
    ((atLevel level rows k).flatMap (childrenOf key parent rows)).Perm (atLevel level rows (k + 1)) := by
  have hrows : rows.Nodup := h.keys.of_map _
  refine (List.perm_ext_iff_of_nodup (List.nodup_flatMap.2 ⟨fun _ _ => hrows.filter _, ?_⟩) (hrows.filter _)).2 ?_
  · refine (hrows.filter _).imp_of_mem fun {a b} ha hb hne => List.disjoint_left.2 fun c hca hcb => hne ?_
    have hpa := (List.mem_filter.1 hca).2
    have hpb := (List.mem_filter.1 hcb).2
    simp only [decide_eq_true_eq] at hpa hpb
    exact List.inj_on_of_nodup_map h.keys (List.mem_filter.1 ha).1 (List.mem_filter.1 hb).1
      (Option.some.inj (hpa.symm.trans hpb))
  · intro b
    rw [List.mem_flatMap]
    constructor
    · rintro ⟨a, ha, hb⟩
      obtain ⟨ha, hk⟩ := List.mem_filter.1 ha
      obtain ⟨hb, hl⟩ := h.level_child ha hb
      refine List.mem_filter.2 ⟨hb, ?_⟩
      simp only [decide_eq_true_eq] at hk ⊢
      omega
    · intro hb
      obtain ⟨hb, hk⟩ := List.mem_filter.1 hb
      simp only [decide_eq_true_eq] at hk
      cases hp : parent b with
      | none =>
        have := h.top b hb hp
        omega
      | some q =>
        obtain ⟨a, ha, rfl, hl⟩ := h.below b hb q hp
        exact ⟨a, List.mem_filter.2 ⟨ha, by simp only [decide_eq_true_eq]; omega⟩,
          List.mem_filter.2 ⟨hb, by simpa using hp⟩⟩

/-- Level by level, the recursion comes by every row once. -/
theorem Levelled.perm_visited (h : Levelled key parent level rows) (fuel k : Nat) (hf : ∀ a ∈ rows, level a < k + fuel) :
    ((atLevel level rows k).flatMap (visited (childrenOf key parent rows) fuel)).Perm
      (rows.filter fun a => k ≤ level a) := by
  induction fuel generalizing k with
  | zero =>
    have hnone : rows.filter (fun a => k ≤ level a) = [] :=
      List.filter_eq_nil_iff.2 fun a ha => by simpa using hf a ha
    have hempty : (atLevel level rows k).flatMap (visited (childrenOf key parent rows) 0) = [] :=
      List.flatMap_eq_nil_iff.2 fun _ _ => rfl
    rw [hnone, hempty]
  | succ fuel ih =>
    have hsplit : (rows.filter fun a => k ≤ level a).Perm
        (atLevel level rows k ++ rows.filter fun a => k + 1 ≤ level a) := by
      have hperm := (List.filter_append_perm (fun a => level a = k) (rows.filter fun a => k ≤ level a)).symm
      rw [List.filter_filter, List.filter_filter] at hperm
      refine hperm.trans (List.Perm.of_eq (congrArg₂ _ (List.filter_congr fun a _ => ?_) (List.filter_congr fun a _ => ?_)))
      · rw [Bool.eq_iff_iff]
        simp only [Bool.and_eq_true, decide_eq_true_eq]
        omega
      · rw [Bool.eq_iff_iff]
        simp only [Bool.and_eq_true, Bool.not_eq_true', decide_eq_true_eq, decide_eq_false_iff_not]
        omega
    generalize hkids : childrenOf key parent rows = kids at ih ⊢
    calc (atLevel level rows k).flatMap (visited kids (fuel + 1))
      _ ~ (atLevel level rows k).map id ++ (atLevel level rows k).flatMap fun a => (kids a).flatMap (visited kids fuel) :=
          (List.map_append_flatMap_perm _ _ _).symm
      _ = atLevel level rows k ++ ((atLevel level rows k).flatMap kids).flatMap (visited kids fuel) := by
          rw [List.map_id, List.flatMap_assoc]
      _ ~ atLevel level rows k ++ (atLevel level rows (k + 1)).flatMap (visited kids fuel) :=
          ((hkids ▸ h.perm_children k).flatMap_right _).append_left _
      _ ~ atLevel level rows k ++ rows.filter (fun a => k + 1 ≤ level a) :=
          (ih (k + 1) fun a ha => by have := hf a ha; omega).append_left _
      _ ~ rows.filter fun a => k ≤ level a := hsplit.symm

variable {kids : α → List α}

/-- Enough fuel grows a tree from every row of the table. -/
theorem Levelled.grow_shows (h : Levelled key parent level rows) (hk : ∀ a ∈ rows, kids a = childrenOf key parent rows a)
    (fuel : Nat) : ∀ a ∈ rows, (∀ b ∈ rows, level b < level a + fuel) → ∃ t, grow f kids fuel a = some t ∧
      Shows f (childrenOf key parent rows) [a] [t] (visited (childrenOf key parent rows) fuel a) := by
  induction fuel with
  | zero => exact fun a ha hf => absurd (hf a ha) (by simp)
  | succ fuel ih =>
    intro a ha hf
    obtain ⟨ts, hts, hshow⟩ := shows_mapM (g := grow f kids fuel) fun b hb => by
      obtain ⟨hb, hl⟩ := h.level_child ha hb
      exact ih b hb fun c hc => by have := hf c hc; omega
    exact ⟨.node (f a) ts, by simp [grow, hk a ha, hts], hshow.node⟩

/-- The forest over the rows without a parent shows every row once, each with
its children. -/
theorem Levelled.forest (h : Levelled key parent level rows) (hk : ∀ a ∈ rows, kids a = childrenOf key parent rows a)
    {fuel : Nat} (hf : ∀ a ∈ rows, level a < fuel) :
    ∃ ts shown, (rows.filter fun a => parent a = none).mapM (grow f kids fuel) = some ts ∧ shown.Perm rows ∧ Shows f (childrenOf key parent rows) (rows.filter fun a => parent a = none) ts shown := by
  have hroots : rows.filter (fun a => parent a = none) = atLevel level rows 0 := by
    refine List.filter_congr fun a ha => ?_
    rw [decide_eq_decide]
    refine ⟨h.top a ha, fun h0 => ?_⟩
    cases hp : parent a with
    | none => rfl
    | some k =>
      obtain ⟨p, -, -, hl⟩ := h.below a ha k hp
      omega
  have hall : rows.filter (fun a => 0 ≤ level a) = rows := List.filter_eq_self.2 fun a _ => by simp
  have hgrow : ∀ a ∈ rows.filter fun a => parent a = none, ∃ t, grow f kids fuel a = some t ∧
      Shows f (childrenOf key parent rows) [a] [t] (visited (childrenOf key parent rows) fuel a) := fun a ha =>
    h.grow_shows hk fuel a (List.mem_filter.1 ha).1 fun b hb => by have := hf b hb; omega
  obtain ⟨ts, hts, hshow⟩ := shows_mapM hgrow
  refine ⟨ts, _, hts, ?_, hshow⟩
  have hperm := h.perm_visited fuel 0 fun a ha => by simpa using hf a ha
  rwa [hall, ← hroots] at hperm

end Tables

end Rose

end DuckRun.Lib
