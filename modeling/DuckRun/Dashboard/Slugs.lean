import DuckRun.Dashboard.Text
import DuckRun.Lib.Separated
/-!
# The language of slugs

`NormalizeSlug` maps every text to a slug or to nothing, and every slug to
itself: the builder holds a slug, or a slug and a hyphen, after each character
(`slugFold_built`), and the final trim takes the hyphen off.
-/

namespace DuckRun.Dashboard

open DuckRun.Lib

section Slugs
variable {chars : CharTable}

/-- A letter or digit that is its own lower case. -/
def IsSlugChar (chars : CharTable) (ch : Char) : Prop :=
  chars.isLetterOrDigit ch = true ∧ chars.toLowerInvariant ch = ch

/-- One or more runs of lower-case letters and digits, with a hyphen between any two. -/
def IsSlug (chars : CharTable) (s : Text) : Prop := Separated '-' (IsSlugChar chars) s

theorem hyphen_not_slugChar : ¬ IsSlugChar chars '-' := by
  intro h
  exact absurd (h.1.symm.trans (chars.separator_not_letter '-' rfl)) (by decide)

/-! ## The loop -/

/-- What the builder and the flag are after some characters. -/
inductive Built (chars : CharTable) : Text × Bool → Prop where
  | nothing : Built chars ([], false)
  | run {s : Text} (hs : IsSlug chars s) : Built chars (s, false)
  | separator {s : Text} (hs : IsSlug chars s) : Built chars (s ++ ['-'], true)

theorem slugStep_letter {ch : Char} (h : chars.isLetterOrDigit ch = true) (st : Text × Bool) :
    slugStep chars st ch = (st.1 ++ [ch], false) := by
  simp [slugStep, h]

theorem slugStep_built {st : Text × Bool} {ch : Char} (hst : Built chars st) (hlower : chars.toLowerInvariant ch = ch) :
    Built chars (slugStep chars st ch) := by
  by_cases hletter : chars.isLetterOrDigit ch = true
  · rw [slugStep_letter hletter]
    have hch : IsSlugChar chars ch := ⟨hletter, hlower⟩
    cases hst with
    | nothing => exact .run (.single hch)
    | run hs => exact .run (hs.snoc hch)
    | separator hs =>
      rw [List.append_assoc]
      exact .run (hs.snoc_run hch)
  · unfold slugStep
    rw [if_neg hletter]
    split
    · split
      · rename_i hopen
        cases hst with
        | nothing => simp at hopen
        | run hs => exact .separator hs
        | separator hs => simp at hopen
      · exact hst
    · exact hst

theorem slugFold_built {l : Text} (hl : ∀ ch ∈ l, chars.toLowerInvariant ch = ch) :
    Built chars (l.foldl (slugStep chars) ([], false)) := by
  induction l using List.reverseRecOn with
  | nil => exact .nothing
  | append_singleton l ch ih =>
    rw [List.foldl_append]
    exact slugStep_built (ih fun c hc => hl c (List.mem_append_left _ hc)) (hl ch (by simp))

/-- Nothing is built as long as no letter or digit comes. -/
theorem slugFold_eq_nil (l : Text) : (l.foldl (slugStep chars) ([], false)).1 = [] ↔
    ∀ ch ∈ l, chars.isLetterOrDigit ch = false := by
  induction l using List.reverseRecOn with
  | nil => simp
  | append_singleton l ch ih =>
    rw [List.foldl_append, List.foldl_cons, List.foldl_nil, List.forall_mem_append, ← ih, List.forall_mem_singleton]
    generalize l.foldl (slugStep chars) ([], false) = st
    by_cases hletter : chars.isLetterOrDigit ch = true
    · simp [slugStep_letter hletter, hletter]
    · -- A separator is only written behind something.
      rw [Bool.not_eq_true] at hletter
      have hkeep : (slugStep chars st ch).1 = [] ↔ st.1 = [] := by
        unfold slugStep
        rw [if_neg (by simp [hletter])]
        split
        · split
          · rename_i hopen
            have hne : st.1 ≠ [] := by
              rintro hnil
              simp [hnil] at hopen
            simp [hne]
          · rfl
        · rfl
      rw [hkeep, and_iff_left hletter]

/-- A slug goes through the loop as it is. -/
theorem slugFold_slug {s : Text} (hs : IsSlug chars s) : s.foldl (slugStep chars) ([], false) = (s, false) := by
  refine hs.induction (fun a ha => ?_) (fun l a _ ih ha => ?_) (fun l a hl ih ha => ?_)
  · rw [List.foldl_cons, List.foldl_nil, slugStep_letter ha.1]
    rfl
  · rw [List.foldl_append, ih, List.foldl_cons, List.foldl_nil, slugStep_letter ha.1]
  · have hne : l.length > 0 := by
      obtain ⟨b, t, rfl, -⟩ := hl.first
      simp
    have hhyphen : slugStep chars (l, false) '-' = (l ++ ['-'], true) := by
      unfold slugStep
      rw [if_neg (by rw [chars.separator_not_letter '-' rfl]; decide), if_pos (by decide), if_pos (by simp [hne])]
    rw [List.foldl_append, ih, List.foldl_cons, List.foldl_cons, List.foldl_nil, hhyphen, slugStep_letter ha.1]
    simp

/-! ## The trims -/

/-- Trimming stops at both ends at once if neither end is to be dropped. -/
theorem trim_ends (p : Char → Bool) {s : Text} {a b : Char} {t u : Text} (hfirst : s = a :: t) (ha : ¬ p a)
    (hlast : s = u ++ [b]) (hb : ¬ p b) : (s.dropWhile p).rdropWhile p = s := by
  have hdrop : s.dropWhile p = s := by rw [hfirst, List.dropWhile_cons_of_neg ha]
  rw [hdrop, hlast, List.rdropWhile_concat_neg p u b hb]

theorem not_hyphen {ch : Char} (h : IsSlugChar chars ch) : ¬ decide (ch = '-') = true := by
  rw [decide_eq_true_eq]
  rintro rfl
  exact hyphen_not_slugChar h

theorem trimChar_slug {s : Text} (hs : IsSlug chars s) : trimChar '-' s = s := by
  obtain ⟨a, t, hfirst, ha⟩ := hs.first
  obtain ⟨u, b, hlast, hb⟩ := hs.last
  exact trim_ends (fun ch => ch = '-') hfirst (not_hyphen ha) hlast (not_hyphen hb)

theorem trimChar_slug_hyphen {s : Text} (hs : IsSlug chars s) : trimChar '-' (s ++ ['-']) = s := by
  have hdrop : (s ++ ['-']).dropWhile (fun ch => ch = '-') = s ++ ['-'] := by
    obtain ⟨a, t, rfl, ha⟩ := hs.first
    exact List.dropWhile_cons_of_neg (p := fun ch => decide (ch = '-')) (not_hyphen ha)
  obtain ⟨u, b, hlast, hb⟩ := hs.last
  unfold trimChar
  rw [hdrop, List.rdropWhile_concat_pos _ _ _ (by simp), hlast]
  exact List.rdropWhile_concat_neg _ u b (not_hyphen hb)

theorem trim_slug {s : Text} (hs : IsSlug chars s) : trim chars s = s := by
  obtain ⟨a, t, hfirst, ha⟩ := hs.first
  obtain ⟨u, b, hlast, hb⟩ := hs.last
  refine trim_ends _ hfirst ?_ hlast ?_
  · rw [chars.letter_not_space a ha.1]
    decide
  · rw [chars.letter_not_space b hb.1]
    decide

/-- Trimming white space loses no letter or digit. -/
theorem mem_trim {s : Text} {ch : Char} (hch : ch ∈ s) (hletter : chars.isLetterOrDigit ch = true) : ch ∈ trim chars s := by
  have hspace := chars.letter_not_space ch hletter
  have hdrop : ∀ {l : Text}, ch ∈ l → ch ∈ l.dropWhile chars.isWhiteSpace := by
    intro l hl
    rw [← List.takeWhile_append_dropWhile (p := chars.isWhiteSpace) (l := l)] at hl
    rcases List.mem_append.1 hl with hl | hl
    · rw [List.mem_takeWhile_imp hl] at hspace
      cases hspace
    · exact hl
  unfold trim List.rdropWhile
  rw [List.mem_reverse]
  exact hdrop (List.mem_reverse.2 (hdrop hch))

/-! ## `NormalizeSlug` -/

theorem trimChar_built {st : Text × Bool} (h : Built chars st) :
    (trimChar '-' st.1 = [] ∨ IsSlug chars (trimChar '-' st.1)) ∧ (trimChar '-' st.1 = [] ↔ st.1 = []) := by
  cases h with
  | nothing => exact ⟨.inl rfl, iff_of_true rfl rfl⟩
  | run hs =>
    rw [trimChar_slug hs]
    exact ⟨.inr hs, .rfl⟩
  | @separator s hs =>
    obtain ⟨a, t, rfl, -⟩ := hs.first
    rw [trimChar_slug_hyphen hs]
    exact ⟨.inr hs, by simp⟩

theorem normalizeSlug_built (raw : Text) :
    Built chars (((trim chars raw).map chars.toLowerInvariant).foldl (slugStep chars) ([], false)) := by
  refine slugFold_built fun ch hch => ?_
  obtain ⟨c, -, rfl⟩ := List.mem_map.1 hch
  exact chars.lower_lower c

theorem normalizeSlug_slug {s : Text} (hs : IsSlug chars s) : normalizeSlug chars s = s := by
  have hlower : s.map chars.toLowerInvariant = s := by
    refine (List.map_congr_left fun ch hch => ?_).trans (List.map_id s)
    rcases hs.ok_or_sep ch hch with h | rfl
    · exact h.2
    · exact chars.lower_separator '-' rfl
  unfold normalizeSlug
  rw [trim_slug hs, hlower, slugFold_slug hs]
  exact trimChar_slug hs

theorem normalizeSlug_eq_nil (raw : Text) :
    normalizeSlug chars raw = [] ↔ ∀ ch ∈ raw, chars.isLetterOrDigit ch = false := by
  unfold normalizeSlug
  rw [(trimChar_built (normalizeSlug_built raw)).2, slugFold_eq_nil, List.forall_mem_map]
  simp only [chars.letter_lower]
  constructor
  · intro hnone ch hch
    by_contra hletter
    rw [Bool.not_eq_false] at hletter
    exact absurd ((hnone ch (mem_trim hch hletter)).symm.trans hletter) (by decide)
  · intro hnone ch hch
    exact hnone ch ((List.dropWhile_sublist _).subset ((List.rdropWhile_prefix _ _).subset hch))

/-- `NormalizeSlug` is a projection onto the slugs and the empty text. -/
theorem normalizeSlug_projection (chars : CharTable) :
    (∀ raw, normalizeSlug chars raw = [] ∨ IsSlug chars (normalizeSlug chars raw)) ∧
    (∀ raw, normalizeSlug chars raw = [] ↔ ∀ ch ∈ raw, chars.isLetterOrDigit ch = false) ∧
    (∀ s, s = [] ∨ IsSlug chars s → normalizeSlug chars s = s) ∧
    (∀ raw, normalizeSlug chars (normalizeSlug chars raw) = normalizeSlug chars raw) ∧
    ∀ s, IsSlug chars s → s.head? ≠ some '-' ∧ s.getLast? ≠ some '-' ∧ ¬ ['-', '-'] <:+: s ∧ '/' ∉ s := by
  have hslug : ∀ raw, normalizeSlug chars raw = [] ∨ IsSlug chars (normalizeSlug chars raw) :=
    fun raw => (trimChar_built (normalizeSlug_built raw)).1
  have hfixed : ∀ s, s = [] ∨ IsSlug chars s → normalizeSlug chars s = s := by
    rintro s (rfl | hs)
    · rfl
    · exact normalizeSlug_slug hs
  refine ⟨hslug, normalizeSlug_eq_nil, hfixed, fun raw => hfixed _ (hslug raw), fun s hs => ⟨?_, ?_, ?_, ?_⟩⟩
  · obtain ⟨a, t, rfl, ha⟩ := hs.first
    rintro ⟨⟩
    exact hyphen_not_slugChar ha
  · obtain ⟨t, a, rfl, ha⟩ := hs.last
    rw [List.getLast?_concat]
    rintro ⟨⟩
    exact hyphen_not_slugChar ha
  · exact hs.not_doubled hyphen_not_slugChar
  · intro hslash
    rcases hs.ok_or_sep '/' hslash with h | h
    · exact absurd (h.1.symm.trans (chars.separator_not_letter '/' rfl)) (by decide)
    · cases h

end Slugs

theorem normalizeSlug_projection_myTeam : normalizeSlug ascii "my-team".toList = "my-team".toList := by
  have hchars : ∀ ch ∈ "myteam".toList, IsSlugChar ascii ch := by simp [IsSlugChar, ascii]
  have hs : IsSlug ascii "my-team".toList := by
    refine ⟨["my".toList, "team".toList], by decide, fun r hr => ?_, by decide⟩
    rcases List.mem_pair.1 hr with rfl | rfl
    · exact ⟨by decide, fun ch hch => hchars ch (List.mem_append_left "team".toList hch)⟩
    · exact ⟨by decide, fun ch hch => hchars ch (List.mem_append_right "my".toList hch)⟩
  exact (normalizeSlug_projection ascii).2.2.1 _ (.inr hs)

end DuckRun.Dashboard
