import DuckRun.Lib.Paths
import Mathlib.Data.List.Infix
/-!
# Runs with a separator between them

`Separated sep ok l`: `l` is one or more non-empty runs of `ok` elements, with
one separator between any two. Such a list grows at its end by an element of
the last run or by a separator and a new run, and there is no other way to get
one (`Separated.induction`).
-/

namespace DuckRun.Lib

variable {α : Type} {sep : α} {ok : α → Prop} {l : List α} {a : α}

def Separated (sep : α) (ok : α → Prop) (l : List α) : Prop :=
  ∃ runs : List (List α), runs ≠ [] ∧ (∀ r ∈ runs, r ≠ [] ∧ ∀ a ∈ r, ok a) ∧ l = [sep].intercalate runs

theorem Separated.single (ha : ok a) : Separated sep ok [a] :=
  ⟨[[a]], by simp, by simpa using ha, by simp⟩

theorem Separated.snoc (hl : Separated sep ok l) (ha : ok a) : Separated sep ok (l ++ [a]) := by
  obtain ⟨runs, hne, hruns, rfl⟩ := hl
  rcases List.eq_nil_or_concat runs with rfl | ⟨init, r, rfl⟩
  · exact absurd rfl hne
  rw [List.concat_eq_append] at hruns ⊢
  refine ⟨init ++ [r ++ [a]], by simp, fun r' hr' => ?_, ?_⟩
  · rcases List.mem_append.1 hr' with hr' | hr'
    · exact hruns r' (List.mem_append_left _ hr')
    · rw [List.mem_singleton.1 hr']
      refine ⟨by simp, fun b hb => ?_⟩
      rcases List.mem_append.1 hb with hb | hb
      · exact (hruns r (by simp)).2 b hb
      · rwa [List.mem_singleton.1 hb]
  · by_cases hinit : init = []
    · simp [hinit]
    · rw [intercalate_snoc sep hinit, intercalate_snoc sep hinit, List.append_assoc, List.cons_append]

theorem Separated.snoc_run (hl : Separated sep ok l) (ha : ok a) : Separated sep ok (l ++ [sep, a]) := by
  obtain ⟨runs, hne, hruns, rfl⟩ := hl
  refine ⟨runs ++ [[a]], by simp, fun r hr => ?_, (intercalate_snoc sep hne [a]).symm⟩
  rcases List.mem_append.1 hr with hr | hr
  · exact hruns r hr
  · rw [List.mem_singleton.1 hr]
    exact ⟨by simp, by simpa using ha⟩

@[elab_as_elim]
theorem Separated.induction {P : List α → Prop} (single : ∀ a, ok a → P [a])
    (snoc : ∀ l a, Separated sep ok l → P l → ok a → P (l ++ [a]))
    (snoc_run : ∀ l a, Separated sep ok l → P l → ok a → P (l ++ [sep, a])) (hl : Separated sep ok l) : P l := by
  obtain ⟨runs, hne, hruns, rfl⟩ := hl
  induction runs using List.reverseRecOn with
  | nil => exact absurd rfl hne
  | append_singleton init r ih =>
    have hinit : ∀ r' ∈ init, r' ≠ [] ∧ ∀ a ∈ r', ok a := fun r' hr' => hruns r' (List.mem_append_left _ hr')
    obtain ⟨hr, hok⟩ := hruns r (by simp)
    clear hruns
    -- The last run, from its first element on.
    induction r using List.reverseRecOn with
    | nil => exact absurd rfl hr
    | append_singleton r a ihr =>
      have ha : ok a := hok a (by simp)
      have hok' : ∀ b ∈ r, ok b := fun b hb => hok b (List.mem_append_left _ hb)
      by_cases hempty : r = []
      · subst hempty
        by_cases hi : init = []
        · subst hi
          simpa using single a ha
        · rw [intercalate_snoc sep hi]
          exact snoc_run _ a ⟨init, hi, hinit, rfl⟩ (ih hi hinit) ha
      · have hlast : [sep].intercalate (init ++ [r ++ [a]]) = [sep].intercalate (init ++ [r]) ++ [a] := by
          by_cases hi : init = []
          · simp [hi]
          · rw [intercalate_snoc sep hi, intercalate_snoc sep hi, List.append_assoc, List.cons_append]
        have hruns : ∀ r' ∈ init ++ [r], r' ≠ [] ∧ ∀ b ∈ r', ok b := by
          intro r' hr'
          rcases List.mem_append.1 hr' with hr' | hr'
          · exact hinit r' hr'
          · rw [List.mem_singleton.1 hr']
            exact ⟨hempty, hok'⟩
        rw [hlast]
        exact snoc _ a ⟨init ++ [r], by simp, hruns, rfl⟩ (ihr (by simp) hempty hok') ha

theorem Separated.first (hl : Separated sep ok l) : ∃ a t, l = a :: t ∧ ok a := by
  refine hl.induction (fun a ha => ⟨a, [], rfl, ha⟩) ?_ ?_
  · rintro l b - ⟨a, t, rfl, ha⟩ -
    exact ⟨a, t ++ [b], rfl, ha⟩
  · rintro l b - ⟨a, t, rfl, ha⟩ -
    exact ⟨a, t ++ [sep, b], rfl, ha⟩

theorem Separated.last (hl : Separated sep ok l) : ∃ t a, l = t ++ [a] ∧ ok a := by
  refine hl.induction (fun a ha => ⟨[], a, rfl, ha⟩) ?_ ?_
  · exact fun l a _ _ ha => ⟨l, a, rfl, ha⟩
  · exact fun l a _ _ ha => ⟨l ++ [sep], a, by simp, ha⟩

theorem Separated.ok_or_sep (hl : Separated sep ok l) : ∀ a ∈ l, ok a ∨ a = sep := by
  refine hl.induction (fun a ha => by simpa using .inl ha) ?_ ?_
  · intro l a _ ih ha b hb
    rcases List.mem_append.1 hb with hb | hb
    · exact ih b hb
    · exact .inl (List.mem_singleton.1 hb ▸ ha)
  · intro l a _ ih ha b hb
    rcases List.mem_append.1 hb with hb | hb
    · exact ih b hb
    · rcases List.mem_pair.1 hb with rfl | rfl
      · exact .inr rfl
      · exact .inl ha

/-- No two separators in a row. -/
theorem Separated.not_doubled (hsep : ¬ ok sep) (hl : Separated sep ok l) : ¬ [sep, sep] <:+: l := by
  have hend : ∀ {l t : List α} {a : α}, ok a → ¬ t ++ [sep] <:+ l ++ [a] := by
    intro l t a ha hsuf
    rcases List.suffix_concat_iff.1 hsuf with hnil | ⟨t', ht, -⟩
    · simp at hnil
    · have hlast := List.append_inj_right' ht rfl
      exact hsep (List.singleton_inj.1 hlast ▸ ha)
  refine hl.induction (fun a ha hin => ?_) (fun l a hl ih ha hin => ?_) (fun l a hl ih ha hin => ?_)
  · have := hin.length_le
    simp at this
  · rcases List.infix_concat_iff.1 hin with hin | hin
    · exact hend (t := [sep]) ha hin
    · exact ih hin
  · have hin : [sep, sep] <:+: l ++ [sep] ++ [a] := by simpa using hin
    rcases List.infix_concat_iff.1 hin with hin | hin
    · exact hend (t := [sep]) ha hin
    rcases List.infix_concat_iff.1 hin with hin | hin
    · obtain ⟨t, b, rfl, hb⟩ := hl.last
      rcases List.suffix_concat_iff.1 hin with hnil | ⟨s, hs, hin⟩
      · cases hnil
      · have hone : [sep] = _ := List.append_inj_left' hs rfl
        exact hend (t := []) hb (hone ▸ hin)
    · exact ih hin

end DuckRun.Lib
