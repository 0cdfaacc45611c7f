import DuckRun.Dashboard.GroupEndpoints
import DuckRun.Lib.Digits
/-!
# Guids as texts

`Guid.TryParse` on the form `Guid.ToString()` writes, which it reads back.
-/

namespace DuckRun.Dashboard

open DuckRun.Lib

/-- `Guid.TryParse` on the hyphenated form, 8-4-4-4-12 hexadecimal digits. -/
def tryParseHyphenated (s : Text) : Option Guid :=
  let digits := s.filter fun c => c ≠ '-'
  let value := digits.foldlM (fun n c => if c.isDigit then some (n * 16 + (c.toNat - 48))
    else if 'a' ≤ c ∧ c ≤ 'f' then some (n * 16 + (c.toNat - 87))
    else if 'A' ≤ c ∧ c ≤ 'F' then some (n * 16 + (c.toNat - 55)) else none) 0
  if s.length = 36 ∧ digits.length = 32 ∧ [8, 13, 18, 23].all fun i => s[i]? = some '-' then
    value.map (BitVec.ofNat 128)
  else none

/-- The digits of a `Guid`, highest first. -/
def guidDigits (g : Guid) : Text := (lastDigits 16 32 g.toNat).map Nat.digitChar

theorem guidText_toList (g : Guid) :
    (guidText g).toList = (guidDigits g).take 8 ++ '-' :: (((guidDigits g).drop 8).take 4 ++ '-' ::
      (((guidDigits g).drop 12).take 4 ++ '-' :: (((guidDigits g).drop 16).take 4 ++ '-' :: ((guidDigits g).drop 20).take 12))) := by
  have hdigits : ((List.range 32).map fun i => Nat.digitChar (g.toNat / 16 ^ (31 - i) % 16)) = guidDigits g := by
    unfold guidDigits lastDigits
    rw [List.map_map]
    rfl
  unfold guidText
  rw [hdigits]
  simp [String.intercalate_cons_cons, String.intercalate_singleton]

/-- The value of a hexadecimal digit. -/
def hexStep (n : Nat) (c : Char) : Option Nat :=
  if c.isDigit then some (n * 16 + (c.toNat - 48))
  else if 'a' ≤ c ∧ c ≤ 'f' then some (n * 16 + (c.toNat - 87))
  else if 'A' ≤ c ∧ c ≤ 'F' then some (n * 16 + (c.toNat - 55)) else none

theorem hexStep_digitChar (n : Nat) : ∀ d < 16, hexStep n (Nat.digitChar d) = some (n * 16 + d) := by
  intro d hd
  interval_cases d <;> rfl

theorem digitChar_ne_hyphen : ∀ d < 16, Nat.digitChar d ≠ '-' := by decide

theorem foldlM_hexStep {ds : List Nat} (h : ∀ d ∈ ds, d < 16) (n : Nat) :
    (ds.map Nat.digitChar).foldlM hexStep n = some (ds.foldl (fun v d => v * 16 + d) n) := by
  induction ds generalizing n with
  | nil => rfl
  | cons d ds ih =>
    rw [List.map_cons, List.foldlM_cons, hexStep_digitChar n d (h d List.mem_cons_self)]
    exact ih (fun x hx => h x (List.mem_cons_of_mem _ hx)) _

theorem guidDigits_value (g : Guid) : (guidDigits g).foldlM hexStep 0 = some g.toNat := by
  unfold guidDigits
  rw [foldlM_hexStep (fun d hd => lt_of_mem_lastDigits (by decide) hd), foldl_lastDigits]
  have hlt : g.toNat < 16 ^ 32 := g.isLt
  rw [Nat.mod_eq_of_lt hlt]

theorem hyphen_not_mem_guidDigits (g : Guid) : ∀ c ∈ guidDigits g, c ≠ '-' := by
  intro c hc
  obtain ⟨d, hd, rfl⟩ := List.mem_map.1 hc
  exact digitChar_ne_hyphen d (lt_of_mem_lastDigits (by decide) hd)

theorem length_guidDigits (g : Guid) : (guidDigits g).length = 32 := by simp [guidDigits]

theorem take_drop_append {α : Type} (l : List α) (i k : Nat) : (l.drop i).take k ++ l.drop (i + k) = l.drop i := by
  rw [← List.drop_drop, List.take_append_drop]

/-- Without its hyphens the text is the digits. -/
theorem filter_guidText (g : Guid) : (guidText g).toList.filter (fun c => c ≠ '-') = guidDigits g := by
  have hpart : ∀ l, l ⊆ guidDigits g → l.filter (fun c => c ≠ '-') = l := by
    intro l hl
    apply List.filter_eq_self.2
    intro c hc
    simpa using hyphen_not_mem_guidDigits g c (hl hc)
  have hsub : ∀ i k, ((guidDigits g).drop i).take k ⊆ guidDigits g := fun i k =>
    List.Subset.trans (List.take_subset _ _) (List.drop_subset _ _)
  have hhyphen : ∀ l : Text, ('-' :: l).filter (fun c => c ≠ '-') = l.filter fun c => c ≠ '-' := fun l => rfl
  have hend : ((guidDigits g).drop 20).take 12 = (guidDigits g).drop 20 := by
    apply List.take_of_length_le
    rw [List.length_drop, length_guidDigits]
  rw [guidText_toList]
  simp only [List.filter_append, hhyphen, hpart _ (hsub _ _), hpart _ (List.take_subset _ _)]
  rw [hend, take_drop_append _ 16 4, take_drop_append _ 12 4, take_drop_append _ 8 4, List.take_append_drop]

/-- A `Guid` is read back from its text. -/
theorem tryParse_guidText (g : Guid) : tryParseHyphenated (guidText g).toList = some g := by
  have hlen : (guidText g).toList.length = 36 := by
    rw [guidText_toList]
    simp [length_guidDigits]
  have hhyphens : ([8, 13, 18, 23].all fun i => (guidText g).toList[i]? = some '-') = true := by
    rw [guidText_toList]
    simp [List.getElem?_append, length_guidDigits]
  have hvalue := guidDigits_value g
  unfold hexStep at hvalue
  unfold tryParseHyphenated
  simp only [filter_guidText, hvalue]
  rw [if_pos ⟨hlen, length_guidDigits g, hhyphens⟩]
  simp

end DuckRun.Dashboard
