import Mathlib
/-!
# Texts and slugs

C# strings are lists of characters here. `CharTable` is what the slug code
asks of .NET's character tables and of the current culture; the theorems hold
for every table that keeps the laws stated with it. `ascii` is one to compute
with, and `hangul` one whose culture compares by canonical equivalence.
-/

namespace DuckRun.Dashboard

abbrev Text := List Char

/-- The characters `NormalizeSlug` turns into a hyphen. -/
def isSeparator (ch : Char) : Bool :=
  ch = '-' || ch = '_' || ch = ' ' || ch = '.' || ch = '/'

/-- `char.IsWhiteSpace`, `char.IsLetterOrDigit`, the invariant lower-case map, and
`text.StartsWith(start)`, which compares as the current culture does. -/
structure CharTable where
  isWhiteSpace : Char → Bool
  isLetterOrDigit : Char → Bool
  toLowerInvariant : Char → Char
  startsWith : (text start : Text) → Bool
  lower_lower : ∀ ch, toLowerInvariant (toLowerInvariant ch) = toLowerInvariant ch
  letter_lower : ∀ ch, isLetterOrDigit (toLowerInvariant ch) = isLetterOrDigit ch
  lower_separator : ∀ ch, isSeparator ch = true → toLowerInvariant ch = ch
  separator_not_letter : ∀ ch, isSeparator ch = true → isLetterOrDigit ch = false
  letter_not_space : ∀ ch, isLetterOrDigit ch = true → isWhiteSpace ch = false

/-- The culture recognises a start that is there character by character and ends
in the path separator; it may recognise more. One that weighs the character after
the separator as a mark, as ICU does with U+FF9E, recognises less there. -/
def CharTable.RecognisesPaths (chars : CharTable) : Prop :=
  ∀ path rest, chars.startsWith (path ++ '/' :: rest) (path ++ ['/']) = true

/-- Whether `candidate` starts with `path` and a slash, the culture says the same as the characters. -/
def CharTable.Agrees (chars : CharTable) (path candidate : Text) : Prop :=
  chars.startsWith candidate (path ++ ['/']) = (path ++ ['/']).isPrefixOf candidate

/-! ## The ASCII table -/

theorem isDigit_toLower (ch : Char) : ch.toLower.isDigit = ch.isDigit := by
  by_cases hu : ch.isUpper
  · have hv : (ch.toNat + 32).isValidChar := by
      simp [Char.isUpper, UInt32.le_iff_toNat_le] at hu
      exact .inl (by omega)
    rw [Char.toLower_eq_of_isUpper hu, Bool.eq_iff_iff]
    simp [Char.isUpper, UInt32.le_iff_toNat_le] at hu
    simp [Char.isDigit, UInt32.le_iff_toNat_le, hv]
    omega
  · rw [Char.toLower_eq_of_not_isUpper hu]

theorem isSeparator_cases {ch : Char} (h : isSeparator ch = true) :
    ch = '-' ∨ ch = '_' ∨ ch = ' ' ∨ ch = '.' ∨ ch = '/' := by
  simpa [isSeparator, or_assoc] using h

/-- .NET's tables, restricted to ASCII letters, digits and white space, with the ordinal comparison. -/
def ascii : CharTable where
  isWhiteSpace := Char.isWhitespace
  isLetterOrDigit := Char.isAlphanum
  toLowerInvariant := Char.toLower
  startsWith text start := start.isPrefixOf text
  lower_lower := Char.toLower_toLower_eq_toLower
  letter_lower ch := by simp [Char.isAlphanum, isDigit_toLower]
  lower_separator ch h := by rcases isSeparator_cases h with rfl | rfl | rfl | rfl | rfl <;> rfl
  separator_not_letter ch h := by rcases isSeparator_cases h with rfl | rfl | rfl | rfl | rfl <;> rfl
  letter_not_space ch h := by
    simp only [Char.isWhitespace, Bool.or_eq_false_iff, decide_eq_false_iff_not]
    refine ⟨⟨⟨?_, ?_⟩, ?_⟩, ?_⟩ <;> rintro rfl <;> revert h <;> decide

theorem ascii_recognisesPaths : ascii.RecognisesPaths := by
  intro path rest
  show (path ++ ['/']).isPrefixOf (path ++ '/' :: rest) = true
  rw [List.isPrefixOf_iff_prefix]
  exact ⟨rest, by simp⟩

/-! ## A culture that compares Hangul by canonical equivalence -/

def isHangul (ch : Char) : Bool :=
  (0x1100 ≤ ch.toNat && ch.toNat ≤ 0x11FF) || (0xAC00 ≤ ch.toNat && ch.toNat ≤ 0xD7A3)

/-- The letters a Hangul syllable is canonically equivalent to; any other character itself. -/
def decompose (ch : Char) : Text :=
  if 0xAC00 ≤ ch.toNat ∧ ch.toNat ≤ 0xD7A3 then
    let syllable := ch.toNat - 0xAC00
    let final := if syllable % 28 = 0 then [] else [Char.ofNat (0x11A7 + syllable % 28)]
    Char.ofNat (0x1100 + syllable / 588) :: Char.ofNat (0x1161 + syllable % 588 / 28) :: final
  else [ch]

theorem isHangul_toLower (ch : Char) : isHangul ch.toLower = isHangul ch := by
  by_cases hu : ch.isUpper
  · have hv : (ch.toNat + 32).isValidChar := by
      simp [Char.isUpper, UInt32.le_iff_toNat_le] at hu
      exact .inl (by omega)
    rw [Char.toLower_eq_of_isUpper hu, Bool.eq_iff_iff]
    simp [Char.isUpper, UInt32.le_iff_toNat_le] at hu
    simp [isHangul, Char.toNat_ofNat, hv]
    omega
  · rw [Char.toLower_eq_of_not_isUpper hu]

/-- The ASCII table with the letters and syllables of Hangul. -/
def hangul : CharTable where
  isWhiteSpace := Char.isWhitespace
  isLetterOrDigit ch := ch.isAlphanum || isHangul ch
  toLowerInvariant := Char.toLower
  startsWith text start := (start.flatMap decompose).isPrefixOf (text.flatMap decompose)
  lower_lower := Char.toLower_toLower_eq_toLower
  letter_lower ch := congrArg₂ (· || ·) (ascii.letter_lower ch) (isHangul_toLower ch)
  lower_separator := ascii.lower_separator
  separator_not_letter ch h := by rcases isSeparator_cases h with rfl | rfl | rfl | rfl | rfl <;> rfl
  letter_not_space ch h := by
    simp only [Char.isWhitespace, Bool.or_eq_false_iff, decide_eq_false_iff_not]
    refine ⟨⟨⟨?_, ?_⟩, ?_⟩, ?_⟩ <;> rintro rfl <;> revert h <;> decide

theorem hangul_recognisesPaths : hangul.RecognisesPaths := by
  intro path rest
  show ((path ++ ['/']).flatMap decompose).isPrefixOf ((path ++ '/' :: rest).flatMap decompose) = true
  rw [List.isPrefixOf_iff_prefix]
  exact ⟨rest.flatMap decompose, by simp⟩

/-! ## `String` methods -/

section Methods
variable (chars : CharTable)

/-- `string.IsNullOrWhiteSpace`. -/
def isNullOrWhiteSpace (s : Option Text) : Bool := (s.getD []).all chars.isWhiteSpace

/-- `string.Trim()`. -/
def trim (s : Text) : Text := (s.dropWhile chars.isWhiteSpace).rdropWhile chars.isWhiteSpace

/-- `string.Trim(ch)`. -/
def trimChar (ch : Char) (s : Text) : Text := (s.dropWhile (· = ch)).rdropWhile (· = ch)

/-! ## `NormalizeSlug` -/

/-- One round of the `foreach`: the builder and `lastWasSeparator`. -/
def slugStep (st : Text × Bool) (ch : Char) : Text × Bool :=
  if chars.isLetterOrDigit ch then (st.1 ++ [ch], false)
  else if isSeparator ch then
    if st.1.length > 0 && !st.2 then (st.1 ++ ['-'], true) else st
  else st

def normalizeSlug (raw : Text) : Text :=
  trimChar '-' (((trim chars raw).map chars.toLowerInvariant).foldl (slugStep chars) ([], false)).1

theorem slugStep_mem (st : Text × Bool) (ch c : Char) (h : c ∈ (slugStep chars st ch).1) :
    c ∈ st.1 ∨ chars.isLetterOrDigit c = true ∨ c = '-' := by
  unfold slugStep at h
  split at h
  · rcases List.mem_append.1 h with h | h
    · exact .inl h
    · rw [List.mem_singleton] at h
      subst h
      exact .inr (.inl ‹_›)
  · split at h
    · split at h
      · rcases List.mem_append.1 h with h | h
        · exact .inl h
        · exact .inr (.inr (by simpa using h))
      · exact .inl h
    · exact .inl h

/-- The builder only ever holds letters, digits and hyphens. -/
theorem slugFold_mem (l : Text) (st : Text × Bool) (c : Char) (h : c ∈ (l.foldl (slugStep chars) st).1) :
    c ∈ st.1 ∨ chars.isLetterOrDigit c = true ∨ c = '-' := by
  induction l generalizing st with
  | nil => exact .inl h
  | cons ch l ih =>
    rcases ih _ h with h | h
    · exact slugStep_mem chars st ch c h
    · exact .inr h

theorem trimChar_subset (ch : Char) (s : Text) : trimChar ch s ⊆ s := by
  intro c hc
  exact (List.dropWhile_sublist _).subset ((List.rdropWhile_prefix _ _).subset hc)

theorem normalizeSlug_mem (raw : Text) (c : Char) (h : c ∈ normalizeSlug chars raw) :
    chars.isLetterOrDigit c = true ∨ c = '-' := by
  rcases slugFold_mem chars _ _ c (trimChar_subset _ _ h) with h | h
  · simp at h
  · exact h

/-- A slug never contains the path separator. -/
theorem normalizeSlug_no_slash (raw : Text) : '/' ∉ normalizeSlug chars raw := by
  intro h
  rcases normalizeSlug_mem chars raw '/' h with h | h
  · rw [chars.separator_not_letter '/' rfl] at h
    cases h
  · cases h

end Methods

example : normalizeSlug ascii " My_Team / Ops. ".toList = "my-team-ops".toList := by decide

end DuckRun.Dashboard
