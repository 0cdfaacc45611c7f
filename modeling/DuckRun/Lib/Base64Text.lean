import DuckRun.Lib.Base64
/-!
# Reading Base64

`Convert.FromBase64String`: white space is skipped, the rest comes in groups of
four characters, and padding stands at the end only.
-/

namespace DuckRun.Lib.Base64

def isSkipped (c : Char) : Bool := c = ' ' || c = '\t' || c = '\n' || c = '\r'

/-- The digit that a character stands for. -/
def digitValue (c : Char) : Option Nat := alphabet.idxOf? c

/-- `Convert.FromBase64String`; `none` is a `FormatException`. -/
def fromBase64String (text : List Char) : Option (List UInt8) :=
  let chars := text.filter fun c => !isSkipped c
  let padding := (chars.reverse.takeWhile (· = '=')).length
  if chars.length % 4 = 0 ∧ padding ≤ 2 then ((chars.take (chars.length - padding)).mapM digitValue).map bytes else none

theorem digitValue_digit : ∀ d < 64, digitValue (digit d) = some d := by decide +kernel

theorem isSkipped_digit : ∀ d < 64, isSkipped (digit d) = false := by decide +kernel

/-- How many characters the padding fills up. -/
theorem length_sextets (data : List UInt8) : ((sextets data).length + (3 - data.length % 3) % 3) % 4 = 0 := by
  fun_induction sextets data with
  | case1 a b c rest ih =>
    simp only [List.length_append, length_lastDigits, List.length_cons]
    have hrest : (rest.length + 1 + 1 + 1) % 3 = rest.length % 3 := by omega
    rw [hrest]
    omega
  | case2 a b => simp
  | case3 a => simp
  | case4 => rfl

theorem mapM_digitValue {ds : List Nat} (h : ∀ d ∈ ds, d < 64) : (ds.map digit).mapM digitValue = some ds := by
  induction ds with
  | nil => rfl
  | cons d ds ih =>
    rw [List.map_cons, List.mapM_cons, digitValue_digit d (h d List.mem_cons_self),
      ih fun x hx => h x (List.mem_cons_of_mem _ hx)]
    rfl

theorem fromBase64String_toBase64String (data : List UInt8) : fromBase64String (toBase64String data) = some data := by
  have hlt : ∀ d ∈ sextets data, d < 64 := fun d hd => lt_of_mem_sextets hd
  have hkept : (toBase64String data).filter (fun c => !isSkipped c) = toBase64String data := by
    refine List.filter_eq_self.2 fun c hc => ?_
    rcases List.mem_append.1 hc with hc | hc
    · obtain ⟨d, hd, rfl⟩ := List.mem_map.1 hc
      rw [isSkipped_digit d (hlt d hd)]
      rfl
    · rw [List.eq_of_mem_replicate hc]
      rfl
  have hpadding : ((toBase64String data).reverse.takeWhile (· = '=')).length = (3 - data.length % 3) % 3 := by
    rw [toBase64String, List.reverse_append, List.reverse_replicate, List.takeWhile_append_of_pos (by simp),
      List.length_append, List.length_replicate, Nat.add_eq_left, List.length_eq_zero_iff]
    cases hrev : ((sextets data).map digit).reverse with
    | nil => rfl
    | cons c rest =>
      have hc : c ∈ (sextets data).map digit := List.mem_reverse.1 (hrev ▸ List.mem_cons_self)
      obtain ⟨d, hd, rfl⟩ := List.mem_map.1 hc
      exact List.takeWhile_cons_of_neg (by simpa using digit_ne_padding d (hlt d hd))
  have hlength : (toBase64String data).length = (sextets data).length + (3 - data.length % 3) % 3 := by
    rw [toBase64String, List.length_append, List.length_map, List.length_replicate]
  unfold fromBase64String
  simp only [hkept, hpadding, hlength]
  rw [if_pos ⟨length_sextets data, by omega⟩, Nat.add_sub_cancel, toBase64String,
    List.take_left' (by rw [List.length_map]), mapM_digitValue hlt]
  exact congrArg some (bytes_sextets data)

end DuckRun.Lib.Base64
