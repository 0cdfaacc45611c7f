import DuckRun.Dashboard.Text
import DuckRun.Lib.Base64Text
/-!
# Stored passwords

`PasswordHasher` stores `v1.{iterations}.{salt-b64}.{hash-b64}` and reads that
back. The key derivation is a parameter.
-/

namespace DuckRun.Dashboard

open DuckRun.Lib

/-- `KeyDerivation.Pbkdf2` with HMAC-SHA256, of a password, a salt, a number of
iterations and the number of bytes wanted. -/
structure Pbkdf2 where
  derive : Text → List UInt8 → Int → Nat → List UInt8
  length_derive : ∀ password salt iterations n, (derive password salt iterations n).length = n

/-! ## Numbers -/

/-- The white space that number parsing skips. -/
def isNumberSpace (c : Char) : Bool := c = ' ' || ('\t' ≤ c && c ≤ '\r')

def unsignedInt32 (digits : Text) : Option Int :=
  if digits ≠ [] ∧ digits.all Char.isDigit then some (Nat.ofDigitChars 10 digits 0 : Int) else none

/-- `int.TryParse` with the invariant signs. -/
def tryParseInt32 (text : Text) : Option Int :=
  let body := ((text.rdropWhile (· = '\x00')).rdropWhile isNumberSpace).dropWhile isNumberSpace
  let value := match body with
    | '-' :: digits => (unsignedInt32 digits).map Neg.neg
    | '+' :: digits => unsignedInt32 digits
    | digits => unsignedInt32 digits
  value.filter fun n => -2147483648 ≤ n && n ≤ 2147483647

/-! ## Hashing -/

namespace PasswordHasher

def marker : Text := "v1".toList
def hashBytes : Nat := 32
def iterations : Int := 210000

section Hasher
variable (chars : CharTable) (pbkdf2 : Pbkdf2)

/-- `Hash`, with the salt it draws. -/
def hash (salt : List UInt8) (password : Text) : Except String Text :=
  if isNullOrWhiteSpace chars (some password) then .error "ArgumentException"
  else .ok (['.'].intercalate [marker, (toString iterations).toList, Base64.toBase64String salt,
    Base64.toBase64String (pbkdf2.derive password salt iterations hashBytes)])

def verify (password stored : Text) : Except String Bool :=
  if stored = [] ∨ password = [] then .ok false
  else
    match stored.splitOn '.' with
    | [version, iters, salt, expected] =>
      if version ≠ marker then .ok false
      else
        match tryParseInt32 iters with
        | none => .ok false
        | some iters =>
          if iters < 1 then .ok false
          else
            match Base64.fromBase64String salt, Base64.fromBase64String expected with
            | some salt, some expected =>
              -- The `catch` is for a `FormatException` only.
              if expected = [] then .error "ArgumentOutOfRangeException"
              else .ok (decide (pbkdf2.derive password salt iters expected.length = expected))
            | _, _ => .ok false
    | _ => .ok false

/-! ## There and back -/

theorem dot_not_mem_base64 (data : List UInt8) : '.' ∉ Base64.toBase64String data := by
  intro h
  rcases List.mem_append.1 h with h | h
  · obtain ⟨d, hd, he⟩ := List.mem_map.1 h
    have hne : ∀ d < 64, Base64.digit d ≠ '.' := by decide +kernel
    exact hne d (Base64.lt_of_mem_sextets hd) he
  · have heq := List.eq_of_mem_replicate h
    cases heq

theorem tryParse_iterations : tryParseInt32 (toString iterations).toList = some iterations := by decide +kernel

theorem splitOn_hash (salt derived : List UInt8) :
    (['.'].intercalate [marker, (toString iterations).toList, Base64.toBase64String salt, Base64.toBase64String derived]).splitOn '.' =
      [marker, (toString iterations).toList, Base64.toBase64String salt, Base64.toBase64String derived] := by
  refine List.splitOn_intercalate '.' (fun l hl => ?_) (List.cons_ne_nil _ _)
  simp only [List.mem_cons, List.not_mem_nil, or_false] at hl
  rcases hl with rfl | rfl | rfl | rfl
  · decide
  · decide +kernel
  · exact dot_not_mem_base64 salt
  · exact dot_not_mem_base64 derived

/-- A stored password accepts the passwords that derive the same key, and never throws. -/
theorem verify_hash {salt : List UInt8} {password stored : Text} (h : hash chars pbkdf2 salt password = .ok stored) (given : Text) :
    verify pbkdf2 given stored = .ok (decide (given ≠ [] ∧
      pbkdf2.derive given salt iterations hashBytes = pbkdf2.derive password salt iterations hashBytes)) := by
  unfold hash at h
  split at h
  · cases h
  · cases h
    unfold verify
    have hlength := pbkdf2.length_derive password salt iterations hashBytes
    have hderived : pbkdf2.derive password salt iterations hashBytes ≠ [] := by
      intro hnil
      rw [hnil] at hlength
      cases hlength
    by_cases hgiven : given = []
    · rw [if_pos (.inr hgiven)]
      simp [hgiven]
    · rw [if_neg (by simp [hgiven]), splitOn_hash]
      simp only [ne_eq, not_true_eq_false, if_false, tryParse_iterations, Base64.fromBase64String_toBase64String,
        hderived, hlength, hgiven, not_false_eq_true, true_and]
      rfl

end Hasher

end PasswordHasher

end DuckRun.Dashboard
