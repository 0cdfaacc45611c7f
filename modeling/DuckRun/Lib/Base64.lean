import DuckRun.Lib.Digits
/-!
# Base64

Three bytes are four digits in base 64; a rest of one or two bytes is two or
three, filled up with zero bits, and padding in the text.
-/

namespace DuckRun.Lib.Base64

/-- The digits, highest first. -/
def sextets : List UInt8 → List Nat
  | a :: b :: c :: rest => lastDigits 64 4 (a.toNat * 65536 + b.toNat * 256 + c.toNat) ++ sextets rest
  | [a, b] => lastDigits 64 3 ((a.toNat * 256 + b.toNat) * 4)
  | [a] => lastDigits 64 2 (a.toNat * 16)
  | [] => []

/-- The bytes read back. -/
def bytes : List Nat → List UInt8
  | p :: q :: r :: s :: rest =>
    let n := [p, q, r, s].foldl (fun v d => v * 64 + d) 0
    .ofNat (n / 65536) :: .ofNat (n / 256 % 256) :: .ofNat (n % 256) :: bytes rest
  | [p, q, r] =>
    let n := [p, q, r].foldl (fun v d => v * 64 + d) 0 / 4
    [.ofNat (n / 256), .ofNat (n % 256)]
  | [p, q] => [.ofNat ([p, q].foldl (fun v d => v * 64 + d) 0 / 16)]
  | _ => []

def alphabet : List Char := "ABCDEFGHIJKLMNOPQRSTUVWXYZabcdefghijklmnopqrstuvwxyz0123456789+/".toList

def digit (d : Nat) : Char := alphabet.getD d 'A'

/-- `Convert.ToBase64String`. -/
def toBase64String (data : List UInt8) : List Char :=
  (sextets data).map digit ++ List.replicate ((3 - data.length % 3) % 3) '='

theorem lt_of_mem_sextets {data : List UInt8} {d : Nat} (h : d ∈ sextets data) : d < 64 := by
  fun_induction sextets data with
  | case1 a b c rest ih =>
    rcases List.mem_append.1 h with h | h
    · exact lt_of_mem_lastDigits (by decide) h
    · exact ih h
  | case2 a b => exact lt_of_mem_lastDigits (by decide) h
  | case3 a => exact lt_of_mem_lastDigits (by decide) h
  | case4 => cases h

theorem ofNat_eq {a : UInt8} {n : Nat} (h : n = a.toNat) : UInt8.ofNat n = a := by
  rw [h]
  exact UInt8.ofNat_toNat

theorem foldl_digits {base n x : Nat} (h : x < base ^ n) :
    (lastDigits base n x).foldl (fun v d => v * base + d) 0 = x := by
  rw [foldl_lastDigits, Nat.mod_eq_of_lt h]

/-- Nothing is lost. -/
theorem bytes_sextets (data : List UInt8) : bytes (sextets data) = data := by
  fun_induction sextets data with
  | case1 a b c rest ih =>
    have ha := a.toNat_lt
    have hb := b.toNat_lt
    have hc := c.toNat_lt
    have hn := @foldl_digits 64 4 (a.toNat * 65536 + b.toNat * 256 + c.toNat) (by omega)
    have hfour : lastDigits 64 4 (a.toNat * 65536 + b.toNat * 256 + c.toNat) =
        [_, _, _, _] := rfl
    rw [hfour] at hn ⊢
    simp only [List.cons_append, List.nil_append, bytes, ih, hn]
    rw [ofNat_eq (a := a) (by omega), ofNat_eq (a := b) (by omega), ofNat_eq (a := c) (by omega)]
  | case2 a b =>
    have ha := a.toNat_lt
    have hb := b.toNat_lt
    have hn := @foldl_digits 64 3 ((a.toNat * 256 + b.toNat) * 4) (by omega)
    have hthree : lastDigits 64 3 ((a.toNat * 256 + b.toNat) * 4) = [_, _, _] := rfl
    rw [hthree] at hn ⊢
    simp only [bytes, hn]
    rw [ofNat_eq (a := a) (by omega), ofNat_eq (a := b) (by omega)]
  | case3 a =>
    have ha := a.toNat_lt
    have hn := @foldl_digits 64 2 (a.toNat * 16) (by omega)
    have htwo : lastDigits 64 2 (a.toNat * 16) = [_, _] := rfl
    rw [htwo] at hn ⊢
    simp only [bytes, hn]
    rw [ofNat_eq (a := a) (by omega)]
  | case4 => rfl

theorem digit_ne_padding : ∀ d < 64, digit d ≠ '=' := by decide +kernel

end DuckRun.Lib.Base64
