import Mathlib
/-!
# Numbers of a fixed width

The last `n` digits of a number in a base, highest first, and the number read
back from them.
-/

namespace DuckRun.Lib

def lastDigits (base n x : Nat) : List Nat := (List.range n).map fun i => x / base ^ (n - 1 - i) % base

@[simp] theorem length_lastDigits (base n x : Nat) : (lastDigits base n x).length = n := by simp [lastDigits]

theorem lastDigits_succ (base n x : Nat) : lastDigits base (n + 1) x = lastDigits base n (x / base) ++ [x % base] := by
  unfold lastDigits
  rw [List.range_succ, List.map_append]
  congr 1
  · apply List.map_congr_left
    intro i hi
    have hlt : i < n := List.mem_range.1 hi
    have hexp : n + 1 - 1 - i = (n - 1 - i) + 1 := by omega
    rw [hexp, Nat.pow_succ', Nat.div_div_eq_div_mul]
  · simp

theorem lt_of_mem_lastDigits {base n x d : Nat} (hbase : 0 < base) (h : d ∈ lastDigits base n x) : d < base := by
  obtain ⟨i, -, rfl⟩ := List.mem_map.1 h
  exact Nat.mod_lt _ hbase

theorem foldl_lastDigits (base n x : Nat) : (lastDigits base n x).foldl (fun v d => v * base + d) 0 = x % base ^ n := by
  induction n generalizing x with
  | zero => simp [lastDigits, Nat.mod_one]
  | succ n ih =>
    rw [lastDigits_succ, List.foldl_append, ih, List.foldl_cons, List.foldl_nil, Nat.pow_succ', Nat.mod_mul]
    rw [Nat.mul_comm, Nat.add_comm]

end DuckRun.Lib
