import Mathlib.Data.Nat.Digits.Lemmas
import Mathlib.Tactic.Common
/-!
# Positional numerals

Numerals as they are printed: most significant digit first, no leading zero, a
single digit for zero.  `numeralValue` reads any non-empty digit list back, so
reading a printed numeral gives the number (`numeralValue_numeral`).
-/

namespace GooseHttp.Lib

def numeral (base n : Nat) : List Nat :=
  if n = 0 then [0] else (Nat.digits base n).reverse

def numeralValue (base : Nat) (digits : List Nat) : Nat :=
  Nat.ofDigits base digits.reverse

@[simp] theorem numeralValue_numeral (base n : Nat) :
    numeralValue base (numeral base n) = n := by
  unfold numeral
  split
  · rename_i h
    simp [numeralValue, h]
  · rw [numeralValue, List.reverse_reverse, Nat.ofDigits_digits]

theorem numeral_ne_nil (base n : Nat) : numeral base n ≠ [] := by
  unfold numeral
  split
  · simp
  · rename_i h
    simpa [Nat.digits_eq_nil_iff_eq_zero] using h

theorem lt_of_mem_numeral {base n d : Nat} (hbase : 1 < base)
    (hd : d ∈ numeral base n) : d < base := by
  unfold numeral at hd
  split at hd
  · simp only [List.mem_singleton] at hd
    omega
  · exact Nat.digits_lt_base hbase (List.mem_reverse.mp hd)

end GooseHttp.Lib
