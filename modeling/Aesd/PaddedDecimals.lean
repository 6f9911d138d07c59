import Mathlib.Algebra.GroupWithZero.Nat
import Mathlib.Tactic.Common

/-! Decimal digits with leading zeros up to a width. -/
namespace PaddedDecimals

def padded (width n : Nat) : List Char :=
  List.replicate (width - (Nat.toDigits 10 n).length) '0' ++ Nat.toDigits 10 n

variable {width m n : Nat}

theorem padded_digits (width n : Nat) : ∀ c ∈ padded width n, c.isDigit = true := by
  intro c member
  rcases List.mem_append.mp member with zero | digit
  · rw [List.eq_of_mem_replicate zero]
    decide
  · exact Nat.isDigit_of_mem_toDigits (by omega) (by omega) digit

theorem padded_length (positive : 0 < width) (fits : n < 10 ^ width) :
    (padded width n).length = width := by
  have digits := (Nat.length_toDigits_le_iff (b := 10) (by omega) positive).mpr fits
  simp only [padded, List.length_append, List.length_replicate]
  omega

theorem padded_value (width n : Nat) : Nat.ofDigitChars 10 (padded width n) 0 = n := by
  rw [padded, Nat.ofDigitChars_append, Nat.ofDigitChars_replicate_zero, Nat.mul_zero,
    Nat.ofDigitChars_ten_toDigits]

theorem padded_injective (same : padded width m = padded width n) : m = n := by
  have values := congrArg (fun text => Nat.ofDigitChars 10 text 0) same
  simpa only [padded_value] using values

end PaddedDecimals
