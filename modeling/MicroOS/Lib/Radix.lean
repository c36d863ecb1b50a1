import Mathlib.Data.Nat.Digits.Lemmas
import MicroOS.Lib.ByteMem

/-!
Numbers in positional notation, with the most significant digit first.

* `numeral`: the digits of a number, at least one; `numeral_step` is the recursion that printing
  follows.
* `value`: the number that digits stand for; `value_numeral`, and `int_foldl` for sums that are kept
  in 32 bits.
-/

namespace Radix

open CInt

variable {b n k : ℕ}

/-- The digits of a number in the base `b`. -/
def numeral (b n : ℕ) : List ℕ := if n = 0 then [0] else (Nat.digits b n).reverse

/-- The number that digits stand for. -/
def value (b : ℕ) (ds : List ℕ) : ℕ := ds.foldl (fun v d => v * b + d) 0

/-- **Printing**: the last digit, behind those of the quotient. -/
lemma numeral_step (hb : 1 < b) (n : ℕ) :
    numeral b n = if n / b = 0 then [n % b] else numeral b (n / b) ++ [n % b] := by
  by_cases hn : n = 0
  · simp [numeral, hn]
  · rw [numeral, if_neg hn, Nat.digits_def' hb (Nat.pos_of_ne_zero hn), List.reverse_cons]
    by_cases hq : n / b = 0
    · rw [if_pos hq, hq, Nat.digits_zero]
      rfl
    · rw [if_neg hq, numeral, if_neg hq]

/-- The value of the digits, least significant first. -/
lemma value_reverse (b : ℕ) (ds : List ℕ) : value b ds.reverse = Nat.ofDigits b ds := by
  rw [value, List.foldl_reverse, Nat.ofDigits_eq_foldr]
  congr 1
  funext d v
  simp only [Nat.cast_id]
  ring

/-- A numeral stands for its number. -/
lemma value_numeral (b n : ℕ) : value b (numeral b n) = n := by
  by_cases hn : n = 0
  · simp [numeral, value, hn]
  · rw [numeral, if_neg hn, value_reverse, Nat.ofDigits_digits]

/-- A numeral has a digit. -/
lemma numeral_ne_nil (b n : ℕ) : numeral b n ≠ [] := by
  by_cases hn : n = 0
  · simp [numeral, hn]
  · rw [numeral, if_neg hn, ne_eq, List.reverse_eq_nil_iff]
    exact Nat.digits_ne_nil_iff_ne_zero.mpr hn

/-- Its digits are below the base. -/
lemma numeral_lt {d : ℕ} (hb : 1 < b) (hd : d ∈ numeral b n) : d < b := by
  by_cases hn : n = 0
  · have hzero : d = 0 := by simpa [numeral, hn] using hd
    omega
  · rw [numeral, if_neg hn, List.mem_reverse] at hd
    exact Nat.digits_lt_base hb hd

/-- A number below a power of the base has no more digits than that power. -/
lemma length_numeral_le (hb : 1 < b) (hk : 0 < k) (hn : n < b ^ k) :
    (numeral b n).length ≤ k := by
  by_cases h0 : n = 0
  · rw [numeral, if_pos h0, List.length_singleton]
    exact hk
  · rw [numeral, if_neg h0, List.length_reverse]
    exact (Nat.digits_length_le_iff hb n).mpr hn

/-- A value that is summed up in 32 bits. -/
lemma int_foldl (b : ℕ) (ds : List ℕ) (v : ℕ) :
    ds.foldl (fun (r : ℤ) (d : ℕ) => int (r * b + d)) (int v)
      = int (ds.foldl (fun v d => v * b + d) v : ℕ) := by
  induction ds generalizing v with
  | nil => rw [List.foldl_nil, List.foldl_nil]
  | cons d ds ih =>
    have hstep : int (int v * b + d) = int (v * b + d : ℕ) := by
      push_cast
      exact Int.add_bmod_eq_add_bmod_right _ Int.bmod_mul_bmod
    rw [List.foldl_cons, List.foldl_cons, hstep]
    exact ih (v * b + d)

end Radix
