import Mathlib.Tactic

/-!
Entries of 32-bit page tables: a page address in the upper twenty bits, flags in the lower
twelve. `base` masks the flags out; `base_or` and `or_and_flag` read an entry back that was
written as an address joined with flags.
-/

namespace PageEntry

/-- The address part, `e & ~0xFFF`. -/
def base (e : ℕ) : ℕ := e &&& 0xFFFFF000

lemma testBit_flag {g i : ℕ} (hg : g < 0x1000) (hi : 12 ≤ i) : g.testBit i = false :=
  Nat.testBit_lt_two_pow (lt_of_lt_of_le (show g < 2 ^ 12 from hg)
    (Nat.pow_le_pow_right (by norm_num) hi))

lemma base_lt (e : ℕ) : base e < 2 ^ 32 :=
  lt_of_le_of_lt Nat.and_le_right (by norm_num)

/-- It is the start of a page. -/
lemma dvd_base (e : ℕ) : 0x1000 ∣ base e := by
  refine Nat.dvd_of_mod_eq_zero ?_
  have h : (e &&& 0xFFFFF000) % 2 ^ 12 = (e % 2 ^ 12) &&& (0xFFFFF000 % 2 ^ 12) :=
    Nat.and_mod_two_pow
  simpa [base] using h

/-- An address has none of the flag bits. -/
lemma and_flag_of_dvd {p g : ℕ} (hp : 0x1000 ∣ p) (hg : g < 0x1000) : p &&& g = 0 := by
  obtain ⟨q, rfl⟩ := hp
  refine Nat.eq_of_testBit_eq fun i => ?_
  rw [Nat.testBit_and, show (0x1000 * q) = 2 ^ 12 * q from rfl, Nat.testBit_two_pow_mul,
    Nat.zero_testBit]
  by_cases hi : 12 ≤ i
  · simp [testBit_flag hg hi]
  · simp [hi]

/-- The flags of an entry written as an address joined with flags. -/
lemma or_and_flag {p f g : ℕ} (hp : 0x1000 ∣ p) (hg : g < 0x1000) :
    (p ||| f) &&& g = f &&& g := by
  rw [Nat.and_or_distrib_right, and_flag_of_dvd hp hg, Nat.zero_or]

/-- The address of an entry written as an address joined with flags. -/
lemma base_or {p f : ℕ} (hp : 0x1000 ∣ p) (hp' : p < 2 ^ 32) (hf : f < 0x1000) :
    base (p ||| f) = p := by
  have hmask : ∀ i, (0xFFFFF000 : ℕ).testBit i = (decide (12 ≤ i) && decide (i < 32)) := by
    intro i
    rw [show (0xFFFFF000 : ℕ) = 2 ^ 12 * (2 ^ 20 - 1) from rfl, Nat.testBit_two_pow_mul,
      Nat.testBit_two_pow_sub_one]
    by_cases h1 : 12 ≤ i
    · simp [h1, show i - 12 < 20 ↔ i < 32 by omega]
    · simp [h1]
  obtain ⟨q, rfl⟩ := hp
  refine Nat.eq_of_testBit_eq fun i => ?_
  rw [base, Nat.testBit_and, Nat.testBit_or, hmask]
  by_cases h1 : 12 ≤ i
  · have hfi := testBit_flag hf h1
    by_cases h2 : i < 32
    · simp [h1, h2, hfi]
    · have : (0x1000 * q).testBit i = false :=
        Nat.testBit_lt_two_pow (lt_of_lt_of_le hp' (Nat.pow_le_pow_right (by norm_num) (by omega)))
      simp [h2, this]
  · rw [show (0x1000 * q) = 2 ^ 12 * q from rfl, Nat.testBit_two_pow_mul]
    simp [h1]

end PageEntry
