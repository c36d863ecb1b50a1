import Mathlib.Data.Nat.ModEq
import Mathlib.Tactic

/-!
One's complement arithmetic on the numbers below a base `b`, where `b - 1` is a second zero.

* `add`, `sum`: addition with the end-around carry, and the sum of a list;
* `foldCarry`: the carries of a sum that was computed without them are added at the end;
* `eq_of_modEq`: a number below the base is known by its residue and by whether it is zero;
* `sum_eq_foldCarry`: both ways of adding agree;
* `foldCarry_add_complement`: a sum and the complement of its value are the second zero.
-/

namespace OnesComplement

variable {b x y : ℕ} {l : List ℕ}

/-- Addition with the end-around carry. -/
def add (b x y : ℕ) : ℕ := if x + y < b then x + y else x + y - (b - 1)

/-- The sum of a list. -/
def sum (b : ℕ) (l : List ℕ) : ℕ := l.foldl (add b) 0

/-- The other number with the same absolute value. -/
def complement (b x : ℕ) : ℕ := b - 1 - x

/-- A number without its carries is smaller. -/
lemma carry_lt (hb : 1 < b) (hx : b ≤ x) : x % b + x / b < x := by
  have hdiv : 0 < x / b := Nat.div_pos hx (by omega)
  have hmul : 2 * (x / b) ≤ b * (x / b) := Nat.mul_le_mul_right _ hb
  have hsplit := Nat.div_add_mod x b
  omega

/-- The carries are added until there are none. -/
def foldCarry (b x : ℕ) : ℕ :=
  if _ : 1 < b ∧ b ≤ x then foldCarry b (x % b + x / b) else x
termination_by x
decreasing_by exact carry_lt (by omega) (by omega)

/-! ### Residues -/

lemma base_modEq (hb : 1 < b) : b ≡ 1 [MOD b - 1] :=
  ((Nat.modEq_iff_dvd' hb.le).mpr dvd_rfl).symm

/-- Adding the carry keeps a number modulo the base less one. -/
lemma carry_modEq (hb : 1 < b) (x : ℕ) : x % b + x / b ≡ x [MOD b - 1] := by
  have hmul : 1 * (x / b) ≡ b * (x / b) [MOD b - 1] := (base_modEq hb).symm.mul_right _
  rw [one_mul] at hmul
  calc x % b + x / b ≡ x % b + b * (x / b) [MOD b - 1] := hmul.add_left _
    _ = x := Nat.mod_add_div x b

/-- **Uniqueness**: there are two zeros, and one number for each other residue. -/
lemma eq_of_modEq (hx : x < b) (hy : y < b) (hmod : x ≡ y [MOD b - 1]) (hzero : x = 0 ↔ y = 0) :
    x = y := by
  have hend : ∀ {u v : ℕ}, u < b → v < b → u ≡ v [MOD b - 1] → (u = 0 ↔ v = 0) → u = b - 1 →
      u = v := by
    rintro u v hu hv huv hz rfl
    have hdvd : b - 1 ∣ v := (huv.dvd_iff dvd_rfl).mp dvd_rfl
    by_cases hv0 : v = 0
    · exact (hz.mpr hv0).trans hv0.symm
    · have hle := Nat.le_of_dvd (Nat.pos_of_ne_zero hv0) hdvd
      omega
  by_cases hx1 : x = b - 1
  · exact hend hx hy hmod hzero hx1
  by_cases hy1 : y = b - 1
  · exact (hend hy hx hmod.symm hzero.symm hy1).symm
  · exact hmod.eq_of_lt_of_lt (by omega) (by omega)

lemma foldCarry_of_lt (h : x < b) : foldCarry b x = x := by
  rw [foldCarry, dif_neg (by omega)]

/-- A number with a carry is folded once more. -/
lemma foldCarry_of_le (hb : 1 < b) (h : b ≤ x) :
    foldCarry b x = foldCarry b (x % b + x / b) := by
  rw [foldCarry, dif_pos ⟨hb, h⟩]

/-- **What adding the carries keeps**: the residue, and whether the number is zero. -/
lemma foldCarry_spec (hb : 1 < b) (x : ℕ) :
    foldCarry b x < b ∧ foldCarry b x ≡ x [MOD b - 1] ∧ (foldCarry b x = 0 ↔ x = 0) := by
  induction x using Nat.strong_induction_on with
  | _ x ih =>
    by_cases hx : x < b
    · rw [foldCarry_of_lt hx]
      exact ⟨hx, .rfl, .rfl⟩
    · have hle := not_lt.mp hx
      obtain ⟨hlt, hmod, hzero⟩ := ih _ (carry_lt hb hle)
      have hdiv : 0 < x / b := Nat.div_pos hle (by omega)
      rw [foldCarry_of_le hb hle]
      refine ⟨hlt, hmod.trans (carry_modEq hb x), hzero.trans ?_⟩
      omega

/-! ### Sums -/

/-- What an addition keeps. -/
lemma add_spec (hx : x < b) (hy : y < b) :
    add b x y < b ∧ add b x y ≡ x + y [MOD b - 1] ∧ (add b x y = 0 ↔ x + y = 0) := by
  rw [add]
  split_ifs with h
  · exact ⟨h, .rfl, .rfl⟩
  · refine ⟨by omega, ?_, by omega⟩
    exact ((Nat.modEq_iff_dvd' (Nat.sub_le _ _)).mpr ⟨1, by omega⟩)

/-- **Both ways of adding agree.** -/
lemma sum_eq_foldCarry (hb : 1 < b) (hl : ∀ x ∈ l, x < b) : sum b l = foldCarry b l.sum := by
  have hfold : ∀ (l : List ℕ) (a : ℕ), a < b → (∀ x ∈ l, x < b) → l.foldl (add b) a < b ∧
      l.foldl (add b) a ≡ a + l.sum [MOD b - 1] ∧ (l.foldl (add b) a = 0 ↔ a + l.sum = 0) := by
    intro l
    induction l with
    | nil => exact fun a ha _ => ⟨ha, .rfl, .rfl⟩
    | cons y l ih =>
      intro a ha hl
      obtain ⟨hlt, hmod, hzero⟩ := add_spec ha (hl y List.mem_cons_self)
      obtain ⟨hlt', hmod', hzero'⟩ := ih _ hlt fun x hx => hl x (List.mem_cons_of_mem y hx)
      rw [List.foldl_cons, List.sum_cons, ← Nat.add_assoc]
      exact ⟨hlt', hmod'.trans (hmod.add_right _), hzero'.trans (by omega)⟩
  obtain ⟨hlt, hmod, hzero⟩ := hfold l 0 (by omega) hl
  obtain ⟨hlt', hmod', hzero'⟩ := foldCarry_spec hb l.sum
  rw [Nat.zero_add] at hmod hzero
  exact eq_of_modEq hlt hlt' (hmod.trans hmod'.symm) (hzero.trans hzero'.symm)

/-- **A sum and the complement of its value** are the second zero. -/
lemma foldCarry_add_complement (hb : 1 < b) (x : ℕ) :
    foldCarry b (x + complement b (foldCarry b x)) = b - 1 := by
  obtain ⟨hlt, hmod, hzero⟩ := foldCarry_spec hb x
  obtain ⟨hlt', hmod', hzero'⟩ := foldCarry_spec hb (x + complement b (foldCarry b x))
  refine eq_of_modEq hlt' (by omega) (hmod'.trans ?_) (hzero'.trans ?_)
  · calc x + complement b (foldCarry b x)
        ≡ foldCarry b x + complement b (foldCarry b x) [MOD b - 1] := (hmod.add_right _).symm
      _ = b - 1 := by rw [complement]; omega
  · rw [complement]
    omega

end OnesComplement
