import Mathlib.Tactic

/-!
Sums of numbers, and sums of those sums.

* `sums`: both sums, from given ones on; `sums_append` puts messages together.
* `sums_mod`: only the remainders of the sums matter for their remainders.
* `sums_le`: how much the sums grow when no number is above a bound.
* `sums_fst`, `sums_snd`: the sums as sums.
-/

namespace Fletcher

variable {s : ℕ × ℕ} {l l' : List ℕ} {k m : ℕ}

/-- The sum of the numbers, and the sum of all sums on the way. -/
def sums : ℕ × ℕ → List ℕ → ℕ × ℕ
  | s, [] => s
  | s, x :: l => sums (s.1 + x, s.2 + (s.1 + x)) l

/-- The sums go on behind a part of the data. -/
lemma sums_append (s : ℕ × ℕ) (l l' : List ℕ) : sums s (l ++ l') = sums (sums s l) l' := by
  induction l generalizing s with
  | nil => rfl
  | cons x l ih => exact ih _

/-- The first sum. -/
lemma sums_fst (s : ℕ × ℕ) (l : List ℕ) : (sums s l).1 = s.1 + l.sum := by
  induction l generalizing s with
  | nil => rfl
  | cons x l ih => rw [sums, ih, List.sum_cons, Nat.add_assoc]

/-- The second sum, to which a number adds as often as there are numbers from it on. -/
lemma sums_snd (s : ℕ × ℕ) (l : List ℕ) :
    (sums s l).2 = s.2 + l.length * s.1
      + ∑ i ∈ Finset.range l.length, (l.length - i) * l.getD i 0 := by
  induction l generalizing s with
  | nil => simp [sums]
  | cons x l ih =>
    rw [sums, ih, List.length_cons, Finset.sum_range_succ']
    simp only [Nat.add_sub_add_right, List.getD_cons_succ, List.getD_cons_zero, Nat.sub_zero]
    ring

/-- The remainders of both sums. -/
def rem (m : ℕ) (s : ℕ × ℕ) : ℕ × ℕ := (s.1 % m, s.2 % m)

/-- **Remainders may be taken on the way.** -/
lemma sums_mod (m : ℕ) (s : ℕ × ℕ) (l : List ℕ) : rem m (sums (rem m s) l) = rem m (sums s l) := by
  suffices h : ∀ t : ℕ × ℕ, rem m t = rem m s → rem m (sums t l) = rem m (sums s l) from
    h _ (Prod.ext (Nat.mod_mod _ _) (Nat.mod_mod _ _))
  induction l generalizing s with
  | nil => exact fun t h => h
  | cons x l ih =>
    intro t h
    have hfst : t.1 ≡ s.1 [MOD m] := congrArg Prod.fst h
    have hsnd : t.2 ≡ s.2 [MOD m] := congrArg Prod.snd h
    have hx := hfst.add_right x
    exact ih _ _ (Prod.ext hx (hsnd.add hx))

/-- The sums only grow. -/
lemma le_sums (s : ℕ × ℕ) (l : List ℕ) : s.1 ≤ (sums s l).1 ∧ s.2 ≤ (sums s l).2 := by
  induction l generalizing s with
  | nil => exact ⟨le_rfl, le_rfl⟩
  | cons x l ih =>
    obtain ⟨h₁, h₂⟩ := ih (s.1 + x, s.2 + (s.1 + x))
    rw [sums]
    dsimp only at h₁ h₂
    omega

/-- **The growth of the sums.** -/
lemma sums_le (hl : ∀ x ∈ l, x ≤ k) :
    (sums s l).1 ≤ s.1 + k * l.length
      ∧ 2 * (sums s l).2 ≤ 2 * (s.2 + s.1 * l.length) + k * (l.length * (l.length + 1)) := by
  induction l generalizing s with
  | nil => simp [sums]
  | cons x l ih =>
    obtain ⟨hx, hl⟩ := List.forall_mem_cons.mp hl
    obtain ⟨h₁, h₂⟩ := @ih (s.1 + x, s.2 + (s.1 + x)) hl
    rw [sums, List.length_cons]
    dsimp only at h₁ h₂
    have hmul : x * (l.length + 1) ≤ k * (l.length + 1) := Nat.mul_le_mul_right _ hx
    constructor
    · calc _ ≤ s.1 + x + k * l.length := h₁
        _ ≤ s.1 + k * (l.length + 1) := by rw [Nat.mul_succ]; omega
    · calc _ ≤ 2 * (s.2 + (s.1 + x) + (s.1 + x) * l.length)
            + k * (l.length * (l.length + 1)) := h₂
        _ = 2 * (s.2 + s.1 * (l.length + 1)) + 2 * (x * (l.length + 1))
            + k * (l.length * (l.length + 1)) := by ring
        _ ≤ 2 * (s.2 + s.1 * (l.length + 1)) + 2 * (k * (l.length + 1))
            + k * (l.length * (l.length + 1)) := by omega
        _ = 2 * (s.2 + s.1 * (l.length + 1)) + k * ((l.length + 1) * (l.length + 1 + 1)) := by
          ring

end Fletcher
