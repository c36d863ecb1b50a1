import Mathlib.Tactic

/-!
Hexadecimal text.

* `Digit`: a character is a digit, in either case;
* `Spells`: a text has two digits for each byte; `text` is the lower-case one, by `spells_text`;
* `Numeral`: a text is a number of 32 bits, with a sign and a prefix or without.
-/

namespace Hex

/-- The digits, as `text` writes them. -/
def lower : List UInt8 := "0123456789abcdef".toList.map Char.toUInt8

/-- The digits with capital letters. -/
def upper : List UInt8 := "0123456789ABCDEF".toList.map Char.toUInt8

/-- A digit of the value `k`. -/
def Digit (c : UInt8) (k : ℕ) : Prop := lower[k]? = some c ∨ upper[k]? = some c

instance (c : UInt8) (k : ℕ) : Decidable (Digit c k) := inferInstanceAs (Decidable (_ ∨ _))

/-- A text of two digits for each byte. -/
inductive Spells : List UInt8 → List UInt8 → Prop where
  | nil : Spells [] []
  | cons {c c' b : UInt8} {h d : List UInt8} : Digit c (b.toNat / 16) → Digit c' (b.toNat % 16) →
      Spells h d → Spells (c :: c' :: h) (b :: d)

/-- The text of bytes in lower case. -/
def text (d : List UInt8) : List UInt8 :=
  d.flatMap fun b => [lower.getD (b.toNat / 16) 0, lower.getD (b.toNat % 16) 0]

/-- The value of digits. -/
def value (ks : List ℕ) : ℕ := ks.foldl (fun v k => v * 16 + k) 0

/-- A number of 32 bits, with a sign and a prefix or without. -/
def Numeral (s : List UInt8) (v : UInt32) : Prop :=
  ∃ sign pre digits ks, s = sign ++ (pre ++ digits) ∧
    (sign = [] ∨ sign = ['+'.toUInt8] ∨ sign = ['-'.toUInt8]) ∧
    (pre = [] ∨ pre = ['0'.toUInt8, 'x'.toUInt8] ∨ pre = ['0'.toUInt8, 'X'.toUInt8]) ∧
    digits ≠ [] ∧ List.Forall₂ Digit digits ks ∧
    v = if sign = ['-'.toUInt8] then -UInt32.ofNat (value ks) else UInt32.ofNat (value ks)

variable {c : UInt8} {k : ℕ} {h d : List UInt8} {s : List UInt8} {v : UInt32}

lemma Digit.lt (hc : Digit c k) : k < 16 := by
  rcases hc with hc | hc <;> exact (List.getElem?_eq_some_iff.mp hc).1

/-- The lower case digits are digits. -/
lemma digit_lower (hk : k < 16) : Digit (lower.getD k 0) k := by
  refine .inl ?_
  rw [List.getD_eq_getElem?_getD, List.getElem?_eq_getElem (show k < lower.length from hk),
    Option.getD_some]

/-- The text of bytes spells them. -/
lemma spells_text (d : List UInt8) : Spells (text d) d := by
  induction d with
  | nil => exact .nil
  | cons b d ih =>
    have hb := b.toNat_lt
    exact .cons (digit_lower (by omega)) (digit_lower (by omega)) ih

/-- A byte is spelled with two digits. -/
lemma Spells.length_eq (hs : Spells h d) : h.length = 2 * d.length := by
  induction hs with
  | nil => rfl
  | cons _ _ _ ih =>
    rw [List.length_cons, List.length_cons, List.length_cons, ih]
    ring

@[simp] lemma length_text (d : List UInt8) : (text d).length = 2 * d.length :=
  (spells_text d).length_eq

/-- What holds of every digit holds of every character of a text. -/
lemma Spells.forall_mem (hs : Spells h d) {P : UInt8 → Prop} (hP : ∀ c k, Digit c k → P c) :
    ∀ c ∈ h, P c := by
  induction hs with
  | nil => exact fun _ hc => absurd hc List.not_mem_nil
  | cons h1 h2 _ ih =>
    exact List.forall_mem_cons.mpr ⟨hP _ _ h1, List.forall_mem_cons.mpr ⟨hP _ _ h2, ih⟩⟩

/-- What holds of signs, of prefixes and of every digit holds of every character of a number. -/
lemma Numeral.forall_mem (hs : Numeral s v) {P : UInt8 → Prop} (hP : ∀ c k, Digit c k → P c)
    (hsigns : P '+'.toUInt8 ∧ P '-'.toUInt8 ∧ P 'x'.toUInt8 ∧ P 'X'.toUInt8) : ∀ c ∈ s, P c := by
  obtain ⟨sign, pre, digits, ks, rfl, hsign, hpre, -, hdigits, -⟩ := hs
  have hzero : P '0'.toUInt8 := hP _ 0 (.inl rfl)
  intro c hc
  rcases List.mem_append.mp hc with hc | hc
  · rcases hsign with rfl | rfl | rfl
    · exact absurd hc List.not_mem_nil
    · rw [List.mem_singleton.mp hc]
      exact hsigns.1
    · rw [List.mem_singleton.mp hc]
      exact hsigns.2.1
  · rcases List.mem_append.mp hc with hc | hc
    · rcases hpre with rfl | rfl | rfl
      · exact absurd hc List.not_mem_nil
      · rcases List.mem_pair.mp hc with rfl | rfl
        · exact hzero
        · exact hsigns.2.2.1
      · rcases List.mem_pair.mp hc with rfl | rfl
        · exact hzero
        · exact hsigns.2.2.2
    · obtain ⟨i, hi, rfl⟩ := List.mem_iff_getElem.mp hc
      exact hP _ _ (hdigits.get hi (hdigits.length_eq ▸ hi))

lemma Numeral.ne_nil (hs : Numeral s v) : s ≠ [] := by
  obtain ⟨sign, pre, digits, ks, rfl, -, -, hne, -⟩ := hs
  exact fun h => hne (List.append_eq_nil_iff.mp (List.append_eq_nil_iff.mp h).2).2

end Hex
