import MicroOS.Lib.BitStream

/-!
Checksums of a shift register.

* `step`: the register moves down one place, and the polynomial is added when a bit falls out;
  `step_xor` says that this is linear, `step_injective` that nothing is lost.
* `feed`: the register after a message; `feed_eq` says that a message that fits into the register
  may be added at once.
* `steps_table`: the bits that fall out in some steps may be looked up in a table.
* `feed_burst`: two messages that differ within the width of the register have different registers.
-/

namespace Crc

open BitStream Function

variable {w n k v : ℕ} {p c d : BitVec w} {l a b : List Bool}

/-- The register moves down one place, and `p` is added for the bit that falls out. -/
def step (p c : BitVec w) : BitVec w := c >>> 1 ^^^ if c.getLsbD 0 then p else 0

/-- The register after a message, whose bits are added at the low end. -/
def feed (p c : BitVec w) (l : List Bool) : BitVec w :=
  l.foldl (fun c b => step p (c ^^^ BitVec.ofNat w b.toNat)) c

lemma feed_append (p c : BitVec w) (l l' : List Bool) :
    feed p c (l ++ l') = feed p (feed p c l) l' := List.foldl_append

/-! ### Linearity -/

/-- **A step is linear.** -/
lemma step_xor (p c d : BitVec w) : step p (c ^^^ d) = step p c ^^^ step p d := by
  have hbit : (if (c.getLsbD 0 ^^ d.getLsbD 0) then p else 0)
      = (if c.getLsbD 0 then p else 0) ^^^ if d.getLsbD 0 then p else 0 := by
    cases c.getLsbD 0 <;> cases d.getLsbD 0 <;> simp
  rw [step, step, step, BitVec.getLsbD_xor, BitVec.ushiftRight_xor_distrib, hbit]
  ac_rfl

/-- Steps are linear. -/
lemma steps_xor (p c d : BitVec w) (n : ℕ) :
    (step p)^[n] (c ^^^ d) = (step p)^[n] c ^^^ (step p)^[n] d := by
  induction n generalizing c d with
  | zero => rfl
  | succ n ih => rw [iterate_succ_apply, iterate_succ_apply, iterate_succ_apply, step_xor, ih]

/-- An even number is halved. -/
lemma step_even (p : BitVec w) (h : 2 * v < 2 ^ w) :
    step p (BitVec.ofNat w (2 * v)) = BitVec.ofNat w v := by
  have hbit : (BitVec.ofNat w (2 * v)).getLsbD 0 = false := by
    rw [BitVec.getLsbD_ofNat, Nat.testBit_zero, Nat.mul_mod_right]
    simp
  have hhalf : BitVec.ofNat w (2 * v) >>> 1 = BitVec.ofNat w v := by
    apply BitVec.eq_of_toNat_eq
    rw [BitVec.toNat_ushiftRight, BitVec.toNat_ofNat, BitVec.toNat_ofNat, Nat.mod_eq_of_lt h,
      Nat.mod_eq_of_lt (by omega), Nat.shiftRight_one, Nat.mul_div_cancel_left _ Nat.two_pos]
  rw [step, hbit, hhalf]
  simp

/-- The bits above the ones that fall out move down. -/
lemma steps_mul (p : BitVec w) (h : 2 ^ n * v < 2 ^ w) :
    (step p)^[n] (BitVec.ofNat w (2 ^ n * v)) = BitVec.ofNat w v := by
  induction n with
  | zero => rw [Nat.pow_zero, Nat.one_mul]; rfl
  | succ n ih =>
    have hsplit : 2 ^ (n + 1) * v = 2 * (2 ^ n * v) := by ring
    rw [hsplit] at h ⊢
    rw [iterate_succ_apply, step_even p h, ih (by omega)]

/-- The sum of numbers that have no bit in common. -/
lemma ofNat_add_mul (h : v < 2 ^ n) (k : ℕ) :
    BitVec.ofNat w (v + 2 ^ n * k) = BitVec.ofNat w v ^^^ BitVec.ofNat w (2 ^ n * k) := by
  have hxor : v + 2 ^ n * k = v ^^^ 2 ^ n * k := by
    apply Nat.eq_of_testBit_eq
    intro i
    rw [Nat.testBit_xor, Nat.add_comm, Nat.testBit_two_pow_mul_add _ h, Nat.testBit_two_pow_mul]
    by_cases hi : i < n
    · simp [hi, Nat.not_le.mpr hi]
    · have hv : v.testBit i = false :=
        Nat.testBit_lt_two_pow (h.trans_le (Nat.pow_le_pow_right Nat.two_pos (Nat.not_lt.mp hi)))
      simp [hi, hv, Nat.not_lt.mp hi]
  rw [hxor, BitVec.ofNat_xor]

/-- **A table may be used**: after some steps, what the bits that have fallen out come to is added
to the others. -/
lemma steps_table (p c : BitVec w) (n : ℕ) :
    (step p)^[n] c = (step p)^[n] (BitVec.ofNat w (c.toNat % 2 ^ n)) ^^^ c >>> n := by
  have hmul : 2 ^ n * (c.toNat / 2 ^ n) < 2 ^ w := (Nat.mul_div_le _ _).trans_lt c.isLt
  have hhigh : BitVec.ofNat w (c.toNat / 2 ^ n) = c >>> n := by
    apply BitVec.eq_of_toNat_eq
    rw [BitVec.toNat_ofNat, BitVec.toNat_ushiftRight, Nat.shiftRight_eq_div_pow,
      Nat.mod_eq_of_lt ((Nat.div_le_self _ _).trans_lt c.isLt)]
  calc (step p)^[n] c
      = (step p)^[n] (BitVec.ofNat w (c.toNat % 2 ^ n + 2 ^ n * (c.toNat / 2 ^ n))) := by
        rw [Nat.mod_add_div, BitVec.ofNat_toNat, BitVec.setWidth_eq]
    _ = (step p)^[n] (BitVec.ofNat w (c.toNat % 2 ^ n))
        ^^^ (step p)^[n] (BitVec.ofNat w (2 ^ n * (c.toNat / 2 ^ n))) := by
        rw [ofNat_add_mul (Nat.mod_lt _ (Nat.two_pow_pos n)), steps_xor]
    _ = (step p)^[n] (BitVec.ofNat w (c.toNat % 2 ^ n)) ^^^ c >>> n := by
        rw [steps_mul p hmul, hhigh]

/-! ### Messages -/

/-- **A message that fits into the register may be added at once.** -/
lemma feed_eq (p c : BitVec w) (hlen : l.length ≤ w) :
    feed p c l = (step p)^[l.length] (c ^^^ BitVec.ofNat w (value l)) := by
  induction l generalizing c with
  | nil => exact (BitVec.xor_zero).symm
  | cons b l ih =>
    rw [List.length_cons] at hlen
    have hvalue : 2 * value l < 2 ^ w :=
      calc 2 * value l < 2 * 2 ^ l.length := Nat.mul_lt_mul_of_pos_left (value_lt l) Nat.two_pos
        _ = 2 ^ (l.length + 1) := (Nat.pow_succ').symm
        _ ≤ 2 ^ w := Nat.pow_le_pow_right Nat.two_pos hlen
    have hsplit : BitVec.ofNat w (value (b :: l))
        = BitVec.ofNat w b.toNat ^^^ BitVec.ofNat w (2 * value l) :=
      ofNat_add_mul (n := 1) (Bool.toNat_lt b) (value l)
    have hstep : step p (c ^^^ BitVec.ofNat w (value (b :: l)))
        = step p (c ^^^ BitVec.ofNat w b.toNat) ^^^ BitVec.ofNat w (value l) := by
      rw [hsplit, ← BitVec.xor_assoc, step_xor, step_even p hvalue]
    rw [List.length_cons, iterate_succ_apply, hstep]
    exact ih _ (by omega)

lemma feed_bits (p c : BitVec w) (hn : n ≤ w) (hv : v < 2 ^ n) :
    feed p c (bits n v) = (step p)^[n] (c ^^^ BitVec.ofNat w v) := by
  rw [feed_eq p c (by rwa [length_bits]), length_bits, value_bits, Nat.mod_eq_of_lt hv]

/-! ### Errors -/

/-- **Nothing is lost in a step**, where the polynomial has its highest bit. -/
lemma step_injective (hp : p.getLsbD (w - 1) = true) : Injective (step p) := by
  have hzero (c : BitVec w) (hc : step p c = 0) : c = 0 := by
    apply BitVec.eq_of_getLsbD_eq
    intro i hi
    rw [step] at hc
    have hbit : c.getLsbD 0 = false := by
      by_contra hne
      rw [if_pos (by simpa using hne)] at hc
      have htop := congrArg (BitVec.getLsbD · (w - 1)) hc
      simp only [BitVec.getLsbD_xor, BitVec.getLsbD_ushiftRight, hp] at htop
      rw [BitVec.getLsbD_of_ge c _ (by omega)] at htop
      simp at htop
    rw [hbit, if_neg (by simp)] at hc
    cases i with
    | zero => simpa using hbit
    | succ i =>
      have hmove := congrArg (BitVec.getLsbD · i) hc
      simpa [Nat.add_comm] using hmove
  intro c d h
  have hsum : step p (c ^^^ d) = 0 := by rw [step_xor, h, BitVec.xor_self]; rfl
  have hself : d ^^^ d = 0 := BitVec.xor_self
  have hxor := hzero _ hsum
  rwa [← hself, BitVec.xor_left_inj] at hxor

/-- Different registers stay different. -/
lemma feed_injective (hp : p.getLsbD (w - 1) = true) (l : List Bool) :
    Injective fun c => feed p c l := by
  induction l with
  | nil => exact injective_id
  | cons b l ih =>
    intro c d h
    exact BitVec.xor_left_inj _ |>.mp (step_injective hp (ih h))

/-- **Messages that differ within the width of the register only are told apart.** -/
lemma feed_burst (hp : p.getLsbD (w - 1) = true) (c : BitVec w) (hlen : a.length = b.length)
    (ha : a.length ≤ w) (hab : a ≠ b) (u x : List Bool) :
    feed p c (u ++ a ++ x) ≠ feed p c (u ++ b ++ x) := by
  intro h
  rw [feed_append, feed_append, feed_append, feed_append] at h
  have hb : b.length ≤ w := hlen ▸ ha
  have hburst := feed_injective hp x h
  rw [feed_eq p (feed p c u) ha, feed_eq p (feed p c u) hb, ← hlen] at hburst
  have hvalue := (BitVec.xor_right_inj _).mp ((step_injective hp).iterate _ hburst)
  have hroom : 2 ^ a.length ≤ 2 ^ w := Nat.pow_le_pow_right Nat.two_pos ha
  have hnat := congrArg BitVec.toNat hvalue
  rw [BitVec.toNat_ofNat, BitVec.toNat_ofNat, Nat.mod_eq_of_lt ((value_lt a).trans_le hroom),
    Nat.mod_eq_of_lt ((value_lt b).trans_le (hlen ▸ hroom))] at hnat
  refine hab ?_
  calc a = bits a.length (value a) := (bits_value a).symm
    _ = bits b.length (value b) := by rw [hnat, hlen]
    _ = b := bits_value b

end Crc
