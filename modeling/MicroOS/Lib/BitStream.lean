import Mathlib.Tactic

/-!
Bit strings and the numbers they stand for.

* `bits`, `value`: the low bits of a number, least significant first, and the number that bits
  stand for; `bits_add` cuts a field in two, `bits_inj` reads it back.
* `msb`: the low bits of a number, most significant first; `msb_succ` adds a bit at the end.
* `stream`: bytes as bits, every byte from its least significant bit on.
-/

namespace BitStream

variable {n m v w : ℕ} {l l' : List Bool}

/-- The `n` lowest bits of `v`, the least significant one first. -/
def bits : ℕ → ℕ → List Bool
  | 0, _ => []
  | n + 1, v => decide (v % 2 = 1) :: bits n (v / 2)

/-- The number that bits stand for, the least significant one first. -/
def value : List Bool → ℕ
  | [] => 0
  | b :: l => b.toNat + 2 * value l

/-- A number is sent with as many bits as are asked for. -/
@[simp] lemma length_bits (n v : ℕ) : (bits n v).length = n := by
  induction n generalizing v with
  | zero => rfl
  | succ n ih => rw [bits, List.length_cons, ih]

lemma toNat_odd (v : ℕ) : (decide (v % 2 = 1)).toNat = v % 2 := by
  rcases Nat.mod_two_eq_zero_or_one v with h | h <;> simp [h]

/-- The bits stand for the number, as far as they go. -/
@[simp] lemma value_bits (n v : ℕ) : value (bits n v) = v % 2 ^ n := by
  induction n generalizing v with
  | zero => rw [bits, value, Nat.pow_zero, Nat.mod_one]
  | succ n ih =>
    rw [bits, value, ih, toNat_odd, Nat.pow_succ', Nat.mod_mul]

/-- Bits stand for a number below the power of their count. -/
lemma value_lt (l : List Bool) : value l < 2 ^ l.length := by
  induction l with
  | nil => exact Nat.one_pos
  | cons b l ih =>
    rw [value, List.length_cons, Nat.pow_succ]
    have hb : b.toNat ≤ 1 := Bool.toNat_le b
    omega

/-- Bits are those of the number that they stand for. -/
@[simp] lemma bits_value (l : List Bool) : bits l.length (value l) = l := by
  induction l with
  | nil => rfl
  | cons b l ih =>
    have hodd : (b.toNat + 2 * value l) % 2 = b.toNat := by cases b <;> simp [Nat.add_mod]
    have hhalf : (b.toNat + 2 * value l) / 2 = value l := by cases b <;> simp; omega
    rw [List.length_cons, value, bits, hodd, hhalf, ih]
    cases b <;> rfl

/-- A field of bits is read back as the number in it. -/
lemma bits_inj (hv : v < 2 ^ n) (hw : w < 2 ^ n) (h : bits n v = bits n w) : v = w := by
  have hvalue := congrArg value h
  rwa [value_bits, value_bits, Nat.mod_eq_of_lt hv, Nat.mod_eq_of_lt hw] at hvalue

/-- The bits of a number are those of its remainder. -/
lemma bits_add_mul (n v w : ℕ) : bits n (v + 2 ^ n * w) = bits n v := by
  induction n generalizing v with
  | zero => rfl
  | succ n ih =>
    have hsplit : v + 2 ^ (n + 1) * w = v + 2 * (2 ^ n * w) := by ring
    rw [hsplit, bits, bits, Nat.add_mul_mod_self_left, Nat.add_mul_div_left _ _ Nat.two_pos, ih]

/-- **A field is cut in two.** -/
lemma bits_add (n m v : ℕ) : bits (n + m) v = bits n v ++ bits m (v / 2 ^ n) := by
  induction n generalizing v with
  | zero => rw [Nat.zero_add, Nat.pow_zero, Nat.div_one]; rfl
  | succ n ih =>
    rw [Nat.add_right_comm, bits, ih, bits, List.cons_append, Nat.div_div_eq_div_mul,
      Nat.pow_succ']

/-- Two fields one behind the other. -/
lemma bits_append (hv : v < 2 ^ n) (m w : ℕ) :
    bits (n + m) (v + 2 ^ n * w) = bits n v ++ bits m w := by
  rw [bits_add, bits_add_mul, Nat.add_mul_div_left _ _ (Nat.two_pow_pos n), Nat.div_eq_of_lt hv,
    Nat.zero_add]

/-- Numbers that are sent one behind the other take as many bits each. -/
lemma length_flatMap_bits (n : ℕ) (x : List ℕ) : (x.flatMap (bits n)).length = n * x.length := by
  induction x with
  | nil => rfl
  | cons v x ih =>
    rw [List.flatMap_cons, List.length_append, length_bits, ih, List.length_cons]
    ring

/-- Fields of one width are read back. -/
lemma flatMap_bits_inj {x y : List ℕ} (hlen : x.length = y.length) (hx : ∀ v ∈ x, v < 2 ^ n)
    (hy : ∀ v ∈ y, v < 2 ^ n) (h : x.flatMap (bits n) = y.flatMap (bits n)) : x = y := by
  induction x generalizing y with
  | nil => exact (List.length_eq_zero_iff.mp hlen.symm).symm
  | cons v x ih =>
    cases y with
    | nil => exact absurd hlen (Nat.succ_ne_zero _)
    | cons w y =>
      obtain ⟨hv, hx⟩ := List.forall_mem_cons.mp hx
      obtain ⟨hw, hy⟩ := List.forall_mem_cons.mp hy
      rw [List.flatMap_cons, List.flatMap_cons] at h
      obtain ⟨hhead, htail⟩ := List.append_inj h (by rw [length_bits, length_bits])
      rw [bits_inj hv hw hhead, ih (Nat.succ.inj hlen) hx hy htail]

/-! ### The most significant bit first -/

/-- The `n` lowest bits of `v`, the most significant one first. -/
def msb : ℕ → ℕ → List Bool
  | 0, _ => []
  | n + 1, v => v.testBit n :: msb n v

/-- A code word has as many bits as are asked for. -/
@[simp] lemma length_msb (n v : ℕ) : (msb n v).length = n := by
  induction n with
  | zero => rfl
  | succ n ih => rw [msb, List.length_cons, ih]

/-- **One more bit at the end.** -/
lemma msb_succ (n v : ℕ) (b : Bool) : msb (n + 1) (2 * v + b.toNat) = msb n v ++ [b] := by
  induction n with
  | zero => cases b <;> simp [msb]
  | succ n ih =>
    have hbit : (2 * v + b.toNat).testBit (n + 1) = v.testBit n := by
      rw [Nat.testBit_succ]
      congr 1
      cases b <;> simp; omega
    rw [msb, ih, hbit, msb, List.cons_append]

lemma msb_succ_eq (n v : ℕ) : msb (n + 1) v = msb n (v / 2) ++ [decide (v % 2 = 1)] := by
  rw [← msb_succ, toNat_odd, Nat.div_add_mod]

/-- The first bits are those of a quotient. -/
lemma take_msb (hnm : n ≤ m) (v : ℕ) : (msb m v).take n = msb n (v / 2 ^ (m - n)) := by
  induction m generalizing v with
  | zero =>
    obtain rfl : n = 0 := by omega
    rfl
  | succ m ih =>
    rcases Nat.le_succ_iff_eq_or_le.mp hnm with rfl | hle
    · rw [Nat.sub_self, Nat.pow_zero, Nat.div_one]
      exact List.take_of_length_le (length_msb _ _).le
    · rw [msb_succ_eq, List.take_append_of_le_length (by rwa [length_msb]), ih hle,
        Nat.div_div_eq_div_mul, ← Nat.pow_succ', Nat.succ_sub hle]

/-- Code words of one length tell their numbers apart. -/
lemma msb_inj (hv : v < 2 ^ n) (hw : w < 2 ^ n) (h : msb n v = msb n w) : v = w := by
  induction n generalizing v w with
  | zero => simp only [Nat.pow_zero] at hv hw; omega
  | succ n ih =>
    rw [msb_succ_eq, msb_succ_eq] at h
    obtain ⟨hhigh, hlow⟩ := List.append_inj' h rfl
    rw [Nat.pow_succ] at hv hw
    have hhalf : v / 2 = w / 2 := ih (by omega) (by omega) hhigh
    have hodd := congrArg Bool.toNat (List.cons.inj hlow).1
    rw [toNat_odd, toNat_odd] at hodd
    omega

/-! ### Bytes -/

/-- Bytes as bits, every byte from its least significant bit on. -/
def stream (x : List UInt8) : List Bool := x.flatMap fun b => bits 8 b.toNat

@[simp] lemma stream_nil : stream [] = [] := rfl

@[simp] lemma stream_cons (b : UInt8) (x : List UInt8) :
    stream (b :: x) = bits 8 b.toNat ++ stream x := rfl

@[simp] lemma stream_append (x y : List UInt8) : stream (x ++ y) = stream x ++ stream y :=
  List.flatMap_append

/-- A byte has eight bits. -/
@[simp] lemma length_stream (x : List UInt8) : (stream x).length = 8 * x.length := by
  induction x with
  | nil => rfl
  | cons b x ih =>
    rw [stream_cons, List.length_append, length_bits, ih, List.length_cons]
    ring

/-- The bits tell the bytes apart. -/
lemma stream_inj {x y : List UInt8} (h : stream x = stream y) : x = y := by
  have hlen := congrArg List.length h
  rw [length_stream, length_stream] at hlen
  induction x generalizing y with
  | nil => exact (List.length_eq_zero_iff.mp (by rw [List.length_nil] at hlen; omega)).symm
  | cons b x ih =>
    cases y with
    | nil => rw [List.length_cons, List.length_nil] at hlen; omega
    | cons c y =>
      rw [stream_cons, stream_cons] at h
      obtain ⟨hhead, htail⟩ := List.append_inj h (by rw [length_bits, length_bits])
      have hbyte : b = c := UInt8.toNat_inj.mp (bits_inj b.toNat_lt c.toNat_lt hhead)
      rw [hbyte, ih htail (by simpa using hlen)]

/-- Bytes at the beginning of a stream of bytes. -/
lemma exists_of_stream_append {x y : List UInt8} (h : stream y = stream x ++ l) :
    ∃ z, y = x ++ z ∧ l = stream z := by
  induction x generalizing y with
  | nil => exact ⟨y, rfl, h.symm⟩
  | cons b x ih =>
    cases y with
    | nil => exact absurd (congrArg List.length h) (by simp; omega)
    | cons c y =>
      rw [stream_cons, stream_cons, List.append_assoc] at h
      obtain ⟨hhead, htail⟩ := List.append_inj h (by rw [length_bits, length_bits])
      obtain ⟨z, rfl, hz⟩ := ih htail
      obtain rfl := UInt8.toNat_inj.mp (bits_inj c.toNat_lt b.toNat_lt hhead)
      exact ⟨z, rfl, hz⟩

/-- A field of two bytes, the less significant one first. -/
lemma stream_pair (b c : UInt8) : stream [b, c] = bits 16 (b.toNat + 256 * c.toNat) := by
  rw [stream_cons, stream_cons, stream_nil, List.append_nil]
  exact (bits_append (n := 8) b.toNat_lt 8 c.toNat).symm

/-- The two bytes of a field. -/
lemma exists_pair (hv : v < 2 ^ 16) : ∃ b c : UInt8, v = b.toNat + 256 * c.toNat := by
  refine ⟨UInt8.ofNat (v % 256), UInt8.ofNat (v / 256), ?_⟩
  rw [UInt8.toNat_ofNat_of_lt' (Nat.mod_lt _ (by norm_num)),
    UInt8.toNat_ofNat_of_lt' (show v / 256 < 2 ^ 8 by omega), Nat.mod_add_div]

end BitStream
