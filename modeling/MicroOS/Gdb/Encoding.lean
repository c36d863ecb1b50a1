import MicroOS.Lib.ByteImage
import MicroOS.Lib.Hex

/-!
Numbers and bytes in packets: `gdb/utils.c` and `gdb/encoding.c`.

* `gdbStrtol`: the number at the start of a string; `gdbStrtol_numeral`;
* `gdbEncHex`, `gdbDecHex`: bytes as digits, in lower case, and back; `gdbEncHex_eq`,
  `gdbDecHex_spells`;
* `gdbDecBin`: bytes with escapes.

A string is what stands from a pointer on. The `int` of `gdb_strtol` wraps around.
-/

namespace MicroOS

open ByteImage Hex

/-! ### Numbers -/

/-- `gdb_get_val`, none for `GDB_EOF`. -/
def gdbGetVal (digit : UInt8) (base : ℕ) : Option ℕ :=
  let value :=
    if '0'.toUInt8 ≤ digit ∧ digit ≤ '9'.toUInt8 then some (digit.toNat - '0'.toNat)
    else if 'a'.toUInt8 ≤ digit ∧ digit ≤ 'f'.toUInt8 then some (digit.toNat - 'a'.toNat + 0xa)
    else if 'A'.toUInt8 ≤ digit ∧ digit ≤ 'F'.toUInt8 then some (digit.toNat - 'A'.toNat + 0xa)
    else none
  value.filter (· < base)

/-- The loop of `gdb_strtol` over at most `n` characters from `pos` on: the value, whether there was
a digit, and where it ends. -/
def strtolLoop (str : ℕ → UInt8) (base : ℕ) : ℕ → ℕ → UInt32 → Bool → UInt32 × Bool × ℕ
  | 0, pos, value, valid => (value, valid, pos)
  | n + 1, pos, value, valid =>
    if str pos = 0 then (value, valid, pos)
    else
      match gdbGetVal (str pos) base with
      | none => (value, valid, pos)
      | some tmp =>
        strtolLoop str base n (pos + 1) (value * UInt32.ofNat base + UInt32.ofNat tmp) true

/-- `gdb_strtol` behind the sign. -/
def strtolUnsigned (str : ℕ → UInt8) (len base pos : ℕ) (sign : UInt32) : UInt32 × Option ℕ :=
  let (base, pos) :=
    if pos + 2 < len ∧ str pos = '0'.toUInt8 ∧
        (str (pos + 1) = 'x'.toUInt8 ∨ str (pos + 1) = 'X'.toUInt8) then (16, pos + 2)
    else (base, pos)
  let base := if base = 0 then 10 else base
  let (value, valid, pos) := strtolLoop str base (len - pos) pos 0 false
  if valid then (value * sign, some pos) else (0, none)

/-- `gdb_strtol`: the value, and where the number ends, if it is one. -/
def gdbStrtol (str : ℕ → UInt8) (len base : ℕ) : UInt32 × Option ℕ :=
  if len < 1 then (0, none)
  else if str 0 = '-'.toUInt8 then strtolUnsigned str len base 1 (-1)
  else if str 0 = '+'.toUInt8 then strtolUnsigned str len base 1 1
  else strtolUnsigned str len base 0 1

/-! ### Bytes -/

/-- `gdb_get_digit`. -/
def gdbGetDigit (val : ℕ) : UInt8 := if val ≤ 0xf then lower.getD val 0 else 0xff

/-- `gdb_enc_hex` into a buffer of `bufLen` bytes, none for `GDB_EOF`. -/
def gdbEncHex (bufLen : ℕ) (data : List UInt8) : Option (List UInt8) :=
  if bufLen < data.length * 2 then none
  else some (data.flatMap fun c : UInt8 =>
    [gdbGetDigit ((c >>> 4) &&& 0xf).toNat, gdbGetDigit (c &&& 0xf).toNat])

/-- How decoding ends: with `GDB_EOF`, at an assertion, or with bytes. -/
inductive GdbDecoded where
  | eof
  | asserted
  | bytes (data : List UInt8)
  deriving DecidableEq

/-- A function that decodes `bufLen` characters into an array of `dataLen` bytes. -/
abbrev GdbDec := (ℕ → UInt8) → ℤ → ℕ → GdbDecoded

/-- The loop of `gdb_dec_hex`, none at its assertion. -/
def decHexLoop : List UInt8 → Option (List UInt8)
  | c :: c' :: buf => do
      let tmp ← gdbGetVal c 16
      let tmp' ← gdbGetVal c' 16
      let data ← decHexLoop buf
      return ((UInt8.ofNat tmp <<< 4) ||| UInt8.ofNat tmp') :: data
  | _ => some []

/-- `gdb_dec_hex`. -/
def gdbDecHex : GdbDec := fun buf bufLen dataLen =>
  if bufLen ≠ dataLen * 2 then .eof
  else
    match decHexLoop ((List.range (dataLen * 2)).map buf) with
    | none => .asserted
    | some data => .bytes data

/-- The loop of `gdb_dec_bin` with `room` bytes left in the array, none at an assertion. -/
def decBinLoop : List UInt8 → ℕ → Option (List UInt8)
  | [], _ => some []
  | _ :: _, 0 => none
  | [c], _ + 1 => if c = 0x7d then none else some [c]
  | c :: c' :: buf, room + 1 =>
    if c = 0x7d then (decBinLoop buf room).map ((c' ^^^ 0x20) :: ·)
    else (decBinLoop (c' :: buf) room).map (c :: ·)

/-- `gdb_dec_bin`. -/
def gdbDecBin : GdbDec := fun buf bufLen dataLen =>
  match decBinLoop ((List.range bufLen.toNat).map buf) dataLen with
  | none => .asserted
  | some data => .bytes data

/-! ### Digits -/

/-- `gdb_get_val` knows the digits. -/
lemma gdbGetVal_digit {c : UInt8} {k : ℕ} (h : Digit c k) : gdbGetVal c 16 = some k := by
  have hall : ∀ k < 16, ∀ c : Fin 256, Digit (UInt8.ofNat c) k →
      gdbGetVal (UInt8.ofNat c) 16 = some k := by
    decide +kernel
  have hc := hall k h.lt c.toFin
  rw [show UInt8.ofNat (c.toFin : ℕ) = c from UInt8.ofNat_toNat] at hc
  exact hc h

/-- No digit is a sign or ends a string. -/
lemma digit_ne {c : UInt8} {k : ℕ} (h : Digit c k) : c ≠ '-'.toUInt8 ∧ c ≠ '+'.toUInt8 ∧
    c ≠ 'x'.toUInt8 ∧ c ≠ 'X'.toUInt8 ∧ c ≠ 0 := by
  have hval := gdbGetVal_digit h
  have hnone : ∀ c, gdbGetVal c 16 = none → gdbGetVal c 16 ≠ some k := fun c hc => by
    rw [hc]
    exact nofun
  refine ⟨?_, ?_, ?_, ?_, ?_⟩ <;> (rintro rfl; exact hnone _ rfl hval)

lemma gdbGetDigit_of_lt {val : ℕ} (h : val < 16) : gdbGetDigit val = lower.getD val 0 :=
  if_pos (Nat.le_of_lt_succ h)

/-- The upper half of a byte. -/
lemma toNat_high (c : UInt8) : ((c >>> 4) &&& 0xf).toNat = c.toNat / 16 := by
  have hall : ∀ c : Fin 256, ((UInt8.ofNat c >>> 4) &&& 0xf).toNat = (c : ℕ) / 16 := by
    decide +kernel
  have hc := hall c.toFin
  rwa [show UInt8.ofNat (c.toFin : ℕ) = c from UInt8.ofNat_toNat] at hc

lemma toNat_low (c : UInt8) : (c &&& 0xf).toNat = c.toNat % 16 := by
  rw [UInt8.toNat_and]
  exact Nat.and_two_pow_sub_one_eq_mod c.toNat 4

/-- The digits that `gdb_enc_hex` writes. -/
lemma gdbEncHex_eq {bufLen : ℕ} {data : List UInt8} (h : data.length * 2 ≤ bufLen) :
    gdbEncHex bufLen data = some (text data) := by
  rw [gdbEncHex, if_neg (not_lt.mpr h), text]
  refine congrArg some (congrArg (fun f => data.flatMap f) (funext fun c => ?_))
  have hc := c.toNat_lt
  rw [toNat_high, toNat_low, gdbGetDigit_of_lt (by omega), gdbGetDigit_of_lt (by omega)]

/-- Two halves make a byte. -/
lemma halves (b : UInt8) :
    (UInt8.ofNat (b.toNat / 16) <<< 4) ||| UInt8.ofNat (b.toNat % 16) = b := by
  have hall : ∀ b : Fin 256, (UInt8.ofNat ((b : ℕ) / 16) <<< 4) ||| UInt8.ofNat ((b : ℕ) % 16) =
      UInt8.ofNat b := by
    decide +kernel
  have hb := hall b.toFin
  rwa [show UInt8.ofNat (b.toFin : ℕ) = b from UInt8.ofNat_toNat] at hb

/-- Digits that spell bytes are decoded to them. -/
lemma decHexLoop_spells {h d : List UInt8} (hs : Spells h d) : decHexLoop h = some d := by
  induction hs with
  | nil => rfl
  | cons h1 h2 _ ih =>
    rw [decHexLoop, gdbGetVal_digit h1, gdbGetVal_digit h2, ih]
    exact congrArg some (congrArg (· :: _) (halves _))

/-- **`gdb_dec_hex` reads back** what spells bytes. -/
lemma gdbDecHex_spells {buf : ℕ → UInt8} {bufLen : ℤ} {h d : List UInt8} (hs : Spells h d)
    (hbuf : Holds buf 0 h) (hlen : bufLen = h.length) :
    gdbDecHex buf bufLen d.length = .bytes d := by
  have heq : h.length = d.length * 2 := hs.length_eq.trans (Nat.mul_comm 2 d.length)
  rw [gdbDecHex, if_neg (not_not.mpr (by rw [hlen, heq]; push_cast; rfl)), ← heq, hbuf.map_range,
    decHexLoop_spells hs]

/-! ### Numerals -/

/-- A character that ends a number. -/
def EndsNumber (c : UInt8) : Prop := gdbGetVal c 16 = none ∧ c ≠ 'x'.toUInt8 ∧ c ≠ 'X'.toUInt8

instance (c : UInt8) : Decidable (EndsNumber c) := inferInstanceAs (Decidable (_ ∧ _))

/-- The loop runs over the digits. -/
lemma strtolLoop_digits {str : ℕ → UInt8} {digits : List UInt8} {ks : List ℕ} {n pos : ℕ}
    {v : ℕ} (valid : Bool) (hdigits : List.Forall₂ Digit digits ks) (hstr : Holds str pos digits)
    (hn : digits.length ≤ n)
    (hend : digits.length < n → gdbGetVal (str (pos + digits.length)) 16 = none) :
    strtolLoop str 16 n pos (UInt32.ofNat v) valid =
      (UInt32.ofNat (ks.foldl (fun v k => v * 16 + k) v), valid || !digits.isEmpty,
        pos + digits.length) := by
  induction hdigits generalizing n pos v valid with
  | nil =>
    rw [List.foldl_nil, List.isEmpty_nil, Bool.not_true, Bool.or_false]
    cases n with
    | zero => rfl
    | succ n =>
      have hval := hend (Nat.succ_pos n)
      rw [List.length_nil, Nat.add_zero] at hval
      rw [strtolLoop, hval]
      split_ifs <;> rfl
  | @cons c k digits ks hc _ ih =>
    obtain ⟨hchar, hstr⟩ := holds_cons.mp hstr
    rw [List.length_cons] at hn hend
    obtain ⟨m, rfl⟩ : ∃ m, n = m + 1 := ⟨n - 1, by omega⟩
    rw [strtolLoop, hchar, if_neg (digit_ne hc).2.2.2.2, gdbGetVal_digit hc]
    have hvalue : UInt32.ofNat v * UInt32.ofNat 16 + UInt32.ofNat k =
        UInt32.ofNat (v * 16 + k) := by
      rw [UInt32.ofNat_add, UInt32.ofNat_mul]
    dsimp only
    rw [hvalue, ih _ hstr (by omega) fun hlt => by
      rw [Nat.add_right_comm]
      exact hend (by omega)]
    rw [List.foldl_cons, Bool.true_or, List.isEmpty_cons, Bool.not_false, Bool.or_true,
      List.length_cons]
    rw [Nat.add_right_comm, Nat.add_assoc]

/-- The prefix of a number is found where there is one. -/
lemma prefix_test {str : ℕ → UInt8} {pre digits : List UInt8} {ks : List ℕ} {pos len : ℕ}
    (hpre : pre = [] ∨ pre = ['0'.toUInt8, 'x'.toUInt8] ∨ pre = ['0'.toUInt8, 'X'.toUInt8])
    (hne : digits ≠ []) (hdigits : List.Forall₂ Digit digits ks)
    (hstr : Holds str pos (pre ++ digits)) (hlen : pos + (pre ++ digits).length ≤ len)
    (hend : pos + (pre ++ digits).length < len →
      EndsNumber (str (pos + (pre ++ digits).length))) :
    (if pos + 2 < len ∧ str pos = '0'.toUInt8 ∧
        (str (pos + 1) = 'x'.toUInt8 ∨ str (pos + 1) = 'X'.toUInt8) then (16, pos + 2)
      else (16, pos)) = (16, pos + pre.length) := by
  have hpos : 0 < digits.length := List.length_pos_iff.mpr hne
  rcases hpre with rfl | rfl | rfl
  · -- the second character is a digit or ends the number
    refine if_neg ?_
    rintro ⟨hlt, -, hx⟩
    rw [List.nil_append] at hstr hlen hend
    cases hdigits with
    | nil => exact hne rfl
    | cons _ hrest =>
      cases hrest with
      | nil =>
        have hstop := hend (by rw [List.length_singleton]; omega)
        exact hx.elim hstop.2.1 hstop.2.2
      | cons hc _ =>
        have hchar := (holds_cons.mp (holds_cons.mp hstr).2).1
        rw [hchar] at hx
        exact hx.elim (digit_ne hc).2.2.1 (digit_ne hc).2.2.2.1
  · obtain ⟨h0, hrest⟩ := holds_cons.mp hstr
    rw [List.length_append, List.length_cons, List.length_singleton] at hlen
    exact if_pos ⟨by omega, h0, .inl (holds_cons.mp hrest).1⟩
  · obtain ⟨h0, hrest⟩ := holds_cons.mp hstr
    rw [List.length_append, List.length_cons, List.length_singleton] at hlen
    exact if_pos ⟨by omega, h0, .inr (holds_cons.mp hrest).1⟩

/-- A number behind its sign. -/
lemma strtolUnsigned_digits {str : ℕ → UInt8} {pre digits : List UInt8} {ks : List ℕ}
    {pos len : ℕ} (sign : UInt32)
    (hpre : pre = [] ∨ pre = ['0'.toUInt8, 'x'.toUInt8] ∨ pre = ['0'.toUInt8, 'X'.toUInt8])
    (hne : digits ≠ []) (hdigits : List.Forall₂ Digit digits ks)
    (hstr : Holds str pos (pre ++ digits)) (hlen : pos + (pre ++ digits).length ≤ len)
    (hend : pos + (pre ++ digits).length < len →
      EndsNumber (str (pos + (pre ++ digits).length))) :
    strtolUnsigned str len 16 pos sign =
      (UInt32.ofNat (value ks) * sign, some (pos + (pre ++ digits).length)) := by
  rw [strtolUnsigned, prefix_test hpre hne hdigits hstr hlen hend]
  rw [List.length_append, ← Nat.add_assoc] at hlen hend ⊢
  obtain ⟨-, hloop⟩ := holds_append.mp hstr
  have hdone := strtolLoop_digits (v := 0) false hdigits hloop
    (n := len - (pos + pre.length)) (by omega) fun hlt => (hend (by omega)).1
  have hvalid : (false || !digits.isEmpty) = true := by
    rw [Bool.false_or, Bool.not_eq_true', List.isEmpty_eq_false_iff]
    exact hne
  have hbase : (if (16 : ℕ) = 0 then 10 else 16) = 16 := rfl
  dsimp only
  rw [hbase, show (0 : UInt32) = UInt32.ofNat 0 from rfl, hdone, hvalid]
  rfl

/-- **`gdb_strtol` reads a number** that ends with the string or at a character that no number
has. -/
lemma gdbStrtol_numeral {str : ℕ → UInt8} {s : List UInt8} {v : UInt32} {len : ℕ}
    (hs : Numeral s v) (hstr : Holds str 0 s) (hlen : s.length ≤ len)
    (hend : s.length < len → EndsNumber (str s.length)) :
    gdbStrtol str len 16 = (v, some s.length) := by
  have hpos : 0 < s.length := List.length_pos_iff.mpr hs.ne_nil
  rw [gdbStrtol, if_neg (by omega)]
  obtain ⟨sign, pre, digits, ks, rfl, hsign, hpre, hne, hdigits, rfl⟩ := hs
  obtain ⟨hsign0, hrest⟩ := holds_append.mp hstr
  rw [Nat.zero_add] at hrest
  rw [List.length_append] at hlen hend hpos ⊢
  have hunsigned := fun u => strtolUnsigned_digits u hpre hne hdigits hrest hlen hend
  rcases hsign with rfl | rfl | rfl
  · -- the first character is a digit
    have hdigit : ∃ k, Digit (str 0) k := by
      rcases hpre with rfl | rfl | rfl
      · cases hdigits with
        | nil => exact absurd rfl hne
        | cons hc _ => exact ⟨_, (holds_cons.mp hrest).1.symm ▸ hc⟩
      · exact ⟨0, (holds_cons.mp hrest).1.symm ▸ .inl rfl⟩
      · exact ⟨0, (holds_cons.mp hrest).1.symm ▸ .inl rfl⟩
    obtain ⟨k, hdigit⟩ := hdigit
    rw [if_neg (digit_ne hdigit).1, if_neg (digit_ne hdigit).2.1, if_neg (by exact nofun)]
    exact (hunsigned 1).trans (by rw [UInt32.mul_one])
  · rw [(holds_cons.mp hsign0).1, if_neg (by decide), if_pos rfl, if_neg (by decide)]
    exact (hunsigned 1).trans (by rw [UInt32.mul_one])
  · rw [(holds_cons.mp hsign0).1, if_pos rfl, if_pos rfl]
    exact (hunsigned (-1)).trans (by rw [UInt32.mul_neg, UInt32.mul_one])

end MicroOS
