import MicroOS.Gdb.BinaryWrite

/-!
The encoders of `gdb/encoding.c` with the buffer that they write to, and the decoders behind them.

* `encHex`, `encBin`: the functions, whose lengths are `int`s, where a byte behind the buffer is an
  error;
* `escaped`: what `gdb_enc_bin` makes of bytes; `unescape_escaped`, `escaped_plain`;
* `encHex_eq`, `encBin_eq`: the output that fits, and what happens to one that does not;
* `gdb_codecs_iff`: when the codecs do what they are for. `gdb_enc_hex` doubles the length in 32
  bits, and `gdb_enc_bin` ends at an assertion before it can return `GDB_EOF`.
-/

namespace MicroOS

open ByteImage CInt Checked Hex

/-! ### The encoders -/

/-- How an encoder ends without a length: with `GDB_EOF`, at `assert(0)`, or with a byte behind the
buffer. -/
inductive EncodeFault where
  | eof
  | asserted
  | pastEnd
  deriving DecidableEq

/-- `*buf++ = b`, or `buf[buf_pos++] = b`: the bytes that are written. -/
def putByte (bufLen : ℕ) (out : List UInt8) (b : UInt8) : Except EncodeFault (List UInt8) :=
  if out.length < bufLen then .ok (out ++ [b]) else .error .pastEnd

/-- The loop of `gdb_enc_hex`. -/
def encHexLoop (bufLen : ℕ) : List UInt8 → List UInt8 → Except EncodeFault (List UInt8)
  | [], out => .ok out
  | c :: data, out => do
      let out ← putByte bufLen out (gdbGetDigit ((c >>> 4) &&& 0xf).toNat)
      let out ← putByte bufLen out (gdbGetDigit (c &&& 0xf).toNat)
      encHexLoop bufLen data out

/-- `gdb_enc_hex`. -/
def encHex (bufLen : ℕ) (data : List UInt8) : Except EncodeFault (List UInt8) :=
  if (bufLen : ℤ) < int (data.length * 2) then .error .eof else encHexLoop bufLen data []

/-- The characters that are escaped. -/
def isSpecial (c : UInt8) : Bool :=
  c = '$'.toUInt8 ∨ c = '#'.toUInt8 ∨ c = 0x7d ∨ c = '*'.toUInt8

/-- The loop of `gdb_enc_bin`. -/
def encBinLoop (bufLen : ℕ) : List UInt8 → List UInt8 → Except EncodeFault (List UInt8)
  | [], out => .ok out
  | c :: data, out =>
    if isSpecial c then
      if int (out.length + 1) ≥ bufLen then .error .asserted
      else do
        let out ← putByte bufLen out 0x7d
        let out ← putByte bufLen out (c ^^^ 0x20)
        encBinLoop bufLen data out
    else if out.length ≥ bufLen then .error .asserted
    else do encBinLoop bufLen data (← putByte bufLen out c)

/-- `gdb_enc_bin`. -/
def encBin (bufLen : ℕ) (data : List UInt8) : Except EncodeFault (List UInt8) :=
  encBinLoop bufLen data []

/-! ### `gdb_enc_hex` -/

section EncHex

variable {bufLen : ℕ} {data out : List UInt8}

lemma putByte_of_lt {b : UInt8} (h : out.length < bufLen) :
    putByte bufLen out b = .ok (out ++ [b]) := if_pos h

/-- The hexadecimal digits are put behind what is there, when they fit. -/
lemma encHexLoop_fits (h : out.length + data.length * 2 ≤ bufLen) :
    encHexLoop bufLen data out = .ok (out ++ text data) := by
  induction data generalizing out with
  | nil => simp [encHexLoop, text]
  | cons c data ih =>
    have hc := c.toNat_lt
    rw [List.length_cons] at h
    rw [encHexLoop, putByte_of_lt (by omega), ok_bind, putByte_of_lt (by simp; omega), ok_bind,
      ih (by simp; omega), toNat_high, toNat_low, gdbGetDigit_of_lt (by omega),
      gdbGetDigit_of_lt (by omega)]
    simp [text]

/-- A loop that has no room runs over the end of the buffer. -/
lemma encHexLoop_over (h : bufLen < out.length + data.length * 2) (hout : out.length ≤ bufLen) :
    encHexLoop bufLen data out = .error .pastEnd := by
  induction data generalizing out with
  | nil =>
    rw [List.length_nil] at h
    omega
  | cons c data ih =>
    rw [List.length_cons] at h
    rw [encHexLoop]
    by_cases h1 : out.length < bufLen
    · rw [putByte_of_lt h1, ok_bind]
      by_cases h2 : out.length + 1 < bufLen
      · rw [putByte_of_lt (by simpa using h2), ok_bind]
        exact ih (by simp; omega) (by simp; omega)
      · rw [putByte, if_neg (by simpa using h2)]
        rfl
    · rw [putByte, if_neg h1]
      rfl

/-- **`gdb_enc_hex`** checks the length while it fits an `int`. -/
lemma encHex_of_lt (hdata : data.length < 2 ^ 30) : encHex bufLen data =
    if data.length * 2 ≤ bufLen then .ok (text data) else .error .eof := by
  have hint : int ((data.length : ℤ) * 2) = data.length * 2 :=
    int_of_mem (by omega) (by rw [intMax]; omega)
  rw [encHex, hint]
  split_ifs with h1 h2 h2
  · omega
  · rfl
  · exact encHexLoop_fits (by simpa using h2)
  · omega

/-- Where the doubled length is no `int`, it is negative, and every buffer is large enough. -/
lemma encHex_of_ge (hdata : 2 ^ 30 ≤ data.length) (hint : data.length < 2 ^ 31)
    (hbuf : bufLen < 2 ^ 31) : encHex bufLen data = .error .pastEnd := by
  have hneg : int ((data.length : ℤ) * 2) = data.length * 2 - 2 ^ 32 := by
    rw [int, Int.bmod, Int.emod_eq_of_lt (by omega) (by norm_num; omega),
      if_neg (by norm_num; omega)]
    norm_num
  rw [encHex, hneg, if_neg (by omega)]
  exact encHexLoop_over (by rw [List.length_nil]; omega) (Nat.zero_le _)

end EncHex

/-! ### `gdb_enc_bin` -/

/-- The bytes with their escapes. -/
def escaped (data : List UInt8) : List UInt8 :=
  data.flatMap fun c => if isSpecial c then [0x7d, c ^^^ 0x20] else [c]

/-- The step to the next byte is no `int`: behind `pos` bytes the encoding comes to an escape where
a buffer of the largest length is full. -/
def RunsOver (bufLen pos : ℕ) (data : List UInt8) : Prop :=
  bufLen = 2 ^ 31 - 1 ∧ ∃ p c rest, data = p ++ c :: rest ∧ isSpecial c = true ∧
    pos + (escaped p).length = bufLen

section EncBin

variable {bufLen : ℕ} {data out : List UInt8} {c : UInt8}

lemma escaped_cons (c : UInt8) (data : List UInt8) : escaped (c :: data) =
    (if isSpecial c then [0x7d, c ^^^ 0x20] else [c]) ++ escaped data := List.flatMap_cons

lemma escaped_append (p data : List UInt8) : escaped (p ++ data) = escaped p ++ escaped data :=
  List.flatMap_append

/-- A byte that is no escape stands for itself. -/
lemma unescape_cons (hc : c ≠ 0x7d) (buf : List UInt8) :
    unescape (c :: buf) = (unescape buf).map (c :: ·) := by
  cases buf with
  | nil => simp [unescape, hc]
  | cons d buf => rw [unescape, if_neg hc]

/-- **Escaping is undone.** -/
lemma unescape_escaped (data : List UInt8) : unescape (escaped data) = some data := by
  induction data with
  | nil => rfl
  | cons c data ih =>
    rw [escaped_cons]
    split_ifs with hc
    · have hback : c ^^^ 0x20 ^^^ 0x20 = c := by
        rw [UInt8.xor_assoc, UInt8.xor_self, UInt8.xor_zero]
      rw [List.cons_append, List.singleton_append, unescape, if_pos rfl, ih, Option.map_some,
        hback]
    · have hne : c ≠ 0x7d := fun h => hc (by rw [h]; rfl)
      rw [List.singleton_append, unescape_cons hne, ih, Option.map_some]

/-- Escaped bytes hold no character of the protocol. -/
lemma escaped_plain (data : List UInt8) :
    ∀ c ∈ escaped data, c ≠ '$'.toUInt8 ∧ c ≠ '#'.toUInt8 ∧ c ≠ '*'.toUInt8 := by
  intro c hc
  obtain ⟨b, -, hcb⟩ := List.mem_flatMap.mp hc
  split_ifs at hcb with hb
  · have hcases : (b = '$'.toUInt8 ∨ b = '#'.toUInt8 ∨ b = 0x7d ∨ b = '*'.toUInt8) := by
      simpa [isSpecial] using hb
    rcases List.mem_cons.mp hcb with rfl | hcb
    · decide
    · rw [List.mem_singleton.mp hcb]
      rcases hcases with rfl | rfl | rfl | rfl <;> decide
  · rw [List.mem_singleton.mp hcb]
    have hcases : ¬(b = '$'.toUInt8 ∨ b = '#'.toUInt8 ∨ b = 0x7d ∨ b = '*'.toUInt8) := by
      simpa [isSpecial] using hb
    exact ⟨fun h => hcases (.inl h), fun h => hcases (.inr (.inl h)),
      fun h => hcases (.inr (.inr (.inr h)))⟩

/-- The escaped bytes are put behind what is there, when they fit. -/
lemma encBinLoop_fits (hbuf : bufLen < 2 ^ 31)
    (h : out.length + (escaped data).length ≤ bufLen) :
    encBinLoop bufLen data out = .ok (out ++ escaped data) := by
  induction data generalizing out with
  | nil => simp [encBinLoop, escaped]
  | cons c data ih =>
    rw [escaped_cons] at h ⊢
    rw [encBinLoop]
    split_ifs at h ⊢ with hc h1 h1
    · rw [int_of_mem (by omega) (by rw [intMax]; simp at h; omega)] at h1
      simp at h
      omega
    · rw [List.length_append] at h
      have hlen : out.length + 2 ≤ bufLen := by simp at h; omega
      rw [putByte_of_lt (by omega), ok_bind, putByte_of_lt (by simp; omega), ok_bind,
        ih (by simp at h ⊢; omega)]
      simp
    · simp at h
      omega
    · rw [putByte_of_lt (by omega), ok_bind, ih (by simp at h ⊢; omega)]
      simp

/-- The first byte, and the others. -/
lemma runsOver_cons {pos : ℕ} : RunsOver bufLen pos (c :: data) ↔
    (bufLen = 2 ^ 31 - 1 ∧ isSpecial c = true ∧ pos = bufLen) ∨
      RunsOver bufLen (pos + (if isSpecial c then [0x7d, c ^^^ 0x20] else [c]).length) data := by
  constructor
  · rintro ⟨hmax, p, d, rest, heq, hd, hpos⟩
    cases p with
    | nil =>
      obtain ⟨rfl, rfl⟩ := List.cons.inj heq
      exact .inl ⟨hmax, hd, hpos⟩
    | cons b p =>
      obtain ⟨rfl, rfl⟩ := List.cons.inj heq
      rw [escaped_cons, List.length_append, ← Nat.add_assoc] at hpos
      exact .inr ⟨hmax, p, d, rest, rfl, hd, hpos⟩
  · rintro (⟨hmax, hc, hpos⟩ | ⟨hmax, p, d, rest, rfl, hd, hpos⟩)
    · exact ⟨hmax, [], c, data, rfl, hc, hpos⟩
    · refine ⟨hmax, c :: p, d, rest, rfl, hd, ?_⟩
      rw [escaped_cons, List.length_append, ← Nat.add_assoc]
      exact hpos

/-- Nothing runs over the end from a place behind it. -/
lemma not_runsOver {pos : ℕ} (h : bufLen < pos) : ¬RunsOver bufLen pos data := by
  rintro ⟨-, p, c, rest, -, -, hpos⟩
  omega

/-- **Bytes that do not fit** end at the assertion, or behind the buffer where it is missed. -/
lemma encBinLoop_full (hbuf : bufLen < 2 ^ 31) (hout : out.length ≤ bufLen)
    (h : bufLen < out.length + (escaped data).length) :
    (RunsOver bufLen out.length data → encBinLoop bufLen data out = .error .pastEnd) ∧
      (¬RunsOver bufLen out.length data → encBinLoop bufLen data out = .error .asserted) := by
  induction data generalizing out with
  | nil =>
    rw [escaped, List.flatMap_nil, List.length_nil] at h
    omega
  | cons c data ih =>
    rw [escaped_cons, List.length_append, ← Nat.add_assoc] at h
    rw [runsOver_cons, encBinLoop]
    by_cases hc : isSpecial c = true
    · rw [if_pos hc] at h ⊢
      rw [List.length_cons, List.length_singleton] at h ⊢
      rw [if_pos hc]
      rcases lt_trichotomy (out.length + 1) bufLen with hroom | hroom | hroom
      · -- there is room for both bytes
        have hint : ¬int ((out.length : ℤ) + 1) ≥ bufLen := by
          rw [int_of_mem (by omega) (by rw [intMax]; omega)]
          omega
        have hnext := ih (show (out ++ [0x7d] ++ [c ^^^ 0x20]).length ≤ bufLen by
          rw [List.length_append, List.length_append]; exact hroom)
          (by rw [List.length_append, List.length_append]; exact h)
        rw [List.length_append, List.length_append] at hnext
        rw [if_neg hint, putByte_of_lt (by omega), ok_bind,
          putByte_of_lt (by rw [List.length_append]; exact hroom), ok_bind,
          or_iff_right fun hfirst => absurd hfirst.2.2 (by omega)]
        exact hnext
      · -- for one of them
        have hint : int ((out.length : ℤ) + 1) ≥ bufLen := by
          rw [int_of_mem (by omega) (by rw [intMax]; omega)]
          omega
        rw [if_pos hint]
        refine ⟨fun hover => ?_, fun _ => rfl⟩
        rcases hover with hfirst | hrest
        · omega
        · exact absurd hrest (not_runsOver (by omega))
      · -- for none
        obtain hpos : out.length = bufLen := by omega
        by_cases hmax : bufLen = 2 ^ 31 - 1
        · have hint : int ((out.length : ℤ) + 1) = -2 ^ 31 := by
            rw [hpos, hmax]
            exact int_succ_intMax
          rw [hint, if_neg (by omega), putByte, if_neg (by omega)]
          exact ⟨fun _ => rfl, fun hnot => absurd (.inl ⟨hmax, hc, hpos⟩) hnot⟩
        · have hint : int ((out.length : ℤ) + 1) ≥ bufLen := by
            rw [int_of_mem (by omega) (by rw [intMax]; omega)]
            omega
          rw [if_pos hint]
          refine ⟨fun hover => ?_, fun _ => rfl⟩
          rcases hover with hfirst | hrest
          · exact absurd hfirst.1 hmax
          · exact absurd hrest (not_runsOver (by omega))
    · -- a byte that is sent as it is
      rw [if_neg hc] at h ⊢
      rw [List.length_singleton] at h ⊢
      rw [or_iff_right fun hfirst => hc hfirst.2.1, if_neg hc]
      by_cases hroom : out.length < bufLen
      · have hput := putByte_of_lt (b := c) hroom
        have hnext := ih (show (out ++ [c]).length ≤ bufLen by simpa using hroom)
          (by simpa using h)
        rw [List.length_append, List.length_singleton] at hnext
        rw [if_neg (not_le.mpr hroom), hput, ok_bind]
        exact hnext
      · rw [if_pos (not_lt.mp hroom)]
        exact ⟨fun hover => absurd hover (not_runsOver (by omega)), fun _ => rfl⟩

end EncBin

/-! ### The codecs -/

/-- **`gdb_enc_hex` is right** about bytes and a buffer: what fits is encoded, with its length, and
decoded again, and what does not fit is reported. -/
structure HexRight (bufLen : ℕ) (d : List UInt8) : Prop where
  fits : d.length * 2 ≤ bufLen → ∃ out, encHex bufLen d = .ok out ∧
    (out.length : ℤ) = int (d.length * 2) ∧ ∀ buf, Holds buf 0 out →
      gdbDecHex buf out.length d.length = .bytes d
  full : bufLen < d.length * 2 → encHex bufLen d = .error .eof

/-- **`gdb_enc_bin` is right** about bytes and a buffer, where `report` says which ends are
reports. -/
structure BinRight (report : EncodeFault → Prop) (bufLen : ℕ) (d : List UInt8) : Prop where
  fits : (escaped d).length ≤ bufLen → ∃ out, encBin bufLen d = .ok out ∧
    (∀ c ∈ out, c ≠ '$'.toUInt8 ∧ c ≠ '#'.toUInt8 ∧ c ≠ '*'.toUInt8) ∧
    ∀ buf, Holds buf 0 out → ∀ dataLen, d.length ≤ dataLen →
      gdbDecBin buf out.length dataLen = .bytes d
  full : bufLen < (escaped d).length → ∃ e, encBin bufLen d = .error e ∧ report e

section Codecs

variable {bufLen : ℕ} {d : List UInt8} (hbuf : bufLen < 2 ^ 31)

include hbuf in
/-- The hexadecimal codec is right just below the length whose double is no `int`. -/
lemma hexRight_iff (hd : d.length < 2 ^ 31) : HexRight bufLen d ↔ d.length < 2 ^ 30 := by
  constructor
  · intro h
    by_contra hlong
    have hfull := h.full (by omega)
    rw [encHex_of_ge (not_lt.mp hlong) hd hbuf] at hfull
    exact absurd hfull (by decide)
  · intro hlt
    have henc : encHex bufLen d = _ := encHex_of_lt hlt
    refine ⟨fun hfits => ⟨text d, by rw [henc, if_pos hfits], ?_, fun buf hout => ?_⟩,
      fun hfull => by rw [henc, if_neg (not_le.mpr hfull)]⟩
    · rw [length_text, int_of_mem (by omega) (by rw [intMax]; omega)]
      push_cast
      ring
    · exact gdbDecHex_spells (spells_text d) hout rfl

lemma encBin_fits (hbuf : bufLen < 2 ^ 31) (hfits : (escaped d).length ≤ bufLen) :
    encBin bufLen d = .ok (escaped d) :=
  encBinLoop_fits hbuf ((Nat.zero_add _).trans_le hfits)

/-- The decoder gets back what was escaped. -/
lemma decBin_escaped {buf : ℕ → UInt8} (hout : Holds buf 0 (escaped d)) {dataLen : ℕ}
    (hlen : d.length ≤ dataLen) : gdbDecBin buf (escaped d).length dataLen = .bytes d := by
  refine gdbDecBin_bytes ?_ hlen
  rw [Int.toNat_natCast, hout.map_range, unescape_escaped]

/-- The output that does not. -/
lemma encBin_full (hbuf : bufLen < 2 ^ 31) (hfull : bufLen < (escaped d).length) :
    (RunsOver bufLen 0 d → encBin bufLen d = .error .pastEnd) ∧
      (¬RunsOver bufLen 0 d → encBin bufLen d = .error .asserted) := by
  have hout : ([] : List UInt8).length ≤ bufLen := Nat.zero_le _
  exact encBinLoop_full hbuf hout (hfull.trans_eq (Nat.zero_add _).symm)

include hbuf in
/-- **`gdb_enc_bin`** is right when the end of an output that does not fit is a report. -/
lemma binRight_iff (report : EncodeFault → Prop) : BinRight report bufLen d ↔
    (bufLen < (escaped d).length → ∃ e, encBin bufLen d = .error e ∧ report e) :=
  ⟨fun h => h.full, fun h => ⟨fun hfits => ⟨escaped d, encBin_fits hbuf hfits, escaped_plain d,
    fun _ hout _ hlen => decBin_escaped hout hlen⟩, h⟩⟩

/-- **The codecs are right**: `gdb_enc_hex` exactly for fewer than `2 ^ 30` bytes; `gdb_enc_bin`
where a report is `GDB_EOF`, exactly for output that fits; and where a failed assertion is a report
too, exactly where the step over the end of the buffer is an `int`. -/
theorem gdb_codecs_iff (hbuf : bufLen < 2 ^ 31) (hd : d.length < 2 ^ 31) :
    (HexRight bufLen d ↔ d.length < 2 ^ 30) ∧
    (BinRight (· = .eof) bufLen d ↔ (escaped d).length ≤ bufLen) ∧
    (BinRight (· ≠ .pastEnd) bufLen d ↔ ¬RunsOver bufLen 0 d) := by
  refine ⟨hexRight_iff hbuf hd, ?_, ?_⟩
  · rw [binRight_iff hbuf]
    constructor
    · intro h
      by_contra hlong
      obtain ⟨e, he, rfl⟩ := h (not_le.mp hlong)
      by_cases hover : RunsOver bufLen 0 d
      · rw [(encBin_full hbuf (not_le.mp hlong)).1 hover] at he
        exact absurd he (by decide)
      · rw [(encBin_full hbuf (not_le.mp hlong)).2 hover] at he
        exact absurd he (by decide)
    · intro hfits hlong
      omega
  · rw [binRight_iff hbuf]
    constructor
    · intro h hover
      have hlong : bufLen < (escaped d).length := by
        obtain ⟨-, p, c, rest, rfl, hc, hpos⟩ := hover
        rw [escaped_append, escaped_cons, if_pos hc, List.length_append, List.length_append,
          List.length_cons]
        omega
      obtain ⟨e, he, hreport⟩ := h hlong
      rw [(encBin_full hbuf hlong).1 hover] at he
      exact hreport (Except.error.inj he).symm
    · intro hnot hlong
      exact ⟨.asserted, (encBin_full hbuf hlong).2 hnot, by decide⟩

/-- The bytes of a short message. -/
theorem gdb_codecs_message :
    HexRight 8 [0x24, 0x80, 0x7d] ∧ BinRight (· = .eof) 8 [0x24, 0x80, 0x7d] :=
  ⟨(gdb_codecs_iff (by decide) (by decide)).1.mpr (by decide),
    (gdb_codecs_iff (by decide) (by decide)).2.1.mpr (by decide)⟩

/-- A dollar sign and a buffer of one byte end at the assertion and not with `GDB_EOF`, and the
digits of `2 ^ 30` bytes are written behind a buffer of any length. -/
theorem gdb_encoders_do_not_report : encBin 1 [0x24] = .error .asserted ∧
    ¬BinRight (· = .eof) 1 [0x24] ∧
    encHex 256 (List.replicate (2 ^ 30) 0) = .error .pastEnd ∧
    ¬HexRight 256 (List.replicate (2 ^ 30) 0) := by
  have hlen : (List.replicate (2 ^ 30) (0 : UInt8)).length = 2 ^ 30 := List.length_replicate
  have henc : encBin 1 [0x24] = .error .asserted := rfl
  refine ⟨henc, fun h => ?_, ?_, fun h => ?_⟩
  · obtain ⟨e, he, rfl⟩ := h.full (by decide)
    rw [henc] at he
    exact absurd he (by decide)
  · exact encHex_of_ge hlen.ge (hlen.trans_lt (by norm_num)) (by norm_num)
  · have hlt := (hexRight_iff (by norm_num) (hlen.trans_lt (by norm_num))).mp h
    rw [hlen] at hlt
    exact lt_irrefl _ hlt

end Codecs

end MicroOS