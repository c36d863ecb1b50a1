import MicroOS.Gdb.Framing
import MicroOS.Gdb.RoundTrip

/-!
Binary writes to memory: the packet `X addr,len:data` of `gdb_main`.

* `unescape`: what data with escapes means; `decBinLoop_eq`: how `gdb_dec_bin` decodes it;
* `Gdb.WritesOnlyDecoded`: a packet is answered with an error, or its data are stored;
* `binary_write_iff`: **a write is one of the decoded data exactly where they have the length that
  the packet names**; shorter data are filled up from the stack.
-/

namespace MicroOS

open ByteImage ByteMem Checked Hex

/-! ### Data with escapes -/

/-- What data with escapes means, none where it ends in an escape. -/
def unescape : List UInt8 → Option (List UInt8)
  | [] => some []
  | [c] => if c = 0x7d then none else some [c]
  | c :: c' :: buf =>
    if c = 0x7d then (unescape buf).map ((c' ^^^ 0x20) :: ·)
    else (unescape (c' :: buf)).map (c :: ·)

/-- The loop of `gdb_dec_bin` decodes what fits the array. -/
lemma decBinLoop_eq (buf : List UInt8) (room : ℕ) :
    decBinLoop buf room = (unescape buf).filter fun d => d.length ≤ room := by
  -- a first byte takes one place of the array
  have hcons : ∀ (b : UInt8) (o : Option (List UInt8)) (room : ℕ),
      (o.filter fun d => d.length ≤ room).map (b :: ·) =
        (o.map (b :: ·)).filter fun d => d.length ≤ room + 1 := by
    intro b o room
    cases o <;> simp [Option.filter, apply_ite]
  have hfull : ∀ (b : UInt8) (o : Option (List UInt8)),
      (o.map (b :: ·)).filter (fun d => d.length ≤ 0) = none := by
    intro b o
    cases o <;> simp [Option.filter]
  induction buf using unescape.induct generalizing room with
  | case1 => simp [decBinLoop, unescape, Option.filter]
  | case2 =>
    cases room with
    | zero => rfl
    | succ room => rfl
  | case3 c hc =>
    cases room with
    | zero => simp [decBinLoop, unescape, hc, Option.filter]
    | succ room => simp [decBinLoop, unescape, hc, Option.filter]
  | case4 c' buf ih =>
    rw [unescape, if_pos rfl]
    cases room with
    | zero => exact (hfull _ _).symm
    | succ room => rw [decBinLoop, if_pos rfl, ih, hcons]
  | case5 c c' buf hc ih =>
    rw [unescape, if_neg hc]
    cases room with
    | zero => exact (hfull _ _).symm
    | succ room => rw [decBinLoop, if_neg hc, ih, hcons]

/-- A decoder whose failed assertions only report. -/
def GdbDec.reporting (dec : GdbDec) : GdbDec := fun buf bufLen dataLen =>
  match dec buf bufLen dataLen with
  | .asserted => .eof
  | decoded => decoded

variable {buf : ℕ → UInt8} {bufLen : ℤ} {dataLen : ℕ} {d : List UInt8}

/-- Data that fit the array are decoded. -/
lemma gdbDecBin_bytes (hd : unescape ((List.range bufLen.toNat).map buf) = some d)
    (hlen : d.length ≤ dataLen) : gdbDecBin buf bufLen dataLen = .bytes d := by
  have hfits : decide (d.length ≤ dataLen) = true := decide_eq_true hlen
  rw [gdbDecBin, decBinLoop_eq, hd, Option.filter_some, if_pos hfits]

/-- Data that do not fit the array, or end in an escape, fail an assertion. -/
lemma gdbDecBin_asserted
    (hd : ∀ d, unescape ((List.range bufLen.toNat).map buf) = some d → dataLen < d.length) :
    gdbDecBin buf bufLen dataLen = .asserted := by
  rw [gdbDecBin, decBinLoop_eq]
  cases hchars : unescape ((List.range bufLen.toNat).map buf) with
  | none => rfl
  | some d =>
    have hlong : ¬ decide (d.length ≤ dataLen) = true := by
      rw [decide_eq_true_eq]
      exact not_le.mpr (hd d hchars)
    rw [Option.filter_some, if_neg hlong]

namespace Gdb

variable {g g' : Gdb} {pktLen ptrNext : ℕ} {addr length : UInt32} {ack : UInt8}
  {rest : List UInt8} {dec : GdbDec} {run : Gdb → Except GdbEnd (Option Gdb)}

/-! ### The answer to a write -/

/-- The end of a turn of `gdb_main`. -/
def answer (g : Gdb) (done : Except GdbEnd (Option Gdb)) : Except GdbEnd Gdb := do
  match ← done with
  | none => g.sendErrorPacket 0
  | some g => return g

/-- The answer when something went wrong. -/
def errorReply : List UInt8 := 'E'.toUInt8 :: text [0]

/-- The error packet is sent. -/
lemma sendErrorPacket_ok (hinput : g.input = ack :: rest) : g.sendErrorPacket 0 = .ok { g with
    pktBuf := store g.pktBuf 0 errorReply
    output := g.output ++ frame errorReply
    input := rest } := by
  have hsent := sendPacket_ok (g := { g with pktBuf := store g.pktBuf 0 errorReply }) hinput
    errorReply
  have hbuf : (List.range (1 + (text [0]).length)).map (store g.pktBuf 0 errorReply) =
      errorReply := holds_store.map_range
  rw [sendErrorPacket, sendBytePacket, gdbEncHex_eq (by decide)]
  dsimp only
  rw [show 'E'.toUInt8 :: text [0] = errorReply from rfl, hbuf, hsent]

/-- The session on an array of `gdb_mem_write` that held something else, when the host has sent an
acknowledgement. -/
def onStack (g : Gdb) (scratch : ℕ → UInt8) (ack : UInt8) (rest : List UInt8) : Gdb :=
  { g with scratch, input := ack :: rest }

/-- The characters behind `ptrNext`. -/
def dataChars (g : Gdb) (pktLen ptrNext : ℕ) : List UInt8 :=
  (List.range (remainingBuf pktLen ptrNext).toNat).map fun i => g.pktBuf (ptrNext + i)

/-- A packet was answered with an error. -/
structure Refused (g g' : Gdb) : Prop where
  output : g'.output = g.output ++ frame errorReply
  memory : g'.memory = g.memory

/-- The data of a packet were stored: they have the length that the packet names, and no byte but
those that they are for has changed. -/
structure Stored (g g' : Gdb) (pktLen : ℕ) (addr length : UInt32) (ptrNext : ℕ)
    (d : List UInt8) : Prop where
  output : g'.output = g.output ++ frame okReply
  args : g.writeArgs pktLen = some (addr, length, ptrNext)
  decoded : unescape (g.dataChars pktLen ptrNext) = some d
  length_eq : d.length = length.toNat
  written : ∀ i < d.length, g'.memory (wrap32 (addr.toNat + i)) = d.getD i 0
  kept : ∀ x, (∀ i < d.length, x ≠ wrap32 (addr.toNat + i)) → g'.memory x = g.memory x

/-- **A write is one of the decoded data**: the packet is answered with an error and the memory is
kept, or the data are stored; and that does not depend on what the array of `gdb_mem_write` held. -/
structure WritesOnlyDecoded (g : Gdb) (pktLen : ℕ) (run : Gdb → Except GdbEnd (Option Gdb)) :
    Prop where
  outcome : ∀ ack rest, ∃ g', (g.onStack g.scratch ack rest).answer
    (run (g.onStack g.scratch ack rest)) = .ok g' ∧ (g.Refused g' ∨
      ∃ addr length ptrNext d, g.Stored g' pktLen addr length ptrNext d)
  independent : ∀ scratch ack rest,
    ((g.onStack scratch ack rest).answer (run (g.onStack scratch ack rest))).map
        (fun g' => (g'.output, g'.memory)) =
      ((g.onStack g.scratch ack rest).answer (run (g.onStack g.scratch ack rest))).map
        fun g' => (g'.output, g'.memory)

/-! ### The cases of a write -/

/-- A packet is refused where its arguments are, where it is too long for the array, and where the
decoder returns `GDB_EOF`. -/
lemma cmdWriteMemory_none (h : ∀ addr length ptrNext,
    g.writeArgs pktLen = some (addr, length, ptrNext) → length.toNat ≤ memDataLen →
      dec (fun i => g.pktBuf (ptrNext + i)) (remainingBuf pktLen ptrNext) length.toNat = .eof) :
    g.cmdWriteMemory pktLen dec = .ok none := by
  rw [cmdWriteMemory]
  cases hargs : g.writeArgs pktLen with
  | none => rfl
  | some args =>
    cases args with
    | mk addr args =>
      cases args with
      | mk length ptrNext =>
        dsimp only
        rw [memWrite]
        by_cases hlen : memDataLen < length.toNat
        · rw [if_pos hlen]
          rfl
        · rw [if_neg hlen, h addr length ptrNext hargs (not_lt.mp hlen)]
          rfl

/-- A failed assertion ends the session. -/
lemma cmdWriteMemory_asserted (hargs : g.writeArgs pktLen = some (addr, length, ptrNext))
    (hlen : length.toNat ≤ memDataLen)
    (hdec : dec (fun i => g.pktBuf (ptrNext + i)) (remainingBuf pktLen ptrNext) length.toNat =
      .asserted) : g.cmdWriteMemory pktLen dec = .error .asserted := by
  rw [cmdWriteMemory, hargs]
  dsimp only
  rw [memWrite, if_neg (not_lt.mpr hlen), hdec]
  rfl

/-- Decoded bytes are written, and behind them what the array held. -/
lemma cmdWriteMemory_bytes {d : List UInt8} (hinput : g.input = ack :: rest)
    (hargs : g.writeArgs pktLen = some (addr, length, ptrNext))
    (hlen : length.toNat ≤ memDataLen)
    (hdec : dec (fun i => g.pktBuf (ptrNext + i)) (remainingBuf pktLen ptrNext) length.toNat =
      .bytes d) :
    g.cmdWriteMemory pktLen dec = .ok (some { g with
      memory := storeBytes g.memory addr.toNat
        ((List.range length.toNat).map fun pos => d.getD pos (g.scratch pos))
      output := g.output ++ frame okReply
      input := rest }) := by
  have hsent := fun memory => sendOkPacket_ok (g := { g with memory }) hinput
  rw [cmdWriteMemory, hargs]
  dsimp only
  rw [memWrite, if_neg (not_lt.mpr hlen), hdec, ok_bind]
  dsimp only
  rw [hsent]
  rfl

/-! ### Writes of decoded data -/

/-- A packet that is refused changes nothing. -/
lemma writesOnlyDecoded_none
    (hrun : ∀ scratch ack rest, run (g.onStack scratch ack rest) = .ok none) :
    g.WritesOnlyDecoded pktLen run := by
  have hsent : ∀ scratch ack rest, (g.onStack scratch ack rest).answer
      (run (g.onStack scratch ack rest)) = .ok { g.onStack scratch ack rest with
        pktBuf := store g.pktBuf 0 errorReply
        output := g.output ++ frame errorReply
        input := rest } := by
    intro scratch ack rest
    rw [answer, hrun, ok_bind]
    exact sendErrorPacket_ok rfl
  constructor
  case outcome => exact fun ack rest => ⟨_, hsent _ ack rest, .inl ⟨rfl, rfl⟩⟩
  case independent =>
    intro scratch ack rest
    rw [hsent, hsent]
    rfl

/-- What a write of decoded bytes answers. -/
lemma answer_bytes {scratch : ℕ → UInt8} {d : List UInt8}
    (hargs : g.writeArgs pktLen = some (addr, length, ptrNext))
    (hlen : length.toNat ≤ memDataLen)
    (hdec : dec (fun i => g.pktBuf (ptrNext + i)) (remainingBuf pktLen ptrNext) length.toNat =
      .bytes d) :
    (g.onStack scratch ack rest).answer ((g.onStack scratch ack rest).cmdWriteMemory pktLen dec) =
      .ok { g with
        scratch
        memory := storeBytes g.memory addr.toNat
          ((List.range length.toNat).map fun pos => d.getD pos (scratch pos))
        output := g.output ++ frame okReply
        input := rest } := by
  rw [answer, cmdWriteMemory_bytes (g := g.onStack scratch ack rest) rfl hargs hlen hdec]
  rfl

/-- Data of the length that the packet names are stored. -/
lemma writesOnlyDecoded_bytes {d : List UInt8}
    (hargs : g.writeArgs pktLen = some (addr, length, ptrNext))
    (hlen : length.toNat ≤ memDataLen)
    (hdec : dec (fun i => g.pktBuf (ptrNext + i)) (remainingBuf pktLen ptrNext) length.toNat =
      .bytes d)
    (hd : unescape (g.dataChars pktLen ptrNext) = some d) (hexact : d.length = length.toNat) :
    g.WritesOnlyDecoded pktLen fun g => g.cmdWriteMemory pktLen dec := by
  have hfull : ∀ scratch : ℕ → UInt8,
      (List.range length.toNat).map (fun pos => d.getD pos (scratch pos)) = d := fun scratch => by
    rw [← hexact, map_getD_range]
  have hsmall : d.length ≤ 2 ^ 32 := by
    rw [hexact]
    exact hlen.trans (by decide)
  constructor
  case outcome =>
    intro ack rest
    refine ⟨_, answer_bytes hargs hlen hdec, .inr ⟨addr, length, ptrNext, d, ?_⟩⟩
    rw [hfull]
    constructor
    case output => rfl
    case args => exact hargs
    case decoded => exact hd
    case length_eq => exact hexact
    case written => exact fun i hi => storeBytes_wrap addr.toNat_lt hsmall hi
    case kept => exact fun x hx => storeBytes_of_ne addr.toNat_lt hx
  case independent =>
    intro scratch ack rest
    rw [answer_bytes hargs hlen hdec, answer_bytes hargs hlen hdec, hfull, hfull]
    rfl

lemma frame_okReply_ne : frame okReply ≠ frame errorReply := by decide

/-- Data shorter than the packet says are answered with `OK`, though they are not what it names. -/
lemma not_writesOnlyDecoded_short {d : List UInt8}
    (hargs : g.writeArgs pktLen = some (addr, length, ptrNext))
    (hlen : length.toNat ≤ memDataLen)
    (hdec : dec (fun i => g.pktBuf (ptrNext + i)) (remainingBuf pktLen ptrNext) length.toNat =
      .bytes d)
    (hd : unescape (g.dataChars pktLen ptrNext) = some d) (hshort : d.length < length.toNat) :
    ¬ g.WritesOnlyDecoded pktLen fun g => g.cmdWriteMemory pktLen dec := by
  intro hwrites
  obtain ⟨g', hg', houtcome⟩ := hwrites.outcome 0 []
  rw [answer_bytes hargs hlen hdec] at hg'
  cases hg'
  rcases houtcome with hrefused | ⟨addr', length', ptrNext', d', hstored⟩
  · exact frame_okReply_ne (List.append_cancel_left hrefused.output)
  · have hargs' := hstored.args
    rw [hargs] at hargs'
    cases hargs'
    have hd' := hstored.decoded
    rw [hd] at hd'
    cases hd'
    exact absurd hstored.length_eq (Nat.ne_of_lt hshort)

/-- A packet that fails an assertion is not answered. -/
lemma not_writesOnlyDecoded_asserted
    (hrun : ∀ ack rest, run (g.onStack g.scratch ack rest) = .error .asserted) :
    ¬ g.WritesOnlyDecoded pktLen run := by
  intro hwrites
  obtain ⟨g', hg', -⟩ := hwrites.outcome 0 []
  rw [hrun] at hg'
  cases hg'

/-! ### Which packets are written well -/

/-- What is decoded does not depend on how the turn is run, when it does the same with every
stack. -/
lemma writesOnlyDecoded_congr {run' : Gdb → Except GdbEnd (Option Gdb)}
    (hrun : ∀ scratch ack rest, run (g.onStack scratch ack rest) =
      run' (g.onStack scratch ack rest)) :
    g.WritesOnlyDecoded pktLen run ↔ g.WritesOnlyDecoded pktLen run' := by
  constructor <;> intro hwrites <;> constructor
  · simpa only [hrun] using hwrites.outcome
  · simpa only [hrun] using hwrites.independent
  · simpa only [hrun] using hwrites.outcome
  · simpa only [hrun] using hwrites.independent

/-- Packets that are answered: with the decoder as it is, the data have the length that the packet
names. -/
lemma writesOnlyDecoded_iff :
    (g.WritesOnlyDecoded pktLen fun g => g.cmdWriteMemory pktLen gdbDecBin)
    ↔ ∀ addr length ptrNext, g.writeArgs pktLen = some (addr, length, ptrNext) →
      length.toNat ≤ memDataLen →
        ∃ d, unescape (g.dataChars pktLen ptrNext) = some d ∧ d.length = length.toNat := by
  constructor
  · intro hwrites addr length ptrNext hargs hlen
    by_contra hnone
    push Not at hnone
    by_cases hshort : ∃ d, unescape (g.dataChars pktLen ptrNext) = some d ∧ d.length < length.toNat
    · obtain ⟨d, hd, hshort⟩ := hshort
      exact not_writesOnlyDecoded_short hargs hlen (gdbDecBin_bytes hd hshort.le) hd hshort hwrites
    · push Not at hshort
      have hlong : ∀ d, unescape (g.dataChars pktLen ptrNext) = some d →
          length.toNat < d.length := fun d hd =>
        lt_of_le_of_ne (hshort d hd) (Ne.symm (hnone d hd))
      refine not_writesOnlyDecoded_asserted (fun ack rest => ?_) hwrites
      exact cmdWriteMemory_asserted (g := g.onStack g.scratch ack rest) hargs hlen
        (gdbDecBin_asserted hlong)
  · intro hexact
    by_cases haccepted : ∃ addr length ptrNext,
        g.writeArgs pktLen = some (addr, length, ptrNext) ∧ length.toNat ≤ memDataLen
    · obtain ⟨addr, length, ptrNext, hargs, hlen⟩ := haccepted
      obtain ⟨d, hd, hlength⟩ := hexact addr length ptrNext hargs hlen
      exact writesOnlyDecoded_bytes hargs hlen (gdbDecBin_bytes hd hlength.le) hd hlength
    · refine writesOnlyDecoded_none fun scratch ack rest => ?_
      exact cmdWriteMemory_none (g := g.onStack scratch ack rest)
        fun addr length ptrNext hargs hlen =>
          absurd ⟨addr, length, ptrNext, hargs, hlen⟩ haccepted

/-- Where a failed assertion only reports, the data must not be shorter than the packet says. -/
lemma writesOnlyDecoded_reporting_iff :
    (g.WritesOnlyDecoded pktLen fun g => g.cmdWriteMemory pktLen (GdbDec.reporting gdbDecBin))
    ↔ ∀ addr length ptrNext, g.writeArgs pktLen = some (addr, length, ptrNext) →
      length.toNat ≤ memDataLen →
        ∀ d, unescape (g.dataChars pktLen ptrNext) = some d → length.toNat ≤ d.length := by
  constructor
  · intro hwrites addr length ptrNext hargs hlen d hd
    by_contra hshort
    have hdec : GdbDec.reporting gdbDecBin (fun i => g.pktBuf (ptrNext + i))
        (remainingBuf pktLen ptrNext) length.toNat = .bytes d := by
      rw [GdbDec.reporting, gdbDecBin_bytes hd (not_le.mp hshort).le]
    exact not_writesOnlyDecoded_short hargs hlen hdec hd (not_le.mp hshort) hwrites
  · intro henough
    by_cases haccepted : ∃ addr length ptrNext d,
        g.writeArgs pktLen = some (addr, length, ptrNext) ∧ length.toNat ≤ memDataLen ∧
          unescape (g.dataChars pktLen ptrNext) = some d ∧ d.length = length.toNat
    · obtain ⟨addr, length, ptrNext, d, hargs, hlen, hd, hlength⟩ := haccepted
      refine writesOnlyDecoded_bytes hargs hlen ?_ hd hlength
      rw [GdbDec.reporting, gdbDecBin_bytes hd hlength.le]
    · refine writesOnlyDecoded_none fun scratch ack rest => ?_
      refine cmdWriteMemory_none (g := g.onStack scratch ack rest)
        fun addr length ptrNext hargs hlen => ?_
      have hlong : ∀ d, unescape (g.dataChars pktLen ptrNext) = some d →
          length.toNat < d.length := fun d hd =>
        lt_of_le_of_ne (henough addr length ptrNext hargs hlen d hd) fun heq =>
          haccepted ⟨addr, length, ptrNext, d, hargs, hlen, hd, heq.symm⟩
      rw [GdbDec.reporting]
      exact congrArg (fun r : GdbDecoded => match r with
        | .asserted => GdbDecoded.eof
        | decoded => decoded) (gdbDecBin_asserted hlong)

/-- The command of a packet `X`. -/
lemma command_binary (hletter : g.pktBuf 0 = 'X'.toUInt8) (pktLen : ℕ) :
    g.command pktLen = g.cmdWriteMemory pktLen gdbDecBin := by
  rw [command, hletter]
  rfl

end Gdb

/-- **A packet `X` is a write of its decoded data exactly where they have the length that the packet
names**, unless it is refused before they are decoded. Longer data, and data that end in an escape,
fail an assertion; where that only reports, it is exactly the shorter data that go wrong: what is
missing is taken from the stack. -/
theorem binary_write_iff (g : Gdb) (pktLen : ℕ) (hletter : g.pktBuf 0 = 'X'.toUInt8) :
    ((g.WritesOnlyDecoded pktLen fun g => g.command pktLen) ↔
      ∀ addr length ptrNext, g.writeArgs pktLen = some (addr, length, ptrNext) →
        length.toNat ≤ 64 → ∃ d, unescape (g.dataChars pktLen ptrNext) = some d ∧
          d.length = length.toNat) ∧
    ((g.WritesOnlyDecoded pktLen fun g =>
        g.cmdWriteMemory pktLen (GdbDec.reporting gdbDecBin)) ↔
      ∀ addr length ptrNext, g.writeArgs pktLen = some (addr, length, ptrNext) →
        length.toNat ≤ 64 → ∀ d, unescape (g.dataChars pktLen ptrNext) = some d →
          length.toNat ≤ d.length) := by
  refine ⟨?_, Gdb.writesOnlyDecoded_reporting_iff⟩
  refine Iff.trans (Gdb.writesOnlyDecoded_congr fun scratch ack rest => ?_)
    Gdb.writesOnlyDecoded_iff
  exact Gdb.command_binary (g := g.onStack scratch ack rest) hletter pktLen

/-- A session that has received a packet. -/
def receivedPacket (p : List UInt8) : Gdb := freshSession.received p []

/-- `X-1,3:` with the bytes `00`, `7d` and `ff`, the second of them escaped, across the end of the
address space. -/
theorem binary_write_escaped :
    (receivedPacket [0x58, 0x2d, 0x31, 0x2c, 0x33, 0x3a, 0x00, 0x7d, 0x5d, 0xff]).WritesOnlyDecoded
      10 fun g => g.command 10 := by
  refine (binary_write_iff _ 10 rfl).1.mpr fun addr length ptrNext hargs _ => ?_
  have hread : (receivedPacket
      [0x58, 0x2d, 0x31, 0x2c, 0x33, 0x3a, 0x00, 0x7d, 0x5d, 0xff]).writeArgs 10 =
        some (0xffffffff, 3, 6) := by decide
  rw [hread] at hargs
  cases hargs
  exact ⟨[0x00, 0x7d, 0xff], by decide, rfl⟩

/-- A session that has received `X0,2:` with the one byte `aa`, on a stack full of `cc`. -/
def shortWrite : Gdb :=
  { receivedPacket [0x58, 0x30, 0x2c, 0x32, 0x3a, 0xaa] with scratch := fun _ => 0xcc }

/-- `X0,2:` with the one byte `aa` is answered with `OK`, and the second byte comes from
the stack. -/
theorem binary_write_short :
    ¬ (∀ (g : Gdb) (pktLen : ℕ), g.pktBuf 0 = 'X'.toUInt8 →
      g.WritesOnlyDecoded pktLen fun g => g.command pktLen) ∧
    ∃ g', (shortWrite.onStack shortWrite.scratch '+'.toUInt8 []).answer
        ((shortWrite.onStack shortWrite.scratch '+'.toUInt8 []).command 6) = .ok g' ∧
      g'.output = shortWrite.output ++ Gdb.frame Gdb.okReply ∧ g'.memory 0 = 0xaa ∧
      g'.memory 1 = 0xcc := by
  have hargs : shortWrite.writeArgs 6 = some (0, 2, 5) := by decide
  have hd : unescape (shortWrite.dataChars 6 5) = some [0xaa] := by decide
  have hlen : (2 : UInt32).toNat ≤ Gdb.memDataLen := by decide
  have hdec : gdbDecBin (fun i => shortWrite.pktBuf (5 + i)) (Gdb.remainingBuf 6 5)
      (2 : UInt32).toNat = .bytes [0xaa] := gdbDecBin_bytes hd (by decide)
  have hcommand : ∀ scratch ack rest, (shortWrite.onStack scratch ack rest).command 6 =
      (shortWrite.onStack scratch ack rest).cmdWriteMemory 6 gdbDecBin :=
    fun scratch ack rest => Gdb.command_binary (g := shortWrite.onStack scratch ack rest) rfl 6
  refine ⟨fun hall => ?_, ?_⟩
  · refine Gdb.not_writesOnlyDecoded_short hargs hlen hdec hd (by decide) ?_
    exact (Gdb.writesOnlyDecoded_congr hcommand).mp (hall shortWrite 6 rfl)
  · rw [hcommand, Gdb.answer_bytes hargs hlen hdec]
    exact ⟨_, rfl, rfl, rfl, rfl⟩

end MicroOS
