import MicroOS.Gdb.Encoding
import MicroOS.Utils.String

/-!
The debugger of `gdb/gdb.c`, with `gdb/connection.c` and `gdb/system.c`.

* `Gdb`: the state of a session: the registers, the memory, the packet buffer and the serial line;
* `Gdb.recvPacket`, `Gdb.sendPacket`: packets on the line;
* `Gdb.turn`: a turn of the loop of `gdb_main`, with a definition for each command;
* `Gdb.recvPacket_framed`: a packet that fits the buffer is received.

The debugger's own data lies apart from the memory that the packets name.
-/

namespace MicroOS

open ByteImage ByteMem Checked Hex

/-! ### The session -/

/-- `GDB_CPU_NUM_REGISTERS`. -/
def gdbNumRegisters : ℕ := 16

/-- `gdb_state_t`, with the byte of `signum` that is sent. -/
structure GdbState where
  signum : UInt8
  registers : Fin gdbNumRegisters → UInt32

/-- A session: `pktBuf` is the packet buffer and what lies behind it, `scratch` what the array of
`gdb_mem_write` holds before anything is written to it, `input` what the host sends and `output`
what was sent to it. -/
structure Gdb where
  state : GdbState
  memory : Mem
  pktBuf : ℕ → UInt8
  scratch : ℕ → UInt8
  input : List UInt8
  output : List UInt8

/-- Why the loop of `gdb_main` does not go on: `gdb_main` has returned, an assertion failed, nothing
more arrives, or the power was turned off. -/
inductive GdbEnd where
  | returned (g : Gdb)
  | asserted
  | waiting
  | powerOff

/-- The registers as bytes. -/
def registerBytes (registers : Fin gdbNumRegisters → UInt32) : List UInt8 :=
  (List.ofFn fun i => (registers i).toNat).flatMap (leBytes 4)

/-- Registers that were written as bytes. -/
def registersOfBytes (data : List UInt8) : Fin gdbNumRegisters → UInt32 :=
  fun i => UInt32.ofNat (leValue (fun j => data.getD j 0) (4 * i) 4)

namespace Gdb

/-! ### Packets -/

/-- `sizeof(pkt_buf)`. -/
def pktBufLen : ℕ := 256

/-- `gdb_checksum`. -/
def checksum (buf : List UInt8) : UInt8 := buf.foldl (· + ·) 0

/-- `gdb_write`. -/
def write (g : Gdb) (buf : List UInt8) : Gdb := { g with output := g.output ++ buf }

/-- `gdb_recv_ack`: what the answer is does not matter. -/
def recvAck (g : Gdb) : Except GdbEnd Gdb :=
  match g.input with
  | [] => .error .waiting
  | _ :: input => .ok { g with input }

/-- `gdb_send_packet`. -/
def sendPacket (g : Gdb) (pktData : List UInt8) : Except GdbEnd Gdb :=
  match gdbEncHex 2 [checksum pktData] with
  | none => .ok (g.write ('$'.toUInt8 :: pktData))
  | some csum => (g.write ('$'.toUInt8 :: pktData ++ '#'.toUInt8 :: csum)).recvAck

/-- The first loop of `gdb_recv_packet`. -/
def skipStart (g : Gdb) : List UInt8 → Except GdbEnd Gdb
  | [] => .error .waiting
  | data :: input =>
    if data = 0xff then .error (.returned { g with input })
    else if data = '$'.toUInt8 then .ok { g with input }
    else g.skipStart input

/-- The second loop of `gdb_recv_packet`. -/
def readData (g : Gdb) (pktLen : ℕ) : List UInt8 → Except GdbEnd (Gdb × ℕ)
  | [] => .error .waiting
  | data :: input =>
    if data = 0xff then .error (.returned { g with input })
    else if data = '#'.toUInt8 then .ok ({ g with input }, pktLen)
    else if pktBufLen ≤ pktLen then .error (.returned { g with input })
    else { g with pktBuf := Function.update g.pktBuf pktLen data }.readData (pktLen + 1) input

/-- `gdb_read` of the two digits of a checksum. -/
def readChecksum (g : Gdb) : Except GdbEnd (Gdb × (ℕ → UInt8)) :=
  match g.input with
  | [] => .error .waiting
  | c :: input =>
    if c = 0xff then .error (.returned { g with input })
    else
      match input with
      | [] => .error .waiting
      | c' :: input =>
        if c' = 0xff then .error (.returned { g with input })
        else .ok ({ g with input }, fun i => if i = 0 then c else c')

/-- `gdb_recv_packet`, with the length of the packet. -/
def recvPacket (g : Gdb) : Except GdbEnd (Gdb × ℕ) := do
  let g ← g.skipStart g.input
  let (g, pktLen) ← g.readData 0 g.input
  let (g, buf) ← g.readChecksum
  match gdbDecHex buf 2 1 with
  | .eof => throw (.returned g)
  | .asserted => throw .asserted
  | .bytes expected =>
    if checksum ((List.range pktLen).map g.pktBuf) ≠ expected.getD 0 0 then
      throw (.returned (g.write ['-'.toUInt8]))
    else return (g.write ['+'.toUInt8], pktLen)

/-! ### Commands -/

/-- Bytes are encoded at the start of the packet buffer and sent; none is `goto error`. -/
def sendEncoded (g : Gdb) (data : List UInt8) : Except GdbEnd (Option Gdb) :=
  match gdbEncHex pktBufLen data with
  | none => .ok none
  | some status =>
    let g := { g with pktBuf := store g.pktBuf 0 status }
    some <$> g.sendPacket ((List.range status.length).map g.pktBuf)

/-- `gdb_send_ok_packet`. -/
def sendOkPacket (g : Gdb) : Except GdbEnd Gdb := g.sendPacket ['O'.toUInt8, 'K'.toUInt8]

/-- `gdb_send_signal_packet` and `gdb_send_error_packet`: a letter and a byte. -/
def sendBytePacket (g : Gdb) (letter b : UInt8) : Except GdbEnd Gdb :=
  match gdbEncHex (pktBufLen - 1) [b] with
  | none => .ok g
  | some status =>
    let g := { g with pktBuf := store g.pktBuf 0 (letter :: status) }
    g.sendPacket ((List.range (1 + status.length)).map g.pktBuf)

/-- `gdb_send_signal_packet`. -/
def sendSignalPacket (g : Gdb) (signal : UInt8) : Except GdbEnd Gdb :=
  g.sendBytePacket 'S'.toUInt8 signal

/-- `gdb_send_error_packet`. -/
def sendErrorPacket (g : Gdb) (error : UInt8) : Except GdbEnd Gdb :=
  g.sendBytePacket 'E'.toUInt8 error

/-- `token_remaining_buf`. -/
def remainingBuf (pktLen ptrNext : ℕ) : ℤ := (pktLen : ℤ) - ptrNext

/-- `token_remaining_buf` as the `len` of `gdb_strtol`, which is unsigned. -/
def remainingLen (pktLen ptrNext : ℕ) : ℕ :=
  if ptrNext ≤ pktLen then pktLen - ptrNext else 2 ^ 32 - (ptrNext - pktLen)

/-- `token_expect_integer_arg`: the argument and the place behind it. -/
def integerArg (g : Gdb) (pktLen ptrNext : ℕ) : Option (UInt32 × ℕ) :=
  match gdbStrtol (fun i => g.pktBuf (ptrNext + i)) (remainingLen pktLen ptrNext) 16 with
  | (arg, some endptr) => some (arg, ptrNext + endptr)
  | (_, none) => none

/-- `token_expect_seperator`. -/
def seperator (g : Gdb) (ptrNext : ℕ) (c : UInt8) : Option ℕ :=
  if g.pktBuf ptrNext ≠ c then none else some (ptrNext + 1)

/-- The address and the length of a command on memory, and the place behind them. -/
def memoryArgs (g : Gdb) (pktLen : ℕ) : Option (UInt32 × UInt32 × ℕ) := do
  let (addr, ptrNext) ← g.integerArg pktLen 1
  let ptrNext ← g.seperator ptrNext ','.toUInt8
  let (length, ptrNext) ← g.integerArg pktLen ptrNext
  return (addr, length, ptrNext)

/-- `sizeof(data)` in `gdb_mem_read` and `gdb_mem_write`. -/
def memDataLen : ℕ := 64

/-- `gdb_mem_read`, up to the encoding. -/
def memRead (g : Gdb) (addr length : UInt32) : Option (List UInt8) :=
  if memDataLen < length.toNat then none
  else some ((List.range length.toNat).map fun pos => g.memory (addr + UInt32.ofNat pos).toNat)

/-- `gdb_mem_write` of the characters from `ptrNext` on; none is `GDB_EOF`. -/
def memWrite (g : Gdb) (ptrNext : ℕ) (bufLen : ℤ) (addr length : UInt32) (dec : GdbDec) :
    Except GdbEnd (Option Gdb) :=
  if memDataLen < length.toNat then .ok none
  else
    match dec (fun i => g.pktBuf (ptrNext + i)) bufLen length.toNat with
    | .eof => .ok none
    | .asserted => .error .asserted
    | .bytes data => .ok (some { g with
        memory := storeBytes g.memory addr.toNat
          ((List.range length.toNat).map fun pos => data.getD pos (g.scratch pos)) })

/-- The case for `'g'`. -/
def cmdReadRegisters (g : Gdb) : Except GdbEnd (Option Gdb) :=
  g.sendEncoded (registerBytes g.state.registers)

/-- The case for `'G'`. -/
def cmdWriteRegisters (g : Gdb) (pktLen : ℕ) : Except GdbEnd (Option Gdb) :=
  match gdbDecHex (fun i => g.pktBuf (1 + i)) (pktLen - 1) (4 * gdbNumRegisters) with
  | .eof => .ok none
  | .asserted => .error .asserted
  | .bytes data =>
    some <$> { g with state := { g.state with registers := registersOfBytes data } }.sendOkPacket

/-- The case for `'p'`. -/
def cmdReadRegister (g : Gdb) (pktLen : ℕ) : Except GdbEnd (Option Gdb) :=
  match g.integerArg pktLen 1 with
  | none => .ok none
  | some (addr, _) =>
    if h : addr.toNat < gdbNumRegisters then
      g.sendEncoded (leBytes 4 (g.state.registers ⟨addr.toNat, h⟩).toNat)
    else .ok none

/-- The number of a register, and the place of its value. -/
def registerArgs (g : Gdb) (pktLen : ℕ) : Option (UInt32 × ℕ) := do
  let (addr, ptrNext) ← g.integerArg pktLen 1
  return (addr, ← g.seperator ptrNext '='.toUInt8)

/-- The case for `'P'`. A register that there is not is accepted. -/
def cmdWriteRegister (g : Gdb) (pktLen : ℕ) : Except GdbEnd (Option Gdb) :=
  match g.registerArgs pktLen with
  | none => .ok none
  | some (addr, ptrNext) =>
    if h : addr.toNat < gdbNumRegisters then
      match gdbDecHex (fun i => g.pktBuf (ptrNext + i)) (remainingBuf pktLen ptrNext) 4 with
      | .eof => .ok none
      | .asserted => .error .asserted
      | .bytes data =>
        let value := UInt32.ofNat (leValue (fun j => data.getD j 0) 0 4)
        some <$> { g with state := { g.state with
          registers := Function.update g.state.registers ⟨addr.toNat, h⟩ value } }.sendOkPacket
    else some <$> g.sendOkPacket

/-- The case for `'m'`. -/
def cmdReadMemory (g : Gdb) (pktLen : ℕ) : Except GdbEnd (Option Gdb) :=
  match g.memoryArgs pktLen with
  | none => .ok none
  | some (addr, length, _) =>
    match g.memRead addr length with
    | none => .ok none
    | some data => g.sendEncoded data

/-- The address and the length of a write, and the place of the data. -/
def writeArgs (g : Gdb) (pktLen : ℕ) : Option (UInt32 × UInt32 × ℕ) := do
  let (addr, length, ptrNext) ← g.memoryArgs pktLen
  return (addr, length, ← g.seperator ptrNext ':'.toUInt8)

/-- The cases for `'M'` and `'X'`. -/
def cmdWriteMemory (g : Gdb) (pktLen : ℕ) (dec : GdbDec) : Except GdbEnd (Option Gdb) :=
  match g.writeArgs pktLen with
  | none => .ok none
  | some (addr, length, ptrNext) => do
      match ← g.memWrite ptrNext (remainingBuf pktLen ptrNext) addr length dec with
      | none => return none
      | some g => some <$> g.sendOkPacket

/-- `GDB_CPU_I386_REG_PS`. -/
def regPs : Fin gdbNumRegisters := ⟨9, by decide⟩

/-- `gdb_sys_continue` and `gdb_sys_step`: the trap flag. -/
def setTrap (g : Gdb) (trap : Bool) : Gdb :=
  let ps := g.state.registers regPs
  let flag : UInt32 := 0x100
  { g with state := { g.state with
      registers := Function.update g.state.registers regPs
        (if trap then ps ||| flag else ps &&& ~~~flag) } }

/-- The switch of `gdb_main`; none is `goto error`. -/
def command (g : Gdb) (pktLen : ℕ) : Except GdbEnd (Option Gdb) :=
  let c := g.pktBuf 0
  if c = 'g'.toUInt8 then g.cmdReadRegisters
  else if c = 'G'.toUInt8 then g.cmdWriteRegisters pktLen
  else if c = 'p'.toUInt8 then g.cmdReadRegister pktLen
  else if c = 'P'.toUInt8 then g.cmdWriteRegister pktLen
  else if c = 'm'.toUInt8 then g.cmdReadMemory pktLen
  else if c = 'M'.toUInt8 then g.cmdWriteMemory pktLen gdbDecHex
  else if c = 'X'.toUInt8 then g.cmdWriteMemory pktLen gdbDecBin
  else if c = 'c'.toUInt8 then .error (.returned (g.setTrap false))
  else if c = 's'.toUInt8 then .error (.returned (g.setTrap true))
  else if c = '?'.toUInt8 then some <$> g.sendSignalPacket g.state.signum
  else if c = 'k'.toUInt8 then .error .powerOff
  else some <$> g.sendPacket []

/-- A turn of the loop of `gdb_main`. -/
def turn (g : Gdb) : Except GdbEnd Gdb := do
  let (g, pktLen) ← g.recvPacket
  if pktLen = 0 then return g
  else
    match ← g.command pktLen with
    | none => g.sendErrorPacket 0
    | some g => return g

/-- `gdb_main` up to a number of turns of its loop. -/
def main (g : Gdb) (n : ℕ) : Except GdbEnd Gdb := do
  let g ← g.sendSignalPacket g.state.signum
  (List.range n).foldlM (fun g _ => g.turn) g

/-! ### Packets that arrive -/

/-- A packet as the line carries it, with its checksum in digits of either case. -/
def Framed (p f : List UInt8) : Prop :=
  ∃ csum, f = '$'.toUInt8 :: (p ++ '#'.toUInt8 :: csum) ∧ Spells csum [checksum p]

/-- A packet as it is sent. -/
def frame (p : List UInt8) : List UInt8 := '$'.toUInt8 :: (p ++ '#'.toUInt8 :: text [checksum p])

/-- The host sends a packet that fits the buffer, and a character that acknowledges the answer. -/
def Sends (input p rest : List UInt8) : Prop :=
  ∃ f ack, input = f ++ ack :: rest ∧ Framed p f ∧ p.length ≤ pktBufLen

/-- A character that a packet may have. -/
def Plain (c : UInt8) : Prop := c ≠ 0xff ∧ c ≠ '#'.toUInt8

instance (c : UInt8) : Decidable (Plain c) := inferInstanceAs (Decidable (_ ∧ _))

variable {g : Gdb} {p f rest : List UInt8}

/-- A digit needs no escape. -/
lemma plain_digit (c : UInt8) (k : ℕ) (h : Digit c k) : Plain c := by
  have hval := gdbGetVal_digit h
  have hnone : ∀ c, gdbGetVal c 16 = none → gdbGetVal c 16 ≠ some k := fun c hc => by
    rw [hc]
    exact nofun
  refine ⟨?_, ?_⟩ <;> (rintro rfl; exact hnone _ rfl hval)

/-- The characters of a packet go to the buffer. -/
lemma readData_plain {n : ℕ} (csum : List UInt8) (hp : ∀ c ∈ p, Plain c)
    (hn : n + p.length ≤ pktBufLen) :
    g.readData n (p ++ '#'.toUInt8 :: csum) =
      .ok ({ g with pktBuf := store g.pktBuf n p, input := csum }, n + p.length) := by
  induction p generalizing g n with
  | nil =>
    rw [store_nil]
    rfl
  | cons c p ih =>
    obtain ⟨⟨hff, hhash⟩, hp⟩ := List.forall_mem_cons.mp hp
    rw [List.length_cons] at hn
    rw [List.cons_append, readData, if_neg hff, if_neg hhash, if_neg (by omega),
      ih hp (by omega)]
    dsimp only
    rw [store_update, List.length_cons, Nat.add_right_comm, Nat.add_assoc]

/-- The session when a packet has been received. -/
def received (g : Gdb) (p rest : List UInt8) : Gdb :=
  { g with
    pktBuf := store g.pktBuf 0 p
    input := rest
    output := g.output ++ ['+'.toUInt8] }

/-- What stands in front of a packet is skipped. -/
lemma skipStart_garbage {w : List UInt8} (hw : ∀ c ∈ w, c ≠ 0xff ∧ c ≠ '$'.toUInt8) :
    g.skipStart (w ++ '$'.toUInt8 :: rest) = .ok { g with input := rest } := by
  induction w with
  | nil => rfl
  | cons c w ih =>
    have hc := hw c List.mem_cons_self
    rw [List.cons_append, skipStart, if_neg hc.1, if_neg hc.2]
    exact ih fun c hc => hw c (List.mem_cons_of_mem _ hc)

/-- A packet is taken from the line, and then its sum is compared with the digits behind it. -/
lemma recvPacket_digits {w csum : List UInt8} {b : UInt8}
    (hinput : g.input = w ++ '$'.toUInt8 :: (p ++ '#'.toUInt8 :: (csum ++ rest)))
    (hw : ∀ c ∈ w, c ≠ 0xff ∧ c ≠ '$'.toUInt8) (hp : ∀ c ∈ p, Plain c)
    (hlen : p.length ≤ pktBufLen) (hcsum : Spells csum [b]) :
    g.recvPacket =
      if checksum p ≠ b then .error (.returned { g with
        pktBuf := store g.pktBuf 0 p
        input := rest
        output := g.output ++ ['-'.toUInt8] })
      else .ok (g.received p rest, p.length) := by
  obtain ⟨c, c', rfl⟩ := List.length_eq_two.mp hcsum.length_eq
  have hplain := hcsum.forall_mem plain_digit
  have hdec : gdbDecHex (fun i => if i = 0 then c else c') 2 1 = .bytes [b] := by
    refine gdbDecHex_spells hcsum ?_ rfl
    exact holds_cons.mpr ⟨rfl, holds_cons.mpr ⟨rfl, holds_nil⟩⟩
  have hread : (List.range p.length).map (store g.pktBuf 0 p) = p := holds_store.map_range
  have hskip : g.skipStart g.input =
      .ok { g with input := p ++ '#'.toUInt8 :: c :: c' :: rest } := by
    rw [hinput]
    exact skipStart_garbage hw
  have hdata := readData_plain (g := { g with input := p ++ '#'.toUInt8 :: c :: c' :: rest })
    (n := 0) (c :: c' :: rest) hp (by rwa [Nat.zero_add])
  rw [Nat.zero_add] at hdata
  have hdigits : ∀ g : Gdb, g.input = c :: c' :: rest → g.readChecksum =
      .ok ({ g with input := rest }, fun i => if i = 0 then c else c') := by
    intro g hg
    rw [readChecksum, hg]
    dsimp only
    rw [if_neg (hplain c List.mem_cons_self).1]
    exact if_neg (hplain c' (List.mem_cons_of_mem _ List.mem_cons_self)).1
  rw [recvPacket, hskip, ok_bind, hdata, ok_bind]
  dsimp only
  rw [hdigits _ rfl, ok_bind]
  dsimp only
  rw [hdec]
  dsimp only
  rw [hread]
  rfl

/-- **A packet is received** into the buffer, and its receipt is acknowledged. -/
lemma recvPacket_framed (hinput : g.input = f ++ rest) (hf : Framed p f) (hp : ∀ c ∈ p, Plain c)
    (hlen : p.length ≤ pktBufLen) :
    g.recvPacket = .ok (g.received p rest, p.length) := by
  obtain ⟨csum, rfl, hcsum⟩ := hf
  have hline : g.input = [] ++ '$'.toUInt8 :: (p ++ '#'.toUInt8 :: (csum ++ rest)) := by
    rw [hinput, List.cons_append, List.append_assoc]
    rfl
  rw [recvPacket_digits hline (by simp) hp hlen hcsum]
  exact if_neg (not_not.mpr rfl)

/-! ### Packets that are answered -/

/-- A packet is sent, and the answer to it is read. -/
lemma sendPacket_ok {ack : UInt8} (hinput : g.input = ack :: rest) (p : List UInt8) :
    g.sendPacket p = .ok { g with output := g.output ++ frame p, input := rest } := by
  rw [sendPacket, gdbEncHex_eq (by norm_num)]
  dsimp only
  rw [recvAck, show (g.write _).input = g.input from rfl, hinput]
  rfl

/-- Bytes are sent as digits. -/
lemma sendEncoded_ok {ack : UInt8} (hinput : g.input = ack :: rest) {data : List UInt8}
    (hlen : data.length * 2 ≤ pktBufLen) : g.sendEncoded data = .ok (some { g with
      pktBuf := store g.pktBuf 0 (text data)
      output := g.output ++ frame (text data)
      input := rest }) := by
  rw [sendEncoded, gdbEncHex_eq hlen]
  dsimp only
  have hsent := sendPacket_ok (g := { g with pktBuf := store g.pktBuf 0 (text data) }) hinput
    (text data)
  rw [holds_store.map_range, hsent]
  rfl

/-- **A turn answers**: the packet is acknowledged and `reply` is sent. -/
structure Answers (g g' : Gdb) (reply rest : List UInt8) : Prop where
  turn : g.turn = .ok g'
  output : g'.output = g.output ++ '+'.toUInt8 :: frame reply
  input : g'.input = rest

/-- A turn runs the command of the packet that was sent, and what the command sends is the
answer. -/
lemma answers_of_command {g' : Gdb} {reply : List UInt8} {ack : UInt8}
    (hinput : g.input = f ++ ack :: rest) (hf : Framed p f) (hp : ∀ c ∈ p, Plain c)
    (hlen : p.length ≤ pktBufLen) (hne : p ≠ [])
    (hcommand : (g.received p (ack :: rest)).command p.length = .ok (some g'))
    (houtput : g'.output = (g.received p (ack :: rest)).output ++ frame reply)
    (hrest : g'.input = rest) : g.Answers g' reply rest := by
  refine ⟨?_, ?_, hrest⟩
  · rw [turn, recvPacket_framed hinput hf hp hlen, ok_bind]
    dsimp only
    rw [if_neg fun h => hne (List.length_eq_zero_iff.mp h), hcommand]
    rfl
  · rw [houtput, received, List.append_assoc]
    rfl

/-! ### Arguments -/

/-- A number in a packet is read. -/
lemma integerArg_numeral {s : List UInt8} {v : UInt32} {pktLen ptrNext : ℕ} (hs : Hex.Numeral s v)
    (hbuf : Holds g.pktBuf ptrNext s) (hlen : ptrNext + s.length ≤ pktLen)
    (hend : ptrNext + s.length < pktLen → EndsNumber (g.pktBuf (ptrNext + s.length))) :
    g.integerArg pktLen ptrNext = some (v, ptrNext + s.length) := by
  have hnumber : gdbStrtol (fun i => g.pktBuf (ptrNext + i)) (pktLen - ptrNext) 16 =
      (v, some s.length) :=
    gdbStrtol_numeral hs (holds_shift.mpr hbuf) (by omega) fun hlt => hend (by omega)
  rw [integerArg, remainingLen, if_pos (by omega), hnumber]

lemma seperator_eq {ptrNext : ℕ} {c : UInt8} (h : g.pktBuf ptrNext = c) :
    g.seperator ptrNext c = some (ptrNext + 1) := if_neg (not_not.mpr h)

/-- The address and the length of a command on memory are read. -/
lemma memoryArgs_numerals {a len tail : List UInt8} {letter : UInt8} {addr length : UInt32}
    (ha : Hex.Numeral a addr) (hl : Hex.Numeral len length)
    (hp : p = letter :: (a ++ ','.toUInt8 :: (len ++ tail))) (hbuf : Holds g.pktBuf 0 p)
    (htail : ∀ c ∈ tail.head?, EndsNumber c) :
    g.memoryArgs p.length = some (addr, length, 1 + a.length + 1 + len.length) ∧
      Holds g.pktBuf (1 + a.length + 1 + len.length) tail ∧
      p.length = 1 + a.length + 1 + len.length + tail.length := by
  have hlen : p.length = 1 + a.length + 1 + len.length + tail.length := by
    rw [hp, List.length_cons, List.length_append, List.length_cons, List.length_append]
    ring
  rw [hp] at hbuf
  obtain ⟨hbufa, hbuf⟩ := holds_append.mp (holds_cons.mp hbuf).2
  obtain ⟨hcomma, hbuf⟩ := holds_cons.mp hbuf
  obtain ⟨hbufl, hbuft⟩ := holds_append.mp hbuf
  rw [Nat.zero_add] at hbufa hcomma hbufl hbuft
  refine ⟨?_, hbuft, hlen⟩
  have haddr : g.integerArg p.length 1 = some (addr, 1 + a.length) := by
    refine integerArg_numeral ha hbufa (by omega) fun _ => ?_
    rw [hcomma]
    decide
  have hlength : g.integerArg p.length (1 + a.length + 1) =
      some (length, 1 + a.length + 1 + len.length) := by
    refine integerArg_numeral hl hbufl (by omega) fun hlt => ?_
    cases tail with
    | nil => exact absurd hlen (by rw [List.length_nil]; omega)
    | cons c tail =>
      rw [(holds_cons.mp hbuft).1]
      exact htail c rfl
  rw [memoryArgs, haddr]
  change (do let ptrNext ← g.seperator (1 + a.length) ','.toUInt8; _) = _
  rw [seperator_eq hcomma]
  change (do let (length, ptrNext) ← g.integerArg p.length (1 + a.length + 1); _) = _
  rw [hlength]
  rfl

/-! ### Commands on memory -/

/-- `M a,len:h`. -/
def writeMemoryPacket (a len h : List UInt8) : List UInt8 :=
  'M'.toUInt8 :: (a ++ ','.toUInt8 :: (len ++ ':'.toUInt8 :: h))

/-- `m a,len`. -/
def readMemoryPacket (a len : List UInt8) : List UInt8 := 'm'.toUInt8 :: (a ++ ','.toUInt8 :: len)

/-- The answer when all went well. -/
def okReply : List UInt8 := ['O'.toUInt8, 'K'.toUInt8]

lemma plain_numeral {s : List UInt8} {v : UInt32} (hs : Hex.Numeral s v) : ∀ c ∈ s, Plain c :=
  hs.forall_mem plain_digit (by decide)

lemma holds_received (g : Gdb) (p rest : List UInt8) : Holds (g.received p rest).pktBuf 0 p :=
  show Holds (store g.pktBuf 0 p) 0 p from holds_store

/-- An array that was filled. -/
lemma map_getD_range (d : List UInt8) (scratch : ℕ → UInt8) :
    ((List.range d.length).map fun pos => d.getD pos (scratch pos)) = d := by
  refine List.ext_getElem (by simp) fun i hi hi' => ?_
  rw [List.getElem_map, List.getElem_range, List.getD_eq_getElem?_getD,
    List.getElem?_eq_getElem hi', Option.getD_some]

end Gdb

end MicroOS
