import MicroOS.Gdb.Session

/-!
What the debugger writes is read back.

* `Gdb.cmdWriteMemory_ok`, `Gdb.cmdReadMemory_ok` and those on registers: what a command does when
  its packet is well formed;
* `Gdb.answers_writeMemory`, `Gdb.answers_readMemory` and those on registers: the turn of
  `gdb_main` on such a packet;
* `debugger_round_trips`: **memory, the registers and each register** that were written are read
  back.
-/

namespace MicroOS

open ByteImage ByteMem Checked Hex

namespace Gdb

variable {g : Gdb} {p rest : List UInt8}

/-! ### Commands on memory -/

lemma sendOkPacket_ok {ack : UInt8} (hinput : g.input = ack :: rest) :
    g.sendOkPacket = .ok { g with output := g.output ++ frame okReply, input := rest } :=
  sendPacket_ok hinput okReply

/-- A length that the array of bytes has room for. -/
lemma toNat_ofNat_memDataLen {n : ℕ} (hn : n ≤ memDataLen) : (UInt32.ofNat n).toNat = n := by
  rw [memDataLen] at hn
  exact UInt32.toNat_ofNat_of_lt' (by rw [UInt32.size]; omega)

/-- The command `M` stores the bytes. -/
lemma cmdWriteMemory_ok {a len h d : List UInt8} {addr : UInt32} {ack : UInt8}
    (ha : Hex.Numeral a addr) (hl : Hex.Numeral len (UInt32.ofNat d.length))
    (hd : d.length ≤ memDataLen)
    (hs : Spells h d) (hp : p = writeMemoryPacket a len h) (hbuf : Holds g.pktBuf 0 p)
    (hinput : g.input = ack :: rest) :
    g.cmdWriteMemory p.length gdbDecHex = .ok (some { g with
      memory := storeBytes g.memory addr.toNat d
      output := g.output ++ frame okReply
      input := rest }) := by
  have hcolon : ∀ c ∈ (':'.toUInt8 :: h).head?, EndsNumber c := fun c hc => by
    obtain rfl := Option.some.inj hc
    decide
  obtain ⟨hargs, htail, hlen⟩ := memoryArgs_numerals ha hl hp hbuf hcolon
  obtain ⟨hsep, hbytes⟩ := holds_cons.mp htail
  generalize 1 + a.length + 1 + len.length = q at hargs hsep hbytes hlen
  have hlength := toNat_ofNat_memDataLen hd
  have hdec : gdbDecHex (fun i => g.pktBuf (q + 1 + i)) (remainingBuf p.length (q + 1)) d.length =
      .bytes d := by
    refine gdbDecHex_spells hs (holds_shift.mpr hbytes) ?_
    rw [remainingBuf, hlen, List.length_cons]
    push_cast
    ring
  have hwrite : g.memWrite (q + 1) (remainingBuf p.length (q + 1)) addr (UInt32.ofNat d.length)
      gdbDecHex = .ok (some { g with memory := storeBytes g.memory addr.toNat d }) := by
    rw [memWrite, hlength, if_neg (not_lt.mpr hd), hdec]
    dsimp only
    rw [map_getD_range]
  have hsent := sendOkPacket_ok (g := { g with memory := storeBytes g.memory addr.toNat d }) hinput
  have hwriteArgs : g.writeArgs p.length = some (addr, UInt32.ofNat d.length, q + 1) := by
    rw [writeArgs, hargs]
    change (do let ptrNext ← g.seperator q ':'.toUInt8; _) = _
    rw [seperator_eq hsep]
    rfl
  rw [cmdWriteMemory, hwriteArgs]
  dsimp only
  rw [hwrite, ok_bind]
  dsimp only
  rw [hsent]
  rfl

/-- The command `m` sends the bytes that are there. -/
lemma cmdReadMemory_ok {a len : List UInt8} {addr : UInt32} {n : ℕ} {ack : UInt8}
    (ha : Hex.Numeral a addr) (hl : Hex.Numeral len (UInt32.ofNat n)) (hn : n ≤ memDataLen)
    (hp : p = readMemoryPacket a len) (hbuf : Holds g.pktBuf 0 p) (hinput : g.input = ack :: rest) :
    let data := (List.range n).map fun pos => g.memory (addr + UInt32.ofNat pos).toNat
    g.cmdReadMemory p.length = .ok (some { g with
      pktBuf := store g.pktBuf 0 (text data)
      output := g.output ++ frame (text data)
      input := rest }) := by
  have hp' : p = 'm'.toUInt8 :: (a ++ ','.toUInt8 :: (len ++ [])) := by
    rw [List.append_nil]
    exact hp
  obtain ⟨hargs, -⟩ := memoryArgs_numerals ha hl hp' hbuf (by simp)
  have hlength := toNat_ofNat_memDataLen hn
  intro data
  have hdata : data.length * 2 ≤ pktBufLen := by
    rw [List.length_map, List.length_range]
    exact (Nat.mul_le_mul_right 2 hn).trans (by decide)
  rw [cmdReadMemory, hargs]
  dsimp only
  rw [memRead, hlength, if_neg (not_lt.mpr hn)]
  exact sendEncoded_ok hinput hdata

/-! ### Commands on registers -/

/-- `G h`. -/
def writeRegistersPacket (h : List UInt8) : List UInt8 := 'G'.toUInt8 :: h

/-- `g`. -/
def readRegistersPacket : List UInt8 := ['g'.toUInt8]

/-- `P n=h`. -/
def writeRegisterPacket (n h : List UInt8) : List UInt8 := 'P'.toUInt8 :: (n ++ '='.toUInt8 :: h)

/-- `p n`. -/
def readRegisterPacket (n : List UInt8) : List UInt8 := 'p'.toUInt8 :: n

/-- The file of the registers has four bytes for each. -/
lemma length_registerBytes (registers : Fin gdbNumRegisters → UInt32) :
    (registerBytes registers).length = 4 * gdbNumRegisters := by
  rw [registerBytes, length_leArray, List.length_ofFn]

/-- Bytes that are looked up in a list. -/
lemma holds_getD (d : List UInt8) : Holds (fun j => d.getD j 0) 0 d := by
  intro i b hb
  dsimp only
  rw [Nat.zero_add, List.getD_eq_getElem?_getD, hb, Option.getD_some]

/-- **The registers are read back** from their bytes. -/
lemma registersOfBytes_registerBytes (registers : Fin gdbNumRegisters → UInt32) :
    registersOfBytes (registerBytes registers) = registers := by
  funext i
  have hi : (List.ofFn fun i => (registers i).toNat)[i.val]? = some (registers i).toNat := by
    rw [List.getElem?_ofFn, dif_pos i.isLt]
  have hvalue := (holds_getD (registerBytes registers)).element hi (registers i).toNat_lt
  rw [Nat.zero_add] at hvalue
  rw [registersOfBytes, hvalue, UInt32.ofNat_toNat]

/-- A register is read back from its bytes. -/
lemma ofNat_leValue_leBytes (v : UInt32) :
    UInt32.ofNat (leValue (fun j => (leBytes 4 v.toNat).getD j 0) 0 4) = v := by
  rw [(holds_getD (leBytes 4 v.toNat)).leValue v.toNat_lt, UInt32.ofNat_toNat]

/-- The command `G` sets the registers. -/
lemma cmdWriteRegisters_ok {h : List UInt8} {registers : Fin gdbNumRegisters → UInt32} {ack : UInt8}
    (hs : Spells h (registerBytes registers)) (hp : p = writeRegistersPacket h)
    (hbuf : Holds g.pktBuf 0 p) (hinput : g.input = ack :: rest) :
    g.cmdWriteRegisters p.length = .ok (some { g with
      state := { g.state with registers := registers }
      output := g.output ++ frame okReply
      input := rest }) := by
  rw [hp, writeRegistersPacket] at hbuf
  have hbytes := (holds_cons.mp hbuf).2
  have hlen : (p.length : ℤ) - 1 = h.length := by
    rw [hp, writeRegistersPacket, List.length_cons]
    push_cast
    ring
  have hdec : gdbDecHex (fun i => g.pktBuf (1 + i)) ((p.length : ℤ) - 1) (4 * gdbNumRegisters) =
      .bytes (registerBytes registers) := by
    rw [← length_registerBytes registers]
    exact gdbDecHex_spells hs (holds_shift.mpr hbytes) hlen
  have hsent := sendOkPacket_ok
    (g := { g with state := { g.state with registers := registers } }) hinput
  rw [cmdWriteRegisters, hdec]
  dsimp only
  rw [registersOfBytes_registerBytes, hsent]
  rfl

/-- The command `g` sends the registers. -/
lemma cmdReadRegisters_ok {ack : UInt8} (hinput : g.input = ack :: rest) :
    g.cmdReadRegisters = .ok (some { g with
      pktBuf := store g.pktBuf 0 (text (registerBytes g.state.registers))
      output := g.output ++ frame (text (registerBytes g.state.registers))
      input := rest }) := by
  refine sendEncoded_ok hinput ?_
  rw [length_registerBytes]
  decide

/-- The command `P` sets one register. -/
lemma cmdWriteRegister_ok {n h : List UInt8} {number v : UInt32} {ack : UInt8}
    (hn : Hex.Numeral n number) (hlt : number.toNat < gdbNumRegisters)
    (hs : Spells h (leBytes 4 v.toNat)) (hp : p = writeRegisterPacket n h)
    (hbuf : Holds g.pktBuf 0 p) (hinput : g.input = ack :: rest) :
    g.cmdWriteRegister p.length = .ok (some { g with
      state := { g.state with
        registers := Function.update g.state.registers ⟨number.toNat, hlt⟩ v }
      output := g.output ++ frame okReply
      input := rest }) := by
  have hlen : p.length = 1 + n.length + 1 + h.length := by
    rw [hp, writeRegisterPacket, List.length_cons, List.length_append, List.length_cons]
    ring
  rw [hp, writeRegisterPacket] at hbuf
  obtain ⟨hnumber, hbuf⟩ := holds_append.mp (holds_cons.mp hbuf).2
  obtain ⟨hequals, hbytes⟩ := holds_cons.mp hbuf
  rw [Nat.zero_add] at hnumber hequals hbytes
  have harg : g.integerArg p.length 1 = some (number, 1 + n.length) := by
    refine integerArg_numeral hn hnumber (by omega) fun _ => ?_
    rw [hequals]
    decide
  have hargs : g.registerArgs p.length = some (number, 1 + n.length + 1) := by
    rw [registerArgs, harg]
    change (do return (number, ← g.seperator (1 + n.length) '='.toUInt8)) = _
    rw [seperator_eq hequals]
    rfl
  have hdec : gdbDecHex (fun i => g.pktBuf (1 + n.length + 1 + i))
      (remainingBuf p.length (1 + n.length + 1)) 4 = .bytes (leBytes 4 v.toNat) := by
    have hfour : (leBytes 4 v.toNat).length = 4 := length_leBytes 4 v.toNat
    rw [← hfour]
    refine gdbDecHex_spells hs (holds_shift.mpr hbytes) ?_
    rw [remainingBuf, hlen]
    push_cast
    ring
  have hsent := sendOkPacket_ok (g := { g with state := { g.state with
    registers := Function.update g.state.registers ⟨number.toNat, hlt⟩ v } }) hinput
  rw [cmdWriteRegister, hargs]
  dsimp only
  rw [dif_pos hlt, hdec]
  dsimp only
  rw [ofNat_leValue_leBytes, hsent]
  rfl

/-- The command `p` sends one register. -/
lemma cmdReadRegister_ok {n : List UInt8} {number : UInt32} {ack : UInt8}
    (hn : Hex.Numeral n number) (hlt : number.toNat < gdbNumRegisters)
    (hp : p = readRegisterPacket n)
    (hbuf : Holds g.pktBuf 0 p) (hinput : g.input = ack :: rest) :
    let data := leBytes 4 (g.state.registers ⟨number.toNat, hlt⟩).toNat
    g.cmdReadRegister p.length = .ok (some { g with
      pktBuf := store g.pktBuf 0 (text data)
      output := g.output ++ frame (text data)
      input := rest }) := by
  have hlen : p.length = 1 + n.length := by
    rw [hp, readRegisterPacket, List.length_cons]
    ring
  rw [hp, readRegisterPacket] at hbuf
  have hnumber := (holds_cons.mp hbuf).2
  rw [Nat.zero_add] at hnumber
  have harg : g.integerArg p.length 1 = some (number, 1 + n.length) :=
    integerArg_numeral hn hnumber (by omega) fun hmore =>
      absurd hmore (by omega)
  intro data
  have hdata : data.length * 2 ≤ pktBufLen := by
    rw [length_leBytes]
    decide
  rw [cmdReadRegister, harg]
  dsimp only
  rw [dif_pos hlt]
  exact sendEncoded_ok hinput hdata

/-! ### Turns that answer -/

/-- Numbers and digits between characters that are plain are plain. -/
lemma plain_pair {x y : List UInt8} {c c' : UInt8} (hc : Plain c) (hx : ∀ b ∈ x, Plain b)
    (hc' : Plain c') (hy : ∀ b ∈ y, Plain b) : ∀ b ∈ c :: (x ++ c' :: y), Plain b :=
  List.forall_mem_cons.mpr ⟨hc, List.forall_mem_append.mpr
    ⟨hx, List.forall_mem_cons.mpr ⟨hc', hy⟩⟩⟩

/-- The letter of a packet that was received. -/
lemma received_letter (g : Gdb) (letter : UInt8) (p rest : List UInt8) :
    (g.received (letter :: p) rest).pktBuf 0 = letter :=
  (holds_cons.mp (holds_received g (letter :: p) rest)).1

/-- **`M a,len:h` is answered with `OK`**, and stores the bytes. -/
lemma answers_writeMemory {a len h d : List UInt8} {addr : UInt32} (ha : Hex.Numeral a addr)
    (hl : Hex.Numeral len (UInt32.ofNat d.length)) (hd : d.length ≤ memDataLen) (hs : Spells h d)
    (hsends : Sends g.input (writeMemoryPacket a len h) rest) : ∃ g', g.Answers g' okReply rest ∧
      g'.memory = storeBytes g.memory addr.toNat d ∧ g'.state = g.state := by
  obtain ⟨f, ack, hinput, hf, hmax⟩ := hsends
  have hdata : ∀ c ∈ len ++ ':'.toUInt8 :: h, Plain c := List.forall_mem_append.mpr
    ⟨plain_numeral hl, List.forall_mem_cons.mpr ⟨by decide, hs.forall_mem plain_digit⟩⟩
  have hplain : ∀ b ∈ writeMemoryPacket a len h, Plain b :=
    plain_pair (by decide) (plain_numeral ha) (by decide) hdata
  have hbuf := holds_received g (writeMemoryPacket a len h) (ack :: rest)
  have hcommand := cmdWriteMemory_ok ha hl hd hs rfl hbuf rfl
  refine ⟨_, answers_of_command hinput hf hplain hmax (List.cons_ne_nil _ _)
    (Eq.trans ?_ hcommand) rfl rfl, rfl, rfl⟩
  rw [command, writeMemoryPacket, received_letter]
  rfl

/-- **`m a,len` is answered** with the bytes. -/
lemma answers_readMemory {a len d : List UInt8} {addr : UInt32} (ha : Hex.Numeral a addr)
    (hl : Hex.Numeral len (UInt32.ofNat d.length)) (hd : d.length ≤ memDataLen)
    (hmem : ∀ i < d.length, g.memory (wrap32 (addr.toNat + i)) = d.getD i 0)
    (hsends : Sends g.input (readMemoryPacket a len) rest) : ∃ g', g.Answers g' (text d) rest := by
  obtain ⟨f, ack, hinput, hf, hmax⟩ := hsends
  have hplain : ∀ b ∈ readMemoryPacket a len, Plain b :=
    plain_pair (by decide) (plain_numeral ha) (by decide) (plain_numeral hl)
  have hdata : (List.range d.length).map
      (fun pos => g.memory (addr + UInt32.ofNat pos).toNat) = d := by
    refine List.ext_getElem (by simp) fun i hi hi' => ?_
    have hadd : (addr + UInt32.ofNat i).toNat = wrap32 (addr.toNat + i) := by
      rw [UInt32.toNat_add, toNat_ofNat_memDataLen (hi'.le.trans hd), wrap32]
    rw [List.getElem_map, List.getElem_range, hadd, hmem i hi', List.getD_eq_getElem _ 0 hi']
  have hbuf := holds_received g (readMemoryPacket a len) (ack :: rest)
  have hcommand := cmdReadMemory_ok ha hl hd rfl hbuf rfl
  rw [show (g.received (readMemoryPacket a len) (ack :: rest)).memory = g.memory from rfl,
    hdata] at hcommand
  refine ⟨_, answers_of_command hinput hf hplain hmax (List.cons_ne_nil _ _)
    (Eq.trans ?_ hcommand) rfl rfl⟩
  rw [command, readMemoryPacket, received_letter]
  rfl

/-- **`G h` is answered with `OK`**, and sets the registers. -/
lemma answers_writeRegisters {h : List UInt8} {registers : Fin gdbNumRegisters → UInt32}
    (hs : Spells h (registerBytes registers))
    (hsends : Sends g.input (writeRegistersPacket h) rest) : ∃ g', g.Answers g' okReply rest ∧
      g'.state = { g.state with registers := registers } ∧ g'.memory = g.memory := by
  obtain ⟨f, ack, hinput, hf, hmax⟩ := hsends
  have hplain : ∀ c ∈ 'G'.toUInt8 :: h, Plain c :=
    List.forall_mem_cons.mpr ⟨by decide, hs.forall_mem plain_digit⟩
  have hbuf := holds_received g (writeRegistersPacket h) (ack :: rest)
  have hcommand := cmdWriteRegisters_ok hs rfl hbuf rfl
  refine ⟨_, answers_of_command hinput hf hplain hmax (List.cons_ne_nil _ _)
    (Eq.trans ?_ hcommand) rfl rfl, rfl, rfl⟩
  rw [command, writeRegistersPacket, received_letter]
  rfl

/-- **`g` is answered** with the registers. -/
lemma answers_readRegisters (hsends : Sends g.input readRegistersPacket rest) :
    ∃ g', g.Answers g' (text (registerBytes g.state.registers)) rest := by
  obtain ⟨f, ack, hinput, hf, hmax⟩ := hsends
  have hplain : ∀ c ∈ ['g'.toUInt8], Plain c := List.forall_mem_singleton.mpr (by decide)
  have hcommand := cmdReadRegisters_ok (g := g.received readRegistersPacket (ack :: rest)) rfl
  refine ⟨_, answers_of_command hinput hf hplain hmax (List.cons_ne_nil _ _)
    (Eq.trans ?_ hcommand) rfl rfl⟩
  rw [command, readRegistersPacket, received_letter]
  rfl

/-- **`P n=h` is answered with `OK`**, and sets one register. -/
lemma answers_writeRegister {n h : List UInt8} {number v : UInt32} (hn : Hex.Numeral n number)
    (hlt : number.toNat < gdbNumRegisters) (hs : Spells h (leBytes 4 v.toNat))
    (hsends : Sends g.input (writeRegisterPacket n h) rest) : ∃ g', g.Answers g' okReply rest ∧
      g'.state = { g.state with
        registers := Function.update g.state.registers ⟨number.toNat, hlt⟩ v } ∧
      g'.memory = g.memory := by
  obtain ⟨f, ack, hinput, hf, hmax⟩ := hsends
  have hplain : ∀ b ∈ writeRegisterPacket n h, Plain b :=
    plain_pair (by decide) (plain_numeral hn) (by decide) (hs.forall_mem plain_digit)
  have hbuf := holds_received g (writeRegisterPacket n h) (ack :: rest)
  have hcommand := cmdWriteRegister_ok hn hlt hs rfl hbuf rfl
  refine ⟨_, answers_of_command hinput hf hplain hmax (List.cons_ne_nil _ _)
    (Eq.trans ?_ hcommand) rfl rfl, rfl, rfl⟩
  rw [command, writeRegisterPacket, received_letter]
  rfl

/-- **`p n` is answered** with the register. -/
lemma answers_readRegister {n : List UInt8} {number : UInt32} (hn : Hex.Numeral n number)
    (hlt : number.toNat < gdbNumRegisters)
    (hsends : Sends g.input (readRegisterPacket n) rest) :
    ∃ g', g.Answers g' (text (leBytes 4 (g.state.registers ⟨number.toNat, hlt⟩).toNat)) rest := by
  obtain ⟨f, ack, hinput, hf, hmax⟩ := hsends
  have hplain : ∀ c ∈ 'p'.toUInt8 :: n, Plain c :=
    List.forall_mem_cons.mpr ⟨by decide, plain_numeral hn⟩
  have hbuf := holds_received g (readRegisterPacket n) (ack :: rest)
  have hcommand := cmdReadRegister_ok hn hlt rfl hbuf rfl
  refine ⟨_, answers_of_command hinput hf hplain hmax (List.cons_ne_nil _ _)
    (Eq.trans ?_ hcommand) rfl rfl⟩
  rw [command, readRegisterPacket, received_letter]
  rfl

end Gdb

/-! ### Round trips -/

/-- **What the debugger writes is read back**: bytes of memory, the registers, and each of them. -/
theorem debugger_round_trips (g : Gdb) :
    (∀ (a a' len len' h d rest rest' : List UInt8) (addr : UInt32),
      Hex.Numeral a addr → Hex.Numeral a' addr → Hex.Numeral len (UInt32.ofNat d.length) →
      Hex.Numeral len' (UInt32.ofNat d.length) → d.length ≤ 64 → Spells h d →
      Gdb.Sends g.input (Gdb.writeMemoryPacket a len h) rest →
      Gdb.Sends rest (Gdb.readMemoryPacket a' len') rest' →
      ∃ g₁ g₂, g.Answers g₁ Gdb.okReply rest ∧ g₁.state = g.state ∧
        (∀ i < d.length, g₁.memory (wrap32 (addr.toNat + i)) = d.getD i 0) ∧
        (∀ x, (∀ i < d.length, x ≠ wrap32 (addr.toNat + i)) → g₁.memory x = g.memory x) ∧
        g₁.Answers g₂ (text d) rest') ∧
    (∀ (h rest rest' : List UInt8) (registers : Fin gdbNumRegisters → UInt32),
      Spells h (registerBytes registers) → Gdb.Sends g.input (Gdb.writeRegistersPacket h) rest →
      Gdb.Sends rest Gdb.readRegistersPacket rest' →
      ∃ g₁ g₂, g.Answers g₁ Gdb.okReply rest ∧ g₁.memory = g.memory ∧
        g₁.Answers g₂ (text (registerBytes registers)) rest') ∧
    ∀ (n n' h rest rest' : List UInt8) (number v : UInt32) (hlt : number.toNat < gdbNumRegisters),
      Hex.Numeral n number → Hex.Numeral n' number → Spells h (leBytes 4 v.toNat) →
      Gdb.Sends g.input (Gdb.writeRegisterPacket n h) rest →
      Gdb.Sends rest (Gdb.readRegisterPacket n') rest' →
      ∃ g₁ g₂, g.Answers g₁ Gdb.okReply rest ∧ g₁.memory = g.memory ∧
        g₁.state = { g.state with
          registers := Function.update g.state.registers ⟨number.toNat, hlt⟩ v } ∧
        g₁.Answers g₂ (text (leBytes 4 v.toNat)) rest' := by
  refine ⟨?_, ?_, ?_⟩
  · -- memory: what is written stands there, so it is what is read
    intro a a' len len' h d rest rest' addr ha ha' hl hl' hd hs hwrite hread
    obtain ⟨g₁, hok, hmem, hstate⟩ := Gdb.answers_writeMemory ha hl hd hs hwrite
    have hstored : ∀ i < d.length, g₁.memory (wrap32 (addr.toNat + i)) = d.getD i 0 := by
      intro i hi
      rw [hmem]
      exact storeBytes_wrap addr.toNat_lt (hd.trans (by norm_num)) hi
    rw [← hok.input] at hread
    obtain ⟨g₂, hanswer⟩ := Gdb.answers_readMemory ha' hl' hd hstored hread
    refine ⟨g₁, g₂, hok, hstate, hstored, fun x hx => ?_, hanswer⟩
    rw [hmem]
    exact storeBytes_of_ne addr.toNat_lt hx
  · -- all the registers
    intro h rest rest' registers hs hwrite hread
    obtain ⟨g₁, hok, hstate, hmem⟩ := Gdb.answers_writeRegisters hs hwrite
    rw [← hok.input] at hread
    obtain ⟨g₂, hanswer⟩ := Gdb.answers_readRegisters hread
    rw [hstate] at hanswer
    exact ⟨g₁, g₂, hok, hmem, hanswer⟩
  · -- one register
    intro n n' h rest rest' number v hlt hn hn' hs hwrite hread
    obtain ⟨g₁, hok, hstate, hmem⟩ := Gdb.answers_writeRegister hn hlt hs hwrite
    rw [← hok.input] at hread
    obtain ⟨g₂, hanswer⟩ := Gdb.answers_readRegister hn' hlt hread
    rw [hstate] at hanswer
    dsimp only at hanswer
    rw [Function.update_self] at hanswer
    exact ⟨g₁, g₂, hok, hmem, hstate, hanswer⟩

/-- A session in which the host sends two packets. -/
def twoPackets (p q : List UInt8) : Gdb where
  state := ⟨5, fun _ => 0⟩
  memory := fun _ => 0
  pktBuf := fun _ => 0
  scratch := fun _ => 0
  input := Gdb.frame p ++ '+'.toUInt8 :: (Gdb.frame q ++ ['+'.toUInt8])
  output := []

/-- A framed packet on the line is sent, when it fits into the buffer. -/
lemma sends_frame {p : List UInt8} (rest : List UInt8) (hp : p.length ≤ Gdb.pktBufLen) :
    Gdb.Sends (Gdb.frame p ++ '+'.toUInt8 :: rest) p rest :=
  ⟨Gdb.frame p, '+'.toUInt8, rfl, ⟨text [Gdb.checksum p], rfl, spells_text _⟩, hp⟩

/-- Two bytes around the end of the address space, all registers, and the register `f`. -/
theorem debugger_round_trips_top :
    (∃ g₁ g₂ rest, (twoPackets (Gdb.writeMemoryPacket ['-'.toUInt8, '1'.toUInt8] ['2'.toUInt8]
        (text [0x0a, 0xff])) (Gdb.readMemoryPacket ['-'.toUInt8, '1'.toUInt8]
          ['2'.toUInt8])).Answers
          g₁ Gdb.okReply rest ∧ g₁.memory 0xffffffff = 0x0a ∧ g₁.memory 0 = 0xff ∧
        g₁.Answers g₂ (text [0x0a, 0xff]) []) ∧
    (∃ g₁ g₂ rest, (twoPackets (Gdb.writeRegistersPacket (text (registerBytes fun _ => 7)))
        Gdb.readRegistersPacket).Answers g₁ Gdb.okReply rest ∧
        g₁.Answers g₂ (text (registerBytes fun _ => 7)) []) ∧
    ∃ g₁ g₂ rest, (twoPackets (Gdb.writeRegisterPacket ['f'.toUInt8] (text (leBytes 4 7)))
        (Gdb.readRegisterPacket ['f'.toUInt8])).Answers g₁ Gdb.okReply rest ∧
        g₁.Answers g₂ (text (leBytes 4 7)) [] := by
  have hminus : Hex.Numeral ['-'.toUInt8, '1'.toUInt8] 0xffffffff :=
    ⟨['-'.toUInt8], [], ['1'.toUInt8], [1], rfl, by decide, by decide, by decide,
      .cons (.inl rfl) .nil, by decide⟩
  have htwo : Hex.Numeral ['2'.toUInt8] 2 :=
    ⟨[], [], ['2'.toUInt8], [2], rfl, by decide, by decide, by decide, .cons (.inl rfl) .nil,
      by decide⟩
  have hlast : Hex.Numeral ['f'.toUInt8] 15 :=
    ⟨[], [], ['f'.toUInt8], [15], rfl, by decide, by decide, by decide, .cons (.inl rfl) .nil,
      by decide⟩
  refine ⟨?_, ?_, ?_⟩
  · obtain ⟨g₁, g₂, hok, -, hmem, -, hanswer⟩ := (debugger_round_trips (twoPackets _ _)).1
      _ _ _ _ _ [0x0a, 0xff] _ [] _ hminus hminus htwo htwo (by decide) (spells_text _)
      (sends_frame _ (by decide)) (sends_frame _ (by decide))
    exact ⟨g₁, g₂, _, hok, hmem 0 (by decide), hmem 1 (by decide), hanswer⟩
  · have hlen : (Gdb.writeRegistersPacket (text (registerBytes fun _ => 7))).length ≤
        Gdb.pktBufLen := by
      rw [Gdb.writeRegistersPacket, List.length_cons, length_text, Gdb.length_registerBytes]
      decide
    obtain ⟨g₁, g₂, hok, -, hanswer⟩ := (debugger_round_trips (twoPackets _ _)).2.1
      _ _ [] (fun _ => 7) (spells_text _) (sends_frame _ hlen) (sends_frame _ (by decide))
    exact ⟨g₁, g₂, _, hok, hanswer⟩
  · obtain ⟨g₁, g₂, hok, -, -, hanswer⟩ := (debugger_round_trips (twoPackets _ _)).2.2
      _ _ _ _ [] 15 7 (by decide) hlast hlast (spells_text _)
      (sends_frame _ (by decide)) (sends_frame _ (by decide))
    exact ⟨g₁, g₂, _, hok, hanswer⟩

end MicroOS
