import MicroOS.Gdb.BinaryWrite

/-!
Writes to the registers that are refused: the packets `G` and `P` of `gdb_main` where a failed
assertion of `gdb_dec_hex` only reports.

* `decHexInto`: the decoder as it writes into an array; `decHexInto_eq`;
* `Gdb.registerWrite`: what a packet makes of the registers, and whether it is refused;
* `rejected_register_writes_iff`: **a refused write keeps the registers exactly where the digits in
  front of the first bad one spell what the registers hold**.
-/

namespace MicroOS

open ByteImage ByteMem Checked Hex

/-! ### Decoding in place -/

/-- The loop of `gdb_dec_hex` on an array from `pos` on, where a failed assertion only reports: the
array, and whether all characters were digits. -/
def decHexInto (data : ℕ → UInt8) (pos : ℕ) : List UInt8 → (ℕ → UInt8) × Bool
  | c :: c' :: buf =>
    match gdbGetVal c 16 with
    | none => (data, false)
    | some tmp =>
      let data := Function.update data pos (UInt8.ofNat tmp <<< 4)
      match gdbGetVal c' 16 with
      | none => (data, false)
      | some tmp' =>
        decHexInto (Function.update data pos (data pos ||| UInt8.ofNat tmp')) (pos + 1) buf
  | _ => (data, true)

/-- `gdb_dec_hex` where a failed assertion only reports. -/
def gdbDecHexInto (buf : ℕ → UInt8) (bufLen : ℤ) (data : ℕ → UInt8) (pos dataLen : ℕ) :
    (ℕ → UInt8) × Bool :=
  if bufLen ≠ dataLen * 2 then (data, false)
  else decHexInto data pos ((List.range (dataLen * 2)).map buf)

/-- The bytes that are written: a half stands for a byte whose second digit is bad. -/
def decHexBytes : List UInt8 → List UInt8
  | c :: c' :: buf =>
    match gdbGetVal c 16 with
    | none => []
    | some tmp =>
      match gdbGetVal c' 16 with
      | none => [UInt8.ofNat tmp <<< 4]
      | some tmp' => ((UInt8.ofNat tmp <<< 4) ||| UInt8.ofNat tmp') :: decHexBytes buf
  | [_] => []
  | [] => []

variable {data : ℕ → UInt8} {pos : ℕ} {buf good tail d d' h : List UInt8} {c : UInt8} {k : ℕ}

/-- The decoder stores its bytes. -/
lemma decHexInto_eq (data : ℕ → UInt8) (pos : ℕ) (buf : List UInt8) :
    decHexInto data pos buf = (store data pos (decHexBytes buf), (decHexLoop buf).isSome) := by
  induction buf using decHexBytes.induct generalizing data pos with
  | case1 c c' buf hc =>
    rw [decHexInto, decHexBytes, decHexLoop, hc]
    dsimp only
    rw [store_nil]
    rfl
  | case2 c c' buf tmp hc hc' =>
    rw [decHexInto, decHexBytes, decHexLoop, hc, hc']
    dsimp only
    rw [← store_update, store_nil]
    rfl
  | case3 c c' buf tmp hc tmp' hc' ih =>
    have hloop : (decHexLoop (c :: c' :: buf)).isSome = (decHexLoop buf).isSome := by
      rw [decHexLoop, hc, hc']
      cases decHexLoop buf <;> rfl
    rw [hloop, decHexInto, decHexBytes, hc, hc']
    dsimp only
    rw [ih, Function.update_self, Function.update_idem, store_update]
  | case4 c => rw [decHexInto, decHexBytes, decHexLoop, store_nil] <;> simp
  | case5 => rw [decHexInto, decHexBytes, decHexLoop, store_nil] <;> simp

/-- Two digits are read for each byte that is decoded. -/
lemma length_decHexBytes_le (buf : List UInt8) : 2 * (decHexBytes buf).length ≤ buf.length := by
  induction buf using decHexBytes.induct with
  | case1 c c' buf hc => simp [decHexBytes, hc]
  | case2 c c' buf tmp hc hc' => simp [decHexBytes, hc, hc']
  | case3 c c' buf tmp hc tmp' hc' ih =>
    simp only [decHexBytes, hc, hc', List.length_cons]
    omega
  | case4 c => simp [decHexBytes]
  | case5 => simp [decHexBytes]

/-! ### The digits in front of the first bad one -/

/-- The array holds what the digits in front of the first bad one spell, with a zero behind them if
their number is odd. -/
def HoldsSoFar (data : ℕ → UInt8) (pos : ℕ) (buf : List UInt8) : Prop :=
  ∀ good c tail, buf = good ++ c :: tail → (∀ x ∈ good, gdbGetVal x 16 ≠ none) →
    gdbGetVal c 16 = none →
      ∃ d, (Spells good d ∨ Spells (good ++ ['0'.toUInt8]) d) ∧ Holds data pos d

/-- `gdb_get_val` knows only the digits. -/
lemma digit_of_gdbGetVal (h : gdbGetVal c 16 = some k) : Digit c k := by
  have hall : ∀ c : Fin 256, ∀ k ∈ gdbGetVal (UInt8.ofNat c) 16, Digit (UInt8.ofNat c) k := by
    decide +kernel
  have hc := hall c.toFin
  rw [show UInt8.ofNat (c.toFin : ℕ) = c from UInt8.ofNat_toNat] at hc
  exact hc k h

/-- A byte of two digits, from their values. -/
lemma toNat_halves {k k' : ℕ} (hk : k < 16) (hk' : k' < 16) :
    ((UInt8.ofNat k <<< 4) ||| UInt8.ofNat k').toNat = 16 * k + k' := by
  have hall : ∀ k < 16, ∀ k' < 16,
      ((UInt8.ofNat k <<< 4) ||| UInt8.ofNat k').toNat = 16 * k + k' := by
    decide +kernel
  exact hall k hk k' hk'

/-- Two digits spell the byte that the decoder makes of them. -/
lemma spells_halves {c' : UInt8} {k' : ℕ} (hc : Digit c k) (hc' : Digit c' k') (hs : Spells h d) :
    Spells (c :: c' :: h) (((UInt8.ofNat k <<< 4) ||| UInt8.ofNat k') :: d) := by
  have hb := toNat_halves hc.lt hc'.lt
  have hlt := hc'.lt
  refine .cons ?_ ?_ hs
  · rwa [hb, Nat.mul_add_div (by norm_num), Nat.div_eq_of_lt hlt, Nat.add_zero]
  · rwa [hb, Nat.mul_add_mod, Nat.mod_eq_of_lt hlt]

/-- A text spells one list of bytes. -/
lemma spells_unique (hd : Spells h d) (hd' : Spells h d') : d = d' := by
  have hloop := decHexLoop_spells hd
  rw [decHexLoop_spells hd'] at hloop
  exact (Option.some.inj hloop).symm

/-- With a bad digit the decoder fails, and the digits in front of the first one spell the bytes
that it has written. -/
lemma decHexBytes_spells (hgood : ∀ x ∈ good, gdbGetVal x 16 ≠ none)
    (hbad : gdbGetVal c 16 = none) (heven : Even (good ++ c :: tail).length) :
    decHexLoop (good ++ c :: tail) = none ∧ (Spells good (decHexBytes (good ++ c :: tail)) ∨
      Spells (good ++ ['0'.toUInt8]) (decHexBytes (good ++ c :: tail))) := by
  induction good using List.twoStepInduction with
  | nil =>
    cases tail with
    | nil => exact absurd heven (by simp)
    | cons c' tail =>
      rw [List.nil_append, decHexLoop, decHexBytes, hbad]
      exact ⟨rfl, .inl .nil⟩
  | singleton a =>
    obtain ⟨k, hk⟩ := Option.ne_none_iff_exists'.mp (hgood a List.mem_cons_self)
    have ha := digit_of_gdbGetVal hk
    have hzero : (UInt8.ofNat k <<< 4) = (UInt8.ofNat k <<< 4) ||| UInt8.ofNat 0 := by simp
    rw [List.singleton_append, decHexLoop, decHexBytes, hk, hbad]
    refine ⟨rfl, .inr ?_⟩
    dsimp only
    rw [hzero]
    exact spells_halves ha (.inl rfl) .nil
  | cons_cons a a' good ih _ =>
    obtain ⟨k, hk⟩ := Option.ne_none_iff_exists'.mp (hgood a List.mem_cons_self)
    obtain ⟨k', hk'⟩ := Option.ne_none_iff_exists'.mp
      (hgood a' (List.mem_cons_of_mem _ List.mem_cons_self))
    have hrest := ih (fun x hx => hgood x (List.mem_cons_of_mem _ (List.mem_cons_of_mem _ hx)))
      (by simpa [Nat.even_add_one, parity_simps] using heven)
    rw [List.cons_append, List.cons_append, decHexLoop, decHexBytes, hk, hk']
    dsimp only
    refine ⟨?_, ?_⟩
    · rw [hrest.1]
      rfl
    · exact hrest.2.imp (spells_halves (digit_of_gdbGetVal hk) (digit_of_gdbGetVal hk'))
        (spells_halves (digit_of_gdbGetVal hk) (digit_of_gdbGetVal hk'))

/-- Digits are decoded. -/
lemma decHexLoop_of_digits (hbuf : ∀ x ∈ buf, gdbGetVal x 16 ≠ none) : decHexLoop buf ≠ none := by
  induction buf using decHexBytes.induct with
  | case1 c c' buf hc => exact absurd hc (hbuf c List.mem_cons_self)
  | case2 c c' buf tmp hc hc' =>
    exact absurd hc' (hbuf c' (List.mem_cons_of_mem _ List.mem_cons_self))
  | case3 c c' buf tmp hc tmp' hc' ih =>
    obtain ⟨d, hd⟩ := Option.ne_none_iff_exists'.mp
      (ih fun x hx => hbuf x (List.mem_cons_of_mem _ (List.mem_cons_of_mem _ hx)))
    rw [decHexLoop, hc, hc', hd]
    simp
  | case4 c => simp [decHexLoop]
  | case5 => simp [decHexLoop]

/-- Where the decoder fails there is a first bad digit. -/
lemma exists_bad_of_decHexLoop (hloop : decHexLoop buf = none) : ∃ good c tail,
    buf = good ++ c :: tail ∧ (∀ x ∈ good, gdbGetVal x 16 ≠ none) ∧ gdbGetVal c 16 = none := by
  cases hfind : buf.find? fun x => (gdbGetVal x 16).isNone with
  | none =>
    rw [List.find?_eq_none] at hfind
    refine absurd hloop (decHexLoop_of_digits fun x hx hnone => hfind x hx ?_)
    rw [hnone, Option.isNone_none]
  | some c =>
    obtain ⟨hc, good, tail, heq, hgood⟩ := List.find?_eq_some_iff_append.mp hfind
    refine ⟨good, c, tail, heq, fun x hx hnone => ?_, Option.isNone_iff_eq_none.mp hc⟩
    have hx := hgood x hx
    rw [hnone] at hx
    cases hx

/-- **An array that holds what is written so far is not changed** by decoding that fails. -/
lemma holdsSoFar_iff (heven : Even buf.length) :
    HoldsSoFar data pos buf ↔ (decHexLoop buf = none → Holds data pos (decHexBytes buf)) := by
  constructor
  · intro hholds hloop
    obtain ⟨good, c, tail, rfl, hgood, hbad⟩ := exists_bad_of_decHexLoop hloop
    obtain ⟨d, hd, hdata⟩ := hholds good c tail rfl hgood hbad
    have hwritten := (decHexBytes_spells hgood hbad heven).2
    suffices heq : decHexBytes (good ++ c :: tail) = d by rwa [heq]
    -- the number of digits tells which of the two texts it is
    have hparity : ∀ {d d' : List UInt8}, Spells good d → ¬ Spells (good ++ ['0'.toUInt8]) d' := by
      intro d d' h h'
      have hlen := h'.length_eq
      rw [List.length_append, h.length_eq, List.length_singleton] at hlen
      omega
    rcases hd with hd | hd <;> rcases hwritten with hw | hw
    · exact spells_unique hw hd
    · exact absurd hw (hparity hd)
    · exact absurd hd (hparity hw)
    · exact spells_unique hw hd
  · rintro hholds good c tail rfl hgood hbad
    obtain ⟨hloop, hspells⟩ := decHexBytes_spells hgood hbad heven
    exact ⟨_, hspells, hholds hloop⟩

/-! ### The registers as bytes -/

/-- The registers as an array of bytes. -/
def registerFile (registers : Fin gdbNumRegisters → UInt32) : ℕ → UInt8 :=
  fun i => (registerBytes registers).getD i 0

/-- The registers that an array of bytes is. -/
def registersOfFile (data : ℕ → UInt8) : Fin gdbNumRegisters → UInt32 :=
  fun i => UInt32.ofNat (leValue data (4 * i) 4)

variable {registers : Fin gdbNumRegisters → UInt32}

/-- The registers are read back from their bytes. -/
@[simp] lemma registersOfFile_registerFile (registers : Fin gdbNumRegisters → UInt32) :
    registersOfFile (registerFile registers) = registers :=
  Gdb.registersOfBytes_registerBytes registers

/-- Numbers are equal where their bytes are. -/
lemma leValue_inj {a a' : ℕ → UInt8} {off n : ℕ} (h : leValue a off n = leValue a' off n) :
    ∀ i < n, a (off + i) = a' (off + i) := by
  induction n generalizing off with
  | zero => exact fun i hi => absurd hi (Nat.not_lt_zero i)
  | succ n ih =>
    rw [leValue, leValue] at h
    have hlt := (a off).toNat_lt
    have hlt' := (a' off).toNat_lt
    intro i hi
    cases i with
    | zero => exact UInt8.toNat_inj.mp (show (a off).toNat = (a' off).toNat by omega)
    | succ i =>
      have hrest : a (off + 1 + i) = a' (off + 1 + i) := ih (by omega) i (by omega)
      rwa [Nat.add_assoc, Nat.add_comm 1] at hrest

/-- The registers are as they were exactly where their bytes are. -/
lemma registersOfFile_eq_iff : registersOfFile data = registers ↔
    ∀ x < 4 * gdbNumRegisters, data x = registerFile registers x := by
  constructor
  · intro h x hx
    have hx4 : x / 4 < gdbNumRegisters := Nat.div_lt_of_lt_mul hx
    have hword : leValue data (4 * (x / 4)) 4 =
      leValue (registerFile registers) (4 * (x / 4)) 4 := by
      have hi := congrFun (h.trans (registersOfFile_registerFile registers).symm) ⟨x / 4, hx4⟩
      have hnat := congrArg UInt32.toNat hi
      rwa [registersOfFile, registersOfFile, UInt32.toNat_ofNat_of_lt' (leValue_lt _ _ 4),
        UInt32.toNat_ofNat_of_lt' (leValue_lt _ _ 4)] at hnat
    have hbyte := leValue_inj hword (x % 4) (Nat.mod_lt x (by norm_num))
    rwa [Nat.div_add_mod] at hbyte
  · intro h
    rw [← registersOfFile_registerFile registers]
    funext i
    have hi := i.isLt
    refine congrArg UInt32.ofNat (leValue_congr fun x _ hx => h x ?_)
    omega

/-- Bytes that are stored into the registers leave them as they are exactly where they are the bytes
of the registers. -/
lemma registersOfFile_store_eq_iff (hlen : pos + d.length ≤ 4 * gdbNumRegisters) :
    registersOfFile (store (registerFile registers) pos d) = registers ↔
      Holds (registerFile registers) pos d := by
  rw [registersOfFile_eq_iff]
  constructor
  · intro h i b hb
    obtain ⟨hi, -⟩ := List.getElem?_eq_some_iff.mp hb
    rw [← h (pos + i) (by omega)]
    exact holds_store i b hb
  · intro h x _
    by_cases hx : pos ≤ x ∧ x < pos + d.length
    · have hget := List.getElem?_eq_getElem (show x - pos < d.length by omega)
      have hstored : store (registerFile registers) pos d (pos + (x - pos)) = d[x - pos] :=
        holds_store _ _ hget
      have hheld := h _ _ hget
      rw [← hheld, Nat.add_sub_cancel' hx.1] at hstored
      exact hstored
    · exact store_of_disjoint (by omega)

namespace Gdb

variable {g g' : Gdb} {pktLen ptrNext : ℕ} {addr : UInt32} {ack : UInt8} {rest : List UInt8}

/-! ### Packets that write registers -/

/-- Digits of a packet are decoded into the registers, from a byte of them on. -/
def decodeRegisters (g : Gdb) (ptrNext : ℕ) (bufLen : ℤ) (pos dataLen : ℕ) : Gdb × Bool :=
  let (data, ok) := gdbDecHexInto (fun i => g.pktBuf (ptrNext + i)) bufLen
    (registerFile g.state.registers) pos dataLen
  ({ g with state := { g.state with registers := registersOfFile data } }, ok)

/-- The cases for `'G'` and `'P'` of `gdb_main` up to the answer, where a failed assertion only
reports: the session, and whether it does not go to `error`. -/
def registerWrite (g : Gdb) (pktLen : ℕ) : Gdb × Bool :=
  if g.pktBuf 0 = 'G'.toUInt8 then
    g.decodeRegisters 1 (pktLen - 1) 0 (4 * gdbNumRegisters)
  else
    match g.registerArgs pktLen with
    | none => (g, false)
    | some (addr, ptrNext) =>
      if addr.toNat < gdbNumRegisters then
        g.decodeRegisters ptrNext (remainingBuf pktLen ptrNext) (4 * addr.toNat) 4
      else (g, true)

/-- The turn on such a packet. -/
def answerRegisterWrite (g : Gdb) (pktLen : ℕ) : Except GdbEnd Gdb :=
  let (g, ok) := g.registerWrite pktLen
  g.answer (if ok then some <$> g.sendOkPacket else .ok none)

/-- A packet has its digits decoded: they stand from `ptrNext` on, and are as many as `dataLen`
bytes from the byte `pos` of the registers on need. -/
def Decodes (g : Gdb) (pktLen ptrNext pos dataLen : ℕ) : Prop :=
  (g.pktBuf 0 = 'G'.toUInt8 ∧ ptrNext = 1 ∧ (pktLen : ℤ) - 1 = dataLen * 2 ∧ pos = 0 ∧
    dataLen = 4 * gdbNumRegisters) ∨
  (g.pktBuf 0 = 'P'.toUInt8 ∧ remainingBuf pktLen ptrNext = dataLen * 2 ∧ dataLen = 4 ∧
    ∃ addr : UInt32, g.registerArgs pktLen = some (addr, ptrNext) ∧
      addr.toNat < gdbNumRegisters ∧ pos = 4 * addr.toNat)

/-- The characters that stand for `dataLen` bytes. -/
def digitChars (g : Gdb) (ptrNext dataLen : ℕ) : List UInt8 :=
  (List.range (dataLen * 2)).map fun i => g.pktBuf (ptrNext + i)

/-- A packet that is answered with an error leaves the registers as they were. -/
def RejectionKeeps (g : Gdb) (pktLen : ℕ) : Prop :=
  ∀ ack rest g', ({ g with input := ack :: rest } : Gdb).answerRegisterWrite pktLen = .ok g' →
    g'.output = g.output ++ frame errorReply → g'.state.registers = g.state.registers

/-! ### What a packet makes of the registers -/

/-- Digits of another number are not decoded. -/
lemma decodeRegisters_of_ne {bufLen : ℤ} {pos dataLen : ℕ} (h : bufLen ≠ dataLen * 2) :
    g.decodeRegisters ptrNext bufLen pos dataLen = (g, false) := by
  rw [decodeRegisters, gdbDecHexInto, if_pos h]
  dsimp only
  rw [registersOfFile_registerFile]

/-- Digits of the right number are decoded into the registers. -/
lemma decodeRegisters_eq {bufLen : ℤ} {pos dataLen : ℕ} (h : bufLen = dataLen * 2) :
    g.decodeRegisters ptrNext bufLen pos dataLen =
      ({ g with state := { g.state with
          registers := registersOfFile (store (registerFile g.state.registers) pos
            (decHexBytes (g.digitChars ptrNext dataLen))) } },
        (decHexLoop (g.digitChars ptrNext dataLen)).isSome) := by
  rw [decodeRegisters, gdbDecHexInto, if_neg (not_not.mpr h), decHexInto_eq]
  rfl

/-- The bytes that digits are decoded to are in the registers. -/
lemma Decodes.le {pos dataLen : ℕ} (h : g.Decodes pktLen ptrNext pos dataLen) :
    pos + dataLen ≤ 4 * gdbNumRegisters := by
  rcases h with ⟨-, -, -, rfl, rfl⟩ | ⟨-, -, rfl, addr, -, haddr, rfl⟩
  · exact (Nat.zero_add _).le
  · omega

/-- What a packet makes of the registers whose digits are decoded. -/
lemma registerWrite_of_decodes {pos dataLen : ℕ} (h : g.Decodes pktLen ptrNext pos dataLen) :
    g.registerWrite pktLen =
      ({ g with state := { g.state with
          registers := registersOfFile (store (registerFile g.state.registers) pos
            (decHexBytes (g.digitChars ptrNext dataLen))) } },
        (decHexLoop (g.digitChars ptrNext dataLen)).isSome) := by
  rcases h with ⟨hletter, rfl, hlen, rfl, rfl⟩ | ⟨hletter, hlen, rfl, addr, hargs, haddr, rfl⟩
  · rw [registerWrite, if_pos hletter, decodeRegisters_eq hlen]
  · have hother : ¬ g.pktBuf 0 = 'G'.toUInt8 := by
      rw [hletter]
      decide
    rw [registerWrite, if_neg hother, hargs]
    dsimp only
    rw [if_pos haddr, decodeRegisters_eq hlen]

/-- A packet whose digits are not decoded leaves the session as it is. -/
lemma registerWrite_of_not (hletter : g.pktBuf 0 = 'G'.toUInt8 ∨ g.pktBuf 0 = 'P'.toUInt8)
    (h : ∀ ptrNext pos dataLen, ¬ g.Decodes pktLen ptrNext pos dataLen) :
    (g.registerWrite pktLen).1 = g := by
  rw [registerWrite]
  split_ifs with hg
  · have hlen : (pktLen : ℤ) - 1 ≠ (4 * gdbNumRegisters : ℕ) * 2 := fun hlen =>
      h 1 0 (4 * gdbNumRegisters) (.inl ⟨hg, rfl, hlen, rfl, rfl⟩)
    rw [decodeRegisters_of_ne hlen]
  · cases hargs : g.registerArgs pktLen with
    | none => rfl
    | some args =>
      cases args with
      | mk addr ptrNext =>
        dsimp only
        split_ifs with haddr
        · have hlen : remainingBuf pktLen ptrNext ≠ (4 : ℕ) * 2 := fun hlen =>
            h ptrNext (4 * addr.toNat) 4
              (.inr ⟨hletter.resolve_left hg, hlen, rfl, addr, hargs, haddr, rfl⟩)
          rw [decodeRegisters_of_ne hlen]
        · rfl

/-- A packet is answered. -/
lemma answerRegisterWrite_ok (hinput : g.input = ack :: rest) (pktLen : ℕ) :
    ∃ pktBuf, g.answerRegisterWrite pktLen = .ok { (g.registerWrite pktLen).1 with
      pktBuf
      output := g.output ++ frame (if (g.registerWrite pktLen).2 then okReply else errorReply)
      input := rest } := by
  have hkeeps : (g.registerWrite pktLen).1.input = g.input ∧
      (g.registerWrite pktLen).1.output = g.output := by
    rw [registerWrite]
    split_ifs
    · exact ⟨rfl, rfl⟩
    · cases g.registerArgs pktLen with
      | none => exact ⟨rfl, rfl⟩
      | some args =>
        dsimp only
        split_ifs
        · exact ⟨rfl, rfl⟩
        · exact ⟨rfl, rfl⟩
  rw [answerRegisterWrite]
  cases hwrite : g.registerWrite pktLen with
  | mk written ok =>
    rw [hwrite] at hkeeps
    have hwritten := hkeeps.1.trans hinput
    dsimp only at hwritten ⊢
    rw [← hkeeps.2]
    cases ok with
    | true =>
      refine ⟨written.pktBuf, ?_⟩
      rw [if_pos rfl, if_pos rfl, sendOkPacket_ok hwritten]
      rfl
    | false =>
      refine ⟨store written.pktBuf 0 errorReply, ?_⟩
      rw [if_neg Bool.false_ne_true, if_neg Bool.false_ne_true, answer, ok_bind]
      exact sendErrorPacket_ok hwritten

/-- The characters of whole bytes. -/
lemma even_length_digitChars (g : Gdb) (ptrNext dataLen : ℕ) :
    Even (g.digitChars ptrNext dataLen).length := by
  rw [digitChars, List.length_map, List.length_range]
  exact ⟨dataLen, Nat.mul_two dataLen⟩

/-- What is written is in the registers. -/
lemma Decodes.written_le {pos dataLen : ℕ} (h : g.Decodes pktLen ptrNext pos dataLen) :
    pos + (decHexBytes (g.digitChars ptrNext dataLen)).length ≤ 4 * gdbNumRegisters := by
  have hle := length_decHexBytes_le (g.digitChars ptrNext dataLen)
  have hlen : (g.digitChars ptrNext dataLen).length = dataLen * 2 := by
    rw [digitChars, List.length_map, List.length_range]
  have hin := h.le
  omega

/-! ### The commands of `gdb_main` -/

end Gdb

/-- **A write to the registers that is refused leaves them as they were exactly where the digits in
front of the first bad one spell what the registers hold there**, a digit without a partner being
taken with a zero behind it. -/
theorem rejected_register_writes_iff (g : Gdb) (pktLen : ℕ)
    (hletter : g.pktBuf 0 = 'G'.toUInt8 ∨ g.pktBuf 0 = 'P'.toUInt8) :
    g.RejectionKeeps pktLen ↔
      ∀ ptrNext pos dataLen, g.Decodes pktLen ptrNext pos dataLen →
        HoldsSoFar (registerFile g.state.registers) pos (g.digitChars ptrNext dataLen) := by
  constructor
  · intro hkeeps ptrNext pos dataLen hdecodes
    rw [holdsSoFar_iff (g.even_length_digitChars ptrNext dataLen)]
    intro hloop
    obtain ⟨pktBuf, hanswer⟩ := Gdb.answerRegisterWrite_ok
      (g := { g with input := ['+'.toUInt8] }) rfl pktLen
    have hwrite := Gdb.registerWrite_of_decodes (g := { g with input := ['+'.toUInt8] }) hdecodes
    rw [hwrite] at hanswer
    have hrefused : (decHexLoop (g.digitChars ptrNext dataLen)).isSome = false := by
      rw [hloop, Option.isSome_none]
    have hsame := hkeeps _ _ _ hanswer (congrArg (fun ok : Bool =>
      g.output ++ Gdb.frame (if ok then Gdb.okReply else Gdb.errorReply)) hrefused)
    exact (registersOfFile_store_eq_iff hdecodes.written_le).mp hsame
  · intro hholds ack rest g' hanswer herror
    obtain ⟨pktBuf, hok⟩ := Gdb.answerRegisterWrite_ok
      (g := { g with input := ack :: rest }) rfl pktLen
    rw [hok] at hanswer
    by_cases hdecodes : ∃ ptrNext pos dataLen, g.Decodes pktLen ptrNext pos dataLen
    · obtain ⟨ptrNext, pos, dataLen, hdecodes⟩ := hdecodes
      have hwrite := Gdb.registerWrite_of_decodes (g := { g with input := ack :: rest }) hdecodes
      rw [hwrite] at hanswer
      cases hanswer
      have hheld := (holdsSoFar_iff (g.even_length_digitChars ptrNext dataLen)).mp
        (hholds ptrNext pos dataLen hdecodes)
      cases hloop : decHexLoop (g.digitChars ptrNext dataLen) with
      | none => exact (registersOfFile_store_eq_iff hdecodes.written_le).mpr (hheld hloop)
      | some d =>
        have hsome : (decHexLoop (g.digitChars ptrNext dataLen)).isSome = true := by
          rw [hloop, Option.isSome_some]
        have houtput := (congrArg (fun ok : Bool =>
          g.output ++ Gdb.frame (if ok then Gdb.okReply else Gdb.errorReply)) hsome).symm.trans
            herror
        exact absurd (List.append_cancel_left houtput) Gdb.frame_okReply_ne
    · push Not at hdecodes
      have hkept := Gdb.registerWrite_of_not (g := { g with input := ack :: rest }) hletter hdecodes
      cases hanswer
      rw [hkept]

/-- `P0=000g0000` while the register is zero: three digits are written before the bad one
is found. -/
theorem rejected_register_write_zero :
    (receivedPacket
      [0x50, 0x30, 0x3d, 0x30, 0x30, 0x30, 0x67, 0x30, 0x30, 0x30, 0x30]).RejectionKeeps
      11 := by
  refine (rejected_register_writes_iff _ 11 (.inr rfl)).mpr fun ptrNext pos dataLen hdecodes => ?_
  rw [holdsSoFar_iff (Gdb.even_length_digitChars _ ptrNext dataLen)]
  rcases hdecodes with ⟨hletter, -⟩ | ⟨-, -, rfl, addr, hargs, -, rfl⟩
  · exact absurd hletter (by decide)
  · have hread : (receivedPacket [0x50, 0x30, 0x3d, 0x30, 0x30, 0x30, 0x67, 0x30, 0x30, 0x30,
        0x30]).registerArgs 11 = some (0, 3) := by decide
    rw [hread] at hargs
    cases hargs
    intro _
    exact holds_cons.mpr ⟨by decide, holds_cons.mpr ⟨by decide, holds_nil⟩⟩

/-- `P0=1g000000` is answered with an error, and the register is `10` afterwards. -/
theorem rejected_register_write_half :
    ¬ (∀ (g : Gdb) (pktLen : ℕ), g.pktBuf 0 = 'G'.toUInt8 ∨ g.pktBuf 0 = 'P'.toUInt8 →
      pktLen ≤ 256 → g.RejectionKeeps pktLen) ∧
    ∃ g', ({ receivedPacket [0x50, 0x30, 0x3d, 0x31, 0x67, 0x30, 0x30, 0x30, 0x30, 0x30, 0x30] with
        input := ['+'.toUInt8] } : Gdb).answerRegisterWrite 11 = .ok g' ∧
      g'.output = '+'.toUInt8 :: Gdb.frame Gdb.errorReply ∧
        g'.state.registers ⟨0, by decide⟩ = 0x10 := by
  have hhalf : ∃ g', ({ receivedPacket [0x50, 0x30, 0x3d, 0x31, 0x67, 0x30, 0x30, 0x30, 0x30, 0x30,
        0x30] with input := ['+'.toUInt8] } : Gdb).answerRegisterWrite 11 = .ok g' ∧
      g'.output = '+'.toUInt8 :: Gdb.frame Gdb.errorReply ∧
        g'.state.registers ⟨0, by decide⟩ = 0x10 :=
    ⟨_, rfl, rfl, rfl⟩
  refine ⟨fun hall => ?_, hhalf⟩
  obtain ⟨g', hg', houtput, hregister⟩ := hhalf
  have hkept := hall _ 11 (.inr rfl) (by norm_num) _ _ g' hg' houtput
  rw [hkept] at hregister
  exact absurd hregister (by decide)

end MicroOS
