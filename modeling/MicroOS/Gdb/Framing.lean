import MicroOS.Gdb.Session

/-!
Packets on the line of the debugger: the end of the input and the byte `0xff` are one `int`.

* `Gdb.SurvivesFraming`: a payload is received with its sum, refused with another one, and sent as
  such a packet;
* `Gdb.skipStart_eof`, `Gdb.readData_eof`: a byte `0xff` ends a packet;
* `packets_survive_framing_iff`: **payloads survive as far as no byte on the line is `0xff`**.
-/

namespace MicroOS

open ByteImage ByteMem Checked Hex

namespace Gdb

variable {g : Gdb} {w p rest : List UInt8}

/-- The line carries a packet, with other bytes in front of it and behind it. -/
def onLine (g : Gdb) (w p csum rest : List UInt8) : Gdb :=
  { g with input := w ++ '$'.toUInt8 :: (p ++ '#'.toUInt8 :: (csum ++ rest)) }

@[simp] lemma onLine_input (g : Gdb) (w p csum rest : List UInt8) :
    (g.onLine w p csum rest).input = w ++ '$'.toUInt8 :: (p ++ '#'.toUInt8 :: (csum ++ rest)) := rfl

/-- A payload survives the line: with the digits of its sum it is received and the receipt is
acknowledged, with digits of another sum it is refused, and it is sent with digits of its sum. -/
structure SurvivesFraming (g : Gdb) (w p rest : List UInt8) : Prop where
  accepted : ∀ csum, Spells csum [checksum p] →
    (g.onLine w p csum rest).recvPacket = .ok (g.received p rest, p.length)
  refused : ∀ csum b, Spells csum [b] → b ≠ checksum p →
    (g.onLine w p csum rest).recvPacket = .error (.returned { g with
      pktBuf := store g.pktBuf 0 p
      input := rest
      output := g.output ++ ['-'.toUInt8] })
  sent : ∀ ack, ({ g with input := ack :: rest } : Gdb).sendPacket p =
    .ok { g with output := g.output ++ frame p, input := rest }

/-! ### The byte that is the end of the input -/

/-- A byte `0xff` in front of a packet ends the input. -/
lemma skipStart_eof (hw : 0xff ∈ w) (hstart : '$'.toUInt8 ∉ w) :
    ∃ g', g.skipStart (w ++ rest) = .error (.returned g') := by
  induction w with
  | nil => exact absurd hw List.not_mem_nil
  | cons c w ih =>
    rw [List.mem_cons, not_or] at hstart
    rw [List.cons_append, skipStart]
    by_cases hc : c = 0xff
    · exact ⟨_, if_pos hc⟩
    · rw [if_neg hc, if_neg (Ne.symm hstart.1)]
      exact ih ((List.mem_cons.mp hw).resolve_left (Ne.symm hc)) hstart.2

/-- A byte `0xff` in a packet ends the input. -/
lemma readData_eof (hp : 0xff ∈ p) (hend : '#'.toUInt8 ∉ p) (n : ℕ) :
    ∃ g', g.readData n (p ++ rest) = .error (.returned g') := by
  induction p generalizing g n with
  | nil => exact absurd hp List.not_mem_nil
  | cons c p ih =>
    rw [List.mem_cons, not_or] at hend
    rw [List.cons_append, readData]
    by_cases hc : c = 0xff
    · exact ⟨_, if_pos hc⟩
    · rw [if_neg hc, if_neg (Ne.symm hend.1)]
      split_ifs
      · exact ⟨_, rfl⟩
      · exact ih ((List.mem_cons.mp hp).resolve_left (Ne.symm hc)) hend.2 (n + 1)

/-- A byte `0xff` in front of a packet or in it makes `gdb_recv_packet` give up, whatever the digits
of the sum are. -/
lemma recvPacket_eof {csum : List UInt8} (hff : 0xff ∈ w ++ p) (hw : '$'.toUInt8 ∉ w)
    (hp : '#'.toUInt8 ∉ p) : ∃ g', (g.onLine w p csum rest).recvPacket = .error (.returned g') := by
  by_cases hfront : 0xff ∈ w
  · obtain ⟨g', hg'⟩ : ∃ g', (g.onLine w p csum rest).skipStart
        (w ++ '$'.toUInt8 :: (p ++ '#'.toUInt8 :: (csum ++ rest))) = .error (.returned g') :=
      skipStart_eof hfront hw
    refine ⟨g', ?_⟩
    rw [recvPacket, onLine_input, hg']
    rfl
  · have hpay : 0xff ∈ p := (List.mem_append.mp hff).resolve_left hfront
    have hskip : (g.onLine w p csum rest).skipStart
        (w ++ '$'.toUInt8 :: (p ++ '#'.toUInt8 :: (csum ++ rest))) =
          .ok { g.onLine w p csum rest with input := p ++ '#'.toUInt8 :: (csum ++ rest) } :=
      skipStart_garbage fun c hc => ⟨ne_of_mem_of_not_mem hc hfront, ne_of_mem_of_not_mem hc hw⟩
    obtain ⟨g', hg'⟩ : ∃ g', Gdb.readData { g.onLine w p csum rest with
        input := p ++ '#'.toUInt8 :: (csum ++ rest) } 0 (p ++ '#'.toUInt8 :: (csum ++ rest)) =
          .error (.returned g') := readData_eof hpay hp 0
    refine ⟨g', ?_⟩
    rw [recvPacket, onLine_input, hskip, ok_bind, hg']
    rfl

/-- Where no byte is `0xff`, a payload survives. -/
lemma survivesFraming (hff : 0xff ∉ w ++ p) (hw : '$'.toUInt8 ∉ w) (hp : '#'.toUInt8 ∉ p)
    (hlen : p.length ≤ pktBufLen) : g.SurvivesFraming w p rest := by
  rw [List.mem_append, not_or] at hff
  have hgarbage : ∀ c ∈ w, c ≠ 0xff ∧ c ≠ '$'.toUInt8 := fun c hc =>
    ⟨ne_of_mem_of_not_mem hc hff.1, ne_of_mem_of_not_mem hc hw⟩
  have hplain : ∀ c ∈ p, Plain c := fun c hc =>
    ⟨ne_of_mem_of_not_mem hc hff.2, ne_of_mem_of_not_mem hc hp⟩
  have hdigits : ∀ csum b, Spells csum [b] → _ := fun csum b hcsum =>
    recvPacket_digits (g := g.onLine w p csum rest) rfl hgarbage hplain hlen hcsum
  constructor
  case accepted =>
    intro csum hcsum
    rw [hdigits csum _ hcsum, if_neg (not_not.mpr rfl)]
    rfl
  case refused =>
    intro csum b hcsum hb
    rw [hdigits csum b hcsum, if_pos (Ne.symm hb)]
    rfl
  case sent =>
    intro ack
    exact sendPacket_ok rfl p

end Gdb

/-- **A payload survives the line exactly where no byte in front of it or in it is `0xff`**, which
`read_serial` returns as the value of `GDB_EOF`. -/
theorem packets_survive_framing_iff (g : Gdb) (w p rest : List UInt8) (hw : '$'.toUInt8 ∉ w)
    (hp : '$'.toUInt8 ∉ p ∧ '#'.toUInt8 ∉ p) (hlen : p.length ≤ 256) :
    g.SurvivesFraming w p rest ↔ 0xff ∉ w ++ p := by
  refine ⟨fun hsurvives hff => ?_, fun hff => Gdb.survivesFraming hff hw hp.2 hlen⟩
  obtain ⟨g', hg'⟩ : ∃ g', (g.onLine w p (text [Gdb.checksum p]) rest).recvPacket =
    .error (.returned g') := Gdb.recvPacket_eof hff hw hp.2
  rw [hsurvives.accepted _ (spells_text _)] at hg'
  cases hg'

/-- A session that has just begun. -/
def freshSession : Gdb where
  state := ⟨5, fun _ => 0⟩
  memory := fun _ => 0
  pktBuf := fun _ => 0
  scratch := fun _ => 0
  input := []
  output := []

/-- A payload with bytes below and above `0x80`, behind an acknowledgement. -/
theorem packets_survive_framing_binary :
    freshSession.SurvivesFraming ['+'.toUInt8] [0x58, 0x00, 0x7f, 0x80, 0xfe] [] :=
  (packets_survive_framing_iff freshSession ['+'.toUInt8] [0x58, 0x00, 0x7f, 0x80, 0xfe] []
    (by decide) (by decide) (by decide)).mpr (by decide)

/-- The payload that is one byte `0xff` is not received with its sum, `ff`: `GDB_EOF` is returned
and nothing is emitted. -/
theorem framing_loses_ff :
    ¬ (∀ (g : Gdb) (w p rest : List UInt8), '$'.toUInt8 ∉ w → '$'.toUInt8 ∉ p ∧ '#'.toUInt8 ∉ p →
      p.length ≤ 256 → g.SurvivesFraming w p rest) ∧
    ∃ g', (freshSession.onLine [] [0xff] (text [Gdb.checksum [0xff]]) []).recvPacket =
      .error (.returned g') ∧ g'.output = [] := by
  have heof : ∃ g', (freshSession.onLine [] [0xff] (text [Gdb.checksum [0xff]]) []).recvPacket =
      .error (.returned g') ∧ g'.output = [] := ⟨_, rfl, rfl⟩
  refine ⟨fun hall => ?_, heof⟩
  obtain ⟨g', hg', -⟩ := heof
  have hsurvives := hall freshSession [] [0xff] [] (by simp) (by decide) (by decide)
  rw [hsurvives.accepted _ (spells_text _)] at hg'
  cases hg'

end MicroOS
