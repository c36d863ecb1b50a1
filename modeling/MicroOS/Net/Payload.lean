import MicroOS.Lib.ByteImage
import MicroOS.Memory.Pmm

/-!
The bytes of a payload, as the handlers of packets read them.

* `readIn`: reading inside a payload, with an error outside it;
* `readMem`: reading memory, and `payloadMem`: the memory from a payload on;
* `ReadsAs`: bytes are read one after the other, with `readsAs_readIn` and `readsAs_payloadMem`.
-/

namespace MicroOS

open ByteImage Checked

/-- Reading inside a payload. -/
def readIn (packet : List UInt8) (i : ℕ) : Except Halt UInt8 :=
  match packet[i]? with
  | some b => .ok b
  | none => .error (.outOfBounds i)

/-- Reading anywhere. -/
def readMem (mem : ℕ → UInt8) (i : ℕ) : Except Halt UInt8 := .ok (mem i)

/-- The memory from a payload on. -/
def payloadMem (packet : List UInt8) (beyond : ℕ → UInt8) (i : ℕ) : UInt8 :=
  packet.getD i (beyond i)

/-- Bytes are read one after the other. -/
def ReadsAs (read : ℕ → Except Halt UInt8) (pos : ℕ) (x : List UInt8) : Prop :=
  ∀ i b, x[i]? = some b → read (pos + i) = .ok b

variable {read : ℕ → Except Halt UInt8} {packet x : List UInt8} {pos i : ℕ} {b : UInt8}

lemma readIn_of_lt (h : i < packet.length) : readIn packet i = .ok (packet.getD i 0) := by
  rw [readIn, List.getElem?_eq_getElem h, List.getD_eq_getElem _ _ h]

/-- A read that returns is inside of the packet. -/
lemma readIn_eq_ok (h : readIn packet i = .ok b) :
    packet[i]? = some b ∧ i < packet.length ∧ packet.getD i 0 = b := by
  rw [readIn] at h
  split at h
  · rename_i c hc
    obtain rfl := Except.ok.inj h
    obtain ⟨hi, hget⟩ := List.getElem?_eq_some_iff.mp hc
    exact ⟨hc, hi, (List.getD_eq_getElem _ _ hi).trans hget⟩
  · exact nomatch h

/-- The memory holds the packet. -/
lemma holds_payloadMem (packet : List UInt8) (beyond : ℕ → UInt8) :
    Holds (payloadMem packet beyond) 0 packet := by
  intro i b hb
  rw [Nat.zero_add, payloadMem, List.getD_eq_getElem?_getD, hb, Option.getD_some]

/-- The first of the bytes that are read, and the others. -/
lemma readsAs_cons (h : ReadsAs read pos (b :: x)) :
    read pos = .ok b ∧ ReadsAs read (pos + 1) x := by
  refine ⟨h 0 b rfl, fun i c hc => ?_⟩
  rw [Nat.add_assoc, Nat.add_comm 1]
  exact h (i + 1) c hc

/-- What stands in a payload is read. -/
lemma readsAs_of_prefix (hpacket : ReadsAs read 0 packet) (hx : x <+: packet.drop pos) :
    ReadsAs read pos x := by
  intro i b hb
  obtain ⟨hi, rfl⟩ := List.getElem?_eq_some_iff.mp hb
  have hbyte := List.prefix_iff_getElem?.mp hx i hi
  rw [List.getElem?_drop] at hbyte
  have h := hpacket (pos + i) _ hbyte
  rwa [Nat.zero_add] at h

lemma readsAs_readIn (packet : List UInt8) : ReadsAs (readIn packet) 0 packet := by
  intro i b hb
  rw [Nat.zero_add, readIn, hb]

lemma readsAs_payloadMem (packet : List UInt8) (beyond : ℕ → UInt8) :
    ReadsAs (readMem (payloadMem packet beyond)) 0 packet :=
  fun i b hb => congrArg Except.ok (holds_payloadMem packet beyond i b hb)

end MicroOS
