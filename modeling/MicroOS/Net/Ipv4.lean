import MicroOS.Lib.ByteMem
import MicroOS.Net.Checksum

/-!
The datagrams of `net/ipv4.c` and the echo messages of `net/icmp.c`.

* `ipv4Datagram`: what `ipv4_send` hands to the frame layer;
* `icmpEchoRequest`, `icmpEchoReply`: what is sent to ask for an echo and to answer;
* `sent_checksums_verify`: what carries a checksum verifies;
* `Ipv4Host.etherframeRecv`: `ipv4_etherframe_recv`, with the calls of the handlers;
* `ipv4_handed_iff`: when the handlers get the payload and nothing outside the frame.

Addresses stand in network order. The handlers are called one after the other and the header is not
written in between.
-/

namespace MicroOS

open ByteMem

/-! ### What is sent -/

/-- A `uint32_t` in memory. -/
def le32 (n : UInt32) : List UInt8 :=
  [n.toUInt8, (n >>> 8).toUInt8, (n >>> 16).toUInt8, (n >>> 24).toUInt8]

@[simp] lemma length_le32 (n : UInt32) : (le32 n).length = 4 := rfl

/-- `sizeof(ipv4_message_t)`. -/
def ipv4HeaderSize : ℕ := 20

/-- The header of a datagram up to its checksum. -/
def ipv4HeaderStart (protocol : UInt8) (size : ℕ) : List UInt8 :=
  [0x45, 0] ++ le16 (bswap16 (UInt16.ofNat (size + ipv4HeaderSize))) ++ le16 0 ++ le16 0 ++
    [0x40, protocol]

@[simp] lemma length_ipv4HeaderStart (protocol : UInt8) (size : ℕ) :
    (ipv4HeaderStart protocol size).length = 10 := rfl

/-- The header that `ipv4_send` builds, with `n` in `header_checksum`. -/
def ipv4Header (protocol : UInt8) (size : ℕ) (src dst : UInt32) (n : UInt16) : List UInt8 :=
  ipv4HeaderStart protocol size ++ le16 n ++ (le32 src ++ le32 dst)

/-- The header with its checksum. -/
def ipv4SentHeader (protocol : UInt8) (size : ℕ) (src dst : UInt32) : List UInt8 :=
  ipv4Header protocol size src dst (ipv4Checksum (ipv4Header protocol size src dst 0))

/-- `ipv4_send`: what is handed to `etherframe_send`. -/
def ipv4Datagram (protocol : UInt8) (src dst : UInt32) (payload : List UInt8) : List UInt8 :=
  ipv4SentHeader protocol payload.length src dst ++ payload

/-- An `icmp_message_t` with `n` in `checksum`. -/
def icmpMessage (type code : UInt8) (data : List UInt8) (n : UInt16) : List UInt8 :=
  [type, code] ++ le16 n ++ data

/-- `icmp_send_echo_request`: what is handed to `ipv4_send`. -/
def icmpEchoRequest : List UInt8 :=
  icmpMessage 8 0 (le32 0x3713) (ipv4Checksum (icmpMessage 8 0 (le32 0x3713) 0))

/-- `sizeof(icmp_message_t)`. -/
def icmpMessageSize : ℕ := 8

/-- `icmp_ipv4_recv` with an echo request: what is handed to `ipv4_send`. The checksum is taken over
the fields, and nothing behind them is sent back. -/
def icmpEchoReply (payload : List UInt8) : Option (List UInt8) :=
  if payload.length < icmpMessageSize ∨ payload.getD 0 0 ≠ 8 then none
  else
    let code := payload.getD 1 0
    let data := (payload.drop 4).take 4
    some (icmpMessage 0 code data (ipv4Checksum (icmpMessage 0 code data 0)))

/-- **What carries a checksum verifies**: a buffer of even size with its checksum in a field that
was zero, the headers of datagrams, and echo requests and replies; and the carries of every
sum end. -/
theorem sent_checksums_verify :
    (∀ before rest : List UInt8, before.length % 2 = 0 → rest.length % 2 = 0 →
      before.length + 2 + rest.length ≤ 131072 →
        ipv4Checksum (before ++ le16 (ipv4Checksum (before ++ le16 0 ++ rest)) ++ rest) = 0) ∧
      (∀ protocol src dst payload,
        ipv4Checksum ((ipv4Datagram protocol src dst payload).take ipv4HeaderSize) = 0) ∧
      ipv4Checksum icmpEchoRequest = 0 ∧
      (∀ payload reply, icmpEchoReply payload = some reply → ipv4Checksum reply = 0) ∧
      ∀ temp : UInt32, (foldCarries temp).toNat < 2 ^ 16 := by
  refine ⟨fun before rest => checksum_field, fun protocol src dst payload => ?_,
    checksum_field (by simp) (by simp) (by simp), fun payload reply h => ?_, fun temp => ?_⟩
  · have hlen : (ipv4SentHeader protocol payload.length src dst).length = ipv4HeaderSize := rfl
    rw [ipv4Datagram, ← hlen, List.take_left]
    exact checksum_field (by simp) (by simp) (by simp)
  · rw [icmpEchoReply] at h
    split_ifs at h with hshort
    have hdata : ((payload.drop 4).take 4).length = 4 := by
      rw [icmpMessageSize] at hshort
      rw [List.length_take, List.length_drop]
      omega
    obtain rfl := Option.some.inj h
    exact checksum_field (by simp) (by rw [hdata]) (by simp [hdata])
  · rw [toNat_foldCarries]
    exact (OnesComplement.foldCarry_spec (by norm_num) _).1

/-- The answer to an echo request verifies. -/
theorem sent_checksums_verify_reply : ∃ reply,
    icmpEchoReply [8, 0, 0xab, 0xcd, 1, 2, 3, 4] = some reply ∧ ipv4Checksum reply = 0 :=
  ⟨_, rfl, sent_checksums_verify.2.2.2.1 [8, 0, 0xab, 0xcd, 1, 2, 3, 4] _ rfl⟩

/-! ### What is received -/

/-- A call of the `recv` of a handler, with the offset of its payload in the one of the frame. -/
structure Ipv4Call where
  handler : ℕ
  srcIp : UInt32
  dstIp : UInt32
  offset : ℕ
  size : ℕ
  deriving DecidableEq

/-- The address of the host, null before it has one, and the protocols of the registered
handlers. -/
structure Ipv4Host where
  ip : UInt32
  handlers : List UInt8

namespace Ipv4Datagram

/-- `version`. -/
def version (payload : List UInt8) : ℕ := (payload.getD 0 0).toNat / 16

/-- `header_length`. -/
def headerLength (payload : List UInt8) : ℕ := (payload.getD 0 0).toNat % 16

/-- `total_length`, as the host reads it. -/
def totalLength (payload : List UInt8) : ℕ := (word16 payload 2).toNat

/-- The total length in network order. -/
def networkLength (payload : List UInt8) : ℕ := (bswap16 (word16 payload 2)).toNat

/-- `protocol`. -/
def protocol (payload : List UInt8) : UInt8 := payload.getD 9 0

/-- `source_address`. -/
def sourceAddress (payload : List UInt8) : UInt32 := word32 payload 12

/-- `destination_address`. -/
def destinationAddress (payload : List UInt8) : UInt32 := word32 payload 16

end Ipv4Datagram

open Ipv4Datagram

namespace Ipv4Host

/-- `length` of `ipv4_etherframe_recv`. -/
def usedLength (payload : List UInt8) : ℕ :=
  if totalLength payload > payload.length then payload.length else totalLength payload

/-- `ipv4_etherframe_recv`, by its calls of handlers. -/
def etherframeRecv (h : Ipv4Host) (payload : List UInt8) : List Ipv4Call :=
  if payload.length < ipv4HeaderSize then []
  else if destinationAddress payload = h.ip ∨ destinationAddress payload = 0xffffffff ∨
    h.ip = 0 then
    (h.handlers.zipIdx.filter fun x => x.1 = protocol payload).map fun x =>
      { handler := x.2
        srcIp := sourceAddress payload
        dstIp := destinationAddress payload
        offset := 4 * headerLength payload
        size := sub32 (usedLength payload) (4 * headerLength payload) }
  else []

/-- The frame gets to a handler: it is long enough, for this host, and of a protocol that is
registered. -/
def Delivers (h : Ipv4Host) (payload : List UInt8) : Prop :=
  ipv4HeaderSize ≤ payload.length ∧
    (destinationAddress payload = h.ip ∨ destinationAddress payload = 0xffffffff ∨ h.ip = 0) ∧
    protocol payload ∈ h.handlers

/-- A well-formed datagram for the host, perhaps with padding behind it. -/
structure WellFormed (h : Ipv4Host) (payload : List UInt8) : Prop where
  version : version payload = 4
  header : 5 ≤ headerLength payload
  fits : 4 * headerLength payload ≤ networkLength payload
  total : networkLength payload ≤ payload.length
  dst : destinationAddress payload = h.ip

/-- Each handler for the protocol is called once, with the bytes behind the header. -/
def Handed (h : Ipv4Host) (payload : List UInt8) : Prop :=
  h.etherframeRecv payload =
    (h.handlers.zipIdx.filter fun x => x.1 = protocol payload).map fun x =>
      { handler := x.2
        srcIp := sourceAddress payload
        dstIp := destinationAddress payload
        offset := 4 * headerLength payload
        size := networkLength payload - 4 * headerLength payload }

/-- No handler gets bytes outside the frame. -/
def Inside (h : Ipv4Host) (payload : List UInt8) : Prop :=
  ∀ c ∈ h.etherframeRecv payload, c.offset + c.size ≤ payload.length

variable {h : Ipv4Host} {payload : List UInt8} {c : Ipv4Call}

/-- What is used of a packet is part of it. -/
lemma usedLength_le (payload : List UInt8) : usedLength payload ≤ payload.length := by
  rw [usedLength]
  split_ifs <;> omega

/-- A call is made for what is behind the header, with the length that the header says. -/
lemma call_eq (hc : c ∈ h.etherframeRecv payload) : c.offset = 4 * headerLength payload ∧
    c.size = sub32 (usedLength payload) (4 * headerLength payload) := by
  rw [etherframeRecv] at hc
  split_ifs at hc
  · exact absurd hc List.not_mem_nil
  · obtain ⟨x, -, rfl⟩ := List.mem_map.mp hc
    exact ⟨rfl, rfl⟩
  · exact absurd hc List.not_mem_nil

/-- A handler is called. -/
lemma exists_call_iff : (∃ c, c ∈ h.etherframeRecv payload) ↔ h.Delivers payload := by
  rw [etherframeRecv, Delivers]
  split_ifs with hshort hdst
  · simp [hshort]
  · have hproto : (∃ x ∈ h.handlers.zipIdx, x.1 = protocol payload) ↔
        protocol payload ∈ h.handlers := by
      constructor
      · rintro ⟨⟨y, i⟩, hx, rfl⟩
        exact List.fst_mem_of_mem_zipIdx hx
      · intro hmem
        obtain ⟨i, hi, hget⟩ := List.mem_iff_getElem.mp hmem
        exact ⟨(protocol payload, i), List.mem_zipIdx_iff_getElem?.mpr
          (by rw [List.getElem?_eq_getElem hi, hget]), rfl⟩
    simp [not_lt.mp hshort, hdst, ← hproto]
  · simp [hdst]

/-- **What a handler gets lies in the frame** if and only if the header does in the length used. -/
lemma inside_iff (hlen : payload.length < 2 ^ 32) : h.Inside payload ↔
    (h.Delivers payload → 4 * headerLength payload ≤ usedLength payload) := by
  have hused := usedLength_le payload
  have hheader : headerLength payload < 16 := Nat.mod_lt _ (by norm_num)
  rw [← exists_call_iff]
  constructor
  · rintro hin ⟨c, hc⟩
    obtain ⟨hoffset, hsize⟩ := call_eq hc
    have hle := hin c hc
    by_contra hlt
    rw [hoffset, hsize, sub32] at hle
    omega
  · intro himp c hc
    obtain ⟨hoffset, hsize⟩ := call_eq hc
    have hle := himp ⟨c, hc⟩
    rw [hoffset, hsize, sub32_of_le (by omega) hle]
    omega

/-- **A well-formed datagram is handed on** if and only if the length used is its own. -/
lemma WellFormed.handed_iff (hw : h.WellFormed payload) : h.Handed payload ↔
    (h.Delivers payload → usedLength payload = networkLength payload) := by
  have hheader := hw.header
  have hfits := hw.fits
  have htotal := hw.total
  have hlong : ¬payload.length < ipv4HeaderSize := by
    rw [ipv4HeaderSize]
    omega
  have hnetwork := (bswap16 (word16 payload 2)).toNat_lt
  have hused : usedLength payload < 2 ^ 16 := by
    have hread := (word16 payload 2).toNat_lt
    rw [usedLength, totalLength]
    split_ifs <;> omega
  rw [← networkLength] at hnetwork
  have hsize : sub32 (usedLength payload) (4 * headerLength payload) =
      networkLength payload - 4 * headerLength payload ↔
        usedLength payload = networkLength payload := by
    have hlt : headerLength payload < 16 := Nat.mod_lt _ (by norm_num)
    rw [sub32]
    omega
  rw [Handed, ← exists_call_iff, ← hsize, etherframeRecv, if_neg hlong, if_pos (.inl hw.dst)]
  generalize h.handlers.zipIdx.filter (fun x => x.1 = protocol payload) = called
  constructor
  · rintro heq ⟨c, hc⟩
    obtain ⟨x, hx, -⟩ := List.mem_map.mp hc
    have hcall := List.map_inj_left.mp heq x hx
    exact congrArg Ipv4Call.size hcall
  · intro himp
    refine List.map_congr_left fun x hx => ?_
    rw [himp ⟨_, List.mem_map_of_mem hx⟩]

end Ipv4Host

open Ipv4Host in
/-- **The payload of a datagram is handed on**, and nothing outside the frame, exactly when no
handler is called, or the header fits the length that is used, which is the length of the datagram
if that is well-formed. -/
theorem ipv4_handed_iff (h : Ipv4Host) {payload : List UInt8} (hlen : payload.length < 2 ^ 32) :
    (h.WellFormed payload → h.Handed payload) ∧ h.Inside payload ↔
      (h.Delivers payload → 4 * headerLength payload ≤ usedLength payload ∧
        (h.WellFormed payload → usedLength payload = networkLength payload)) := by
  rw [inside_iff hlen]
  constructor
  · rintro ⟨hhanded, hin⟩ hd
    exact ⟨hin hd, fun hw => hw.handed_iff.mp (hhanded hw) hd⟩
  · intro himp
    exact ⟨fun hw => hw.handed_iff.mpr fun hd => (himp hd).2 hw, fun hd => (himp hd).1⟩

/-- A datagram with eight bytes for the protocol 17, and padding behind it. -/
def paddedDatagram (padding : ℕ) : List UInt8 :=
  [0x45, 0, 0, 28, 0, 0, 0, 0, 64, 17, 0, 0, 1, 0, 0, 10, 2, 0, 0, 10] ++
    [1, 2, 3, 4, 5, 6, 7, 8] ++ List.replicate padding 0

/-- Without padding the handler gets the eight bytes. -/
theorem ipv4_handed_exact :
    Ipv4Host.Handed ⟨0x0a000002, [17]⟩ (paddedDatagram 0) ∧
      Ipv4Host.Inside ⟨0x0a000002, [17]⟩ (paddedDatagram 0) := by
  have hlen : (paddedDatagram 0).length < 2 ^ 32 := by decide
  have hboth := (ipv4_handed_iff ⟨0x0a000002, [17]⟩ hlen).mpr
    fun _ => ⟨by decide, fun _ => by decide⟩
  exact ⟨hboth.1 ⟨by decide, by decide, by decide, by decide, by decide⟩, hboth.2⟩

/-- With padding the handler gets that too. -/
theorem padding_handed : ¬∀ (h : Ipv4Host) (payload : List UInt8), payload.length < 2 ^ 32 →
    (h.WellFormed payload → h.Handed payload) ∧ h.Inside payload := by
  intro h
  have hhanded := (h ⟨0x0a000002, [17]⟩ (paddedDatagram 18) (by decide)).1
    ⟨by decide, by decide, by decide, by decide, by decide⟩
  have hsize : ([26] : List ℕ) = [8] := congrArg (List.map Ipv4Call.size) hhanded
  exact absurd hsize (by decide)

end MicroOS
