import MicroOS.Net.Ipv4
import MicroOS.Net.SocketBuffer
import MicroOS.Net.Udp

/-!
The buffers of outgoing packets: `net/tcp.c`, `net/udp.c` and `ipv4_send`.

* `PacketBuffer`: pages that were asked for, the address they have, and what is written from there;
* `ipv4Send`, `tcpSocketSendInternal`, `udpSocketSend`: the code, with its buffers;
* `Sent.Fits`: what is written fits the pages, and the length fields tell the sizes;
* `sent_fits_iff`: up to which size that is so.

A buffer without pages is at the null page and has no room. What `arp_resolve` and `etherframe_send`
do to the kernel is a parameter.
-/

namespace MicroOS

open Checked Ipv4Datagram

/-! ### The code -/

/-- A buffer for a packet: `bytes` are written to it from its start. -/
structure PacketBuffer where
  pages : ℕ
  ptr : ℕ
  bytes : List UInt8

/-- The bytes in the pages of a buffer. -/
def PacketBuffer.room (b : PacketBuffer) : ℕ := if b.ptr = 0 then 0 else b.pages * 0x1000

/-- What is written fits the pages. -/
def PacketBuffer.Holds (b : PacketBuffer) : Prop := b.bytes.length ≤ b.room

/-- The packet of a protocol, and the datagram that is handed to `etherframe_send`. -/
structure Sent where
  packet : PacketBuffer
  datagram : PacketBuffer

/-- What `arp_resolve` and `etherframe_send` do to the kernel, given a datagram. -/
abbrev Link := Kernel → List UInt8 → Except Halt Kernel

/-- `ipv4_send`. -/
def ipv4Send (k : Kernel) (link : Link) (protocol : UInt8) (src dst : UInt32)
    (payload : List UInt8) : Except Halt (Kernel × PacketBuffer) := do
  let pages := (payload.length + ipv4HeaderSize) / 0x1000 + 1
  let (k, buffer) ← vmmAlloc k pages
  let datagram := ipv4Datagram protocol src dst payload
  let k ← link k datagram
  let k ← vmmFree k buffer pages
  return (k, ⟨pages, buffer, datagram⟩)

/-- `sizeof(tcp_pseudo_header_t)`. -/
def tcpPseudoHeaderSize : ℕ := 12

/-- The pseudo header of a packet. -/
def tcpPseudoHeader (localIp remoteIp : UInt32) (totalLength : UInt16) : List UInt8 :=
  le32 localIp ++ le32 remoteIp ++ (le16 0x0600 ++ le16 (bswap16 totalLength))

/-- The header of a packet, with `n` in `checksum`. -/
def TcpPacket.header (packet : TcpPacket) (n : UInt16) : List UInt8 :=
  le16 packet.srcPort ++ le16 packet.dstPort ++ le32 packet.sequenceNumber ++
    le32 packet.ackNumber ++ [0x60, packet.flags] ++ le16 0xffff ++ le16 n ++ le16 0 ++
    le32 packet.options

/-- The buffer of a packet, with `n` in `checksum`. -/
def TcpPacket.buffer (packet : TcpPacket) (localIp : UInt32) (totalLength n : UInt16) :
    List UInt8 :=
  tcpPseudoHeader localIp packet.dstIp totalLength ++ packet.header n ++ packet.data

/-- `tcp_socket_send_internal` with the packet that `TcpStack.sendInternal` makes, from a socket at
`localIp` of a host at `hostIp`. -/
def tcpSocketSendInternal (k : Kernel) (link : Link) (hostIp localIp : UInt32)
    (packet : TcpPacket) : Except Halt (Kernel × Sent) := do
  let totalLength := UInt16.ofNat (packet.data.length + tcpHeaderSize)
  let lengthPhdr := UInt16.ofNat (totalLength.toNat + tcpPseudoHeaderSize)
  let pages := toPages lengthPhdr.toNat
  let (k, ptr) ← vmmAlloc k pages
  let checksum := ipv4Checksum ((packet.buffer localIp totalLength 0).take lengthPhdr.toNat)
  let bytes := packet.buffer localIp totalLength checksum
  let segment := (bytes.drop tcpPseudoHeaderSize).take totalLength.toNat
  let (k, datagram) ← ipv4Send k link 6 hostIp packet.dstIp segment
  let k ← vmmFree k ptr pages
  return (k, ⟨⟨pages, ptr, bytes⟩, datagram⟩)

/-- The buffer of `udp_socket_send`. -/
def UdpSocket.buffer (socket : UdpSocket) (totalSize : UInt16) (data : List UInt8) : List UInt8 :=
  le16 socket.localPort ++ le16 socket.remotePort ++ le16 (bswap16 totalSize) ++ le16 0 ++ data

/-- `udp_socket_send` from a host at `hostIp`. -/
def udpSocketSend (k : Kernel) (link : Link) (hostIp : UInt32) (socket : UdpSocket)
    (data : List UInt8) : Except Halt (Kernel × Sent) := do
  let totalSize := UInt16.ofNat (data.length + udpHeaderSize)
  let pages := toPages totalSize.toNat
  let (k, ptr) ← vmmAlloc k pages
  let bytes := socket.buffer totalSize data
  let (k, datagram) ← ipv4Send k link 17 hostIp socket.remoteIp (bytes.take totalSize.toNat)
  let k ← vmmFree k ptr pages
  return (k, ⟨⟨pages, ptr, bytes⟩, datagram⟩)

/-- **A packet of `size` bytes fits**: each buffer holds what is written to it, the length field of
the protocol, at `offset` in its buffer, is the size with the header, and that of the datagram is
the size with both headers. -/
structure Sent.Fits (s : Sent) (offset header size : ℕ) : Prop where
  packet : s.packet.Holds
  datagram : s.datagram.Holds
  length : (bswap16 (word16 s.packet.bytes offset)).toNat = size + header
  total : networkLength s.datagram.bytes = size + header + ipv4HeaderSize

/-! ### Two allocations -/

/-- There are runs of `n` and of `m` frames, the first one where `pmm_alloc_range` finds it, and the
other one beside it. -/
def Pmm.FreeRuns (p : Pmm) (n m : ℕ) : Prop :=
  ∃ f g, (p.FreeRun f n ∧ ∀ h, p.FreeRun h n → f ≤ h) ∧ p.FreeRun g m ∧
    (g + m ≤ f ∨ f + n ≤ g)

section Allocations

variable {lo : ℕ} {k k₁ k₂ : Kernel} {n m p q : ℕ}

/-- The run that `vmm_alloc` takes. -/
lemma vmmAlloc_cases (hi : KernelInv lo k) (hzero : k.pmm.Used 0) (hn : 0 < n) (hlt : n < 2 ^ 31)
    (h : vmmAlloc k n = .ok (k₁, p)) :
    KernelInv lo k₁ ∧ k₁.pmm.Used 0 ∧
      ((p = 0 ∧ ∀ g, ¬k.pmm.FreeRun g n) ∨
        ∃ f, p ≠ 0 ∧ k.pmm.FreeRun f n ∧ (∀ g, k.pmm.FreeRun g n → f ≤ g) ∧
          ∀ g m, 0 < m → (k₁.pmm.FreeRun g m ↔ k.pmm.FreeRun g m ∧ (g + m ≤ f ∨ f + n ≤ g))) := by
  obtain ⟨hinv, -, hkeeps⟩ := vmmAlloc_keeps hi h
  obtain ⟨pmm, hrange, hgrow, -⟩ := vmmAlloc_spec hi.vmm h
  refine ⟨hinv, hkeeps 0 hzero, ?_⟩
  have hcount : (toInt n).toNat = n := toInt_toNat hlt
  rcases allocRange_cases hi.vmm.guarded (hcount.symm ▸ hn) hrange with
    ⟨rfl, -, hnone⟩ | ⟨f, rfl, hrun, hfirst, hb⟩
  · exact .inl ⟨rfl, hcount ▸ hnone⟩
  rw [hcount] at hrun hfirst hb
  have hne : f ≠ 0 := by
    rintro rfl
    exact (hrun.free 0 le_rfl (by omega)).1 hzero
  refine .inr ⟨f, Nat.mul_ne_zero hne (by norm_num), hrun, hfirst, fun g m hm => ?_⟩
  have hpool : ∀ x, k₁.pmm.Pool x ↔ k.pmm.Pool x := fun x => (hgrow.pool x).trans (hb.pool x)
  constructor
  · intro hg
    refine ⟨⟨hg.room, fun x h1 h2 => ?_⟩, ?_⟩
    · obtain ⟨hused, hno⟩ := hg.free x h1 h2
      exact ⟨fun hu => hused (hkeeps x hu), fun hx => hno ((hpool x).mpr hx)⟩
    · -- a frame of both runs would be in use
      by_contra hover
      have hfree := (hg.free (max f g) (le_max_right f g) (by omega)).1
      exact hfree ((hgrow.used _).mpr (.inl ((hb.used _).mpr (.inl ⟨le_max_left f g, by omega⟩))))
  · rintro ⟨hg, hapart⟩
    refine ⟨hg.room, fun x h1 h2 => ?_⟩
    obtain ⟨hused, hno⟩ := hg.free x h1 h2
    refine ⟨fun hu => ?_, fun hx => hno ((hpool x).mp hx)⟩
    rcases (hgrow.used x).mp hu with hu | ⟨i, htable⟩
    · rcases (hb.used x).mp hu with hin | hu
      · omega
      · exact hused hu
    · exact hno ((hpool x).mp (hinv.vmm.pool_of_owns htable).1)

/-- **Two buffers get their pages** exactly when both runs are there. -/
lemma vmmAlloc_both (hi : KernelInv lo k) (hzero : k.pmm.Used 0) (hn : 0 < n) (hn' : n < 2 ^ 31)
    (hm : 0 < m) (hm' : m < 2 ^ 31) (h₁ : vmmAlloc k n = .ok (k₁, p))
    (h₂ : vmmAlloc k₁ m = .ok (k₂, q)) : (p ≠ 0 ∧ q ≠ 0) ↔ k.pmm.FreeRuns n m := by
  obtain ⟨hi₁, hzero₁, ⟨rfl, hnone⟩ | ⟨f, hp, hrun, hfirst, hleft⟩⟩ :=
    vmmAlloc_cases hi hzero hn hn' h₁
  · refine ⟨fun h => absurd rfl h.1, ?_⟩
    rintro ⟨f, g, ⟨hf, -⟩, -⟩
    exact absurd hf (hnone f)
  obtain ⟨-, -, ⟨rfl, hnone⟩ | ⟨g, hq, hrun', -⟩⟩ := vmmAlloc_cases hi₁ hzero₁ hm hm' h₂
  · refine ⟨fun h => absurd rfl h.2, ?_⟩
    rintro ⟨f', g, ⟨hf, hfirst'⟩, hg, hapart⟩
    obtain rfl : f' = f := le_antisymm (hfirst' f hrun) (hfirst f' hf)
    exact absurd ((hleft g m hm).mpr ⟨hg, hapart⟩) (hnone g)
  · obtain ⟨hg, hapart⟩ := (hleft g m hm).mp hrun'
    exact ⟨fun _ => ⟨f, g, ⟨hrun, hfirst⟩, hg, hapart⟩, fun _ => ⟨hp, hq⟩⟩

end Allocations

/-! ### Lengths -/

/-- A length in network order, read back. -/
lemma toNat_length_field {bytes : List UInt8} {offset : ℕ} {n : UInt16}
    (h0 : bytes.getD offset 0 = (bswap16 n).toUInt8)
    (h1 : bytes.getD (offset + 1) 0 = (bswap16 n >>> 8).toUInt8) :
    (bswap16 (word16 bytes offset)).toNat = n.toNat := by
  have hword : beWords (le16 (bswap16 n)) = [n.toNat] := by
    rw [beWords_le16, bswap16_bswap16]
  rw [toNat_bswap16_word16, h0, h1]
  exact List.head_eq_of_cons_eq hword

/-- The length that a datagram says is cut to 16 bits. -/
lemma networkLength_ipv4Datagram (protocol : UInt8) (src dst : UInt32) (payload : List UInt8) :
    networkLength (ipv4Datagram protocol src dst payload) =
      (payload.length + ipv4HeaderSize) % 2 ^ 16 :=
  (toNat_length_field rfl rfl).trans UInt16.toNat_ofNat'

/-- A datagram is its header and its data. -/
lemma length_ipv4Datagram (protocol : UInt8) (src dst : UInt32) (payload : List UInt8) :
    (ipv4Datagram protocol src dst payload).length = payload.length + ipv4HeaderSize := by
  rw [ipv4Datagram, List.length_append, Nat.add_comm]
  rfl

/-- The buffer of a segment has room for the pseudo header, the header and the data. -/
lemma length_tcpBuffer (packet : TcpPacket) (localIp : UInt32) (totalLength n : UInt16) :
    (packet.buffer localIp totalLength n).length =
      tcpPseudoHeaderSize + tcpHeaderSize + packet.data.length := by
  rw [TcpPacket.buffer, List.length_append]
  rfl

lemma toNat_udpLength (socket : UdpSocket) (totalSize : UInt16) (data : List UInt8) :
    (bswap16 (word16 (socket.buffer totalSize data) 4)).toNat = totalSize.toNat :=
  toNat_length_field rfl rfl

/-- The buffer of a datagram has room for the header and the data. -/
lemma length_udpBuffer (socket : UdpSocket) (totalSize : UInt16) (data : List UInt8) :
    (socket.buffer totalSize data).length = udpHeaderSize + data.length := by
  rw [UdpSocket.buffer, List.length_append]
  rfl

section Sends

variable {lo : ℕ} {k k' : Kernel} {link : Link} {b : PacketBuffer} {s : Sent}

/-- The buffer of a datagram. -/
lemma ipv4Send_ok {protocol : UInt8} {src dst : UInt32} {payload : List UInt8}
    (h : ipv4Send k link protocol src dst payload = .ok (k', b)) :
    ∃ k₁, vmmAlloc k b.pages = .ok (k₁, b.ptr) ∧
      b.pages = (payload.length + ipv4HeaderSize) / 0x1000 + 1 ∧
      b.bytes.length = payload.length + ipv4HeaderSize ∧
      networkLength b.bytes = (payload.length + ipv4HeaderSize) % 2 ^ 16 := by
  rw [ipv4Send, bind_eq_ok] at h
  obtain ⟨⟨k₁, q⟩, halloc, h⟩ := h
  rw [bind_eq_ok] at h
  obtain ⟨k₂, -, h⟩ := h
  rw [bind_eq_ok] at h
  obtain ⟨k₃, -, hret⟩ := h
  obtain ⟨rfl, rfl⟩ := Prod.mk.inj (Except.ok.inj hret)
  exact ⟨k₁, halloc, rfl, length_ipv4Datagram .., networkLength_ipv4Datagram ..⟩

/-- A buffer that is large enough holds what is written to it when it has its pages. -/
lemma PacketBuffer.holds_iff (hpos : 0 < b.bytes.length) (hle : b.bytes.length ≤ b.pages * 0x1000) :
    b.Holds ↔ b.ptr ≠ 0 := by
  rw [Holds, room]
  split_ifs with hptr
  · exact ⟨fun h => absurd h (by omega), fun h => absurd hptr h⟩
  · exact iff_of_true hle hptr

/-- `TO_PAGES` leaves room for what was asked for. -/
lemma le_toPages (num : ℕ) : num ≤ toPages num * 0x1000 := by
  rw [toPages]
  omega

/-- **The rule for a packet**: its buffer and the one of its datagram are asked for, with sizes that
went through sixteen bits. -/
lemma Sent.fits_iff {offset header extra total asked : ℕ} {k₁ k₂ : Kernel}
    {data payload : List UInt8} {protocol : UInt8} {src dst : UInt32}
    (hi : KernelInv lo k) (hzero : k.pmm.Used 0)
    (hextra : extra ≤ ipv4HeaderSize) (hheader : 0 < header)
    (htotal : total = (data.length + header) % 2 ^ 16) (hasked : asked = (total + extra) % 2 ^ 16)
    (hpages : s.packet.pages = toPages asked)
    (hlen : s.packet.bytes.length = extra + header + data.length)
    (hfield : (bswap16 (word16 s.packet.bytes offset)).toNat = total)
    (hpayload : payload.length = total)
    (halloc : vmmAlloc k s.packet.pages = .ok (k₁, s.packet.ptr))
    (hsend : ipv4Send k₁ link protocol src dst payload = .ok (k₂, s.datagram)) :
    s.Fits offset header data.length ↔ data.length + header + ipv4HeaderSize < 2 ^ 16 ∧
      k.pmm.FreeRuns (toPages (extra + header + data.length))
        ((data.length + header + ipv4HeaderSize) / 0x1000 + 1) := by
  obtain ⟨k₃, halloc', hpages', hlen', hnetwork⟩ := ipv4Send_ok hsend
  rw [hpayload] at hpages' hlen' hnetwork
  have hsize : ipv4HeaderSize = 20 := rfl
  by_cases hsmall : data.length + header + ipv4HeaderSize < 2 ^ 16
  · -- no length is cut
    rw [Nat.mod_eq_of_lt (by omega)] at htotal
    rw [htotal, Nat.mod_eq_of_lt (by omega)] at hasked
    obtain rfl : asked = extra + header + data.length := by omega
    rw [htotal] at hpages' hlen' hnetwork hfield
    rw [Nat.mod_eq_of_lt hsmall] at hnetwork
    have hle := le_toPages (extra + header + data.length)
    have hle' := lt_pagesOf (data.length + header + ipv4HeaderSize)
    rw [pagesOf] at hle'
    have hpacket : s.packet.Holds ↔ s.packet.ptr ≠ 0 := by
      refine PacketBuffer.holds_iff (by omega) ?_
      rw [hlen, hpages]
      exact hle
    have hdatagram : s.datagram.Holds ↔ s.datagram.ptr ≠ 0 := by
      refine PacketBuffer.holds_iff (by omega) ?_
      rw [hlen', hpages']
      exact hle'.le
    have hcount : 0 < toPages (extra + header + data.length) := by omega
    have hcount' : toPages (extra + header + data.length) < 2 ^ 31 := by
      rw [toPages]
      omega
    rw [hpages] at halloc
    rw [hpages'] at halloc'
    have hboth := vmmAlloc_both hi hzero hcount hcount' (by omega) (by omega) halloc halloc'
    rw [and_iff_right hsmall, ← hboth, ← hpacket, ← hdatagram]
    exact ⟨fun h => ⟨h.packet, h.datagram⟩, fun h => ⟨h.1, h.2, hfield, hnetwork⟩⟩
  · -- the total is cut to 16 bits, and says less than what is sent
    refine iff_of_false (fun h => ?_) fun h => hsmall h.1
    have htotal := h.total
    rw [hnetwork] at htotal
    omega

/-- When a segment fits. -/
lemma tcpSocketSendInternal_fits {hostIp localIp : UInt32} {packet : TcpPacket}
    (hi : KernelInv lo k) (hzero : k.pmm.Used 0)
    (h : tcpSocketSendInternal k link hostIp localIp packet = .ok (k', s)) :
    s.Fits 10 tcpHeaderSize packet.data.length ↔
      packet.data.length + tcpHeaderSize + ipv4HeaderSize < 2 ^ 16 ∧
        k.pmm.FreeRuns (toPages (tcpPseudoHeaderSize + tcpHeaderSize + packet.data.length))
          ((packet.data.length + tcpHeaderSize + ipv4HeaderSize) / 0x1000 + 1) := by
  rw [tcpSocketSendInternal, bind_eq_ok] at h
  obtain ⟨⟨k₁, ptr⟩, halloc, h⟩ := h
  rw [bind_eq_ok] at h
  obtain ⟨⟨k₂, datagram⟩, hsend, h⟩ := h
  rw [bind_eq_ok] at h
  obtain ⟨k₃, -, hret⟩ := h
  obtain ⟨rfl, rfl⟩ := Prod.mk.inj (Except.ok.inj hret)
  refine Sent.fits_iff hi hzero (by decide) (by decide) UInt16.toNat_ofNat' UInt16.toNat_ofNat'
    rfl (length_tcpBuffer ..) (toNat_length_field rfl rfl) ?_ halloc hsend
  rw [List.length_take, List.length_drop, length_tcpBuffer]
  refine min_eq_left (UInt16.toNat_ofNat'.trans_le ((Nat.mod_le _ _).trans ?_))
  omega

/-- When a datagram fits. -/
lemma udpSocketSend_fits {hostIp : UInt32} {socket : UdpSocket} {data : List UInt8}
    (hi : KernelInv lo k) (hzero : k.pmm.Used 0)
    (h : udpSocketSend k link hostIp socket data = .ok (k', s)) :
    s.Fits 4 udpHeaderSize data.length ↔
      data.length + udpHeaderSize + ipv4HeaderSize < 2 ^ 16 ∧
        k.pmm.FreeRuns (toPages (udpHeaderSize + data.length))
          ((data.length + udpHeaderSize + ipv4HeaderSize) / 0x1000 + 1) := by
  rw [udpSocketSend, bind_eq_ok] at h
  obtain ⟨⟨k₁, ptr⟩, halloc, h⟩ := h
  rw [bind_eq_ok] at h
  obtain ⟨⟨k₂, datagram⟩, hsend, h⟩ := h
  rw [bind_eq_ok] at h
  obtain ⟨k₃, -, hret⟩ := h
  obtain ⟨rfl, rfl⟩ := Prod.mk.inj (Except.ok.inj hret)
  have htotal : (UInt16.ofNat (data.length + udpHeaderSize)).toNat =
      (data.length + udpHeaderSize) % 2 ^ 16 := UInt16.toNat_ofNat'
  generalize UInt16.ofNat (data.length + udpHeaderSize) = totalSize at halloc hsend htotal ⊢
  have hasked : totalSize.toNat = (totalSize.toNat + 0) % 2 ^ 16 :=
    (Nat.mod_eq_of_lt totalSize.toNat_lt).symm
  have hlen : (socket.buffer totalSize data).length = 0 + udpHeaderSize + data.length := by
    rw [length_udpBuffer, Nat.zero_add]
  have hpayload : ((socket.buffer totalSize data).take totalSize.toNat).length =
      totalSize.toNat := by
    rw [List.length_take, length_udpBuffer]
    refine min_eq_left (htotal.trans_le ((Nat.mod_le _ _).trans ?_))
    omega
  have hiff := Sent.fits_iff
    (s := ⟨⟨toPages totalSize.toNat, ptr, socket.buffer totalSize data⟩, datagram⟩) hi hzero
    (Nat.zero_le _) (by decide) htotal hasked rfl hlen
    (toNat_udpLength socket totalSize data) hpayload halloc hsend
  rwa [Nat.zero_add] at hiff

end Sends

/-- **Outgoing packets fit their buffers** exactly up to 65491 bytes in a segment and 65507 in a
datagram, when memory has the pages for both buffers. -/
theorem sent_fits_iff {lo : ℕ} {k : Kernel} (hi : KernelInv lo k) (hzero : k.pmm.Used 0) :
    (∀ link hostIp localIp packet k' s, packet.data.length < 2 ^ 31 →
      tcpSocketSendInternal k link hostIp localIp packet = .ok (k', s) →
        (s.Fits 10 tcpHeaderSize packet.data.length ↔ packet.data.length ≤ 65491 ∧
          k.pmm.FreeRuns (toPages (packet.data.length + 36))
            ((packet.data.length + 44) / 0x1000 + 1))) ∧
      ∀ link hostIp socket data k' s, data.length < 2 ^ 31 →
        udpSocketSend k link hostIp socket data = .ok (k', s) →
          (s.Fits 4 udpHeaderSize data.length ↔ data.length ≤ 65507 ∧
            k.pmm.FreeRuns (toPages (data.length + 8)) ((data.length + 28) / 0x1000 + 1)) := by
  refine ⟨fun link hostIp localIp packet k' s _ h => ?_, fun link hostIp socket data k' s _ h => ?_⟩
  · rw [tcpSocketSendInternal_fits hi hzero h, Nat.add_comm _ packet.data.length]
    refine and_congr_left' ?_
    rw [tcpHeaderSize, ipv4HeaderSize]
    omega
  · rw [udpSocketSend_fits hi hzero h, Nat.add_comm _ data.length]
    refine and_congr_left' ?_
    rw [udpHeaderSize, ipv4HeaderSize]
    omega

/-! ### A machine -/

/-- The frame layer takes a datagram and leaves the kernel as it is. -/
def wire : Link := fun k _ => .ok k

/-- A datagram whose buffers take a page each is sent. -/
lemma udpSocketSend_returns {k : Kernel} {frames : ℕ}
    (hready : Ready bootLayout.poolFrame {0, 1} 0x440 29 (1 + (1 + frames)) k) (hostIp : UInt32)
    (socket : UdpSocket) {data : List UInt8} {totalSize : UInt16}
    (htotal : UInt16.ofNat (data.length + udpHeaderSize) = totalSize) (hpos : 0 < totalSize)
    (hsmall : totalSize.toNat ≤ data.length + udpHeaderSize) (hpage : totalSize.toNat < 4000) :
    ∃ k' s, udpSocketSend k wire hostIp socket data = .ok (k', s) ∧ s.packet.pages = 1 ∧
      s.packet.bytes.length = udpHeaderSize + data.length := by
  obtain ⟨k₁, f, halloc, hf, -, hready₁⟩ :=
    hready.vmmAlloc Nat.one_pos (by norm_num) machine_slots.kernel (by decide)
  obtain ⟨k₂, g, halloc₂, hg, -, -⟩ :=
    hready₁.vmmAlloc Nat.one_pos (by norm_num) machine_slots.kernel (by decide)
  obtain ⟨k₃, hfree⟩ := vmmFree_returns k₂ (n := 1) (hg.trans (by decide))
  obtain ⟨k₄, hfree'⟩ := vmmFree_returns k₃ (n := 1) (hf.trans (by decide))
  have hpages : toPages totalSize.toNat = 1 := by
    have hpos : 0 < totalSize.toNat := hpos
    rw [toPages]
    omega
  have hlen : ((socket.buffer totalSize data).take totalSize.toNat).length = totalSize.toNat := by
    rw [List.length_take, length_udpBuffer, Nat.add_comm]
    exact min_eq_left hsmall
  have hpages' : (((socket.buffer totalSize data).take totalSize.toNat).length +
      ipv4HeaderSize) / 0x1000 + 1 = 1 := by
    rw [hlen, ipv4HeaderSize]
    omega
  obtain ⟨datagram, hsend⟩ : ∃ datagram, ipv4Send k₁ wire 17 hostIp socket.remoteIp
      ((socket.buffer totalSize data).take totalSize.toNat) = .ok (k₃, datagram) := by
    rw [ipv4Send, hpages', halloc₂, ok_bind]
    simp only [wire, ok_bind, hfree]
    exact ⟨_, rfl⟩
  refine ⟨k₄, ⟨⟨1, f * 0x1000, socket.buffer totalSize data⟩, datagram⟩, ?_, rfl,
    length_udpBuffer socket totalSize data⟩
  rw [udpSocketSend, htotal, hpages, halloc, ok_bind]
  dsimp only
  rw [hsend, ok_bind]
  dsimp only
  rw [hfree']
  rfl

/-- A socket with a remote end. -/
def exampleSocket : UdpSocket :=
  ⟨0x3500, 0x0004, 0x0101a8c0, 0x0a01a8c0, false, 0, true⟩

/-- A frame beside the first free one. -/
lemma freeRuns_pages {k : Kernel} {f : ℕ} (hrun : k.pmm.FreeRun f 2) : k.pmm.FreeRuns 1 1 := by
  classical
  have hexists : ∃ h, k.pmm.FreeRun h 1 := ⟨f, hrun.take (by norm_num)⟩
  have hnext : k.pmm.FreeRun (f + 1) 1 :=
    ⟨hrun.room, fun x h1 h2 => hrun.free x (by omega) (by omega)⟩
  have hfirst : Nat.find hexists ≤ f := Nat.find_min' hexists (hrun.take (by norm_num))
  refine ⟨Nat.find hexists, f + 1, ⟨Nat.find_spec hexists, fun h hh => Nat.find_min' hexists hh⟩,
    hnext, .inr (Nat.succ_le_succ hfirst)⟩

/-- Three bytes are sent, and both buffers hold them. -/
theorem sent_fits_three : ∃ k k' s,
    udpSocketSend k wire 0x0a01a8c0 exampleSocket [1, 2, 3] = .ok (k', s) ∧
      s.Fits 4 udpHeaderSize 3 := by
  obtain ⟨k, hinv, hzero, hready⟩ := machine_kernel
  have hready : Ready bootLayout.poolFrame {0, 1} 0x440 29 (1 + (1 + 61)) k := hready
  have htotal : UInt16.ofNat (([1, 2, 3] : List UInt8).length + udpHeaderSize) = 11 := rfl
  obtain ⟨k', s, hsend, -⟩ := udpSocketSend_returns hready 0x0a01a8c0 exampleSocket
    htotal (by decide) (by decide) (by decide)
  obtain ⟨f, hrun, -⟩ := hready.run
  refine ⟨k, k', s, hsend, ((sent_fits_iff hinv hzero).2 wire 0x0a01a8c0 exampleSocket [1, 2, 3] k'
    s (by decide) hsend).mpr ⟨by decide, ?_⟩⟩
  exact freeRuns_pages (hrun.take (by decide))

/-- **A packet does not fit.** 65536 bytes are sent from a page, because the size of the datagram is
cut to sixteen bits. -/
theorem sent_beyond : ¬∀ (lo : ℕ) (k : Kernel), KernelInv lo k → k.pmm.Used 0 →
    ∀ link hostIp socket data k' s, data.length < 2 ^ 31 →
      udpSocketSend k link hostIp socket data = .ok (k', s) →
        s.Fits 4 udpHeaderSize data.length := by
  intro h
  obtain ⟨k, hinv, hzero, hready⟩ := machine_kernel
  have hready : Ready bootLayout.poolFrame {0, 1} 0x440 29 (1 + (1 + 61)) k := hready
  have hlen : (List.replicate 65536 (0 : UInt8)).length = 65536 := List.length_replicate
  have htotal : UInt16.ofNat ((List.replicate 65536 (0 : UInt8)).length + udpHeaderSize) = 8 := by
    rw [hlen]
    rfl
  obtain ⟨k', s, hsend, hpages, hbytes⟩ := udpSocketSend_returns hready 0x0a01a8c0 exampleSocket
    htotal (by decide) (by rw [hlen]; decide) (by decide)
  have hfits := (h _ k hinv hzero _ _ _ _ k' s (by rw [hlen]; norm_num) hsend).packet
  rw [PacketBuffer.Holds, hbytes, hlen, PacketBuffer.room, hpages] at hfits
  split_ifs at hfits <;> norm_num [udpHeaderSize] at hfits

end MicroOS
