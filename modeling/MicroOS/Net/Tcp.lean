import MicroOS.Lib.Checked
import MicroOS.Lib.Slots

/-!
The TCP sockets of `net/tcp.c`.

* `Segment`: an incoming segment, its header read from its bytes as `tcp_header_t` lays it out;
* `TcpSocket`, `TcpStack`: a socket, and the stack with its bind table, the sockets by their
  addresses, what was sent, and what was passed to the sockets' `recv`;
* `TcpStack.route`, `TcpStack.recv`: `tcp_ipv4_recv`, the search of the bind table apart;
* `TcpStack.connect`, `TcpStack.send`, `TcpStack.disconnect`: the calls of the host;
* `TcpStack.Touches`: what a call leaves alone.

Ports and addresses stand in network order, as in the packet.
-/

namespace MicroOS

open Checked

/-! ### Segments -/

/-- `BSWAP16`. -/
def bswap16 (n : UInt16) : UInt16 := ((n &&& 0x00ff) <<< 8) ||| ((n &&& 0xff00) >>> 8)

/-- Swapping the bytes twice changes nothing. -/
lemma bswap16_bswap16 (n : UInt16) : bswap16 (bswap16 n) = n := by
  apply UInt16.eq_of_toBitVec_eq
  simp only [bswap16, UInt16.toBitVec_or, UInt16.toBitVec_and, UInt16.toBitVec_shiftLeft,
    UInt16.toBitVec_shiftRight]
  apply BitVec.eq_of_getLsbD_eq
  intro i hi
  interval_cases i <;> simp

/-- `BSWAP32`. -/
def bswap32 (n : UInt32) : UInt32 :=
  ((n &&& 0xff000000) >>> 24) ||| ((n &&& 0x00ff0000) >>> 8) ||| ((n &&& 0x0000ff00) <<< 8)
    ||| ((n &&& 0x000000ff) <<< 24)

/-- A field of 16 bits of a packed header. -/
def word16 (bytes : List UInt8) (i : ℕ) : UInt16 :=
  (bytes.getD i 0).toUInt16 ||| ((bytes.getD (i + 1) 0).toUInt16 <<< 8)

/-- A field of 32 bits of a packed header. -/
def word32 (bytes : List UInt8) (i : ℕ) : UInt32 :=
  (word16 bytes i).toUInt32 ||| ((word16 bytes (i + 2)).toUInt32 <<< 16)

/-- An incoming segment or datagram: source and destination address, and the payload of the IP
packet, whose length is the `size` of the handlers. -/
structure Segment where
  srcIp : UInt32
  dstIp : UInt32
  payload : List UInt8
  deriving DecidableEq, Repr

namespace Segment

/-- `src_port`. -/
def srcPort (seg : Segment) : UInt16 := word16 seg.payload 0

/-- `dst_port`. -/
def dstPort (seg : Segment) : UInt16 := word16 seg.payload 2

/-- `BSWAP32(tcp->sequence_number)`. -/
def sequenceNumber (seg : Segment) : UInt32 := bswap32 (word32 seg.payload 4)

/-- `header_size_32`, the upper half of its byte. -/
def headerSize32 (seg : Segment) : ℕ := (seg.payload.getD 12 0 >>> 4).toNat

/-- `flags`. -/
def flags (seg : Segment) : UInt8 := seg.payload.getD 13 0

/-- The bytes behind the header. -/
def data (seg : Segment) : List UInt8 := seg.payload.drop (seg.headerSize32 * 4)

/-- A segment with a header of the size of `tcp_header_t` that acknowledges nothing. -/
def ofHeader (srcIp dstIp : UInt32) (srcPort dstPort : UInt16) (sequenceNumber : UInt32)
    (flags : UInt8) (data : List UInt8) : Segment where
  srcIp := srcIp
  dstIp := dstIp
  payload := [srcPort.toUInt8, (srcPort >>> 8).toUInt8, dstPort.toUInt8, (dstPort >>> 8).toUInt8,
    (sequenceNumber >>> 24).toUInt8, (sequenceNumber >>> 16).toUInt8,
    (sequenceNumber >>> 8).toUInt8, sequenceNumber.toUInt8, 0, 0, 0, 0, 0x60, flags, 0xff, 0xff,
    0, 0, 0, 0, 0, 0, 0, 0] ++ data

end Segment

/-- `sizeof(tcp_header_t)`, which has the four bytes of options in it. -/
def tcpHeaderSize : ℕ := 24

/-- The flags of `tcp_flags` that the code uses. -/
def tcpFin : UInt8 := 1

/-- `SYN`. -/
def tcpSyn : UInt8 := 2

/-- `RST`. -/
def tcpRst : UInt8 := 4

/-- `PSH`. -/
def tcpPsh : UInt8 := 8

/-- `ACK`. -/
def tcpAck : UInt8 := 16

/-! ### Sockets -/

/-- `tcp_socket_state`. -/
inductive TcpState where
  | closed
  | listen
  | synSent
  | synReceived
  | established
  | finWait1
  | finWait2
  | closing
  | timeWait
  | closeWait
  deriving DecidableEq, Repr

/-- `tcp_socket_t`: `data` is a pointer, and `recv` says whether the callback is set to
`socket_tcp_recv` or still null. -/
structure TcpSocket where
  remotePort : UInt16
  localPort : UInt16
  remoteIp : UInt32
  localIp : UInt32
  listening : Bool
  sequenceNumber : UInt32
  ackNumber : UInt32
  state : TcpState
  data : ℕ
  recv : Bool
  deriving DecidableEq, Repr

/-- A packet that is handed to `ipv4_send`. -/
structure TcpPacket where
  socket : ℕ
  srcPort : UInt16
  dstPort : UInt16
  dstIp : UInt32
  sequenceNumber : UInt32
  ackNumber : UInt32
  flags : UInt8
  options : UInt32
  data : List UInt8
  deriving DecidableEq, Repr

/-- A network stack with its TCP provider: the table `binds` by the addresses of its sockets, null
for a free slot; the sockets that are allocated; what was sent; and the calls of `recv`, with the
socket and the bytes they are given. -/
structure TcpStack where
  ip : UInt32
  freePort : UInt16
  binds : List ℕ
  sockets : ℕ → Option TcpSocket
  sent : List TcpPacket
  received : List (ℕ × List UInt8)

/-- What the code cannot go on from. -/
inductive TcpFault where
  /-- A socket is used that was freed. -/
  | useAfterFree
  /-- `todo()`. -/
  | notImplemented
  /-- `recv` is null. -/
  | nullCallback
  /-- The header does not fit the segment. -/
  | badHeader
  deriving DecidableEq, Repr

namespace TcpStack

/-- Stores a socket. -/
def set (st : TcpStack) (p : ℕ) (s : TcpSocket) : TcpStack :=
  { st with sockets := Function.update st.sockets p (some s) }

/-- The socket at an address. -/
def get (st : TcpStack) (p : ℕ) : Except TcpFault TcpSocket :=
  match st.sockets p with
  | some s => .ok s
  | none => .error .useAfterFree

/-- `tcp_socket_send_internal`. -/
def sendInternal (st : TcpStack) (p : ℕ) (data : List UInt8) (flags : UInt8) :
    Except TcpFault TcpStack := do
  let s ← st.get p
  let packet : TcpPacket :=
    { socket := p
      srcPort := s.localPort
      dstPort := s.remotePort
      dstIp := s.remoteIp
      sequenceNumber := bswap32 s.sequenceNumber
      ackNumber := bswap32 s.ackNumber
      flags
      options := if flags &&& tcpSyn ≠ 0 then 0xb4050402 else 0
      data }
  let st := st.set p
    { s with sequenceNumber := s.sequenceNumber + UInt32.ofNat data.length }
  return { st with sent := st.sent ++ [packet] }

/-! ### Routing -/

/-- The segment is for a listening socket. -/
def Listens (s : TcpSocket) (seg : Segment) : Prop :=
  s.localPort = seg.dstPort ∧ s.localIp = seg.dstIp ∧ s.listening

/-- The segment comes from the remote end of the socket. -/
def FromRemote (s : TcpSocket) (seg : Segment) : Prop :=
  s.remotePort = seg.srcPort ∧ s.remoteIp = seg.srcIp

instance (s : TcpSocket) (seg : Segment) : Decidable (Listens s seg) :=
  inferInstanceAs (Decidable (_ ∧ _))

instance (s : TcpSocket) (seg : Segment) : Decidable (FromRemote s seg) :=
  inferInstanceAs (Decidable (_ ∧ _))

/-- A slot of the bind table that the search of `tcp_ipv4_recv` stops at. -/
def Matches (st : TcpStack) (seg : Segment) (p : ℕ) : Prop :=
  p ≠ 0 ∧ ∃ s ∈ st.sockets p, Listens s seg ∨ FromRemote s seg

instance (st : TcpStack) (seg : Segment) (p : ℕ) : Decidable (st.Matches seg p) :=
  inferInstanceAs (Decidable (_ ∧ _))

/-- The socket that the search of `tcp_ipv4_recv` finds. -/
def route (st : TcpStack) (seg : Segment) : Option ℕ :=
  st.binds.find? fun p => st.Matches seg p

/-- A listening socket that is found is connected to the source. -/
def accept (st : TcpStack) (seg : Segment) (p : ℕ) : TcpStack :=
  match st.sockets p with
  | some s =>
    if Listens s seg then
      st.set p { s with
        listening := false, remotePort := seg.srcPort, remoteIp := seg.srcIp }
    else st
  | none => st

/-! ### Receiving -/

/-- How the switch of `tcp_ipv4_recv` ends: it returns, or goes on with or without a reset. -/
inductive SwitchEnd where
  | returned
  | ended (reset : Bool)
  deriving DecidableEq, Repr

/-- `socket->recv` is called. -/
def callRecv (st : TcpStack) (p : ℕ) (data : List UInt8) : TcpStack :=
  { st with received := st.received ++ [(p, data)] }

/-- The default case of the switch: data. -/
def recvData (st : TcpStack) (p : ℕ) (seg : Segment) : Except TcpFault (TcpStack × SwitchEnd) := do
  let s ← st.get p
  if seg.sequenceNumber ≠ s.ackNumber then .ok (st, .ended true)
  else if s.recv = false then .error .nullCallback
  else if seg.payload.length < seg.headerSize32 * 4 then .error .badHeader
  else
    let st := (st.callRecv p seg.data).set p
      { s with ackNumber := s.ackNumber + UInt32.ofNat seg.data.length }
    let st ← st.sendInternal p [] tcpAck
    return (st, .ended false)

/-- The cases for `FIN` and for `FIN | ACK`. -/
def recvFin (st : TcpStack) (p : ℕ) : Except TcpFault (TcpStack × SwitchEnd) := do
  let s ← st.get p
  match s.state with
  | .established =>
    let st := st.set p { s with state := .closeWait, ackNumber := s.ackNumber + 1 }
    let st ← st.sendInternal p [] tcpAck
    let st ← st.sendInternal p [] (tcpFin ||| tcpAck)
    return (st, .ended false)
  | .closeWait => return (st.set p { s with state := .closed }, .ended false)
  | .finWait1 | .finWait2 =>
    let st := st.set p { s with state := .closed, ackNumber := s.ackNumber + 1 }
    let st ← st.sendInternal p [] tcpAck
    return (st, .ended false)
  | _ => return (st, .ended true)

/-- The case for `SYN | ACK`. -/
def recvSynAck (st : TcpStack) (p : ℕ) (seg : Segment) :
    Except TcpFault (TcpStack × SwitchEnd) := do
  let s ← st.get p
  if s.state = .synSent then
    let st := st.set p { s with
      state := .established
      ackNumber := seg.sequenceNumber + 1
      sequenceNumber := s.sequenceNumber + 1 }
    let st ← st.sendInternal p [] tcpAck
    return (st, .ended false)
  else .ok (st, .ended true)

/-- The case for `ACK`, which falls through to the default case. -/
def recvAck (st : TcpStack) (p : ℕ) (seg : Segment) : Except TcpFault (TcpStack × SwitchEnd) := do
  let s ← st.get p
  match s.state with
  | .synReceived => return (st.set p { s with state := .established }, .returned)
  | .finWait1 => return (st.set p { s with state := .finWait2 }, .returned)
  | .closeWait => return (st.set p { s with state := .closed }, .ended false)
  | _ => if seg.flags = tcpAck then .ok (st, .ended false) else st.recvData p seg

/-- `flags & (SYN | ACK | FIN)`. -/
def switchKey (seg : Segment) : UInt8 := seg.flags &&& (tcpSyn ||| tcpAck ||| tcpFin)

/-- The switch of `tcp_ipv4_recv`. -/
def switch (st : TcpStack) (p : ℕ) (seg : Segment) : Except TcpFault (TcpStack × SwitchEnd) := do
  let s ← st.get p
  if switchKey seg = tcpSyn then
    if s.state = .listen then .error .notImplemented else .ok (st, .ended true)
  else if switchKey seg = tcpSyn ||| tcpAck then st.recvSynAck p seg
  else if switchKey seg = tcpSyn ||| tcpFin ∨ switchKey seg = tcpSyn ||| tcpFin ||| tcpAck then
    .ok (st, .ended true)
  else if switchKey seg = tcpFin ∨ switchKey seg = tcpFin ||| tcpAck then st.recvFin p
  else if switchKey seg = tcpAck then st.recvAck p seg
  else st.recvData p seg

/-- Takes a socket out of the bind table and frees it. -/
def unbind (st : TcpStack) (p : ℕ) : TcpStack :=
  if p ∈ st.binds then
    { st with
      binds := st.binds.set (st.binds.idxOf p) 0
      sockets := Function.update st.sockets p none }
  else st

/-- The end of `tcp_ipv4_recv`: a closed socket is freed. -/
def finishClosed (st : TcpStack) (p : ℕ) : Except TcpFault TcpStack := do
  let s ← st.get p
  if s.state = .closed then .ok (st.unbind p) else .ok st

/-- What `tcp_ipv4_recv` does after the switch. -/
def finish (st : TcpStack) (p : ℕ) (reset : Bool) : Except TcpFault TcpStack := do
  if reset then
    let st ← st.sendInternal p [] tcpRst
    let s ← st.get p
    (st.set p { s with state := .closed }).finishClosed p
  else st.finishClosed p

/-- What `tcp_ipv4_recv` does once a socket is found. -/
def socketRecv (st : TcpStack) (p : ℕ) (seg : Segment) : Except TcpFault TcpStack := do
  let s ← st.get p
  if s.state = .closed then st.finish p false
  else
    match ← st.switch p seg with
    | (st, .returned) => .ok st
    | (st, .ended reset) => st.finish p reset

/-- `tcp_ipv4_recv`. -/
def recv (st : TcpStack) (seg : Segment) : Except TcpFault TcpStack :=
  if seg.payload.length < tcpHeaderSize then .ok st
  else
    match st.route seg with
    | none => .ok st
    | some p => (st.accept seg p).socketRecv p seg

/-! ### The calls of the host -/

/-- A socket is put into the first free slot of the bind table, or behind it. -/
def bind (st : TcpStack) (p : ℕ) : TcpStack :=
  { st with binds := Slots.insert 0 st.binds p }

/-- The socket of `tcp_connect`. -/
def newSocket (st : TcpStack) (ip : UInt32) (port : UInt16) (timeMs : UInt32) : TcpSocket :=
  { remotePort := bswap16 port
    localPort := bswap16 st.freePort
    remoteIp := ip
    localIp := st.ip
    listening := false
    sequenceNumber := timeMs
    ackNumber := 0
    state := .synSent
    data := 0
    recv := false }

/-- The socket of `tcp_connect` is made and bound, at the address that `vmm_alloc` returns. -/
def opened (st : TcpStack) (p : ℕ) (ip : UInt32) (port : UInt16) (timeMs : UInt32) : TcpStack :=
  { (st.set p (st.newSocket ip port timeMs)).bind p with freePort := st.freePort + 1 }

/-- `tcp_connect` up to its wait. -/
def connect (st : TcpStack) (p : ℕ) (ip : UInt32) (port : UInt16) (timeMs : UInt32) :
    Except TcpFault TcpStack :=
  (st.opened p ip port timeMs).sendInternal p [] tcpSyn

/-- `tcp_socket_disconnect`. -/
def disconnect (st : TcpStack) (p : ℕ) : Except TcpFault TcpStack := do
  let s ← st.get p
  let st := st.set p { s with state := .finWait1 }
  let st ← st.sendInternal p [] (tcpFin ||| tcpAck)
  let s ← st.get p
  return st.set p { s with sequenceNumber := s.sequenceNumber + 1 }

/-- `tcp_socket_send`. -/
def send (st : TcpStack) (p : ℕ) (data : List UInt8) : Except TcpFault TcpStack :=
  st.sendInternal p data (tcpPsh ||| tcpAck)

/-! ### What a call touches -/

/-- Two states of one socket: its ends, its callback and its `data` pointer are the same. -/
structure SameEnds (s s' : TcpSocket) : Prop where
  remotePort : s'.remotePort = s.remotePort
  localPort : s'.localPort = s.localPort
  remoteIp : s'.remoteIp = s.remoteIp
  localIp : s'.localIp = s.localIp
  listening : s'.listening = s.listening
  data : s'.data = s.data
  recv : s'.recv = s.recv

lemma SameEnds.refl (s : TcpSocket) : SameEnds s s := ⟨rfl, rfl, rfl, rfl, rfl, rfl, rfl⟩

/-- Ends that two steps keep are kept. -/
lemma SameEnds.trans {s t u : TcpSocket} (h : SameEnds s t) (h' : SameEnds t u) :
    SameEnds s u :=
  ⟨h'.remotePort.trans h.remotePort, h'.localPort.trans h.localPort,
    h'.remoteIp.trans h.remoteIp, h'.localIp.trans h.localIp, h'.listening.trans h.listening,
    h'.data.trans h.data, h'.recv.trans h.recv⟩

/-- A call that works on one socket and leaves the bind table alone. -/
structure Touches (p : ℕ) (st st' : TcpStack) : Prop where
  binds : st'.binds = st.binds
  others : ∀ q, q ≠ p → st'.sockets q = st.sockets q
  socket : ∀ s, st.sockets p = some s → ∃ s', st'.sockets p = some s' ∧ SameEnds s s'
  freed : st.sockets p = none → st'.sockets p = none

variable {st st' : TcpStack} {p : ℕ} {s s' : TcpSocket}

lemma Touches.refl (p : ℕ) (st : TcpStack) : Touches p st st :=
  ⟨rfl, fun _ _ => rfl, fun s hs => ⟨s, hs, .refl s⟩, id⟩

/-- Two steps that touch one socket touch no other. -/
lemma Touches.trans {u : TcpStack} (h : Touches p st st') (h' : Touches p st' u) :
    Touches p st u := by
  refine ⟨h'.binds.trans h.binds, fun q hq => (h'.others q hq).trans (h.others q hq),
    fun s hs => ?_, fun hn => h'.freed (h.freed hn)⟩
  obtain ⟨s', hs', hsame⟩ := h.socket s hs
  obtain ⟨s'', hs'', hsame'⟩ := h'.socket s' hs'
  exact ⟨s'', hs'', hsame.trans hsame'⟩

/-- A socket that is there is found. -/
lemma get_eq_ok : st.get p = .ok s ↔ st.sockets p = some s := by
  rw [get]
  cases st.sockets p with
  | none => simp
  | some t => simp

@[simp] lemma set_sockets_self : (st.set p s).sockets p = some s := Function.update_self _ _ _

lemma set_sockets_of_ne {q : ℕ} (h : q ≠ p) : (st.set p s).sockets q = st.sockets q :=
  Function.update_of_ne h _ _

/-- A socket changes its numbers or its state. -/
lemma touches_set (hs : st.sockets p = some s) (h : SameEnds s s') : Touches p st (st.set p s') :=
  ⟨rfl, fun _ hq => set_sockets_of_ne hq,
    fun t ht => ⟨s', set_sockets_self, Option.some.inj (hs.symm.trans ht) ▸ h⟩,
    fun hn => absurd (hn.symm.trans hs) (by simp)⟩

lemma Touches.record (h : Touches p st st') (sent : List TcpPacket)
    (received : List (ℕ × List UInt8)) : Touches p st { st' with sent, received } :=
  ⟨h.binds, h.others, h.socket, h.freed⟩

/-- A call that leaves a socket in a given state, up to its sequence number, and passes nothing to
`recv`. -/
structure Leaves (p : ℕ) (s' : TcpSocket) (st st' : TcpStack) : Prop where
  touches : Touches p st st'
  received : st'.received = st.received
  socket : ∃ t, st'.sockets p = some t ∧ t.state = s'.state ∧ t.ackNumber = s'.ackNumber

/-- A socket is stored in place of one with the same ends. -/
lemma leaves_set (hs : st.sockets p = some s) (h : SameEnds s s') :
    Leaves p s' st (st.set p s') :=
  ⟨touches_set hs h, rfl, s', set_sockets_self, rfl, rfl⟩

/-- A packet is sent from a socket, which counts the bytes. -/
lemma sendInternal_leaves {data : List UInt8} {flags : UInt8} (hs : st.sockets p = some s)
    (h : st.sendInternal p data flags = .ok st') : Leaves p s st st' := by
  rw [sendInternal, get_eq_ok.mpr hs, ok_bind] at h
  obtain rfl := Except.ok.inj h
  have hsame : SameEnds s
      { s with sequenceNumber := s.sequenceNumber + UInt32.ofNat data.length } :=
    ⟨rfl, rfl, rfl, rfl, rfl, rfl, rfl⟩
  have hset := touches_set hs hsame
  exact ⟨hset.record _ _, rfl, _, set_sockets_self, rfl, rfl⟩

/-- A socket that is there can send. -/
lemma sendInternal_ok (hs : st.sockets p = some s) (data : List UInt8) (flags : UInt8) :
    ∃ st', st.sendInternal p data flags = .ok st' := by
  rw [sendInternal, get_eq_ok.mpr hs, ok_bind]
  exact ⟨_, rfl⟩

/-- The state of a socket changes, and a packet is sent. -/
lemma leaves_set_send {data : List UInt8} {flags : UInt8} (hs : st.sockets p = some s)
    (hsend : (st.set p s').sendInternal p data flags = .ok st') (h : SameEnds s s') :
    Leaves p s' st st' := by
  obtain ⟨htouch, hrec, hsocket⟩ := sendInternal_leaves set_sockets_self hsend
  exact ⟨(touches_set hs h).trans htouch, hrec, hsocket⟩

/-! ### A stack with one connection -/

/-- An established connection to port 80 of `10.0.2.2`, whose stream starts at 1000. -/
def connection : TcpSocket :=
  { remotePort := bswap16 80
    localPort := bswap16 1024
    remoteIp := 0x0202000a
    localIp := 0x0f02000a
    listening := false
    sequenceNumber := 1
    ackNumber := 1000
    state := .established
    data := 0x2000
    recv := true }

/-- The stack with this connection. -/
def oneConnection : TcpStack :=
  { ip := 0x0f02000a
    freePort := 1025
    binds := [0x1000]
    sockets := Function.update (fun _ => none) 0x1000 (some connection)
    sent := []
    received := [] }

/-- A segment of the connection. -/
def connectionSegment (sequenceNumber : UInt32) (flags : UInt8) (data : List UInt8) : Segment :=
  .ofHeader connection.remoteIp connection.localIp connection.remotePort connection.localPort
    sequenceNumber flags data

end TcpStack

end MicroOS
