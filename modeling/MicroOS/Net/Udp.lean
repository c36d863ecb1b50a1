import MicroOS.Net.Tcp

/-!
The UDP sockets of `net/udp.c`.

* `UdpSocket`, `UdpStack`: a socket, and the stack with its bind table, as for TCP;
* `UdpStack.route`, `UdpStack.recv`: `udp_ipv4_recv`, the search of the bind table apart;
* `UdpStack.connect`, `UdpStack.listen`, `UdpStack.disconnect`: the calls of the host.

The ports of a datagram stand where those of a segment stand.
-/

namespace MicroOS

open Checked

/-- `sizeof(udp_header_t)`. -/
def udpHeaderSize : ℕ := 8

/-- The broadcast address. -/
def broadcast : UInt32 := 0xffffffff

/-- `udp_socket_t`: `recv` says whether the callback is set. -/
structure UdpSocket where
  remotePort : UInt16
  localPort : UInt16
  remoteIp : UInt32
  localIp : UInt32
  listening : Bool
  data : ℕ
  recv : Bool
  deriving DecidableEq, Repr

/-- A network stack with its UDP provider. -/
structure UdpStack where
  ip : UInt32
  freePort : UInt16
  binds : List ℕ
  sockets : ℕ → Option UdpSocket
  received : List (ℕ × List UInt8)

/-- What the code cannot go on from. -/
inductive UdpFault where
  /-- A socket is used that was freed. -/
  | useAfterFree
  /-- `recv` is null. -/
  | nullCallback
  deriving DecidableEq, Repr

namespace UdpStack

/-- Stores a socket. -/
def set (st : UdpStack) (p : ℕ) (s : UdpSocket) : UdpStack :=
  { st with sockets := Function.update st.sockets p (some s) }

/-- The datagram is for a listening socket. -/
def Listens (s : UdpSocket) (seg : Segment) : Prop :=
  s.localPort = seg.dstPort ∧ s.localIp = seg.dstIp ∧ s.listening

/-- The datagram comes from the remote end of the socket, where the broadcast address stands for
every address. -/
def FromRemote (s : UdpSocket) (seg : Segment) : Prop :=
  s.remotePort = seg.srcPort ∧
    (s.remoteIp = seg.srcIp ∨ seg.dstIp = broadcast ∨ seg.srcIp = broadcast ∨
      s.remoteIp = broadcast)

instance (s : UdpSocket) (seg : Segment) : Decidable (Listens s seg) :=
  inferInstanceAs (Decidable (_ ∧ _))

instance (s : UdpSocket) (seg : Segment) : Decidable (FromRemote s seg) :=
  inferInstanceAs (Decidable (_ ∧ _))

/-- A slot of the bind table that the search of `udp_ipv4_recv` stops at. -/
def Matches (st : UdpStack) (seg : Segment) (p : ℕ) : Prop :=
  p ≠ 0 ∧ ∃ s ∈ st.sockets p, Listens s seg ∨ FromRemote s seg

instance (st : UdpStack) (seg : Segment) (p : ℕ) : Decidable (st.Matches seg p) :=
  inferInstanceAs (Decidable (_ ∧ _))

/-- The socket that the search of `udp_ipv4_recv` finds. -/
def route (st : UdpStack) (seg : Segment) : Option ℕ :=
  st.binds.find? fun p => st.Matches seg p

/-- A listening socket that is found is connected to the source. -/
def accept (st : UdpStack) (seg : Segment) (p : ℕ) : UdpStack :=
  match st.sockets p with
  | some s =>
    if Listens s seg then
      st.set p { s with
        listening := false, remotePort := seg.srcPort, remoteIp := seg.srcIp }
    else st
  | none => st

/-- `socket->recv` is called with the bytes behind the header. -/
def callRecv (st : UdpStack) (p : ℕ) (seg : Segment) : Except UdpFault UdpStack :=
  match st.sockets p with
  | some s =>
    if s.recv then
      .ok { st with received := st.received ++ [(p, seg.payload.drop udpHeaderSize)] }
    else .error .nullCallback
  | none => .error .useAfterFree

/-- `udp_ipv4_recv`. -/
def recv (st : UdpStack) (seg : Segment) : Except UdpFault UdpStack :=
  if seg.payload.length < udpHeaderSize then .ok st
  else
    match st.route seg with
    | none => .ok st
    | some p => (st.accept seg p).callRecv p seg

/-- A socket is put into the first free slot of the bind table, or behind it. -/
def bind (st : UdpStack) (p : ℕ) : UdpStack :=
  { st with binds := Slots.insert 0 st.binds p }

/-- `udp_connect`, with the address that `vmm_alloc` returns. -/
def connect (st : UdpStack) (p : ℕ) (ip : UInt32) (port : UInt16) : UdpStack :=
  let s : UdpSocket :=
    { remotePort := bswap16 port
      localPort := bswap16 st.freePort
      remoteIp := ip
      localIp := st.ip
      listening := false
      data := 0
      recv := false }
  { st.set p s with freePort := st.freePort + 1 }.bind p

/-- `udp_listen`, with the address that `vmm_alloc` returns. -/
def listen (st : UdpStack) (p : ℕ) (port : UInt16) : UdpStack :=
  let s : UdpSocket :=
    { remotePort := 0
      localPort := bswap16 port
      remoteIp := 0
      localIp := st.ip
      listening := true
      data := 0
      recv := false }
  (st.set p s).bind p

/-- `udp_socket_disconnect`. -/
def disconnect (st : UdpStack) (p : ℕ) : UdpStack :=
  if p ∈ st.binds then
    { st with
      binds := st.binds.set (st.binds.idxOf p) 0
      sockets := Function.update st.sockets p none }
  else st

end UdpStack

end MicroOS
