import MicroOS.Lib.Dispenser
import MicroOS.Net.TcpRecv
import MicroOS.Net.Udp

/-!
The local ports of `tcp_connect` and `udp_connect`.

* `TcpCall`, `UdpCall`: the calls of the host, and what arrives;
* `tcpPorts`, `udpPorts`: the two providers as dispensers of ports;
* `local_ports_distinct_iff`: the sockets of a run have different local ports, none below 1024,
  exactly when it connects at most 64512 times.

`free_port` is an `int` that every connection raises, and the local port is its low sixteen bits. A
port is counted in host order.
-/

namespace MicroOS

open Checked Run

/-- The ports that connections are given: `free_port` is 1024 at the start. -/
def firstPort : ℕ := 1024

/-- The port of a socket that is in a bind table. -/
def boundPort (binds : List ℕ) (localPort : ℕ → Option ℕ) (p : ℕ) : Option ℕ :=
  if p ≠ 0 ∧ p ∈ binds then localPort p else none

/-- The port of a socket in the table. -/
lemma boundPort_eq_some {binds : List ℕ} {localPort : ℕ → Option ℕ} {p n : ℕ} :
    boundPort binds localPort p = some n ↔ p ≠ 0 ∧ p ∈ binds ∧ localPort p = some n := by
  rw [boundPort]
  split_ifs with h
  · exact ⟨fun hn => ⟨h.1, h.2, hn⟩, fun hn => hn.2.2⟩
  · exact ⟨fun hn => absurd hn (by simp), fun hn => absurd ⟨hn.1, hn.2.1⟩ h⟩

/-- What a slot of the bind table holds after it was freed. -/
lemma mem_of_mem_freed {binds : List ℕ} {p q : ℕ} (h : q ∈ binds.set (binds.idxOf p) 0)
    (h0 : q ≠ 0) : q ∈ binds :=
  (List.mem_or_eq_of_mem_set h).resolve_right h0

/-! ### TCP -/

/-- The calls on the TCP sockets of a stack, and a segment that arrives. -/
inductive TcpCall where
  | connect (p : ℕ) (ip : UInt32) (port : UInt16) (timeMs : UInt32)
  | disconnect (p : ℕ)
  | send (p : ℕ) (data : List UInt8)
  | arrive (seg : Segment)

namespace TcpStack

/-- After `tcp_init`, with an address of the host. -/
def init (ip : UInt32) : TcpStack :=
  { ip, freePort := 1024, binds := [], sockets := fun _ => none, sent := [], received := [] }

/-- What a call does. -/
def exec (st : TcpStack) : TcpCall → Except TcpFault TcpStack
  | .connect p ip port timeMs => st.connect p ip port timeMs
  | .disconnect p => st.disconnect p
  | .send p data => st.send p data
  | .arrive seg => st.recv seg

/-- The local port of a socket. -/
def localPort (st : TcpStack) (p : ℕ) : Option ℕ :=
  (st.sockets p).map fun s => (bswap16 s.localPort).toNat

variable {st st' u : TcpStack} {p q n : ℕ} {s : TcpSocket} {seg : Segment}

/-- A change after which every bound socket was bound before, with the same port. -/
structure KeepsPorts (st st' : TcpStack) : Prop where
  freePort : st'.freePort = st.freePort
  binds : ∀ q ∈ st'.binds, q ≠ 0 → q ∈ st.binds
  ports : ∀ q n, st'.localPort q = some n → st.localPort q = some n

/-- A change of one socket keeps the ports. -/
lemma localPort_of_socket (hothers : ∀ q, q ≠ p → st'.sockets q = st.sockets q)
    (hsocket : ∀ s', st'.sockets p = some s' →
      ∃ s, st.sockets p = some s ∧ s'.localPort = s.localPort) :
    ∀ q n, st'.localPort q = some n → st.localPort q = some n := by
  intro q n h
  by_cases hqp : q = p
  · subst hqp
    obtain ⟨s', hs', hport⟩ := Option.map_eq_some_iff.mp h
    obtain ⟨s, hs, heq⟩ := hsocket s' hs'
    exact Option.map_eq_some_iff.mpr ⟨s, hs, heq ▸ hport⟩
  · rwa [localPort, hothers q hqp] at h

/-- What is done to one socket gives no socket another port. -/
lemma Touches.localPort (h : Touches p st st') :
    ∀ q n, st'.localPort q = some n → st.localPort q = some n := by
  refine localPort_of_socket h.others fun s' hs' => ?_
  cases hs : st.sockets p with
  | none => exact absurd ((h.freed hs).symm.trans hs') (by simp)
  | some s =>
    obtain ⟨t, ht, hsame⟩ := h.socket s hs
    obtain rfl := Option.some.inj (ht.symm.trans hs')
    exact ⟨s, rfl, hsame.localPort⟩

lemma Frees.localPort (h : Frees p st st') :
    ∀ q n, st'.localPort q = some n → st.localPort q = some n :=
  localPort_of_socket h.others fun _ hs' => absurd (h.freed.symm.trans hs') (by simp)

/-- Nor does accepting a connection. -/
lemma accept_localPort (hs : st.sockets p = some s) :
    ∀ q n, (st.accept seg p).localPort q = some n → st.localPort q = some n := by
  refine localPort_of_socket (fun q hq => accept_sockets_of_ne hq) fun s' hs' => ?_
  obtain rfl := Option.some.inj ((accept_sockets_self hs).symm.trans hs')
  refine ⟨s, hs, ?_⟩
  rw [accepted]
  split_ifs <;> rfl

/-! ### `free_port` -/

/-- Sending takes no port. -/
lemma sendInternal_freePort {data : List UInt8} {flags : UInt8}
    (h : u.sendInternal p data flags = .ok st') (hu : u.freePort = st.freePort) :
    st'.freePort = st.freePort := by
  rw [sendInternal, bind_eq_ok] at h
  obtain ⟨s, -, hret⟩ := h
  obtain rfl := Except.ok.inj hret
  exact hu

/-- A packet is the last thing that a case of the switch sends. -/
lemma send_freePort {data : List UInt8} {flags : UInt8} {exit exit' : SwitchEnd}
    (h : ∃ st₁, u.sendInternal p data flags = .ok st₁ ∧
      (pure (st₁, exit) : Except TcpFault _) = .ok (st', exit'))
    (hu : u.freePort = st.freePort) : st'.freePort = st.freePort := by
  obtain ⟨st₁, hsend, hret⟩ := h
  obtain ⟨rfl, -⟩ := Prod.mk.inj (Except.ok.inj hret)
  exact sendInternal_freePort hsend hu

/-- Nor does a segment with data. -/
lemma recvData_freePort {exit : SwitchEnd} (h : st.recvData p seg = .ok (st', exit)) :
    st'.freePort = st.freePort := by
  rw [recvData, bind_eq_ok] at h
  obtain ⟨s, -, h⟩ := h
  split_ifs at h
  · obtain ⟨rfl, -⟩ := Prod.mk.inj (Except.ok.inj h)
    rfl
  · exact send_freePort (bind_eq_ok.mp h) rfl

/-- Nor does the end of a connection. -/
lemma recvFin_freePort {exit : SwitchEnd} (h : st.recvFin p = .ok (st', exit)) :
    st'.freePort = st.freePort := by
  rw [recvFin, bind_eq_ok] at h
  obtain ⟨s, -, h⟩ := h
  split at h
  · rw [bind_eq_ok] at h
    obtain ⟨st₁, hsend, h⟩ := h
    exact send_freePort (bind_eq_ok.mp h) (sendInternal_freePort hsend rfl)
  · obtain ⟨rfl, -⟩ := Prod.mk.inj (Except.ok.inj h)
    rfl
  · exact send_freePort (bind_eq_ok.mp h) rfl
  · exact send_freePort (bind_eq_ok.mp h) rfl
  · obtain ⟨rfl, -⟩ := Prod.mk.inj (Except.ok.inj h)
    rfl

/-- Nor does an answer to a connection. -/
lemma recvSynAck_freePort {exit : SwitchEnd} (h : st.recvSynAck p seg = .ok (st', exit)) :
    st'.freePort = st.freePort := by
  rw [recvSynAck, bind_eq_ok] at h
  obtain ⟨s, -, h⟩ := h
  split_ifs at h
  · exact send_freePort (bind_eq_ok.mp h) rfl
  · obtain ⟨rfl, -⟩ := Prod.mk.inj (Except.ok.inj h)
    rfl

/-- Nor does an acknowledgement. -/
lemma recvAck_freePort {exit : SwitchEnd} (h : st.recvAck p seg = .ok (st', exit)) :
    st'.freePort = st.freePort := by
  rw [recvAck, bind_eq_ok] at h
  obtain ⟨s, -, h⟩ := h
  split at h
  · obtain ⟨rfl, -⟩ := Prod.mk.inj (Except.ok.inj h)
    rfl
  · obtain ⟨rfl, -⟩ := Prod.mk.inj (Except.ok.inj h)
    rfl
  · obtain ⟨rfl, -⟩ := Prod.mk.inj (Except.ok.inj h)
    rfl
  · split_ifs at h
    · obtain ⟨rfl, -⟩ := Prod.mk.inj (Except.ok.inj h)
      rfl
    · exact recvData_freePort h

/-- Nor does the `switch` over the flags. -/
lemma switch_freePort {exit : SwitchEnd} (h : st.switch p seg = .ok (st', exit)) :
    st'.freePort = st.freePort := by
  rw [switch, bind_eq_ok] at h
  obtain ⟨s, -, h⟩ := h
  split_ifs at h
  · obtain ⟨rfl, -⟩ := Prod.mk.inj (Except.ok.inj h)
    rfl
  · exact recvSynAck_freePort h
  · obtain ⟨rfl, -⟩ := Prod.mk.inj (Except.ok.inj h)
    rfl
  · exact recvFin_freePort h
  · exact recvAck_freePort h
  · exact recvData_freePort h

/-- Nor does closing a socket. -/
lemma finishClosed_freePort (h : st.finishClosed p = .ok st') : st'.freePort = st.freePort := by
  rw [finishClosed, bind_eq_ok] at h
  obtain ⟨s, -, h⟩ := h
  split_ifs at h
  · obtain rfl := Except.ok.inj h
    rw [unbind]
    split_ifs <;> rfl
  · exact congrArg freePort (Except.ok.inj h).symm

/-- Nor does the end of the handler. -/
lemma finish_freePort {reset : Bool} (h : st.finish p reset = .ok st') :
    st'.freePort = st.freePort := by
  rw [finish] at h
  split_ifs at h
  · rw [bind_eq_ok] at h
    obtain ⟨st₁, hsend, h⟩ := h
    rw [bind_eq_ok] at h
    obtain ⟨s, -, h⟩ := h
    have hfree : st₁.freePort = st.freePort := sendInternal_freePort hsend rfl
    exact (finishClosed_freePort h).trans hfree
  · exact finishClosed_freePort h

/-- Nor does the handler of a socket. -/
lemma socketRecv_freePort (h : st.socketRecv p seg = .ok st') : st'.freePort = st.freePort := by
  rw [socketRecv, bind_eq_ok] at h
  obtain ⟨s, -, h⟩ := h
  split_ifs at h
  · exact finish_freePort h
  · rw [bind_eq_ok] at h
    obtain ⟨⟨st₁, exit⟩, hswitch, h⟩ := h
    have hfree := switch_freePort hswitch
    cases exit with
    | returned =>
      obtain rfl := Except.ok.inj h
      exact hfree
    | ended reset => exact (finish_freePort h).trans hfree

/-- Nor does accepting a connection. -/
lemma accept_freePort : (st.accept seg p).freePort = st.freePort := by
  rw [accept]
  cases st.sockets p with
  | none => rfl
  | some s => dsimp only; split_ifs <;> rfl

/-- **No segment takes a port.** -/
lemma recv_freePort (h : st.recv seg = .ok st') : st'.freePort = st.freePort := by
  rw [recv_eq_handsTo] at h
  cases hhands : st.handsTo seg with
  | none =>
    rw [hhands] at h
    exact congrArg freePort (Except.ok.inj h).symm
  | some p =>
    rw [hhands] at h
    exact (socketRecv_freePort h).trans accept_freePort

/-! ### The calls -/

/-- A segment keeps the ports. -/
lemma keepsPorts_recv (h : st.recv seg = .ok st') : KeepsPorts st st' := by
  rcases recv_handled h with rfl | ⟨p, s, -, hs, hhandled⟩
  · exact ⟨rfl, fun _ hq _ => hq, fun _ _ hq => hq⟩
  · cases hhandled with
    | kept htouch =>
      refine ⟨recv_freePort h, fun q hq _ => ?_, fun q n hq => ?_⟩
      · rwa [htouch.binds, accept_binds] at hq
      · exact accept_localPort hs q n (htouch.localPort q n hq)
    | freed _ hfrees =>
      refine ⟨recv_freePort h, fun q hq h0 => ?_, fun q n hq => ?_⟩
      · rw [hfrees.binds, accept_binds] at hq
        exact mem_of_mem_freed hq h0
      · exact accept_localPort hs q n (hfrees.localPort q n hq)

/-- Sending keeps the ports. -/
lemma keepsPorts_send {data : List UInt8} {flags : UInt8}
    (h : st.sendInternal p data flags = .ok st') : KeepsPorts st st' := by
  obtain ⟨s, hs, -⟩ := bind_eq_ok.mp h
  have htouch := (sendInternal_leaves (get_eq_ok.mp hs) h).touches
  exact ⟨sendInternal_freePort h rfl, fun q hq _ => htouch.binds ▸ hq, htouch.localPort⟩

/-- Disconnecting keeps the ports of the others. -/
lemma keepsPorts_disconnect (h : st.disconnect p = .ok st') : KeepsPorts st st' := by
  rw [disconnect, bind_eq_ok] at h
  obtain ⟨s, hs, h⟩ := h
  rw [bind_eq_ok] at h
  obtain ⟨st₁, hsend, h⟩ := h
  rw [bind_eq_ok] at h
  obtain ⟨t, ht, h⟩ := h
  obtain rfl := Except.ok.inj h
  have hleaves := leaves_set_send (get_eq_ok.mp hs) hsend ⟨rfl, rfl, rfl, rfl, rfl, rfl, rfl⟩
  have hfirst := hleaves.touches
  have hsame : SameEnds t { t with sequenceNumber := t.sequenceNumber + 1 } :=
    ⟨rfl, rfl, rfl, rfl, rfl, rfl, rfl⟩
  have hlast := touches_set (get_eq_ok.mp ht) hsame
  have htouch := hfirst.trans hlast
  have hfree : st₁.freePort = st.freePort := sendInternal_freePort hsend rfl
  exact ⟨hfree, fun q hq _ => htouch.binds ▸ hq, htouch.localPort⟩

/-- A step of a run of the TCP sockets. -/
def Transition (st : TcpStack) (c : TcpCall) (st' : TcpStack) : Prop := st.exec c = .ok st'

/-- The socket that a call connects. -/
def connects : TcpCall → Option ℕ
  | .connect p .. => some p
  | _ => none

/-- Every other call leaves `free_port` and the ports alone. -/
lemma keepsPorts_exec {c : TcpCall} (h : st.Transition c st') (hc : connects c = none) :
    KeepsPorts st st' := by
  cases c with
  | connect p ip port timeMs => exact absurd hc (by simp [connects])
  | disconnect p => exact keepsPorts_disconnect h
  | send p data => exact keepsPorts_send h
  | arrive seg => exact keepsPorts_recv h

/-- **`tcp_connect`** gives the new socket the port of the counter. -/
lemma connect_ports {c : TcpCall} (h : st.Transition c st') (hc : connects c = some p) :
    st'.freePort = st.freePort + 1 ∧ st'.localPort p = some st.freePort.toNat ∧
      (∀ q ∈ st'.binds, q ≠ p → q ∈ st.binds) ∧ ∀ q, q ≠ p → st'.localPort q = st.localPort q := by
  cases c with
  | connect p' ip port timeMs =>
    obtain rfl : p = p' := (Option.some.inj hc).symm
    have hself : (st.opened p ip port timeMs).sockets p = some (st.newSocket ip port timeMs) :=
      set_sockets_self
    have htouch := (sendInternal_leaves hself h).touches
    obtain ⟨s', hs', hsame⟩ := htouch.socket _ hself
    have hfree : st'.freePort = (st.opened p ip port timeMs).freePort :=
      sendInternal_freePort h rfl
    refine ⟨hfree, ?_, fun q hq hqp => ?_, fun q hqp => ?_⟩
    · rw [localPort, hs', Option.map_some, hsame.localPort, newSocket, bswap16_bswap16]
    · exact (Slots.mem_of_mem_insert (htouch.binds ▸ hq)).resolve_left hqp
    · have hq : st'.sockets q = st.sockets q :=
        (htouch.others q hqp).trans (set_sockets_of_ne hqp)
      rw [localPort, localPort, hq]
  | disconnect _ | send _ _ | arrive _ => exact absurd hc (by simp [connects])

end TcpStack

/-! ### UDP -/

/-- The calls on the UDP sockets of a stack, and a datagram that arrives. -/
inductive UdpCall where
  | connect (p : ℕ) (ip : UInt32) (port : UInt16)
  | disconnect (p : ℕ)
  | arrive (seg : Segment)

namespace UdpStack

/-- After `udp_init`, with an address of the host. -/
def init (ip : UInt32) : UdpStack :=
  { ip, freePort := 1024, binds := [], sockets := fun _ => none, received := [] }

/-- What a call does. -/
def exec (st : UdpStack) : UdpCall → Except UdpFault UdpStack
  | .connect p ip port => .ok (st.connect p ip port)
  | .disconnect p => .ok (st.disconnect p)
  | .arrive seg => st.recv seg

/-- The local port of a socket. -/
def localPort (st : UdpStack) (p : ℕ) : Option ℕ :=
  (st.sockets p).map fun s => (bswap16 s.localPort).toNat

/-- A step of a run of the UDP sockets. -/
def Transition (st : UdpStack) (c : UdpCall) (st' : UdpStack) : Prop := st.exec c = .ok st'

/-- The socket that a call connects. -/
def connects : UdpCall → Option ℕ
  | .connect p .. => some p
  | _ => none

variable {st st' : UdpStack} {p q n : ℕ} {seg : Segment}

/-- A change after which every bound socket was bound before, with the same port. -/
structure KeepsPorts (st st' : UdpStack) : Prop where
  freePort : st'.freePort = st.freePort
  binds : ∀ q ∈ st'.binds, q ≠ 0 → q ∈ st.binds
  ports : ∀ q n, st'.localPort q = some n → st.localPort q = some n

/-- The port of a socket that is set. -/
lemma set_localPort_self {s : UdpSocket} :
    (st.set p s).localPort p = some (bswap16 s.localPort).toNat := by
  rw [localPort, set]
  exact congrArg (Option.map _) (Function.update_self p (some s) st.sockets)

/-- The others keep theirs. -/
lemma set_localPort_of_ne {s : UdpSocket} (h : q ≠ p) :
    (st.set p s).localPort q = st.localPort q := by
  have hq : (st.set p s).sockets q = st.sockets q := Function.update_of_ne h _ _
  rw [localPort, localPort, hq]

lemma KeepsPorts.refl (st : UdpStack) : KeepsPorts st st :=
  ⟨rfl, fun _ hq _ => hq, fun _ _ hq => hq⟩

/-- Disconnecting keeps the ports of the others. -/
lemma keepsPorts_disconnect (st : UdpStack) (p : ℕ) : KeepsPorts st (st.disconnect p) := by
  rw [disconnect]
  split_ifs with hp
  · refine ⟨rfl, fun q hq h0 => mem_of_mem_freed hq h0, fun q n hq => ?_⟩
    obtain ⟨s, hs, hn⟩ := Option.map_eq_some_iff.mp hq
    have hqp : q ≠ p := by
      rintro rfl
      exact absurd ((Function.update_self q none st.sockets).symm.trans hs) (by simp)
    exact Option.map_eq_some_iff.mpr
      ⟨s, (Function.update_of_ne hqp none st.sockets).symm.trans hs, hn⟩
  · exact .refl st

/-- Accepting keeps the ports. -/
lemma keepsPorts_accept (st : UdpStack) (seg : Segment) (p : ℕ) :
    KeepsPorts st (st.accept seg p) := by
  rw [accept]
  split
  · next s hs =>
      split_ifs with hlisten
      · refine ⟨rfl, fun q hq _ => hq, fun q n hq => ?_⟩
        by_cases hqp : q = p
        · subst hqp
          rw [set_localPort_self] at hq
          rw [localPort, hs]
          exact hq
        · rwa [set_localPort_of_ne hqp] at hq
      · exact .refl st
  · exact .refl st

/-- A datagram keeps the ports. -/
lemma keepsPorts_recv (h : st.recv seg = .ok st') : KeepsPorts st st' := by
  rw [recv] at h
  split_ifs at h
  · obtain rfl := Except.ok.inj h
    exact .refl st
  · split at h
    · obtain rfl := Except.ok.inj h
      exact .refl st
    · next p _ =>
        have hkeeps := keepsPorts_accept st seg p
        rw [callRecv] at h
        split at h
        · split_ifs at h
          obtain rfl := Except.ok.inj h
          exact ⟨hkeeps.freePort, hkeeps.binds, hkeeps.ports⟩
        · exact absurd h (by simp)

/-- Every other call leaves `free_port` and the ports alone. -/
lemma keepsPorts_exec {c : UdpCall} (h : st.Transition c st') (hc : connects c = none) :
    KeepsPorts st st' := by
  cases c with
  | connect p ip port => exact absurd hc (by simp [connects])
  | disconnect p =>
    obtain rfl := Except.ok.inj h
    exact keepsPorts_disconnect st p
  | arrive seg => exact keepsPorts_recv h

/-- **`udp_connect`** gives the new socket the port of the counter. -/
lemma connect_ports {c : UdpCall} (h : st.Transition c st') (hc : connects c = some p) :
    st'.freePort = st.freePort + 1 ∧ st'.localPort p = some st.freePort.toNat ∧
      (∀ q ∈ st'.binds, q ≠ p → q ∈ st.binds) ∧ ∀ q, q ≠ p → st'.localPort q = st.localPort q := by
  cases c with
  | connect p' ip port =>
    obtain rfl : p = p' := (Option.some.inj hc).symm
    obtain rfl := Except.ok.inj h
    refine ⟨rfl, ?_, fun q hq hqp => (Slots.mem_of_mem_insert hq).resolve_left hqp,
      fun q hqp => ?_⟩
    · exact set_localPort_self.trans (by rw [bswap16_bswap16])
    · exact set_localPort_of_ne hqp
  | disconnect _ | arrive _ => exact absurd hc (by simp [connects])

end UdpStack

/-! ### The providers -/

lemma toNat_succ_freePort (port : UInt16) : (port + 1).toNat = (port.toNat + 1) % 2 ^ 16 := rfl

/-- `tcp_connect` takes the next port. -/
def tcpPorts (ip : UInt32) : Dispenser TcpStack TcpCall ℕ where
  modulus := 2 ^ 16
  low := firstPort
  init := .init ip
  step := TcpStack.Transition
  takes := TcpStack.connects
  next st := st.freePort.toNat
  given := TcpStack.localPort
  held st := boundPort st.binds st.localPort
  low_pos := by decide
  low_lt := by decide
  next_init := rfl
  held_init p := by simp [boundPort, TcpStack.init]
  next_take st c st' p h hc := by
    rw [(TcpStack.connect_ports h hc).1, toNat_succ_freePort]
  given_take st c st' p h hc := (TcpStack.connect_ports h hc).2.1
  held_take st c st' p h hc n hn := by
    obtain ⟨-, -, hport⟩ := boundPort_eq_some.mp hn
    exact Option.some.inj (hport.symm.trans (TcpStack.connect_ports h hc).2.1)
  held_other st c st' p h hc q n hqp hn := by
    obtain ⟨-, -, hbinds, hports⟩ := TcpStack.connect_ports h hc
    obtain ⟨h0, hq, hport⟩ := boundPort_eq_some.mp hn
    exact boundPort_eq_some.mpr ⟨h0, hbinds q hq hqp, hports q hqp ▸ hport⟩
  next_keep st c st' h hc := by rw [(TcpStack.keepsPorts_exec h hc).freePort]
  held_keep st c st' h hc q n hn := by
    have hkeeps := TcpStack.keepsPorts_exec h hc
    obtain ⟨h0, hq, hport⟩ := boundPort_eq_some.mp hn
    exact boundPort_eq_some.mpr ⟨h0, hkeeps.binds q hq h0, hkeeps.ports q n hport⟩

/-- `udp_connect` takes the next port. -/
def udpPorts (ip : UInt32) : Dispenser UdpStack UdpCall ℕ where
  modulus := 2 ^ 16
  low := firstPort
  init := .init ip
  step := UdpStack.Transition
  takes := UdpStack.connects
  next st := st.freePort.toNat
  given := UdpStack.localPort
  held st := boundPort st.binds st.localPort
  low_pos := by decide
  low_lt := by decide
  next_init := rfl
  held_init p := by simp [boundPort, UdpStack.init]
  next_take st c st' p h hc := by
    rw [(UdpStack.connect_ports h hc).1, toNat_succ_freePort]
  given_take st c st' p h hc := (UdpStack.connect_ports h hc).2.1
  held_take st c st' p h hc n hn := by
    obtain ⟨-, -, hport⟩ := boundPort_eq_some.mp hn
    exact Option.some.inj (hport.symm.trans (UdpStack.connect_ports h hc).2.1)
  held_other st c st' p h hc q n hqp hn := by
    obtain ⟨-, -, hbinds, hports⟩ := UdpStack.connect_ports h hc
    obtain ⟨h0, hq, hport⟩ := boundPort_eq_some.mp hn
    exact boundPort_eq_some.mpr ⟨h0, hbinds q hq hqp, hports q hqp ▸ hport⟩
  next_keep st c st' h hc := by rw [(UdpStack.keepsPorts_exec h hc).freePort]
  held_keep st c st' h hc q n hn := by
    have hkeeps := UdpStack.keepsPorts_exec h hc
    obtain ⟨h0, hq, hport⟩ := boundPort_eq_some.mp hn
    exact boundPort_eq_some.mpr ⟨h0, hkeeps.binds q hq h0, hkeeps.ports q n hport⟩

/-- **Local ports are distinct** in a run, and none is below 1024, exactly when the run has at most
64512 connections. -/
theorem local_ports_distinct_iff (ip : UInt32) :
    (∀ calls st, Trace TcpStack.Transition (.init ip) calls st → ((tcpPorts ip).Fair calls ↔
      calls.countP (fun c => (TcpStack.connects c).isSome) ≤ 64512)) ∧
    ∀ calls st, Trace UdpStack.Transition (.init ip) calls st → ((udpPorts ip).Fair calls ↔
      calls.countP (fun c => (UdpStack.connects c).isSome) ≤ 64512) := by
  have hports : 2 ^ 16 - firstPort = 64512 := rfl
  constructor
  · intro calls st h
    rw [← hports]
    exact (tcpPorts ip).fair_iff h
  · intro calls st h
    rw [← hports]
    exact (udpPorts ip).fair_iff h

/-! ### Long runs -/

/-- Connections to one server, each with its own page. -/
def tcpConnections (n : ℕ) : List TcpCall :=
  (List.range n).map fun i => .connect (0x1000 * (i + 1)) 0x0202000a 80 0

/-- Connections to one server, each with its own page. -/
def udpConnections (n : ℕ) : List UdpCall :=
  (List.range n).map fun i => .connect (0x1000 * (i + 1)) 0x0202000a 53

/-- `connect` always returns. -/
lemma TcpStack.connect_returns (st : TcpStack) (p : ℕ) (ip : UInt32) (port : UInt16)
    (timeMs : UInt32) : ∃ st', TcpStack.Transition st (.connect p ip port timeMs) st' := by
  have hself : (st.opened p ip port timeMs).sockets p = some (st.newSocket ip port timeMs) :=
    TcpStack.set_sockets_self
  exact TcpStack.sendInternal_ok hself [] tcpSyn

/-- There are runs with any number of connections. -/
lemma TcpStack.exists_run (ip : UInt32) (n : ℕ) :
    ∃ st, Trace TcpStack.Transition (.init ip) (tcpConnections n) st := by
  induction n with
  | zero => exact ⟨_, .nil⟩
  | succ n ih =>
    obtain ⟨st, hrun⟩ := ih
    obtain ⟨st', hstep⟩ := st.connect_returns (0x1000 * (n + 1)) 0x0202000a 80 0
    rw [tcpConnections, List.range_succ, List.map_append]
    exact ⟨st', hrun.snoc hstep⟩

/-- There are runs with any number of connections. -/
lemma UdpStack.exists_run (ip : UInt32) (n : ℕ) :
    ∃ st, Trace UdpStack.Transition (.init ip) (udpConnections n) st := by
  induction n with
  | zero => exact ⟨_, .nil⟩
  | succ n ih =>
    obtain ⟨st, hrun⟩ := ih
    rw [udpConnections, List.range_succ, List.map_append]
    exact ⟨st.connect (0x1000 * (n + 1)) 0x0202000a 53, hrun.snoc rfl⟩

lemma taken_tcpConnections (ip : UInt32) (n : ℕ) : (tcpPorts ip).taken (tcpConnections n) = n := by
  rw [Dispenser.taken, tcpConnections, List.countP_map]
  exact (List.countP_eq_length.mpr fun _ _ => rfl).trans List.length_range

lemma taken_udpConnections (ip : UInt32) (n : ℕ) : (udpPorts ip).taken (udpConnections n) = n := by
  rw [Dispenser.taken, udpConnections, List.countP_map]
  exact (List.countP_eq_length.mpr fun _ _ => rfl).trans List.length_range

/-- Two connections of each kind. -/
theorem local_ports_distinct_two :
    (tcpPorts 0x0f02000a).Fair (tcpConnections 2) ∧
      (udpPorts 0x0f02000a).Fair (udpConnections 2) := by
  obtain ⟨st, htcp⟩ := TcpStack.exists_run 0x0f02000a 2
  obtain ⟨st', hudp⟩ := UdpStack.exists_run 0x0f02000a 2
  exact ⟨((local_ports_distinct_iff 0x0f02000a).1 _ st htcp).mpr (by decide),
    ((local_ports_distinct_iff 0x0f02000a).2 _ st' hudp).mpr (by decide)⟩

/-- The connection number 64513 gets the port 0. -/
theorem local_port_zero :
    (¬∀ calls st, Trace TcpStack.Transition (.init 0x0f02000a) calls st →
      (tcpPorts 0x0f02000a).Fair calls) ∧
    ¬∀ calls st, Trace UdpStack.Transition (.init 0x0f02000a) calls st →
      (udpPorts 0x0f02000a).Fair calls := by
  have hports : ¬64513 ≤ 2 ^ 16 - firstPort := by decide
  constructor
  · intro h
    obtain ⟨st, hrun⟩ := TcpStack.exists_run 0x0f02000a 64513
    have htaken := (Dispenser.fair_iff hrun).mp (h _ st hrun)
    rw [taken_tcpConnections] at htaken
    exact hports htaken
  · intro h
    obtain ⟨st, hrun⟩ := UdpStack.exists_run 0x0f02000a 64513
    have htaken := (Dispenser.fair_iff hrun).mp (h _ st hrun)
    rw [taken_udpConnections] at htaken
    exact hports htaken

end MicroOS
