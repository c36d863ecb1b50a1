import MicroOS.Lib.ByteMem
import MicroOS.Lib.Run
import MicroOS.Net.TcpRecv

/-!
The calls of `socket->recv` that `tcp_ipv4_recv` makes.

* `RecvCall`: a call with its pointer, as an offset in the segment, and its size;
* `TcpStack.recvCall`: the call for a segment, which is what `TcpStack.recv` records or stops at;
* `recv_in_segment_iff`: when a call stays in the segment;
* `Reaction`: what becomes of a socket that a segment is handed to;
* `no_early_data_iff`: when nothing is passed on before the handshake is complete.
-/

namespace MicroOS

open ByteMem CInt Checked Run

/-- A call of `socket->recv`: the socket, the offset of the pointer in the segment, the size, which
is an `int`, and what the size adds to `ack_number`. -/
structure RecvCall where
  socket : ℕ
  offset : ℕ
  size : ℤ
  advance : ℕ
  deriving DecidableEq

namespace TcpStack

/-- The switch gets to its default case. -/
def DataCase (s : TcpSocket) (seg : Segment) : Prop :=
  switchKey seg = 0 ∨
    (switchKey seg = tcpAck ∧ seg.flags ≠ tcpAck ∧ s.state ≠ .synReceived ∧ s.state ≠ .finWait1 ∧
      s.state ≠ .closeWait)

/-- `socket->recv` is called. -/
def ReachesRecv (s : TcpSocket) (seg : Segment) : Prop :=
  s.state ≠ .closed ∧ DataCase s seg ∧ seg.sequenceNumber = s.ackNumber

instance (s : TcpSocket) (seg : Segment) : Decidable (DataCase s seg) :=
  inferInstanceAs (Decidable (_ ∨ _))

instance (s : TcpSocket) (seg : Segment) : Decidable (ReachesRecv s seg) :=
  inferInstanceAs (Decidable (_ ∧ _))

/-- The call of `recv` for a socket. -/
def callFor (p : ℕ) (seg : Segment) : RecvCall :=
  { socket := p
    offset := seg.headerSize32 * 4
    size := int (seg.payload.length - (seg.headerSize32 * 4 : ℕ))
    advance := sub32 seg.payload.length (seg.headerSize32 * 4) }

/-- The call of `recv` that `tcp_ipv4_recv` makes. -/
def recvCall (st : TcpStack) (seg : Segment) : Option RecvCall := do
  let p ← st.handsTo seg
  let s ← st.sockets p
  if ReachesRecv s seg then some (callFor p seg) else none

variable {st st' : TcpStack} {p q : ℕ} {s t : TcpSocket} {seg : Segment} {exit : SwitchEnd}
  {c : RecvCall} {e : TcpFault}

/-- **A call is made** for a segment that reaches the data of a socket. -/
lemma recvCall_eq_some : st.recvCall seg = some c ↔ ∃ p s, st.handsTo seg = some p ∧
    st.sockets p = some s ∧ ReachesRecv s seg ∧ c = callFor p seg := by
  simp only [recvCall, Option.bind_eq_bind, Option.bind_eq_some_iff, Option.ite_none_right_eq_some,
    Option.some.injEq, eq_comm (a := c)]
  constructor
  · rintro ⟨p, hp, s, hs, hr, hc⟩
    exact ⟨p, s, hp, hs, hr, hc⟩
  · rintro ⟨p, s, hp, hs, hr, hc⟩
    exact ⟨p, hp, s, hs, hr, hc⟩

/-! ### The switch and its default case -/

/-- The flags that the `switch` looks at. -/
lemma switchKey_cases (seg : Segment) : switchKey seg = 0 ∨ switchKey seg = tcpAck ∨
    switchKey seg = tcpSyn ∨ switchKey seg = tcpSyn ||| tcpAck ∨ switchKey seg = tcpSyn ||| tcpFin ∨
      switchKey seg = tcpSyn ||| tcpFin ||| tcpAck ∨ switchKey seg = tcpFin ∨
        switchKey seg = tcpFin ||| tcpAck := by
  have hall : ∀ x : Fin 256, ∀ key, key = UInt8.ofFin x &&& (tcpSyn ||| tcpAck ||| tcpFin) →
      key = 0 ∨ key = tcpAck ∨ key = tcpSyn ∨ key = tcpSyn ||| tcpAck ∨ key = tcpSyn ||| tcpFin ∨
        key = tcpSyn ||| tcpFin ||| tcpAck ∨ key = tcpFin ∨ key = tcpFin ||| tcpAck := by
    simp only [forall_eq]
    decide +kernel
  exact hall seg.flags.toFin _ rfl

/-- With data flags the data is received. -/
lemma switch_of_dataCase (hs : st.sockets p = some s) (h : DataCase s seg) :
    st.switch p seg = st.recvData p seg := by
  rw [switch, get_eq_ok.mpr hs, ok_bind]
  rcases h with hkey | ⟨hkey, hflags, h1, h2, h3⟩
  · rw [hkey, if_neg (by decide), if_neg (by decide), if_neg (by decide), if_neg (by decide),
      if_neg (by decide)]
  · rw [hkey, if_neg (by decide), if_neg (by decide), if_neg (by decide), if_neg (by decide),
      if_pos rfl, recvAck, get_eq_ok.mpr hs, ok_bind]
    cases hstate : s.state with
    | synReceived => exact absurd hstate h1
    | finWait1 => exact absurd hstate h2
    | closeWait => exact absurd hstate h3
    | closed | listen | synSent | established | finWait2 | closing | timeWait =>
      exact if_neg hflags

/-- What becomes of a socket that is not closed and a segment that it is handed. -/
inductive Reaction (s : TcpSocket) (seg : Segment) (t : TcpSocket) : Prop where
  | kept (state : t.state = s.state) (ack : t.ackNumber = s.ackNumber)
  | passed (reaches : ReachesRecv s seg) (state : t.state = s.state)
  | opened (before : s.state = .synSent) (key : switchKey seg = tcpSyn ||| tcpAck)
      (after : t.state = .established)
  | moved (before : s.state ≠ .synSent) (after : t.state ≠ .synSent)

/-- A case of the switch resets the connection, or leaves a socket and passes nothing on. -/
def Reacts (p : ℕ) (s : TcpSocket) (seg : Segment) (st st' : TcpStack) (exit : SwitchEnd) : Prop :=
  (¬ReachesRecv s seg → st'.received = st.received) ∧
    (exit = .ended true ∨ ∃ t, st'.sockets p = some t ∧ Reaction s seg t)

lemma reacts_reset : Reacts p s seg st st (.ended true) := ⟨fun _ => rfl, .inl rfl⟩

/-- A socket that is left with the same state and number has reacted. -/
lemma Leaves.reacts {u : TcpSocket} (h : Leaves p u st st')
    (hreact : ∀ t : TcpSocket, t.state = u.state → t.ackNumber = u.ackNumber → Reaction s seg t) :
    Reacts p s seg st st' exit := by
  obtain ⟨t, ht, hstate, hack⟩ := h.socket
  exact ⟨fun _ => h.received, .inr ⟨t, ht, hreact t hstate hack⟩⟩

/-- The state of a socket changes to one other than `SYN_SENT`. -/
lemma reacts_set {u : TcpSocket} (hs : st.sockets p = some s) (hsame : SameEnds s u)
    (hbefore : s.state ≠ .synSent) (hafter : u.state ≠ .synSent) :
    Reacts p s seg st (st.set p u) exit :=
  (leaves_set hs hsame).reacts fun _ ht _ => .moved hbefore (ht ▸ hafter)

/-- **The case of data** reacts, whether its call is made or the socket is reset. -/
lemma recvData_reacts (hs : st.sockets p = some s) (hopen : s.state ≠ .closed)
    (hdata : DataCase s seg) (h : st.recvData p seg = .ok (st', exit)) :
    Reacts p s seg st st' exit := by
  rcases recvData_cases hs h with ⟨-, rfl, rfl⟩ | ⟨hseq, rfl, hleaves⟩
  · exact reacts_reset
  · have hreach : ReachesRecv s seg := ⟨hopen, hdata, hseq⟩
    obtain ⟨t, ht, hstate, -⟩ := hleaves.socket
    exact ⟨fun hn => absurd hreach hn, .inr ⟨t, ht, .passed hreach hstate⟩⟩

/-- So does that of `SYN | ACK`. -/
lemma recvSynAck_reacts (hs : st.sockets p = some s) (hkey : switchKey seg = tcpSyn ||| tcpAck)
    (h : st.recvSynAck p seg = .ok (st', exit)) : Reacts p s seg st st' exit := by
  rw [recvSynAck, get_eq_ok.mpr hs, ok_bind] at h
  split_ifs at h with hstate
  · rw [bind_eq_ok] at h
    obtain ⟨u, hsend, hret⟩ := h
    obtain ⟨rfl, rfl⟩ := Prod.mk.inj (Except.ok.inj hret)
    exact (leaves_set_send hs hsend ⟨rfl, rfl, rfl, rfl, rfl, rfl, rfl⟩).reacts
      fun t ht _ => .opened hstate hkey ht
  · obtain ⟨rfl, rfl⟩ := Prod.mk.inj (Except.ok.inj h)
    exact reacts_reset

/-- And that of `FIN`. -/
lemma recvFin_reacts (hs : st.sockets p = some s) (h : st.recvFin p = .ok (st', exit)) :
    Reacts p s seg st st' exit := by
  rw [recvFin, get_eq_ok.mpr hs, ok_bind] at h
  cases hstate : s.state with
  | established =>
    rw [hstate, bind_eq_ok] at h
    obtain ⟨u, hack, h⟩ := h
    have hfirst := leaves_set_send hs hack ⟨rfl, rfl, rfl, rfl, rfl, rfl, rfl⟩
    obtain ⟨t, ht, hst, -⟩ := hfirst.socket
    rw [bind_eq_ok] at h
    obtain ⟨v, hfin, hret⟩ := h
    obtain ⟨rfl, rfl⟩ := Prod.mk.inj (Except.ok.inj hret)
    have hsecond := sendInternal_leaves ht hfin
    obtain ⟨w, hw, hwt, -⟩ := hsecond.socket
    refine ⟨fun _ => hsecond.received.trans hfirst.received, .inr ⟨w, hw, .moved ?_ ?_⟩⟩
    · simp [hstate]
    · simp [hwt, hst]
  | closeWait =>
    rw [hstate] at h
    obtain ⟨rfl, rfl⟩ := Prod.mk.inj (Except.ok.inj h)
    refine reacts_set hs ⟨rfl, rfl, rfl, rfl, rfl, rfl, rfl⟩ ?_ (by simp)
    simp [hstate]
  | finWait1 | finWait2 =>
    rw [hstate, bind_eq_ok] at h
    obtain ⟨u, hsend, hret⟩ := h
    obtain ⟨rfl, rfl⟩ := Prod.mk.inj (Except.ok.inj hret)
    refine (leaves_set_send hs hsend ⟨rfl, rfl, rfl, rfl, rfl, rfl, rfl⟩).reacts
      fun t ht _ => .moved ?_ ?_
    · simp [hstate]
    · simp [ht]
  | closed | listen | synSent | synReceived | closing | timeWait =>
    rw [hstate] at h
    obtain ⟨rfl, rfl⟩ := Prod.mk.inj (Except.ok.inj h)
    exact reacts_reset

/-- The case for `ACK`, unless it falls through. -/
lemma recvAck_reacts (hs : st.sockets p = some s) (hkey : switchKey seg = tcpAck)
    (hdata : ¬DataCase s seg) (h : st.recvAck p seg = .ok (st', exit)) :
    Reacts p s seg st st' exit := by
  rw [recvAck, get_eq_ok.mpr hs, ok_bind] at h
  cases hstate : s.state with
  | synReceived | finWait1 | closeWait =>
    rw [hstate] at h
    obtain ⟨rfl, rfl⟩ := Prod.mk.inj (Except.ok.inj h)
    refine reacts_set hs ⟨rfl, rfl, rfl, rfl, rfl, rfl, rfl⟩ ?_ (by simp)
    simp [hstate]
  | closed | listen | synSent | established | finWait2 | closing | timeWait =>
    rw [hstate] at h
    have hflags : seg.flags = tcpAck := by
      by_contra hne
      refine hdata (.inr ⟨hkey, hne, ?_, ?_, ?_⟩) <;> simp [hstate]
    rw [if_pos hflags] at h
    obtain ⟨rfl, rfl⟩ := Prod.mk.inj (Except.ok.inj h)
    exact ⟨fun _ => rfl, .inr ⟨s, hs, .kept rfl rfl⟩⟩

/-- **The switch** resets the connection, or leaves a socket that has reacted. -/
lemma switch_reacts (hs : st.sockets p = some s) (hopen : s.state ≠ .closed)
    (h : st.switch p seg = .ok (st', exit)) : Reacts p s seg st st' exit := by
  by_cases hdata : DataCase s seg
  · rw [switch_of_dataCase hs hdata] at h
    exact recvData_reacts hs hopen hdata h
  rw [switch, get_eq_ok.mpr hs, ok_bind] at h
  split_ifs at h with hsyn hlisten hsynAck hsynFin hfin hack
  · obtain ⟨rfl, rfl⟩ := Prod.mk.inj (Except.ok.inj h)
    exact reacts_reset
  · exact recvSynAck_reacts hs hsynAck h
  · obtain ⟨rfl, rfl⟩ := Prod.mk.inj (Except.ok.inj h)
    exact reacts_reset
  · exact recvFin_reacts hs h
  · exact recvAck_reacts hs hack hdata h
  · refine absurd (.inl ?_) hdata
    rcases switchKey_cases seg with hkey | hkey | hkey | hkey | hkey | hkey | hkey | hkey
    · exact hkey
    · exact absurd hkey hack
    · exact absurd hkey hsyn
    · exact absurd hkey hsynAck
    · exact absurd (.inl hkey) hsynFin
    · exact absurd (.inr hkey) hsynFin
    · exact absurd (.inl hkey) hfin
    · exact absurd (.inr hkey) hfin

/-! ### The handler -/

/-- Closing a socket passes nothing on. -/
lemma finishClosed_received (h : st.finishClosed p = .ok st') : st'.received = st.received := by
  rw [finishClosed, bind_eq_ok] at h
  obtain ⟨t, -, h⟩ := h
  split_ifs at h
  · obtain rfl := Except.ok.inj h
    exact unbind_received
  · obtain rfl := Except.ok.inj h
    rfl

/-- **A segment is handled** by a socket: the socket is freed, or has reacted. -/
lemma socketRecv_reaction (hs : st.sockets p = some s) (hp : p ∈ st.binds)
    (h : st.socketRecv p seg = .ok st') :
    (¬ReachesRecv s seg → st'.received = st.received) ∧
      (st'.sockets p = none ∨ ∃ t, st'.sockets p = some t ∧ Reaction s seg t) := by
  rw [socketRecv, get_eq_ok.mpr hs, ok_bind] at h
  by_cases hclosed : s.state = .closed
  · rw [if_pos hclosed, finish, if_neg Bool.false_ne_true] at h
    have hfrees := (Touches.refl p st).frees_unbind hp
    refine ⟨fun _ => finishClosed_received h, .inl ?_⟩
    rw [finishClosed_of_closed hs hclosed] at h
    obtain rfl := Except.ok.inj h
    exact hfrees.freed
  rw [if_neg hclosed, bind_eq_ok] at h
  obtain ⟨⟨u, exit⟩, hswitch, h⟩ := h
  have htouch := (switch_switched hs hclosed hswitch).touches
  obtain ⟨hreceived, hsocket⟩ := switch_reacts hs hclosed hswitch
  have hbound : p ∈ u.binds := htouch.binds ▸ hp
  cases exit with
  | returned =>
    obtain rfl := Except.ok.inj h
    exact ⟨hreceived, .inr (hsocket.resolve_left (by simp))⟩
  | ended reset =>
    cases reset with
    | true =>
      obtain ⟨t, ht, -⟩ := htouch.socket s hs
      obtain ⟨v, hv, hfrees, hrec⟩ := finish_reset ht hbound
      obtain rfl := Except.ok.inj (hv.symm.trans h)
      exact ⟨fun hn => hrec.trans (hreceived hn), .inl hfrees.freed⟩
    | false =>
      obtain ⟨t, ht, hreact⟩ := hsocket.resolve_left (by simp)
      have hrec : st'.received = u.received := finishClosed_received h
      refine ⟨fun hn => hrec.trans (hreceived hn), ?_⟩
      rcases finish_noReset ht hbound with ⟨-, hu⟩ | ⟨-, v, hv, hfrees⟩
      · obtain rfl := Except.ok.inj (hu.symm.trans h)
        exact .inr ⟨t, ht, hreact⟩
      · obtain rfl := Except.ok.inj (hv.symm.trans h)
        exact .inl hfrees.freed

@[simp] lemma accepted_state : (accepted s seg).state = s.state := by
  rw [accepted]
  split_ifs <;> rfl

@[simp] lemma accepted_ackNumber : (accepted s seg).ackNumber = s.ackNumber := by
  rw [accepted]
  split_ifs <;> rfl

@[simp] lemma reachesRecv_accepted : ReachesRecv (accepted s seg) seg ↔ ReachesRecv s seg := by
  rw [ReachesRecv, ReachesRecv, DataCase, DataCase, accepted_state, accepted_ackNumber]

/-- Accepting a connection passes nothing on. -/
lemma accept_received : (st.accept seg p).received = st.received := by
  rw [accept]
  cases st.sockets p with
  | none => rfl
  | some s => by_cases h : Listens s seg <;> simp [h, set]

/-- A socket that has accepted reacts as before. -/
lemma Reaction.of_accepted (h : Reaction (accepted s seg) seg t) : Reaction s seg t := by
  cases h with
  | kept state ack => exact .kept (state.trans accepted_state) (ack.trans accepted_ackNumber)
  | passed reaches state =>
    exact .passed (reachesRecv_accepted.mp reaches) (state.trans accepted_state)
  | opened before key after => exact .opened (accepted_state ▸ before) key after
  | moved before after => exact .moved (accepted_state ▸ before) after

/-- **What a segment does to the socket it is handed to.** -/
lemma recv_reaction (h : st.recv seg = .ok st') (hhands : st.handsTo seg = some p)
    (hs : st.sockets p = some s) : (¬ReachesRecv s seg → st'.received = st.received) ∧
      (st'.sockets p = none ∨ ∃ t, st'.sockets p = some t ∧ Reaction s seg t) := by
  rw [recv_eq_handsTo, hhands] at h
  have hbound : p ∈ (st.accept seg p).binds :=
    accept_binds.symm ▸ route_mem (route_of_handsTo hhands)
  obtain ⟨hreceived, hsocket⟩ := socketRecv_reaction (accept_sockets_self hs) hbound h
  rw [reachesRecv_accepted, accept_received] at hreceived
  exact ⟨hreceived, hsocket.imp_right fun ⟨t, ht, hreact⟩ => ⟨t, ht, hreact.of_accepted⟩⟩

/-- The other sockets are left alone. -/
lemma recv_others (h : st.recv seg = .ok st') (hhands : st.handsTo seg ≠ some p) :
    st'.sockets p = st.sockets p := by
  rcases recv_handled h with rfl | ⟨q, s, hq, hs, hhandled⟩
  · rfl
  · have hne : p ≠ q := by
      rintro rfl
      exact hhands hq
    have haccept : (st.accept seg q).sockets p = st.sockets p := accept_sockets_of_ne hne
    rw [← haccept]
    cases hhandled with
    | kept h => exact h.others p hne
    | freed _ h => exact h.others p hne

/-- A segment for which `recv` is not called passes nothing on. -/
lemma recv_received (h : st.recv seg = .ok st') (hcall : st.recvCall seg = none) :
    st'.received = st.received := by
  cases hhands : st.handsTo seg with
  | none =>
    rw [recv_eq_handsTo, hhands] at h
    rw [Except.ok.inj h]
  | some p =>
    obtain ⟨-, s, hs, -⟩ := route_matches (route_of_handsTo hhands)
    refine (recv_reaction h hhands hs).1 fun hreach => ?_
    rw [recvCall_eq_some.mpr ⟨p, s, hhands, hs, hreach, rfl⟩] at hcall
    exact absurd hcall (by simp)

/-- **The call of `recv`**: the code goes to the null pointer, or hands out a pointer behind the
segment, or the bytes behind the header. -/
lemma recv_of_call (h : st.recvCall seg = some c) :
    st.recv seg = .error .nullCallback ∨
      (seg.payload.length < c.offset ∧ st.recv seg = .error .badHeader) ∨
      (c.offset ≤ seg.payload.length ∧ ∃ st', st.recv seg = .ok st' ∧
        st'.received = st.received ++ [(c.socket, seg.payload.drop c.offset)]) := by
  obtain ⟨p, s, hhands, hs, hreach, rfl⟩ := recvCall_eq_some.mp h
  have hs' : (st.accept seg p).sockets p = some (accepted s seg) := accept_sockets_self hs
  obtain ⟨hopen, hdata, hseq⟩ := reachesRecv_accepted.mpr hreach
  have hbound : p ∈ (st.accept seg p).binds :=
    accept_binds.symm ▸ route_mem (route_of_handsTo hhands)
  rw [recv_eq_handsTo, hhands]
  dsimp only
  rw [socketRecv, get_eq_ok.mpr hs', ok_bind, if_neg hopen, switch_of_dataCase hs' hdata]
  by_cases hnull : (accepted s seg).recv = false
  · left
    rw [recvData, get_eq_ok.mpr hs', ok_bind, if_neg (not_not.mpr hseq), if_pos hnull]
    rfl
  right
  by_cases hfits : seg.payload.length < seg.headerSize32 * 4
  · left
    rw [recvData, get_eq_ok.mpr hs', ok_bind, if_neg (not_not.mpr hseq), if_neg hnull, if_pos hfits]
    exact ⟨hfits, rfl⟩
  · right
    refine ⟨not_lt.mp hfits, ?_⟩
    obtain ⟨u, exit, hdata'⟩ := recvData_ok hs' (by simpa using hnull) (not_lt.mp hfits)
    rcases recvData_cases hs' hdata' with ⟨hne, -⟩ | ⟨-, rfl, hleaves⟩
    · exact absurd hseq hne
    · obtain ⟨t, ht, -⟩ := hleaves.socket
      have hbound' : p ∈ u.binds := hleaves.touches.binds ▸ hbound
      have hreceived : u.received = st.received ++ [(p, seg.data)] := by
        rw [hleaves.received, callRecv, accept_received]
      rw [hdata', ok_bind]
      rcases finish_noReset ht hbound' with ⟨-, hu⟩ | ⟨-, v, hv, -⟩
      · exact ⟨u, hu, hreceived⟩
      · exact ⟨v, hv, (finishClosed_received hv).trans hreceived⟩

/-! ### The bytes of a call -/

/-- The bytes that a call of `recv` is given lie in the segment, and `ack_number` goes
no further. -/
def CallInSegment (st : TcpStack) (seg : Segment) : Prop :=
  ∀ c, st.recvCall seg = some c →
    0 ≤ c.size ∧ c.offset + c.size ≤ seg.payload.length ∧ c.advance ≤ seg.payload.length

/-- The header of a segment for which `recv` is called is in the segment, and what is behind it can
be counted by an `int`. -/
def HeaderFits (st : TcpStack) (seg : Segment) : Prop :=
  ∀ p s, st.handsTo seg = some p → st.sockets p = some s → ReachesRecv s seg →
    seg.headerSize32 * 4 ≤ seg.payload.length ∧
      seg.payload.length - seg.headerSize32 * 4 < 2 ^ 31

/-- The field of the header's length has four bits. -/
lemma headerSize32_lt (seg : Segment) : seg.headerSize32 < 16 := by
  have hall : ∀ x : Fin 256, (UInt8.ofFin x >>> 4).toNat < 16 := by decide +kernel
  exact hall (seg.payload.getD 12 0).toFin

/-- **The call stays in the segment** just when the header does. -/
lemma callFor_inSegment_iff (hlen : seg.payload.length < 2 ^ 32) (hsize : tcpHeaderSize ≤
    seg.payload.length) : (0 ≤ (callFor p seg).size ∧
      (callFor p seg).offset + (callFor p seg).size ≤ seg.payload.length ∧
        (callFor p seg).advance ≤ seg.payload.length) ↔
      seg.headerSize32 * 4 ≤ seg.payload.length ∧
        seg.payload.length - seg.headerSize32 * 4 < 2 ^ 31 := by
  have hheader := headerSize32_lt seg
  rw [tcpHeaderSize] at hsize
  rw [callFor]
  dsimp only
  constructor
  · rintro ⟨hpos, hend, hadvance⟩
    have hfits : seg.headerSize32 * 4 ≤ seg.payload.length := by
      rw [sub32] at hadvance
      omega
    refine ⟨hfits, ?_⟩
    rw [int, Int.bmod_def] at hpos
    omega
  · rintro ⟨hfits, hint⟩
    rw [int_of_mem (by omega) (by rw [intMax]; omega), sub32_of_le hlen hfits]
    omega

/-- **A call of `recv` stays in the segment** exactly when its header is in the segment. -/
theorem recv_in_segment_iff (hsize : tcpHeaderSize ≤ seg.payload.length)
    (hlen : seg.payload.length < 2 ^ 32) : st.CallInSegment seg ↔ st.HeaderFits seg := by
  constructor
  · intro h p s hhands hs hreach
    exact (callFor_inSegment_iff hlen hsize).mp
      (h _ (recvCall_eq_some.mpr ⟨p, s, hhands, hs, hreach, rfl⟩))
  · intro h c hc
    obtain ⟨p, s, hhands, hs, hreach, rfl⟩ := recvCall_eq_some.mp hc
    exact (callFor_inSegment_iff hlen hsize).mpr (h p s hhands hs hreach)

/-- A segment of the connection with `n` words of header in its header. -/
def headerSegment (n : UInt8) : Segment :=
  { connectionSegment 1000 (tcpPsh ||| tcpAck) [1, 2, 3, 4] with
    payload := (connectionSegment 1000 (tcpPsh ||| tcpAck) [1, 2, 3, 4]).payload.set 12 (n <<< 4) }

/-- The four bytes behind a header of six words. -/
theorem recv_in_segment_six : oneConnection.CallInSegment (headerSegment 6) :=
  (recv_in_segment_iff (by decide) (by decide)).mpr fun _ _ _ _ _ => ⟨by decide, by decide⟩

/-- A header of fifteen words is not in a segment of 28 bytes. -/
theorem header_not_in_segment : ¬∀ (st : TcpStack) (seg : Segment),
    tcpHeaderSize ≤ seg.payload.length → seg.payload.length < 2 ^ 32 → st.CallInSegment seg := by
  intro h
  have hcall := h oneConnection (headerSegment 15) (by decide) (by decide)
    (callFor 0x1000 (headerSegment 15)) (by decide)
  exact absurd hcall.1 (by decide)

/-! ### Before the handshake is complete -/

/-- What happens to a socket that `tcp_connect` has made: a segment arrives, the caller of
`tcp_connect` stores the callback, or the rest of the stack changes. -/
inductive TcpEvent where
  | arrive (seg : Segment)
  | install
  | other (st : TcpStack)

/-- What an event does; a fault changes nothing. -/
def eventStep (p : ℕ) (st : TcpStack) : TcpEvent → TcpStack
  | .arrive seg => (st.recv seg).toOption.getD st
  | .install =>
    match st.sockets p with
    | some s => st.set p { s with recv := true }
    | none => st
  | .other st' => st'

/-- The rest of the stack leaves the socket alone. -/
def LegalEvent (p : ℕ) (st : TcpStack) : TcpEvent → Prop
  | .arrive _ | .install => True
  | .other st' => st'.sockets p = st.sockets p

/-- The states that a socket can have after a segment arrives in `SYN_SENT`. -/
def AfterSynSent (seg : Segment) (state : TcpState) : Prop :=
  state = .synSent ∨ state = .closed ∨ (state = .established ∧ seg.flags &&& tcpSyn ≠ 0 ∧
    seg.flags &&& tcpAck ≠ 0 ∧ seg.flags &&& tcpFin = 0)

/-- **Nothing is passed on in `SYN_SENT`**, and the socket leaves it to `ESTABLISHED`, when the
segment has the flags for it, or to `CLOSED`. -/
def Awaits (p : ℕ) (st : TcpStack) : TcpEvent → Prop
  | .arrive seg => ∀ s, st.sockets p = some s → s.state = .synSent →
      (∀ c, st.recvCall seg = some c → c.socket ≠ p) ∧
        ∀ st', st.recv seg = .ok st' → ∀ t, st'.sockets p = some t → AfterSynSent seg t.state
  | .install | .other _ => True

/-- A segment that comes in `SYN_SENT` has the flag `SYN` or `FIN`, or only the flag `ACK`, or not
the sequence number 0. -/
def NoEarlyData (p : ℕ) (st : TcpStack) : TcpEvent → Prop
  | .arrive seg => ∀ s, st.sockets p = some s → s.state = .synSent → st.handsTo seg = some p →
      ¬(seg.flags &&& (tcpSyn ||| tcpFin) = 0 ∧ seg.flags ≠ tcpAck ∧ seg.sequenceNumber = 0)
  | .install | .other _ => True

/-- A socket in `SYN_SENT` has acknowledged nothing. -/
def Unacknowledged (p : ℕ) (st : TcpStack) : Prop :=
  ∀ s, st.sockets p = some s → s.state = .synSent → s.ackNumber = 0

/-- The flags that get to the default case in `SYN_SENT`. -/
lemma dataCase_synSent (hstate : s.state = .synSent) : DataCase s seg ↔
    seg.flags &&& (tcpSyn ||| tcpFin) = 0 ∧ seg.flags ≠ tcpAck := by
  have hall : ∀ x : Fin 256, (UInt8.ofFin x &&& (tcpSyn ||| tcpAck ||| tcpFin) = 0 ∨
      (UInt8.ofFin x &&& (tcpSyn ||| tcpAck ||| tcpFin) = tcpAck ∧ UInt8.ofFin x ≠ tcpAck)) ↔
        UInt8.ofFin x &&& (tcpSyn ||| tcpFin) = 0 ∧ UInt8.ofFin x ≠ tcpAck := by
    decide +kernel
  refine Iff.trans ?_ (hall seg.flags.toFin)
  simp [DataCase, switchKey, hstate]

/-- The flags of a segment that answers a `SYN`. -/
lemma afterSynSent_of_key (h : switchKey seg = tcpSyn ||| tcpAck) :
    AfterSynSent seg .established := by
  have hall : ∀ x : Fin 256,
      UInt8.ofFin x &&& (tcpSyn ||| tcpAck ||| tcpFin) = tcpSyn ||| tcpAck →
        UInt8.ofFin x &&& tcpSyn ≠ 0 ∧ UInt8.ofFin x &&& tcpAck ≠ 0 ∧
          UInt8.ofFin x &&& tcpFin = 0 := by
    decide +kernel
  exact .inr (.inr ⟨rfl, hall seg.flags.toFin h⟩)

/-- `recv` is called in `SYN_SENT`. -/
lemma reachesRecv_synSent (hunack : Unacknowledged p st) (hs : st.sockets p = some s)
    (hstate : s.state = .synSent) : ReachesRecv s seg ↔
      seg.flags &&& (tcpSyn ||| tcpFin) = 0 ∧ seg.flags ≠ tcpAck ∧ seg.sequenceNumber = 0 := by
  rw [ReachesRecv, dataCase_synSent hstate, hunack s hs hstate, and_assoc]
  exact and_iff_right (by rw [hstate]; nofun)

/-- An unacknowledged socket waits just when no data comes early. -/
lemma awaits_iff {ev : TcpEvent} (hunack : Unacknowledged p st) :
    Awaits p st ev ↔ NoEarlyData p st ev := by
  cases ev with
  | install => exact Iff.rfl
  | other st' => exact Iff.rfl
  | arrive seg =>
    constructor
    · intro h s hs hstate hhands hearly
      have hreach := (reachesRecv_synSent hunack hs hstate).mpr hearly
      exact (h s hs hstate).1 _ (recvCall_eq_some.mpr ⟨p, s, hhands, hs, hreach, rfl⟩) rfl
    · intro h s hs hstate
      have hnone : st.handsTo seg = some p → ¬ReachesRecv s seg := fun hhands hreach =>
        h s hs hstate hhands ((reachesRecv_synSent hunack hs hstate).mp hreach)
      refine ⟨fun c hc hp => ?_, fun st' hrecv t ht => ?_⟩
      · obtain ⟨q, u, hhands, hu, hreach, rfl⟩ := recvCall_eq_some.mp hc
        obtain rfl : q = p := hp
        obtain rfl := Option.some.inj (hs.symm.trans hu)
        exact hnone hhands hreach
      · by_cases hhands : st.handsTo seg = some p
        · rcases (recv_reaction hrecv hhands hs).2 with hfreed | ⟨u, hu, hreact⟩
          · exact absurd (hfreed.symm.trans ht) (by simp)
          obtain rfl := Option.some.inj (hu.symm.trans ht)
          cases hreact with
          | kept state => exact .inl (state.trans hstate)
          | passed reaches => exact absurd reaches (hnone hhands)
          | opened _ key after =>
            rw [after]
            exact afterSynSent_of_key key
          | moved before => exact absurd hstate before
        · rw [recv_others hrecv hhands, hs] at ht
          obtain rfl := Option.some.inj ht
          exact .inl hstate

/-- **The step lemma.** -/
lemma Unacknowledged.step {ev : TcpEvent} (hunack : Unacknowledged p st)
    (hlegal : LegalEvent p st ev) (hawaits : Awaits p st ev) :
    Unacknowledged p (eventStep p st ev) := by
  cases ev with
  | install =>
    rw [eventStep]
    cases hs : st.sockets p with
    | none => exact hunack
    | some s =>
      intro t ht hstate
      dsimp only at ht
      rw [set_sockets_self] at ht
      obtain rfl := Option.some.inj ht
      exact hunack s hs hstate
  | other st' =>
    intro t ht
    exact hunack t (hlegal ▸ ht)
  | arrive seg =>
    rw [eventStep]
    cases hrecv : st.recv seg with
    | error e => exact hunack
    | ok st' =>
      intro t ht hstate
      have ht : st'.sockets p = some t := ht
      by_cases hhands : st.handsTo seg = some p
      · obtain ⟨-, s, hs, -⟩ := route_matches (route_of_handsTo hhands)
        rcases (recv_reaction hrecv hhands hs).2 with hfreed | ⟨u, hu, hreact⟩
        · exact absurd (hfreed.symm.trans ht) (by simp)
        obtain rfl := Option.some.inj (hu.symm.trans ht)
        cases hreact with
        | kept state ack => exact ack.trans (hunack s hs (state.symm.trans hstate))
        | passed reaches state =>
          exact absurd rfl ((hawaits s hs (state.symm.trans hstate)).1 _
            (recvCall_eq_some.mpr ⟨p, s, hhands, hs, reaches, rfl⟩))
        | opened _ _ after => exact absurd (after.symm.trans hstate) nofun
        | moved _ after => exact absurd hstate after
      · exact hunack t ((recv_others hrecv hhands).symm.trans ht) hstate

/-- A socket that `tcp_connect` has made has acknowledged nothing. -/
lemma unacknowledged_connect {u : TcpStack} {ip : UInt32} {port : UInt16} {timeMs : UInt32}
    (h : u.connect p ip port timeMs = .ok st) : Unacknowledged p st := by
  have hs : (u.opened p ip port timeMs).sockets p = some (u.newSocket ip port timeMs) :=
    set_sockets_self
  obtain ⟨t, ht, -, hack⟩ := (sendInternal_leaves hs h).socket
  intro s hs _
  obtain rfl := Option.some.inj (ht.symm.trans hs)
  exact hack

/-- **No data before the handshake is complete**: along the events after `tcp_connect` nothing is
passed on in `SYN_SENT`, and it is left only when the handshake is complete or to `CLOSED`, exactly
when no segment with the sequence number 0 gets to the default case in it. -/
theorem no_early_data_iff {u : TcpStack} {ip : UInt32} {port : UInt16} {timeMs : UInt32}
    (h : u.connect p ip port timeMs = .ok st) (events : List TcpEvent)
    (hlegal : Along (eventStep p) st events (LegalEvent p)) :
    Along (eventStep p) st events (Awaits p) ↔ Along (eventStep p) st events (NoEarlyData p) :=
  along_iff (Unacknowledged p) (fun _ _ hI _ => awaits_iff hI)
    (fun _ _ hI hL hP => hI.step hL hP) (unacknowledged_connect h) hlegal

/-- A host before its first connection. -/
def unconnected : TcpStack :=
  { ip := 0x0f02000a
    freePort := 1024
    binds := []
    sockets := fun _ => none
    sent := []
    received := [] }

/-- The socket that it connects to port 80 of `10.0.2.2`. -/
def connecting : TcpStack :=
  ((unconnected.connect 0x1000 0x0202000a 80 1).toOption).getD unconnected

/-- The answer completes the handshake. -/
theorem no_early_data_handshake : Along (eventStep 0x1000) connecting
    [.arrive (connectionSegment 999 (tcpSyn ||| tcpAck) [])] (Awaits 0x1000) := by
  have hcall : unconnected.connect 0x1000 0x0202000a 80 1 = .ok connecting := rfl
  refine (no_early_data_iff hcall _ ?_).mpr ?_
  · exact along_cons.mpr ⟨trivial, along_nil _ _ _⟩
  · refine along_cons.mpr ⟨fun s _ _ _ => ?_, along_nil _ _ _⟩
    decide

/-- A segment without flags calls the callback of a socket in `SYN_SENT`, which is null. -/
theorem early_data_passed : ¬∀ (u st : TcpStack) (p : ℕ) (ip : UInt32) (port : UInt16)
    (timeMs : UInt32) (events : List TcpEvent), u.connect p ip port timeMs = .ok st →
      Along (eventStep p) st events (LegalEvent p) →
        Along (eventStep p) st events (Awaits p) := by
  intro h
  have hquiet := h unconnected connecting 0x1000 0x0202000a 80 1
    [.arrive (connectionSegment 0 0 [1])] rfl (along_cons.mpr ⟨trivial, along_nil _ _ _⟩)
  obtain ⟨hawaits, -⟩ := along_cons.mp hquiet
  exact (hawaits _ rfl rfl).1 (callFor 0x1000 (connectionSegment 0 0 [1])) (by decide) rfl

end TcpStack

end MicroOS
