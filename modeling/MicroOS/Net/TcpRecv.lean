import MicroOS.Net.Tcp

/-!
What `tcp_ipv4_recv` does with a segment.

* `Closes`: the segments that close a socket, read off the socket and the flags before the switch;
* `Switched`: how the switch ends, with one lemma for each of its cases;
* `recv_handled`: a segment leaves the stack as it is, or the socket that the search finds is kept
  or, when the segment closes it, taken out of the bind table and freed.
-/

namespace MicroOS

open Checked

namespace TcpStack

variable {st st' : TcpStack} {p : ℕ} {s s' : TcpSocket} {seg : Segment}

/-! ### The cases of the switch -/

/-- How a case of the switch ends: unless it closes the socket, the socket is left open. -/
structure Switched (p : ℕ) (closing : Prop) (st st' : TcpStack) (exit : SwitchEnd) : Prop where
  touches : Touches p st st'
  stays : ¬closing → exit ≠ .ended true ∧ ∃ t, st'.sockets p = some t ∧ t.state ≠ .closed

variable {closing : Prop} {exit : SwitchEnd}

/-- Where the socket may be closed, only the others have to stay. -/
lemma Switched.of_closing (h : Touches p st st') (hc : closing) :
    Switched p closing st st' exit :=
  ⟨h, fun hn => absurd hc hn⟩

/-- A socket that is left open has not been closed. -/
lemma Leaves.switched (h : Leaves p s' st st') (hstate : s'.state ≠ .closed)
    (hexit : exit ≠ .ended true) : Switched p closing st st' exit := by
  obtain ⟨t, ht, hst, -⟩ := h.socket
  exact ⟨h.touches, fun _ => ⟨hexit, t, ht, hst ▸ hstate⟩⟩

/-- The default case: the bytes of a segment out of order are not taken, and those of a segment in
order are passed to `recv` once. -/
lemma recvData_cases (hs : st.sockets p = some s) (h : st.recvData p seg = .ok (st', exit)) :
    (seg.sequenceNumber ≠ s.ackNumber ∧ st' = st ∧ exit = .ended true) ∨
      (seg.sequenceNumber = s.ackNumber ∧ exit = .ended false ∧
        Leaves p { s with ackNumber := s.ackNumber + UInt32.ofNat seg.data.length }
          (st.callRecv p seg.data) st') := by
  rw [recvData, get_eq_ok.mpr hs, ok_bind] at h
  by_cases hseq : seg.sequenceNumber ≠ s.ackNumber
  · rw [if_pos hseq] at h
    obtain ⟨rfl, rfl⟩ := Prod.mk.inj (Except.ok.inj h)
    exact .inl ⟨hseq, rfl, rfl⟩
  rw [if_neg hseq] at h
  by_cases hrecv : s.recv = false
  · rw [if_pos hrecv] at h
    cases h
  rw [if_neg hrecv] at h
  by_cases hfits : seg.payload.length < seg.headerSize32 * 4
  · rw [if_pos hfits] at h
    cases h
  rw [if_neg hfits, bind_eq_ok] at h
  obtain ⟨st₁, hsend, h⟩ := h
  obtain ⟨rfl, rfl⟩ := Prod.mk.inj (Except.ok.inj h)
  exact .inr ⟨not_not.mp hseq, rfl, leaves_set_send hs hsend ⟨rfl, rfl, rfl, rfl, rfl, rfl, rfl⟩⟩

lemma touches_callRecv (p q : ℕ) (st : TcpStack) (data : List UInt8) :
    Touches p st (st.callRecv q data) := (Touches.refl p st).record _ _

/-- The default case returns when the callback is set and the header fits. -/
lemma recvData_ok (hs : st.sockets p = some s) (hrecv : s.recv = true)
    (hfits : seg.headerSize32 * 4 ≤ seg.payload.length) :
    ∃ st' exit, st.recvData p seg = .ok (st', exit) := by
  rw [recvData, get_eq_ok.mpr hs, ok_bind]
  by_cases hseq : seg.sequenceNumber ≠ s.ackNumber
  · exact ⟨st, .ended true, if_pos hseq⟩
  · have hcounted : ((st.callRecv p seg.data).set p
        { s with ackNumber := s.ackNumber + UInt32.ofNat seg.data.length }).sockets p =
        some { s with ackNumber := s.ackNumber + UInt32.ofNat seg.data.length } :=
      set_sockets_self
    obtain ⟨st', hsend⟩ := sendInternal_ok hcounted [] tcpAck
    refine ⟨st', .ended false, ?_⟩
    rw [if_neg hseq, if_neg (by simp [hrecv]), if_neg (by omega)]
    exact congrArg (fun x => x >>= fun v => pure (v, SwitchEnd.ended false)) hsend

/-- A segment with data closes a socket only out of order. -/
lemma recvData_switched (hs : st.sockets p = some s) (hopen : s.state ≠ .closed)
    (h : st.recvData p seg = .ok (st', exit)) :
    Switched p (seg.sequenceNumber ≠ s.ackNumber) st st' exit := by
  rcases recvData_cases hs h with ⟨hseq, rfl, -⟩ | ⟨-, rfl, hleaves⟩
  · exact .of_closing (.refl p st') hseq
  · obtain ⟨t, ht, hst, -⟩ := hleaves.socket
    exact ⟨(touches_callRecv p p st seg.data).trans hleaves.touches,
      fun _ => ⟨by simp, t, ht, hst ▸ hopen⟩⟩

/-- A packet is sent, and the switch is left. -/
lemma switched_of_send {data : List UInt8} {flags : UInt8} (hs : st.sockets p = some s)
    (h : ((st.set p s').sendInternal p data flags >>= fun u => pure (u, .ended false)) =
      .ok (st', exit))
    (hsame : SameEnds s s') (hclosed : s'.state = .closed → closing) :
    Switched p closing st st' exit := by
  rw [bind_eq_ok] at h
  obtain ⟨st₁, hsend, h⟩ := h
  obtain ⟨rfl, rfl⟩ := Prod.mk.inj (Except.ok.inj h)
  have hleaves := leaves_set_send hs hsend hsame
  by_cases hstate : s'.state = .closed
  · exact .of_closing hleaves.touches (hclosed hstate)
  · exact hleaves.switched hstate (by simp)

/-- The state of a socket changes, and the switch is left. -/
lemma switched_of_set {exit' : SwitchEnd} (hs : st.sockets p = some s)
    (h : (pure (st.set p s', exit') : Except TcpFault _) = .ok (st', exit))
    (hsame : SameEnds s s') (hclosed : s'.state = .closed → closing)
    (hexit : exit' ≠ .ended true) : Switched p closing st st' exit := by
  obtain ⟨rfl, rfl⟩ := Prod.mk.inj (Except.ok.inj h)
  have hleaves := leaves_set hs hsame
  by_cases hstate : s'.state = .closed
  · exact .of_closing hleaves.touches (hclosed hstate)
  · exact hleaves.switched hstate hexit

/-- An answer to a connection closes one only that has not asked. -/
lemma recvSynAck_switched (hs : st.sockets p = some s)
    (h : st.recvSynAck p seg = .ok (st', exit)) :
    Switched p (s.state ≠ .synSent) st st' exit := by
  rw [recvSynAck, get_eq_ok.mpr hs, ok_bind] at h
  by_cases hstate : s.state = .synSent
  · rw [if_pos hstate] at h
    exact switched_of_send hs h ⟨rfl, rfl, rfl, rfl, rfl, rfl, rfl⟩ (by simp)
  · rw [if_neg hstate] at h
    obtain ⟨rfl, rfl⟩ := Prod.mk.inj (Except.ok.inj h)
    exact .of_closing (.refl p st) hstate

/-- The end of a connection closes one only that is not established. -/
lemma recvFin_switched (hs : st.sockets p = some s) (h : st.recvFin p = .ok (st', exit)) :
    Switched p (s.state ≠ .established) st st' exit := by
  rw [recvFin, get_eq_ok.mpr hs, ok_bind] at h
  cases hstate : s.state with
  | established =>
    rw [hstate, bind_eq_ok] at h
    obtain ⟨st₁, hack, h⟩ := h
    have hfirst := leaves_set_send hs hack ⟨rfl, rfl, rfl, rfl, rfl, rfl, rfl⟩
    obtain ⟨t, ht, hst, -⟩ := hfirst.socket
    rw [bind_eq_ok] at h
    obtain ⟨st₂, hfin, h⟩ := h
    obtain ⟨rfl, rfl⟩ := Prod.mk.inj (Except.ok.inj h)
    have hsecond := sendInternal_leaves ht hfin
    refine ⟨hfirst.touches.trans hsecond.touches, fun _ => ⟨by simp, ?_⟩⟩
    obtain ⟨u, hu, hstu, -⟩ := hsecond.socket
    exact ⟨u, hu, by rw [hstu, hst]; simp⟩
  | closeWait =>
    rw [hstate] at h
    exact switched_of_set hs h ⟨rfl, rfl, rfl, rfl, rfl, rfl, rfl⟩ (by simp) (by simp)
  | finWait1 | finWait2 =>
    rw [hstate] at h
    exact switched_of_send hs h ⟨rfl, rfl, rfl, rfl, rfl, rfl, rfl⟩ (by simp)
  | closed | listen | synSent | synReceived | closing | timeWait =>
    rw [hstate] at h
    obtain ⟨rfl, rfl⟩ := Prod.mk.inj (Except.ok.inj h)
    exact .of_closing (.refl p st) (by simp)

/-- The `ACK` of a segment closes the socket: it is the last one, or comes with bytes out of
order. -/
def AckCloses (s : TcpSocket) (seg : Segment) : Prop :=
  s.state = .closeWait ∨
    (s.state ≠ .synReceived ∧ s.state ≠ .finWait1 ∧ seg.flags ≠ tcpAck ∧
      seg.sequenceNumber ≠ s.ackNumber)

/-- An acknowledgement closes one only where it closes a connection. -/
lemma recvAck_switched (hs : st.sockets p = some s) (hopen : s.state ≠ .closed)
    (h : st.recvAck p seg = .ok (st', exit)) : Switched p (AckCloses s seg) st st' exit := by
  rw [recvAck, get_eq_ok.mpr hs, ok_bind] at h
  cases hstate : s.state with
  | synReceived | finWait1 =>
    rw [hstate] at h
    exact switched_of_set hs h ⟨rfl, rfl, rfl, rfl, rfl, rfl, rfl⟩ (by simp) (by simp)
  | closeWait =>
    rw [hstate] at h
    exact switched_of_set hs h ⟨rfl, rfl, rfl, rfl, rfl, rfl, rfl⟩ (fun _ => .inl hstate)
      (by simp)
  | closed | listen | synSent | established | finWait2 | closing | timeWait =>
    rw [hstate] at h
    by_cases hack : seg.flags = tcpAck
    · rw [if_pos hack] at h
      obtain ⟨rfl, rfl⟩ := Prod.mk.inj (Except.ok.inj h)
      exact ⟨.refl p st, fun _ => ⟨by simp, s, hs, hopen⟩⟩
    · rw [if_neg hack] at h
      obtain ⟨htouch, hstays⟩ := recvData_switched hs hopen h
      refine ⟨htouch, fun hn => hstays fun hseq => hn (.inr ⟨?_, ?_, hack, hseq⟩)⟩
      all_goals simp [hstate]

/-- A segment that the switch answers with a reset, or that ends the connection. -/
def SwitchCloses (s : TcpSocket) (seg : Segment) : Prop :=
  if switchKey seg = tcpSyn then True
  else if switchKey seg = tcpSyn ||| tcpAck then s.state ≠ .synSent
  else if switchKey seg = tcpSyn ||| tcpFin ∨ switchKey seg = tcpSyn ||| tcpFin ||| tcpAck then True
  else if switchKey seg = tcpFin ∨ switchKey seg = tcpFin ||| tcpAck then s.state ≠ .established
  else if switchKey seg = tcpAck then AckCloses s seg
  else seg.sequenceNumber ≠ s.ackNumber

/-- A segment closes a socket, or the socket is closed already. -/
def Closes (s : TcpSocket) (seg : Segment) : Prop := s.state = .closed ∨ SwitchCloses s seg

instance (s : TcpSocket) (seg : Segment) : Decidable (AckCloses s seg) :=
  inferInstanceAs (Decidable (_ ∨ _))

instance (s : TcpSocket) (seg : Segment) : Decidable (SwitchCloses s seg) := by
  delta SwitchCloses
  infer_instance

instance (s : TcpSocket) (seg : Segment) : Decidable (Closes s seg) :=
  inferInstanceAs (Decidable (_ ∨ _))

/-- **The `switch`** closes a socket only where the flags do. -/
lemma switch_switched (hs : st.sockets p = some s) (hopen : s.state ≠ .closed)
    (h : st.switch p seg = .ok (st', exit)) : Switched p (Closes s seg) st st' exit := by
  have hiff : ∀ q : Prop, (s.state = .closed ∨ q) ↔ q := fun q => by simp [hopen]
  rw [switch, get_eq_ok.mpr hs, ok_bind] at h
  rw [Closes, hiff, SwitchCloses]
  by_cases hsyn : switchKey seg = tcpSyn
  · rw [if_pos hsyn] at h
    split_ifs at h with hlisten
    obtain ⟨rfl, rfl⟩ := Prod.mk.inj (Except.ok.inj h)
    rw [if_pos hsyn]
    exact .of_closing (.refl p st) trivial
  rw [if_neg hsyn] at h ⊢
  by_cases hsynAck : switchKey seg = tcpSyn ||| tcpAck
  · rw [if_pos hsynAck] at h ⊢
    exact recvSynAck_switched hs h
  rw [if_neg hsynAck] at h ⊢
  by_cases hsynFin : switchKey seg = tcpSyn ||| tcpFin ∨
    switchKey seg = tcpSyn ||| tcpFin ||| tcpAck
  · rw [if_pos hsynFin] at h ⊢
    obtain ⟨rfl, rfl⟩ := Prod.mk.inj (Except.ok.inj h)
    exact .of_closing (.refl p st) trivial
  rw [if_neg hsynFin] at h ⊢
  by_cases hfin : switchKey seg = tcpFin ∨ switchKey seg = tcpFin ||| tcpAck
  · rw [if_pos hfin] at h ⊢
    exact recvFin_switched hs h
  rw [if_neg hfin] at h ⊢
  by_cases hack : switchKey seg = tcpAck
  · rw [if_pos hack] at h ⊢
    exact recvAck_switched hs hopen h
  · rw [if_neg hack] at h ⊢
    exact recvData_switched hs hopen h

/-! ### After the switch -/

/-- A socket is taken out of the bind table and freed. -/
structure Frees (p : ℕ) (st st' : TcpStack) : Prop where
  binds : st'.binds = st.binds.set (st.binds.idxOf p) 0
  others : ∀ q, q ≠ p → st'.sockets q = st.sockets q
  freed : st'.sockets p = none

/-- What the handler does with the socket it found. -/
inductive Handled (p : ℕ) (closing : Prop) (st st' : TcpStack) : Prop where
  | kept (h : Touches p st st')
  | freed (hc : closing) (h : Frees p st st')

/-- A socket that is touched and taken out of the table is freed. -/
lemma Touches.frees_unbind {u : TcpStack} (h : Touches p st u) (hp : p ∈ st.binds) :
    Frees p st (u.unbind p) := by
  have hunbind : u.unbind p = { u with
      binds := u.binds.set (u.binds.idxOf p) 0
      sockets := Function.update u.sockets p none } := if_pos (h.binds ▸ hp)
  rw [hunbind]
  refine ⟨by rw [h.binds], fun q hq => ?_, Function.update_self _ _ _⟩
  exact (Function.update_of_ne hq _ _).trans (h.others q hq)

/-- Taking a socket out of the table passes nothing on. -/
@[simp] lemma unbind_received : (st.unbind p).received = st.received := by
  rw [unbind]
  split_ifs <;> rfl

lemma finishClosed_of_open (hs : st.sockets p = some s) (hopen : s.state ≠ .closed) :
    st.finishClosed p = .ok st := by
  rw [finishClosed, get_eq_ok.mpr hs, ok_bind, if_neg hopen]

lemma finishClosed_of_closed (hs : st.sockets p = some s) (hclosed : s.state = .closed) :
    st.finishClosed p = .ok (st.unbind p) := by
  rw [finishClosed, get_eq_ok.mpr hs, ok_bind, if_pos hclosed]

/-- A reset frees the socket. -/
lemma finish_reset (hs : st.sockets p = some s) (hp : p ∈ st.binds) :
    ∃ st', st.finish p true = .ok st' ∧ Frees p st st' ∧ st'.received = st.received := by
  obtain ⟨st₁, hsend⟩ := sendInternal_ok hs [] tcpRst
  have hleaves := sendInternal_leaves hs hsend
  obtain ⟨t, ht, -, -⟩ := hleaves.socket
  refine ⟨(st₁.set p { t with state := .closed }).unbind p, ?_, ?_, ?_⟩
  · rw [finish, if_pos rfl, hsend, ok_bind, get_eq_ok.mpr ht, ok_bind]
    exact finishClosed_of_closed set_sockets_self rfl
  · have hsame : SameEnds t { t with state := .closed } := ⟨rfl, rfl, rfl, rfl, rfl, rfl, rfl⟩
    exact (hleaves.touches.trans (touches_set ht hsame)).frees_unbind hp
  · rw [unbind_received]
    exact hleaves.received

/-- Without a reset a socket that is not closed is kept. -/
lemma finish_noReset (hs : st.sockets p = some s) (hp : p ∈ st.binds) :
    (s.state ≠ .closed ∧ st.finish p false = .ok st) ∨
      (s.state = .closed ∧ ∃ st', st.finish p false = .ok st' ∧ Frees p st st') := by
  rw [finish, if_neg (by simp)]
  by_cases hclosed : s.state = .closed
  · exact .inr ⟨hclosed, _, finishClosed_of_closed hs hclosed,
      (Touches.refl p st).frees_unbind hp⟩
  · exact .inl ⟨hclosed, finishClosed_of_open hs hclosed⟩

lemma Touches.trans_frees {u : TcpStack} (h : Touches p st st') (h' : Frees p st' u) :
    Frees p st u :=
  ⟨by rw [h'.binds, h.binds], fun q hq => (h'.others q hq).trans (h.others q hq), h'.freed⟩

/-- **The handler of a socket** keeps the others, and frees it only where it closes. -/
lemma socketRecv_handled (hs : st.sockets p = some s) (hp : p ∈ st.binds)
    (h : st.socketRecv p seg = .ok st') : Handled p (Closes s seg) st st' := by
  rw [socketRecv, get_eq_ok.mpr hs, ok_bind] at h
  by_cases hclosed : s.state = .closed
  · rw [if_pos hclosed] at h
    rcases finish_noReset hs hp with ⟨hopen, -⟩ | ⟨-, u, hu, hfrees⟩
    · exact absurd hclosed hopen
    · obtain rfl := Except.ok.inj (hu.symm.trans h)
      exact .freed (.inl hclosed) hfrees
  rw [if_neg hclosed, bind_eq_ok] at h
  obtain ⟨⟨st₁, exit⟩, hswitch, h⟩ := h
  obtain ⟨htouch, hstays⟩ := switch_switched hs hclosed hswitch
  obtain ⟨t, ht, -⟩ := htouch.socket s hs
  have hp₁ : p ∈ st₁.binds := htouch.binds ▸ hp
  cases exit with
  | returned =>
    obtain rfl := Except.ok.inj h
    exact .kept htouch
  | ended reset =>
    cases reset with
    | true =>
      obtain ⟨u, hu, hfrees, -⟩ := finish_reset ht hp₁
      obtain rfl := Except.ok.inj (hu.symm.trans h)
      exact .freed (not_not.mp fun hn => (hstays hn).1 rfl) (htouch.trans_frees hfrees)
    | false =>
      rcases finish_noReset ht hp₁ with ⟨-, hu⟩ | ⟨hend, u, hu, hfrees⟩
      · obtain rfl := Except.ok.inj (hu.symm.trans h)
        exact .kept htouch
      · obtain rfl := Except.ok.inj (hu.symm.trans h)
        refine .freed (not_not.mp fun hn => ?_) (htouch.trans_frees hfrees)
        obtain ⟨-, t', ht', hopen⟩ := hstays hn
        obtain rfl := Option.some.inj (ht.symm.trans ht')
        exact hopen hend

/-! ### Routing -/

/-- The socket that a segment is handed to. -/
def handsTo (st : TcpStack) (seg : Segment) : Option ℕ :=
  if seg.payload.length < tcpHeaderSize then none else st.route seg

/-- The handler works on the socket that the segment is handed to. -/
lemma recv_eq_handsTo (st : TcpStack) (seg : Segment) :
    st.recv seg =
      match st.handsTo seg with
      | none => .ok st
      | some p => (st.accept seg p).socketRecv p seg := by
  rw [recv, handsTo]
  split_ifs <;> rfl

/-- A segment is handed to the socket that it is routed to. -/
lemma route_of_handsTo (h : st.handsTo seg = some p) : st.route seg = some p := by
  rw [handsTo] at h
  split_ifs at h
  exact h

lemma route_mem (h : st.route seg = some p) : p ∈ st.binds := List.mem_of_find?_eq_some h

lemma route_matches (h : st.route seg = some p) : st.Matches seg p := by
  simpa using List.find?_some h

lemma accept_eq (hs : st.sockets p = some s) (hlisten : ¬Listens s seg) : st.accept seg p = st := by
  rw [accept, hs]
  exact if_neg hlisten

/-- What becomes of a socket when it is found. -/
def accepted (s : TcpSocket) (seg : Segment) : TcpSocket :=
  if Listens s seg then
    { s with listening := false, remotePort := seg.srcPort, remoteIp := seg.srcIp }
  else s

/-- Accepting keeps the table. -/
lemma accept_binds : (st.accept seg p).binds = st.binds := by
  rw [accept]
  cases st.sockets p with
  | none => rfl
  | some s => by_cases h : Listens s seg <;> simp [h, set]

/-- The socket that accepts has the other end. -/
lemma accept_sockets_self (hs : st.sockets p = some s) :
    (st.accept seg p).sockets p = some (accepted s seg) := by
  rw [accept, hs, accepted]
  by_cases h : Listens s seg
  · simp [h]
  · simp [h, hs]

/-- The others stay. -/
lemma accept_sockets_of_ne {q : ℕ} (h : q ≠ p) :
    (st.accept seg p).sockets q = st.sockets q := by
  rw [accept]
  cases st.sockets p with
  | none => rfl
  | some s =>
    by_cases hl : Listens s seg
    · simp only [hl, if_true]
      exact set_sockets_of_ne h
    · simp [hl]

@[simp] lemma accepted_data : (accepted s seg).data = s.data := by
  rw [accepted]; split_ifs <;> rfl

@[simp] lemma accepted_recv : (accepted s seg).recv = s.recv := by
  rw [accepted]; split_ifs <;> rfl

@[simp] lemma closes_accepted : Closes (accepted s seg) seg ↔ Closes s seg := by
  rw [accepted]; split_ifs <;> rfl

/-- **A segment is handled**: the stack is left as it is, or the socket that it is handed to is
kept, or freed when the segment closes it. -/
lemma recv_handled (h : st.recv seg = .ok st') :
    st' = st ∨ ∃ p s, st.handsTo seg = some p ∧ st.sockets p = some s ∧
      Handled p (Closes s seg) (st.accept seg p) st' := by
  rw [recv_eq_handsTo] at h
  cases hhands : st.handsTo seg with
  | none =>
    rw [hhands] at h
    exact .inl (Except.ok.inj h).symm
  | some p =>
    rw [hhands] at h
    have hroute := route_of_handsTo hhands
    obtain ⟨-, s, hs, -⟩ := route_matches hroute
    have hhandled := socketRecv_handled (accept_sockets_self hs)
      (accept_binds.symm ▸ route_mem hroute) h
    exact .inr ⟨p, s, rfl, hs, by simpa using hhandled⟩

end TcpStack

end MicroOS
