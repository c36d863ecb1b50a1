import MicroOS.Net.TcpCalls

/-!
What an established TCP socket delivers.

* `Up`: an established socket that is connected and has its callback;
* `DataSegment`: a segment with the flags `ACK` or `PSH | ACK` and a header that fits;
* `stream`: the bytes of the segments of a run that come in order, read off the segments alone;
* `Takes`, `TakesAll`, `Delivered`: a segment is taken, every segment of a run is, and the bytes
  that were passed are the stream at every point of the run;
* `Arrival`: what such a segment does, by its flags, its size and its sequence number;
* `Pushed`, `Carried`: the segments that the default case of the switch works on, and the runs in
  which every segment with bytes in order is one of them and none out of order is, unless nothing of
  the stream follows it;
* `stream_delivered_iff`: a run delivers the stream if and only if it is carried.

A segment with bytes and the flag `ACK` alone is dropped although it comes in order, since the case
for `ACK` leaves the switch. A segment with `PSH | ACK` that comes out of order, as a repeated one
does, resets the connection: the socket is freed, and what comes in order later is lost with it.
-/

namespace MicroOS

open Checked

namespace TcpStack

/-- An established socket, connected and with its callback. -/
structure Up (st : TcpStack) (p : ℕ) (s : TcpSocket) : Prop where
  here : st.sockets p = some s
  bound : p ∈ st.binds
  state : s.state = .established
  recv : s.recv = true
  connected : s.listening = false

/-- A segment with the flags `ACK` or `PSH | ACK` whose header is whole and fits. -/
structure DataSegment (seg : Segment) : Prop where
  flags : seg.flags = tcpAck ∨ seg.flags = tcpPsh ||| tcpAck
  header : 5 ≤ seg.headerSize32
  fits : seg.headerSize32 * 4 ≤ seg.payload.length

/-! ### The stream -/

/-- The number of the next byte of the stream after a segment, when it was `ack` before. -/
def nextNumber (ack : UInt32) (seg : Segment) : UInt32 :=
  if seg.sequenceNumber = ack then ack + UInt32.ofNat seg.data.length else ack

/-- The segments that come in order when the first byte of the stream has the number `ack`. -/
def inOrder (ack : UInt32) : List Segment → List Segment
  | [] => []
  | seg :: segs =>
    if seg.sequenceNumber = ack then seg :: inOrder (nextNumber ack seg) segs
    else inOrder (nextNumber ack seg) segs

/-- The bytes of the stream that starts at the number `ack`. -/
def stream (ack : UInt32) (segs : List Segment) : List UInt8 :=
  (inOrder ack segs).flatMap Segment.data

/-- The calls of the callback of a socket, the first one first. -/
def calls (p : ℕ) (st : TcpStack) : List (ℕ × List UInt8) :=
  st.received.filter fun call => call.1 = p

/-- The bytes that were passed to the callback of a socket. -/
def passed (p : ℕ) (st : TcpStack) : List UInt8 := (calls p st).flatMap Prod.snd

/-- **A segment is taken.** If it comes in order and has bytes, they are passed to `recv` in one
call, and the socket is still there and counts them. If not, `recv` is not called, except with the
no bytes of an empty segment in order, and a socket that is still there counts nothing. -/
def Takes (p : ℕ) (ack : UInt32) (seg : Segment) (st st' : TcpStack) : Prop :=
  if seg.sequenceNumber = ack ∧ seg.data ≠ [] then
    calls p st' = calls p st ++ [(p, seg.data)] ∧
      ∃ t, Up st' p t ∧ t.ackNumber = ack + UInt32.ofNat seg.data.length
  else
    (calls p st' = calls p st ∨
      (seg.sequenceNumber = ack ∧ calls p st' = calls p st ++ [(p, [])])) ∧
        ∀ t, st'.sockets p = some t → t.ackNumber = ack

/-- Every segment of a run is taken, whether or not the socket is still there. Where the kernel
stops, because the callback of another socket is missing, nothing of the stream is left. -/
inductive TakesAll (p : ℕ) : UInt32 → TcpStack → List Segment → Prop where
  | nil {ack : UInt32} {st : TcpStack} : TakesAll p ack st []
  | cons {ack : UInt32} {st st' : TcpStack} {seg : Segment} {segs : List Segment}
      (h : st.recv seg = .ok st') (htakes : Takes p ack seg st st')
      (hrest : TakesAll p (nextNumber ack seg) st' segs) : TakesAll p ack st (seg :: segs)
  | stopped {ack : UInt32} {st : TcpStack} {seg : Segment} {segs : List Segment}
      (h : ∀ st', st.recv seg ≠ .ok st') (hnone : stream ack (seg :: segs) = []) :
      TakesAll p ack st (seg :: segs)

/-- **The stream is delivered**: every segment of a run is taken, and at every point of the run what
was passed to `recv` is the stream from the first `ack_number` on, and a socket that is still there
has counted it. -/
structure Delivered (p : ℕ) (s : TcpSocket) (st : TcpStack) (segs : List Segment) : Prop where
  takes : TakesAll p s.ackNumber st segs
  stream : ∀ pre post u, segs = pre ++ post → pre.foldlM TcpStack.recv st = .ok u →
    passed p u = passed p st ++ stream s.ackNumber pre ∧
      ∀ t, u.sockets p = some t →
        t.ackNumber = s.ackNumber + UInt32.ofNat (TcpStack.stream s.ackNumber pre).length

variable {st st' u : TcpStack} {p : ℕ} {s t : TcpSocket} {seg : Segment} {segs pre : List Segment}
  {ack : UInt32}

lemma nextNumber_of_ne (h : seg.sequenceNumber ≠ ack) : nextNumber ack seg = ack := if_neg h

/-- A segment counts by its bytes: one without bytes leaves the number as it is. -/
lemma nextNumber_of_not (h : ¬(seg.sequenceNumber = ack ∧ seg.data ≠ [])) :
    nextNumber ack seg = ack := by
  rw [nextNumber]
  split_ifs with hseq
  · have hnil : seg.data = [] := by
      by_contra hne
      exact h ⟨hseq, hne⟩
    simp [hnil]
  · rfl

lemma stream_cons_of_eq (h : seg.sequenceNumber = ack) :
    stream ack (seg :: segs) = seg.data ++ stream (nextNumber ack seg) segs := by
  rw [stream, inOrder, if_pos h, List.flatMap_cons, stream]

lemma stream_cons_of_ne (h : seg.sequenceNumber ≠ ack) :
    stream ack (seg :: segs) = stream ack segs := by
  rw [stream, inOrder, if_neg h, nextNumber_of_ne h, stream]

/-- Nothing of the stream is left when no segment in order has bytes. -/
lemma stream_cons_eq_nil_iff : stream ack (seg :: segs) = [] ↔
    ¬(seg.sequenceNumber = ack ∧ seg.data ≠ []) ∧ stream (nextNumber ack seg) segs = [] := by
  by_cases hseq : seg.sequenceNumber = ack
  · simp [stream_cons_of_eq hseq, hseq]
  · simp [stream_cons_of_ne hseq, hseq, nextNumber_of_ne hseq]

/-! ### What a taken segment passes -/

/-- What is taken is counted. -/
lemma Takes.counts (h : Takes p ack seg st st') (ht : st'.sockets p = some t) :
    t.ackNumber = nextNumber ack seg := by
  rw [Takes] at h
  split_ifs at h with hbytes
  · obtain ⟨-, t', hup, hack⟩ := h
    obtain rfl := Option.some.inj (hup.here.symm.trans ht)
    rw [hack, nextNumber, if_pos hbytes.1]
  · rw [h.2 t ht, nextNumber_of_not hbytes]

/-- The bytes of a segment in order are passed, and no others. -/
lemma Takes.passed_eq (h : Takes p ack seg st st') :
    passed p st' = passed p st ++ (if seg.sequenceNumber = ack then seg.data else []) := by
  rw [Takes] at h
  split_ifs at h with hbytes
  · rw [passed, passed, h.1, if_pos hbytes.1, List.flatMap_append]
    simp
  · have hnone : (if seg.sequenceNumber = ack then seg.data else []) = [] := by
      split_ifs with hseq
      · by_contra hne
        exact hbytes ⟨hseq, hne⟩
      · rfl
    rw [hnone, List.append_nil]
    rcases h.1 with hsame | ⟨-, hcall⟩
    · rw [passed, passed, hsame]
    · rw [passed, passed, hcall, List.flatMap_append]
      simp

/-- What is passed at a point of a run whose segments are taken. -/
lemma TakesAll.passed_eq (h : TakesAll p ack st (pre ++ segs))
    (hack : ∀ t, st.sockets p = some t → t.ackNumber = ack)
    (hrun : pre.foldlM TcpStack.recv st = .ok u) :
    passed p u = passed p st ++ stream ack pre ∧ ∀ t, u.sockets p = some t →
      t.ackNumber = ack + UInt32.ofNat (stream ack pre).length := by
  induction pre generalizing st ack with
  | nil =>
    obtain rfl : st = u := Except.ok.inj hrun
    exact ⟨by simp [stream, inOrder], fun t ht => by simp [hack t ht, stream, inOrder]⟩
  | cons seg pre ih =>
    rw [List.foldlM_cons, bind_eq_ok] at hrun
    obtain ⟨st₁, hst₁, hrun⟩ := hrun
    cases h with
    | stopped hstop _ => exact absurd hst₁ (hstop st₁)
    | @cons _ _ st' _ _ hst' htakes hrest =>
      obtain rfl : st₁ = st' := Except.ok.inj (hst₁.symm.trans hst')
      obtain ⟨hpassed, hcounted⟩ := ih hrest (fun t ht => htakes.counts ht) hrun
      by_cases hseq : seg.sequenceNumber = ack
      · rw [stream_cons_of_eq hseq]
        refine ⟨by rw [hpassed, htakes.passed_eq, if_pos hseq, List.append_assoc], ?_⟩
        intro t ht
        rw [hcounted t ht, nextNumber, if_pos hseq, List.length_append, UInt32.ofNat_add,
          UInt32.add_assoc]
      · rw [stream_cons_of_ne hseq]
        rw [nextNumber_of_ne hseq] at hpassed hcounted
        refine ⟨by rw [hpassed, htakes.passed_eq, if_neg hseq, List.append_nil], hcounted⟩

/-! ### One segment -/

/-- The default case of the switch works on the segment. -/
def Pushed (seg : Segment) : Prop :=
  seg.flags = tcpPsh ||| tcpAck ∧ tcpHeaderSize ≤ seg.payload.length

instance (seg : Segment) : Decidable (Pushed seg) := inferInstanceAs (Decidable (_ ∧ _))

/-- What a segment for an established socket does. -/
inductive Arrival (p : ℕ) (s : TcpSocket) (seg : Segment) (st st' : TcpStack) : Prop where
  | ignored (hpushed : ¬Pushed seg) (h : st' = st)
  | passed (hpushed : Pushed seg) (hseq : seg.sequenceNumber = s.ackNumber)
      (h : Leaves p { s with ackNumber := s.ackNumber + UInt32.ofNat seg.data.length }
        (st.callRecv p seg.data) st')
  | reset (hpushed : Pushed seg) (hseq : seg.sequenceNumber ≠ s.ackNumber) (h : Frees p st st')
      (hreceived : st'.received = st.received)

/-- With the flag `ACK` the acknowledgement is received. -/
lemma switch_of_ack (hs : st.sockets p = some s) (hkey : switchKey seg = tcpAck) :
    st.switch p seg = st.recvAck p seg := by
  rw [switch, get_eq_ok.mpr hs, ok_bind, hkey, if_neg (by decide), if_neg (by decide),
    if_neg (by decide), if_neg (by decide), if_pos rfl]

/-- On an established connection it is dropped, or its data is received. -/
lemma recvAck_established (hs : st.sockets p = some s) (hstate : s.state = .established) :
    st.recvAck p seg =
      if seg.flags = tcpAck then .ok (st, .ended false) else st.recvData p seg := by
  rw [recvAck, get_eq_ok.mpr hs, ok_bind, hstate]

/-- A segment with data comes to the acknowledgements. -/
lemma DataSegment.switchKey (h : DataSegment seg) : switchKey seg = tcpAck := by
  rw [TcpStack.switchKey]
  rcases h.flags with hflags | hflags <;> rw [hflags] <;> decide

/-- **A segment for an established socket** arrives in one of three ways. -/
lemma Up.arrival (hup : Up st p s) (hroute : st.route seg = some p) (hseg : DataSegment seg) :
    ∃ st', st.recv seg = .ok st' ∧ Arrival p s seg st st' := by
  by_cases hsize : seg.payload.length < tcpHeaderSize
  · exact ⟨st, if_pos hsize, .ignored (fun h => absurd h.2 (by omega)) rfl⟩
  have haccept : st.accept seg p = st :=
    accept_eq hup.here fun h => absurd h.2.2 (by simp [hup.connected])
  have hopen : s.state ≠ .closed := by simp [hup.state]
  have hrecv : st.recv seg = st.socketRecv p seg := by
    rw [TcpStack.recv, if_neg hsize, hroute]
    exact congrArg (fun u => socketRecv u p seg) haccept
  rw [hrecv, socketRecv, get_eq_ok.mpr hup.here, ok_bind, if_neg hopen,
    switch_of_ack hup.here hseg.switchKey, recvAck_established hup.here hup.state]
  rcases hseg.flags with hflags | hflags
  · rw [if_pos hflags, ok_bind]
    have hpushed : ¬Pushed seg := fun h => absurd (hflags.symm.trans h.1) (by decide)
    rcases finish_noReset hup.here hup.bound with ⟨-, h⟩ | ⟨hclosed, -⟩
    · exact ⟨st, h, .ignored hpushed rfl⟩
    · exact absurd hclosed hopen
  have hpushed : Pushed seg := ⟨hflags, not_lt.mp hsize⟩
  rw [if_neg (by rw [hflags]; decide)]
  obtain ⟨st₁, exit, hdata⟩ := recvData_ok hup.here hup.recv hseg.fits
  rw [hdata, ok_bind]
  rcases recvData_cases hup.here hdata with ⟨hseq, rfl, rfl⟩ | ⟨hseq, rfl, hleaves⟩
  · obtain ⟨u, hu, hfrees, hreceived⟩ := finish_reset hup.here hup.bound
    exact ⟨u, hu, .reset hpushed hseq hfrees hreceived⟩
  · obtain ⟨t, ht, hst, -⟩ := hleaves.socket
    refine ⟨st₁, ?_, .passed hpushed hseq hleaves⟩
    rcases finish_noReset ht (hleaves.touches.binds ▸ hup.bound) with ⟨-, h⟩ | ⟨hclosed, -⟩
    · exact h
    · exact absurd (hst.symm.trans hclosed) hopen

/-- The socket stays up when the bytes of a segment are passed. -/
lemma Up.after_passed (hup : Up st p s)
    (h : Leaves p { s with ackNumber := s.ackNumber + UInt32.ofNat seg.data.length }
      (st.callRecv p seg.data) st') :
    ∃ u, Up st' p u ∧ u.ackNumber = s.ackNumber + UInt32.ofNat seg.data.length := by
  obtain ⟨u, hu, hstate, hack⟩ := h.socket
  obtain ⟨u', hu', hsame⟩ := h.touches.socket s hup.here
  obtain rfl := Option.some.inj (hu'.symm.trans hu)
  exact ⟨u', ⟨hu, h.touches.binds ▸ hup.bound, hstate.trans hup.state,
    hsame.recv.trans hup.recv, hsame.listening.trans hup.connected⟩, hack⟩

/-- Sockets with the same ends match the same segments. -/
lemma SameEnds.matches_iff (h : SameEnds s t) (seg : Segment) :
    (Listens t seg ∨ FromRemote t seg) ↔ (Listens s seg ∨ FromRemote s seg) := by
  simp only [Listens, FromRemote, h.localPort, h.localIp, h.listening, h.remotePort, h.remoteIp]

/-- The search finds the same sockets after a call that leaves the ends of a socket alone. -/
lemma Touches.route (h : Touches p st st') (hs : st.sockets p = some s) (seg : Segment) :
    st'.route seg = st.route seg := by
  have hmatches : ∀ q, st'.Matches seg q ↔ st.Matches seg q := by
    intro q
    by_cases hq : q = p
    · obtain ⟨s', hs', hsame⟩ := h.socket s hs
      simp only [Matches, hq, hs, hs', Option.mem_def, Option.some.injEq, exists_eq_left',
        hsame.matches_iff seg]
    · simp only [Matches, h.others q hq]
  rw [TcpStack.route, TcpStack.route, h.binds]
  exact congrArg (fun f => List.find? f st.binds)
    (funext fun q => decide_eq_decide.mpr (hmatches q))

/-! ### A socket that is gone -/

/-- The callback of a socket is called only for a segment that is handed to it. -/
lemma recv_calls (h : st.recv seg = .ok st') (hhands : st.handsTo seg ≠ some p) :
    calls p st' = calls p st := by
  cases hcall : st.recvCall seg with
  | none => rw [calls, recv_received h hcall, calls]
  | some c =>
    have hne : c.socket ≠ p := by
      obtain ⟨q, s, hq, -, -, rfl⟩ := recvCall_eq_some.mp hcall
      rintro rfl
      exact hhands hq
    rcases recv_of_call hcall with hnull | ⟨-, hbad⟩ | ⟨-, st₁, hst₁, hreceived⟩
    · exact absurd (hnull.symm.trans h) (by simp)
    · exact absurd (hbad.symm.trans h) (by simp)
    · obtain rfl := Except.ok.inj (hst₁.symm.trans h)
      rw [calls, hreceived, List.filter_append, calls]
      simp [hne]

/-- No segment is handed to a socket that was freed. -/
lemma handsTo_ne_of_freed (hp : st.sockets p = none) : st.handsTo seg ≠ some p := by
  intro hhands
  obtain ⟨-, s, hs, -⟩ := route_matches (route_of_handsTo hhands)
  simp [hp] at hs

/-- **The segments of a socket that was freed** are all taken if and only if nothing of the stream
is left. -/
lemma takesAll_freed_iff (hp : st.sockets p = none) :
    TakesAll p ack st segs ↔ stream ack segs = [] := by
  induction segs generalizing st ack with
  | nil => exact ⟨fun _ => rfl, fun _ => .nil⟩
  | cons seg segs ih =>
    constructor
    · intro h
      cases h with
      | stopped _ hnone => exact hnone
      | @cons _ _ st' _ _ hst' htakes hrest =>
        have hp' : st'.sockets p = none :=
          (recv_others hst' (handsTo_ne_of_freed hp)).trans hp
        refine stream_cons_eq_nil_iff.mpr ⟨fun hbytes => ?_, (ih hp').mp hrest⟩
        rw [Takes, if_pos hbytes] at htakes
        obtain ⟨-, t, hup, -⟩ := htakes
        exact absurd (hp'.symm.trans hup.here) (by simp)
    · intro hnone
      obtain ⟨hbytes, hrest⟩ := stream_cons_eq_nil_iff.mp hnone
      cases hst' : st.recv seg with
      | error e => exact .stopped (by simp [hst']) hnone
      | ok st' =>
        have hp' : st'.sockets p = none :=
          (recv_others hst' (handsTo_ne_of_freed hp)).trans hp
        refine .cons hst' ?_ ((ih hp').mpr hrest)
        rw [Takes, if_neg hbytes]
        exact ⟨.inl (recv_calls hst' (handsTo_ne_of_freed hp)), by simp [hp']⟩

/-! ### A run -/

/-- **The runs that are carried.** A segment that comes in order with bytes is pushed, and one that
comes out of order is pushed only when nothing of the stream follows it. -/
def Carried : UInt32 → List Segment → Prop
  | _, [] => True
  | ack, seg :: segs =>
    (if seg.sequenceNumber = ack then seg.data ≠ [] → Pushed seg
      else Pushed seg → stream ack segs = []) ∧ Carried (nextNumber ack seg) segs

/-- When nothing of the stream is left, there is nothing to carry. -/
lemma carried_of_stream_eq_nil (h : stream ack segs = []) : Carried ack segs := by
  induction segs generalizing ack with
  | nil => trivial
  | cons seg segs ih =>
    obtain ⟨hbytes, hrest⟩ := stream_cons_eq_nil_iff.mp h
    refine ⟨?_, ih hrest⟩
    split_ifs with hseq
    · exact fun hne => absurd ⟨hseq, hne⟩ hbytes
    · exact fun _ => nextNumber_of_ne hseq ▸ hrest

/-- A segment in order is carried when it is pushed or empty, and so are those behind it. -/
lemma carried_cons_of_eq (hseq : seg.sequenceNumber = ack) : Carried ack (seg :: segs) ↔
    (seg.data ≠ [] → Pushed seg) ∧ Carried (nextNumber ack seg) segs := by
  rw [Carried, if_pos hseq]

/-- A pushed segment out of order is carried when nothing follows in order. -/
lemma carried_cons_of_ne (hseq : seg.sequenceNumber ≠ ack) : Carried ack (seg :: segs) ↔
    (Pushed seg → stream ack segs = []) ∧ Carried ack segs := by
  rw [Carried, if_neg hseq, nextNumber_of_ne hseq]

/-- The first segment is taken, and the others are. -/
lemma takesAll_cons_iff (h : st.recv seg = .ok st') : TakesAll p ack st (seg :: segs) ↔
    Takes p ack seg st st' ∧ TakesAll p (nextNumber ack seg) st' segs := by
  constructor
  · intro hall
    cases hall with
    | stopped hstop _ => exact absurd h (hstop st')
    | @cons _ _ st₁ _ _ hst₁ htakes hrest =>
      obtain rfl := Except.ok.inj (hst₁.symm.trans h)
      exact ⟨htakes, hrest⟩
  · rintro ⟨htakes, hrest⟩
    exact .cons h htakes hrest

/-- A segment that changes nothing is taken if and only if it has no bytes in order. -/
lemma Up.takes_same_iff (hup : Up st p s) :
    Takes p s.ackNumber seg st st ↔ ¬(seg.sequenceNumber = s.ackNumber ∧ seg.data ≠ []) := by
  rw [Takes]
  split_ifs with hbytes
  · simp [hbytes]
  · refine ⟨fun _ => hbytes, fun _ => ⟨.inl rfl, fun t ht => ?_⟩⟩
    rw [Option.some.inj (hup.here.symm.trans ht)]

/-- A segment whose bytes are passed is taken. -/
lemma Up.takes_passed (hup : Up st p s) (hseq : seg.sequenceNumber = s.ackNumber)
    (h : Leaves p { s with ackNumber := s.ackNumber + UInt32.ofNat seg.data.length }
      (st.callRecv p seg.data) st') : Takes p s.ackNumber seg st st' := by
  have hcalls : calls p st' = calls p st ++ [(p, seg.data)] := by
    rw [calls, h.received, callRecv, List.filter_append, calls]
    simp
  obtain ⟨t, ht, hack⟩ := hup.after_passed h
  rw [Takes]
  split_ifs with hbytes
  · exact ⟨hcalls, t, ht, hack⟩
  · have hnil : seg.data = [] := by
      by_contra hne
      exact hbytes ⟨hseq, hne⟩
    rw [hnil] at hcalls
    refine ⟨.inr ⟨hseq, hcalls⟩, fun t' ht' => ?_⟩
    obtain rfl := Option.some.inj (ht.here.symm.trans ht')
    simp [hack, hnil]

/-- **The segments for an established socket are all taken** if and only if the run is carried. As
long as the socket is up the search finds it, and a reset frees it, after which no bytes are
taken. -/
lemma Up.takesAll_iff (hup : Up st p s)
    (hsegs : ∀ seg ∈ segs, st.route seg = some p ∧ DataSegment seg) :
    TakesAll p s.ackNumber st segs ↔ Carried s.ackNumber segs := by
  induction segs generalizing st s with
  | nil => exact ⟨fun _ => trivial, fun _ => .nil⟩
  | cons seg segs ih =>
    obtain ⟨hroute, hseg⟩ := hsegs seg List.mem_cons_self
    obtain ⟨st', hst', harrival⟩ := hup.arrival hroute hseg
    have hrest := fun seg hmem => hsegs seg (List.mem_cons_of_mem _ hmem)
    rw [takesAll_cons_iff hst']
    cases harrival with
    | ignored hpushed h =>
      subst h
      rw [hup.takes_same_iff]
      by_cases hbytes : seg.sequenceNumber = s.ackNumber ∧ seg.data ≠ []
      · rw [carried_cons_of_eq hbytes.1]
        exact ⟨fun h => absurd hbytes h.1, fun h => absurd (h.1 hbytes.2) hpushed⟩
      · rw [nextNumber_of_not hbytes, ih hup hrest]
        refine ⟨fun h => ?_, fun h => ⟨hbytes, nextNumber_of_not hbytes ▸ h.2⟩⟩
        refine ⟨?_, by rw [nextNumber_of_not hbytes]; exact h.2⟩
        split_ifs with hseq
        · exact fun hne => absurd ⟨hseq, hne⟩ hbytes
        · exact fun h => absurd h hpushed
    | passed hpushed hseq hleaves =>
      obtain ⟨t, ht, hack⟩ := hup.after_passed hleaves
      have hnext : nextNumber s.ackNumber seg = t.ackNumber := by
        rw [hack, nextNumber, if_pos hseq]
      have hroutes := ((touches_callRecv p p st _).trans hleaves.touches).route hup.here
      have hrest' : ∀ seg ∈ segs, st'.route seg = some p ∧ DataSegment seg :=
        fun seg hmem => ⟨(hroutes seg).trans (hrest seg hmem).1, (hrest seg hmem).2⟩
      rw [carried_cons_of_eq hseq, hnext, ih ht hrest']
      exact and_congr_left' ⟨fun _ _ => hpushed, fun _ => hup.takes_passed hseq hleaves⟩
    | reset hpushed hseq hfrees hreceived =>
      rw [carried_cons_of_ne hseq, nextNumber_of_ne hseq, takesAll_freed_iff hfrees.freed]
      have htakes : Takes p s.ackNumber seg st st' := by
        rw [Takes, if_neg fun h => hseq h.1]
        exact ⟨.inl (by rw [calls, hreceived, calls]), by simp [hfrees.freed]⟩
      exact ⟨fun h => ⟨fun _ => h.2, carried_of_stream_eq_nil h.2⟩,
        fun h => ⟨htakes, h.1 hpushed⟩⟩

/-- **A run delivers the stream** if and only if every segment that comes in order with bytes has
the flag `PSH` and the size of `tcp_header_t`, and nothing of the stream follows a segment of this
kind that comes out of order. -/
theorem stream_delivered_iff (hup : Up st p s)
    (hsegs : ∀ seg ∈ segs, st.route seg = some p ∧ DataSegment seg) :
    Delivered p s st segs ↔ Carried s.ackNumber segs := by
  have hack : ∀ t, st.sockets p = some t → t.ackNumber = s.ackNumber := by
    intro t ht
    rw [Option.some.inj (hup.here.symm.trans ht)]
  constructor
  · intro hdelivered
    exact (hup.takesAll_iff hsegs).mp hdelivered.takes
  · intro hcarried
    have htakes := (hup.takesAll_iff hsegs).mpr hcarried
    refine ⟨htakes, fun pre post u hsplit hrun => ?_⟩
    subst hsplit
    exact htakes.passed_eq hack hrun

lemma oneConnection_up : Up oneConnection 0x1000 connection :=
  ⟨rfl, List.mem_singleton.mpr rfl, rfl, rfl, rfl⟩

/-- Two segments that follow each other are delivered. -/
theorem stream_delivered_iff_two :
    let segs := [connectionSegment 1000 (tcpPsh ||| tcpAck) [1, 2, 3, 4],
      connectionSegment 1004 (tcpPsh ||| tcpAck) [5, 6]]
    Delivered 0x1000 connection oneConnection segs := by
  intro segs
  have hsegs : ∀ seg ∈ segs, oneConnection.route seg = some 0x1000 ∧ DataSegment seg := by
    intro seg hseg
    simp only [segs, List.mem_cons, List.not_mem_nil, or_false] at hseg
    rcases hseg with rfl | rfl
    · exact ⟨by decide, by decide, by decide, by decide⟩
    · exact ⟨by decide, by decide, by decide, by decide⟩
  refine (stream_delivered_iff oneConnection_up hsegs).mpr ⟨fun _ => ?_, fun _ => ?_, trivial⟩
  · exact ⟨rfl, by decide⟩
  · exact ⟨rfl, by decide⟩

/-- Four bytes that come in order with the flag `ACK` alone are dropped. -/
theorem ack_only_dropped :
    let seg := connectionSegment 1000 tcpAck [1, 2, 3, 4]
    Up oneConnection 0x1000 connection ∧ oneConnection.route seg = some 0x1000 ∧
      DataSegment seg ∧ ¬Delivered 0x1000 connection oneConnection [seg] := by
  intro seg
  have hroute : oneConnection.route seg = some 0x1000 := by decide
  have hseg : DataSegment seg := ⟨by decide, by decide, by decide⟩
  refine ⟨oneConnection_up, hroute, hseg, fun hdelivered => ?_⟩
  have hsegs : ∀ seg' ∈ [seg], oneConnection.route seg' = some 0x1000 ∧ DataSegment seg' := by
    simp [hroute, hseg]
  have hcarried := (oneConnection_up.takesAll_iff hsegs).mp hdelivered.takes
  have horder : seg.sequenceNumber = connection.ackNumber := by decide
  have hpushed : Pushed seg := ((carried_cons_of_eq horder).mp hcarried).1 (by decide)
  exact absurd hpushed.1 (by decide)

end TcpStack

end MicroOS
