import MicroOS.Net.TcpStream
import MicroOS.Net.Udp

/-!
Which socket an incoming segment or datagram is handed to.

* `find?_forall_iff`: what the first match of a search satisfies;
* `UdpStack.handsTo`: the socket that a datagram is handed to, as `TcpStack.handsTo`;
  `UdpStack.recv_eq_handsTo`: the handler works on it;
* `Belongs`: the socket listens on the destination port, or has it as its local port and the source
  as its remote end;
* `handed_where_it_belongs`: every socket gets only what belongs to it if and only if the matching
  slots that it does not belong to stand behind one that it belongs to.

The search compares the remote end of a connected socket with the source and never its local port
with the destination port: of two connections to one remote end, the first gets everything.
-/

namespace MicroOS

/-! ### The first match -/

section FirstMatch

variable {α : Type} {l : List α} {m : α → Bool} {P : α → Prop}

/-- The first match of a search has a property if and only if every match without it stands behind
a match with it. -/
lemma find?_forall_iff :
    (∀ x, l.find? m = some x → P x) ↔
      ∀ pre x post, l = pre ++ x :: post → m x → ¬P x → ∃ y ∈ pre, m y ∧ P y := by
  constructor
  · intro hfirst pre x post hsplit hx hnot
    have hsome : (l.find? m).isSome := List.find?_isSome.mpr ⟨x, by rw [hsplit]; simp, hx⟩
    obtain ⟨y, hy⟩ := Option.isSome_iff_exists.mp hsome
    have hP := hfirst y hy
    rw [hsplit, List.find?_append] at hy
    cases hpre : pre.find? m with
    | some z =>
      rw [hpre] at hy
      obtain rfl : z = y := Option.some.inj hy
      exact ⟨z, List.mem_of_find?_eq_some hpre, List.find?_some hpre, hP⟩
    | none =>
      rw [hpre, Option.none_or, List.find?_cons_of_pos hx] at hy
      exact absurd (Option.some.inj hy ▸ hP) hnot
  · intro hbehind x hx
    by_contra hnot
    obtain ⟨hmatch, pre, post, hsplit, hpre⟩ := List.find?_eq_some_iff_append.mp hx
    obtain ⟨y, hy, hmy, -⟩ := hbehind pre x post hsplit hmatch hnot
    exact absurd hmy (by simpa using hpre y hy)

/-- The search of a bind table stops at the first socket whose ends fit. Every socket it finds is
right if and only if every wrong one that fits stands behind a right one. -/
lemma search_forall_iff {σ : Type} {binds : List ℕ} {sockets : ℕ → Option σ}
    {fits right wrong : σ → Prop} [DecidablePred fun p => p ≠ 0 ∧ ∃ s ∈ sockets p, fits s]
    (hright : ∀ s, fits s → (right s ↔ ¬wrong s)) (hwrong : ∀ s, wrong s → fits s) :
    (∀ p, (binds.find? fun p => p ≠ 0 ∧ ∃ s ∈ sockets p, fits s) = some p →
        ∀ s ∈ sockets p, right s) ↔
      ∀ pre p post s, binds = pre ++ p :: post → p ≠ 0 → sockets p = some s → wrong s →
        ∃ q ∈ pre, (q ≠ 0 ∧ ∃ t ∈ sockets q, fits t) ∧ ∀ t ∈ sockets q, right t := by
  rw [find?_forall_iff]
  constructor
  · intro h pre p post s hsplit hp hs hwrongs
    have hmatch : p ≠ 0 ∧ ∃ s ∈ sockets p, fits s := ⟨hp, s, hs, hwrong s hwrongs⟩
    obtain ⟨q, hq, hmq, hrightq⟩ := h pre p post hsplit (decide_eq_true hmatch)
      fun hrights => (hright s (hwrong s hwrongs)).mp (hrights s hs) hwrongs
    exact ⟨q, hq, of_decide_eq_true hmq, hrightq⟩
  · intro h pre p post hsplit hmatch hnot
    obtain ⟨hp, s, hs, hfits⟩ := of_decide_eq_true hmatch
    have hwrongs : wrong s := by
      by_contra hwrongs
      refine hnot fun t ht => ?_
      obtain rfl := Option.some.inj (hs.symm.trans ht)
      exact (hright s hfits).mpr hwrongs
    obtain ⟨q, hq, hmq, hrightq⟩ := h pre p post s hsplit hp hs hwrongs
    exact ⟨q, hq, decide_eq_true hmq, hrightq⟩

end FirstMatch

/-! ### TCP -/

namespace TcpStack

/-- A segment belongs to a socket. -/
def Belongs (s : TcpSocket) (seg : Segment) : Prop :=
  (s.localPort = seg.dstPort ∧ s.remoteIp = seg.srcIp ∧ s.remotePort = seg.srcPort) ∨
    (s.listening ∧ s.localPort = seg.dstPort)

instance (s : TcpSocket) (seg : Segment) : Decidable (Belongs s seg) :=
  inferInstanceAs (Decidable (_ ∨ _))

/-- A connected socket that the search takes for the segment although it has another local port. -/
def Misdirected (s : TcpSocket) (seg : Segment) : Prop :=
  FromRemote s seg ∧ s.localPort ≠ seg.dstPort

/-- A segment that the search takes a socket for belongs to it just when it is not misdirected. -/
lemma belongs_iff {s : TcpSocket} {seg : Segment} (h : Listens s seg ∨ FromRemote s seg) :
    Belongs s seg ↔ ¬Misdirected s seg := by
  constructor
  · rintro (⟨hport, -⟩ | ⟨-, hport⟩) ⟨-, hne⟩
    · exact hne hport
    · exact hne hport
  · intro hnot
    rcases h with ⟨hport, -, hlistening⟩ | hremote
    · exact .inr ⟨hlistening, hport⟩
    · have hport : s.localPort = seg.dstPort := by
        by_contra hne
        exact hnot ⟨hremote, hne⟩
      exact .inl ⟨hport, hremote.2, hremote.1⟩

/-- Every misdirected socket stands in the bind table behind one that the search takes and that the
segment belongs to. -/
def Ordered (st : TcpStack) (seg : Segment) : Prop :=
  ∀ pre p post s, st.binds = pre ++ p :: post → p ≠ 0 → st.sockets p = some s →
    Misdirected s seg → ∃ q ∈ pre, st.Matches seg q ∧ ∀ t ∈ st.sockets q, Belongs t seg

/-- **The search hands a segment to a socket that it belongs to** just when the table is in order
for it. -/
lemma route_belongs_iff (st : TcpStack) (seg : Segment) :
    (∀ p, st.route seg = some p → ∀ s ∈ st.sockets p, Belongs s seg) ↔ st.Ordered seg :=
  search_forall_iff (fun _ => belongs_iff) fun _ h => .inr h.1

end TcpStack

/-! ### UDP -/

namespace UdpStack

/-- The socket that a datagram is handed to. -/
def handsTo (st : UdpStack) (seg : Segment) : Option ℕ :=
  if seg.payload.length < udpHeaderSize then none else st.route seg

/-- The handler works on the socket that the datagram is handed to. -/
theorem recv_eq_handsTo (st : UdpStack) (seg : Segment) :
    st.recv seg =
      match st.handsTo seg with
      | none => .ok st
      | some p => (st.accept seg p).callRecv p seg := by
  rw [recv, handsTo]
  split_ifs <;> rfl

/-- A datagram belongs to a socket. -/
def Belongs (s : UdpSocket) (seg : Segment) : Prop :=
  (s.localPort = seg.dstPort ∧ s.remoteIp = seg.srcIp ∧ s.remotePort = seg.srcPort) ∨
    (s.listening ∧ s.localPort = seg.dstPort)

/-- A socket that the search takes for the datagram although it has another local port, or is
connected to another address. -/
def Misdirected (s : UdpSocket) (seg : Segment) : Prop :=
  FromRemote s seg ∧
    (s.localPort ≠ seg.dstPort ∨ (s.remoteIp ≠ seg.srcIp ∧ s.listening = false))

/-- A datagram that the search takes a socket for belongs to it just when it is not misdirected. -/
lemma belongs_iff {s : UdpSocket} {seg : Segment} (h : Listens s seg ∨ FromRemote s seg) :
    Belongs s seg ↔ ¬Misdirected s seg := by
  constructor
  · rintro (⟨hport, hip, -⟩ | ⟨hlistening, hport⟩) ⟨-, hne | ⟨hne, hquiet⟩⟩
    · exact hne hport
    · exact hne hip
    · exact hne hport
    · exact absurd (hlistening.symm.trans hquiet) (by simp)
  · intro hnot
    rcases h with ⟨hport, -, hlistening⟩ | hremote
    · exact .inr ⟨hlistening, hport⟩
    · have hport : s.localPort = seg.dstPort := by
        by_contra hne
        exact hnot ⟨hremote, .inl hne⟩
      cases hlistening : s.listening with
      | true => exact .inr ⟨hlistening, hport⟩
      | false =>
        have hip : s.remoteIp = seg.srcIp := by
          by_contra hne
          exact hnot ⟨hremote, .inr ⟨hne, hlistening⟩⟩
        exact .inl ⟨hport, hip, hremote.1⟩

/-- Every misdirected socket stands in the bind table behind one that the search takes and that the
datagram belongs to. -/
def Ordered (st : UdpStack) (seg : Segment) : Prop :=
  ∀ pre p post s, st.binds = pre ++ p :: post → p ≠ 0 → st.sockets p = some s →
    Misdirected s seg → ∃ q ∈ pre, st.Matches seg q ∧ ∀ t ∈ st.sockets q, Belongs t seg

/-- **The search hands a datagram to a socket that it belongs to** just when the table is in order
for it. -/
lemma route_belongs_iff (st : UdpStack) (seg : Segment) :
    (∀ p, st.route seg = some p → ∀ s ∈ st.sockets p, Belongs s seg) ↔ st.Ordered seg :=
  search_forall_iff (fun _ => belongs_iff) fun _ h => .inr h.1

end UdpStack

/-! ### Both -/

/-- **Every socket gets only what belongs to it**, of TCP and of UDP, if and only if the segment is
too short or the bind table is ordered. -/
theorem handed_where_it_belongs (tcp : TcpStack) (udp : UdpStack) (seg : Segment) :
    ((∀ p s, tcp.handsTo seg = some p → tcp.sockets p = some s → TcpStack.Belongs s seg) ↔
        (seg.payload.length < tcpHeaderSize ∨ tcp.Ordered seg)) ∧
      ((∀ p s, udp.handsTo seg = some p → udp.sockets p = some s → UdpStack.Belongs s seg) ↔
        (seg.payload.length < udpHeaderSize ∨ udp.Ordered seg)) := by
  constructor
  · rw [← TcpStack.route_belongs_iff]
    by_cases hsize : seg.payload.length < tcpHeaderSize
    · simp [TcpStack.handsTo, hsize]
    · simp only [TcpStack.handsTo, hsize, if_false, false_or, Option.mem_def]
      exact ⟨fun h p hp s hs => h p s hp hs, fun h p s hp hs => h p hp s hs⟩
  · rw [← UdpStack.route_belongs_iff]
    by_cases hsize : seg.payload.length < udpHeaderSize
    · simp [UdpStack.handsTo, hsize]
    · simp only [UdpStack.handsTo, hsize, if_false, false_or, Option.mem_def]
      exact ⟨fun h p hp s hs => h p s hp hs, fun h p s hp hs => h p hp s hs⟩

/-- A second connection to the same remote end, from the next local port. -/
def secondConnection : TcpSocket := { TcpStack.connection with localPort := bswap16 1025 }

/-- The stack with both connections. -/
def twoConnections : TcpStack :=
  { TcpStack.oneConnection with
    binds := [0x1000, 0x2000]
    sockets := Function.update TcpStack.oneConnection.sockets 0x2000 (some secondConnection) }

/-- A segment of the second connection is handed to the first. -/
theorem handed_to_first :
    let seg := Segment.ofHeader secondConnection.remoteIp secondConnection.localIp
      secondConnection.remotePort secondConnection.localPort 1000 (tcpPsh ||| tcpAck) [1, 2]
    twoConnections.sockets 0x1000 = some TcpStack.connection ∧
      twoConnections.sockets 0x2000 = some secondConnection ∧
      TcpStack.connection.localPort ≠ secondConnection.localPort ∧
      seg.dstIp = twoConnections.ip ∧ TcpStack.Belongs secondConnection seg ∧
      twoConnections.handsTo seg = some 0x1000 ∧ ¬TcpStack.Belongs TcpStack.connection seg := by
  decide

end MicroOS
