import MicroOS.Lib.Run
import MicroOS.Net.TcpRecv

/-!
The socket manager of `net/socket_manager.c`, for sockets of type `SOCKET_TCP`.

* `SocketObject`, `Manager`: a `socket_t`, and the manager with its table, over the TCP stack;
* `Manager.connect` and `Manager.connected`: `socket_connect`, parted where `tcp_connect` waits and
  segments arrive;
* `Manager.send`, `Manager.disconnect`, `Manager.arrive`: the other calls, and a segment with the
  callback `socket_tcp_recv`;
* `Transition`, `NoDangling`: the steps of the manager, and the property that a `socket_t` and its
  `tcp_socket_t` outlive each other;
* `no_dangling`: it holds in every run without `socket_disconnect` and without a segment that closes
  the socket it is handed to.

`socket_disconnect` frees the `socket_t` of a `tcp_socket_t` that stays bound until the other side
has answered, and `tcp_ipv4_recv` frees the `tcp_socket_t` of a `socket_t` that stays registered.
-/

namespace MicroOS

open Checked Run

/-- `socket_t` of type `SOCKET_TCP`. -/
structure SocketObject where
  tcpSocket : ℕ
  socketId : ℕ
  receivedData : List UInt8
  deriving DecidableEq, Repr

/-- The socket manager over a stack: the objects that are allocated, the table of registered ones,
null for a free slot, the last id, and the calls of `socket_connect` that wait in `tcp_connect`, as
pairs of their two objects. -/
structure Manager where
  tcp : TcpStack
  objects : ℕ → Option SocketObject
  sockets : List ℕ
  currSocket : ℕ
  connecting : List (ℕ × ℕ)

namespace Manager

/-- `SOCK_OFFSET`. -/
def sockOffset : ℕ := 5

/-- After `tcp_init` and `init_socket_manager`, with an address of the host. -/
def init (ip : UInt32) : Manager :=
  { tcp :=
      { ip, freePort := 1024, binds := [], sockets := fun _ => none, sent := [], received := [] }
    objects := fun _ => none
    sockets := []
    currSocket := sockOffset
    connecting := [] }

/-- A `socket_t` that is not freed. -/
def object (m : Manager) (o : ℕ) : Except TcpFault SocketObject :=
  match m.objects o with
  | some obj => .ok obj
  | none => .error .useAfterFree

/-- Stores a `socket_t`. -/
def setObject (m : Manager) (o : ℕ) (obj : SocketObject) : Manager :=
  { m with objects := Function.update m.objects o (some obj) }

/-- `socket_manager_register`. -/
def register (m : Manager) (o : ℕ) : Manager :=
  { m with sockets := Slots.insert 0 m.sockets o }

/-- `socket_manager_free`. -/
def free (m : Manager) (socketId : ℕ) : Manager :=
  { m with
    sockets := m.sockets.set
      (m.sockets.findIdx fun o => o ≠ 0 ∧ ∃ obj ∈ m.objects o, obj.socketId = socketId) 0 }

/-- `socket_connect` up to the wait of `tcp_connect`, with the addresses that `vmm_alloc` returns
for the two objects. -/
def connect (m : Manager) (o p : ℕ) (ip : UInt32) (port : UInt16) (timeMs : UInt32) :
    Except TcpFault Manager := do
  let obj : SocketObject :=
    { tcpSocket := 0, socketId := m.currSocket + 1, receivedData := [] }
  let tcp ← m.tcp.connect p ip port timeMs
  return { m.setObject o obj with
    tcp
    currSocket := m.currSocket + 1
    connecting := (o, p) :: m.connecting }

/-- The rest of `socket_connect`. -/
def connected (m : Manager) (o p : ℕ) : Except TcpFault Manager := do
  let obj ← m.object o
  let s ← m.tcp.get p
  let m := m.setObject o { obj with tcpSocket := p }
  let m := { m with tcp := m.tcp.set p { s with data := o, recv := true } }
  return { m.register o with connecting := m.connecting.erase (o, p) }

/-- `socket_send`. -/
def send (m : Manager) (o : ℕ) (data : List UInt8) : Except TcpFault Manager := do
  let obj ← m.object o
  let tcp ← m.tcp.send obj.tcpSocket data
  return { m with tcp }

/-- `socket_disconnect`. -/
def disconnect (m : Manager) (o : ℕ) : Except TcpFault Manager := do
  let obj ← m.object o
  let tcp ← m.tcp.disconnect obj.tcpSocket
  let m := { m with tcp }.free obj.socketId
  return { m with objects := Function.update m.objects o none }

/-- `socket_tcp_recv`, for a call of the callback of a socket. -/
def socketTcpRecv (m : Manager) (call : ℕ × List UInt8) : Except TcpFault Manager := do
  let s ← m.tcp.get call.1
  let obj ← m.object s.data
  return m.setObject s.data { obj with receivedData := obj.receivedData ++ call.2 }

/-- A segment arrives, and the callbacks it calls run. -/
def arrive (m : Manager) (seg : Segment) : Except TcpFault Manager := do
  let tcp ← m.tcp.recv seg
  (tcp.received.drop m.tcp.received.length).foldlM socketTcpRecv { m with tcp }

/-! ### Runs -/

/-- What happens to the manager. -/
inductive Event where
  | connect (o p : ℕ) (ip : UInt32) (port : UInt16) (timeMs : UInt32)
  | connected (o p : ℕ)
  | send (o : ℕ) (data : List UInt8)
  | disconnect (o : ℕ)
  | arrive (seg : Segment)

/-- An address that `vmm_alloc` can return: no object lives there. -/
def Fresh (m : Manager) (a : ℕ) : Prop :=
  a ≠ 0 ∧ m.objects a = none ∧ m.tcp.sockets a = none

/-- An event can happen: `vmm_alloc` returns fresh addresses, a wait ends that has begun, and the
calls are made for registered objects. -/
def Allowed (m : Manager) : Event → Prop
  | .connect o p _ _ _ => m.Fresh o ∧ m.Fresh p ∧ o ≠ p
  | .connected o p => (o, p) ∈ m.connecting
  | .send o _ | .disconnect o => o ∈ m.sockets ∧ o ≠ 0
  | .arrive _ => True

/-- What an event does. -/
def step (m : Manager) : Event → Except TcpFault Manager
  | .connect o p ip port timeMs => m.connect o p ip port timeMs
  | .connected o p => m.connected o p
  | .send o data => m.send o data
  | .disconnect o => m.disconnect o
  | .arrive seg => m.arrive seg

/-- A step of the manager. -/
def Transition (m : Manager) (e : Event) (m' : Manager) : Prop := m.Allowed e ∧ m.step e = .ok m'

instance (m : Manager) (a : ℕ) : Decidable (m.Fresh a) := inferInstanceAs (Decidable (_ ∧ _))

instance (m : Manager) (e : Event) : Decidable (m.Allowed e) :=
  match e with
  | .connect .. => inferInstanceAs (Decidable (_ ∧ _))
  | .connected o p => inferInstanceAs (Decidable ((o, p) ∈ m.connecting))
  | .send .. => inferInstanceAs (Decidable (_ ∧ _))
  | .disconnect _ => inferInstanceAs (Decidable (_ ∧ _))
  | .arrive _ => inferInstanceAs (Decidable True)

/-- A `tcp_socket_t` that is bound and not freed. -/
def Bound (m : Manager) (p : ℕ) : Prop :=
  p ≠ 0 ∧ p ∈ m.tcp.binds ∧ ∃ s, m.tcp.sockets p = some s

/-- **No dangling objects**: the `tcp_socket_t` of every registered `socket_t` is bound, and every
bound `tcp_socket_t` with its callback points to a `socket_t` that is not freed. -/
structure NoDangling (m : Manager) : Prop where
  registered : ∀ o ∈ m.sockets, o ≠ 0 → ∃ obj, m.objects o = some obj ∧ m.Bound obj.tcpSocket
  callbacks : ∀ p ∈ m.tcp.binds, p ≠ 0 → ∀ s, m.tcp.sockets p = some s → s.recv = true →
    ∃ obj, m.objects s.data = some obj

/-- An event that ends no object: not `socket_disconnect`, and no segment that closes the socket it
is handed to. -/
def Quiet (m : Manager) : Event → Prop
  | .connect .. | .connected .. | .send .. => True
  | .disconnect _ => False
  | .arrive seg =>
    ∀ p ∈ m.tcp.handsTo seg, ∀ s ∈ m.tcp.sockets p, ¬TcpStack.Closes s seg

instance (m : Manager) (e : Event) : Decidable (m.Quiet e) :=
  match e with
  | .connect .. => inferInstanceAs (Decidable True)
  | .connected .. => inferInstanceAs (Decidable True)
  | .send .. => inferInstanceAs (Decidable True)
  | .disconnect _ => inferInstanceAs (Decidable False)
  | .arrive seg => inferInstanceAs
      (Decidable (∀ p ∈ m.tcp.handsTo seg, ∀ s ∈ m.tcp.sockets p, ¬TcpStack.Closes s seg))

/-! ### What the stack keeps -/

/-- A change of the stack that keeps every socket bound, with its callback and its data, and gives
no other socket a callback. -/
structure Keeps (st st' : TcpStack) : Prop where
  bound : ∀ p ∈ st.binds, p ≠ 0 → ∀ s, st.sockets p = some s →
    p ∈ st'.binds ∧ ∃ s', st'.sockets p = some s'
  callbacks : ∀ p ∈ st'.binds, p ≠ 0 → ∀ s', st'.sockets p = some s' → s'.recv = true →
    p ∈ st.binds ∧ ∃ s, st.sockets p = some s ∧ s.recv = true ∧ s.data = s'.data

variable {m m' : Manager} {st st' u : TcpStack} {o p : ℕ} {seg : Segment}

lemma Keeps.refl (st : TcpStack) : Keeps st st :=
  ⟨fun _ hp _ s hs => ⟨hp, s, hs⟩, fun _ hp _ s hs hrecv => ⟨hp, s, hs, hrecv, rfl⟩⟩

/-- What two steps keep is kept. -/
lemma Keeps.trans (h : Keeps st st') (h' : Keeps st' u) : Keeps st u := by
  refine ⟨fun p hp h0 s hs => ?_, fun p hp h0 s hs hrecv => ?_⟩
  · obtain ⟨hp', s', hs'⟩ := h.bound p hp h0 s hs
    exact h'.bound p hp' h0 s' hs'
  · obtain ⟨hp', s', hs', hrecv', hdata'⟩ := h'.callbacks p hp h0 s hs hrecv
    obtain ⟨hp'', s'', hs'', hrecv'', hdata''⟩ := h.callbacks p hp' h0 s' hs' hrecv'
    exact ⟨hp'', s'', hs'', hrecv'', hdata''.trans hdata'⟩

/-- A change of one socket that leaves its callback and its data alone. -/
lemma keeps_of_socket (hbinds : st'.binds = st.binds)
    (hothers : ∀ q, q ≠ p → st'.sockets q = st.sockets q)
    (hsocket : ∀ s, st.sockets p = some s →
      ∃ s', st'.sockets p = some s' ∧ s'.recv = s.recv ∧ s'.data = s.data)
    (hfreed : st.sockets p = none → st'.sockets p = none) : Keeps st st' := by
  refine ⟨fun q hq _ s hs => ⟨hbinds ▸ hq, ?_⟩, fun q hq _ s' hs' hrecv => ⟨hbinds ▸ hq, ?_⟩⟩
  · by_cases h : q = p
    · subst h
      obtain ⟨s', hs', -⟩ := hsocket s hs
      exact ⟨s', hs'⟩
    · exact ⟨s, (hothers q h).trans hs⟩
  · by_cases h : q = p
    · subst h
      cases hs : st.sockets q with
      | none => exact absurd ((hfreed hs).symm.trans hs') (by simp)
      | some s =>
        obtain ⟨t, ht, hrecvt, hdatat⟩ := hsocket s hs
        obtain rfl := Option.some.inj (ht.symm.trans hs')
        exact ⟨s, rfl, hrecvt ▸ hrecv, hdatat.symm⟩
    · exact ⟨s', (hothers q h).symm.trans hs', hrecv, rfl⟩

/-- What is done to one socket keeps the others. -/
lemma keeps_of_touches (h : TcpStack.Touches p st st') : Keeps st st' := by
  refine keeps_of_socket h.binds h.others (fun s hs => ?_) h.freed
  obtain ⟨s', hs', hsame⟩ := h.socket s hs
  exact ⟨s', hs', hsame.recv, hsame.data⟩

/-- Accepting a connection keeps the sockets. -/
lemma keeps_accept {s : TcpSocket} (hs : st.sockets p = some s) : Keeps st (st.accept seg p) := by
  refine keeps_of_socket TcpStack.accept_binds (fun q hq => TcpStack.accept_sockets_of_ne hq)
    (fun t ht => ?_) fun hnone => absurd (hnone.symm.trans hs) (by simp)
  obtain rfl := Option.some.inj (hs.symm.trans ht)
  exact ⟨_, TcpStack.accept_sockets_self hs, by simp, by simp⟩

/-- `tcp_connect` binds a socket without a callback at a fresh address. -/
lemma keeps_connect {ip : UInt32} {port : UInt16} {timeMs : UInt32} (hp : st.sockets p = none)
    (h : st.connect p ip port timeMs = .ok st') :
    Keeps st st' ∧ p ∈ st'.binds ∧ ∃ s, st'.sockets p = some s := by
  have hself : (st.opened p ip port timeMs).sockets p = some (st.newSocket ip port timeMs) :=
    TcpStack.set_sockets_self
  have htouch := (TcpStack.sendInternal_leaves hself h).touches
  obtain ⟨s', hs', -⟩ := htouch.socket _ hself
  refine ⟨Keeps.trans ?_ (keeps_of_touches htouch), ?_, s', hs'⟩
  · refine ⟨fun q hq h0 s hs => ?_, fun q hq h0 s hs hrecv => ?_⟩
    · have hne : q ≠ p := by
        rintro rfl
        simp [hp] at hs
      exact ⟨Slots.mem_insert_of_mem hq h0, s, (TcpStack.set_sockets_of_ne hne).trans hs⟩
    · by_cases hne : q = p
      · subst hne
        obtain rfl := Option.some.inj (hself.symm.trans hs)
        exact absurd hrecv (by simp [TcpStack.newSocket])
      · rcases Slots.mem_of_mem_insert hq with hqp | hq
        · exact absurd hqp hne
        · exact ⟨hq, s, (TcpStack.set_sockets_of_ne hne).symm.trans hs, hrecv, rfl⟩
  · rw [htouch.binds]
    exact Slots.mem_insert_self

/-- A segment that does not close the socket it is handed to. -/
lemma keeps_recv (hquiet : Quiet m (.arrive seg)) (h : m.tcp.recv seg = .ok st') :
    Keeps m.tcp st' := by
  rcases TcpStack.recv_handled h with rfl | ⟨p, s, hhands, hs, hhandled⟩
  · exact .refl _
  cases hhandled with
  | kept htouch => exact (keeps_accept hs).trans (keeps_of_touches htouch)
  | freed hclosing _ => exact absurd hclosing (hquiet p hhands s hs)

/-! ### The invariant -/

/-- Every object that is allocated stays allocated, with its `tcp_socket_t`. -/
def ObjectsKept (m m' : Manager) : Prop :=
  ∀ o obj, m.objects o = some obj →
    ∃ obj', m'.objects o = some obj' ∧ obj'.tcpSocket = obj.tcpSocket

/-- No dangling objects, also in the calls of `socket_connect` that wait. -/
structure Inv (m : Manager) : Prop extends NoDangling m where
  waiting : ∀ c ∈ m.connecting, (∃ obj, m.objects c.1 = some obj) ∧ m.Bound c.2

/-- A socket stays in the table while the sockets are kept. -/
lemma Bound.keeps (h : m.Bound p) (hkeeps : Keeps m.tcp m'.tcp) : m'.Bound p := by
  obtain ⟨h0, hp, s, hs⟩ := h
  exact ⟨h0, hkeeps.bound p hp h0 s hs⟩

/-- A change that keeps all objects keeps the invariant. -/
lemma Inv.of_keeps (h : Inv m) (hkeeps : Keeps m.tcp m'.tcp) (hobjects : ObjectsKept m m')
    (hsockets : m'.sockets = m.sockets)
    (hwaiting : ∀ c ∈ m'.connecting, c ∈ m.connecting ∨
      ((∃ obj, m'.objects c.1 = some obj) ∧ m'.Bound c.2)) : Inv m' := by
  refine ⟨⟨fun o ho h0 => ?_, fun p hp h0 s hs hrecv => ?_⟩, fun c hc => ?_⟩
  · obtain ⟨obj, hobj, hbound⟩ := h.registered o (hsockets ▸ ho) h0
    obtain ⟨obj', hobj', hsame⟩ := hobjects o obj hobj
    exact ⟨obj', hobj', hsame ▸ hbound.keeps hkeeps⟩
  · obtain ⟨hp', s', hs', hrecv', hdata⟩ := hkeeps.callbacks p hp h0 s hs hrecv
    obtain ⟨obj, hobj⟩ := h.callbacks p hp' h0 s' hs' hrecv'
    obtain ⟨obj', hobj', -⟩ := hobjects _ obj hobj
    exact ⟨obj', hdata ▸ hobj'⟩
  · rcases hwaiting c hc with hold | hnew
    · obtain ⟨⟨obj, hobj⟩, hbound⟩ := h.waiting c hold
      obtain ⟨obj', hobj', -⟩ := hobjects _ obj hobj
      exact ⟨⟨obj', hobj'⟩, hbound.keeps hkeeps⟩
    · exact hnew

/-- An object that is there is found. -/
lemma object_eq_ok {obj : SocketObject} : m.object o = .ok obj ↔ m.objects o = some obj := by
  rw [object]
  cases m.objects o with
  | none => simp
  | some t => simp

/-! ### The steps -/

lemma objectsKept_refl (m : Manager) : ObjectsKept m m := fun _ obj h => ⟨obj, h, rfl⟩

/-- A new object at a fresh address, or a change that leaves the `tcp_socket_t` alone. -/
lemma objectsKept_set {obj : SocketObject}
    (h : ∀ old, m.objects o = some old → obj.tcpSocket = old.tcpSocket) :
    ObjectsKept m (m.setObject o obj) := by
  intro q old hold
  by_cases hq : q = o
  · subst hq
    exact ⟨obj, Function.update_self _ _ _, h old hold⟩
  · exact ⟨old, (Function.update_of_ne hq _ _).trans hold, rfl⟩

/-- **A connection** keeps the invariant. -/
lemma inv_connect {ip : UInt32} {port : UInt16} {timeMs : UInt32} (hinv : Inv m)
    (ho : m.Fresh o) (hp : m.Fresh p) (h : m.connect o p ip port timeMs = .ok m') : Inv m' := by
  rw [connect, bind_eq_ok] at h
  obtain ⟨tcp, htcp, h⟩ := h
  obtain rfl := Except.ok.inj h
  obtain ⟨hkeeps, hbound, hs⟩ := keeps_connect hp.2.2 htcp
  refine hinv.of_keeps hkeeps ?_ rfl fun c hc => ?_
  · exact objectsKept_set fun old hold => absurd (ho.2.1.symm.trans hold) (by simp)
  · rcases List.mem_cons.mp hc with rfl | hc
    · exact .inr ⟨⟨_, Function.update_self _ _ _⟩, hp.1, hbound, hs⟩
    · exact .inl hc

/-- **Sending** keeps the invariant. -/
lemma inv_send {data : List UInt8} (hinv : Inv m) (h : m.send o data = .ok m') : Inv m' := by
  rw [send, bind_eq_ok] at h
  obtain ⟨obj, -, h⟩ := h
  rw [bind_eq_ok] at h
  obtain ⟨tcp, htcp, h⟩ := h
  obtain rfl := Except.ok.inj h
  have hkeeps : Keeps m.tcp tcp := by
    have hsend := htcp
    rw [TcpStack.send, TcpStack.sendInternal, bind_eq_ok] at hsend
    obtain ⟨s, hs, -⟩ := hsend
    exact keeps_of_touches (TcpStack.sendInternal_leaves (TcpStack.get_eq_ok.mp hs) htcp).touches
  exact hinv.of_keeps hkeeps (objectsKept_refl m) rfl fun _ hc => .inl hc

/-- The second half of `socket_connect` ties the two objects together. -/
lemma inv_connected (hinv : Inv m) (hwait : (o, p) ∈ m.connecting)
    (h : m.connected o p = .ok m') : Inv m' := by
  obtain ⟨-, h0, hp, -⟩ := hinv.waiting _ hwait
  rw [connected, bind_eq_ok] at h
  obtain ⟨obj, -, h⟩ := h
  rw [bind_eq_ok] at h
  obtain ⟨s, hs, h⟩ := h
  obtain rfl := Except.ok.inj h
  have hbound : ∀ q, m.Bound q →
      q ≠ 0 ∧ q ∈ m.tcp.binds ∧
        ∃ t, (m.tcp.set p { s with data := o, recv := true }).sockets q = some t := by
    rintro q ⟨hq0, hq, t, ht⟩
    by_cases hqp : q = p
    · subst hqp
      exact ⟨hq0, hq, _, TcpStack.set_sockets_self⟩
    · exact ⟨hq0, hq, t, (TcpStack.set_sockets_of_ne hqp).trans ht⟩
  have hself : Function.update m.objects o (some { obj with tcpSocket := p }) o =
      some { obj with tcpSocket := p } := Function.update_self _ _ _
  have hobject : ∀ q, (∃ old, m.objects q = some old) →
      ∃ new, Function.update m.objects o (some { obj with tcpSocket := p }) q = some new := by
    rintro q ⟨old, hold⟩
    by_cases hqo : q = o
    · exact ⟨_, by rw [hqo, hself]⟩
    · exact ⟨old, (Function.update_of_ne hqo _ _).trans hold⟩
  refine ⟨⟨fun q hq hq0 => ?_, fun q hq hq0 t ht hrecv => ?_⟩, fun c hc => ?_⟩
  · by_cases hqo : q = o
    · subst hqo
      exact ⟨_, hself, h0, hp, _, TcpStack.set_sockets_self⟩
    · obtain ⟨old, hold, holdbound⟩ := hinv.registered q
        ((Slots.mem_of_mem_insert hq).resolve_left hqo) hq0
      exact ⟨old, (Function.update_of_ne hqo _ _).trans hold, hbound _ holdbound⟩
  · by_cases hqp : q = p
    · subst hqp
      obtain rfl := Option.some.inj (TcpStack.set_sockets_self.symm.trans ht)
      exact ⟨_, hself⟩
    · exact hobject _ (hinv.callbacks q hq hq0 t
        ((TcpStack.set_sockets_of_ne hqp).symm.trans ht) hrecv)
  · obtain ⟨hold, holdbound⟩ := hinv.waiting c (List.mem_of_mem_erase hc)
    exact ⟨hobject _ hold, hbound _ holdbound⟩

/-- `socket_tcp_recv` only fills the buffer of an object. -/
lemma inv_socketTcpRecv {call : ℕ × List UInt8} (hinv : Inv m)
    (h : m.socketTcpRecv call = .ok m') : Inv m' := by
  rw [socketTcpRecv, bind_eq_ok] at h
  obtain ⟨s, -, h⟩ := h
  rw [bind_eq_ok] at h
  obtain ⟨obj, hobj, h⟩ := h
  obtain rfl := Except.ok.inj h
  refine hinv.of_keeps (.refl _) (objectsKept_set fun old hold => ?_) rfl fun _ hc => .inl hc
  obtain rfl := Option.some.inj ((object_eq_ok.mp hobj).symm.trans hold)
  rfl

/-- **A segment** keeps the invariant, when it is quiet. -/
lemma inv_arrive (hinv : Inv m) (hquiet : Quiet m (.arrive seg)) (h : m.arrive seg = .ok m') :
    Inv m' := by
  rw [arrive, bind_eq_ok] at h
  obtain ⟨tcp, htcp, h⟩ := h
  have hfirst : Inv { m with tcp } :=
    hinv.of_keeps (keeps_recv hquiet htcp) (objectsKept_refl m) rfl fun _ hc => .inl hc
  exact foldlM_rule Inv (fun _ _ _ _ hi hcall => inv_socketTcpRecv hi hcall) hfirst h

/-- **A quiet step keeps the invariant.** -/
lemma inv_transition {e : Event} (hinv : Inv m) (hquiet : Quiet m e) (h : Transition m e m') :
    Inv m' := by
  obtain ⟨hallowed, hstep⟩ := h
  cases e with
  | connect o p ip port timeMs => exact inv_connect hinv hallowed.1 hallowed.2.1 hstep
  | connected o p => exact inv_connected hinv hallowed hstep
  | send o data => exact inv_send hinv hstep
  | disconnect o => exact absurd hquiet id
  | arrive seg => exact inv_arrive hinv hquiet hstep

lemma inv_init (ip : UInt32) : Inv (init ip) :=
  ⟨⟨fun _ h => absurd h List.not_mem_nil, fun _ h => absurd h List.not_mem_nil⟩,
    fun _ h => absurd h List.not_mem_nil⟩

/-- The initial states. -/
def Initial (m : Manager) : Prop := ∃ ip, m = init ip

/-- A step by an event that meets a condition. -/
def StepOf (C : Manager → Event → Prop) (m m' : Manager) : Prop := ∃ e, C m e ∧ Transition m e m'

/-- A step. -/
def Step : Manager → Manager → Prop := StepOf fun _ _ => True

/-- **No object dangles** in a run whose steps end no object. -/
theorem no_dangling (h : Reachable Initial (StepOf Quiet) m) : NoDangling m := by
  refine (h.invariant Inv ?_ ?_).toNoDangling
  · rintro _ ⟨ip, rfl⟩
    exact inv_init ip
  · rintro m m' hinv ⟨e, hquiet, hstep⟩
    exact inv_transition hinv hquiet hstep

/-! ### Runs along a list of events -/

/-- The run along a list of events, as long as they can happen and meet a condition. -/
def exec (C : Manager → Event → Prop) [∀ m e, Decidable (C m e)] (m : Manager) :
    List Event → Option Manager
  | [] => some m
  | e :: es =>
    if C m e ∧ m.Allowed e then
      match m.step e with
      | .ok m' => m'.exec C es
      | .error _ => none
    else none

/-- What is executed is a run. -/
lemma exec_reachable {C : Manager → Event → Prop} [∀ m e, Decidable (C m e)] {es : List Event}
    (hm : Reachable Initial (StepOf C) m) (h : m.exec C es = some m') :
    Reachable Initial (StepOf C) m' := by
  induction es generalizing m with
  | nil => exact Option.some.inj h ▸ hm
  | cons e es ih =>
    rw [exec] at h
    split_ifs at h with he
    cases hstep : m.step e with
    | error f => simp [hstep] at h
    | ok u =>
      rw [hstep] at h
      exact ih (hm.next ⟨e, he.1, he.2, hstep⟩) h

/-- A connection to port 80 of `10.0.2.2` is made and established. -/
def connectEvents : List Event :=
  [.connect 0x1000 0x2000 0x0202000a 80 7,
    .arrive (.ofHeader 0x0202000a 0x0f02000a (bswap16 80) (bswap16 1024) 999 (tcpSyn ||| tcpAck)
      []),
    .connected 0x1000 0x2000]

/-- After a connection is made nothing dangles. -/
theorem no_dangling_connected :
    ∃ m, (init 0x0f02000a).exec Quiet connectEvents = some m ∧ m.sockets = [0x1000] ∧
      m.tcp.binds = [0x2000] ∧ NoDangling m := by
  have hrun : ((init 0x0f02000a).exec Quiet connectEvents).map
      (fun m => (m.sockets, m.tcp.binds)) = some ([0x1000], [0x2000]) := by
    decide +kernel
  obtain ⟨m, hm, htables⟩ := Option.map_eq_some_iff.mp hrun
  obtain ⟨hsockets, hbinds⟩ := Prod.mk.inj htables
  exact ⟨m, hm, hsockets, hbinds,
    no_dangling (exec_reachable (.start ⟨0x0f02000a, rfl⟩) hm)⟩

/-- The socket is disconnected: what it points to is freed and it stays bound. -/
def disconnectEvents : List Event := connectEvents ++ [.disconnect 0x1000]

/-- The other side closes the connection, with `FIN` and `ACK`. -/
def remoteCloseEvents : List Event :=
  connectEvents ++
    [.arrive (.ofHeader 0x0202000a 0x0f02000a (bswap16 80) (bswap16 1024) 1000 (tcpFin ||| tcpAck)
      []),
    .arrive (.ofHeader 0x0202000a 0x0f02000a (bswap16 80) (bswap16 1024) 1001 tcpAck [])]

/-- **Both objects can dangle**: after `socket_disconnect` a bound socket points to a freed object,
and after the other side has closed the connection a registered object points to a freed socket. -/
theorem objects_dangle :
    (∃ m, (init 0x0f02000a).exec (fun _ _ => True) disconnectEvents = some m ∧
      Reachable Initial Step m ∧ ¬NoDangling m) ∧
    (∃ m, (init 0x0f02000a).exec (fun _ _ => True) remoteCloseEvents = some m ∧
      Reachable Initial Step m ∧ ¬NoDangling m) := by
  constructor
  · have hrun : ((init 0x0f02000a).exec (fun _ _ => True) disconnectEvents).map
        (fun m => (m.tcp.binds, (m.tcp.sockets 0x2000).map fun s => (s.recv, s.data),
          m.objects 0x1000)) = some ([0x2000], some (true, 0x1000), none) := by
      decide +kernel
    obtain ⟨m, hm, hvalues⟩ := Option.map_eq_some_iff.mp hrun
    obtain ⟨hbinds, hvalues⟩ := Prod.mk.inj hvalues
    obtain ⟨hsocket, hobject⟩ := Prod.mk.inj hvalues
    obtain ⟨s, hs, hdata⟩ := Option.map_eq_some_iff.mp hsocket
    obtain ⟨hrecv, hdata⟩ := Prod.mk.inj hdata
    refine ⟨m, hm, exec_reachable (.start ⟨_, rfl⟩) hm, fun h => ?_⟩
    obtain ⟨obj, hobj⟩ := h.callbacks 0x2000 (by simp [hbinds]) (by decide) s hs hrecv
    rw [hdata, hobject] at hobj
    cases hobj
  · have hrun : ((init 0x0f02000a).exec (fun _ _ => True) remoteCloseEvents).map
        (fun m => (m.sockets, (m.objects 0x1000).map SocketObject.tcpSocket,
          m.tcp.sockets 0x2000)) = some ([0x1000], some 0x2000, none) := by
      decide +kernel
    obtain ⟨m, hm, hvalues⟩ := Option.map_eq_some_iff.mp hrun
    obtain ⟨hsockets, hvalues⟩ := Prod.mk.inj hvalues
    obtain ⟨hobject, hfreed⟩ := Prod.mk.inj hvalues
    obtain ⟨obj, hobj, htcp⟩ := Option.map_eq_some_iff.mp hobject
    refine ⟨m, hm, exec_reachable (.start ⟨_, rfl⟩) hm, fun h => ?_⟩
    obtain ⟨obj', hobj', -, -, s, hs⟩ := h.registered 0x1000 (by simp [hsockets]) (by decide)
    obtain rfl := Option.some.inj (hobj.symm.trans hobj')
    rw [htcp, hfreed] at hs
    cases hs

end Manager

end MicroOS
