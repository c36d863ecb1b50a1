import MicroOS.Memory.VmmArray
import MicroOS.Net.SocketBuffer

/-!
The pages of the receive buffers of `net/socket_manager.c`, with `socket_disconnect`.

* `ReceiveBuffer.receiveCalls`, `ReceiveBuffer.disconnectCalls`: the calls of `vmm_alloc` and
  `vmm_free` for a receive buffer, by `reserve_calls` and `disconnect_calls`;
* `SocketLedger`: the runs of `SocketRun` with disconnects and with the calls for each buffer;
* `SocketLedger.Balanced`: no page is given back that a buffer does not hold, and a disconnected
  socket has given all back;
* `receive_buffers_balanced`: so it is when no call of `socket_recv` changes the count of pages;
* `drained_page_lost`: a page that is never given back.

The pages of the `socket_t` and of the protocol's socket are not those of the buffer.
-/

namespace MicroOS

open ByteMem ByteImage Checked Run Ledger

/-! ### Calls -/

namespace ReceiveBuffer

/-- The calls for a buffer that gets pages for `size` more bytes at `ptr`. -/
def receiveCalls (b : ReceiveBuffer) (size ptr : ℕ) : List PageCall :=
  if b.receivedData = 0 then [.alloc ptr (toPages size)]
  else [.alloc ptr (toPages (size + b.numBytesReceived)),
    .free b.receivedData (toPages b.numBytesReceived)]

/-- The call of `socket_disconnect` for the buffer. -/
def disconnectCalls (b : ReceiveBuffer) : List PageCall :=
  [.free b.receivedData (toPages b.numBytesReceived)]

/-- The pages that the count of bytes stands for. -/
def pages (b : ReceiveBuffer) : Multiset ℕ :=
  pageFrames b.receivedData (toPages b.numBytesReceived)

end ReceiveBuffer

/-- **The calls of a delivery** lead from the kernel before it to the one after it. -/
theorem reserve_calls {k k' : Kernel} {bytes bytes' : Mem} {b : ReceiveBuffer} {size p : ℕ}
    (h : reserve k bytes b size = .ok (k', bytes', p)) :
    Trace PageCall.Does k (b.receiveCalls size p) k' := by
  rw [reserve] at h
  rw [ReceiveBuffer.receiveCalls]
  split_ifs at h ⊢ with hptr
  · rw [bind_eq_ok] at h
    obtain ⟨⟨k₁, p₁⟩, halloc, hret⟩ := h
    obtain ⟨rfl, hrest⟩ := Prod.mk.inj (Except.ok.inj hret)
    obtain ⟨rfl, rfl⟩ := Prod.mk.inj hrest
    exact Trace.nil.snoc halloc
  · rw [bind_eq_ok] at h
    obtain ⟨⟨k₁, p₁⟩, halloc, h⟩ := h
    rw [bind_eq_ok] at h
    obtain ⟨k₂, hfree, hret⟩ := h
    obtain ⟨rfl, hrest⟩ := Prod.mk.inj (Except.ok.inj hret)
    obtain ⟨rfl, rfl⟩ := Prod.mk.inj hrest
    exact (Trace.nil.snoc halloc).snoc hfree

/-! ### Runs -/

/-- The sockets, with the calls that were made for the buffer of each and whether it is
disconnected. -/
structure SocketLedger where
  run : SocketRun
  calls : ℕ → List PageCall
  closed : ℕ → Bool

/-- A socket is disconnected, or what happens to the others and to the rest of the kernel. -/
inductive LedgerEvent where
  | socket (e : SocketEvent)
  | disconnect (n : ℕ)

/-- `socket_disconnect`, for the receive buffer. -/
def SocketBuffers.disconnect (s : SocketBuffers) (n : ℕ) : Except Halt SocketBuffers := do
  let b := s.sockets n
  let kernel ← vmmFree s.kernel b.receivedData (toPages b.numBytesReceived)
  return { s with kernel, sockets := Function.update s.sockets n ⟨0, 0⟩ }

/-- The call of `socket_disconnect` leads from the kernel before it to the one after it. -/
theorem disconnect_calls {s s' : SocketBuffers} {n : ℕ} (h : s.disconnect n = .ok s') :
    Trace PageCall.Does s.kernel (s.sockets n).disconnectCalls s'.kernel := by
  rw [SocketBuffers.disconnect, bind_eq_ok] at h
  obtain ⟨k, hfree, hret⟩ := h
  obtain rfl := Except.ok.inj hret
  exact Trace.nil.snoc hfree

namespace SocketLedger

/-- The calls of an event for the buffer of a socket, given the buffers after it. -/
def eventCalls (l : SocketLedger) (after : SocketBuffers) : SocketEvent → ℕ → List PageCall
  | .udp n data | .tcp n data => Function.update (fun _ => []) n
      ((l.run.buffers.sockets n).receiveCalls data.length (after.sockets n).receivedData)
  | .recv .. | .other .. => fun _ => []

/-- What an event does. A disconnected socket is gone, with what was delivered to it. -/
def step (l : SocketLedger) : LedgerEvent → Except Halt SocketLedger
  | .socket e => do
      let run ← l.run.step e
      return { l with run, calls := fun n => l.calls n ++ l.eventCalls run.buffers e n }
  | .disconnect n => do
      let buffers ← l.run.buffers.disconnect n
      return {
        run := ⟨buffers, Function.update l.run.delivered n [], Function.update l.run.returned n []⟩
        calls := Function.update l.calls n
          (l.calls n ++ (l.run.buffers.sockets n).disconnectCalls)
        closed := Function.update l.closed n true }

/-- An event can happen: at least a byte is delivered, and nothing happens to a socket that is
disconnected. -/
def Allowed (lo : ℕ) (l : SocketLedger) : LedgerEvent → Prop
  | .socket e => l.run.Allowed lo e ∧ match e with
      | .udp n data | .tcp n data => data ≠ [] ∧ l.closed n = false
      | .recv n _ => l.closed n = false
      | .other .. => True
  | .disconnect n => l.closed n = false

/-- A delivery finds its pages, and a call of `socket_recv` leaves the count of pages as it is. -/
def Keeps (l : SocketLedger) : LedgerEvent → Prop
  | .socket (.recv n size) =>
    let num := (l.run.buffers.sockets n).numBytesReceived
    toPages (num - min size num) = toPages num
  | .socket e => l.run.Room e
  | .disconnect _ => True

/-- A step of a run by an event that meets a condition. -/
def StepOf (lo : ℕ) (C : SocketLedger → LedgerEvent → Prop) (l l' : SocketLedger) : Prop :=
  ∃ e, C l e ∧ l.Allowed lo e ∧ l.step e = .ok l'

/-- Sockets that are connected and have received nothing. -/
structure Opened (lo : ℕ) (l : SocketLedger) : Prop where
  run : SocketRun.Opened lo l.run
  calls : ∀ n, l.calls n = []
  closed : ∀ n, l.closed n = false

/-- **No page is lost**: at no time was a page passed to `vmm_free` more often than it had been
handed out for the buffer, and for a disconnected socket it was as often. -/
def Balanced (l : SocketLedger) : Prop :=
  ∀ n, Sound ((l.calls n).map PageCall.entry) ∧
    (l.closed n = true →
      given ((l.calls n).map PageCall.entry) = taken ((l.calls n).map PageCall.entry))

/-! ### The invariant -/

/-- **The buffers hold what was handed out for them.** -/
structure Kept (lo : ℕ) (l : SocketLedger) : Prop where
  queued : SocketRun.Queued lo l.run
  ledger : ∀ n, Open ((l.calls n).map PageCall.entry) (l.run.buffers.sockets n).pages
  closed : ∀ n, l.closed n = true → l.run.buffers.sockets n = ⟨0, 0⟩

variable {lo n : ℕ} {l l' : SocketLedger}

/-- At the start nothing was taken. -/
lemma Kept.of_opened (h : Opened lo l) : Kept lo l := by
  refine ⟨.of_opened h.run, fun n => ?_, fun n hn => ?_⟩
  · rw [h.calls, h.run.sockets]
    exact Open.nil
  · rw [h.closed] at hn
    cases hn

/-- What was handed out and given back for a buffer that got pages for more bytes. -/
lemma open_receiveCalls {k k' : Kernel} {bytes bytes' : Mem} {b : ReceiveBuffer} {size p : ℕ}
    {entries : List (Entry ℕ)} (hopen : Open entries b.pages) (hheld : b.Held lo k)
    (hsize : 0 < size) (hres : Reserved lo k bytes b size k' bytes' p) :
    Open (entries ++ (b.receiveCalls size p).map PageCall.entry)
      (ReceiveBuffer.pages ⟨b.numBytesReceived + size, p⟩) := by
  have hptr : p ≠ 0 := (hres.held.buffer (by dsimp only; omega)).1
  rw [ReceiveBuffer.receiveCalls]
  split_ifs with hnull
  · have hnum : b.numBytesReceived = 0 := by
      by_contra hne
      exact (hheld.buffer hne).1 hnull
    have htake := hopen.take (pageFrames p (toPages size))
    rw [ReceiveBuffer.pages, hnum, show toPages 0 = 0 from rfl, pageFrames_zero, zero_add] at htake
    rw [ReceiveBuffer.pages, hnum, Nat.zero_add, List.map_singleton, PageCall.entry, if_neg hptr]
    exact htake
  · have hgive := (hopen.take (pageFrames p (toPages (size + b.numBytesReceived)))).give
    rw [ReceiveBuffer.pages, Nat.add_comm b.numBytesReceived]
    rw [List.append_assoc] at hgive
    rw [List.map_cons, List.map_singleton, PageCall.entry, PageCall.entry, if_neg hptr]
    exact hgive

/-- Bytes are delivered. -/
lemma Kept.receive {data : List UInt8} {s : SocketBuffers} {e : SocketEvent} (h : Kept lo l)
    (hdata : data ≠ []) (hclosed : l.closed n = false) (hroom : l.run.RoomFor n data.length)
    (hcalls : l.eventCalls s e = Function.update (fun _ => []) n
      ((l.run.buffers.sockets n).receiveCalls data.length (s.sockets n).receivedData))
    (hstep : l.run.buffers.receive n data = .ok s) :
    Kept lo { l with run := l.run.deliver n data s,
                     calls := fun m => l.calls m ++ l.eventCalls s e m } := by
  obtain ⟨bytes, p, hreserve, -, hsockets⟩ := SocketRun.receive_eq_ok hstep
  have hres := reserve_reserved h.queued.inv h.queued.zero (h.queued.held n) hroom.1 hroom.2
    hreserve
  have hself : s.sockets n = ⟨(l.run.buffers.sockets n).numBytesReceived + data.length, p⟩ := by
    rw [hsockets, Function.update_self]
  have hother : ∀ m, m ≠ n → s.sockets m = l.run.buffers.sockets m := fun m hm => by
    rw [hsockets, Function.update_of_ne hm]
  refine ⟨h.queued.receive hroom hstep, fun m => ?_, fun m hm => ?_⟩
  · change Open ((l.calls m ++ l.eventCalls s e m).map PageCall.entry) (s.sockets m).pages
    rw [hcalls, List.map_append]
    by_cases hm : m = n
    · subst hm
      rw [Function.update_self, hself]
      exact open_receiveCalls (h.ledger m) (h.queued.held m) (List.length_pos_iff.mpr hdata) hres
    · rw [Function.update_of_ne hm, hother m hm, List.map_nil, List.append_nil]
      exact h.ledger m
  · refine (hother m ?_).trans (h.closed m hm)
    rintro rfl
    exact absurd (hclosed.symm.trans hm) (by decide)

/-- A call of `socket_recv` changes one buffer, by its count of bytes. -/
lemma sockets_socketRecv (s : SocketBuffers) (n size m : ℕ) :
    (s.socketRecv n size).1.sockets m = if m = n then
      ⟨(s.sockets n).numBytesReceived - min size (s.sockets n).numBytesReceived,
        (s.sockets n).receivedData⟩ else s.sockets m := by
  by_cases hne : (s.sockets n).numBytesReceived = 0
  · rw [SocketBuffers.socketRecv, if_neg (not_not.mpr hne), hne, Nat.zero_sub, ← hne]
    split_ifs with hm
    · rw [hm]
    · rfl
  · obtain ⟨c, rfl, -, -, -, hsockets⟩ := SocketRun.socketRecv_spec size hne
    rw [hsockets, Function.update_apply]

/-- A socket is disconnected. -/
lemma Kept.disconnect {s : SocketBuffers} (h : Kept lo l)
    (hstep : l.run.buffers.disconnect n = .ok s) :
    Kept lo ⟨⟨s, Function.update l.run.delivered n [], Function.update l.run.returned n []⟩,
      Function.update l.calls n (l.calls n ++ (l.run.buffers.sockets n).disconnectCalls),
      Function.update l.closed n true⟩ := by
  rw [SocketBuffers.disconnect, bind_eq_ok] at hstep
  obtain ⟨k, hfree, hret⟩ := hstep
  obtain rfl := Except.ok.inj hret
  obtain ⟨hinv, hused⟩ := (h.queued.held n).vmmFree h.queued.inv hfree
  have hempty : ReceiveBuffer.Held lo k ⟨0, 0⟩ := ⟨Nat.zero_le _, fun hne => absurd rfl hne⟩
  refine ⟨h.queued.update n rfl hinv hused hempty (fun f hf => absurd rfl hf.1) (fun _ _ _ => rfl)
    ⟨[], rfl, holds_nil, rfl⟩, fun m => ?_, fun m hm => ?_⟩
  · by_cases hm : m = n
    · subst hm
      dsimp only
      rw [Function.update_self, Function.update_self, ReceiveBuffer.disconnectCalls,
        List.map_append, List.map_singleton]
      have hledger := h.ledger m
      rw [← add_zero (ReceiveBuffer.pages _)] at hledger
      exact hledger.give
    · dsimp only
      rw [Function.update_of_ne hm, Function.update_of_ne hm]
      exact h.ledger m
  · by_cases hmn : m = n
    · subst hmn
      exact Function.update_self ..
    · dsimp only at hm ⊢
      rw [Function.update_of_ne hmn] at hm ⊢
      exact h.closed m hm

/-- **The step lemma.** -/
lemma Kept.step {e : LedgerEvent} (h : Kept lo l) (hkeeps : l.Keeps e) (hallowed : l.Allowed lo e)
    (hstep : l.step e = .ok l') : Kept lo l' := by
  cases e with
  | socket e =>
    obtain ⟨run, hrun, hret⟩ := bind_eq_ok.mp hstep
    obtain rfl := Except.ok.inj hret
    cases e with
    | udp n data =>
      obtain ⟨s, hrecv, hret⟩ := bind_eq_ok.mp hrun
      obtain rfl := Except.ok.inj hret
      exact h.receive hallowed.2.1 hallowed.2.2 hkeeps rfl hrecv
    | tcp n data =>
      obtain ⟨s, hrecv, hret⟩ := bind_eq_ok.mp hrun
      obtain rfl := Except.ok.inj hret
      exact h.receive hallowed.2.1 hallowed.2.2 hkeeps rfl hrecv
    | recv n size =>
      have hqueued : SocketRun.Queued lo run :=
        h.queued.step (e := .recv n size) trivial hallowed.1 hrun
      have hbuffers : run.buffers = (l.run.buffers.socketRecv n size).1 :=
        congrArg SocketRun.buffers (Except.ok.inj hrun).symm
      refine ⟨hqueued, fun m => ?_, fun m hm => ?_⟩
      · dsimp only [eventCalls]
        rw [List.append_nil, hbuffers, sockets_socketRecv]
        split_ifs with hmn
        · rw [ReceiveBuffer.pages, show toPages _ = toPages _ from hkeeps, hmn]
          exact h.ledger n
        · exact h.ledger m
      · have hmn : m ≠ n := by
          rintro rfl
          exact absurd (hallowed.2.symm.trans hm) (by decide)
        dsimp only
        rw [hbuffers, sockets_socketRecv, if_neg hmn]
        exact h.closed m hm
    | other kernel bytes =>
      have hqueued : SocketRun.Queued lo run :=
        h.queued.step (e := .other kernel bytes) trivial hallowed.1 hrun
      obtain rfl := Except.ok.inj hrun
      refine ⟨hqueued, fun m => ?_, h.closed⟩
      dsimp only [eventCalls]
      rw [List.append_nil]
      exact h.ledger m
  | disconnect n =>
    obtain ⟨s, hdisconnect, hret⟩ := bind_eq_ok.mp hstep
    obtain rfl := Except.ok.inj hret
    exact h.disconnect hdisconnect

/-- The invariant says that pages are balanced. -/
lemma Kept.balanced (h : Kept lo l) : l.Balanced := by
  refine fun n => ⟨(h.ledger n).sound, fun hn => ?_⟩
  have hledger := h.ledger n
  rw [h.closed n hn] at hledger
  exact hledger.balanced

end SocketLedger

open SocketLedger in
/-- **Receive buffers are not leaked** in runs in which each delivery finds the pages it asks for
and no call of `socket_recv` changes the count of pages that the bytes take. -/
theorem receive_buffers_balanced {lo : ℕ} {l : SocketLedger}
    (h : Reachable (Opened lo) (StepOf lo SocketLedger.Keeps) l) : l.Balanced := by
  have hkept : Kept lo l := h.invariant (Kept lo) (fun _ => Kept.of_opened)
    fun _ _ hl ⟨_, hkeeps, hallowed, hstep⟩ => hl.step hkeeps hallowed hstep
  exact hkept.balanced

/-! ### A machine -/

namespace SocketLedger

/-- The sockets of a kernel, before anything is delivered. -/
def connected (k : Kernel) : SocketLedger := ⟨openedSockets k, fun _ => [], fun _ => false⟩

lemma connected_opened {lo : ℕ} {k : Kernel} (hinv : KernelInv lo k) (hzero : k.pmm.Used 0) :
    Opened lo (connected k) := ⟨openedSockets_opened hinv hzero, fun _ => rfl, fun _ => rfl⟩

/-- A byte is delivered to the first socket. -/
lemma step_first {k k' : Kernel} {ptr : ℕ} (halloc : vmmAlloc k 1 = .ok (k', ptr)) :
    ∃ l, (connected k).step (.socket (.udp 0 [65])) = .ok l ∧ l.calls 0 = [.alloc ptr 1] ∧
      l.closed 0 = false ∧ l.run.buffers.sockets 0 = ⟨1, ptr⟩ := by
  have hrun := SocketRun.step_udp_empty (r := openedSockets k) (n := 0)
    rfl (show vmmAlloc k (toPages [65].length) = _ from halloc)
  exact ⟨_, bind_eq_ok.mpr ⟨_, hrun, rfl⟩, rfl, rfl, rfl⟩

/-- The byte is taken. -/
lemma step_drained {l : SocketLedger} {ptr : ℕ} (hsocket : l.run.buffers.sockets 0 = ⟨1, ptr⟩) :
    ∃ l', l.step (.socket (.recv 0 1)) = .ok l' ∧ l'.calls 0 = l.calls 0 ∧
      l'.closed 0 = l.closed 0 ∧ l'.run.buffers.sockets 0 = ⟨0, ptr⟩ := by
  refine ⟨_, rfl, List.append_nil _, rfl, ?_⟩
  exact (sockets_socketRecv l.run.buffers 0 1 0).trans (by rw [if_pos rfl, hsocket]; rfl)

/-- The first socket is disconnected. -/
lemma step_disconnect {l : SocketLedger} {f num : ℕ}
    (hsocket : l.run.buffers.sockets 0 = ⟨num, f * 0x1000⟩)
    (hroom : f + (toInt (toPages num)).toNat ≤ frameCount) :
    ∃ l', l.step (.disconnect 0) = .ok l' ∧ l'.closed 0 = true ∧
      l'.calls 0 = l.calls 0 ++ [.free (f * 0x1000) (toPages num)] := by
  obtain ⟨k, hfree⟩ := vmmFree_returns l.run.buffers.kernel hroom
  have hbuffers : l.run.buffers.disconnect 0 = .ok { l.run.buffers with
      kernel := k, sockets := Function.update l.run.buffers.sockets 0 ⟨0, 0⟩ } := by
    rw [SocketBuffers.disconnect, hsocket]
    exact bind_eq_ok.mpr ⟨k, hfree, rfl⟩
  refine ⟨_, bind_eq_ok.mpr ⟨_, hbuffers, rfl⟩, rfl, ?_⟩
  dsimp only
  rw [Function.update_self, hsocket]
  rfl

end SocketLedger

open SocketLedger in
/-- A byte is delivered and the socket disconnected: its page is given back. -/
theorem receive_buffers_balanced_machine : ∃ l ptr,
    Reachable (Opened bootLayout.poolFrame) (StepOf bootLayout.poolFrame SocketLedger.Keeps) l ∧
      l.calls 0 = [.alloc ptr 1, .free ptr 1] ∧ l.Balanced := by
  obtain ⟨k, k', f, hinv, hzero, hpage, halloc, hf, -⟩ := first_page
  obtain ⟨l, hstep, hcalls, hclosed, hsocket⟩ := step_first halloc
  obtain ⟨l', hstep', -, hcalls'⟩ := step_disconnect hsocket hf
  have hpage : ∃ g, k.pmm.FreeRun g (toPages (1 + 0)) := hpage
  have hroom : (connected k).Keeps (.socket (.udp 0 [65])) :=
    ⟨by norm_num [connected, openedSockets], fun _ => hpage⟩
  have hreach : Reachable (Opened bootLayout.poolFrame)
      (StepOf bootLayout.poolFrame SocketLedger.Keeps) l' :=
    ((Reachable.start (connected_opened hinv hzero)).next
      ⟨.socket (.udp 0 [65]), hroom, ⟨by norm_num [SocketRun.Allowed], by decide, rfl⟩,
        hstep⟩).next ⟨.disconnect 0, trivial, hclosed, hstep'⟩
  refine ⟨l', f * 0x1000, hreach, ?_, receive_buffers_balanced hreach⟩
  rw [hcalls', hcalls]
  rfl

open SocketLedger in
/-- **A page is lost.** A byte is delivered and taken, and the socket is disconnected: no byte is
left, and no page is given back. -/
theorem drained_page_lost : ¬∀ l,
    Reachable (Opened bootLayout.poolFrame) (StepOf bootLayout.poolFrame fun _ _ => True) l →
      l.Balanced := by
  intro h
  obtain ⟨k, k', f, hinv, hzero, -, halloc, hf, hne⟩ := first_page
  obtain ⟨l₁, hstep₁, hcalls₁, hclosed₁, hsocket₁⟩ := step_first halloc
  obtain ⟨l₂, hstep₂, hcalls₂, hclosed₂, hsocket₂⟩ := step_drained hsocket₁
  rw [hclosed₁] at hclosed₂
  obtain ⟨l₃, hstep₃, hclosed₃, hcalls₃⟩ :=
    step_disconnect hsocket₂ (show f + 0 ≤ frameCount from (Nat.le_succ f).trans hf)
  have hreach : Reachable (Opened bootLayout.poolFrame)
      (StepOf bootLayout.poolFrame fun _ _ => True) l₃ :=
    (((Reachable.start (connected_opened hinv hzero)).next
      ⟨.socket (.udp 0 [65]), trivial, ⟨by norm_num [SocketRun.Allowed], by decide, rfl⟩,
        hstep₁⟩).next
      ⟨.socket (.recv 0 1), trivial, ⟨by norm_num [SocketRun.Allowed], hclosed₁⟩, hstep₂⟩).next
      ⟨.disconnect 0, trivial, hclosed₂, hstep₃⟩
  have hbalanced := (h l₃ hreach 0).2 hclosed₃
  rw [hcalls₃, hcalls₂, hcalls₁] at hbalanced
  -- a page was handed out, and none was given back
  have hptr : f * 0x1000 ≠ 0 := Nat.mul_ne_zero hne (by norm_num)
  have htaken : taken [PageCall.entry (.alloc (f * 0x1000) 1), .give (pageFrames (f * 0x1000) 0)] =
      pageFrames (f * 0x1000) 1 := by
    rw [PageCall.entry, if_neg hptr]
    exact add_zero _
  have hgiven : given [PageCall.entry (.alloc (f * 0x1000) 1),
      .give (pageFrames (f * 0x1000) 0)] = 0 := by
    rw [pageFrames_zero]
    rfl
  have hempty : pageFrames (f * 0x1000) 1 = 0 := htaken.symm.trans (hbalanced.symm.trans hgiven)
  have hmem : f * 0x1000 / 0x1000 ∈ pageFrames (f * 0x1000) 1 :=
    Multiset.mem_Ico.mpr ⟨le_rfl, Nat.lt_succ_self _⟩
  rw [hempty] at hmem
  exact absurd hmem (Multiset.notMem_zero _)

end MicroOS
