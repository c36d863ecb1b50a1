import MicroOS.Memory.VmmResize

/-!
The receive buffers of `net/socket_manager.c`.

* `SocketBuffers`: the buffers of all sockets, with the kernel and the memory they are in;
* `SocketBuffers.receive` and `SocketBuffers.socketRecv`: `socket_udp_recv`, `socket_tcp_recv` and
  `socket_recv`;
* `SocketRun`: runs with what was delivered to each socket and returned from it;
* `sockets_fifo`: a queue in every run in which `vmm_alloc` finds the pages it is asked for;
* `sockets_share`: two sockets of a full memory have one buffer.

The callers' memory is given by value. `TO_PAGES` is computed as it is for buffers below
`2 ^ 31 - 0xFFF` bytes, where its sum is an `int`.
-/

namespace MicroOS

open ByteMem ByteImage Checked Run

/-- The buffer of a `socket_t`. -/
structure ReceiveBuffer where
  numBytesReceived : ℕ
  receivedData : ℕ
  deriving DecidableEq

/-- The buffers of the sockets. -/
structure SocketBuffers where
  kernel : Kernel
  bytes : Mem
  sockets : ℕ → ReceiveBuffer

/-- The pages for `size` more bytes, with the bytes that were there. -/
def reserve (k : Kernel) (bytes : Mem) (b : ReceiveBuffer) (size : ℕ) :
    Except Halt (Kernel × Mem × ℕ) :=
  if b.receivedData = 0 then do
    let (k, receivedData) ← vmmAlloc k (toPages size)
    return (k, bytes, receivedData)
  else do
    let (k, newData) ← vmmAlloc k (toPages (size + b.numBytesReceived))
    let copied := kernelMemcpy bytes newData b.receivedData b.numBytesReceived
    let k ← vmmFree k b.receivedData (toPages b.numBytesReceived)
    return (k, copied, newData)

namespace SocketBuffers

/-- What `socket_udp_recv` and `socket_tcp_recv` do. -/
def receive (s : SocketBuffers) (n : ℕ) (data : List UInt8) : Except Halt SocketBuffers := do
  let b := s.sockets n
  let (kernel, bytes, receivedData) ← reserve s.kernel s.bytes b data.length
  return { kernel
           bytes := storeBytes bytes (wrap32 (receivedData + b.numBytesReceived)) data
           sockets := Function.update s.sockets n
             ⟨b.numBytesReceived + data.length, receivedData⟩ }

/-- `socket_udp_recv`. -/
def socketUdpRecv (s : SocketBuffers) (n : ℕ) (data : List UInt8) : Except Halt SocketBuffers :=
  s.receive n data

/-- `socket_tcp_recv`. -/
def socketTcpRecv (s : SocketBuffers) (n : ℕ) (data : List UInt8) : Except Halt SocketBuffers :=
  s.receive n data

/-- The bytes at a pointer. -/
def bytesAt (s : SocketBuffers) (ptr size : ℕ) : List UInt8 :=
  (List.range size).map fun i => s.bytes (wrap32 (ptr + i))

/-- `socket_recv` and the bytes that it returns. Nothing arrives while it waits. -/
def socketRecv (s : SocketBuffers) (n size : ℕ) : SocketBuffers × List UInt8 :=
  let b := s.sockets n
  if b.numBytesReceived ≠ 0 then
    let numBytesToCopy := if size < b.numBytesReceived then size else b.numBytesReceived
    let left := b.numBytesReceived - numBytesToCopy
    ({ s with
       bytes := kernelMemcpy s.bytes b.receivedData (wrap32 (b.receivedData + numBytesToCopy)) left
       sockets := Function.update s.sockets n ⟨left, b.receivedData⟩ },
      s.bytesAt b.receivedData numBytesToCopy)
  else (s, [])

/-- The bytes that a socket has. -/
def buffered (s : SocketBuffers) (n : ℕ) : List UInt8 :=
  s.bytesAt (s.sockets n).receivedData (s.sockets n).numBytesReceived

end SocketBuffers

/-! ### Runs -/

/-- The buffers, with what was delivered to each socket and returned from it. -/
structure SocketRun where
  buffers : SocketBuffers
  delivered : ℕ → List UInt8
  returned : ℕ → List UInt8

/-- A delivery, a call, or what the rest of the kernel does: frames are taken and given back and
memory is written. -/
inductive SocketEvent where
  | udp (n : ℕ) (data : List UInt8)
  | tcp (n : ℕ) (data : List UInt8)
  | recv (n size : ℕ)
  | other (kernel : Kernel) (bytes : Mem)

/-- A frame of a buffer. -/
def ReceiveBuffer.Frame (b : ReceiveBuffer) (f : ℕ) : Prop :=
  b.numBytesReceived ≠ 0 ∧ BufferFrame b.receivedData (b.numBytesReceived - 1) f

namespace SocketRun

/-- Bytes are delivered. -/
def deliver (r : SocketRun) (n : ℕ) (data : List UInt8) (buffers : SocketBuffers) : SocketRun :=
  ⟨buffers, Function.update r.delivered n (r.delivered n ++ data), r.returned⟩

/-- What an event does. -/
def step (r : SocketRun) : SocketEvent → Except Halt SocketRun
  | .udp n data => do return r.deliver n data (← r.buffers.socketUdpRecv n data)
  | .tcp n data => do return r.deliver n data (← r.buffers.socketTcpRecv n data)
  | .recv n size =>
    let (buffers, bytes) := r.buffers.socketRecv n size
    .ok ⟨buffers, r.delivered, Function.update r.returned n (r.returned n ++ bytes)⟩
  | .other kernel bytes => .ok { r with buffers := { r.buffers with kernel, bytes } }

/-- An event can happen: sizes fit their types, and the rest of the kernel keeps its invariant and
lets the buffers alone. -/
def Allowed (lo : ℕ) (r : SocketRun) : SocketEvent → Prop
  | .udp _ data | .tcp _ data => data.length < 2 ^ 31
  | .recv _ size => size < 2 ^ 32
  | .other kernel bytes =>
    KernelInv lo kernel ∧ kernel.pmm.Used 0 ∧
      (∀ n f, (r.buffers.sockets n).Frame f → kernel.pmm.Used f) ∧
      ∀ n x, (r.buffers.sockets n).Frame (x / 0x1000) → bytes x = r.buffers.bytes x

/-- The pages that a delivery asks for can be counted and are there. -/
def RoomFor (r : SocketRun) (n size : ℕ) : Prop :=
  let total := size + (r.buffers.sockets n).numBytesReceived
  total + 0xFFF < 2 ^ 31 ∧ (total ≠ 0 → ∃ f, r.buffers.kernel.pmm.FreeRun f (toPages total))

/-- A delivery finds its pages. -/
def Room (r : SocketRun) : SocketEvent → Prop
  | .udp n data | .tcp n data => r.RoomFor n data.length
  | .recv .. | .other .. => True

/-- A step of a run by an event that meets a condition. -/
def StepOf (lo : ℕ) (C : SocketRun → SocketEvent → Prop) (r r' : SocketRun) : Prop :=
  ∃ e, C r e ∧ r.Allowed lo e ∧ r.step e = .ok r'

/-- Sockets that have received nothing, in a kernel that keeps its invariant. -/
structure Opened (lo : ℕ) (r : SocketRun) : Prop where
  inv : KernelInv lo r.buffers.kernel
  zero : r.buffers.kernel.pmm.Used 0
  sockets : ∀ n, r.buffers.sockets n = ⟨0, 0⟩
  delivered : ∀ n, r.delivered n = []
  returned : ∀ n, r.returned n = []

/-- **The buffers are queues**: what was returned and what is buffered is what was delivered. -/
def Fifo (r : SocketRun) : Prop := ∀ n, r.returned n ++ r.buffers.buffered n = r.delivered n

end SocketRun

/-! ### Buffers and their pages -/

/-- A buffer whose pages are in use, if it has any bytes. -/
structure ReceiveBuffer.Held (lo : ℕ) (k : Kernel) (b : ReceiveBuffer) : Prop where
  bound : b.receivedData / 0x1000 ≤ frameCount
  buffer : b.numBytesReceived ≠ 0 →
    b.receivedData ≠ 0 ∧ Buffer lo k b.receivedData (b.numBytesReceived - 1)

section Buffers

variable {lo : ℕ} {k k' : Kernel} {bytes bytes' : Mem} {b : ReceiveBuffer} {size p i x : ℕ}

/-- A byte of a buffer lies in one of its frames. -/
lemma ReceiveBuffer.Held.frame_byte (h : b.Held lo k) (hi : i < b.numBytesReceived) :
    b.Frame ((b.receivedData + i) / 0x1000) := by
  have hne : b.numBytesReceived ≠ 0 := by omega
  obtain ⟨hptr, hbuf⟩ := h.buffer hne
  have hal := hbuf.aligned
  refine ⟨hne, hptr, Nat.div_le_div_right (Nat.le_add_right _ _), ?_⟩
  rw [pagesOf]
  omega

/-- A buffer ends below the top of the address space. -/
lemma ReceiveBuffer.Held.end_lt (h : b.Held lo k) (hne : b.numBytesReceived ≠ 0) :
    b.receivedData + b.numBytesReceived < 2 ^ 32 := by
  obtain ⟨-, hbuf⟩ := h.buffer hne
  have hroom := hbuf.room
  have hal := hbuf.aligned
  rw [pagesOf, frameCount] at hroom
  omega

/-- No frame of a buffer is the null page. -/
lemma ReceiveBuffer.Frame.ne_zero (h : b.Frame x) (hheld : b.Held lo k) : x ≠ 0 := by
  obtain ⟨hne, hptr, hle, -⟩ := h
  have hal := (hheld.buffer hne).2.aligned
  omega

lemma ReceiveBuffer.Held.used (h : b.Held lo k) {f : ℕ} (hf : b.Frame f) : k.pmm.Used f :=
  (((h.buffer hf.1).2).frames f hf.2).1

/-- The frames of a buffer stay in use. -/
lemma ReceiveBuffer.Held.of_used (h : b.Held lo k) (hused : ∀ f, b.Frame f → k'.pmm.Used f) :
    b.Held lo k' := by
  refine ⟨h.bound, fun hne => ?_⟩
  obtain ⟨hptr, hbuf⟩ := h.buffer hne
  exact ⟨hptr, hbuf.of_used fun f hf => hused f ⟨hne, hf⟩⟩

/-- A part of a buffer at its start. -/
lemma ReceiveBuffer.Held.shrink (h : b.Held lo k) (hle : size ≤ b.numBytesReceived) :
    ReceiveBuffer.Held lo k ⟨size, b.receivedData⟩ ∧
      ∀ f, ReceiveBuffer.Frame ⟨size, b.receivedData⟩ f → b.Frame f := by
  have hpages : pagesOf (size - 1) ≤ pagesOf (b.numBytesReceived - 1) := by
    rw [pagesOf, pagesOf]
    omega
  have hframe : ∀ f, ReceiveBuffer.Frame ⟨size, b.receivedData⟩ f → b.Frame f := by
    rintro f ⟨hne, hptr, h1, h2⟩
    dsimp only at hne h1 h2
    exact ⟨by omega, hptr, h1, h2.trans_le (Nat.add_le_add_left hpages _)⟩
  refine ⟨⟨h.bound, fun hne => ?_⟩, hframe⟩
  dsimp only at hne ⊢
  obtain ⟨hptr, hbuf⟩ := h.buffer (by omega)
  exact ⟨hptr, fun h0 => absurd h0 hptr, hbuf.aligned,
    (Nat.add_le_add_left hpages _).trans_lt hbuf.room,
    fun f hf => hbuf.frames f (hframe f ⟨hne, hf⟩).2⟩

/-- The pages of a buffer are given back. -/
lemma ReceiveBuffer.Held.vmmFree (hi : KernelInv lo k) (h : b.Held lo k)
    (hfree : vmmFree k b.receivedData (toPages b.numBytesReceived) = .ok k') :
    KernelInv lo k' ∧ ∀ f, k.pmm.Used f → ¬b.Frame f → k'.pmm.Used f := by
  by_cases hne : b.numBytesReceived = 0
  · have hzero : (toInt 0).toNat = 0 := rfl
    rw [hne, show toPages 0 = 0 from rfl] at hfree
    have hold : OldBlock lo b.receivedData 0 :=
      ⟨by rw [hzero]; exact h.bound, fun f hf => absurd hf (by rw [hzero]; omega)⟩
    refine ⟨hi.vmmFree hold hfree, fun f hf _ => ?_⟩
    rw [MicroOS.vmmFree, bind_eq_ok] at hfree
    obtain ⟨pmm, hrange, hret⟩ := hfree
    obtain rfl := Except.ok.inj hret
    obtain ⟨q, hq, hb⟩ := pmmFreeRange_ok (p := k.pmm) hold.1
    obtain rfl : q = pmm := Except.ok.inj (hq.symm.trans hrange)
    exact (hb.used f).mpr ⟨by rw [hzero]; omega, hf⟩
  · obtain ⟨hptr, hbuf⟩ := h.buffer hne
    rw [toPages_eq hne] at hfree
    obtain ⟨hinv, hkept⟩ := vmmFree_buffer hi hbuf hptr hfree
    exact ⟨hinv, fun f hf hnot => hkept f hf fun hframe => hnot ⟨hne, hframe⟩⟩

/-- `vmm_alloc` keeps every frame that is in use. -/
lemma vmmAlloc_keeps {n : ℕ} (hi : KernelInv lo k) (h : vmmAlloc k n = .ok (k', p)) :
    KernelInv lo k' ∧ p / 0x1000 ≤ frameCount ∧ ∀ f, k.pmm.Used f → k'.pmm.Used f := by
  obtain ⟨pmm, hrange, hgrow, -⟩ := vmmAlloc_spec hi.vmm h
  refine ⟨hi.vmmAlloc h, ?_⟩
  rcases pmmAllocRange_spec hi.vmm.guarded (toInt n) with
    ⟨hr, -⟩ | ⟨f, q, hr, hf, -, -, -, hbecomes⟩
  · obtain ⟨rfl, rfl⟩ := Prod.mk.inj (Except.ok.inj (hrange.symm.trans hr))
    exact ⟨Nat.zero_le _, fun g hg => (hgrow.used g).mpr (.inl hg)⟩
  · obtain ⟨rfl, rfl⟩ := Prod.mk.inj (Except.ok.inj (hrange.symm.trans hr))
    refine ⟨?_, fun g hg => (hgrow.used g).mpr (.inl ((hbecomes.used g).mpr (.inr hg)))⟩
    rw [Nat.mul_div_cancel f (by norm_num)]
    exact hf.le

/-- Pages for a buffer, where there are some. -/
lemma vmmAlloc_held {total : ℕ} (hi : KernelInv lo k) (hzero : k.pmm.Used 0)
    (hsmall : total + 0xFFF < 2 ^ 31)
    (hroom : total ≠ 0 → ∃ f, k.pmm.FreeRun f (toPages total))
    (h : vmmAlloc k (toPages total) = .ok (k', p)) :
    ReceiveBuffer.Held lo k' ⟨total, p⟩ ∧
      ∀ f, ReceiveBuffer.Frame ⟨total, p⟩ f → ¬k.pmm.Used f := by
  obtain ⟨-, hbound, -⟩ := vmmAlloc_keeps hi h
  by_cases htotal : total = 0
  · exact ⟨⟨hbound, fun hne => absurd htotal hne⟩, fun f hf => absurd htotal hf.1⟩
  have hroom := hroom htotal
  have hpages : pagesOf (total - 1) < 2 ^ 31 := pagesOf_lt (by omega)
  rw [toPages_eq htotal] at h hroom
  obtain ⟨hinv, f, rfl, hne, hrun, hused, -⟩ :=
    vmmAlloc_room hi hzero (Nat.succ_pos _) hpages hroom h
  have hbuf := buffer_of_run hi.vmm.guarded hrun hne hused
  refine ⟨⟨hbound, fun _ => ⟨?_, hbuf⟩⟩, fun g hg => ?_⟩
  · exact Nat.mul_ne_zero hne (by norm_num)
  · obtain ⟨-, -, h1, h2⟩ := hg
    dsimp only at h1 h2
    rw [Nat.mul_div_cancel f (by norm_num)] at h1 h2
    exact (hrun.free g h1 h2).1

/-- **What happens to a buffer that gets pages for `size` more bytes**: the new one is whole, its
frames were free, the other frames that were in use still are and keep their bytes, and the bytes of
the old one are in the new one. -/
structure Reserved (lo : ℕ) (k : Kernel) (bytes : Mem) (b : ReceiveBuffer) (size : ℕ)
    (k' : Kernel) (bytes' : Mem) (p : ℕ) : Prop where
  inv : KernelInv lo k'
  held : ReceiveBuffer.Held lo k' ⟨size + b.numBytesReceived, p⟩
  fresh : ∀ f, ReceiveBuffer.Frame ⟨size + b.numBytesReceived, p⟩ f → ¬k.pmm.Used f
  used : ∀ f, k.pmm.Used f → ¬b.Frame f → k'.pmm.Used f
  kept : ∀ x, k.pmm.Used (x / 0x1000) → bytes' x = bytes x
  data : ∀ i < b.numBytesReceived, bytes' (p + i) = bytes (b.receivedData + i)

/-- The bytes of a buffer are copied to free pages. -/
lemma copied_kept {k₁ : Kernel}
    (hnew : ReceiveBuffer.Held lo k₁ ⟨size + b.numBytesReceived, p⟩)
    (hfresh : ∀ f, ReceiveBuffer.Frame ⟨size + b.numBytesReceived, p⟩ f → ¬k.pmm.Used f)
    (hx : k.pmm.Used (x / 0x1000)) :
    kernelMemcpy bytes p b.receivedData b.numBytesReceived x = bytes x := by
  by_cases hne : b.numBytesReceived = 0
  · rw [hne]
    rfl
  have hend := hnew.end_lt (by dsimp only; omega)
  dsimp only at hend
  refine kernelMemcpy_of_disjoint (by omega) ?_
  by_contra hin
  have hframe := hnew.frame_byte (i := x - p) (by dsimp only; omega)
  dsimp only at hframe
  rw [Nat.add_sub_cancel' (by omega)] at hframe
  exact hfresh _ hframe hx

/-- The bytes of a buffer arrive in free pages. -/
lemma copied_data {k₁ : Kernel} (hheld : b.Held lo k)
    (hnew : ReceiveBuffer.Held lo k₁ ⟨size + b.numBytesReceived, p⟩)
    (hfresh : ∀ f, ReceiveBuffer.Frame ⟨size + b.numBytesReceived, p⟩ f → ¬k.pmm.Used f)
    (hi : i < b.numBytesReceived) :
    kernelMemcpy bytes p b.receivedData b.numBytesReceived (p + i) =
      bytes (b.receivedData + i) := by
  have hne : b.numBytesReceived ≠ 0 := by omega
  have hne' : size + b.numBytesReceived ≠ 0 := by omega
  obtain ⟨hptr, hbuf⟩ := hheld.buffer hne
  obtain ⟨hptr', hbuf'⟩ := hnew.buffer hne'
  have hdisj := buffers_apart hbuf hbuf' hptr hptr' fun f hf hf' =>
    hfresh f ⟨hne', hf⟩ (hheld.used ⟨hne, hf'⟩)
  have hend := hheld.end_lt hne
  have hend' := hnew.end_lt hne'
  have hlt := lt_pagesOf (b.numBytesReceived - 1)
  dsimp only at hdisj hend'
  have hsafe : p ≤ b.receivedData ∨ b.receivedData + b.numBytesReceived ≤ p :=
    hdisj.imp Nat.le_of_add_right_le fun h => by omega
  exact kernelMemcpy_apply (by omega) hend hsafe hi

/-- **A buffer gets its pages.** -/
lemma reserve_reserved (hi : KernelInv lo k) (hzero : k.pmm.Used 0) (hheld : b.Held lo k)
    (hsmall : size + b.numBytesReceived + 0xFFF < 2 ^ 31)
    (hroom : size + b.numBytesReceived ≠ 0 →
      ∃ f, k.pmm.FreeRun f (toPages (size + b.numBytesReceived)))
    (h : reserve k bytes b size = .ok (k', bytes', p)) :
    Reserved lo k bytes b size k' bytes' p := by
  rw [reserve] at h
  split_ifs at h with hptr
  · have hnum : b.numBytesReceived = 0 := by
      by_contra hne
      exact (hheld.buffer hne).1 hptr
    rw [bind_eq_ok] at h
    obtain ⟨⟨k₁, p₁⟩, halloc, hret⟩ := h
    obtain ⟨rfl, hrest⟩ := Prod.mk.inj (Except.ok.inj hret)
    obtain ⟨rfl, rfl⟩ := Prod.mk.inj hrest
    have htotal : size + b.numBytesReceived = size := by omega
    rw [htotal] at hroom hsmall
    obtain ⟨hinv, -, hmono⟩ := vmmAlloc_keeps hi halloc
    obtain ⟨hnew, hfresh⟩ := vmmAlloc_held hi hzero hsmall hroom halloc
    refine ⟨hinv, ?_, ?_, fun f hf _ => hmono f hf, fun _ _ => rfl, fun i hi => ?_⟩
    · rw [htotal]
      exact hnew
    · rw [htotal]
      exact hfresh
    · omega
  · rw [bind_eq_ok] at h
    obtain ⟨⟨k₁, p₁⟩, halloc, h⟩ := h
    rw [bind_eq_ok] at h
    obtain ⟨k₂, hfree, hret⟩ := h
    obtain ⟨rfl, hrest⟩ := Prod.mk.inj (Except.ok.inj hret)
    obtain ⟨rfl, rfl⟩ := Prod.mk.inj hrest
    obtain ⟨hinv, -, hmono⟩ := vmmAlloc_keeps hi halloc
    obtain ⟨hnew, hfresh⟩ := vmmAlloc_held hi hzero hsmall hroom halloc
    have hheld₁ : b.Held lo k₁ := hheld.of_used fun f hf => hmono f (hheld.used hf)
    obtain ⟨hinv', hkept⟩ := hheld₁.vmmFree hinv hfree
    refine ⟨hinv', hnew.of_used fun f hf => hkept f (hnew.used hf) ?_, hfresh,
      fun f hf hnot => hkept f (hmono f hf) hnot, fun x hx => copied_kept hnew hfresh hx,
      fun i hi => copied_data hheld hnew hfresh hi⟩
    exact fun hf' => hfresh f hf (hheld.used hf')

end Buffers

/-! ### The invariant -/

namespace SocketRun

/-- **The buffers hold the queues.** -/
structure Queued (lo : ℕ) (r : SocketRun) : Prop where
  inv : KernelInv lo r.buffers.kernel
  zero : r.buffers.kernel.pmm.Used 0
  held : ∀ n, (r.buffers.sockets n).Held lo r.buffers.kernel
  apart : ∀ n m f, n ≠ m → (r.buffers.sockets n).Frame f → ¬(r.buffers.sockets m).Frame f
  queue : ∀ n, ∃ q, q.length = (r.buffers.sockets n).numBytesReceived ∧
    Holds r.buffers.bytes (r.buffers.sockets n).receivedData q ∧ r.delivered n = r.returned n ++ q

variable {lo n : ℕ} {r r' : SocketRun} {s s' : SocketBuffers} {d out : ℕ → List UInt8}

/-- A queue lies in the frames of its buffer. -/
lemma holds_frames {b : ReceiveBuffer} {bytes bytes' : Mem} {k : Kernel} {q : List UInt8}
    (hheld : b.Held lo k) (hlen : q.length = b.numBytesReceived)
    (h : Holds bytes b.receivedData q)
    (hbytes : ∀ x, b.Frame (x / 0x1000) → bytes' x = bytes x) : Holds bytes' b.receivedData q := by
  refine h.congr fun i h1 h2 => hbytes i ?_
  have hframe := hheld.frame_byte (i := i - b.receivedData) (by omega)
  rwa [Nat.add_sub_cancel' h1] at hframe

/-- **A change of one buffer**, whose new frames were its own or free, and which lets the other
buffers alone. -/
lemma Queued.update {b : ReceiveBuffer} {x y : List UInt8} (h : Queued lo ⟨s, d, out⟩) (n : ℕ)
    (hsockets : s'.sockets = Function.update s.sockets n b) (hinv : KernelInv lo s'.kernel)
    (hused : ∀ f, s.kernel.pmm.Used f → ¬(s.sockets n).Frame f → s'.kernel.pmm.Used f)
    (hheld : b.Held lo s'.kernel)
    (hfresh : ∀ f, b.Frame f → (s.sockets n).Frame f ∨ ¬s.kernel.pmm.Used f)
    (hbytes : ∀ x, s.kernel.pmm.Used (x / 0x1000) → ¬(s.sockets n).Frame (x / 0x1000) →
      s'.bytes x = s.bytes x)
    (hqueue : ∃ q, q.length = b.numBytesReceived ∧ Holds s'.bytes b.receivedData q ∧ x = y ++ q) :
    Queued lo ⟨s', Function.update d n x, Function.update out n y⟩ := by
  have hself : s'.sockets n = b := by rw [hsockets, Function.update_self]
  have hother : ∀ m, m ≠ n → s'.sockets m = s.sockets m := fun m hm => by
    rw [hsockets, Function.update_of_ne hm]
  -- the frames of another socket were used and are not those of `n`
  have hothers : ∀ m, m ≠ n → ∀ f, (s.sockets m).Frame f →
      s.kernel.pmm.Used f ∧ ¬(s.sockets n).Frame f := fun m hm f hf =>
    ⟨(h.held m).used hf, h.apart m n f hm hf⟩
  have hnew : ∀ m, m ≠ n → ∀ f, (s.sockets m).Frame f → ¬b.Frame f := fun m hm f hf hb =>
    (hfresh f hb).elim (hothers m hm f hf).2 fun hfree => hfree (hothers m hm f hf).1
  refine ⟨hinv, hused 0 h.zero fun hf => hf.ne_zero (h.held n) rfl, fun m => ?_,
    fun m l f hne hf hf' => ?_, fun m => ?_⟩
  · -- the changed socket has the new buffer, and every other one its old bytes
    by_cases hm : m = n
    · subst hm
      exact hself ▸ hheld
    · refine hother m hm ▸ (h.held m).of_used fun f hf => ?_
      exact hused f (hothers m hm f hf).1 (hothers m hm f hf).2
  · by_cases hm : m = n
    · subst hm
      rw [hself] at hf
      rw [hother l hne.symm] at hf'
      exact hnew l hne.symm f hf' hf
    · rw [hother m hm] at hf
      by_cases hl : l = n
      · subst hl
        rw [hself] at hf'
        exact hnew m hm f hf hf'
      · rw [hother l hl] at hf'
        exact h.apart m l f hne hf hf'
  · by_cases hm : m = n
    · subst hm
      obtain ⟨q, hlen, hq, heq⟩ := hqueue
      refine ⟨q, ?_, ?_, ?_⟩
      · rw [hself]
        exact hlen
      · rw [hself]
        exact hq
      · dsimp only
        rw [Function.update_self, Function.update_self]
        exact heq
    · obtain ⟨q, hlen, hq, heq⟩ := h.queue m
      refine ⟨q, ?_, ?_, ?_⟩
      · rw [hother m hm]
        exact hlen
      · rw [hother m hm]
        exact holds_frames (h.held m) hlen hq fun x hx =>
          hbytes x (hothers m hm _ hx).1 (hothers m hm _ hx).2
      · dsimp only
        rw [Function.update_of_ne hm, Function.update_of_ne hm]
        exact heq

/-- **A delivery** reserves room, and stores the bytes behind those that are there. -/
lemma receive_eq_ok {data : List UInt8} (h : s.receive n data = .ok s') :
    ∃ bytes p, reserve s.kernel s.bytes (s.sockets n) data.length = .ok (s'.kernel, bytes, p) ∧
      s'.bytes = storeBytes bytes (wrap32 (p + (s.sockets n).numBytesReceived)) data ∧
      s'.sockets = Function.update s.sockets n
        ⟨(s.sockets n).numBytesReceived + data.length, p⟩ := by
  rw [SocketBuffers.receive, bind_eq_ok] at h
  obtain ⟨⟨k, bytes, p⟩, hreserve, hret⟩ := h
  obtain rfl := Except.ok.inj hret
  exact ⟨bytes, p, hreserve, rfl, rfl⟩

/-- **Bytes are delivered.** -/
lemma Queued.receive {data : List UInt8} (h : Queued lo ⟨s, d, out⟩)
    (hroom : RoomFor ⟨s, d, out⟩ n data.length) (hstep : s.receive n data = .ok s') :
    Queued lo ⟨s', Function.update d n (d n ++ data), out⟩ := by
  obtain ⟨bytes, p, hreserve, hbytes, hsockets⟩ := receive_eq_ok hstep
  have hres := reserve_reserved h.inv h.zero (h.held n) hroom.1 hroom.2 hreserve
  obtain ⟨q, hlen, hq, heq⟩ := h.queue n
  have hnew := hres.held
  have hfree := hres.fresh
  rw [Nat.add_comm] at hnew hfree
  dsimp only at hlen hq heq hnew hfree
  -- the store stays in the new buffer
  have hstore : data ≠ [] → p + (s.sockets n).numBytesReceived + data.length < 2 ^ 32 := by
    intro hdata
    have hpos : 0 < data.length := List.length_pos_iff.mpr hdata
    have hend := hnew.end_lt (by dsimp only; omega)
    dsimp only at hend
    omega
  have hout : ∀ x, ¬(p + (s.sockets n).numBytesReceived ≤ x ∧
      x < p + ((s.sockets n).numBytesReceived + data.length)) → s'.bytes x = bytes x := by
    intro x hx
    rw [hbytes]
    by_cases hdata : data = []
    · rw [hdata]
      rfl
    have hlt := hstore hdata
    rw [wrap32_of_lt (by omega)]
    exact storeBytes_of_disjoint hlt (by omega)
  have hqueue : ∃ q', q'.length = (s.sockets n).numBytesReceived + data.length ∧
      Holds s'.bytes p q' ∧ d n ++ data = out n ++ q' := by
    refine ⟨q ++ data, ?_, holds_append.mpr ⟨fun i c hc => ?_, ?_⟩, ?_⟩
    · rw [List.length_append, hlen]
    · obtain ⟨hi, -⟩ := List.getElem?_eq_some_iff.mp hc
      rw [hout _ (by omega), hres.data i (by dsimp only; omega)]
      exact hq i c hc
    · by_cases hdata : data = []
      · rw [hdata]
        exact holds_nil
      have hlt := hstore hdata
      rw [hbytes, wrap32_of_lt (by omega), hlen]
      exact holds_storeBytes hlt
    · rw [heq, List.append_assoc]
  have hupdate := h.update n hsockets hres.inv hres.used hnew (fun f hf => .inr (hfree f hf))
    (fun x hx _ => (hout x fun hin => ?_).trans (hres.kept x hx)) hqueue
  · rwa [Function.update_eq_self] at hupdate
  · have hframe := hnew.frame_byte (i := x - p) (by dsimp only; omega)
    dsimp only at hframe
    rw [Nat.add_sub_cancel' (by omega)] at hframe
    exact hfree _ hframe hx

/-- The bytes of a queue are read. -/
lemma bytesAt_eq {p : ℕ} {q : List UInt8} (hq : Holds s.bytes p q)
    (hend : q ≠ [] → p + q.length < 2 ^ 32) : s.bytesAt p q.length = q := by
  have hbyte : ∀ i ∈ List.range q.length, s.bytes (wrap32 (p + i)) = s.bytes (p + i) := by
    intro i hi
    have hlt := List.mem_range.mp hi
    have hend := hend (List.ne_nil_of_length_pos (by omega))
    rw [wrap32_of_lt (by omega)]
  rw [SocketBuffers.bytesAt, List.map_congr_left hbyte]
  exact (holds_shift.mpr hq).map_range

/-- What a call does to a socket with bytes. -/
lemma socketRecv_spec (size : ℕ) (h : (s.sockets n).numBytesReceived ≠ 0) :
    ∃ c, c = min size (s.sockets n).numBytesReceived ∧
      (s.socketRecv n size).2 = s.bytesAt (s.sockets n).receivedData c ∧
      (s.socketRecv n size).1.kernel = s.kernel ∧
      (s.socketRecv n size).1.bytes = kernelMemcpy s.bytes (s.sockets n).receivedData
        (wrap32 ((s.sockets n).receivedData + c)) ((s.sockets n).numBytesReceived - c) ∧
      (s.socketRecv n size).1.sockets = Function.update s.sockets n
        ⟨(s.sockets n).numBytesReceived - c, (s.sockets n).receivedData⟩ := by
  refine ⟨if size < (s.sockets n).numBytesReceived then size
      else (s.sockets n).numBytesReceived, ?_, ?_⟩
  · split_ifs with hlt
    · exact (min_eq_left hlt.le).symm
    · exact (min_eq_right (not_lt.mp hlt)).symm
  · rw [SocketBuffers.socketRecv, if_pos h]
    exact ⟨rfl, rfl, rfl, rfl⟩

/-- **Bytes are taken**: what is left moves to the start of the buffer. -/
lemma Queued.socketRecv (h : Queued lo ⟨s, d, out⟩) (n size : ℕ) :
    Queued lo ⟨(s.socketRecv n size).1, d,
      Function.update out n (out n ++ (s.socketRecv n size).2)⟩ := by
  by_cases hne : (s.sockets n).numBytesReceived = 0
  · have hrecv : s.socketRecv n size = (s, []) := by
      rw [SocketBuffers.socketRecv, if_neg (not_not.mpr hne)]
    rw [hrecv, List.append_nil, Function.update_eq_self]
    exact h
  obtain ⟨c, hmin, hbs, hkernel, hbytes, hsockets⟩ := socketRecv_spec size hne
  generalize (s.socketRecv n size).1 = s' at *
  generalize (s.socketRecv n size).2 = bs at *
  have hc : c ≤ (s.sockets n).numBytesReceived := hmin ▸ min_le_right _ _
  have hheld : (s.sockets n).Held lo s.kernel := h.held n
  obtain ⟨q, hlen, hq, heq⟩ := h.queue n
  dsimp only at hlen hq heq
  have hend := hheld.end_lt hne
  obtain ⟨hshrunk, hframe⟩ := hheld.shrink (Nat.sub_le (s.sockets n).numBytesReceived c)
  rw [wrap32_of_lt (by omega)] at hbytes
  have hlentake : (q.take c).length = c := List.length_take_of_le (hlen ▸ hc)
  -- the first bytes are returned and the others are what is left
  have hsplit : Holds s.bytes (s.sockets n).receivedData (q.take c) ∧
      Holds s.bytes ((s.sockets n).receivedData + c) (q.drop c) := by
    have happend := List.take_append_drop c q ▸ hq
    rwa [holds_append, hlentake] at happend
  have htake : bs = q.take c := by
    have hread := bytesAt_eq hsplit.1 fun _ => by omega
    rw [hlentake] at hread
    exact hbs.trans hread
  have hqueue : ∃ q', q'.length = (s.sockets n).numBytesReceived - c ∧
      Holds s'.bytes (s.sockets n).receivedData q' ∧ d n = (out n ++ bs) ++ q' := by
    refine ⟨q.drop c, ?_, fun i b hb => ?_, ?_⟩
    · rw [List.length_drop, hlen]
    · obtain ⟨hi, -⟩ := List.getElem?_eq_some_iff.mp hb
      rw [List.length_drop, hlen] at hi
      rw [hbytes, kernelMemcpy_apply (by omega) (by omega) (.inl (Nat.le_add_right _ _)) hi]
      exact hsplit.2 i b hb
    · rw [htake, List.append_assoc, List.take_append_drop]
      exact heq
  have hupdate := h.update n hsockets (hkernel ▸ h.inv) (fun f hf _ => hkernel ▸ hf)
    (hkernel ▸ hshrunk) (fun f hf => .inl (hframe f hf)) (fun x _ hnot => ?_) hqueue
  · rwa [Function.update_eq_self] at hupdate
  · rw [hbytes]
    refine kernelMemcpy_of_disjoint (by omega) ?_
    by_contra hin
    have hbyte := hheld.frame_byte (i := x - (s.sockets n).receivedData) (by omega)
    rw [Nat.add_sub_cancel' (by omega)] at hbyte
    exact hnot hbyte

/-- **The step lemma.** -/
lemma Queued.step {e : SocketEvent} (h : Queued lo r) (hroom : r.Room e)
    (hallowed : r.Allowed lo e) (hstep : r.step e = .ok r') : Queued lo r' := by
  obtain ⟨s, d, out⟩ := r
  cases e with
  | udp n data =>
    rw [SocketRun.step, bind_eq_ok] at hstep
    obtain ⟨s', hrecv, hret⟩ := hstep
    obtain rfl := Except.ok.inj hret
    exact h.receive hroom hrecv
  | tcp n data =>
    rw [SocketRun.step, bind_eq_ok] at hstep
    obtain ⟨s', hrecv, hret⟩ := hstep
    obtain rfl := Except.ok.inj hret
    exact h.receive hroom hrecv
  | recv n size =>
    obtain rfl := Except.ok.inj hstep
    exact h.socketRecv n size
  | other kernel bytes =>
    obtain rfl := Except.ok.inj hstep
    obtain ⟨hinv, hzero, hused, hbytes⟩ := hallowed
    refine ⟨hinv, hzero, fun n => (h.held n).of_used (hused n), h.apart, fun n => ?_⟩
    obtain ⟨q, hlen, hq, heq⟩ := h.queue n
    exact ⟨q, hlen, holds_frames (h.held n) hlen hq (hbytes n), heq⟩

/-- No socket has a buffer at first. -/
lemma Queued.of_opened (h : Opened lo r) : Queued lo r := by
  have hsockets : r.buffers.sockets = fun _ => ⟨0, 0⟩ := funext h.sockets
  refine ⟨h.inv, h.zero, fun n => ?_, fun n m f _ hf => ?_, fun n => ⟨[], ?_, holds_nil, ?_⟩⟩
  · rw [hsockets]
    exact ⟨(Nat.zero_div _).le.trans (Nat.zero_le _), fun hne => absurd rfl hne⟩
  · rw [hsockets] at hf
    exact absurd rfl hf.1
  · rw [hsockets]
    rfl
  · rw [h.delivered, h.returned]
    rfl

/-- The queues are what is buffered. -/
lemma Queued.fifo (h : Queued lo r) : r.Fifo := by
  intro n
  obtain ⟨q, hlen, hq, heq⟩ := h.queue n
  have hread : r.buffers.buffered n = q := by
    rw [SocketBuffers.buffered, ← hlen]
    refine bytesAt_eq hq fun hne => ?_
    have hpos : 0 < q.length := List.length_pos_iff.mpr hne
    rw [hlen]
    exact (h.held n).end_lt (by omega)
  rw [hread, heq]

end SocketRun

open SocketRun in
/-- **Socket buffers are queues.** In every run in which each delivery finds the pages it asks for,
what the calls on a socket have returned and what it has buffered is what was delivered to it, and a
call on a socket with bytes returns as many as it asks for or there are. -/
theorem sockets_fifo {lo : ℕ} {r : SocketRun} (h : Reachable (Opened lo) (StepOf lo Room) r) :
    r.Fifo ∧ ∀ n size, (r.buffers.buffered n) ≠ [] →
      (r.buffers.socketRecv n size).2.length = min size (r.buffers.buffered n).length := by
  have hqueued : Queued lo r :=
    h.invariant (Queued lo) (fun _ => Queued.of_opened)
      fun _ _ hr ⟨_, hroom, hallowed, hstep⟩ => hr.step hroom hallowed hstep
  refine ⟨hqueued.fifo, fun n size hne => ?_⟩
  have hlen : (r.buffers.buffered n).length = (r.buffers.sockets n).numBytesReceived := by
    rw [SocketBuffers.buffered, SocketBuffers.bytesAt, List.length_map, List.length_range]
  rw [hlen]
  have hnum : (r.buffers.sockets n).numBytesReceived ≠ 0 := by
    rw [← hlen]
    exact fun h0 => hne (List.length_eq_zero_iff.mp h0)
  obtain ⟨c, rfl, hbs, -⟩ := socketRecv_spec size hnum
  rw [hbs, SocketBuffers.bytesAt, List.length_map, List.length_range]

/-! ### A machine -/

/-- The buffers after the first bytes of a socket. -/
def SocketBuffers.filled (s : SocketBuffers) (n : ℕ) (data : List UInt8) (k : Kernel) (ptr : ℕ) :
    SocketBuffers :=
  ⟨k, storeBytes s.bytes (wrap32 ptr) data, Function.update s.sockets n ⟨data.length, ptr⟩⟩

/-- The first bytes of a socket. -/
lemma SocketRun.step_udp_empty {r : SocketRun} {n ptr : ℕ} {data : List UInt8} {k : Kernel}
    (hempty : r.buffers.sockets n = ⟨0, 0⟩)
    (halloc : vmmAlloc r.buffers.kernel (toPages data.length) = .ok (k, ptr)) :
    r.step (.udp n data) = .ok (r.deliver n data (r.buffers.filled n data k ptr)) := by
  rw [step, SocketBuffers.socketUdpRecv, SocketBuffers.receive, hempty, reserve, if_pos rfl, halloc,
    SocketBuffers.filled]
  dsimp only [bind, Except.bind, pure, Except.pure]
  rw [Nat.zero_add, Nat.add_zero]

/-- The sockets of a kernel, before anything is delivered. -/
def openedSockets (k : Kernel) : SocketRun :=
  ⟨⟨k, fun _ => 0, fun _ => ⟨0, 0⟩⟩, fun _ => [], fun _ => []⟩

lemma openedSockets_opened {lo : ℕ} {k : Kernel} (hinv : KernelInv lo k) (hzero : k.pmm.Used 0) :
    SocketRun.Opened lo (openedSockets k) := ⟨hinv, hzero, fun _ => rfl, fun _ => rfl, fun _ => rfl⟩

/-- More bytes for a socket that has some: its pages are given back. -/
lemma SocketRun.step_tcp_more {r : SocketRun} {n f m ptr : ℕ} {data : List UInt8}
    {k k' : Kernel} (hsocket : r.buffers.sockets n = ⟨m, f * 0x1000⟩) (hf : f ≠ 0)
    (halloc : vmmAlloc r.buffers.kernel (toPages (data.length + m)) = .ok (k, ptr))
    (hfree : vmmFree k (f * 0x1000) (toPages m) = .ok k') :
    ∃ buffers, r.step (.tcp n data) = .ok (r.deliver n data buffers) := by
  have hreserve : reserve r.buffers.kernel r.buffers.bytes ⟨m, f * 0x1000⟩ data.length
      = .ok (k', kernelMemcpy r.buffers.bytes ptr (f * 0x1000) m, ptr) := by
    rw [reserve, if_neg (Nat.mul_ne_zero hf (by norm_num)), halloc, ok_bind]
    dsimp only
    rw [hfree]
    rfl
  obtain ⟨buffers, hreceive⟩ : ∃ buffers, r.buffers.receive n data = .ok buffers := by
    rw [SocketBuffers.receive, hsocket, hreserve]
    exact ⟨_, rfl⟩
  exact ⟨buffers, by rw [step, SocketBuffers.socketTcpRecv, hreceive]; rfl⟩

open SocketRun in
/-- Two bytes are delivered to a socket, one of them is read, and a third one moves the other to a
new buffer. -/
theorem sockets_fifo_machine :
    ∃ r, Reachable (Opened bootLayout.poolFrame) (StepOf bootLayout.poolFrame Room) r ∧
      r.returned 0 = [65] ∧ r.buffers.buffered 0 = [66, 67] := by
  obtain ⟨k, hk⟩ := machine_handedOut
  obtain ⟨k₁, f, halloc₁, hf, hnew, hk₁⟩ := hk.next
  obtain ⟨k₂, g, halloc₂, -⟩ := hk₁.next
  have hne : f ≠ 0 := fun h0 => hnew (h0 ▸ hk.null)
  let r₁ : SocketRun := (openedSockets k).deliver 0 [65, 66]
    ((openedSockets k).buffers.filled 0 [65, 66] k₁ (f * 0x1000))
  have hstep₁ : (openedSockets k).step (.udp 0 [65, 66]) = .ok r₁ := step_udp_empty rfl halloc₁
  have hroom₁ : (openedSockets k).Room (.udp 0 [65, 66]) := by
    change 2 + 0 + 0xFFF < 2 ^ 31 ∧ (2 + 0 ≠ 0 → ∃ f, k.pmm.FreeRun f (toPages (2 + 0)))
    exact ⟨by norm_num, fun _ => hk.room (by decide)⟩
  have hreach₁ : Reachable (Opened bootLayout.poolFrame) (StepOf bootLayout.poolFrame Room) r₁ :=
    (Reachable.start (openedSockets_opened hk.inv (hk.used 0 hk.null))).next
      ⟨.udp 0 [65, 66], hroom₁, by norm_num [Allowed], hstep₁⟩
  have hbuffered : r₁.buffers.buffered 0 = [65, 66] := (sockets_fifo hreach₁).1 0
  let r₂ : SocketRun := ⟨(r₁.buffers.socketRecv 0 1).1, r₁.delivered,
    Function.update r₁.returned 0 (r₁.returned 0 ++ (r₁.buffers.socketRecv 0 1).2)⟩
  have hreach₂ : Reachable (Opened bootLayout.poolFrame) (StepOf bootLayout.poolFrame Room) r₂ :=
    hreach₁.next ⟨.recv 0 1, trivial, by norm_num [Allowed], rfl⟩
  have hread : (r₂.returned 0).length = 1 := by
    have hlen := (sockets_fifo hreach₁).2 0 1 (by rw [hbuffered]; simp)
    rwa [hbuffered] at hlen
  obtain ⟨k₃, hfree⟩ := vmmFree_returns k₂ (f := f) (n := 1)
    (by rw [frameCount, toInt]; norm_num; omega)
  obtain ⟨buffers, hstep₃⟩ : ∃ buffers, r₂.step (.tcp 0 [67]) = .ok (r₂.deliver 0 [67] buffers) :=
    step_tcp_more (m := 1) rfl hne halloc₂ hfree
  have hroom₃ : r₂.Room (.tcp 0 [67]) := by
    change 1 + 1 + 0xFFF < 2 ^ 31 ∧ (1 + 1 ≠ 0 → ∃ f, k₁.pmm.FreeRun f (toPages (1 + 1)))
    exact ⟨by norm_num, fun _ => hk₁.room (by decide)⟩
  have hreach₃ := hreach₂.next ⟨.tcp 0 [67], hroom₃, by norm_num [Allowed], hstep₃⟩
  have hfifo : r₂.returned 0 ++ buffers.buffered 0 = [65, 66, 67] := (sockets_fifo hreach₃).1 0
  obtain ⟨b, hb⟩ := List.length_eq_one_iff.mp hread
  rw [hb, List.singleton_append, List.cons.injEq] at hfifo
  obtain ⟨rfl, hrest⟩ := hfifo
  exact ⟨_, hreach₃, hb, hrest⟩

/-! ### A full memory -/

open SocketRun in
/-- **Two sockets at one place.** All memory is in use, and a byte is delivered to each of two
sockets: the first one has the byte of the second. -/
theorem sockets_share : ¬∀ r,
    Reachable (Opened bootLayout.poolFrame)
      (StepOf bootLayout.poolFrame fun _ _ => True) r → r.Fifo := by
  intro h
  obtain ⟨k, hinv, hzero, hfull, hready⟩ := full_kernel
  obtain ⟨k₁, halloc₁, hready₁, hfull₁⟩ := vmmAlloc_full hready hfull (by decide)
  obtain ⟨k₂, halloc₂, -⟩ := vmmAlloc_full hready₁ hfull₁ (by decide)
  have hstep₁ := step_udp_empty (r := openedSockets k) (n := 0)
    rfl (show vmmAlloc k (toPages [2].length) = _ from halloc₁)
  generalize hr₁ : (openedSockets k).deliver 0 [2]
    ((openedSockets k).buffers.filled 0 [2] k₁ 0) = r₁ at hstep₁
  have hempty : r₁.buffers.sockets 1 = ⟨0, 0⟩ := by
    rw [← hr₁]
    rfl
  have halloc : vmmAlloc r₁.buffers.kernel 1 = .ok (k₂, 0) := by
    rw [← hr₁]
    exact halloc₂
  have hstep₂ := step_udp_empty hempty
    (show vmmAlloc r₁.buffers.kernel (toPages [3].length) = _ from halloc)
  have hreach : Reachable (Opened bootLayout.poolFrame)
      (StepOf bootLayout.poolFrame fun _ _ => True)
      (r₁.deliver 1 [3] (r₁.buffers.filled 1 [3] k₂ 0)) :=
    ((Reachable.start (openedSockets_opened hinv hzero)).next
      ⟨.udp 0 [2], trivial, by norm_num [Allowed], hstep₁⟩).next
      ⟨.udp 1 [3], trivial, by norm_num [Allowed], hstep₂⟩
  have hfifo := h _ hreach 0
  subst hr₁
  -- the byte at the bottom of memory was stored last for the second socket
  have hsame : ([3] : List UInt8) = [2] := hfifo
  exact absurd hsame (by decide)

end MicroOS
