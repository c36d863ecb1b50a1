import MicroOS.Lib.Ledger
import MicroOS.Memory.VmmResize

/-!
Arrays that grow and shrink by `vmm_resize`, over whole runs, with the pages that back them.

* `PageCall`: a call of `vmm_alloc` or `vmm_free`; `resizeCalls`: those of `vmm_resize`, by
  `resizeArray_cases`;
* `Kernel.Identity`: the kernel maps a frame onto itself, as `vmm_alloc` does;
* `Sized`: what holds of an array between calls, `Sized.resize` its step lemma;
* `ArrayRun`: an array that is resized, while the rest of the kernel does something else;
* `arrays_intact`: it is backed by its pages and by nothing else, and a call keeps its elements, if
  every call that asks for pages finds them;
* `null_array`: in a full memory an array has no pages.
-/

namespace MicroOS

open ByteMem Checked PageEntry Run Ledger

variable {lo d o n f g ptr newPtr : ℕ} {k k' : Kernel} {bytes bytes' : Mem}

/-! ### Calls -/

/-- A call of `vmm_alloc` that returned `ptr`, or of `vmm_free`. -/
inductive PageCall where
  | alloc (ptr pages : ℕ)
  | free (ptr pages : ℕ)
  deriving DecidableEq

/-- The frames of pages from an address on. -/
def pageFrames (ptr pages : ℕ) : Multiset ℕ :=
  Multiset.Ico (ptr / 0x1000) (ptr / 0x1000 + pages)

@[simp] lemma pageFrames_zero (ptr : ℕ) : pageFrames ptr 0 = 0 := Multiset.Ico_self _

@[simp] lemma card_pageFrames (ptr pages : ℕ) : (pageFrames ptr pages).card = pages := by
  rw [pageFrames, Multiset.Ico, Finset.card_val, Nat.card_Ico, Nat.add_sub_cancel_left]

namespace PageCall

/-- What a call does to the kernel. -/
def Does (k : Kernel) : PageCall → Kernel → Prop
  | alloc ptr pages, k' => vmmAlloc k pages = .ok (k', ptr)
  | free ptr pages, k' => vmmFree k ptr pages = .ok k'

/-- The pages that are handed out, none with a null pointer, or passed to `vmm_free`. -/
def entry : PageCall → Entry ℕ
  | alloc ptr pages => .take (if ptr = 0 then 0 else pageFrames ptr pages)
  | free ptr pages => .give (pageFrames ptr pages)

end PageCall

/-- The calls of `vmm_resize(dataSize, oldSize, newSize, ptr)`, which returns `newPtr`. -/
def resizeCalls (dataSize oldSize newSize ptr newPtr : ℕ) : List PageCall :=
  if ptr = 0 then [.alloc newPtr (pagesOf (dataSize * newSize))]
  else if newSize = 0 then [.free ptr (pagesOf (dataSize * oldSize))]
  else if pagesOf (dataSize * newSize) ≠ pagesOf (dataSize * oldSize) then
    [.alloc newPtr (pagesOf (dataSize * newSize)), .free ptr (pagesOf (dataSize * oldSize))]
  else []

/-- The pages of an array. -/
def arrayPages (dataSize count ptr : ℕ) : Multiset ℕ :=
  if ptr = 0 then 0 else pageFrames ptr (pagesOf (dataSize * count))

/-- **The cases of `vmm_resize`**, with its calls and what it copies. -/
inductive ResizeCase (k : Kernel) (bytes : Mem) (d o n ptr : ℕ) : Kernel → Mem → ℕ → Prop where
  | alloc {k' : Kernel} {newPtr : ℕ} (null : ptr = 0)
      (pages : vmmAlloc k (pagesOf (d * n)) = .ok (k', newPtr)) :
      ResizeCase k bytes d o n ptr k' bytes newPtr
  | free {k' : Kernel} (ne : ptr ≠ 0) (empty : n = 0)
      (pages : vmmFree k ptr (pagesOf (d * o)) = .ok k') : ResizeCase k bytes d o n ptr k' bytes 0
  | move {k₁ k' : Kernel} {newPtr : ℕ} (ne : ptr ≠ 0) (size : n ≠ 0)
      (differ : pagesOf (d * n) ≠ pagesOf (d * o))
      (taken : vmmAlloc k (pagesOf (d * n)) = .ok (k₁, newPtr))
      (given : vmmFree k₁ ptr (pagesOf (d * o)) = .ok k') :
      ResizeCase k bytes d o n ptr k' (kernelMemcpy bytes newPtr ptr
        (if pagesOf (d * n) < pagesOf (d * o) then d * n else d * o)) newPtr
  | same (ne : ptr ≠ 0) (size : n ≠ 0) (pages : pagesOf (d * n) = pagesOf (d * o)) :
      ResizeCase k bytes d o n ptr k bytes ptr

/-- **What `vmm_resize` does**, case by case. -/
lemma resizeArray_cases (h : resizeArray k bytes d o n ptr = .ok (k', bytes', newPtr)) :
    ResizeCase k bytes d o n ptr k' bytes' newPtr := by
  rw [resizeArray, bind_eq_ok] at h
  obtain ⟨⟨k₁, p₁⟩, hresize, hret⟩ := h
  obtain ⟨rfl, hrest⟩ := Prod.mk.inj (Except.ok.inj hret)
  obtain ⟨rfl, rfl⟩ := Prod.mk.inj hrest
  rw [vmmResize] at hresize
  by_cases hptr : ptr = 0
  · rw [if_pos hptr] at hresize
    rw [if_neg fun h => h.1 hptr]
    exact .alloc hptr hresize
  rw [if_neg hptr] at hresize
  by_cases hn : n = 0
  · rw [if_pos hn, bind_eq_ok] at hresize
    obtain ⟨k₂, hfree, hret⟩ := hresize
    obtain ⟨rfl, rfl⟩ := Prod.mk.inj (Except.ok.inj hret)
    rw [if_neg fun h => h.2.1 hn]
    exact .free hptr hn hfree
  rw [if_neg hn] at hresize
  by_cases hpages : d * n / 0x1000 + 1 = d * o / 0x1000 + 1
  · rw [if_neg (not_not.mpr hpages)] at hresize
    obtain ⟨rfl, rfl⟩ := Prod.mk.inj (Except.ok.inj hresize)
    rw [if_neg fun h => h.2.2 hpages]
    exact .same hptr hn hpages
  · rw [if_pos hpages, bind_eq_ok] at hresize
    obtain ⟨⟨k₂, q⟩, halloc, hresize⟩ := hresize
    obtain ⟨k₃, hfree, hret⟩ := bind_eq_ok.mp hresize
    obtain ⟨rfl, rfl⟩ := Prod.mk.inj (Except.ok.inj hret)
    rw [if_pos ⟨hptr, hn, hpages⟩]
    exact .move hptr hn hpages halloc hfree

namespace ResizeCase

variable (h : ResizeCase k bytes d o n ptr k' bytes' newPtr)

include h

/-- **The calls of `vmm_resize`** lead from the kernel before it to the one after it. -/
lemma calls : Trace PageCall.Does k (resizeCalls d o n ptr newPtr) k' := by
  rw [resizeCalls]
  cases h with
  | alloc null pages =>
    rw [if_pos null]
    exact Trace.nil.snoc pages
  | free ne empty pages =>
    rw [if_neg ne, if_pos empty]
    exact Trace.nil.snoc pages
  | move ne size differ taken given =>
    rw [if_neg ne, if_neg size, if_pos differ]
    exact (Trace.nil.snoc taken).snoc given
  | same ne size pages =>
    rw [if_neg ne, if_neg size, if_neg (not_not.mpr pages)]
    exact Trace.nil

/-- What was handed out and given back for an array that was resized. -/
lemma ledger {entries : List (Entry ℕ)} (hopen : Open entries (arrayPages d o ptr))
    (hnew : newPtr = 0 → ptr = 0 ∨ n = 0) :
    Open (entries ++ (resizeCalls d o n ptr newPtr).map PageCall.entry)
      (arrayPages d n newPtr) := by
  rw [resizeCalls]
  cases h with
  | alloc null pages =>
    rw [arrayPages, if_pos null] at hopen
    have htake := hopen.take (arrayPages d n newPtr)
    rw [zero_add] at htake
    rw [if_pos null]
    exact htake
  | free ne empty pages =>
    rw [arrayPages, if_neg ne, ← add_zero (pageFrames _ _)] at hopen
    rw [if_neg ne, if_pos empty, arrayPages, if_pos rfl]
    exact hopen.give
  | move ne size differ taken given =>
    have hne : newPtr ≠ 0 := fun h0 => (hnew h0).elim ne size
    rw [arrayPages, if_neg ne] at hopen
    have hgive := (hopen.take (pageFrames newPtr (pagesOf (d * n)))).give
    rw [List.append_assoc] at hgive
    rw [if_neg ne, if_neg size, if_pos differ, arrayPages, if_neg hne, List.map_cons,
      List.map_singleton, PageCall.entry, PageCall.entry, if_neg hne]
    exact hgive
  | same ne size pages =>
    rw [if_neg ne, if_neg size, if_neg (not_not.mpr pages), List.map_nil, List.append_nil,
      arrayPages, if_neg ne, pages]
    rwa [arrayPages, if_neg ne] at hopen

end ResizeCase

/-! ### Pages that the kernel maps onto themselves -/

/-- The kernel's context maps the frame onto itself. -/
def Kernel.Identity (k : Kernel) (f : ℕ) : Prop :=
  k.Maps none (pdIndexOf (f * 0x1000)) (ptIndexOf (f * 0x1000))
    (f * 0x1000 ||| (ptePresent ||| pteWrite))

/-- Two frames differ in an index. -/
lemma frame_of_indices (hpd : pdIndexOf (g * 0x1000) = pdIndexOf (f * 0x1000))
    (hpt : ptIndexOf (g * 0x1000) = ptIndexOf (f * 0x1000)) : g = f := by
  rw [pdIndexOf, pdIndexOf] at hpd
  rw [ptIndexOf, ptIndexOf] at hpt
  omega

/-- A frame is mapped onto itself, and the others still are. -/
lemma identity_mapPage (hi : VmmInv lo k) (hf : f < frameCount)
    (h : mapPage k k.kernelContext (f * 0x1000) (f * 0x1000) (ptePresent ||| pteWrite) = .ok k') :
    k'.Identity f ∧ ∀ g, k.Identity g → k'.Identity g := by
  have hlt : f * 0x1000 < 2 ^ 32 := by
    rw [frameCount] at hf
    omega
  have hpres : Present (f * 0x1000 ||| (ptePresent ||| pteWrite)) := by
    rw [← Nat.or_assoc]
    exact present_tableEntry (Dvd.intro_left f rfl)
  have hal := Nat.mul_mod_left f 0x1000
  rcases mapPage_effect (s := none) hi rfl hlt (by decide) h with ⟨hno, -⟩ | ⟨-, -, fresh, heff⟩
  · exact absurd ⟨hal, hal⟩ hno
  have hself : k'.Identity f := (heff.maps _ _ _ _).mpr (Or.inl ⟨rfl, rfl, rfl, rfl, hpres⟩)
  refine ⟨hself, fun g hg => ?_⟩
  by_cases hgf : g = f
  · exact hgf ▸ hself
  · exact (heff.maps _ _ _ _).mpr (Or.inr ⟨hg, fun h => hgf (frame_of_indices h.2.1 h.2.2), id⟩)

/-- **`vmm_alloc` maps the pages it returns onto themselves.** -/
lemma identity_vmmAlloc (hi : VmmInv lo k) (hroom : f + n ≤ frameCount)
    (h : vmmAlloc k n = .ok (k', f * 0x1000)) :
    (∀ i < n, k'.Identity (f + i)) ∧ ∀ g, k.Identity g → k'.Identity g := by
  rw [vmmAlloc, bind_eq_ok] at h
  obtain ⟨⟨pmm, ptr⟩, hrange, h⟩ := h
  obtain ⟨k₁, hloop, hret⟩ := bind_eq_ok.mp h
  obtain ⟨rfl, rfl⟩ := Prod.mk.inj (Except.ok.inj hret)
  have hrule := foldlM_range_rule (fun i q => VmmInv lo q ∧ (∀ j < i, q.Identity (f + j))
    ∧ ∀ g, k.Identity g → q.Identity g) ?_
    ⟨hi.of_allocRange hrange, fun j hj => absurd hj (Nat.not_lt_zero j),
      fun g hg => (maps_pmm pmm _ _ _ _).mpr hg⟩ hloop
  · exact hrule.2
  rintro i q q' hlt ⟨hq, hmapped, hold⟩ hmap
  have haddr : wrap32 (f * 0x1000 + i * 0x1000) = (f + i) * 0x1000 := by
    rw [frameCount] at hroom
    rw [wrap32_of_lt (by omega), Nat.add_mul]
  rw [haddr] at hmap
  obtain ⟨hself, hkeep⟩ := identity_mapPage hq (by omega) hmap
  refine ⟨(KernelGrows.of_mapPage hq ?_ (by decide) hmap).1.inv, fun j hj => ?_,
    fun g hg => hkeep g (hold g hg)⟩
  · rw [frameCount] at hroom
    omega
  · rcases Nat.lt_succ_iff_lt_or_eq.mp hj with hj | rfl
    · exact hkeep _ (hmapped j hj)
    · exact hself

/-- Pages that are given back stay mapped. -/
lemma identity_vmmFree (h : vmmFree k ptr n = .ok k') (hg : k.Identity g) : k'.Identity g := by
  rw [vmmFree, bind_eq_ok] at h
  obtain ⟨pmm, -, hret⟩ := h
  obtain rfl := Except.ok.inj hret
  exact (maps_pmm pmm _ _ _ _).mpr hg

/-! ### One call -/

/-- **An array between calls**: a buffer whose frames are mapped onto themselves, which an array
with elements has. -/
structure Sized (lo d : ℕ) (k : Kernel) (count ptr : ℕ) : Prop where
  buffer : Buffer lo k ptr (d * count)
  identity : ∀ f, BufferFrame ptr (d * count) f → k.Identity f
  null : ptr = 0 → count = 0

/-- A call that asks for pages finds them. -/
def FindsPages (k : Kernel) (d o n ptr : ℕ) : Prop :=
  n ≠ 0 → ptr = 0 ∨ pagesOf (d * n) ≠ pagesOf (d * o) → ∃ f, k.pmm.FreeRun f (pagesOf (d * n))

lemma FindsPages.hasRoom (h : FindsPages k d o n ptr) : HasRoom k (d * o) (d * n) ptr :=
  fun hn => h fun h0 => hn (by rw [h0, Nat.mul_zero])

/-- The pages that `vmm_alloc` returns for an array. -/
lemma alloc_identity (hi : KernelInv lo k) (hsmall : d * n < 2 ^ 31)
    (h : vmmAlloc k (pagesOf (d * n)) = .ok (k', newPtr)) :
    (∀ f, BufferFrame newPtr (d * n) f → k'.Identity f) ∧ ∀ g, k.Identity g → k'.Identity g := by
  have hcount := toInt_toNat (pagesOf_lt hsmall)
  obtain ⟨pmm, hrange, -⟩ := vmmAlloc_spec hi.vmm h
  rcases allocRange_cases hi.vmm.guarded (by rw [hcount]; exact Nat.succ_pos _) hrange with
    ⟨rfl, -⟩ | ⟨f, rfl, hrun, -⟩
  · have hzero : vmmAlloc k (pagesOf (d * n)) = .ok (k', 0 * 0x1000) := h
    have hroom : 0 + pagesOf (d * n) ≤ frameCount := by
      rw [pagesOf, frameCount]
      omega
    exact ⟨fun f hf => absurd rfl hf.1, (identity_vmmAlloc hi.vmm hroom hzero).2⟩
  · have hroom := hrun.room
    rw [hcount] at hroom
    obtain ⟨hnew, hold⟩ := identity_vmmAlloc hi.vmm hroom h
    refine ⟨fun g hg => ?_, hold⟩
    obtain ⟨-, h1, h2⟩ := hg
    rw [Nat.mul_div_cancel f (by norm_num)] at h1 h2
    have hi := hnew (g - f) (by omega)
    rwa [Nat.add_sub_cancel' h1] at hi

/-- **The step lemma**: `vmm_resize` keeps the bytes that both sizes have, and everything that is
not the array's. -/
lemma Sized.resize (hi : KernelInv lo k) (hzero : k.pmm.Used 0) (hsized : Sized lo d k o ptr)
    (hsmall : d * n < 2 ^ 31) (hfinds : FindsPages k d o n ptr)
    (h : resizeArray k bytes d o n ptr = .ok (k', bytes', newPtr)) :
    Resized lo k bytes (d * o) ptr k' bytes' (d * n) newPtr ∧ Sized lo d k' n newPtr := by
  have hroom := hfinds.hasRoom
  suffices hpages : Resized lo k bytes (d * o) ptr k' bytes' (d * n) newPtr
      ∧ (∀ f, BufferFrame newPtr (d * n) f → k'.Identity f) ∧ (newPtr = 0 → n = 0) from
    ⟨hpages.1, hpages.1.buffer, hpages.2.1, hpages.2.2⟩
  have halloc : ∀ {k₁ p}, n ≠ 0 → (∃ f, k.pmm.FreeRun f (pagesOf (d * n))) →
      vmmAlloc k (pagesOf (d * n)) = .ok (k₁, p) → p ≠ 0 := by
    intro k₁ p _ hrun h
    obtain ⟨-, f, rfl, hne, -⟩ :=
      vmmAlloc_room hi hzero (Nat.succ_pos _) (pagesOf_lt hsmall) hrun h
    exact Nat.mul_ne_zero hne (by norm_num)
  cases resizeArray_cases h with
  | alloc null pages =>
    subst null
    refine ⟨resized_alloc hi hzero hsized.buffer hsmall (fun hn => hroom hn (.inl rfl)) pages,
      (alloc_identity hi hsmall pages).1, fun h0 => ?_⟩
    by_contra hn
    exact halloc hn (hfinds hn (.inl rfl)) pages h0
  | free ne empty pages =>
    subst empty
    exact ⟨resized_free hi hsized.buffer ne pages, fun f hf => absurd rfl hf.1, fun _ => rfl⟩
  | move ne size differ taken given =>
    have hrun := hfinds size (.inr differ)
    have hnew := (alloc_identity hi hsmall taken).1
    exact ⟨resized_move hi hzero hsized.buffer ne hsmall differ hrun taken given,
      fun f hf => identity_vmmFree given (hnew f hf),
      fun h0 => absurd h0 (halloc size hrun taken)⟩
  | same ne size pages =>
    refine ⟨resized_same hi hsized.buffer ne pages, fun f hf => hsized.identity f ?_,
      fun h0 => absurd h0 ne⟩
    rwa [BufferFrame, pages] at hf

/-! ### Runs -/

/-- An array, as its owner passes it to `vmm_resize`, with the calls that were made for it. -/
structure ArrayRun where
  kernel : Kernel
  bytes : Mem
  count : ℕ
  ptr : ℕ
  calls : List PageCall

/-- The array is resized, or what its owner and the rest of the kernel do. -/
inductive ArrayEvent where
  | resize (count : ℕ)
  | other (kernel : Kernel) (bytes : Mem)

namespace ArrayRun

variable {r r' : ArrayRun}

/-- An event can happen: the sizes are below `2 ^ 31`, and the rest of the kernel keeps its
invariant and leaves the array its pages. -/
def Allowed (lo d : ℕ) (r : ArrayRun) : ArrayEvent → Prop
  | .resize count => d * count < 2 ^ 31
  | .other kernel _ => KernelInv lo kernel ∧ kernel.pmm.Used 0 ∧
      ∀ f, BufferFrame r.ptr (d * r.count) f → kernel.pmm.Used f ∧ kernel.Identity f

/-- What an event does. -/
def step (d : ℕ) (r : ArrayRun) : ArrayEvent → Except Halt ArrayRun
  | .resize count => do
      let (kernel, bytes, ptr) ← resizeArray r.kernel r.bytes d r.count count r.ptr
      return ⟨kernel, bytes, count, ptr, r.calls ++ resizeCalls d r.count count r.ptr ptr⟩
  | .other kernel bytes => .ok { r with kernel, bytes }

/-- A call finds the pages it asks for. -/
def Finds (d : ℕ) (r : ArrayRun) : ArrayEvent → Prop
  | .resize count => FindsPages r.kernel d r.count count r.ptr
  | .other .. => True

/-- A step of a run by an event that meets a condition. -/
def StepOf (lo d : ℕ) (C : ArrayRun → ArrayEvent → Prop) (r r' : ArrayRun) : Prop :=
  ∃ e, C r e ∧ r.Allowed lo d e ∧ r.step d e = .ok r'

/-- A null pointer without elements. -/
structure Empty (lo : ℕ) (r : ArrayRun) : Prop where
  inv : KernelInv lo r.kernel
  zero : r.kernel.pmm.Used 0
  count : r.count = 0
  ptr : r.ptr = 0
  calls : r.calls = []

/-- **The array has its pages**: with elements it has `d * count / 4096 + 1` pages, which are in use
and mapped onto themselves; at no time was a page given back that had not been handed out, and the
pages that have not been given back are those of the array. -/
structure Backed (d : ℕ) (r : ArrayRun) : Prop where
  pages : r.count ≠ 0 → r.ptr ≠ 0 ∧ r.ptr % 0x1000 = 0
    ∧ ∀ i < d * r.count / 0x1000 + 1, r.kernel.pmm.Used (r.ptr / 0x1000 + i)
      ∧ r.kernel.Identity (r.ptr / 0x1000 + i)
  sound : Sound (r.calls.map PageCall.entry)
  balanced : taken (r.calls.map PageCall.entry)
    = given (r.calls.map PageCall.entry) + arrayPages d r.count r.ptr

/-- A call keeps the bytes that both sizes have. -/
def KeepsBytes (d : ℕ) (r r' : ArrayRun) : Prop :=
  ∀ i < d * min r.count r'.count, r'.bytes (r'.ptr + i) = r.bytes (r.ptr + i)

/-- **The invariant.** -/
structure Inv (lo d : ℕ) (r : ArrayRun) : Prop where
  inv : KernelInv lo r.kernel
  zero : r.kernel.pmm.Used 0
  sized : Sized lo d r.kernel r.count r.ptr
  ledger : Open (r.calls.map PageCall.entry) (arrayPages d r.count r.ptr)

namespace Inv

/-- An array without elements. -/
lemma of_empty (h : Empty lo r) : Inv lo d r := by
  refine ⟨h.inv, h.zero, ⟨?_, fun f hf => absurd h.ptr hf.1, fun _ => h.count⟩, ?_⟩
  · rw [h.ptr, h.count]
    exact buffer_null lo r.kernel
  · rw [h.calls, arrayPages, if_pos h.ptr]
    exact Open.nil

/-- The frame of the null pointer stays in use. -/
lemma zero_resized {size newSize : ℕ} (hbuf : Buffer lo k ptr size) (hzero : k.pmm.Used 0)
    (hres : Resized lo k bytes size ptr k' bytes' newSize newPtr) : k'.pmm.Used 0 := by
  refine hres.used 0 hzero fun hframe => hframe.1 ?_
  have hal := hbuf.aligned
  have hle := hframe.2.1
  omega

/-- A call of `vmm_resize`. -/
lemma resize {count : ℕ} (h : Inv lo d r) (hfinds : FindsPages r.kernel d r.count count r.ptr)
    (hsmall : d * count < 2 ^ 31) (hstep : r.step d (.resize count) = .ok r') :
    Inv lo d r' ∧ KeepsBytes d r r' := by
  obtain ⟨⟨kernel, bytes, ptr⟩, hresize, hret⟩ := bind_eq_ok.mp hstep
  obtain rfl := Except.ok.inj hret
  obtain ⟨hres, hsized⟩ := h.sized.resize h.inv h.zero hsmall hfinds hresize
  refine ⟨⟨hres.inv, zero_resized h.sized.buffer h.zero hres, hsized, ?_⟩, fun i hi => ?_⟩
  · rw [List.map_append]
    exact (resizeArray_cases hresize).ledger h.ledger fun h0 => Or.inr (hsized.null h0)
  · have hi : i < d * min r.count count := hi
    refine hres.data i (hi.trans_le ?_) (hi.trans_le ?_)
    · exact Nat.mul_le_mul_left d (min_le_left _ _)
    · exact Nat.mul_le_mul_left d (min_le_right _ _)

/-- **Every event keeps the invariant**, when it finds the pages that it asks for. -/
lemma step {e : ArrayEvent} (h : Inv lo d r) (hfinds : r.Finds d e) (hallowed : r.Allowed lo d e)
    (hstep : r.step d e = .ok r') : Inv lo d r' := by
  cases e with
  | resize count => exact (h.resize hfinds hallowed hstep).1
  | other kernel bytes =>
    obtain rfl := Except.ok.inj hstep
    obtain ⟨hinv, hzero, hframes⟩ := hallowed
    exact ⟨hinv, hzero, ⟨h.sized.buffer.of_used fun f hf => (hframes f hf).1,
      fun f hf => (hframes f hf).2, h.sized.null⟩, h.ledger⟩

/-- The invariant says that the array has its pages. -/
lemma backed (h : Inv lo d r) : r.Backed d := by
  refine ⟨fun hcount => ?_, h.ledger.sound, h.ledger.holds⟩
  have hptr : r.ptr ≠ 0 := fun h0 => hcount (h.sized.null h0)
  have hframe : ∀ i < d * r.count / 0x1000 + 1,
      BufferFrame r.ptr (d * r.count) (r.ptr / 0x1000 + i) := fun i hi =>
    ⟨hptr, Nat.le_add_right _ i, Nat.add_lt_add_left hi _⟩
  exact ⟨hptr, h.sized.buffer.aligned, fun i hi =>
    ⟨(h.sized.buffer.frames _ (hframe i hi)).1, h.sized.identity _ (hframe i hi)⟩⟩

end Inv

end ArrayRun

open ArrayRun in
/-- **`vmm_resize` keeps arrays intact**: in runs in which each call that asks for pages finds them
an array has its pages and no others, and the next such call keeps the bytes that both
sizes have. -/
theorem arrays_intact {lo d : ℕ} {r : ArrayRun}
    (h : Reachable (Empty lo) (StepOf lo d (Finds d)) r) :
    r.Backed d ∧ ∀ count r', FindsPages r.kernel d r.count count r.ptr → d * count < 2 ^ 31 →
      r.step d (.resize count) = .ok r' → r'.Backed d ∧ KeepsBytes d r r' := by
  have hinv : Inv lo d r := h.invariant (Inv lo d) (fun _ => Inv.of_empty)
    fun _ _ hr ⟨_, hfinds, hallowed, hstep⟩ => hr.step hfinds hallowed hstep
  refine ⟨hinv.backed, fun count r' hfinds hsmall hstep => ?_⟩
  obtain ⟨hinv', hbytes⟩ := hinv.resize hfinds hsmall hstep
  exact ⟨hinv'.backed, hbytes⟩

/-! ### A machine -/

/-- A kernel that hands out a page. -/
lemma first_page : ∃ k k' f, KernelInv bootLayout.poolFrame k ∧ k.pmm.Used 0 ∧
    (∃ g, k.pmm.FreeRun g 1) ∧ vmmAlloc k 1 = .ok (k', f * 0x1000) ∧ f + 1 ≤ frameCount ∧
      f ≠ 0 := by
  obtain ⟨k, h⟩ := machine_handedOut
  obtain ⟨k', f, halloc, hf, hnew, -⟩ := h.next
  refine ⟨k, k', f, h.inv, h.used 0 h.null, h.room (by decide), halloc, hf.trans (by decide), ?_⟩
  rintro rfl
  exact hnew h.null

namespace ArrayRun

/-- An array of a kernel, before its first call. -/
def fresh (k : Kernel) : ArrayRun := ⟨k, fun _ => 0, 0, 0, []⟩

lemma fresh_empty (hinv : KernelInv lo k) (hzero : k.pmm.Used 0) : Empty lo (fresh k) :=
  ⟨hinv, hzero, rfl, rfl, rfl⟩

/-- The first element. -/
lemma step_first (halloc : vmmAlloc k 1 = .ok (k', newPtr)) :
    (fresh k).step 4 (.resize 1) = .ok ⟨k', fun _ => 0, 1, newPtr, [.alloc newPtr 1]⟩ := by
  refine bind_eq_ok.mpr ⟨(k', fun _ => 0, newPtr), ?_, rfl⟩
  exact bind_eq_ok.mpr ⟨(k', newPtr), halloc, rfl⟩

end ArrayRun

open ArrayRun in
/-- An array of one element has its page. -/
theorem arrays_intact_machine : ∃ r : ArrayRun, r.count = 1 ∧ r.ptr ≠ 0
    ∧ Reachable (Empty bootLayout.poolFrame)
      (StepOf bootLayout.poolFrame 4 (Finds 4)) r ∧ r.Backed 4 := by
  obtain ⟨k, k', f, hinv, hzero, hpage, halloc, -, hne⟩ := first_page
  have hreach : Reachable (Empty bootLayout.poolFrame)
      (StepOf bootLayout.poolFrame 4 (Finds 4)) ⟨k', fun _ => 0, 1, f * 0x1000, _⟩ :=
    (Reachable.start (fresh_empty hinv hzero)).next
      ⟨.resize 1, fun _ _ => hpage, by norm_num [Allowed], step_first halloc⟩
  exact ⟨_, rfl, Nat.mul_ne_zero hne (by norm_num), hreach, (arrays_intact hreach).1⟩

open ArrayRun in
/-- In a full memory `vmm_resize` returns null, and the array has no pages. -/
theorem null_array : ∃ r r' : ArrayRun, Empty bootLayout.poolFrame r
    ∧ r.Allowed bootLayout.poolFrame 4 (.resize 1) ∧ r.step 4 (.resize 1) = .ok r'
    ∧ r'.count = 1 ∧ ¬ r'.Backed 4 := by
  obtain ⟨k, hinv, hzero, hfull, hready⟩ := full_kernel
  obtain ⟨k', halloc, -⟩ := vmmAlloc_full hready hfull (by decide)
  exact ⟨fresh k, _, fresh_empty hinv hzero, by norm_num [Allowed], step_first halloc, rfl,
    fun h => (h.pages (by norm_num)).1 rfl⟩

end MicroOS
