import MicroOS.Memory.VmmRun
import MicroOS.Utils.String

/-!
`vmm_resize` with the contents of the pages.

* `resizeBytes`, `resizeArray`: `vmm_resize` of bytes and of an array, and the copy of the contents;
* `Buffer`: a buffer whose frames are in use;
* `HasRoom`, `Resized`, `resizeBytes_resized`: what `vmm_resize` does to a buffer when it finds the
  pages it asks for;
* `machine_kernel`, `full_kernel`: kernels to run examples in, one with all its memory in use.

Sizes are below `2 ^ 31`, where `int` and `size_t` agree.
-/

namespace MicroOS

open ByteMem Checked PageEntry

/-- The pages of a buffer, as `vmm_resize` counts them. -/
def pagesOf (size : ℕ) : ℕ := size / 0x1000 + 1

/-- `TO_PAGES`. -/
def toPages (num : ℕ) : ℕ := (num + 0xFFF) / 0x1000

/-- `TO_PAGES` of a count that is not zero. -/
lemma toPages_eq {num : ℕ} (h : num ≠ 0) : toPages num = pagesOf (num - 1) := by
  rw [toPages, pagesOf]
  omega

/-- `vmm_resize(1, oldSize, newSize, ptr)` with the contents, which are copied before the old pages
are given back. -/
def resizeBytes (k : Kernel) (bytes : Mem) (oldSize newSize ptr : ℕ) :
    Except Halt (Kernel × Mem × ℕ) := do
  let (k', newPtr) ← vmmResize k 1 oldSize newSize ptr
  let copied :=
    if ptr ≠ 0 ∧ newSize ≠ 0 ∧ pagesOf newSize ≠ pagesOf oldSize then
      kernelMemcpy bytes newPtr ptr (if pagesOf newSize < pagesOf oldSize then newSize else oldSize)
    else bytes
  return (k', copied, newPtr)

/-- `vmm_resize(dataSize, oldSize, newSize, ptr)` with the contents. -/
def resizeArray (k : Kernel) (bytes : Mem) (dataSize oldSize newSize ptr : ℕ) :
    Except Halt (Kernel × Mem × ℕ) := do
  let (k', newPtr) ← vmmResize k dataSize oldSize newSize ptr
  let newSizeP := dataSize * newSize / 0x1000 + 1
  let oldSizeP := dataSize * oldSize / 0x1000 + 1
  let copied :=
    if ptr ≠ 0 ∧ newSize ≠ 0 ∧ newSizeP ≠ oldSizeP then
      kernelMemcpy bytes newPtr ptr
        (if newSizeP < oldSizeP then dataSize * newSize else dataSize * oldSize)
    else bytes
  return (k', copied, newPtr)

/-! ### Buffers -/

/-- A frame of a buffer. -/
def BufferFrame (ptr size f : ℕ) : Prop :=
  ptr ≠ 0 ∧ ptr / 0x1000 ≤ f ∧ f < ptr / 0x1000 + pagesOf size

/-- A buffer that is whole: it starts at a page, its frames are in use and none of the pool's, and
it has one unless the size is zero. -/
structure Buffer (lo : ℕ) (k : Kernel) (ptr size : ℕ) : Prop where
  null : ptr = 0 → size = 0
  aligned : ptr % 0x1000 = 0
  room : ptr / 0x1000 + pagesOf size < frameCount
  frames : ∀ f, BufferFrame ptr size f → k.pmm.Used f ∧ Mappable lo f

variable {lo : ℕ} {k k' : Kernel} {bytes bytes' : Mem} {oldSize newSize ptr newPtr x p : ℕ}

/-- A byte of a buffer lies in one of its frames. -/
lemma bufferFrame_byte (hptr : ptr ≠ 0) (hal : ptr % 0x1000 = 0) (hp : p < newSize) :
    BufferFrame ptr newSize ((ptr + p) / 0x1000) := by
  refine ⟨hptr, ?_, ?_⟩
  · exact Nat.div_le_div_right (Nat.le_add_right ptr p)
  · rw [pagesOf]
    omega

/-- A buffer stays as long as its frames are in use. -/
lemma Buffer.of_used (h : Buffer lo k ptr oldSize)
    (hused : ∀ f, BufferFrame ptr oldSize f → k'.pmm.Used f) : Buffer lo k' ptr oldSize :=
  ⟨h.null, h.aligned, h.room, fun f hf => ⟨hused f hf, (h.frames f hf).2⟩⟩

/-- `vmm_resize` finds the pages it asks for. -/
def HasRoom (k : Kernel) (oldSize newSize ptr : ℕ) : Prop :=
  newSize ≠ 0 → ptr = 0 ∨ pagesOf newSize ≠ pagesOf oldSize →
    ∃ f, k.pmm.FreeRun f (pagesOf newSize)

/-- **What `vmm_resize` does to a buffer**: the new one is whole, its frames were free or in the
old one, the other frames that were in use still are and keep their bytes, and the bytes that both
sizes have are the same. -/
structure Resized (lo : ℕ) (k : Kernel) (bytes : Mem) (oldSize ptr : ℕ) (k' : Kernel)
    (bytes' : Mem) (newSize newPtr : ℕ) : Prop where
  inv : KernelInv lo k'
  buffer : Buffer lo k' newPtr newSize
  fresh : ∀ f, BufferFrame newPtr newSize f → BufferFrame ptr oldSize f ∨ ¬k.pmm.Used f
  used : ∀ f, k.pmm.Used f → ¬BufferFrame ptr oldSize f → k'.pmm.Used f
  kept : ∀ x, k.pmm.Used (x / 0x1000) → bytes' x = bytes x
  data : ∀ p, p < oldSize → p < newSize → bytes' (newPtr + p) = bytes (ptr + p)

/-! ### Allocation -/

/-- `vmm_alloc` of a run that is there. -/
lemma vmmAlloc_room {n : ℕ} (hi : KernelInv lo k) (hzero : k.pmm.Used 0) (hn : 0 < n)
    (hlt : n < 2 ^ 31) (hroom : ∃ f, k.pmm.FreeRun f n) (h : vmmAlloc k n = .ok (k', newPtr)) :
    KernelInv lo k' ∧ ∃ f, newPtr = f * 0x1000 ∧ f ≠ 0 ∧ k.pmm.FreeRun f n ∧
      (∀ g, f ≤ g → g < f + n → k'.pmm.Used g) ∧ ∀ g, k.pmm.Used g → k'.pmm.Used g := by
  refine ⟨hi.vmmAlloc h, ?_⟩
  obtain ⟨pmm, hrange, hgrow, -⟩ := vmmAlloc_spec hi.vmm h
  rcases pmmAllocRange_spec hi.vmm.guarded (toInt n) with
    ⟨-, hnone⟩ | ⟨f, q, hr, -, hfree, hrun, -, hbecomes⟩
  · obtain ⟨f, hf⟩ := hroom
    rw [toInt_toNat hlt] at hnone
    exact absurd hf (hnone hn f)
  · obtain ⟨rfl, rfl⟩ := Prod.mk.inj (Except.ok.inj (hrange.symm.trans hr))
    rw [toInt_toNat hlt] at hrun hbecomes
    refine ⟨f, rfl, ?_, hrun, fun g h1 h2 => ?_, fun g hg => ?_⟩
    · rintro rfl
      exact hfree hzero
    · exact (hgrow.used g).mpr (.inl ((hbecomes.used g).mpr (.inl ⟨h1, h2⟩)))
    · exact (hgrow.used g).mpr (.inl ((hbecomes.used g).mpr (.inr hg)))

/-- There is a frame for a page. -/
def Kernel.HasPage (k : Kernel) : Prop := ∃ f, k.pmm.FreeRun f 1

/-- A page that is in use, at the address of its frame. -/
structure Kernel.Page (k : Kernel) (p : ℕ) : Prop where
  aligned : 0x1000 ∣ p
  ne : p ≠ 0
  lt : p + 0x1000 < 2 ^ 32
  used : k.pmm.Used (p / 0x1000)

lemma Kernel.Page.of_used (h : k.Page p) (hused : ∀ f, k.pmm.Used f → k'.pmm.Used f) : k'.Page p :=
  ⟨h.aligned, h.ne, h.lt, hused _ h.used⟩

/-- **The page that `vmm_alloc` returns** was not in use. -/
lemma vmmAlloc_page (hi : KernelInv lo k) (hzero : k.pmm.Used 0) (hroom : k.HasPage)
    (h : vmmAlloc k 1 = .ok (k', p)) :
    KernelInv lo k' ∧ k'.Page p ∧ ¬k.pmm.Used (p / 0x1000) ∧
      ∀ f, k.pmm.Used f → k'.pmm.Used f := by
  obtain ⟨hinv, f, rfl, hf, hrun, hused, hkept⟩ :=
    vmmAlloc_room hi hzero Nat.one_pos (by norm_num) hroom h
  have hdiv : f * 0x1000 / 0x1000 = f := Nat.mul_div_cancel f (by norm_num)
  have hself := Nat.lt_succ_self f
  have hnew : ¬k.pmm.Used f := (hrun.free f le_rfl hself).1
  have hlast : f ≠ frameCount - 1 := by
    rintro rfl
    exact hnew hi.vmm.guarded.last
  have hend := hrun.room
  rw [frameCount] at hlast hend
  refine ⟨hinv, ⟨Dvd.intro_left f rfl, by omega, by omega, ?_⟩, ?_, hkept⟩
  · rw [hdiv]
    exact hused f le_rfl hself
  · rwa [hdiv]

/-- The buffer that `vmm_alloc` returns. -/
lemma buffer_of_run {f : ℕ} (hg : k.pmm.Guarded lo) (hrun : k.pmm.FreeRun f (pagesOf newSize))
    (hne : f ≠ 0)
    (hused : ∀ g, f ≤ g → g < f + pagesOf newSize → k'.pmm.Used g) :
    Buffer lo k' (f * 0x1000) newSize := by
  have hdiv : f * 0x1000 / 0x1000 = f := Nat.mul_div_cancel f (by norm_num)
  refine ⟨fun h => absurd h (by omega), Nat.mul_mod_left f 0x1000, ?_, ?_⟩
  · -- the last frame is in use and ends every run before it
    rw [hdiv]
    have hroom := hrun.room
    by_contra hlast
    have hpages : 0 < pagesOf newSize := Nat.succ_pos _
    exact (hrun.free (frameCount - 1) (by omega) (by omega)).1 hg.last
  · rintro g ⟨-, h1, h2⟩
    rw [hdiv] at h1 h2
    exact ⟨hused g h1 h2, hrun.mappable hg h1 h2⟩

/-- The pages of a buffer are given back. -/
lemma vmmFree_buffer (hi : KernelInv lo k) (hbuf : Buffer lo k ptr oldSize) (hptr : ptr ≠ 0)
    (h : vmmFree k ptr (pagesOf oldSize) = .ok k') :
    KernelInv lo k' ∧ ∀ f, k.pmm.Used f → ¬BufferFrame ptr oldSize f → k'.pmm.Used f := by
  have hroom := hbuf.room
  have hcount : (toInt (pagesOf oldSize)).toNat = pagesOf oldSize := by
    refine toInt_toNat ?_
    rw [frameCount] at hroom
    omega
  have hold : OldBlock lo ptr (pagesOf oldSize) := by
    rw [OldBlock, hcount]
    exact ⟨hroom.le, fun f hf => (hbuf.frames f ⟨hptr, hf⟩).2⟩
  refine ⟨hi.vmmFree hold h, fun f hf hnot => ?_⟩
  rw [vmmFree, bind_eq_ok] at h
  obtain ⟨pmm, hfree, hret⟩ := h
  obtain rfl := Except.ok.inj hret
  obtain ⟨q, hq, hb⟩ := pmmFreeRange_ok (p := k.pmm) hold.1
  obtain rfl : q = pmm := Except.ok.inj (hq.symm.trans hfree)
  refine (hb.used f).mpr ⟨fun hrange => hnot ⟨hptr, ?_⟩, hf⟩
  rw [hcount] at hrange
  exact hrange

/-- `vmm_resize` of bytes, with its pages counted. -/
lemma vmmResize_bytes (k : Kernel) (oldSize newSize ptr : ℕ) :
    vmmResize k 1 oldSize newSize ptr =
      if ptr = 0 then vmmAlloc k (pagesOf newSize)
      else if newSize = 0 then do return (← vmmFree k ptr (pagesOf oldSize), 0)
      else if pagesOf newSize ≠ pagesOf oldSize then do
        let (k, newPtr) ← vmmAlloc k (pagesOf newSize)
        return (← vmmFree k ptr (pagesOf oldSize), newPtr)
      else return (k, ptr) := by
  simp only [vmmResize, pagesOf, one_mul]
  rfl

/-- Sizes below `2 ^ 31` have fewer pages than that. -/
lemma pagesOf_lt (h : newSize < 2 ^ 31) : pagesOf newSize < 2 ^ 31 := by
  rw [pagesOf]
  omega

/-- No buffer is left. -/
lemma buffer_null (lo : ℕ) (k : Kernel) : Buffer lo k 0 0 := by
  refine ⟨fun _ => rfl, rfl, ?_, fun f hf => absurd rfl hf.1⟩
  rw [pagesOf, frameCount]
  norm_num

/-- A new buffer, where there was none. -/
lemma resized_alloc (hi : KernelInv lo k) (hzero : k.pmm.Used 0)
    (hbuf : Buffer lo k 0 oldSize) (hsmall : newSize < 2 ^ 31)
    (hroom : newSize ≠ 0 → ∃ f, k.pmm.FreeRun f (pagesOf newSize))
    (h : vmmAlloc k (pagesOf newSize) = .ok (k', newPtr)) :
    Resized lo k bytes oldSize 0 k' bytes newSize newPtr := by
  have hold : oldSize = 0 := hbuf.null rfl
  have hpages : 0 < pagesOf newSize := Nat.succ_pos _
  have hnoFrame : ∀ f, ¬BufferFrame 0 oldSize f := fun f hf => hf.1 rfl
  by_cases hrun : ∃ f, k.pmm.FreeRun f (pagesOf newSize)
  · obtain ⟨hinv, f, rfl, hne, hfree, hused, hmono⟩ :=
      vmmAlloc_room hi hzero hpages (pagesOf_lt hsmall) hrun h
    refine ⟨hinv, buffer_of_run hi.vmm.guarded hfree hne hused, fun g hg => .inr ?_,
      fun g hg _ => hmono g hg, fun _ _ => rfl, fun p hp => absurd hp (by omega)⟩
    obtain ⟨-, h1, h2⟩ := hg
    rw [Nat.mul_div_cancel f (by norm_num)] at h1 h2
    exact (hfree.free g h1 h2).1
  · -- nothing is allocated, and nothing is needed
    have hnew : newSize = 0 := by
      by_contra hne
      exact hrun (hroom hne)
    obtain ⟨pmm, hrange, hgrow, -⟩ := vmmAlloc_spec hi.vmm h
    rcases pmmAllocRange_spec hi.vmm.guarded (toInt (pagesOf newSize)) with
      ⟨hr, -⟩ | ⟨f, q, -, -, -, hfree, -⟩
    · obtain ⟨rfl, rfl⟩ := Prod.mk.inj (Except.ok.inj (hrange.symm.trans hr))
      subst hnew
      exact ⟨hi.vmmAlloc h, buffer_null lo k', fun f hf => absurd rfl hf.1,
        fun g hg _ => (hgrow.used g).mpr (.inl hg), fun _ _ => rfl,
        fun p hp => absurd hp (by omega)⟩
    · rw [toInt_toNat (pagesOf_lt hsmall)] at hfree
      exact absurd ⟨f, hfree⟩ hrun

/-- The number of bytes that `vmm_resize` copies. -/
lemma copied_eq_min (hpages : pagesOf newSize ≠ pagesOf oldSize) :
    (if pagesOf newSize < pagesOf oldSize then newSize else oldSize) = min newSize oldSize := by
  rw [pagesOf, pagesOf] at *
  split_ifs with h
  · exact (min_eq_left (by omega)).symm
  · exact (min_eq_right (by omega)).symm

/-- A buffer ends below the top of the address space. -/
lemma Buffer.end_lt (h : Buffer lo k ptr newSize) : ptr + newSize < 2 ^ 32 := by
  have hroom := h.room
  have hal := h.aligned
  rw [pagesOf, frameCount] at hroom
  omega

lemma lt_pagesOf (size : ℕ) : size < pagesOf size * 0x1000 := by
  rw [pagesOf]
  omega

/-- The pages of two buffers without a common frame do not overlap. -/
lemma buffers_apart {ptr' size' : ℕ} (h : Buffer lo k ptr oldSize) (h' : Buffer lo k' ptr' size')
    (hptr : ptr ≠ 0) (hptr' : ptr' ≠ 0)
    (hframes : ∀ f, BufferFrame ptr' size' f → ¬BufferFrame ptr oldSize f) :
    ptr' + pagesOf size' * 0x1000 ≤ ptr ∨ ptr + pagesOf oldSize * 0x1000 ≤ ptr' := by
  have hal := h.aligned
  have hal' := h'.aligned
  have hpos : 0 < pagesOf oldSize := Nat.succ_pos _
  have hpos' : 0 < pagesOf size' := Nat.succ_pos _
  by_contra hover
  refine hframes (max (ptr' / 0x1000) (ptr / 0x1000)) ⟨hptr', ?_, ?_⟩ ⟨hptr, ?_, ?_⟩
  · exact le_max_left _ _
  · omega
  · exact le_max_right _ _
  · omega

/-- A buffer moves to other pages. -/
lemma resized_move {k₁ : Kernel} (hi : KernelInv lo k) (hzero : k.pmm.Used 0)
    (hbuf : Buffer lo k ptr oldSize) (hptr : ptr ≠ 0) (hsmall : newSize < 2 ^ 31)
    (hpages : pagesOf newSize ≠ pagesOf oldSize)
    (hroom : ∃ f, k.pmm.FreeRun f (pagesOf newSize))
    (halloc : vmmAlloc k (pagesOf newSize) = .ok (k₁, newPtr))
    (hfree : vmmFree k₁ ptr (pagesOf oldSize) = .ok k') :
    Resized lo k bytes oldSize ptr k' (kernelMemcpy bytes newPtr ptr
      (if pagesOf newSize < pagesOf oldSize then newSize else oldSize)) newSize newPtr := by
  obtain ⟨hinv₁, f, rfl, hne, hrun, hused, hmono⟩ :=
    vmmAlloc_room hi hzero (Nat.succ_pos _) (pagesOf_lt hsmall) hroom halloc
  have hdiv : f * 0x1000 / 0x1000 = f := Nat.mul_div_cancel f (by norm_num)
  have hptr' : f * 0x1000 ≠ 0 := by omega
  have hnew := buffer_of_run hi.vmm.guarded hrun hne hused
  have hbuf₁ : Buffer lo k₁ ptr oldSize :=
    ⟨hbuf.null, hbuf.aligned, hbuf.room, fun g hg => (hbuf.frames g hg).imp_left (hmono g)⟩
  obtain ⟨hinv, hkept⟩ := vmmFree_buffer hinv₁ hbuf₁ hptr hfree
  -- the new frames were free, so none of them is an old one
  have hapart : ∀ g, BufferFrame (f * 0x1000) newSize g → ¬k.pmm.Used g := by
    rintro g ⟨-, h1, h2⟩
    rw [hdiv] at h1 h2
    exact (hrun.free g h1 h2).1
  have hold : ∀ g, BufferFrame (f * 0x1000) newSize g → ¬BufferFrame ptr oldSize g :=
    fun g hg hg' => hapart g hg (hbuf.frames g hg').1
  have hend := hnew.end_lt
  have hend' := hbuf.end_lt
  have hcopied := copied_eq_min hpages
  refine ⟨hinv, ⟨hnew.null, hnew.aligned, hnew.room, fun g hg => ?_⟩,
    fun g hg => .inr (hapart g hg), fun g hg hnot => hkept g (hmono g hg) hnot,
    fun x hx => ?_, fun p hp hp' => ?_⟩
  · obtain ⟨hg₁, hmap⟩ := hnew.frames g hg
    exact ⟨hkept g hg₁ (hold g hg), hmap⟩
  · rw [hcopied]
    refine kernelMemcpy_of_disjoint (by omega) ?_
    by_contra hin
    have hframe := bufferFrame_byte hptr' hnew.aligned
      (show x - f * 0x1000 < newSize by omega)
    rw [Nat.add_sub_cancel' (by omega)] at hframe
    exact hapart _ hframe hx
  · have hdisj := buffers_apart hbuf hnew hptr hptr' hold
    rw [hcopied]
    have hsafe : f * 0x1000 ≤ ptr ∨ ptr + min newSize oldSize ≤ f * 0x1000 := by
      refine hdisj.imp Nat.le_of_add_right_le fun h => ?_
      have hmin : min newSize oldSize ≤ oldSize := min_le_right _ _
      exact (Nat.add_le_add_left (hmin.trans (lt_pagesOf oldSize).le) ptr).trans h
    exact kernelMemcpy_apply (by omega) (by omega) hsafe (by omega)

/-- A buffer is given back. -/
lemma resized_free (hi : KernelInv lo k) (hbuf : Buffer lo k ptr oldSize) (hptr : ptr ≠ 0)
    (h : vmmFree k ptr (pagesOf oldSize) = .ok k') :
    Resized lo k bytes oldSize ptr k' bytes 0 0 := by
  obtain ⟨hinv, hkept⟩ := vmmFree_buffer hi hbuf hptr h
  exact ⟨hinv, buffer_null lo k', fun f hf => absurd rfl hf.1, hkept, fun _ _ => rfl,
    fun p _ hp => absurd hp (Nat.not_lt_zero p)⟩

/-- A buffer stays in its pages. -/
lemma resized_same (hi : KernelInv lo k) (hbuf : Buffer lo k ptr oldSize) (hptr : ptr ≠ 0)
    (hpages : pagesOf newSize = pagesOf oldSize) :
    Resized lo k bytes oldSize ptr k bytes newSize ptr := by
  have hframes : ∀ f, BufferFrame ptr newSize f ↔ BufferFrame ptr oldSize f := fun f => by
    rw [BufferFrame, BufferFrame, hpages]
  exact ⟨hi, ⟨fun h => absurd h hptr, hbuf.aligned, hpages ▸ hbuf.room,
      fun f hf => hbuf.frames f ((hframes f).mp hf)⟩, fun f hf => .inl ((hframes f).mp hf),
    fun f hf _ => hf, fun _ _ => rfl, fun _ _ _ => rfl⟩

/-- **`vmm_resize` keeps the contents of a buffer** when it finds the pages it asks for. -/
lemma resizeBytes_resized (hi : KernelInv lo k) (hzero : k.pmm.Used 0)
    (hbuf : Buffer lo k ptr oldSize) (hsmall : newSize < 2 ^ 31)
    (hroom : HasRoom k oldSize newSize ptr)
    (h : resizeBytes k bytes oldSize newSize ptr = .ok (k', bytes', newPtr)) :
    Resized lo k bytes oldSize ptr k' bytes' newSize newPtr := by
  rw [resizeBytes, bind_eq_ok] at h
  obtain ⟨⟨k₁, p₁⟩, hresize, hret⟩ := h
  obtain ⟨rfl, hrest⟩ := Prod.mk.inj (Except.ok.inj hret)
  obtain ⟨hbytes, rfl⟩ := Prod.mk.inj hrest
  rw [vmmResize_bytes] at hresize
  by_cases hptr : ptr = 0
  · subst hptr
    rw [if_pos rfl] at hresize
    rw [if_neg (by simp)] at hbytes
    subst hbytes
    exact resized_alloc hi hzero hbuf hsmall (fun hne => hroom hne (.inl rfl)) hresize
  rw [if_neg hptr] at hresize
  by_cases hnew : newSize = 0
  · rw [if_pos hnew, bind_eq_ok] at hresize
    obtain ⟨k₂, hfree, hret⟩ := hresize
    obtain ⟨rfl, rfl⟩ := Prod.mk.inj (Except.ok.inj hret)
    rw [if_neg (by simp [hnew])] at hbytes
    subst hbytes hnew
    exact resized_free hi hbuf hptr hfree
  rw [if_neg hnew] at hresize
  by_cases hpages : pagesOf newSize = pagesOf oldSize
  · rw [if_neg (not_not.mpr hpages)] at hresize
    obtain ⟨rfl, rfl⟩ := Prod.mk.inj (Except.ok.inj hresize)
    rw [if_neg (by simp [hpages])] at hbytes
    subst hbytes
    exact resized_same hi hbuf hptr hpages
  · rw [if_pos hpages, bind_eq_ok] at hresize
    obtain ⟨⟨k₂, q⟩, halloc, hresize⟩ := hresize
    rw [bind_eq_ok] at hresize
    obtain ⟨k₃, hfree, hret⟩ := hresize
    obtain ⟨rfl, rfl⟩ := Prod.mk.inj (Except.ok.inj hret)
    rw [if_pos ⟨hptr, hnew, hpages⟩] at hbytes
    subst hbytes
    exact resized_move hi hzero hbuf hptr hsmall hpages (hroom hnew (.inr hpages)) halloc hfree

/-- An array is resized as its bytes are. -/
lemma resizeArray_eq {dataSize : ℕ} (hsize : 0 < dataSize) : resizeArray k bytes dataSize oldSize
    newSize ptr = resizeBytes k bytes (dataSize * oldSize) (dataSize * newSize) ptr := by
  have hzero : (dataSize * newSize = 0) = (newSize = 0) := by simp [hsize.ne']
  unfold resizeArray resizeBytes vmmResize pagesOf
  simp only [one_mul, ne_eq, hzero]

/-- An array that needs no other number of pages stays where it is. -/
lemma resizeArray_same {dataSize : ℕ} (hptr : ptr ≠ 0) (hnew : newSize ≠ 0)
    (hpages : pagesOf (dataSize * newSize) = pagesOf (dataSize * oldSize)) :
    resizeArray k bytes dataSize oldSize newSize ptr = .ok (k, bytes, ptr) := by
  rw [pagesOf, pagesOf] at hpages
  rw [resizeArray, vmmResize, hpages, if_neg hptr, if_neg hnew, if_neg (not_not.mpr rfl)]
  dsimp only [bind, Except.bind, pure, Except.pure]
  rw [if_neg fun h => h.2.2 rfl]

/-! ### Kernels of the machine -/

/-- A kernel of the machine, with the null page in use. -/
lemma machine_kernel : ∃ k, KernelInv bootLayout.poolFrame k ∧ k.pmm.Used 0 ∧
    Ready bootLayout.poolFrame {0, 1} 0x440 29 63 k := by
  obtain ⟨k, hstart, hready, -⟩ := machine_starts
  obtain ⟨pmm, hmark, hready'⟩ := hready.markUsed 0 (by norm_num) bootLayout.poolFrame_bounds.1
  have hinv : KernelInv bootLayout.poolFrame k := .of_reachable (.start hstart)
  obtain ⟨q, hq, hb⟩ := pmmMarkUsed_ok (p := k.pmm) (show 0 < 2 ^ 32 by norm_num)
  obtain rfl : q = pmm := Except.ok.inj (hq.symm.trans hmark)
  exact ⟨{ k with pmm := q }, ⟨hinv.vmm.of_becomes hb, hinv.low, hinv.tasks.of_pmm q⟩,
    (hb.used 0).mpr (.inl rfl), hready'⟩

/-- A kernel of the machine that has handed out the pages of some frames, the null page among them,
and has `n` more. -/
structure HandedOut (fs : List ℕ) (n : ℕ) (k : Kernel) : Prop where
  inv : KernelInv bootLayout.poolFrame k
  null : 0 ∈ fs
  used : ∀ f ∈ fs, k.pmm.Used f
  ready : Ready bootLayout.poolFrame {0, 1} 0x440 29 n k

/-- A machine that has handed out the null page alone. -/
lemma machine_handedOut : ∃ k, HandedOut [0] 63 k := by
  obtain ⟨k, hinv, hzero, hready⟩ := machine_kernel
  exact ⟨k, hinv, List.mem_singleton_self 0, by simpa using hzero, hready⟩

/-- It has room for as many pages as are left. -/
lemma HandedOut.room {fs : List ℕ} {m n : ℕ} (h : HandedOut fs n k) (hm : m ≤ n) :
    ∃ g, k.pmm.FreeRun g m := by
  obtain ⟨g, hrun, -⟩ := h.ready.run
  exact ⟨g, hrun.take hm⟩

/-- It hands out a page that it did not hand out before. -/
lemma HandedOut.next {fs : List ℕ} {n : ℕ} (h : HandedOut fs (n + 1) k) :
    ∃ k' f, vmmAlloc k 1 = .ok (k', f * 0x1000) ∧ f < 0x440 ∧ f ∉ fs ∧
      HandedOut (f :: fs) n k' := by
  have hready : Ready bootLayout.poolFrame {0, 1} 0x440 29 (1 + n) k := Nat.add_comm n 1 ▸ h.ready
  obtain ⟨k', f, halloc, hf, -, hready'⟩ := hready.vmmAlloc Nat.one_pos (by norm_num)
    machine_slots.kernel (by decide)
  obtain ⟨hinv', f', hptr, -, hfree, hused, hkept⟩ :=
    vmmAlloc_room h.inv (h.used 0 h.null) Nat.one_pos (by norm_num) (h.room (by omega)) halloc
  obtain rfl : f = f' := Nat.eq_of_mul_eq_mul_right (by norm_num) hptr
  have hself := Nat.lt_succ_self f
  refine ⟨k', f, halloc, hf, fun hmem => (hfree.free f le_rfl hself).1 (h.used f hmem), hinv',
    List.mem_cons_of_mem f h.null, ?_, hready'⟩
  exact List.forall_mem_cons.mpr ⟨hused f le_rfl hself, fun g hg => hkept g (h.used g hg)⟩

/-- Pages in memory are given back. -/
lemma vmmFree_returns (k : Kernel) {f n : ℕ} (h : f + (toInt n).toNat ≤ frameCount) :
    ∃ k', vmmFree k (f * 0x1000) n = .ok k' := by
  have hcount : f * 0x1000 / 4096 + (toInt n).toNat ≤ frameCount := by
    rwa [Nat.mul_div_cancel f (by norm_num)]
  obtain ⟨q, hq, -⟩ := pmmFreeRange_ok (p := k.pmm) hcount
  exact ⟨{ k with pmm := q }, by rw [vmmFree, hq]; rfl⟩

/-- Every frame outside the pool is in use. -/
def Pmm.full (p : Pmm) : Pmm :=
  { p with bitmap := fun w => p.bitmap w &&& ~~~(p.bitmapPagetableMask w) }

/-- A memory that is full has no free frames but those of the pool. -/
lemma Pmm.becomes_full (p : Pmm) : p.Becomes p.full fun f => ¬p.Pool f ∨ p.Used f := by
  refine ⟨rfl, fun f => ?_⟩
  rw [Pmm.Used, Pmm.Used, Pmm.Pool, Bitmap.marked_iff, Bitmap.marked_iff, Bitmap.marked_iff,
    Pmm.full]
  have hlt : 31 - f % 32 < 32 := by omega
  simp only [BitVec.getLsbD_and, BitVec.getLsbD_not, hlt, decide_true, Bool.true_and]
  cases (p.bitmap (f / 32)).getLsbD (31 - f % 32) <;>
    cases (p.bitmapPagetableMask (f / 32)).getLsbD (31 - f % 32) <;> decide

/-- No frame outside the pool is free. -/
def Pmm.Full (p : Pmm) : Prop := ∀ f, ¬p.Pool f → p.Used f

/-- **`vmm_alloc` of a page in a full memory returns null.** -/
lemma vmmAlloc_full {lo top pages : ℕ} {S : Finset ℕ} {k : Kernel}
    (h : Ready lo S top pages 0 k) (hfull : k.pmm.Full) (hS : 0 ∈ S) :
    ∃ k', vmmAlloc k 1 = .ok (k', 0) ∧ Ready lo S top pages 0 k' ∧ k'.pmm.Full := by
  have hrange : pmmAllocRange k.pmm (toInt 1) = .ok (k.pmm, 0) := by
    rcases pmmAllocRange_spec h.inv.guarded (toInt 1) with ⟨hr, -⟩ | ⟨f, q, -, -, hfree, hrun, -⟩
    · exact hr
    · exact absurd (hfull f (hrun.free f le_rfl (by
        rw [toInt_toNat (by norm_num)]
        exact Nat.lt_succ_self f)).2) hfree
  obtain ⟨k', hmap, -, hready⟩ := h.mapKernel 0 0 (ptePresent ||| pteWrite) (by norm_num)
    (by decide) hS
  have halloc : vmmAlloc k 1 = .ok (k', 0) := by
    rw [vmmAlloc, hrange, ok_bind]
    change (do let k ← [0].foldlM _ k; Except.ok (k, 0)) = _
    rw [List.foldlM_cons, Nat.zero_mul, wrap32_of_lt (by norm_num)]
    change (do let k ← (do let k ← mapPage k k.kernelContext 0 0 (ptePresent ||| pteWrite); _); _)
      = _
    rw [hmap]
    rfl
  obtain ⟨pmm, hrange', hgrow, -⟩ := vmmAlloc_spec h.inv halloc
  obtain ⟨rfl, -⟩ := Prod.mk.inj (Except.ok.inj (hrange.symm.trans hrange'))
  refine ⟨k', halloc, hready, fun f hf => (hgrow.used f).mpr (.inl (hfull f ?_))⟩
  exact fun hpool => hf ((hgrow.pool f).mpr hpool)

/-- The machine with all its memory in use. -/
lemma full_kernel : ∃ k, KernelInv bootLayout.poolFrame k ∧ k.pmm.Used 0 ∧ k.pmm.Full ∧
    Ready bootLayout.poolFrame {0, 1} 0x440 29 0 k := by
  obtain ⟨k, hinv, hzero, hready⟩ := machine_kernel
  have hb := k.pmm.becomes_full
  have hfull : VmmInv bootLayout.poolFrame { k with pmm := k.pmm.full } := hinv.vmm.of_becomes hb
  refine ⟨{ k with pmm := k.pmm.full }, ⟨hfull, hinv.low, hinv.tasks.of_pmm _⟩,
    (hb.used 0).mpr (.inr hzero), fun f hf => (hb.used f).mpr (.inl hf),
    hready.congr hfull (fun i => exists_congr fun p => owns_pmm _ _ p)
      (fun j hj => hj.of_keep hb.mask fun g hu => ((hb.used g).mp hu).symm) ?_⟩
  refine ⟨0x401, ⟨by decide, fun g h1 h2 => ?_⟩, by norm_num, by norm_num⟩
  omega

end MicroOS
