import MicroOS.FileSystem.Initrd
import MicroOS.FileSystem.RamfsRun

/-!
The bounds of `ramfs_read`, `initrd_read` and `ramfs_write`, with the sizes in their 32 bits.

* `Asserting`: where an assertion fails; `assertFail` is `__assert_fail`, which may return;
* `FileNode`: a node with its `int` of a size; `resizeInt` is `vmm_resize` of such a buffer;
* `FileNode.ramfsRead`, `InitrdFile.initrdReads`, `FileNode.ramfsWrite`, `FileNode.ramfsTruncate`:
  the calls, with the bytes of memory that they copy;
* `resizeBytes_words`, `FileNode.ramfsRead_eq`: below `2 ^ 31` they are those of `Ramfs`, and
  `RamfsRun.Stored.whole`: there the buffers of its runs are as these calls take them;
* `file_bounds_iff`: **the copies stay inside the file** just for these calls.
-/

namespace MicroOS

open ByteMem Checked PageEntry

/-! ### Assertions -/

/-- Where an assertion fails: whether the scheduler runs, the interrupt that ends the `hlt` of
`exit_task`, and whether `x` is what `abortf` reads from the serial line
(`ALLOW_PANIC_CONTINUE`). -/
structure Asserting where
  isSchedulerRunning : Bool
  intr : ℕ
  continued : Bool

/-- The interrupt returns to the task that was ended: it is one of a device, and not the timer's,
whose handler goes on with another task. Without the scheduler a panic that is continued returns. -/
def Asserting.Returns (a : Asserting) : Prop :=
  a.isSchedulerRunning = true ∧ 0x21 ≤ a.intr ∧ a.intr ≤ 0x2f ∨
    a.isSchedulerRunning = false ∧ a.continued = true

instance (a : Asserting) : Decidable a.Returns := inferInstanceAs (Decidable (_ ∨ _))

/-- `__assert_fail`, without what it prints. The task that runs is ended and waits for an interrupt;
when that returns to it, so does `__assert_fail`. So it does when `abortf` comes back. -/
def assertFail (a : Asserting) : Except Halt Unit :=
  if a.Returns then .ok () else .error .abort

/-- `assert`. -/
def assert (a : Asserting) (expr : Prop) [Decidable expr] : Except Halt Unit :=
  if expr then .ok () else assertFail a

/-! ### The calls -/

/-- `ramfs_node_t` of a file, with the `int` of its size. -/
structure FileNode where
  fsize : BitVec 32
  fdata : ℕ

/-- `(1 * size) / 0x1000 + 1`, as `int`. -/
def pagesOfInt (size : BitVec 32) : ℤ := size.toInt.tdiv 0x1000 + 1

/-- A number of pages, as the `uint32_t` that `vmm_alloc` and `vmm_free` take. -/
def pageCount (pages : ℤ) : ℕ := (BitVec.ofInt 32 pages).toNat

/-- A range of memory, by its address and its length. -/
abbrev MemRange := ℕ × ℕ

/-- A call of `memcpy`: where to, from where, and how many bytes; without a source it copies from
the buffer of the caller. -/
structure MemCopy where
  dest : ℕ
  source : Option ℕ
  length : ℕ

/-- The memory after a call of `memcpy`, when the buffer of the caller holds `data`. -/
def MemCopy.run (data : List UInt8) (m : Mem) (c : MemCopy) : Mem :=
  match c.source with
  | some src => kernelMemcpy m c.dest src c.length
  | none => storeBytes m c.dest data

/-- `vmm_resize(1, oldSize, newSize, ptr)`, and its calls of `memcpy`. -/
def resizeInt (k : Kernel) (oldSize newSize : BitVec 32) (ptr : ℕ) :
    Except Halt (Kernel × ℕ × List MemCopy) := do
  let newSizeP := pagesOfInt newSize
  let oldSizeP := pagesOfInt oldSize
  if ptr = 0 then
    let (k, newPtr) ← vmmAlloc k (pageCount newSizeP)
    return (k, newPtr, [])
  else if newSize = 0 then return (← vmmFree k ptr (pageCount oldSizeP), 0, [])
  else if newSizeP ≠ oldSizeP then
    let (k, newPtr) ← vmmAlloc k (pageCount newSizeP)
    let copied := if newSizeP < oldSizeP then newSize else oldSize
    return (← vmmFree k ptr (pageCount oldSizeP), newPtr, [⟨newPtr, some ptr, copied.toNat⟩])
  else return (k, ptr, [])

/-- A read of a file that has its bytes at `data`, the range that is copied to the buffer of the
caller. The size of the file is compared as an unsigned number. -/
def readRange (a : Asserting) (fileSize data : ℕ) (size offset : BitVec 32) :
    Except Halt MemRange := do
  assert a (fileSize ≥ (offset + size).toNat)
  return (wrap32 (data + offset.toNat), size.toNat)

/-- `ramfs_read`. -/
def FileNode.ramfsRead (node : FileNode) (a : Asserting) (size offset : BitVec 32) :
    Except Halt MemRange :=
  readRange a node.fsize.toNat node.fdata size offset

/-- `initrd_read`. -/
def InitrdFile.initrdReads (f : InitrdFile) (a : Asserting) (size offset : BitVec 32) :
    Except Halt MemRange :=
  readRange a f.size f.driverSpecificData size offset

/-- `ramfs_write` on the node of the file, and its calls of `memcpy`. -/
def FileNode.ramfsWrite (node : FileNode) (k : Kernel) (size offset : BitVec 32) :
    Except Halt (Kernel × FileNode × List MemCopy) := do
  let newFileSize := offset + size
  let (k, node, copied) ←
    if node.fsize.slt newFileSize then do
      let (k, fdata, copied) ← resizeInt k node.fsize newFileSize node.fdata
      pure (k, (⟨newFileSize, fdata⟩ : FileNode), copied)
    else pure (k, node, [])
  return (k, node, copied ++ [⟨wrap32 (node.fdata + offset.toNat), none, size.toNat⟩])

/-- `ramfs_truncate` on the node of the file, and its calls of `memcpy`. -/
def FileNode.ramfsTruncate (node : FileNode) (k : Kernel) (newSize : BitVec 32) :
    Except Halt (Kernel × FileNode × List MemCopy) := do
  let (k, fdata, copied) ← resizeInt k node.fsize newSize node.fdata
  return (k, ⟨newSize, fdata⟩, copied)

/-! ### Buffers -/

/-- The bytes of the pages of a buffer, as `vmm_resize` counts them. -/
def bufferBytes (size : BitVec 32) : ℕ := (pagesOfInt size).toNat * 0x1000

/-- A frame of the buffer of a file. -/
def FileNode.Frame (node : FileNode) (f : ℕ) : Prop :=
  node.fdata ≠ 0 ∧ node.fdata / 0x1000 ≤ f ∧
    f < node.fdata / 0x1000 + (pagesOfInt node.fsize).toNat

/-- The buffer of a file is whole: it starts at a page, and its frames are in use. -/
structure FileNode.Whole (node : FileNode) (k : Kernel) : Prop where
  aligned : node.fdata % 0x1000 = 0
  room : node.fdata / 0x1000 + (pagesOfInt node.fsize).toNat ≤ frameCount
  used : ∀ f, node.Frame f → k.pmm.Used f

/-- A range lies in the buffer of a file, whose frames are in use. -/
structure FileNode.Holds (node : FileNode) (k : Kernel) (r : MemRange) : Prop where
  buffer : node.fdata ≠ 0
  start : node.fdata ≤ r.1
  finish : r.1 + r.2 ≤ node.fdata + bufferBytes node.fsize
  used : ∀ f, node.Frame f → k.pmm.Used f

/-- `vmm_resize` moves the buffer of a file. -/
def FileNode.Moves (node : FileNode) (newSize : BitVec 32) : Prop :=
  node.fdata ≠ 0 ∧ newSize ≠ 0 ∧ pagesOfInt newSize ≠ pagesOfInt node.fsize

/-- `vmm_resize` finds the pages that it asks for. -/
def FileNode.Finds (node : FileNode) (k : Kernel) (newSize : BitVec 32) : Prop :=
  node.fdata = 0 ∨ pagesOfInt newSize ≠ pagesOfInt node.fsize →
    ∃ f, k.pmm.FreeRun f (pagesOfInt newSize).toNat

variable {lo p newPtr : ℕ} {k k' k₁ : Kernel} {node node' : FileNode}
  {size offset newSize : BitVec 32} {a : Asserting} {copied : List MemCopy}

/-! ### Sizes -/

/-- The pages of a size that is not negative. -/
lemma pagesOfInt_of_nonneg (h : 0 ≤ size.toInt) : pagesOfInt size = pagesOf size.toNat := by
  rw [pagesOfInt, pagesOf, Int.tdiv_eq_ediv_of_nonneg h]
  rw [BitVec.toInt_eq_toNat_cond] at *
  split_ifs at * <;> omega

/-- The pages of a negative size. -/
lemma pagesOfInt_of_neg (h : size.toInt < 0) : pagesOfInt size = 1 - -size.toInt / 0x1000 := by
  have hdiv : size.toInt.tdiv 0x1000 = -(-size.toInt / 0x1000) := by
    rw [← Int.tdiv_eq_ediv_of_nonneg (by omega), Int.neg_tdiv, neg_neg]
  rw [pagesOfInt, hdiv]
  omega

/-- A size that is negative has one page at most. -/
lemma pagesOfInt_le_one (h : size.toInt < 0) : pagesOfInt size ≤ 1 := by
  rw [pagesOfInt_of_neg h]
  omega

/-- The number of pages of a size is far from the ends of an `int`. -/
lemma pagesOfInt_bounds (size : BitVec 32) :
    -2 ^ 19 < pagesOfInt size ∧ pagesOfInt size ≤ 2 ^ 19 := by
  have hlo := size.le_toInt
  have hhi := size.toInt_lt
  by_cases h : 0 ≤ size.toInt
  · rw [pagesOfInt, Int.tdiv_eq_ediv_of_nonneg h]
    omega
  · rw [pagesOfInt_of_neg (by omega)]
    omega

/-- `vmm_alloc` and `vmm_free` see the number of pages as an `int` again. -/
lemma toInt_pageCount (size : BitVec 32) :
    MicroOS.toInt (pageCount (pagesOfInt size)) = pagesOfInt size := by
  obtain ⟨hlo, hhi⟩ := pagesOfInt_bounds size
  rw [pageCount, BitVec.toNat_ofInt, MicroOS.toInt]
  split_ifs with h <;> omega

/-- A positive count of pages is what the loops of `vmm_alloc` count to. -/
lemma pageCount_of_pos (h : 0 < pagesOfInt size) :
    pageCount (pagesOfInt size) = (pagesOfInt size).toNat := by
  obtain ⟨-, hhi⟩ := pagesOfInt_bounds size
  rw [pageCount, BitVec.toNat_ofInt]
  omega

/-! ### Pages -/

/-- What `vmm_alloc` of some pages returns. -/
structure Allocated (k k' : Kernel) (n ptr : ℕ) : Prop where
  finds : ptr ≠ 0 ↔ ∃ f, k.pmm.FreeRun f n
  aligned : ptr % 0x1000 = 0
  room : ptr / 0x1000 + n ≤ frameCount
  fresh : ptr ≠ 0 → ∀ f, ptr / 0x1000 ≤ f → f < ptr / 0x1000 + n → k'.pmm.Used f ∧ ¬k.pmm.Used f
  kept : ∀ f, k.pmm.Used f → k'.pmm.Used f

/-- `vmm_alloc` of pages that an `int` can count. -/
lemma vmmAlloc_allocated {n : ℕ} (hi : KernelInv lo k) (hzero : k.pmm.Used 0) (hn : 0 < n)
    (hlt : n ≤ 2 ^ 19) (h : vmmAlloc k n = .ok (k', newPtr)) : Allocated k k' n newPtr := by
  by_cases hroom : ∃ f, k.pmm.FreeRun f n
  · obtain ⟨-, f, rfl, hne, hrun, hused, hkept⟩ := vmmAlloc_room hi hzero hn (by omega) hroom h
    have hdiv : f * 0x1000 / 0x1000 = f := Nat.mul_div_cancel f (by norm_num)
    refine ⟨iff_of_true (by omega) hroom, Nat.mul_mod_left f 0x1000, ?_, fun _ g h1 h2 => ?_, hkept⟩
    · rw [hdiv]
      exact hrun.room
    · rw [hdiv] at h1 h2
      exact ⟨hused g h1 h2, (hrun.free g h1 h2).1⟩
  · obtain ⟨pmm, hrange, hgrow, -⟩ := vmmAlloc_spec hi.vmm h
    rcases pmmAllocRange_spec hi.vmm.guarded (MicroOS.toInt n) with
      ⟨hr, -⟩ | ⟨f, q, -, -, -, hfree, -⟩
    · obtain ⟨rfl, rfl⟩ := Prod.mk.inj (Except.ok.inj (hrange.symm.trans hr))
      refine ⟨iff_of_false (not_not.mpr rfl) hroom, rfl, ?_, fun hne => absurd rfl hne,
        fun g hg => (hgrow.used g).mpr (.inl hg)⟩
      rw [frameCount]
      omega
    · rw [toInt_toNat (by omega)] at hfree
      exact absurd ⟨f, hfree⟩ hroom

/-- `vmm_free` keeps what is not given back. -/
lemma vmmFree_kept (hroom : p / 0x1000 + (pagesOfInt size).toNat ≤ frameCount)
    (h : vmmFree k p (pageCount (pagesOfInt size)) = .ok k') {f : ℕ} (hused : k.pmm.Used f)
    (hf : ¬(p / 0x1000 ≤ f ∧ f < p / 0x1000 + (pagesOfInt size).toNat)) : k'.pmm.Used f := by
  rw [vmmFree, toInt_pageCount, bind_eq_ok] at h
  obtain ⟨pmm, hfree, hret⟩ := h
  obtain rfl := Except.ok.inj hret
  obtain ⟨q, hq, hb⟩ := pmmFreeRange_ok (p := k.pmm) hroom
  obtain rfl : q = pmm := Except.ok.inj (hq.symm.trans hfree)
  exact (hb.used f).mpr ⟨hf, hused⟩

/-! ### `vmm_resize` -/

/-- The ways through `vmm_resize`. -/
lemma resizeInt_cases (h : resizeInt k node.fsize newSize node.fdata = .ok (k', newPtr, copied)) :
    (node.fdata = 0 ∧ vmmAlloc k (pageCount (pagesOfInt newSize)) = .ok (k', newPtr) ∧
      copied = []) ∨
    (node.fdata ≠ 0 ∧ newSize = 0 ∧ newPtr = 0 ∧ copied = []) ∨
    (node.Moves newSize ∧ ∃ k₁, vmmAlloc k (pageCount (pagesOfInt newSize)) = .ok (k₁, newPtr) ∧
      vmmFree k₁ node.fdata (pageCount (pagesOfInt node.fsize)) = .ok k' ∧
      copied = [⟨newPtr, some node.fdata,
        (if pagesOfInt newSize < pagesOfInt node.fsize then newSize else node.fsize).toNat⟩]) ∨
    (node.fdata ≠ 0 ∧ newSize ≠ 0 ∧ pagesOfInt newSize = pagesOfInt node.fsize ∧ k' = k ∧
      newPtr = node.fdata ∧ copied = []) := by
  rw [resizeInt] at h
  dsimp only at h
  by_cases hptr : node.fdata = 0
  · rw [if_pos hptr] at h
    obtain ⟨⟨k₁, q⟩, halloc, hret⟩ := bind_eq_ok.mp h
    cases hret
    exact .inl ⟨hptr, halloc, rfl⟩
  rw [if_neg hptr] at h
  by_cases hnew : newSize = 0
  · rw [if_pos hnew] at h
    obtain ⟨k₁, hfree, hret⟩ := bind_eq_ok.mp h
    cases hret
    exact .inr (.inl ⟨hptr, hnew, rfl, rfl⟩)
  rw [if_neg hnew] at h
  by_cases hpages : pagesOfInt newSize = pagesOfInt node.fsize
  · rw [if_neg (not_not.mpr hpages)] at h
    cases h
    exact .inr (.inr (.inr ⟨hptr, hnew, hpages, rfl, rfl, rfl⟩))
  · rw [if_pos hpages] at h
    obtain ⟨⟨k₁, q⟩, halloc, h⟩ := bind_eq_ok.mp h
    obtain ⟨k₂, hfree, hret⟩ := bind_eq_ok.mp h
    cases hret
    exact .inr (.inr (.inl ⟨⟨hptr, hnew, hpages⟩, k₁, halloc, hfree, rfl⟩))

/-- **What `vmm_resize` does to a buffer** whose new size is positive: it is whole again, and there
is one just if the pages are found. -/
lemma resizeInt_whole (hi : KernelInv lo k) (hzero : k.pmm.Used 0) (hwhole : node.Whole k)
    (hnew : 0 < newSize.toInt)
    (h : resizeInt k node.fsize newSize node.fdata = .ok (k', newPtr, copied)) :
    (newPtr ≠ 0 ↔ node.Finds k newSize) ∧ FileNode.Whole ⟨newSize, newPtr⟩ k' := by
  have hpages : pagesOfInt newSize = pagesOf newSize.toNat := pagesOfInt_of_nonneg hnew.le
  have hpos : 0 < pagesOfInt newSize := by
    rw [hpages, pagesOf]
    omega
  have hbound : (pagesOfInt newSize).toNat ≤ 2 ^ 19 := by
    have := (pagesOfInt_bounds newSize).2
    omega
  have halloc : ∀ k₁, vmmAlloc k (pageCount (pagesOfInt newSize)) = .ok (k₁, newPtr) →
      Allocated k k₁ (pagesOfInt newSize).toNat newPtr := by
    intro k₁ halloc
    rw [pageCount_of_pos hpos] at halloc
    exact vmmAlloc_allocated hi hzero (by omega) hbound halloc
  rcases resizeInt_cases h with ⟨hptr, hk, -⟩ | ⟨hptr, rfl, -⟩ |
    ⟨⟨hptr, -, hne⟩, k₁, hk, hfree, -⟩ | ⟨hptr, -, heq, rfl, rfl, -⟩
  · have ha := halloc k' hk
    refine ⟨⟨fun hne _ => ha.finds.mp hne, fun hf => ha.finds.mpr (hf (.inl hptr))⟩, ha.aligned,
      ha.room, ?_⟩
    rintro f ⟨hne, h1, h2⟩
    exact (ha.fresh hne f h1 h2).1
  · exact absurd hnew (by decide)
  · have ha := halloc k₁ hk
    refine ⟨⟨fun hp _ => ha.finds.mp hp, fun hf => ha.finds.mpr (hf (.inr hne))⟩, ha.aligned,
      ha.room, ?_⟩
    -- the new frames were free, so none of them is given back
    rintro f ⟨hp, h1, h2⟩
    obtain ⟨hused, hnot⟩ := ha.fresh hp f h1 h2
    exact vmmFree_kept hwhole.room hfree hused fun hold => hnot (hwhole.used f ⟨hptr, hold⟩)
  · refine ⟨iff_of_true hptr fun hf => ?_, hwhole.aligned, ?_, ?_⟩
    · exact absurd hf (not_or.mpr ⟨hptr, not_not.mpr heq⟩)
    · dsimp only
      rw [heq]
      exact hwhole.room
    · rintro f ⟨hp, h1, h2⟩
      dsimp only at h1 h2
      rw [heq] at h2
      exact hwhole.used f ⟨hp, h1, h2⟩

/-! ### The bounds -/

/-- `ramfs_write` makes the file larger. -/
def FileNode.Grows (node : FileNode) (size offset : BitVec 32) : Prop :=
  node.fsize.toInt < (offset + size).toInt

instance (node : FileNode) (size offset : BitVec 32) : Decidable (node.Grows size offset) :=
  inferInstanceAs (Decidable (_ < _))

/-- The ways through `ramfs_write`. -/
lemma FileNode.ramfsWrite_cases (h : node.ramfsWrite k size offset = .ok (k', node', copied)) :
    (¬node.Grows size offset ∧ k' = k ∧ node' = node ∧
      copied = [⟨wrap32 (node.fdata + offset.toNat), none, size.toNat⟩]) ∨
    (node.Grows size offset ∧ ∃ newPtr moved,
      resizeInt k node.fsize (offset + size) node.fdata = .ok (k', newPtr, moved) ∧
      node' = ⟨offset + size, newPtr⟩ ∧
      copied = moved ++ [⟨wrap32 (newPtr + offset.toNat), none, size.toNat⟩]) := by
  rw [ramfsWrite] at h
  dsimp only at h
  by_cases hgrows : node.Grows size offset
  · rw [if_pos (BitVec.slt_iff_toInt_lt.mpr hgrows)] at h
    obtain ⟨⟨k₁, newPtr, moved⟩, hresize, hret⟩ := bind_eq_ok.mp h
    cases hret
    exact .inr ⟨hgrows, newPtr, moved, hresize, rfl, rfl⟩
  · rw [if_neg (fun hlt => hgrows (BitVec.slt_iff_toInt_lt.mp hlt))] at h
    cases h
    exact .inl ⟨hgrows, rfl, rfl, rfl⟩

/-- A range at an offset that lies in the buffer of a file ends in it. -/
lemma FileNode.Holds.le {o n : ℕ} (h : node.Holds k (wrap32 (node.fdata + o), n))
    (ho : o < 2 ^ 32) : o + n ≤ bufferBytes node.fsize := by
  have hstart : node.fdata ≤ wrap32 (node.fdata + o) := h.start
  have hfinish : wrap32 (node.fdata + o) + n ≤ node.fdata + bufferBytes node.fsize := h.finish
  rw [wrap32] at hstart hfinish
  omega

/-- The ranges that lie in a buffer that is whole. -/
lemma FileNode.Whole.holds_iff {o n : ℕ} (h : node.Whole k) (ho : o < 2 ^ 32) (hn : 0 < n) :
    node.Holds k (wrap32 (node.fdata + o), n) ↔
      node.fdata ≠ 0 ∧ o + n ≤ bufferBytes node.fsize := by
  refine ⟨fun hholds => ⟨hholds.buffer, hholds.le ho⟩, fun ⟨hptr, hle⟩ => ?_⟩
  have hal := h.aligned
  have hroom := h.room
  rw [frameCount] at hroom
  have hwrap : wrap32 (node.fdata + o) = node.fdata + o := by
    refine wrap32_of_lt ?_
    rw [bufferBytes] at hle
    omega
  refine ⟨hptr, ?_, ?_, h.used⟩
  · rw [hwrap]
    exact Nat.le_add_right _ _
  · rw [hwrap]
    dsimp only
    omega

lemma toNat_add_eq (size offset : BitVec 32) :
    (offset + size).toNat = wrap32 (offset.toNat + size.toNat) := rfl

/-- A size asks for something. -/
lemma size_ne_zero_iff : size ≠ 0 ↔ 0 < size.toNat := by
  refine ⟨fun h => Nat.pos_of_ne_zero fun h0 => h (BitVec.eq_of_toNat_eq h0), ?_⟩
  rintro hpos rfl
  exact absurd hpos (by decide)

lemma le_bufferBytes (h : 0 ≤ size.toInt) : size.toNat ≤ bufferBytes size := by
  rw [bufferBytes, pagesOfInt_of_nonneg h, pagesOf]
  omega

/-- A buffer never has more than half of the address space. -/
lemma bufferBytes_le (size : BitVec 32) : bufferBytes size ≤ 2 ^ 31 := by
  obtain ⟨-, hhi⟩ := pagesOfInt_bounds size
  rw [bufferBytes]
  omega

/-- A negative size stands for a page at most. -/
lemma bufferBytes_of_neg (h : size.toInt < 0) : bufferBytes size ≤ 0x1000 := by
  have hone := pagesOfInt_le_one h
  rw [bufferBytes]
  omega

/-- A larger size has no fewer pages. -/
lemma pagesOfInt_mono (h : size.toInt ≤ newSize.toInt) : pagesOfInt size ≤ pagesOfInt newSize := by
  have hdiv := Int.tdiv_le_tdiv (show (0 : ℤ) < 0x1000 by norm_num) h
  rw [pagesOfInt, pagesOfInt]
  omega

/-- A range ends in the buffer of its own end just below `2 ^ 31`. -/
lemma le_bufferBytes_add : offset.toNat + size.toNat ≤ bufferBytes (offset + size) ↔
    offset.toNat + size.toNat < 2 ^ 31 := by
  have hsum := toNat_add_eq size offset
  have hint := (offset + size).toInt_eq_toNat_cond
  constructor
  · intro hle
    by_cases hneg : (offset + size).toInt < 0
    · have := bufferBytes_of_neg hneg
      rw [wrap32] at hsum
      split_ifs at hint <;> omega
    · rw [bufferBytes, pagesOfInt_of_nonneg (by omega), pagesOf] at hle
      rw [wrap32] at hsum
      split_ifs at hint <;> omega
  · intro hlt
    rw [wrap32_of_lt (by omega)] at hsum
    rw [← hsum]
    refine le_bufferBytes ?_
    rw [hint, if_pos (by omega)]
    omega

/-- **A write that stays in the buffer.** If it writes anything, it ends below `2 ^ 31`, or at
`2 ^ 31` in a buffer of that size, and the buffer is there; if `vmm_resize` moves bytes, it finds
the pages for them, and they fit, which an old size that is not negative does. -/
structure WriteFits (k : Kernel) (node : FileNode) (size offset : BitVec 32) : Prop where
  ends : size ≠ 0 → offset.toNat + size.toNat < 2 ^ 31 ∨
    offset.toNat + size.toNat = 2 ^ 31 ∧ bufferBytes node.fsize = 2 ^ 31
  buffer : size ≠ 0 → ¬node.Grows size offset → node.fdata ≠ 0
  finds : size ≠ 0 → node.Grows size offset → node.Finds k (offset + size)
  moved : node.Grows size offset → node.Moves (offset + size) → node.fsize ≠ 0 →
    node.Finds k (offset + size) ∧ node.fsize.toNat ≤ bufferBytes (offset + size)

/-- The end of a write, where the file does not grow. -/
lemma le_bufferBytes_iff (h : ¬node.Grows size offset) :
    offset.toNat + size.toNat ≤ bufferBytes node.fsize ↔
      offset.toNat + size.toNat < 2 ^ 31 ∨
        offset.toNat + size.toNat = 2 ^ 31 ∧ bufferBytes node.fsize = 2 ^ 31 := by
  have hmax := bufferBytes_le node.fsize
  constructor
  · intro hle
    omega
  · rintro (hlt | ⟨heq, hall⟩)
    · have hsum := toNat_add_eq size offset
      rw [wrap32_of_lt (by omega)] at hsum
      have hint := (offset + size).toInt_eq_toNat_cond
      rw [if_pos (by omega)] at hint
      rw [FileNode.Grows, hint] at h
      have hle := @le_bufferBytes node.fsize (by omega)
      have hsize := node.fsize.toInt_eq_toNat_cond
      split_ifs at hsize <;> omega
    · rw [heq, hall]

/-- A file that grows over a negative size to one that holds as many bytes as it has. -/
lemma toInt_pos_of_moved (hgrows : node.Grows size offset) (hmoves : node.Moves (offset + size))
    (hle : node.fsize.toNat ≤ bufferBytes (offset + size)) : 0 < (offset + size).toInt := by
  have hne : (offset + size).toInt ≠ 0 := fun h0 =>
    hmoves.2.1 (BitVec.toInt_inj.mp (h0.trans BitVec.toInt_zero.symm))
  by_contra hneg
  have hlt : (offset + size).toInt < 0 := by omega
  have hsmall := bufferBytes_of_neg hlt
  have hold := node.fsize.toInt_eq_toNat_cond
  rw [FileNode.Grows] at hgrows
  split_ifs at hold <;> omega

/-- The bytes that `vmm_resize` moves. -/
lemma moved_fit_iff (hi : KernelInv lo k) (hzero : k.pmm.Used 0) (hwhole : node.Whole k)
    (hgrows : node.Grows size offset) {moved : List MemCopy}
    (h : resizeInt k node.fsize (offset + size) node.fdata = .ok (k', newPtr, moved)) :
    (∀ c ∈ moved, 0 < c.length → FileNode.Holds ⟨offset + size, newPtr⟩ k' (c.dest, c.length)) ↔
      (node.Moves (offset + size) → node.fsize ≠ 0 →
        node.Finds k (offset + size) ∧ node.fsize.toNat ≤ bufferBytes (offset + size)) := by
  by_cases hmoves : node.Moves (offset + size)
  · obtain ⟨hptr, hnew, hne⟩ := hmoves
    rcases resizeInt_cases h with ⟨h0, -⟩ | ⟨-, h0, -⟩ | ⟨-, k₁, -, -, rfl⟩ | ⟨-, -, heq, -⟩
    · exact absurd h0 hptr
    · exact absurd h0 hnew
    · have hmono := pagesOfInt_mono (le_of_lt hgrows)
      rw [if_neg (by omega), List.forall_mem_singleton]
      constructor
      · intro hholds hmoves hsize
        have hin := hholds (size_ne_zero_iff.mp hsize)
        have hle : node.fsize.toNat ≤ bufferBytes (offset + size) := by
          have hfinish : newPtr + node.fsize.toNat ≤ newPtr + bufferBytes (offset + size) :=
            hin.finish
          omega
        have hfound :=
          (resizeInt_whole hi hzero hwhole (toInt_pos_of_moved hgrows hmoves hle) h).1
        exact ⟨hfound.mp hin.buffer, hle⟩
      · intro hfits hcopied
        have hmoves : node.Moves (offset + size) := ⟨hptr, hnew, hne⟩
        obtain ⟨hfinds, hle⟩ := hfits hmoves (size_ne_zero_iff.mpr hcopied)
        obtain ⟨hfound, hwhole'⟩ := resizeInt_whole hi hzero hwhole
          (toInt_pos_of_moved hgrows hmoves hle) h
        exact ⟨hfound.mpr hfinds, le_rfl, Nat.add_le_add_left hle newPtr, hwhole'.used⟩
    · exact absurd heq hne
  · rcases resizeInt_cases h with ⟨-, -, rfl⟩ | ⟨-, -, -, rfl⟩ | ⟨hm, -⟩ | ⟨-, -, -, -, -, rfl⟩
    · simp [hmoves]
    · simp [hmoves]
    · exact absurd hm hmoves
    · simp [hmoves]

/-- The bytes that `ramfs_write` copies to a file that grows. -/
lemma written_fit_iff (hi : KernelInv lo k) (hzero : k.pmm.Used 0) (hwhole : node.Whole k)
    (hsize : size ≠ 0) {moved : List MemCopy}
    (h : resizeInt k node.fsize (offset + size) node.fdata = .ok (k', newPtr, moved)) :
    FileNode.Holds ⟨offset + size, newPtr⟩ k' (wrap32 (newPtr + offset.toNat), size.toNat) ↔
      offset.toNat + size.toNat < 2 ^ 31 ∧ node.Finds k (offset + size) := by
  have hpos := size_ne_zero_iff.mp hsize
  have hnew : offset.toNat + size.toNat < 2 ^ 31 → 0 < (offset + size).toInt := by
    intro hlt
    have hsum := toNat_add_eq size offset
    rw [wrap32_of_lt (by omega)] at hsum
    rw [BitVec.toInt_eq_toNat_cond, if_pos (by omega)]
    omega
  constructor
  · intro hholds
    have hle := le_bufferBytes_add.mp (hholds.le offset.isLt)
    exact ⟨hle, (resizeInt_whole hi hzero hwhole (hnew hle) h).1.mp hholds.buffer⟩
  · rintro ⟨hlt, hfinds⟩
    obtain ⟨hfound, hwhole'⟩ := resizeInt_whole hi hzero hwhole (hnew hlt) h
    exact (hwhole'.holds_iff offset.isLt hpos).mpr ⟨hfound.mpr hfinds, le_bufferBytes_add.mpr hlt⟩

/-- **`ramfs_write` stays in the buffer of the file** just for the writes that fit. -/
lemma FileNode.ramfsWrite_inside_iff (hi : KernelInv lo k) (hzero : k.pmm.Used 0)
    (hwhole : node.Whole k)
    (h : node.ramfsWrite k size offset = .ok (k', node', copied)) :
    (∀ c ∈ copied, 0 < c.length → node'.Holds k' (c.dest, c.length)) ↔
    WriteFits k node size offset := by
  rcases FileNode.ramfsWrite_cases h with ⟨hgrows, rfl, rfl, rfl⟩ |
    ⟨hgrows, newPtr, moved, hresize, rfl, rfl⟩
  · rw [List.forall_mem_singleton]
    constructor
    · intro hin
      refine ⟨fun hsize => ?_, fun hsize _ => (hin (size_ne_zero_iff.mp hsize)).buffer,
        fun _ hg => absurd hg hgrows, fun hg => absurd hg hgrows⟩
      exact (le_bufferBytes_iff hgrows).mp ((hin (size_ne_zero_iff.mp hsize)).le offset.isLt)
    · intro hfits hcopied
      have hsize := size_ne_zero_iff.mpr hcopied
      exact (hwhole.holds_iff offset.isLt hcopied).mpr
        ⟨hfits.buffer hsize hgrows, (le_bufferBytes_iff hgrows).mpr (hfits.ends hsize)⟩
  · have hmoved := moved_fit_iff hi hzero hwhole hgrows hresize
    rw [List.forall_mem_append, List.forall_mem_singleton, hmoved]
    constructor
    · rintro ⟨hm, hin⟩
      have hwritten := fun hsize : size ≠ 0 =>
        (written_fit_iff hi hzero hwhole hsize hresize).mp (hin (size_ne_zero_iff.mp hsize))
      exact ⟨fun hsize => .inl (hwritten hsize).1, fun _ hg => absurd hgrows hg,
        fun hsize _ => (hwritten hsize).2, fun _ => hm⟩
    · intro hfits
      refine ⟨hfits.moved hgrows, fun hcopied => ?_⟩
      have hsize := size_ne_zero_iff.mpr hcopied
      refine (written_fit_iff hi hzero hwhole hsize hresize).mpr
        ⟨?_, hfits.finds hsize hgrows⟩
      -- at `2 ^ 31` the new size is the least `int`, and the file does not grow
      rcases hfits.ends hsize with hlt | ⟨heq, -⟩
      · exact hlt
      · have hsum := toNat_add_eq size offset
        rw [heq, wrap32_of_lt (by norm_num)] at hsum
        have hint := (offset + size).toInt_eq_toNat_cond
        rw [if_neg (by omega)] at hint
        have hlow := node.fsize.le_toInt
        rw [FileNode.Grows] at hgrows
        omega

/-! ### Reads -/

/-- The bytes of a read are copied only from inside a file. -/
def ReadInside (r : Except Halt MemRange) (fileSize : ℤ) (size offset : BitVec 32) : Prop :=
  ∀ range, r = .ok range → 0 < range.2 → (offset.toNat + size.toNat : ℤ) ≤ fileSize

/-- **A read that stays in the file**: it asks for nothing, or ends in the file, or its end in 32
bits is past the size, taken as unsigned, and the assertion that fails does not return. -/
def ReadFits (a : Asserting) (stored : ℕ) (fileSize : ℤ) (size offset : BitVec 32) : Prop :=
  size = 0 ∨ (offset.toNat + size.toNat : ℤ) ≤ fileSize ∨
    stored < wrap32 (offset.toNat + size.toNat) ∧ ¬a.Returns

/-- A read copies bytes when its assertion holds or returns. -/
lemma readRange_eq_ok {fileSize data : ℕ} {range : MemRange} :
    readRange a fileSize data size offset = .ok range ↔
      (wrap32 (offset.toNat + size.toNat) ≤ fileSize ∨ a.Returns) ∧
        range = (wrap32 (data + offset.toNat), size.toNat) := by
  rw [readRange, assert, assertFail, toNat_add_eq]
  by_cases hle : wrap32 (offset.toNat + size.toNat) ≤ fileSize
  · rw [if_pos hle]
    exact ⟨fun h => ⟨.inl hle, (Except.ok.inj h).symm⟩, fun h => h.2 ▸ rfl⟩
  · rw [if_neg hle]
    by_cases hret : a.Returns
    · rw [if_pos hret]
      exact ⟨fun h => ⟨.inr hret, (Except.ok.inj h).symm⟩, fun h => h.2 ▸ rfl⟩
    · rw [if_neg hret]
      exact iff_of_false (fun h => by cases h) fun h => not_or.mpr ⟨hle, hret⟩ h.1

/-- **A read stays in the file** just if it fits. -/
lemma readRange_inside_iff {stored data : ℕ} {fileSize : ℤ} :
    ReadInside (readRange a stored data size offset) fileSize size offset ↔
      ReadFits a stored fileSize size offset := by
  constructor
  · intro hin
    by_contra hno
    rw [ReadFits, not_or, not_or, not_and_not_right] at hno
    obtain ⟨hsize, hpast, hcopies⟩ := hno
    refine hpast (hin _ (readRange_eq_ok.mpr ⟨?_, rfl⟩) (size_ne_zero_iff.mp hsize))
    exact (le_or_gt _ _).imp_right hcopies
  · rintro (rfl | hle | ⟨hlt, hret⟩) range hok hpos
    · rw [(readRange_eq_ok.mp hok).2] at hpos
      exact absurd hpos (by simp)
    · exact hle
    · rcases (readRange_eq_ok.mp hok).1 with h | h
      · exact absurd h (not_le.mpr hlt)
      · exact absurd h hret

/-! ### Small sizes -/

/-- A node with its size in 32 bits. -/
def RamfsNode.words (node : RamfsNode) : FileNode := ⟨BitVec.ofNat 32 node.fsize, node.fdata⟩

lemma toInt_ofNat_small {n : ℕ} (h : n < 2 ^ 31) : (BitVec.ofNat 32 n).toInt = n := by
  have hn : (BitVec.ofNat 32 n).toNat = n := Nat.mod_eq_of_lt (by omega)
  rw [BitVec.toInt_eq_toNat_cond, hn, if_pos (by omega)]

lemma pagesOfInt_ofNat {n : ℕ} (h : n < 2 ^ 31) : pagesOfInt (BitVec.ofNat 32 n) = pagesOf n := by
  rw [pagesOfInt_of_nonneg (by rw [toInt_ofNat_small h]; omega), BitVec.toNat_ofNat,
    Nat.mod_eq_of_lt (by omega)]

/-- `vmm_resize` of sizes that are not negative. -/
lemma resizeBytes_words {ptr : ℕ} {bytes : Mem} (data : List UInt8) (hold : size.toNat < 2 ^ 31)
    (hnew : newSize.toNat < 2 ^ 31) :
    resizeBytes k bytes size.toNat newSize.toNat ptr =
      (fun r => (r.1, r.2.2.foldl (MemCopy.run data) bytes, r.2.1)) <$>
        resizeInt k size newSize ptr := by
  have hpages : ∀ s : BitVec 32, s.toNat < 2 ^ 31 → pagesOfInt s = pagesOf s.toNat := by
    intro s hs
    refine pagesOfInt_of_nonneg ?_
    rw [BitVec.toInt_eq_toNat_cond, if_pos (by omega)]
    exact Int.natCast_nonneg _
  have hcount : ∀ s : BitVec 32, s.toNat < 2 ^ 31 →
      pageCount (pagesOfInt s) = pagesOf s.toNat := by
    intro s hs
    rw [pageCount_of_pos (by rw [hpages s hs, pagesOf]; omega), hpages s hs, Int.toNat_natCast]
  have hzero : newSize = 0 ↔ newSize.toNat = 0 :=
    ⟨fun h => by rw [h]; rfl, fun h => BitVec.eq_of_toNat_eq h⟩
  rw [resizeBytes, vmmResize_bytes, resizeInt]
  dsimp only
  rw [hcount _ hold, hcount _ hnew]
  simp only [hzero, hpages _ hold, hpages _ hnew, ne_eq, Nat.cast_inj, Nat.cast_lt]
  by_cases hptr : ptr = 0
  · rw [if_pos hptr, if_pos hptr]
    simp only [hptr, not_true_eq_false, false_and, if_false]
    cases vmmAlloc k (pagesOf newSize.toNat) <;> rfl
  rw [if_neg hptr, if_neg hptr]
  by_cases hnull : newSize.toNat = 0
  · rw [if_pos hnull, if_pos hnull]
    simp only [hnull, not_true_eq_false, false_and, and_false, if_false]
    cases vmmFree k ptr (pagesOf size.toNat) <;> rfl
  rw [if_neg hnull, if_neg hnull]
  by_cases hsame : pagesOf newSize.toNat = pagesOf size.toNat
  · simp only [hsame, not_true_eq_false, and_false, if_false]
    rfl
  · simp only [hptr, hnull, hsame, not_false_eq_true, and_self, if_true]
    cases vmmAlloc k (pagesOf newSize.toNat) with
    | error e => rfl
    | ok r =>
      simp only [ok_bind]
      cases vmmFree r.1 ptr (pagesOf size.toNat) with
      | error e => rfl
      | ok k₂ =>
        -- the number of bytes is the same in both
        have hcopied : (if pagesOf newSize.toNat < pagesOf size.toNat then newSize
            else size).toNat = if pagesOf newSize.toNat < pagesOf size.toNat then newSize.toNat
              else size.toNat := apply_ite _ _ _ _
        simp only [ok_bind, pure, Except.pure, Functor.map, Except.map, List.foldl_cons,
          List.foldl_nil, MemCopy.run, hcopied]

/-- **The buffers of a run of RamFS are whole.** -/
theorem RamfsRun.Stored.whole {r : RamfsRun} (h : RamfsRun.Stored lo r) {n : ℕ}
    (hsize : (r.fs.nodes n).fsize < 2 ^ 31) : (r.fs.nodes n).words.Whole r.fs.kernel := by
  have hbuf := h.buffer n
  have hpages := pagesOfInt_ofNat hsize
  refine ⟨hbuf.aligned, ?_, fun f hf => (hbuf.frames f ?_).1⟩
  · rw [RamfsNode.words, hpages, Int.toNat_natCast]
    exact hbuf.room.le
  · obtain ⟨hptr, h1, h2⟩ := hf
    rw [RamfsNode.words, hpages, Int.toNat_natCast] at h2
    exact ⟨hptr, h1, h2⟩

/-- A read of the initial ramdisk, where an assertion that fails does not return. -/
theorem InitrdFile.initrdReads_eq {m : Mem} {f : InitrdFile} (hret : ¬a.Returns) :
    initrdRead m f size.toNat offset.toNat =
      (fun r => (List.range r.2).map fun i => m (wrap32 (r.1 + i))) <$>
        f.initrdReads a size offset := by
  rw [initrdRead, InitrdFile.initrdReads, readRange, assert, assertFail, toNat_add_eq, if_neg hret]
  by_cases hle : f.size ≥ wrap32 (offset.toNat + size.toNat)
  · rw [if_pos hle, if_pos hle]
    refine congrArg Except.ok (List.map_congr_left fun i _ => ?_)
    rw [wrap32, wrap32, wrap32, Nat.mod_add_mod]
  · rw [if_neg hle, if_neg hle]
    rfl

/-- A read of a file of RamFS below `2 ^ 31`, where an assertion that fails does not return. -/
theorem FileNode.ramfsRead_eq {fs : Ramfs} {file n : ℕ} (hn : (fs.files file).node = n)
    (hret : ¬a.Returns)
    (hsize : (fs.nodes n).fsize < 2 ^ 31) (hsum : offset.toNat + size.toNat < 2 ^ 32) :
    fs.read file size.toNat offset.toNat =
      (fun r => (List.range r.2).map fun i => fs.bytes (wrap32 (r.1 + i))) <$>
        (fs.nodes n).words.ramfsRead a size offset := by
  subst hn
  have hstored : (fs.nodes (fs.files file).node).words.fsize.toNat =
      (fs.nodes (fs.files file).node).fsize := Nat.mod_eq_of_lt (by omega)
  rw [Ramfs.read, FileNode.ramfsRead, readRange, assert, assertFail, toNat_add_eq, if_neg hret,
    wrap32_of_lt hsum, hstored]
  by_cases hle : (fs.nodes (fs.files file).node).fsize ≥ offset.toNat + size.toNat
  · rw [if_pos hle, if_pos hle]
    refine congrArg Except.ok (List.map_congr_left fun i _ => ?_)
    rw [RamfsNode.words, wrap32, wrap32, wrap32, Nat.mod_add_mod]
  · rw [if_neg hle, if_neg hle]
    rfl

/-! ### Inside the file -/

/-- **Reads and writes stay inside the file** just for the calls that fit. -/
theorem file_bounds_iff (f : InitrdFile) (size offset : BitVec 32) (a : Asserting)
    (hi : KernelInv lo k) (hzero : k.pmm.Used 0) (hwhole : node.Whole k) :
    (ReadInside (node.ramfsRead a size offset) node.fsize.toInt size offset ↔
      ReadFits a node.fsize.toNat node.fsize.toInt size offset) ∧
    (ReadInside (f.initrdReads a size offset) f.size size offset ↔
      ReadFits a f.size f.size size offset) ∧
    ∀ k' node' copied, node.ramfsWrite k size offset = .ok (k', node', copied) →
      ((∀ c ∈ copied, 0 < c.length → node'.Holds k' (c.dest, c.length)) ↔
        WriteFits k node size offset) :=
  ⟨readRange_inside_iff, readRange_inside_iff,
    fun _ _ _ h => FileNode.ramfsWrite_inside_iff hi hzero hwhole h⟩

/-- Five bytes are written to a file without a buffer. -/
lemma FileNode.ramfsWrite_first (h : vmmAlloc k 1 = .ok (k', newPtr)) :
    FileNode.ramfsWrite ⟨0, 0⟩ k 5 0 = .ok (k', ⟨5, newPtr⟩, [⟨wrap32 (newPtr + 0), none, 5⟩]) := by
  have hresize : resizeInt k 0 5 0 = .ok (k', newPtr, []) := by
    rw [resizeInt]
    dsimp only
    rw [if_pos rfl, show pageCount (pagesOfInt 5) = 1 by decide, h]
    rfl
  rw [ramfsWrite]
  dsimp only
  rw [if_pos (by decide), show (0 : BitVec 32) + 5 = 5 by decide, hresize]
  rfl

/-- Five bytes are written to an empty file, in its buffer. -/
theorem file_bounds_first_write : ∃ k k' node' copied,
    FileNode.ramfsWrite ⟨0, 0⟩ k 5 0 = .ok (k', node', copied) ∧
      ∀ c ∈ copied, 0 < c.length → node'.Holds k' (c.dest, c.length) := by
  obtain ⟨k, hk⟩ := machine_handedOut
  obtain ⟨k', f, halloc, -⟩ := hk.next
  have hempty : FileNode.Whole ⟨0, 0⟩ k := by
    refine ⟨rfl, ?_, fun f hf => absurd rfl hf.1⟩
    rw [frameCount]
    decide
  have hwrite := FileNode.ramfsWrite_first halloc
  refine ⟨k, k', _, _, hwrite, ?_⟩
  have hbounds := file_bounds_iff ⟨0, 0⟩ 5 0 ⟨true, 0x20, false⟩ hk.inv (hk.used 0 hk.null) hempty
  refine (hbounds.2.2 _ _ _ hwrite).mpr ⟨fun _ => .inl (by decide),
    fun _ hg => absurd (by decide) hg, fun _ _ _ => ?_, fun _ hm => absurd rfl hm.1⟩
  exact hk.room (by decide)

/-- **Sums that wrap.** A file of five bytes is read in front of its buffer, and written far behind
it. -/
theorem sums_wrap :
    (¬∀ (a : Asserting) (node : FileNode) (size offset : BitVec 32),
      ReadInside (node.ramfsRead a size offset) node.fsize.toInt size offset) ∧
    ¬∀ lo k (node : FileNode) size offset k' node' copied, KernelInv lo k → k.pmm.Used 0 →
      node.Whole k →
      node.ramfsWrite k size offset = .ok (k', node', copied) →
      ∀ c ∈ copied, 0 < c.length → node'.Holds k' (c.dest, c.length) := by
  constructor
  · intro h
    have hread := h ⟨true, 0x20, false⟩ ⟨5, 0x1000⟩ 2 0xffffffff _
      (readRange_eq_ok.mpr ⟨.inl (by decide), rfl⟩) (by decide)
    exact absurd hread (by decide)
  · intro h
    obtain ⟨k, hk⟩ := machine_handedOut
    obtain ⟨k', f, -, hf, -, hk'⟩ := hk.next
    have hwhole : FileNode.Whole ⟨5, f * 0x1000⟩ k' := by
      have hdiv : f * 0x1000 / 0x1000 = f := Nat.mul_div_cancel f (by norm_num)
      have hpages : (pagesOfInt 5).toNat = 1 := by decide
      refine ⟨Nat.mul_mod_left f 0x1000, ?_, ?_⟩
      · rw [hdiv, hpages, frameCount]
        omega
      · rintro g ⟨-, h1, h2⟩
        rw [hdiv] at h1
        rw [hdiv, hpages] at h2
        exact hk'.used g (by rw [show g = f by omega]; exact List.mem_cons_self)
    have hwrite : FileNode.ramfsWrite ⟨5, f * 0x1000⟩ k' 2 0x7fffffff = .ok (k', ⟨5, f * 0x1000⟩,
        [⟨wrap32 (f * 0x1000 + (0x7fffffff : BitVec 32).toNat), none, (2 : BitVec 32).toNat⟩]) := by
      rw [FileNode.ramfsWrite]
      dsimp only
      rw [if_neg (by decide)]
      rfl
    have htwo : 0 < (2 : BitVec 32).toNat := by decide
    have hin := h _ k' _ _ _ _ _ _ hk'.inv (hk'.used 0 hk'.null) hwhole hwrite _
      List.mem_cons_self htwo
    have hle : (0x7fffffff : BitVec 32).toNat + (2 : BitVec 32).toNat ≤ bufferBytes 5 :=
      hin.le (by decide)
    exact absurd hle (by decide)

end MicroOS
