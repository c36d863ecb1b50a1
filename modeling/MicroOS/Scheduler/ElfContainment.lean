import MicroOS.Scheduler.ElfContents

/-!
What the loading loop of `init_elf` may write to.

* `ElfFile.Contained`: whatever the memory holds, the bytes that the loop changes lie in frames that
  came into use in the call, and the kernel had mapped none of them before.
* `OwnFrames`: every page of the new task has a frame that the kernel had mapped, or one that came
  into use; `initTask_ownFrames` is the start, and `OwnFrames.segment` is the step lemma.
* `ElfFile.KeepsOff`: no page that a segment touches has, or gets, a frame that the kernel had
  mapped.
* `elf_contained_iff`: an image that is loaded is contained exactly when it keeps off these frames.
  `vmm_map_page` stops a mapping in a slot of the kernel, but `init_elf` does not ask it for a page
  that `vmm_lookup` finds.
-/

namespace MicroOS

open ByteMem Checked PageEntry Paging Relation Run

variable {lo : ℕ} {k k₁ k' q q' : Kernel} {t : Fin maxTasks} {c n f g : ℕ}

/-! ### Frames of the kernel, and frames that came into use -/

/-- A frame behind a page of the kernel's context. -/
def Kernel.KernelFrame (k : Kernel) (f : ℕ) : Prop :=
  ∃ n < frameCount, k.pageFrame k.kernelContext n = some f

/-- A frame that came into use since `k` and is no page of the pool: `pmm_alloc_range` handed it
out. -/
def Kernel.Allotted (k q : Kernel) (f : ℕ) : Prop :=
  q.pmm.Used f ∧ ¬ k.pmm.Used f ∧ ¬ k.pmm.Pool f

/-- A frame that is allotted stays so while it is in use. -/
lemma Kernel.Allotted.mono (h : k.Allotted q f) (hused : q.pmm.Used f → q'.pmm.Used f) :
    k.Allotted q' f :=
  ⟨hused h.1, h.2⟩

/-- The frame behind a page that the kernel maps. -/
lemma pageFrame_of_maps {x : ℕ} (h : k.Maps none (n / 1024) (n % 1024) x) :
    n < frameCount ∧ k.pageFrame k.kernelContext n = some (base x / 0x1000) := by
  obtain ⟨p, hp, -, rfl, hx⟩ := h
  cases hp with
  | @table _ c _ root hi present _ =>
    obtain rfl : c = k.kernelContext := root
    refine ⟨by rw [frameCount]; omega, ?_⟩
    rw [Kernel.pageFrame]
    exact if_pos ⟨present, hx⟩

/-- What the kernel maps is a frame of the kernel. -/
lemma kernelFrame_of_maps {i j x : ℕ} (h : k.Maps none i j x) :
    k.KernelFrame (base x / 0x1000) := by
  have hj : j < 1024 := by
    obtain ⟨-, -, hj, -⟩ := h
    exact hj
  have hdiv : (i * 1024 + j) / 1024 = i := by omega
  have hmod : (i * 1024 + j) % 1024 = j := by omega
  refine ⟨i * 1024 + j, pageFrame_of_maps ?_⟩
  rwa [hdiv, hmod]

/-- A byte that the kernel has mapped lies in a frame of the kernel. -/
lemma kernelFrame_of_physical {v p : ℕ} (hv : v < 2 ^ 32)
    (h : k.physical k.kernelContext v = some p) : k.KernelFrame (p / 0x1000) := by
  obtain ⟨hpage, -⟩ := (translate_eq_some (by norm_num)).mp h
  refine ⟨v / 0x1000, ?_, hpage⟩
  rw [frameCount]
  omega

/-- **The frames of a call**, since it began in the state `k`: every page of the task with the
context `c` has a frame that the kernel had mapped, or one that came into use. -/
structure OwnFrames (lo : ℕ) (t : Fin maxTasks) (c : ℕ) (k q : Kernel) : Prop where
  inv : VmmInv lo q
  root : q.Root (some t) c
  mask : q.pmm.bitmapPagetableMask = k.pmm.bitmapPagetableMask
  used : ∀ f, ¬ k.pmm.Pool f → k.pmm.Used f → q.pmm.Used f
  pages : ∀ n < frameCount, ∀ f, q.pageFrame c n = some f → k.KernelFrame f ∨ k.Allotted q f

/-! ### The start -/

/-- The same for the pages of the kernel, before the task has a context. -/
structure OwnKernelFrames (lo : ℕ) (k q : Kernel) : Prop where
  inv : VmmInv lo q
  mask : q.pmm.bitmapPagetableMask = k.pmm.bitmapPagetableMask
  used : ∀ f, k.pmm.Used f → q.pmm.Used f
  maps : ∀ i j x, q.Maps none i j x →
    k.KernelFrame (base x / 0x1000) ∨ k.Allotted q (base x / 0x1000)

/-- **A `vmm_alloc` that finds its frames.** -/
lemma OwnKernelFrames.vmmAlloc {n ptr : ℕ} (h : OwnKernelFrames lo k q) (hn : 0 < n)
    (hlt : n < 2 ^ 31) (hptr : ptr ≠ 0) (halloc : vmmAlloc q n = .ok (q', ptr)) :
    OwnKernelFrames lo k q' ∧ ∃ f, ptr = f * 0x1000 ∧ f + n ≤ frameCount
      ∧ ∀ i < n, k.Allotted q' (f + i) := by
  obtain ⟨pmm, hrange, hgrow, -⟩ := vmmAlloc_spec h.inv halloc
  have hcount : (toInt n).toNat = n := toInt_toNat hlt
  rcases allocRange_cases h.inv.guarded (by omega) hrange with ⟨hz, -⟩ | ⟨f, hf, hrun, -, hb⟩
  · exact absurd hz hptr
  subst hf
  rw [hcount] at hrun hb
  have hroom := hrun.room
  have hkeep : ∀ g, q.pmm.Used g → q'.pmm.Used g := fun g hu =>
    (hgrow.used g).mpr (Or.inl ((hb.used g).mpr (Or.inr hu)))
  have hnew : ∀ i < n, k.Allotted q' (f + i) := by
    intro i hi
    obtain ⟨hu, hp⟩ := hrun.free (f + i) (Nat.le_add_right f i) (by omega)
    refine ⟨(hgrow.used _).mpr (Or.inl ((hb.used _).mpr (Or.inl ⟨by omega, by omega⟩))),
      mt (h.used _) hu, ?_⟩
    rwa [Pmm.Pool, ← h.mask]
  refine ⟨⟨hgrow.inv, hgrow.mask.trans (hb.mask.trans h.mask), fun g hg => hkeep g (h.used g hg),
    fun i j x hm => ?_⟩, f, rfl, hroom, hnew⟩
  rcases vmmAlloc_kernelMaps h.inv halloc hm with hm | ⟨m, hlt, -, -, rfl⟩
  · exact (h.maps i j x hm).imp_right fun ha => ha.mono (hkeep _)
  · rw [wrap32_page (by omega), base_frame (by omega) (by decide)]
    exact Or.inr (hnew m hlt)

/-- Mappings for a task. -/
lemma OwnKernelFrames.map {pd pt e : ℕ} {fresh : Option ℕ} (h : OwnKernelFrames lo k q)
    (he : MapEffect lo q (some t) pd pt e fresh q') : OwnKernelFrames lo k q' := by
  refine ⟨he.inv, he.pmm.mask.trans h.mask, fun f hf => (he.pmm.used f).mpr (Or.inr (h.used f hf)),
    fun i j x hm => ?_⟩
  rcases (he.maps none i j x).mp hm with ⟨hc, -⟩ | ⟨hm, -⟩
  · cases hc
  · exact (h.maps i j x hm).imp_right fun ha => ha.mono fun hu => (he.pmm.used _).mpr (Or.inr hu)

/-- The loop of `init_task` over the pages of the user stack. -/
lemma OwnKernelFrames.userStack {numPages : ℕ} (h : OwnKernelFrames lo k q)
    (hroot : q.Root (some t) c) (hnone : ∀ i j x, ¬ q.Maps (some t) i j x)
    (hroom : f + numPages ≤ frameCount) (hown : ∀ i < numPages, k.Allotted q (f + i))
    (hloop : (List.range numPages).foldlM
      (fun k i => mapPage k c (wrap32 (f * 0x1000 + i * 4096 + userSpaceOffset))
        (wrap32 (f * 0x1000 + i * 4096)) userFlags) q = .ok q') : OwnFrames lo t c k q' := by
  have hrule := foldlM_range_rule (fun _ q => (OwnKernelFrames lo k q ∧ q.Root (some t) c)
    ∧ (∀ i j x, q.Maps (some t) i j x → k.Allotted q (base x / 0x1000))
    ∧ ∀ i < numPages, k.Allotted q (f + i)) ?_
    ⟨⟨h, hroot⟩, fun i j x hm => absurd hm (hnone i j x), hown⟩ hloop
  · obtain ⟨⟨h, hroot⟩, huser, -⟩ := hrule
    refine ⟨h.inv, hroot, h.mask, fun f _ => h.used f, fun n hn f hpage => ?_⟩
    obtain ⟨ht, rfl⟩ := hroot
    obtain ⟨x, hx, rfl⟩ := (pageFrame_eq_some h.inv ht hn).mp hpage
    rcases hx with hx | hx
    · exact Or.inr (huser _ _ _ hx)
    · exact h.maps _ _ _ hx
  · rintro m q q' hm ⟨⟨h, hroot⟩, huser, hown⟩ hmap
    rcases mapPage_effect h.inv hroot (wrap32_lt _) (by decide) hmap with
      ⟨-, rfl⟩ | ⟨-, -, fresh, he⟩
    · exact ⟨⟨h, hroot⟩, huser, hown⟩
    · have hkeep : ∀ g, k.Allotted q g → k.Allotted q' g := fun g hg =>
        hg.mono fun hu => (he.pmm.used g).mpr (Or.inr hu)
      refine ⟨⟨h.map he, ?_⟩, fun i j x hx => ?_, fun i hi => hkeep _ (hown i hi)⟩
      · rwa [Kernel.Root, he.tasks]
      · rcases (he.maps _ i j x).mp hx with ⟨-, -, -, rfl, -⟩ | ⟨hx, -⟩
        · rw [wrap32_page (by omega), base_frame (by omega) (by decide)]
          exact hkeep _ (hown m hm)
        · exact hkeep _ (huser i j x hx)

/-- **After `init_task`**, when the stacks were found. -/
theorem initTask_ownFrames {term : ℤ} (hi : VmmInv lo k) (hspawn : initTask k term = .ok (k₁, t))
    (hstack : (k₁.tasks t).stack ≠ 0) (huser : (k₁.tasks t).userStack ≠ 0) :
    OwnFrames lo t (k₁.tasks t).context k k₁ := by
  obtain ⟨hidle, hactive, k₂, k₃, h1, h2, hcreate⟩ := initTask_ok hspawn
  have hsame := SameSlot.zero hidle
  have hstart : OwnKernelFrames lo k (withTask k t Task.zero) :=
    ⟨withTask_inv hsame hi, rfl, fun _ hf => hf, fun i j x hm =>
      Or.inl (kernelFrame_of_maps ((withTask_maps hsame _ i j x).mp hm))⟩
  -- the two stacks
  obtain ⟨hown₂, -⟩ := hstart.vmmAlloc (by decide) (by decide) hstack h1
  obtain ⟨hown₃, f, hf, hroom, hframes⟩ := hown₂.vmmAlloc (by decide) (by decide) huser h2
  -- the context, and the pages of the user stack
  obtain ⟨q, he, hloop⟩ := hcreate lo hown₃.inv
  have hkeep : ∀ g, k.Allotted k₃ g → k.Allotted q g := fun g hg =>
    hg.mono fun hu => (he.used g).mpr (Or.inl hu)
  rw [hf] at hloop
  refine OwnKernelFrames.userStack ⟨he.inv, he.mask.trans hown₃.mask,
    fun g hg => (he.used g).mpr (Or.inl (hown₃.used g hg)), fun i j x hm => ?_⟩ ?_ ?_ hroom
    (fun i hi => hkeep _ (hframes i hi)) hloop
  · exact (hown₃.maps i j x ((he.maps none i j x).mp hm)).imp_right (hkeep _)
  · rw [Kernel.Root, he.tasks, Function.update_self]
    exact ⟨hactive, rfl⟩
  · rintro i j x hm
    obtain ⟨p, hp, -⟩ := (he.maps _ i j x).mp hm
    exact he.none _ _ rfl hp

/-! ### A segment -/

/-- The place of a page among those that are counted for a segment. Pages wrap around. -/
def ElfProgramHeader.pageIndex (ph : ElfProgramHeader) (n : ℕ) : ℕ :=
  (n + frameCount - ph.firstPage) % frameCount

/-- The frame behind page `n` once the pages of a segment are filled with the frames from `physLoc`
on: a new one where `vmm_lookup` finds nothing, and else the one it has. -/
def Kernel.filledFrame (k : Kernel) (c : ℕ) (ph : ElfProgramHeader) (physLoc n : ℕ) : Option ℕ :=
  if vmmLookup k (n * 0x1000) c = 0 ∧ ph.pageIndex n < ph.realSize then
    some (physLoc / 0x1000 + ph.pageIndex n)
  else k.pageFrame c n

/-- **What a segment does to the pages**, also where these wrap around. -/
structure SegmentPages (lo : ℕ) (k : Kernel) (c : ℕ) (ph : ElfProgramHeader) (f : ℕ) (k' : Kernel) :
    Prop where
  inv : VmmInv lo k'
  same : SameTasks k k'
  mask : k'.pmm.bitmapPagetableMask = k.pmm.bitmapPagetableMask
  range : ∃ pmm, pmmAllocRange k.pmm ph.realSize = .ok (pmm, f * 0x1000)
  run : k.pmm.FreeRun f ph.realSize
  pages : ∀ n < frameCount, k'.pageFrame c n = k.filledFrame c ph (f * 0x1000) n
  used : ∀ g, ¬ k.pmm.Pool g → k.pmm.Used g → k'.pmm.Used g
  new : ∀ n < frameCount, vmmLookup k (n * 0x1000) c = 0 → ph.pageIndex n < ph.realSize →
    k'.pmm.Used (f + ph.pageIndex n)

section Segment

variable {ph : ElfProgramHeader}

/-- After `j` turns of the loop over the pages of a segment. -/
structure WrapFilled (lo : ℕ) (k : Kernel) (c : ℕ) (ph : ElfProgramHeader) (f j : ℕ) (q : Kernel) :
    Prop where
  inv : VmmInv lo q
  same : SameTasks k q
  mask : q.pmm.bitmapPagetableMask = k.pmm.bitmapPagetableMask
  pages : ∀ n < frameCount, q.pageFrame c n
    = if vmmLookup k (n * 0x1000) c = 0 ∧ ph.pageIndex n < j then some (f + ph.pageIndex n)
      else k.pageFrame c n
  used : ∀ g, ¬ k.pmm.Pool g → k.pmm.Used g → (∀ n < frameCount, ph.pageIndex n < j →
    g = f + ph.pageIndex n → vmmLookup k (n * 0x1000) c = 0) → q.pmm.Used g

/-- The page of a turn. -/
lemma pageIndex_eq {j : ℕ} (hvirt : ph.virtAddr < 2 ^ 32) (hj : j < frameCount)
    (hn : n < frameCount) : ph.pageIndex n = j ↔ n = (ph.firstPage + j) % frameCount := by
  rw [frameCount] at hj hn
  rw [ElfProgramHeader.pageIndex, ElfProgramHeader.firstPage, frameCount]
  omega

/-- The addresses of the pages wrap around. -/
lemma wrap32_pages (b j : ℕ) : wrap32 (b * 0x1000 + j * 4096) = (b + j) % frameCount * 0x1000 := by
  rw [wrap32, frameCount]
  omega

/-- **A turn of the loop** fills one more page. -/
lemma WrapFilled.step {j : ℕ} (h : WrapFilled lo k (k.tasks t).context ph f j q)
    (ht : (k.tasks t).active = true) (hvirt : ph.virtAddr < 2 ^ 32) (hj : j < frameCount)
    (hframe : Mappable lo (f + j)) (hf : f + j < frameCount)
    (hturn : fillPage (k.tasks t).context ((ph.firstPage + j) % frameCount * 0x1000)
      ((f + j) * 0x1000) q = .ok q') :
    WrapFilled lo k (k.tasks t).context ph f (j + 1) q' := by
  have hn : (ph.firstPage + j) % frameCount < frameCount := Nat.mod_lt _ (by decide)
  have hindex := (pageIndex_eq hvirt hj hn).mpr rfl
  have hpage : ∀ m < frameCount, m = (ph.firstPage + j) % frameCount ↔ ph.pageIndex m = j :=
    fun m hm => (pageIndex_eq hvirt hj hm).symm
  generalize (ph.firstPage + j) % frameCount = n at *
  -- the page of this turn is as it was
  have hlookup : vmmLookup q (n * 0x1000) (k.tasks t).context
      = vmmLookup k (n * 0x1000) (k.tasks t).context := by
    rw [vmmLookup_page, vmmLookup_page, h.pages n hn, if_neg (by omega)]
  have ht' : (q.tasks t).active = true := by rwa [h.same.tasks]
  rw [← h.same.tasks] at hturn
  have hp := fillPage_turn h.inv ht' hn hf hframe hturn
  have hpages := hp.pages
  have hused := hp.used
  rw [h.same.tasks, hlookup] at hpages hused
  refine ⟨hp.inv, h.same.trans hp.same, hp.mask.trans h.mask, fun m hm => ?_, fun g hg hu hgo => ?_⟩
  · rw [hpages m hm, h.pages m hm]
    by_cases hmn : m = n
    · subst hmn
      rw [hindex]
      by_cases hl : vmmLookup k (m * 0x1000) (k.tasks t).context = 0
      · rw [if_pos ⟨rfl, hl⟩, if_pos ⟨hl, Nat.lt_succ_self j⟩]
      · rw [if_neg fun hc => hl hc.2, if_neg fun hc => hl hc.1, if_neg fun hc => hl hc.1]
    · have hne : ph.pageIndex m ≠ j := mt (hpage m hm).mpr hmn
      rw [if_neg fun hc => hmn hc.1]
      exact if_congr (and_congr_right fun _ => by omega) rfl rfl
  · have hpool : ¬ q.pmm.Pool g := by rwa [Pmm.Pool, h.mask]
    refine (hused g hpool).mpr ⟨h.used g hg hu fun m hm hlt heq => ?_, ?_⟩
    · exact hgo m hm (Nat.lt_succ_of_lt hlt) heq
    · rintro ⟨rfl, hl⟩
      exact hl (hgo n hn (by omega) (by rw [hindex]))

/-- **A segment whose frames are found.** -/
theorem loadSegment_pages (hi : VmmInv lo k) (ht : (k.tasks t).active = true)
    (htype : ph.type = 1) (hvirt : ph.virtAddr < 2 ^ 32)
    (hfound : ∀ pmm phys, pmmAllocRange k.pmm ph.realSize = .ok (pmm, phys) → phys ≠ 0)
    (h : loadSegment (k.tasks t).context k ph = .ok k') :
    ∃ f, SegmentPages lo k (k.tasks t).context ph f k' := by
  have hrun : k.pmm.HasRun ph.realSize := by
    rcases pmmAllocRange_spec hi.guarded (ph.realSize : ℤ) with ⟨hr, -⟩ | ⟨f, _, -, -, -, hrun, -⟩
    · exact absurd rfl (hfound _ _ hr)
    · exact ⟨f, hrun⟩
  obtain ⟨f, pmm, hrange, hfree, hb, heq⟩ :=
    loadSegment_eq (c := (k.tasks t).context) hi hrun htype hvirt
  rw [heq] at h
  have hroom := hfree.room
  have hrule := foldlM_range_rule
    (fun j q => WrapFilled lo { k with pmm } (k.tasks t).context ph f j q) ?_ ?_ h
  · have hpool : ∀ g, ¬ k.pmm.Pool g → ¬ pmm.Pool g := fun g => mt (hb.pool g).mp
    -- two pages have different places
    have hplace : ∀ n < frameCount, ∀ m < frameCount, ph.pageIndex n = ph.pageIndex m → n = m := by
      intro n hn m hm hnm
      have hlt : ph.pageIndex m < frameCount := Nat.mod_lt _ (by decide)
      rw [(pageIndex_eq hvirt hlt hn).mp hnm, ← (pageIndex_eq hvirt hlt hm).mp rfl]
    refine ⟨f, hrule.inv, ⟨hrule.same.tasks, hrule.same.currentTask, hrule.same.currentPid⟩,
      hrule.mask.trans hb.mask, ⟨pmm, hrange⟩, hfree, fun n hn => ?_, fun g hg hu => ?_,
      fun n hn hl hlt => ?_⟩
    · rw [hrule.pages n hn, Kernel.filledFrame, Nat.mul_div_cancel _ (by norm_num)]
      rfl
    · refine hrule.used g (hpool g hg) ((hb.used g).mpr (Or.inr hu)) ?_
      rintro n - hlt rfl
      exact absurd hu (hfree.free _ (by omega) (by omega)).1
    · refine hrule.used _ (hpool _ (hfree.free _ (by omega) (by omega)).2)
        ((hb.used _).mpr (Or.inl ⟨by omega, by omega⟩)) fun m hm _ heq => ?_
      obtain rfl := hplace n hn m hm (by omega)
      exact hl
  · intro j q q' hj hq hturn
    rw [wrap32_pages, wrap32_page (by omega)] at hturn
    exact hq.step ht hvirt (by omega) (hfree.mappable hi.guarded (by omega) (by omega)) (by omega)
      hturn
  · refine ⟨hi.of_becomes hb, SameTasks.refl _, rfl, fun n _ => ?_, fun g _ hu _ => hu⟩
    exact (if_neg fun hc => Nat.not_lt_zero _ hc.2).symm

/-- **The step lemma.** -/
lemma OwnFrames.segment (h : OwnFrames lo t c k q) (hs : SegmentPages lo q c ph f q') :
    OwnFrames lo t c k q' ∧ ∀ g, k.Allotted q g → k.Allotted q' g := by
  have hpool : ∀ g, q.pmm.Pool g ↔ k.pmm.Pool g := fun g => by rw [Pmm.Pool, Pmm.Pool, h.mask]
  have hkeep : ∀ g, k.Allotted q g → k.Allotted q' g := fun g hg =>
    hg.mono (hs.used g (mt (hpool g).mp hg.2.2))
  refine ⟨⟨hs.inv, ?_, hs.mask.trans h.mask, fun g hg hu => ?_, fun n hn g hpage => ?_⟩, hkeep⟩
  · obtain ⟨ht, hc⟩ := h.root
    rw [Kernel.Root, hs.same.tasks]
    exact ⟨ht, hc⟩
  · exact hs.used g (mt (hpool g).mp hg) (h.used g hg hu)
  · rw [hs.pages n hn, Kernel.filledFrame, Nat.mul_div_cancel _ (by norm_num)] at hpage
    by_cases hnew : vmmLookup q (n * 0x1000) c = 0 ∧ ph.pageIndex n < ph.realSize
    · -- the page has a new frame
      rw [if_pos hnew] at hpage
      obtain rfl := Option.some.inj hpage
      obtain ⟨hu, hp⟩ := hs.run.free (f + ph.pageIndex n) (Nat.le_add_right f _) (by omega)
      have hp' : ¬ k.pmm.Pool (f + ph.pageIndex n) := mt (hpool _).mpr hp
      exact Or.inr ⟨hs.new n hn hnew.1 hnew.2, mt (h.used _ hp') hu, hp'⟩
    · rw [if_neg hnew] at hpage
      exact (h.pages n hn g hpage).imp_right (hkeep g)

end Segment

/-! ### Images -/

/-- An address that `memset` or `memcpy` writes to for a segment. -/
def ElfSegment.Touches (ph : ElfSegment) (v : ℕ) : Prop :=
  ∃ i, (i < ph.memSize ∨ i < ph.fileSize) ∧ v = wrap32 (ph.virtAddr + i)

/-- A segment touches pages of the address space. -/
lemma ElfSegment.Touches.page_lt {ph : ElfSegment} {v : ℕ} (h : ph.Touches v) :
    v / 0x1000 < frameCount := by
  obtain ⟨i, -, rfl⟩ := h
  have hlt := wrap32_lt (ph.virtAddr + i)
  rw [frameCount]
  omega

/-- `init_elf` comes to the segment `ph` in the state `q`, when the loop began in the state `k₁`. -/
def ElfFile.Before (file : ElfFile) (c : ℕ) (k₁ : Kernel) (ph : ElfSegment) (q : Kernel) : Prop :=
  ph.type = 1 ∧ ∃ done rest, file.segments = done ++ ph :: rest
    ∧ done.foldlM (fun q ph => loadSegment c q ph.toElfProgramHeader) k₁ = .ok q

/-- **The loop writes to nothing but its own.** Whatever the memory holds, what an image that is
loaded changes lies in frames that came into use in the call, and no byte that the kernel had mapped
before the call is changed. -/
def ElfFile.Contained (file : ElfFile) (k k₁ : Kernel) (c : ℕ) : Prop :=
  ∀ ram k₂ ram₂, file.load c (k₁, ram) = .ok (k₂, ram₂) →
    (∀ p, ram₂ p ≠ ram p → k.Allotted k₂ (p / 0x1000))
      ∧ ∀ v < 2 ^ 32, ∀ p, k.physical k.kernelContext v = some p → ram₂ p = ram p

/-- **No page that a segment touches has, or gets, a frame that the kernel had mapped.** -/
def ElfFile.KeepsOff (file : ElfFile) (k k₁ : Kernel) (c : ℕ) : Prop :=
  ∀ ph q, file.Before c k₁ ph q → ∀ pmm phys, pmmAllocRange q.pmm ph.realSize = .ok (pmm, phys) →
    ∀ v, ph.Touches v → ∀ f, q.filledFrame c ph.toElfProgramHeader phys (v / 0x1000) = some f →
      ¬ k.KernelFrame f

/-- `pmm_alloc_range` returns no null pointer in the call. -/
structure ElfFile.Found (file : ElfFile) (k₁ : Kernel) (t : Fin maxTasks) : Prop where
  stack : (k₁.tasks t).stack ≠ 0
  userStack : (k₁.tasks t).userStack ≠ 0
  segments : ∀ ph q, file.Before (k₁.tasks t).context k₁ ph q →
    ∀ pmm phys, pmmAllocRange q.pmm ph.realSize = .ok (pmm, phys) → phys ≠ 0

section Loop

variable {file : ElfFile} {ph : ElfSegment} {contents : ℕ → UInt8} {ram ram' ram₂ ram₂' : Ram}

/-- **What changes is behind an address that is touched.** -/
lemma loadContents_elsewhere {p : ℕ} (htype : ph.type = 1)
    (h : loadContents c contents (q, ram) ph = .ok (q', ram₂))
    (hp : ∀ v, ph.Touches v → q'.physical c v ≠ some p) : ram₂ p = ram p := by
  obtain ⟨-, r, hclear, hcopy⟩ := loadContents_stores htype h
  calc ram₂ p = r p := storeBlock_elsewhere hcopy fun i hi => hp _ ⟨i, Or.inr hi, rfl⟩
    _ = ram p := storeBlock_elsewhere hclear fun i hi => hp _ ⟨i, Or.inl hi, rfl⟩

/-- **What is behind an address that is touched** does not depend on what was there before. -/
lemma loadContents_agree {p : ℕ} (htype : ph.type = 1)
    (h : loadContents c contents (q, ram) ph = .ok (q', ram₂))
    (h' : loadContents c contents (q, ram') ph = .ok (q', ram₂'))
    (hp : ram p = ram' p ∨ ∃ v, ph.Touches v ∧ q'.physical c v = some p) : ram₂ p = ram₂' p := by
  obtain ⟨-, r, hclear, hcopy⟩ := loadContents_stores htype h
  obtain ⟨-, r', hclear', hcopy'⟩ := loadContents_stores htype h'
  rcases hp with hp | ⟨v, ⟨i, hi | hi, rfl⟩, hv⟩
  · exact storeBlock_agree hcopy hcopy' (Or.inl (storeBlock_agree hclear hclear' (Or.inl hp)))
  · exact storeBlock_agree hcopy hcopy'
      (Or.inl (storeBlock_agree hclear hclear' (Or.inr ⟨i, hi, hv⟩)))
  · exact storeBlock_agree hcopy hcopy' (Or.inr ⟨i, hi, hv⟩)

/-- Where two memories agree before the loop, they agree after it. -/
lemma foldlM_loadContents_agree {l : List ElfSegment} {p : ℕ} {s s' : Kernel × Ram}
    (h : l.foldlM (loadContents c contents) (q, ram) = .ok s)
    (h' : l.foldlM (loadContents c contents) (q, ram') = .ok s') (hp : ram p = ram' p) :
    s.1 = s'.1 ∧ s.2 p = s'.2 p := by
  induction l generalizing q ram ram' with
  | nil =>
    obtain rfl := Except.ok.inj h
    obtain rfl := Except.ok.inj h'
    exact ⟨rfl, hp⟩
  | cons ph l ih =>
    rw [List.foldlM_cons] at h h'
    obtain ⟨⟨q₁, r⟩, h1, h⟩ := bind_eq_ok.mp h
    obtain ⟨⟨q₁', r'⟩, h1', h'⟩ := bind_eq_ok.mp h'
    obtain rfl : q₁ = q₁' :=
      Except.ok.inj ((loadContents_kernel h1).symm.trans (loadContents_kernel h1'))
    refine ih h h' ?_
    by_cases htype : ph.type = 1
    · exact loadContents_agree htype h1 h1' (Or.inl hp)
    · obtain ⟨-, rfl⟩ := Prod.mk.inj (loadContents_skip htype h1)
      obtain ⟨-, rfl⟩ := Prod.mk.inj (loadContents_skip htype h1')
      exact hp

/-- The loop returns with any memory, when it does with one. -/
lemma foldlM_loadContents_returns {l : List ElfSegment} {s : Kernel × Ram}
    (h : l.foldlM (loadContents c contents) (q, ram) = .ok s) (ram' : Ram) :
    ∃ r, l.foldlM (loadContents c contents) (q, ram') = .ok (s.1, r) := by
  induction l generalizing q ram ram' with
  | nil =>
    obtain rfl := Except.ok.inj h
    exact ⟨ram', rfl⟩
  | cons ph l ih =>
    rw [List.foldlM_cons] at h
    obtain ⟨⟨q₁, r⟩, h1, h⟩ := bind_eq_ok.mp h
    obtain ⟨r', h1'⟩ : ∃ r', loadContents c contents (q, ram') ph = .ok (q₁, r') := by
      by_cases htype : ph.type = 1
      · obtain ⟨hq, r₀, hclear, hcopy⟩ := loadContents_stores htype h1
        obtain ⟨r₁, hclear'⟩ : ∃ r₁, clearBytes q₁ c ram' ph.virtAddr ph.memSize = .ok r₁ :=
          storeBlock_returns (storeBlock_mapped hclear) ram'
        obtain ⟨r₂, hcopy'⟩ : ∃ r₂,
            copyBytes q₁ c r₁ ph.virtAddr contents ph.offset ph.fileSize = .ok r₂ :=
          storeBlock_returns (storeBlock_mapped hcopy) r₁
        refine ⟨r₂, ?_⟩
        rw [loadContents, if_neg (not_not.mpr htype), hq, ok_bind, hclear', ok_bind, hcopy']
        rfl
      · obtain ⟨rfl, -⟩ := Prod.mk.inj (loadContents_skip htype h1)
        refine ⟨ram', ?_⟩
        rw [loadContents, if_pos htype]
        rfl
    obtain ⟨r₂, h'⟩ := ih h r'
    refine ⟨r₂, ?_⟩
    rw [List.foldlM_cons]
    exact bind_eq_ok.mpr ⟨_, h1', h'⟩

end Loop

/-! ### The theorem -/

section Contained

variable {file : ElfFile} {ph : ElfSegment}

/-- Where the loop comes to a segment, so far it was the loop of `loadSegment`. -/
lemma ElfFile.before_of_loop {done rest : List ElfSegment} {s : Kernel × Ram} {ram : Ram}
    (htype : ph.type = 1) (hsegs : file.segments = done ++ ph :: rest)
    (h : done.foldlM (loadContents c file.contents) (k₁, ram) = .ok s) :
    file.Before c k₁ ph s.1 := by
  have hkernel := foldlM_loadContents_kernel h
  rw [List.foldlM_map] at hkernel
  exact ⟨htype, done, rest, hsegs, hkernel⟩

variable (h : OwnFrames lo t (k₁.tasks t).context k k₁)
  (hvirt : ∀ ph ∈ file.segments, ph.virtAddr < 2 ^ 32) (hfound : file.Found k₁ t)

include h hvirt hfound

/-- **The frames of a call**, where the loop comes to a segment. -/
lemma ElfFile.Before.ownFrames (hb : file.Before (k₁.tasks t).context k₁ ph q) :
    OwnFrames lo t (k₁.tasks t).context k q := by
  obtain ⟨-, done, rest, hsegs, hdone⟩ := hb
  refine foldlM_prefix_rule (OwnFrames lo t (k₁.tasks t).context k) ?_ h hdone
  intro done' a rest' u v hl hu hown hturn
  by_cases htype : a.type = 1
  · have hsegs' : file.segments = done' ++ a :: (rest' ++ ph :: rest) := by
      rw [hsegs, hl, List.append_assoc, List.cons_append]
    have hmem : a ∈ file.segments := by simp [hsegs']
    obtain ⟨ht, hc⟩ := hown.root
    rw [hc] at hturn
    obtain ⟨f, hs⟩ := loadSegment_pages hown.inv ht htype (hvirt a hmem)
      (hfound.segments a u ⟨htype, done', _, hsegs', hu⟩) hturn
    rw [← hc] at hs
    exact (hown.segment hs).1
  · rw [loadSegment, if_pos htype] at hturn
    obtain rfl := Except.ok.inj hturn
    exact hown

/-- The pages of the segment, after it. -/
lemma ElfFile.Before.segmentPages (hb : file.Before (k₁.tasks t).context k₁ ph q)
    (hload : loadSegment (k₁.tasks t).context q ph.toElfProgramHeader = .ok q') :
    ∃ f, SegmentPages lo q (k₁.tasks t).context ph.toElfProgramHeader f q' := by
  have hown := hb.ownFrames h hvirt hfound
  have hfind := hfound.segments ph q hb
  obtain ⟨htype, done, rest, hsegs, -⟩ := hb
  have hmem : ph ∈ file.segments := by simp [hsegs]
  obtain ⟨ht, hc⟩ := hown.root
  rw [hc] at hload ⊢
  exact loadSegment_pages hown.inv ht htype (hvirt ph hmem) hfind hload

/-- **An image that keeps off the frames of the kernel is contained.** -/
lemma ElfFile.KeepsOff.contained (hoff : file.KeepsOff k k₁ (k₁.tasks t).context) :
    file.Contained k k₁ (k₁.tasks t).context := by
  intro ram k₂ ram₂ hload
  -- what was changed so far lies in frames that came into use, and in none of the kernel's
  have hrule := foldlM_prefix_rule (fun s : Kernel × Ram =>
    ∀ p, s.2 p ≠ ram p → k.Allotted s.1 (p / 0x1000) ∧ ¬ k.KernelFrame (p / 0x1000)) ?_
    (fun p hp => absurd rfl hp) hload
  · refine ⟨fun p hp => (hrule p hp).1, fun v hv p hp => ?_⟩
    by_contra hne
    exact (hrule p hne).2 (kernelFrame_of_physical hv hp)
  · rintro done ph rest ⟨u, r⟩ ⟨v, r'⟩ hsegs hdone ih hturn p hp
    by_cases htype : ph.type = 1
    · have hb : file.Before (k₁.tasks t).context k₁ ph u :=
        ElfFile.before_of_loop htype hsegs hdone
      have hown := hb.ownFrames h hvirt hfound
      obtain ⟨hkernel, -⟩ := loadContents_stores htype hturn
      obtain ⟨f, hs⟩ := hb.segmentPages h hvirt hfound hkernel
      obtain ⟨hown', hkeep⟩ := hown.segment hs
      by_cases hold : r' p = r p
      · have hne : r p ≠ ram p := by rwa [← hold]
        exact (ih p hne).imp_left (hkeep _)
      · -- the segment stored the byte
        obtain ⟨w, hw, hphys⟩ : ∃ w, ph.Touches w ∧ v.physical (k₁.tasks t).context w = some p := by
          by_contra hno
          push Not at hno
          exact hold (loadContents_elsewhere htype hturn hno)
        obtain ⟨hpage, -⟩ := (translate_eq_some (by norm_num)).mp hphys
        have hwlt := hw.page_lt
        obtain ⟨pmm, hrange⟩ := hs.range
        have hno : ¬ k.KernelFrame (p / 0x1000) :=
          hoff ph u hb pmm _ hrange w hw _ ((hs.pages _ hwlt).symm.trans hpage)
        exact ⟨(hown'.pages _ hwlt _ hpage).resolve_left hno, hno⟩
    · obtain ⟨rfl, rfl⟩ := Prod.mk.inj (loadContents_skip htype hturn)
      exact ih p hp

/-- **A byte behind an address that a segment touches** does not depend on what was there before
the call. -/
lemma ElfFile.Before.agree {ram ram' : Ram} {s s' : Kernel × Ram} {pmm : Pmm} {phys v : ℕ}
    (hb : file.Before (k₁.tasks t).context k₁ ph q)
    (hload : file.load (k₁.tasks t).context (k₁, ram) = .ok s)
    (hload' : file.load (k₁.tasks t).context (k₁, ram') = .ok s')
    (hrange : pmmAllocRange q.pmm ph.realSize = .ok (pmm, phys)) (hv : ph.Touches v)
    (hframe : q.filledFrame (k₁.tasks t).context ph.toElfProgramHeader phys (v / 0x1000) = some f) :
    s.2 (f * 0x1000 + v % 0x1000) = s'.2 (f * 0x1000 + v % 0x1000) := by
  have hb' := hb
  obtain ⟨htype, done, rest, hsegs, hdone⟩ := hb
  -- the loop up to the segment, the segment, and the rest of the loop
  have hsplit : ∀ {ram : Ram} {s : Kernel × Ram},
      file.load (k₁.tasks t).context (k₁, ram) = .ok s → ∃ r q' r',
        loadContents (k₁.tasks t).context file.contents (q, r) ph = .ok (q', r')
          ∧ rest.foldlM (loadContents (k₁.tasks t).context file.contents) (q', r') = .ok s := by
    intro ram s hload
    rw [ElfFile.load, hsegs, List.foldlM_append] at hload
    obtain ⟨⟨u, r⟩, h1, hload⟩ := bind_eq_ok.mp hload
    rw [List.foldlM_cons] at hload
    obtain ⟨⟨q', r'⟩, h2, h3⟩ := bind_eq_ok.mp hload
    have hu := foldlM_loadContents_kernel h1
    rw [List.foldlM_map] at hu
    obtain rfl : q = u := Except.ok.inj (hdone.symm.trans hu)
    exact ⟨r, q', r', h2, h3⟩
  obtain ⟨r, q', a, hturn, hrest⟩ := hsplit hload
  obtain ⟨r', q'', b, hturn', hrest'⟩ := hsplit hload'
  obtain rfl : q' = q'' :=
    Except.ok.inj ((loadContents_kernel hturn).symm.trans (loadContents_kernel hturn'))
  refine (foldlM_loadContents_agree hrest hrest' ?_).2
  refine loadContents_agree htype hturn hturn' (Or.inr ⟨v, hv, ?_⟩)
  -- the address is behind the frame that the page has after the segment
  obtain ⟨g, hs⟩ := hb'.segmentPages h hvirt hfound (loadContents_kernel hturn)
  obtain ⟨pmm', hrange'⟩ := hs.range
  obtain ⟨-, rfl⟩ := Prod.mk.inj (Except.ok.inj (hrange.symm.trans hrange'))
  rw [Kernel.physical, Paging.translate, hs.pages _ hv.page_lt, hframe]
  rfl

/-- **An image that is contained keeps off the frames of the kernel.** -/
lemma ElfFile.Contained.keepsOff {ram : Ram} {s : Kernel × Ram}
    (hcont : file.Contained k k₁ (k₁.tasks t).context)
    (hload : file.load (k₁.tasks t).context (k₁, ram) = .ok s) :
    file.KeepsOff k k₁ (k₁.tasks t).context := by
  rintro ph q hb pmm phys hrange v hv f hframe ⟨n, hn, hkernel⟩
  have hphys : k.physical k.kernelContext (n * 0x1000 + v % 0x1000)
      = some (f * 0x1000 + v % 0x1000) := by
    have hdiv : (n * 0x1000 + v % 0x1000) / 0x1000 = n := by omega
    have hmod : (n * 0x1000 + v % 0x1000) % 0x1000 = v % 0x1000 := by omega
    rw [Kernel.physical, Paging.translate, hdiv, hmod, hkernel]
    rfl
  have hlt : n * 0x1000 + v % 0x1000 < 2 ^ 32 := by
    rw [frameCount] at hn
    omega
  -- with the byte 0 there, and with the byte 1
  obtain ⟨r₀, h₀⟩ := foldlM_loadContents_returns hload (fun _ => 0)
  obtain ⟨r₁, h₁⟩ := foldlM_loadContents_returns hload (fun _ => 1)
  have hzero := (hcont _ _ _ h₀).2 _ hlt _ hphys
  have hone := (hcont _ _ _ h₁).2 _ hlt _ hphys
  have hagree : r₀ (f * 0x1000 + v % 0x1000) = r₁ (f * 0x1000 + v % 0x1000) :=
    hb.agree h hvirt hfound h₀ h₁ hrange hv hframe
  rw [hzero, hone] at hagree
  exact absurd hagree (by decide)

end Contained

/-- **Loading a program overwrites nothing of the kernel exactly when the image keeps off the frames
that the kernel had mapped**, for an image that is loaded with the frames that it asks for. -/
theorem elf_contained_iff {L : KernelLayout} {term : ℤ} {file : ElfFile} {ram : Ram}
    {s : Kernel × Ram} (hk : Reachable (VmmStarted L) (VmmStep L.poolFrame) k)
    (hspawn : initTask k term = .ok (k₁, t)) (hvirt : ∀ ph ∈ file.segments, ph.virtAddr < 2 ^ 32)
    (hfound : file.Found k₁ t) (hload : file.load (k₁.tasks t).context (k₁, ram) = .ok s) :
    file.Contained k k₁ (k₁.tasks t).context ↔ file.KeepsOff k k₁ (k₁.tasks t).context := by
  have hi := (KernelInv.of_reachable hk).vmm
  have hown := initTask_ownFrames hi hspawn hfound.stack hfound.userStack
  exact ⟨fun hcont => hcont.keepsOff hown hvirt hfound hload,
    fun hoff => hoff.contained hown hvirt hfound⟩

/-! ### A machine -/

/-- The kernel has mapped `x` at the page of the frame `f`, which is in use. -/
structure KernelPage (lo f x : ℕ) (q : Kernel) : Prop where
  inv : VmmInv lo q
  zero : q.pmm.Used 0
  used : q.pmm.Used f
  maps : q.Maps none (f / 1024) (f % 1024) x

namespace KernelPage

variable {x : ℕ}

/-- Free pages are found, and not at zero. -/
lemma range_ne_zero {count : ℤ} {pmm : Pmm} {phys : ℕ} (h : KernelPage lo f x q)
    (hcount : 0 < count.toNat) (hrun : q.pmm.HasRun count.toNat)
    (hrange : pmmAllocRange q.pmm count = .ok (pmm, phys)) : phys ≠ 0 := by
  rcases allocRange_cases h.inv.guarded hcount hrange with ⟨-, -, hno⟩ | ⟨g, rfl, hfree, -⟩
  · obtain ⟨g, hg⟩ := hrun
    exact absurd hg (hno g)
  · intro hc
    obtain rfl : g = 0 := by omega
    exact (hfree.free 0 le_rfl (by omega)).1 h.zero

/-- `vmm_alloc` maps no page whose frame is in use. -/
lemma vmmAlloc {m ptr : ℕ} (h : KernelPage lo f x q) (hn : 0 < n) (hlt : n < 2 ^ 31)
    (hrun : q.pmm.HasRun (n + m)) (halloc : vmmAlloc q n = .ok (q', ptr)) :
    KernelPage lo f x q' ∧ q'.pmm.HasRun m ∧ ptr ≠ 0 := by
  obtain ⟨hi', hrun', hkeep⟩ := vmmAlloc_next h.inv hn hlt hrun halloc
  rw [MicroOS.vmmAlloc, bind_eq_ok] at halloc
  obtain ⟨⟨pmm, page⟩, hrange, halloc⟩ := halloc
  obtain ⟨q₁, hloop, hret⟩ := bind_eq_ok.mp halloc
  obtain ⟨rfl, rfl⟩ := Prod.mk.inj (Except.ok.inj hret)
  have hcount : (toInt n).toNat = n := toInt_toNat hlt
  have hfound : page ≠ 0 := h.range_ne_zero (by omega)
    (by rw [hcount]; exact hrun.take (Nat.le_add_right n m)) hrange
  rcases allocRange_cases h.inv.guarded (by omega) hrange with ⟨-, -, hno⟩ | ⟨g, hg, hfree, -, hb⟩
  · rw [hcount] at hno
    obtain ⟨g, hg⟩ := hrun
    exact absurd (hg.take (Nat.le_add_right n m)) (hno g)
  subst hg
  rw [hcount] at hfree
  have hroom := hfree.room
  have hrule := foldlM_range_rule (s := { q with pmm })
    (fun _ q => VmmInv lo q ∧ q.Maps none (f / 1024) (f % 1024) x) ?_
    ⟨h.inv.of_becomes hb, (maps_pmm pmm none _ _ x).mpr h.maps⟩ hloop
  · exact ⟨⟨hi', hkeep 0 h.zero, hkeep f h.used, hrule.2⟩, hrun', hfound⟩
  · rintro j q₁ q₂ hj ⟨hi, hm⟩ hmap
    rcases mapPage_effect (s := none) hi rfl (wrap32_lt _) (by decide) hmap with
      ⟨-, rfl⟩ | ⟨-, -, fresh, he⟩
    · exact ⟨hi, hm⟩
    · refine ⟨he.inv, (he.maps none _ _ x).mpr (Or.inr ⟨hm, ?_, id⟩)⟩
      rintro ⟨-, hpd, hpt⟩
      rw [wrap32_page (by omega), pdIndexOf, Nat.mul_div_cancel _ (by norm_num)] at hpd
      rw [wrap32_page (by omega), ptIndexOf, Nat.mul_div_cancel _ (by norm_num)] at hpt
      obtain rfl : f = g + j := by omega
      exact (hfree.free _ (by omega) (by omega)).1 h.used

/-- **`init_task` leaves the page alone**, and finds the stacks. -/
lemma initTask {term : ℤ} (h : KernelPage lo f x k)
    (hrun : k.pmm.HasRun (kernelStackSizePages + userStackSizePages))
    (hspawn : initTask k term = .ok (k₁, t)) :
    KernelPage lo f x k₁ ∧ (k₁.tasks t).stack ≠ 0 ∧ (k₁.tasks t).userStack ≠ 0 := by
  obtain ⟨hidle, hactive, k₂, k₃, h1, h2, hcreate⟩ := initTask_ok hspawn
  have hsame := SameSlot.zero hidle
  have hstart : KernelPage lo f x (withTask k t Task.zero) :=
    ⟨withTask_inv hsame h.inv, h.zero, h.used, (withTask_maps hsame _ _ _ x).mpr h.maps⟩
  obtain ⟨hpage₂, hrun₂, hstack⟩ := hstart.vmmAlloc (by decide) (by decide) hrun h1
  obtain ⟨hpage₃, -, huser⟩ := hpage₂.vmmAlloc (m := 0) (by decide) (by decide) hrun₂ h2
  obtain ⟨q, he, hloop⟩ := hcreate lo hpage₃.inv
  have hroot : q.Root (some t) (k₁.tasks t).context := by
    rw [Kernel.Root, he.tasks, Function.update_self]
    exact ⟨hactive, rfl⟩
  have hpage : KernelPage lo f x q := ⟨he.inv, (he.used 0).mpr (Or.inl hpage₃.zero),
    (he.used f).mpr (Or.inl hpage₃.used), (he.maps none _ _ x).mpr hpage₃.maps⟩
  have hrule := foldlM_rule
    (fun q => KernelPage lo f x q ∧ q.Root (some t) (k₁.tasks t).context) ?_ ⟨hpage, hroot⟩ hloop
  · exact ⟨hrule.1, hstack, huser⟩
  · rintro q i q' - ⟨hq, hroot⟩ hmap
    rcases mapPage_effect hq.inv hroot (wrap32_lt _) (by decide) hmap with
      ⟨-, rfl⟩ | ⟨-, -, fresh, he⟩
    · exact ⟨hq, hroot⟩
    · refine ⟨⟨he.inv, (he.pmm.used 0).mpr (Or.inr hq.zero), (he.pmm.used f).mpr (Or.inr hq.used),
        (he.maps none _ _ x).mpr (Or.inr ⟨hq.maps, by simp [Lost]⟩)⟩, ?_⟩
      rwa [Kernel.Root, he.tasks]

end KernelPage

/-- A segment over the screen, which the kernel has mapped. -/
def overScreen : ElfFile where
  segments := [⟨⟨1, 0xb8000, 0x10⟩, 0, 0⟩]
  contents := fun _ => 0
  size := 0

/-- The header of its segment. -/
def screenHeader : ElfProgramHeader := ⟨1, 0xb8000, 0x10⟩

lemma screenHeader_realSize : screenHeader.realSize = 1 := by decide

lemma screenHeader_firstPage : screenHeader.firstPage = 0xb8 := by decide

/-- The entry of the kernel for the screen. -/
def screenEntry : ℕ := 0xb8000 ||| (ptePresent ||| pteWrite)

lemma base_screenEntry : base screenEntry / 0x1000 = 0xb8 := by decide

/-- A machine whose kernel has mapped the screen, and that has room for a task. -/
lemma screen_machine : ∃ k,
    Reachable (VmmStarted bootLayout) (VmmStep bootLayout.poolFrame) k ∧
      KernelPage bootLayout.poolFrame 0xb8 screenEntry k ∧
      Ready bootLayout.poolFrame {0, 1} 0x440 (23 + 6)
        (kernelStackSizePages + (userStackSizePages + 55)) k ∧
      k.tasks.firstInactive = some 0 := by
  obtain ⟨k₀, hstart, hmachine, htasks, hzero₀, -, hscreen₀⟩ := elf_machine
  obtain ⟨k, hmap, hsame, hready⟩ := hmachine.mapKernel 0xb8000 0xb8000
    (ptePresent ||| pteWrite) (by norm_num) (by decide) (by decide)
  have hreach : Reachable (VmmStarted bootLayout) (VmmStep bootLayout.poolFrame) k :=
    (Reachable.start hstart).next (.mapKernel (by norm_num) (by decide) hmap)
  refine ⟨k, hreach, ?_, hready, ?_⟩
  · rcases mapPage_effect (s := none) hmachine.inv rfl (by norm_num) (by decide) hmap with
      ⟨hal, -⟩ | ⟨-, -, fresh, he⟩
    · exact absurd ⟨rfl, rfl⟩ hal
    · exact ⟨(KernelInv.of_reachable hreach).vmm, (he.pmm.used 0).mpr (Or.inr hzero₀),
        (he.pmm.used 0xb8).mpr (Or.inr hscreen₀),
        (he.maps _ _ _ _).mpr (Or.inl ⟨rfl, by decide, by decide, rfl, by decide⟩)⟩
  · rw [hsame.tasks, htasks]
    rfl

section Screen

variable {x : ℕ}

/-- The task finds the pages that the kernel has mapped. -/
lemma KernelPage.pageFrame_task (h : KernelPage lo f x k) (ht : (k.tasks t).active = true)
    (hf : f < frameCount) (hframe : base x / 0x1000 = f) :
    k.pageFrame (k.tasks t).context f = some f ∧ k.pageFrame k.kernelContext f = some f := by
  refine ⟨(pageFrame_eq_some h.inv ht hf).mpr ⟨_, Or.inr h.maps, hframe⟩, ?_⟩
  rw [(pageFrame_of_maps h.maps).2, hframe]

/-- Zeros in a page that is mapped where it is. -/
lemma clearBytes_same {c size : ℕ} (ram : Ram) (hpage : k.pageFrame c f = some f)
    (hf : f < frameCount) (hpos : 0 < size) (hsize : size ≤ 0x1000) :
    ∃ ram', clearBytes k c ram (f * 0x1000) size = .ok ram' ∧ ram' (f * 0x1000) = 0 := by
  have hphys : ∀ i < size, k.physical c (wrap32 (f * 0x1000 + i)) = some (f * 0x1000 + i) := by
    intro i hi
    have hdiv : (f * 0x1000 + i) / 0x1000 = f := by omega
    have hmod : (f * 0x1000 + i) % 0x1000 = i := by omega
    rw [frameCount] at hf
    rw [wrap32_of_lt (by omega), Kernel.physical, Paging.translate, hdiv, hpage, hmod,
      Option.map_some]
  obtain ⟨ram', hclear, hstored⟩ : ∃ ram', clearBytes k c ram (f * 0x1000) size = .ok ram' ∧
      Stored (k.physical c) (fun i => wrap32 (f * 0x1000 + i)) (fun _ => 0) size ram ram' := by
    refine storeBlock_ok (fun i hi => ?_) fun i hi j hj p hp hp' => ?_
    · rw [hphys i hi]
      exact Option.some_ne_none _
    · have heq := Option.some.inj ((hphys i hi).symm.trans (hp.trans (hp'.symm.trans (hphys j hj))))
      omega
  have hbyte := hstored.there 0 hpos _ (hphys 0 hpos)
  rw [Nat.add_zero] at hbyte
  exact ⟨ram', hclear, hbyte⟩

end Screen

/-- It is loaded into the first task of the machine. -/
lemma overScreen_loaded : ∃ k k₁ s,
    Reachable (VmmStarted bootLayout) (VmmStep bootLayout.poolFrame) k ∧
      initTask k 1 = .ok (k₁, 0) ∧ overScreen.Found k₁ 0
    ∧ k.physical k.kernelContext 0xb8000 = some 0xb8000
    ∧ overScreen.load (k₁.tasks 0).context (k₁, fun _ => 0xff) = .ok s ∧ s.2 0xb8000 = 0 := by
  obtain ⟨k, hreach, hpage, hready, hfirst⟩ := screen_machine
  have hi := KernelInv.of_reachable hreach
  obtain ⟨k₁, hspawn, hready₁, -⟩ := initTask_returns machine_slots 1 hready hfirst
  have hi₁ : KernelInv bootLayout.poolFrame k₁ :=
    KernelInv.of_reachable (hreach.next (.initTask 1 hspawn))
  have ht := (initTask_spawned hspawn).active
  have hrun : k.pmm.HasRun (kernelStackSizePages + (userStackSizePages + 55)) := by
    obtain ⟨f, hf, -⟩ := hready.run
    exact ⟨f, hf⟩
  obtain ⟨hpage₁, hstack, huser⟩ := hpage.initTask (hrun.take (by decide)) hspawn
  obtain ⟨hspawned, hrun₁⟩ := initTask_frames hi.vmm hi.low hpage.zero hrun hspawn
  have hstart₁ := LoadInv.start hi₁ ht hspawned
  obtain ⟨htask₁, hkernel₁⟩ := hpage₁.pageFrame_task ht (by decide) base_screenEntry
  have hfind : ∀ pmm phys, pmmAllocRange k₁.pmm screenHeader.realSize = .ok (pmm, phys) →
      phys ≠ 0 := by
    intro pmm phys hrange
    rw [screenHeader_realSize] at hrange
    exact hpage₁.range_ne_zero (by decide) (hrun₁.take (by decide)) hrange
  -- the page is not mapped again
  obtain ⟨k₂, hload, -⟩ : ∃ k₂, loadSegment (k₁.tasks 0).context k₁ screenHeader = .ok k₂
      ∧ k₂.pmm.Reserve 0 := by
    refine loadSegment_clear hi₁.vmm ht (hrun₁.take ?_) rfl ?_
      (fun n hn hk => hstart₁.ne_zero hn hk) ?_
      (hready₁.reserve.mono (le_trans ?_ (Nat.le_add_right 23 _)))
    · rw [screenHeader_realSize]
      decide
    · rw [screenHeader_firstPage, screenHeader_realSize, frameCount]
      decide
    · rw [screenHeader_firstPage, screenHeader_realSize]
      intro j hj _
      obtain rfl : j = 0 := by omega
      rw [Nat.add_zero, vmmLookup_page, hkernel₁]
      decide
    · rw [screenHeader_realSize]
      decide
  obtain ⟨f, hs⟩ := loadSegment_pages hi₁.vmm ht rfl (by norm_num [screenHeader]) hfind hload
  have hpage₂ : k₂.pageFrame (k₁.tasks 0).context 0xb8 = some 0xb8 := by
    rw [hs.pages 0xb8 (by decide), Kernel.filledFrame, if_neg, htask₁]
    rw [vmmLookup_page, htask₁]
    exact fun hc => absurd hc.1 (by decide)
  obtain ⟨ram, hclear, hbyte⟩ : ∃ ram, clearBytes k₂ (k₁.tasks 0).context (fun _ => 0xff)
      (0xb8 * 0x1000) 0x10 = .ok ram ∧ ram (0xb8 * 0x1000) = 0 :=
    clearBytes_same _ hpage₂ (by decide) (by norm_num) (by norm_num)
  have hfound : overScreen.Found k₁ 0 := by
    refine ⟨hstack, huser, ?_⟩
    rintro ph q ⟨-, done, rest, hsegs, hdone⟩
    cases done with
    | nil =>
      obtain ⟨rfl, -⟩ := List.cons.inj hsegs
      obtain rfl := Except.ok.inj hdone
      exact hfind
    | cons a done => exact absurd (congrArg List.length hsegs) (by simp [overScreen])
  refine ⟨k, k₁, (k₂, ram), hreach, hspawn, hfound, ?_, ?_, hbyte⟩
  · have hkernel : k.pageFrame k.kernelContext 0xb8 = some 0xb8 := by
      rw [(pageFrame_of_maps hpage.maps).2, base_screenEntry]
    rw [Kernel.physical, Paging.translate, show 0xb8000 / 0x1000 = 0xb8 by norm_num, hkernel]
    rfl
  · refine bind_eq_ok.mpr ⟨(k₂, ram), ?_, rfl⟩
    rw [loadContents, if_neg (by decide)]
    change (loadSegment (k₁.tasks 0).context k₁ screenHeader >>= _) = _
    rw [hload, ok_bind]
    change (clearBytes k₂ (k₁.tasks 0).context (fun _ => 0xff) (0xb8 * 0x1000) 0x10 >>= _) = _
    rw [hclear]
    rfl

/-- **The image is not contained**: the byte of the screen changes. -/
theorem overScreen_not_contained : ∃ k k₁ s,
    Reachable (VmmStarted bootLayout) (VmmStep bootLayout.poolFrame) k
      ∧ initTask k 1 = .ok (k₁, 0)
      ∧ overScreen.load (k₁.tasks 0).context (k₁, fun _ => 0xff) = .ok s
      ∧ k.physical k.kernelContext 0xb8000 = some 0xb8000 ∧ s.2 0xb8000 = 0
      ∧ ¬ overScreen.Contained k k₁ (k₁.tasks 0).context := by
  obtain ⟨k, k₁, ⟨k₂, ram⟩, hreach, hspawn, -, hphys, hload, hbyte⟩ := overScreen_loaded
  refine ⟨k, k₁, (k₂, ram), hreach, hspawn, hload, hphys, hbyte, fun hcont => ?_⟩
  have hkeep : ram 0xb8000 = 0xff := (hcont _ _ _ hload).2 0xb8000 (by norm_num) _ hphys
  exact absurd (hkeep.symm.trans hbyte) (by decide)

/-- It does not keep off the frames of the kernel. -/
theorem overScreen_not_keepsOff : ∃ k k₁, initTask k 1 = .ok (k₁, 0)
    ∧ ¬ overScreen.KeepsOff k k₁ (k₁.tasks 0).context := by
  obtain ⟨k, k₁, ⟨k₂, ram⟩, hreach, hspawn, hfound, hphys, hload, hbyte⟩ := overScreen_loaded
  have hvirt : ∀ ph ∈ overScreen.segments, ph.virtAddr < 2 ^ 32 := by decide
  refine ⟨k, k₁, hspawn, fun hoff => ?_⟩
  have hcont := (elf_contained_iff hreach hspawn hvirt hfound hload).mpr hoff
  have hkeep : ram 0xb8000 = 0xff := (hcont _ _ _ hload).2 0xb8000 (by norm_num) _ hphys
  exact absurd (hkeep.symm.trans hbyte) (by decide)


end MicroOS
