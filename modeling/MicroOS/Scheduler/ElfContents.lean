import MicroOS.Scheduler.ElfLoad

/-!
What the task of a program finds in its memory after the loading loop of `init_elf`.

* `LoadInv`: while segments are loaded, the pages of the task are private and in use, and every
  frame that was taken is behind one of them; `LoadInv.segment` is the step lemma.
* `SegmentHolds`: a segment is where the task finds it; `storeSegment` says that a segment is
  stored, and that those before it stay.
* `elf_loaded_iff`: an image is loaded exactly when the pages that `init_elf` counts and that lie in
  a slot of the kernel are mapped there.
-/

namespace MicroOS

open ByteMem Checked PageEntry Paging Relation Run

variable {lo : ℕ} {k k₁ q q' : Kernel} {t : Fin maxTasks} {n f : ℕ}

/-! ### Segments of an image -/

/-- The pages outside the slots of the kernel. -/
def Kernel.userPages (k : Kernel) : Set ℕ :=
  { n | n < frameCount ∧ ¬ Present (k.kernelEntry (n / 1024)) }

/-- A segment that can be loaded: it ends two pages below the top, touches no slot of the kernel,
and its contents lie in the image. -/
structure ElfSegment.Valid (k : Kernel) (size : ℕ) (ph : ElfSegment) : Prop where
  below : ph.virtAddr + ph.memSize ≤ 2 ^ 32 - 0x2000
  user : ∀ i < ph.memSize, ¬ Present (k.kernelEntry (pdIndexOf (ph.virtAddr + i)))
  file_le : ph.fileSize ≤ ph.memSize
  inside : ph.offset + ph.fileSize ≤ size

/-- Segments without a common address. -/
def ElfSegment.Apart (a b : ElfSegment) : Prop :=
  ∀ i < a.memSize, ∀ j < b.memSize, a.virtAddr + i ≠ b.virtAddr + j

/-- **An image that can be loaded.** -/
structure ElfFile.Valid (k : Kernel) (file : ElfFile) : Prop where
  size_le : file.size ≤ 2 ^ 32
  segments : ∀ ph ∈ file.segments, ph.type = 1 → ph.Valid k file.size
  apart : file.segments.Pairwise fun a b => a.type = 1 → b.type = 1 → a.Apart b

/-- The number of pages that `init_elf` counts for an image. -/
def ElfFile.pages (file : ElfFile) : ℕ :=
  (file.segments.map fun ph => ph.toElfProgramHeader.pages).sum

/-- Every page that `init_elf` counts for a segment, and that lies in a slot of the kernel, is
mapped by the kernel. -/
def ElfSegment.Clear (k : Kernel) (ph : ElfSegment) : Prop :=
  ph.type = 1 → ∀ j < ph.realSize, PageClear k (ph.firstPage + j)

namespace ElfSegment.Valid

variable {size : ℕ} {ph : ElfSegment} (h : ph.Valid k size)

include h

/-- The pages that are counted lie in the address space. -/
lemma room : ph.firstPage + ph.realSize ≤ frameCount := by
  have hbelow := h.below
  rw [ElfProgramHeader.firstPage, ElfProgramHeader.realSize, frameCount]
  split_ifs <;> omega

/-- The addresses of a segment lie in the pages that are counted. -/
lemma page {i : ℕ} (hi : i < ph.memSize) : (ph.virtAddr + i) / 0x1000 ∈ k.userPages
    ∧ ph.firstPage ≤ (ph.virtAddr + i) / 0x1000
    ∧ (ph.virtAddr + i) / 0x1000 < ph.firstPage + ph.realSize := by
  have hbelow := h.below
  refine ⟨⟨?_, ?_⟩, ?_, ?_⟩
  · rw [frameCount]
    omega
  · have huser := h.user i hi
    rwa [pdIndexOf] at huser
  · rw [ElfProgramHeader.firstPage]
    omega
  · rw [ElfProgramHeader.firstPage, ElfProgramHeader.realSize]
    split_ifs <;> omega

lemma wrap {i : ℕ} (hi : i < ph.memSize) : wrap32 (ph.virtAddr + i) = ph.virtAddr + i := by
  have hbelow := h.below
  exact wrap32_of_lt (by omega)

end ElfSegment.Valid

/-! ### Pages and frames -/

/-- **While segments are loaded**, since the state `k`. -/
structure LoadInv (lo : ℕ) (t : Fin maxTasks) (k q : Kernel) : Prop where
  inv : VmmInv lo q
  same : SameTasks k q
  slots : ∀ i < 1024, Present (q.kernelEntry i) ↔ Present (k.kernelEntry i)
  clear : ∀ n < frameCount, PageClear q n ↔ PageClear k n
  mask : q.pmm.bitmapPagetableMask = k.pmm.bitmapPagetableMask
  zero : q.pmm.Used 0
  mapped : ∀ n ∈ k.userPages, ∀ f, q.pageFrame (k.tasks t).context n = some f →
    q.pmm.Used f ∧ f ≠ 0 ∧ ¬ k.pmm.Pool f
  apart : Private (q.pageFrame (k.tasks t).context) k.userPages
  taken : ∀ f, ¬ k.pmm.Pool f → q.pmm.Used f →
    k.pmm.Used f ∨ ∃ n ∈ k.userPages, q.pageFrame (k.tasks t).context n = some f

namespace LoadInv

/-- What `vmm_lookup` finds in a slot of the kernel, as the task sees it. -/
lemma lookup_kernel (h : LoadInv lo t k q) (ht : (k.tasks t).active = true) (hn : n < frameCount)
    (hk : Present (q.kernelEntry (n / 1024))) :
    vmmLookup q (n * 0x1000) q.kernelContext
      = (q.pageFrame (k.tasks t).context n).elim 0 (· * 0x1000) := by
  have ht' : (q.tasks t).active = true := by rwa [h.same.tasks]
  have hpage := pageFrame_kernel h.inv ht' hn hk
  rw [h.same.tasks] at hpage
  rw [vmmLookup_page, hpage]

lemma pool (h : LoadInv lo t k q) (g : ℕ) : q.pmm.Pool g ↔ k.pmm.Pool g := by
  rw [Pmm.Pool, Pmm.Pool, h.mask]

/-- A page that the task may have is mapped to no frame, or not to frame 0. -/
lemma ne_zero (h : LoadInv lo t k q) (hn : n < frameCount)
    (hk : ¬ Present (q.kernelEntry (n / 1024))) :
    q.pageFrame (q.tasks t).context n ≠ some 0 := by
  rw [h.same.tasks]
  intro hc
  exact (h.mapped n ⟨hn, mt (h.slots _ (slot_lt hn)).mpr hk⟩ 0 hc).2.1 rfl

variable {ph : ElfProgramHeader}

/-- **The step lemma**: the pages of a segment are filled. -/
lemma segment (h : LoadInv lo t k q) (ht : (k.tasks t).active = true)
    (hroom : ph.firstPage + ph.realSize ≤ frameCount) (hs : SegmentFilled lo t q ph f q') :
    LoadInv lo t k q' := by
  have ht' : (q.tasks t).active = true := by rwa [h.same.tasks]
  have hsame := h.same.trans hs.same
  have hpages : ∀ n < frameCount, q'.pageFrame (k.tasks t).context n
      = fill (q.pageFrame (k.tasks t).context) ph.firstPage ph.realSize f n := by
    have := hs.pages
    rwa [h.same.tasks] at this
  have hslots : ∀ i < 1024, Present (q'.kernelEntry i) ↔ Present (k.kernelEntry i) :=
    fun i hi => (hs.slots i hi).trans (h.slots i hi)
  have hmask := hs.mask.trans h.mask
  -- the frames of the segment were free
  have hfree : ∀ g, f ≤ g → g < f + ph.realSize → ¬ q.pmm.Used g ∧ ¬ k.pmm.Pool g :=
    fun g h1 h2 => ⟨(hs.run.free g h1 h2).1, mt (h.pool g).mpr (hs.run.free g h1 h2).2⟩
  have hused : ∀ g, ¬ k.pmm.Pool g → (q'.pmm.Used g ↔ q.pmm.Used g
      ∨ (f ≤ g ∧ g < f + ph.realSize)
        ∧ q.pageFrame (k.tasks t).context (ph.firstPage + (g - f)) = none) := by
    intro g hg
    rw [hs.used g (mt (h.pool g).mp hg), h.same.tasks]
  -- the slots of the kernel are not filled
  have hkernel : ∀ n < frameCount, Present (k.kernelEntry (n / 1024)) →
      q'.pageFrame (k.tasks t).context n = q.pageFrame (k.tasks t).context n := by
    intro n hn hk
    have hk' := (h.slots _ (slot_lt hn)).mpr hk
    rw [hpages n hn]
    refine fill_of_keep ?_
    by_contra hc
    push Not at hc
    have hclear := hs.clear (n - ph.firstPage) (by omega)
    rw [Nat.add_sub_cancel' hc.2.1] at hclear
    refine hclear hk' ?_
    rw [h.lookup_kernel ht hn hk', hc.1]
    rfl
  have hpool : ¬ k.pmm.Pool 0 := by
    rw [← h.pool, h.inv.guarded.pool]
    have := h.inv.guarded.pos
    omega
  have hzero : q'.pmm.Used 0 := (hused 0 hpool).mpr (Or.inl h.zero)
  refine ⟨hs.inv, hsame, hslots, fun n hn => ?_, hmask, hzero, fun n hn g hg => ?_, ?_,
    fun g hg hu => ?_⟩
  · rw [← h.clear n hn, PageClear, PageClear, hs.slots _ (slot_lt hn)]
    refine forall_congr' fun hk => ?_
    have hk' := (hs.slots _ (slot_lt hn)).mpr hk
    have hpage := pageFrame_kernel hs.inv (t := t) (by rwa [hsame.tasks]) hn hk'
    rw [hsame.tasks, hkernel n hn ((h.slots _ (slot_lt hn)).mp hk)] at hpage
    rw [vmmLookup_page, ← hpage, h.lookup_kernel ht hn hk]
  · rw [hpages n hn.1] at hg
    rcases fill_eq_some hg with hg | ⟨hnone, h1, h2, rfl⟩
    · obtain ⟨hu, hne, hp⟩ := h.mapped n hn g hg
      exact ⟨(hused g hp).mpr (Or.inl hu), hne, hp⟩
    · obtain ⟨hu, hp⟩ := hfree (f + (n - ph.firstPage)) (by omega) (by omega)
      refine ⟨(hused _ hp).mpr (Or.inr ⟨by omega, ?_⟩), ?_, hp⟩
      · rw [Nat.add_sub_cancel_left, Nat.add_sub_cancel' h1]
        exact hnone
      · intro hc
        exact hu (hc ▸ h.zero)
  · refine (h.apart.fill (b := ph.firstPage) fun n hn g hg hc => ?_).congr fun n hn => hpages n hn.1
    exact (hfree g hc.1 hc.2).1 (h.mapped n hn g hg).1
  · rcases (hused g hg).mp hu with hu | ⟨⟨h1, h2⟩, hnone⟩
    · refine (h.taken g hg hu).imp_right fun ⟨n, hn, hn'⟩ => ⟨n, hn, ?_⟩
      rw [hpages n hn.1, fill_of_keep (Or.inl (by rw [hn']; exact Option.some_ne_none g))]
      exact hn'
    · have hn : ph.firstPage + (g - f) < frameCount := by omega
      refine Or.inr ⟨ph.firstPage + (g - f), ⟨hn, fun hk => ?_⟩, ?_⟩
      · have hk' := (h.slots _ (slot_lt hn)).mpr hk
        refine hs.clear (g - f) (by omega) hk' ?_
        rw [h.lookup_kernel ht hn hk', hnone]
        rfl
      · rw [hpages _ hn, fill_of_none (by omega) hnone]
        exact congrArg some (by omega)

/-- After `init_task`. -/
lemma start (hi : KernelInv lo k) (ht : (k.tasks t).active = true)
    (hf : SpawnFrames t ⟨k, 0, n⟩) : LoadInv lo t k k := by
  refine ⟨hi.vmm, SameTasks.refl k, fun _ _ => Iff.rfl, fun _ _ => Iff.rfl, rfl, hf.zero,
    fun n hn f hpage => ?_, fun n hn m hm f hpage hpage' => ?_, fun f _ hu => Or.inl hu⟩
  · obtain ⟨x, hx, rfl⟩ := (pageFrame_user hi.vmm ht hn.1 hn.2).mp hpage
    obtain ⟨hu, hne, -⟩ := hf.mapped _ _ _ hx
    exact ⟨hu, hne, fun hp => (hi.tasks.mapped _ _ _ _ hx).1 ((hi.vmm.guarded.pool _).mp hp)⟩
  · obtain ⟨x, hx, rfl⟩ := (pageFrame_user hi.vmm ht hn.1 hn.2).mp hpage
    obtain ⟨y, hy, heq⟩ := (pageFrame_user hi.vmm ht hm.1 hm.2).mp hpage'
    have hslot := hf.inj _ _ _ _ _ _ hx hy heq.symm
    omega

end LoadInv

/-! ### Contents -/

/-- **A segment is where a task finds it**: the bytes of the image, and zeros behind them. -/
def SegmentHolds (k : Kernel) (context : ℕ) (contents : ℕ → UInt8) (ram : Ram) (ph : ElfSegment) :
    Prop :=
  ∀ i < ph.memSize, ∃ p, k.physical context (ph.virtAddr + i) = some p
    ∧ ram p = if i < ph.fileSize then contents (ph.offset + i) else 0

section Contents

variable {ph : ElfSegment} {size : ℕ} {contents : ℕ → UInt8} {ram : Ram}

/-- **A segment is stored**, and addresses outside it keep what they hold. -/
lemma storeSegment (contents : ℕ → UInt8) (ram : Ram) (h : LoadInv lo t k q)
    (hv : ph.Valid k size) (hsize : size ≤ 2 ^ 32)
    (hmapped : ∀ n, ph.firstPage ≤ n → n < ph.firstPage + ph.realSize →
      q.pageFrame (k.tasks t).context n ≠ none) :
    ∃ ram₁ ram₂, clearBytes q (k.tasks t).context ram ph.virtAddr ph.memSize = .ok ram₁
      ∧ copyBytes q (k.tasks t).context ram₁ ph.virtAddr contents ph.offset ph.fileSize = .ok ram₂
      ∧ SegmentHolds q (k.tasks t).context contents ram₂ ph
      ∧ ∀ v p, v / 0x1000 ∈ k.userPages → (∀ i < ph.memSize, ph.virtAddr + i ≠ v) →
        q.physical (k.tasks t).context v = some p → ram₂ p = ram p := by
  have hle := hv.file_le
  have htrans : ∀ i < ph.memSize,
      q.physical (k.tasks t).context (wrap32 (ph.virtAddr + i)) ≠ none := by
    intro i hi
    obtain ⟨-, h1, h2⟩ := hv.page hi
    rw [hv.wrap hi, Kernel.physical, Paging.translate, ne_eq, Option.map_eq_none_iff]
    exact hmapped _ h1 h2
  -- two addresses of the segment never show one byte, since the pages have frames of their own
  have hinj : ∀ i < ph.memSize, ∀ j < ph.memSize, ∀ p,
      q.physical (k.tasks t).context (wrap32 (ph.virtAddr + i)) = some p →
      q.physical (k.tasks t).context (wrap32 (ph.virtAddr + j)) = some p → i = j := by
    intro i hi j hj p hp hp'
    rw [hv.wrap hi] at hp
    rw [hv.wrap hj] at hp'
    have heq := h.apart.translate_inj (by norm_num) (hv.page hi).1 (hv.page hj).1 hp hp'
    omega
  obtain ⟨ram₁, h1, hs₁⟩ : ∃ ram₁,
      clearBytes q (k.tasks t).context ram ph.virtAddr ph.memSize = .ok ram₁
      ∧ Stored (q.physical (k.tasks t).context) (fun i => wrap32 (ph.virtAddr + i)) (fun _ => 0)
        ph.memSize ram ram₁ :=
    storeBlock_ok htrans hinj
  obtain ⟨ram₂, h2, hs₂⟩ : ∃ ram₂,
      copyBytes q (k.tasks t).context ram₁ ph.virtAddr contents ph.offset ph.fileSize = .ok ram₂
      ∧ Stored (q.physical (k.tasks t).context) (fun i => wrap32 (ph.virtAddr + i))
        (fun i => contents (wrap32 (ph.offset + i))) ph.fileSize ram₁ ram₂ :=
    storeBlock_ok (fun i hi => htrans i (by omega))
      (fun i hi j hj => hinj i (by omega) j (by omega))
  refine ⟨ram₁, ram₂, h1, h2, fun i hi => ?_, fun v p hpage hne hp => ?_⟩
  · obtain ⟨p, hp⟩ := Option.ne_none_iff_exists'.mp (htrans i hi)
    refine ⟨p, by rwa [hv.wrap hi] at hp, ?_⟩
    by_cases hfile : i < ph.fileSize
    · have hoff := hv.inside
      rw [if_pos hfile, hs₂.there i hfile p hp, wrap32_of_lt (by omega)]
    · rw [if_neg hfile, hs₂.elsewhere p fun j hj hp' => ?_, hs₁.there i hi p hp]
      have := hinj i hi j (by omega) p hp hp'
      omega
  · have hother : ∀ i < ph.memSize,
        q.physical (k.tasks t).context (wrap32 (ph.virtAddr + i)) ≠ some p := by
      intro i hi hp'
      rw [hv.wrap hi] at hp'
      exact hne i hi (h.apart.translate_inj (by norm_num) (hv.page hi).1 hpage hp' hp)
    rw [hs₂.elsewhere p fun i hi => hother i (by omega), hs₁.elsewhere p hother]

/-- A segment stays where it is while another is loaded. -/
lemma SegmentHolds.keep {a : ElfSegment} {ram' : Ram} (hv : a.Valid k size)
    (h : SegmentHolds q (k.tasks t).context contents ram a) (hsame : SameTasks k q)
    (hs : SegmentFilled lo t q ph.toElfProgramHeader f q')
    (hram : ∀ v p, v / 0x1000 ∈ k.userPages → (∀ i < ph.memSize, ph.virtAddr + i ≠ v) →
      q'.physical (k.tasks t).context v = some p → ram' p = ram p)
    (hapart : a.Apart ph) : SegmentHolds q' (k.tasks t).context contents ram' a := by
  intro i hi
  obtain ⟨p, hp, hbyte⟩ := h i hi
  have huser := (hv.page hi).1
  have hkeep : q'.pageFrame (k.tasks t).context ((a.virtAddr + i) / 0x1000)
      = q.pageFrame (k.tasks t).context ((a.virtAddr + i) / 0x1000) := by
    have hpages := hs.pages _ huser.1
    rw [hsame.tasks] at hpages
    rw [hpages]
    refine fill_of_keep (Or.inl fun hc => ?_)
    rw [Kernel.physical, Paging.translate, hc] at hp
    cases hp
  have hp' : q'.physical (k.tasks t).context (a.virtAddr + i) = some p :=
    (translate_congr hkeep).trans hp
  refine ⟨p, hp', ?_⟩
  rw [hram _ p huser (fun j hj heq => hapart i hi j hj heq.symm) hp', hbyte]

end Contents

/-! ### The loop -/

section Loop

variable {contents : ℕ → UInt8} {ram : Ram} {size m r : ℕ} (ht : (k.tasks t).active = true)

include ht

/-- What a call of `loadSegment` that returns leaves. -/
lemma LoadInv.of_loadSegment {ph : ElfProgramHeader} (h : LoadInv lo t k q) (hlow : 0x200 < lo)
    (htype : ph.type = 1) (hroom : ph.firstPage + ph.realSize ≤ frameCount)
    (hrun : q.pmm.HasRun (ph.pages + m)) (hload : loadSegment (k.tasks t).context q ph = .ok q') :
    ∃ f, SegmentFilled lo t q ph f q' ∧ LoadInv lo t k q' ∧ q'.pmm.HasRun m := by
  have ht' : (q.tasks t).active = true := by rwa [h.same.tasks]
  have hpages : ph.pages = ph.realSize := if_pos htype
  rw [← h.same.tasks] at hload
  obtain ⟨f, hs⟩ := loadSegment_filled h.inv ht' (hrun.take (by omega)) htype hroom
    (fun n hn hk => h.ne_zero hn hk) hload
  have hspawn : SpawnInv lo ⟨q, 0, ph.pages + m⟩ := ⟨h.inv, hlow, by simp⟩
  obtain ⟨-, hsteps⟩ := loadSegment_steps (fun _ => True) hspawn ht' hrun
    (fun _ _ _ => trivial) hload
  exact ⟨f, hs, h.segment ht hroom hs, hasRun_steps hsteps hrun⟩

omit ht in
/-- The pages of a segment are mapped afterwards. -/
lemma SegmentFilled.mapped {ph : ElfProgramHeader} (hs : SegmentFilled lo t q ph f q')
    (hsame : SameTasks k q) (hroom : ph.firstPage + ph.realSize ≤ frameCount) (n : ℕ)
    (h1 : ph.firstPage ≤ n) (h2 : n < ph.firstPage + ph.realSize) :
    q'.pageFrame (k.tasks t).context n ≠ none := by
  have hpages := hs.pages n (by omega)
  rw [hsame.tasks] at hpages
  rw [hpages]
  exact fill_ne_none ⟨h1, h2⟩

/-- **An image whose pages are clear is loaded**, with enough frames. -/
lemma load_of_clear {l : List ElfSegment} (done : List ElfSegment) (h : LoadInv lo t k q)
    (hlow : 0x200 < lo)
    (hsize : size ≤ 2 ^ 32)
    (hvalid : ∀ ph ∈ done ++ l, ph.type = 1 → ph.Valid k size)
    (hapart : (done ++ l).Pairwise fun a b => a.type = 1 → b.type = 1 → a.Apart b)
    (hclear : ∀ ph ∈ l, ph.Clear k)
    (hdone : ∀ ph ∈ done, ph.type = 1 → SegmentHolds q (k.tasks t).context contents ram ph)
    (hrun : q.pmm.HasRun ((l.map fun ph => ph.toElfProgramHeader.pages).sum + m))
    (hres : q.pmm.Reserve ((l.map fun ph => ph.toElfProgramHeader.pages).sum + r)) :
    ∃ q' ram', l.foldlM (loadContents (k.tasks t).context contents) (q, ram) = .ok (q', ram')
      ∧ LoadInv lo t k q' ∧ ∀ ph ∈ done ++ l, ph.type = 1 →
        SegmentHolds q' (k.tasks t).context contents ram' ph := by
  induction l generalizing q ram done with
  | nil =>
    rw [List.append_nil]
    exact ⟨q, ram, rfl, h, hdone⟩
  | cons ph l ih =>
    rw [List.map_cons, List.sum_cons, Nat.add_assoc] at hrun hres
    rw [List.append_cons] at hvalid hapart ⊢
    rw [List.foldlM_cons]
    by_cases htype : ph.type = 1
    · have hv := hvalid ph (by simp) htype
      have hpages : ph.pages = ph.realSize := if_pos htype
      have ht' : (q.tasks t).active = true := by rwa [h.same.tasks]
      have hclear₁ : ∀ j < ph.realSize, PageClear q (ph.firstPage + j) := by
        intro j hj
        have hroom := hv.room
        exact (h.clear _ (by omega)).mpr (hclear ph List.mem_cons_self htype j hj)
      rw [hpages] at hres
      obtain ⟨q₁, hload, hres₁⟩ :=
        loadSegment_clear h.inv ht' (hrun.take (by omega)) htype hv.room
        (fun n hn hk => h.ne_zero hn hk)
        hclear₁ hres
      rw [h.same.tasks] at hload
      obtain ⟨f, hs, h₁, hrun₁⟩ := h.of_loadSegment ht hlow htype hv.room hrun hload
      obtain ⟨ram₁, ram₂, hclr, hcpy, hholds, hother⟩ :=
        storeSegment contents ram h₁ hv hsize (hs.mapped h.same hv.room)
      -- the segments that are loaded keep their bytes, since the new one lies apart from them
      have hdone₁ : ∀ a ∈ done ++ [ph], a.type = 1 →
          SegmentHolds q₁ (k.tasks t).context contents ram₂ a := by
        intro a ha hatype
        rcases List.mem_append.mp ha with ha | ha
        · have hap : a.Apart ph := by
            have hpair := (List.pairwise_append.mp (List.pairwise_append.mp hapart).1).2.2
            exact hpair a ha ph (List.mem_singleton_self ph) hatype htype
          exact (hdone a ha hatype).keep (hvalid a (by simp [ha]) hatype) h.same hs hother hap
        · obtain rfl := List.mem_singleton.mp ha
          exact hholds
      obtain ⟨q', ram', hloop, h', hall⟩ := ih (done ++ [ph]) h₁ hvalid hapart
        (fun a ha => hclear a (List.mem_cons_of_mem ph ha)) hdone₁ hrun₁ hres₁
      refine ⟨q', ram', bind_eq_ok.mpr ⟨(q₁, ram₂), ?_, hloop⟩, h', hall⟩
      rw [loadContents, if_neg (not_not.mpr htype)]
      exact bind_eq_ok.mpr ⟨q₁, hload, bind_eq_ok.mpr ⟨ram₁, hclr,
        bind_eq_ok.mpr ⟨ram₂, hcpy, rfl⟩⟩⟩
    · -- a header of another type is passed over, and needs no page
      have hpages : ph.pages = 0 := if_neg htype
      rw [hpages, Nat.zero_add] at hrun hres
      have hdone₁ : ∀ a ∈ done ++ [ph], a.type = 1 →
          SegmentHolds q (k.tasks t).context contents ram a := by
        intro a ha hatype
        rcases List.mem_append.mp ha with ha | ha
        · exact hdone a ha hatype
        · obtain rfl := List.mem_singleton.mp ha
          exact absurd hatype htype
      obtain ⟨q', ram', hloop, h', hall⟩ := ih (done ++ [ph]) h hvalid hapart
        (fun a ha => hclear a (List.mem_cons_of_mem ph ha)) hdone₁ hrun hres
      refine ⟨q', ram', bind_eq_ok.mpr ⟨(q, ram), ?_, hloop⟩, h', hall⟩
      rw [loadContents, if_pos htype]
      rfl

/-- **An image that is loaded is clear.** -/
lemma clear_of_load {l : List ElfSegment} {s : Kernel × Ram} (h : LoadInv lo t k q)
    (hlow : 0x200 < lo) (hvalid : ∀ ph ∈ l, ph.type = 1 → ph.Valid k size)
    (hrun : q.pmm.HasRun ((l.map fun ph => ph.toElfProgramHeader.pages).sum + m))
    (hload : l.foldlM (loadContents (k.tasks t).context contents) (q, ram) = .ok s) :
    ∀ ph ∈ l, ph.Clear k := by
  induction l generalizing q ram with
  | nil => exact fun ph hph => absurd hph List.not_mem_nil
  | cons ph l ih =>
    rw [List.map_cons, List.sum_cons, Nat.add_assoc] at hrun
    rw [List.foldlM_cons] at hload
    obtain ⟨⟨q₁, ram₁⟩, hseg, hload⟩ := bind_eq_ok.mp hload
    have hkernel := loadContents_kernel hseg
    by_cases htype : ph.type = 1
    · have hv := hvalid ph List.mem_cons_self htype
      obtain ⟨f, hs, h₁, hrun₁⟩ := h.of_loadSegment ht hlow htype hv.room hrun hkernel
      have hrest := ih h₁ (fun a ha => hvalid a (List.mem_cons_of_mem ph ha)) hrun₁ hload
      intro a ha
      rcases List.mem_cons.mp ha with rfl | ha
      · intro _ j hj
        have hroom := hv.room
        exact (h.clear _ (by omega)).mp (hs.clear j hj)
      · exact hrest a ha
    · have hpages : ph.pages = 0 := if_neg htype
      rw [hpages, Nat.zero_add] at hrun
      rw [loadSegment, if_pos htype] at hkernel
      obtain rfl : q = q₁ := Except.ok.inj hkernel
      have hrest := ih h (fun a ha => hvalid a (List.mem_cons_of_mem ph ha)) hrun hload
      intro a ha
      rcases List.mem_cons.mp ha with rfl | ha
      · exact fun hc => absurd hc htype
      · exact hrest a ha

end Loop

/-! ### An image -/

/-- **An image is loaded**, from the state `k` to the state `k'`: every segment is where the task
finds it, and a frame that was taken for it is behind one page of the task. Pages in the slots of
the kernel are not counted: these show frames to every task. -/
structure ElfFile.Loaded (file : ElfFile) (k : Kernel) (t : Fin maxTasks) (k' : Kernel)
    (ram : Ram) : Prop where
  bytes : ∀ ph ∈ file.segments, ph.type = 1 →
    SegmentHolds k' (k.tasks t).context file.contents ram ph
  frames : ∀ f, ¬ k.pmm.Pool f → ¬ k.pmm.Used f →
    ¬ k'.pmm.Used f ∨ ∃! n, n ∈ k'.userPages ∧ k'.pageFrame (k.tasks t).context n = some f

/-- **The segments of an image are loaded exactly when their pages are clear.** `init_elf` counts
up to two pages behind the end of a segment; where such a page lies in a slot of the kernel and the
kernel has not mapped it, the call aborts. Everywhere else, with enough frames, the loop returns,
every segment is in the memory of the task, and no frame is lost or mapped twice. -/
theorem elf_loaded_iff {L : KernelLayout} {term : ℤ} {file : ElfFile}
    (hk : Reachable (VmmStarted L) (VmmStep L.poolFrame) k) (hzero : k.pmm.Used 0)
    (hspawn : initTask k term = .ok (k₁, t)) (hvalid : file.Valid k₁)
    (hframes : k.pmm.HasRun (kernelStackSizePages + (userStackSizePages + file.pages)))
    (htables : k₁.pmm.Reserve file.pages) (ram : Ram) :
    (∃ k₂ ram₂, file.load (k₁.tasks t).context (k₁, ram) = .ok (k₂, ram₂)
        ∧ file.Loaded k₁ t k₂ ram₂)
      ↔ ∀ ph ∈ file.segments, ph.Clear k₁ := by
  have hi := KernelInv.of_reachable hk
  have hi₁ : KernelInv L.poolFrame k₁ := KernelInv.of_reachable (hk.next (.initTask term hspawn))
  have ht := (initTask_spawned hspawn).active
  obtain ⟨hspawned, hrun⟩ := initTask_frames hi.vmm hi.low hzero hframes hspawn
  have hstart := LoadInv.start hi₁ ht hspawned
  constructor
  · rintro ⟨k₂, ram₂, hload, -⟩
    exact clear_of_load (m := 0) ht hstart hi.low hvalid.segments hrun hload
  · intro hclear
    obtain ⟨k₂, ram₂, hload, hinv, hbytes⟩ :
        ∃ k₂ ram₂, file.load (k₁.tasks t).context (k₁, ram) = .ok (k₂, ram₂)
          ∧ LoadInv L.poolFrame t k₁ k₂ ∧ ∀ ph ∈ file.segments, ph.type = 1 →
            SegmentHolds k₂ (k₁.tasks t).context file.contents ram₂ ph :=
      load_of_clear (m := 0) (r := 0) ht [] hstart hi.low hvalid.size_le hvalid.segments
        hvalid.apart hclear (fun ph hph => absurd hph List.not_mem_nil) hrun htables
    refine ⟨k₂, ram₂, hload, hbytes, fun f hpool hfree => or_iff_not_imp_left.mpr fun hu => ?_⟩
    have huser : k₂.userPages = k₁.userPages := by
      ext n
      exact and_congr_right fun hn => not_congr (hinv.slots _ (slot_lt hn))
    rw [huser]
    rcases hinv.taken f hpool (not_not.mp hu) with hused | ⟨n, hn, hpage⟩
    · exact absurd hused hfree
    · exact ⟨n, ⟨hn, hpage⟩, fun m hm => hinv.apart m hm.1 n hn f hm.2 hpage⟩

/-! ### A machine -/

/-- The machine starts, and the frames 0, `0x1400` and `0xb8` are not free. -/
lemma elf_machine : ∃ k, VmmStarted bootLayout k
    ∧ Ready bootLayout.poolFrame {0, 1} 0x440 29 63 k ∧ k.tasks = (fun _ => Task.zero)
    ∧ k.pmm.Used 0 ∧ k.pmm.Used 0x1400 ∧ k.pmm.Used 0xb8 := by
  have hbits : (pmmInit 600 bootLayout machineInfo).toOption.map
      (fun p => decide ((∀ i < 0x60, ¬ p.Used (0x3e0 + i)) ∧ p.Used 0x1400 ∧ p.Used 0xb8)) =
        some true := by
    decide +kernel
  cases hinit : pmmInit 600 bootLayout machineInfo with
  | error e => simp [hinit, Except.toOption] at hbits
  | ok pmm =>
    rw [hinit] at hbits
    obtain ⟨hfree, hused, hscreen⟩ := of_decide_eq_true (Option.some.inj hbits)
    obtain ⟨hg, hzero⟩ := pmmInit_guarded hinit
    obtain ⟨k, hk, hready, htasks, -⟩ := starts_of_free hinit rfl (by decide) (by decide) hfree
    exact ⟨k, ⟨600, machineInfo, pmm, hinit, hk⟩, hready, htasks,
      vmmInit_keepsUsed hg hzero hk, vmmInit_keepsUsed hg hused hk,
      vmmInit_keepsUsed hg hscreen hk⟩

/-- Two segments that share a page. -/
def sharedPage : ElfFile where
  segments := [⟨⟨1, 0x10000000, 0x1800⟩, 0, 4⟩, ⟨⟨1, 0x10001900, 0x100⟩, 4, 2⟩]
  contents := UInt8.ofNat
  size := 6

/-- They are loaded into the first task of the machine. -/
theorem elf_loaded_iff_sharedPage :
    ∃ k₁ k₂ ram₂, sharedPage.load (k₁.tasks 0).context (k₁, fun _ => 0xff) = .ok (k₂, ram₂)
      ∧ sharedPage.Loaded k₁ 0 k₂ ram₂ := by
  obtain ⟨k, hstart, hready, htasks, hzero, -⟩ := elf_machine
  have hfirst : k.tasks.firstInactive = some 0 := by
    rw [htasks]
    rfl
  have hready : Ready bootLayout.poolFrame {0, 1} 0x440 (23 + 6)
    (kernelStackSizePages + (userStackSizePages + 55)) k := hready
  obtain ⟨k₁, hspawn, hready₁, -⟩ := initTask_returns machine_slots 1 hready hfirst
  have hrun : k.pmm.HasRun (kernelStackSizePages + (userStackSizePages + 55)) := by
    obtain ⟨f, hf, -⟩ := hready.run
    exact ⟨f, hf⟩
  -- the segments lie in slot 64, and the kernel has the slots 0 and 1
  have hplace : ∀ ph ∈ sharedPage.segments, 0x10000000 ≤ ph.virtAddr
      ∧ ph.virtAddr + ph.memSize ≤ 0x10002000 := by decide
  have huser : ¬ Present (k₁.kernelEntry 64) := by
    rw [← Kernel.hasTable_none_iff (by norm_num)]
    exact fun hp => absurd (hready₁.slots 64 hp) (by decide)
  have hvalid : sharedPage.Valid k₁ := by
    refine ⟨by norm_num [sharedPage], fun ph hph _ => ?_, ?_⟩
    · obtain ⟨h1, h2⟩ := hplace ph hph
      have hfile : ph.fileSize ≤ ph.memSize ∧ ph.offset + ph.fileSize ≤ sharedPage.size := by
        revert ph
        decide
      refine ⟨by omega, fun i hi => ?_, hfile.1, hfile.2⟩
      rwa [pdIndexOf, show (ph.virtAddr + i) / 0x1000 / 1024 = 64 by omega]
    · refine List.pairwise_pair.mpr fun _ _ i hi j _ => ?_
      have hi : i < 0x1800 := hi
      dsimp only
      omega
  have hclear : ∀ ph ∈ sharedPage.segments, ph.Clear k₁ := by
    intro ph hph _ j hj hk
    obtain ⟨h1, h2⟩ := hplace ph hph
    rw [ElfProgramHeader.firstPage] at hk
    rw [ElfProgramHeader.realSize] at hj
    rw [show (ph.virtAddr / 0x1000 + j) / 1024 = 64 by split_ifs at hj <;> omega] at hk
    exact absurd hk huser
  obtain ⟨k₂, ram₂, hload⟩ := (elf_loaded_iff (.start hstart) hzero hspawn hvalid
    (hrun.take (by decide)) (hready₁.reserve.mono (le_trans (by decide) (Nat.le_add_right 23 _)))
    fun _ => 0xff).mpr hclear
  exact ⟨k₁, k₂, ram₂, hload⟩

/-- A segment of one page that ends where slot 5 begins. -/
def belowSlot : ElfFile where
  segments := [⟨⟨1, 0x13ff000, 0x1000⟩, 0, 0⟩]
  contents := fun _ => 0
  size := 0

/-- There is room for one more slot. -/
lemma Ready.insert {S : Finset ℕ} {top pages frames i : ℕ}
    (h : Ready lo S top (pages + 1) frames k) (hi : i ∉ S) :
    Ready lo (Insert.insert i S) top pages frames k := by
  classical
  refine ⟨h.inv, ?_, fun j hj => Finset.mem_insert_of_mem (h.slots j hj), h.run⟩
  have hno : ¬ k.HasTable none i := fun hc => hi (h.slots i hc)
  have hcard := h.reserve
  rw [Nat.add_assoc, Nat.add_comm 1] at hcard
  rw [Finset.filter_insert, if_pos hno, Finset.card_insert_of_notMem (by simp [hi])]
  exact hcard

/-- The first page of slot 5 is not mapped after `init_task`, when only another page of the slot
was, and its frame is in use. -/
lemma not_pageClear {L : KernelLayout} {term : ℤ}
    (hi : KernelInv L.poolFrame k) (hi₁ : KernelInv L.poolFrame k₁)
    (hspawn : initTask k term = .ok (k₁, t))
    (hrun : k.pmm.HasRun (kernelStackSizePages + userStackSizePages))
    (htable : k.HasTable none 5) (honly : ∀ j y, k.Maps none 5 j y → j = 1)
    (hused : k.pmm.Used 0x1400) : ¬ PageClear k₁ 0x1400 := by
  have ht := (initTask_spawned hspawn).active
  obtain ⟨-, -, hsteps⟩ := initTask_steps (fun _ => False) 0 hi.vmm hi.low hspawn
  have htable₁ : k₁.HasTable none 5 := hsteps.hasTable htable
  have hpres : Present (k₁.kernelEntry (0x1400 / 1024)) :=
    (Kernel.hasTable_none_iff (by norm_num)).mp htable₁
  intro hclear
  refine hclear hpres ?_
  rw [vmmLookup_page, ← pageFrame_kernel hi₁.vmm ht (by decide) hpres]
  cases hpage : k₁.pageFrame (k₁.tasks t).context 0x1400 with
  | none => rfl
  | some f =>
    obtain ⟨x, hx, -⟩ := (pageFrame_eq_some hi₁.vmm ht (by decide)).mp hpage
    rcases hx with hx | hx
    · exact absurd htable₁ hx.not_hasTable
    · rcases initTask_kernelMaps hi.vmm hrun hspawn 5 0 x hx with hold | ⟨f, hfree, hpd, hpt⟩
      · exact absurd (honly 0 x hold) (by norm_num)
      · rw [pdIndexOf, Nat.mul_div_cancel _ (by norm_num)] at hpd
        rw [ptIndexOf, Nat.mul_div_cancel _ (by norm_num)] at hpt
        obtain rfl : f = 0x1400 := by omega
        exact absurd hused hfree

/-- **A program that ends below a slot of the kernel is not loaded.** The kernel has mapped a page
in slot 5, which is not the first page of the slot. -/
theorem belowSlot_not_loaded :
    ∃ k k₁, Reachable (VmmStarted bootLayout) (VmmStep bootLayout.poolFrame) k
      ∧ k.pmm.Used 0 ∧ initTask k 1 = .ok (k₁, 0) ∧ belowSlot.Valid k₁
      ∧ k.pmm.HasRun (kernelStackSizePages + (userStackSizePages + belowSlot.pages))
      ∧ k₁.pmm.Reserve belowSlot.pages
      ∧ ∀ ram, ¬ ∃ k₂ ram₂, belowSlot.load (k₁.tasks 0).context (k₁, ram) = .ok (k₂, ram₂)
        ∧ belowSlot.Loaded k₁ 0 k₂ ram₂ := by
  obtain ⟨k₀, hstart, hmachine, htasks, hzero₀, hhigh₀, -⟩ := elf_machine
  have hno : ¬ k₀.HasTable none 5 := fun hc => absurd (hmachine.slots 5 hc) (by decide)
  have hready₀ : Ready bootLayout.poolFrame {5, 0, 1} 0x440 28 63 k₀ :=
    Ready.insert hmachine (by decide)
  have hslots : Slots {5, 0, 1} 0x440 := by
    refine ⟨by decide, fun f hf => ?_, fun f hf => ?_⟩
    · exact Finset.mem_insert_of_mem (machine_slots.kernel f hf)
    · have hindex : pdIndexOf (wrap32 (f * 0x1000 + userSpaceOffset)) = 768 + f / 1024 := by
        rw [pdIndexOf, wrap32, userSpaceOffset]
        omega
      rw [hindex]
      simp only [Finset.mem_insert, Finset.mem_singleton]
      omega
  -- the kernel maps the second page of slot 5
  obtain ⟨k, hmap, hsame, hready⟩ := hready₀.mapKernel 0x1401000 0x1401000
    (ptePresent ||| pteWrite) (by norm_num) (by decide) (by decide)
  have hreach : Reachable (VmmStarted bootLayout) (VmmStep bootLayout.poolFrame) k :=
    (Reachable.start hstart).next (.mapKernel (by norm_num) (by decide) hmap)
  have hi := KernelInv.of_reachable hreach
  obtain ⟨fresh, he⟩ : ∃ fresh, MapEffect bootLayout.poolFrame k₀ none 5 1
      (0x1401000 ||| (ptePresent ||| pteWrite)) fresh k := by
    rcases mapPage_effect (s := none) hready₀.inv rfl (by norm_num) (by decide) hmap with
      ⟨hal, -⟩ | ⟨-, -, fresh, he⟩
    · exact absurd ⟨rfl, rfl⟩ hal
    · exact ⟨fresh, he⟩
  cases fresh with
  | none => exact absurd (he.freshIff.mp rfl) hno
  | some g =>
    have htable : k.HasTable none 5 := ⟨_, (he.owns _ _).mpr (Or.inr ⟨g, rfl, rfl, rfl⟩)⟩
    have honly : ∀ j y, k.Maps none 5 j y → j = 1 :=
      fun j y hy => ((maps_newTable he j y).mp hy).1
    have hzero : k.pmm.Used 0 := (he.pmm.used 0).mpr (Or.inr hzero₀)
    have hhigh : k.pmm.Used 0x1400 := (he.pmm.used _).mpr (Or.inr hhigh₀)
    have hfirst : k.tasks.firstInactive = some 0 := by
      rw [hsame.tasks, htasks]
      rfl
    have hready : Ready bootLayout.poolFrame {5, 0, 1} 0x440 (22 + 6)
      (kernelStackSizePages + (userStackSizePages + 55)) k := hready
    obtain ⟨k₁, hspawn, hready₁, -⟩ := initTask_returns hslots 1 hready hfirst
    have hi₁ : KernelInv bootLayout.poolFrame k₁ :=
      KernelInv.of_reachable (hreach.next (.initTask 1 hspawn))
    have ht := (initTask_spawned hspawn).active
    have hrun : k.pmm.HasRun (kernelStackSizePages + (userStackSizePages + 55)) := by
      obtain ⟨f, hf, -⟩ := hready.run
      exact ⟨f, hf⟩
    -- the segment lies in slot 4
    have huser : ¬ Present (k₁.kernelEntry 4) := by
      rw [← Kernel.hasTable_none_iff (by norm_num)]
      exact fun hp => absurd (hready₁.slots 4 hp) (by decide)
    have hvalid : belowSlot.Valid k₁ := by
      refine ⟨by norm_num [belowSlot], fun ph hph _ => ?_, List.pairwise_singleton _ _⟩
      obtain rfl := List.mem_singleton.mp hph
      refine ⟨by norm_num, fun i hi => ?_, Nat.zero_le _, Nat.zero_le _⟩
      have hi : i < 0x1000 := hi
      rwa [pdIndexOf, show (0x13ff000 + i) / 0x1000 / 1024 = 4 by omega]
    have hpages : k.pmm.HasRun (kernelStackSizePages + (userStackSizePages + belowSlot.pages)) :=
      hrun.take (by decide)
    refine ⟨k, k₁, hreach, hzero, hspawn, hvalid, hpages,
      hready₁.reserve.mono (le_trans (by decide) (Nat.le_add_right 22 _)), ?_⟩
    rintro ram ⟨k₂, ram₂, hload, -⟩
    obtain ⟨hspawned, hrun₁⟩ := initTask_frames hi.vmm hi.low hzero hpages hspawn
    have hclear := clear_of_load (m := 0) ht (LoadInv.start hi₁ ht hspawned) hi.low
      hvalid.segments hrun₁ hload _ (List.mem_singleton_self _) rfl 1 (by decide)
    exact not_pageClear hi hi₁ hspawn (hrun.take (by decide)) htable honly hhigh hclear

end MicroOS
