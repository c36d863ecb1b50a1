import MicroOS.Memory.VmmMap

/-!
Memory that the kernel maps for itself, while tasks are there.

* `KernelGrows`: what any number of mappings of the kernel do. The kernel keeps its tables and gets
  new ones, from the pool; a task loses what it had in the slots of new tables, and nothing else.
* `KernelGrows.of_mapPage`: one mapping; `KernelGrows.trans`: one after the other.
* `vmmAlloc_spec`: `vmm_alloc` is `pmm_alloc_range` followed by mappings of the kernel.
-/

namespace MicroOS

open ByteMem Checked PageEntry

variable {lo : ℕ} {k k' k'' : Kernel}

/-- The address space an owner belongs to. -/
def Owner.space : Owner → Space
  | .context s => s
  | .dir s => s
  | .table s _ => s

/-- The space has a table of its own in slot `i`. -/
def Kernel.HasTable (k : Kernel) (s : Space) (i : ℕ) : Prop := ∃ p, k.Owns (.table s i) p

/-- The frame holds a page table of the kernel. -/
def Kernel.KernelTable (k : Kernel) (f : ℕ) : Prop := ∃ i, k.Owns (.table none i) (f * 0x1000)

/-- The kernel has a table in the slot of a task's. -/
def Kernel.Taken (k : Kernel) : Owner → Prop
  | .table (some _) i => k.HasTable none i
  | _ => False

/-- A slot of the kernel has a table when its entry is present. -/
lemma Kernel.hasTable_none_iff {i : ℕ} (h : i < 1024) :
    k.HasTable none i ↔ Present (k.kernelEntry i) := by
  constructor
  · rintro ⟨p, hp⟩
    cases hp with
    | table root _ present _ =>
      rw [Kernel.kernelEntry, ← root]
      exact present
  · intro hp
    exact ⟨_, .table rfl h hp (Or.inl rfl)⟩

/-- A task owns no table where the kernel has one. -/
lemma Kernel.Owns.not_taken {o : Owner} {p : ℕ} (h : k.Owns o p) : ¬ k.Taken o := by
  cases h with
  | context root => exact id
  | dir root => exact id
  | @table s c i root lt present own =>
    cases s with
    | none => exact id
    | some t =>
      intro htaken
      rcases own with hs | hno
      · cases hs
      · exact hno ((Kernel.hasTable_none_iff lt).mp htaken)

/-- A page that a task maps itself is in a slot without a table of the kernel. -/
lemma Kernel.Maps.not_hasTable {t : Fin maxTasks} {i j x : ℕ} (h : k.Maps (some t) i j x) :
    ¬ k.HasTable none i := by
  obtain ⟨p, hp, _⟩ := h
  exact hp.not_taken

/-- **What mappings of the kernel do.** -/
structure KernelGrows (lo : ℕ) (k k' : Kernel) : Prop where
  inv : VmmInv lo k'
  tasks : k'.tasks = k.tasks
  kernelContext : k'.kernelContext = k.kernelContext
  currentTask : k'.currentTask = k.currentTask
  mask : k'.pmm.bitmapPagetableMask = k.pmm.bitmapPagetableMask
  used : ∀ f, k'.pmm.Used f ↔ k.pmm.Used f ∨ k'.KernelTable f
  kernel : ∀ i p, k.Owns (.table none i) p → k'.Owns (.table none i) p
  owns : ∀ t o p, o.space = some t → (k'.Owns o p ↔ k.Owns o p ∧ ¬ k'.Taken o)
  maps : ∀ t i j x, k'.Maps (some t) i j x ↔ k.Maps (some t) i j x ∧ ¬ k'.HasTable none i

namespace KernelGrows

/-- The tables of the kernel stay. -/
lemma kernelTable (h : KernelGrows lo k k') {f : ℕ} (hf : k.KernelTable f) :
    k'.KernelTable f := by
  obtain ⟨i, hi⟩ := hf
  exact ⟨i, h.kernel i _ hi⟩

/-- A slot with a table keeps it. -/
lemma hasTable (h : KernelGrows lo k k') {i : ℕ} (hi : k.HasTable none i) :
    k'.HasTable none i := by
  obtain ⟨p, hp⟩ := hi
  exact ⟨p, h.kernel i p hp⟩

lemma taken (h : KernelGrows lo k k') {o : Owner} (ho : k.Taken o) : k'.Taken o := by
  match o with
  | .table (some _) i => exact h.hasTable ho

lemma pool (h : KernelGrows lo k k') (f : ℕ) : k'.pmm.Pool f ↔ k.pmm.Pool f := by
  rw [Pmm.Pool, Pmm.Pool, h.mask]

/-- A kernel grows to itself. -/
lemma refl (hi : VmmInv lo k) : KernelGrows lo k k := by
  refine ⟨hi, rfl, rfl, rfl, rfl, fun f => ?_, fun _ _ h => h, fun t o p _ => ?_,
    fun t i j x => ?_⟩
  · refine (or_iff_left_of_imp ?_).symm
    rintro ⟨i, h⟩
    exact (hi.pool_of_owns h).2
  · exact (and_iff_left_of_imp fun h => h.not_taken).symm
  · exact (and_iff_left_of_imp fun h => h.not_hasTable).symm

/-- A kernel that grows twice has grown. -/
lemma trans (h : KernelGrows lo k k') (h' : KernelGrows lo k' k'') : KernelGrows lo k k'' := by
  refine ⟨h'.inv, h'.tasks.trans h.tasks, h'.kernelContext.trans h.kernelContext,
    h'.currentTask.trans h.currentTask, h'.mask.trans h.mask, fun f => ?_,
    fun i p hp => h'.kernel i p (h.kernel i p hp), fun t o p ho => ?_, fun t i j x => ?_⟩
  · rw [h'.used, h.used, or_assoc]
    refine or_congr_right ?_
    exact or_iff_right_of_imp h'.kernelTable
  · rw [h'.owns t o p ho, h.owns t o p ho, and_assoc]
    refine and_congr_right fun _ => ?_
    exact and_iff_right_of_imp fun hno ho' => hno (h'.taken ho')
  · rw [h'.maps, h.maps, and_assoc]
    refine and_congr_right fun _ => ?_
    exact and_iff_right_of_imp fun hno hi => hno (h'.hasTable hi)

/-- One mapping of the kernel. -/
lemma of_effect {pd pt e : ℕ} {fresh : Option ℕ} (h : MapEffect lo k none pd pt e fresh k') :
    KernelGrows lo k k' := by
  have hkernel : ∀ i p, k'.Owns (.table none i) p
      ↔ k.Owns (.table none i) p ∨ ∃ f, fresh = some f ∧ i = pd ∧ p = f * 0x1000 := by
    intro i p
    rw [h.owns]
    simp [Lost]
  have htable : ∀ i, k'.HasTable none i ↔ k.HasTable none i ∨ (fresh ≠ none ∧ i = pd) := by
    intro i
    constructor
    · rintro ⟨p, hp⟩
      rcases (hkernel i p).mp hp with hp | ⟨f, hf, hpd, _⟩
      · exact Or.inl ⟨p, hp⟩
      · exact Or.inr ⟨by simp [hf], hpd⟩
    · rintro (⟨p, hp⟩ | ⟨hf, hpd⟩)
      · exact ⟨p, (hkernel i p).mpr (Or.inl hp)⟩
      · obtain ⟨f, hf⟩ := Option.ne_none_iff_exists'.mp hf
        exact ⟨f * 0x1000, (hkernel i _).mpr (Or.inr ⟨f, hf, hpd, rfl⟩)⟩
  -- a task loses a table exactly where the kernel got one
  have hlost : ∀ t i p, k.Owns (.table (some t) i) p →
      (¬ Lost none pd fresh (.table (some t) i) ↔ ¬ k'.HasTable none i) := by
    intro t i p hp
    have hno : ¬ k.HasTable none i := hp.not_taken
    rw [htable, or_iff_right hno, Lost]
    simp
  refine ⟨h.inv, h.tasks, h.kernelContext, h.currentTask, h.pmm.mask, fun f => ?_,
    fun i p hp => (hkernel i p).mpr (Or.inl hp), fun t o p ho => ?_, fun t i j x => ?_⟩
  · constructor
    · intro hu
      rcases (h.pmm.used f).mp hu with hf | hu
      · exact Or.inr ⟨pd, (hkernel pd _).mpr (Or.inr ⟨f, hf, rfl, rfl⟩)⟩
      · exact Or.inl hu
    · rintro (hu | ⟨i, hi⟩)
      · exact (h.pmm.used f).mpr (Or.inr hu)
      · exact (h.inv.pool_of_owns hi).2
  · rw [h.owns, or_iff_left]
    · refine and_congr_right fun hp => ?_
      cases o with
      | context s => simp [Lost, Kernel.Taken]
      | dir s => simp [Lost, Kernel.Taken]
      | table s i =>
        obtain rfl : s = some t := ho
        exact hlost t i p hp
    · rintro ⟨f, _, rfl, _⟩
      cases ho
  · rw [h.maps, or_iff_right (fun hc => by cases hc.1)]
    refine and_congr_right fun hm => ?_
    obtain ⟨p, hp, _⟩ := hm
    rw [and_iff_right (fun hc => by cases hc.1)]
    exact hlost t i p hp

/-- A call of `vmm_map_page` on the kernel's context. -/
lemma of_mapPage (hi : VmmInv lo k) {virt phys flags : ℕ} (hv : virt < 2 ^ 32)
    (hflags : flags < 0x1000) (h : mapPage k k.kernelContext virt phys flags = .ok k') :
    KernelGrows lo k k'
      ∧ ∀ i j x, k'.Maps none i j x → k.Maps none i j x
        ∨ (0x1000 ∣ phys ∧ x = phys ||| flags) := by
  rcases mapPage_effect (s := none) hi rfl hv hflags h with ⟨_, rfl⟩ | ⟨hal, _, fresh, heff⟩
  · exact ⟨refl hi, fun i j x hm => Or.inl hm⟩
  · refine ⟨of_effect heff, fun i j x hm => ?_⟩
    rcases (heff.maps none i j x).mp hm with ⟨_, _, _, hx, _⟩ | ⟨hm, _⟩
    · exact Or.inr ⟨Nat.dvd_of_mod_eq_zero hal.2, hx⟩
    · exact Or.inl hm

end KernelGrows

/-! ### Ranges of the kernel -/

/-- `pmm_alloc_range`, for a call that returned. -/
lemma allocRange_cases {p p' : Pmm} {count : ℤ} {ptr : ℕ} (hg : p.Guarded lo)
    (hcount : 0 < count.toNat) (h : pmmAllocRange p count = .ok (p', ptr)) :
    (ptr = 0 ∧ p' = p ∧ ∀ g, ¬ p.FreeRun g count.toNat)
      ∨ ∃ f, ptr = f * 0x1000 ∧ p.FreeRun f count.toNat
        ∧ (∀ g, p.FreeRun g count.toNat → f ≤ g)
        ∧ p.Becomes p' fun g => (f ≤ g ∧ g < f + count.toNat) ∨ p.Used g := by
  rcases pmmAllocRange_spec hg count with ⟨hr, hno⟩ | ⟨f, q, hr, _, _, hrun, hfirst, hb⟩
  · obtain ⟨rfl, rfl⟩ := Prod.mk.inj (Except.ok.inj (h.symm.trans hr))
    exact Or.inl ⟨rfl, rfl, hno hcount⟩
  · obtain ⟨rfl, rfl⟩ := Prod.mk.inj (Except.ok.inj (h.symm.trans hr))
    exact Or.inr ⟨f, rfl, hrun, hfirst hcount, hb⟩

/-- Frames that come into use leave the invariant alone. -/
lemma VmmInv.of_becomes (hi : VmmInv lo k) {pmm : Pmm} {extra : ℕ → Prop}
    (hb : k.pmm.Becomes pmm fun g => extra g ∨ k.pmm.Used g) : VmmInv lo { k with pmm } := by
  exact hi.of_pmm (hi.guarded.of_becomes hb) hb.mask fun f _ hf => (hb.used f).mpr (Or.inr hf)

/-- Handing out a range of frames keeps the invariant. -/
lemma VmmInv.of_allocRange (hi : VmmInv lo k) {pmm : Pmm} {count : ℤ} {ptr : ℕ}
    (h : pmmAllocRange k.pmm count = .ok (pmm, ptr)) : VmmInv lo { k with pmm } := by
  rcases pmmAllocRange_spec hi.guarded count with ⟨hr, _⟩ | ⟨f, q, hr, _, _, _, _, hb⟩
  · obtain ⟨rfl, rfl⟩ := Prod.mk.inj (Except.ok.inj (h.symm.trans hr))
    exact hi
  · obtain ⟨rfl, rfl⟩ := Prod.mk.inj (Except.ok.inj (h.symm.trans hr))
    exact hi.of_becomes hb

/-- **`vmm_alloc`** is `pmm_alloc_range` and mappings of the kernel, none of them for users. -/
theorem vmmAlloc_spec (hi : VmmInv lo k) {n ptr : ℕ} (h : vmmAlloc k n = .ok (k', ptr)) :
    ∃ pmm, pmmAllocRange k.pmm (toInt n) = .ok (pmm, ptr) ∧ KernelGrows lo { k with pmm } k'
      ∧ ∀ i j x, k'.Maps none i j x → k.Maps none i j x
        ∨ ∃ phys, 0x1000 ∣ phys ∧ x = phys ||| (ptePresent ||| pteWrite) := by
  rw [vmmAlloc, bind_eq_ok] at h
  obtain ⟨⟨pmm, ptr'⟩, hrange, h⟩ := h
  obtain ⟨k₁, hloop, hret⟩ := bind_eq_ok.mp h
  obtain ⟨rfl, rfl⟩ := Prod.mk.inj (Except.ok.inj hret)
  have hi' := hi.of_allocRange hrange
  have hrule := foldlM_rule (fun q => KernelGrows lo { k with pmm } q
    ∧ ∀ i j x, q.Maps none i j x → ({ k with pmm } : Kernel).Maps none i j x
      ∨ ∃ phys, 0x1000 ∣ phys ∧ x = phys ||| (ptePresent ||| pteWrite)) ?_
    ⟨KernelGrows.refl hi', fun i j x hm => Or.inl hm⟩ hloop
  · exact ⟨pmm, hrange, hrule.1, fun i j x hm =>
      (hrule.2 i j x hm).imp_left (maps_pmm pmm none i j x).mp⟩
  · rintro q i q' _ ⟨hq, hmaps⟩ hmap
    obtain ⟨hgrow, hmaps'⟩ := KernelGrows.of_mapPage hq.inv (wrap32_lt _)
      (by decide) hmap
    refine ⟨hq.trans hgrow, fun i j x hm => ?_⟩
    rcases hmaps' i j x hm with hm | ⟨hdvd, hx⟩
    · exact hmaps i j x hm
    · exact Or.inr ⟨_, hdvd, hx⟩

end MicroOS
