import Mathlib.Data.Finset.Card
import MicroOS.Memory.VmmInit
import MicroOS.Scheduler.Spawn

/-!
Calls that return.

A call of the virtual memory manager stops when the page-table pool is empty, and when a task maps
a page in a slot of the kernel. With enough free pages in the pool, and the kernel and the tasks in
different slots, every call returns.

* `Pmm.Reserve`: the number of free pages of the pool.
* `Ready`: there are pages for the tables of the kernel in the slots `S`, and `n` pages besides.
* `vmmInit_returns`, `initTask_returns`, `initElf_returns`.
-/

namespace MicroOS

open ByteMem Checked PageEntry Relation

variable {lo n : ℕ} {k k' : Kernel} {t : Fin maxTasks} {s : Space} {c : ℕ} {S : Finset ℕ}

/-! ### Free pages of the pool -/

/-- There are `n` free pages in the pool. -/
def Pmm.Reserve (p : Pmm) (n : ℕ) : Prop :=
  ∃ l : Finset ℕ, l.card = n ∧ ∀ f ∈ l, f < frameCount ∧ p.Fits true f

namespace Pmm.Reserve

variable {p p' : Pmm}

/-- A reserve that is not empty has a page that fits. -/
lemma exists_fits (h : p.Reserve (n + 1)) : ∃ f < frameCount, p.Fits true f := by
  obtain ⟨l, hcard, hl⟩ := h
  obtain ⟨f, hf⟩ := Finset.card_pos.mp (show 0 < l.card by omega)
  exact ⟨f, hl f hf⟩

/-- A page was taken, or none. -/
lemma of_take {f : ℕ} (h : p.Reserve (n + 1))
    (hmask : p'.bitmapPagetableMask = p.bitmapPagetableMask)
    (hused : ∀ g, p'.Used g → g = f ∨ p.Used g ∨ ¬ p.Pool g) : p'.Reserve n := by
  obtain ⟨l, hcard, hl⟩ := h
  have hle : n ≤ (l.erase f).card := by
    have := Finset.pred_card_le_card_erase (s := l) (a := f)
    omega
  obtain ⟨l', hsub, hcard'⟩ := Finset.exists_subset_card_eq hle
  refine ⟨l', hcard', fun g hg => ?_⟩
  obtain ⟨hne, hgl⟩ := Finset.mem_erase.mp (hsub hg)
  obtain ⟨hlt, hnot, hpool⟩ := hl g hgl
  refine ⟨hlt, fun hu => ?_, ?_⟩
  · rcases hused g hu with h | h | h
    · exact hne h
    · exact hnot h
    · exact h (hpool.mpr rfl)
  · rw [Pmm.Pool, hmask]
    exact hpool

/-- Nothing in the pool was taken. -/
lemma of_keep (h : p.Reserve n) (hmask : p'.bitmapPagetableMask = p.bitmapPagetableMask)
    (hused : ∀ g, p'.Used g → p.Used g ∨ ¬ p.Pool g) : p'.Reserve n := by
  obtain ⟨l, hcard, hl⟩ := h
  refine ⟨l, hcard, fun g hg => ?_⟩
  obtain ⟨hlt, hnot, hpool⟩ := hl g hg
  refine ⟨hlt, fun hu => (hused g hu).elim hnot fun h => h (hpool.mpr rfl), ?_⟩
  rw [Pmm.Pool, hmask]
  exact hpool

/-- A kernel that grows takes one page of it at most. -/
lemma of_grows {fresh : Option ℕ} (h : p.Reserve (n + 1)) (hg : Grows p fresh p') :
    p'.Reserve n := by
  cases fresh with
  | none =>
    exact h.of_take (f := 0) hg.mask fun g hu =>
      Or.inr (Or.inl (by simpa using (hg.used g).mp hu))
  | some f =>
    refine h.of_take (f := f) hg.mask fun g hu => ?_
    rcases (hg.used g).mp hu with hf | hu
    · exact Or.inl (Option.some.inj hf).symm
    · exact Or.inr (Or.inl hu)

/-- `pmm_alloc_pagetable` returns. -/
lemma alloc (h : p.Reserve (n + 1)) :
    ∃ p' page, pmmAllocPagetable p = .ok (p', page) ∧ p'.Reserve n := by
  rcases allocFrame_spec p true with ⟨_, hno⟩ | ⟨f, p', ha, _, _, _, hb⟩
  · obtain ⟨f, hf, hfit⟩ := h.exists_fits
    exact absurd hfit (hno f hf)
  · refine ⟨p', f * 0x1000, ha, h.of_take (f := f) hb.mask fun g hu => ?_⟩
    exact ((hb.used g).mp hu).imp_right Or.inl

end Pmm.Reserve

/-! ### `vmm_map_page` -/

/-- `vmm_map_page` returns, where the slot is the space's own and there is a page for a table. -/
lemma mapPage_returns {virt : ℕ} (phys flags : ℕ) (hi : VmmInv lo k) (hroot : k.Root s c)
    (hown : k.OwnSlot s (pdIndexOf virt))
    (hpage : k.HasTable s (pdIndexOf virt) ∨ ∃ f < frameCount, k.pmm.Fits true f) :
    ∃ k', mapPage k c virt phys flags = .ok k' := by
  suffices h : ∃ x, vmmMapPage k c virt phys flags = .ok x by
    obtain ⟨x, hx⟩ := h
    exact ⟨x.1, by rw [mapPage, hx]; rfl⟩
  rw [vmmMapPage]
  by_cases hal : virt % 0x1000 ≠ 0 ∨ phys % 0x1000 ≠ 0
  · exact ⟨_, if_pos hal⟩
  rw [if_neg hal, if_neg]
  · rw [pageTableFor]
    by_cases hpres : Present (k.entry c (pdIndexOf virt))
    · rw [if_pos hpres]
      exact ⟨_, rfl⟩
    · rw [if_neg hpres]
      rcases allocFrame_spec k.pmm true with ⟨_, hno⟩ | ⟨f, pmm, ha, _⟩
      · rcases hpage with ⟨p, hp⟩ | ⟨f, hf, hfit⟩
        · cases hp with
          | table root _ present _ => exact absurd (root.unique hroot ▸ present) hpres
        · exact absurd hfit (hno f hf)
      · rw [pmmAllocPagetable, ha]
        exact ⟨_, rfl⟩
  · rintro ⟨hne, hpres⟩
    rcases hown with hs | hno
    · exact hne ((hi.root_eq_kernel_iff hroot).mpr hs)
    · exact hno hpres

/-! ### What is left -/

/-- The tasks are as before. -/
structure SameTasks (k k' : Kernel) : Prop where
  tasks : k'.tasks = k.tasks
  currentTask : k'.currentTask = k.currentTask
  currentPid : k'.currentPid = k.currentPid

/-- Tasks that two steps keep are kept. -/
lemma SameTasks.trans {k'' : Kernel} (h : SameTasks k k') (h' : SameTasks k' k'') :
    SameTasks k k'' :=
  ⟨h'.tasks.trans h.tasks, h'.currentTask.trans h.currentTask,
    h'.currentPid.trans h.currentPid⟩

/-- Mapping a page changes no task. -/
lemma mapPage_same {virt phys flags : ℕ} (h : mapPage k c virt phys flags = .ok k') :
    SameTasks k k' := by
  obtain ⟨r, hmap⟩ := mapPage_eq_ok.mp h
  rw [vmmMapPage] at hmap
  split_ifs at hmap with h1 h2
  · obtain ⟨rfl, _⟩ := Prod.mk.inj (Except.ok.inj hmap)
    exact ⟨rfl, rfl, rfl⟩
  · obtain ⟨⟨k₂, page⟩, htable, hret⟩ := bind_eq_ok.mp hmap
    obtain ⟨rfl, _⟩ := Prod.mk.inj (Except.ok.inj hret)
    rw [pageTableFor] at htable
    split_ifs at htable with h3
    · obtain ⟨rfl, _⟩ := Prod.mk.inj (Except.ok.inj htable)
      exact ⟨rfl, rfl, rfl⟩
    all_goals
      obtain ⟨⟨pmm, page'⟩, _, hret⟩ := bind_eq_ok.mp htable
      obtain ⟨rfl, _⟩ := Prod.mk.inj (Except.ok.inj hret)
      exact ⟨rfl, rfl, rfl⟩

lemma SameTasks.refl (k : Kernel) : SameTasks k k := ⟨rfl, rfl, rfl⟩

/-- Handing out pages changes none. -/
lemma vmmAlloc_same {n ptr : ℕ} (h : vmmAlloc k n = .ok (k', ptr)) : SameTasks k k' := by
  rw [vmmAlloc, bind_eq_ok] at h
  obtain ⟨⟨pmm, page⟩, -, h⟩ := h
  obtain ⟨k₁, hloop, hret⟩ := bind_eq_ok.mp h
  obtain ⟨rfl, -⟩ := Prod.mk.inj (Except.ok.inj hret)
  refine foldlM_range_rule (s := { k with pmm }) (fun _ q => SameTasks k q) ?_ ⟨rfl, rfl, rfl⟩ hloop
  intro i q q' _ hsame hmap
  exact hsame.trans (mapPage_same hmap)

/-- Nor does freeing them. -/
lemma vmmFree_same {ptr n : ℕ} (h : vmmFree k ptr n = .ok k') : SameTasks k k' := by
  rw [vmmFree, bind_eq_ok] at h
  obtain ⟨pmm, -, hret⟩ := h
  obtain rfl := Except.ok.inj hret
  exact ⟨rfl, rfl, rfl⟩

/-- Nor does a resize. -/
lemma vmmResize_same {dataSize oldSize newSize ptr ptr' : ℕ}
    (h : vmmResize k dataSize oldSize newSize ptr = .ok (k', ptr')) : SameTasks k k' := by
  rw [vmmResize] at h
  split_ifs at h with hnull hzero hsize
  · exact vmmAlloc_same h
  · obtain ⟨k₁, hfree, hret⟩ := bind_eq_ok.mp h
    obtain ⟨rfl, -⟩ := Prod.mk.inj (Except.ok.inj hret)
    exact vmmFree_same hfree
  · obtain ⟨⟨k₁, newPtr⟩, halloc, h⟩ := bind_eq_ok.mp h
    obtain ⟨k₂, hfree, hret⟩ := bind_eq_ok.mp h
    obtain ⟨rfl, -⟩ := Prod.mk.inj (Except.ok.inj hret)
    exact (vmmAlloc_same halloc).trans (vmmFree_same hfree)
  · obtain ⟨rfl, -⟩ := Prod.mk.inj (Except.ok.inj h)
    exact SameTasks.refl k

/-- Nor does a new context. -/
lemma vmmCreateContext_same {context : ℕ} (h : vmmCreateContext k = .ok (k', context)) :
    SameTasks k k' := by
  obtain ⟨d, pmm, rfl, -⟩ := vmmCreateContext_ok h
  exact ⟨rfl, rfl, rfl⟩

/-- Nor does a mapping of pages onto themselves. -/
lemma vmmIdentityMap_same {fuel start endAddr flags : ℕ}
    (h : vmmIdentityMap fuel start endAddr flags k = .ok k') : SameTasks k k' := by
  rw [vmmIdentityMap] at h
  obtain ⟨⟨a, q⟩, hloop, hret⟩ := bind_eq_ok.mp h
  obtain rfl : q = k' := Except.ok.inj hret
  refine (repeatWhile_rule (fun s : ℕ × Kernel => SameTasks k s.2) ?_ (SameTasks.refl k) hloop).1
  rintro ⟨b, q₁⟩ s' hq _ hbody
  obtain ⟨q₂, hmap, hret⟩ := bind_eq_ok.mp hbody
  obtain rfl := Except.ok.inj hret
  exact hq.trans (mapPage_same hmap)

open Classical in
/-- **What is left for the calls to come**: free pages for the kernel's tables in the slots `S` and
`pages` pages besides, and a run of `frames` free frames between
`0x200` and `top`, outside the pool. The kernel
has no tables in other slots. -/
structure Ready (lo : ℕ) (S : Finset ℕ) (top pages frames : ℕ) (k : Kernel) : Prop where
  inv : VmmInv lo k
  reserve : k.pmm.Reserve (pages + (S.filter fun i => ¬ k.HasTable none i).card)
  slots : ∀ i, k.HasTable none i → i ∈ S
  run : ∃ f, k.pmm.FreeRun f frames ∧ 0x200 ≤ f ∧ f + frames ≤ top

namespace Ready

variable {top pages frames : ℕ}

/-- The kernel has the same tables. -/
lemma congr {pages' frames' : ℕ} (h : Ready lo S top pages frames k) (hi : VmmInv lo k')
    (htable : ∀ i, k'.HasTable none i ↔ k.HasTable none i)
    (hreserve : ∀ j, k.pmm.Reserve (pages + j) → k'.pmm.Reserve (pages' + j))
    (hrun : ∃ f, k'.pmm.FreeRun f frames' ∧ 0x200 ≤ f ∧ f + frames' ≤ top) :
    Ready lo S top pages' frames' k' := by
  classical
  refine ⟨hi, ?_, fun i hi => h.slots i ((htable i).mp hi), hrun⟩
  simp only [htable]
  exact hreserve _ h.reserve

/-- A mapping of the kernel returns. -/
lemma mapKernel (h : Ready lo S top pages frames k) (virt phys flags : ℕ) (hv : virt < 2 ^ 32)
    (hflags : flags < 0x1000) (hS : pdIndexOf virt ∈ S) :
    ∃ k', mapPage k k.kernelContext virt phys flags = .ok k' ∧ SameTasks k k'
      ∧ Ready lo S top pages frames k' := by
  classical
  have hi := h.inv
  -- a table that is missing has a frame in the reserve
  have hpage : k.HasTable none (pdIndexOf virt) ∨ ∃ f < frameCount, k.pmm.Fits true f := by
    refine or_iff_not_imp_left.mpr fun hno => ?_
    have hpos : 0 < (S.filter fun i => ¬ k.HasTable none i).card :=
      Finset.card_pos.mpr ⟨_, Finset.mem_filter.mpr ⟨hS, hno⟩⟩
    obtain ⟨j, hj⟩ : ∃ j, pages + (S.filter fun i => ¬ k.HasTable none i).card = j + 1 :=
      ⟨pages + (S.filter fun i => ¬ k.HasTable none i).card - 1, by omega⟩
    exact Pmm.Reserve.exists_fits (n := j) (hj ▸ h.reserve)
  obtain ⟨k', hk'⟩ := mapPage_returns (s := none) phys flags hi rfl
    (Or.inl rfl) hpage
  refine ⟨k', hk', mapPage_same hk', ?_⟩
  rcases mapPage_effect (s := none) hi rfl hv hflags hk' with ⟨_, rfl⟩ | ⟨_, _, fresh, he⟩
  · exact h
  have hrun : ∃ f, k'.pmm.FreeRun f frames ∧ 0x200 ≤ f ∧ f + frames ≤ top := by
    obtain ⟨f, hf, htop⟩ := h.run
    refine ⟨f, hf.of_used he.pmm.mask fun g hg => ?_, htop⟩
    refine ((he.pmm.used g).mp hg).symm.imp_right fun hfresh => ?_
    exact (he.pmm.free g hfresh).2.2.mpr rfl
  cases fresh with
  | none =>
    refine h.congr he.inv (fun i => exists_congr fun p => ?_) (fun j hj =>
      hj.of_keep he.pmm.mask fun g hu => Or.inl (by simpa using (he.pmm.used g).mp hu)) hrun
    rw [he.owns]
    simp [Lost]
  | some f =>
    have htable : ∀ i, k'.HasTable none i ↔ k.HasTable none i ∨ i = pdIndexOf virt := by
      intro i
      simp only [Kernel.HasTable, he.owns, Lost, not_false_eq_true, and_true, Option.some.injEq,
        Owner.table.injEq, true_and]
      constructor
      · rintro ⟨p, hp | ⟨_, _, hpd, _⟩⟩
        · exact Or.inl ⟨p, hp⟩
        · exact Or.inr hpd
      · rintro (⟨p, hp⟩ | rfl)
        · exact ⟨p, Or.inl hp⟩
        · exact ⟨f * 0x1000, Or.inr ⟨f, rfl, rfl, rfl⟩⟩
    have hno : ¬ k.HasTable none (pdIndexOf virt) := fun hc =>
      Option.some_ne_none f (he.freshIff.mpr hc)
    -- the fresh table leaves one slot fewer, and takes one frame of the reserve
    have hfilter : (S.filter fun i => ¬ k'.HasTable none i)
        = (S.filter fun i => ¬ k.HasTable none i).erase (pdIndexOf virt) := by
      ext i
      simp only [Finset.mem_filter, Finset.mem_erase, htable, not_or]
      tauto
    have hcard : (S.filter fun i => ¬ k.HasTable none i).card
        = (S.filter fun i => ¬ k'.HasTable none i).card + 1 := by
      rw [hfilter]
      exact (Finset.card_erase_add_one (Finset.mem_filter.mpr ⟨hS, hno⟩)).symm
    refine ⟨he.inv, ?_, fun i hi' => ((htable i).mp hi').elim (h.slots i) fun hi' => hi' ▸ hS,
      hrun⟩
    have hreserve := h.reserve
    rw [hcard, ← Nat.add_assoc] at hreserve
    exact hreserve.of_grows he.pmm

/-- A mapping for a task returns, and takes at most one page of the pool. -/
lemma mapTask (h : Ready lo S top (pages + 1) frames k) (virt phys flags : ℕ)
    (ht : (k.tasks t).active = true) (hv : virt < 2 ^ 32) (hflags : flags < 0x1000)
    (hS : pdIndexOf virt ∉ S) :
    ∃ k', mapPage k (k.tasks t).context virt phys flags = .ok k' ∧ SameTasks k k'
      ∧ Ready lo S top pages frames k' := by
  have hroot : k.Root (some t) (k.tasks t).context := ⟨ht, rfl⟩
  have hslot : k.OwnSlot (some t) (pdIndexOf virt) :=
    Or.inr fun hp => hS (h.slots _ ((Kernel.hasTable_none_iff (pdIndexOf_lt hv)).mpr hp))
  have hfits : ∃ f < frameCount, k.pmm.Fits true f := by
    have hreserve := h.reserve
    rw [Nat.add_right_comm] at hreserve
    exact hreserve.exists_fits
  obtain ⟨k', hk'⟩ := mapPage_returns phys flags h.inv hroot hslot
    (Or.inr hfits)
  refine ⟨k', hk', mapPage_same hk', ?_⟩
  rcases mapPage_effect h.inv hroot hv hflags hk' with ⟨_, rfl⟩ | ⟨_, _, fresh, he⟩
  · refine h.congr h.inv (fun _ => Iff.rfl) (fun j hj => ?_) h.run
    rw [Nat.add_right_comm] at hj
    exact hj.of_take (f := 0) rfl fun g hu => Or.inr (Or.inl hu)
  · refine h.congr he.inv (fun i => exists_congr fun p => ?_) (fun j hj => ?_) ?_
    · rw [he.owns]
      simp [Lost]
    · rw [Nat.add_right_comm] at hj
      exact hj.of_grows he.pmm
    · obtain ⟨f, hf, htop⟩ := h.run
      refine ⟨f, hf.of_used he.pmm.mask fun g hg => ?_, htop⟩
      refine ((he.pmm.used g).mp hg).symm.imp_right fun hfresh => ?_
      exact (he.pmm.free g hfresh).2.2.mpr rfl

/-- `pmm_alloc_range` returns a range below `top`. -/
lemma allocRange {count : ℤ} {m : ℕ} (h : Ready lo S top pages (m + frames) k) (hm : 0 < m)
    (hcount : count.toNat = m) :
    ∃ pmm f, pmmAllocRange k.pmm count = .ok (pmm, f * 0x1000) ∧ f + m ≤ top
      ∧ (∀ g, f ≤ g → g < f + m → Mappable lo g)
      ∧ Ready lo S top pages frames { k with pmm } := by
  subst hcount
  obtain ⟨g, hg, hlow, htop⟩ := h.run
  rcases pmmAllocRange_spec h.inv.guarded count with
    ⟨_, hno⟩ | ⟨f, pmm, hr, _, _, hrun, hfirst, hb⟩
  · exact absurd (hg.take (Nat.le_add_right _ _)) (hno hm g)
  · have hfg := hfirst hm g (hg.take (Nat.le_add_right _ _))
    refine ⟨pmm, f, hr, by omega, fun g' h1 h2 => hrun.mappable h.inv.guarded h1 h2, ?_⟩
    refine h.congr (h.inv.of_becomes hb) (fun i => exists_congr fun p => owns_pmm pmm _ p)
      (fun j hj => hj.of_keep hb.mask fun g' hu => ?_) ⟨max g (f + count.toNat), ?_, by omega,
        by omega⟩
    · exact ((hb.used g').mp hu).symm.imp_right fun hg' => (hrun.free g' hg'.1 hg'.2).2
    · refine ⟨by have := hg.room; omega, fun g' h1 h2 => ?_⟩
      obtain ⟨hu, hp⟩ := hg.free g' (by omega) (by omega)
      refine ⟨fun hu' => ?_, fun hp' => hp ((hb.pool g').mp hp')⟩
      rcases (hb.used g').mp hu' with hg' | hu'
      · omega
      · exact hu hu'

/-- `vmm_alloc` returns a range below `top`. -/
lemma vmmAlloc {m : ℕ} (h : Ready lo S top pages (m + frames) k) (hm : 0 < m) (hlt : m < 2 ^ 31)
    (hS : ∀ f < top, f / 1024 ∈ S) (htop : top ≤ frameCount) :
    ∃ k' f, vmmAlloc k m = .ok (k', f * 0x1000) ∧ f + m ≤ top ∧ SameTasks k k'
      ∧ Ready lo S top pages frames k' := by
  obtain ⟨pmm, f, hrange, hf, _, hready⟩ := h.allocRange hm (toInt_toNat hlt)
  have hturn : ∀ i q, i < m → (SameTasks k q ∧ Ready lo S top pages frames q) →
      ∃ q', mapPage q q.kernelContext (wrap32 (f * 0x1000 + i * 0x1000))
        (wrap32 (f * 0x1000 + i * 0x1000)) (ptePresent ||| pteWrite) = .ok q'
        ∧ (SameTasks k q' ∧ Ready lo S top pages frames q') := by
    rintro i q hi ⟨hsame, hq⟩
    have hslot : pdIndexOf (wrap32 (f * 0x1000 + i * 0x1000)) ∈ S := by
      rw [wrap32_page (show f + i < frameCount by omega), pdIndexOf,
        Nat.mul_div_cancel _ (by norm_num)]
      exact hS _ (by omega)
    obtain ⟨q', hmap, hsame', hq'⟩ := hq.mapKernel _ (wrap32 (f * 0x1000 + i * 0x1000))
      (ptePresent ||| pteWrite) (wrap32_lt _) (by decide) hslot
    exact ⟨q', hmap, hsame.trans hsame', hq'⟩
  obtain ⟨k', hloop, hsame, hk'⟩ :=
    foldlM_range_ok _ hturn (s := { k with pmm }) ⟨⟨rfl, rfl, rfl⟩, hready⟩
  refine ⟨k', f, ?_, hf, hsame, hk'⟩
  rw [MicroOS.vmmAlloc, hrange, ok_bind]
  simp only [hloop, ok_bind]
  rfl

/-- A range is mapped to itself. -/
lemma identityMap (h : Ready lo S top pages frames k) (fuel start endAddr flags : ℕ)
    (hstart : start < 2 ^ 32) (hend : endAddr + 0x1000 ≤ 2 ^ 32) (hflags : flags < 0x1000)
    (hS : ∀ a < endAddr, pdIndexOf a ∈ S) (hfuel : (endAddr - start + 0xfff) / 0x1000 < fuel) :
    ∃ k', vmmIdentityMap fuel start endAddr flags k = .ok k' ∧ SameTasks k k'
      ∧ Ready lo S top pages frames k' := by
  have hturn : ∀ s : ℕ × Kernel,
    (s.1 < 2 ^ 32 ∧ SameTasks k s.2 ∧ Ready lo S top pages frames s.2) →
      decide (s.1 < endAddr) = true → ∃ s' : ℕ × Kernel,
      (do return (wrap32 (s.1 + 0x1000), ← mapPage s.2 s.2.kernelContext s.1 s.1 flags))
        = Except.ok s' ∧ (s'.1 < 2 ^ 32 ∧ SameTasks k s'.2 ∧ Ready lo S top pages frames s'.2)
        ∧ (endAddr - s'.1 + 0xfff) / 0x1000 < (endAddr - s.1 + 0xfff) / 0x1000 := by
    rintro ⟨a, q⟩ ⟨hlt, hsame, hq⟩ htest
    have ha : a < endAddr := of_decide_eq_true htest
    obtain ⟨q', hmap, hsame', hq'⟩ := hq.mapKernel a a flags hlt hflags (hS a ha)
    refine ⟨(wrap32 (a + 0x1000), q'), ?_, ⟨wrap32_lt _, hsame.trans hsame', hq'⟩, ?_⟩
    · simp only [hmap, ok_bind]
      rfl
    · rw [wrap32_of_lt (by omega : a + 0x1000 < 2 ^ 32)]
      simp only
      omega
  obtain ⟨⟨a, k'⟩, hloop, _, hsame, hk'⟩ := repeatWhile_ok Halt.loops _
    (fun s : ℕ × Kernel => (endAddr - s.1 + 0xfff) / 0x1000) hturn
    (s := (start, k)) ⟨hstart, ⟨rfl, rfl, rfl⟩, h⟩ hfuel
  refine ⟨k', ?_, hsame, hk'⟩
  rw [vmmIdentityMap, hloop]
  rfl

/-- A frame of low memory is marked as used. -/
lemma markUsed (h : Ready lo S top pages frames k) (page : ℕ) (hpage : page < 0x200000)
    (hlow : 0x200 < lo) :
    ∃ pmm, pmmMarkUsed k.pmm page = .ok pmm ∧ Ready lo S top pages frames { k with pmm } := by
  obtain ⟨pmm, hpmm, hb⟩ := pmmMarkUsed_ok (p := k.pmm) (show page < 2 ^ 32 by omega)
  refine ⟨pmm, hpmm, h.congr (h.inv.of_becomes hb) (fun i => exists_congr fun p => owns_pmm pmm _ p)
    (fun j hj => hj.of_keep hb.mask fun g hu => ?_) ?_⟩
  · rcases (hb.used g).mp hu with rfl | hu
    · refine Or.inr fun hp => ?_
      have := (h.inv.guarded.pool _).mp hp
      omega
    · exact Or.inl hu
  · obtain ⟨f, hf, hfl, htop⟩ := h.run
    refine ⟨f, ⟨hf.room, fun g h1 h2 => ?_⟩, hfl, htop⟩
    obtain ⟨hu, hp⟩ := hf.free g h1 h2
    refine ⟨fun hu' => ?_, fun hp' => hp ((hb.pool g).mp hp')⟩
    rcases (hb.used g).mp hu' with rfl | hu'
    · omega
    · exact hu hu'

end Ready

/-- `vmm_create_context` returns. -/
lemma vmmCreateContext_returns {pages : ℕ} (h : k.pmm.Reserve (pages + 2)) :
    ∃ k' context, vmmCreateContext k = .ok (k', context) ∧ SameTasks k k'
      ∧ k'.pmm.Reserve pages ∧ ∀ f m, k.pmm.FreeRun f m → k'.pmm.FreeRun f m := by
  obtain ⟨p₁, c, h1, hr₁⟩ := h.alloc
  obtain ⟨p₂, d, h2, hr₂⟩ := hr₁.alloc
  have hcreate : vmmCreateContext k
      = .ok ({ k with pmm := p₂, mem := (k.mem.set c 0 d).clear d }, c) := by
    rw [vmmCreateContext, h1, ok_bind]
    simp only [h2, ok_bind]
    rfl
  refine ⟨_, c, hcreate, ⟨rfl, rfl, rfl⟩, hr₂, fun f m hf => ?_⟩
  obtain ⟨d', pmm, heq, _, hc, hd, _, _, hb⟩ := vmmCreateContext_ok hcreate
  have hpmm : p₂ = pmm := congrArg Kernel.pmm heq
  rw [hpmm]
  refine hf.of_used hb.mask fun g hg => ?_
  rcases (hb.used g).mp hg with (rfl | rfl) | hg
  · exact Or.inr ((hb.pool _).mp hc.pool)
  · exact Or.inr ((hb.pool _).mp hd.pool)
  · exact Or.inl hg

/-! ### `vmm_init` -/

/-- A reserve is one for less. -/
lemma Pmm.Reserve.mono {p : Pmm} {m : ℕ} (h : p.Reserve n) (hm : m ≤ n) : p.Reserve m := by
  obtain ⟨l, rfl, hl⟩ := h
  obtain ⟨l', hsub, hcard⟩ := Finset.exists_subset_card_eq hm
  exact ⟨l', hcard, fun f hf => hl f (hsub hf)⟩

/-- **`vmm_init` returns**, without modules. -/
theorem vmmInit_returns (fuel : ℕ) {top pages frames : ℕ} {L : KernelLayout}
    (mb : MultibootInfo) {pmm : Pmm} (hg : pmm.Guarded lo) (hlow : 0x200 < lo)
    (hmods : mb.mods = [])
    (hfuel : (L.pagingEnd - KernelLayout.kernelStart + 0xfff) / 0x1000 < fuel)
    (hend : L.pagingEnd + 0x1000 ≤ 2 ^ 32) (hS : ∀ a < L.pagingEnd, pdIndexOf a ∈ S)
    (haddr : pdIndexOf mb.addr.toNat ∈ S) (hmodsAddr : pdIndexOf mb.modsAddr.toNat ∈ S)
    (hreserve : pmm.Reserve (pages + S.card + 2))
    (hrun : ∃ f, pmm.FreeRun f frames ∧ 0x200 ≤ f ∧ f + frames ≤ top) :
    ∃ k, vmmInit fuel L mb pmm = .ok k ∧ Ready lo S top pages frames k
      ∧ k.tasks = (fun _ => Task.zero) ∧ k.currentTask = 0 ∧ k.currentPid = 0 := by
  classical
  have himage := L.image
  have hpaging : L.pagingEnd = L.kernelEnd + 512 * 0x1000 := rfl
  have hstart : L.pagingStart = L.kernelEnd := rfl
  have hkernel : KernelLayout.kernelStart = 0x200000 := rfl
  obtain ⟨k₀, c, h0, hsame₀, hr₀, hrun₀⟩ := vmmCreateContext_returns
    (k := ⟨pmm, fun _ _ => 0, 0, fun _ => Task.zero, 0, 0⟩) hreserve
  obtain ⟨hbooted, hempty⟩ := kernelContext_booted hg (fun _ => rfl) h0
  have hready₀ : Ready lo S top pages frames { k₀ with kernelContext := c } := by
    refine ⟨hbooted.inv, hr₀.mono ?_, fun i hi => absurd hi (hempty i), ?_⟩
    · exact Nat.add_le_add_left (Finset.card_filter_le _ _) _
    · obtain ⟨f, hf, hrest⟩ := hrun
      exact ⟨f, hrun₀ f frames hf, hrest⟩
  -- one step for each call of the function, in its order
  obtain ⟨k₁, h1, hsame₁, hready₁⟩ := hready₀.identityMap fuel KernelLayout.kernelStart
    L.kernelEnd (ptePresent ||| pteWrite) (by omega) (by omega)
    (by decide) (fun a ha => hS a (by omega)) (by omega)
  obtain ⟨k₂, h2, hsame₂, hready₂⟩ := hready₁.identityMap fuel L.pagingStart L.pagingEnd
    (ptePresent ||| pteWrite) (by omega) hend
    (by decide) hS (by omega)
  obtain ⟨k₃, h3, hsame₃, hready₃⟩ := hready₂.mapKernel 0xb8000 0xb8000
    (ptePresent ||| pteWrite) (by norm_num) (by decide) (hS _ (by omega))
  obtain ⟨p₄, h4, hready₄⟩ := hready₃.markUsed 0xb8000 (by norm_num) hlow
  obtain ⟨k₅, h5, hsame₅, hready₅⟩ := hready₄.mapKernel _ mb.addr.toNat ptePresent
    mb.addr.toNat_lt (by decide) haddr
  obtain ⟨k₆, h6, hsame₆, hready₆⟩ := hready₅.mapKernel _ mb.modsAddr.toNat ptePresent
    mb.modsAddr.toNat_lt (by decide) hmodsAddr
  obtain ⟨k₇, h7, hsame₇, hready₇⟩ :=
    hready₆.mapKernel 0 0 0 (by norm_num) (by decide) (hS 0 (by omega))
  refine ⟨k₇, ?_, hready₇, ?_, ?_, ?_⟩
  · rw [vmmInit, h0, ok_bind]
    simp only [h1, h2, h3, h4, h5, h6, hmods, ok_bind, List.foldlM_nil]
    exact h7
  · rw [hsame₇.tasks, hsame₆.tasks, hsame₅.tasks]
    exact hsame₃.tasks.trans (hsame₂.tasks.trans (hsame₁.tasks.trans hsame₀.tasks))
  · rw [hsame₇.currentTask, hsame₆.currentTask, hsame₅.currentTask]
    exact hsame₃.currentTask.trans
      (hsame₂.currentTask.trans (hsame₁.currentTask.trans hsame₀.currentTask))
  · rw [hsame₇.currentPid, hsame₆.currentPid, hsame₅.currentPid]
    exact hsame₃.currentPid.trans
      (hsame₂.currentPid.trans (hsame₁.currentPid.trans hsame₀.currentPid))

/-! ### Tasks -/

/-- The frames below `top` and their pages for users are in slots of their own. -/
structure Slots (S : Finset ℕ) (top : ℕ) : Prop where
  top_le : top ≤ frameCount
  kernel : ∀ f < top, f / 1024 ∈ S
  user : ∀ f < top, pdIndexOf (wrap32 (f * 0x1000 + userSpaceOffset)) ∉ S

/-- A new task is in the slot `t`. -/
structure Spawned (k : Kernel) (t : Fin maxTasks) (k' : Kernel) : Prop where
  others : ∀ u, u ≠ t → k'.tasks u = k.tasks u
  active : (k'.tasks t).active = true
  pid : (k'.tasks t).pid = k.currentPid
  currentPid : k'.currentPid = k.currentPid + 1
  currentTask : k'.currentTask = k.currentTask

/-- A task that was spawned is one as long as no task changes. -/
lemma Spawned.same {k'' : Kernel} (h : Spawned k t k') (h' : SameTasks k' k'') :
    Spawned k t k'' := by
  refine ⟨fun u hu => ?_, ?_, ?_, h'.currentPid.trans h.currentPid,
    h'.currentTask.trans h.currentTask⟩
  · rw [h'.tasks]
    exact h.others u hu
  · rw [h'.tasks]
    exact h.active
  · rw [h'.tasks]
    exact h.pid

/-- **What `init_task` does to the task table.** -/
theorem initTask_spawned {term : ℤ} (h : initTask k term = .ok (k', t)) : Spawned k t k' := by
  rw [initTask] at h
  cases hfirst : k.tasks.firstInactive with
  | none =>
    rw [hfirst] at h
    cases h
  | some u =>
    rw [hfirst] at h
    obtain ⟨⟨k₁, stack⟩, h1, h⟩ := bind_eq_ok.mp h
    obtain ⟨⟨k₂, userStack⟩, h2, h⟩ := bind_eq_ok.mp h
    obtain ⟨⟨k₃, context⟩, h3, h⟩ := bind_eq_ok.mp h
    obtain ⟨k₄, h4, h⟩ := bind_eq_ok.mp h
    obtain ⟨rfl, rfl⟩ := Prod.mk.inj (Except.ok.inj h)
    have hsame₁ := vmmAlloc_same h1
    have hsame₂ := vmmAlloc_same h2
    have hsame₃ := vmmCreateContext_same h3
    have htasks : k₃.tasks = Function.update k.tasks u Task.zero :=
      hsame₃.tasks.trans (hsame₂.tasks.trans hsame₁.tasks)
    have hpid : k₂.currentPid = k.currentPid := hsame₂.currentPid.trans hsame₁.currentPid
    generalize hclone : vmmCloneKernelContext _ context = q at h4
    -- the loop over the user stack keeps the table that it starts from
    have hloop : SameTasks q k₄ :=
      foldlM_range_rule (fun _ q' => SameTasks q q')
        (fun i q₁ q₂ _ hq hmap => hq.trans (mapPage_same hmap)) (SameTasks.refl q) h4
    refine Spawned.same ?_ hloop
    rw [← hclone, vmmCloneKernelContext]
    refine ⟨fun v hv => ?_, ?_, ?_, ?_, ?_⟩
    · dsimp only
      rw [Function.update_of_ne hv, htasks, Function.update_of_ne hv]
    · dsimp only
      rw [Function.update_self]
    · dsimp only
      rw [Function.update_self]
      exact hpid
    · exact congrArg (· + 1) (hsame₃.currentPid.trans hpid)
    · exact hsame₃.currentTask.trans (hsame₂.currentTask.trans hsame₁.currentTask)

section Spawn

variable {top pages frames : ℕ} (hslots : Slots S top)

/-- The context of a new task. -/
lemma Ready.create (h : Ready lo S top (pages + 2) frames k) (ht : (k.tasks t).active = false) :
    ∃ k' context, vmmCreateContext k = .ok (k', context) ∧ SameTasks k k'
      ∧ ∀ task pid, task.active = true → task.context = context →
        Ready lo S top pages frames (vmmCloneKernelContext
          { k' with tasks := Function.update k'.tasks t task, currentPid := pid } context) := by
  classical
  have hreserve := h.reserve
  rw [Nat.add_right_comm] at hreserve
  obtain ⟨k', c, hcreate, hsame, hr, hruns⟩ := vmmCreateContext_returns hreserve
  refine ⟨k', c, hcreate, hsame, fun task pid hact hctx => ?_⟩
  obtain ⟨d, pmm, rfl, hcd, hc, hd, hcf, hdf, hb⟩ := vmmCreateContext_ok hcreate
  have he : CreateEffect lo k t task (withContext k pmm c d t task pid) :=
    create_effect h.inv ht hcd hc hd hcf hdf hb hact hctx
  have htable : ∀ i, (withContext k pmm c d t task pid).HasTable none i ↔ k.HasTable none i :=
    fun i => exists_congr fun p => he.owns _ p (by simp [Owner.space])
  refine ⟨he.inv, ?_, fun i hi => h.slots i ((htable i).mp hi), ?_⟩
  · change (withContext k pmm c d t task pid).pmm.Reserve
      (pages + (S.filter fun i => ¬ (withContext k pmm c d t task pid).HasTable none i).card)
    simp only [htable]
    exact hr
  · obtain ⟨f, hf, hrest⟩ := h.run
    exact ⟨f, hruns f frames hf, hrest⟩

include hslots

/-- **`init_task` returns.** -/
theorem initTask_returns (term : ℤ)
    (h : Ready lo S top (pages + 6) (kernelStackSizePages + (userStackSizePages + frames)) k)
    (hfirst : k.tasks.firstInactive = some t) :
    ∃ k', initTask k term = .ok (k', t) ∧ Ready lo S top pages frames k' ∧ Spawned k t k' := by
  have hidle := Tasks.firstInactive_spec hfirst
  have hsame₀ := SameSlot.zero hidle
  have hready₀ : Ready lo S top (pages + 6)
      (kernelStackSizePages + (userStackSizePages + frames)) (withTask k t Task.zero) :=
    h.congr (withTask_inv hsame₀ h.inv) (fun i => exists_congr fun p => withTask_owns hsame₀ _ p)
      (fun j hj => hj) h.run
  obtain ⟨k₁, f, h1, _, hsame₁, hready₁⟩ := hready₀.vmmAlloc (by decide) (by decide)
    hslots.kernel hslots.top_le
  obtain ⟨k₂, g, h2, hg, hsame₂, hready₂⟩ := hready₁.vmmAlloc (by decide) (by decide)
    hslots.kernel hslots.top_le
  have htasks₂ : k₂.tasks = Function.update k.tasks t Task.zero := hsame₂.tasks.trans hsame₁.tasks
  have hpid₂ : k₂.currentPid = k.currentPid := hsame₂.currentPid.trans hsame₁.currentPid
  have hcur₂ : k₂.currentTask = k.currentTask := hsame₂.currentTask.trans hsame₁.currentTask
  have hidle₂ : (k₂.tasks t).active = false := by
    rw [htasks₂, Function.update_self]
    rfl
  have hready₂ : Ready lo S top (pages + 4 + 2) frames k₂ := hready₂
  obtain ⟨k₃, c, h3, hsame₃, hready₃⟩ := hready₂.create hidle₂
  set task : Task :=
    { Task.zero with
      registers := sub32 (wrap32 (f * 0x1000 + kernelStackSizePages * 4096)) registersSize
      active := true, stack := f * 0x1000, userStack := g * 0x1000, pid := k₂.currentPid, term
      context := c, parent := -1 } with htask
  have hready₄ := hready₃ task (k₃.currentPid + 1) rfl rfl
  obtain ⟨k₄, hk₄⟩ : ∃ q, q = vmmCloneKernelContext { k₃ with
    tasks := Function.update k₃.tasks t task, currentPid := k₃.currentPid + 1 } c := ⟨_, rfl⟩
  rw [← hk₄] at hready₄
  obtain ⟨htasks₄, hcur₄, hpid₄⟩ : k₄.tasks = Function.update k₃.tasks t task
      ∧ k₄.currentTask = k₃.currentTask ∧ k₄.currentPid = k₃.currentPid + 1 := by
    rw [hk₄, vmmCloneKernelContext]
    exact ⟨rfl, rfl, rfl⟩
  have hself₄ : k₄.tasks t = task := by
    rw [htasks₄, Function.update_self]
  -- the user stack
  have hturn : ∀ i q, i < userStackSizePages →
      (SameTasks k₄ q ∧ Ready lo S top (pages + (userStackSizePages - i)) frames q) →
      ∃ q', mapPage q c (wrap32 (g * 0x1000 + i * 4096 + userSpaceOffset))
          (wrap32 (g * 0x1000 + i * 4096)) userFlags = .ok q'
        ∧ (SameTasks k₄ q' ∧ Ready lo S top (pages + (userStackSizePages - (i + 1))) frames
          q') := by
    rintro i q hi ⟨hsame, hq⟩
    have hself : q.tasks t = task := by
      rw [hsame.tasks]
      exact hself₄
    have hpages : pages + (userStackSizePages - i)
        = pages + (userStackSizePages - (i + 1)) + 1 := by omega
    rw [hpages] at hq
    have hpage : g * 0x1000 + i * 4096 = (g + i) * 0x1000 := (Nat.add_mul g i 0x1000).symm
    have huser : pdIndexOf (wrap32 (g * 0x1000 + i * 4096 + userSpaceOffset)) ∉ S := by
      rw [hpage]
      exact hslots.user (g + i) (by omega)
    obtain ⟨q', hmap, hsame', hq'⟩ := hq.mapTask (t := t) _
      (wrap32 (g * 0x1000 + i * 4096)) userFlags (by rw [hself]) (wrap32_lt _) (by decide) huser
    rw [hself] at hmap
    exact ⟨q', hmap, hsame.trans hsame', hq'⟩
  obtain ⟨k₅, h5, hsame₅, hready₅⟩ := foldlM_range_ok _ hturn (s := k₄)
    ⟨⟨rfl, rfl, rfl⟩, hready₄⟩
  rw [Nat.sub_self] at hready₅
  refine ⟨k₅, ?_, hready₅, Spawned.same ⟨fun u hu => ?_, ?_, ?_, ?_, ?_⟩ hsame₅⟩
  · rw [initTask, hfirst]
    have h1' : MicroOS.vmmAlloc { k with tasks := Function.update k.tasks t Task.zero }
      kernelStackSizePages = .ok (k₁, f * 0x1000) := h1
    refine bind_eq_ok.mpr ⟨_, h1', ?_⟩
    refine bind_eq_ok.mpr ⟨_, h2, ?_⟩
    refine bind_eq_ok.mpr ⟨_, h3, ?_⟩
    rw [hk₄] at h5
    exact bind_eq_ok.mpr ⟨k₅, h5, rfl⟩
  · rw [htasks₄, Function.update_of_ne hu, hsame₃.tasks, htasks₂, Function.update_of_ne hu]
  · rw [hself₄]
  · rw [hself₄]
    exact hpid₂
  · rw [hpid₄, hsame₃.currentPid, hpid₂]
  · rw [hcur₄, hsame₃.currentTask, hcur₂]

omit hslots in
/-- A page of a segment is mapped, or its frame is given back. -/
lemma loadPage_returns {virt f : ℕ} (h : Ready lo S top (pages + 1) frames k)
    (ht : (k.tasks t).active = true) (hv : virt < 2 ^ 32) (hS : pdIndexOf virt ∉ S)
    (hf : f < frameCount) (hm : Mappable lo f) :
    ∃ k', (if vmmLookup k virt (k.tasks t).context ≠ 0 then do
        return { k with pmm := ← pmmFree k.pmm (f * 0x1000) }
      else mapPage k (k.tasks t).context virt (f * 0x1000) userFlags) = Except.ok k'
      ∧ SameTasks k k' ∧ Ready lo S top pages frames k' := by
  by_cases hmapped : vmmLookup k virt (k.tasks t).context = 0
  · rw [if_neg (not_not.mpr hmapped)]
    exact h.mapTask _ _ _ ht hv (by decide) hS
  · rw [if_pos hmapped]
    have hlt : f * 0x1000 < 2 ^ 32 := by
      rw [frameCount] at hf
      omega
    obtain ⟨pmm, hfree, hb⟩ := pmmFree_ok (p := k.pmm) hlt
    have hdiv : f * 0x1000 / 4096 = f := Nat.mul_div_cancel _ (by norm_num)
    rw [hdiv] at hb
    have hused : ∀ g, pmm.Used g → k.pmm.Used g := fun g hu => ((hb.used g).mp hu).2
    refine ⟨{ k with pmm }, by rw [hfree]; rfl, ⟨rfl, rfl, rfl⟩,
      h.congr (h.inv.of_free hb fun g hg => ?_) (fun i => exists_congr fun p => owns_pmm pmm _ p)
        (fun j hj => ?_) ?_⟩
    · subst hg
      exact hm
    · rw [Nat.add_right_comm] at hj
      exact hj.of_take (f := 0) hb.mask fun g hu => Or.inr (Or.inl (hused g hu))
    · obtain ⟨g, hg, hrest⟩ := h.run
      exact ⟨g, hg.of_used hb.mask fun g' hu => Or.inl (hused g' hu), hrest⟩

/-- The pages of a segment. -/
lemma loadSegment_returns {ph : ElfProgramHeader}
    (h : Ready lo S top (pages + ph.pages) (ph.pages + frames) k)
    (ht : (k.tasks t).active = true)
    (hS : ph.type = 1 → ∀ j < ph.realSize, pdIndexOf (wrap32 (base ph.virtAddr + j * 4096)) ∉ S) :
    ∃ k', loadSegment (k.tasks t).context k ph = .ok k' ∧ SameTasks k k'
      ∧ Ready lo S top pages frames k' := by
  have htop := hslots.top_le
  rw [loadSegment]
  by_cases htype : ph.type = 1
  · rw [if_neg (not_not.mpr htype)]
    have hpages : ph.pages = ph.realSize := if_pos htype
    rw [hpages] at h
    have hpos : 0 < ph.realSize := by
      rw [ElfProgramHeader.realSize]
      omega
    obtain ⟨pmm, f, hrange, hf, hm, hready⟩ := h.allocRange hpos (Int.toNat_natCast _)
    have hturn : ∀ j q, j < ph.realSize →
        (SameTasks k q ∧ Ready lo S top (pages + (ph.realSize - j)) frames q) →
        ∃ q', (if vmmLookup q (wrap32 (base ph.virtAddr + j * 4096)) (k.tasks t).context ≠ 0 then do
            return { q with pmm := ← pmmFree q.pmm (wrap32 (f * 0x1000 + j * 4096)) }
          else mapPage q (k.tasks t).context (wrap32 (base ph.virtAddr + j * 4096))
            (wrap32 (f * 0x1000 + j * 4096)) userFlags) = Except.ok q'
          ∧ (SameTasks k q' ∧ Ready lo S top (pages + (ph.realSize - (j + 1))) frames q') := by
      rintro j q hj ⟨hsame, hq⟩
      rw [show pages + (ph.realSize - j) = pages + (ph.realSize - (j + 1)) + 1 by omega] at hq
      rw [wrap32_page (show f + j < frameCount by omega), ← hsame.tasks]
      obtain ⟨q', hbody, hsame', hq'⟩ := loadPage_returns (t := t) hq
        (by rw [hsame.tasks]; exact ht) (wrap32_lt _) (hS htype j hj)
        (show f + j < frameCount by omega) (hm (f + j) (by omega) (by omega))
      exact ⟨q', hbody, hsame.trans hsame', hq'⟩
    obtain ⟨k', hloop, hsame, hk'⟩ := foldlM_range_ok _ hturn (s := { k with pmm })
      ⟨⟨rfl, rfl, rfl⟩, hready⟩
    rw [Nat.sub_self] at hk'
    exact ⟨k', bind_eq_ok.mpr ⟨_, hrange, hloop⟩, hsame, hk'⟩
  · rw [if_pos htype]
    have hpages : ph.pages = 0 := if_neg htype
    rw [hpages, Nat.zero_add] at h
    exact ⟨k, rfl, ⟨rfl, rfl, rfl⟩, h⟩

/-- The program headers of an image. -/
lemma loadSegments_returns {l : List ElfProgramHeader}
    (h : Ready lo S top (pages + (l.map ElfProgramHeader.pages).sum)
      ((l.map ElfProgramHeader.pages).sum + frames) k)
    (ht : (k.tasks t).active = true)
    (hS : ∀ ph ∈ l, ph.type = 1 → ∀ j < ph.realSize,
      pdIndexOf (wrap32 (base ph.virtAddr + j * 4096)) ∉ S) :
    ∃ k', l.foldlM (loadSegment (k.tasks t).context) k = .ok k' ∧ SameTasks k k'
      ∧ Ready lo S top pages frames k' := by
  induction l generalizing k with
  | nil =>
    rw [List.map_nil, List.sum_nil, Nat.zero_add] at h
    exact ⟨k, rfl, ⟨rfl, rfl, rfl⟩, h⟩
  | cons ph l ih =>
    rw [List.map_cons, List.sum_cons, Nat.add_assoc ph.pages, ← Nat.add_assoc pages,
      Nat.add_right_comm] at h
    obtain ⟨k₁, h1, hsame₁, hk₁⟩ := loadSegment_returns hslots h ht
      (hS ph List.mem_cons_self)
    obtain ⟨k₂, h2, hsame₂, hk₂⟩ := ih hk₁ (by rw [hsame₁.tasks]; exact ht)
      fun ph' hph => hS ph' (List.mem_cons_of_mem ph hph)
    rw [hsame₁.tasks] at h2
    refine ⟨k₂, ?_, hsame₁.trans hsame₂, hk₂⟩
    rw [List.foldlM_cons]
    exact bind_eq_ok.mpr ⟨k₁, h1, h2⟩

/-- A page for arguments. -/
lemma argPage_returns (h : Ready lo S top (pages + 1) (1 + frames) k)
    (ht : (k.tasks t).active = true) :
    ∃ k' page, argPage (k.tasks t).context k = .ok (k', page) ∧ SameTasks k k'
      ∧ Ready lo S top pages frames k' := by
  obtain ⟨k₁, f, h1, hf, hsame₁, hk₁⟩ := h.vmmAlloc Nat.one_pos (by norm_num) hslots.kernel
    hslots.top_le
  obtain ⟨k₂, h2, hsame₂, hk₂⟩ := hk₁.mapTask (t := t) _ (f * 0x1000) userFlags
    (by rw [hsame₁.tasks]; exact ht) (wrap32_lt _) (by decide) (hslots.user f (by omega))
  rw [hsame₁.tasks] at h2
  refine ⟨k₂, f * 0x1000, ?_, hsame₁.trans hsame₂, hk₂⟩
  rw [argPage]
  exact bind_eq_ok.mpr ⟨_, h1, bind_eq_ok.mpr ⟨_, h2, rfl⟩⟩

/-- An argument vector. -/
lemma argVector_returns {num : ℕ} (h : Ready lo S top (pages + (1 + num)) (1 + (num + frames)) k)
    (ht : (k.tasks t).active = true) :
    ∃ k' page, argVector (k.tasks t).context num k = .ok (k', page) ∧ SameTasks k k'
      ∧ Ready lo S top pages frames k' := by
  rw [Nat.add_comm 1 num, ← Nat.add_assoc] at h
  obtain ⟨k₁, page, h1, hsame₁, hk₁⟩ := argPage_returns hslots h ht
  have hturn : ∀ j q, j < num →
      (SameTasks k q ∧ Ready lo S top (pages + (num - j)) (num - j + frames) q) →
      ∃ q', Prod.fst <$> argPage (k.tasks t).context q = Except.ok q'
        ∧ (SameTasks k q' ∧ Ready lo S top (pages + (num - (j + 1))) (num - (j + 1) + frames)
          q') := by
    rintro j q hj ⟨hsame, hq⟩
    rw [show pages + (num - j) = pages + (num - (j + 1)) + 1 by omega,
      show num - j + frames = 1 + (num - (j + 1) + frames) by omega] at hq
    obtain ⟨q', page', hbody, hsame', hq'⟩ := argPage_returns (t := t) hslots hq
      (by rw [hsame.tasks]; exact ht)
    rw [hsame.tasks] at hbody
    exact ⟨q', by rw [hbody]; rfl, hsame.trans hsame', hq'⟩
  obtain ⟨k₂, h2, hsame₂, hk₂⟩ := foldlM_range_ok _ hturn (s := k₁) ⟨hsame₁, hk₁⟩
  rw [Nat.sub_self, Nat.zero_add] at hk₂
  refine ⟨k₂, wrap32 (page + userSpaceOffset), ?_, hsame₂, hk₂⟩
  rw [argVector]
  exact bind_eq_ok.mpr ⟨_, h1, bind_eq_ok.mpr ⟨_, h2, rfl⟩⟩

/-- **`init_elf` returns**, for an image outside the slots of the kernel. -/
theorem initElf_returns (term : ℤ) {image : ElfImage} {numArgv numEnvp : ℕ}
    (h : Ready lo S top (pages + (1 + numEnvp) + (1 + numArgv)
      + (image.programHeaders.map ElfProgramHeader.pages).sum + 6)
      (kernelStackSizePages + (userStackSizePages
        + ((image.programHeaders.map ElfProgramHeader.pages).sum
          + (1 + (numArgv + (1 + (numEnvp + frames))))))) k)
    (hfirst : k.tasks.firstInactive = some t) (hmagic : image.magic = elfMagic)
    (hS : ∀ virt, image.Page virt → pdIndexOf virt ∉ S) :
    ∃ k', initElf k term image numArgv numEnvp = .ok (k', k.currentPid)
      ∧ Ready lo S top pages frames k' ∧ Spawned k t k' := by
  obtain ⟨k₁, h1, hk₁, hspawned⟩ := initTask_returns hslots term h hfirst
  have hact := hspawned.active
  obtain ⟨k₂, h2, hsame₂, hk₂⟩ := loadSegments_returns hslots hk₁ hact
    fun ph hph htype j hj => hS _ ⟨ph, hph, htype, j, hj, rfl⟩
  obtain ⟨k₃, argv, h3, hsame₃, hk₃⟩ := argVector_returns (t := t) hslots hk₂
    (by rw [hsame₂.tasks]; exact hact)
  obtain ⟨k₄, envp, h4, hsame₄, hk₄⟩ := argVector_returns (t := t) hslots hk₃
    (by rw [hsame₃.tasks, hsame₂.tasks]; exact hact)
  rw [hsame₂.tasks] at h3
  rw [hsame₃.tasks, hsame₂.tasks] at h4
  have hs₄ := (hspawned.same hsame₂).same (hsame₃.trans hsame₄)
  have hsame : SameSlot (k₄.tasks t) { k₄.tasks t with argv, envp } :=
    ⟨rfl, fun _ => rfl, fun _ => rfl, fun _ => rfl⟩
  refine ⟨withTask k₄ t { k₄.tasks t with argv, envp }, ?_, ?_, ⟨fun u hu => ?_, ?_, ?_,
    hs₄.currentPid, hs₄.currentTask⟩⟩
  · rw [initElf, if_neg (not_not.mpr hmagic)]
    refine bind_eq_ok.mpr ⟨_, h1, bind_eq_ok.mpr ⟨_, h2, bind_eq_ok.mpr ⟨_, h3,
      bind_eq_ok.mpr ⟨_, h4, ?_⟩⟩⟩⟩
    exact congrArg (fun pid => Except.ok (withTask k₄ t { k₄.tasks t with argv, envp }, pid))
      hs₄.pid
  · exact hk₄.congr (withTask_inv hsame hk₄.inv)
      (fun i => exists_congr fun p => withTask_owns hsame _ p) (fun _ hj => hj) hk₄.run
  · exact (Function.update_of_ne hu _ k₄.tasks).trans (hs₄.others u hu)
  · exact (withTask_active hsame t).trans hs₄.active
  · exact (congrArg Task.pid (Function.update_self t _ k₄.tasks)).trans hs₄.pid

end Spawn

end MicroOS
