import MicroOS.Scheduler.Progress

/-!
Runs of the virtual memory manager, from `vmm_init` on.

* `VmmStep`: tasks are created and end, pages are mapped for the kernel and for tasks, and the
  kernel takes and gives back frames.
* `TasksInv`: what the invariant says about tasks besides `VmmInv`: no task maps a page of the
  pool or a guard of it, and neither is one in a kernel stack.
* `KernelInv.step`: the step lemma; `KernelInv.of_reachable`: the run lemma.
* `reachable_visible`: in every run every entry of the kernel's directory stands in the directory
  of every active task.
-/

namespace MicroOS

open ByteMem Checked PageEntry Relation Run

variable {lo : ℕ} {k k' : Kernel} {t : Fin maxTasks}

/-! ### The invariant -/

/-- What the kernel keeps about its tasks. -/
structure TasksInv (lo : ℕ) (k : Kernel) : Prop where
  mapped : ∀ t i j x, k.Maps (some t) i j x → Mappable lo (base x / 0x1000)
  kernelStack : ∀ t, (k.tasks t).active = true → ∃ g, (k.tasks t).stack = g * 0x1000
    ∧ g + kernelStackSizePages ≤ frameCount ∧ ∀ f, StackFrame g f → Mappable lo f
  parent : ∀ t, (k.tasks t).active = true → (k.tasks t).parent = -1

/-- **The invariant of a run.** -/
structure KernelInv (lo : ℕ) (k : Kernel) : Prop where
  vmm : VmmInv lo k
  low : 0x200 < lo
  tasks : TasksInv lo k

/-- The address of an entry that was written with a page. -/
lemma base_page {phys flags : ℕ} (hphys : phys < 2 ^ 32) (hal : phys % 0x1000 = 0)
    (hflags : flags < 0x1000) : base (phys ||| flags) = phys :=
  base_or (Nat.dvd_of_mod_eq_zero hal) hphys hflags

/-- The frame of an entry that was written with a frame. -/
lemma base_frame {f flags : ℕ} (hf : f < frameCount) (hflags : flags < 0x1000) :
    base (f * 0x1000 ||| flags) / 0x1000 = f := by
  have hlt : f * 0x1000 < 2 ^ 32 := by
    rw [frameCount] at hf
    omega
  rw [base_page hlt (Nat.mul_mod_left f 0x1000) hflags, Nat.mul_div_cancel _ (by norm_num)]

namespace TasksInv

/-- Nothing is new for tasks. -/
lemma mono (hi : TasksInv lo k)
    (hmaps : ∀ t i j x, k'.Maps (some t) i j x → k.Maps (some t) i j x)
    (htasks : k'.tasks = k.tasks) : TasksInv lo k' := by
  refine ⟨fun t i j x hm => hi.mapped t i j x (hmaps t i j x hm), ?_, ?_⟩
  · rw [htasks]
    exact hi.kernelStack
  · rw [htasks]
    exact hi.parent

lemma of_grows (hi : TasksInv lo k) (hg : KernelGrows lo k k') : TasksInv lo k' :=
  hi.mono (fun t i j x hm => ((hg.maps t i j x).mp hm).1) hg.tasks

lemma of_pmm (hi : TasksInv lo k) (pmm : Pmm) : TasksInv lo { k with pmm } :=
  hi.mono (fun t i j x hm => (maps_pmm pmm (some t) i j x).mp hm) rfl

/-- A page that tasks may map is mapped for a task. -/
lemma of_effect {pd pt e : ℕ} {fresh : Option ℕ} (hi : TasksInv lo k)
    (he : MapEffect lo k (some t) pd pt e fresh k') (hframe : Mappable lo (base e / 0x1000)) :
    TasksInv lo k' := by
  refine ⟨fun u i j x hm => ?_, ?_, ?_⟩
  · rcases (he.maps (some u) i j x).mp hm with ⟨_, _, _, rfl, _⟩ | ⟨hm, _⟩
    · exact hframe
    · exact hi.mapped u i j x hm
  · rw [he.tasks]
    exact hi.kernelStack
  · rw [he.tasks]
    exact hi.parent

/-- **A step of a creation.** -/
lemma spawnStep {img : ℕ → Prop} {s s' : Spawn} (hi : TasksInv lo s.kernel)
    (hs : SpawnInv lo s) (h : SpawnStep lo t img s s') : TasksInv lo s'.kernel := by
  cases h with
  | task task same =>
    refine ⟨fun u i j x hm => hi.mapped u i j x ((withTask_maps same _ i j x).mp hm),
      fun u hu => ?_, fun u hu => ?_⟩
    · have hu : (s.kernel.tasks u).active = true := (withTask_active same u).symm.trans hu
      obtain ⟨g, hg, hrest⟩ := hi.kernelStack u hu
      exact ⟨g, (withTask_stack same hu).trans hg, hrest⟩
    · have hu : (s.kernel.tasks u).active = true := (withTask_active same u).symm.trans hu
      exact (withTask_parent same hu).trans (hi.parent u hu)
  | range le run first becomes => exact hi.of_pmm _
  | nullRange le noRun => exact hi
  | grow grows maps => exact hi.of_grows grows
  | @create k' task g rest effect active parent stack room held =>
    refine ⟨fun u i j x hm => hi.mapped u i j x ((effect.maps _ i j x).mp hm),
      fun u hu => ?_, fun u hu => ?_⟩
    · rw [effect.tasks] at hu ⊢
      by_cases hut : u = t
      · subst hut
        rw [Function.update_self]
        refine ⟨g, stack, room, fun f hf => hs.held f ?_⟩
        rw [held]
        refine Multiset.mem_add.mpr (Or.inl (Multiset.mem_coe.mpr ?_))
        exact List.mem_range'_1.mpr hf
      · rw [Function.update_of_ne hut] at hu ⊢
        exact hi.kernelStack u hu
    · rw [effect.tasks] at hu ⊢
      by_cases hut : u = t
      · subst hut
        rw [Function.update_self]
        exact parent
      · rw [Function.update_of_ne hut] at hu ⊢
        exact hi.parent u hu
  | @map k' virt f fresh rest lt bound held effect place =>
    refine hi.of_effect effect ?_
    rw [base_frame bound (by decide)]
    exact hs.held f (held ▸ Multiset.mem_cons_self f rest)
  | free held becomes => exact hi.of_pmm _

/-- The end of a task. -/
lemma of_exit {g : ℕ} (hi : TasksInv lo k) (he : ExitEffect k t g k') : TasksInv lo k' := by
  have hold : ∀ u, (k'.tasks u).active = true → k'.tasks u = k.tasks u := by
    intro u hu
    rw [he.tasks] at hu ⊢
    by_cases hut : u = t
    · subst hut
      simp at hu
    · rw [Function.update_of_ne hut]
  refine ⟨fun u i j x hm => hi.mapped u i j x ((he.maps _ i j x).mp hm).1, fun u hu => ?_,
    fun u hu => ?_⟩
  · have heq := hold u hu
    rw [heq] at hu ⊢
    exact hi.kernelStack u hu
  · have heq := hold u hu
    rw [heq] at hu ⊢
    exact hi.parent u hu

end TasksInv

/-- The frames of a block that the kernel has: tasks might map them. -/
def OldBlock (lo ptr n : ℕ) : Prop :=
  ptr / 4096 + (toInt n).toNat ≤ frameCount
    ∧ ∀ f, ptr / 4096 ≤ f ∧ f < ptr / 4096 + (toInt n).toNat → Mappable lo f

namespace KernelInv

lemma of_grows (hi : KernelInv lo k) (hg : KernelGrows lo k k') : KernelInv lo k' :=
  ⟨hg.inv, hi.low, hi.tasks.of_grows hg⟩

/-- **The creation of a task**, from its steps. -/
lemma spawnSteps {img : ℕ → Prop} {s s' : Spawn} (hi : KernelInv lo s.kernel)
    (hs : SpawnInv lo s) (h : SpawnSteps lo t img s s') : KernelInv lo s'.kernel := by
  induction h with
  | refl => exact hi
  | tail hsteps hstep ih =>
    have hs' := hs.steps hsteps
    exact ⟨(hstep.inv hs').inv, hi.low, ih.tasks.spawnStep hs' hstep⟩

/-- `vmm_alloc`. -/
lemma vmmAlloc {n ptr : ℕ} (hi : KernelInv lo k) (h : vmmAlloc k n = .ok (k', ptr)) :
    KernelInv lo k' := by
  obtain ⟨pmm, hrange, hgrow, _⟩ := vmmAlloc_spec hi.vmm h
  exact ⟨hgrow.inv, hi.low, (hi.tasks.of_pmm pmm).of_grows hgrow⟩

/-- Frames that tasks might map are freed. -/
lemma of_free (hi : KernelInv lo k) {pmm : Pmm} {S : ℕ → Prop}
    (hb : k.pmm.Becomes pmm fun g => ¬ S g ∧ k.pmm.Used g) (hS : ∀ g, S g → Mappable lo g) :
    KernelInv lo { k with pmm } :=
  ⟨hi.vmm.of_free hb hS, hi.low, hi.tasks.of_pmm pmm⟩

/-- The state after `vmm_init`. -/
lemma of_booted (hlow : 0x200 < lo) (hb : Booted lo k) : KernelInv lo k := by
  refine ⟨hb.inv, hlow, fun t i j x hm => ?_, fun t ht => ?_, fun t ht => ?_⟩
  · obtain ⟨p, hp, _⟩ := hm
    exact absurd hp (not_owns_of_inactive (hb.idle t) rfl)
  · simp [hb.idle t] at ht
  · simp [hb.idle t] at ht

/-- `pmm_alloc`. -/
lemma pmmAlloc {pmm : Pmm} {page : ℕ} (hi : KernelInv lo k)
    (h : pmmAlloc k.pmm = .ok (pmm, page)) : KernelInv lo { k with pmm } := by
  rcases allocFrame_spec k.pmm false with ⟨ha, _⟩ | ⟨f, q, ha, _, _, _, hb⟩
  · cases ha.symm.trans h
  · obtain ⟨rfl, _⟩ := Prod.mk.inj (Except.ok.inj (ha.symm.trans h))
    exact ⟨hi.vmm.of_becomes hb, hi.low, hi.tasks.of_pmm _⟩

/-- `pmm_free` of a frame that tasks might map. -/
lemma pmmFree {pmm : Pmm} {page : ℕ} (hi : KernelInv lo k) (hpage : page < 2 ^ 32)
    (hframe : Mappable lo (page / 0x1000)) (h : pmmFree k.pmm page = .ok pmm) :
    KernelInv lo { k with pmm } := by
  obtain ⟨q, hq, hb⟩ := pmmFree_ok (p := k.pmm) hpage
  obtain rfl : q = pmm := Except.ok.inj (hq.symm.trans h)
  refine hi.of_free hb fun g hg => ?_
  subst hg
  exact hframe

/-- `vmm_free` of frames that tasks might map. -/
lemma vmmFree {ptr n : ℕ} (hi : KernelInv lo k) (hold : OldBlock lo ptr n)
    (h : vmmFree k ptr n = .ok k') : KernelInv lo k' := by
  rw [MicroOS.vmmFree] at h
  obtain ⟨pmm, hfree, hret⟩ := bind_eq_ok.mp h
  obtain rfl := Except.ok.inj hret
  obtain ⟨q, hq, hb⟩ := pmmFreeRange_ok (p := k.pmm) hold.1
  obtain rfl : q = pmm := Except.ok.inj (hq.symm.trans hfree)
  exact hi.of_free hb hold.2

/-- `vmm_resize`, which may allocate, free, or do both. -/
lemma vmmResize {dataSize oldSize newSize ptr ptr' : ℕ} (hi : KernelInv lo k)
    (hold : OldBlock lo ptr (dataSize * oldSize / 0x1000 + 1))
    (h : vmmResize k dataSize oldSize newSize ptr = .ok (k', ptr')) : KernelInv lo k' := by
  rw [MicroOS.vmmResize] at h
  by_cases hnull : ptr = 0
  · rw [if_pos hnull] at h
    exact hi.vmmAlloc h
  rw [if_neg hnull] at h
  by_cases hzero : newSize = 0
  · rw [if_pos hzero] at h
    obtain ⟨k₁, hfree, hret⟩ := bind_eq_ok.mp h
    obtain ⟨rfl, _⟩ := Prod.mk.inj (Except.ok.inj hret)
    exact hi.vmmFree hold hfree
  rw [if_neg hzero] at h
  by_cases hsize : dataSize * newSize / 0x1000 + 1 ≠ dataSize * oldSize / 0x1000 + 1
  · rw [if_pos hsize] at h
    obtain ⟨⟨k₁, newPtr⟩, halloc, h⟩ := bind_eq_ok.mp h
    obtain ⟨k₂, hfree, hret⟩ := bind_eq_ok.mp h
    obtain ⟨rfl, _⟩ := Prod.mk.inj (Except.ok.inj hret)
    exact (hi.vmmAlloc halloc).vmmFree hold hfree
  · rw [if_neg hsize] at h
    obtain ⟨rfl, _⟩ := Prod.mk.inj (Except.ok.inj h)
    exact hi

/-- `exit_task`. -/
lemma exitTask (hi : KernelInv lo k) (ht : (k.tasks t).active = true)
    (h : exitTask k t = .ok k') : KernelInv lo k' := by
  obtain ⟨g, hg, hroom, hstack⟩ := hi.tasks.kernelStack t ht
  obtain ⟨q, hq, he⟩ := exitTask_ok hi.vmm ht (hi.tasks.parent t ht) hg hroom
  obtain rfl : q = k' := Except.ok.inj (hq.symm.trans h)
  exact ⟨he.inv hi.vmm (hi.tasks.mapped t) hstack, hi.low, hi.tasks.of_exit he⟩

/-- `vmm_map_page` for a task. -/
lemma mapTask {virt phys flags : ℕ} (hi : KernelInv lo k) (ht : (k.tasks t).active = true)
    (hv : virt < 2 ^ 32) (hp : phys < 2 ^ 32) (hflags : flags < 0x1000)
    (hframe : Mappable lo (phys / 0x1000))
    (h : mapPage k (k.tasks t).context virt phys flags = .ok k') : KernelInv lo k' := by
  have hroot : k.Root (some t) (k.tasks t).context := ⟨ht, rfl⟩
  rcases mapPage_effect hi.vmm hroot hv hflags h with ⟨_, rfl⟩ | ⟨hal, _, fresh, he⟩
  · exact hi
  · refine ⟨he.inv, hi.low, hi.tasks.of_effect he ?_⟩
    rw [base_page hp hal.2 hflags]
    exact hframe

end KernelInv

/-! ### Runs -/

/-- `pmm_init` and `vmm_init` have returned. -/
def VmmStarted (L : KernelLayout) (k : Kernel) : Prop :=
  ∃ fuel mb pmm, pmmInit fuel L mb = .ok pmm ∧ vmmInit fuel L mb pmm = .ok k

/-- **A step of the kernel** that returns. The frames that are mapped for tasks, and those that the
kernel gives back, are none of the pool's and none of the two that guard it; `pmm_alloc` and
`pmm_alloc_range` hand out no others. -/
inductive VmmStep (lo : ℕ) : Kernel → Kernel → Prop where
  | initTask {k k' : Kernel} {t : Fin maxTasks} (term : ℤ)
      (returns : initTask k term = .ok (k', t)) : VmmStep lo k k'
  | mapKernel {k k' : Kernel} {virt phys flags : ℕ} (virt_lt : virt < 2 ^ 32)
      (flags_lt : flags < 0x1000)
      (returns : mapPage k k.kernelContext virt phys flags = .ok k') : VmmStep lo k k'
  | mapTask {k k' : Kernel} {t : Fin maxTasks} {virt phys flags : ℕ}
      (active : (k.tasks t).active = true) (virt_lt : virt < 2 ^ 32) (phys_lt : phys < 2 ^ 32)
      (flags_lt : flags < 0x1000) (frame : Mappable lo (phys / 0x1000))
      (returns : mapPage k (k.tasks t).context virt phys flags = .ok k') : VmmStep lo k k'
  | exitTask {k k' : Kernel} {t : Fin maxTasks} (active : (k.tasks t).active = true)
      (returns : exitTask k t = .ok k') : VmmStep lo k k'
  | alloc {k k' : Kernel} {numPages ptr : ℕ} (returns : vmmAlloc k numPages = .ok (k', ptr)) :
      VmmStep lo k k'
  | resize {k k' : Kernel} {dataSize oldSize newSize ptr ptr' : ℕ}
      (old : OldBlock lo ptr (dataSize * oldSize / 0x1000 + 1))
      (returns : vmmResize k dataSize oldSize newSize ptr = .ok (k', ptr')) : VmmStep lo k k'
  | free {k k' : Kernel} {ptr numPages : ℕ} (old : OldBlock lo ptr numPages)
      (returns : vmmFree k ptr numPages = .ok k') : VmmStep lo k k'
  | pmmAlloc {k : Kernel} {pmm : Pmm} {page : ℕ} (returns : pmmAlloc k.pmm = .ok (pmm, page)) :
      VmmStep lo k { k with pmm }
  | pmmFree {k : Kernel} {pmm : Pmm} {page : ℕ} (page_lt : page < 2 ^ 32)
      (frame : Mappable lo (page / 0x1000)) (returns : pmmFree k.pmm page = .ok pmm) :
      VmmStep lo k { k with pmm }

/-- **The run lemma.** -/
theorem KernelInv.of_reachable {L : KernelLayout}
    (hk : Reachable (VmmStarted L) (VmmStep L.poolFrame) k) : KernelInv L.poolFrame k := by
  refine hk.invariant _ ?_ fun k k' hi hstep => ?_
  · rintro k ⟨fuel, mb, pmm, hpmm, hvmm⟩
    exact KernelInv.of_booted L.poolFrame_bounds.1
      (vmmInit_booted (pmmInit_guarded hpmm).1 hvmm)
  · cases hstep with
    | initTask term returns =>
      obtain ⟨_, _, hsteps⟩ := initTask_steps (fun _ => False) 0 hi.vmm hi.low returns
      exact hi.spawnSteps ⟨hi.vmm, hi.low, by simp⟩ hsteps
    | mapKernel virt_lt flags_lt returns =>
      exact hi.of_grows (KernelGrows.of_mapPage hi.vmm virt_lt flags_lt returns).1
    | mapTask active virt_lt phys_lt flags_lt frame returns =>
      exact hi.mapTask active virt_lt phys_lt flags_lt frame returns
    | exitTask active returns => exact hi.exitTask active returns
    | alloc returns => exact hi.vmmAlloc returns
    | resize old returns => exact hi.vmmResize old returns
    | free old returns => exact hi.vmmFree old returns
    | pmmAlloc returns => exact hi.pmmAlloc returns
    | pmmFree page_lt frame returns => exact hi.pmmFree page_lt frame returns

/-- **Kernel mappings are visible in every task.** In every run from a `vmm_init` that returned,
an entry that is present in the kernel's directory is the entry of every active task's. -/
theorem reachable_visible {L : KernelLayout}
    (hk : Reachable (VmmStarted L) (VmmStep L.poolFrame) k) (t : Fin maxTasks)
    (ht : (k.tasks t).active = true) (i : ℕ) (hi : i < 1024) (hpres : Present (k.kernelEntry i)) :
    k.entry (k.tasks t).context i = k.kernelEntry i :=
  (KernelInv.of_reachable hk).vmm.sync t ht i hi hpres

/-! ### A machine -/

/-- A memory map with 33 usable pages in the pool of `bootLayout` and 63 usable frames behind it. -/
def machineInfo : MultibootInfo := ⟨0x9000, [⟨0x3e0000, 0x60000, 1⟩], 0xa000, []⟩

/-- The slots of the kernel on that machine. -/
lemma machine_slots : Slots {0, 1} 0x440 := by
  refine ⟨by decide, fun f hf => ?_, fun f hf => ?_⟩
  · have : f / 1024 = 0 ∨ f / 1024 = 1 := by omega
    simpa using this
  · have hindex : pdIndexOf (wrap32 (f * 0x1000 + userSpaceOffset)) = 768 + f / 1024 := by
      rw [pdIndexOf, wrap32, userSpaceOffset]
      omega
    rw [hindex, Finset.mem_insert, Finset.mem_singleton]
    omega

/-- A machine with those frames free starts, with 29 free pages in the pool and 63 free frames. -/
lemma starts_of_free {mb : MultibootInfo} {pmm : Pmm} (hinit : pmmInit 600 bootLayout mb = .ok pmm)
    (hmods : mb.mods = []) (haddr : pdIndexOf mb.addr.toNat ∈ ({0, 1} : Finset ℕ))
    (hmodsAddr : pdIndexOf mb.modsAddr.toNat ∈ ({0, 1} : Finset ℕ))
    (hfree : ∀ i < 0x60, ¬ pmm.Used (0x3e0 + i)) :
    ∃ k, vmmInit 600 bootLayout mb pmm = .ok k ∧ Ready bootLayout.poolFrame {0, 1} 0x440 29 63 k
      ∧ k.tasks = (fun _ => Task.zero) ∧ k.currentTask = 0 ∧ k.currentPid = 0 := by
  have hg := (pmmInit_guarded hinit).1
  have hlo : bootLayout.poolFrame = 0x201 := by decide
  have hpool : ∀ f, pmm.Pool f ↔ 0x201 ≤ f ∧ f < 0x401 := by
    intro f
    rw [hg.pool, hlo]
    rfl
  have hreserve : pmm.Reserve (29 + ({0, 1} : Finset ℕ).card + 2) := by
    refine ⟨Finset.Ico 0x3e0 0x401, by decide, fun f hf => ?_⟩
    obtain ⟨h1, h2⟩ := Finset.mem_Ico.mp hf
    have hnot := hfree (f - 0x3e0) (by omega)
    rw [Nat.add_sub_cancel' h1] at hnot
    exact ⟨by rw [frameCount]; omega, hnot, by simp [hpool]; omega⟩
  have hrun : ∃ f, pmm.FreeRun f 63 ∧ 0x200 ≤ f ∧ f + 63 ≤ 0x440 := by
    refine ⟨0x401, ⟨by rw [frameCount]; omega, fun g h1 h2 => ?_⟩, by omega, by omega⟩
    have hnot := hfree (g - 0x3e0) (by omega)
    rw [Nat.add_sub_cancel' (by omega)] at hnot
    exact ⟨hnot, by rw [hpool]; omega⟩
  have hslot : ∀ a < bootLayout.pagingEnd, pdIndexOf a ∈ ({0, 1} : Finset ℕ) := by
    intro a ha
    have ha : a < 0x401000 := ha
    have : pdIndexOf a = 0 ∨ pdIndexOf a = 1 := by
      rw [pdIndexOf]
      omega
    simpa using this
  exact vmmInit_returns 600 mb hg (by decide) hmods (by decide) (by decide) hslot haddr hmodsAddr
    hreserve hrun

/-- The machine starts, with 29 free pages in the pool and 63 free frames. -/
theorem machine_starts :
    ∃ k, VmmStarted bootLayout k ∧ Ready bootLayout.poolFrame {0, 1} 0x440 29 63 k
      ∧ k.tasks = (fun _ => Task.zero) ∧ k.currentTask = 0 ∧ k.currentPid = 0 := by
  have hfree : (pmmInit 600 bootLayout machineInfo).toOption.map
      (fun p => decide (∀ i < 0x60, ¬ p.Used (0x3e0 + i))) = some true := by decide +kernel
  cases hinit : pmmInit 600 bootLayout machineInfo with
  | error e => simp [hinit, Except.toOption] at hfree
  | ok pmm =>
    rw [hinit] at hfree
    have hfree : ∀ i < 0x60, ¬ pmm.Used (0x3e0 + i) :=
      of_decide_eq_true (Option.some.inj hfree)
    obtain ⟨k, hk, hready, hrest⟩ :=
      starts_of_free hinit rfl (by decide) (by decide) hfree
    exact ⟨k, ⟨600, machineInfo, pmm, hinit, hk⟩, hready, hrest⟩

/-- A task is created, and then the kernel maps the page of the text buffer again: the table is
the task's as well. -/
theorem reachable_visible_machine :
    ∃ k, Reachable (VmmStarted bootLayout) (VmmStep bootLayout.poolFrame) k
      ∧ (k.tasks 0).active = true ∧ Present (k.kernelEntry 0)
      ∧ k.entry (k.tasks 0).context 0 = k.kernelEntry 0 := by
  obtain ⟨k₀, hstart, hready₀, htasks, _⟩ := machine_starts
  have hfirst : k₀.tasks.firstInactive = some 0 := by
    rw [htasks]
    rfl
  have hready₀ : Ready bootLayout.poolFrame {0, 1} 0x440 (23 + 6)
    (kernelStackSizePages + (userStackSizePages + 55)) k₀ := hready₀
  obtain ⟨k₁, hspawn, hready₁, hspawned⟩ := initTask_returns machine_slots 1 hready₀ hfirst
  obtain ⟨k₂, hmap, hsame, _⟩ := hready₁.mapKernel 0xb8000 0xb8000
    (ptePresent ||| pteWrite) (by norm_num) (by decide) (by decide)
  have hreach : Reachable (VmmStarted bootLayout) (VmmStep bootLayout.poolFrame) k₂ :=
    ((Reachable.start hstart).next (.initTask 1 hspawn)).next
      (.mapKernel (by norm_num) (by decide) hmap)
  have hact : (k₂.tasks 0).active = true := by
    rw [hsame.tasks]
    exact hspawned.active
  have hpres : Present (k₂.kernelEntry 0) := by
    rcases mapPage_effect (s := none) hready₁.inv rfl (by norm_num) (by decide) hmap with
      ⟨hno, _⟩ | ⟨_, _, fresh, he⟩
    · exact absurd ⟨rfl, rfl⟩ hno
    · obtain ⟨p, hp, _⟩ := (he.maps none 0 0xb8 _).mpr (Or.inl ⟨rfl, rfl, rfl, rfl, by decide⟩)
      exact (Kernel.hasTable_none_iff (by norm_num)).mp ⟨p, hp⟩
  exact ⟨k₂, hreach, hact, hpres, reachable_visible hreach 0 hact 0 (by norm_num) hpres⟩

end MicroOS
