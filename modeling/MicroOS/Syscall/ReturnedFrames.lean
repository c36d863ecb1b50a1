import MicroOS.Syscall.SpawnLedger

/-!
What a task leaves behind, after `init_elf`, calls of `sys_mmap` and `exit_task`.

* `Kernel.Restored`: the frames that are free are those that were, but for page tables of the
  kernel.
* `Leaks`: the frames that came into use and that the end of the task does not free.
* `TaskFrames` is the invariant of the calls; `TaskFrames.sysMmap` is the step lemma, with the
  frames that a call leaks, and `TaskFrames.sysMmaps` the run lemma.
* `exitTask_restored_iff`: the end of a task.
* `memory_returned_iff`: a task's memory is returned exactly when its calls are for pages, none of
  them twice and none that it had from the start.
-/

namespace MicroOS

open ByteMem Checked PageEntry Relation Run

variable {lo top : ℕ} {k₀ k k' k₁ k₂ : Kernel} {t : Fin maxTasks} {image : ElfImage}
  {addresses : List ℕ}

/-! ### Leaks -/

/-- **The frames that are free are those that were**, but for the page tables that the kernel
has. -/
def Kernel.Restored (k₀ k : Kernel) : Prop :=
  ∀ f, ¬ k.pmm.Used f ↔ ¬ k₀.pmm.Used f ∧ ¬ k.KernelTable f

/-- The frame came into use, and the end of the task does not free it. -/
structure Leaks (k₀ : Kernel) (t : Fin maxTasks) (k : Kernel) (f : ℕ) : Prop where
  used : k.pmm.Used f
  fresh : ¬ k₀.pmm.Used f
  kernel : ¬ k.KernelTable f
  charged : ¬ k.Charged t f
  stack : ¬ k.StackOf t f

/-- **What the task has** came into use since `k₀`, and it maps no frame twice. -/
structure TaskFrames (lo : ℕ) (k₀ : Kernel) (t : Fin maxTasks) (k : Kernel) : Prop where
  kernel : KernelInv lo k
  active : (k.tasks t).active = true
  used : ∀ f, k₀.pmm.Used f → k.pmm.Used f
  charged : ∀ f, k.Charged t f → k.pmm.Used f ∧ ¬ k₀.pmm.Used f
  inj : ∀ i j x i' j' x', k.Maps (some t) i j x → k.Maps (some t) i' j' x' →
    base x / 0x1000 = base x' / 0x1000 → i = i' ∧ j = j'
  stack : ∀ f, k.StackOf t f → k.pmm.Used f ∧ ¬ k₀.pmm.Used f
    ∧ ∀ i j x, k.Maps (some t) i j x → base x / 0x1000 ≠ f

lemma Mappable.not_owned {f : ℕ} {o : Owner} (h : Mappable lo f) (hi : VmmInv lo k) :
    ¬ k.Owns o (f * 0x1000) := fun ho => h.1 ((hi.guarded.pool f).mp (hi.pool_of_owns ho).1)

namespace TaskFrames

/-- Nothing is leaked by `init_elf` of a valid image. -/
lemma of_initElf {term pid : ℤ} {numArgv numEnvp : ℕ} (hi : KernelInv lo k₀)
    (hzero : k₀.pmm.Used 0) (hvalid : image.Valid k₀ top)
    (hrun : k₀.pmm.RunBelow top (spawnPages image numArgv numEnvp))
    (h : initElf k₀ term image numArgv numEnvp = .ok (k₁, pid))
    (hidle : (k₀.tasks t).active = false) (hactive : (k₁.tasks t).active = true) :
    TaskFrames lo k₀ t k₁ ∧ ∀ f, ¬ Leaks k₀ t k₁ f := by
  obtain ⟨hledger, hkept, hframes⟩ :=
    initElf_ledger hi.vmm hi.low hzero hvalid hrun h hidle hactive
  have hkernel : KernelInv lo k₁ := by
    obtain ⟨f, hf, -⟩ := hrun
    obtain ⟨u, -, -, -, hsteps⟩ := initElf_steps hi.vmm hi.low ⟨f, hf⟩ hvalid.magic h
    exact hi.spawnSteps ⟨hi.vmm, hi.low, fun f hf => absurd hf (Multiset.notMem_zero f)⟩ hsteps
  refine ⟨⟨hkernel, hactive, hkept.used, fun f hf => ⟨?_, hledger.charged f hf⟩, hframes.inj,
    fun f hf => ?_⟩, fun f hf => ?_⟩
  · rcases hf with ⟨o, -, hown⟩ | ⟨i, j, x, hm, rfl⟩
    · exact (hkernel.vmm.pool_of_owns hown).2
    · exact (hframes.mapped i j x hm).1
  · obtain ⟨hu, hnew, -, hmaps⟩ := hledger.stack f hf
    exact ⟨hu, hnew, hmaps⟩
  · rcases hledger.used f hf.used with hu | hu | hu | hu | hu
    · exact hf.fresh hu
    · exact hf.kernel hu
    · exact hf.charged hu
    · exact hf.stack hu
    · exact absurd hu (Multiset.notMem_zero f)

/-! ### `sys_mmap` -/

/-- `pmm_alloc` takes a frame that is leaked until it is mapped. -/
lemma alloc {f : ℕ} {pmm : Pmm} (h : TaskFrames lo k₀ t k) (hfree : ¬ k.pmm.Used f)
    (hb : k.pmm.Becomes pmm fun g => g = f ∨ k.pmm.Used g) (hi : VmmInv lo { k with pmm }) :
    TaskFrames lo k₀ t { k with pmm }
      ∧ ∀ g, Leaks k₀ t { k with pmm } g ↔ g = f ∨ Leaks k₀ t k g := by
  have hmono : ∀ g, k.pmm.Used g → pmm.Used g := fun g hg => (hb.used g).mpr (Or.inr hg)
  have howns := owns_pmm (k := k) pmm
  have hmaps := maps_pmm (k := k) pmm
  have hcharged : ∀ g, ({ k with pmm } : Kernel).Charged t g ↔ k.Charged t g :=
    charged_congr (fun o p _ => howns o p) (hmaps _)
  have hkernel : ∀ g, ({ k with pmm } : Kernel).KernelTable g ↔ k.KernelTable g := fun g =>
    exists_congr fun i => howns _ _
  refine ⟨⟨⟨hi, h.kernel.low, h.kernel.tasks.of_pmm pmm⟩, h.active,
    fun g hg => hmono g (h.used g hg), fun g hg => ?_, fun i j x i' j' x' hm hm' =>
      h.inj i j x i' j' x' ((hmaps _ i j x).mp hm) ((hmaps _ i' j' x').mp hm'), fun g hg => ?_⟩,
    fun g => ⟨fun hg => ?_, ?_⟩⟩
  · obtain ⟨hu, hnew⟩ := h.charged g ((hcharged g).mp hg)
    exact ⟨hmono g hu, hnew⟩
  · obtain ⟨hu, hnew, hno⟩ := h.stack g hg
    exact ⟨hmono g hu, hnew, fun i j x hm => hno i j x ((hmaps _ i j x).mp hm)⟩
  · refine ((hb.used g).mp hg.used).imp_right fun hu => ⟨hu, hg.fresh, ?_, ?_, hg.stack⟩
    · rw [← hkernel]
      exact hg.kernel
    · rw [← hcharged]
      exact hg.charged
  · rintro (rfl | hg)
    · refine ⟨(hb.used g).mpr (Or.inl rfl), fun hu => hfree (h.used g hu), ?_, ?_,
        fun hg => hfree (h.stack g hg).1⟩
      · rw [hkernel]
        rintro ⟨i, hown⟩
        exact hfree (h.kernel.vmm.pool_of_owns hown).2
      · rw [hcharged]
        exact fun hg => hfree (h.charged g hg).1
    · refine ⟨hmono g hg.used, hg.fresh, ?_, ?_, hg.stack⟩
      · rw [hkernel]
        exact hg.kernel
      · rw [hcharged]
        exact hg.charged

/-- A mapping for the task: what is charged to it. -/
lemma charged_map_iff {pd pt f : ℕ} {fresh : Option ℕ} (hf : f < frameCount)
    (he : MapEffect lo k (some t) pd pt (f * 0x1000 ||| userFlags) fresh k') (g : ℕ) :
    k'.Charged t g ↔ fresh = some g ∨ g = f ∨ (∃ o, o.space = some t ∧ k.Owns o (g * 0x1000))
      ∨ ∃ i j x, k.Maps (some t) i j x ∧ ¬ (i = pd ∧ j = pt) ∧ g = base x / 0x1000 := by
  have hframe : base (f * 0x1000 ||| userFlags) / 0x1000 = f := base_frame hf (by decide)
  constructor
  · rintro (⟨o, ho, hown⟩ | ⟨i, j, x, hm, rfl⟩)
    · rcases (he.owns _ _).mp hown with ⟨hown, -⟩ | ⟨g', hg', -, heq⟩
      · exact Or.inr (Or.inr (Or.inl ⟨o, ho, hown⟩))
      · obtain rfl : g = g' := Nat.eq_of_mul_eq_mul_right (by norm_num) heq
        exact Or.inl hg'
    · rcases (he.maps _ i j x).mp hm with ⟨-, -, -, rfl, -⟩ | ⟨hm, hne, -⟩
      · exact Or.inr (Or.inl hframe)
      · exact Or.inr (Or.inr (Or.inr ⟨i, j, x, hm, fun hc => hne ⟨rfl, hc⟩, rfl⟩))
  · rintro (hg | rfl | ⟨o, ho, hown⟩ | ⟨i, j, x, hm, hne, rfl⟩)
    · exact Or.inl ⟨.table (some t) pd, rfl, (he.owns _ _).mpr (Or.inr ⟨g, hg, rfl, rfl⟩)⟩
    · have hnew := (he.maps _ _ _ _).mpr (Or.inl ⟨rfl, rfl, rfl, rfl, present_userEntry g⟩)
      exact Or.inr ⟨_, _, _, hnew, hframe.symm⟩
    · exact Or.inl ⟨o, ho, (he.owns _ _).mpr (Or.inl ⟨hown, not_lost_of_task o⟩)⟩
    · exact Or.inr ⟨i, j, x, (he.maps _ i j x).mpr
        (Or.inr ⟨hm, fun hc => hne hc.2, not_lost_of_task _⟩), rfl⟩

/-- **A frame that is leaked is mapped**: what leaks then is what the page had before. -/
lemma map {pd pt f : ℕ} {fresh : Option ℕ} (h : TaskFrames lo k₀ t k) (hleak : Leaks k₀ t k f)
    (hf : f < frameCount) (hkernel : KernelInv lo k')
    (he : MapEffect lo k (some t) pd pt (f * 0x1000 ||| userFlags) fresh k') :
    TaskFrames lo k₀ t k' ∧ ∀ g, Leaks k₀ t k' g ↔ (Leaks k₀ t k g ∧ g ≠ f)
      ∨ ∃ x, k.Maps (some t) pd pt x ∧ g = base x / 0x1000 := by
  have hframe : base (f * 0x1000 ||| userFlags) / 0x1000 = f := base_frame hf (by decide)
  have hcharged := charged_map_iff hf he
  have hmono : ∀ g, k.pmm.Used g → k'.pmm.Used g := fun g hg => (he.pmm.used g).mpr (Or.inr hg)
  have hstackOf := FramesInv.stackOf_of_tasks he.tasks t
  have hmapped : ∀ i j x, k.Maps (some t) i j x → base x / 0x1000 ≠ f := by
    rintro i j x hm rfl
    exact hleak.charged (Or.inr ⟨i, j, x, hm, rfl⟩)
  have htables : ∀ g, k'.KernelTable g ↔ k.KernelTable g := by
    refine fun g => exists_congr fun i => (he.owns _ _).trans ⟨?_, fun hp => ?_⟩
    · rintro (⟨hp, -⟩ | ⟨g', -, hc, -⟩)
      · exact hp
      · cases hc
    · exact Or.inl ⟨hp, id⟩
  refine ⟨⟨hkernel, ?_, fun g hg => hmono g (h.used g hg), fun g hg => ?_,
    fun i j x i' j' x' hm hm' heq => ?_, fun g hg => ?_⟩, fun g => ⟨fun hg => ?_, ?_⟩⟩
  · rw [he.tasks]
    exact h.active
  · -- a frame that the task holds now was free, or leaked, or held before
    rcases (hcharged g).mp hg with hg | rfl | hown | ⟨i, j, x, hm, -, rfl⟩
    · exact ⟨(he.pmm.used g).mpr (Or.inl hg), fun hu => (he.pmm.free g hg).2.1 (h.used g hu)⟩
    · exact ⟨hmono g hleak.used, hleak.fresh⟩
    · obtain ⟨hu, hnew⟩ := h.charged g (Or.inl hown)
      exact ⟨hmono g hu, hnew⟩
    · obtain ⟨hu, hnew⟩ := h.charged _ (Or.inr ⟨i, j, x, hm, rfl⟩)
      exact ⟨hmono _ hu, hnew⟩
  · -- no two of its pages show one frame: the new page shows the leaked one
    rcases (he.maps _ i j x).mp hm with ⟨-, hi, hj, rfl, -⟩ | ⟨hm, -⟩
    · rcases (he.maps _ i' j' x').mp hm' with ⟨-, hi', hj', -⟩ | ⟨hm', -⟩
      · exact ⟨hi.trans hi'.symm, hj.trans hj'.symm⟩
      · exact absurd (heq.symm.trans hframe) (hmapped i' j' x' hm')
    · rcases (he.maps _ i' j' x').mp hm' with ⟨-, -, -, rfl, -⟩ | ⟨hm', -⟩
      · exact absurd (heq.trans hframe) (hmapped i j x hm)
      · exact h.inj i j x i' j' x' hm hm' heq
  · have hg := (hstackOf g).mp hg
    obtain ⟨hu, hnew, hno⟩ := h.stack g hg
    refine ⟨hmono g hu, hnew, fun i j x hm => ?_⟩
    rcases (he.maps _ i j x).mp hm with ⟨-, -, -, rfl, -⟩ | ⟨hm, -⟩
    · rw [hframe]
      rintro rfl
      exact hleak.stack hg
    · exact hno i j x hm
  · -- what is leaked afterwards
    have hno := mt (hcharged g).mpr hg.charged
    push Not at hno
    obtain ⟨hfresh, hgf, hown, hmap⟩ := hno
    have hu : k.pmm.Used g := ((he.pmm.used g).mp hg.used).resolve_left hfresh
    by_cases hold : ∃ x, k.Maps (some t) pd pt x ∧ g = base x / 0x1000
    · exact Or.inr hold
    · refine Or.inl ⟨⟨hu, hg.fresh, mt (htables g).mpr hg.kernel, ?_,
        mt (hstackOf g).mpr hg.stack⟩, hgf⟩
      rintro (⟨o, ho, hp⟩ | ⟨i, j, x, hm, heq⟩)
      · exact hown o ho hp
      · refine hmap i j x hm ?_ heq
        rintro rfl rfl
        exact hold ⟨x, hm, heq⟩
  · -- a leaked frame stays so, and the one that the page showed has no holder left
    rintro (⟨hg, hgf⟩ | ⟨x, hx, rfl⟩)
    · refine ⟨hmono g hg.used, hg.fresh, mt (htables g).mp hg.kernel, fun hc => ?_,
        mt (hstackOf g).mp hg.stack⟩
      rcases (hcharged g).mp hc with hc | hc | hc | ⟨i, j, x, hm, -, heq⟩
      · exact (he.pmm.free g hc).2.1 hg.used
      · exact hgf hc
      · exact hg.charged (Or.inl hc)
      · exact hg.charged (Or.inr ⟨i, j, x, hm, heq⟩)
    · obtain ⟨hu, hnew⟩ := h.charged _ (Or.inr ⟨pd, pt, x, hx, rfl⟩)
      have hmappable := h.kernel.tasks.mapped _ _ _ x hx
      refine ⟨hmono _ hu, hnew, ?_, fun hc => ?_, fun hc => ?_⟩
      · rintro ⟨i, hown⟩
        exact hmappable.not_owned he.inv hown
      · rcases (hcharged _).mp hc with hc | hc | ⟨o, -, hown⟩ | ⟨i, j, y, hm, hne, heq⟩
        · exact (he.pmm.free _ hc).2.1 hu
        · exact hmapped _ _ x hx hc
        · exact hmappable.not_owned h.kernel.vmm hown
        · obtain ⟨hi, hj⟩ := h.inj _ _ _ _ _ _ hm hx heq.symm
          exact hne ⟨hi, hj⟩
      · exact (h.stack _ ((hstackOf _).mp hc)).2.2 _ _ x hx rfl

/-- The task runs. -/
lemma running (h : TaskFrames lo k₀ t k) : TaskFrames lo k₀ t (k.running t) := by
  have hmaps := maps_running (k := k) t (some t)
  have hcharged : ∀ f, (k.running t).Charged t f ↔ k.Charged t f :=
    charged_congr (fun o p _ => owns_running t o p) hmaps
  refine ⟨h.kernel.running t, h.active, h.used, fun f hf => h.charged f ((hcharged f).mp hf),
    fun i j x i' j' x' hm hm' => h.inj i j x i' j' x' ((hmaps i j x).mp hm)
      ((hmaps i' j' x').mp hm'), fun f hf => ?_⟩
  obtain ⟨hu, hnew, hno⟩ := h.stack f hf
  exact ⟨hu, hnew, fun i j x hm => hno i j x ((hmaps i j x).mp hm)⟩

end TaskFrames

/-- Which task runs changes no leak. -/
lemma leaks_running (f : ℕ) : Leaks k₀ t (k.running t) f ↔ Leaks k₀ t k f := by
  have hcharged : (k.running t).Charged t f ↔ k.Charged t f :=
    charged_congr (fun o p _ => owns_running t o p) (maps_running t _) f
  have hkernel : (k.running t).KernelTable f ↔ k.KernelTable f :=
    exists_congr fun i => owns_running t _ _
  exact ⟨fun h => ⟨h.used, h.fresh, mt hkernel.mpr h.kernel, mt hcharged.mpr h.charged, h.stack⟩,
    fun h => ⟨h.used, h.fresh, mt hkernel.mp h.kernel, mt hcharged.mp h.charged, h.stack⟩⟩

lemma userPage_running (virt : ℕ) : (k.running t).UserPage t virt ↔ k.UserPage t virt :=
  exists_congr fun x => maps_running t _ _ _ x

/-- The address starts a page that the task does not map. -/
def NewPage (k : Kernel) (t : Fin maxTasks) (ebx : ℕ) : Prop :=
  ebx % 0x1000 = 0 ∧ ¬ k.UserPage t ebx

namespace TaskFrames

/-- **The step lemma**: a call leaks no frame exactly when it is for a new page. -/
lemma sysMmap {ebx : ℕ} (h : TaskFrames lo k₀ k.currentTask k) (hv : ebx < 2 ^ 32)
    (hcall : sysMmap k ebx = .ok k') :
    TaskFrames lo k₀ k.currentTask k'
      ∧ ((∀ g, ¬ Leaks k₀ k.currentTask k' g)
        ↔ (∀ g, ¬ Leaks k₀ k.currentTask k g) ∧ NewPage k k.currentTask ebx)
      ∧ (ebx % 0x1000 = 0 → ∀ virt, k'.UserPage k.currentTask virt ↔ k.UserPage k.currentTask virt
        ∨ (pdIndexOf virt = pdIndexOf ebx ∧ ptIndexOf virt = ptIndexOf ebx)) := by
  set t := k.currentTask with ht
  have hkernel := h.kernel.sysMmap h.active hv hcall
  obtain ⟨f, pmm, hf, hfit, -, hb, hi, hcases⟩ := sysMmap_effect h.kernel.vmm h.active hv hcall
  obtain ⟨halloc, hleaks⟩ := h.alloc hfit.1 hb hi
  have hnew : Leaks k₀ t { k with pmm } f := (hleaks f).mpr (Or.inl rfl)
  have hold : ¬ Leaks k₀ t k f := fun hc => hfit.1 hc.used
  rcases hcases with ⟨hal, rfl⟩ | ⟨hal, -, fresh, he⟩
  · -- inside a page the frame is not mapped
    exact ⟨halloc, iff_of_false (fun hno => hno f hnew) fun hc => hal hc.2.1,
      fun hc => absurd hc hal⟩
  obtain ⟨hmap, hleaks'⟩ := halloc.map hnew hf hkernel he
  have hpage : ({ k with pmm } : Kernel).UserPage t ebx ↔ k.UserPage t ebx :=
    exists_congr fun x => maps_pmm pmm _ _ _ x
  refine ⟨hmap, ?_, fun _ virt => ?_⟩
  · -- the new frame is mapped, and what the page showed before has lost its holder
    have hiff : ∀ g, Leaks k₀ t k' g ↔ Leaks k₀ t k g
        ∨ ∃ x, ({ k with pmm } : Kernel).Maps (some t) (pdIndexOf ebx) (ptIndexOf ebx) x
          ∧ g = base x / 0x1000 := by
      intro g
      rw [hleaks', hleaks]
      refine or_congr_left ⟨fun hg => hg.1.resolve_left hg.2, fun hg => ⟨Or.inr hg, ?_⟩⟩
      rintro rfl
      exact hold hg
    rw [NewPage, and_iff_right hal, ← hpage]
    constructor
    · intro hno
      refine ⟨fun g hg => hno g ((hiff g).mpr (Or.inl hg)), ?_⟩
      rintro ⟨x, hx⟩
      exact hno _ ((hiff _).mpr (Or.inr ⟨x, hx, rfl⟩))
    · rintro ⟨hno, hunmapped⟩ g hg
      rcases (hiff g).mp hg with hg | ⟨x, hx, -⟩
      · exact hno g hg
      · exact hunmapped ⟨x, hx⟩
  · constructor
    · rintro ⟨x, hx⟩
      rcases (he.maps _ _ _ x).mp hx with ⟨-, hpd, hpt, -⟩ | ⟨hx, -⟩
      · exact Or.inr ⟨hpd, hpt⟩
      · exact Or.inl ⟨x, (maps_pmm pmm _ _ _ x).mp hx⟩
    · intro hvirt
      by_cases hsame : pdIndexOf virt = pdIndexOf ebx ∧ ptIndexOf virt = ptIndexOf ebx
      · exact ⟨_, (he.maps _ _ _ _).mpr
          (Or.inl ⟨rfl, hsame.1, hsame.2, rfl, present_userEntry f⟩)⟩
      · obtain ⟨x, hx⟩ := hvirt.resolve_right hsame
        exact ⟨x, (he.maps _ _ _ x).mpr (Or.inr ⟨(maps_pmm pmm _ _ _ x).mpr hx,
          fun hc => hsame hc.2, not_lost_of_task _⟩)⟩

end TaskFrames

/-- Calls of `sys_mmap` by the task, one after the other. -/
def sysMmaps (t : Fin maxTasks) (k : Kernel) (addresses : List ℕ) : Except Halt Kernel :=
  addresses.foldlM (fun k ebx => sysMmap (k.running t) ebx) k

/-- **The run lemma**: the calls leak no frame exactly when they are for new pages, and none of them
twice. -/
lemma TaskFrames.sysMmaps (h : TaskFrames lo k₀ t k) (haddresses : ∀ ebx ∈ addresses, ebx < 2 ^ 32)
    (hcalls : sysMmaps t k addresses = .ok k') :
    TaskFrames lo k₀ t k' ∧ ((∀ f, ¬ Leaks k₀ t k' f)
      ↔ (∀ f, ¬ Leaks k₀ t k f) ∧ (∀ ebx ∈ addresses, NewPage k t ebx) ∧ addresses.Nodup) := by
  induction addresses generalizing k with
  | nil =>
    obtain rfl : k = k' := Except.ok.inj hcalls
    exact ⟨h, by simp⟩
  | cons ebx l ih =>
    rw [MicroOS.sysMmaps, List.foldlM_cons, bind_eq_ok] at hcalls
    obtain ⟨q, hq, hcalls⟩ := hcalls
    obtain ⟨hebx, hl⟩ := List.forall_mem_cons.mp haddresses
    have hrunning : TaskFrames lo k₀ (k.running t).currentTask (k.running t) := h.running
    obtain ⟨hstep, hleaks, hpages⟩ := hrunning.sysMmap hebx hq
    obtain ⟨hrun, hrest⟩ := ih hstep hl hcalls
    have hcurrent : (k.running t).currentTask = t := rfl
    simp only [hcurrent, leaks_running, NewPage, userPage_running] at hleaks hpages
    refine ⟨hrun, ?_⟩
    rw [hrest, hleaks, List.forall_mem_cons, List.nodup_cons]
    simp only [NewPage]
    constructor
    · rintro ⟨⟨hno, hal, hpage⟩, hl, hnodup⟩
      refine ⟨hno, ⟨⟨hal, hpage⟩, fun a ha => ⟨(hl a ha).1, fun hc => ?_⟩⟩, fun hmem => ?_,
        hnodup⟩
      · exact (hl a ha).2 ((hpages hal a).mpr (Or.inl hc))
      · exact (hl ebx hmem).2 ((hpages hal ebx).mpr (Or.inr ⟨rfl, rfl⟩))
    · rintro ⟨hno, ⟨⟨hal, hpage⟩, hl⟩, hmem, hnodup⟩
      refine ⟨⟨hno, hal, hpage⟩, fun a ha => ⟨(hl a ha).1, fun hc => ?_⟩, hnodup⟩
      rcases (hpages hal a).mp hc with hc | ⟨hpd, hpt⟩
      · exact (hl a ha).2 hc
      · exact hmem (page_eq_of_index (hl a ha).1 hal hpd hpt ▸ ha)

/-! ### `exit_task` -/

/-- **The end of a task** restores the free frames exactly when nothing was leaked. -/
lemma exitTask_restored_iff (h : TaskFrames lo k₀ t k) :
    ∃ k', exitTask k t = .ok k' ∧ (k₀.Restored k' ↔ ∀ f, ¬ Leaks k₀ t k f) := by
  obtain ⟨g, hg, hroom, hmappable⟩ := h.kernel.tasks.kernelStack t h.active
  obtain ⟨k', hexit, he⟩ :=
    exitTask_ok h.kernel.vmm h.active (h.kernel.tasks.parent t h.active) hg hroom
  have hstackOf : ∀ f, k.StackOf t f ↔ StackFrame g f := by
    intro f
    rw [Kernel.StackOf, hg, Nat.mul_div_cancel g (by norm_num)]
    exact and_iff_right h.active
  have htables : ∀ f, k'.KernelTable f ↔ k.KernelTable f := fun f =>
    exists_congr fun i => (he.owns _ _).trans (and_iff_left (by simp [Owner.space]))
  -- a table of the kernel stays in use
  have hkeep : ∀ f, k.KernelTable f → k'.pmm.Used f := by
    rintro f ⟨i, hown⟩
    refine (he.used f).mpr ⟨(h.kernel.vmm.pool_of_owns hown).2, ?_, fun hf => ?_⟩
    · rintro (⟨o, ho, hown'⟩ | ⟨j, l, x, hm, rfl⟩)
      · rw [h.kernel.vmm.inj _ _ _ hown' hown] at ho
        cases ho
      · exact (h.kernel.tasks.mapped _ _ _ x hm).not_owned h.kernel.vmm hown
    · exact (hmappable f hf).not_owned h.kernel.vmm hown
  refine ⟨k', hexit, fun hrestored f hf => ?_, fun hno f => ⟨fun hfree => ⟨fun hu => ?_, ?_⟩, ?_⟩⟩
  · refine (hrestored f).mpr ⟨hf.fresh, mt (htables f).mp hf.kernel⟩ ?_
    exact (he.used f).mpr ⟨hf.used, hf.charged, mt (hstackOf f).mpr hf.stack⟩
  · refine hfree ((he.used f).mpr ⟨h.used f hu, fun hc => (h.charged f hc).2 hu, fun hc => ?_⟩)
    exact (h.stack f ((hstackOf f).mpr hc)).2.1 hu
  · exact fun hc => hfree (hkeep f ((htables f).mp hc))
  · rintro ⟨hnew, hkernel⟩ hu
    obtain ⟨hu, hcharged, hstack⟩ := (he.used f).mp hu
    exact hno f ⟨hu, hnew, mt (htables f).mpr hkernel, hcharged, mt (hstackOf f).mp hstack⟩

/-- A program of one page, at the address that user programs are linked to. -/
def programImage : ElfImage := ⟨elfMagic, [⟨1, 0xb0000000, 0x10⟩]⟩

/-- The image has one page. -/
lemma programImage_page {virt : ℕ} (h : programImage.Page virt) : virt = 0xb0000000 := by
  obtain ⟨ph, hph, -, j, hj, rfl⟩ := h
  obtain rfl := List.mem_singleton.mp hph
  have hsize : ElfProgramHeader.realSize ⟨1, 0xb0000000, 0x10⟩ = 1 := by decide
  rw [hsize] at hj
  obtain rfl : j = 0 := by omega
  decide

/-- The pages of a stack and of arguments are three gigabytes above their frames. -/
lemma pdIndexOf_userAddress {f : ℕ} (hf : f < 0x440) :
    pdIndexOf (userAddress f) = 768 + f / 1024 := by
  rw [pdIndexOf, userAddress, wrap32, userSpaceOffset]
  omega

/-- It is valid for every kernel. -/
lemma programImage_valid (k : Kernel) : programImage.Valid k 0x440 := by
  have hslot : ∀ i, 2 ≤ i → ¬ k.MayTake 0x440 i := by
    rintro i hi ⟨-, f, hf, -, rfl⟩
    rw [pdIndexOf] at hi
    omega
  refine ⟨rfl, fun virt hvirt => ?_, fun f hf _ => ?_, fun f hf _ hvirt => ?_⟩
  · rw [programImage_page hvirt]
    exact hslot _ (by decide)
  · rw [pdIndexOf_userAddress hf]
    exact hslot _ (by omega)
  · have hpd := pdIndexOf_userAddress hf
    rw [programImage_page hvirt] at hpd
    have hindex : pdIndexOf 0xb0000000 = 704 := by decide
    omega

/-- `init_elf` with it. -/
lemma program_spawned : ∃ k₀ k₁ pid, VmmStarted bootLayout k₀
    ∧ k₀.pmm.RunBelow 0x440 (spawnPages programImage 0 0)
    ∧ initElf k₀ 1 programImage 0 0 = .ok (k₁, pid) ∧ (k₀.tasks 0).active = false
    ∧ (k₁.tasks 0).active = true ∧ k₁.running 0 = k₁
    ∧ Ready bootLayout.poolFrame {0, 1} 0x440 20 52 k₁ := by
  obtain ⟨k₀, hstart, hready₀, htasks, hcurrent, -⟩ := machine_starts
  have hfirst : k₀.tasks.firstInactive = some 0 := by
    rw [htasks]
    rfl
  have hpages : ∀ virt, programImage.Page virt → pdIndexOf virt ∉ ({0, 1} : Finset ℕ) := by
    intro virt hvirt
    rw [programImage_page hvirt]
    decide
  have hready : Ready bootLayout.poolFrame {0, 1} 0x440
      (20 + (1 + 0) + (1 + 0) + (programImage.programHeaders.map ElfProgramHeader.pages).sum + 6)
      (kernelStackSizePages + (userStackSizePages
        + ((programImage.programHeaders.map ElfProgramHeader.pages).sum
          + (1 + (0 + (1 + (0 + 52))))))) k₀ := by
    have hsum : (programImage.programHeaders.map ElfProgramHeader.pages).sum = 1 := by decide
    rw [hsum]
    exact hready₀
  obtain ⟨k₁, hinit, hready₁, hspawned⟩ := initElf_returns machine_slots 1 hready hfirst rfl hpages
  have hcurrent₁ : k₁.currentTask = 0 := hspawned.currentTask.trans hcurrent
  refine ⟨k₀, k₁, _, hstart, ?_, hinit, ?_, hspawned.active, ?_, hready₁⟩
  · obtain ⟨f, hf, -, htop⟩ := hready₀.run
    have hsum : spawnPages programImage 0 0 = 11 := by decide
    rw [hsum]
    exact ⟨f, hf.take (by norm_num), by omega⟩
  · rw [htasks]
    rfl
  · rw [← hcurrent₁]
    rfl

/-- It calls `sys_mmap`. -/
lemma program_sysMmap (ebx : ℕ) (hrunning : k.running 0 = k) (hactive : (k.tasks 0).active = true)
    (hready : Ready bootLayout.poolFrame {0, 1} 0x440 20 52 k) (hv : ebx < 2 ^ 32)
    (hslot : pdIndexOf ebx ∉ ({0, 1} : Finset ℕ)) : ∃ k', sysMmaps 0 k [ebx] = .ok k' := by
  have hcurrent : k.currentTask = 0 := (congrArg Kernel.currentTask hrunning).symm
  have hready : Ready bootLayout.poolFrame {0, 1} 0x440 (19 + 1) (1 + 51) k := hready
  obtain ⟨k', hcall, -, -⟩ := hready.sysMmap ebx (by rw [hcurrent]; exact hactive) hv hslot
  refine ⟨k', ?_⟩
  rw [sysMmaps, List.foldlM_cons, hrunning, hcall]
  rfl

end MicroOS
