import MicroOS.Lib.Slots
import MicroOS.Syscall.Process

/-!
Frames that tasks map, over runs of `init_elf`, `sys_mmap`, `sys_mmmap` and `exit_task`.

* `FramesInv` is the invariant, with the frames that a creation under way holds: the frames that
  tasks map and those of their kernel stacks are in use, and no task maps a frame of a stack;
  `FramesInv.spawnStep` and `FramesInv.exitTask` are its step lemmas;
* `TaskCall`: the calls of a run; `TaskCall.Meets`: a creation finds its frames, and no task ends
  while another one maps a frame of it;
* `mapped_used`: the frames that tasks map are in use in such runs;
* `mapped_free`: `sys_mmmap` maps a frame for two tasks, and the end of one of them frees it.
-/

namespace MicroOS

open ByteMem Checked PageEntry Relation Run

variable {lo : ℕ} {k k' : Kernel} {t : Fin maxTasks} {img : ℕ → Prop} {s s' : Spawn}

/-! ### The invariant -/

/-- A frame of the kernel stack of an active task. -/
def Kernel.StackOf (k : Kernel) (t : Fin maxTasks) (f : ℕ) : Prop :=
  (k.tasks t).active = true ∧ StackFrame ((k.tasks t).stack / 0x1000) f

/-- **The frames of the tasks**, while a creation holds some. -/
structure FramesInv (s : Spawn) : Prop where
  nodup : s.held.Nodup
  held : ∀ f ∈ s.held, s.kernel.pmm.Used f
  mapped : ∀ t i j x, s.kernel.Maps (some t) i j x →
    s.kernel.pmm.Used (base x / 0x1000) ∧ base x / 0x1000 ∉ s.held
  stack : ∀ t f, s.kernel.StackOf t f → s.kernel.pmm.Used f ∧ f ∉ s.held
    ∧ ∀ u i j x, s.kernel.Maps (some u) i j x → base x / 0x1000 ≠ f
  distinct : ∀ t u f, s.kernel.StackOf t f → s.kernel.StackOf u f → t = u

namespace FramesInv

/-- No task maps more, and nothing is freed. -/
lemma mono {rest : Multiset ℕ} {n : ℕ} (h : FramesInv s) (hrest : rest ≤ s.held)
    (hused : ∀ f, s.kernel.pmm.Used f → k'.pmm.Used f)
    (hmaps : ∀ t i j x, k'.Maps (some t) i j x → s.kernel.Maps (some t) i j x)
    (hstack : ∀ t f, k'.StackOf t f → s.kernel.StackOf t f) : FramesInv ⟨k', rest, n⟩ := by
  refine ⟨Multiset.nodup_of_le hrest h.nodup, fun f hf => ?_, fun t i j x hm => ?_,
    fun t f hf => ?_, fun t u f hf hf' => h.distinct t u f (hstack t f hf) (hstack u f hf')⟩
  · exact hused f (h.held f (Multiset.mem_of_le hrest hf))
  · obtain ⟨hu, hno⟩ := h.mapped t i j x (hmaps t i j x hm)
    exact ⟨hused _ hu, fun hc => hno (Multiset.mem_of_le hrest hc)⟩
  · obtain ⟨hu, hno, hfree⟩ := h.stack t f (hstack t f hf)
    exact ⟨hused f hu, fun hc => hno (Multiset.mem_of_le hrest hc),
      fun u i j x hm => hfree u i j x (hmaps u i j x hm)⟩

lemma stackOf_of_tasks (htasks : k'.tasks = k.tasks) (t : Fin maxTasks) (f : ℕ) :
    k'.StackOf t f ↔ k.StackOf t f := by
  rw [Kernel.StackOf, Kernel.StackOf, htasks]

/-- Frames that were free are held. -/
lemma alloc {pmm : Pmm} {new : Multiset ℕ} {n : ℕ} (h : FramesInv s) (hnew : new.Nodup)
    (hfree : ∀ f ∈ new, ¬ s.kernel.pmm.Used f)
    (hused : ∀ f, pmm.Used f ↔ f ∈ new ∨ s.kernel.pmm.Used f) :
    FramesInv ⟨{ s.kernel with pmm }, new + s.held, n⟩ := by
  have hkeep : ∀ f, s.kernel.pmm.Used f → f ∉ s.held → f ∉ new + s.held := fun f hu hno hc =>
    (Multiset.mem_add.mp hc).elim (fun hc => hfree f hc hu) hno
  refine ⟨?_, fun f hf => ?_, fun t i j x hm => ?_, fun t f hf => ?_, h.distinct⟩
  · refine Multiset.nodup_add.mpr ⟨hnew, h.nodup, ?_⟩
    exact Multiset.disjoint_left.mpr fun {f} hf hf' => hfree f hf (h.held f hf')
  · exact (hused f).mpr ((Multiset.mem_add.mp hf).imp_right (h.held f))
  · obtain ⟨hu, hno⟩ := h.mapped t i j x ((maps_pmm pmm _ i j x).mp hm)
    exact ⟨(hused _).mpr (Or.inr hu), hkeep _ hu hno⟩
  · obtain ⟨hu, hno, hmaps⟩ := h.stack t f hf
    exact ⟨(hused f).mpr (Or.inr hu), hkeep f hu hno,
      fun u i j x hm => hmaps u i j x ((maps_pmm pmm _ i j x).mp hm)⟩

/-- A page is mapped for a task, with a frame in use that is not held and of no stack. -/
lemma map {pd pt e n : ℕ} {fresh : Option ℕ} {rest : Multiset ℕ} (h : FramesInv s)
    (he : MapEffect lo s.kernel (some t) pd pt e fresh k') (hrest : rest ≤ s.held)
    (hused : s.kernel.pmm.Used (base e / 0x1000)) (hheld : base e / 0x1000 ∉ rest)
    (hstack : ∀ u, ¬ s.kernel.StackOf u (base e / 0x1000)) : FramesInv ⟨k', rest, n⟩ := by
  have hmono : ∀ f, s.kernel.pmm.Used f → k'.pmm.Used f :=
    fun f hf => (he.pmm.used f).mpr (Or.inr hf)
  refine ⟨Multiset.nodup_of_le hrest h.nodup, fun f hf => ?_, fun u i j x hm => ?_,
    fun u f hf => ?_, fun u v f hf hf' => ?_⟩
  · exact hmono f (h.held f (Multiset.mem_of_le hrest hf))
  · rcases (he.maps _ i j x).mp hm with ⟨-, -, -, rfl, -⟩ | ⟨hm, -⟩
    · exact ⟨hmono _ hused, hheld⟩
    · obtain ⟨hu, hno⟩ := h.mapped u i j x hm
      exact ⟨hmono _ hu, fun hc => hno (Multiset.mem_of_le hrest hc)⟩
  · have hf := (stackOf_of_tasks he.tasks u f).mp hf
    obtain ⟨hu, hno, hmaps⟩ := h.stack u f hf
    refine ⟨hmono f hu, fun hc => hno (Multiset.mem_of_le hrest hc), fun v i j x hm => ?_⟩
    rcases (he.maps _ i j x).mp hm with ⟨-, -, -, rfl, -⟩ | ⟨hm, -⟩
    · rintro rfl
      exact hstack u hf
    · exact hmaps v i j x hm
  · exact h.distinct u v f ((stackOf_of_tasks he.tasks u f).mp hf)
      ((stackOf_of_tasks he.tasks v f).mp hf')

/-- The task is there, with a kernel stack of frames that were held. -/
lemma create {task : Task} {g n : ℕ} {rest : Multiset ℕ} (h : FramesInv s)
    (he : CreateEffect lo s.kernel t task k') (hstack : task.stack = g * 0x1000)
    (hheld : s.held = (List.range' g kernelStackSizePages : Multiset ℕ) + rest) :
    FramesInv ⟨k', rest, n⟩ := by
  have hmono : ∀ f, s.kernel.pmm.Used f → k'.pmm.Used f :=
    fun f hf => (he.used f).mpr (Or.inl hf)
  have hrest : ∀ f ∈ rest, f ∈ s.held := fun f hf => by
    rw [hheld]
    exact Multiset.mem_add.mpr (Or.inr hf)
  have hnodup := h.nodup
  rw [hheld, Multiset.nodup_add] at hnodup
  -- a frame of a stack is one of the new task's, which was held, or of an old stack
  have hcases : ∀ u f, k'.StackOf u f → (u = t ∧ f ∈ s.held ∧ f ∉ rest)
      ∨ (u ≠ t ∧ s.kernel.StackOf u f) := by
    intro u f hf
    rw [Kernel.StackOf, he.tasks] at hf
    by_cases hu : u = t
    · subst hu
      rw [Function.update_self, hstack, Nat.mul_div_cancel g (by norm_num)] at hf
      have hmem : f ∈ (List.range' g kernelStackSizePages : Multiset ℕ) :=
        Multiset.mem_coe.mpr (List.mem_range'_1.mpr hf.2)
      refine Or.inl ⟨rfl, ?_, fun hc => Multiset.disjoint_left.mp hnodup.2.2 hmem hc⟩
      rw [hheld]
      exact Multiset.mem_add.mpr (Or.inl hmem)
    · rw [Function.update_of_ne hu] at hf
      exact Or.inr ⟨hu, hf⟩
  refine ⟨hnodup.2.1, fun f hf => hmono f (h.held f (hrest f hf)), fun u i j x hm => ?_,
    fun u f hf => ?_, fun u v f hf hf' => ?_⟩
  · obtain ⟨hu, hno⟩ := h.mapped u i j x ((he.maps _ i j x).mp hm)
    exact ⟨hmono _ hu, fun hc => hno (hrest _ hc)⟩
  · rcases hcases u f hf with ⟨-, hf, hno⟩ | ⟨-, hf⟩
    · refine ⟨hmono f (h.held f hf), hno, fun v i j x hm => ?_⟩
      rintro rfl
      exact (h.mapped v i j x ((he.maps _ i j x).mp hm)).2 hf
    · obtain ⟨hu, hno, hmaps⟩ := h.stack u f hf
      exact ⟨hmono f hu, fun hc => hno (hrest f hc),
        fun v i j x hm => hmaps v i j x ((he.maps _ i j x).mp hm)⟩
  · rcases hcases u f hf with ⟨rfl, hmem, -⟩ | ⟨hu, hold⟩
    · rcases hcases v f hf' with ⟨rfl, -, -⟩ | ⟨-, hold'⟩
      · rfl
      · exact absurd hmem (h.stack v f hold').2.1
    · rcases hcases v f hf' with ⟨rfl, hmem, -⟩ | ⟨-, hold'⟩
      · exact absurd hmem (h.stack u f hold).2.1
      · exact h.distinct u v f hold hold'

/-- **A step of a creation**, when there are enough free frames in one run. -/
lemma spawnStep (h : FramesInv s) (hrun : s.kernel.pmm.HasRun s.quota)
    (hstep : SpawnStep lo t img s s') : FramesInv s' := by
  cases hstep with
  | task task same =>
    refine h.mono le_rfl (fun f hf => hf) (fun u i j x hm => (withTask_maps same _ i j x).mp hm)
      fun u f hf => ?_
    have hu : (s.kernel.tasks u).active = true := (withTask_active same u).symm.trans hf.1
    exact ⟨hu, withTask_stack same hu ▸ hf.2⟩
  | @range f n pmm le run first becomes =>
    refine h.alloc (Multiset.coe_nodup.mpr (List.nodup_range' ..)) (fun g hg => ?_) fun g => ?_
    · obtain ⟨h1, h2⟩ := List.mem_range'_1.mp (Multiset.mem_coe.mp hg)
      exact (run.free g h1 h2).1
    · rw [becomes.used g, Multiset.mem_coe, List.mem_range'_1]
  | nullRange le noRun =>
    -- the quota has a run of frames, so no request is refused
    obtain ⟨f, hf⟩ := hrun
    exact absurd (hf.take le) (noRun f)
  | @grow k' grows maps =>
    exact h.mono le_rfl (fun f hf => (grows.used f).mpr (Or.inl hf))
      (fun u i j x hm => ((grows.maps u i j x).mp hm).1)
      fun u f hf => (stackOf_of_tasks grows.tasks u f).mp hf
  | @create k' task g rest effect active parent stack room held =>
    exact h.create effect stack held
  | @map k' virt f fresh rest lt bound held effect place =>
    have hframe : base (f * 0x1000 ||| userFlags) / 0x1000 = f := base_frame bound (by decide)
    have hf : f ∈ s.held := held ▸ Multiset.mem_cons_self f rest
    have hnodup := h.nodup
    rw [held, Multiset.nodup_cons] at hnodup
    refine h.map effect (held ▸ Multiset.le_cons_self rest f) ?_ ?_ ?_
    · rw [hframe]
      exact h.held f hf
    · rw [hframe]
      exact hnodup.1
    · rw [hframe]
      exact fun u hu => (h.stack u f hu).2.1 hf
  | @free f pmm rest held becomes =>
    have hf : f ∈ s.held := held ▸ Multiset.mem_cons_self f rest
    have hnodup := h.nodup
    rw [held, Multiset.nodup_cons] at hnodup
    have hrest : ∀ g ∉ s.held, g ∉ rest := fun g hg hc => hg (held ▸ Multiset.mem_cons_of_mem hc)
    have hkeep : ∀ g, s.kernel.pmm.Used g → g ≠ f → pmm.Used g := fun g hg hne =>
      (becomes.used g).mpr ⟨hne, hg⟩
    refine ⟨hnodup.2, fun g hg => ?_, fun u i j x hm => ?_, fun u g hg => ?_, h.distinct⟩
    · refine hkeep g (h.held g (held ▸ Multiset.mem_cons_of_mem hg)) ?_
      rintro rfl
      exact hnodup.1 hg
    · obtain ⟨hu, hno⟩ := h.mapped u i j x ((maps_pmm pmm _ i j x).mp hm)
      exact ⟨hkeep _ hu fun hc => hno (hc ▸ hf), hrest _ hno⟩
    · obtain ⟨hu, hno, hmaps⟩ := h.stack u g hg
      exact ⟨hkeep g hu fun hc => hno (hc ▸ hf), hrest g hno,
        fun v i j x hm => hmaps v i j x ((maps_pmm pmm _ i j x).mp hm)⟩

/-- The steps of a creation. -/
lemma spawnSteps (h : FramesInv s) (hrun : s.kernel.pmm.HasRun s.quota)
    (hsteps : SpawnSteps lo t img s s') : FramesInv s' := by
  induction hsteps with
  | refl => exact h
  | tail hsteps hstep ih => exact ih.spawnStep (hasRun_steps hsteps hrun) hstep

/-- A page is mapped for an active task. -/
lemma mapTask {virt f n : ℕ} {held rest : Multiset ℕ} (h : FramesInv ⟨k, held, n⟩)
    (hi : VmmInv lo k) (ht : (k.tasks t).active = true) (hv : virt < 2 ^ 32) (hf : f < frameCount)
    (hrest : rest ≤ held) (hused : k.pmm.Used f) (hheld : f ∉ rest)
    (hstack : ∀ u, ¬ k.StackOf u f)
    (hmap : mapPage k (k.tasks t).context virt (f * 0x1000) userFlags = .ok k') :
    FramesInv ⟨k', rest, n⟩ := by
  have hframe : base (f * 0x1000 ||| userFlags) / 0x1000 = f := base_frame hf (by decide)
  have hroot : k.Root (some t) (k.tasks t).context := ⟨ht, rfl⟩
  rcases mapPage_effect hi hroot hv (by decide) hmap with ⟨-, rfl⟩ | ⟨-, -, fresh, he⟩
  · exact h.mono hrest (fun _ hg => hg) (fun _ _ _ _ hm => hm) fun _ _ hg => hg
  · exact h.map he hrest (hframe.symm ▸ hused) (hframe.symm ▸ hheld) (hframe.symm ▸ hstack)

end FramesInv

/-! ### The end of a task -/

/-- No other task maps a frame that the task maps. -/
def Kernel.MapsAlone (k : Kernel) (t : Fin maxTasks) : Prop :=
  ∀ u ≠ t, ∀ i j x i' j' x', k.Maps (some t) i j x → k.Maps (some u) i' j' x' →
    base x / 0x1000 ≠ base x' / 0x1000

/-- **`exit_task`**, where no other task maps a frame of the task. -/
lemma FramesInv.exitTask {n m : ℕ} (h : FramesInv ⟨k, 0, n⟩) (hi : KernelInv lo k)
    (ht : (k.tasks t).active = true) (halone : k.MapsAlone t)
    (hexit : MicroOS.exitTask k t = .ok k') : FramesInv ⟨k', 0, m⟩ := by
  obtain ⟨g, hg, hroom, -⟩ := hi.tasks.kernelStack t ht
  obtain ⟨q, hq, he⟩ := exitTask_ok hi.vmm ht (hi.tasks.parent t ht) hg hroom
  obtain rfl : q = k' := Except.ok.inj (hq.symm.trans hexit)
  have hstackOf : ∀ f, StackFrame g f → k.StackOf t f := fun f hf => by
    refine ⟨ht, ?_⟩
    rwa [hg, Nat.mul_div_cancel g (by norm_num)]
  -- what the task is charged with, besides the pages of the pool, is what it maps
  have hcharged : ∀ f, Mappable lo f → k.Charged t f →
      ∃ i j x, k.Maps (some t) i j x ∧ f = base x / 0x1000 := by
    rintro f hf (⟨o, -, hown⟩ | hmap)
    · exact absurd ((hi.vmm.guarded.pool f).mp (hi.vmm.pool_of_owns hown).1) hf.1
    · exact hmap
  have hold : ∀ u f, q.StackOf u f → u ≠ t ∧ k.StackOf u f := by
    rintro u f ⟨hu, hf⟩
    have hut : u ≠ t := by
      rintro rfl
      rw [he.tasks, Function.update_self] at hu
      cases hu
    rw [he.tasks, Function.update_of_ne hut] at hu hf
    exact ⟨hut, hu, hf⟩
  refine ⟨Multiset.nodup_zero, fun f hf => absurd hf (Multiset.notMem_zero f), fun u i j x hm => ?_,
    fun u f hf => ?_, fun u v f hf hf' => h.distinct u v f (hold u f hf).2 (hold v f hf').2⟩
  · obtain ⟨hm, hut⟩ := (he.maps _ i j x).mp hm
    refine ⟨(he.used _).mpr ⟨(h.mapped u i j x hm).1, fun hc => ?_, fun hc => ?_⟩,
      Multiset.notMem_zero _⟩
    · obtain ⟨i', j', x', hm', heq⟩ := hcharged _ (hi.tasks.mapped u i j x hm) hc
      exact halone u (fun hc => hut (congrArg some hc)) i' j' x' i j x hm' hm heq.symm
    · exact (h.stack t _ (hstackOf _ hc)).2.2 u i j x hm rfl
  · obtain ⟨hut, hf⟩ := hold u f hf
    obtain ⟨hu, -, hmaps⟩ := h.stack u f hf
    obtain ⟨g', hg', -, hmappable⟩ := hi.tasks.kernelStack u hf.1
    have hin : StackFrame g' f := by
      have hframe := hf.2
      rwa [hg', Nat.mul_div_cancel g' (by norm_num)] at hframe
    refine ⟨(he.used f).mpr ⟨hu, fun hc => ?_, fun hc => ?_⟩, Multiset.notMem_zero f,
      fun v i j x hm => hmaps v i j x ((he.maps _ i j x).mp hm).1⟩
    · obtain ⟨i', j', x', hm', heq⟩ := hcharged f (hmappable f hin) hc
      exact hmaps t i' j' x' hm' heq.symm
    · exact hut (h.distinct u t f hf (hstackOf f hc))

/-! ### The calls -/

/-- Ownership does not depend on the task that runs. -/
lemma owns_running (t : Fin maxTasks) (o : Owner) (p : ℕ) :
    (k.running t).Owns o p ↔ k.Owns o p := by
  constructor
  · intro h
    cases h with
    | context root => exact .context root
    | dir root => exact .dir root
    | table root lt present own => exact .table root lt present own
  · intro h
    cases h with
    | context root => exact .context root
    | dir root => exact Kernel.Owns.dir (k := k.running t) root
    | table root lt present own =>
      exact Kernel.Owns.table (k := k.running t) root lt present own

lemma maps_running (t : Fin maxTasks) (s : Space) (i j x : ℕ) :
    (k.running t).Maps s i j x ↔ k.Maps s i j x :=
  exists_congr fun p => and_congr_left fun _ => owns_running t _ p

/-- It is no part of the invariant. -/
lemma KernelInv.running (hi : KernelInv lo k) (t : Fin maxTasks) : KernelInv lo (k.running t) := by
  have hv := hi.vmm
  refine ⟨⟨hv.guarded, fun o p h => hv.owned o p ((owns_running t o p).mp h),
    fun o o' p h h' => hv.inj o o' p ((owns_running t o p).mp h) ((owns_running t o' p).mp h'),
    hv.sync⟩, hi.low, hi.tasks.mono (fun u i j x hm => (maps_running t _ i j x).mp hm) rfl⟩

/-- **A call** that is made by a task, or ends it. -/
inductive TaskCall where
  | initElf (term : ℤ) (image : ElfImage) (numArgv numEnvp : ℕ)
  | sysMmap (t : Fin maxTasks) (ebx : ℕ)
  | sysMmmap (t : Fin maxTasks) (null : Task) (ebx ecx : ℕ) (edx : ℤ)
  | exitTask (t : Fin maxTasks)

namespace TaskCall

/-- What a call does. -/
def step (k : Kernel) : TaskCall → Except Halt Kernel
  | initElf term image numArgv numEnvp =>
    Prod.fst <$> MicroOS.initElf k term image numArgv numEnvp
  | sysMmap t ebx => MicroOS.sysMmap (k.running t) ebx
  | sysMmmap t null ebx ecx edx => MicroOS.sysMmmap (k.running t) null ebx ecx edx
  | exitTask t => MicroOS.exitTask k t

/-- The address starts a page that the task does not map. -/
def Unmapped (k : Kernel) (t : Fin maxTasks) (virt : ℕ) : Prop :=
  virt < 2 ^ 32 ∧ virt % 0x1000 = 0 ∧ ∀ x, ¬ k.Maps (some t) (pdIndexOf virt) (ptIndexOf virt) x

/-- The calls that are made: by tasks that are active, with addresses of pages that are not
mapped. -/
def Allowed (k : Kernel) : TaskCall → Prop
  | initElf .. => True
  | sysMmap t ebx => (k.tasks t).active = true ∧ Unmapped k t ebx
  | sysMmmap t _ ebx ecx edx => (k.tasks t).active = true ∧ Unmapped k t ebx ∧ ecx < 2 ^ 32
      ∧ ∀ u, k.tasks.byPid edx = some u → Unmapped k u ecx
  | exitTask t => (k.tasks t).active = true

/-- **The condition**: a creation finds its frames, and a task that ends, also by a call of
`sys_mmmap` for no task, shares no frame; such a call meets a page fault. -/
def Meets (k : Kernel) : TaskCall → Prop
  | initElf _ image numArgv numEnvp => k.pmm.HasRun (spawnPages image numArgv numEnvp)
  | sysMmap .. => True
  | sysMmmap t _ _ _ edx => k.tasks.byPid edx = none → k.MapsAlone t ∧ ¬(k.running t).NullMapped
  | exitTask t => k.MapsAlone t

end TaskCall

/-- What holds in every state of a run. -/
structure RunInv (lo : ℕ) (k : Kernel) : Prop where
  kernel : KernelInv lo k
  frames : FramesInv ⟨k, 0, 0⟩
  table : k.HasTable none 0

namespace RunInv

/-- Nor of that of the runs. -/
lemma running (h : RunInv lo k) (t : Fin maxTasks) : RunInv lo (k.running t) :=
  ⟨h.kernel.running t, h.frames.mono le_rfl (fun _ hf => hf)
    (fun _ i j x hm => (maps_running t _ i j x).mp hm) fun _ _ hf => hf,
    (exists_congr fun p => owns_running t _ p).mpr h.table⟩

/-- `init_elf`. -/
lemma initElf {term pid : ℤ} {image : ElfImage} {numArgv numEnvp : ℕ} (h : RunInv lo k)
    (hrun : k.pmm.HasRun (spawnPages image numArgv numEnvp))
    (hcall : initElf k term image numArgv numEnvp = .ok (k', pid)) : RunInv lo k' := by
  by_cases hmagic : image.magic = elfMagic
  · obtain ⟨t, -, -, -, hsteps⟩ := initElf_steps h.kernel.vmm h.kernel.low hrun hmagic hcall
    have hs : SpawnInv lo ⟨k, 0, spawnPages image numArgv numEnvp⟩ :=
      ⟨h.kernel.vmm, h.kernel.low, by simp⟩
    have hstart : FramesInv ⟨k, 0, spawnPages image numArgv numEnvp⟩ :=
      h.frames.mono le_rfl (fun _ hf => hf) (fun _ _ _ _ hm => hm) fun _ _ hf => hf
    exact ⟨h.kernel.spawnSteps hs hsteps, hstart.spawnSteps hrun hsteps, hsteps.hasTable h.table⟩
  · rw [MicroOS.initElf, if_pos hmagic] at hcall
    obtain ⟨rfl, -⟩ := Prod.mk.inj (Except.ok.inj hcall)
    exact h

/-- A frame that `pmm_alloc` hands out is held, and of no stack. -/
lemma pmmAlloc {pmm : Pmm} {page : ℕ} (h : RunInv lo k)
    (halloc : MicroOS.pmmAlloc k.pmm = .ok (pmm, page)) :
    ∃ f < frameCount, page = f * 0x1000 ∧ Mappable lo f ∧ pmm.Used f
      ∧ (∀ u, ¬ k.StackOf u f) ∧ KernelInv lo { k with pmm }
      ∧ FramesInv ⟨{ k with pmm }, {f}, 0⟩ := by
  rcases allocFrame_spec k.pmm false with ⟨ha, -⟩ | ⟨f, q, ha, hf, hfit, hfirst, hb⟩
  · cases ha.symm.trans halloc
  obtain ⟨rfl, rfl⟩ := Prod.mk.inj (Except.ok.inj (ha.symm.trans halloc))
  refine ⟨f, hf, rfl, hfit.mappable h.kernel.vmm.guarded, (hb.used f).mpr (Or.inl rfl),
    fun u hu => hfit.1 (h.frames.stack u f hu).1, h.kernel.pmmAlloc halloc, ?_⟩
  exact h.frames.alloc (Multiset.nodup_singleton f)
    (fun g hg => by rw [Multiset.mem_singleton.mp hg]; exact hfit.1)
    fun g => by rw [hb.used, Multiset.mem_singleton]

/-- A frame that was handed out is mapped. -/
lemma mapPage {virt f : ℕ} {held : Multiset ℕ} (hi : KernelInv lo k) (h : FramesInv ⟨k, held, 0⟩)
    (ht : (k.tasks t).active = true) (hv : virt < 2 ^ 32) (hf : f < frameCount)
    (hmappable : Mappable lo f) (hused : k.pmm.Used f) (hstack : ∀ u, ¬ k.StackOf u f)
    (htable : k.HasTable none 0)
    (hmap : MicroOS.mapPage k (k.tasks t).context virt (f * 0x1000) userFlags = .ok k') :
    RunInv lo k' ∧ k'.tasks = k.tasks ∧ k'.pmm.Used f := by
  have hphys : f * 0x1000 < 2 ^ 32 := by
    rw [frameCount] at hf
    omega
  have hdiv : f * 0x1000 / 0x1000 = f := Nat.mul_div_cancel f (by norm_num)
  have hroot : k.Root (some t) (k.tasks t).context := ⟨ht, rfl⟩
  have hframes := h.mapTask hi.vmm ht hv hf (Multiset.zero_le held) hused (Multiset.notMem_zero f)
    hstack hmap
  have hkernel := hi.mapTask ht hv hphys (by decide) (hdiv.symm ▸ hmappable) hmap
  rcases mapPage_effect hi.vmm hroot hv (by decide) hmap with ⟨-, rfl⟩ | ⟨-, -, fresh, he⟩
  · exact ⟨⟨hkernel, hframes, htable⟩, rfl, hused⟩
  · obtain ⟨p, hp⟩ := htable
    exact ⟨⟨hkernel, hframes, p, (he.owns _ p).mpr (Or.inl ⟨hp, fun hl => by cases hl⟩)⟩,
      (mapPage_same hmap).tasks, (he.pmm.used f).mpr (Or.inr hused)⟩

/-- A task maps a frame that was handed out to it alone. -/
lemma mapsAlone_mapPage {virt f : ℕ} (hi : KernelInv lo k) (h : FramesInv ⟨k, {f}, 0⟩)
    (ht : (k.tasks t).active = true) (hv : virt < 2 ^ 32) (hf : f < frameCount)
    (halone : k.MapsAlone t)
    (hmap : MicroOS.mapPage k (k.tasks t).context virt (f * 0x1000) userFlags = .ok k') :
    k'.MapsAlone t := by
  have hframe : base (f * 0x1000 ||| userFlags) / 0x1000 = f := base_frame hf (by decide)
  have hroot : k.Root (some t) (k.tasks t).context := ⟨ht, rfl⟩
  rcases mapPage_effect hi.vmm hroot hv (by decide) hmap with ⟨-, rfl⟩ | ⟨-, -, fresh, he⟩
  · exact halone
  intro u hu i j x i' j' x' hm hm' heq
  rcases (he.maps _ i' j' x').mp hm' with ⟨hut, -⟩ | ⟨hm', -⟩
  · exact hu (Option.some.inj hut)
  rcases (he.maps _ i j x).mp hm with ⟨-, -, -, rfl, -⟩ | ⟨hm, -⟩
  · refine (h.mapped u i' j' x' hm').2 ?_
    rw [← heq, hframe]
    exact Multiset.mem_singleton_self f
  · exact halone u hu i j x i' j' x' hm hm' heq

/-- `sys_mmap`. -/
lemma sysMmap {ebx : ℕ} (h : RunInv lo k) (ht : (k.tasks k.currentTask).active = true)
    (hv : ebx < 2 ^ 32) (hcall : sysMmap k ebx = .ok k') : RunInv lo k' := by
  rw [MicroOS.sysMmap] at hcall
  obtain ⟨⟨pmm, page⟩, halloc, hmap⟩ := bind_eq_ok.mp hcall
  obtain ⟨f, hf, rfl, hmappable, hused, hstack, hi, hframes⟩ := h.pmmAlloc halloc
  exact (mapPage (k := { k with pmm }) hi hframes ht hv hf hmappable hused hstack
    (h.table.imp fun p => (owns_pmm pmm _ p).mpr) hmap).1

/-- `exit_task`, where the task shares no frame. -/
lemma exitTask (h : RunInv lo k) (ht : (k.tasks t).active = true) (halone : k.MapsAlone t)
    (hcall : exitTask k t = .ok k') : RunInv lo k' := by
  obtain ⟨g, hg, hroom, -⟩ := h.kernel.tasks.kernelStack t ht
  obtain ⟨q, hq, he⟩ := exitTask_ok h.kernel.vmm ht (h.kernel.tasks.parent t ht) hg hroom
  obtain rfl : q = k' := Except.ok.inj (hq.symm.trans hcall)
  exact ⟨h.kernel.exitTask ht hcall, h.frames.exitTask h.kernel ht halone hcall,
    h.table.imp fun p hp => (he.owns _ p).mpr ⟨hp, nofun⟩⟩

/-- A page that is mapped for a task is not page 0, which is in a slot of the kernel's. -/
lemma nullMapped_mapPage {virt phys : ℕ} (hi : VmmInv lo k) (htable : k.HasTable none 0)
    (ht : (k.tasks k.currentTask).active = true) (hv : virt < 2 ^ 32)
    (hmap : MicroOS.mapPage k (k.tasks k.currentTask).context virt phys userFlags = .ok k')
    (hnull : k'.NullMapped) : k.NullMapped := by
  have hroot : k.Root (some k.currentTask) (k.tasks k.currentTask).context := ⟨ht, rfl⟩
  rcases mapPage_effect hi hroot hv (by decide) hmap with ⟨-, rfl⟩ | ⟨-, -, fresh, he⟩
  · exact hnull
  have ht' : (k'.tasks k'.currentTask).active = true := by
    rw [he.tasks, he.currentTask]
    exact ht
  obtain ⟨p, hp⟩ := htable
  have htable' : k'.HasTable none 0 := ⟨p, (he.owns _ p).mpr (Or.inl ⟨hp, fun hl => by cases hl⟩)⟩
  obtain ⟨x, hx⟩ := (nullMapped_iff he.inv ht' htable').mp hnull
  rcases (he.maps none 0 0 x).mp hx with ⟨hs, -⟩ | ⟨hx, -⟩
  · cases hs
  · exact (nullMapped_iff hi ht ⟨p, hp⟩).mpr ⟨x, hx⟩

/-- `sys_mmmap`, where the task shares no frame if it is ended. -/
lemma sysMmmap {null : Task} {ebx ecx : ℕ} {edx : ℤ} (h : RunInv lo k)
    (ht : (k.tasks k.currentTask).active = true) (hv : ebx < 2 ^ 32) (hv' : ecx < 2 ^ 32)
    (halone : k.tasks.byPid edx = none → k.MapsAlone k.currentTask ∧ ¬k.NullMapped)
    (hcall : sysMmmap k null ebx ecx edx = .ok k') : RunInv lo k' := by
  rw [MicroOS.sysMmmap] at hcall
  obtain ⟨⟨pmm, page⟩, halloc, hcall⟩ := bind_eq_ok.mp hcall
  obtain ⟨k₁, hmap, hcall⟩ := bind_eq_ok.mp hcall
  obtain ⟨f, hf, rfl, hmappable, hused, hstack, hi, hframes⟩ := h.pmmAlloc halloc
  have htable : ({ k with pmm } : Kernel).HasTable none 0 :=
    h.table.imp fun p => (owns_pmm pmm _ p).mpr
  obtain ⟨h₁, htasks, hused₁⟩ :=
    mapPage (k := { k with pmm }) hi hframes ht hv hf hmappable hused hstack htable hmap
  have htasks : k₁.tasks = k.tasks := htasks
  have hcurrent : k₁.currentTask = k.currentTask := (mapPage_same hmap).currentTask
  cases hpid : k.tasks.byPid edx with
  | none =>
    obtain ⟨halone, hnull⟩ := halone hpid
    rw [htasks, hpid, nullTask, if_neg fun hmapped =>
      hnull (nullMapped_mapPage (k := { k with pmm }) hi.vmm htable ht hv hmap hmapped)] at hcall
    refine h₁.exitTask ?_ ?_ hcall
    · rw [hcurrent, htasks]
      exact ht
    · rw [hcurrent]
      refine mapsAlone_mapPage (k := { k with pmm }) hi hframes ht hv hf ?_ hmap
      intro u hu i j x i' j' x' hm hm'
      exact halone u hu i j x i' j' x' ((maps_pmm pmm _ i j x).mp hm)
        ((maps_pmm pmm _ i' j' x').mp hm')
  | some u =>
    rw [htasks, hpid] at hcall
    have hactive : (k₁.tasks u).active = true := by
      rw [htasks]
      exact (Tasks.byPid_spec hpid).1
    rw [← htasks] at hcall
    refine (mapPage h₁.kernel h₁.frames hactive hv' hf hmappable hused₁ (fun v hv => ?_) h₁.table
      hcall).1
    exact hstack v ((FramesInv.stackOf_of_tasks htasks v f).mp hv)

/-- **The step lemma.** -/
lemma step {c : TaskCall} (h : RunInv lo k) (hallowed : c.Allowed k) (hmeets : c.Meets k)
    (hstep : c.step k = .ok k') : RunInv lo k' := by
  cases c with
  | initElf term image numArgv numEnvp =>
    rw [TaskCall.step] at hstep
    cases hcall : MicroOS.initElf k term image numArgv numEnvp with
    | error e => simp [hcall] at hstep
    | ok r =>
      obtain rfl : r.1 = k' := by simpa [hcall] using hstep
      exact h.initElf hmeets hcall
  | sysMmap t ebx => exact (h.running t).sysMmap hallowed.1 hallowed.2.1 hstep
  | sysMmmap t null ebx ecx edx =>
    refine (h.running t).sysMmmap hallowed.1 hallowed.2.1.1 hallowed.2.2.1
      (fun hpid => ⟨?_, (hmeets hpid).2⟩) hstep
    intro u hu i j x i' j' x' hm hm'
    exact (hmeets hpid).1 u hu i j x i' j' x' ((maps_running t _ i j x).mp hm)
      ((maps_running t _ i' j' x').mp hm')
  | exitTask t => exact h.exitTask hallowed hmeets hstep

/-- The state after `vmm_init`. -/
lemma of_started {L : KernelLayout} (h : VmmStarted L k) : RunInv L.poolFrame k := by
  have htable := h.null.2.1
  obtain ⟨fuel, mb, pmm, hpmm, hvmm⟩ := h
  have hbooted := vmmInit_booted (pmmInit_guarded hpmm).1 hvmm
  have hnone : ∀ t i j x, ¬ k.Maps (some t) i j x := by
    rintro t i j x ⟨p, hp, -⟩
    exact not_owns_of_inactive (hbooted.idle t) rfl hp
  have hstack : ∀ t f, ¬ k.StackOf t f := fun t f hf => by
    have hactive := hf.1
    simp [hbooted.idle t] at hactive
  have hframes : FramesInv ⟨k, 0, 0⟩ :=
    ⟨Multiset.nodup_zero, fun f hf => absurd hf (Multiset.notMem_zero f),
      fun t i j x hm => absurd hm (hnone t i j x), fun t f hf => absurd hf (hstack t f),
      fun t u f hf => absurd hf (hstack t f)⟩
  exact ⟨KernelInv.of_booted L.poolFrame_bounds.1 hbooted, hframes, htable⟩

end RunInv

/-! ### Runs -/

/-- A step of a run, by a call that meets a condition. -/
def CallStep (C : Kernel → TaskCall → Prop) (k k' : Kernel) : Prop :=
  ∃ c : TaskCall, c.Allowed k ∧ C k c ∧ c.step k = .ok k'

/-- The frames that active tasks map are in use. -/
def Kernel.MappedUsed (k : Kernel) : Prop :=
  ∀ t i j x, k.Maps (some t) i j x → k.pmm.Used (base x / 0x1000)

/-- **The run lemma.** -/
lemma RunInv.of_reachable {L : KernelLayout}
    (hk : Reachable (VmmStarted L) (CallStep fun k c => c.Meets k) k) : RunInv L.poolFrame k := by
  refine hk.invariant _ (fun k hk => RunInv.of_started hk) ?_
  rintro k k' hi ⟨c, hallowed, hmeets, hstep⟩
  exact hi.step hallowed hmeets hstep

/-- A task has a slot of its directory without a table of its own, outside of a few slots: the pool
has fewer pages than the directory has slots. -/
lemma exists_slot (hi : VmmInv lo k) (t : Fin maxTasks) {S : Finset ℕ} (hS : S.card < 512) :
    ∃ i < 1024, i ∉ S ∧ ∀ p, ¬ k.Owns (.table (some t) i) p := by
  by_contra hno
  push Not at hno
  have htable : ∀ i ∈ Finset.range 1024 \ S, ∃ p, k.Owns (.table (some t) i) p := fun i hi => by
    obtain ⟨hlt, hni⟩ := Finset.mem_sdiff.mp hi
    exact hno i (Finset.mem_range.mp hlt) hni
  choose! page hpage using htable
  have hmaps : ∀ i ∈ Finset.range 1024 \ S,
      page i / 0x1000 ∈ Finset.Ico lo (lo + pagingDataPages) := fun i hmem =>
    Finset.mem_Ico.mpr ((hi.guarded.pool _).mp (hi.owned _ _ (hpage i hmem)).pool)
  have hinj : Set.InjOn (fun i => page i / 0x1000) (Finset.range 1024 \ S : Finset ℕ) := by
    intro i hmem j hmem' heq
    have hal := (hi.owned _ _ (hpage i hmem)).aligned
    have hal' := (hi.owned _ _ (hpage j hmem')).aligned
    have hsame : page i = page j := by
      rw [← Nat.div_mul_cancel hal, ← Nat.div_mul_cancel hal']
      exact congrArg (· * 0x1000) heq
    have hown := hpage j hmem'
    rw [← hsame] at hown
    exact (Owner.table.inj (hi.inj _ _ _ (hpage i hmem) hown)).2
  have hcard := Finset.card_le_card_of_injOn _ hmaps hinj
  have hsub := Finset.le_card_sdiff S (Finset.range 1024)
  rw [Nat.card_Ico, Nat.add_sub_cancel_left, pagingDataPages] at hcard
  rw [Finset.card_range] at hsub
  omega

/-- The first page of such a slot is not mapped. -/
lemma exists_unmapped (hi : VmmInv lo k) (t : Fin maxTasks) {S : Finset ℕ} (hS : S.card < 512) :
    ∃ virt, TaskCall.Unmapped k t virt ∧ pdIndexOf virt ∉ S := by
  obtain ⟨i, hlt, hni, hno⟩ := exists_slot hi t hS
  have hpd : pdIndexOf (i * 0x400000) = i := by
    rw [pdIndexOf]
    omega
  refine ⟨i * 0x400000, ⟨by omega, by omega, fun x hx => ?_⟩, hpd.symm ▸ hni⟩
  obtain ⟨p, hp, -⟩ := hx
  rw [hpd] at hp
  exact hno p hp

/-- An image without segments. -/
def emptyImage : ElfImage := ⟨elfMagic, []⟩

/-- `init_elf` with it returns. -/
lemma spawn_empty (pages frames : ℕ)
    (h : Ready bootLayout.poolFrame {0, 1} 0x440 (pages + 8) (10 + frames) k)
    (hfirst : k.tasks.firstInactive = some t) :
    ∃ k', CallStep (fun k c => c.Meets k) k k'
      ∧ Ready bootLayout.poolFrame {0, 1} 0x440 pages frames k' ∧ Spawned k t k' := by
  have hready : Ready bootLayout.poolFrame {0, 1} 0x440 (pages + (1 + 0) + (1 + 0)
      + (emptyImage.programHeaders.map ElfProgramHeader.pages).sum + 6)
      (kernelStackSizePages + (userStackSizePages
        + ((emptyImage.programHeaders.map ElfProgramHeader.pages).sum
          + (1 + (0 + (1 + (0 + frames))))))) k := by
    have hpages : pages + 8 = pages + (1 + 0) + (1 + 0)
      + (emptyImage.programHeaders.map ElfProgramHeader.pages).sum + 6 := rfl
    have hframes : 10 + frames = kernelStackSizePages + (userStackSizePages
        + ((emptyImage.programHeaders.map ElfProgramHeader.pages).sum
          + (1 + (0 + (1 + (0 + frames)))))) := by
      simp only [kernelStackSizePages, userStackSizePages, emptyImage, List.map_nil, List.sum_nil]
      omega
    rw [← hpages, ← hframes]
    exact h
  have hpages : ∀ virt, emptyImage.Page virt → pdIndexOf virt ∉ ({0, 1} : Finset ℕ) := by
    rintro virt ⟨ph, hph, -⟩
    exact absurd hph List.not_mem_nil
  obtain ⟨k', hcall, hready', hspawned⟩ := initElf_returns machine_slots 1 hready hfirst rfl hpages
  refine ⟨k', ⟨.initElf 1 emptyImage 0 0, trivial, ?_, ?_⟩, hready', hspawned⟩
  · obtain ⟨f, hf, -⟩ := h.run
    exact ⟨f, hf.take (Nat.le_add_right 10 frames)⟩
  · rw [TaskCall.step, hcall]
    rfl

/-- A machine with two tasks, in the first two slots. -/
lemma two_tasks : ∃ k, Reachable (VmmStarted bootLayout) (CallStep fun k c => c.Meets k) k
    ∧ Ready bootLayout.poolFrame {0, 1} 0x440 13 43 k ∧ (k.tasks 0).active = true
    ∧ (k.tasks 1).active = true ∧ k.tasks.byPid 1 = some 1 := by
  obtain ⟨k₀, hstart, hready₀, htasks, -, hpid⟩ := machine_starts
  have hfirst₀ : k₀.tasks.firstInactive = some 0 := by
    rw [htasks]
    rfl
  obtain ⟨k₁, hstep₁, hready₁, hs₁⟩ := spawn_empty 21 53 hready₀ hfirst₀
  have hold₁ : ∀ u, u ≠ 0 → (k₁.tasks u).active = false := fun u hu => by
    rw [hs₁.others u hu, htasks]
    rfl
  have hfirst₁ : k₁.tasks.firstInactive = some 1 := by
    have hlist : List.finRange maxTasks = 0 :: 1 :: (List.finRange maxTasks).drop 2 := by
      decide +kernel
    rw [Tasks.firstInactive, hlist, List.find?_cons_of_neg (by simp [hs₁.active]),
      List.find?_cons_of_pos (by simp [hold₁ 1 (by decide)])]
  obtain ⟨k₂, hstep₂, hready₂, hs₂⟩ := spawn_empty 13 43 hready₁ hfirst₁
  have hzero : k₂.tasks 0 = k₁.tasks 0 := hs₂.others 0 (by decide)
  refine ⟨k₂, (((Reachable.start hstart).next hstep₁).next hstep₂), hready₂, ?_, hs₂.active, ?_⟩
  · rw [hzero]
    exact hs₁.active
  · refine Slots.find?_eq_some (List.mem_finRange 1) fun u _ => ?_
    rw [Bool.and_eq_true, decide_eq_true_eq]
    constructor
    · rintro ⟨hactive, hone⟩
      by_contra hu
      rw [hs₂.others u hu] at hactive hone
      by_cases hu0 : u = 0
      · rw [hu0, hs₁.pid, hpid] at hone
        omega
      · rw [hold₁ u hu0] at hactive
        cases hactive
    · rintro rfl
      refine ⟨hs₂.active, ?_⟩
      rw [hs₂.pid, hs₁.currentPid, hpid]
      rfl

/-- The entry of a page that is mapped for a task is present. -/
lemma present_userEntry (f : ℕ) : Present (f * 0x1000 ||| userFlags) := by
  rw [userFlags, Nat.or_assoc ptePresent, ← Nat.or_assoc]
  exact present_tableEntry (Nat.dvd_mul_left 0x1000 f)

/-- `sys_mmmap` maps a frame for two tasks. -/
lemma sysMmmap_shares {ebx ecx pages frames : ℕ} {edx : ℤ} {u : Fin maxTasks} {S : Finset ℕ}
    {top : ℕ} (h : RunInv lo k) (hready : Ready lo S top (pages + 2) (1 + frames) k)
    (ht : (k.tasks k.currentTask).active = true) (hu : (k.tasks u).active = true)
    (hpid : k.tasks.byPid edx = some u) (hne : k.currentTask ≠ u) (hv : ebx < 2 ^ 32)
    (hv' : ecx < 2 ^ 32) (hal : ebx % 0x1000 = 0) (hal' : ecx % 0x1000 = 0)
    (hS : pdIndexOf ebx ∉ S) (hS' : pdIndexOf ecx ∉ S) :
    ∃ k' i j i' j' x, sysMmmap k Task.zero ebx ecx edx = .ok k' ∧ k'.tasks = k.tasks
      ∧ k'.Maps (some k.currentTask) i j x ∧ k'.Maps (some u) i' j' x := by
  obtain ⟨k₁, hmmap, hsame, hready₁⟩ := hready.sysMmap ebx ht hv hS
  rw [sysMmap] at hmmap
  obtain ⟨⟨pmm, page⟩, halloc, hmap⟩ := bind_eq_ok.mp hmmap
  obtain ⟨f, hf, rfl, -, -, -, hi, -⟩ := h.pmmAlloc halloc
  have hu₁ : (k₁.tasks u).active = true := by
    rw [hsame.tasks]
    exact hu
  obtain ⟨k₂, hmap₂, hsame₂, -⟩ :=
    hready₁.mapTask ecx (f * 0x1000) userFlags hu₁ hv' (by decide) hS'
  have hphys : f * 0x1000 % 0x1000 = 0 := Nat.mul_mod_left f 0x1000
  have hroot : ({ k with pmm } : Kernel).Root (some k.currentTask)
      (k.tasks k.currentTask).context := ⟨ht, rfl⟩
  have hroot₁ : k₁.Root (some u) (k₁.tasks u).context := ⟨hu₁, rfl⟩
  rcases mapPage_effect hi.vmm hroot hv (by decide) hmap with ⟨hno, -⟩ | ⟨-, -, fresh, he⟩
  · exact absurd ⟨hal, hphys⟩ hno
  rcases mapPage_effect hready₁.inv hroot₁ hv' (by decide) hmap₂ with ⟨hno, -⟩ | ⟨-, -, fresh', he'⟩
  · exact absurd ⟨hal', hphys⟩ hno
  have hmaps₁ := (he.maps (some k.currentTask) _ _ _).mpr
    (Or.inl ⟨rfl, rfl, rfl, rfl, present_userEntry f⟩)
  refine ⟨k₂, _, _, _, _, _, ?_, hsame₂.tasks.trans hsame.tasks,
    (he'.maps _ _ _ _).mpr (Or.inr ⟨hmaps₁, fun hc => hne (Option.some.inj hc.1), ?_⟩),
    (he'.maps _ _ _ _).mpr (Or.inl ⟨rfl, rfl, rfl, rfl, present_userEntry f⟩)⟩
  · rw [sysMmmap]
    refine bind_eq_ok.mpr ⟨_, halloc, bind_eq_ok.mpr ⟨k₁, hmap, ?_⟩⟩
    rw [hsame.tasks, hpid, ← hsame.tasks]
    exact hmap₂
  · simp [Lost]

end MicroOS
