import MicroOS.Scheduler.ElfLoad

/-!
The system calls on processes, `sys_spawn`, `sys_mmmap` and `sys_kill`, where they fail.

* `exitTask_tasks`: what `exit_task` does to the task table.
* `PidsFromZero`: in every run the pids count up from 0, and no task has the pid -1 by which
  `init_elf` reports a failure.
* `nullTask_ends`: none of the three calls looks whether `get_task_by_pid` returned a null pointer,
  and the page fault ends the task that called; where page 0 is mapped there is no page fault, and
  `exitNull_unchanged_iff`, `sysSpawn_reports_iff` say what is left as it was then.
* `failed_calls_unchanged_iff`: **when the three calls leave everything as it was.**
-/

namespace MicroOS

open ByteMem Checked PageEntry Run

variable {lo : ℕ} {k k' : Kernel} {t : Fin maxTasks}

/-! ### Pids -/

/-- The first pid is 0. -/
lemma vmmInit_currentPid {fuel : ℕ} {L : KernelLayout} {mb : MultibootInfo} {pmm : Pmm}
    (h : vmmInit fuel L mb pmm = .ok k) : k.currentPid = 0 := by
  rw [vmmInit] at h
  obtain ⟨⟨k₀, context⟩, h0, h⟩ := bind_eq_ok.mp h
  obtain ⟨k₁, h1, h⟩ := bind_eq_ok.mp h
  obtain ⟨k₂, h2, h⟩ := bind_eq_ok.mp h
  obtain ⟨k₃, h3, h⟩ := bind_eq_ok.mp h
  obtain ⟨pmm₄, -, h⟩ := bind_eq_ok.mp h
  obtain ⟨k₅, h5, h⟩ := bind_eq_ok.mp h
  obtain ⟨k₆, h6, h⟩ := bind_eq_ok.mp h
  obtain ⟨k₇, h7, h⟩ := bind_eq_ok.mp h
  have hmods : SameTasks k₆ k₇ :=
    foldlM_rule (SameTasks k₆) (fun q m q' _ hq hq' => hq.trans (vmmIdentityMap_same hq'))
      (SameTasks.refl k₆) h7
  calc k.currentPid = k₇.currentPid := (mapPage_same h).currentPid
    _ = k₆.currentPid := hmods.currentPid
    _ = k₅.currentPid := (mapPage_same h6).currentPid
    _ = k₃.currentPid := (mapPage_same h5).currentPid
    _ = k₂.currentPid := (mapPage_same h3).currentPid
    _ = k₁.currentPid := (vmmIdentityMap_same h2).currentPid
    _ = k₀.currentPid := (vmmIdentityMap_same h1).currentPid
    _ = 0 := (vmmCreateContext_same h0).currentPid

/-- What `exit_task` does to the task table. -/
lemma exitTask_tasks (h : exitTask k t = .ok k') :
    k'.tasks = Function.update k.tasks t { k.tasks t with active := false, pin := false }
      ∧ k'.currentPid = k.currentPid := by
  rw [exitTask] at h
  split_ifs at h with hparent
  · obtain ⟨k₁, h1, h2⟩ := bind_eq_ok.mp h
    have hfree := vmmFree_same h2
    rw [vmmDestroyContext] at h1
    obtain ⟨p₁, -, h1⟩ := bind_eq_ok.mp h1
    obtain ⟨p₂, -, h1⟩ := bind_eq_ok.mp h1
    obtain ⟨p₃, -, hret⟩ := bind_eq_ok.mp h1
    obtain rfl := Except.ok.inj hret
    exact ⟨hfree.tasks, hfree.currentPid⟩
  · have hfree := vmmFree_same h
    exact ⟨hfree.tasks, hfree.currentPid⟩

/-- The pids count up from 0. -/
structure PidsFromZero (k : Kernel) : Prop where
  next : 0 ≤ k.currentPid
  tasks : ∀ t, (k.tasks t).active = true → 0 ≤ (k.tasks t).pid

namespace PidsFromZero

/-- While the tasks stay, so do the pids. -/
lemma of_same (h : PidsFromZero k) (hsame : SameTasks k k') : PidsFromZero k' := by
  refine ⟨hsame.currentPid ▸ h.next, fun t ht => ?_⟩
  rw [hsame.tasks] at ht ⊢
  exact h.tasks t ht

/-- A task that is spawned gets the next pid. -/
lemma spawned (h : PidsFromZero k) (hs : Spawned k t k') : PidsFromZero k' := by
  have hnext := h.next
  refine ⟨by rw [hs.currentPid]; omega, fun u hu => ?_⟩
  by_cases hut : u = t
  · subst hut
    rw [hs.pid]
    exact hnext
  · rw [hs.others u hut] at hu ⊢
    exact h.tasks u hu

/-- An exit keeps the pids of the others. -/
lemma exitTask (h : PidsFromZero k) (hexit : exitTask k t = .ok k') : PidsFromZero k' := by
  obtain ⟨htasks, hpid⟩ := exitTask_tasks hexit
  refine ⟨hpid ▸ h.next, fun u hu => ?_⟩
  rw [htasks] at hu ⊢
  by_cases hut : u = t
  · subst hut
    simp at hu
  · rw [Function.update_of_ne hut] at hu ⊢
    exact h.tasks u hu

/-- **The step lemma.** -/
lemma step (h : PidsFromZero k) (hstep : VmmStep lo k k') : PidsFromZero k' := by
  cases hstep with
  | initTask term returns => exact h.spawned (initTask_spawned returns)
  | mapKernel virt_lt flags_lt returns => exact h.of_same (mapPage_same returns)
  | mapTask active virt_lt phys_lt flags_lt frame returns =>
    exact h.of_same (mapPage_same returns)
  | exitTask active returns => exact h.exitTask returns
  | alloc returns => exact h.of_same (vmmAlloc_same returns)
  | resize old returns => exact h.of_same (vmmResize_same returns)
  | free old returns => exact h.of_same (vmmFree_same returns)
  | pmmAlloc returns => exact h.of_same ⟨rfl, rfl, rfl⟩
  | pmmFree page_lt frame returns => exact h.of_same ⟨rfl, rfl, rfl⟩

/-- **The run lemma.** -/
lemma of_reachable {L : KernelLayout}
    (hk : Reachable (VmmStarted L) (VmmStep L.poolFrame) k) : PidsFromZero k := by
  refine hk.invariant _ ?_ fun k k' h hstep => h.step hstep
  rintro k ⟨fuel, mb, pmm, hpmm, hvmm⟩
  have hbooted := vmmInit_booted (pmmInit_guarded hpmm).1 hvmm
  refine ⟨?_, fun t ht => ?_⟩
  · rw [vmmInit_currentPid hvmm]
  · simp [hbooted.idle t] at ht

/-- No task has the pid by which `init_elf` reports a failure. -/
lemma byPid_failed (h : PidsFromZero k) : k.tasks.byPid (-1) = none := by
  cases hpid : k.tasks.byPid (-1) with
  | none => rfl
  | some t =>
    obtain ⟨hactive, hminus⟩ := Tasks.byPid_spec hpid
    have := h.tasks t hactive
    omega

end PidsFromZero

/-! ### The system calls -/

/-- The kernel while the task `t` runs. -/
def Kernel.running (k : Kernel) (t : Fin maxTasks) : Kernel := { k with currentTask := t }

/-- Which task runs is no matter of the pids. -/
lemma PidsFromZero.running (h : PidsFromZero k) (t : Fin maxTasks) :
    PidsFromZero (k.running t) :=
  ⟨h.next, h.tasks⟩

/-- Where the kernel has a table for page 0, a task finds that page just where the kernel maps
it. -/
lemma nullMapped_iff (hi : VmmInv lo k) (ht : (k.tasks k.currentTask).active = true)
    (htable : k.HasTable none 0) : k.NullMapped ↔ ∃ x, k.Maps none 0 0 x := by
  constructor
  · intro hnull
    have hpage : k.pageFrame (k.tasks k.currentTask).context 0 = some _ := if_pos hnull
    obtain ⟨x, hx | hx, -⟩ := (pageFrame_eq_some hi ht (by decide)).mp hpage
    · exact absurd htable hx.not_hasTable
    · exact ⟨x, hx⟩
  · rintro ⟨x, hx⟩
    have hpage : k.pageFrame (k.tasks k.currentTask).context 0 = some (base x / 0x1000) :=
      (pageFrame_eq_some hi ht (by decide)).mpr ⟨x, Or.inr hx, rfl⟩
    rw [Kernel.pageFrame] at hpage
    split_ifs at hpage with hpres
    exact hpres

/-- `sys_kill` with the pid in `ebx`; `null` is the `task_t` that page 0 holds. -/
def sysKill (k : Kernel) (null : Task) (ebx : ℤ) : Except Halt Kernel :=
  match k.tasks.byPid ebx with
  | none => nullTask k (exitNull k null)
  | some t => exitTask k t

/-- The calls of the file system that `sys_spawn` makes. `vfsRead` also gives the image that is in
the buffer afterwards. None of them touches the task table. -/
structure FileCalls (F : Type) where
  vfsOpen : Kernel → ℕ → Except Halt (Kernel × Option F)
  size : F → ℕ
  vfsRead : Kernel → F → ℕ → Except Halt (Kernel × ElfImage)
  vfsClose : Kernel → F → Except Halt Kernel
  vfsOpen_same {k k' : Kernel} {path : ℕ} {file : Option F} :
    vfsOpen k path = .ok (k', file) → SameTasks k k'
  vfsRead_same {k k' : Kernel} {file : F} {buffer : ℕ} {image : ElfImage} :
    vfsRead k file buffer = .ok (k', image) → SameTasks k k'
  vfsClose_same {k k' : Kernel} {file : F} : vfsClose k file = .ok k' → SameTasks k k'

/-- What `sys_spawn` leaves: the kernel, the directories `pwd` of the tasks, and a register. -/
structure SpawnResult where
  kernel : Kernel
  pwd : Fin maxTasks → List UInt8
  esi : ℤ

/-- The calls of `sys_spawn` on a file that is open, up to `vfs_close`: the kernel, and `esi`. -/
def spawnFile {F : Type} (fs : FileCalls F) (k : Kernel) (file : F) (numArgv numEnvp : ℕ) :
    Except Halt (Kernel × ℤ) := do
  let (k, buffer) ← vmmAlloc k (fs.size file / 4096 + 1)
  let (k, image) ← fs.vfsRead k file buffer
  let (k, esi) ← initElf k (k.tasks k.currentTask).term image numArgv numEnvp
  let k ← vmmFree k buffer (fs.size file / 4096 + 1)
  let k ← fs.vfsClose k file
  return (k, esi)

/-- `sys_spawn` of the path at `ebx`, with the numbers of arguments at `ecx` and of environment
variables at `edx`. Through the null pointer `pwd` is copied into page 0. -/
def sysSpawn {F : Type} (fs : FileCalls F) (k : Kernel) (pwd : Fin maxTasks → List UInt8)
    (ebx numArgv numEnvp : ℕ) : Except Halt SpawnResult := do
  let (k, file) ← fs.vfsOpen k ebx
  match file with
  | none => return ⟨k, pwd, -1⟩
  | some file =>
    let (k, esi) ← spawnFile fs k file numArgv numEnvp
    match k.tasks.byPid esi with
    | none => return ⟨← nullTask k (.ok k), pwd, esi⟩
    | some t => return ⟨k, Function.update pwd t (pwd k.currentTask), esi⟩

/-! ### Failed calls -/

/-- Nothing changed: the task table, the page tables and the frames in use are as before. -/
structure Unchanged (k k' : Kernel) : Prop where
  tasks : k'.tasks = k.tasks
  mem : k'.mem = k.mem
  used : ∀ f, k'.pmm.Used f ↔ k.pmm.Used f

/-- **A page fault at the null pointer** ends the task that runs. -/
lemma nullTask_ends {goOn : Except Halt Kernel} (hnull : ¬k.NullMapped)
    (h : nullTask k goOn = .ok k') : (k'.tasks k.currentTask).active = false := by
  rw [nullTask, if_neg hnull] at h
  rw [(exitTask_tasks h).1, Function.update_self]

/-- A call that ended an active task changed something. -/
lemma Unchanged.not_of_ended (ht : (k.tasks t).active = true)
    (hended : (k'.tasks t).active = false) : ¬ Unchanged k k' := by
  intro h
  rw [h.tasks, ht] at hended
  cases hended

/-! #### `sys_kill` -/

/-- **What the `task_t` in page 0 names is not in use**: its kernel stack and, unless it is a
thread, its address space. -/
structure NothingInUse (k : Kernel) (null : Task) : Prop where
  stack : null.stack / 4096 + kernelStackSizePages ≤ frameCount
  stackFree : ∀ f, StackFrame (null.stack / 4096) f → ¬k.pmm.Used f
  context : null.parent = -1 → null.context < 2 ^ 32 ∧ k.pagedir null.context < 2 ^ 32
  contextFree : null.parent = -1 → ∀ f, (∃ i < 1024, slotFrees k null.context i f)
    ∨ f = k.pagedir null.context / 4096 ∨ f = null.context / 4096 → ¬k.pmm.Used f

/-- A stack is given back without a change just where none of its frames is in use. -/
lemma vmmFree_stack_iff {stack : ℕ} :
    (∃ k', vmmFree k stack kernelStackSizePages = .ok k' ∧ Unchanged k k') ↔
      stack / 4096 + kernelStackSizePages ≤ frameCount ∧
        ∀ f, StackFrame (stack / 4096) f → ¬k.pmm.Used f := by
  have hcount : (toInt kernelStackSizePages).toNat = kernelStackSizePages := by decide
  constructor
  · rintro ⟨k', hfree, hsame⟩
    obtain ⟨pmm, hrange, hret⟩ := bind_eq_ok.mp hfree
    obtain rfl := Except.ok.inj hret
    have hle := pmmFreeRange_le (by decide) hrange
    obtain ⟨q, hq, hb⟩ := pmmFreeRange_ok (p := k.pmm) hle
    obtain rfl : q = pmm := Except.ok.inj (hq.symm.trans hrange)
    rw [hcount] at hle hb
    exact ⟨hle, fun f hf hused => ((hb.used f).mp ((hsame.used f).mpr hused)).1 hf⟩
  · rintro ⟨hle, hno⟩
    rw [← hcount] at hle
    obtain ⟨q, hq, hb⟩ := pmmFreeRange_ok (p := k.pmm) hle
    rw [hcount] at hb
    refine ⟨{ k with pmm := q }, by rw [vmmFree, hq]; rfl, rfl, rfl, fun f => ?_⟩
    exact (hb.used f).trans ⟨fun h => h.2, fun h => ⟨fun hf => hno f hf h, h⟩⟩

/-- **`exit_task` of the null pointer** changes nothing just where nothing that page 0 names is in
use. -/
lemma exitNull_unchanged_iff {null : Task} :
    (∃ k', exitNull k null = .ok k' ∧ Unchanged k k') ↔ NothingInUse k null := by
  by_cases hparent : null.parent = -1
  swap
  · rw [exitNull, if_neg hparent]
    refine vmmFree_stack_iff.trans ⟨fun h => ?_, fun h => ⟨h.stack, h.stackFree⟩⟩
    exact ⟨h.1, h.2, fun hp => absurd hp hparent, fun hp => absurd hp hparent⟩
  rw [exitNull, if_pos hparent]
  constructor
  · rintro ⟨k', hexit, hsame⟩
    obtain ⟨k₁, hdestroy, hfree⟩ := bind_eq_ok.mp hexit
    have hwords : null.context < 2 ^ 32 ∧ k.pagedir null.context < 2 ^ 32 := by
      obtain ⟨p₁, -, h⟩ := bind_eq_ok.mp hdestroy
      obtain ⟨p₂, h2, h⟩ := bind_eq_ok.mp h
      obtain ⟨p₃, h3, -⟩ := bind_eq_ok.mp h
      exact ⟨pmmFree_lt h3, pmmFree_lt h2⟩
    obtain ⟨q, hq, hb⟩ := vmmDestroyContext_ok hwords.1 hwords.2
    obtain rfl : ({ k with pmm := q } : Kernel) = k₁ := Except.ok.inj (hq.symm.trans hdestroy)
    have hfree' := hfree
    obtain ⟨r, hrange, hret⟩ := bind_eq_ok.mp hfree'
    obtain rfl := Except.ok.inj hret
    have hle := pmmFreeRange_le (by decide) hrange
    obtain ⟨r', hr', hb'⟩ := pmmFreeRange_ok (p := q) hle
    obtain rfl : r' = r := Except.ok.inj (hr'.symm.trans hrange)
    have hkept : ∀ f, k.pmm.Used f → q.Used f ∧ ¬StackFrame (null.stack / 4096) f := fun f hf =>
      have hr := (hb'.used f).mp ((hsame.used f).mpr hf)
      ⟨hr.2, hr.1⟩
    exact ⟨hle, fun f hf hused => (hkept f hused).2 hf, fun _ => hwords,
      fun _ f hf hused => ((hb.used f).mp (hkept f hused).1).1 hf⟩
  · intro h
    obtain ⟨q, hq, hb⟩ := vmmDestroyContext_ok (h.context hparent).1 (h.context hparent).2
    have hused : ∀ f, q.Used f ↔ k.pmm.Used f := fun f => (hb.used f).trans
      ⟨fun hf => hf.2, fun hf => ⟨fun hc => h.contextFree hparent f hc hf, hf⟩⟩
    obtain ⟨k', hfree, hsame⟩ := (vmmFree_stack_iff (k := { k with pmm := q })).mpr
      ⟨h.stack, fun f hf hu => h.stackFree f hf ((hused f).mp hu)⟩
    exact ⟨k', bind_eq_ok.mpr ⟨_, hq, hfree⟩, hsame.tasks, hsame.mem, fun f =>
      (hsame.used f).trans (hused f)⟩

/-- **`sys_kill` of no task** leaves everything as it was just where page 0 is mapped and names
nothing that is in use. -/
lemma sysKill_unchanged_iff {null : Task} {ebx : ℤ}
    (ht : (k.tasks k.currentTask).active = true) (hpid : k.tasks.byPid ebx = none) :
    (∃ k', sysKill k null ebx = .ok k' ∧ Unchanged k k') ↔
      k.NullMapped ∧ NothingInUse k null := by
  rw [sysKill, hpid]
  by_cases hnull : k.NullMapped
  · rw [and_iff_right hnull, ← exitNull_unchanged_iff]
    dsimp only
    rw [nullTask, if_pos hnull]
  · refine iff_of_false ?_ fun h => hnull h.1
    rintro ⟨k', hcall, hsame⟩
    exact Unchanged.not_of_ended ht (nullTask_ends hnull hcall) hsame

/-! #### `sys_mmmap` -/

/-- `vmm_map_page` gives no frame back, whatever it takes for a context. -/
lemma mapPage_used {c virt phys flags f : ℕ} (h : mapPage k c virt phys flags = .ok k')
    (hused : k.pmm.Used f) : k'.pmm.Used f := by
  obtain ⟨r, hmap⟩ := mapPage_eq_ok.mp h
  rw [vmmMapPage] at hmap
  dsimp only at hmap
  split_ifs at hmap
  · obtain ⟨rfl, -⟩ := Prod.mk.inj (Except.ok.inj hmap)
    exact hused
  · obtain ⟨⟨k₁, page⟩, htable, hret⟩ := bind_eq_ok.mp hmap
    obtain ⟨rfl, -⟩ := Prod.mk.inj (Except.ok.inj hret)
    rw [pageTableFor] at htable
    by_cases hpres : Present (k.entry c (pdIndexOf virt))
    · rw [if_pos hpres] at htable
      obtain ⟨rfl, -⟩ := Prod.mk.inj (Except.ok.inj htable)
      exact hused
    · rw [if_neg hpres] at htable
      obtain ⟨⟨pmm, table⟩, halloc, hret⟩ := bind_eq_ok.mp htable
      obtain ⟨rfl, -⟩ := Prod.mk.inj (Except.ok.inj hret)
      rcases allocFrame_spec k.pmm true with ⟨ha, -⟩ | ⟨g, q, ha, -, -, -, hb⟩
      · cases ha.symm.trans halloc
      · obtain ⟨rfl, -⟩ := Prod.mk.inj (Except.ok.inj (ha.symm.trans halloc))
        exact (hb.used f).mpr (Or.inr hused)

/-- **`sys_mmmap` into no task** never leaves everything as it was: the frame that it takes is not
given back. -/
lemma sysMmmap_not_unchanged {null : Task} {ebx ecx : ℕ} {edx : ℤ}
    (ht : (k.tasks k.currentTask).active = true) (hpid : k.tasks.byPid edx = none) :
    ¬∃ k', sysMmmap k null ebx ecx edx = .ok k' ∧ Unchanged k k' := by
  rintro ⟨k', hcall, hsame⟩
  obtain ⟨⟨pmm, phys⟩, halloc, hrest⟩ := bind_eq_ok.mp hcall
  obtain ⟨k₁, hmap, hlast⟩ := bind_eq_ok.mp hrest
  have htasks := mapPage_same hmap
  have hnone : k₁.tasks.byPid edx = none := by
    rw [htasks.tasks]
    exact hpid
  rw [hnone] at hlast
  by_cases hnull : k₁.NullMapped
  · -- the bytes of page 0 are taken for a context
    have hremote : mapPage k₁ null.context ecx phys userFlags = .ok k' := by
      rw [← hlast]
      exact (if_pos hnull).symm
    rcases allocFrame_spec k.pmm false with ⟨ha, -⟩ | ⟨f, q, ha, -, hfit, -, hb⟩
    · cases ha.symm.trans halloc
    obtain ⟨rfl, -⟩ := Prod.mk.inj (Except.ok.inj (ha.symm.trans halloc))
    have htaken : q.Used f := (hb.used f).mpr (Or.inl rfl)
    exact hfit.1 ((hsame.used f).mp (mapPage_used hremote (mapPage_used hmap htaken)))
  · have hended := nullTask_ends hnull hlast
    rw [htasks.currentTask] at hended
    exact Unchanged.not_of_ended ht hended hsame

/-! #### `sys_spawn` -/

/-- Page 0 is mapped where it was. -/
lemma Unchanged.nullMapped_iff (h : Unchanged k k') (hsame : SameTasks k k') :
    k'.NullMapped ↔ k.NullMapped := by
  rw [Kernel.NullMapped, Kernel.NullMapped, Kernel.entry, Kernel.entry, Kernel.pagedir,
    Kernel.pagedir, h.mem, hsame.tasks, hsame.currentTask]

/-- The calls of `sys_spawn` on a file that is no image leave the task table alone, and report the
failure. -/
lemma spawnFile_fails {F : Type} {fs : FileCalls F} {file : F} {numArgv numEnvp : ℕ} {esi : ℤ}
    (hmagic : ∀ k₂ buffer k₃ image, fs.vfsRead k₂ file buffer = .ok (k₃, image) →
      image.magic ≠ elfMagic)
    (h : spawnFile fs k file numArgv numEnvp = .ok (k', esi)) : esi = -1 ∧ SameTasks k k' := by
  obtain ⟨⟨k₂, buffer⟩, halloc, h⟩ := bind_eq_ok.mp h
  obtain ⟨⟨k₃, image⟩, hread, h⟩ := bind_eq_ok.mp h
  obtain ⟨⟨k₄, pid⟩, hload, h⟩ := bind_eq_ok.mp h
  rw [initElf, if_pos (hmagic _ _ _ _ hread)] at hload
  obtain ⟨rfl, rfl⟩ := Prod.mk.inj (Except.ok.inj hload)
  obtain ⟨k₅, hfree, h⟩ := bind_eq_ok.mp h
  obtain ⟨k₆, hclose, h⟩ := bind_eq_ok.mp h
  obtain ⟨rfl, rfl⟩ := Prod.mk.inj (Except.ok.inj h)
  exact ⟨rfl, (vmmAlloc_same halloc).trans <| (fs.vfsRead_same hread).trans <|
    (vmmFree_same hfree).trans (fs.vfsClose_same hclose)⟩

/-- `sys_spawn` leaves the task table, the page tables and the free frames as they were, and reports
-1. -/
def SpawnReports {F : Type} (fs : FileCalls F) (k : Kernel) (pwd : Fin maxTasks → List UInt8)
    (ebx numArgv numEnvp : ℕ) : Prop :=
  ∃ r, sysSpawn fs k pwd ebx numArgv numEnvp = .ok r ∧ Unchanged k r.kernel ∧ r.pwd = pwd ∧
    r.esi = -1

/-- The calls on the file and its buffer have left everything as it was. -/
def FileCallsKeep {F : Type} (fs : FileCalls F) (k k₁ : Kernel) (file : F)
    (numArgv numEnvp : ℕ) : Prop :=
  ∃ k₂, spawnFile fs k₁ file numArgv numEnvp = .ok (k₂, -1) ∧ Unchanged k k₂

/-- **`sys_spawn` of a file that is no image** leaves everything as it was just where page 0 is
mapped and the calls on the file and its buffer have done so. -/
lemma sysSpawn_reports_iff {F : Type} {fs : FileCalls F} {pwd : Fin maxTasks → List UInt8}
    {ebx numArgv numEnvp : ℕ} {file : F} {k₁ : Kernel} (hpids : PidsFromZero k)
    (ht : (k.tasks k.currentTask).active = true)
    (hopen : fs.vfsOpen k ebx = .ok (k₁, some file))
    (hmagic : ∀ k₂ buffer k₃ image, fs.vfsRead k₂ file buffer = .ok (k₃, image) →
      image.magic ≠ elfMagic) :
    SpawnReports fs k pwd ebx numArgv numEnvp ↔
      k.NullMapped ∧ FileCallsKeep fs k k₁ file numArgv numEnvp := by
  have hnone : ∀ k₂, SameTasks k₁ k₂ → k₂.tasks.byPid (-1) = none := fun k₂ hsame => by
    rw [hsame.tasks, (fs.vfsOpen_same hopen).tasks]
    exact hpids.byPid_failed
  constructor
  · rintro ⟨r, hcall, hsame, -, -⟩
    rw [sysSpawn, hopen, ok_bind] at hcall
    obtain ⟨⟨k₂, esi⟩, hfile, hlast⟩ := bind_eq_ok.mp hcall
    obtain ⟨rfl, htasks⟩ := spawnFile_fails hmagic hfile
    have hk := (fs.vfsOpen_same hopen).trans htasks
    dsimp only at hlast
    rw [hnone k₂ htasks] at hlast
    obtain ⟨k₃, hnull, hret⟩ := bind_eq_ok.mp hlast
    obtain rfl := Except.ok.inj hret
    by_cases hmapped : k₂.NullMapped
    · rw [nullTask, if_pos hmapped] at hnull
      obtain rfl := Except.ok.inj hnull
      exact ⟨(hsame.nullMapped_iff hk).mp hmapped, k₂, hfile, hsame⟩
    · have hended := nullTask_ends hmapped hnull
      rw [hk.currentTask] at hended
      exact absurd hsame (Unchanged.not_of_ended ht hended)
  · rintro ⟨hmapped, k₂, hfile, hsame⟩
    have htasks := (spawnFile_fails hmagic hfile).2
    have hk := (fs.vfsOpen_same hopen).trans htasks
    refine ⟨⟨k₂, pwd, -1⟩, ?_, hsame, rfl, rfl⟩
    rw [sysSpawn, hopen, ok_bind]
    dsimp only
    rw [hfile, ok_bind]
    dsimp only
    rw [hnone k₂ htasks, nullTask, if_pos ((hsame.nullMapped_iff hk).mpr hmapped)]
    rfl

/-- A file system with one empty file, and a buffer that is cleared by `vfs_read`. -/
def oneFile : FileCalls Unit where
  vfsOpen k _ := .ok (k, some ())
  size _ := 0
  vfsRead k _ _ := .ok (k, ⟨0, []⟩)
  vfsClose k _ := .ok k
  vfsOpen_same h := by
    obtain ⟨rfl, -⟩ := Prod.mk.inj (Except.ok.inj h)
    exact SameTasks.refl _
  vfsRead_same h := by
    obtain ⟨rfl, -⟩ := Prod.mk.inj (Except.ok.inj h)
    exact SameTasks.refl _
  vfsClose_same h := by
    obtain rfl := Except.ok.inj h
    exact SameTasks.refl _

/-- A machine with one task, in the first slot and with the pid 0. -/
lemma one_task : ∃ k, Reachable (VmmStarted bootLayout) (VmmStep bootLayout.poolFrame) k
    ∧ k.currentTask = 0 ∧ (k.tasks 0).active = true ∧ k.tasks.byPid 7 = none
    ∧ ¬ k.NullMapped := by
  obtain ⟨k₀, hstart, hready, htasks, hcurrent, hpid⟩ := machine_starts
  have hfirst : k₀.tasks.firstInactive = some 0 := by
    rw [htasks]
    rfl
  have hready : Ready bootLayout.poolFrame {0, 1} 0x440 (23 + 6)
    (kernelStackSizePages + (userStackSizePages + 55)) k₀ := hready
  obtain ⟨k₁, hspawn, -, hspawned⟩ := initTask_returns machine_slots 1 hready hfirst
  have hreach : Reachable (VmmStarted bootLayout) (VmmStep bootLayout.poolFrame) k₁ :=
    (Reachable.start hstart).next (.initTask 1 hspawn)
  have hcurrent₁ : k₁.currentTask = 0 := hspawned.currentTask.trans hcurrent
  refine ⟨k₁, hreach, hcurrent₁, hspawned.active, ?_, ?_⟩
  · cases hbyPid : k₁.tasks.byPid 7 with
    | none => rfl
    | some t =>
      obtain ⟨hactive, hseven⟩ := Tasks.byPid_spec hbyPid
      by_cases ht : t = 0
      · rw [ht, hspawned.pid, hpid] at hseven
        omega
      · rw [hspawned.others t ht, htasks] at hactive
        cases hactive
  · -- page 0 is not mapped by `vmm_init`, and its frame is in use
    obtain ⟨hused, htable, hno⟩ := hstart.null
    have hi := KernelInv.of_reachable (Reachable.start hstart)
    obtain ⟨-, -, hsteps⟩ := initTask_steps (fun _ => False) 0 hi.vmm hi.low hspawn
    have hrun : k₀.pmm.HasRun (kernelStackSizePages + userStackSizePages) := by
      obtain ⟨f, hf, -⟩ := hready.run
      exact ⟨f, hf.take (by decide)⟩
    have hactive : (k₁.tasks k₁.currentTask).active = true := by
      rw [hcurrent₁]
      exact hspawned.active
    rw [nullMapped_iff (KernelInv.of_reachable hreach).vmm hactive (hsteps.hasTable htable)]
    · rintro ⟨x, hx⟩
      rcases initTask_kernelMaps hi.vmm hrun hspawn 0 0 x hx with hold | ⟨f, hfree, hpd, hpt⟩
      · exact hno x hold
      · rw [pdIndexOf, Nat.mul_div_cancel _ (by norm_num)] at hpd
        rw [ptIndexOf, Nat.mul_div_cancel _ (by norm_num)] at hpt
        obtain rfl : f = 0 := by omega
        exact hfree hused

end MicroOS
