import Mathlib.Data.Multiset.Basic
import Mathlib.Logic.Relation
import MicroOS.Memory.VmmDestroy

/-!
The creation of a task, step by step.

`init_task` and `init_elf` are long, but all they do to the memory of the kernel is a sequence of
few kinds of steps. A `Spawn` is a creation under way: the kernel, the frames that were allocated
for the task and that it does not map yet, and the number of frames that will still be asked for.

* `SpawnStep`: the kinds of steps.
* `SpawnStep.inv`, `SpawnStep.hasRun`: what every step keeps.
* `initTask_steps`, `initElf_steps`: a call that returns is a sequence of steps. What holds of a
  creation is shown for the steps, and by induction for the calls.
-/

namespace MicroOS

open ByteMem Checked PageEntry Relation

variable {lo : ℕ} {k k' : Kernel} {t : Fin maxTasks}

/-! ### Slots of tasks -/

/-- A slot is written and keeps what the memory of tasks depends on. -/
structure SameSlot (old new : Task) : Prop where
  active : new.active = old.active
  context : old.active = true → new.context = old.context
  stack : old.active = true → new.stack = old.stack
  parent : old.active = true → new.parent = old.parent

lemma SameSlot.zero (hidle : (k.tasks t).active = false) : SameSlot (k.tasks t) Task.zero := by
  refine ⟨hidle.symm, fun hc => ?_, fun hc => ?_, fun hc => ?_⟩
  all_goals simp [hidle] at hc

/-- The state after a slot was written. -/
def withTask (k : Kernel) (t : Fin maxTasks) (task : Task) : Kernel :=
  { k with tasks := Function.update k.tasks t task }

section WithTask

variable {task : Task} (hsame : SameSlot (k.tasks t) task)

include hsame

/-- Storing a task keeps which tasks are active. -/
lemma withTask_active (u : Fin maxTasks) :
    ((withTask k t task).tasks u).active = (k.tasks u).active := by
  by_cases hu : u = t
  · subst hu
    simp [withTask, hsame.active]
  · simp [withTask, hu]

/-- And the contexts of those. -/
lemma withTask_context {u : Fin maxTasks} (hu : (k.tasks u).active = true) :
    ((withTask k t task).tasks u).context = (k.tasks u).context := by
  by_cases hut : u = t
  · subst hut
    simp [withTask, hsame.context hu]
  · simp [withTask, hut]

/-- And their stacks. -/
lemma withTask_stack {u : Fin maxTasks} (hu : (k.tasks u).active = true) :
    ((withTask k t task).tasks u).stack = (k.tasks u).stack := by
  by_cases hut : u = t
  · subst hut
    simp [withTask, hsame.stack hu]
  · simp [withTask, hut]

/-- And their parents. -/
lemma withTask_parent {u : Fin maxTasks} (hu : (k.tasks u).active = true) :
    ((withTask k t task).tasks u).parent = (k.tasks u).parent := by
  by_cases hut : u = t
  · subst hut
    simp [withTask, hsame.parent hu]
  · simp [withTask, hut]

/-- It changes no context. -/
lemma withTask_root (s : Space) (c : ℕ) : (withTask k t task).Root s c ↔ k.Root s c := by
  cases s with
  | none => rfl
  | some u =>
    rw [Kernel.Root, Kernel.Root, withTask_active hsame]
    exact and_congr_right fun hu => by rw [withTask_context hsame hu]

/-- It changes no owner. -/
lemma withTask_owns (o : Owner) (p : ℕ) : (withTask k t task).Owns o p ↔ k.Owns o p := by
  constructor
  · intro h
    cases h with
    | context root => exact .context ((withTask_root hsame _ _).mp root)
    | dir root => exact .dir ((withTask_root hsame _ _).mp root)
    | table root lt present own =>
      exact .table ((withTask_root hsame _ _).mp root) lt present own
  · intro h
    cases h with
    | context root => exact .context ((withTask_root hsame _ _).mpr root)
    | dir root => exact Kernel.Owns.dir ((withTask_root hsame _ _).mpr root)
    | table root lt present own =>
      exact Kernel.Owns.table ((withTask_root hsame _ _).mpr root) lt present own

lemma withTask_maps (s : Space) (i j x : ℕ) :
    (withTask k t task).Maps s i j x ↔ k.Maps s i j x :=
  exists_congr fun p => and_congr_left fun _ => withTask_owns hsame _ p

/-- So it keeps the invariant. -/
lemma withTask_inv (hi : VmmInv lo k) : VmmInv lo (withTask k t task) := by
  have howns := withTask_owns hsame
  refine hi.of_owns (fun _ _ => False) hi.guarded (fun o p h => ?_) (fun _ _ h => h.elim)
    (fun _ _ _ h => h.elim) fun u hu i hlt hpres => ?_
  · exact ⟨Or.inl ((howns o p).mp h), hi.owned o p ((howns o p).mp h)⟩
  · rw [withTask_active hsame] at hu
    rw [withTask_context hsame hu]
    exact hi.sync u hu i hlt hpres

end WithTask

/-! ### Steps -/

/-- A creation under way. -/
structure Spawn where
  kernel : Kernel
  held : Multiset ℕ
  quota : ℕ

/-- **A step of a creation** in the slot `t`; `img` are the addresses of the pages of the image. -/
inductive SpawnStep (lo : ℕ) (t : Fin maxTasks) (img : ℕ → Prop) : Spawn → Spawn → Prop where
  | task {s : Spawn} (task : Task) (same : SameSlot (s.kernel.tasks t) task) :
      SpawnStep lo t img s { s with kernel := withTask s.kernel t task }
  | range {s : Spawn} {f n : ℕ} {pmm : Pmm} (le : n ≤ s.quota)
      (run : s.kernel.pmm.FreeRun f n) (first : ∀ g, s.kernel.pmm.FreeRun g n → f ≤ g)
      (becomes : s.kernel.pmm.Becomes pmm fun g => (f ≤ g ∧ g < f + n) ∨ s.kernel.pmm.Used g) :
      SpawnStep lo t img s
        ⟨{ s.kernel with pmm }, (List.range' f n : Multiset ℕ) + s.held, s.quota - n⟩
  | nullRange {s : Spawn} (le : kernelStackSizePages ≤ s.quota)
      (noRun : ∀ g, ¬ s.kernel.pmm.FreeRun g kernelStackSizePages) :
      SpawnStep lo t img s ⟨s.kernel,
        (List.range' 0 kernelStackSizePages : Multiset ℕ) + s.held, s.quota - kernelStackSizePages⟩
  | grow {s : Spawn} {k' : Kernel} (grows : KernelGrows lo s.kernel k')
      (maps : ∀ i j x, k'.Maps none i j x → s.kernel.Maps none i j x
        ∨ ∃ phys, 0x1000 ∣ phys ∧ x = phys ||| (ptePresent ||| pteWrite)) :
      SpawnStep lo t img s { s with kernel := k' }
  | create {s : Spawn} {k' : Kernel} {task : Task} {g : ℕ} {rest : Multiset ℕ}
      (effect : CreateEffect lo s.kernel t task k') (active : task.active = true)
      (parent : task.parent = -1) (stack : task.stack = g * 0x1000)
      (room : g + kernelStackSizePages ≤ frameCount)
      (held : s.held = (List.range' g kernelStackSizePages : Multiset ℕ) + rest) :
      SpawnStep lo t img s ⟨k', rest, s.quota⟩
  | map {s : Spawn} {k' : Kernel} {virt f : ℕ} {fresh : Option ℕ} {rest : Multiset ℕ}
      (lt : virt < 2 ^ 32) (bound : f < frameCount) (held : s.held = f ::ₘ rest)
      (effect : MapEffect lo s.kernel (some t) (pdIndexOf virt) (ptIndexOf virt)
        (f * 0x1000 ||| userFlags) fresh k')
      (place : virt = wrap32 (f * 0x1000 + userSpaceOffset)
        ∨ img virt ∧ vmmLookup s.kernel virt (s.kernel.tasks t).context = 0) :
      SpawnStep lo t img s ⟨k', rest, s.quota⟩
  | free {s : Spawn} {f : ℕ} {pmm : Pmm} {rest : Multiset ℕ} (held : s.held = f ::ₘ rest)
      (becomes : s.kernel.pmm.Becomes pmm fun g => g ≠ f ∧ s.kernel.pmm.Used g) :
      SpawnStep lo t img s ⟨{ s.kernel with pmm }, rest, s.quota⟩

/-- The steps of a creation. -/
abbrev SpawnSteps (lo : ℕ) (t : Fin maxTasks) (img : ℕ → Prop) : Spawn → Spawn → Prop :=
  ReflTransGen (SpawnStep lo t img)

/-- **What every step keeps**: the invariant, and that the task gets no page of the pool. -/
structure SpawnInv (lo : ℕ) (s : Spawn) : Prop where
  inv : VmmInv lo s.kernel
  low : 0x200 < lo
  held : ∀ f ∈ s.held, Mappable lo f

/-- A free frame outside the pool may be mapped. -/
lemma Pmm.FreeRun.mappable {p : Pmm} {f n g : ℕ} (hrun : p.FreeRun f n) (hg : p.Guarded lo)
    (h1 : f ≤ g) (h2 : g < f + n) : Mappable lo g := by
  obtain ⟨hu, hp⟩ := hrun.free g h1 h2
  refine ⟨fun h => hp ((hg.pool g).mpr h), ?_, ?_⟩
  · rintro rfl
    exact hu hg.below
  · rintro rfl
    exact hu hg.last

lemma Pmm.FreeRun.take {p : Pmm} {f n m : ℕ} (hrun : p.FreeRun f n) (hm : m ≤ n) :
    p.FreeRun f m :=
  ⟨by have := hrun.room; omega, fun g h1 h2 => hrun.free g h1 (by omega)⟩

/-- Free frames stay free when only pages of the pool come into use. -/
lemma Pmm.FreeRun.of_used {p p' : Pmm} {f n : ℕ} (hrun : p.FreeRun f n)
    (hmask : p'.bitmapPagetableMask = p.bitmapPagetableMask)
    (hused : ∀ g, p'.Used g → p.Used g ∨ p.Pool g) : p'.FreeRun f n := by
  refine ⟨hrun.room, fun g h1 h2 => ?_⟩
  obtain ⟨hu, hp⟩ := hrun.free g h1 h2
  refine ⟨fun hg => (hused g hg).elim hu hp, ?_⟩
  rwa [Pmm.Pool, hmask]

/-- There is a run of `n` free frames outside the pool. -/
def Pmm.HasRun (p : Pmm) (n : ℕ) : Prop := ∃ f, p.FreeRun f n

/-- There is one that ends below `top`. -/
def Pmm.RunBelow (p : Pmm) (top n : ℕ) : Prop := ∃ f, p.FreeRun f n ∧ f + n ≤ top

lemma Pmm.hasRun_iff {p : Pmm} {n : ℕ} : p.HasRun n ↔ p.RunBelow frameCount n :=
  exists_congr fun _ => (and_iff_left_of_imp Pmm.FreeRun.room).symm

/-- The first run that fits takes no more than its length from any other. -/
lemma Pmm.RunBelow.of_range {p p' : Pmm} {top f n m : ℕ} (hrun : p.RunBelow top m) (hn : n ≤ m)
    (hfirst : ∀ g, p.FreeRun g n → f ≤ g)
    (hb : p.Becomes p' fun g => (f ≤ g ∧ g < f + n) ∨ p.Used g) : p'.RunBelow top (m - n) := by
  obtain ⟨g, hrun, htop⟩ := hrun
  have hfg := hfirst g (hrun.take hn)
  have hroom := hrun.room
  refine ⟨max g (f + n), ⟨by omega, fun h h1 h2 => ?_⟩, by omega⟩
  obtain ⟨hu, hp⟩ := hrun.free h (by omega) (by omega)
  refine ⟨fun hg => ?_, fun hg => hp ((hb.pool h).mp hg)⟩
  rcases (hb.used h).mp hg with hg | hg
  · omega
  · exact hu hg

/-- A run stays while no other frame is used. -/
lemma Pmm.RunBelow.of_used {p p' : Pmm} {top n : ℕ} (hrun : p.RunBelow top n)
    (hmask : p'.bitmapPagetableMask = p.bitmapPagetableMask)
    (hused : ∀ g, p'.Used g → p.Used g ∨ p.Pool g) : p'.RunBelow top n := by
  obtain ⟨f, hf, htop⟩ := hrun
  exact ⟨f, hf.of_used hmask hused, htop⟩

/-- Freeing a frame that may be mapped keeps the invariant. -/
lemma VmmInv.of_free (hi : VmmInv lo k) {pmm : Pmm} {S : ℕ → Prop}
    (hb : k.pmm.Becomes pmm fun g => ¬ S g ∧ k.pmm.Used g) (hS : ∀ g, S g → Mappable lo g) :
    VmmInv lo { k with pmm } := by
  have hg := hi.guarded
  refine hi.of_pmm ⟨fun g => (hb.pool g).trans (hg.pool g), hg.pos, hg.room, ?_, ?_⟩ hb.mask
    fun f hp hu => ?_
  · exact (hb.used _).mpr ⟨fun h => (hS _ h).2.1 rfl, hg.below⟩
  · exact (hb.used _).mpr ⟨fun h => (hS _ h).2.2 rfl, hg.last⟩
  · exact (hb.used f).mpr ⟨fun h => (hS f h).1 ((hg.pool f).mp hp), hu⟩

namespace SpawnStep

variable {img : ℕ → Prop} {s s' : Spawn}

/-- **Every step keeps the invariant.** -/
lemma inv (h : SpawnStep lo t img s s') (hs : SpawnInv lo s) : SpawnInv lo s' := by
  have hi := hs.inv
  cases h with
  | task task same => exact ⟨withTask_inv same hi, hs.low, hs.held⟩
  | range le run first becomes =>
    refine ⟨hi.of_becomes becomes, hs.low, fun f hf => ?_⟩
    rcases Multiset.mem_add.mp hf with hf | hf
    · obtain ⟨h1, h2⟩ := List.mem_range'_1.mp (Multiset.mem_coe.mp hf)
      exact run.mappable hi.guarded h1 h2
    · exact hs.held f hf
  | nullRange le noRun =>
    refine ⟨hi, hs.low, fun f hf => ?_⟩
    rcases Multiset.mem_add.mp hf with hf | hf
    · obtain ⟨_, h2⟩ := List.mem_range'_1.mp (Multiset.mem_coe.mp hf)
      have hlow := hs.low
      rw [kernelStackSizePages] at h2
      refine ⟨by omega, by omega, ?_⟩
      rw [frameCount]
      omega
    · exact hs.held f hf
  | grow grows maps => exact ⟨grows.inv, hs.low, hs.held⟩
  | create effect active parent stack room held =>
    exact ⟨effect.inv, hs.low, fun f hf => hs.held f (held ▸ Multiset.mem_add.mpr (Or.inr hf))⟩
  | map lt bound held effect place =>
    exact ⟨effect.inv, hs.low, fun f hf => hs.held f (held ▸ Multiset.mem_cons_of_mem hf)⟩
  | @free f pmm rest held becomes =>
    refine ⟨hi.of_free becomes fun g hg => ?_, hs.low, fun g hg =>
      hs.held g (held ▸ Multiset.mem_cons_of_mem hg)⟩
    subst hg
    exact hs.held g (held ▸ Multiset.mem_cons_self g _)

/-- What a step does to the memory manager, when there are enough free frames in one run: it takes
no frames but pages of the pool, or the first run of the length it asks for. -/
lemma memory (h : SpawnStep lo t img s s') (hrun : s.kernel.pmm.HasRun s.quota) :
    (s'.quota = s.quota
        ∧ s'.kernel.pmm.bitmapPagetableMask = s.kernel.pmm.bitmapPagetableMask
        ∧ ∀ g, s'.kernel.pmm.Used g → s.kernel.pmm.Used g ∨ s.kernel.pmm.Pool g)
      ∨ ∃ f n, n ≤ s.quota ∧ s'.quota = s.quota - n ∧ (∀ g, s.kernel.pmm.FreeRun g n → f ≤ g)
        ∧ s.kernel.pmm.Becomes s'.kernel.pmm fun g => (f ≤ g ∧ g < f + n) ∨
          s.kernel.pmm.Used g := by
  cases h with
  | task task same => exact Or.inl ⟨rfl, rfl, fun g hg => Or.inl hg⟩
  | @range f n pmm le run first becomes => exact Or.inr ⟨f, n, le, rfl, first, becomes⟩
  | nullRange le noRun =>
    obtain ⟨f, hf⟩ := hrun
    exact absurd (hf.take le) (noRun f)
  | grow grows maps =>
    refine Or.inl ⟨rfl, grows.mask, fun g hg => ?_⟩
    refine ((grows.used g).mp hg).imp_right fun ⟨i, ho⟩ => ?_
    exact (grows.pool g).mp (grows.inv.pool_of_owns ho).1
  | create effect active parent stack room held =>
    refine Or.inl ⟨rfl, effect.mask, fun g hg => ?_⟩
    refine ((effect.used g).mp hg).imp_right fun ⟨o, _, ho⟩ => ?_
    have hpool := (effect.inv.pool_of_owns ho).1
    rwa [Pmm.Pool, effect.mask] at hpool
  | map lt bound held effect place =>
    refine Or.inl ⟨rfl, effect.pmm.mask, fun g hg => ?_⟩
    refine ((effect.pmm.used g).mp hg).symm.imp_right fun hf => ?_
    exact (effect.pmm.free g hf).2.2.mpr rfl
  | free held becomes =>
    exact Or.inl ⟨rfl, becomes.mask, fun g hg => Or.inl ((becomes.used g).mp hg).2⟩

/-- **Every step leaves enough free frames**, when there were enough in one run. -/
lemma runBelow {top : ℕ} (h : SpawnStep lo t img s s')
    (hrun : s.kernel.pmm.RunBelow top s.quota) : s'.kernel.pmm.RunBelow top s'.quota := by
  obtain ⟨f, hf, -⟩ := id hrun
  rcases h.memory ⟨f, hf⟩ with ⟨hq, hmask, hused⟩ | ⟨g, n, hn, hq, hfirst, hb⟩
  · rw [hq]
    exact hrun.of_used hmask hused
  · rw [hq]
    exact hrun.of_range hn hfirst hb

end SpawnStep

/-! ### The calls as steps -/

lemma toInt_toNat {n : ℕ} (h : n < 2 ^ 31) : (toInt n).toNat = n := by
  rw [toInt, if_pos h, Int.toNat_natCast]

/-- Pages that follow a page, when they do not wrap around. -/
lemma wrap32_page {f i : ℕ} (h : f + i < frameCount) :
    wrap32 (f * 0x1000 + i * 0x1000) = (f + i) * 0x1000 := by
  rw [frameCount] at h
  rw [wrap32]
  omega

lemma wrap32_aligned {a : ℕ} (h : a % 0x1000 = 0) : wrap32 a % 0x1000 = 0 := by
  rw [wrap32]
  omega

section Calls

variable {img : ℕ → Prop} {s : Spawn}

/-- **A run of steps** keeps the invariant. -/
lemma SpawnInv.steps {s' : Spawn} (hs : SpawnInv lo s) (h : SpawnSteps lo t img s s') :
    SpawnInv lo s' := by
  induction h with
  | refl => exact hs
  | tail _ hstep ih => exact hstep.inv ih

/-- A run of steps leaves enough frames below a bound. -/
lemma runBelow_steps {s' : Spawn} {top : ℕ} (h : SpawnSteps lo t img s s')
    (hrun : s.kernel.pmm.RunBelow top s.quota) : s'.kernel.pmm.RunBelow top s'.quota := by
  induction h with
  | refl => exact hrun
  | tail hsteps hstep ih => exact hstep.runBelow ih

lemma hasRun_steps {s' : Spawn} (h : SpawnSteps lo t img s s')
    (hrun : s.kernel.pmm.HasRun s.quota) : s'.kernel.pmm.HasRun s'.quota :=
  Pmm.hasRun_iff.mpr (runBelow_steps h (Pmm.hasRun_iff.mp hrun))

variable (img)

/-- A range that `pmm_alloc_range` found. -/
lemma range_step {n : ℕ} {count : ℤ} {pmm : Pmm} {ptr : ℕ} (hs : SpawnInv lo s) (hn : 0 < n)
    (hcount : count.toNat = n) (hle : n ≤ s.quota)
    (hrun : n = kernelStackSizePages ∨ s.kernel.pmm.HasRun n)
    (h : pmmAllocRange s.kernel.pmm count = .ok (pmm, ptr)) :
    ∃ f, ptr = f * 0x1000 ∧ f + n ≤ frameCount ∧ SpawnStep lo t img s
      ⟨{ s.kernel with pmm }, (List.range' f n : Multiset ℕ) + s.held, s.quota - n⟩ := by
  subst hcount
  rcases allocRange_cases hs.inv.guarded hn h with
    ⟨rfl, rfl, hno⟩ | ⟨f, rfl, hfree, hfirst, hb⟩
  · rcases hrun with hstack | ⟨g, hg⟩
    · rw [hstack] at hno hle ⊢
      exact ⟨0, rfl, by decide, .nullRange hle hno⟩
    · exact absurd hg (hno g)
  · exact ⟨f, rfl, hfree.room, .range hle hfree hfirst hb⟩

/-- `vmm_alloc` as steps. -/
lemma vmmAlloc_steps {n ptr : ℕ} (hs : SpawnInv lo s) (hn : 0 < n) (hlt : n < 2 ^ 31)
    (hle : n ≤ s.quota) (hrun : n = kernelStackSizePages ∨ s.kernel.pmm.HasRun n)
    (h : vmmAlloc s.kernel n = .ok (k', ptr)) :
    ∃ f, ptr = f * 0x1000 ∧ f + n ≤ frameCount ∧ k'.tasks = s.kernel.tasks
      ∧ SpawnSteps lo t img s ⟨k', (List.range' f n : Multiset ℕ) + s.held, s.quota - n⟩ := by
  obtain ⟨pmm, hrange, hgrow, hmaps⟩ := vmmAlloc_spec hs.inv h
  obtain ⟨f, hptr, hroom, hstep⟩ := range_step img hs hn (toInt_toNat hlt) hle hrun hrange
  refine ⟨f, hptr, hroom, hgrow.tasks, (ReflTransGen.single hstep).tail (.grow hgrow ?_)⟩
  exact fun i j x hm => (hmaps i j x hm).imp_left (maps_pmm pmm none i j x).mpr

/-- A mapping for the task as a step. -/
lemma mapPage_step {virt f n : ℕ} {rest : Multiset ℕ} (hs : SpawnInv lo ⟨k, f ::ₘ rest, n⟩)
    (ht : (k.tasks t).active = true) (hf : f < frameCount) (hv : virt < 2 ^ 32)
    (hal : virt % 0x1000 = 0)
    (hplace : virt = wrap32 (f * 0x1000 + userSpaceOffset)
      ∨ img virt ∧ vmmLookup k virt (k.tasks t).context = 0)
    (h : mapPage k (k.tasks t).context virt (f * 0x1000) userFlags = .ok k') :
    k'.tasks = k.tasks ∧ SpawnStep lo t img ⟨k, f ::ₘ rest, n⟩ ⟨k', rest, n⟩ := by
  have hroot : k.Root (some t) (k.tasks t).context := ⟨ht, rfl⟩
  rcases mapPage_effect hs.inv hroot hv (by decide) h with ⟨hno, _⟩ | ⟨_, _, fresh, heff⟩
  · exact absurd ⟨hal, Nat.mul_mod_left f 0x1000⟩ hno
  · exact ⟨heff.tasks, .map hv hf rfl heff hplace⟩

/-- The next page of a range that is held. -/
lemma held_cons {f n i : ℕ} (hi : i < n) (rest : Multiset ℕ) :
    (List.range' (f + i) (n - i) : Multiset ℕ) + rest
      = (f + i) ::ₘ ((List.range' (f + (i + 1)) (n - (i + 1)) : Multiset ℕ) + rest) := by
  obtain ⟨m, rfl⟩ : ∃ m, n = i + 1 + m := ⟨n - (i + 1), by omega⟩
  rw [show i + 1 + m - i = m + 1 by omega, show i + 1 + m - (i + 1) = m by omega,
    List.range'_succ, ← Multiset.cons_coe, Multiset.cons_add, Nat.add_assoc]

/-- **`init_task` as steps.** -/
theorem initTask_steps (quota : ℕ) {term : ℤ} (hi : VmmInv lo k) (hlow : 0x200 < lo)
    (h : initTask k term = .ok (k', t)) :
    (k.tasks t).active = false ∧ (k'.tasks t).active = true
      ∧ SpawnSteps lo t img ⟨k, 0, kernelStackSizePages + (userStackSizePages + quota)⟩
        ⟨k', 0, quota⟩ := by
  rw [initTask] at h
  cases hfirst : k.tasks.firstInactive with
  | none =>
    rw [hfirst] at h
    cases h
  | some u =>
    rw [hfirst] at h
    have hidle := Tasks.firstInactive_spec hfirst
    obtain ⟨⟨k₁, stack⟩, h1, h⟩ := bind_eq_ok.mp h
    obtain ⟨⟨k₂, userStack⟩, h2, h⟩ := bind_eq_ok.mp h
    obtain ⟨⟨k₃, context⟩, h3, h⟩ := bind_eq_ok.mp h
    obtain ⟨k₄, h4, h⟩ := bind_eq_ok.mp h
    obtain ⟨rfl, rfl⟩ := Prod.mk.inj (Except.ok.inj h)
    have hsame := SameSlot.zero hidle
    have hs : SpawnInv lo ⟨k, 0, kernelStackSizePages + (userStackSizePages + quota)⟩ :=
      ⟨hi, hlow, by simp⟩
    have hsteps : SpawnSteps lo u img _ _ := ReflTransGen.single (SpawnStep.task
      (s := ⟨k, 0, kernelStackSizePages + (userStackSizePages + quota)⟩) Task.zero hsame)
    -- the two stacks
    obtain ⟨f, rfl, hf, ht₁, hsteps₁⟩ :=
      vmmAlloc_steps img (hs.steps hsteps) (by decide) (by decide)
      (Nat.le_add_right _ _) (Or.inl rfl) h1
    rw [Nat.add_sub_cancel_left] at hsteps₁
    have hsteps := hsteps.trans hsteps₁
    obtain ⟨g, rfl, hg, ht₂, hsteps₂⟩ :=
      vmmAlloc_steps img (hs.steps hsteps) (by decide) (by decide)
      (Nat.le_add_right _ _) (Or.inl rfl) h2
    rw [Nat.add_sub_cancel_left] at hsteps₂
    have hsteps := hsteps.trans hsteps₂
    have hs₂ := hs.steps hsteps
    -- the context
    obtain ⟨d, pmm, rfl, hcd, hc, hd, hcf, hdf, hb⟩ := vmmCreateContext_ok h3
    have hidle₂ : (k₂.tasks u).active = false := by
      rw [ht₂, ht₁]
      exact congrArg Task.active (Function.update_self u Task.zero k.tasks)
    let task : Task :=
      { Task.zero with
        registers := sub32 (wrap32 (f * 0x1000 + kernelStackSizePages * 4096)) registersSize
        active := true, stack := f * 0x1000, userStack := g * 0x1000, pid := k₂.currentPid, term
        context, parent := -1 }
    have heff : CreateEffect lo k₂ u task (withContext k₂ pmm context d u task
        (k₂.currentPid + 1)) :=
      create_effect hs₂.inv hidle₂ hcd hc hd hcf hdf hb rfl rfl
    have hsteps := hsteps.tail (.create heff rfl rfl rfl hf (add_left_comm _ _ _))
    -- the user stack
    have hturn : ∀ i q q', i < userStackSizePages →
        (q.tasks = Function.update k₂.tasks u task ∧ SpawnSteps lo u img
          ⟨k, 0, kernelStackSizePages + (userStackSizePages + quota)⟩
          ⟨q, (List.range' (g + i) (userStackSizePages - i) : Multiset ℕ) + 0, quota⟩) →
        mapPage q context (wrap32 (g * 0x1000 + i * 4096 + userSpaceOffset))
          (wrap32 (g * 0x1000 + i * 4096)) userFlags = .ok q' →
        (q'.tasks = Function.update k₂.tasks u task ∧ SpawnSteps lo u img
          ⟨k, 0, kernelStackSizePages + (userStackSizePages + quota)⟩
          ⟨q', (List.range' (g + (i + 1)) (userStackSizePages - (i + 1)) : Multiset ℕ) + 0,
            quota⟩) := by
      rintro i q q' hlt ⟨htasks, hq⟩ hmap
      have htask : q.tasks u = task := by
        rw [htasks, Function.update_self]
      have hpage : g * 0x1000 + i * 4096 = (g + i) * 0x1000 := (Nat.add_mul g i 0x1000).symm
      have hnowrap := wrap32_page (show g + i < frameCount by omega)
      rw [hpage] at hnowrap
      rw [hpage, hnowrap, show context = (q.tasks u).context by rw [htask]] at hmap
      rw [held_cons hlt] at hq
      have hal : ((g + i) * 0x1000 + userSpaceOffset) % 0x1000 = 0 := by
        rw [userSpaceOffset]
        omega
      obtain ⟨htasks', hstep⟩ := mapPage_step img (hs.steps hq) (by rw [htask]) (by omega)
        (wrap32_lt _) (wrap32_aligned hal) (Or.inl rfl) hmap
      exact ⟨htasks'.trans htasks, hq.tail hstep⟩
    have hloop := foldlM_range_rule _ hturn ⟨rfl, hsteps⟩ h4
    refine ⟨hidle, ?_, ?_⟩
    · rw [hloop.1, Function.update_self]
    · exact hloop.2

/-- The pages that a program header asks for. -/
def ElfProgramHeader.pages (ph : ElfProgramHeader) : ℕ := if ph.type = 1 then ph.realSize else 0

/-- The addresses of the pages of an image. -/
def ElfImage.Page (image : ElfImage) (virt : ℕ) : Prop :=
  ∃ ph ∈ image.programHeaders, ph.type = 1
    ∧ ∃ j < ph.realSize, virt = wrap32 (base ph.virtAddr + j * 4096)

/-- One turn of the loop of `init_elf` over the pages of a segment. -/
lemma loadPage_step {virt f n : ℕ} {rest : Multiset ℕ} (hs : SpawnInv lo ⟨k, f ::ₘ rest, n⟩)
    (ht : (k.tasks t).active = true) (hv : virt < 2 ^ 32) (hal : virt % 0x1000 = 0)
    (himg : img virt) (hf : f < frameCount)
    (h : (if vmmLookup k virt (k.tasks t).context ≠ 0 then do
        return { k with pmm := ← pmmFree k.pmm (f * 0x1000) }
      else mapPage k (k.tasks t).context virt (f * 0x1000) userFlags) = .ok k') :
    k'.tasks = k.tasks ∧ SpawnStep lo t img ⟨k, f ::ₘ rest, n⟩ ⟨k', rest, n⟩ := by
  by_cases hmapped : vmmLookup k virt (k.tasks t).context = 0
  · rw [if_neg (not_not.mpr hmapped)] at h
    exact mapPage_step img hs ht hf hv hal (Or.inr ⟨himg, hmapped⟩) h
  · rw [if_pos hmapped, bind_eq_ok] at h
    obtain ⟨pmm, hfree, hret⟩ := h
    obtain rfl := Except.ok.inj hret
    have hlt : f * 0x1000 < 2 ^ 32 := by
      rw [frameCount] at hf
      omega
    obtain ⟨q, hq, hb⟩ := pmmFree_ok (p := k.pmm) hlt
    obtain rfl : q = pmm := Except.ok.inj (hq.symm.trans hfree)
    have hdiv : f * 0x1000 / 4096 = f := Nat.mul_div_cancel _ (by norm_num)
    rw [hdiv] at hb
    exact ⟨rfl, .free rfl hb⟩

/-- A program header as steps. -/
lemma loadSegment_steps {ph : ElfProgramHeader} {n : ℕ} (hs : SpawnInv lo ⟨k, 0, ph.pages + n⟩)
    (ht : (k.tasks t).active = true) (hrun : k.pmm.HasRun (ph.pages + n))
    (himg : ph.type = 1 → ∀ j < ph.realSize, img (wrap32 (base ph.virtAddr + j * 4096)))
    (h : loadSegment (k.tasks t).context k ph = .ok k') :
    k'.tasks = k.tasks ∧ SpawnSteps lo t img ⟨k, 0, ph.pages + n⟩ ⟨k', 0, n⟩ := by
  rw [loadSegment] at h
  by_cases htype : ph.type = 1
  · rw [if_neg (not_not.mpr htype), bind_eq_ok] at h
    obtain ⟨⟨pmm, ptr⟩, hrange, hloop⟩ := h
    have hpages : ph.pages = ph.realSize := if_pos htype
    rw [hpages] at hs hrun ⊢
    have hpos : 0 < ph.realSize := by
      rw [ElfProgramHeader.realSize]
      omega
    obtain ⟨g, hg⟩ := hrun
    obtain ⟨f, rfl, hf, hstep⟩ := range_step (t := t) img hs hpos (Int.toNat_natCast _)
      (Nat.le_add_right _ _) (Or.inr ⟨g, hg.take (Nat.le_add_right _ _)⟩) hrange
    rw [Nat.add_sub_cancel_left] at hstep
    have hrule := foldlM_range_rule (s := { k with pmm }) (fun j q => q.tasks = k.tasks
      ∧ SpawnSteps lo t img ⟨k, 0, ph.realSize + n⟩
        ⟨q, (List.range' (f + j) (ph.realSize - j) : Multiset ℕ) + 0, n⟩)
      ?_ ⟨rfl, ReflTransGen.single hstep⟩ hloop
    · rw [Nat.sub_self] at hrule
      exact hrule
    · rintro j q q' hj ⟨htasks, hq⟩ hbody
      have hnowrap := wrap32_page (show f + j < frameCount by omega)
      have hpage : f * 0x1000 + j * 4096 = (f + j) * 0x1000 := (Nat.add_mul f j 0x1000).symm
      rw [hpage] at hnowrap
      rw [hpage, hnowrap, ← htasks] at hbody
      rw [held_cons hj] at hq
      have hal : (base ph.virtAddr + j * 4096) % 0x1000 = 0 := by
        obtain ⟨b, hb⟩ := dvd_base ph.virtAddr
        omega
      obtain ⟨htasks', hstep'⟩ := loadPage_step img (hs.steps hq) (by rw [htasks]; exact ht)
        (wrap32_lt _) (wrap32_aligned hal) (himg htype j hj) (by omega) hbody
      exact ⟨htasks'.trans htasks, hq.tail hstep'⟩
  · rw [if_pos htype] at h
    obtain rfl := Except.ok.inj h
    have hpages : ph.pages = 0 := if_neg htype
    rw [hpages, Nat.zero_add]
    exact ⟨rfl, .refl⟩

/-- The loop of `init_elf` over the program headers as steps. -/
lemma loadSegments_steps {l : List ElfProgramHeader} {n : ℕ}
    (hs : SpawnInv lo ⟨k, 0, (l.map ElfProgramHeader.pages).sum + n⟩)
    (ht : (k.tasks t).active = true)
    (hrun : k.pmm.HasRun ((l.map ElfProgramHeader.pages).sum + n))
    (himg : ∀ ph ∈ l, ph.type = 1 → ∀ j < ph.realSize, img (wrap32 (base ph.virtAddr + j * 4096)))
    (h : l.foldlM (loadSegment (k.tasks t).context) k = .ok k') :
    k'.tasks = k.tasks
      ∧ SpawnSteps lo t img ⟨k, 0, (l.map ElfProgramHeader.pages).sum + n⟩ ⟨k', 0, n⟩ := by
  induction l generalizing k with
  | nil =>
    obtain rfl : k = k' := Except.ok.inj h
    rw [List.map_nil, List.sum_nil, Nat.zero_add]
    exact ⟨rfl, .refl⟩
  | cons ph l ih =>
    rw [List.map_cons, List.sum_cons, Nat.add_assoc] at hs hrun ⊢
    rw [List.foldlM_cons, bind_eq_ok] at h
    obtain ⟨q, hq, h⟩ := h
    obtain ⟨htasks, hsteps⟩ := loadSegment_steps img hs ht hrun (himg ph List.mem_cons_self) hq
    rw [← htasks] at h ht
    obtain ⟨htasks', hsteps'⟩ := ih (hs.steps hsteps) ht (hasRun_steps hsteps hrun)
      (fun ph' hph => himg ph' (List.mem_cons_of_mem ph hph)) h
    exact ⟨htasks'.trans htasks, hsteps.trans hsteps'⟩

/-- A page for arguments as steps. -/
lemma argPage_steps {page n : ℕ} (hs : SpawnInv lo ⟨k, 0, 1 + n⟩)
    (ht : (k.tasks t).active = true) (hrun : k.pmm.HasRun (1 + n))
    (h : argPage (k.tasks t).context k = .ok (k', page)) :
    k'.tasks = k.tasks ∧ SpawnSteps lo t img ⟨k, 0, 1 + n⟩ ⟨k', 0, n⟩ := by
  rw [argPage, bind_eq_ok] at h
  obtain ⟨⟨k₁, ptr⟩, h1, h⟩ := h
  obtain ⟨k₂, h2, hret⟩ := bind_eq_ok.mp h
  obtain ⟨rfl, rfl⟩ := Prod.mk.inj (Except.ok.inj hret)
  obtain ⟨g, hg⟩ := hrun
  obtain ⟨f, rfl, hf, htasks, hsteps⟩ := vmmAlloc_steps (t := t) img hs Nat.one_pos
    (by norm_num) (Nat.le_add_right _ _) (Or.inr ⟨g, hg.take (Nat.le_add_right _ _)⟩) h1
  rw [Nat.add_sub_cancel_left] at hsteps
  have hal : (f * 0x1000 + userSpaceOffset) % 0x1000 = 0 := by
    rw [userSpaceOffset]
    omega
  have htasks : k₁.tasks = k.tasks := htasks
  rw [← htasks] at h2
  have hs₁ : SpawnInv lo ⟨k₁, f ::ₘ 0, n⟩ := hs.steps hsteps
  obtain ⟨htasks', hstep⟩ := mapPage_step img hs₁ (by rw [htasks]; exact ht) hf
      (wrap32_lt _) (wrap32_aligned hal) (Or.inl rfl) h2
  exact ⟨htasks'.trans htasks, hsteps.tail hstep⟩

/-- An argument vector as steps. -/
lemma argVector_steps {num n page : ℕ} (hs : SpawnInv lo ⟨k, 0, 1 + (num + n)⟩)
    (ht : (k.tasks t).active = true) (hrun : k.pmm.HasRun (1 + (num + n)))
    (h : argVector (k.tasks t).context num k = .ok (k', page)) :
    k'.tasks = k.tasks ∧ SpawnSteps lo t img ⟨k, 0, 1 + (num + n)⟩ ⟨k', 0, n⟩ := by
  rw [argVector, bind_eq_ok] at h
  obtain ⟨⟨k₁, ptr⟩, h1, h⟩ := h
  obtain ⟨k₂, h2, hret⟩ := bind_eq_ok.mp h
  obtain ⟨rfl, _⟩ := Prod.mk.inj (Except.ok.inj hret)
  obtain ⟨htasks, hsteps⟩ := argPage_steps img hs ht hrun h1
  have hrule := foldlM_range_rule (fun j q => q.tasks = k.tasks
    ∧ SpawnSteps lo t img ⟨k, 0, 1 + (num + n)⟩ ⟨q, 0, (num - j) + n⟩) ?_ ⟨htasks, hsteps⟩ h2
  · rw [Nat.sub_self, Nat.zero_add] at hrule
    exact hrule
  · rintro j q q' hj ⟨hq, hqs⟩ hbody
    obtain ⟨⟨q₁, page'⟩, hpage, heq⟩ : ∃ x, argPage (k.tasks t).context q = .ok x ∧ x.1 = q' := by
      cases hx : argPage (k.tasks t).context q with
      | error e => simp [hx] at hbody
      | ok x => exact ⟨x, rfl, by simpa [hx] using hbody⟩
    obtain rfl : q₁ = q' := heq
    have hnum : num - j + n = 1 + (num - (j + 1) + n) := by omega
    rw [← hq] at hpage
    rw [hnum] at hqs
    obtain ⟨hq', hqs'⟩ := argPage_steps img (hs.steps hqs) (by rw [hq]; exact ht)
      (hasRun_steps hqs hrun) hpage
    exact ⟨hq'.trans hq, hqs.trans hqs'⟩

/-- The frames that a creation asks for. -/
def spawnPages (image : ElfImage) (numArgv numEnvp : ℕ) : ℕ :=
  kernelStackSizePages + (userStackSizePages
    + ((image.programHeaders.map ElfProgramHeader.pages).sum
      + (1 + (numArgv + (1 + (numEnvp + 0))))))

/-- **`init_elf` as steps**, when there are enough free frames in one run. -/
theorem initElf_steps {term pid : ℤ} {image : ElfImage} {numArgv numEnvp : ℕ}
    (hi : VmmInv lo k) (hlow : 0x200 < lo)
    (hrun : k.pmm.HasRun (spawnPages image numArgv numEnvp))
    (hmagic : image.magic = elfMagic)
    (h : initElf k term image numArgv numEnvp = .ok (k', pid)) :
    ∃ t, (k.tasks t).active = false ∧ (k'.tasks t).active = true ∧ (k'.tasks t).pid = pid
      ∧ SpawnSteps lo t image.Page ⟨k, 0, spawnPages image numArgv numEnvp⟩ ⟨k', 0, 0⟩ := by
  rw [initElf, if_neg (not_not.mpr hmagic), bind_eq_ok] at h
  obtain ⟨⟨k₁, t⟩, h1, h⟩ := h
  obtain ⟨k₂, h2, h⟩ := bind_eq_ok.mp h
  obtain ⟨⟨k₃, argv⟩, h3, h⟩ := bind_eq_ok.mp h
  obtain ⟨⟨k₄, envp⟩, h4, h⟩ := bind_eq_ok.mp h
  obtain ⟨rfl, hpid⟩ := Prod.mk.inj (Except.ok.inj h)
  have hs : SpawnInv lo ⟨k, 0, spawnPages image numArgv numEnvp⟩ := ⟨hi, hlow, by simp⟩
  obtain ⟨hidle, hact, hsteps⟩ := initTask_steps image.Page _ hi hlow h1
  obtain ⟨ht₂, hsteps₂⟩ := loadSegments_steps image.Page (hs.steps hsteps) hact
    (hasRun_steps hsteps hrun) (fun ph hph htype j hj => ⟨ph, hph, htype, j, hj, rfl⟩) h2
  have hsteps := hsteps.trans hsteps₂
  simp only [← ht₂] at h3 h4 hact
  obtain ⟨ht₃, hsteps₃⟩ := argVector_steps image.Page (hs.steps hsteps) hact
    (hasRun_steps hsteps hrun) h3
  have hsteps := hsteps.trans hsteps₃
  simp only [← ht₃] at h4 hact
  obtain ⟨ht₄, hsteps₄⟩ := argVector_steps image.Page (hs.steps hsteps) hact
    (hasRun_steps hsteps hrun) h4
  have hsteps := hsteps.trans hsteps₄
  have hsame : SameSlot (k₄.tasks t) { k₄.tasks t with argv, envp } :=
    ⟨rfl, fun _ => rfl, fun _ => rfl, fun _ => rfl⟩
  have hself : (Function.update k₄.tasks t { k₄.tasks t with argv, envp }) t
      = { k₄.tasks t with argv, envp } := Function.update_self _ _ _
  refine ⟨t, hidle, ?_, ?_, hsteps.tail (.task _ hsame)⟩
  · exact (congrArg Task.active hself).trans (by rw [ht₄]; exact hact)
  · exact (congrArg Task.pid hself).trans hpid

end Calls

end MicroOS
