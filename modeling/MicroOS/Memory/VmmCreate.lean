import MicroOS.Memory.VmmAlloc

/-!
The beginning of an address space.

* `vmmCreateContext_ok`: `vmm_create_context` takes two free pages of the pool.
* `withContext`: the state of `init_task` after `vmm_clone_kernel_context`, page by page.
* `CreateEffect`: a task gets a context of its own, in which the kernel is mapped and nothing
  else; `create_effect` shows it of `withContext`.
-/

namespace MicroOS

open ByteMem Checked PageEntry

variable {lo : ℕ} {k k' : Kernel} {t : Fin maxTasks} {task : Task}

/-! ### Creating a context -/

/-- The loop of `vmm_clone_kernel_context` copies the entries that are present. -/
lemma cloneLoop_spec {kc c kd d : ℕ} (hkc : kc ≠ d) (hc : c ≠ d) (hkd : kd ≠ d) (l : List ℕ)
    {m : PageMem} (hm : m kc 0 = kd) (hm' : m c 0 = d) (p i : ℕ) :
    l.foldl (fun m i => if Present (m (m kc 0) i) then
        m.set (m c 0) i (m (m kc 0) i) else m) m p i
      = if p = d ∧ i ∈ l ∧ Present (m kd i) then m kd i else m p i := by
  induction l generalizing m with
  | nil => simp
  | cons a l ih =>
    rw [List.foldl_cons, hm, hm']
    by_cases ha : Present (m kd a)
    · rw [if_pos ha]
      have hset : ∀ q j, q ≠ d → m.set d a (m kd a) q j = m q j :=
        fun q j hq => m.set_of_ne _ _ _ hq
      rw [ih ((hset kc 0 hkc).trans hm) ((hset c 0 hc).trans hm'), hset kd i hkd,
        PageMem.set_apply]
      by_cases hp : p = d
      · by_cases hi : i = a
        · subst hi
          simp [hp, ha]
        · simp [hp, hi]
      · simp [hp]
    · rw [if_neg ha, ih hm hm']
      have hcons : i ∈ a :: l ∧ Present (m kd i) ↔ i ∈ l ∧ Present (m kd i) := by
        refine ⟨fun h => ⟨(List.mem_cons.mp h.1).resolve_left ?_, h.2⟩, fun h =>
          ⟨List.mem_cons_of_mem a h.1, h.2⟩⟩
        rintro rfl
        exact ha h.2
      simp only [hcons]

/-- **The effect of creating the context of a task** in the slot `t`. -/
structure CreateEffect (lo : ℕ) (k : Kernel) (t : Fin maxTasks) (task : Task) (k' : Kernel) :
    Prop where
  inv : VmmInv lo k'
  tasks : k'.tasks = Function.update k.tasks t task
  kernelContext : k'.kernelContext = k.kernelContext
  currentTask : k'.currentTask = k.currentTask
  mask : k'.pmm.bitmapPagetableMask = k.pmm.bitmapPagetableMask
  used : ∀ f, k'.pmm.Used f ↔ k.pmm.Used f ∨ ∃ o, o.space = some t ∧ k'.Owns o (f * 0x1000)
  owns : ∀ o p, o.space ≠ some t → (k'.Owns o p ↔ k.Owns o p)
  fresh : ∀ o p, o.space = some t → k'.Owns o p → ¬ k.pmm.Used (p / 0x1000)
  none : ∀ o p, o.space = some t → ¬ k.Owns o p
  maps : ∀ s i j x, k'.Maps s i j x ↔ k.Maps s i j x
  tables : ∀ i, ¬ k'.HasTable (some t) i

/-- The state of `init_task` once the context is there. -/
def withContext (k : Kernel) (pmm : Pmm) (context pagedir : ℕ) (t : Fin maxTasks) (task : Task)
    (pid : ℤ) : Kernel :=
  vmmCloneKernelContext
    { k with
      pmm
      mem := (k.mem.set context 0 pagedir).clear pagedir
      tasks := Function.update k.tasks t task
      currentPid := pid } context

/-- The memory behind a new context: its directory is cleared, and gets the tables of the kernel. -/
lemma withContext_mem_eq (c d : ℕ) (pmm : Pmm) (pid : ℤ) :
    (withContext k pmm c d t task pid).mem
      = (List.range 1024).foldl
        (fun m i => if Present (m (m k.kernelContext 0) i) then
          m.set (m c 0) i (m (m k.kernelContext 0) i) else m) ((k.mem.set c 0 d).clear d) := by
  rw [withContext, vmmCloneKernelContext]

/-- No space belongs to a slot that is not active. -/
lemma not_root_of_inactive (ht : (k.tasks t).active = false) (c : ℕ) : ¬ k.Root (some t) c := by
  rintro ⟨hact, _⟩
  simp [ht] at hact

/-- A task that is not active owns nothing. -/
lemma not_owns_of_inactive (ht : (k.tasks t).active = false) {o : Owner} {p : ℕ}
    (ho : o.space = some t) : ¬ k.Owns o p := by
  have hno := not_root_of_inactive ht
  intro h
  cases h with
  | context root =>
    obtain rfl := ho
    exact hno _ root
  | dir root =>
    obtain rfl := ho
    exact hno _ root
  | table root _ _ _ =>
    obtain rfl := ho
    exact hno _ root

/-- **`vmm_create_context`** takes two free pages of the pool. -/
lemma vmmCreateContext_ok {c : ℕ} (h : vmmCreateContext k = .ok (k', c)) :
    ∃ d pmm, k' = { k with pmm, mem := (k.mem.set c 0 d).clear d } ∧ c ≠ d
      ∧ PoolPage pmm c ∧ PoolPage pmm d
      ∧ ¬ k.pmm.Used (c / 0x1000) ∧ ¬ k.pmm.Used (d / 0x1000)
      ∧ k.pmm.Becomes pmm fun h => (h = c / 0x1000 ∨ h = d / 0x1000) ∨ k.pmm.Used h := by
  have hpage : ∀ {p q : Pmm} {f : ℕ}, f < frameCount → p.Fits true f → q.Used f →
      q.bitmapPagetableMask = p.bitmapPagetableMask → PoolPage q (f * 0x1000) := by
    intro p q f hf hfit hused hmask
    have hdiv : f * 0x1000 / 0x1000 = f := Nat.mul_div_cancel _ (by norm_num)
    refine ⟨Dvd.intro_left f rfl, ?_, ?_, ?_⟩
    · rw [frameCount] at hf
      omega
    · rw [hdiv, Pmm.Pool, hmask]
      exact hfit.2.mpr rfl
    · rwa [hdiv]
  rw [vmmCreateContext, bind_eq_ok] at h
  obtain ⟨⟨p₁, c₁⟩, h1, h⟩ := h
  obtain ⟨⟨p₂, d⟩, h2, h⟩ := bind_eq_ok.mp h
  obtain ⟨rfl, rfl⟩ := Prod.mk.inj (Except.ok.inj h)
  rcases allocFrame_spec k.pmm true with ⟨ha, _⟩ | ⟨f, q, ha, hf, hff, _, hb⟩
  · cases ha.symm.trans h1
  obtain ⟨rfl, rfl⟩ := Prod.mk.inj (Except.ok.inj (ha.symm.trans h1))
  rcases allocFrame_spec q true with ⟨ha', _⟩ | ⟨g, q', ha', hg, hgf, _, hb'⟩
  · cases ha'.symm.trans h2
  obtain ⟨rfl, rfl⟩ := Prod.mk.inj (Except.ok.inj (ha'.symm.trans h2))
  have hne : f ≠ g := by
    rintro rfl
    exact hgf.1 ((hb.used f).mpr (Or.inl rfl))
  have hgk : k.pmm.Fits true g :=
    ⟨fun hu => hgf.1 ((hb.used g).mpr (Or.inr hu)), (hb.pool g).symm.trans hgf.2⟩
  have hdiv : ∀ h : ℕ, h * 0x1000 / 0x1000 = h := fun h => Nat.mul_div_cancel h (by norm_num)
  have hused : ∀ h, q'.Used h ↔ (h = f ∨ h = g) ∨ k.pmm.Used h := by
    intro h
    rw [hb'.used, hb.used]
    tauto
  have hmask : q'.bitmapPagetableMask = k.pmm.bitmapPagetableMask := hb'.mask.trans hb.mask
  refine ⟨g * 0x1000, q', rfl, fun h => hne (Nat.eq_of_mul_eq_mul_right (by norm_num) h),
    hpage hf hff ((hused f).mpr (Or.inl (Or.inl rfl))) hmask,
    hpage hg hgk ((hused g).mpr (Or.inl (Or.inr rfl))) hmask, ?_, ?_, ⟨hmask, ?_⟩⟩
  · rw [hdiv]
    exact hff.1
  · rw [hdiv]
    exact hgk.1
  · rw [hdiv, hdiv]
    exact hused

section WithContext

variable {c d : ℕ} {pmm : Pmm} {pid : ℤ} (hcd : c ≠ d)
  (hfresh : ∀ o p, k.Owns o p → p ≠ c ∧ p ≠ d)

include hcd hfresh

/-- The memory of the new state, page by page. -/
lemma withContext_mem (p i : ℕ) :
    (withContext k pmm c d t task pid).mem p i
      = if p = d ∧ i ∈ List.range 1024 ∧ Present (k.kernelEntry i) then k.kernelEntry i
        else ((k.mem.set c 0 d).clear d) p i := by
  have hkc : k.Root none k.kernelContext := rfl
  obtain ⟨hkc1, hkc2⟩ := hfresh _ _ (.context hkc)
  obtain ⟨hkd1, hkd2⟩ := hfresh _ _ (.dir hkc)
  have hold : ∀ p i, p ≠ c → p ≠ d → ((k.mem.set c 0 d).clear d) p i = k.mem p i := by
    intro p i hpc hpd
    rw [PageMem.clear_of_ne _ _ hpd, PageMem.set_of_ne _ _ _ _ hpc]
  have hnew : ((k.mem.set c 0 d).clear d) c 0 = d := by
    rw [PageMem.clear_of_ne _ _ hcd, PageMem.set_apply, if_pos ⟨rfl, rfl⟩]
  have hloop := cloneLoop_spec hkc2 hcd hkd2 (List.range 1024) (hold _ 0 hkc1 hkc2) hnew p i
  rw [hold _ i hkd1 hkd2] at hloop
  rw [withContext_mem_eq]
  exact hloop

/-- Owned pages are as before. -/
lemma withContext_mem_owned {o : Owner} {p : ℕ} (h : k.Owns o p) (i : ℕ) :
    (withContext k pmm c d t task pid).mem p i = k.mem p i := by
  obtain ⟨hpc, hpd⟩ := hfresh o p h
  rw [withContext_mem hcd hfresh, if_neg fun h => hpd h.1, PageMem.clear_of_ne _ _ hpd,
    PageMem.set_of_ne _ _ _ _ hpc]

lemma withContext_pagedir : (withContext k pmm c d t task pid).pagedir c = d := by
  rw [Kernel.pagedir, withContext_mem hcd hfresh, if_neg fun h => hcd h.1,
    PageMem.clear_of_ne _ _ hcd, PageMem.set_apply, if_pos ⟨rfl, rfl⟩]

/-- The new directory. -/
lemma withContext_entry {i : ℕ} (hi : i < 1024) :
    (withContext k pmm c d t task pid).entry c i
      = if Present (k.kernelEntry i) then k.kernelEntry i else 0 := by
  rw [Kernel.entry, withContext_pagedir hcd hfresh, withContext_mem hcd hfresh,
    PageMem.clear_self]
  simp [hi]

/-- The directories that were there. -/
lemma withContext_root {s : Space} {c' : ℕ} (hr : k.Root s c') :
    (withContext k pmm c d t task pid).pagedir c' = k.pagedir c'
      ∧ ∀ i, (withContext k pmm c d t task pid).entry c' i = k.entry c' i := by
  have hdir : (withContext k pmm c d t task pid).pagedir c' = k.pagedir c' :=
    withContext_mem_owned hcd hfresh (.context hr) 0
  refine ⟨hdir, fun i => ?_⟩
  rw [Kernel.entry, hdir]
  exact withContext_mem_owned hcd hfresh (.dir hr) i

lemma withContext_kernelEntry (i : ℕ) :
    (withContext k pmm c d t task pid).kernelEntry i = k.kernelEntry i :=
  (withContext_root (s := none) hcd hfresh rfl).2 i

variable (ht : (k.tasks t).active = false) (hactive : task.active = true)
  (hcontext : task.context = c)

omit hcd hfresh in
include ht hactive hcontext in
/-- The task has the new context, and the others keep theirs. -/
lemma root_withContext (s : Space) (c' : ℕ) :
    (withContext k pmm c d t task pid).Root s c' ↔ k.Root s c' ∨ (s = some t ∧ c' = c) := by
  have htasks : (withContext k pmm c d t task pid).tasks = Function.update k.tasks t task := rfl
  cases s with
  | none => exact ⟨Or.inl, fun h => h.elim id fun h => nomatch h.1⟩
  | some u =>
    by_cases hu : u = t
    · subst hu
      rw [or_iff_right (not_root_of_inactive ht c'), Kernel.Root, htasks,
        Function.update_self, hactive, hcontext]
      simp
    · rw [Kernel.Root, htasks, Function.update_of_ne hu]
      exact ⟨Or.inl, fun h => h.resolve_right fun hc => hu (Option.some.inj hc.1)⟩

include ht hactive hcontext

/-- The new task owns its context and its directory. -/
lemma withContext_owns (o : Owner) (p : ℕ) :
    (withContext k pmm c d t task pid).Owns o p ↔ k.Owns o p
      ∨ (o = .context (some t) ∧ p = c) ∨ (o = .dir (some t) ∧ p = d) := by
  have hroot : ∀ s c', (withContext k pmm c d t task pid).Root s c'
      ↔ k.Root s c' ∨ (s = some t ∧ c' = c) := root_withContext ht hactive hcontext
  have hown : ∀ s i, (withContext k pmm c d t task pid).OwnSlot s i ↔ k.OwnSlot s i := by
    intro s i
    rw [Kernel.OwnSlot, Kernel.OwnSlot, withContext_kernelEntry hcd hfresh]
  constructor
  · intro h
    cases h with
    | context root =>
      rcases (hroot _ _).mp root with root | ⟨rfl, rfl⟩
      · exact Or.inl (.context root)
      · exact Or.inr (Or.inl ⟨rfl, rfl⟩)
    | dir root =>
      rcases (hroot _ _).mp root with root | ⟨rfl, rfl⟩
      · rw [(withContext_root hcd hfresh root).1]
        exact Or.inl (.dir root)
      · exact Or.inr (Or.inr ⟨rfl, withContext_pagedir hcd hfresh⟩)
    | @table s c' i root hlt present own =>
      rcases (hroot _ _).mp root with root | ⟨rfl, rfl⟩
      · rw [(withContext_root hcd hfresh root).2] at present ⊢
        exact Or.inl (.table root hlt present ((hown s i).mp own))
      · -- the tables in the new directory are the kernel's
        rw [withContext_entry hcd hfresh hlt] at present
        rcases own with hs | hno
        · cases hs
        · rw [withContext_kernelEntry hcd hfresh] at hno
          rw [if_neg hno] at present
          exact absurd present not_present_zero
  · rintro (h | ⟨rfl, rfl⟩ | ⟨rfl, rfl⟩)
    · cases h with
      | context root => exact .context ((hroot _ _).mpr (Or.inl root))
      | dir root =>
        rw [← (withContext_root hcd hfresh root).1]
        exact .dir ((hroot _ _).mpr (Or.inl root))
      | @table s c' i root hlt present own =>
        rw [← (withContext_root hcd hfresh root).2] at present ⊢
        exact .table ((hroot _ _).mpr (Or.inl root)) hlt present ((hown s i).mpr own)
    · exact .context ((hroot _ _).mpr (Or.inr ⟨rfl, rfl⟩))
    · have hdir := Kernel.Owns.dir ((hroot _ _).mpr (Or.inr ⟨rfl, rfl⟩))
      rwa [withContext_pagedir hcd hfresh] at hdir

/-- Nothing else is mapped with it. -/
lemma withContext_maps (s : Space) (i j x : ℕ) :
    (withContext k pmm c d t task pid).Maps s i j x ↔ k.Maps s i j x := by
  refine exists_congr fun p => ?_
  have htable : (withContext k pmm c d t task pid).Owns (.table s i) p ↔ k.Owns (.table s i) p := by
    rw [withContext_owns hcd hfresh ht hactive hcontext]
    simp
  rw [htable]
  refine and_congr_right fun hp => and_congr_right fun _ => ?_
  rw [withContext_mem_owned hcd hfresh hp]

end WithContext

section Create

variable {c d : ℕ} {pmm : Pmm} {pid : ℤ} (hi : VmmInv lo k)
  (ht : (k.tasks t).active = false) (hcd : c ≠ d)
  (hc : PoolPage pmm c) (hd : PoolPage pmm d)
  (hcf : ¬ k.pmm.Used (c / 0x1000)) (hdf : ¬ k.pmm.Used (d / 0x1000))
  (hb : k.pmm.Becomes pmm fun h => (h = c / 0x1000 ∨ h = d / 0x1000) ∨ k.pmm.Used h)
  (hactive : task.active = true) (hcontext : task.context = c)

include hi ht hcd hc hd hcf hdf hb hactive hcontext

/-- **The context of a new task** holds the tables of the kernel and no others. -/
theorem create_effect : CreateEffect lo k t task (withContext k pmm c d t task pid) := by
  have hfresh : ∀ o p, k.Owns o p → p ≠ c ∧ p ≠ d := by
    intro o p h
    have hused := (hi.owned o p h).used
    refine ⟨?_, ?_⟩
    · rintro rfl
      exact hcf hused
    · rintro rfl
      exact hdf hused
  have howns : ∀ o p, (withContext k pmm c d t task pid).Owns o p ↔ k.Owns o p
      ∨ (o = .context (some t) ∧ p = c) ∨ (o = .dir (some t) ∧ p = d) :=
    withContext_owns hcd hfresh ht hactive hcontext
  have hmono : ∀ h, k.pmm.Used h → pmm.Used h := fun h hu => (hb.used h).mpr (Or.inr hu)
  -- the new owners are the context and the directory, in two frames that were not used
  have hinv : VmmInv lo (withContext k pmm c d t task pid) := by
    have hg := hi.guarded
    refine hi.of_owns (fun o p => (o = .context (some t) ∧ p = c) ∨ (o = .dir (some t) ∧ p = d))
      ⟨fun h => (hb.pool h).trans (hg.pool h), hg.pos, hg.room, hmono _ hg.below,
        hmono _ hg.last⟩ ?_ ?_ ?_ ?_
    · intro o p h
      refine ⟨(howns o p).mp h, ?_⟩
      rcases (howns o p).mp h with h | ⟨_, rfl⟩ | ⟨_, rfl⟩
      · have hp := hi.owned o p h
        exact VmmInv.poolPage_mono hp hb.mask (hmono _ hp.used)
      · exact hc
      · exact hd
    · rintro o p (⟨_, rfl⟩ | ⟨_, rfl⟩)
      · exact hcf
      · exact hdf
    · rintro o o' p (⟨rfl, rfl⟩ | ⟨rfl, rfl⟩) (⟨rfl, hp⟩ | ⟨rfl, hp⟩)
      · rfl
      · exact absurd hp hcd
      · exact absurd hp.symm hcd
      · rfl
    · intro u hu i hlt hpres
      have hr : (withContext k pmm c d t task pid).Root (some u)
        ((withContext k pmm c d t task pid).tasks u).context := ⟨hu, rfl⟩
      rw [withContext_kernelEntry hcd hfresh] at hpres ⊢
      rcases (root_withContext ht hactive hcontext _ _).mp hr with hr | ⟨_, heq⟩
      · rw [(withContext_root hcd hfresh hr).2, hr.2]
        exact hi.sync u hr.1 i hlt hpres
      · rw [heq, withContext_entry hcd hfresh hlt, if_pos hpres]
  refine ⟨hinv, rfl, rfl, rfl, hb.mask, fun h => ?_, fun o p ho => ?_, fun o p ho h => ?_,
    fun o p ho => not_owns_of_inactive ht ho, withContext_maps hcd hfresh ht hactive hcontext, ?_⟩
  · -- a frame is used when it was, or when one of the two pages lies in it
    have hpage : ∀ p, PoolPage pmm p → h = p / 0x1000 → p = h * 0x1000 := by
      rintro p hp rfl
      exact (Nat.div_mul_cancel hp.aligned).symm
    constructor
    · intro hu
      rcases (hb.used h).mp hu with (hh | hh) | hu
      · exact Or.inr ⟨.context (some t), rfl,
          (howns _ _).mpr (Or.inr (Or.inl ⟨rfl, (hpage c hc hh).symm⟩))⟩
      · exact Or.inr ⟨.dir (some t), rfl,
          (howns _ _).mpr (Or.inr (Or.inr ⟨rfl, (hpage d hd hh).symm⟩))⟩
      · exact Or.inl hu
    · rintro (hu | ⟨o, _, ho⟩)
      · exact hmono h hu
      · exact (hinv.pool_of_owns ho).2
  · rw [howns]
    refine or_iff_left ?_
    rintro (⟨rfl, _⟩ | ⟨rfl, _⟩)
    · exact ho rfl
    · exact ho rfl
  · rcases (howns o p).mp h with h | ⟨_, rfl⟩ | ⟨_, rfl⟩
    · exact absurd h (not_owns_of_inactive ht ho)
    · exact hcf
    · exact hdf
  · rintro i ⟨p, hp⟩
    rcases (howns _ p).mp hp with h | ⟨hc, _⟩ | ⟨hc, _⟩
    · exact not_owns_of_inactive ht rfl h
    · cases hc
    · cases hc

end Create

end MicroOS
