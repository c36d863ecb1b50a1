import MicroOS.Syscall.FrameSharing

/-!
Where the frames of a new task are.

* `ElfImage.Valid`: the pages of an image and those of the stack and the arguments are apart, and
  neither lies where the kernel gets a page table in the meantime; `Kernel.MayTake` are the slots
  of the directory in which it may get one.
* `SpawnKept`: in a creation nothing that was in use is freed, and what is taken was free.
* `initElf_takesOnly`: `init_elf` makes tables of the kernel in no other slots.
* `SpawnLedger`: every frame that came into use is a table of the kernel, or the task is charged
  with it, or it is of the kernel stack of the task, or still held; `SpawnLedger.step` is the step
  lemma, and `initElf_ledger` the result.
-/

namespace MicroOS

open ByteMem Checked PageEntry Relation

variable {lo top : ℕ} {k₀ k k' : Kernel} {t : Fin maxTasks} {image : ElfImage} {img : ℕ → Prop}
  {s s' : Spawn}

/-! ### Valid images -/

/-- Where a frame of the stack or of the arguments is mapped for a task. -/
def userAddress (f : ℕ) : ℕ := wrap32 (f * 0x1000 + userSpaceOffset)

/-- **A slot of the directory that `vmm_alloc` may take for the kernel**, with the memory below
`top`: it has no table of the kernel, and a frame is free that lies in it. -/
def Kernel.MayTake (k : Kernel) (top i : ℕ) : Prop :=
  ¬ k.HasTable none i ∧ ∃ f < top, ¬ k.pmm.Used f ∧ pdIndexOf (f * 0x1000) = i

/-- **A valid image**, for a creation that finds its frames below `top`. -/
structure ElfImage.Valid (image : ElfImage) (k : Kernel) (top : ℕ) : Prop where
  magic : image.magic = elfMagic
  pages : ∀ virt, image.Page virt → ¬ k.MayTake top (pdIndexOf virt)
  user : ∀ f < top, ¬ k.pmm.Used f → ¬ k.MayTake top (pdIndexOf (userAddress f))
  apart : ∀ f < top, ¬ k.pmm.Used f → ¬ image.Page (userAddress f)

/-- A user address is that of a page. -/
lemma userAddress_aligned (f : ℕ) : userAddress f % 0x1000 = 0 := by
  refine wrap32_aligned ?_
  rw [userSpaceOffset]
  omega

/-- Different frames have different addresses. -/
lemma userAddress_inj {f g : ℕ} (hf : f < frameCount) (hg : g < frameCount)
    (h : userAddress f = userAddress g) : f = g := by
  rw [userAddress, userAddress, wrap32, wrap32, userSpaceOffset] at h
  rw [frameCount] at hf hg
  omega

/-- So is that of a page of the image. -/
lemma ElfImage.Page.aligned {virt : ℕ} (h : image.Page virt) : virt % 0x1000 = 0 := by
  obtain ⟨ph, -, -, j, -, rfl⟩ := h
  refine wrap32_aligned ?_
  obtain ⟨b, hb⟩ := dvd_base ph.virtAddr
  omega

/-- The indices of a page give its address. -/
lemma page_eq_of_index {a b : ℕ} (ha : a % 0x1000 = 0) (hb : b % 0x1000 = 0)
    (hpd : pdIndexOf a = pdIndexOf b) (hpt : ptIndexOf a = ptIndexOf b) : a = b := by
  rw [pdIndexOf, pdIndexOf] at hpd
  rw [ptIndexOf, ptIndexOf] at hpt
  omega

/-! ### What is kept -/

/-- **In a creation nothing that was in use is freed**, and what is held was free, below `top`. -/
structure SpawnKept (k₀ : Kernel) (top : ℕ) (s : Spawn) : Prop where
  run : s.kernel.pmm.RunBelow top s.quota
  used : ∀ f, k₀.pmm.Used f → s.kernel.pmm.Used f
  held : ∀ f ∈ s.held, f < top ∧ ¬ k₀.pmm.Used f

namespace SpawnKept

/-- **The step lemma.** -/
lemma step (h : SpawnKept k₀ top s) (hstep : SpawnStep lo t img s s') :
    SpawnKept k₀ top s' := by
  have hrun := hstep.runBelow h.run
  cases hstep with
  | task task same => exact ⟨hrun, h.used, h.held⟩
  | @range f n pmm le run first becomes =>
    refine ⟨hrun, fun g hg => (becomes.used g).mpr (Or.inr (h.used g hg)), fun g hg => ?_⟩
    rcases Multiset.mem_add.mp hg with hg | hg
    · obtain ⟨h1, h2⟩ := List.mem_range'_1.mp (Multiset.mem_coe.mp hg)
      obtain ⟨i, hi, htop⟩ := h.run
      have hfi := first i (hi.take le)
      exact ⟨by omega, fun hu => (run.free g h1 h2).1 (h.used g hu)⟩
    · exact h.held g hg
  | nullRange le noRun =>
    obtain ⟨f, hf, -⟩ := h.run
    exact absurd (hf.take le) (noRun f)
  | grow grows maps =>
    exact ⟨hrun, fun f hf => (grows.used f).mpr (Or.inl (h.used f hf)), h.held⟩
  | create effect active parent stack room held =>
    refine ⟨hrun, fun f hf => (effect.used f).mpr (Or.inl (h.used f hf)), fun f hf => ?_⟩
    exact h.held f (held ▸ Multiset.mem_add.mpr (Or.inr hf))
  | map lt bound held effect place =>
    refine ⟨hrun, fun f hf => (effect.pmm.used f).mpr (Or.inr (h.used f hf)), fun f hf => ?_⟩
    exact h.held f (held ▸ Multiset.mem_cons_of_mem hf)
  | @free f pmm rest held becomes =>
    refine ⟨hrun, fun g hg => (becomes.used g).mpr ⟨?_, h.used g hg⟩, fun g hg => ?_⟩
    · rintro rfl
      exact (h.held g (held ▸ Multiset.mem_cons_self g rest)).2 hg
    · exact h.held g (held ▸ Multiset.mem_cons_of_mem hg)

/-- **A run of steps** keeps what a spawn has taken. -/
lemma steps (h : SpawnKept k₀ top s) (hsteps : SpawnSteps lo t img s s') :
    SpawnKept k₀ top s' := by
  induction hsteps with
  | refl => exact h
  | tail _ hstep ih => exact ih.step hstep

end SpawnKept

/-! ### The tables of the kernel -/

/-- The kernel has got tables in slots that it may take, and in no others. -/
def TakesOnly (k₀ : Kernel) (top : ℕ) (k : Kernel) : Prop :=
  ∀ i, k.HasTable none i → k₀.HasTable none i ∨ k₀.MayTake top i

/-- The tables of the kernel after a mapping. -/
lemma MapEffect.hasTable {space : Space} {pd pt e i : ℕ} {fresh : Option ℕ}
    (he : MapEffect lo k space pd pt e fresh k') (h : k'.HasTable none i) :
    k.HasTable none i ∨ (space = none ∧ i = pd) := by
  obtain ⟨p, hp⟩ := h
  rcases (he.owns _ p).mp hp with ⟨hp, -⟩ | ⟨f, -, heq, -⟩
  · exact Or.inl ⟨p, hp⟩
  · obtain ⟨hs, hi⟩ := Owner.table.inj heq
    exact Or.inr ⟨hs.symm, hi⟩

namespace TakesOnly

lemma congr (h : TakesOnly k₀ top k) (hold : ∀ i, k'.HasTable none i → k.HasTable none i) :
    TakesOnly k₀ top k' := fun i hi => h i (hold i hi)

/-- A mapping for a task. -/
lemma mapPage {c virt phys flags : ℕ} (h : TakesOnly k₀ top k) (hi : VmmInv lo k)
    (hroot : k.Root (some t) c) (hv : virt < 2 ^ 32) (hflags : flags < 0x1000)
    (hmap : mapPage k c virt phys flags = .ok k') : TakesOnly k₀ top k' ∧ VmmInv lo k' := by
  rcases mapPage_effect hi hroot hv hflags hmap with ⟨-, rfl⟩ | ⟨-, -, fresh, he⟩
  · exact ⟨h, hi⟩
  · refine ⟨h.congr fun i hi => (he.hasTable hi).resolve_right ?_, he.inv⟩
    rintro ⟨hc, -⟩
    cases hc

/-- `vmm_alloc` where there are enough free frames. -/
lemma vmmAlloc {n m ptr : ℕ} (h : TakesOnly k₀ top k) (hused : ∀ f, k₀.pmm.Used f → k.pmm.Used f)
    (hi : VmmInv lo k) (hn : 0 < n) (hlt : n < 2 ^ 31) (hrun : k.pmm.RunBelow top (n + m))
    (halloc : vmmAlloc k n = .ok (k', ptr)) : TakesOnly k₀ top k' := by
  rw [MicroOS.vmmAlloc, bind_eq_ok] at halloc
  obtain ⟨⟨pmm, page⟩, hrange, halloc⟩ := halloc
  obtain ⟨k₁, hloop, hret⟩ := bind_eq_ok.mp halloc
  obtain ⟨rfl, rfl⟩ := Prod.mk.inj (Except.ok.inj hret)
  have hcount : (toInt n).toNat = n := toInt_toNat hlt
  obtain ⟨g, hg, htop⟩ := hrun
  rcases allocRange_cases hi.guarded (by omega) hrange with ⟨-, -, hno⟩ | ⟨f, rfl, hfree, hfirst, -⟩
  · rw [hcount] at hno
    exact absurd (hg.take (Nat.le_add_right n m)) (hno g)
  rw [hcount] at hfree hfirst
  have hfg := hfirst g (hg.take (Nat.le_add_right n m))
  have hroom := hfree.room
  have hrule := foldlM_range_rule (s := { k with pmm })
    (fun _ q => VmmInv lo q ∧ TakesOnly k₀ top q) ?_
    ⟨hi.of_allocRange hrange, h.congr fun i hi => hi.imp fun p => (owns_pmm pmm _ p).mp⟩ hloop
  · exact hrule.2
  · rintro j q q' hj ⟨hq, htakes⟩ hmap
    rw [wrap32_page (by omega)] at hmap
    have hlt : (f + j) * 0x1000 < 2 ^ 32 := by
      rw [frameCount] at hroom
      omega
    rcases mapPage_effect (s := none) hq rfl hlt (by decide) hmap with
      ⟨-, rfl⟩ | ⟨-, -, fresh, he⟩
    · exact ⟨hq, htakes⟩
    refine ⟨he.inv, fun i hi => ?_⟩
    rcases he.hasTable hi with hi | ⟨-, rfl⟩
    · exact htakes i hi
    · by_cases hold : k₀.HasTable none (pdIndexOf ((f + j) * 0x1000))
      · exact Or.inl hold
      · refine Or.inr ⟨hold, f + j, by omega, fun hu => ?_, rfl⟩
        exact (hfree.free _ (by omega) (by omega)).1 (hused _ hu)

end TakesOnly

/-- A creation of a task that is there, between two calls. -/
structure Spawning (lo : ℕ) (k₀ : Kernel) (top : ℕ) (t : Fin maxTasks) (k : Kernel) (n : ℕ) :
    Prop where
  active : (k.tasks t).active = true
  inv : SpawnInv lo ⟨k, 0, n⟩
  kept : SpawnKept k₀ top ⟨k, 0, n⟩
  takes : TakesOnly k₀ top k

namespace Spawning

variable {n m : ℕ}

/-- The next call. -/
lemma next (h : Spawning lo k₀ top t k n) (htasks : k'.tasks = k.tasks)
    (hsteps : SpawnSteps lo t img ⟨k, 0, n⟩ ⟨k', 0, m⟩) (htakes : TakesOnly k₀ top k') :
    Spawning lo k₀ top t k' m := by
  refine ⟨?_, h.inv.steps hsteps, h.kept.steps hsteps, htakes⟩
  rw [htasks]
  exact h.active

/-- A spawn that has come this far has enough frames. -/
lemma hasRun (h : Spawning lo k₀ top t k n) : k.pmm.HasRun n := by
  obtain ⟨f, hf, -⟩ := h.kept.run
  exact ⟨f, hf⟩

/-- A program header. -/
lemma loadSegment {ph : ElfProgramHeader} (h : Spawning lo k₀ top t k (ph.pages + n))
    (hload : loadSegment (k.tasks t).context k ph = .ok k') :
    Spawning lo k₀ top t k' n ∧ k'.tasks = k.tasks := by
  obtain ⟨htasks, hsteps⟩ := loadSegment_steps (fun _ => True) h.inv h.active h.hasRun
    (fun _ _ _ => trivial) hload
  refine ⟨h.next htasks hsteps ?_, htasks⟩
  have hi : VmmInv lo k := h.inv.inv
  rw [MicroOS.loadSegment] at hload
  by_cases htype : ph.type = 1
  · rw [if_neg (not_not.mpr htype), bind_eq_ok] at hload
    obtain ⟨⟨pmm, ptr⟩, hrange, hloop⟩ := hload
    have hpages : ph.pages = ph.realSize := if_pos htype
    have hpos : 0 < ph.realSize := by
      rw [ElfProgramHeader.realSize]
      omega
    obtain ⟨g, hg⟩ := h.hasRun
    rw [hpages] at hg
    rcases allocRange_cases hi.guarded (by omega) hrange with ⟨-, -, hno⟩ | ⟨f, rfl, hfree, -⟩
    · exact absurd (hg.take (Nat.le_add_right _ n)) (hno g)
    have hroom := hfree.room
    have hrule := foldlM_range_rule (s := { k with pmm })
      (fun _ q => q.tasks = k.tasks ∧ VmmInv lo q ∧ TakesOnly k₀ top q) ?_
      ⟨rfl, hi.of_allocRange hrange,
        h.takes.congr fun i hi => hi.imp fun p => (owns_pmm pmm _ p).mp⟩ hloop
    · exact hrule.2.2
    · rintro j q q' hj ⟨htasks, hq, htakes⟩ hbody
      have hroot : q.Root (some t) (k.tasks t).context := by
        rw [Kernel.Root, htasks]
        exact ⟨h.active, rfl⟩
      by_cases hmapped : vmmLookup q (wrap32 (base ph.virtAddr + j * 4096)) (k.tasks t).context = 0
      · rw [if_neg (not_not.mpr hmapped)] at hbody
        obtain ⟨htakes', hq'⟩ := htakes.mapPage hq hroot (wrap32_lt _) (by decide) hbody
        exact ⟨(mapPage_same hbody).tasks.trans htasks, hq', htakes'⟩
      · rw [if_pos hmapped, bind_eq_ok] at hbody
        obtain ⟨pmm', hfreed, hret⟩ := hbody
        obtain rfl := Except.ok.inj hret
        obtain ⟨p, hp, hb⟩ := pmmFree_ok (p := q.pmm) (wrap32_lt (f * 0x1000 + j * 4096))
        obtain rfl : p = pmm' := Except.ok.inj (hp.symm.trans hfreed)
        rw [wrap32_page (by omega), Nat.mul_div_cancel _ (by norm_num)] at hb
        refine ⟨htasks, hq.of_free hb fun i hi => ?_,
          htakes.congr fun i hi => hi.imp fun r => (owns_pmm p _ r).mp⟩
        subst hi
        exact hfree.mappable hi.guarded (by omega) (by omega)
  · rw [if_pos htype] at hload
    obtain rfl := Except.ok.inj hload
    exact h.takes

/-- The program headers. -/
lemma loadSegments {l : List ElfProgramHeader}
    (h : Spawning lo k₀ top t k ((l.map ElfProgramHeader.pages).sum + n))
    (hload : l.foldlM (MicroOS.loadSegment (k.tasks t).context) k = .ok k') :
    Spawning lo k₀ top t k' n ∧ k'.tasks = k.tasks := by
  induction l generalizing k with
  | nil =>
    obtain rfl : k = k' := Except.ok.inj hload
    rw [List.map_nil, List.sum_nil, Nat.zero_add] at h
    exact ⟨h, rfl⟩
  | cons ph l ih =>
    rw [List.map_cons, List.sum_cons, Nat.add_assoc] at h
    rw [List.foldlM_cons, bind_eq_ok] at hload
    obtain ⟨q, hq, hload⟩ := hload
    obtain ⟨h₁, htasks⟩ := h.loadSegment hq
    rw [← htasks] at hload
    obtain ⟨h₂, htasks'⟩ := ih h₁ hload
    exact ⟨h₂, htasks'.trans htasks⟩

/-- A page for arguments. -/
lemma argPage {page : ℕ} (h : Spawning lo k₀ top t k (1 + n))
    (harg : argPage (k.tasks t).context k = .ok (k', page)) :
    Spawning lo k₀ top t k' n ∧ k'.tasks = k.tasks := by
  obtain ⟨htasks, hsteps⟩ := argPage_steps (fun _ => True) h.inv h.active h.hasRun harg
  refine ⟨h.next htasks hsteps ?_, htasks⟩
  rw [MicroOS.argPage, bind_eq_ok] at harg
  obtain ⟨⟨q, ptr⟩, halloc, harg⟩ := harg
  obtain ⟨q', hmap, hret⟩ := bind_eq_ok.mp harg
  obtain ⟨rfl, rfl⟩ := Prod.mk.inj (Except.ok.inj hret)
  have htakes := h.takes.vmmAlloc h.kept.used h.inv.inv Nat.one_pos (by norm_num) h.kept.run halloc
  have hi := (vmmAlloc_below h.inv.inv Nat.one_pos (by norm_num) h.kept.run halloc).1
  have hroot : q.Root (some t) (k.tasks t).context := by
    rw [Kernel.Root, (vmmAlloc_same halloc).tasks]
    exact ⟨h.active, rfl⟩
  exact (htakes.mapPage hi hroot (wrap32_lt _) (by decide) hmap).1

/-- An argument vector. -/
lemma argVector {num page : ℕ} (h : Spawning lo k₀ top t k (1 + (num + n)))
    (harg : argVector (k.tasks t).context num k = .ok (k', page)) :
    Spawning lo k₀ top t k' n ∧ k'.tasks = k.tasks := by
  rw [MicroOS.argVector, bind_eq_ok] at harg
  obtain ⟨⟨q, ptr⟩, hfirst, harg⟩ := harg
  obtain ⟨q', hloop, hret⟩ := bind_eq_ok.mp harg
  obtain ⟨rfl, -⟩ := Prod.mk.inj (Except.ok.inj hret)
  obtain ⟨h₁, htasks⟩ := h.argPage hfirst
  have hrule := foldlM_range_rule
    (fun j q => Spawning lo k₀ top t q (num - j + n) ∧ q.tasks = k.tasks) ?_ ⟨h₁, htasks⟩ hloop
  · rw [Nat.sub_self, Nat.zero_add] at hrule
    exact hrule
  · rintro j q q' hj ⟨hq, htasks⟩ hbody
    obtain ⟨⟨q₁, page'⟩, hpage, rfl⟩ : ∃ x, MicroOS.argPage (k.tasks t).context q = .ok x
        ∧ x.1 = q' := by
      cases hx : MicroOS.argPage (k.tasks t).context q with
      | error e => simp [hx] at hbody
      | ok x => exact ⟨x, rfl, by simpa [hx] using hbody⟩
    rw [show num - j + n = 1 + (num - (j + 1) + n) by omega] at hq
    rw [← htasks] at hpage
    obtain ⟨hq', htasks'⟩ := hq.argPage hpage
    exact ⟨hq', htasks'.trans htasks⟩

/-- `init_task`. -/
lemma initTask {term : ℤ} (hi : VmmInv lo k₀) (hlow : 0x200 < lo)
    (hrun : k₀.pmm.RunBelow top (kernelStackSizePages + (userStackSizePages + n)))
    (h : initTask k₀ term = .ok (k, t)) : Spawning lo k₀ top t k n := by
  obtain ⟨hidle, hactive, hsteps⟩ := initTask_steps (fun _ => True) n hi hlow h
  have hs : SpawnInv lo ⟨k₀, 0, kernelStackSizePages + (userStackSizePages + n)⟩ :=
    ⟨hi, hlow, fun f hf => absurd hf (Multiset.notMem_zero f)⟩
  have hkept : SpawnKept k₀ top ⟨k₀, 0, kernelStackSizePages + (userStackSizePages + n)⟩ :=
    ⟨hrun, fun f hf => hf, fun f hf => absurd hf (Multiset.notMem_zero f)⟩
  refine ⟨hactive, hs.steps hsteps, hkept.steps hsteps, ?_⟩
  obtain ⟨-, -, k₁, k₂, h1, h2, hcreate⟩ := initTask_ok h
  have hsame := SameSlot.zero hidle
  have hi₀ : VmmInv lo (withTask k₀ t Task.zero) := withTask_inv hsame hi
  have htakes₀ : TakesOnly k₀ top (withTask k₀ t Task.zero) := fun i hi =>
    Or.inl (hi.imp fun p => (withTask_owns hsame _ p).mp)
  -- the two stacks
  have hrun₀ : (withTask k₀ t Task.zero).pmm.RunBelow top
    (kernelStackSizePages + (userStackSizePages + n)) := hrun
  have htakes₁ := htakes₀.vmmAlloc (fun f hf => hf) hi₀ (by decide) (by decide) hrun₀ h1
  obtain ⟨hi₁, hrun₁, hused₁⟩ := vmmAlloc_below hi₀ (by decide) (by decide) hrun₀ h1
  have htakes₂ := htakes₁.vmmAlloc hused₁ hi₁ (by decide) (by decide) hrun₁ h2
  have hi₂ := (vmmAlloc_below hi₁ (by decide) (by decide) hrun₁ h2).1
  -- the user stack is mapped for the task
  obtain ⟨q, he, hloop⟩ := hcreate lo hi₂
  have hroot : q.Root (some t) (k.tasks t).context := by
    rw [Kernel.Root, he.tasks, Function.update_self]
    exact ⟨hactive, rfl⟩
  have htakes : TakesOnly k₀ top q := htakes₂.congr fun i hi =>
    hi.imp fun p => (he.owns _ p (by simp [Owner.space])).mp
  have hrule := foldlM_rule (fun q => q.Root (some t) (k.tasks t).context ∧ VmmInv lo q
    ∧ TakesOnly k₀ top q) ?_ ⟨hroot, he.inv, htakes⟩ hloop
  · exact hrule.2.2
  · rintro q i q' - ⟨hroot, hq, htakes⟩ hmap
    obtain ⟨htakes', hq'⟩ := htakes.mapPage hq hroot (wrap32_lt _) (by decide) hmap
    refine ⟨?_, hq', htakes'⟩
    rwa [Kernel.Root, (mapPage_same hmap).tasks]

end Spawning

/-- **`init_elf` makes tables of the kernel in the slots that it may take**, and in no others. -/
theorem initElf_takesOnly {term pid : ℤ} {numArgv numEnvp : ℕ} (hi : VmmInv lo k)
    (hlow : 0x200 < lo) (hrun : k.pmm.RunBelow top (spawnPages image numArgv numEnvp))
    (hmagic : image.magic = elfMagic)
    (h : initElf k term image numArgv numEnvp = .ok (k', pid)) : TakesOnly k top k' := by
  rw [initElf, if_neg (not_not.mpr hmagic), bind_eq_ok] at h
  obtain ⟨⟨k₁, t⟩, h1, h⟩ := h
  obtain ⟨k₂, h2, h⟩ := bind_eq_ok.mp h
  obtain ⟨⟨k₃, argv⟩, h3, h⟩ := bind_eq_ok.mp h
  obtain ⟨⟨k₄, envp⟩, h4, h⟩ := bind_eq_ok.mp h
  obtain ⟨rfl, -⟩ := Prod.mk.inj (Except.ok.inj h)
  obtain ⟨hs₂, ht₂⟩ := (Spawning.initTask hi hlow hrun h1).loadSegments h2
  rw [← ht₂] at h3
  obtain ⟨hs₃, ht₃⟩ := hs₂.argVector h3
  rw [← ht₂, ← ht₃] at h4
  obtain ⟨hs₄, -⟩ := hs₃.argVector h4
  have hsame : SameSlot (k₄.tasks t) { k₄.tasks t with argv, envp } :=
    ⟨rfl, fun _ => rfl, fun _ => rfl, fun _ => rfl⟩
  exact hs₄.takes.congr fun i hi => hi.imp fun p => (withTask_owns hsame _ p).mp

/-! ### The ledger -/

/-- What a task is charged with, from what it owns and maps. -/
lemma charged_congr (howns : ∀ o p, o.space = some t → (k'.Owns o p ↔ k.Owns o p))
    (hmaps : ∀ i j x, k'.Maps (some t) i j x ↔ k.Maps (some t) i j x) (f : ℕ) :
    k'.Charged t f ↔ k.Charged t f :=
  or_congr (exists_congr fun o => and_congr_right fun ho => howns o _ ho)
    (exists_congr fun i => exists_congr fun j => exists_congr fun x =>
      and_congr_left fun _ => hmaps i j x)

/-- A mapping for a task takes no table away. -/
lemma not_lost_of_task {pd : ℕ} {fresh : Option ℕ} (o : Owner) : ¬ Lost (some t) pd fresh o := by
  cases o with
  | context space => exact id
  | dir space => exact id
  | table space i =>
    cases space with
    | none => exact id
    | some u =>
      rintro ⟨hc, -⟩
      cases hc

/-- **Where the frames are** that came into use in a creation: tables of the kernel, frames that the
task is charged with, its kernel stack, and those that are held. None of the task's was in use
before, and its tables and pages are at addresses of the image, of the stack and of the
arguments. -/
structure SpawnLedger (k₀ : Kernel) (top : ℕ) (t : Fin maxTasks) (img : ℕ → Prop) (s : Spawn) :
    Prop where
  used : ∀ f, s.kernel.pmm.Used f → k₀.pmm.Used f ∨ s.kernel.KernelTable f
    ∨ s.kernel.Charged t f ∨ s.kernel.StackOf t f ∨ f ∈ s.held
  charged : ∀ f, s.kernel.Charged t f → ¬ k₀.pmm.Used f
  stack : ∀ f, s.kernel.StackOf t f → s.kernel.pmm.Used f ∧ ¬ k₀.pmm.Used f ∧ f ∉ s.held
    ∧ ∀ i j x, s.kernel.Maps (some t) i j x → base x / 0x1000 ≠ f
  table : ∀ i, s.kernel.HasTable (some t) i → ∃ virt, i = pdIndexOf virt
    ∧ (img virt ∨ ∃ f < top, ¬ k₀.pmm.Used f ∧ virt = userAddress f)
  page : ∀ i j x, s.kernel.Maps (some t) i j x → ∃ virt, i = pdIndexOf virt ∧ j = ptIndexOf virt
    ∧ (img virt ∨ virt = userAddress (base x / 0x1000))

namespace SpawnLedger

/-- The task has the same frames. -/
lemma congr {rest : Multiset ℕ} {n : ℕ} (h : SpawnLedger k₀ top t img s)
    (howns : ∀ o p, o.space = some t → (k'.Owns o p ↔ s.kernel.Owns o p))
    (hmaps : ∀ i j x, k'.Maps (some t) i j x ↔ s.kernel.Maps (some t) i j x)
    (hstackOf : ∀ f, k'.StackOf t f ↔ s.kernel.StackOf t f)
    (htables : ∀ f, s.kernel.KernelTable f → k'.KernelTable f)
    (hused : ∀ f, k'.pmm.Used f → f ∈ rest ∨ k'.KernelTable f
      ∨ s.kernel.pmm.Used f ∧ (f ∈ s.held → f ∈ rest))
    (hstack : ∀ f, s.kernel.pmm.Used f → f ∉ s.held → k'.pmm.Used f ∧ f ∉ rest) :
    SpawnLedger k₀ top t img ⟨k', rest, n⟩ := by
  have hcharged := charged_congr howns hmaps
  refine ⟨fun f hf => ?_, fun f hf => h.charged f ((hcharged f).mp hf), fun f hf => ?_,
    fun i hi => h.table i (hi.imp fun p => (howns _ p rfl).mp),
    fun i j x hm => h.page i j x ((hmaps i j x).mp hm)⟩
  · rcases hused f hf with hf | hf | ⟨hf, hheld⟩
    · exact Or.inr (Or.inr (Or.inr (Or.inr hf)))
    · exact Or.inr (Or.inl hf)
    · rw [hcharged, hstackOf]
      exact (h.used f hf).imp_right (Or.imp (htables f) (Or.imp_right (Or.imp_right hheld)))
  · obtain ⟨hu, hnew, hno, hfree⟩ := h.stack f ((hstackOf f).mp hf)
    obtain ⟨hu, hno⟩ := hstack f hu hno
    exact ⟨hu, hnew, hno, fun i j x hm => hfree i j x ((hmaps i j x).mp hm)⟩

/-- The task is there. -/
lemma create {task : Task} {g n : ℕ} {rest : Multiset ℕ} (h : SpawnLedger k₀ top t img s)
    (hkept : SpawnKept k₀ top s) (hframes : SpawnFrames t s)
    (he : CreateEffect lo s.kernel t task k') (hactive : task.active = true)
    (hstack : task.stack = g * 0x1000)
    (hheld : s.held = (List.range' g kernelStackSizePages : Multiset ℕ) + rest) :
    SpawnLedger k₀ top t img ⟨k', rest, n⟩ := by
  have hnone : ∀ i j x, ¬ s.kernel.Maps (some t) i j x := by
    rintro i j x ⟨p, hp, -⟩
    exact he.none _ _ rfl hp
  have hno : ∀ i j x, ¬ k'.Maps (some t) i j x := fun i j x hm =>
    hnone i j x ((he.maps _ i j x).mp hm)
  have hidle : ∀ f, ¬ s.kernel.StackOf t f := fun f hf =>
    he.none (.context (some t)) _ rfl (.context ⟨hf.1, rfl⟩)
  have hnodup := hframes.nodup
  rw [hheld, Multiset.nodup_add] at hnodup
  have hstackOf : ∀ f, k'.StackOf t f ↔ f ∈ (List.range' g kernelStackSizePages : Multiset ℕ) := by
    intro f
    rw [Kernel.StackOf, he.tasks, Function.update_self, hstack, Nat.mul_div_cancel g (by norm_num),
      Multiset.mem_coe, List.mem_range'_1]
    exact and_iff_right hactive
  refine ⟨fun f hf => ?_, fun f hf => ?_, fun f hf => ?_, fun i hi => absurd hi (he.tables i),
    fun i j x hm => absurd hm (hno i j x)⟩
  · rcases (he.used f).mp hf with hf | hf
    · rcases h.used f hf with hf | ⟨i, hi⟩ | hf | hf | hf
      · exact Or.inl hf
      · exact Or.inr (Or.inl ⟨i, (he.owns _ _ (by simp [Owner.space])).mpr hi⟩)
      · rcases hf with ⟨o, ho, hown⟩ | ⟨i, j, x, hm, -⟩
        · exact absurd hown (he.none o _ ho)
        · exact absurd hm (hnone i j x)
      · exact absurd hf (hidle f)
      · rw [hheld] at hf
        refine Or.inr (Or.inr (Or.inr ((Multiset.mem_add.mp hf).imp_left ?_)))
        exact (hstackOf f).mpr
    · exact Or.inr (Or.inr (Or.inl (Or.inl hf)))
  · rcases hf with ⟨o, ho, hown⟩ | ⟨i, j, x, hm, -⟩
    · have hfresh := he.fresh o _ ho hown
      rw [Nat.mul_div_cancel f (by norm_num)] at hfresh
      exact fun hu => hfresh (hkept.used f hu)
    · exact absurd hm (hno i j x)
  · have hmem := (hstackOf f).mp hf
    have hf : f ∈ s.held := hheld ▸ Multiset.mem_add.mpr (Or.inl hmem)
    exact ⟨(he.used f).mpr (Or.inl (hframes.held f hf).1), (hkept.held f hf).2,
      Multiset.disjoint_left.mp hnodup.2.2 hmem, fun i j x hm => absurd hm (hno i j x)⟩

/-- A frame that was held is mapped, at an address that was not. -/
lemma map {virt f n : ℕ} {fresh : Option ℕ} {rest : Multiset ℕ} (h : SpawnLedger k₀ top t img s)
    (hkept : SpawnKept k₀ top s) (hheld : s.held = f ::ₘ rest) (hf : f < frameCount)
    (he : MapEffect lo s.kernel (some t) (pdIndexOf virt) (ptIndexOf virt)
      (f * 0x1000 ||| userFlags) fresh k')
    (hplace : img virt ∨ virt = userAddress f)
    (hunmapped : ∀ x, ¬ s.kernel.Maps (some t) (pdIndexOf virt) (ptIndexOf virt) x) :
    SpawnLedger k₀ top t img ⟨k', rest, n⟩ := by
  have hframe : base (f * 0x1000 ||| userFlags) / 0x1000 = f := base_frame hf (by decide)
  have hmem : f ∈ s.held := hheld ▸ Multiset.mem_cons_self f rest
  have howns : ∀ o p, s.kernel.Owns o p → k'.Owns o p := fun o p hp =>
    (he.owns o p).mpr (Or.inl ⟨hp, not_lost_of_task o⟩)
  have hmaps : ∀ i j x, s.kernel.Maps (some t) i j x → k'.Maps (some t) i j x := by
    refine fun i j x hm => (he.maps _ i j x).mpr (Or.inr ⟨hm, ?_, not_lost_of_task _⟩)
    rintro ⟨-, rfl, rfl⟩
    exact hunmapped x hm
  have hstackOf := FramesInv.stackOf_of_tasks he.tasks t
  refine ⟨fun g hg => ?_, fun g hg => ?_, fun g hg => ?_, fun i hi => ?_, fun i j x hm => ?_⟩
  · -- the fresh table is the task's, and the held frame is now one of its pages
    rcases (he.pmm.used g).mp hg with hg | hg
    · exact Or.inr (Or.inr (Or.inl (Or.inl ⟨.table (some t) (pdIndexOf virt), rfl,
        (he.owns _ _).mpr (Or.inr ⟨g, hg, rfl, rfl⟩)⟩)))
    rcases h.used g hg with hg | ⟨i, hi⟩ | hg | hg | hg
    · exact Or.inl hg
    · exact Or.inr (Or.inl ⟨i, howns _ _ hi⟩)
    · refine Or.inr (Or.inr (Or.inl ?_))
      rcases hg with ⟨o, ho, hown⟩ | ⟨i, j, x, hm, heq⟩
      · exact Or.inl ⟨o, ho, howns _ _ hown⟩
      · exact Or.inr ⟨i, j, x, hmaps i j x hm, heq⟩
    · exact Or.inr (Or.inr (Or.inr (Or.inl ((hstackOf g).mpr hg))))
    · rw [hheld] at hg
      rcases Multiset.mem_cons.mp hg with rfl | hg
      · have hnew := (he.maps _ _ _ _).mpr (Or.inl ⟨rfl, rfl, rfl, rfl, present_userEntry g⟩)
        exact Or.inr (Or.inr (Or.inl (Or.inr ⟨_, _, _, hnew, hframe.symm⟩)))
      · exact Or.inr (Or.inr (Or.inr (Or.inr hg)))
  · rcases hg with ⟨o, ho, hown⟩ | ⟨i, j, x, hm, rfl⟩
    · rcases (he.owns _ _).mp hown with ⟨hown, -⟩ | ⟨g', hg', -, heq⟩
      · exact h.charged g (Or.inl ⟨o, ho, hown⟩)
      · obtain rfl : g = g' := Nat.eq_of_mul_eq_mul_right (by norm_num) heq
        exact fun hu => (he.pmm.free g hg').2.1 (hkept.used g hu)
    · rcases (he.maps _ i j x).mp hm with ⟨-, -, -, rfl, -⟩ | ⟨hm, -⟩
      · rw [hframe]
        exact (hkept.held f hmem).2
      · exact h.charged _ (Or.inr ⟨i, j, x, hm, rfl⟩)
  · obtain ⟨hu, hnew, hno, hfree⟩ := h.stack g ((hstackOf g).mp hg)
    refine ⟨(he.pmm.used g).mpr (Or.inr hu), hnew,
      fun hc => hno (hheld ▸ Multiset.mem_cons_of_mem hc), fun i j x hm => ?_⟩
    rcases (he.maps _ i j x).mp hm with ⟨-, -, -, rfl, -⟩ | ⟨hm, -⟩
    · rw [hframe]
      rintro rfl
      exact hno hmem
    · exact hfree i j x hm
  · -- the table that is new is the one of `virt`
    obtain ⟨p, hp⟩ := hi
    rcases (he.owns _ p).mp hp with ⟨hp, -⟩ | ⟨g, -, heq, -⟩
    · exact h.table i ⟨p, hp⟩
    · obtain ⟨-, rfl⟩ := Owner.table.inj heq
      exact ⟨virt, rfl, hplace.imp_right fun heq => ⟨f, (hkept.held f hmem).1,
        (hkept.held f hmem).2, heq⟩⟩
  · rcases (he.maps _ i j x).mp hm with ⟨-, rfl, rfl, rfl, -⟩ | ⟨hm, -⟩
    · rw [hframe]
      exact ⟨virt, rfl, rfl, hplace⟩
    · exact h.page i j x hm

/-- The kernel takes no slot of the task: its tables are for pages of a valid image, of the stack
and of arguments. -/
lemma not_taken (h : SpawnLedger k₀ top t image.Page s) (hvalid : image.Valid k₀ top)
    (hold : ∀ i, k₀.HasTable none i → s.kernel.HasTable none i) (htakes : TakesOnly k₀ top k')
    {i : ℕ} (hi : s.kernel.HasTable (some t) i) : ¬ k'.HasTable none i := by
  intro htaken
  rcases htakes i htaken with hk | hk
  · obtain ⟨p, hp⟩ := hi
    exact hp.not_taken (hold i hk)
  · obtain ⟨virt, rfl, hpage | ⟨f, hf, hfree, hvirt⟩⟩ := h.table i hi
    · exact hvalid.pages virt hpage hk
    · rw [hvirt] at hk
      exact hvalid.user f hf hfree hk

/-- A page of a creation is not mapped before. -/
lemma unmapped {virt f : ℕ} {rest : Multiset ℕ} (h : SpawnLedger k₀ top t image.Page s)
    (hvalid : image.Valid k₀ top) (hkept : SpawnKept k₀ top s) (hframes : SpawnFrames t s)
    (hheld : s.held = f ::ₘ rest) (hf : f < frameCount)
    (hplace : virt = userAddress f
      ∨ image.Page virt ∧ vmmLookup s.kernel virt (s.kernel.tasks t).context = 0) (x : ℕ) :
    ¬ s.kernel.Maps (some t) (pdIndexOf virt) (ptIndexOf virt) x := by
  intro hm
  have hmem : f ∈ s.held := hheld ▸ Multiset.mem_cons_self f rest
  rcases hplace with hvirt | ⟨-, hlookup⟩
  · obtain ⟨v, hpd, hpt, hv⟩ := h.page _ _ x hm
    rw [hvirt] at hpd hpt
    rcases hv with hpage | hv
    · -- a page of the image is no page of the stack or of arguments
      have heq := page_eq_of_index (userAddress_aligned f) hpage.aligned hpd hpt
      obtain ⟨htop, hfree⟩ := hkept.held f hmem
      rw [← heq] at hpage
      exact hvalid.apart f htop hfree hpage
    · rw [hv] at hpd hpt
      have heq := page_eq_of_index (userAddress_aligned f) (userAddress_aligned _) hpd hpt
      have hlt : base x / 0x1000 < frameCount := by
        have := base_lt x
        rw [frameCount]
        omega
      rw [userAddress_inj hf hlt heq] at hmem
      exact (hframes.mapped _ _ x hm).2.2 hmem
  · -- `vmm_lookup` finds every page but one with frame 0
    rw [vmmLookup_own hm] at hlookup
    refine (hframes.mapped _ _ x hm).2.1 ?_
    rw [Nat.eq_zero_of_add_eq_zero_right hlookup]

/-- **The step lemma.** -/
lemma step (h : SpawnLedger k₀ top t image.Page s) (hvalid : image.Valid k₀ top)
    (hkept : SpawnKept k₀ top s) (hframes : SpawnFrames t s)
    (hold : ∀ i, k₀.HasTable none i → s.kernel.HasTable none i)
    (htakes : TakesOnly k₀ top s'.kernel) (hstep : SpawnStep lo t image.Page s s') :
    SpawnLedger k₀ top t image.Page s' := by
  cases hstep with
  | task task same =>
    have howns := withTask_owns same
    have hstackOf : ∀ f, (withTask s.kernel t task).StackOf t f ↔ s.kernel.StackOf t f := by
      intro f
      rw [Kernel.StackOf, Kernel.StackOf, withTask_active same]
      exact and_congr_right fun hactive => by rw [withTask_stack same hactive]
    exact h.congr (fun o p _ => howns o p) (withTask_maps same _) hstackOf
      (fun f hf => hf.imp fun i => (howns _ _).mpr) (fun f hf => Or.inr (Or.inr ⟨hf, id⟩))
      fun f hu hno => ⟨hu, hno⟩
  | @range f n pmm le run first becomes =>
    have hmem : ∀ g, g ∈ (List.range' f n : Multiset ℕ) ↔ f ≤ g ∧ g < f + n := fun g => by
      rw [Multiset.mem_coe, List.mem_range'_1]
    refine h.congr (fun o p _ => owns_pmm pmm o p) (maps_pmm pmm _) (fun f => Iff.rfl)
      (fun g hg => hg.imp fun i => (owns_pmm pmm _ _).mpr) (fun g hg => ?_) fun g hu hno => ?_
    · rcases (becomes.used g).mp hg with hg | hg
      · exact Or.inl (Multiset.mem_add.mpr (Or.inl ((hmem g).mpr hg)))
      · exact Or.inr (Or.inr ⟨hg, fun hheld => Multiset.mem_add.mpr (Or.inr hheld)⟩)
    · refine ⟨(becomes.used g).mpr (Or.inr hu), fun hc => ?_⟩
      rcases Multiset.mem_add.mp hc with hc | hc
      · obtain ⟨h1, h2⟩ := (hmem g).mp hc
        exact (run.free g h1 h2).1 hu
      · exact hno hc
  | nullRange le noRun =>
    -- the frames of the creation are still free in one run
    obtain ⟨f, hf, -⟩ := hkept.run
    exact absurd (hf.take le) (noRun f)
  | @grow k' grows maps =>
    have hno : ∀ i, s.kernel.HasTable (some t) i → ¬ k'.HasTable none i :=
      fun i hi => h.not_taken hvalid hold htakes hi
    refine h.congr (fun o p ho => (grows.owns t o p ho).trans (and_iff_left_of_imp fun hp => ?_))
      (fun i j x => (grows.maps t i j x).trans (and_iff_left_of_imp fun hm => ?_))
      (FramesInv.stackOf_of_tasks grows.tasks t) (fun f => grows.kernelTable) (fun f hf => ?_)
      fun f hu hno => ⟨(grows.used f).mpr (Or.inl hu), hno⟩
    · -- the kernel takes no slot where the task has a table
      cases o with
      | context space => exact id
      | dir space => exact id
      | table space i =>
        obtain rfl : space = some t := ho
        exact hno i ⟨p, hp⟩
    · obtain ⟨p, hp, -⟩ := hm
      exact hno i ⟨p, hp⟩
    · rcases (grows.used f).mp hf with hf | hf
      · exact Or.inr (Or.inr ⟨hf, id⟩)
      · exact Or.inr (Or.inl hf)
  | @create k' task g rest effect active parent stack room held =>
    exact h.create hkept hframes effect active stack held
  | @map k' virt f fresh rest lt bound held effect place =>
    exact h.map hkept held bound effect (place.symm.imp_left And.left)
      (h.unmapped hvalid hkept hframes held bound place)
  | @free f pmm rest held becomes =>
    have hmem : ∀ g, g ∈ s.held ↔ g = f ∨ g ∈ rest := fun g => by
      rw [held, Multiset.mem_cons]
    refine h.congr (fun o p _ => owns_pmm pmm o p) (maps_pmm pmm _) (fun f => Iff.rfl)
      (fun g hg => hg.imp fun i => (owns_pmm pmm _ _).mpr) (fun g hg => ?_) fun g hu hno => ?_
    · obtain ⟨hgf, hg⟩ := (becomes.used g).mp hg
      exact Or.inr (Or.inr ⟨hg, fun hheld => ((hmem g).mp hheld).resolve_left hgf⟩)
    · exact ⟨(becomes.used g).mpr ⟨fun hgf => hno ((hmem g).mpr (Or.inl hgf)), hu⟩,
        fun hc => hno ((hmem g).mpr (Or.inr hc))⟩

/-- The steps of a creation, from the state before. -/
lemma steps (hs : SpawnLedger k₀ top t image.Page s) (hvalid : image.Valid k₀ top)
    (hkept : SpawnKept k₀ top s) (hframes : SpawnFrames t s)
    (hold : ∀ i, k₀.HasTable none i → s.kernel.HasTable none i)
    (htakes : TakesOnly k₀ top s'.kernel) (hsteps : SpawnSteps lo t image.Page s s') :
    SpawnLedger k₀ top t image.Page s' := by
  have hrun : s.kernel.pmm.HasRun s.quota := by
    obtain ⟨f, hf, -⟩ := hkept.run
    exact ⟨f, hf⟩
  induction hsteps with
  | refl => exact hs
  | tail hsteps hstep ih =>
    have hbefore := ih (htakes.congr fun i hi => hstep.hasTable hi)
    exact hbefore.step hvalid (hkept.steps hsteps) (hframes.steps hrun hsteps)
      (fun i hi => SpawnSteps.hasTable hsteps (hold i hi)) htakes hstep

/-- No task is there. -/
lemma start {n : ℕ} (hidle : (k₀.tasks t).active = false) :
    SpawnLedger k₀ top t img ⟨k₀, 0, n⟩ := by
  have hnone : ∀ o p, o.space = some t → ¬ k₀.Owns o p := fun o p ho =>
    not_owns_of_inactive hidle ho
  have hmaps : ∀ i j x, ¬ k₀.Maps (some t) i j x := by
    rintro i j x ⟨p, hp, -⟩
    exact hnone _ p rfl hp
  refine ⟨fun f hf => Or.inl hf, ?_, fun f hf => ?_, ?_, fun i j x hm => absurd hm (hmaps i j x)⟩
  · rintro f (⟨o, ho, hown⟩ | ⟨i, j, x, hm, -⟩)
    · exact absurd hown (hnone o _ ho)
    · exact absurd hm (hmaps i j x)
  · have hactive := hf.1
    simp [hidle] at hactive
  · rintro i ⟨p, hp⟩
    exact absurd hp (hnone _ p rfl)

end SpawnLedger

/-- A creation changes the slot of its task only. -/
lemma SpawnStep.tasks {u : Fin maxTasks} (h : SpawnStep lo t img s s') (hu : u ≠ t) :
    s'.kernel.tasks u = s.kernel.tasks u := by
  cases h with
  | task task same => exact Function.update_of_ne hu _ _
  | range le run first becomes => rfl
  | nullRange le noRun => rfl
  | grow grows maps => rw [grows.tasks]
  | create effect active parent stack room held =>
    rw [effect.tasks]
    exact Function.update_of_ne hu _ _
  | map lt bound held effect place => rw [effect.tasks]
  | free held becomes => rfl

/-- The steps change no other task. -/
lemma SpawnSteps.tasks {u : Fin maxTasks} (h : SpawnSteps lo t img s s') (hu : u ≠ t) :
    s'.kernel.tasks u = s.kernel.tasks u := by
  induction h with
  | refl => rfl
  | tail _ hstep ih => exact (hstep.tasks hu).trans ih

/-- **The frames of a new task**, after `init_elf` of a valid image. -/
theorem initElf_ledger {term pid : ℤ} {numArgv numEnvp : ℕ} (hi : VmmInv lo k)
    (hlow : 0x200 < lo) (hzero : k.pmm.Used 0) (hvalid : image.Valid k top)
    (hrun : k.pmm.RunBelow top (spawnPages image numArgv numEnvp))
    (h : initElf k term image numArgv numEnvp = .ok (k', pid)) (hidle : (k.tasks t).active = false)
    (hactive : (k'.tasks t).active = true) :
    SpawnLedger k top t image.Page ⟨k', 0, 0⟩ ∧ SpawnKept k top ⟨k', 0, 0⟩
      ∧ SpawnFrames t ⟨k', 0, 0⟩ := by
  obtain ⟨f, hf, htop⟩ := id hrun
  obtain ⟨u, hidle', -, -, hsteps⟩ := initElf_steps hi hlow ⟨f, hf⟩ hvalid.magic h
  obtain rfl : t = u := by
    by_contra hne
    rw [hsteps.tasks hne, hidle] at hactive
    cases hactive
  have hmaps : ∀ i j x, ¬ k.Maps (some t) i j x := by
    rintro i j x ⟨p, hp, -⟩
    exact not_owns_of_inactive hidle rfl hp
  have hframes : SpawnFrames t ⟨k, 0, spawnPages image numArgv numEnvp⟩ :=
    ⟨hzero, Multiset.nodup_zero, fun f hf => absurd hf (Multiset.notMem_zero f),
      fun i j x hm => absurd hm (hmaps i j x), fun i j x _ _ _ hm => absurd hm (hmaps i j x)⟩
  have hkept : SpawnKept k top ⟨k, 0, spawnPages image numArgv numEnvp⟩ :=
    ⟨hrun, fun f hf => hf, fun f hf => absurd hf (Multiset.notMem_zero f)⟩
  have htakes : TakesOnly k top k' := initElf_takesOnly hi hlow hrun hvalid.magic h
  exact ⟨(SpawnLedger.start hidle).steps hvalid hkept hframes (fun i hi => hi) htakes hsteps,
    hkept.steps hsteps, hframes.steps ⟨f, hf⟩ hsteps⟩

end MicroOS
