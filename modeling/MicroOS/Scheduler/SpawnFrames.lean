import Mathlib.Data.Multiset.AddSub
import MicroOS.Memory.VmmKernelMap

/-!
The frames of a new task.

* `SpawnFrames`: in a creation, the frames that the task maps are in use and different, and so are
  those that it still holds; `SpawnFrames.step` is the step lemma, for enough free frames.
* `initTask_frames`: so it is after `init_task`.
* `vmmInit_keepsUsed`: `vmm_init` frees nothing.
* `initTask_ok`: the calls that `init_task` makes when it returns; `initTask_kernelMaps`: what it
  maps for the kernel are frames that were free.
-/

namespace MicroOS

open ByteMem Checked PageEntry Relation Run

variable {lo : ℕ} {k k' : Kernel} {t : Fin maxTasks} {img : ℕ → Prop} {s s' : Spawn}

/-! ### Frames that are mapped and frames that are held -/

/-- **The frames of a creation.** -/
structure SpawnFrames (t : Fin maxTasks) (s : Spawn) : Prop where
  zero : s.kernel.pmm.Used 0
  nodup : s.held.Nodup
  held : ∀ f ∈ s.held, s.kernel.pmm.Used f ∧ f ≠ 0
  mapped : ∀ i j x, s.kernel.Maps (some t) i j x →
    s.kernel.pmm.Used (base x / 0x1000) ∧ base x / 0x1000 ≠ 0 ∧ base x / 0x1000 ∉ s.held
  inj : ∀ i j x i' j' x', s.kernel.Maps (some t) i j x → s.kernel.Maps (some t) i' j' x' →
    base x / 0x1000 = base x' / 0x1000 → i = i' ∧ j = j'

namespace SpawnFrames

/-- The task maps no more, and nothing is freed. -/
lemma mono {k' : Kernel} {rest : Multiset ℕ} {n : ℕ} (h : SpawnFrames t s) (hrest : rest ≤ s.held)
    (hused : ∀ f, s.kernel.pmm.Used f → k'.pmm.Used f)
    (hmaps : ∀ i j x, k'.Maps (some t) i j x → s.kernel.Maps (some t) i j x) :
    SpawnFrames t ⟨k', rest, n⟩ := by
  refine ⟨hused 0 h.zero, Multiset.nodup_of_le hrest h.nodup, fun f hf => ?_, fun i j x hm => ?_,
    fun i j x i' j' x' hm hm' => h.inj i j x i' j' x' (hmaps i j x hm) (hmaps i' j' x' hm')⟩
  · obtain ⟨hu, hne⟩ := h.held f (Multiset.mem_of_le hrest hf)
    exact ⟨hused f hu, hne⟩
  · obtain ⟨hu, hne, hno⟩ := h.mapped i j x (hmaps i j x hm)
    exact ⟨hused _ hu, hne, fun hc => hno (Multiset.mem_of_le hrest hc)⟩

/-- **Every step keeps it**, when there are enough free frames in one run. -/
lemma step (h : SpawnFrames t s) (hrun : s.kernel.pmm.HasRun s.quota)
    (hstep : SpawnStep lo t img s s') : SpawnFrames t s' := by
  cases hstep with
  | task task same =>
    exact h.mono le_rfl (fun f hf => hf) fun i j x hm => (withTask_maps same _ i j x).mp hm
  | @range f n pmm le run first becomes =>
    have hused : ∀ g, s.kernel.pmm.Used g → pmm.Used g :=
      fun g hg => (becomes.used g).mpr (Or.inr hg)
    have hnew : ∀ g ∈ (List.range' f n : Multiset ℕ), pmm.Used g ∧ ¬ s.kernel.pmm.Used g := by
      intro g hg
      have hmem := List.mem_range'_1.mp (Multiset.mem_coe.mp hg)
      exact ⟨(becomes.used g).mpr (Or.inl hmem), (run.free g hmem.1 hmem.2).1⟩
    refine ⟨hused 0 h.zero, ?_, fun g hg => ?_, fun i j x hm => ?_, fun i j x i' j' x' hm hm' =>
      h.inj i j x i' j' x' ((maps_pmm pmm _ i j x).mp hm) ((maps_pmm pmm _ i' j' x').mp hm')⟩
    · refine Multiset.nodup_add.mpr ⟨Multiset.coe_nodup.mpr (List.nodup_range' ..), h.nodup, ?_⟩
      exact Multiset.disjoint_left.mpr fun {g} hg hg' => (hnew g hg).2 (h.held g hg').1
    · rcases Multiset.mem_add.mp hg with hg | hg
      · refine ⟨(hnew g hg).1, ?_⟩
        rintro rfl
        exact (hnew 0 hg).2 h.zero
      · exact ⟨hused g (h.held g hg).1, (h.held g hg).2⟩
    · obtain ⟨hu, hne, hno⟩ := h.mapped i j x ((maps_pmm pmm _ i j x).mp hm)
      refine ⟨hused _ hu, hne, fun hc => ?_⟩
      exact (Multiset.mem_add.mp hc).elim (fun hc => (hnew _ hc).2 hu) hno
  | nullRange le noRun =>
    obtain ⟨f, hf⟩ := hrun
    exact absurd (hf.take le) (noRun f)
  | @grow k' grows maps =>
    exact h.mono le_rfl (fun f hf => (grows.used f).mpr (Or.inl hf))
      fun i j x hm => ((grows.maps t i j x).mp hm).1
  | @create k' task g rest effect active parent stack room held =>
    refine h.mono ?_ (fun f hf => (effect.used f).mpr (Or.inl hf))
      fun i j x hm => (effect.maps _ i j x).mp hm
    rw [held]
    exact Multiset.le_add_left _ _
  | @map k' virt f fresh rest lt bound held effect place =>
    have hnodup := h.nodup
    rw [held, Multiset.nodup_cons] at hnodup
    have hf := h.held f (held ▸ Multiset.mem_cons_self f rest)
    have hused : ∀ g, s.kernel.pmm.Used g → k'.pmm.Used g :=
      fun g hg => (effect.pmm.used g).mpr (Or.inr hg)
    have hframe : base (f * 0x1000 ||| userFlags) / 0x1000 = f := base_frame bound (by decide)
    -- an old page does not map the frame that was held
    have hold : ∀ i j x, s.kernel.Maps (some t) i j x → base x / 0x1000 ≠ f := by
      intro i j x hm hc
      refine (h.mapped i j x hm).2.2 ?_
      rw [held, hc]
      exact Multiset.mem_cons_self f rest
    refine ⟨hused 0 h.zero, hnodup.2, fun g hg => ?_, fun i j x hm => ?_,
      fun i j x i' j' x' hm hm' heq => ?_⟩
    · obtain ⟨hu, hne⟩ := h.held g (held ▸ Multiset.mem_cons_of_mem hg)
      exact ⟨hused g hu, hne⟩
    · rcases (effect.maps _ i j x).mp hm with ⟨-, -, -, rfl, -⟩ | ⟨hm, -⟩
      · rw [hframe]
        exact ⟨hused f hf.1, hf.2, hnodup.1⟩
      · obtain ⟨hu, hne, hno⟩ := h.mapped i j x hm
        exact ⟨hused _ hu, hne, fun hc => hno (held ▸ Multiset.mem_cons_of_mem hc)⟩
    · rcases (effect.maps _ i j x).mp hm with ⟨-, hi, hj, rfl, -⟩ | ⟨hm, -⟩
      · rcases (effect.maps _ i' j' x').mp hm' with ⟨-, hi', hj', -⟩ | ⟨hm', -⟩
        · exact ⟨hi.trans hi'.symm, hj.trans hj'.symm⟩
        · exact absurd (heq.symm.trans hframe) (hold i' j' x' hm')
      · rcases (effect.maps _ i' j' x').mp hm' with ⟨-, -, -, rfl, -⟩ | ⟨hm', -⟩
        · exact absurd (heq.trans hframe) (hold i j x hm)
        · exact h.inj i j x i' j' x' hm hm' heq
  | @free f pmm rest held becomes =>
    have hnodup := h.nodup
    rw [held, Multiset.nodup_cons] at hnodup
    have hf := h.held f (held ▸ Multiset.mem_cons_self f rest)
    refine ⟨(becomes.used 0).mpr ⟨hf.2.symm, h.zero⟩, hnodup.2, fun g hg => ?_,
      fun i j x hm => ?_, fun i j x i' j' x' hm hm' =>
        h.inj i j x i' j' x' ((maps_pmm pmm _ i j x).mp hm) ((maps_pmm pmm _ i' j' x').mp hm')⟩
    · obtain ⟨hu, hne⟩ := h.held g (held ▸ Multiset.mem_cons_of_mem hg)
      refine ⟨(becomes.used g).mpr ⟨?_, hu⟩, hne⟩
      rintro rfl
      exact hnodup.1 hg
    · obtain ⟨hu, hne, hno⟩ := h.mapped i j x ((maps_pmm pmm _ i j x).mp hm)
      rw [held] at hno
      refine ⟨(becomes.used _).mpr ⟨?_, hu⟩, hne, fun hc => hno (Multiset.mem_cons_of_mem hc)⟩
      intro hc
      exact hno (hc ▸ Multiset.mem_cons_self _ _)

/-- The steps of a creation. -/
lemma steps (h : SpawnFrames t s) (hrun : s.kernel.pmm.HasRun s.quota)
    (hsteps : SpawnSteps lo t img s s') : SpawnFrames t s' := by
  induction hsteps with
  | refl => exact h
  | tail hsteps hstep ih => exact ih.step (hasRun_steps hsteps hrun) hstep

end SpawnFrames

/-- **The frames of a new task**, after `init_task`. -/
theorem initTask_frames {quota : ℕ} {term : ℤ} (hi : VmmInv lo k) (hlow : 0x200 < lo)
    (hzero : k.pmm.Used 0)
    (hrun : k.pmm.HasRun (kernelStackSizePages + (userStackSizePages + quota)))
    (h : initTask k term = .ok (k', t)) :
    SpawnFrames t ⟨k', 0, quota⟩ ∧ k'.pmm.HasRun quota := by
  obtain ⟨hidle, -, hsteps⟩ := initTask_steps (fun _ => False) quota hi hlow h
  have hnone : ∀ i j x, ¬ k.Maps (some t) i j x := by
    rintro i j x ⟨p, hp, -⟩
    exact not_owns_of_inactive hidle rfl hp
  have hstart : SpawnFrames t ⟨k, 0, kernelStackSizePages + (userStackSizePages + quota)⟩ :=
    ⟨hzero, Multiset.nodup_zero, fun f hf => absurd hf (Multiset.notMem_zero f),
      fun i j x hm => absurd hm (hnone i j x), fun i j x _ _ _ hm => absurd hm (hnone i j x)⟩
  exact ⟨hstart.steps hrun hsteps, hasRun_steps hsteps hrun⟩

/-! ### What is mapped for the kernel -/

/-- A slot of the kernel stays one while a task is created. -/
lemma SpawnStep.hasTable {img : ℕ → Prop} {s s' : Spawn} {i : ℕ} (h : SpawnStep lo t img s s')
    (hi : s.kernel.HasTable none i) : s'.kernel.HasTable none i := by
  obtain ⟨p, hp⟩ := hi
  cases h with
  | task task same => exact ⟨p, (withTask_owns same _ p).mpr hp⟩
  | range le run first becomes => exact ⟨p, (owns_pmm _ _ p).mpr hp⟩
  | nullRange le noRun => exact ⟨p, hp⟩
  | grow grows maps => exact grows.hasTable ⟨p, hp⟩
  | create effect active parent stack room held =>
    exact ⟨p, (effect.owns _ p (by simp [Owner.space])).mpr hp⟩
  | map lt bound held effect place =>
    exact ⟨p, (effect.owns _ p).mpr (Or.inl ⟨hp, fun hl => by cases hl⟩)⟩
  | free held becomes => exact ⟨p, (owns_pmm _ _ p).mpr hp⟩

/-- A slot of the kernel with a table keeps it. -/
lemma SpawnSteps.hasTable {img : ℕ → Prop} {s s' : Spawn} {i : ℕ} (h : SpawnSteps lo t img s s')
    (hi : s.kernel.HasTable none i) : s'.kernel.HasTable none i := by
  induction h with
  | refl => exact hi
  | tail _ hstep ih => exact hstep.hasTable ih

/-- `vmm_alloc` maps the pages of its range for the kernel, and no others. -/
lemma vmmAlloc_kernelMaps {n ptr i j x : ℕ} (hi : VmmInv lo k) (h : vmmAlloc k n = .ok (k', ptr))
    (hm : k'.Maps none i j x) : k.Maps none i j x
      ∨ ∃ m < n, i = pdIndexOf (wrap32 (ptr + m * 0x1000))
        ∧ j = ptIndexOf (wrap32 (ptr + m * 0x1000))
        ∧ x = wrap32 (ptr + m * 0x1000) ||| (ptePresent ||| pteWrite) := by
  rw [vmmAlloc, bind_eq_ok] at h
  obtain ⟨⟨pmm, page⟩, hrange, h⟩ := h
  obtain ⟨k₁, hloop, hret⟩ := bind_eq_ok.mp h
  obtain ⟨rfl, rfl⟩ := Prod.mk.inj (Except.ok.inj hret)
  have hrule := foldlM_range_rule (s := { k with pmm }) (fun m q => VmmInv lo q
    ∧ ∀ i j x, q.Maps none i j x → k.Maps none i j x
      ∨ ∃ l < m, i = pdIndexOf (wrap32 (page + l * 0x1000))
        ∧ j = ptIndexOf (wrap32 (page + l * 0x1000))
        ∧ x = wrap32 (page + l * 0x1000) ||| (ptePresent ||| pteWrite)) ?_
    ⟨hi.of_allocRange hrange, fun i j x hm => Or.inl ((maps_pmm pmm none i j x).mp hm)⟩ hloop
  · exact hrule.2 i j x hm
  · rintro m q q' hlt ⟨hq, hmaps⟩ hmap
    rcases mapPage_effect (s := none) hq rfl (wrap32_lt _) (by decide) hmap with
      ⟨-, rfl⟩ | ⟨-, -, fresh, he⟩
    · refine ⟨hq, fun i j x hm => (hmaps i j x hm).imp_right ?_⟩
      rintro ⟨l, hl, hrest⟩
      exact ⟨l, by omega, hrest⟩
    · refine ⟨he.inv, fun i j x hm => ?_⟩
      rcases (he.maps none i j x).mp hm with ⟨-, hi, hj, hx, -⟩ | ⟨hm, -⟩
      · exact Or.inr ⟨m, Nat.lt_succ_self m, hi, hj, hx⟩
      · refine (hmaps i j x hm).imp_right ?_
        rintro ⟨l, hl, hrest⟩
        exact ⟨l, by omega, hrest⟩

lemma Pmm.HasRun.take {p : Pmm} {n m : ℕ} (h : p.HasRun n) (hm : m ≤ n) : p.HasRun m := by
  obtain ⟨f, hf⟩ := h
  exact ⟨f, hf.take hm⟩

/-- After a `vmm_alloc` that takes a part of a run, the rest of a run is there. -/
lemma vmmAlloc_below {n m ptr top : ℕ} (hi : VmmInv lo k) (hn : 0 < n) (hlt : n < 2 ^ 31)
    (hrun : k.pmm.RunBelow top (n + m)) (h : vmmAlloc k n = .ok (k', ptr)) :
    VmmInv lo k' ∧ k'.pmm.RunBelow top m ∧ ∀ f, k.pmm.Used f → k'.pmm.Used f := by
  obtain ⟨pmm, hrange, hgrow, -⟩ := vmmAlloc_spec hi h
  have hcount : (toInt n).toNat = n := toInt_toNat hlt
  rcases allocRange_cases hi.guarded (by omega) hrange with ⟨-, -, hno⟩ | ⟨f, -, -, hfirst, hb⟩
  · rw [hcount] at hno
    obtain ⟨g, hg, -⟩ := hrun
    exact absurd (hg.take (Nat.le_add_right n m)) (hno g)
  · rw [hcount] at hfirst hb
    have hrest : pmm.RunBelow top (n + m - n) := hrun.of_range (Nat.le_add_right n m) hfirst hb
    rw [Nat.add_sub_cancel_left] at hrest
    obtain ⟨g, hg, htop⟩ := hrest
    exact ⟨hgrow.inv, ⟨g, hgrow.freeRun hg, htop⟩, fun i hu =>
      (hgrow.used i).mpr (Or.inl ((hb.used i).mpr (Or.inr hu)))⟩

/-- **Pages are handed out**, and what was asked for behind them is still free. -/
lemma vmmAlloc_next {n m ptr : ℕ} (hi : VmmInv lo k) (hn : 0 < n) (hlt : n < 2 ^ 31)
    (hrun : k.pmm.HasRun (n + m)) (h : vmmAlloc k n = .ok (k', ptr)) :
    VmmInv lo k' ∧ k'.pmm.HasRun m ∧ ∀ f, k.pmm.Used f → k'.pmm.Used f := by
  rw [Pmm.hasRun_iff] at hrun ⊢
  exact vmmAlloc_below hi hn hlt hrun h

/-- The pages that are mapped for the kernel besides those of `k` hold frames that were free. -/
def KernelAdds (k k' : Kernel) : Prop :=
  ∀ i j x, k'.Maps none i j x → k.Maps none i j x
    ∨ ∃ f, ¬ k.pmm.Used f ∧ i = pdIndexOf (f * 0x1000) ∧ j = ptIndexOf (f * 0x1000)

/-- `vmm_alloc` where there are enough free frames. -/
lemma KernelAdds.vmmAlloc {k₀ : Kernel} {n ptr : ℕ} (ha : KernelAdds k₀ k)
    (hmono : ∀ f, k₀.pmm.Used f → k.pmm.Used f) (hi : VmmInv lo k) (hn : 0 < n) (hlt : n < 2 ^ 31)
    (hrun : k.pmm.HasRun n) (h : vmmAlloc k n = .ok (k', ptr)) : KernelAdds k₀ k' := by
  intro i j x hm
  rcases vmmAlloc_kernelMaps hi h hm with hm | ⟨m, hmn, hpd, hpt, -⟩
  · exact ha i j x hm
  obtain ⟨pmm, hrange, -⟩ := vmmAlloc_spec hi h
  have hcount : (toInt n).toNat = n := toInt_toNat hlt
  rcases allocRange_cases hi.guarded (by omega) hrange with ⟨-, -, hno⟩ | ⟨f, rfl, hfree, -⟩
  · rw [hcount] at hno
    obtain ⟨g, hg⟩ := hrun
    exact absurd hg (hno g)
  · rw [hcount] at hfree
    have hroom := hfree.room
    rw [wrap32_page (by omega)] at hpd hpt
    exact Or.inr ⟨f + m, fun hu => (hfree.free _ (by omega) (by omega)).1 (hmono _ hu), hpd, hpt⟩

/-- **A call of `init_task` that returns**: the stacks, the context, and the loop over the pages of
the user stack. -/
lemma initTask_ok {term : ℤ} (h : initTask k term = .ok (k', t)) :
    (k.tasks t).active = false ∧ (k'.tasks t).active = true ∧ ∃ k₁ k₂,
      vmmAlloc (withTask k t Task.zero) kernelStackSizePages = .ok (k₁, (k'.tasks t).stack)
      ∧ vmmAlloc k₁ userStackSizePages = .ok (k₂, (k'.tasks t).userStack)
      ∧ ∀ lo, VmmInv lo k₂ → ∃ q, CreateEffect lo k₂ t (k'.tasks t) q
        ∧ (List.range userStackSizePages).foldlM
          (fun k i => mapPage k (k'.tasks t).context
            (wrap32 ((k'.tasks t).userStack + i * 4096 + userSpaceOffset))
            (wrap32 ((k'.tasks t).userStack + i * 4096)) userFlags) q = .ok k' := by
  rw [initTask] at h
  cases hfirst : k.tasks.firstInactive with
  | none =>
    rw [hfirst] at h
    cases h
  | some u =>
    rw [hfirst] at h
    have hidle := Tasks.firstInactive_spec hfirst
    obtain ⟨⟨k₁, stack⟩, h1, h⟩ := bind_eq_ok.mp h
    obtain ⟨⟨k₂, userStack⟩, h2, h⟩ := bind_eq_ok.mp h
    obtain ⟨⟨k₃, context⟩, h3, h⟩ := bind_eq_ok.mp h
    obtain ⟨k₄, h4, h⟩ := bind_eq_ok.mp h
    obtain ⟨rfl, rfl⟩ := Prod.mk.inj (Except.ok.inj h)
    obtain ⟨d, pmm, rfl, hcd, hc, hd, hcf, hdf, hb⟩ := vmmCreateContext_ok h3
    have hidle₂ : (k₂.tasks u).active = false := by
      rw [(vmmAlloc_same h2).tasks, (vmmAlloc_same h1).tasks]
      exact congrArg Task.active (Function.update_self u Task.zero k.tasks)
    let task : Task :=
      { Task.zero with
        registers := sub32 (wrap32 (stack + kernelStackSizePages * 4096)) registersSize
        active := true, stack, userStack, pid := k₂.currentPid, term, context, parent := -1 }
    let q := withContext k₂ pmm context d u task (k₂.currentPid + 1)
    have htask : k₄.tasks u = task := by
      have hq : q.tasks = Function.update k₂.tasks u task := rfl
      have hloop : k₄.tasks = q.tasks :=
        foldlM_rule (fun k => k.tasks = q.tasks)
          (fun k i k' _ hk hmap => (mapPage_same hmap).tasks.trans hk) rfl h4
      rw [hloop, hq, Function.update_self]
    rw [htask]
    exact ⟨hidle, rfl, k₁, k₂, h1, h2, fun lo hi =>
      ⟨q, create_effect hi hidle₂ hcd hc hd hcf hdf hb rfl rfl, h4⟩⟩

/-- **`init_task` maps for the kernel no frame that was in use.** -/
theorem initTask_kernelMaps {term : ℤ} (hi : VmmInv lo k)
    (hrun : k.pmm.HasRun (kernelStackSizePages + userStackSizePages))
    (h : initTask k term = .ok (k', t)) : KernelAdds k k' := by
  obtain ⟨hidle, hactive, k₁, k₂, h1, h2, hcreate⟩ := initTask_ok h
  have hsame := SameSlot.zero hidle
  have hi₀ : VmmInv lo (withTask k t Task.zero) := withTask_inv hsame hi
  have hadds₀ : KernelAdds k (withTask k t Task.zero) :=
    fun i j x hm => Or.inl ((withTask_maps hsame _ i j x).mp hm)
  -- the two stacks
  have hrun₀ : (withTask k t Task.zero).pmm.HasRun (kernelStackSizePages + userStackSizePages) :=
    hrun
  have hadds₁ := hadds₀.vmmAlloc (fun f hf => hf) hi₀ (by decide) (by decide)
    (hrun.take (Nat.le_add_right _ _)) h1
  obtain ⟨hi₁, hrun₁, hmono₁⟩ := vmmAlloc_next hi₀ (by decide) (by decide) hrun₀ h1
  have hadds₂ := hadds₁.vmmAlloc hmono₁ hi₁ (by decide) (by decide) hrun₁ h2
  have hi₂ := (vmmAlloc_next (m := 0) hi₁ (by decide) (by decide) hrun₁ h2).1
  -- the user stack is mapped for the task
  obtain ⟨q, heff, hloop⟩ := hcreate lo hi₂
  have hroot : q.Root (some t) (k'.tasks t).context := by
    rw [Kernel.Root, heff.tasks, Function.update_self]
    exact ⟨hactive, rfl⟩
  have hrule := foldlM_rule (fun q => VmmInv lo q ∧ KernelAdds k q
    ∧ q.Root (some t) (k'.tasks t).context) ?_
    ⟨heff.inv, fun i j x hm => hadds₂ i j x ((heff.maps none i j x).mp hm), hroot⟩ hloop
  · exact hrule.2.1
  · rintro q i q' - ⟨hq, hadds, hroot⟩ hmap
    rcases mapPage_effect hq hroot (wrap32_lt _) (by decide) hmap with
      ⟨-, rfl⟩ | ⟨-, -, fresh, he⟩
    · exact ⟨hq, hadds, hroot⟩
    · refine ⟨he.inv, fun i j x hm => ?_, ?_⟩
      · rcases (he.maps none i j x).mp hm with ⟨hc, -⟩ | ⟨hm, -⟩
        · cases hc
        · exact hadds i j x hm
      · rwa [Kernel.Root, he.tasks]

/-! ### The start -/

/-- The last step of `vmm_init`, after steps that freed nothing. -/
lemma vmmInit_last {fuel f : ℕ} {L : KernelLayout} {mb : MultibootInfo} {pmm : Pmm}
    (hg : pmm.Guarded lo) (hused : pmm.Used f) (h : vmmInit fuel L mb pmm = .ok k) :
    ∃ k', VmmInv lo k' ∧ k'.pmm.Used f ∧ mapPage k' k'.kernelContext 0 0 0 = .ok k := by
  have hfits := L.fits
  rw [vmmInit] at h
  obtain ⟨⟨k₀, context⟩, h0, h⟩ := bind_eq_ok.mp h
  obtain ⟨k₁, h1, h⟩ := bind_eq_ok.mp h
  obtain ⟨k₂, h2, h⟩ := bind_eq_ok.mp h
  obtain ⟨k₃, h3, h⟩ := bind_eq_ok.mp h
  obtain ⟨pmm₄, h4, h⟩ := bind_eq_ok.mp h
  obtain ⟨k₅, h5, h⟩ := bind_eq_ok.mp h
  obtain ⟨k₆, h6, h⟩ := bind_eq_ok.mp h
  obtain ⟨k₇, h7, h⟩ := bind_eq_ok.mp h
  have hmono : ∀ {q q' : Kernel}, KernelGrows lo q q' → q.pmm.Used f → q'.pmm.Used f :=
    fun hq hu => (hq.used f).mpr (Or.inl hu)
  have hi₀ := (kernelContext_booted hg (fun _ => rfl) h0).1.inv
  have hused₀ : k₀.pmm.Used f := by
    obtain ⟨d, pmm', rfl, -, -, -, -, -, hb⟩ := vmmCreateContext_ok h0
    exact (hb.used f).mpr (Or.inr hused)
  have hg₁ := vmmIdentityMap_grows hi₀ (by norm_num [KernelLayout.kernelStart]) (by decide) h1
  have hg₂ := vmmIdentityMap_grows hg₁.inv (lt_of_le_of_lt (Nat.le_add_right _ _) hfits)
    (by decide) h2
  have hg₃ := (KernelGrows.of_mapPage hg₂.inv (by norm_num) (by decide) h3).1
  have hb : k₃.pmm.Becomes pmm₄ fun g => g = 0xb8 ∨ k₃.pmm.Used g := by
    obtain ⟨q, hq, hb⟩ := pmmMarkUsed_ok (p := k₃.pmm) (show 0xb8000 < 2 ^ 32 by norm_num)
    rwa [Except.ok.inj (hq.symm.trans h4)] at hb
  have hused₄ : pmm₄.Used f :=
    (hb.used f).mpr (Or.inr (hmono hg₃ (hmono hg₂ (hmono hg₁ hused₀))))
  have hg₅ := (KernelGrows.of_mapPage (hg₃.inv.of_becomes hb) mb.addr.toNat_lt (by decide) h5).1
  have hg₆ := (KernelGrows.of_mapPage hg₅.inv mb.modsAddr.toNat_lt (by decide) h6).1
  have hg₇ : KernelGrows lo k₆ k₇ := by
    refine foldlM_rule (KernelGrows lo k₆) ?_ (.refl hg₆.inv) h7
    intro q m q' _ hq hq'
    exact hq.trans (vmmIdentityMap_grows hq.inv m.modStart.toNat_lt (by decide) hq')
  exact ⟨k₇, hg₇.inv, hmono hg₇ (hmono hg₆ (hmono hg₅ hused₄)), h⟩

/-- **`vmm_init` frees nothing.** -/
lemma vmmInit_keepsUsed {fuel f : ℕ} {L : KernelLayout} {mb : MultibootInfo} {pmm : Pmm}
    (hg : pmm.Guarded lo) (hused : pmm.Used f) (h : vmmInit fuel L mb pmm = .ok k) :
    k.pmm.Used f := by
  obtain ⟨k', hi, hused', hlast⟩ := vmmInit_last hg hused h
  exact ((KernelGrows.of_mapPage hi (by norm_num) (by decide) hlast).1.used f).mpr (Or.inl hused')

/-- **The null pointer**, after `vmm_init`: frame 0 is in use, and the kernel has a table for
page 0, which is not mapped. -/
lemma VmmStarted.null {L : KernelLayout} (hk : VmmStarted L k) :
    k.pmm.Used 0 ∧ k.HasTable none 0 ∧ ∀ x, ¬ k.Maps none 0 0 x := by
  obtain ⟨fuel, mb, pmm, hpmm, hvmm⟩ := hk
  obtain ⟨hg, hzero⟩ := pmmInit_guarded hpmm
  obtain ⟨k', hi, -, hlast⟩ := vmmInit_last hg hzero hvmm
  refine ⟨vmmInit_keepsUsed hg hzero hvmm, ?_⟩
  rcases mapPage_effect (s := none) hi rfl (by norm_num) (by decide) hlast with
    ⟨hal, -⟩ | ⟨-, -, fresh, he⟩
  · exact absurd ⟨rfl, rfl⟩ hal
  refine ⟨?_, fun x hx => ?_⟩
  · cases fresh with
    | none =>
      obtain ⟨p, hp⟩ := he.freshIff.mp rfl
      exact ⟨p, (he.owns _ p).mpr (Or.inl ⟨hp, fun hl => by cases hl⟩)⟩
    | some f => exact ⟨_, (he.owns _ _).mpr (Or.inr ⟨f, rfl, rfl, rfl⟩)⟩
  · rcases (he.maps none 0 0 x).mp hx with ⟨-, -, -, -, hpres⟩ | ⟨-, hno, -⟩
    · exact not_present_zero hpres
    · exact hno ⟨rfl, rfl, rfl⟩

end MicroOS
