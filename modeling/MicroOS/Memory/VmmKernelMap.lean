import MicroOS.Memory.Mmap

/-!
What a mapping of the kernel does to the pages of tasks.

`vmm_map_page` on the kernel's context makes a page table where the kernel has none, and writes it
into the directory of every active task without a look at what is there.

* `Kernel.UserPage`: the pages that a task maps for itself.
* `vmmLookup_own`, `vmmLookup_shared`: what `vmm_lookup` reads in the slots of a task and in those
  of the kernel.
* `mapKernel_undisturbed_iff`: the translations of all user pages stay exactly when no task has a
  page in a slot that the kernel takes.
* `vmmInit_keepsFree`: frames that a start leaves free.
-/

namespace MicroOS

open ByteMem Checked PageEntry Relation Run

variable {lo : ℕ} {k k' : Kernel} {t : Fin maxTasks} {virt phys flags ptr x : ℕ}

/-! ### Translations -/

/-- The task has the page of the address mapped, in a table of its own. -/
def Kernel.UserPage (k : Kernel) (t : Fin maxTasks) (ptr : ℕ) : Prop :=
  ∃ x, k.Maps (some t) (pdIndexOf ptr) (ptIndexOf ptr) x

/-- `vmm_lookup` in a context, from the entry of the page. -/
lemma vmmLookup_of_present {c : ℕ} (hdir : Present (k.entry c (pdIndexOf ptr)))
    (hpage : Present (k.mem (base (k.entry c (pdIndexOf ptr))) (ptIndexOf ptr))) :
    vmmLookup k ptr c
      = base (k.mem (base (k.entry c (pdIndexOf ptr))) (ptIndexOf ptr)) + ptr % 0x1000 :=
  if_pos ⟨hdir, hpage⟩

/-- The translation of a page that the task maps for itself. -/
lemma vmmLookup_own (h : k.Maps (some t) (pdIndexOf ptr) (ptIndexOf ptr) x) :
    vmmLookup k ptr (k.tasks t).context = base x + ptr % 0x1000 := by
  obtain ⟨p, hp, -, rfl, hx⟩ := h
  cases hp with
  | table root lt present own =>
    rw [root.2] at present hx ⊢
    exact vmmLookup_of_present present hx

/-- In a slot where the kernel has a table, a task sees what the kernel maps. -/
lemma vmmLookup_shared (hi : VmmInv lo k) (ht : (k.tasks t).active = true)
    (hptr : pdIndexOf ptr < 1024) (hk : k.HasTable none (pdIndexOf ptr)) :
    (∃ x, k.Maps none (pdIndexOf ptr) (ptIndexOf ptr) x
        ∧ vmmLookup k ptr (k.tasks t).context = base x + ptr % 0x1000)
      ∨ (∀ x, ¬ k.Maps none (pdIndexOf ptr) (ptIndexOf ptr) x)
        ∧ vmmLookup k ptr (k.tasks t).context = 0 := by
  have hpres := (Kernel.hasTable_none_iff hptr).mp hk
  have hsync := hi.sync t ht (pdIndexOf ptr) hptr hpres
  have htable : k.Owns (.table none (pdIndexOf ptr)) (base (k.kernelEntry (pdIndexOf ptr))) :=
    .table rfl hptr hpres (Or.inl rfl)
  by_cases hpage : Present (k.mem (base (k.kernelEntry (pdIndexOf ptr))) (ptIndexOf ptr))
  · refine Or.inl ⟨_, ⟨_, htable, ptIndexOf_lt ptr, rfl, hpage⟩, ?_⟩
    rw [← hsync] at hpres hpage ⊢
    exact vmmLookup_of_present hpres hpage
  · refine Or.inr ⟨?_, ?_⟩
    · rintro x ⟨p, hp, -, rfl, hx⟩
      obtain rfl : p = base (k.kernelEntry (pdIndexOf ptr)) := by
        cases hp with
        | table root lt present own => rw [Kernel.kernelEntry, ← root]
      exact hpage hx
    · rw [vmmLookup, hsync, if_neg fun h => hpage h.2]

/-! ### One mapping -/

/-- The translation of every user page of every active task is as before. -/
def Undisturbed (k k' : Kernel) : Prop :=
  ∀ t, (k.tasks t).active = true → ∀ ptr, k.UserPage t ptr →
    vmmLookup k' ptr (k'.tasks t).context = vmmLookup k ptr (k.tasks t).context

/-- No task has a page in the slot of `virt`, but for `virt` itself where it is mapped to the same
frame. -/
def SlotClear (k : Kernel) (virt phys flags : ℕ) : Prop :=
  ∀ t j x, k.Maps (some t) (pdIndexOf virt) j x →
    j = ptIndexOf virt ∧ base x = phys ∧ Present (phys ||| flags)

/-- An address in page `j` of slot `i`. -/
lemma address_index {i j d : ℕ} (hj : j < 1024) (hd : d < 0x1000) :
    pdIndexOf ((i * 1024 + j) * 0x1000 + d) = i ∧ ptIndexOf ((i * 1024 + j) * 0x1000 + d) = j
      ∧ ((i * 1024 + j) * 0x1000 + d) % 0x1000 = d := by
  have hpage : ((i * 1024 + j) * 0x1000 + d) / 0x1000 = i * 1024 + j := by omega
  rw [pdIndexOf, ptIndexOf, hpage]
  omega

/-- A user page that keeps its entry keeps its translation. -/
lemma lookup_eq_of_maps (h : k.Maps (some t) (pdIndexOf ptr) (ptIndexOf ptr) x)
    (h' : k'.Maps (some t) (pdIndexOf ptr) (ptIndexOf ptr) x) :
    vmmLookup k' ptr (k'.tasks t).context = vmmLookup k ptr (k.tasks t).context :=
  calc vmmLookup k' ptr (k'.tasks t).context
      = base x + ptr % 0x1000 := vmmLookup_own h'
    _ = vmmLookup k ptr (k.tasks t).context := (vmmLookup_own h).symm

section NewKernelTable

variable {pd pt e f : ℕ} (he : MapEffect lo k none pd pt e (some f) k')

include he

/-- The kernel has nothing but the new page in its new table. -/
lemma maps_newTable (j x : ℕ) :
    k'.Maps none pd j x ↔ j = pt ∧ x = e ∧ Present e := by
  have hno : ∀ p, ¬ k.Owns (.table none pd) p := fun p hp =>
    Option.some_ne_none f (he.freshIff.mpr ⟨p, hp⟩)
  rw [he.maps]
  constructor
  · rintro (⟨-, -, hj, hx⟩ | ⟨⟨p, hp, -⟩, -⟩)
    · exact ⟨hj, hx⟩
    · exact absurd hp (hno p)
  · rintro ⟨hj, hx⟩
    exact Or.inl ⟨rfl, rfl, hj, hx⟩

/-- The pages of tasks in other slots stay. -/
lemma maps_otherSlot {i j : ℕ} (hi : i ≠ pd) :
    k'.Maps (some t) i j x ↔ k.Maps (some t) i j x := by
  rw [he.maps]
  refine ⟨fun h => ?_, fun h => Or.inr ⟨h, fun hc => (by cases hc.1), fun hl => hi hl.2.2⟩⟩
  rcases h with ⟨hc, -⟩ | ⟨h, -⟩
  · cases hc
  · exact h

/-- What a task finds in the slot that the kernel took: the new page, and nothing else. -/
lemma lookup_newTable (ht : (k.tasks t).active = true) (hpd : pdIndexOf ptr = pd)
    (hlt : pdIndexOf ptr < 1024) :
    vmmLookup k' ptr (k'.tasks t).context
      = if ptIndexOf ptr = pt ∧ Present e then base e + ptr % 0x1000 else 0 := by
  subst hpd
  have ht' : (k'.tasks t).active = true := by rwa [he.tasks]
  have hk : k'.HasTable none (pdIndexOf ptr) :=
    ⟨f * 0x1000, (he.owns _ _).mpr (Or.inr ⟨f, rfl, rfl, rfl⟩)⟩
  rcases vmmLookup_shared he.inv ht' hlt hk with ⟨x, hx, heq⟩ | ⟨hno, heq⟩
  · obtain ⟨hj, rfl, hpres⟩ := (maps_newTable he _ x).mp hx
    rw [heq, if_pos ⟨hj, hpres⟩]
  · rw [heq, if_neg]
    rintro ⟨hj, hpres⟩
    exact hno e ((maps_newTable he _ e).mpr ⟨hj, rfl, hpres⟩)

end NewKernelTable

/-- **A mapping of the kernel leaves the pages of tasks alone exactly when it takes no slot of
theirs**: the call changes nothing, or the kernel has a table in the slot, or the slot is clear. -/
theorem mapKernel_undisturbed_iff (hi : VmmInv lo k) (hv : virt < 2 ^ 32) (hp : phys < 2 ^ 32)
    (hflags : flags < 0x1000) {r : ℤ}
    (h : vmmMapPage k k.kernelContext virt phys flags = .ok (k', r)) :
    Undisturbed k k' ↔ (virt % 0x1000 ≠ 0 ∨ phys % 0x1000 ≠ 0)
      ∨ Present (k.kernelEntry (pdIndexOf virt)) ∨ SlotClear k virt phys flags := by
  have hlt := pdIndexOf_lt hv
  have hmap : mapPage k k.kernelContext virt phys flags = .ok k' := mapPage_eq_ok.mpr ⟨r, h⟩
  rcases mapPage_effect (s := none) hi rfl hv hflags hmap with ⟨hno, rfl⟩ | ⟨hal, -, fresh, he⟩
  · exact iff_of_true (fun t ht ptr hptr => rfl) (Or.inl (by tauto))
  have htable : Present (k.kernelEntry (pdIndexOf virt)) ↔ fresh = none := by
    rw [← Kernel.hasTable_none_iff hlt, he.freshIff]
    rfl
  rw [or_iff_right (by tauto), htable]
  cases fresh with
  | none =>
    -- the kernel has a table in the slot: the directories of tasks stay
    refine iff_of_true (fun t ht ptr hptr => ?_) (Or.inl rfl)
    obtain ⟨x, hx⟩ := hptr
    refine lookup_eq_of_maps hx ((he.maps _ _ _ _).mpr (Or.inr ⟨hx, ?_, ?_⟩))
    · exact fun hc => by cases hc.1
    · exact fun hl => hl.2.1 rfl
  | some f =>
    rw [or_iff_right (Option.some_ne_none f)]
    have hbase : base (phys ||| flags) = phys := base_page hp hal.2 hflags
    constructor
    · -- an address inside the page tells a frame at `0` from no frame
      intro hsame t j x hx
      obtain ⟨hj, ht⟩ : j < 1024 ∧ (k.tasks t).active = true := by
        obtain ⟨p, hp, hj, -⟩ := hx
        cases hp with
        | table root _ _ _ => exact ⟨hj, root.1⟩
      obtain ⟨hpd, hpt, hoff⟩ := address_index (i := pdIndexOf virt) hj (d := 1) (by norm_num)
      set ptr := (pdIndexOf virt * 1024 + j) * 0x1000 + 1 with hptr
      have hx' : k.Maps (some t) (pdIndexOf ptr) (ptIndexOf ptr) x := by rwa [hpd, hpt]
      have heq := hsame t ht ptr ⟨x, hx'⟩
      rw [vmmLookup_own hx', lookup_newTable he ht hpd (hpd ▸ hlt), hpt, hoff, hbase] at heq
      by_cases hnew : j = ptIndexOf virt ∧ Present (phys ||| flags)
      · rw [if_pos hnew] at heq
        exact ⟨hnew.1, by omega, hnew.2⟩
      · rw [if_neg hnew] at heq
        omega
    · intro hclear t ht ptr hptr
      obtain ⟨x, hx⟩ := hptr
      by_cases hpd : pdIndexOf ptr = pdIndexOf virt
      · obtain ⟨hj, hxp, hpres⟩ := hclear t _ x (hpd ▸ hx)
        rw [vmmLookup_own hx, lookup_newTable he ht hpd (hpd ▸ hlt), if_pos ⟨hj, hpres⟩, hbase,
          hxp]
      · exact lookup_eq_of_maps hx ((maps_otherSlot he hpd).mpr hx)

/-! ### Frames that stay free -/

/-- Mappings of the kernel take pages of the pool only. -/
lemma KernelGrows.freeRun {f n : ℕ} (hg : KernelGrows lo k k') (h : k.pmm.FreeRun f n) :
    k'.pmm.FreeRun f n := by
  refine h.of_used hg.mask fun g hu => ((hg.used g).mp hu).imp_right fun ⟨i, ho⟩ => ?_
  exact (hg.pool g).mp (hg.inv.pool_of_owns ho).1

/-- A range mapped to itself in the kernel. -/
lemma vmmIdentityMap_grows {fuel start endAddr : ℕ} (hi : VmmInv lo k) (hstart : start < 2 ^ 32)
    (hflags : flags < 0x1000) (h : vmmIdentityMap fuel start endAddr flags k = .ok k') :
    KernelGrows lo k k' := by
  rw [vmmIdentityMap, bind_eq_ok] at h
  obtain ⟨⟨a, q⟩, hloop, hret⟩ := h
  obtain rfl : q = k' := Except.ok.inj hret
  have hturn : ∀ s s' : ℕ × Kernel, (s.1 < 2 ^ 32 ∧ KernelGrows lo k s.2) →
      decide (s.1 < endAddr) = true →
      (do return (wrap32 (s.1 + 0x1000), ← mapPage s.2 s.2.kernelContext s.1 s.1 flags))
        = Except.ok s' → s'.1 < 2 ^ 32 ∧ KernelGrows lo k s'.2 := by
    rintro ⟨b, q⟩ s' ⟨hlt, hq⟩ _ hbody
    obtain ⟨q', hmap, heq⟩ := bind_eq_ok.mp hbody
    obtain rfl := Except.ok.inj heq
    exact ⟨wrap32_lt _, hq.trans (KernelGrows.of_mapPage hq.inv hlt hflags hmap).1⟩
  exact (repeatWhile_rule _ hturn ⟨hstart, .refl hi⟩ hloop).1.2

/-- `vmm_init` without modules leaves every frame free but that of the text buffer. -/
lemma vmmInit_keepsFree {fuel f : ℕ} {L : KernelLayout} {mb : MultibootInfo} {pmm : Pmm}
    (hg : pmm.Guarded lo) (hmods : mb.mods = []) (hf : f ≠ 0xb8) (hfree : pmm.FreeRun f 1)
    (h : vmmInit fuel L mb pmm = .ok k) : k.pmm.FreeRun f 1 := by
  have hfits := L.fits
  rw [vmmInit] at h
  obtain ⟨⟨k₀, context⟩, h0, h⟩ := bind_eq_ok.mp h
  obtain ⟨k₁, h1, h⟩ := bind_eq_ok.mp h
  obtain ⟨k₂, h2, h⟩ := bind_eq_ok.mp h
  obtain ⟨k₃, h3, h⟩ := bind_eq_ok.mp h
  obtain ⟨pmm₄, h4, h⟩ := bind_eq_ok.mp h
  obtain ⟨k₅, h5, h⟩ := bind_eq_ok.mp h
  obtain ⟨k₆, h6, h⟩ := bind_eq_ok.mp h
  obtain ⟨k₇, h7, h⟩ := bind_eq_ok.mp h
  rw [hmods, List.foldlM_nil] at h7
  obtain rfl := Except.ok.inj h7
  have hi₀ := (kernelContext_booted hg (fun _ => rfl) h0).1.inv
  have hfree₀ : k₀.pmm.FreeRun f 1 := by
    obtain ⟨d, pmm', rfl, -, hc, hd, -, -, hb⟩ := vmmCreateContext_ok h0
    refine hfree.of_used hb.mask fun g hu => ?_
    rcases (hb.used g).mp hu with (rfl | rfl) | hu
    · exact Or.inr ((hb.pool _).mp hc.pool)
    · exact Or.inr ((hb.pool _).mp hd.pool)
    · exact Or.inl hu
  have hg₁ := vmmIdentityMap_grows hi₀ (by norm_num [KernelLayout.kernelStart]) (by decide) h1
  have hg₂ := vmmIdentityMap_grows hg₁.inv (lt_of_le_of_lt (Nat.le_add_right _ _) hfits)
    (by decide) h2
  have hg₃ := (KernelGrows.of_mapPage hg₂.inv (by norm_num) (by decide) h3).1
  have hfree₃ := hg₃.freeRun (hg₂.freeRun (hg₁.freeRun hfree₀))
  -- the text buffer
  have hb : k₃.pmm.Becomes pmm₄ fun g => g = 0xb8 ∨ k₃.pmm.Used g := by
    obtain ⟨q, hq, hb⟩ := pmmMarkUsed_ok (p := k₃.pmm) (show 0xb8000 < 2 ^ 32 by norm_num)
    rwa [Except.ok.inj (hq.symm.trans h4)] at hb
  have hfree₄ : pmm₄.FreeRun f 1 := by
    refine ⟨hfree₃.room, fun g h1 h2 => ?_⟩
    obtain ⟨hu, hp⟩ := hfree₃.free g h1 h2
    refine ⟨fun hu' => ?_, fun hp' => hp ((hb.pool g).mp hp')⟩
    rcases (hb.used g).mp hu' with rfl | hu'
    · omega
    · exact hu hu'
  have hg₅ := (KernelGrows.of_mapPage (hg₃.inv.of_becomes hb) mb.addr.toNat_lt (by decide) h5).1
  have hg₆ := (KernelGrows.of_mapPage hg₅.inv mb.modsAddr.toNat_lt (by decide) h6).1
  have hg₇ := (KernelGrows.of_mapPage hg₆.inv (by norm_num) (by decide) h).1
  exact hg₇.freeRun (hg₆.freeRun (hg₅.freeRun hfree₄))

/-- What is left of the memory below `top` for a creation, and a free frame behind it. -/
structure FreeBehind (top f quota : ℕ) (p : Pmm) : Prop where
  run : ∃ g, p.FreeRun g quota ∧ g + quota ≤ top
  behind : top ≤ f
  free : p.FreeRun f 1

namespace FreeBehind

variable {top f quota : ℕ} {p p' : Pmm}

/-- Only pages of the pool come into use. -/
lemma of_used (h : FreeBehind top f quota p)
    (hmask : p'.bitmapPagetableMask = p.bitmapPagetableMask)
    (hused : ∀ g, p'.Used g → p.Used g ∨ p.Pool g) : FreeBehind top f quota p' :=
  ⟨Pmm.RunBelow.of_used h.run hmask hused, h.behind, h.free.of_used hmask hused⟩

/-- The first run that fits is taken. -/
lemma of_range {g n : ℕ} (h : FreeBehind top f quota p) (hn : n ≤ quota)
    (hfirst : ∀ i, p.FreeRun i n → g ≤ i)
    (hb : p.Becomes p' fun i => (g ≤ i ∧ i < g + n) ∨ p.Used i) :
    FreeBehind top f (quota - n) p' := by
  obtain ⟨i, hrun, htop⟩ := h.run
  have hgi := hfirst i (hrun.take hn)
  have hbehind := h.behind
  refine ⟨Pmm.RunBelow.of_range h.run hn hfirst hb, hbehind, ⟨h.free.room, fun j h1 h2 => ?_⟩⟩
  obtain ⟨hu, hp⟩ := h.free.free j h1 h2
  refine ⟨fun hu' => ?_, fun hp' => hp ((hb.pool j).mp hp')⟩
  rcases (hb.used j).mp hu' with hj | hu'
  · omega
  · exact hu hu'

/-- A step of a creation. -/
lemma spawnStep {img : ℕ → Prop} {s s' : Spawn} (h : FreeBehind top f s.quota s.kernel.pmm)
    (hs : SpawnStep lo t img s s') : FreeBehind top f s'.quota s'.kernel.pmm := by
  obtain ⟨g, hg, -⟩ := h.run
  rcases hs.memory ⟨g, hg⟩ with ⟨hq, hmask, hused⟩ | ⟨i, n, hn, hq, hfirst, hb⟩
  · rw [hq]
    exact h.of_used hmask hused
  · rw [hq]
    exact h.of_range hn hfirst hb

/-- The frames behind a frame stay free for as long as the steps leave their quota. -/
lemma spawnSteps {img : ℕ → Prop} {s s' : Spawn} (h : FreeBehind top f s.quota s.kernel.pmm)
    (hs : SpawnSteps lo t img s s') : FreeBehind top f s'.quota s'.kernel.pmm := by
  induction hs with
  | refl => exact h
  | tail _ hstep ih => exact ih.spawnStep hstep

end FreeBehind

/-! ### A machine -/

/-- The machine of `machineInfo` with one more usable page, a gigabyte up. -/
def highInfo : MultibootInfo :=
  ⟨0x9000, [⟨0x3e0000, 0x60000, 1⟩, ⟨0x40000000, 0x1000, 1⟩], 0xa000, []⟩

/-- It starts, and the page is free. -/
lemma high_starts :
    ∃ k, VmmStarted bootLayout k ∧ Ready bootLayout.poolFrame {0, 1} 0x440 29 63 k
      ∧ k.tasks = (fun _ => Task.zero) ∧ k.currentTask = 0 ∧ k.pmm.FreeRun 0x40000 1 := by
  have hfree : (pmmInit 600 bootLayout highInfo).toOption.map
      (fun p => decide ((∀ i < 0x60, ¬ p.Used (0x3e0 + i)) ∧ ¬ p.Used 0x40000)) = some true := by
    decide +kernel
  cases hinit : pmmInit 600 bootLayout highInfo with
  | error e => simp [hinit, Except.toOption] at hfree
  | ok pmm =>
    rw [hinit] at hfree
    obtain ⟨hfree, hhigh⟩ := of_decide_eq_true (Option.some.inj hfree)
    have hg := (pmmInit_guarded hinit).1
    obtain ⟨k, hk, hready, htasks, hcur, -⟩ :=
      starts_of_free hinit rfl (by decide) (by decide) hfree
    refine ⟨k, ⟨600, highInfo, pmm, hinit, hk⟩, hready, htasks, hcur,
      vmmInit_keepsFree hg rfl (by norm_num) ⟨by norm_num [frameCount], fun g h1 h2 => ?_⟩ hk⟩
    obtain rfl : g = 0x40000 := by omega
    refine ⟨hhigh, fun hp => ?_⟩
    have := (hg.pool _).mp hp
    have hlo : bootLayout.poolFrame = 0x201 := by decide
    rw [hlo, pagingDataPages] at this
    omega

/-- A task has the page at `0x40001000` mapped, and the frame at `0x40000000` is free. -/
lemma high_mapped :
    ∃ k, Reachable (VmmStarted bootLayout) (VmmStep bootLayout.poolFrame) k
      ∧ Ready bootLayout.poolFrame {0, 1} 0x440 22 54 k ∧ k.UserPage 0 0x40001001
      ∧ k.pmm.FreeRun 0x40000 1 := by
  obtain ⟨k₀, hstart, hready₀, htasks, hcur, hfree₀⟩ := high_starts
  have hbehind₀ : FreeBehind 0x440 0x40000 (kernelStackSizePages + (userStackSizePages + 55))
      k₀.pmm := by
    obtain ⟨f, hf, -, htop⟩ := hready₀.run
    exact ⟨⟨f, hf, htop⟩, by norm_num, hfree₀⟩
  have hlow : 0x200 < bootLayout.poolFrame := bootLayout.poolFrame_bounds.1
  have hready₀ : Ready bootLayout.poolFrame {0, 1} 0x440 (23 + 6)
    (kernelStackSizePages + (userStackSizePages + 55)) k₀ := hready₀
  have hfirst : k₀.tasks.firstInactive = some 0 := by
    rw [htasks]
    rfl
  obtain ⟨k₁, hspawn, hready₁, hspawned⟩ := initTask_returns machine_slots 1 hready₀ hfirst
  have hreach₁ : Reachable (VmmStarted bootLayout) (VmmStep bootLayout.poolFrame) k₁ :=
    (Reachable.start hstart).next (.initTask 1 hspawn)
  obtain ⟨-, -, hsteps⟩ := initTask_steps (fun _ => False) 55 hready₀.inv hlow hspawn
  have hbehind₁ : FreeBehind 0x440 0x40000 55 k₁.pmm := hbehind₀.spawnSteps hsteps
  -- `sys_mmap` of the task
  have hcur₁ : k₁.currentTask = 0 := hspawned.currentTask.trans hcur
  have hact₁ : (k₁.tasks k₁.currentTask).active = true := by
    rw [hcur₁]
    exact hspawned.active
  have hready₁ : Ready bootLayout.poolFrame {0, 1} 0x440 (22 + 1) (1 + 54) k₁ := hready₁
  obtain ⟨k₂, hmmap, -, hready₂⟩ := hready₁.sysMmap 0x40001000 hact₁ (by norm_num) (by decide)
  obtain ⟨f, pmm, hf, hfit, hfirstf, hb, hi₁, hcases⟩ :=
    sysMmap_effect hready₁.inv hact₁ (by norm_num) hmmap
  obtain ⟨hno, -⟩ | ⟨-, -, fresh, he⟩ := hcases
  · exact absurd rfl hno
  rw [hcur₁] at he
  refine ⟨k₂, ?_, hready₂, ?_, ?_⟩
  · obtain ⟨⟨pmm', page⟩, halloc, hmap⟩ := bind_eq_ok.mp hmmap
    rcases allocFrame_spec k₁.pmm false with ⟨ha, -⟩ | ⟨g, q, ha, hg, hgfit, -, -⟩
    · cases ha.symm.trans halloc
    obtain ⟨rfl, rfl⟩ := Prod.mk.inj (Except.ok.inj (ha.symm.trans halloc))
    have hlt : g * 0x1000 < 2 ^ 32 := by
      rw [frameCount] at hg
      omega
    refine (hreach₁.next (.pmmAlloc halloc)).next
      (.mapTask hact₁ (by norm_num) hlt (by decide) ?_ hmap)
    rw [Nat.mul_div_cancel _ (by norm_num)]
    exact hgfit.mappable hready₁.inv.guarded
  · exact ⟨_, (he.maps _ _ _ _).mpr (Or.inl ⟨rfl, rfl, rfl, rfl, by
      rw [Present, or_and_flag (Dvd.intro_left f rfl) (by decide)]
      decide⟩)⟩
  · obtain ⟨g, hg, htop⟩ := hbehind₁.run
    have hfg : f ≤ g := by
      obtain ⟨hgu, hgp⟩ := hg.free g le_rfl (by omega)
      exact not_lt.mp fun hlt => hfirstf g hlt ⟨hgu, by simpa using hgp⟩
    have hmid : FreeBehind 0x440 0x40000 (55 - 1) pmm :=
      hbehind₁.of_range (g := f) (by norm_num) (fun i hi => ?_) ?_
    · exact (hmid.of_used he.pmm.mask fun i hu =>
        ((he.pmm.used i).mp hu).symm.imp_right fun hi => (he.pmm.free i hi).2.2.mpr rfl).free
    · obtain ⟨hu, hp⟩ := hi.free i le_rfl (by omega)
      exact not_lt.mp fun hlt => hfirstf i hlt ⟨hu, by simpa using hp⟩
    · refine ⟨hb.mask, fun i => ?_⟩
      rw [hb.used]
      exact or_congr_left (by omega)

/-- **A mapping of the kernel may take a page from a task**: it is mapped before, and the call of
`vmm_alloc` for a frame that is free makes a table in its slot. -/
theorem slot_taken :
    ∃ k k', Reachable (VmmStarted bootLayout) (VmmStep bootLayout.poolFrame) k
      ∧ k.pmm.Fits false 0x40000
      ∧ (∃ r, vmmMapPage k k.kernelContext 0x40000000 0x40000000 (ptePresent ||| pteWrite)
        = .ok (k', r))
      ∧ (k.tasks 0).active = true ∧ k.UserPage 0 0x40001001
      ∧ vmmLookup k' 0x40001001 (k'.tasks 0).context
        ≠ vmmLookup k 0x40001001 (k.tasks 0).context := by
  obtain ⟨k, hreach, hready, ⟨x, hx⟩, hfree⟩ := high_mapped
  have hact : (k.tasks 0).active = true := by
    obtain ⟨p, hp, -⟩ := hx
    cases hp with
    | table root _ _ _ => exact root.1
  have hno : ¬ k.HasTable none 256 := fun hc => absurd (hready.slots _ hc) (by decide)
  have hpage : ∃ f < frameCount, k.pmm.Fits true f := by
    refine Pmm.Reserve.exists_fits (n := 21) (hready.reserve.mono ?_)
    exact Nat.le_add_right _ _
  have hown : k.OwnSlot none (pdIndexOf 0x40000000) := Or.inl rfl
  have hroot : k.Root none k.kernelContext := rfl
  obtain ⟨k', hmap⟩ := mapPage_returns 0x40000000 (ptePresent ||| pteWrite) hready.inv hroot hown
    (Or.inr hpage)
  obtain ⟨hu, hp⟩ := hfree.free 0x40000 le_rfl (by norm_num)
  refine ⟨k, k', hreach, ⟨hu, by simpa using hp⟩, mapPage_eq_ok.mp hmap, hact, ⟨x, hx⟩, ?_⟩
  rcases mapPage_effect (s := none) hready.inv rfl (by norm_num) (by decide) hmap with
    ⟨hc, -⟩ | ⟨-, -, fresh, he⟩
  · exact absurd ⟨rfl, rfl⟩ hc
  cases fresh with
  | none => exact absurd (he.freshIff.mp rfl) hno
  | some f =>
    have hpd : pdIndexOf 0x40001001 = pdIndexOf 0x40000000 := rfl
    rw [lookup_newTable he hact hpd (by decide), if_neg fun h => absurd h.1 (by decide),
      vmmLookup_own hx]
    exact (Nat.succ_ne_zero _).symm

/-- The kernel maps two pages in one slot, and the second call leaves the task alone. -/
theorem mapKernel_undisturbed_machine :
    ∃ k k' k'' r, vmmMapPage k k.kernelContext 0xb8000 0xb8000 (ptePresent ||| pteWrite)
        = .ok (k', 0)
      ∧ vmmMapPage k' k'.kernelContext 0xb9000 0xb9000 (ptePresent ||| pteWrite) = .ok (k'', r)
      ∧ k'.UserPage 0 0x40001001 ∧ Undisturbed k' k'' := by
  obtain ⟨k, -, hready, ⟨x, hx⟩, -⟩ := high_mapped
  obtain ⟨k', hmap, -, hready'⟩ := hready.mapKernel 0xb8000 0xb8000 (ptePresent ||| pteWrite)
    (by norm_num) (by decide) (by decide)
  obtain ⟨k'', hmap', -, -⟩ := hready'.mapKernel 0xb9000 0xb9000 (ptePresent ||| pteWrite)
    (by norm_num) (by decide) (by decide)
  obtain ⟨r, hr⟩ := mapPage_eq_ok.mp hmap
  obtain ⟨r', hr'⟩ := mapPage_eq_ok.mp hmap'
  have hzero : r = 0 := by
    rw [vmmMapPage, if_neg (by norm_num), if_neg (by simp)] at hr
    obtain ⟨q, -, hret⟩ := bind_eq_ok.mp hr
    exact (Prod.mk.inj (Except.ok.inj hret)).2.symm
  subst hzero
  rcases mapPage_effect (s := none) hready.inv rfl (by norm_num) (by decide) hmap with
    ⟨hc, -⟩ | ⟨-, -, fresh, he⟩
  · exact absurd ⟨rfl, rfl⟩ hc
  have hpres : Present (k'.kernelEntry (pdIndexOf 0xb9000)) := by
    obtain ⟨p, hp, -⟩ := (he.maps none 0 0xb8 _).mpr (Or.inl ⟨rfl, rfl, rfl, rfl, by decide⟩)
    exact (Kernel.hasTable_none_iff (by decide)).mp ⟨p, hp⟩
  refine ⟨k, k', k'', r', hr, hr', ⟨x, (he.maps _ _ _ _).mpr (Or.inr ⟨hx, ?_, ?_⟩)⟩,
    (mapKernel_undisturbed_iff hready'.inv (by norm_num) (by norm_num) (by decide) hr').mpr
      (Or.inr (Or.inl hpres))⟩
  · exact fun hc => by cases hc.1
  · exact fun hl => absurd hl.2.2 (by decide)

end MicroOS
