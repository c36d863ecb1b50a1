import MicroOS.Memory.PmmBoot
import MicroOS.Scheduler.Progress

/-!
Which pages `vmm_destroy_context` passes to `pmm_free`, and how often.

* `destroyPages`: the pages, in the order of the calls; `vmmDestroyContext_eq`.
* `ContextFilled`: a context that `vmm_create_context` and `vmm_clone_kernel_context` made, filled
  by `vmm_map_page` while the kernel's directory stays, with the pages that were mapped and the
  frames that the calls took for page tables.
* `Holdings` is the invariant of such a context, `Holdings.mapped` its step lemma.
* `destroy_frees_once`: each mapped frame, each page table, the directory and the context are freed
  exactly once, and nothing else is.
-/

namespace MicroOS

open ByteMem Checked PageEntry

variable {k k' : Kernel} {c i j p q x e pd pt : ℕ} {maps : List (ℕ × ℕ)} {tables : List ℕ}

/-! ### The pages that are freed -/

/-- The pages that the inner loop frees. -/
def tablePages (k : Kernel) (i pageTable : ℕ) : List ℕ :=
  (List.range 1024).flatMap fun j =>
    if Present (k.mem pageTable j) then
      if Present (k.kernelEntry i) ∧ Present (k.mem (base (k.kernelEntry i)) j) then []
      else [base (k.mem pageTable j)]
    else []

/-- The pages that a turn of the outer loop frees. -/
def slotPages (k : Kernel) (context i : ℕ) : List ℕ :=
  if Present (k.entry context i) then
    tablePages k i (base (k.entry context i))
      ++ if Present (k.kernelEntry i) then [] else [base (k.entry context i)]
  else []

/-- The pages that `vmm_destroy_context` frees, in order. -/
def destroyPages (k : Kernel) (context : ℕ) : List ℕ :=
  (List.range 1024).flatMap (slotPages k context) ++ [k.pagedir context, context]

/-- The loop over a table frees its pages, one after the other. -/
lemma destroyTable_eq (k : Kernel) (i pageTable : ℕ) (pmm : Pmm) :
    destroyTable k i pageTable pmm = (tablePages k i pageTable).foldlM pmmFree pmm := by
  rw [destroyTable, tablePages, foldlM_flatMap]
  refine foldlM_congr (fun pmm j _ => ?_) pmm
  by_cases h1 : Present (k.mem pageTable j)
  · by_cases h2 : Present (k.kernelEntry i) ∧ Present (k.mem (base (k.kernelEntry i)) j)
    · rw [if_pos h1, if_pos h1, if_pos h2, if_pos h2]
      rfl
    · rw [if_pos h1, if_pos h1, if_neg h2, if_neg h2, List.foldlM_cons]
      cases pmmFree pmm (base (k.mem pageTable j)) with
      | error e => rfl
      | ok pmm' => rfl
  · rw [if_neg h1, if_neg h1]
    rfl

/-- **`vmm_destroy_context` frees these pages.** -/
lemma vmmDestroyContext_eq (k : Kernel) (context : ℕ) :
    vmmDestroyContext k context
      = (destroyPages k context).foldlM pmmFree k.pmm >>= fun pmm => .ok { k with pmm } := by
  have hslots : ∀ pmm : Pmm, (List.range 1024).foldlM
      (fun pmm i =>
        if Present (k.entry context i) then do
          let pageTable := base (k.entry context i)
          let pmm ← destroyTable k i pageTable pmm
          if Present (k.kernelEntry i) then return pmm else pmmFree pmm pageTable
        else return pmm) pmm
      = ((List.range 1024).flatMap (slotPages k context)).foldlM pmmFree pmm := by
    intro pmm
    rw [foldlM_flatMap]
    refine foldlM_congr (fun pmm i _ => ?_) pmm
    rw [slotPages]
    by_cases h1 : Present (k.entry context i)
    · rw [if_pos h1, if_pos h1, List.foldlM_append, ← destroyTable_eq]
      dsimp only
      cases destroyTable k i (base (k.entry context i)) pmm with
      | error e => rfl
      | ok pmm' =>
        rw [ok_bind, ok_bind]
        by_cases h2 : Present (k.kernelEntry i)
        · rw [if_pos h2, if_pos h2]
          rfl
        · rw [if_neg h2, if_neg h2, List.foldlM_cons]
          cases pmmFree pmm' (base (k.entry context i)) with
          | error e => rfl
          | ok pmm'' => rfl
    · rw [if_neg h1, if_neg h1]
      rfl
  rw [vmmDestroyContext, hslots, destroyPages, List.foldlM_append]
  cases ((List.range 1024).flatMap (slotPages k context)).foldlM pmmFree k.pmm with
  | error e => rfl
  | ok pmm =>
    rw [ok_bind, ok_bind, List.foldlM_cons]
    cases pmmFree pmm (k.pagedir context) with
    | error e => rfl
    | ok pmm₁ =>
      rw [ok_bind, ok_bind, List.foldlM_cons]
      cases pmmFree pmm₁ context with
      | error e => rfl
      | ok pmm₂ => rfl

/-! ### What a context has of its own -/

/-- Slot `i` of the context has a page table, and it is not the kernel's. -/
def Kernel.OwnTable (k : Kernel) (c i q : ℕ) : Prop :=
  i < 1024 ∧ ¬ Present (k.kernelEntry i) ∧ Present (k.entry c i) ∧ base (k.entry c i) = q

/-- A page of the context itself: its own, its directory or a page table of its own. -/
def Kernel.PageOf (k : Kernel) (c q : ℕ) : Prop :=
  q = c ∨ q = k.pagedir c ∨ ∃ i, k.OwnTable c i q

/-- A page of the kernel's context. -/
def Kernel.KernelPage (k : Kernel) (q : ℕ) : Prop :=
  q = k.kernelContext ∨ q = k.pagedir k.kernelContext
    ∨ ∃ i < 1024, Present (k.kernelEntry i) ∧ q = base (k.kernelEntry i)

/-- Page `j` of slot `i` is mapped, in a page table of the context's own. -/
def Kernel.OwnMap (k : Kernel) (c i j x : ℕ) : Prop :=
  ∃ q, k.OwnTable c i q ∧ j < 1024 ∧ k.mem q j = x ∧ Present x

lemma Kernel.OwnTable.unique {q' : ℕ} (h : k.OwnTable c i q) (h' : k.OwnTable c i q') : q = q' :=
  h.2.2.2.symm.trans h'.2.2.2

/-- **What a context holds**: its pages are pages of the pool in use, apart from each other and from
the kernel's; it has the kernel's tables in the kernel's slots; and its own tables map the frames
that were mapped, which are not of the pool. -/
structure Holdings (k : Kernel) (c : ℕ) (maps : List (ℕ × ℕ)) (tables : List ℕ) : Prop where
  page : ∀ q, k.PageOf c q → PoolPage k.pmm q
  ne : c ≠ k.pagedir c
  table : ∀ i q, k.OwnTable c i q → q ≠ c ∧ q ≠ k.pagedir c
  distinct : ∀ i j q, k.OwnTable c i q → k.OwnTable c j q → i = j
  kernel : ∀ q, k.KernelPage q → PoolPage k.pmm q ∧ ¬ k.PageOf c q
  shared : ∀ i < 1024, Present (k.kernelEntry i) → k.entry c i = k.kernelEntry i
  mapped : ∀ i j p, (∃ x, k.OwnMap c i j x ∧ base x = p)
    ↔ ∃ v, (v, p) ∈ maps ∧ pdIndexOf v = i ∧ ptIndexOf v = j
  frames : ∀ m ∈ maps, ¬ k.pmm.Pool (m.2 / 0x1000)
  nodup : (maps.map Prod.snd).Nodup
  taken : ∀ f, f ∈ tables ↔ ∃ i q, k.OwnTable c i q ∧ f = q / 0x1000

/-- The pages that the slot of a table of the context's own frees. -/
lemma slotPages_own (ht : k.OwnTable c i q) :
    slotPages k c i = ((List.range 1024).flatMap fun j =>
      if Present (k.mem q j) then [base (k.mem q j)] else []) ++ [q] := by
  obtain ⟨-, hk, hpres, rfl⟩ := ht
  have hpage : ∀ j, ¬ (Present (k.kernelEntry i) ∧ Present (k.mem (base (k.kernelEntry i)) j)) :=
    fun j h => hk h.1
  rw [slotPages, if_pos hpres, if_neg hk, tablePages]
  simp only [if_neg (hpage _)]

namespace Holdings

variable (h : Holdings k c maps tables)

include h

/-- A slot without a table of its own frees nothing. -/
lemma slotPages_none (hi : i < 1024) (hno : ∀ q, ¬ k.OwnTable c i q) : slotPages k c i = [] := by
  rw [slotPages]
  by_cases hk : Present (k.kernelEntry i)
  · -- the table is the kernel's, and so is every page in it
    rw [h.shared i hi hk, if_pos hk, if_pos hk, List.append_nil, tablePages]
    refine List.flatMap_eq_nil_iff.mpr fun j _ => ?_
    by_cases hj : Present (k.mem (base (k.kernelEntry i)) j)
    · rw [if_pos hj, if_pos ⟨hk, hj⟩]
    · rw [if_neg hj]
  · exact if_neg fun hpres => hno _ ⟨hi, hk, hpres, rfl⟩

/-- The pages of a slot are those that the context maps itself, and its own table. -/
lemma mem_slotPages (hi : i < 1024) :
    p ∈ slotPages k c i ↔ (∃ j x, k.OwnMap c i j x ∧ base x = p) ∨ k.OwnTable c i p := by
  by_cases hown : ∃ q, k.OwnTable c i q
  · obtain ⟨q, hq⟩ := hown
    rw [slotPages_own hq, List.mem_append, List.mem_singleton, List.mem_flatMap]
    refine or_congr ⟨?_, ?_⟩ ⟨fun heq => heq ▸ hq, fun hp => hp.unique hq⟩
    · rintro ⟨j, hj, hp⟩
      split_ifs at hp with hpres
      · exact ⟨j, _, ⟨q, hq, List.mem_range.mp hj, rfl, hpres⟩, (List.mem_singleton.mp hp).symm⟩
      · exact absurd hp List.not_mem_nil
    · rintro ⟨j, x, ⟨q', hq', hj, rfl, hpres⟩, rfl⟩
      obtain rfl := hq'.unique hq
      exact ⟨j, List.mem_range.mpr hj, by rw [if_pos hpres]; exact List.mem_singleton_self _⟩
  · rw [h.slotPages_none hi fun q hq => hown ⟨q, hq⟩]
    refine iff_of_false List.not_mem_nil ?_
    rintro (⟨j, x, ⟨q, hq, -⟩, -⟩ | hq)
    · exact hown ⟨q, hq⟩
    · exact hown ⟨_, hq⟩

/-- A frame is mapped at one place. -/
lemma mapped_unique {i' j' x' : ℕ} (hx : k.OwnMap c i j x) (hx' : k.OwnMap c i' j' x')
    (heq : base x = base x') : i = i' ∧ j = j' := by
  obtain ⟨v, hv, rfl, rfl⟩ := (h.mapped _ _ _).mp ⟨x, hx, rfl⟩
  obtain ⟨v', hv', rfl, rfl⟩ := (h.mapped _ _ _).mp ⟨x', hx', heq.symm⟩
  cases List.inj_on_of_nodup_map h.nodup hv hv' rfl
  exact ⟨rfl, rfl⟩

lemma mapped_not_page (hx : k.OwnMap c i j x) : ¬ k.PageOf c (base x) := by
  obtain ⟨v, hv, -⟩ := (h.mapped _ _ _).mp ⟨x, hx, rfl⟩
  exact fun hp => h.frames _ hv (h.page _ hp).pool

/-- No page is in a slot twice. -/
lemma nodup_slotPages (hi : i < 1024) : (slotPages k c i).Nodup := by
  by_cases hown : ∃ q, k.OwnTable c i q
  · obtain ⟨q, hq⟩ := hown
    have hmap : ∀ j < 1024, Present (k.mem q j) → k.OwnMap c i j (k.mem q j) :=
      fun j hj hpres => ⟨q, hq, hj, rfl, hpres⟩
    rw [slotPages_own hq]
    refine List.nodup_append'.mpr ⟨List.nodup_flatMap.mpr ⟨fun j _ => ?_, ?_⟩,
      List.nodup_singleton q, ?_⟩
    · split_ifs
      · exact List.nodup_singleton _
      · exact List.nodup_nil
    · refine List.nodup_range.imp_of_mem fun {j j'} hj hj' hne => ?_
      rw [Function.onFun, List.disjoint_left]
      intro p hp hp'
      split_ifs at hp hp' with hpres hpres'
      · obtain rfl := List.mem_singleton.mp hp
        exact hne (h.mapped_unique (hmap j (List.mem_range.mp hj) hpres)
          (hmap j' (List.mem_range.mp hj') hpres') (List.mem_singleton.mp hp')).2
      · exact absurd hp' List.not_mem_nil
      · exact absurd hp List.not_mem_nil
      · exact absurd hp List.not_mem_nil
    · rw [List.disjoint_singleton]
      intro hp
      obtain ⟨j, hj, hp⟩ := List.mem_flatMap.mp hp
      split_ifs at hp with hpres
      · refine h.mapped_not_page (hmap j (List.mem_range.mp hj) hpres) ?_
        rw [← List.mem_singleton.mp hp]
        exact Or.inr (Or.inr ⟨i, hq⟩)
      · exact absurd hp List.not_mem_nil
  · rw [h.slotPages_none hi fun q hq => hown ⟨q, hq⟩]
    exact List.nodup_nil

/-- **The pages that are freed**: the mapped frames, the page tables, the directory and the
context. -/
lemma mem_destroyPages : p ∈ destroyPages k c
    ↔ (∃ i j x, k.OwnMap c i j x ∧ base x = p) ∨ k.PageOf c p := by
  rw [destroyPages, List.mem_append, List.mem_flatMap, List.mem_cons, List.mem_singleton,
    Kernel.PageOf]
  have hslots : (∃ i ∈ List.range 1024, p ∈ slotPages k c i)
      ↔ (∃ i j x, k.OwnMap c i j x ∧ base x = p) ∨ ∃ i, k.OwnTable c i p := by
    constructor
    · rintro ⟨i, hi, hp⟩
      rcases (h.mem_slotPages (List.mem_range.mp hi)).mp hp with ⟨j, x, hx⟩ | hq
      · exact Or.inl ⟨i, j, x, hx⟩
      · exact Or.inr ⟨i, hq⟩
    · rintro (⟨i, j, x, hx⟩ | ⟨i, hq⟩)
      · obtain ⟨q, hq, -⟩ := hx.1
        exact ⟨i, List.mem_range.mpr hq.1, (h.mem_slotPages hq.1).mpr (Or.inl ⟨j, x, hx⟩)⟩
      · exact ⟨i, List.mem_range.mpr hq.1, (h.mem_slotPages hq.1).mpr (Or.inr hq)⟩
  rw [hslots, or_assoc, or_comm (a := ∃ i, k.OwnTable c i p), or_comm (a := p = k.pagedir c),
    or_assoc]

/-- **No page is freed twice.** -/
lemma nodup_destroyPages : (destroyPages k c).Nodup := by
  refine List.nodup_append'.mpr ⟨List.nodup_flatMap.mpr
    ⟨fun i hi => h.nodup_slotPages (List.mem_range.mp hi), ?_⟩, ?_, ?_⟩
  · refine List.nodup_range.imp_of_mem fun {i i'} hi hi' hne => ?_
    rw [Function.onFun, List.disjoint_left]
    intro p hp hp'
    rcases (h.mem_slotPages (List.mem_range.mp hi)).mp hp with ⟨j, x, hx, rfl⟩ | hq
    · rcases (h.mem_slotPages (List.mem_range.mp hi')).mp hp' with ⟨j', x', hx', heq⟩ | hq'
      · exact hne (h.mapped_unique hx hx' heq.symm).1
      · exact h.mapped_not_page hx (Or.inr (Or.inr ⟨i', hq'⟩))
    · rcases (h.mem_slotPages (List.mem_range.mp hi')).mp hp' with ⟨j', x', hx', rfl⟩ | hq'
      · exact h.mapped_not_page hx' (Or.inr (Or.inr ⟨i, hq⟩))
      · exact hne (h.distinct i i' p hq hq')
  · exact List.nodup_cons.mpr ⟨fun hc => h.ne (List.mem_singleton.mp hc).symm,
      List.nodup_singleton c⟩
  · rw [List.disjoint_left]
    intro p hp hend
    have hpage : p = k.pagedir c ∨ p = c := by simpa using hend
    obtain ⟨i, hi, hp⟩ := List.mem_flatMap.mp hp
    rcases (h.mem_slotPages (List.mem_range.mp hi)).mp hp with ⟨j, x, hx, rfl⟩ | hq
    · exact h.mapped_not_page hx (hpage.symm.imp_right Or.inl)
    · exact hpage.elim (h.table i p hq).2 (h.table i p hq).1

end Holdings

/-! ### A context that is filled -/

/-- The page is not mapped in the context. -/
def Kernel.Unmapped (k : Kernel) (c virt : ℕ) : Prop :=
  ¬ (Present (k.entry c (pdIndexOf virt))
    ∧ Present (k.mem (base (k.entry c (pdIndexOf virt))) (ptIndexOf virt)))

/-- What else may happen meanwhile: the kernel's directory and the pages of the context stay, and
their frames stay in use. -/
structure Elsewhere (c : ℕ) (k k' : Kernel) : Prop where
  kernelContext : k'.kernelContext = k.kernelContext
  kernelDir : k'.pagedir k.kernelContext = k.pagedir k.kernelContext
  kernelEntry : ∀ i < 1024, k'.kernelEntry i = k.kernelEntry i
  mem : ∀ q, k.PageOf c q → ∀ j, k'.mem q j = k.mem q j
  mask : k'.pmm.bitmapPagetableMask = k.pmm.bitmapPagetableMask
  used : ∀ q, k.PageOf c q ∨ k.KernelPage q → k.pmm.Used (q / 0x1000) → k'.pmm.Used (q / 0x1000)

/-- **A context that was created, cloned and filled**, with the addresses and frames that were
mapped as present, and the frames that came into use for page tables. -/
inductive ContextFilled (c : ℕ) : Kernel → List (ℕ × ℕ) → List ℕ → Prop where
  | created {k₀ k₁ : Kernel} (kernel : ∀ q, k₀.KernelPage q → PoolPage k₀.pmm q)
      (create : vmmCreateContext k₀ = .ok (k₁, c)) :
      ContextFilled c (vmmCloneKernelContext k₁ c) [] []
  | mapped {k k' : Kernel} {maps : List (ℕ × ℕ)} {tables : List ℕ}
      (filled : ContextFilled c k maps tables)
      (virt phys flags : ℕ) (new : List ℕ) (address : virt < 2 ^ 32) (flag : flags < 0x1000)
      (unmapped : k.Unmapped c virt) (below : phys < 2 ^ 32)
      (frame : k.pmm.Used (phys / 0x1000) ∧ ¬ k.pmm.Pool (phys / 0x1000))
      (distinct : ∀ m ∈ maps, m.2 ≠ phys)
      (returns : vmmMapPage k c virt phys flags = .ok (k', 0))
      (taken : ∀ f, f ∈ new ↔ k'.pmm.Used f ∧ ¬ k.pmm.Used f) :
      ContextFilled c k' (if Present flags then (virt, phys) :: maps else maps) (new ++ tables)
  | elsewhere {k k' : Kernel} {maps : List (ℕ × ℕ)} {tables : List ℕ}
      (filled : ContextFilled c k maps tables) (rest : Elsewhere c k k') :
      ContextFilled c k' maps tables

/-! ### The invariant -/

/-- The directory of a clone gets the tables of the kernel. -/
lemma vmmCloneKernelContext_mem (k : Kernel) (c : ℕ) : (vmmCloneKernelContext k c).mem
    = (List.range 1024).foldl (fun m i => if Present (m (m k.kernelContext 0) i) then
        m.set (m c 0) i (m (m k.kernelContext 0) i) else m) k.mem := by
  rw [vmmCloneKernelContext]

/-- The memory of a context that was created and cloned, page by page. -/
lemma created_mem {k : Kernel} {d : ℕ} (pmm : Pmm) (hcd : c ≠ d)
    (hkernel : ∀ q, k.KernelPage q → q ≠ c ∧ q ≠ d) (q j : ℕ) :
    (vmmCloneKernelContext { k with pmm, mem := (k.mem.set c 0 d).clear d } c).mem q j
      = if q = d ∧ j ∈ List.range 1024 ∧ Present (k.kernelEntry j) then k.kernelEntry j
        else (k.mem.set c 0 d).clear d q j := by
  have hkc := hkernel _ (Or.inl rfl)
  have hkd := hkernel _ (Or.inr (Or.inl rfl))
  have hold : ∀ q j, q ≠ c → q ≠ d → (k.mem.set c 0 d).clear d q j = k.mem q j :=
    fun q j h1 h2 => (PageMem.clear_of_ne _ _ h2).trans (PageMem.set_of_ne _ _ _ _ h1)
  have hroot : (k.mem.set c 0 d).clear d c 0 = d := by
    rw [PageMem.clear_of_ne _ _ hcd, PageMem.set_apply, if_pos ⟨rfl, rfl⟩]
  have hloop := cloneLoop_spec hkc.2 hcd hkd.2 (List.range 1024) (hold _ 0 hkc.1 hkc.2) hroot q j
  rw [hold _ j hkd.1 hkd.2] at hloop
  rw [vmmCloneKernelContext_mem]
  exact hloop

/-- The kernel's directory is as it was. -/
lemma created_kernel {k₀ k₁ : Kernel} (hkernel : ∀ q, k₀.KernelPage q → PoolPage k₀.pmm q)
    (hcreate : vmmCreateContext k₀ = .ok (k₁, c)) :
    (vmmCloneKernelContext k₁ c).pagedir k₀.kernelContext = k₀.pagedir k₀.kernelContext
      ∧ ∀ i, (vmmCloneKernelContext k₁ c).kernelEntry i = k₀.kernelEntry i := by
  obtain ⟨d, pmm, rfl, hcd, -, -, hcfree, hdfree, -⟩ := vmmCreateContext_ok hcreate
  have hne : ∀ q, k₀.KernelPage q → q ≠ c ∧ q ≠ d := fun q hq =>
    ⟨fun heq => hcfree (heq ▸ (hkernel q hq).used), fun heq => hdfree (heq ▸ (hkernel q hq).used)⟩
  have hstays : ∀ q, k₀.KernelPage q → ∀ j, (vmmCloneKernelContext
      { k₀ with pmm, mem := (k₀.mem.set c 0 d).clear d } c).mem q j = k₀.mem q j := fun q hq j => by
    rw [created_mem pmm hcd hne, if_neg fun h => (hne q hq).2 h.1,
      PageMem.clear_of_ne _ _ (hne q hq).2, PageMem.set_of_ne _ _ _ _ (hne q hq).1]
  have hcontext : (vmmCloneKernelContext
      { k₀ with pmm, mem := (k₀.mem.set c 0 d).clear d } c).kernelContext = k₀.kernelContext := rfl
  generalize vmmCloneKernelContext { k₀ with pmm, mem := (k₀.mem.set c 0 d).clear d } c = k₂
    at hstays hcontext
  have hdir : k₂.pagedir k₀.kernelContext = k₀.pagedir k₀.kernelContext := hstays _ (Or.inl rfl) 0
  refine ⟨hdir, fun i => ?_⟩
  rw [Kernel.kernelEntry, hcontext, Kernel.entry, hdir]
  exact hstays _ (Or.inr (Or.inl rfl)) i

/-- A context that has just been created and cloned. -/
lemma Holdings.created {k₀ k₁ : Kernel} (hkernel : ∀ q, k₀.KernelPage q → PoolPage k₀.pmm q)
    (hcreate : vmmCreateContext k₀ = .ok (k₁, c)) :
    Holdings (vmmCloneKernelContext k₁ c) c [] [] := by
  obtain ⟨hkdir, hkentry⟩ := created_kernel hkernel hcreate
  obtain ⟨d, pmm, rfl, hcd, hc, hd, hcfree, hdfree, hb⟩ := vmmCreateContext_ok hcreate
  have hne : ∀ q, k₀.KernelPage q → q ≠ c ∧ q ≠ d := fun q hq =>
    ⟨fun heq => hcfree (heq ▸ (hkernel q hq).used), fun heq => hdfree (heq ▸ (hkernel q hq).used)⟩
  have hmem := created_mem pmm hcd hne
  have hkcontext : (vmmCloneKernelContext
      { k₀ with pmm, mem := (k₀.mem.set c 0 d).clear d } c).kernelContext = k₀.kernelContext := rfl
  have hpmm : (vmmCloneKernelContext
      { k₀ with pmm, mem := (k₀.mem.set c 0 d).clear d } c).pmm = pmm := rfl
  generalize vmmCloneKernelContext { k₀ with pmm, mem := (k₀.mem.set c 0 d).clear d } c = k₂
    at hmem hkcontext hpmm hkdir hkentry
  subst hpmm
  have hdir : k₂.pagedir c = d := by
    rw [Kernel.pagedir, hmem, if_neg fun h => hcd h.1, PageMem.clear_of_ne _ _ hcd,
      PageMem.set_apply, if_pos ⟨rfl, rfl⟩]
  have hentry : ∀ i < 1024, k₂.entry c i
      = if Present (k₀.kernelEntry i) then k₀.kernelEntry i else 0 := by
    intro i hi
    rw [Kernel.entry, hdir, hmem, PageMem.clear_self]
    by_cases hp : Present (k₀.kernelEntry i)
    · rw [if_pos ⟨rfl, List.mem_range.mpr hi, hp⟩, if_pos hp]
    · rw [if_neg fun h => hp h.2.2, if_neg hp]
  -- every entry is a copy of the kernel's, so no table is the context's own
  have hno : ∀ i q, ¬ k₂.OwnTable c i q := by
    rintro i q ⟨hi, hk, hpres, -⟩
    rw [hkentry] at hk
    rw [hentry i hi, if_neg hk] at hpres
    exact not_present_zero hpres
  have hpage : ∀ q, k₂.PageOf c q ↔ q = c ∨ q = d := fun q => by
    rw [Kernel.PageOf, hdir]
    exact or_congr_right (or_iff_left (by rintro ⟨i, hq⟩; exact hno i q hq))
  refine ⟨fun q hq => ?_, hdir ▸ hcd, fun i q hq => absurd hq (hno i q),
    fun i j q hq => absurd hq (hno i q), fun q hq => ?_, fun i hi hk => ?_, fun i j p => ?_,
    fun m hm => absurd hm List.not_mem_nil, List.nodup_nil, fun f => ?_⟩
  · rcases (hpage q).mp hq with rfl | rfl
    · exact hc
    · exact hd
  · have hq₀ : k₀.KernelPage q := by
      rcases hq with rfl | rfl | ⟨i, hi, hpres, rfl⟩
      · exact Or.inl hkcontext
      · exact Or.inr (Or.inl (hkcontext ▸ hkdir))
      · rw [hkentry] at hpres ⊢
        exact Or.inr (Or.inr ⟨i, hi, hpres, rfl⟩)
    have hused := (hkernel q hq₀).used
    refine ⟨VmmInv.poolPage_mono (hkernel q hq₀) hb.mask ((hb.used _).mpr (Or.inr hused)),
      fun hq => ?_⟩
    exact ((hpage q).mp hq).elim (hne q hq₀).1 (hne q hq₀).2
  · rw [hkentry] at hk ⊢
    rw [hentry i hi, if_pos hk]
  · refine iff_of_false ?_ ?_
    · rintro ⟨x, ⟨q, hq, -⟩, -⟩
      exact hno i q hq
    · rintro ⟨v, hv, -⟩
      exact absurd hv List.not_mem_nil
  · refine iff_of_false List.not_mem_nil ?_
    rintro ⟨i, q, hq, -⟩
    exact hno i q hq

/-- Something else happens. -/
lemma Holdings.elsewhere (h : Holdings k c maps tables) (he : Elsewhere c k k') :
    Holdings k' c maps tables := by
  have hdir : k'.pagedir c = k.pagedir c := he.mem c (Or.inl rfl) 0
  have hentry : ∀ i, k'.entry c i = k.entry c i := fun i => by
    rw [Kernel.entry, hdir]
    exact he.mem _ (Or.inr (Or.inl rfl)) i
  have hown : ∀ i q, k'.OwnTable c i q ↔ k.OwnTable c i q := fun i q => by
    rw [Kernel.OwnTable, Kernel.OwnTable, hentry]
    exact and_congr_right fun hi => by rw [he.kernelEntry i hi]
  have hpage : ∀ q, k'.PageOf c q ↔ k.PageOf c q := fun q => by
    simp only [Kernel.PageOf, hdir, hown]
  have hkernel : ∀ q, k'.KernelPage q → k.KernelPage q := by
    rintro q (rfl | rfl | ⟨i, hi, hpres, rfl⟩)
    · exact Or.inl he.kernelContext
    · rw [he.kernelContext]
      exact Or.inr (Or.inl he.kernelDir)
    · rw [he.kernelEntry i hi] at hpres ⊢
      exact Or.inr (Or.inr ⟨i, hi, hpres, rfl⟩)
  have hmap : ∀ i j x, k'.OwnMap c i j x ↔ k.OwnMap c i j x := by
    intro i j x
    refine exists_congr fun q => ?_
    rw [hown]
    exact and_congr_right fun hq => by rw [he.mem q (Or.inr (Or.inr ⟨i, hq⟩))]
  refine ⟨fun q hq => ?_, hdir ▸ h.ne, fun i q hq => ?_, fun i j q hq hq' => ?_, fun q hq => ?_,
    fun i hi hk => ?_, fun i j p => ?_, fun m hm => ?_, h.nodup, fun f => ?_⟩
  · have hold := h.page q ((hpage q).mp hq)
    exact VmmInv.poolPage_mono hold he.mask (he.used q (Or.inl ((hpage q).mp hq)) hold.used)
  · rw [hdir]
    exact h.table i q ((hown i q).mp hq)
  · exact h.distinct i j q ((hown i q).mp hq) ((hown j q).mp hq')
  · obtain ⟨hold, hnot⟩ := h.kernel q (hkernel q hq)
    exact ⟨VmmInv.poolPage_mono hold he.mask (he.used q (Or.inr (hkernel q hq)) hold.used),
      mt (hpage q).mp hnot⟩
  · rw [he.kernelEntry i hi] at hk ⊢
    rw [hentry, h.shared i hi hk]
  · simp only [hmap]
    exact h.mapped i j p
  · rw [Pmm.Pool, he.mask]
    exact h.frames m hm
  · simp only [hown]
    exact h.taken f

/-! ### A page is mapped -/

/-- What `vmm_map_page` does to the context: the entry is written into the table of its slot, which
was there or is a page of the pool that was free. -/
structure MapStep (k : Kernel) (c pd pt e : ℕ) (fresh : Option ℕ) (k' : Kernel) : Prop where
  kernelContext : k'.kernelContext = k.kernelContext
  kernelDir : k'.pagedir k.kernelContext = k.pagedir k.kernelContext
  kernelEntry : ∀ i, k'.kernelEntry i = k.kernelEntry i
  dir : k'.pagedir c = k.pagedir c
  shared : ∀ i < 1024, Present (k.kernelEntry i) → k'.entry c i = k.entry c i
  own : ∀ i q, k'.OwnTable c i q
    ↔ k.OwnTable c i q ∨ ∃ f, fresh = some f ∧ i = pd ∧ q = f * 0x1000
  freshIff : fresh = none ↔ ∃ q, k.OwnTable c pd q
  mem : ∀ i q, k.OwnTable c i q → ∀ j, k'.mem q j = if i = pd ∧ j = pt then e else k.mem q j
  memNew : ∀ f, fresh = some f → ∀ j, k'.mem (f * 0x1000) j = if j = pt then e else 0
  pmm : Grows k.pmm fresh k'.pmm

namespace MapStep

variable {fresh : Option ℕ} (hs : MapStep k c pd pt e fresh k')

include hs

/-- The mappings afterwards. -/
lemma ownMap (hpt : pt < 1024) (hno : ∀ x, ¬ k.OwnMap c pd pt x) :
    k'.OwnMap c i j x ↔ (i = pd ∧ j = pt ∧ x = e ∧ Present e) ∨ k.OwnMap c i j x := by
  constructor
  · rintro ⟨q, hq, hj, rfl, hpres⟩
    rcases (hs.own i q).mp hq with hq | ⟨f, hf, rfl, rfl⟩
    · rw [hs.mem i q hq j] at hpres ⊢
      by_cases hij : i = pd ∧ j = pt
      · rw [if_pos hij] at hpres ⊢
        exact Or.inl ⟨hij.1, hij.2, rfl, hpres⟩
      · rw [if_neg hij] at hpres ⊢
        exact Or.inr ⟨q, hq, hj, rfl, hpres⟩
    · rw [hs.memNew f hf j] at hpres ⊢
      by_cases hjt : j = pt
      · rw [if_pos hjt] at hpres ⊢
        exact Or.inl ⟨rfl, hjt, rfl, hpres⟩
      · rw [if_neg hjt] at hpres
        exact absurd hpres not_present_zero
  · rintro (⟨rfl, rfl, rfl, hpres⟩ | ⟨q, hq, hj, rfl, hpres⟩)
    · cases fresh with
      | none =>
        obtain ⟨q, hq⟩ := hs.freshIff.mp rfl
        exact ⟨q, (hs.own _ _).mpr (Or.inl hq), hpt,
          (hs.mem _ _ hq _).trans (if_pos ⟨rfl, rfl⟩), hpres⟩
      | some f =>
        exact ⟨f * 0x1000, (hs.own _ _).mpr (Or.inr ⟨f, rfl, rfl, rfl⟩), hpt,
          (hs.memNew f rfl _).trans (if_pos rfl), hpres⟩
    · refine ⟨q, (hs.own _ _).mpr (Or.inl hq), hj, (hs.mem i q hq j).trans (if_neg ?_), hpres⟩
      rintro ⟨rfl, rfl⟩
      exact hno _ ⟨q, hq, hj, rfl, hpres⟩

/-- The pages of a context after a mapping: those before it, and the fresh one. -/
lemma pageOf (q : ℕ) : k'.PageOf c q ↔ k.PageOf c q ∨ ∃ f, fresh = some f ∧ q = f * 0x1000 := by
  simp only [Kernel.PageOf, hs.dir, hs.own]
  constructor
  · rintro (hq | hq | ⟨i, hq | ⟨f, hf, -, hq⟩⟩)
    · exact Or.inl (Or.inl hq)
    · exact Or.inl (Or.inr (Or.inl hq))
    · exact Or.inl (Or.inr (Or.inr ⟨i, hq⟩))
    · exact Or.inr ⟨f, hf, hq⟩
  · rintro ((hq | hq | ⟨i, hq⟩) | ⟨f, hf, hq⟩)
    · exact Or.inl hq
    · exact Or.inr (Or.inl hq)
    · exact Or.inr (Or.inr ⟨i, Or.inl hq⟩)
    · exact Or.inr (Or.inr ⟨pd, Or.inr ⟨f, hf, rfl, hq⟩⟩)

/-- No page of the kernel is made. -/
lemma kernelPage (hq : k'.KernelPage q) : k.KernelPage q := by
  rcases hq with rfl | rfl | ⟨i, hi, hpres, rfl⟩
  · exact Or.inl hs.kernelContext
  · rw [hs.kernelContext]
    exact Or.inr (Or.inl hs.kernelDir)
  · rw [hs.kernelEntry] at hpres ⊢
    exact Or.inr (Or.inr ⟨i, hi, hpres, rfl⟩)

/-- A new table is none of the pages that are in use. -/
lemma fresh_ne {f : ℕ} (hf : fresh = some f) (hq : k.pmm.Used (q / 0x1000)) : q ≠ f * 0x1000 := by
  rintro rfl
  rw [Nat.mul_div_cancel _ (by norm_num)] at hq
  exact (hs.pmm.free f hf).2.1 hq

/-- A fresh page is one of the pool. -/
lemma fresh_page {f : ℕ} (hf : fresh = some f) : PoolPage k'.pmm (f * 0x1000) := by
  obtain ⟨hlt, hfit⟩ := hs.pmm.free f hf
  have hdiv : f * 0x1000 / 0x1000 = f := Nat.mul_div_cancel _ (by norm_num)
  refine ⟨Dvd.intro_left f rfl, ?_, ?_, ?_⟩
  · rw [frameCount] at hlt
    omega
  · rw [hdiv, Pmm.Pool, hs.pmm.mask]
    exact hfit.2.mpr rfl
  · rw [hdiv]
    exact (hs.pmm.used f).mpr (Or.inl hf)

end MapStep

section Mapped

variable {fresh : Option ℕ} {virt phys flags : ℕ} {new : List ℕ}

/-- **The step lemma**: a page is mapped. -/
lemma Holdings.mapPage (h : Holdings k c maps tables)
    (hs : MapStep k c (pdIndexOf virt) (ptIndexOf virt) (phys ||| flags) fresh k')
    (hno : ∀ x, ¬ k.OwnMap c (pdIndexOf virt) (ptIndexOf virt) x) (hflags : flags < 0x1000)
    (hphys : phys < 2 ^ 32) (hal : phys % 0x1000 = 0) (hframe : ¬ k.pmm.Pool (phys / 0x1000))
    (hdistinct : ∀ m ∈ maps, m.2 ≠ phys)
    (hnew : ∀ f, f ∈ new ↔ k'.pmm.Used f ∧ ¬ k.pmm.Used f) :
    Holdings k' c (if Present flags then (virt, phys) :: maps else maps) (new ++ tables) := by
  have hmono : ∀ f, k.pmm.Used f → k'.pmm.Used f := fun f hf => (hs.pmm.used f).mpr (Or.inr hf)
  have hpool : ∀ f, k'.pmm.Pool f ↔ k.pmm.Pool f := fun f => by rw [Pmm.Pool, Pmm.Pool, hs.pmm.mask]
  have hpageUsed : ∀ q, k.PageOf c q → k.pmm.Used (q / 0x1000) := fun q hq => (h.page q hq).used
  have hpres : Present (phys ||| flags) ↔ Present flags := by
    rw [Present, Present, or_and_flag (Nat.dvd_of_mod_eq_zero hal) (by norm_num [ptePresent])]
  have hbase : base (phys ||| flags) = phys :=
    base_or (Nat.dvd_of_mod_eq_zero hal) hphys hflags
  refine ⟨fun q hq => ?_, hs.dir ▸ h.ne, fun i q hq => ?_, fun i j q hq hq' => ?_, fun q hq => ?_,
    fun i hi hk => ?_, fun i j p => ?_, fun m hm => ?_, ?_, fun f => ?_⟩
  · -- a page of the context is one of before, or the fresh table
    rcases (hs.pageOf q).mp hq with hq | ⟨f, hf, rfl⟩
    · exact VmmInv.poolPage_mono (h.page q hq) hs.pmm.mask (hmono _ (hpageUsed q hq))
    · exact hs.fresh_page hf
  · rw [hs.dir]
    rcases (hs.own i q).mp hq with hq | ⟨f, hf, -, rfl⟩
    · exact h.table i q hq
    · exact ⟨(hs.fresh_ne hf (hpageUsed _ (Or.inl rfl))).symm,
        (hs.fresh_ne hf (hpageUsed _ (Or.inr (Or.inl rfl)))).symm⟩
  · rcases (hs.own i q).mp hq with hq | ⟨f, hf, hi, rfl⟩
    · rcases (hs.own j q).mp hq' with hq' | ⟨f, hf, -, rfl⟩
      · exact h.distinct i j q hq hq'
      · exact absurd rfl (hs.fresh_ne hf (hpageUsed _ (Or.inr (Or.inr ⟨i, hq⟩))))
    · rcases (hs.own j _).mp hq' with hq' | ⟨f', hf', hj, -⟩
      · exact absurd rfl (hs.fresh_ne hf (hpageUsed _ (Or.inr (Or.inr ⟨j, hq'⟩))))
      · rw [hi, hj]
  · obtain ⟨hold, hnot⟩ := h.kernel q (hs.kernelPage hq)
    refine ⟨VmmInv.poolPage_mono hold hs.pmm.mask (hmono _ hold.used), fun hq => ?_⟩
    rcases (hs.pageOf q).mp hq with hq | ⟨f, hf, rfl⟩
    · exact hnot hq
    · exact hs.fresh_ne hf hold.used rfl
  · rw [hs.kernelEntry] at hk ⊢
    rw [hs.shared i hi hk, h.shared i hi hk]
  · -- the pages that the tables map are those of before, and the new one
    have hiff : (∃ x, k'.OwnMap c i j x ∧ base x = p)
        ↔ (Present flags ∧ i = pdIndexOf virt ∧ j = ptIndexOf virt ∧ p = phys)
          ∨ ∃ x, k.OwnMap c i j x ∧ base x = p := by
      simp only [hs.ownMap (ptIndexOf_lt virt) hno]
      constructor
      · rintro ⟨x, ⟨hi, hj, rfl, hx⟩ | hx, rfl⟩
        · exact Or.inl ⟨hpres.mp hx, hi, hj, hbase⟩
        · exact Or.inr ⟨x, hx, rfl⟩
      · rintro (⟨hp, hi, hj, rfl⟩ | ⟨x, hx, hp⟩)
        · exact ⟨_, Or.inl ⟨hi, hj, rfl, hpres.mpr hp⟩, hbase⟩
        · exact ⟨x, Or.inr hx, hp⟩
    rw [hiff, h.mapped]
    by_cases hp : Present flags
    · rw [if_pos hp]
      constructor
      · rintro (⟨-, rfl, rfl, rfl⟩ | ⟨v, hv, hi, hj⟩)
        · exact ⟨virt, List.mem_cons_self, rfl, rfl⟩
        · exact ⟨v, List.mem_cons_of_mem _ hv, hi, hj⟩
      · rintro ⟨v, hv, rfl, rfl⟩
        rcases List.mem_cons.mp hv with heq | hv
        · cases heq
          exact Or.inl ⟨hp, rfl, rfl, rfl⟩
        · exact Or.inr ⟨v, hv, rfl, rfl⟩
    · rw [if_neg hp, or_iff_right fun hc => hp hc.1]
  · rw [hpool]
    split_ifs at hm with hp
    · rcases List.mem_cons.mp hm with rfl | hm
      · exact hframe
      · exact h.frames m hm
    · exact h.frames m hm
  · split_ifs with hp
    · refine List.nodup_cons.mpr ⟨fun hm => ?_, h.nodup⟩
      obtain ⟨m, hm, heq⟩ := List.mem_map.mp hm
      exact hdistinct m hm heq
    · exact h.nodup
  · -- the frames that are taken are those of before, and the fresh table's
    have hfresh : f ∈ new ↔ fresh = some f := by
      rw [hnew, hs.pmm.used]
      exact ⟨fun hf => hf.1.resolve_right hf.2, fun hf => ⟨Or.inl hf, (hs.pmm.free f hf).2.1⟩⟩
    rw [List.mem_append, hfresh, h.taken]
    constructor
    · rintro (hf | ⟨i, q, hq, hf⟩)
      · exact ⟨_, _, (hs.own _ _).mpr (Or.inr ⟨f, hf, rfl, rfl⟩),
          (Nat.mul_div_cancel f (by norm_num)).symm⟩
      · exact ⟨i, q, (hs.own i q).mpr (Or.inl hq), hf⟩
    · rintro ⟨i, q, hq, rfl⟩
      rcases (hs.own i q).mp hq with hq | ⟨g, hg, -, rfl⟩
      · exact Or.inr ⟨i, q, hq, rfl⟩
      · rw [Nat.mul_div_cancel g (by norm_num)]
        exact Or.inl hg

/-- The entry is written into a table that is there. -/
lemma Holdings.mapStep_table (h : Holdings k c maps tables) (hq : k.OwnTable c pd q) :
    MapStep k c pd pt e none { k with mem := k.mem.set q pt e } := by
  have hpage : k.PageOf c q := Or.inr (Or.inr ⟨pd, hq⟩)
  have hkernel : ∀ q', k.KernelPage q' → ∀ j, k.mem.set q pt e q' j = k.mem q' j := fun q' hq' j =>
    k.mem.set_of_ne _ _ _ fun heq => (h.kernel q' hq').2 (heq ▸ hpage)
  have hkdir : k.mem.set q pt e k.kernelContext 0 = k.pagedir k.kernelContext :=
    hkernel _ (Or.inl rfl) 0
  have hdir : k.mem.set q pt e c 0 = k.pagedir c := k.mem.set_of_ne _ _ _ (h.table pd q hq).1.symm
  have hkentry : ∀ i, ({ k with mem := k.mem.set q pt e } : Kernel).kernelEntry i
      = k.kernelEntry i := fun i => by
    refine (congrArg (k.mem.set q pt e · i) hkdir).trans ?_
    exact hkernel _ (Or.inr (Or.inl rfl)) i
  have hentry : ∀ i, ({ k with mem := k.mem.set q pt e } : Kernel).entry c i = k.entry c i :=
    fun i => by
      refine (congrArg (k.mem.set q pt e · i) hdir).trans ?_
      exact k.mem.set_of_ne _ _ _ (h.table pd q hq).2.symm
  refine ⟨rfl, hkdir, hkentry, hdir, fun i _ _ => hentry i, fun i q' => ?_,
    iff_of_true rfl ⟨q, hq⟩, fun i q' hq' j => ?_, fun f hf => (by cases hf),
    ⟨rfl, fun f => (or_iff_right (by simp)).symm, fun f hf => (by cases hf)⟩⟩
  · rw [Kernel.OwnTable, Kernel.OwnTable, hkentry, hentry]
    exact (or_iff_left fun ⟨f, hf, _⟩ => (by cases hf)).symm
  · refine (k.mem.set_apply _ _ _ _ _).trans (if_congr (and_congr_left fun _ => ?_) rfl rfl)
    exact ⟨fun heq => h.distinct i pd q (heq ▸ hq') hq, fun heq => (heq ▸ hq').unique hq⟩

/-- The entry is written into a new table. -/
lemma Holdings.mapStep_new (h : Holdings k c maps tables) {f : ℕ} {pmm : Pmm} (hpd : pd < 1024)
    (hk : ¬ Present (k.kernelEntry pd)) (hpres : ¬ Present (k.entry c pd)) (hf : f < frameCount)
    (hfit : k.pmm.Fits true f) (hflags : flags < 0x1000)
    (hb : k.pmm.Becomes pmm fun g => g = f ∨ k.pmm.Used g) :
    MapStep k c pd pt e (some f)
      { k with
        pmm
        mem := ((k.mem.clear (f * 0x1000)).set (k.pagedir c) pd
          (f * 0x1000 ||| ptePresent ||| flags)).set (f * 0x1000) pt e } := by
  set m := ((k.mem.clear (f * 0x1000)).set (k.pagedir c) pd
    (f * 0x1000 ||| ptePresent ||| flags)).set (f * 0x1000) pt e with hm
  have hdvd : 0x1000 ∣ f * 0x1000 := Dvd.intro_left f rfl
  have hlt : f * 0x1000 < 2 ^ 32 := by
    rw [frameCount] at hf
    omega
  have hunused : ∀ q, k.pmm.Used (q / 0x1000) → q ≠ f * 0x1000 := by
    rintro q hq rfl
    rw [Nat.mul_div_cancel _ (by norm_num)] at hq
    exact hfit.1 hq
  have hpage : ∀ q, k.PageOf c q → q ≠ f * 0x1000 := fun q hq => hunused q (h.page q hq).used
  have hdirne : k.pagedir c ≠ f * 0x1000 := hpage _ (Or.inr (Or.inl rfl))
  have hold : ∀ q j, q ≠ f * 0x1000 → q ≠ k.pagedir c → m q j = k.mem q j := fun q j h1 h2 => by
    rw [hm, PageMem.set_of_ne _ _ _ _ h1, PageMem.set_of_ne _ _ _ _ h2, PageMem.clear_of_ne _ _ h1]
  -- the kernel's pages are in frames that were used, so no write reaches them
  have hkernel : ∀ q, k.KernelPage q → ∀ j, m q j = k.mem q j := fun q hq j =>
    hold q j (hunused q (h.kernel q hq).1.used) fun heq => (h.kernel q hq).2 (Or.inr (Or.inl heq))
  have hkdir : m k.kernelContext 0 = k.pagedir k.kernelContext := hkernel _ (Or.inl rfl) 0
  have hdir : m c 0 = k.pagedir c := hold c 0 (hpage c (Or.inl rfl)) h.ne
  have hkentry : ∀ i, ({ k with pmm, mem := m } : Kernel).kernelEntry i = k.kernelEntry i :=
    fun i => (congrArg (m · i) hkdir).trans (hkernel _ (Or.inr (Or.inl rfl)) i)
  have hentry : ∀ i, ({ k with pmm, mem := m } : Kernel).entry c i
      = if i = pd then f * 0x1000 ||| ptePresent ||| flags else k.entry c i := fun i => by
    refine (congrArg (m · i) hdir).trans ?_
    rw [hm, PageMem.set_of_ne _ _ _ _ hdirne, PageMem.set_apply, PageMem.clear_of_ne _ _ hdirne]
    exact if_congr (and_iff_right rfl) rfl rfl
  have hnone : ∀ q, ¬ k.OwnTable c pd q := fun q hq => hpres hq.2.2.1
  have hnotable : ¬∃ q, k.OwnTable c pd q := by
    rintro ⟨q, hq⟩
    exact hnone q hq
  refine ⟨rfl, hkdir, hkentry, hdir, fun i hi hki => ?_, fun i q => ?_,
    iff_of_false (by simp) hnotable, fun i q hq j => ?_, fun g hg j => ?_,
    ⟨hb.mask, fun g => ?_, fun g hg => ?_⟩⟩
  · refine (hentry i).trans (if_neg ?_)
    rintro rfl
    exact hk hki
  · rw [Kernel.OwnTable, hkentry, hentry]
    -- the slot `pd` has the fresh table, and every other slot what it had
    by_cases hi : i = pd
    · subst hi
      rw [if_pos rfl, base_tableEntry hdvd hlt hflags]
      constructor
      · rintro ⟨-, -, -, rfl⟩
        exact Or.inr ⟨f, rfl, rfl, rfl⟩
      · rintro (hq | ⟨g, hg, -, rfl⟩)
        · exact absurd hq (hnone q)
        · cases hg
          exact ⟨hpd, hk, present_tableEntry hdvd, rfl⟩
    · rw [if_neg hi]
      refine (or_iff_left ?_).symm
      rintro ⟨g, -, hc, -⟩
      exact hi hc
  · have hi : i ≠ pd := fun heq => hnone q (heq ▸ hq)
    rw [if_neg fun hc => hi hc.1]
    exact hold q j (hpage q (Or.inr (Or.inr ⟨i, hq⟩))) (h.table i q hq).2
  · cases hg
    refine (PageMem.set_apply _ _ _ _ _ _).trans ?_
    rw [PageMem.set_of_ne _ _ _ _ hdirne.symm, PageMem.clear_self]
    exact if_congr (and_iff_right rfl) rfl rfl
  · rw [hb.used, Option.some.injEq, eq_comm]
  · cases hg
    exact ⟨hf, hfit⟩

/-- **`vmm_map_page`** in such a context. -/
lemma Holdings.mapStep (h : Holdings k c maps tables) (hv : virt < 2 ^ 32)
    (hflags : flags < 0x1000) (hmap : vmmMapPage k c virt phys flags = .ok (k', 0)) :
    (virt % 0x1000 = 0 ∧ phys % 0x1000 = 0)
      ∧ ∃ fresh, MapStep k c (pdIndexOf virt) (ptIndexOf virt) (phys ||| flags) fresh k' := by
  have hne : c ≠ k.kernelContext := fun heq => (h.kernel c (Or.inl heq)).2 (Or.inl rfl)
  have hpd := pdIndexOf_lt hv
  rw [vmmMapPage] at hmap
  by_cases hal : virt % 0x1000 ≠ 0 ∨ phys % 0x1000 ≠ 0
  · rw [if_pos hal] at hmap
    cases hmap
  rw [if_neg hal] at hmap
  refine ⟨by tauto, ?_⟩
  by_cases hk : Present (k.kernelEntry (pdIndexOf virt))
  · rw [if_pos ⟨hne, hk⟩] at hmap
    cases hmap
  rw [if_neg fun hc => hk hc.2, bind_eq_ok] at hmap
  obtain ⟨⟨k₂, page⟩, htable, hret⟩ := hmap
  obtain rfl := (Prod.mk.inj (Except.ok.inj hret)).1
  rw [pageTableFor] at htable
  by_cases hpres : Present (k.entry c (pdIndexOf virt))
  · rw [if_pos hpres] at htable
    obtain ⟨rfl, rfl⟩ := Prod.mk.inj (Except.ok.inj htable)
    exact ⟨none, h.mapStep_table ⟨hpd, hk, hpres, rfl⟩⟩
  · rw [if_neg hpres] at htable
    rcases allocFrame_spec k.pmm true with ⟨halloc, -⟩ | ⟨f, pmm, halloc, hf, hfit, -, hb⟩
    · rw [pmmAllocPagetable, halloc] at htable
      cases htable
    rw [pmmAllocPagetable, halloc, ok_bind] at htable
    obtain ⟨rfl, rfl⟩ := Prod.mk.inj (Except.ok.inj htable)
    have hroot : k.mem.clear (f * 0x1000) c 0 = k.pagedir c := by
      refine k.mem.clear_of_ne 0 fun heq => hfit.1 ?_
      have hused := (h.page c (Or.inl rfl)).used
      rwa [heq, Nat.mul_div_cancel _ (by norm_num)] at hused
    rw [if_neg hne, hroot]
    exact ⟨some f, h.mapStep_new hpd hk hpres hf hfit hflags hb⟩

end Mapped

/-- **The run lemma.** -/
lemma ContextFilled.holdings (h : ContextFilled c k maps tables) : Holdings k c maps tables := by
  induction h with
  | created kernel create => exact .created kernel create
  | mapped filled virt phys flags new address flag unmapped below frame distinct returns taken ih =>
    obtain ⟨hal, fresh, hs⟩ := ih.mapStep address flag returns
    refine ih.mapPage hs ?_ flag below hal.2 frame.2 distinct taken
    rintro x ⟨q, hq, -, rfl, hpres⟩
    obtain ⟨-, -, hdir, rfl⟩ := hq
    exact unmapped ⟨hdir, hpres⟩
  | elsewhere filled rest ih => exact ih.elsewhere rest

/-- **Destroying a context frees exactly what it owns**: `vmm_destroy_context` passes the frame of
each page that was mapped as present, each page table that was taken for the context, its directory
and its context page to `pmm_free` exactly once, and nothing else; no page of the kernel's context
is among them. -/
theorem destroy_frees_once (h : ContextFilled c k maps tables) :
    (∃ pmm, (destroyPages k c).foldlM pmmFree k.pmm = .ok pmm
        ∧ vmmDestroyContext k c = .ok { k with pmm })
      ∧ (framesOf (destroyPages k c)).Nodup
      ∧ (∀ f, f ∈ framesOf (destroyPages k c) ↔ (∃ m ∈ maps, f = m.2 / 4096) ∨ f ∈ tables
        ∨ f = k.pagedir c / 4096 ∨ f = c / 4096)
      ∧ ∀ q, k.KernelPage q → q ∉ destroyPages k c := by
  have hh := h.holdings
  have haligned : ∀ p ∈ destroyPages k c, 0x1000 ∣ p ∧ p < 2 ^ 32 := by
    intro p hp
    rcases hh.mem_destroyPages.mp hp with ⟨i, j, x, -, rfl⟩ | hp
    · exact ⟨dvd_base x, base_lt x⟩
    · exact ⟨(hh.page p hp).aligned, (hh.page p hp).below⟩
  refine ⟨?_, ?_, fun f => ?_, fun q hq hp => ?_⟩
  · obtain ⟨pmm, hfree, -⟩ := freeAll (fun p hp => (haligned p hp).2) k.pmm
    exact ⟨pmm, hfree, by rw [vmmDestroyContext_eq, hfree, ok_bind]⟩
  · refine hh.nodup_destroyPages.map_on fun p hp q hq heq => ?_
    have h1 := (haligned p hp).1
    have h2 := (haligned q hq).1
    change p / 4096 = q / 4096 at heq
    omega
  · rw [mem_framesOf, hh.taken]
    constructor
    · rintro ⟨p, hp, rfl⟩
      rcases hh.mem_destroyPages.mp hp with ⟨i, j, x, hx, rfl⟩ | rfl | rfl | ⟨i, hq⟩
      · obtain ⟨v, hv, -⟩ := (hh.mapped i j _).mp ⟨x, hx, rfl⟩
        exact Or.inl ⟨_, hv, rfl⟩
      · exact Or.inr (Or.inr (Or.inr rfl))
      · exact Or.inr (Or.inr (Or.inl rfl))
      · exact Or.inr (Or.inl ⟨i, p, hq, rfl⟩)
    · rintro (⟨m, hm, rfl⟩ | ⟨i, q, hq, rfl⟩ | rfl | rfl)
      · obtain ⟨x, hx, heq⟩ := (hh.mapped _ _ m.2).mpr ⟨m.1, hm, rfl, rfl⟩
        exact ⟨m.2, hh.mem_destroyPages.mpr (Or.inl ⟨_, _, x, hx, heq⟩), rfl⟩
      · exact ⟨q, hh.mem_destroyPages.mpr (Or.inr (Or.inr (Or.inr ⟨i, hq⟩))), rfl⟩
      · exact ⟨_, hh.mem_destroyPages.mpr (Or.inr (Or.inr (Or.inl rfl))), rfl⟩
      · exact ⟨_, hh.mem_destroyPages.mpr (Or.inr (Or.inl rfl)), rfl⟩
  · obtain ⟨hpool, hnot⟩ := hh.kernel q hq
    rcases hh.mem_destroyPages.mp hp with ⟨i, j, x, hx, rfl⟩ | hp
    · obtain ⟨v, hv, -⟩ := (hh.mapped i j _).mp ⟨x, hx, rfl⟩
      exact hh.frames _ hv hpool.pool
    · exact hnot hp

/-- The frames that a call takes can be listed. -/
lemma ContextFilled.map {virt phys flags : ℕ} (h : ContextFilled c k maps tables)
    (address : virt < 2 ^ 32)
    (flag : flags < 0x1000) (unmapped : k.Unmapped c virt) (below : phys < 2 ^ 32)
    (frame : k.pmm.Used (phys / 0x1000) ∧ ¬ k.pmm.Pool (phys / 0x1000))
    (distinct : ∀ m ∈ maps, m.2 ≠ phys) (returns : vmmMapPage k c virt phys flags = .ok (k', 0)) :
    ∃ new, ContextFilled c k' (if Present flags then (virt, phys) :: maps else maps)
      (new ++ tables) := by
  obtain ⟨-, fresh, hs⟩ := h.holdings.mapStep address flag returns
  refine ⟨fresh.toList, h.mapped virt phys flags _ address flag unmapped below frame distinct
    returns fun f => ?_⟩
  rw [Option.mem_toList, hs.pmm.used]
  exact ⟨fun hf => ⟨Or.inl hf, (hs.pmm.free f hf).2.1⟩, fun hf => hf.1.resolve_right hf.2⟩

/-! ### A context with one page -/

/-- A kernel without page tables; of the first 64 frames, in use, the upper half is not of the
pool. -/
def bareKernel : Kernel :=
  ⟨⟨fun w => if w < 2 then 0 else 0xffffffff, fun w => if w = 1 then 0xffffffff else 0, 0, 0⟩,
    fun _ _ => 0, 0x5000, fun _ => Task.zero, 0, 0⟩

/-- A bare kernel has pages of the pool only. -/
lemma bareKernel_page (hq : bareKernel.KernelPage q) : PoolPage bareKernel.pmm q := by
  rcases hq with rfl | rfl | ⟨i, -, hpres, -⟩
  · exact ⟨by decide, by decide, by decide, by decide⟩
  · exact ⟨by decide, by decide, by decide, by decide⟩
  · exact absurd hpres not_present_zero

/-- A call returns, where the slot is not the kernel's and the pool has a page. -/
lemma vmmMapPage_returns (c virt phys flags : ℕ) (hvirt : virt % 0x1000 = 0)
    (hphys : phys % 0x1000 = 0) (hk : ¬ Present (k.kernelEntry (pdIndexOf virt)))
    (hroom : k.pmm.Reserve 1) : ∃ k', vmmMapPage k c virt phys flags = .ok (k', 0) := by
  rw [vmmMapPage, if_neg fun hal => hal.elim (absurd hvirt) (absurd hphys),
    if_neg fun hc => hk hc.2, pageTableFor]
  by_cases hpres : Present (k.entry c (pdIndexOf virt))
  · rw [if_pos hpres]
    exact ⟨_, rfl⟩
  · obtain ⟨pmm, page, halloc, -⟩ := hroom.alloc
    rw [if_neg hpres, halloc]
    exact ⟨_, rfl⟩

/-- Its first context, and a call that maps frame `0x20`. -/
lemma bareKernel_maps (flags : ℕ) :
    ∃ c k k', ContextFilled c k [] [] ∧ k.Unmapped c 0x40000000
      ∧ (k.pmm.Used (0x20000 / 0x1000) ∧ ¬ k.pmm.Pool (0x20000 / 0x1000))
      ∧ vmmMapPage k c 0x40000000 0x20000 flags = .ok (k', 0) := by
  have hreserve : bareKernel.pmm.Reserve 3 :=
    ⟨{64, 65, 66}, by decide, fun f hf => by
      simp only [Finset.mem_insert, Finset.mem_singleton] at hf
      rcases hf with rfl | rfl | rfl <;> exact ⟨by decide, by decide, by decide⟩⟩
  obtain ⟨k₁, c, hcreate, -, hroom, -⟩ := vmmCreateContext_returns hreserve
  have hfilled := ContextFilled.created (fun q hq => bareKernel_page hq) hcreate
  have hk : ¬ Present ((vmmCloneKernelContext k₁ c).kernelEntry (pdIndexOf 0x40000000)) := by
    rw [(created_kernel (fun q hq => bareKernel_page hq) hcreate).2]
    exact not_present_zero
  have hpmm : (vmmCloneKernelContext k₁ c).pmm = k₁.pmm := by rw [vmmCloneKernelContext]
  rw [← hpmm] at hroom
  obtain ⟨k', hmap⟩ :=
    vmmMapPage_returns c 0x40000000 0x20000 flags (by norm_num) (by norm_num) hk hroom
  refine ⟨c, _, k', hfilled, fun h => ?_, ?_, hmap⟩
  · refine absurd ((hfilled.holdings.taken _).mpr ⟨_, _, ⟨by decide, hk, h.1, rfl⟩, rfl⟩) ?_
    exact List.not_mem_nil
  obtain ⟨d, pmm, rfl, -, -, -, -, -, hb⟩ := vmmCreateContext_ok hcreate
  exact ⟨(hb.used _).mpr (Or.inr (by decide)), mt (hb.pool _).mp (by decide)⟩

/-- A context with one page frees it once. -/
theorem destroy_frees_once_bareKernel :
    ∃ c k tables, ContextFilled c k [(0x40000000, 0x20000)] tables
      ∧ (framesOf (destroyPages k c)).Nodup ∧ 0x20 ∈ framesOf (destroyPages k c) := by
  obtain ⟨c, k, k', hfilled, hunmapped, hframe, hmap⟩ :=
    bareKernel_maps userFlags
  obtain ⟨new, hnew⟩ := hfilled.map (by norm_num) (by decide) hunmapped (by norm_num) hframe
    (fun m hm => absurd hm List.not_mem_nil) hmap
  rw [if_pos (by decide)] at hnew
  obtain ⟨-, hnodup, hmem, -⟩ := destroy_frees_once hnew
  exact ⟨c, k', _, hnew, hnodup, (hmem 0x20).mpr (Or.inl ⟨_, List.mem_cons_self, rfl⟩)⟩

/-- A frame that is mapped with no flags is not freed. -/
theorem flagless_not_freed :
    ∃ c k k', ContextFilled c k [] [] ∧ k.Unmapped c 0x40000000
      ∧ (k.pmm.Used (0x20000 / 0x1000) ∧ ¬ k.pmm.Pool (0x20000 / 0x1000))
      ∧ vmmMapPage k c 0x40000000 0x20000 0 = .ok (k', 0)
      ∧ 0x20 ∉ framesOf (destroyPages k' c) := by
  obtain ⟨c, k, k', hfilled, hunmapped, hframe, hmap⟩ := bareKernel_maps 0
  refine ⟨c, k, k', hfilled, hunmapped, hframe, hmap, fun hmem => ?_⟩
  obtain ⟨new, hnew⟩ := hfilled.map (by norm_num) (by norm_num) hunmapped (by norm_num) hframe
    (fun m hm => absurd hm List.not_mem_nil) hmap
  rw [if_neg (by decide)] at hnew
  obtain ⟨p, hp, hdiv⟩ := mem_framesOf.mp hmem
  rcases hnew.holdings.mem_destroyPages.mp hp with ⟨i, j, x, hx, rfl⟩ | hpage
  · obtain ⟨v, hv, -⟩ := (hnew.holdings.mapped i j _).mp ⟨x, hx, rfl⟩
    exact absurd hv List.not_mem_nil
  · obtain ⟨-, fresh, hs⟩ := hfilled.holdings.mapStep (by norm_num) (by norm_num) hmap
    have hpool := (hnew.holdings.page p hpage).pool
    rw [Pmm.Pool, hs.pmm.mask, show p / 0x1000 = 0x20 from hdiv] at hpool
    exact hframe.2 hpool

end MicroOS
