import MicroOS.Memory.PmmSpec
import MicroOS.Memory.Vmm

/-!
Who owns the pages of the page-table pool.

An address space is the kernel's or that of an active task. It owns the page of its context, its
page directory and its page tables; a task's directory also holds the tables of the kernel, which
are not its own.

* `VmmInv`: the owned pages are pages of the pool in use, no page is owned twice, and every entry
  of the kernel's directory stands in the directory of every active task.
* `VmmInv.of_owns`: the rule by which every operation keeps the invariant.
* `Kernel.Maps`: what an address space maps through tables of its own.
* `MapEffect`: what `vmm_map_page` does to the spaces; `mapPage_effect` is its specification.
-/

namespace MicroOS

open ByteMem Checked PageEntry

/-! ### Pages -/

/-- An entry that is set, and the others. -/
lemma PageMem.set_apply (m : PageMem) (q i v p j : ℕ) :
    m.set q i v p j = if p = q ∧ j = i then v else m p j := by
  by_cases hp : p = q
  · by_cases hj : j = i
    · simp [PageMem.set, hp, hj]
    · simp [PageMem.set, hp, hj]
  · simp [PageMem.set, hp]

lemma PageMem.set_of_ne (m : PageMem) {q p : ℕ} (i v j : ℕ) (h : p ≠ q) :
    m.set q i v p j = m p j := by
  rw [PageMem.set_apply, if_neg fun hc => h hc.1]

lemma PageMem.clear_self (m : PageMem) (p j : ℕ) : m.clear p p j = 0 := by
  simp [PageMem.clear]

lemma PageMem.clear_of_ne (m : PageMem) {q p : ℕ} (j : ℕ) (h : p ≠ q) :
    m.clear q p j = m p j := by
  simp [PageMem.clear, h]

/-! ### Address spaces and what they own -/

/-- An address space: the kernel's, or a task's. -/
abbrev Space := Option (Fin maxTasks)

/-- The context of an address space; tasks have one while they are active. -/
def Kernel.Root (k : Kernel) : Space → ℕ → Prop
  | none, c => c = k.kernelContext
  | some t, c => (k.tasks t).active = true ∧ c = (k.tasks t).context

variable {lo : ℕ} {k k' : Kernel} {s : Space} {c : ℕ}

/-- A reason for a page of the pool to be in use. -/
inductive Owner where
  | context (s : Space)
  | dir (s : Space)
  | table (s : Space) (i : ℕ)
  deriving DecidableEq

/-- The slot of a directory is the space's own: the kernel's space owns all of them, a task's the
ones where the kernel has no entry. -/
def Kernel.OwnSlot (k : Kernel) (s : Space) (i : ℕ) : Prop :=
  s = none ∨ ¬ Present (k.kernelEntry i)

/-- The pages an address space owns. -/
inductive Kernel.Owns (k : Kernel) : Owner → ℕ → Prop where
  | context {s : Space} {c : ℕ} (root : k.Root s c) : k.Owns (.context s) c
  | dir {s : Space} {c : ℕ} (root : k.Root s c) : k.Owns (.dir s) (k.pagedir c)
  | table {s : Space} {c i : ℕ} (root : k.Root s c) (lt : i < 1024)
      (present : Present (k.entry c i)) (own : k.OwnSlot s i) :
      k.Owns (.table s i) (base (k.entry c i))

/-- Ownership does not depend on the memory manager. -/
lemma owns_pmm (pmm : Pmm) (o : Owner) (p : ℕ) :
    ({ k with pmm } : Kernel).Owns o p ↔ k.Owns o p := by
  constructor
  · intro h
    cases h with
    | context root => exact .context root
    | dir root => exact .dir root
    | table root lt present own => exact .table root lt present own
  · intro h
    cases h with
    | context root => exact .context root
    | dir root => exact Kernel.Owns.dir (k := { k with pmm }) root
    | table root lt present own =>
      exact Kernel.Owns.table (k := { k with pmm }) root lt present own

/-- A page of the pool that is in use. -/
structure PoolPage (pmm : Pmm) (p : ℕ) : Prop where
  aligned : 0x1000 ∣ p
  below : p < 2 ^ 32
  pool : pmm.Pool (p / 0x1000)
  used : pmm.Used (p / 0x1000)

/-- **The invariant of the virtual memory manager.** -/
structure VmmInv (lo : ℕ) (k : Kernel) : Prop where
  guarded : k.pmm.Guarded lo
  owned : ∀ o p, k.Owns o p → PoolPage k.pmm p
  inj : ∀ o o' p, k.Owns o p → k.Owns o' p → o = o'
  sync : ∀ t, (k.tasks t).active = true → ∀ i < 1024, Present (k.kernelEntry i) →
    k.entry (k.tasks t).context i = k.kernelEntry i

/-- A space has one context at most. -/
lemma Kernel.Root.unique {c' : ℕ} (h : k.Root s c) (h' : k.Root s c') : c = c' := by
  cases s with
  | none => exact h.trans h'.symm
  | some t => exact h.2.trans h'.2.symm

namespace VmmInv

/-- Contexts, directories and tables are different pages. -/
lemma ne_of_owns (hi : VmmInv lo k) {o o' : Owner} {p p' : ℕ} (h : k.Owns o p)
    (h' : k.Owns o' p') (hne : o ≠ o') : p ≠ p' := by
  rintro rfl
  exact hne (hi.inj o o' p h h')

/-- A frame that is not in use is nobody's page. -/
lemma ne_of_not_used (hi : VmmInv lo k) {o : Owner} {p f : ℕ} (h : k.Owns o p)
    (hf : ¬ k.pmm.Used f) : p ≠ f * 0x1000 := by
  rintro rfl
  have := (hi.owned o _ h).used
  rw [Nat.mul_div_cancel _ (by norm_num)] at this
  exact hf this

/-- The frames of owned pages lie in the pool. -/
lemma pool_of_owns (hi : VmmInv lo k) {o : Owner} {f : ℕ} (h : k.Owns o (f * 0x1000)) :
    k.pmm.Pool f ∧ k.pmm.Used f := by
  have hp := hi.owned o _ h
  have hdiv : f * 0x1000 / 0x1000 = f := Nat.mul_div_cancel _ (by norm_num)
  exact ⟨hdiv ▸ hp.pool, hdiv ▸ hp.used⟩

/-- **The rule of preservation**: what is owned afterwards was owned before, or is a page that
was free. -/
lemma of_owns (hi : VmmInv lo k) (new : Owner → ℕ → Prop) (hg : k'.pmm.Guarded lo)
    (hown : ∀ o p, k'.Owns o p → (k.Owns o p ∨ new o p) ∧ PoolPage k'.pmm p)
    (hfresh : ∀ o p, new o p → ¬ k.pmm.Used (p / 0x1000))
    (hinj : ∀ o o' p, new o p → new o' p → o = o')
    (hsync : ∀ t, (k'.tasks t).active = true → ∀ i < 1024, Present (k'.kernelEntry i) →
      k'.entry (k'.tasks t).context i = k'.kernelEntry i) : VmmInv lo k' := by
  refine ⟨hg, fun o p h => (hown o p h).2, fun o o' p h h' => ?_, hsync⟩
  rcases (hown o p h).1 with h1 | h1 <;> rcases (hown o' p h').1 with h2 | h2
  · exact hi.inj o o' p h1 h2
  · exact absurd (hi.owned o p h1).used (hfresh o' p h2)
  · exact absurd (hi.owned o' p h2).used (hfresh o p h1)
  · exact hinj o o' p h1 h2

/-- A page of the pool stays one when the memory manager keeps it in use. -/
lemma poolPage_mono {pmm pmm' : Pmm} {p : ℕ} (h : PoolPage pmm p)
    (hmask : pmm'.bitmapPagetableMask = pmm.bitmapPagetableMask)
    (hused : pmm'.Used (p / 0x1000)) : PoolPage pmm' p := by
  refine ⟨h.aligned, h.below, ?_, hused⟩
  rw [Pmm.Pool, hmask]
  exact h.pool

/-- Calls of the memory manager that keep the pool's frames in use keep the invariant. -/
lemma of_pmm (hi : VmmInv lo k) {pmm : Pmm} (hg : pmm.Guarded lo)
    (hmask : pmm.bitmapPagetableMask = k.pmm.bitmapPagetableMask)
    (hused : ∀ f, k.pmm.Pool f → k.pmm.Used f → pmm.Used f) : VmmInv lo { k with pmm } := by
  refine hi.of_owns (fun _ _ => False) hg (fun o p h => ?_) (fun _ _ h => h.elim)
    (fun _ _ _ h => h.elim) hi.sync
  have hown := (owns_pmm pmm o p).mp h
  have hp := hi.owned o p hown
  exact ⟨Or.inl hown, poolPage_mono hp hmask (hused _ hp.pool hp.used)⟩

/-- Only the kernel's space has the kernel's context. -/
lemma root_eq_kernel_iff (hi : VmmInv lo k) (hroot : k.Root s c) :
    c = k.kernelContext ↔ s = none := by
  constructor
  · rintro rfl
    have hk : k.Owns (.context none) k.kernelContext := .context rfl
    exact Owner.context.inj (hi.inj _ _ _ (.context hroot) hk)
  · rintro rfl
    exact hroot

end VmmInv

/-! ### A new page table -/

/-- The loop that gives an entry to the active tasks writes it into their directories only. -/
lemma shareEntry_spec {tasks : Tasks} {m : PageMem} (pd e : ℕ)
    (hctx : ∀ t u, (tasks t).active = true → (tasks u).active = true →
      (tasks u).context ≠ m (tasks t).context 0) (p i : ℕ) :
    ((i = pd ∧ ∃ t, (tasks t).active = true ∧ p = m (tasks t).context 0)
        ∧ shareEntry tasks pd e m p i = e)
    ∨ (¬ (i = pd ∧ ∃ t, (tasks t).active = true ∧ p = m (tasks t).context 0)
        ∧ shareEntry tasks pd e m p i = m p i) := by
  -- the same for any list of slots, by induction on the list
  suffices hlist : ∀ (l : List (Fin maxTasks)) (m : PageMem),
      (∀ t u, (tasks t).active = true → (tasks u).active = true →
        (tasks u).context ≠ m (tasks t).context 0) →
      ((i = pd ∧ ∃ t ∈ l, (tasks t).active = true ∧ p = m (tasks t).context 0)
        ∧ l.foldl (fun m i => if (tasks i).active then m.set (m (tasks i).context 0) pd e else m)
          m p i = e)
      ∨ (¬ (i = pd ∧ ∃ t ∈ l, (tasks t).active = true ∧ p = m (tasks t).context 0)
        ∧ l.foldl (fun m i => if (tasks i).active then m.set (m (tasks i).context 0) pd e else m)
          m p i = m p i) by
    simpa [shareEntry] using hlist (List.finRange maxTasks) m hctx
  intro l
  induction l with
  | nil => simp
  | cons t l ih =>
    intro m hctx
    rw [List.foldl_cons]
    cases hact : (tasks t).active with
    | false =>
      rw [if_neg (by simp)]
      simpa [hact] using ih m hctx
    | true =>
      rw [if_pos rfl]
      have hroot : ∀ u, (tasks u).active = true →
          m.set (m (tasks t).context 0) pd e (tasks u).context 0 = m (tasks u).context 0 :=
        fun u hu => m.set_of_ne _ _ _ (hctx t u hact hu)
      have hstep := ih (m.set (m (tasks t).context 0) pd e) (by
        intro u v hu hv
        rw [hroot u hu]
        exact hctx u v hu hv)
      have hiff : (∃ u ∈ l, (tasks u).active = true
            ∧ p = m.set (m (tasks t).context 0) pd e (tasks u).context 0)
          ↔ ∃ u ∈ l, (tasks u).active = true ∧ p = m (tasks u).context 0 := by
        refine exists_congr fun u => and_congr_right fun _ => and_congr_right fun hu => ?_
        rw [hroot u hu]
      rw [hiff, PageMem.set_apply] at hstep
      have hcons : (∃ u ∈ t :: l, (tasks u).active = true ∧ p = m (tasks u).context 0)
          ↔ p = m (tasks t).context 0
            ∨ ∃ u ∈ l, (tasks u).active = true ∧ p = m (tasks u).context 0 := by
        simp [hact]
      rw [hcons]
      by_cases hp : p = m (tasks t).context 0 ∧ i = pd
      · rw [if_pos hp] at hstep
        refine Or.inl ⟨⟨hp.2, Or.inl hp.1⟩, ?_⟩
        rcases hstep with ⟨_, h⟩ | ⟨_, h⟩ <;> exact h
      · rw [if_neg hp] at hstep
        rcases hstep with ⟨h1, h2⟩ | ⟨h1, h2⟩
        · exact Or.inl ⟨⟨h1.1, Or.inr h1.2⟩, h2⟩
        · exact Or.inr ⟨fun hc => hc.2.elim (fun h => hp ⟨h, hc.1⟩) fun h => h1 ⟨hc.1, h⟩, h2⟩

/-- The memory of `vmm_map_page` after it made a page table. -/
def newTable (k : Kernel) (context pd page flags : ℕ) : PageMem :=
  let e := page ||| ptePresent ||| flags
  let m := k.mem.clear page
  let m := m.set (m context 0) pd e
  if context = k.kernelContext then shareEntry k.tasks pd e m else m

section NewTable

variable (pd : ℕ) {page : ℕ} (flags : ℕ) (hi : VmmInv lo k) (hroot : k.Root s c)
  (hpage : ∀ o p, k.Owns o p → p ≠ page)

include hi hroot hpage

/-- A new table changes its own page and, at one index, the directories of the space and of those
that share with it. -/
lemma newTable_spec (p i : ℕ) :
    (p = page ∧ newTable k c pd page flags p i = 0)
    ∨ (p ≠ page ∧ (i = pd ∧ ∃ s' c', k.Root s' c' ∧ (s' = s ∨ s = none) ∧ p = k.pagedir c')
        ∧ newTable k c pd page flags p i = page ||| ptePresent ||| flags)
    ∨ (p ≠ page ∧ ¬ (i = pd ∧ ∃ s' c', k.Root s' c' ∧ (s' = s ∨ s = none) ∧ p = k.pagedir c')
        ∧ newTable k c pd page flags p i = k.mem p i) := by
  set e := page ||| ptePresent ||| flags with he
  set m := (k.mem.clear page).set (k.pagedir c) pd e with hm
  have hdir : ∀ {s' c'}, k.Root s' c' → k.pagedir c' ≠ page := fun h => hpage _ _ (.dir h)
  have hctx : ∀ {s' c'}, k.Root s' c' → c' ≠ page := fun h => hpage _ _ (.context h)
  have hm0 : k.mem.clear page c 0 = k.pagedir c := k.mem.clear_of_ne 0 (hctx hroot)
  have hnew : newTable k c pd page flags
      = if c = k.kernelContext then shareEntry k.tasks pd e m else m := by
    simp only [newTable, hm0, hm, he]
  have hmp : m p i = if p = k.pagedir c ∧ i = pd then e else k.mem.clear page p i :=
    PageMem.set_apply _ _ _ _ _ _
  by_cases hk : c = k.kernelContext
  · -- the kernel's table, shared with every active task
    have hs : s = none := (hi.root_eq_kernel_iff hroot).mp hk
    have hmc : ∀ t, (k.tasks t).active = true →
        m (k.tasks t).context 0 = k.pagedir (k.tasks t).context := by
      intro t ht
      have hr : k.Root (some t) (k.tasks t).context := ⟨ht, rfl⟩
      rw [hm, PageMem.set_of_ne _ _ _ _ (hi.ne_of_owns (.context hr) (.dir hroot) (by simp)),
        PageMem.clear_of_ne _ _ (hctx hr)]
      rfl
    have hshare := shareEntry_spec (m := m) pd e (fun t u ht hu => by
      have hr : k.Root (some t) (k.tasks t).context := ⟨ht, rfl⟩
      have hr' : k.Root (some u) (k.tasks u).context := ⟨hu, rfl⟩
      rw [hmc t ht]
      exact hi.ne_of_owns (.context hr') (.dir hr) (by simp)) p i
    have hex : (∃ t, (k.tasks t).active = true ∧ p = m (k.tasks t).context 0)
        ↔ ∃ t, (k.tasks t).active = true ∧ p = k.pagedir (k.tasks t).context := by
      refine exists_congr fun t => and_congr_right fun ht => ?_
      rw [hmc t ht]
    rw [hex] at hshare
    have hall : (∃ s' c', k.Root s' c' ∧ (s' = s ∨ s = none) ∧ p = k.pagedir c')
        ↔ p = k.pagedir c
          ∨ ∃ t, (k.tasks t).active = true ∧ p = k.pagedir (k.tasks t).context := by
      constructor
      · rintro ⟨s', c', hr, _, rfl⟩
        cases s' with
        | none => exact Or.inl (by rw [hr, hk])
        | some t => exact Or.inr ⟨t, hr.1, by rw [hr.2]⟩
      · rintro (rfl | ⟨t, ht, rfl⟩)
        · exact ⟨s, c, hroot, Or.inl rfl, rfl⟩
        · exact ⟨some t, _, ⟨ht, rfl⟩, Or.inr hs, rfl⟩
    rw [hall, hnew, if_pos hk]
    by_cases hp : p = page
    · refine Or.inl ⟨hp, ?_⟩
      have hno : ¬ ∃ t, (k.tasks t).active = true ∧ p = k.pagedir (k.tasks t).context := by
        rintro ⟨t, ht, hpt⟩
        exact @hdir (some t) _ ⟨ht, rfl⟩ (hpt.symm.trans hp)
      rcases hshare with ⟨h, _⟩ | ⟨_, h⟩
      · exact absurd h.2 hno
      · rw [h, hmp, if_neg fun hc => hdir hroot (hc.1.symm.trans hp), hp, PageMem.clear_self]
    · refine Or.inr ?_
      rcases hshare with ⟨⟨h1, h2⟩, h⟩ | ⟨h1, h⟩
      · exact Or.inl ⟨hp, ⟨h1, Or.inr h2⟩, h⟩
      · rw [h, hmp, PageMem.clear_of_ne _ _ hp]
        by_cases hpc : p = k.pagedir c ∧ i = pd
        · exact Or.inl ⟨hp, ⟨hpc.2, Or.inl hpc.1⟩, if_pos hpc⟩
        · refine Or.inr ⟨hp, fun hc => ?_, if_neg hpc⟩
          exact hc.2.elim (fun h => hpc ⟨h, hc.1⟩) fun h => h1 ⟨hc.1, h⟩
  · -- the table of a task
    have hs : s ≠ none := mt (hi.root_eq_kernel_iff hroot).mpr hk
    have hall : (∃ s' c', k.Root s' c' ∧ (s' = s ∨ s = none) ∧ p = k.pagedir c')
        ↔ p = k.pagedir c := by
      constructor
      · rintro ⟨s', c', hr, hs', rfl⟩
        obtain rfl := hs'.resolve_right hs
        rw [hr.unique hroot]
      · rintro rfl
        exact ⟨s, c, hroot, Or.inl rfl, rfl⟩
    rw [hall, hnew, if_neg hk, hmp]
    by_cases hp : p = page
    · refine Or.inl ⟨hp, ?_⟩
      rw [if_neg fun hc => hdir hroot (hc.1.symm.trans hp), hp, PageMem.clear_self]
    · refine Or.inr ?_
      rw [PageMem.clear_of_ne _ _ hp]
      by_cases hpc : p = k.pagedir c ∧ i = pd
      · exact Or.inl ⟨hp, ⟨hpc.2, hpc.1⟩, if_pos hpc⟩
      · exact Or.inr ⟨hp, fun hc => hpc ⟨hc.2, hc.1⟩, if_neg hpc⟩

end NewTable

end MicroOS
