import MicroOS.Memory.VmmKernelMap

/-!
`vmm_map_page` as an update of the translations of a context.

* `ContextsApart`: a set of contexts whose pages, directories and page tables are different pages in
  use, where contexts share tables only in slots of the kernel. No other invariant is asked for;
  `VmmInv.apart` says that the contexts of the kernel and of the active tasks are apart.
* `newTable_cases`: what the new page table and its entry in the directories change.
* `mapPage_lookup`: a call that returns `0` maps the page in its context, and nothing else.
-/

namespace MicroOS

open ByteMem Checked PageEntry Run

variable {lo c a b i j ptr virt phys flags page pd q e : ℕ} {C : Set ℕ} {k k' : Kernel} {r : ℤ}

/-! ### Contexts that are apart -/

/-- Slot `i` of the context has the page table `q`. -/
def Kernel.TableAt (k : Kernel) (c i q : ℕ) : Prop :=
  i < 1024 ∧ Present (k.entry c i) ∧ base (k.entry c i) = q

/-- **Contexts that are apart.** -/
structure ContextsApart (C : Set ℕ) (k : Kernel) : Prop where
  kernel : k.kernelContext ∈ C
  active : ∀ t, (k.tasks t).active = true → (k.tasks t).context ∈ C
  context_ne_dir : ∀ a ∈ C, ∀ b ∈ C, a ≠ k.pagedir b
  context_ne_table : ∀ a ∈ C, ∀ b ∈ C, ∀ i q, k.TableAt b i q → a ≠ q
  dir_ne_table : ∀ a ∈ C, ∀ b ∈ C, ∀ i q, k.TableAt b i q → k.pagedir a ≠ q
  dir_inj : ∀ a ∈ C, ∀ b ∈ C, k.pagedir a = k.pagedir b → a = b
  distinct : ∀ a ∈ C, ∀ i j q, k.TableAt a i q → k.TableAt a j q → i = j
  shared : ∀ a ∈ C, ∀ b ∈ C, a ≠ b → ∀ i j q, k.TableAt a i q → k.TableAt b j q →
    Present (k.kernelEntry i)
  used : ∀ a ∈ C, k.pmm.Used (a / 0x1000) ∧ k.pmm.Used (k.pagedir a / 0x1000)
    ∧ ∀ i q, k.TableAt a i q → k.pmm.Used (q / 0x1000)

/-- The contexts of the kernel and of the active tasks. -/
def Kernel.contexts (k : Kernel) : Set ℕ := {c | ∃ s, k.Root s c}

/-- A table of a context is its own, or the kernel's in the same slot. -/
lemma VmmInv.tableAt_owned (hi : VmmInv lo k) {s : Space} (hroot : k.Root s c)
    (h : k.TableAt c i q) : ∃ s', (s' = s ∨ s' = none) ∧ k.Owns (.table s' i) q
      ∧ (s' = none → Present (k.kernelEntry i)) := by
  obtain ⟨hlt, hpres, rfl⟩ := h
  by_cases hk : Present (k.kernelEntry i)
  · have hkernel : k.Owns (.table none i) (base (k.kernelEntry i)) :=
      .table rfl hlt hk (Or.inl rfl)
    have heq : k.entry c i = k.kernelEntry i := by
      cases s with
      | none => rw [Kernel.kernelEntry, show c = k.kernelContext from hroot]
      | some t => rw [hroot.2, hi.sync t hroot.1 i hlt hk]
    exact ⟨none, Or.inr rfl, heq ▸ hkernel, fun _ => hk⟩
  · refine ⟨s, Or.inl rfl, .table hroot hlt hpres (Or.inr hk), ?_⟩
    rintro rfl
    rwa [show c = k.kernelContext from hroot] at hpres

/-- **The contexts of the kernel and of the active tasks are apart.** -/
theorem VmmInv.apart (hi : VmmInv lo k) : ContextsApart k.contexts k := by
  refine ⟨⟨none, rfl⟩, fun t ht => ⟨some t, ht, rfl⟩, ?_, ?_, ?_, ?_, ?_, ?_, ?_⟩
  · rintro a ⟨s, ha⟩ b ⟨s', hb⟩
    exact hi.ne_of_owns (.context ha) (.dir hb) (by simp)
  · rintro a ⟨s, ha⟩ b ⟨s', hb⟩ i q hq
    obtain ⟨u, -, hown, -⟩ := hi.tableAt_owned hb hq
    exact hi.ne_of_owns (.context ha) hown (by simp)
  · rintro a ⟨s, ha⟩ b ⟨s', hb⟩ i q hq
    obtain ⟨u, -, hown, -⟩ := hi.tableAt_owned hb hq
    exact hi.ne_of_owns (.dir ha) hown (by simp)
  · rintro a ⟨s, ha⟩ b ⟨s', hb⟩ heq
    have hdir : k.Owns (.dir s') (k.pagedir a) := heq ▸ .dir hb
    cases hi.inj _ _ _ (.dir ha) hdir
    exact ha.unique hb
  · rintro a ⟨s, ha⟩ i j q hq hq'
    obtain ⟨u, -, hown, -⟩ := hi.tableAt_owned ha hq
    obtain ⟨u', -, hown', -⟩ := hi.tableAt_owned ha hq'
    exact (Owner.table.inj (hi.inj _ _ _ hown hown')).2
  · rintro a ⟨s, ha⟩ b ⟨s', hb⟩ hne i j q hq hq'
    obtain ⟨u, hu, hown, hk⟩ := hi.tableAt_owned ha hq
    obtain ⟨u', hu', hown', -⟩ := hi.tableAt_owned hb hq'
    obtain rfl := (Owner.table.inj (hi.inj _ _ _ hown hown')).1
    refine hk ?_
    -- the two contexts belong to different spaces
    rcases hu with rfl | rfl
    · refine hu'.elim (fun h => ?_) id
      subst h
      exact absurd (ha.unique hb) hne
    · rfl
  · rintro a ⟨s, ha⟩
    refine ⟨(hi.owned _ _ (.context ha)).used, (hi.owned _ _ (.dir ha)).used, fun i q hq => ?_⟩
    obtain ⟨u, -, hown, -⟩ := hi.tableAt_owned ha hq
    exact (hi.owned _ _ hown).used

/-! ### Translations -/

/-- A translation is read off an entry of the directory and one of the page table. -/
lemma vmmLookup_congr (hdir : k'.entry a (pdIndexOf ptr) = k.entry a (pdIndexOf ptr))
    (htable : Present (k.entry a (pdIndexOf ptr)) →
      k'.mem (base (k.entry a (pdIndexOf ptr))) (ptIndexOf ptr)
        = k.mem (base (k.entry a (pdIndexOf ptr))) (ptIndexOf ptr)) :
    vmmLookup k' ptr a = vmmLookup k ptr a := by
  rw [vmmLookup, vmmLookup, hdir]
  by_cases hpres : Present (k.entry a (pdIndexOf ptr))
  · rw [htable hpres]
  · rw [if_neg fun h => hpres h.1, if_neg fun h => hpres h.1]

/-- An address in another page has another place in the directory or the table. -/
lemma index_ne (hpage : ptr / 0x1000 ≠ virt / 0x1000) :
    ¬ (pdIndexOf ptr = pdIndexOf virt ∧ ptIndexOf ptr = ptIndexOf virt) := by
  rw [pdIndexOf, pdIndexOf, ptIndexOf, ptIndexOf]
  omega

/-- The translation of an address whose page has this entry. -/
lemma vmmLookup_entry (hvirt : virt % 0x1000 = 0) (hphys : phys % 0x1000 = 0)
    (hp : phys < 2 ^ 32) (hflags : flags < 0x1000) (hpres : Present flags)
    (hdir : Present (k.entry c (pdIndexOf virt)))
    (htable : k.mem (base (k.entry c (pdIndexOf virt))) (ptIndexOf virt) = phys ||| flags)
    {o : ℕ} (ho : o < 0x1000) : vmmLookup k (virt + o) c = phys + o := by
  have hpage : (virt + o) / 0x1000 = virt / 0x1000 := by omega
  have hpd : pdIndexOf (virt + o) = pdIndexOf virt := by rw [pdIndexOf, pdIndexOf, hpage]
  have hpt : ptIndexOf (virt + o) = ptIndexOf virt := by rw [ptIndexOf, ptIndexOf, hpage]
  have hoff : (virt + o) % 0x1000 = o := by omega
  have hentry : Present (phys ||| flags) := by
    rw [Present, or_and_flag (Nat.dvd_of_mod_eq_zero hphys) (by norm_num [ptePresent])]
    exact hpres
  rw [vmmLookup, hpd, hpt, htable, if_pos ⟨hdir, hentry⟩, base_page hp hphys hflags, hoff]

/-! ### An entry in a table that is there -/

section SetEntry

variable (ha : ContextsApart C k) (hc : c ∈ C) (hq : k.TableAt c pd q)
  (hmem : k'.mem = k.mem.set q j e)

include ha hc hq hmem

/-- Directories stay. -/
lemma setEntry_dir (haC : a ∈ C) (n : ℕ) : k'.entry a n = k.entry a n := by
  have hcontext : k'.pagedir a = k.pagedir a := by
    rw [Kernel.pagedir, hmem]
    exact k.mem.set_of_ne _ _ _ (ha.context_ne_table a haC c hc pd q hq)
  rw [Kernel.entry, hcontext, hmem]
  exact k.mem.set_of_ne _ _ _ (ha.dir_ne_table a haC c hc pd q hq)

/-- **A page that gets an entry** is found where it was put. -/
lemma setEntry_self (hpd : pd = pdIndexOf virt) (hj : j = ptIndexOf virt)
    (he : e = phys ||| flags) (hvirt : virt % 0x1000 = 0) (hphys : phys % 0x1000 = 0)
    (hp : phys < 2 ^ 32)
    (hflags : flags < 0x1000) (hpres : Present flags) {o : ℕ} (ho : o < 0x1000) :
    vmmLookup k' (virt + o) c = phys + o := by
  subst hpd hj he
  refine vmmLookup_entry hvirt hphys hp hflags hpres ?_ ?_ ho
  · rw [setEntry_dir ha hc hq hmem hc]
    exact hq.2.1
  · rw [setEntry_dir ha hc hq hmem hc, hq.2.2, hmem]
    exact (k.mem.set_apply _ _ _ _ _).trans (if_pos ⟨rfl, rfl⟩)

/-- Other addresses of the context keep their translation. -/
lemma setEntry_page (hptr : ptr < 2 ^ 32) (hne : ¬ (pdIndexOf ptr = pd ∧ ptIndexOf ptr = j)) :
    vmmLookup k' ptr c = vmmLookup k ptr c := by
  refine vmmLookup_congr (setEntry_dir ha hc hq hmem hc _) fun hpres => ?_
  rw [hmem]
  refine (k.mem.set_apply _ _ _ _ _).trans (if_neg fun h => hne ⟨?_, h.2⟩)
  exact ha.distinct c hc _ _ q ⟨pdIndexOf_lt hptr, hpres, h.1⟩ hq

/-- Other contexts keep theirs in a slot that is not the kernel's. -/
lemma setEntry_other (hslot : ¬ Present (k.kernelEntry pd)) (haC : a ∈ C) (hne : a ≠ c)
    (hptr : ptr < 2 ^ 32) :
    vmmLookup k' ptr a = vmmLookup k ptr a := by
  refine vmmLookup_congr (setEntry_dir ha hc hq hmem haC _) fun hpres => ?_
  rw [hmem]
  refine (k.mem.set_apply _ _ _ _ _).trans (if_neg fun h => hslot ?_)
  exact ha.shared c hc a haC hne.symm _ _ q hq ⟨pdIndexOf_lt hptr, hpres, h.1⟩

end SetEntry

/-! ### An entry in a new table -/

/-- The page is none of the contexts' pages. -/
structure Unused (C : Set ℕ) (k : Kernel) (page : ℕ) : Prop where
  context : ∀ a ∈ C, a ≠ page
  dir : ∀ a ∈ C, k.pagedir a ≠ page
  table : ∀ a ∈ C, ∀ i q, k.TableAt a i q → q ≠ page

/-- A free frame. -/
lemma ContextsApart.unused (ha : ContextsApart C k) {f : ℕ} (hf : ¬ k.pmm.Used f) :
    Unused C k (f * 0x1000) := by
  have hne : ∀ q, k.pmm.Used (q / 0x1000) → q ≠ f * 0x1000 := by
    rintro q hq rfl
    rw [Nat.mul_div_cancel _ (by norm_num)] at hq
    exact hf hq
  exact ⟨fun a haC => hne a (ha.used a haC).1, fun a haC => hne _ (ha.used a haC).2.1,
    fun a haC i q hq => hne q ((ha.used a haC).2.2 i q hq)⟩

/-- The directories that `vmm_map_page` writes the entry of a new table to. -/
def Kernel.SharesNew (k : Kernel) (c q : ℕ) : Prop :=
  q = k.pagedir c
    ∨ c = k.kernelContext ∧ ∃ t, (k.tasks t).active = true ∧ q = k.pagedir (k.tasks t).context

section NewTable

variable (ha : ContextsApart C k) (hc : c ∈ C) (hu : Unused C k page)

include ha hc hu

/-- **A new table** changes its own page, and directories at one index. -/
lemma newTable_cases (pd flags q i : ℕ) :
    (q = page ∧ newTable k c pd page flags q i = 0)
    ∨ (q ≠ page ∧ (i = pd ∧ k.SharesNew c q)
        ∧ newTable k c pd page flags q i = page ||| ptePresent ||| flags)
    ∨ (q ≠ page ∧ ¬ (i = pd ∧ k.SharesNew c q)
        ∧ newTable k c pd page flags q i = k.mem q i) := by
  set e := page ||| ptePresent ||| flags with he
  set m := (k.mem.clear page).set (k.pagedir c) pd e with hm
  have hm0 : k.mem.clear page c 0 = k.pagedir c := k.mem.clear_of_ne 0 (hu.context c hc)
  have hnew : newTable k c pd page flags
      = if c = k.kernelContext then shareEntry k.tasks pd e m else m := by
    simp only [newTable, hm0, hm, he]
  have hmq : m q i = if q = k.pagedir c ∧ i = pd then e else k.mem.clear page q i :=
    PageMem.set_apply _ _ _ _ _ _
  -- before the entry is shared
  have hown : (q = page ∧ m q i = 0) ∨ (q ≠ page ∧ (i = pd ∧ q = k.pagedir c) ∧ m q i = e)
      ∨ (q ≠ page ∧ ¬ (i = pd ∧ q = k.pagedir c) ∧ m q i = k.mem q i) := by
    by_cases hq : q = page
    · refine Or.inl ⟨hq, ?_⟩
      rw [hmq, if_neg fun h => hu.dir c hc (h.1.symm.trans hq), hq, PageMem.clear_self]
    · refine Or.inr ?_
      rw [hmq, PageMem.clear_of_ne _ _ hq]
      by_cases hdir : q = k.pagedir c ∧ i = pd
      · exact Or.inl ⟨hq, ⟨hdir.2, hdir.1⟩, if_pos hdir⟩
      · exact Or.inr ⟨hq, fun h => hdir ⟨h.2, h.1⟩, if_neg hdir⟩
  rw [hnew, Kernel.SharesNew]
  by_cases hk : c = k.kernelContext
  · rw [if_pos hk]
    have hmc : ∀ t, (k.tasks t).active = true →
        m (k.tasks t).context 0 = k.pagedir (k.tasks t).context := by
      intro t ht
      have htC := ha.active t ht
      rw [hm, PageMem.set_of_ne _ _ _ _ (ha.context_ne_dir _ htC c hc),
        PageMem.clear_of_ne _ _ (hu.context _ htC)]
      rfl
    have hshare := shareEntry_spec (m := m) pd e (fun t u ht hut => by
      rw [hmc t ht]
      exact ha.context_ne_dir _ (ha.active u hut) _ (ha.active t ht)) q i
    have hex : (∃ t, (k.tasks t).active = true ∧ q = m (k.tasks t).context 0)
        ↔ ∃ t, (k.tasks t).active = true ∧ q = k.pagedir (k.tasks t).context := by
      refine exists_congr fun t => and_congr_right fun ht => ?_
      rw [hmc t ht]
    rw [hex] at hshare
    rcases hshare with ⟨⟨hpd, t, ht, hq⟩, heq⟩ | ⟨hno, heq⟩
    · have hne : q ≠ page := hq ▸ hu.dir _ (ha.active t ht)
      exact Or.inr (Or.inl ⟨hne, ⟨hpd, Or.inr ⟨hk, t, ht, hq⟩⟩, heq⟩)
    · rw [heq]
      rcases hown with h | ⟨hq, hdir, hval⟩ | ⟨hq, hdir, hval⟩
      · exact Or.inl h
      · exact Or.inr (Or.inl ⟨hq, ⟨hdir.1, Or.inl hdir.2⟩, hval⟩)
      · refine Or.inr (Or.inr ⟨hq, ?_, hval⟩)
        rintro ⟨hpd, hdir' | ⟨-, htask⟩⟩
        · exact hdir ⟨hpd, hdir'⟩
        · exact hno ⟨hpd, htask⟩
  · rw [if_neg hk]
    simp only [hk, false_and, or_false]
    exact hown

/-- The pages of contexts stay. -/
lemma newTable_root (haC : a ∈ C) (i : ℕ) : newTable k c pd page flags a i = k.mem a i := by
  rcases newTable_cases ha hc hu pd flags a i with
    ⟨h, -⟩ | ⟨-, ⟨-, h | ⟨-, t, ht, h⟩⟩, -⟩ | ⟨-, -, h⟩
  · exact absurd h (hu.context a haC)
  · exact absurd h (ha.context_ne_dir a haC c hc)
  · exact absurd h (ha.context_ne_dir a haC _ (ha.active t ht))
  · exact h

/-- Page tables stay. -/
lemma newTable_old (haC : a ∈ C) (hq : k.TableAt a i q) (j : ℕ) :
    newTable k c pd page flags q j = k.mem q j := by
  rcases newTable_cases ha hc hu pd flags q j with
    ⟨h, -⟩ | ⟨-, ⟨-, h | ⟨-, t, ht, h⟩⟩, -⟩ | ⟨-, -, h⟩
  · exact absurd h (hu.table a haC i q hq)
  · exact absurd h.symm (ha.dir_ne_table c hc a haC i q hq)
  · exact absurd h.symm (ha.dir_ne_table _ (ha.active t ht) a haC i q hq)
  · exact h

variable (hmem : k'.mem = (newTable k c pd page flags).set page j e)

include hmem

/-- The entries of a directory after the store into the new table. -/
lemma newTable_entry (haC : a ∈ C) (i : ℕ) :
    ((i = pd ∧ k.SharesNew c (k.pagedir a)) ∧ k'.entry a i = page ||| ptePresent ||| flags)
    ∨ (¬ (i = pd ∧ k.SharesNew c (k.pagedir a)) ∧ k'.entry a i = k.entry a i) := by
  have hroot : k'.pagedir a = k.pagedir a := by
    rw [Kernel.pagedir, hmem]
    exact (PageMem.set_of_ne _ _ _ _ (hu.context a haC)).trans (newTable_root ha hc hu haC 0)
  have hentry : k'.entry a i = newTable k c pd page flags (k.pagedir a) i := by
    rw [Kernel.entry, hroot, hmem]
    exact PageMem.set_of_ne _ _ _ _ (hu.dir a haC)
  rw [hentry]
  rcases newTable_cases ha hc hu pd flags (k.pagedir a) i with
    ⟨h, -⟩ | ⟨-, h, heq⟩ | ⟨-, h, heq⟩
  · exact absurd h (hu.dir a haC)
  · exact Or.inl ⟨h, heq⟩
  · exact Or.inr ⟨h, heq⟩

/-- A directory that does not share the table keeps its translations. -/
lemma newTable_other (haC : a ∈ C) (hptr : ptr < 2 ^ 32)
    (hne : ¬ (pdIndexOf ptr = pd ∧ k.SharesNew c (k.pagedir a))) :
    vmmLookup k' ptr a = vmmLookup k ptr a := by
  rcases newTable_entry ha hc hu hmem haC (pdIndexOf ptr) with ⟨h, -⟩ | ⟨-, hentry⟩
  · exact absurd h hne
  · refine vmmLookup_congr hentry fun hpres => ?_
    have htable : k.TableAt a (pdIndexOf ptr) (base (k.entry a (pdIndexOf ptr))) :=
      ⟨pdIndexOf_lt hptr, hpres, rfl⟩
    rw [hmem, PageMem.set_of_ne _ _ _ _ (hu.table a haC _ _ htable)]
    exact newTable_old ha hc hu haC htable _

variable (hpage : 0x1000 ∣ page) (hlt : page < 2 ^ 32) (hflags : flags < 0x1000)

include hpage hlt hflags

/-- The entry of the new table in the directory of its context. -/
lemma newTable_own : Present (k'.entry c pd) ∧ base (k'.entry c pd) = page := by
  rcases newTable_entry ha hc hu hmem hc pd with ⟨-, h⟩ | ⟨h, -⟩
  · rw [h]
    exact ⟨present_tableEntry hpage, base_tableEntry hpage hlt hflags⟩
  · exact absurd ⟨rfl, Or.inl rfl⟩ h

/-- So is one that gets a table first. -/
lemma newTable_self (hpd : pd = pdIndexOf virt) (hj : j = ptIndexOf virt)
    (he : e = phys ||| flags) (hvirt : virt % 0x1000 = 0) (hphys : phys % 0x1000 = 0)
    (hp : phys < 2 ^ 32) (hpres : Present flags) {o : ℕ} (ho : o < 0x1000) :
    vmmLookup k' (virt + o) c = phys + o := by
  have hown := newTable_own ha hc hu hmem hpage hlt hflags
  subst hpd hj he
  refine vmmLookup_entry hvirt hphys hp hflags hpres hown.1 ?_ ho
  rw [hown.2, hmem]
  exact (PageMem.set_apply _ _ _ _ _ _).trans (if_pos ⟨rfl, rfl⟩)

/-- Other addresses of the context keep their translation: behind the new entry of the directory
nothing was mapped, and nothing else is. -/
lemma newTable_page (hnone : ¬ Present (k.entry c pd)) (hptr : ptr < 2 ^ 32)
    (hne : ¬ (pdIndexOf ptr = pd ∧ ptIndexOf ptr = j)) :
    vmmLookup k' ptr c = vmmLookup k ptr c := by
  by_cases hpd : pdIndexOf ptr = pd
  · have hown := newTable_own ha hc hu hmem hpage hlt hflags
    subst hpd
    have hzero : k'.mem page (ptIndexOf ptr) = 0 := by
      rw [hmem]
      refine (PageMem.set_apply _ _ _ _ _ _).trans ((if_neg fun h => hne ⟨rfl, h.2⟩).trans ?_)
      rcases newTable_cases ha hc hu (pdIndexOf ptr) flags page (ptIndexOf ptr)
        with ⟨-, h⟩ | ⟨h, -⟩ | ⟨h, -⟩
      · exact h
      · exact absurd rfl h
      · exact absurd rfl h
    rw [vmmLookup, vmmLookup, hown.2, hzero, if_neg fun h => not_present_zero h.2,
      if_neg fun h => hnone h.1]
  · exact newTable_other ha hc hu hmem hc hptr fun h => hpd h.1

end NewTable

/-! ### The specification -/

/-- **What a mapping does to the translations**: the page is mapped, the other addresses of the
context stay, and so do all other contexts unless the context is the kernel's. -/
structure MapsOnly (C : Set ℕ) (k : Kernel) (c virt phys : ℕ) (k' : Kernel) : Prop where
  page : ∀ o < 0x1000, vmmLookup k' (virt + o) c = phys + o
  same : ∀ ptr < 2 ^ 32, ptr / 0x1000 ≠ virt / 0x1000 → vmmLookup k' ptr c = vmmLookup k ptr c
  other : c ≠ k.kernelContext → ∀ a ∈ C, a ≠ c → ∀ ptr < 2 ^ 32,
    vmmLookup k' ptr a = vmmLookup k ptr a

/-- A call for an address or a frame inside a page. -/
lemma vmmMapPage_unaligned (h : ¬ (virt % 0x1000 = 0 ∧ phys % 0x1000 = 0)) :
    vmmMapPage k c virt phys flags = .ok (k, -1) := by
  rw [vmmMapPage, if_pos (by tauto)]
  rfl

/-- **`vmm_map_page`** maps the page, and changes no other page of any context. -/
lemma mapsOnly_of_ok (ha : ContextsApart C k) (hc : c ∈ C) (hv : virt < 2 ^ 32)
    (hp : phys < 2 ^ 32)
    (hflags : flags < 0x1000) (hpres : Present flags) (hvirt : virt % 0x1000 = 0)
    (hphys : phys % 0x1000 = 0) (h : vmmMapPage k c virt phys flags = .ok (k', r)) :
    MapsOnly C k c virt phys k' := by
  rw [vmmMapPage, if_neg (by tauto)] at h
  by_cases hab : c ≠ k.kernelContext ∧ Present (k.kernelEntry (pdIndexOf virt))
  · rw [if_pos hab] at h
    cases h
  rw [if_neg hab, bind_eq_ok] at h
  obtain ⟨⟨k₂, page⟩, htable, hret⟩ := h
  obtain rfl := (Prod.mk.inj (Except.ok.inj hret)).1
  rw [pageTableFor] at htable
  by_cases hdir : Present (k.entry c (pdIndexOf virt))
  · rw [if_pos hdir] at htable
    obtain ⟨rfl, rfl⟩ := Prod.mk.inj (Except.ok.inj htable)
    have hq : k.TableAt c (pdIndexOf virt) (base (k.entry c (pdIndexOf virt))) :=
      ⟨pdIndexOf_lt hv, hdir, rfl⟩
    refine ⟨fun o ho => ?_, fun ptr hptr hne => ?_, fun hk a haC hac ptr hptr => ?_⟩
    · exact setEntry_self ha hc hq rfl rfl rfl rfl hvirt hphys hp hflags hpres ho
    · exact setEntry_page ha hc hq rfl hptr (index_ne hne)
    · exact setEntry_other ha hc hq rfl (fun h => hab ⟨hk, h⟩) haC hac hptr
  · rw [if_neg hdir] at htable
    rcases allocFrame_spec k.pmm true with ⟨halloc, -⟩ | ⟨f, pmm, halloc, hf, hfit, -, -⟩
    · rw [pmmAllocPagetable, halloc] at htable
      cases htable
    rw [pmmAllocPagetable, halloc] at htable
    obtain ⟨rfl, rfl⟩ := Prod.mk.inj (Except.ok.inj htable)
    have hu := ha.unused hfit.1
    have hdvd : 0x1000 ∣ f * 0x1000 := Dvd.intro_left f rfl
    have hlt : f * 0x1000 < 2 ^ 32 := by
      rw [frameCount] at hf
      omega
    refine ⟨fun o ho => ?_, fun ptr hptr hne => ?_, fun hk a haC hac ptr hptr => ?_⟩
    · exact newTable_self ha hc hu rfl hdvd hlt hflags rfl rfl rfl hvirt hphys hp hpres ho
    · exact newTable_page ha hc hu rfl hdvd hlt hflags hdir hptr (index_ne hne)
    · refine newTable_other ha hc hu rfl haC hptr ?_
      rintro ⟨-, hshare | ⟨hshare, -⟩⟩
      · exact hac (ha.dir_inj a haC c hc hshare)
      · exact hk hshare

/-- **Page mapping is a pointwise update**, for flags of the low twelve bits: a call that returns
`0` maps the page and changes no other translation, and a call for an address or a frame inside a
page returns `-1` and changes nothing. -/
theorem mapPage_lookup (ha : ContextsApart C k) (hc : c ∈ C) (hv : virt < 2 ^ 32)
    (hp : phys < 2 ^ 32)
    (hflags : flags < 0x1000) (hpres : Present flags) :
    (∀ k', vmmMapPage k c virt phys flags = .ok (k', 0) → MapsOnly C k c virt phys k')
      ∧ (¬ (virt % 0x1000 = 0 ∧ phys % 0x1000 = 0) →
        vmmMapPage k c virt phys flags = .ok (k, -1)) := by
  refine ⟨fun k' h => ?_, vmmMapPage_unaligned⟩
  by_cases hal : virt % 0x1000 = 0 ∧ phys % 0x1000 = 0
  · exact mapsOnly_of_ok ha hc hv hp hflags hpres hal.1 hal.2 h
  · rw [vmmMapPage_unaligned hal] at h
    cases h

/-- A mapping in a page table that is there. -/
lemma vmmMapPage_inTable (phys flags : ℕ) (hvirt : virt % 0x1000 = 0) (hphys : phys % 0x1000 = 0)
    (hkernel : ¬ Present (k.kernelEntry (pdIndexOf virt)))
    (hdir : Present (k.entry c (pdIndexOf virt))) :
    vmmMapPage k c virt phys flags
      = .ok ({ k with
          mem := k.mem.set (base (k.entry c (pdIndexOf virt))) (ptIndexOf virt)
            (phys ||| flags) }, 0) := by
  rw [vmmMapPage, if_neg (by tauto), if_neg fun h => hkernel h.2, pageTableFor, if_pos hdir]
  rfl

/-- In a state that the kernel reaches, a task has a table for the page at `0x40002000`. -/
lemma high_tableAt :
    ∃ k, Reachable (VmmStarted bootLayout) (VmmStep bootLayout.poolFrame) k
      ∧ ContextsApart k.contexts k ∧ (k.tasks 0).context ∈ k.contexts
      ∧ ¬ Present (k.kernelEntry (pdIndexOf 0x40002000))
      ∧ Present (k.entry (k.tasks 0).context (pdIndexOf 0x40002000)) := by
  obtain ⟨k, hreach, hready, ⟨x, p, hp, -⟩, -⟩ := high_mapped
  cases hp with
  | @table _ c _ root lt present own =>
    refine ⟨k, hreach, hready.inv.apart, ⟨some 0, root.1, rfl⟩, ?_, root.2 ▸ present⟩
    exact own.resolve_left (by simp)

/-- A page is mapped for a task that runs. -/
theorem mapPage_lookup_task :
    ∃ k k', Reachable (VmmStarted bootLayout) (VmmStep bootLayout.poolFrame) k
      ∧ vmmMapPage k (k.tasks 0).context 0x40002000 0x2000 userFlags = .ok (k', 0)
      ∧ MapsOnly k.contexts k (k.tasks 0).context 0x40002000 0x2000 k' := by
  obtain ⟨k, hreach, ha, hc, hkernel, hdir⟩ := high_tableAt
  have hmap := vmmMapPage_inTable 0x2000 userFlags rfl rfl hkernel hdir
  have hlookup := mapPage_lookup ha hc (show 0x40002000 < 2 ^ 32 by norm_num)
    (show 0x2000 < 2 ^ 32 by norm_num) (show userFlags < 0x1000 by decide) (by decide)
  exact ⟨k, _, hreach, hmap, hlookup.1 _ hmap⟩

/-- With a flag above the low twelve bits another frame is mapped. -/
theorem mapPage_highFlag :
    ∃ k k', Reachable (VmmStarted bootLayout) (VmmStep bootLayout.poolFrame) k
      ∧ ContextsApart k.contexts k ∧ (k.tasks 0).context ∈ k.contexts ∧ Present 0x1001
      ∧ vmmMapPage k (k.tasks 0).context 0x40002000 0x2000 0x1001 = .ok (k', 0)
      ∧ vmmLookup k' 0x40002000 (k.tasks 0).context = 0x3000 := by
  obtain ⟨k, hreach, ha, hc, hkernel, hdir⟩ := high_tableAt
  have hmap := vmmMapPage_inTable 0x2000 0x1001 rfl rfl hkernel hdir
  refine ⟨k, _, hreach, ha, hc, by decide, hmap, ?_⟩
  have htable : k.TableAt (k.tasks 0).context (pdIndexOf 0x40002000) _ :=
    ⟨pdIndexOf_lt (by norm_num), hdir, rfl⟩
  set q := base (k.entry (k.tasks 0).context (pdIndexOf 0x40002000))
  set k' : Kernel :=
    { k with mem := k.mem.set q (ptIndexOf 0x40002000) (0x2000 ||| 0x1001) } with hk'
  have hentry := setEntry_dir ha hc htable (show k'.mem = _ from rfl) hc (pdIndexOf 0x40002000)
  have hpage : k'.mem q (ptIndexOf 0x40002000) = 0x3001 :=
    (k.mem.set_apply _ _ _ _ _).trans (if_pos ⟨rfl, rfl⟩)
  rw [vmmLookup, hentry, hpage, if_pos ⟨hdir, by decide⟩]
  decide

end MicroOS
