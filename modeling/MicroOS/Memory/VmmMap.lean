import MicroOS.Memory.VmmInv

/-!
What `vmm_map_page` does to the address spaces.

* `Kernel.Maps`: the pages that a space maps through tables of its own.
* `MapEffect`: the page is mapped in its space, and nothing else is, with one exception: a table
  that is new in the kernel takes the slot of the directory away from the tasks (`Lost`).
* `mapPage_effect`: every call that returns has this effect, or changed nothing.
-/

namespace MicroOS

open ByteMem Checked PageEntry

variable {lo : ℕ} {k k' : Kernel} {s : Space} {c : ℕ}

/-- The space maps page `j` of slot `i` through a table of its own, with the entry `x`. -/
def Kernel.Maps (k : Kernel) (s : Space) (i j x : ℕ) : Prop :=
  ∃ p, k.Owns (.table s i) p ∧ j < 1024 ∧ k.mem p j = x ∧ Present x

/-- Mappings do not depend on the memory manager. -/
lemma maps_pmm (pmm : Pmm) (s : Space) (i j x : ℕ) :
    ({ k with pmm } : Kernel).Maps s i j x ↔ k.Maps s i j x :=
  exists_congr fun p => and_congr_left fun _ => owns_pmm pmm _ p

/-- What a new table of the kernel takes away: the tables that tasks have in the same slot. -/
def Lost (s : Space) (pd : ℕ) (fresh : Option ℕ) : Owner → Prop
  | .table (some _) i => s = none ∧ fresh ≠ none ∧ i = pd
  | _ => False

/-- The memory manager after it handed out a frame of the pool, or none. -/
structure Grows (pmm : Pmm) (fresh : Option ℕ) (pmm' : Pmm) : Prop where
  mask : pmm'.bitmapPagetableMask = pmm.bitmapPagetableMask
  used : ∀ f, pmm'.Used f ↔ fresh = some f ∨ pmm.Used f
  free : ∀ f, fresh = some f → f < frameCount ∧ pmm.Fits true f

/-- **The effect of `vmm_map_page`** in the space `s`, at page `pt` of slot `pd`. -/
structure MapEffect (lo : ℕ) (k : Kernel) (s : Space) (pd pt e : ℕ) (fresh : Option ℕ)
    (k' : Kernel) : Prop where
  inv : VmmInv lo k'
  tasks : k'.tasks = k.tasks
  kernelContext : k'.kernelContext = k.kernelContext
  currentTask : k'.currentTask = k.currentTask
  pmm : Grows k.pmm fresh k'.pmm
  freshIff : fresh = none ↔ ∃ p, k.Owns (.table s pd) p
  owns : ∀ o p, k'.Owns o p ↔ (k.Owns o p ∧ ¬ Lost s pd fresh o)
    ∨ ∃ f, fresh = some f ∧ o = .table s pd ∧ p = f * 0x1000
  maps : ∀ s' i j x, k'.Maps s' i j x ↔ (s' = s ∧ i = pd ∧ j = pt ∧ x = e ∧ Present e)
    ∨ (k.Maps s' i j x ∧ ¬ (s' = s ∧ i = pd ∧ j = pt) ∧ ¬ Lost s pd fresh (.table s' i))

lemma not_present_zero : ¬ Present 0 := by simp [Present]

/-- The entry of a table is present, and its address is the table's. -/
lemma present_tableEntry {page flags : ℕ} (hp : 0x1000 ∣ page) :
    Present (page ||| ptePresent ||| flags) := by
  rw [Present, Nat.or_assoc, or_and_flag hp (by norm_num [ptePresent]), Nat.and_or_distrib_right,
    Nat.and_self, ptePresent]
  intro h
  have := Nat.or_eq_zero_iff.mp h
  simp at this

/-- The entry of a table leads to its page. -/
lemma base_tableEntry {page flags : ℕ} (hp : 0x1000 ∣ page) (hp' : page < 2 ^ 32)
    (hf : flags < 0x1000) : base (page ||| ptePresent ||| flags) = page := by
  rw [Nat.or_assoc]
  have h1 : ptePresent ||| flags < 2 ^ 12 := Nat.or_lt_two_pow (by norm_num [ptePresent]) hf
  exact base_or hp hp' h1

/-! ### Ownership when directories are kept -/

/-- With the same tasks the roots are the same. -/
lemma root_congr (htasks : k'.tasks = k.tasks) (hkc : k'.kernelContext = k.kernelContext)
    (s : Space) (c : ℕ) : k'.Root s c ↔ k.Root s c := by
  cases s with
  | none => simp only [Kernel.Root, hkc]
  | some t => simp only [Kernel.Root, htasks]

/-- Ownership is read off contexts and directories. -/
lemma owns_congr (htasks : k'.tasks = k.tasks) (hkc : k'.kernelContext = k.kernelContext)
    (hmem : ∀ s c, k.Root s c →
      k'.pagedir c = k.pagedir c ∧ ∀ i, k'.entry c i = k.entry c i) (o : Owner) (p : ℕ) :
    k'.Owns o p ↔ k.Owns o p := by
  have hroot := root_congr htasks hkc
  have hkernel : ∀ i, k'.kernelEntry i = k.kernelEntry i := fun i => by
    rw [Kernel.kernelEntry, hkc]
    exact (hmem none _ rfl).2 i
  have hown : ∀ s i, k'.OwnSlot s i ↔ k.OwnSlot s i := fun s i => by
    rw [Kernel.OwnSlot, Kernel.OwnSlot, hkernel]
  constructor
  · intro h
    cases h with
    | context root => exact .context ((hroot _ _).mp root)
    | dir root =>
      rw [(hmem _ _ ((hroot _ _).mp root)).1]
      exact .dir ((hroot _ _).mp root)
    | table root lt present own =>
      have heq := (hmem _ _ ((hroot _ _).mp root)).2
      rw [heq] at present ⊢
      exact .table ((hroot _ _).mp root) lt present ((hown _ _).mp own)
  · intro h
    cases h with
    | context root => exact .context ((hroot _ _).mpr root)
    | dir root =>
      rw [← (hmem _ _ root).1]
      exact .dir ((hroot _ _).mpr root)
    | table root lt present own =>
      have heq := (hmem _ _ root).2
      rw [← heq] at present ⊢
      exact .table ((hroot _ _).mpr root) lt present ((hown _ _).mpr own)

/-! ### Ownership when a table is new -/

/-- The directories of a space, and for the kernel those of all spaces, get an entry in a slot. -/
structure NewEntries (k : Kernel) (s : Space) (pd E : ℕ) (k' : Kernel) : Prop where
  roots : ∀ s' c', k'.Root s' c' ↔ k.Root s' c'
  dir : ∀ s' c', k.Root s' c' → k'.pagedir c' = k.pagedir c'
  entry : ∀ s' c', k.Root s' c' → ∀ i, ((i = pd ∧ (s' = s ∨ s = none)) ∧ k'.entry c' i = E)
    ∨ (¬ (i = pd ∧ (s' = s ∨ s = none)) ∧ k'.entry c' i = k.entry c' i)

namespace NewEntries

variable {pd E f : ℕ} (hn : NewEntries k s pd E k')

include hn

/-- An entry of the kernel is the one that was set, or it stays. -/
lemma kernelEntry (i : ℕ) : ((i = pd ∧ s = none) ∧ k'.kernelEntry i = E)
    ∨ (¬ (i = pd ∧ s = none) ∧ k'.kernelEntry i = k.kernelEntry i) := by
  have hr : k.Root none k.kernelContext := rfl
  have hkc : k'.kernelContext = k.kernelContext := ((hn.roots none _).mpr hr).symm
  rw [Kernel.kernelEntry, hkc]
  rcases hn.entry none _ hr i with ⟨⟨h1, h2⟩, h⟩ | ⟨h1, h⟩
  · exact Or.inl ⟨⟨h1, h2.elim Eq.symm id⟩, h⟩
  · exact Or.inr ⟨fun hc => h1 ⟨hc.1, Or.inr hc.2⟩, h⟩

/-- What is owned afterwards: what was owned, and the new table. -/
lemma owns_or (hE : Present E) (hbase : base E = f * 0x1000) {o : Owner} {p : ℕ}
    (h : k'.Owns o p) : (k.Owns o p ∧ ¬ Lost s pd (some f) o)
      ∨ o = .table s pd ∧ p = f * 0x1000 := by
  cases h with
  | context root => exact Or.inl ⟨.context ((hn.roots _ _).mp root), id⟩
  | dir root =>
    have hr := (hn.roots _ _).mp root
    rw [hn.dir _ _ hr]
    exact Or.inl ⟨.dir hr, id⟩
  | @table s' c' i root hlt present own =>
    have hr := (hn.roots _ _).mp root
    rcases hn.entry _ _ hr i with ⟨⟨rfl, hs⟩, heq⟩ | ⟨hne, heq⟩
    · rw [heq, hbase]
      refine Or.inr ⟨?_, rfl⟩
      -- a task does not own the slot of a new table of the kernel
      rcases hs with rfl | rfl
      · rfl
      · rcases own with rfl | own
        · rfl
        · rcases hn.kernelEntry i with ⟨_, h⟩ | ⟨h, _⟩
          · exact absurd (h ▸ hE) own
          · exact absurd ⟨rfl, rfl⟩ h
    · rw [heq] at present ⊢
      have hl : ¬ Lost s pd (some f) (.table s' i) := by
        cases s' with
        | none => exact id
        | some t => exact fun h => hne ⟨h.2.2, Or.inr h.1⟩
      refine Or.inl ⟨.table hr hlt present ?_, hl⟩
      rcases own with rfl | own
      · exact Or.inl rfl
      · rcases hn.kernelEntry i with ⟨_, h⟩ | ⟨_, h⟩
        · exact absurd (h ▸ hE) own
        · exact Or.inr (h ▸ own)

/-- What was owned is owned, unless the kernel took the slot. -/
lemma owns_of_owns (hold : ∀ p, ¬ k.Owns (.table s pd) p) {o : Owner} {p : ℕ} (h : k.Owns o p)
    (hl : ¬ Lost s pd (some f) o) : k'.Owns o p := by
  cases h with
  | context root => exact .context ((hn.roots _ _).mpr root)
  | dir root =>
    rw [← hn.dir _ _ root]
    exact .dir ((hn.roots _ _).mpr root)
  | @table s' c' i root hlt present own =>
    rcases hn.entry _ _ root i with ⟨⟨rfl, hs⟩, _⟩ | ⟨hne, heq⟩
    · rcases hs with rfl | rfl
      · exact absurd (.table root hlt present own) (hold _)
      · cases s' with
        | none => exact absurd (.table root hlt present own) (hold _)
        | some t => exact absurd ⟨rfl, Option.some_ne_none f, rfl⟩ hl
    · rw [← heq] at present ⊢
      refine .table ((hn.roots _ _).mpr root) hlt present ?_
      rcases own with rfl | own
      · exact Or.inl rfl
      · rcases hn.kernelEntry i with ⟨⟨rfl, hs⟩, _⟩ | ⟨_, h⟩
        · exact absurd ⟨rfl, Or.inr hs⟩ hne
        · exact Or.inr (by rwa [h])

/-- The new table is owned. -/
lemma owns_new (hE : Present E) (hbase : base E = f * 0x1000) (hroot : k.Root s c)
    (hpd : pd < 1024) (hown : k.OwnSlot s pd) : k'.Owns (.table s pd) (f * 0x1000) := by
  have hx : k'.entry c pd = E := by
    rcases hn.entry _ _ hroot pd with ⟨_, h⟩ | ⟨h, _⟩
    · exact h
    · exact absurd ⟨rfl, Or.inl rfl⟩ h
  have hown' : k'.OwnSlot s pd := by
    rcases hown with rfl | hown
    · exact Or.inl rfl
    · rcases hn.kernelEntry pd with ⟨⟨_, h⟩, _⟩ | ⟨_, h⟩
      · exact Or.inl h
      · exact Or.inr (by rwa [h])
  have := Kernel.Owns.table ((hn.roots s c).mpr hroot) hpd (by rwa [hx]) hown'
  rwa [hx, hbase] at this

/-- The tasks still have the entries of the kernel. -/
lemma sync (hi : VmmInv lo k) (hown : k.OwnSlot s pd) {t : Fin maxTasks}
    (ht : (k.tasks t).active = true) {i : ℕ} (hlt : i < 1024) (hpres : Present (k'.kernelEntry i)) :
    k'.entry (k.tasks t).context i = k'.kernelEntry i := by
  have hr : k.Root (some t) (k.tasks t).context := ⟨ht, rfl⟩
  rcases hn.kernelEntry i with ⟨⟨rfl, rfl⟩, h⟩ | ⟨hne, h⟩
  · rcases hn.entry _ _ hr i with ⟨_, h'⟩ | ⟨h', _⟩
    · rw [h]
      exact h'
    · exact absurd ⟨rfl, Or.inr rfl⟩ h'
  · rw [h] at hpres ⊢
    rcases hn.entry _ _ hr i with ⟨⟨rfl, hs⟩, _⟩ | ⟨_, h'⟩
    · rcases hs with rfl | rfl
      · rcases hown with hc | hc
        · cases hc
        · exact absurd hpres hc
      · exact absurd ⟨rfl, rfl⟩ hne
    · exact h'.trans (hi.sync t ht i hlt hpres)

end NewEntries

/-! ### The two cases of a mapping -/

section Effect

variable {pd pt e flags : ℕ} (hi : VmmInv lo k) (hroot : k.Root s c) (hpd : pd < 1024)
  (hpt : pt < 1024) (hown : k.OwnSlot s pd)

/-- What a space maps, from what it owns and what its tables hold. -/
lemma maps_of_contents {fresh : Option ℕ} (hpt : pt < 1024) {q : ℕ}
    (howns : ∀ o p, k'.Owns o p ↔ (k.Owns o p ∧ ¬ Lost s pd fresh o)
      ∨ ∃ f, fresh = some f ∧ o = .table s pd ∧ p = f * 0x1000)
    (hfresh : fresh = none ↔ ∃ p, k.Owns (.table s pd) p)
    (hq : k'.Owns (.table s pd) q)
    (hself : k'.mem q pt = e)
    (hsame : ∀ j, j ≠ pt → k'.mem q j = if fresh = none then k.mem q j else 0)
    (huniq : ∀ p, k'.Owns (.table s pd) p → p = q)
    (hother : ∀ s' i p j, k.Owns (.table s' i) p → ¬ (s' = s ∧ i = pd) → k'.mem p j = k.mem p j)
    (s' : Space) (i j x : ℕ) :
    k'.Maps s' i j x ↔ (s' = s ∧ i = pd ∧ j = pt ∧ x = e ∧ Present e)
      ∨ (k.Maps s' i j x ∧ ¬ (s' = s ∧ i = pd ∧ j = pt) ∧ ¬ Lost s pd fresh (.table s' i)) := by
  by_cases hslot : s' = s ∧ i = pd
  · obtain ⟨rfl, rfl⟩ := hslot
    -- the slot itself: its table is the old one, or a fresh one of zeros
    have hlost : ¬ Lost s' i fresh (.table s' i) := by
      cases s' with
      | none => exact id
      | some t => exact fun h => by simp [Lost] at h
    constructor
    · rintro ⟨p, hp, hj, rfl, hx⟩
      obtain rfl := huniq p hp
      by_cases hjt : j = pt
      · subst hjt
        exact Or.inl ⟨rfl, rfl, rfl, hself, hself ▸ hx⟩
      · rw [hsame j hjt] at hx ⊢
        by_cases hn : fresh = none
        · rw [if_pos hn] at hx ⊢
          obtain ⟨p', hp'⟩ := hfresh.mp hn
          obtain rfl := huniq p' ((howns _ _).mpr (Or.inl ⟨hp', hlost⟩))
          exact Or.inr ⟨⟨p', hp', hj, rfl, hx⟩, fun h => hjt h.2.2, hlost⟩
        · rw [if_neg hn] at hx
          exact absurd hx not_present_zero
    · rintro (⟨_, _, rfl, rfl, hx⟩ | ⟨⟨p, hp, hj, rfl, hx⟩, hne, _⟩)
      · exact ⟨q, hq, hpt, hself, hx⟩
      · have hp' : k'.Owns (.table s' i) p := (howns _ _).mpr (Or.inl ⟨hp, hlost⟩)
        obtain rfl := huniq p hp'
        have hjt : j ≠ pt := fun h => hne ⟨rfl, rfl, h⟩
        refine ⟨p, hp', hj, ?_, hx⟩
        rw [hsame j hjt, if_pos (hfresh.mpr ⟨p, hp⟩)]
  · -- every other slot keeps its table, unless the kernel takes it
    have hback : ∀ p, k'.Owns (.table s' i) p
        ↔ k.Owns (.table s' i) p ∧ ¬ Lost s pd fresh (.table s' i) := by
      intro p
      rw [howns]
      refine or_iff_left ?_
      rintro ⟨f, _, heq, _⟩
      exact hslot (Owner.table.inj heq)
    constructor
    · rintro ⟨p, hp, hj, rfl, hx⟩
      obtain ⟨hp', hl⟩ := (hback p).mp hp
      have hc := hother s' i p j hp' hslot
      exact Or.inr ⟨⟨p, hp', hj, hc.symm, hx⟩, fun h => hslot ⟨h.1, h.2.1⟩, hl⟩
    · rintro (⟨h1, h2, _⟩ | ⟨⟨p, hp, hj, rfl, hx⟩, _, hl⟩)
      · exact absurd ⟨h1, h2⟩ hslot
      · exact ⟨p, (hback p).mpr ⟨hp, hl⟩, hj, hother s' i p j hp hslot, hx⟩

include hi hroot hpt

/-- The table is there. -/
lemma setPte_effect (hpd : pd < 1024) (hown : k.OwnSlot s pd) (hpres : Present (k.entry c pd)) :
    MapEffect lo k s pd pt e none
      { k with mem := k.mem.set (base (k.entry c pd)) pt e } := by
  set q := base (k.entry c pd) with hq
  have hqo : k.Owns (.table s pd) q := .table hroot hpd hpres hown
  have hmem : ∀ s' c', k.Root s' c' →
      ({ k with mem := k.mem.set q pt e } : Kernel).pagedir c' = k.pagedir c'
      ∧ ∀ i, ({ k with mem := k.mem.set q pt e } : Kernel).entry c' i = k.entry c' i := by
    intro s' c' hr
    have h1 : (k.mem.set q pt e) c' 0 = k.mem c' 0 :=
      k.mem.set_of_ne _ _ _ (hi.ne_of_owns (.context hr) hqo (by simp))
    refine ⟨h1, fun i => ?_⟩
    simp only [Kernel.entry, Kernel.pagedir, h1]
    exact k.mem.set_of_ne _ _ _ (hi.ne_of_owns (.dir hr) hqo (by simp))
  have howns : ∀ o p, ({ k with mem := k.mem.set q pt e } : Kernel).Owns o p ↔ k.Owns o p :=
    owns_congr rfl rfl hmem
  have hlost : ∀ o, ¬ Lost s pd none o := by
    rintro o h
    match o with
    | .table (some t) i => exact h.2.1 rfl
  have howns' : ∀ o p, ({ k with mem := k.mem.set q pt e } : Kernel).Owns o p
      ↔ (k.Owns o p ∧ ¬ Lost s pd none o)
        ∨ ∃ f, none = some f ∧ o = .table s pd ∧ p = f * 0x1000 := by
    intro o p
    simp [howns o p, hlost o]
  -- the table's page is no context and no directory, so what is owned stays
  have hinv : VmmInv lo { k with mem := k.mem.set q pt e } := by
    refine hi.of_owns (fun _ _ => False) hi.guarded (fun o p h => ?_) (fun _ _ h => h.elim)
      (fun _ _ _ h => h.elim) ?_
    · exact ⟨Or.inl ((howns o p).mp h), hi.owned o p ((howns o p).mp h)⟩
    · intro t ht i hlt hpres'
      have hk := (hmem none _ rfl).2 i
      rw [Kernel.kernelEntry] at hpres' ⊢
      rw [hk] at hpres' ⊢
      exact ((hmem (some t) _ ⟨ht, rfl⟩).2 i).trans (hi.sync t ht i hlt hpres')
  refine ⟨hinv, rfl, rfl, rfl, ⟨rfl, by simp, by simp⟩, by simpa using ⟨q, hqo⟩, howns',
    maps_of_contents hpt howns' (by simpa using ⟨q, hqo⟩) ((howns _ _).mpr hqo) ?_ ?_ ?_ ?_⟩
  · exact (k.mem.set_apply q pt e q pt).trans (if_pos ⟨rfl, rfl⟩)
  · intro j hj
    rw [if_pos rfl]
    exact (k.mem.set_apply q pt e q j).trans (if_neg fun h => hj h.2)
  · intro p hp
    cases (howns _ _).mp hp with
    | table root _ _ _ => rw [hq, root.unique hroot]
  · intro s' i p j hp hne
    refine PageMem.set_of_ne _ _ _ _ (hi.ne_of_owns hp hqo ?_)
    simpa using hne

end Effect

section NewTable

variable {pd pt e flags f : ℕ} {pmm : Pmm} (hi : VmmInv lo k) (hroot : k.Root s c)
  (hf : f < frameCount) (hfit : k.pmm.Fits true f)

include hi hfit in
lemma ne_fresh (o : Owner) (p : ℕ) (h : k.Owns o p) : p ≠ f * 0x1000 :=
  hi.ne_of_not_used h hfit.1

include hi hroot hfit

/-- A new table does not change the pages of contexts. -/
lemma newTable_context {s' : Space} {c' : ℕ} (hr : k.Root s' c') (i : ℕ) :
    newTable k c pd (f * 0x1000) flags c' i = k.mem c' i := by
  rcases newTable_spec pd flags hi hroot (ne_fresh hi hfit) c' i with
    ⟨h, _⟩ | ⟨_, ⟨_, s'', c'', hr', _, h⟩, _⟩ | ⟨_, _, h⟩
  · exact absurd h (ne_fresh hi hfit _ _ (.context hr))
  · exact absurd h (hi.ne_of_owns (.context hr) (.dir hr') (by simp))
  · exact h

/-- A new table changes the directories of the spaces it is for, at its slot. -/
lemma newTable_dir {s' : Space} {c' : ℕ} (hr : k.Root s' c') (i : ℕ) :
    ((i = pd ∧ (s' = s ∨ s = none))
        ∧ newTable k c pd (f * 0x1000) flags (k.pagedir c') i
          = f * 0x1000 ||| ptePresent ||| flags)
      ∨ (¬ (i = pd ∧ (s' = s ∨ s = none))
        ∧ newTable k c pd (f * 0x1000) flags (k.pagedir c') i = k.mem (k.pagedir c') i) := by
  rcases newTable_spec pd flags hi hroot (ne_fresh hi hfit) (k.pagedir c') i
    with ⟨h, _⟩ | ⟨_, ⟨hpd, s'', c'', hr', hs, h⟩, heq⟩ | ⟨_, hno, heq⟩
  · exact absurd h (ne_fresh hi hfit _ _ (.dir hr))
  · have : s' = s'' := Owner.dir.inj (hi.inj _ _ _ (.dir hr) (h ▸ .dir hr'))
    exact Or.inl ⟨⟨hpd, this ▸ hs⟩, heq⟩
  · exact Or.inr ⟨fun hc => hno ⟨hc.1, s', c', hr, hc.2, rfl⟩, heq⟩

/-- A new table does not change the tables that are there. -/
lemma newTable_table {s' : Space} {i p : ℕ} (hp : k.Owns (.table s' i) p) (j : ℕ) :
    newTable k c pd (f * 0x1000) flags p j = k.mem p j := by
  rcases newTable_spec pd flags hi hroot (ne_fresh hi hfit) p j with
    ⟨h, _⟩ | ⟨_, ⟨_, s'', c'', hr', _, h⟩, _⟩ | ⟨_, _, h⟩
  · exact absurd h (ne_fresh hi hfit _ _ hp)
  · exact absurd h (hi.ne_of_owns hp (.dir hr') (by simp))
  · exact h

/-- The entries of the directories when the table is made and has its first page. -/
lemma newTable_newEntries : NewEntries k s pd (f * 0x1000 ||| ptePresent ||| flags)
    { k with
      pmm := pmm
      mem := (newTable k c pd (f * 0x1000) flags).set (f * 0x1000) pt e } := by
  have hset : ∀ {o p} i, k.Owns o p →
      (newTable k c pd (f * 0x1000) flags).set (f * 0x1000) pt e p i =
        newTable k c pd (f * 0x1000) flags p i := fun i hp =>
    PageMem.set_of_ne _ _ _ _ (ne_fresh hi hfit _ _ hp)
  have hdir : ∀ s' c', k.Root s' c' →
      (newTable k c pd (f * 0x1000) flags).set (f * 0x1000) pt e c' 0 = k.mem c' 0 :=
    fun s' c' hr => (hset 0 (.context hr)).trans (newTable_context hi hroot hfit hr 0)
  refine ⟨root_congr rfl rfl, hdir, fun s' c' hr i => ?_⟩
  simp only [Kernel.entry, Kernel.pagedir, hdir s' c' hr]
  have hread : (newTable k c pd (f * 0x1000) flags).set (f * 0x1000) pt e (k.mem c' 0) i =
      newTable k c pd (f * 0x1000) flags (k.mem c' 0) i := hset i (.dir hr)
  rw [hread]
  exact newTable_dir hi hroot hfit hr i

include hf

/-- The table is made. -/
lemma newTable_effect (hpd : pd < 1024) (hpt : pt < 1024) (hflags : flags < 0x1000)
    (hown : k.OwnSlot s pd) (hpres : ¬ Present (k.entry c pd))
    (hb : k.pmm.Becomes pmm fun g => g = f ∨ k.pmm.Used g) :
    MapEffect lo k s pd pt e (some f)
      { k with
        pmm := pmm
        mem := (newTable k c pd (f * 0x1000) flags).set (f * 0x1000) pt e } := by
  have hdvd : 0x1000 ∣ f * 0x1000 := Dvd.intro_left f rfl
  have hlt : f * 0x1000 < 2 ^ 32 := by
    rw [frameCount] at hf
    omega
  have hdiv : f * 0x1000 / 0x1000 = f := Nat.mul_div_cancel _ (by norm_num)
  have hE : Present (f * 0x1000 ||| ptePresent ||| flags) := present_tableEntry hdvd
  have hbase : base (f * 0x1000 ||| ptePresent ||| flags) = f * 0x1000 :=
    base_tableEntry hdvd hlt hflags
  have hold : ∀ p, ¬ k.Owns (.table s pd) p := by
    intro p hp
    cases hp with
    | table root _ present _ => exact hpres (root.unique hroot ▸ present)
  set k' : Kernel := { k with
    pmm := pmm
    mem := (newTable k c pd (f * 0x1000) flags).set (f * 0x1000) pt e }
  have hn : NewEntries k s pd (f * 0x1000 ||| ptePresent ||| flags) k' :=
    newTable_newEntries hi hroot hfit
  have hself := hn.owns_new hE hbase hroot hpd hown
  have howns : ∀ o p, k'.Owns o p ↔ (k.Owns o p ∧ ¬ Lost s pd (some f) o)
      ∨ ∃ g, some f = some g ∧ o = .table s pd ∧ p = g * 0x1000 := by
    intro o p
    constructor
    · exact fun h => (hn.owns_or hE hbase h).imp_right fun hnew => ⟨f, rfl, hnew⟩
    · rintro (⟨h, hl⟩ | ⟨g, hg, rfl, rfl⟩)
      · exact hn.owns_of_owns hold h hl
      · rwa [← Option.some.inj hg]
  have hfresh : some f = none ↔ ∃ p, k.Owns (.table s pd) p := by
    simpa using hold
  -- the one new owner is the table of the slot, in the frame `f`
  have hinv : VmmInv lo k' := by
    refine hi.of_owns (fun o p => o = .table s pd ∧ p = f * 0x1000)
      (hi.guarded.of_becomes hb) ?_ ?_ ?_ ?_
    · intro o p h
      rcases hn.owns_or hE hbase h with ⟨h1, _⟩ | ⟨h1, h2⟩
      · have hp := hi.owned o p h1
        exact ⟨Or.inl h1, VmmInv.poolPage_mono hp hb.mask ((hb.used _).mpr (Or.inr hp.used))⟩
      · refine ⟨Or.inr ⟨h1, h2⟩, ?_⟩
        rw [h2]
        refine ⟨hdvd, hlt, ?_, ?_⟩
        · rw [hdiv]
          exact (hb.pool f).mpr (hfit.2.mpr rfl)
        · rw [hdiv]
          exact (hb.used f).mpr (Or.inl rfl)
    · rintro o p ⟨_, rfl⟩
      rw [hdiv]
      exact hfit.1
    · rintro o o' p ⟨rfl, _⟩ ⟨rfl, _⟩
      rfl
    · exact fun t ht i hlt' hpres' => hn.sync hi hown ht hlt' hpres'
  refine ⟨hinv, rfl, rfl, rfl, ⟨hb.mask, fun g => ?_, fun g hg => ?_⟩, hfresh, howns,
    maps_of_contents hpt howns hfresh hself ?_ ?_ ?_ ?_⟩
  · rw [hb.used]
    simp [eq_comm]
  · obtain rfl := Option.some.inj hg
    exact ⟨hf, hfit⟩
  · -- the new table maps the one page, and is zero elsewhere
    exact (PageMem.set_apply _ _ _ _ _ _).trans (if_pos ⟨rfl, rfl⟩)
  · intro j hj
    rw [if_neg (by simp)]
    refine (PageMem.set_apply _ _ _ _ _ _).trans ((if_neg fun h => hj h.2).trans ?_)
    rcases newTable_spec pd flags hi hroot (ne_fresh hi hfit) (f * 0x1000) j
      with ⟨_, h⟩ | ⟨h, _⟩ | ⟨h, _⟩
    · exact h
    · exact absurd rfl h
    · exact absurd rfl h
  · intro p hp
    rcases hn.owns_or hE hbase hp with ⟨h, _⟩ | ⟨_, h⟩
    · exact absurd h (hold p)
    · exact h
  · intro s' i p j hp _
    exact (PageMem.set_of_ne _ _ _ _ (ne_fresh hi hfit _ _ hp)).trans
      (newTable_table hi hroot hfit hp j)

end NewTable

/-! ### The specification -/

/-- `vmm_map_page`, with its result. -/
lemma mapPage_eq_ok {virt phys flags : ℕ} : mapPage k c virt phys flags = .ok k'
    ↔ ∃ r, vmmMapPage k c virt phys flags = .ok (k', r) := by
  rw [mapPage]
  cases vmmMapPage k c virt phys flags with
  | error e => simp
  | ok x =>
    obtain ⟨q, r⟩ := x
    simp

lemma pdIndexOf_lt {virt : ℕ} (h : virt < 2 ^ 32) : pdIndexOf virt < 1024 := by
  rw [pdIndexOf]
  omega

lemma ptIndexOf_lt (virt : ℕ) : ptIndexOf virt < 1024 := Nat.mod_lt _ (by norm_num)

/-- **`vmm_map_page`**: a call that returns changed nothing, for an address inside a page, or maps
the page. -/
theorem mapPage_effect {virt phys flags : ℕ} (hi : VmmInv lo k) (hroot : k.Root s c)
    (hv : virt < 2 ^ 32) (hflags : flags < 0x1000)
    (h : mapPage k c virt phys flags = .ok k') :
    (¬ (virt % 0x1000 = 0 ∧ phys % 0x1000 = 0) ∧ k' = k)
    ∨ ((virt % 0x1000 = 0 ∧ phys % 0x1000 = 0) ∧ k.OwnSlot s (pdIndexOf virt)
      ∧ ∃ fresh, MapEffect lo k s (pdIndexOf virt) (ptIndexOf virt) (phys ||| flags) fresh k') := by
  obtain ⟨r, hmap⟩ := mapPage_eq_ok.mp h
  rw [vmmMapPage] at hmap
  by_cases hal : virt % 0x1000 ≠ 0 ∨ phys % 0x1000 ≠ 0
  · rw [if_pos hal] at hmap
    refine Or.inl ⟨by tauto, ?_⟩
    exact (Prod.mk.inj (Except.ok.inj hmap)).1.symm
  · rw [if_neg hal] at hmap
    by_cases hab : c ≠ k.kernelContext ∧ Present (k.kernelEntry (pdIndexOf virt))
    · rw [if_pos hab] at hmap
      cases hmap
    · rw [if_neg hab, bind_eq_ok] at hmap
      obtain ⟨⟨k₂, page⟩, htable, hret⟩ := hmap
      obtain rfl := (Prod.mk.inj (Except.ok.inj hret)).1
      have hown : k.OwnSlot s (pdIndexOf virt) := by
        by_cases hs : s = none
        · exact Or.inl hs
        · exact Or.inr fun hp => hab ⟨mt (hi.root_eq_kernel_iff hroot).mp hs, hp⟩
      refine Or.inr ⟨by tauto, hown, ?_⟩
      have hpd := pdIndexOf_lt hv
      have hpt := ptIndexOf_lt virt
      rw [pageTableFor] at htable
      by_cases hpres : Present (k.entry c (pdIndexOf virt))
      · rw [if_pos hpres] at htable
        obtain ⟨rfl, rfl⟩ := Prod.mk.inj (Except.ok.inj htable)
        exact ⟨none, setPte_effect hi hroot hpt hpd hown hpres⟩
      · rw [if_neg hpres] at htable
        rcases allocFrame_spec k.pmm true with ⟨ha, _⟩ | ⟨f, pmm, ha, hf, hfit, _, hb⟩
        · simp [pmmAllocPagetable, ha] at htable
        · rw [pmmAllocPagetable, ha] at htable
          obtain ⟨rfl, rfl⟩ := Prod.mk.inj (Except.ok.inj htable)
          exact ⟨some f, newTable_effect hi hroot hf hfit hpd hpt hflags hown hpres hb⟩

end MicroOS
