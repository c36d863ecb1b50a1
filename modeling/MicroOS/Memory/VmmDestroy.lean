import MicroOS.Memory.VmmCreate

/-!
The end of an address space.

* `foldlM_frees`: a loop of `pmm_free` calls frees the union of what its turns free.
* `Kernel.Charged`: the frames that `vmm_destroy_context` frees, all that a task owns and maps;
  `vmmDestroyContext_ok` shows it.
* `ExitEffect`: the effect of `exit_task`; `exitTask_ok` shows that it always returns.
* `ExitEffect.inv`: the invariant is kept when the task maps no page of the pool and no guard.
-/

namespace MicroOS

open ByteMem Checked PageEntry

variable {lo : ℕ} {k k' : Kernel} {t : Fin maxTasks}

/-- A loop that frees: each turn returns and frees some frames. -/
lemma foldlM_frees {α : Type} {f : Pmm → α → Except Halt Pmm} {S : α → ℕ → Prop} {l : List α}
    (hf : ∀ a ∈ l, ∀ p, ∃ p', f p a = .ok p' ∧ p.Becomes p' fun g => ¬ S a g ∧ p.Used g)
    (p : Pmm) :
    ∃ p', l.foldlM f p = .ok p' ∧ p.Becomes p' fun g => ¬ (∃ a ∈ l, S a g) ∧ p.Used g := by
  induction l generalizing p with
  | nil => exact ⟨p, rfl, rfl, fun g => by simp⟩
  | cons a l ih =>
    obtain ⟨p₁, h1, hb₁⟩ := hf a List.mem_cons_self p
    obtain ⟨p₂, h2, hb₂⟩ := ih (fun b hb => hf b (List.mem_cons_of_mem a hb)) p₁
    refine ⟨p₂, ?_, hb₂.mask.trans hb₁.mask, fun g => ?_⟩
    · rw [List.foldlM_cons, h1]
      exact h2
    · rw [hb₂.used, hb₁.used]
      simp only [List.mem_cons, exists_eq_or_imp, not_or]
      tauto

lemma Pmm.Becomes.same (p : Pmm) {S : ℕ → Prop} (hS : ∀ g, ¬ S g) :
    p.Becomes p fun g => ¬ S g ∧ p.Used g :=
  ⟨rfl, fun g => (and_iff_right (hS g)).symm⟩

/-! ### `vmm_destroy_context` -/

/-- What the inner loop frees. -/
def tableFrees (k : Kernel) (i pageTable g : ℕ) : Prop :=
  ∃ j < 1024, Present (k.mem pageTable j)
    ∧ ¬ (Present (k.kernelEntry i) ∧ Present (k.mem (base (k.kernelEntry i)) j))
    ∧ g = base (k.mem pageTable j) / 4096

/-- The loop over a table frees the pages of the task in it. -/
lemma destroyTable_ok (k : Kernel) (i pageTable : ℕ) (p : Pmm) :
    ∃ p', destroyTable k i pageTable p = .ok p'
      ∧ p.Becomes p' fun g => ¬ tableFrees k i pageTable g ∧ p.Used g := by
  have hturn : ∀ j ∈ List.range 1024, ∀ p : Pmm, ∃ p',
      (if Present (k.mem pageTable j) then
        if Present (k.kernelEntry i) ∧ Present (k.mem (base (k.kernelEntry i)) j) then
          (return p : Except Halt Pmm)
        else pmmFree p (base (k.mem pageTable j))
      else return p) = .ok p'
      ∧ p.Becomes p' fun g => ¬ (Present (k.mem pageTable j)
          ∧ ¬ (Present (k.kernelEntry i) ∧ Present (k.mem (base (k.kernelEntry i)) j))
          ∧ g = base (k.mem pageTable j) / 4096) ∧ p.Used g := by
    intro j _ p
    by_cases h1 : Present (k.mem pageTable j)
    · rw [if_pos h1]
      by_cases h2 : Present (k.kernelEntry i) ∧ Present (k.mem (base (k.kernelEntry i)) j)
      · rw [if_pos h2]
        exact ⟨p, rfl, Pmm.Becomes.same p fun g h => h.2.1 h2⟩
      · rw [if_neg h2]
        obtain ⟨p', hp', hb⟩ := pmmFree_ok (p := p) (base_lt (k.mem pageTable j))
        refine ⟨p', hp', hb.mask, fun g => ?_⟩
        rw [hb.used]
        simp [h1, h2]
    · rw [if_neg h1]
      exact ⟨p, rfl, Pmm.Becomes.same p fun g h => h1 h.1⟩
  obtain ⟨p', hp', hb⟩ := foldlM_frees hturn p
  refine ⟨p', hp', hb.mask, fun g => ?_⟩
  rw [hb.used, tableFrees]
  simp only [List.mem_range]

/-- What one turn of the outer loop frees: the pages of a table, and the table when it is not the
kernel's. -/
def slotFrees (k : Kernel) (context i g : ℕ) : Prop :=
  Present (k.entry context i)
    ∧ (tableFrees k i (base (k.entry context i)) g
      ∨ (¬ Present (k.kernelEntry i) ∧ g = base (k.entry context i) / 4096))

/-- A turn of the loop over the slots frees the pages of the task in it, and their table. -/
lemma destroySlot_ok (k : Kernel) (context i : ℕ) (p : Pmm) :
    ∃ p', (if Present (k.entry context i) then do
        let pageTable := base (k.entry context i)
        let pmm ← destroyTable k i pageTable p
        if Present (k.kernelEntry i) then return pmm else pmmFree pmm pageTable
      else return p) = .ok p'
      ∧ p.Becomes p' fun g => ¬ slotFrees k context i g ∧ p.Used g := by
  by_cases h1 : Present (k.entry context i)
  · rw [if_pos h1]
    obtain ⟨p₁, hp₁, hb₁⟩ := destroyTable_ok k i (base (k.entry context i)) p
    simp only [hp₁, ok_bind]
    by_cases h2 : Present (k.kernelEntry i)
    · rw [if_pos h2]
      refine ⟨p₁, rfl, hb₁.mask, fun g => ?_⟩
      rw [hb₁.used, slotFrees]
      simp [h1, h2]
    · rw [if_neg h2]
      obtain ⟨p₂, hp₂, hb₂⟩ := pmmFree_ok (p := p₁) (base_lt (k.entry context i))
      refine ⟨p₂, hp₂, hb₂.mask.trans hb₁.mask, fun g => ?_⟩
      rw [hb₂.used, hb₁.used, slotFrees]
      simp only [h1, h2, true_and, not_false_eq_true, not_or]
      rw [and_assoc]
      exact and_left_comm
  · rw [if_neg h1]
    exact ⟨p, rfl, Pmm.Becomes.same p fun g h => h1 h.1⟩

/-- **`vmm_destroy_context`** frees the pages of the slots, the directory and the context. -/
lemma vmmDestroyContext_ok {c : ℕ} (hc : c < 2 ^ 32) (hd : k.pagedir c < 2 ^ 32) :
    ∃ pmm, vmmDestroyContext k c = .ok { k with pmm }
      ∧ k.pmm.Becomes pmm fun g => ¬ ((∃ i < 1024, slotFrees k c i g)
        ∨ g = k.pagedir c / 4096 ∨ g = c / 4096) ∧ k.pmm.Used g := by
  obtain ⟨p₁, hp₁, hb₁⟩ := foldlM_frees (l := List.range 1024)
    (fun i _ p => destroySlot_ok k c i p) k.pmm
  obtain ⟨p₂, hp₂, hb₂⟩ := pmmFree_ok (p := p₁) hd
  obtain ⟨p₃, hp₃, hb₃⟩ := pmmFree_ok (p := p₂) hc
  refine ⟨p₃, ?_, hb₃.mask.trans (hb₂.mask.trans hb₁.mask), fun g => ?_⟩
  · rw [vmmDestroyContext]
    simp only [hp₁, hp₂, hp₃, ok_bind]
    rfl
  · rw [hb₃.used, hb₂.used, hb₁.used]
    simp only [List.mem_range, not_or]
    exact ⟨fun ⟨h1, h2, h3, hu⟩ => ⟨⟨h3, h2, h1⟩, hu⟩, fun ⟨⟨h3, h2, h1⟩, hu⟩ => ⟨h1, h2, h3, hu⟩⟩

/-! ### The frames of a task -/

/-- The frames that a task owns, as contexts, directories and tables, and those that it maps. -/
def Kernel.Charged (k : Kernel) (t : Fin maxTasks) (f : ℕ) : Prop :=
  (∃ o, o.space = some t ∧ k.Owns o (f * 0x1000))
    ∨ ∃ i j x, k.Maps (some t) i j x ∧ f = base x / 0x1000

/-- What `vmm_destroy_context` frees is what the task is charged with: by the invariant its other
slots are the kernel's, and hold nothing that is not mapped in the kernel. -/
lemma charged_iff (hi : VmmInv lo k) (ht : (k.tasks t).active = true) (f : ℕ) :
    k.Charged t f ↔ (∃ i < 1024, slotFrees k (k.tasks t).context i f)
      ∨ f = k.pagedir (k.tasks t).context / 4096 ∨ f = (k.tasks t).context / 4096 := by
  have hroot : k.Root (some t) (k.tasks t).context := ⟨ht, rfl⟩
  have hpage : ∀ {o p}, k.Owns o p → (f = p / 4096 ↔ p = f * 0x1000) := by
    intro o p hp
    have hal := (hi.owned o p hp).aligned
    omega
  constructor
  · rintro (⟨o, ho, hown⟩ | ⟨i, j, x, ⟨p, hp, hj, rfl, hx⟩, rfl⟩)
    · generalize hpf : f * 0x1000 = p at hown
      have hfp : f = p / 4096 := (hpage hown).mpr hpf.symm
      cases hown with
      | context root =>
        obtain rfl := ho
        exact Or.inr (Or.inr (root.2 ▸ hfp))
      | dir root =>
        obtain rfl := ho
        rw [root.2] at hfp
        exact Or.inr (Or.inl hfp)
      | @table s c i root hlt present own =>
        obtain rfl := ho
        have hno := own.resolve_left (by simp)
        rw [root.2] at hfp present
        exact Or.inl ⟨i, hlt, present, Or.inr ⟨hno, hfp⟩⟩
    · cases hp with
      | table root hlt present own =>
        have hno := own.resolve_left (by simp)
        rw [root.2] at hx present ⊢
        exact Or.inl ⟨i, hlt, present, Or.inl ⟨j, hj, hx, fun h => hno h.1, rfl⟩⟩
  · rintro (⟨i, hlt, hpres, h⟩ | hf | hf)
    · by_cases hk : Present (k.kernelEntry i)
      · have hsync := hi.sync t ht i hlt hk
        rcases h with ⟨j, _, hpj, hno, _⟩ | ⟨hno, _⟩
        · rw [hsync] at hpj
          exact absurd ⟨hk, hpj⟩ hno
        · exact absurd hk hno
      · have htable : k.Owns (.table (some t) i) _ := .table hroot hlt hpres (Or.inr hk)
        rcases h with ⟨j, hj, hpj, _, rfl⟩ | ⟨_, hf⟩
        · exact Or.inr ⟨i, j, _, ⟨_, htable, hj, rfl, hpj⟩, rfl⟩
        · exact Or.inl ⟨_, rfl, (hpage htable).mp hf ▸ htable⟩
    · have hdir : k.Owns (.dir (some t)) _ := .dir hroot
      exact Or.inl ⟨_, rfl, (hpage hdir).mp hf ▸ hdir⟩
    · have hcontext : k.Owns (.context (some t)) _ := .context hroot
      exact Or.inl ⟨_, rfl, (hpage hcontext).mp hf ▸ hcontext⟩

/-! ### `exit_task` -/

/-- The frames of a kernel stack that starts at frame `g`. -/
def StackFrame (g f : ℕ) : Prop := g ≤ f ∧ f < g + kernelStackSizePages

/-- **The effect of `exit_task`** on a task with its kernel stack at frame `g`. -/
structure ExitEffect (k : Kernel) (t : Fin maxTasks) (g : ℕ) (k' : Kernel) : Prop where
  tasks : k'.tasks = Function.update k.tasks t { k.tasks t with active := false, pin := false }
  mem : k'.mem = k.mem
  kernelContext : k'.kernelContext = k.kernelContext
  currentTask : k'.currentTask = k.currentTask
  mask : k'.pmm.bitmapPagetableMask = k.pmm.bitmapPagetableMask
  used : ∀ f, k'.pmm.Used f ↔ k.pmm.Used f ∧ ¬ k.Charged t f ∧ ¬ StackFrame g f

/-- **`exit_task`** of an active task returns. -/
theorem exitTask_ok {g : ℕ} (hi : VmmInv lo k) (ht : (k.tasks t).active = true)
    (hparent : (k.tasks t).parent = -1) (hstack : (k.tasks t).stack = g * 0x1000)
    (hg : g + kernelStackSizePages ≤ frameCount) :
    ∃ k', exitTask k t = .ok k' ∧ ExitEffect k t g k' := by
  set dead : Task := { k.tasks t with active := false, pin := false } with hdead
  set k₁ : Kernel := { k with tasks := Function.update k.tasks t dead } with hk₁
  have hself : k₁.tasks t = dead := Function.update_self t dead k.tasks
  have hroot : k.Root (some t) (k.tasks t).context := ⟨ht, rfl⟩
  obtain ⟨pmm, hdestroy, hb⟩ := vmmDestroyContext_ok (k := k₁)
    (hi.owned _ _ (.context hroot)).below (hi.owned _ _ (.dir hroot)).below
  have hdiv : g * 0x1000 / 4096 = g := Nat.mul_div_cancel _ (by norm_num)
  have hcount : (toInt kernelStackSizePages).toNat = kernelStackSizePages := by decide
  have hroom : g * 0x1000 / 4096 + (toInt kernelStackSizePages).toNat ≤ frameCount := by
    rwa [hdiv, hcount]
  obtain ⟨pmm', hfree, hb'⟩ := pmmFreeRange_ok (p := pmm) hroom
  rw [hdiv, hcount] at hb'
  refine ⟨{ k₁ with pmm := pmm' }, ?_, rfl, rfl, rfl, rfl, hb'.mask.trans hb.mask, fun f => ?_⟩
  · have hend : vmmFree { k₁ with pmm } (g * 0x1000) kernelStackSizePages
        = .ok { k₁ with pmm := pmm' } := by
      rw [vmmFree]
      simp only [hfree, ok_bind]
      rfl
    have hctx : vmmDestroyContext k₁ (k₁.tasks t).context = .ok { k₁ with pmm } := by
      rw [hself]
      exact hdestroy
    have hstack' : (k₁.tasks t).stack = g * 0x1000 := by
      rw [hself]
      exact hstack
    have hparent' : (k₁.tasks t).parent = -1 := by
      rw [hself]
      exact hparent
    have hthen : exitTask k t = vmmDestroyContext k₁ (k₁.tasks t).context >>= fun k =>
        vmmFree k (k.tasks t).stack kernelStackSizePages := if_pos hparent'
    rw [hthen, hctx, ok_bind]
    exact (congrArg (vmmFree { k₁ with pmm } · kernelStackSizePages) hstack').trans hend
  · rw [hb'.used, hb.used, charged_iff hi ht]
    exact ⟨fun ⟨h1, h2, hu⟩ => ⟨hu, h2, h1⟩, fun ⟨hu, h2, h1⟩ => ⟨h1, h2, hu⟩⟩

/-- A frame that tasks may map: not of the pool, and none of the two that guard it. -/
def Mappable (lo f : ℕ) : Prop :=
  ¬ (lo ≤ f ∧ f < lo + pagingDataPages) ∧ f ≠ lo - 1 ∧ f ≠ frameCount - 1

namespace ExitEffect

variable {g : ℕ} (he : ExitEffect k t g k')

include he

/-- The task has no context any more, and the others keep theirs. -/
lemma root (s : Space) (c : ℕ) : k'.Root s c ↔ k.Root s c ∧ s ≠ some t := by
  cases s with
  | none => simp [Kernel.Root, he.kernelContext]
  | some u =>
    by_cases hu : u = t
    · simp [Kernel.Root, he.tasks, hu]
    · simp [Kernel.Root, he.tasks, hu]

lemma entry (c i : ℕ) : k'.entry c i = k.entry c i := by
  rw [Kernel.entry, Kernel.entry, Kernel.pagedir, Kernel.pagedir, he.mem]

lemma kernelEntry (i : ℕ) : k'.kernelEntry i = k.kernelEntry i := by
  rw [Kernel.kernelEntry, Kernel.kernelEntry, he.kernelContext, he.entry]

/-- What the task owned is not owned any more. -/
lemma owns (o : Owner) (p : ℕ) : k'.Owns o p ↔ k.Owns o p ∧ o.space ≠ some t := by
  have hdir : ∀ c, k'.pagedir c = k.pagedir c := fun c => by
    rw [Kernel.pagedir, Kernel.pagedir, he.mem]
  have hown : ∀ s i, k'.OwnSlot s i ↔ k.OwnSlot s i := fun s i => by
    rw [Kernel.OwnSlot, Kernel.OwnSlot, he.kernelEntry]
  constructor
  · intro h
    cases h with
    | context root =>
      obtain ⟨hr, hs⟩ := (he.root _ _).mp root
      exact ⟨.context hr, hs⟩
    | dir root =>
      obtain ⟨hr, hs⟩ := (he.root _ _).mp root
      rw [hdir]
      exact ⟨.dir hr, hs⟩
    | table root lt present own =>
      obtain ⟨hr, hs⟩ := (he.root _ _).mp root
      rw [he.entry] at present ⊢
      exact ⟨.table hr lt present ((hown _ _).mp own), hs⟩
  · rintro ⟨h, hs⟩
    cases h with
    | context root => exact .context ((he.root _ _).mpr ⟨root, hs⟩)
    | dir root =>
      rw [← hdir]
      exact .dir ((he.root _ _).mpr ⟨root, hs⟩)
    | table root lt present own =>
      rw [← he.entry] at present ⊢
      exact .table ((he.root _ _).mpr ⟨root, hs⟩) lt present ((hown _ _).mpr own)

/-- What it mapped is not mapped any more. -/
lemma maps (s : Space) (i j x : ℕ) : k'.Maps s i j x ↔ k.Maps s i j x ∧ s ≠ some t := by
  constructor
  · rintro ⟨p, hp, hrest⟩
    obtain ⟨hp, hs⟩ := (he.owns _ _).mp hp
    rw [he.mem] at hrest
    exact ⟨⟨p, hp, hrest⟩, hs⟩
  · rintro ⟨⟨p, hp, hrest⟩, hs⟩
    rw [← he.mem] at hrest
    exact ⟨p, (he.owns _ _).mpr ⟨hp, hs⟩, hrest⟩

/-- **The invariant after `exit_task`.** -/
lemma inv (hi : VmmInv lo k)
    (hmapped : ∀ i j x, k.Maps (some t) i j x → Mappable lo (base x / 0x1000))
    (hstack : ∀ f, StackFrame g f → Mappable lo f) : VmmInv lo k' := by
  -- the frames that guard the pool are neither owned nor mapped
  have hguard : ∀ f, k.pmm.Used f → ¬ k.pmm.Pool f → ¬ Mappable lo f → k'.pmm.Used f := by
    intro f hu hnp hnm
    refine (he.used f).mpr ⟨hu, ?_, fun h => hnm (hstack f h)⟩
    rintro (⟨o, _, ho⟩ | ⟨i, j, x, hm, rfl⟩)
    · exact hnp (hi.pool_of_owns ho).1
    · exact hnm (hmapped i j x hm)
  have hg := hi.guarded
  refine hi.of_owns (fun _ _ => False) ⟨fun f => ?_, hg.pos, hg.room, ?_, ?_⟩ (fun o p h => ?_)
    (fun _ _ h => h.elim) (fun _ _ _ h => h.elim) ?_
  · rw [Pmm.Pool, he.mask]
    exact hg.pool f
  · have hpos := hg.pos
    refine hguard _ hg.below (fun h => ?_) fun h => h.2.1 rfl
    have := (hg.pool _).mp h
    omega
  · exact hguard _ hg.last hg.stops_last.2 fun h => h.2.2 rfl
  · obtain ⟨hp, hs⟩ := (he.owns o p).mp h
    have hpage := hi.owned o p hp
    refine ⟨Or.inl hp, VmmInv.poolPage_mono hpage he.mask ((he.used _).mpr ⟨hpage.used, ?_, ?_⟩)⟩
    · rintro (⟨o', ho', hown⟩ | ⟨i, j, x, hm, heq⟩)
      · rw [Nat.div_mul_cancel hpage.aligned] at hown
        exact hs (hi.inj o o' p hp hown ▸ ho')
      · exact (hmapped i j x hm).1 (heq ▸ (hg.pool _).mp hpage.pool)
    · exact fun hstk => (hstack _ hstk).1 ((hg.pool _).mp hpage.pool)
  · intro u hu i hlt hpres
    rw [he.kernelEntry] at hpres ⊢
    have hne : u ≠ t := by
      rintro rfl
      rw [he.tasks, Function.update_self] at hu
      cases hu
    have htask : k'.tasks u = k.tasks u := by
      rw [he.tasks, Function.update_of_ne hne]
    rw [he.entry, htask]
    exact hi.sync u (htask ▸ hu) i hlt hpres

end ExitEffect

end MicroOS
