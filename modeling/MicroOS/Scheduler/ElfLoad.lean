import MicroOS.Lib.Paging
import MicroOS.Scheduler.SpawnFrames

/-!
The loading loop of `init_elf`, with the contents of the segments.

* `Kernel.pageFrame`: the frames behind the pages of a context; `pageFrame_map` is what
  `vmm_map_page` does to them.
* `loadContents`: the body of the loop; `loadContents_kernel` says that it is `loadSegment` with the
  stores of `memset` and `memcpy`.
* `fillPage_turn`: what a turn of the inner loop does.
* `Filled`: after the inner loop, the pages of the segment that were not mapped have the new frames,
  and the other new frames are free; `fillPages_filled`, `fillPages_returns`.

The image lies in memory of the kernel, and its bytes are a function: a segment outside the slots
of the kernel does not reach them.
-/

namespace MicroOS

open ByteMem Checked PageEntry Paging

variable {lo : ℕ} {k k' : Kernel} {t : Fin maxTasks} {n f c : ℕ}

/-! ### Pages of a context -/

lemma page_lt (hn : n < frameCount) : n * 0x1000 < 2 ^ 32 := by
  rw [frameCount] at hn
  omega

lemma slot_lt (hn : n < frameCount) : n / 1024 < 1024 := by
  rw [frameCount] at hn
  omega

/-- The frame behind page `n` of a context, as the processor finds it. -/
def Kernel.pageFrame (k : Kernel) (context n : ℕ) : Option ℕ :=
  let table := k.entry context (n / 1024)
  let page := k.mem (base table) (n % 1024)
  if Present table ∧ Present page then some (base page / 0x1000) else none

/-- The physical address behind an address. -/
def Kernel.physical (k : Kernel) (context : ℕ) : ℕ → Option ℕ :=
  translate 0x1000 (k.pageFrame context)

/-- `vmm_lookup` at a page. -/
lemma vmmLookup_page (n c : ℕ) :
    vmmLookup k (n * 0x1000) c = (k.pageFrame c n).elim 0 (· * 0x1000) := by
  have hpage : n * 0x1000 / 0x1000 = n := Nat.mul_div_cancel n (by norm_num)
  rw [vmmLookup, Kernel.pageFrame, pdIndexOf, ptIndexOf, hpage, Nat.mul_mod_left]
  split_ifs with h
  · exact (Nat.div_mul_cancel (dvd_base _)).symm
  · rfl

/-- The pages of the kernel's slots are the same in every task. -/
lemma pageFrame_kernel (hi : VmmInv lo k) (ht : (k.tasks t).active = true) (hn : n < frameCount)
    (hk : Present (k.kernelEntry (n / 1024))) :
    k.pageFrame (k.tasks t).context n = k.pageFrame k.kernelContext n := by
  have hlt := slot_lt hn
  have hentry : k.entry k.kernelContext (n / 1024) = k.kernelEntry (n / 1024) := rfl
  rw [Kernel.pageFrame, Kernel.pageFrame, hi.sync t ht _ hlt hk, hentry]

/-- **A page of a task is mapped** by the task or by the kernel. -/
lemma pageFrame_eq_some (hi : VmmInv lo k) (ht : (k.tasks t).active = true) (hn : n < frameCount) :
    k.pageFrame (k.tasks t).context n = some f
      ↔ ∃ x, (k.Maps (some t) (n / 1024) (n % 1024) x ∨ k.Maps none (n / 1024) (n % 1024) x)
        ∧ base x / 0x1000 = f := by
  have hlt := slot_lt hn
  have hpt : n % 1024 < 1024 := Nat.mod_lt n (by norm_num)
  have hroot : k.Root (some t) (k.tasks t).context := ⟨ht, rfl⟩
  rw [Kernel.pageFrame]
  constructor
  · intro h
    split_ifs at h with hpres
    refine ⟨_, ?_, Option.some.inj h⟩
    by_cases hk : Present (k.kernelEntry (n / 1024))
    · rw [hi.sync t ht _ hlt hk] at hpres ⊢
      exact Or.inr ⟨_, .table rfl hlt hk (Or.inl rfl), hpt, rfl, hpres.2⟩
    · exact Or.inl ⟨_, .table hroot hlt hpres.1 (Or.inr hk), hpt, rfl, hpres.2⟩
  · rintro ⟨x, ⟨p, hp, -, rfl, hx⟩ | ⟨p, hp, -, rfl, hx⟩, rfl⟩
    · cases hp with
      | table root _ present _ =>
        rw [root.2] at present hx ⊢
        rw [if_pos ⟨present, hx⟩]
    · cases hp with
      | @table _ c' _ root _ present _ =>
        obtain rfl : c' = k.kernelContext := root
        have hsync := hi.sync t ht _ hlt present
        rw [Kernel.kernelEntry] at hsync
        rw [hsync, if_pos ⟨present, hx⟩]

/-- In a slot of its own a task sees its own pages. -/
lemma pageFrame_user (hi : VmmInv lo k) (ht : (k.tasks t).active = true) (hn : n < frameCount)
    (hk : ¬ Present (k.kernelEntry (n / 1024))) :
    k.pageFrame (k.tasks t).context n = some f
      ↔ ∃ x, k.Maps (some t) (n / 1024) (n % 1024) x ∧ base x / 0x1000 = f := by
  have hlt := slot_lt hn
  have hno : ∀ x, ¬ k.Maps none (n / 1024) (n % 1024) x := fun x ⟨p, hp, _⟩ =>
    hk ((Kernel.hasTable_none_iff hlt).mp ⟨p, hp⟩)
  rw [pageFrame_eq_some hi ht hn]
  exact exists_congr fun x => and_congr_left fun _ => or_iff_left (hno x)

section MapEffect

variable {v e : ℕ} {fresh : Option ℕ}

/-- A mapping for a task makes no table for the kernel. -/
lemma kernelEntry_map (he : MapEffect lo k (some t) (pdIndexOf v) (ptIndexOf v) e fresh k') {i : ℕ}
    (hi : i < 1024) : Present (k'.kernelEntry i) ↔ Present (k.kernelEntry i) := by
  rw [← Kernel.hasTable_none_iff hi, ← Kernel.hasTable_none_iff hi]
  refine exists_congr fun p => ?_
  rw [he.owns]
  simp [Lost]

/-- **What `vmm_map_page` does to the pages of a task.** -/
lemma pageFrame_map (hi : VmmInv lo k) (ht : (k.tasks t).active = true)
    (hf : f < frameCount)
    (he : MapEffect lo k (some t) (pdIndexOf v) (ptIndexOf v) (f * 0x1000 ||| userFlags) fresh k')
    (hn : n < frameCount) :
    k'.pageFrame (k'.tasks t).context n
      = if n = v / 0x1000 then some f else k.pageFrame (k.tasks t).context n := by
  have ht' : (k'.tasks t).active = true := by rwa [he.tasks]
  have hpres : Present (f * 0x1000 ||| userFlags) := by
    rw [Present, or_and_flag (Dvd.intro_left f rfl) (by decide)]
    decide
  by_cases hpage : n = v / 0x1000
  · subst hpage
    rw [if_pos rfl, pageFrame_eq_some he.inv ht' hn]
    exact ⟨_, Or.inl ((he.maps _ _ _ _).mpr (Or.inl ⟨rfl, rfl, rfl, rfl, hpres⟩)),
      base_frame hf (by decide)⟩
  · have hslot : ¬ (n / 1024 = pdIndexOf v ∧ n % 1024 = ptIndexOf v) := by
      rw [pdIndexOf, ptIndexOf]
      omega
    have hmaps : ∀ s x, (s = some t ∨ s = none) →
        (k'.Maps s (n / 1024) (n % 1024) x ↔ k.Maps s (n / 1024) (n % 1024) x) := by
      intro s x hs
      rw [he.maps]
      refine ⟨fun h => h.elim (fun h => absurd ⟨h.2.1, h.2.2.1⟩ hslot) And.left, fun h =>
        Or.inr ⟨h, fun hc => hslot hc.2, ?_⟩⟩
      rcases hs with rfl | rfl
      · exact fun hl => by cases hl.1
      · exact id
    rw [if_neg hpage]
    refine Option.ext fun g => ?_
    rw [pageFrame_eq_some he.inv ht' hn, pageFrame_eq_some hi ht hn]
    refine exists_congr fun x => and_congr_left fun _ => ?_
    rw [hmaps _ x (Or.inl rfl), hmaps _ x (Or.inr rfl)]

end MapEffect

/-! ### The loop of `init_elf` -/

/-- The bytes of the frames. -/
abbrev Ram := ℕ → UInt8

/-- `elf_program_header`, with the place of the contents in the image. -/
structure ElfSegment extends ElfProgramHeader where
  offset : ℕ
  fileSize : ℕ
  deriving DecidableEq, Repr

/-- An image: its program headers, its bytes, and their number. -/
structure ElfFile where
  segments : List ElfSegment
  contents : ℕ → UInt8
  size : ℕ

/-- `memset(dest, 0, size)` in a context. A page that is not mapped stops the model. -/
def clearBytes (k : Kernel) (context : ℕ) (ram : Ram) (dest size : ℕ) : Except Halt Ram :=
  storeBlock .abort (k.physical context) (fun i => wrap32 (dest + i)) (fun _ => 0) size ram

/-- `memcpy(dest, image + offset, size)` in a context. -/
def copyBytes (k : Kernel) (context : ℕ) (ram : Ram) (dest : ℕ) (contents : ℕ → UInt8)
    (offset size : ℕ) : Except Halt Ram :=
  storeBlock .abort (k.physical context) (fun i => wrap32 (dest + i))
    (fun i => contents (wrap32 (offset + i))) size ram

/-- The body of the loop of `init_elf` over the program headers. -/
def loadContents (context : ℕ) (contents : ℕ → UInt8) (s : Kernel × Ram) (ph : ElfSegment) :
    Except Halt (Kernel × Ram) :=
  if ph.type ≠ 1 then return s
  else do
    let k ← loadSegment context s.1 ph.toElfProgramHeader
    let ram ← clearBytes k context s.2 ph.virtAddr ph.memSize
    let ram ← copyBytes k context ram ph.virtAddr contents ph.offset ph.fileSize
    return (k, ram)

/-- The loop of `init_elf` over the program headers. -/
def ElfFile.load (file : ElfFile) (context : ℕ) (s : Kernel × Ram) : Except Halt (Kernel × Ram) :=
  file.segments.foldlM (loadContents context file.contents) s

section Body

variable {contents : ℕ → UInt8} {ph : ElfSegment} {s s' : Kernel × Ram}

/-- A program header of another type is skipped. -/
lemma loadContents_skip (htype : ph.type ≠ 1) (h : loadContents c contents s ph = .ok s') :
    s' = s := by
  rw [loadContents, if_pos htype] at h
  exact (Except.ok.inj h).symm

/-- What a segment maps and stores. -/
lemma loadContents_stores (htype : ph.type = 1) (h : loadContents c contents s ph = .ok s') :
    loadSegment c s.1 ph.toElfProgramHeader = .ok s'.1 ∧ ∃ ram,
      clearBytes s'.1 c s.2 ph.virtAddr ph.memSize = .ok ram
        ∧ copyBytes s'.1 c ram ph.virtAddr contents ph.offset ph.fileSize = .ok s'.2 := by
  rw [loadContents, if_neg (not_not.mpr htype)] at h
  obtain ⟨q, hq, h⟩ := bind_eq_ok.mp h
  obtain ⟨ram, hclear, h⟩ := bind_eq_ok.mp h
  obtain ⟨ram', hcopy, hret⟩ := bind_eq_ok.mp h
  obtain rfl := Except.ok.inj hret
  exact ⟨hq, ram, hclear, hcopy⟩

/-- What the body does to the kernel is `loadSegment`. -/
lemma loadContents_kernel (h : loadContents c contents s ph = .ok s') :
    loadSegment c s.1 ph.toElfProgramHeader = .ok s'.1 := by
  by_cases htype : ph.type = 1
  · exact (loadContents_stores htype h).1
  · rw [loadContents_skip htype h, loadSegment, if_pos htype]
    rfl

end Body

/-- What the loops do to the kernel does not depend on the contents. -/
lemma foldlM_loadContents_kernel {contents : ℕ → UInt8} {l : List ElfSegment} {s s' : Kernel × Ram}
    (h : l.foldlM (loadContents c contents) s = .ok s') :
    (l.map ElfSegment.toElfProgramHeader).foldlM (loadSegment c) s.1 = .ok s'.1 := by
  induction l generalizing s with
  | nil =>
    obtain rfl := Except.ok.inj h
    rfl
  | cons ph l ih =>
    rw [List.foldlM_cons] at h
    obtain ⟨s₁, h1, h2⟩ := bind_eq_ok.mp h
    rw [List.map_cons, List.foldlM_cons]
    exact bind_eq_ok.mpr ⟨s₁.1, loadContents_kernel h1, ih h2⟩

/-! ### The pages of a segment -/

/-- The address part of an address is its page. -/
lemma base_address {v : ℕ} (hv : v < 2 ^ 32) : base v = v / 0x1000 * 0x1000 := by
  have hmod : v % 0x1000 < 2 ^ 12 := Nat.mod_lt v (by norm_num)
  have hor : v / 0x1000 * 0x1000 ||| v % 0x1000 = v := by
    have hadd := Nat.two_pow_add_eq_or_of_lt hmod (v / 0x1000)
    have hdiv := Nat.div_add_mod v 0x1000
    calc v / 0x1000 * 0x1000 ||| v % 0x1000
        = 0x1000 * (v / 0x1000) ||| v % 0x1000 := by rw [Nat.mul_comm]
      _ = 0x1000 * (v / 0x1000) + v % 0x1000 := hadd.symm
      _ = v := hdiv
  have hbase := base_or (p := v / 0x1000 * 0x1000) (f := v % 0x1000) (Dvd.intro_left _ rfl)
    (by omega) hmod
  rwa [hor] at hbase

/-- A page in a slot of the kernel is mapped by the kernel, and `init_elf` leaves it alone. -/
def PageClear (k : Kernel) (n : ℕ) : Prop :=
  Present (k.kernelEntry (n / 1024)) → vmmLookup k (n * 0x1000) k.kernelContext ≠ 0

instance (k : Kernel) (n : ℕ) : Decidable (PageClear k n) := inferInstanceAs (Decidable (_ → _))

/-- One turn of the loop of `init_elf` over the pages of a segment. -/
def fillPage (context virt phys : ℕ) (k : Kernel) : Except Halt Kernel :=
  if vmmLookup k virt context ≠ 0 then do
    return { k with pmm := ← pmmFree k.pmm phys }
  else mapPage k context virt phys userFlags

/-- **What a turn does** for the page `n` with the frame `f`. -/
structure PageTurn (lo : ℕ) (t : Fin maxTasks) (k : Kernel) (n f : ℕ) (k' : Kernel) : Prop where
  inv : VmmInv lo k'
  same : SameTasks k k'
  kernelContext : k'.kernelContext = k.kernelContext
  slots : ∀ i < 1024, Present (k'.kernelEntry i) ↔ Present (k.kernelEntry i)
  own : vmmLookup k (n * 0x1000) (k.tasks t).context = 0 → ¬ Present (k.kernelEntry (n / 1024))
  pages : ∀ m < frameCount, k'.pageFrame (k.tasks t).context m
    = if m = n ∧ vmmLookup k (n * 0x1000) (k.tasks t).context = 0 then some f
      else k.pageFrame (k.tasks t).context m
  mask : k'.pmm.bitmapPagetableMask = k.pmm.bitmapPagetableMask
  used : ∀ g, ¬ k.pmm.Pool g → (k'.pmm.Used g ↔ k.pmm.Used g
    ∧ ¬ (g = f ∧ vmmLookup k (n * 0x1000) (k.tasks t).context ≠ 0))

/-- **A turn that returns.** -/
lemma fillPage_turn (hi : VmmInv lo k) (ht : (k.tasks t).active = true) (hn : n < frameCount)
    (hf : f < frameCount) (hframe : Mappable lo f)
    (h : fillPage (k.tasks t).context (n * 0x1000) (f * 0x1000) k = .ok k') :
    PageTurn lo t k n f k' := by
  rw [fillPage] at h
  by_cases hmapped : vmmLookup k (n * 0x1000) (k.tasks t).context = 0
  · -- the page is mapped
    rw [if_neg (not_not.mpr hmapped)] at h
    have hpage : n * 0x1000 / 0x1000 = n := Nat.mul_div_cancel _ (by norm_num)
    have hroot : k.Root (some t) (k.tasks t).context := ⟨ht, rfl⟩
    rcases mapPage_effect hi hroot (page_lt hn) (by decide) h with ⟨hal, -⟩ | ⟨-, hown, fresh, he⟩
    · exact absurd ⟨Nat.mul_mod_left _ _, Nat.mul_mod_left _ _⟩ hal
    have hsame := mapPage_same h
    refine ⟨he.inv, hsame, he.kernelContext, fun i => kernelEntry_map he, fun _ => ?_,
      fun m hm => ?_, he.pmm.mask, fun g hg => ?_⟩
    · rw [pdIndexOf, hpage] at hown
      exact hown.resolve_left (by simp)
    · have hmap := pageFrame_map hi ht hf he hm
      rw [hpage, hsame.tasks] at hmap
      rw [hmap]
      exact if_congr (and_iff_left hmapped).symm rfl rfl
    · have hfresh : fresh ≠ some g := fun hc => hg ((he.pmm.free g hc).2.2.mpr rfl)
      rw [he.pmm.used, or_iff_right hfresh, and_iff_left fun hc => hc.2 hmapped]
  · -- the frame is given back
    rw [if_pos hmapped, bind_eq_ok] at h
    obtain ⟨pmm, hfree, hret⟩ := h
    obtain rfl := Except.ok.inj hret
    obtain ⟨p, hp, hb⟩ := pmmFree_ok (p := k.pmm) (page_lt hf)
    obtain rfl : p = pmm := Except.ok.inj (hp.symm.trans hfree)
    rw [Nat.mul_div_cancel _ (by norm_num)] at hb
    refine ⟨hi.of_free hb ?_, ⟨rfl, rfl, rfl⟩, rfl, fun _ _ => Iff.rfl, fun hc => absurd hc hmapped,
      fun m _ => (if_neg fun hc => hmapped hc.2).symm, hb.mask, fun g _ => ?_⟩
    · rintro g rfl
      exact hframe
    · rw [hb.used, and_comm]
      exact and_congr_right fun _ => not_congr (and_iff_left hmapped).symm

/-- **After `j` turns of the loop over pages**, from page `b` on, with the frames from `f` on. -/
structure Filled (lo : ℕ) (t : Fin maxTasks) (k : Kernel) (b f j : ℕ) (q : Kernel) : Prop where
  inv : VmmInv lo q
  same : SameTasks k q
  kernelContext : q.kernelContext = k.kernelContext
  slots : ∀ i < 1024, Present (q.kernelEntry i) ↔ Present (k.kernelEntry i)
  pages : ∀ n < frameCount, q.pageFrame (k.tasks t).context n
    = fill (k.pageFrame (k.tasks t).context) b j f n
  clear : ∀ m < j, PageClear k (b + m)
  mask : q.pmm.bitmapPagetableMask = k.pmm.bitmapPagetableMask
  used : ∀ g, ¬ k.pmm.Pool g → (q.pmm.Used g ↔ k.pmm.Used g
    ∧ ¬ ((f ≤ g ∧ g < f + j) ∧ k.pageFrame (k.tasks t).context (b + (g - f)) ≠ none))

namespace Filled

variable {b j : ℕ} {q q' : Kernel}

/-- Nothing is filled at the start. -/
lemma start (hi : VmmInv lo k) : Filled lo t k b f 0 k :=
  ⟨hi, SameTasks.refl k, rfl, fun _ _ => Iff.rfl, fun _ _ => fill_zero.symm,
    fun _ hm => absurd hm (Nat.not_lt_zero _), rfl,
    fun g _ => (and_iff_left fun hc => by omega).symm⟩

/-- What `vmm_lookup` tells about the next page. -/
lemma lookup_next (h : Filled lo t k b f j q) (hn : b + j < frameCount) :
    vmmLookup q ((b + j) * 0x1000) (k.tasks t).context
      = (k.pageFrame (k.tasks t).context (b + j)).elim 0 (· * 0x1000) := by
  rw [vmmLookup_page, h.pages _ hn, fill_of_keep (Or.inr (by omega))]

/-- In a slot of the kernel the next page is mapped when it is for the kernel. -/
lemma clear_next (hi : VmmInv lo k) (ht : (k.tasks t).active = true) (hn : b + j < frameCount)
    (hk : Present (k.kernelEntry ((b + j) / 1024))) :
    vmmLookup k ((b + j) * 0x1000) k.kernelContext
      = (k.pageFrame (k.tasks t).context (b + j)).elim 0 (· * 0x1000) := by
  rw [vmmLookup_page, pageFrame_kernel hi ht hn hk]

/-- **A turn that returns** fills the next page. -/
lemma step (h : Filled lo t k b f j q) (hi : VmmInv lo k) (ht : (k.tasks t).active = true)
    (hn : b + j < frameCount) (hframe : Mappable lo (f + j)) (hf : f + j < frameCount)
    (hzero : ¬ Present (k.kernelEntry ((b + j) / 1024)) →
      k.pageFrame (k.tasks t).context (b + j) ≠ some 0)
    (hturn : fillPage (k.tasks t).context ((b + j) * 0x1000) ((f + j) * 0x1000) q = .ok q') :
    Filled lo t k b f (j + 1) q' := by
  have ht' : (q.tasks t).active = true := by rwa [h.same.tasks]
  rw [← h.same.tasks] at hturn
  have hp := fillPage_turn h.inv ht' hn hf hframe hturn
  have hown := hp.own
  have hpages := hp.pages
  have hused := hp.used
  rw [h.same.tasks, h.lookup_next hn] at hown hpages hused
  have hpool : ∀ g, q.pmm.Pool g ↔ k.pmm.Pool g := fun g => by rw [Pmm.Pool, Pmm.Pool, h.mask]
  -- the page is not mapped when `vmm_lookup` finds nothing
  have hnone : (k.pageFrame (k.tasks t).context (b + j)).elim 0 (· * 0x1000) = 0
      ↔ k.pageFrame (k.tasks t).context (b + j) = none := by
    constructor
    · intro hlookup
      have hno := mt (h.slots _ (slot_lt hn)).mpr (hown hlookup)
      cases hpage : k.pageFrame (k.tasks t).context (b + j) with
      | none => rfl
      | some g =>
        rw [hpage] at hlookup
        have hg : g * 0x1000 = 0 := hlookup
        obtain rfl : g = 0 := by omega
        exact absurd hpage (hzero hno)
    · intro hpage
      rw [hpage]
      rfl
  rw [hnone] at hown
  simp only [hnone] at hpages
  simp only [ne_eq, hnone] at hused
  have hlast : PageClear k (b + j) := by
    intro hk
    rw [clear_next hi ht hn hk, ne_eq, hnone]
    exact fun hc => hown hc ((h.slots _ (slot_lt hn)).mpr hk)
  refine ⟨hp.inv, h.same.trans hp.same, hp.kernelContext.trans h.kernelContext,
    fun i hi' => (hp.slots i hi').trans (h.slots i hi'), fun n hn' => ?_, fun m hm => ?_,
    hp.mask.trans h.mask, fun g hg => ?_⟩
  · rw [hpages n hn', h.pages n hn']
    by_cases hc : k.pageFrame (k.tasks t).context (b + j) = none
    · rw [fill_succ_of_none hc]
      exact if_congr (and_iff_left hc) rfl rfl
    · rw [fill_succ_of_some hc, if_neg fun h => hc h.2]
  · rcases Nat.lt_succ_iff_lt_or_eq.mp hm with hm | rfl
    · exact h.clear m hm
    · exact hlast
  · rw [hused g (mt (hpool g).mp hg), h.used g hg]
    constructor
    · rintro ⟨⟨hu, hno⟩, hturn⟩
      refine ⟨hu, fun hc => ?_⟩
      by_cases hg' : g = f + j
      · subst hg'
        rw [Nat.add_sub_cancel_left] at hc
        exact hturn ⟨rfl, hc.2⟩
      · exact hno ⟨by omega, hc.2⟩
    · rintro ⟨hu, hno⟩
      refine ⟨⟨hu, fun hc => hno ⟨by omega, hc.2⟩⟩, ?_⟩
      rintro ⟨rfl, hc⟩
      refine hno ⟨by omega, ?_⟩
      rwa [Nat.add_sub_cancel_left]

/-- **A turn returns** when the page is clear, and takes at most one page of the pool. -/
lemma turn_returns {r : ℕ} (h : Filled lo t k b f j q) (hi : VmmInv lo k)
    (ht : (k.tasks t).active = true) (hn : b + j < frameCount) (hf : f + j < frameCount)
    (hclear : PageClear k (b + j)) (hr : q.pmm.Reserve (r + 1)) :
    ∃ q', fillPage (k.tasks t).context ((b + j) * 0x1000) ((f + j) * 0x1000) q = .ok q'
      ∧ q'.pmm.Reserve r := by
  have hlt := slot_lt hn
  have hv := page_lt hn
  rw [fillPage]
  by_cases hmapped : vmmLookup q ((b + j) * 0x1000) (k.tasks t).context = 0
  · rw [if_neg (not_not.mpr hmapped)]
    have hpd : pdIndexOf ((b + j) * 0x1000) = (b + j) / 1024 := by
      rw [pdIndexOf, Nat.mul_div_cancel _ (by norm_num)]
    have hroot : q.Root (some t) (k.tasks t).context := by
      rw [Kernel.Root, h.same.tasks]
      exact ⟨ht, rfl⟩
    have hown : q.OwnSlot (some t) (pdIndexOf ((b + j) * 0x1000)) := by
      refine Or.inr fun hk => ?_
      rw [hpd] at hk
      have hk' := (h.slots _ hlt).mp hk
      have hmiss := hclear hk'
      rw [clear_next hi ht hn hk', ← h.lookup_next hn] at hmiss
      exact hmiss hmapped
    obtain ⟨q', hmap⟩ := mapPage_returns ((f + j) * 0x1000) userFlags h.inv hroot hown
      (Or.inr hr.exists_fits)
    refine ⟨q', hmap, ?_⟩
    rcases mapPage_effect h.inv hroot hv (by decide) hmap with ⟨hal, -⟩ | ⟨-, -, fresh, he⟩
    · exact absurd ⟨Nat.mul_mod_left _ _, Nat.mul_mod_left _ _⟩ hal
    · exact hr.of_grows he.pmm
  · rw [if_pos hmapped]
    have hphys := page_lt hf
    obtain ⟨pmm, hfree, hb⟩ := pmmFree_ok (p := q.pmm) hphys
    refine ⟨{ q with pmm }, by rw [hfree]; rfl, ?_⟩
    exact (hr.of_keep hb.mask fun g hu => Or.inl ((hb.used g).mp hu).2).mono (Nat.le_succ r)

end Filled

/-! ### Segments -/

/-- The page that a segment starts in. -/
def ElfProgramHeader.firstPage (ph : ElfProgramHeader) : ℕ := ph.virtAddr / 0x1000

/-- **What a segment does to the pages and the frames.** -/
structure SegmentFilled (lo : ℕ) (t : Fin maxTasks) (k : Kernel) (ph : ElfProgramHeader) (f : ℕ)
    (k' : Kernel) : Prop where
  inv : VmmInv lo k'
  same : SameTasks k k'
  kernelContext : k'.kernelContext = k.kernelContext
  slots : ∀ i < 1024, Present (k'.kernelEntry i) ↔ Present (k.kernelEntry i)
  run : k.pmm.FreeRun f ph.realSize
  pages : ∀ n < frameCount, k'.pageFrame (k.tasks t).context n
    = fill (k.pageFrame (k.tasks t).context) ph.firstPage ph.realSize f n
  clear : ∀ j < ph.realSize, PageClear k (ph.firstPage + j)
  mask : k'.pmm.bitmapPagetableMask = k.pmm.bitmapPagetableMask
  used : ∀ g, ¬ k.pmm.Pool g → (k'.pmm.Used g ↔ k.pmm.Used g ∨ (f ≤ g ∧ g < f + ph.realSize)
    ∧ k.pageFrame (k.tasks t).context (ph.firstPage + (g - f)) = none)

section Segment

variable {ph : ElfProgramHeader}

lemma realSize_pos (ph : ElfProgramHeader) : 0 < ph.realSize := by
  rw [ElfProgramHeader.realSize]
  omega

/-- Its address has 32 bits, when its pages are in the address space. -/
lemma virtAddr_lt (hroom : ph.firstPage + ph.realSize ≤ frameCount) : ph.virtAddr < 2 ^ 32 := by
  have hpos := realSize_pos ph
  rw [ElfProgramHeader.firstPage, frameCount] at hroom
  omega

/-- `init_elf` takes the first run of frames that fits, and fills the pages of the segment. -/
lemma loadSegment_eq (hi : VmmInv lo k) (hrun : k.pmm.HasRun ph.realSize) (htype : ph.type = 1)
    (hvirt : ph.virtAddr < 2 ^ 32) :
    ∃ f pmm, pmmAllocRange k.pmm ph.realSize = .ok (pmm, f * 0x1000)
      ∧ k.pmm.FreeRun f ph.realSize
      ∧ (k.pmm.Becomes pmm fun g => (f ≤ g ∧ g < f + ph.realSize) ∨ k.pmm.Used g)
      ∧ loadSegment c k ph = (List.range ph.realSize).foldlM
        (fun q j => fillPage c (wrap32 (ph.firstPage * 0x1000 + j * 4096))
          (wrap32 (f * 0x1000 + j * 4096)) q) { k with pmm } := by
  have hpos := realSize_pos ph
  rcases pmmAllocRange_spec hi.guarded (ph.realSize : ℤ) with
    ⟨-, hno⟩ | ⟨f, pmm, hr, -, -, hfree, -, hb⟩
  · obtain ⟨g, hg⟩ := hrun
    exact absurd hg (hno hpos g)
  · refine ⟨f, pmm, hr, hfree, hb, ?_⟩
    rw [loadSegment, if_neg (not_not.mpr htype), hr, base_address hvirt]
    rfl

section Turns

variable {pmm : Pmm} (hi : VmmInv lo k) (ht : (k.tasks t).active = true)
  (hroom : ph.firstPage + ph.realSize ≤ frameCount) (hfree : k.pmm.FreeRun f ph.realSize)
  (hb : k.pmm.Becomes pmm fun g => (f ≤ g ∧ g < f + ph.realSize) ∨ k.pmm.Used g)

include hi ht hroom hfree hb

/-- The loop over the pages of a segment, for calls that return. -/
lemma fillPages_filled (hzero : ∀ n < frameCount, ¬ Present (k.kernelEntry (n / 1024)) →
      k.pageFrame (k.tasks t).context n ≠ some 0)
    (h : (List.range ph.realSize).foldlM
      (fun q j => fillPage (k.tasks t).context (wrap32 (ph.firstPage * 0x1000 + j * 4096))
        (wrap32 (f * 0x1000 + j * 4096)) q) { k with pmm } = .ok k') :
    SegmentFilled lo t k ph f k' := by
  have hpmm : VmmInv lo { k with pmm } := hi.of_becomes hb
  have hrule : Filled lo t { k with pmm } ph.firstPage f ph.realSize k' := by
    refine foldlM_range_rule (fun j q => Filled lo t { k with pmm } ph.firstPage f j q) ?_
      (Filled.start hpmm) h
    intro j q q' hj hq hturn
    have hroomf := hfree.room
    rw [wrap32_page (by omega), wrap32_page (by omega)] at hturn
    exact hq.step hpmm ht (by omega) (hfree.mappable hi.guarded (by omega) (by omega)) (by omega)
      (hzero _ (by omega)) hturn
  refine ⟨hrule.inv, ⟨hrule.same.tasks, hrule.same.currentTask, hrule.same.currentPid⟩,
    hrule.kernelContext, hrule.slots, hfree, hrule.pages, hrule.clear,
    hrule.mask.trans hb.mask, fun g hg => ?_⟩
  have hgpool : ¬ pmm.Pool g := fun hc => hg ((hb.pool g).mp hc)
  rw [hrule.used g hgpool, hb.used]
  constructor
  · rintro ⟨hu | hu, hno⟩
    · exact Or.inr ⟨hu, not_not.mp fun hc => hno ⟨hu, hc⟩⟩
    · exact Or.inl hu
  · rintro (hu | ⟨hu, hnone⟩)
    · exact ⟨Or.inr hu, fun hc => (hfree.free g hc.1.1 hc.1.2).1 hu⟩
    · exact ⟨Or.inl hu, fun hc => hc.2 hnone⟩

/-- The loop over the pages of a segment returns, with enough pages of the pool. -/
lemma fillPages_returns {r : ℕ} (hzero : ∀ n < frameCount, ¬ Present (k.kernelEntry (n / 1024)) →
      k.pageFrame (k.tasks t).context n ≠ some 0)
    (hclear : ∀ j < ph.realSize, PageClear k (ph.firstPage + j))
    (hr : k.pmm.Reserve (ph.realSize + r)) :
    ∃ k', (List.range ph.realSize).foldlM
      (fun q j => fillPage (k.tasks t).context (wrap32 (ph.firstPage * 0x1000 + j * 4096))
        (wrap32 (f * 0x1000 + j * 4096)) q) { k with pmm } = .ok k' ∧ k'.pmm.Reserve r := by
  have hpmm : VmmInv lo { k with pmm } := hi.of_becomes hb
  have hr' : pmm.Reserve (ph.realSize + r) := hr.of_keep hb.mask fun g hu =>
    ((hb.used g).mp hu).symm.imp_right fun hg => (hfree.free g hg.1 hg.2).2
  have hturn : ∀ j q, j < ph.realSize → (Filled lo t { k with pmm } ph.firstPage f j q
        ∧ q.pmm.Reserve (ph.realSize - j + r)) →
      ∃ q', fillPage (k.tasks t).context (wrap32 (ph.firstPage * 0x1000 + j * 4096))
          (wrap32 (f * 0x1000 + j * 4096)) q = .ok q'
        ∧ (Filled lo t { k with pmm } ph.firstPage f (j + 1) q'
          ∧ q'.pmm.Reserve (ph.realSize - (j + 1) + r)) := by
    rintro j q hj ⟨hq, hres⟩
    have hroomf := hfree.room
    rw [show ph.realSize - j + r = ph.realSize - (j + 1) + r + 1 by omega] at hres
    obtain ⟨q', hbody, hres'⟩ := hq.turn_returns hpmm ht (by omega) (by omega) (hclear j hj) hres
    rw [wrap32_page (by omega), wrap32_page (by omega)]
    exact ⟨q', hbody, hq.step hpmm ht (by omega)
      (hfree.mappable hi.guarded (by omega) (by omega)) (by omega) (hzero _ (by omega))
      hbody, hres'⟩
  obtain ⟨k', hloop, -, hres⟩ := foldlM_range_ok _ hturn (s := { k with pmm })
    ⟨Filled.start hpmm, hr'⟩
  rw [Nat.sub_self, Nat.zero_add] at hres
  exact ⟨k', hloop, hres⟩

end Turns

/-- **The pages of a segment**, when there are frames for them. -/
theorem loadSegment_filled (hi : VmmInv lo k) (ht : (k.tasks t).active = true)
    (hrun : k.pmm.HasRun ph.realSize) (htype : ph.type = 1)
    (hroom : ph.firstPage + ph.realSize ≤ frameCount)
    (hzero : ∀ n < frameCount, ¬ Present (k.kernelEntry (n / 1024)) →
      k.pageFrame (k.tasks t).context n ≠ some 0)
    (h : loadSegment (k.tasks t).context k ph = .ok k') :
    ∃ f, SegmentFilled lo t k ph f k' := by
  obtain ⟨f, pmm, -, hfree, hb, heq⟩ :=
    loadSegment_eq (c := (k.tasks t).context) hi hrun htype (virtAddr_lt hroom)
  exact ⟨f, fillPages_filled hi ht hroom hfree hb hzero (heq ▸ h)⟩

/-- **A segment whose pages are clear is loaded.** -/
theorem loadSegment_clear {r : ℕ} (hi : VmmInv lo k) (ht : (k.tasks t).active = true)
    (hrun : k.pmm.HasRun ph.realSize) (htype : ph.type = 1)
    (hroom : ph.firstPage + ph.realSize ≤ frameCount)
    (hzero : ∀ n < frameCount, ¬ Present (k.kernelEntry (n / 1024)) →
      k.pageFrame (k.tasks t).context n ≠ some 0)
    (hclear : ∀ j < ph.realSize, PageClear k (ph.firstPage + j))
    (hr : k.pmm.Reserve (ph.realSize + r)) :
    ∃ k', loadSegment (k.tasks t).context k ph = .ok k' ∧ k'.pmm.Reserve r := by
  obtain ⟨f, pmm, -, hfree, hb, heq⟩ :=
    loadSegment_eq (c := (k.tasks t).context) hi hrun htype (virtAddr_lt hroom)
  rw [heq]
  exact fillPages_returns hi ht hroom hfree hb hzero hclear hr

end Segment

end MicroOS
