import MicroOS.Memory.PmmBoot

/-!
Which frames are free after `pmm_init`.

* `Walks`: the frames that a loop over pages touches, from its two addresses.
* `MultibootInfo.Frees`, `MultibootInfo.Marks`: what `pmm_init` does to a frame; a frame is free
  afterwards if it is freed and not marked, `PmmBooted.free_iff`.
* `BootFrame` is what a free frame should be, and `PagesCovered` says that the pages at the ends
  of sections, modules and the module list do no harm. `pmmInit_frames_iff` is the equivalence.
-/

namespace MicroOS

open ByteMem Checked

variable {p : Pmm} {L : KernelLayout} {mb : MultibootInfo} {e : MultibootMmap}
  {m : MultibootModule} {fuel addr endAddr f b : ℕ}

/-! ### Frames of a walk -/

/-- The last frame that a loop over pages touches. -/
def lastFrame (addr endAddr : ℕ) : ℕ := addr / 0x1000 + (endAddr - 1 - addr) / 0x1000

/-- A loop over pages touches the frame. -/
def Walks (addr endAddr f : ℕ) : Prop :=
  addr < endAddr ∧ addr / 0x1000 ≤ f ∧ f ≤ lastFrame addr endAddr

instance : Decidable (Walks addr endAddr f) := inferInstanceAs (Decidable (_ ∧ _))

/-- The frames that a loop goes through. -/
lemma mem_framesOf_pagesFrom : f ∈ framesOf (pagesFrom addr endAddr) ↔ Walks addr endAddr f := by
  rw [mem_framesOf, Walks, lastFrame]
  constructor
  · rintro ⟨a, ha, rfl⟩
    have h := mem_pagesFrom.mp ha
    omega
  · rintro ⟨hlt, hlo, hhi⟩
    refine ⟨addr + (f - addr / 0x1000) * 0x1000, mem_pagesFrom.mpr ?_, ?_⟩
    · omega
    · omega

/-- The walk over a byte range misses only the frame of its last byte, and only when that byte
stands earlier in its page than the first one. -/
lemma walks_or_last (h1 : addr ≤ b) (h2 : b < endAddr) (hf : b / 0x1000 = f) :
    Walks addr endAddr f
      ∨ (endAddr - 1) % 0x1000 < addr % 0x1000 ∧ f = (endAddr - 1) / 0x1000 := by
  rw [Walks, lastFrame]
  omega

/-- The walk over a byte range that starts a page touches all its frames. -/
lemma walks_of_aligned (halign : addr % 0x1000 = 0) (h1 : addr ≤ b) (h2 : b < endAddr)
    (hf : b / 0x1000 = f) : Walks addr endAddr f := by
  rw [Walks, lastFrame]
  omega

/-! ### What `pmm_init` does to a frame -/

namespace MultibootInfo

/-- A section's walk frees the frame. -/
def Frees (mb : MultibootInfo) (f : ℕ) : Prop :=
  ∃ e ∈ mb.mmap, e.Usable ∧ Walks e.base.toNat e.stop f

/-- `pmm_init` marks the frame. -/
def Marks (L : KernelLayout) (mb : MultibootInfo) (f : ℕ) : Prop :=
  Walks KernelLayout.kernelStart L.kernelEnd f ∨ f = mb.addr.toNat / 0x1000
    ∨ f = mb.modsAddr.toNat / 0x1000
    ∨ (∃ m ∈ mb.mods, Walks m.modStart.toNat m.modEnd.toNat f) ∨ f = 0

/-- The frames that are freed. -/
lemma mem_framesOf_freed : f ∈ framesOf mb.freed ↔ mb.Frees f := by
  rw [freed, framesOf, List.map_flatMap, List.mem_flatMap, Frees]
  refine exists_congr fun e => and_congr_right fun _ => ?_
  change f ∈ framesOf e.visited ↔ _
  rw [MultibootMmap.visited]
  by_cases hu : e.Usable
  · rw [if_pos hu, mem_framesOf_pagesFrom, and_iff_right hu]
  · rw [if_neg hu]
    exact ⟨fun h => absurd h List.not_mem_nil, fun h => absurd h.1 hu⟩

/-- The frames that are marked as used. -/
lemma mem_framesOf_marks : f ∈ framesOf (mb.marks L) ↔ mb.Marks L f := by
  have hmods : f ∈ framesOf mb.modPages
      ↔ ∃ m ∈ mb.mods, Walks m.modStart.toNat m.modEnd.toNat f := by
    rw [modPages, framesOf, List.map_flatMap, List.mem_flatMap]
    exact exists_congr fun m => and_congr_right fun _ => mem_framesOf_pagesFrom
  have hzero : f ∈ framesOf [0] ↔ f = 0 := List.mem_singleton
  rw [marks, framesOf_append, framesOf_cons, framesOf_cons, framesOf_append, List.mem_append,
    List.mem_cons, List.mem_cons, List.mem_append, mem_framesOf_pagesFrom, hmods, hzero, Marks]

/-- A frame that is freed is one of the memory. -/
lemma Frees.lt (h : mb.Frees f) : f < frameCount := by
  obtain ⟨e, _, _, hwalk⟩ := h
  have hstop := e.stop_lt
  have hlt : f * 0x1000 < e.stop := by
    rw [Walks, lastFrame] at hwalk
    omega
  exact Nat.lt_of_mul_lt_mul_right (a := 0x1000) (hlt.trans hstop)

end MultibootInfo

/-- **The frames that are free after `pmm_init`**: freed and not marked. -/
lemma PmmBooted.free_iff (h : PmmBooted L mb p) : ¬ p.Used f ↔ mb.Frees f ∧ ¬ mb.Marks L f := by
  rw [h.used, MultibootInfo.mem_framesOf_freed, MultibootInfo.mem_framesOf_marks, not_or,
    not_not]

/-! ### Memory that may be handed out -/

/-- The whole frame lies inside the region. -/
def MultibootMmap.Holds (e : MultibootMmap) (f : ℕ) : Prop :=
  e.type = 1 ∧ e.base.toNat ≤ f * 0x1000 ∧ (f + 1) * 0x1000 ≤ e.base.toNat + e.length.toNat

/-- The byte belongs to the list of modules, of 16 bytes each. -/
def MultibootInfo.InList (mb : MultibootInfo) (b : ℕ) : Prop :=
  mb.modsAddr.toNat ≤ b ∧ b < mb.modsAddr.toNat + 16 * mb.mods.length

/-- **A frame that may be handed out.** -/
structure BootFrame (L : KernelLayout) (mb : MultibootInfo) (f : ℕ) : Prop where
  region : ∃ e ∈ mb.mmap, e.Holds f
  image : ∀ b, b / 0x1000 = f → ¬ (KernelLayout.kernelStart ≤ b ∧ b < L.kernelEnd)
  mods : ∀ m ∈ mb.mods, ∀ b, b / 0x1000 = f → ¬ (m.modStart.toNat ≤ b ∧ b < m.modEnd.toNat)
  list : ∀ b, b / 0x1000 = f → ¬ mb.InList b
  nonzero : f ≠ 0

/-- **The pages at the ends do no harm.** The first page of a section that starts inside it, and
the last one of a section that stops inside it, lie in another region or are marked; the last page
of a module that the walk misses, and the pages of the module list behind the first, are not freed
or marked. -/
structure PagesCovered (L : KernelLayout) (mb : MultibootInfo) : Prop where
  first : ∀ e ∈ mb.mmap, e.Usable → e.base.toNat < e.stop → e.base.toNat % 0x1000 ≠ 0 →
    (∃ e' ∈ mb.mmap, e'.Holds (e.base.toNat / 0x1000)) ∨ mb.Marks L (e.base.toNat / 0x1000)
  last : ∀ e ∈ mb.mmap, e.Usable → e.base.toNat < e.stop →
    e.base.toNat + e.length.toNat < (lastFrame e.base.toNat e.stop + 1) * 0x1000 →
    (∃ e' ∈ mb.mmap, e'.Holds (lastFrame e.base.toNat e.stop))
      ∨ mb.Marks L (lastFrame e.base.toNat e.stop)
  mods : ∀ m ∈ mb.mods, m.modStart < m.modEnd →
    (m.modEnd.toNat - 1) % 0x1000 < m.modStart.toNat % 0x1000 →
    mb.Frees ((m.modEnd.toNat - 1) / 0x1000) → mb.Marks L ((m.modEnd.toNat - 1) / 0x1000)
  list : ∀ f, mb.modsAddr.toNat / 0x1000 < f →
    f * 0x1000 < mb.modsAddr.toNat + 16 * mb.mods.length → mb.Frees f → mb.Marks L f

/-- A section that is visited stops where it ends, or before. -/
lemma MultibootMmap.stop_le : e.stop ≤ e.base.toNat + e.length.toNat := by
  rw [stop]
  have hsum : (e.base + e.length).toNat ≤ e.base.toNat + e.length.toNat := by
    rw [UInt64.toNat_add]
    exact Nat.mod_le _ _
  split_ifs with hbig
  · have hlt : 0xffffffff < (e.base + e.length).toNat := UInt64.lt_iff_toNat_lt.mp hbig
    omega
  · exact hsum

/-- A frame that a section's walk frees lies inside it, but for the first and the last one. -/
lemma MultibootMmap.Usable.holds_or (hu : e.Usable) (h : Walks e.base.toNat e.stop f) :
    e.Holds f ∨ (e.base.toNat % 0x1000 ≠ 0 ∧ f = e.base.toNat / 0x1000)
      ∨ (e.base.toNat + e.length.toNat < (f + 1) * 0x1000 ∧ f = lastFrame e.base.toNat e.stop) := by
  have hstop := e.stop_le
  rw [Walks] at h
  rw [MultibootMmap.Holds, and_iff_right hu.1]
  generalize e.base.toNat + e.length.toNat = stop at *
  rw [lastFrame] at *
  omega

section

variable (hboot : PmmBooted L mb p)

include hboot

/-- Where every free frame is one of the map, the pages are covered. -/
lemma PmmBooted.covered (hfree : ∀ f < frameCount, ¬ p.Used f → BootFrame L mb f) :
    PagesCovered L mb := by
  -- a frame that is freed and not marked is one that may be handed out
  have hframe : ∀ f, mb.Frees f → ¬ mb.Marks L f → BootFrame L mb f :=
    fun f hf hm => hfree f hf.lt (hboot.free_iff.mpr ⟨hf, hm⟩)
  have hregion : ∀ f, mb.Frees f → (∃ e ∈ mb.mmap, e.Holds f) ∨ mb.Marks L f := by
    intro f hf
    by_cases hm : mb.Marks L f
    · exact Or.inr hm
    · exact Or.inl (hframe f hf hm).region
  refine ⟨fun e he hu hlt _ => ?_, fun e he hu hlt _ => ?_, fun m hm hlt hmod hf => ?_,
    fun f hlo hhi hf => ?_⟩
  · exact hregion _ ⟨e, he, hu, hlt, le_rfl, Nat.le_add_right _ _⟩
  · exact hregion _ ⟨e, he, hu, hlt, Nat.le_add_right _ _, le_rfl⟩
  · by_contra hmark
    have hlt' : m.modStart.toNat < m.modEnd.toNat := hlt
    exact (hframe _ hf hmark).mods m hm (m.modEnd.toNat - 1) rfl ⟨by omega, by omega⟩
  · by_contra hmark
    refine (hframe _ hf hmark).list (f * 0x1000) (Nat.mul_div_cancel f (by norm_num)) ⟨?_, hhi⟩
    omega

/-- **Where the pages are covered**, every free frame is one of the map. -/
lemma PmmBooted.bootFrame (hcovered : PagesCovered L mb) (hf : ¬ p.Used f) :
    BootFrame L mb f := by
  obtain ⟨hfreed, hmark⟩ := hboot.free_iff.mp hf
  refine ⟨?_, fun b hb hin => ?_, fun m hm b hb hin => ?_, fun b hb hin => ?_, fun h0 => ?_⟩
  · obtain ⟨e, he, hu, hwalk⟩ := hfreed
    rcases hu.holds_or hwalk with hin | ⟨hmod, rfl⟩ | ⟨hout, rfl⟩
    · exact ⟨e, he, hin⟩
    · exact (hcovered.first e he hu hwalk.1 hmod).resolve_right hmark
    · exact (hcovered.last e he hu hwalk.1 hout).resolve_right hmark
  · exact hmark (Or.inl (walks_of_aligned rfl hin.1 hin.2 hb))
  · rcases walks_or_last hin.1 hin.2 hb with hwalk | ⟨hmod, rfl⟩
    · exact hmark (Or.inr (Or.inr (Or.inr (Or.inl ⟨m, hm, hwalk⟩))))
    · exact hmark (hcovered.mods m hm (hin.1.trans_lt hin.2) hmod hfreed)
  · -- the first page of the list is marked
    have hne : f ≠ mb.modsAddr.toNat / 0x1000 := fun h => hmark (Or.inr (Or.inr (Or.inl h)))
    rw [MultibootInfo.InList] at hin
    exact hmark (hcovered.list f (by omega) (by omega) hfreed)
  · exact hmark (Or.inr (Or.inr (Or.inr (Or.inr h0))))

end

/-- **Boot memory is not free after `pmm_init`, exactly when the pages at the ends are covered.** -/
theorem pmmInit_frames_iff (h : pmmInit fuel L mb = .ok p) :
    (∀ f < frameCount, ¬ p.Used f → BootFrame L mb f) ↔ PagesCovered L mb :=
  ⟨(pmmInit_booted h).2.covered, fun hc _ _ hf => (pmmInit_booted h).2.bootFrame hc hf⟩

/-- `pmm_init` returns, with enough fuel, when its loops end. -/
lemma pmmInit_exists (h : mb.LoopsEnd) :
    ∃ p, pmmInit (frameCount + 1) L mb = .ok p ∧ PmmBooted L mb p := by
  obtain ⟨p, hp, hboot⟩ := pmmBoot_spec L mb
  exact ⟨p, (pmmInit_eq h (Nat.lt_succ_self _)).trans hp, hboot⟩

/-- With a section of four frames, every free frame is one of the map. -/
theorem pmmInit_frames_iff_boot : ∃ fuel p, pmmInit fuel bootLayout bootInfo = .ok p
    ∧ ∀ f < frameCount, ¬ p.Used f → BootFrame bootLayout bootInfo f := by
  have hends : bootInfo.LoopsEnd := by
    refine ⟨fun e he _ => ?_, fun m hm => absurd hm List.not_mem_nil⟩
    cases List.mem_singleton.mp he
    decide
  obtain ⟨p, hp, -⟩ := pmmInit_exists (L := bootLayout) hends
  refine ⟨_, p, hp, (pmmInit_frames_iff hp).mpr ⟨?_, ?_, ?_, fun f hlo hhi _ => ?_⟩⟩
  · intro e he _ _ hmod
    cases List.mem_singleton.mp he
    exact absurd rfl hmod
  · intro e he _ _ hout
    cases List.mem_singleton.mp he
    exact absurd hout (by decide)
  · exact fun m hm => absurd hm List.not_mem_nil
  · change 10 < f at hlo
    change f * 0x1000 < 0xa000 at hhi
    omega

/-- A module of less than a page that crosses a page boundary. -/
def straddleInfo : MultibootInfo :=
  ⟨0x9000, [⟨0x400000, 0x4000, 1⟩], 0xa000, [⟨0x400800, 0x401400⟩]⟩

/-- The second page of the module is free after `pmm_init`. -/
theorem pmmInit_straddleInfo : ∃ fuel p, pmmInit fuel bootLayout straddleInfo = .ok p
    ∧ 0x401 < frameCount ∧ ¬ p.Used 0x401 ∧ ¬ BootFrame bootLayout straddleInfo 0x401 := by
  have hends : straddleInfo.LoopsEnd := by
    refine ⟨fun e he _ => ?_, fun m hm => ?_⟩
    · cases List.mem_singleton.mp he
      decide
    · cases List.mem_singleton.mp hm
      decide
  obtain ⟨p, hp, hboot⟩ := pmmInit_exists (L := bootLayout) hends
  refine ⟨_, p, hp, by norm_num [frameCount], hboot.free_iff.mpr ⟨?_, ?_⟩, fun hframe => ?_⟩
  · exact ⟨_, List.mem_cons_self, by decide, by decide⟩
  · rintro (hwalk | heq | heq | ⟨m, hm, hwalk⟩ | heq)
    · exact absurd hwalk (by decide)
    · exact absurd heq (by decide)
    · exact absurd heq (by decide)
    · cases List.mem_singleton.mp hm
      exact absurd hwalk (by decide)
    · exact absurd heq (by decide)
  · exact hframe.mods _ List.mem_cons_self 0x401000 rfl (by decide)

end MicroOS
