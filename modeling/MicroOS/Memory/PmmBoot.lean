import Mathlib.Data.ZMod.Basic
import MicroOS.Memory.PmmRun

/-!
What `pmm_init` does with a memory map.

* `pagesFrom`, `LoopEnds`: the addresses that a loop over pages visits, and when it ends;
  `forPages_eq` and `forPages_ok` say that the loop is one over these addresses.
* `pmmInit_returns_iff`: `pmm_init` returns exactly when all its loops end.
* `PmmBooted`, `pmmInit_booted`: the frames that are free then, and the counter of free memory.
-/

namespace MicroOS

open ByteMem Checked

variable {p p' : Pmm} {body : Pmm → ℕ → Except Halt Pmm} {fuel addr endAddr a f : ℕ}

/-! ### Loops over pages -/

/-- The addresses that a loop over pages visits. -/
def pagesFrom (addr endAddr : ℕ) : List ℕ :=
  (List.range ((endAddr - addr + 0xfff) / 0x1000)).map fun i => addr + i * 0x1000

/-- A loop over pages ends. One that visits the last page wraps around. -/
def LoopEnds (addr endAddr : ℕ) : Prop := endAddr ≤ addr % 0x1000 + 0xfffff000

instance (addr endAddr : ℕ) : Decidable (LoopEnds addr endAddr) :=
  inferInstanceAs (Decidable (_ ≤ _))

lemma pagesFrom_nil (h : endAddr ≤ addr) : pagesFrom addr endAddr = [] := by
  rw [pagesFrom, Nat.sub_eq_zero_of_le h]
  rfl

/-- The first page, and those behind it. -/
lemma pagesFrom_cons (h : addr < endAddr) :
    pagesFrom addr endAddr = addr :: pagesFrom (addr + 0x1000) endAddr := by
  have hcount : (endAddr - addr + 0xfff) / 0x1000
      = (endAddr - (addr + 0x1000) + 0xfff) / 0x1000 + 1 := by omega
  rw [pagesFrom, hcount, List.range_succ_eq_map, List.map_cons, List.map_map, Nat.zero_mul,
    Nat.add_zero, pagesFrom]
  refine congrArg (addr :: ·) (List.map_congr_left fun i _ => ?_)
  simp only [Function.comp_apply]
  omega

/-- The pages from an address on are those of its offset. -/
lemma mem_pagesFrom : a ∈ pagesFrom addr endAddr
    ↔ addr ≤ a ∧ a < endAddr ∧ a % 0x1000 = addr % 0x1000 := by
  rw [pagesFrom, List.mem_map]
  constructor
  · rintro ⟨i, hi, rfl⟩
    rw [List.mem_range] at hi
    omega
  · rintro ⟨h1, h2, h3⟩
    refine ⟨(a - addr) / 0x1000, ?_, ?_⟩
    · rw [List.mem_range]
      omega
    · omega

/-- One turn of a loop over pages. -/
lemma forPages_succ : forPages body (fuel + 1) endAddr addr p
    = if addr < endAddr then body p addr >>= forPages body fuel endAddr (wrap32 (addr + 0x1000))
      else .ok p := by
  rw [forPages, repeatWhile]
  by_cases h : addr < endAddr
  · rw [if_pos (decide_eq_true h), if_pos h]
    cases body p addr with
    | error e => rfl
    | ok q => rfl
  · rw [if_neg (by simpa using h), if_neg h]
    rfl

/-- The next address, before the loop wraps around. -/
lemma LoopEnds.next (h : LoopEnds addr endAddr) (haddr : addr < endAddr) :
    wrap32 (addr + 0x1000) = addr + 0x1000 ∧ LoopEnds (addr + 0x1000) endAddr := by
  rw [LoopEnds] at h
  refine ⟨wrap32_of_lt (by omega), ?_⟩
  rw [LoopEnds]
  omega

/-- **A loop that ends visits its pages**, with enough fuel. -/
lemma forPages_eq (h : LoopEnds addr endAddr) (hfuel : (pagesFrom addr endAddr).length < fuel) :
    forPages body fuel endAddr addr p = (pagesFrom addr endAddr).foldlM body p := by
  induction fuel generalizing addr p with
  | zero => omega
  | succ fuel ih =>
    rw [forPages_succ]
    by_cases hlt : addr < endAddr
    · obtain ⟨hnext, hends⟩ := h.next hlt
      rw [pagesFrom_cons hlt, List.length_cons] at hfuel
      rw [if_pos hlt, pagesFrom_cons hlt, List.foldlM_cons, hnext]
      exact congrArg _ (funext fun q => ih hends (by omega))
    · rw [if_neg hlt, pagesFrom_nil (not_lt.mp hlt)]
      rfl

/-- A loop that returns has visited its pages. -/
lemma forPages_ok (haddr : addr < 2 ^ 32) (h : forPages body fuel endAddr addr p = .ok p') :
    LoopEnds addr endAddr ∧ (pagesFrom addr endAddr).foldlM body p = .ok p' := by
  have hends : LoopEnds addr endAddr := forPages_below haddr h
  refine ⟨hends, ?_⟩
  clear haddr
  induction fuel generalizing addr p with
  | zero => cases h
  | succ fuel ih =>
    rw [forPages_succ] at h
    by_cases hlt : addr < endAddr
    · obtain ⟨hnext, hends⟩ := hends.next hlt
      rw [if_pos hlt, hnext, bind_eq_ok] at h
      obtain ⟨q, hq, h⟩ := h
      rw [pagesFrom_cons hlt, List.foldlM_cons, hq, ok_bind]
      exact ih h hends
    · rw [if_neg hlt] at h
      rw [pagesFrom_nil (not_lt.mp hlt)]
      exact h

/-! ### `pmm_init` over the pages that it visits -/

namespace MultibootMmap

variable (e : MultibootMmap)

/-- `pmm_init` visits the section. -/
def Usable : Prop := e.type = 1 ∧ ¬ e.base > 0xfffff000

instance : Decidable e.Usable := inferInstanceAs (Decidable (_ ∧ _))

/-- Where the loop over the section stops. -/
def stop : ℕ := if e.base + e.length > 0xffffffff then 0xfffff000 else (e.base + e.length).toNat

/-- The addresses that are freed for the section. -/
def visited : List ℕ := if e.Usable then pagesFrom e.base.toNat e.stop else []

/-- The loop over the section ends. -/
def Ends : Prop := e.Usable → LoopEnds e.base.toNat e.stop

variable {e}

/-- A section that is freed begins below the top of the address space. -/
lemma Usable.base_lt (h : e.Usable) : e.base.toNat < 2 ^ 32 := by
  have hle : e.base.toNat ≤ 0xfffff000 := UInt64.le_iff_toNat_le.mp (UInt64.not_lt.mp h.2)
  exact hle.trans_lt (by norm_num)

/-- A section that is freed ends below it, too. -/
lemma stop_lt : e.stop < 2 ^ 32 := by
  rw [stop]
  split_ifs with h
  · norm_num
  · exact Nat.lt_succ_of_le (UInt64.le_iff_toNat_le.mp (UInt64.not_lt.mp h))

/-- The loop of `pmm_init` over a section. -/
lemma freeSection_eq : freeSection fuel p e
    = if e.Usable then forPages pmmFree fuel e.stop e.base.toNat p else .ok p := by
  rw [freeSection]
  by_cases htype : e.type = 1
  · by_cases hbase : e.base > 0xfffff000
    · rw [if_pos htype, if_pos hbase, if_neg fun h : e.Usable => h.2 hbase]
    · have hu : e.Usable := ⟨htype, hbase⟩
      rw [if_pos htype, if_neg hbase, if_pos hu, wrap32_of_lt hu.base_lt, stop]
      by_cases hbig : e.base + e.length > 0xffffffff
      · rw [if_pos hbig, if_pos hbig]
      · -- the 32-bit sum is the 64-bit sum
        have hlt := UInt64.le_iff_toNat_le.mp (UInt64.not_lt.mp hbig)
        have hsum : wrap32 (e.base.toNat + wrap32 e.length.toNat) = (e.base + e.length).toNat := by
          rw [UInt64.toNat_add] at hlt ⊢
          rw [wrap32, wrap32]
          change _ ≤ 2 ^ 32 - 1 at hlt
          omega
        rw [if_neg hbig, if_neg hbig, hsum]
  · rw [if_neg htype, if_neg fun h : e.Usable => htype h.1]

end MultibootMmap

namespace MultibootModule

variable (m : MultibootModule)

/-- The addresses that are marked for the module. -/
def visited : List ℕ := pagesFrom m.modStart.toNat m.modEnd.toNat

/-- The loop over the module ends. -/
def Ends : Prop := LoopEnds m.modStart.toNat m.modEnd.toNat

instance : Decidable m.Ends := inferInstanceAs (Decidable (LoopEnds _ _))

end MultibootModule

namespace MultibootInfo

/-- The addresses that `pmm_init` frees. -/
def freed (mb : MultibootInfo) : List ℕ := mb.mmap.flatMap MultibootMmap.visited

/-- The addresses that `pmm_init` marks for modules. -/
def modPages (mb : MultibootInfo) : List ℕ := mb.mods.flatMap MultibootModule.visited

/-- All loops of `pmm_init` end. -/
structure LoopsEnd (mb : MultibootInfo) : Prop where
  mmap : ∀ e ∈ mb.mmap, e.Ends
  mods : ∀ m ∈ mb.mods, m.Ends

end MultibootInfo

/-- `pmm_init`, with loops over the addresses that are visited. -/
def pmmBoot (L : KernelLayout) (mb : MultibootInfo) : Except Halt Pmm := do
  let p ← mb.freed.foldlM pmmFree ⟨fun _ => 0, fun _ => 0xffffffff, 0, 0⟩
  let p := { p with usedMemory := 0 }
  let p ← (pagesFrom KernelLayout.kernelStart L.kernelEnd).foldlM pmmMarkUsed p
  let p ← (pagesFrom L.pagingStart L.pagingEnd).foldlM maskPage p
  let p ← pmmMarkUsed p mb.addr.toNat
  let p ← pmmMarkUsed p mb.modsAddr.toNat
  let p ← mb.modPages.foldlM pmmMarkUsed p
  pmmMarkUsed p 0

section Boot

variable {L : KernelLayout} {mb : MultibootInfo}

/-- A loop visits no more pages than there are. -/
lemma length_pagesFrom (h : endAddr < 2 ^ 32) :
    (pagesFrom addr endAddr).length ≤ frameCount := by
  rw [pagesFrom, List.length_map, List.length_range, frameCount]
  have hle : endAddr - addr ≤ endAddr := Nat.sub_le _ _
  exact Nat.lt_succ_iff.mp (Nat.div_lt_of_lt_mul (by omega))

/-- The loops over the image and over the pool end. -/
lemma KernelLayout.loopEnds (L : KernelLayout) :
    LoopEnds kernelStart L.kernelEnd ∧ LoopEnds L.pagingStart L.pagingEnd := by
  have hend : L.pagingEnd ≤ 0xfffff000 := by
    have hlt := L.poolFrame_bounds.2
    rw [L.pagingEnd_eq]
    exact Nat.mul_le_mul_right 0x1000 (Nat.le_sub_one_of_lt hlt)
  have hkernel : L.kernelEnd ≤ L.pagingEnd := Nat.le_add_right _ _
  exact ⟨(hkernel.trans hend).trans (Nat.le_add_left _ _), hend.trans (Nat.le_add_left _ _)⟩

/-- **When all loops end**, `pmm_init` visits their pages. -/
lemma pmmInit_eq (h : mb.LoopsEnd) (hfuel : frameCount < fuel) :
    pmmInit fuel L mb = pmmBoot L mb := by
  have hloop : ∀ {body : Pmm → ℕ → Except Halt Pmm} {addr endAddr : ℕ} (p : Pmm),
      endAddr < 2 ^ 32 → LoopEnds addr endAddr →
        forPages body fuel endAddr addr p = (pagesFrom addr endAddr).foldlM body p :=
    fun p hlt hends => forPages_eq hends ((length_pagesFrom hlt).trans_lt hfuel)
  have hmmap : ∀ p : Pmm, mb.mmap.foldlM (freeSection fuel) p = mb.freed.foldlM pmmFree p := by
    intro p
    rw [MultibootInfo.freed, foldlM_flatMap]
    refine foldlM_congr (fun q e he => ?_) p
    rw [MultibootMmap.freeSection_eq, MultibootMmap.visited]
    by_cases hu : e.Usable
    · rw [if_pos hu, if_pos hu]
      exact hloop q MultibootMmap.stop_lt (h.mmap e he hu)
    · rw [if_neg hu, if_neg hu]
      rfl
  have hmods : ∀ p : Pmm, mb.mods.foldlM
      (fun p m => forPages pmmMarkUsed fuel m.modEnd.toNat m.modStart.toNat p) p
        = mb.modPages.foldlM pmmMarkUsed p := by
    intro p
    rw [MultibootInfo.modPages, foldlM_flatMap]
    exact foldlM_congr (fun q m hm => hloop q m.modEnd.toNat_lt (h.mods m hm)) p
  obtain ⟨himage, hpool⟩ := L.loopEnds
  have hend : L.pagingEnd < 2 ^ 32 := L.fits
  have hkernel : L.kernelEnd < 2 ^ 32 := lt_of_le_of_lt (Nat.le_add_right _ _) L.fits
  rw [pmmInit, pmmBoot]
  simp only [hmmap, hmods, hloop _ hkernel himage, hloop _ hend hpool]

/-- **`pmm_init` that returns** has visited its pages, and all its loops have ended. -/
lemma pmmInit_ok (h : pmmInit fuel L mb = .ok p) : mb.LoopsEnd ∧ pmmBoot L mb = .ok p := by
  simp only [pmmInit, bind_eq_ok] at h
  obtain ⟨p₁, h1, p₂, h2, p₃, h3, p₄, h4, p₅, h5, p₆, h6, h7⟩ := h
  have hmmap : (∀ e ∈ mb.mmap, e.Ends) ∧ mb.freed.foldlM pmmFree
      ⟨fun _ => 0, fun _ => 0xffffffff, 0, 0⟩ = .ok p₁ := by
    rw [MultibootInfo.freed, foldlM_flatMap]
    refine foldlM_transfer (fun q e q' _ hq => ?_) h1
    rw [MultibootMmap.freeSection_eq] at hq
    rw [MultibootMmap.visited]
    by_cases hu : e.Usable
    · rw [if_pos hu] at hq ⊢
      obtain ⟨hends, hloop⟩ := forPages_ok hu.base_lt hq
      exact ⟨fun _ => hends, hloop⟩
    · rw [if_neg hu] at hq ⊢
      exact ⟨fun hc => absurd hc hu, hq⟩
  have hmods : (∀ m ∈ mb.mods, m.Ends) ∧ mb.modPages.foldlM pmmMarkUsed p₅ = .ok p₆ := by
    rw [MultibootInfo.modPages, foldlM_flatMap]
    exact foldlM_transfer (fun q m q' _ hq => forPages_ok m.modStart.toNat_lt hq) h6
  have himage := (forPages_ok (by norm_num [KernelLayout.kernelStart]) h2).2
  have hstart : L.pagingStart < 2 ^ 32 := by
    have hle : L.pagingStart ≤ L.pagingEnd := Nat.le_add_right _ _
    exact hle.trans_lt L.fits
  have hpool := (forPages_ok hstart h3).2
  refine ⟨⟨hmmap.1, hmods.1⟩, ?_⟩
  rw [pmmBoot]
  exact bind_eq_ok.mpr ⟨p₁, hmmap.2, bind_eq_ok.mpr ⟨p₂, himage, bind_eq_ok.mpr ⟨p₃, hpool,
    bind_eq_ok.mpr ⟨p₄, h4, bind_eq_ok.mpr ⟨p₅, h5, bind_eq_ok.mpr ⟨p₆, hmods.2, h7⟩⟩⟩⟩⟩⟩

/-! ### Free frames and the counter -/

/-- `free_memory`, modulo `2 ^ 32`. -/
def Pmm.freeBytes (p : Pmm) : ZMod (2 ^ 32) := p.freeMemory

lemma cast_wrap32 (n : ℕ) : ((wrap32 n : ℕ) : ZMod (2 ^ 32)) = n := ZMod.natCast_mod n (2 ^ 32)

/-- So does a difference. -/
lemma cast_sub32 (x y : ℕ) : ((sub32 x y : ℕ) : ZMod (2 ^ 32)) = x - y := by
  have hle : y % 2 ^ 32 ≤ 2 ^ 32 := (Nat.mod_lt y (by norm_num)).le
  rw [sub32, ZMod.natCast_mod, Nat.cast_add, Nat.cast_sub hle, ZMod.natCast_mod,
    ZMod.natCast_self, zero_sub, sub_eq_add_neg]

/-- Frames that are used are taken from the free bytes. -/
lemma freeBytes_use (p : Pmm) (n : ℕ) : (pmmUsageUse p n).freeBytes = p.freeBytes - 4096 * n := by
  rw [pmmUsageUse, Pmm.freeBytes, cast_sub32, cast_wrap32, Nat.cast_mul, mul_comm, Pmm.freeBytes]
  norm_num

/-- Frames that are given back are added to them. -/
lemma freeBytes_unuse (p : Pmm) (n : ℕ) :
    (pmmUsageUnuse p n).freeBytes = p.freeBytes + 4096 * n := by
  rw [pmmUsageUnuse, Pmm.freeBytes, cast_wrap32, Nat.cast_add, Nat.cast_mul, 
    mul_comm (n : ZMod (2 ^ 32)), Pmm.freeBytes]
  norm_num

/-- **`pmm_mark_used`**, with the counter. -/
lemma pmmMarkUsed_counts {page : ℕ} (h : page < 2 ^ 32) : ∃ p', pmmMarkUsed p page = .ok p'
    ∧ (p.Becomes p' fun f => f = page / 4096 ∨ p.Used f)
    ∧ p'.freeBytes = p.freeBytes - 4096 := by
  obtain ⟨map, hmap, hmarked⟩ := bitmapSet_ok p.bitmap (div_lt_frameCount h)
  refine ⟨pmmUsageUse { p with bitmap := map } 1, by rw [pmmMarkUsed, hmap]; rfl,
    ⟨rfl, hmarked⟩, ?_⟩
  rw [freeBytes_use, Nat.cast_one, mul_one]
  rfl

/-- **`pmm_free`**, with the counter. -/
lemma pmmFree_counts {page : ℕ} (h : page < 2 ^ 32) : ∃ p', pmmFree p page = .ok p'
    ∧ (p.Becomes p' fun f => f ≠ page / 4096 ∧ p.Used f)
    ∧ p'.freeBytes = p.freeBytes + 4096 := by
  obtain ⟨map, hmap, hmarked⟩ := bitmapClear_ok p.bitmap (div_lt_frameCount h)
  refine ⟨pmmUsageUnuse { p with bitmap := map } 1, by rw [pmmFree, hmap]; rfl, ⟨rfl, hmarked⟩, ?_⟩
  rw [freeBytes_unuse, Nat.cast_one, mul_one]
  rfl

/-- The frames of addresses. -/
def framesOf (l : List ℕ) : List ℕ := l.map (· / 4096)

@[simp] lemma framesOf_cons (a : ℕ) (l : List ℕ) : framesOf (a :: l) = a / 4096 :: framesOf l := rfl

@[simp] lemma framesOf_append (l l' : List ℕ) :
    framesOf (l ++ l') = framesOf l ++ framesOf l' := List.map_append

lemma mem_framesOf {l : List ℕ} : f ∈ framesOf l ↔ ∃ a ∈ l, a / 4096 = f := List.mem_map

/-- Pages are freed. -/
lemma freeAll {l : List ℕ} (h : ∀ a ∈ l, a < 2 ^ 32) (p : Pmm) : ∃ p', l.foldlM pmmFree p = .ok p'
    ∧ (p.Becomes p' fun f => f ∉ framesOf l ∧ p.Used f)
    ∧ p'.freeBytes = p.freeBytes + 4096 * l.length := by
  induction l generalizing p with
  | nil => exact ⟨p, rfl, ⟨rfl, fun f => by simp [framesOf]⟩, by simp⟩
  | cons a l ih =>
    obtain ⟨ha, hl⟩ := List.forall_mem_cons.mp h
    obtain ⟨q, hq, hb, hcount⟩ := pmmFree_counts (p := p) ha
    obtain ⟨p', hloop, hb', hcount'⟩ := ih hl q
    refine ⟨p', by rw [List.foldlM_cons, hq]; exact hloop, ⟨hb'.mask.trans hb.mask, fun f => ?_⟩,
      ?_⟩
    · rw [hb'.used, hb.used, framesOf_cons, List.mem_cons, not_or]
      tauto
    · rw [hcount', hcount, List.length_cons, Nat.cast_succ]
      ring

/-- Pages are marked. -/
lemma markAll {l : List ℕ} (h : ∀ a ∈ l, a < 2 ^ 32) (p : Pmm) :
    ∃ p', l.foldlM pmmMarkUsed p = .ok p' ∧ (p.Becomes p' fun f => f ∈ framesOf l ∨ p.Used f)
      ∧ p'.freeBytes = p.freeBytes - 4096 * l.length := by
  induction l generalizing p with
  | nil => exact ⟨p, rfl, ⟨rfl, fun f => by simp [framesOf]⟩, by simp⟩
  | cons a l ih =>
    obtain ⟨ha, hl⟩ := List.forall_mem_cons.mp h
    obtain ⟨q, hq, hb, hcount⟩ := pmmMarkUsed_counts (p := p) ha
    obtain ⟨p', hloop, hb', hcount'⟩ := ih hl q
    refine ⟨p', by rw [List.foldlM_cons, hq]; exact hloop, ⟨hb'.mask.trans hb.mask, fun f => ?_⟩,
      ?_⟩
    · rw [hb'.used, hb.used, framesOf_cons, List.mem_cons]
      tauto
    · rw [hcount', hcount, List.length_cons, Nat.cast_succ]
      ring

/-- Pages of the pool are marked in the mask. -/
lemma maskAll {l : List ℕ} (h : ∀ a ∈ l, a < 2 ^ 32) (p : Pmm) : ∃ p', l.foldlM maskPage p = .ok p'
    ∧ p'.bitmap = p.bitmap ∧ p'.freeMemory = p.freeMemory := by
  refine foldlM_ok (fun q : Pmm => q.bitmap = p.bitmap ∧ q.freeMemory = p.freeMemory) ?_ ⟨rfl, rfl⟩
  rintro q a ha ⟨hbitmap, hfree⟩
  obtain ⟨map, hmap, -⟩ := bitmapSet_ok q.bitmapPagetableMask (div_lt_frameCount (h a ha))
  exact ⟨{ q with bitmapPagetableMask := map }, by rw [maskPage, hmap]; rfl, hbitmap, hfree⟩

/-- The addresses that `pmm_init` marks. -/
def MultibootInfo.marks (mb : MultibootInfo) (L : KernelLayout) : List ℕ :=
  pagesFrom KernelLayout.kernelStart L.kernelEnd
    ++ (mb.addr.toNat :: mb.modsAddr.toNat :: (mb.modPages ++ [0]))

/-- **What `pmm_init` leaves**: the frames that were freed and not marked are free, and the counter
has changed with every call. -/
structure PmmBooted (L : KernelLayout) (mb : MultibootInfo) (p : Pmm) : Prop where
  used : ∀ f, p.Used f ↔ f ∉ framesOf mb.freed ∨ f ∈ framesOf (mb.marks L)
  freeBytes : p.freeBytes = 4096 * mb.freed.length - 4096 * (mb.marks L).length

lemma pagesFrom_lt (h : endAddr < 2 ^ 32) : ∀ a ∈ pagesFrom addr endAddr, a < 2 ^ 32 :=
  fun _ ha => (mem_pagesFrom.mp ha).2.1.trans h

/-- The pages that are freed have addresses of 32 bits. -/
lemma MultibootInfo.freed_lt : ∀ a ∈ mb.freed, a < 2 ^ 32 := by
  intro a ha
  obtain ⟨e, -, ha⟩ := List.mem_flatMap.mp ha
  rw [MultibootMmap.visited] at ha
  split_ifs at ha with hu
  · exact pagesFrom_lt MultibootMmap.stop_lt a ha
  · exact absurd ha List.not_mem_nil

/-- So have those of the modules. -/
lemma MultibootInfo.modPages_lt : ∀ a ∈ mb.modPages, a < 2 ^ 32 := by
  intro a ha
  obtain ⟨m, -, ha⟩ := List.mem_flatMap.mp ha
  exact pagesFrom_lt m.modEnd.toNat_lt a ha

/-- **`pmm_init` over the pages that it visits.** -/
lemma pmmBoot_spec (L : KernelLayout) (mb : MultibootInfo) :
    ∃ p, pmmBoot L mb = .ok p ∧ PmmBooted L mb p := by
  have hend : L.pagingEnd < 2 ^ 32 := L.fits
  have hkernel : L.kernelEnd < 2 ^ 32 := lt_of_le_of_lt (Nat.le_add_right _ _) L.fits
  have hall : ∀ f, (⟨fun _ => 0, fun _ => 0xffffffff, 0, 0⟩ : Pmm).Used f :=
    fun _ => BitVec.zero_and
  have hstart : (⟨fun _ => 0, fun _ => 0xffffffff, 0, 0⟩ : Pmm).freeBytes = 0 := Nat.cast_zero
  rw [pmmBoot]
  generalize (⟨fun _ => 0, fun _ => 0xffffffff, 0, 0⟩ : Pmm) = p₀ at hall hstart
  obtain ⟨p₁, h1, hb₁, hc₁⟩ := freeAll mb.freed_lt p₀
  obtain ⟨p₂, h2, hb₂, hc₂⟩ := markAll (pagesFrom_lt hkernel) { p₁ with usedMemory := 0 }
  obtain ⟨p₃, h3, hbitmap, hfree⟩ := maskAll (pagesFrom_lt hend) p₂
  obtain ⟨p₄, h4, hb₄, hc₄⟩ := pmmMarkUsed_counts (p := p₃) mb.addr.toNat_lt
  obtain ⟨p₅, h5, hb₅, hc₅⟩ := pmmMarkUsed_counts (p := p₄) mb.modsAddr.toNat_lt
  obtain ⟨p₆, h6, hb₆, hc₆⟩ := markAll mb.modPages_lt p₅
  obtain ⟨p₇, h7, hb₇, hc₇⟩ := pmmMarkUsed_counts (p := p₆) (show 0 < 2 ^ 32 by norm_num)
  refine ⟨p₇, bind_eq_ok.mpr ⟨p₁, h1, bind_eq_ok.mpr ⟨p₂, h2, bind_eq_ok.mpr ⟨p₃, h3,
    bind_eq_ok.mpr ⟨p₄, h4, bind_eq_ok.mpr ⟨p₅, h5, bind_eq_ok.mpr ⟨p₆, h6, h7⟩⟩⟩⟩⟩⟩,
    fun f => ?_, ?_⟩
  · have hused₁ : p₁.Used f ↔ f ∉ framesOf mb.freed :=
      (hb₁.used f).trans (and_iff_left (hall f))
    have hused₂ : p₂.Used f
        ↔ f ∈ framesOf (pagesFrom KernelLayout.kernelStart L.kernelEnd) ∨ p₁.Used f := hb₂.used f
    have hused₃ : p₃.Used f ↔ p₂.Used f := by rw [Pmm.Used, Pmm.Used, hbitmap]
    rw [hb₇.used, hb₆.used, hb₅.used, hb₄.used, hused₃, hused₂, hused₁, MultibootInfo.marks,
      framesOf_append, framesOf_cons, framesOf_cons, framesOf_append, List.mem_append,
      List.mem_cons, List.mem_cons, List.mem_append]
    have hzero : f ∈ framesOf [0] ↔ f = 0 / 4096 := List.mem_singleton
    rw [hzero]
    simp only [or_assoc, or_comm, or_left_comm]
  · have hfree₃ : p₃.freeBytes = p₂.freeBytes := congrArg Nat.cast hfree
    have hused : ({ p₁ with usedMemory := 0 } : Pmm).freeBytes = p₁.freeBytes := rfl
    rw [hc₇, hc₆, hc₅, hc₄, hfree₃, hc₂, hused, hc₁, hstart, MultibootInfo.marks,
      List.length_append,
      List.length_cons, List.length_cons, List.length_append, List.length_singleton]
    push_cast
    ring

/-- **What `pmm_init` leaves when it returns.** -/
lemma pmmInit_booted (h : pmmInit fuel L mb = .ok p) : mb.LoopsEnd ∧ PmmBooted L mb p := by
  have hok := pmmInit_ok h
  obtain ⟨q, hq, hbooted⟩ := pmmBoot_spec L mb
  cases Except.ok.inj (hq.symm.trans hok.2)
  exact ⟨hok.1, hbooted⟩

/-! ### Termination -/

/-- **`pmm_init` returns, with enough fuel, exactly when all its loops end**: no section below the
top of the address space and no module reaches into the last page behind the last address that its
walk visits there. -/
theorem pmmInit_returns_iff (L : KernelLayout) (mb : MultibootInfo) :
    (∃ p, Settles (fun fuel => pmmInit fuel L mb) p) ↔ mb.LoopsEnd := by
  constructor
  · rintro ⟨p, n, h⟩
    exact (pmmInit_ok (h 0)).1
  · intro h
    obtain ⟨p, hp, -⟩ := pmmBoot_spec L mb
    refine ⟨p, frameCount + 1, fun k => ?_⟩
    change pmmInit (frameCount + 1 + k) L mb = .ok p
    rw [pmmInit_eq h (by omega)]
    exact hp

/-- A section of half a page at the top of the address space. -/
def topInfo : MultibootInfo := ⟨0x9000, [⟨0xfffff000, 0x800, 1⟩], 0xa000, []⟩

/-- `pmm_init` does not return with it: the address wraps around from the last page. -/
theorem pmmInit_topInfo : ¬ ∃ fuel p, pmmInit fuel bootLayout topInfo = .ok p := by
  rintro ⟨fuel, p, h⟩
  have hends := (pmmInit_ok h).1.mmap _ List.mem_cons_self (by decide)
  exact absurd hends (by decide)

end Boot

end MicroOS
