import MicroOS.Memory.Pmm

/-!
What the functions of the physical memory manager do to the set of frames in use.

* `bitmapSet_ok`, `bitmapClear_ok`, `bitmapTest_ok`: the three accesses, below `frameCount`.
* `pmmMarkUsed_ok`, `pmmFree_ok`, `allocFrame_spec`, `pmmFreeRange_ok`.
* `pmmAllocRange_cases`: what a range becomes when the frame below the pool is in use; the scan may
  run past the end. `Guarded` says where the pool lies and which frames around it are in use; under
  it `pmmAllocRange_spec` shows that a range neither reaches into the pool nor past the end.
* `firstFit_iff`: when `pmm_alloc_range` is first fit.
-/

namespace MicroOS

open ByteMem Checked

/-- The number of frames the bitmaps describe. -/
def frameCount : ℕ := 2 ^ 20

/-! ### Bits -/

/-- The mask of a bit has one bit set. -/
lemma bitmapBit_eq (bit : ℕ) : bitmapBit bit = BitVec.twoPow 32 (31 - bit % 32) := by
  have hshift : ∀ k < 32, 0b10000000000000000000000000000000#32 >>> k
      = BitVec.twoPow 32 (31 - k) := by decide
  exact hshift _ (Nat.mod_lt _ (by norm_num))

namespace Bitmap

variable {map : Bitmap} {b bit : ℕ}

/-- A marked bit, as a bit. -/
lemma marked_iff : map.Marked bit ↔ (map (bit / 32)).getLsbD (31 - bit % 32) = false := by
  rw [Marked, bitmapBit_eq, BitVec.and_twoPow]
  have hne : BitVec.twoPow 32 (31 - bit % 32) ≠ 0 := by
    have : ∀ k < 32, BitVec.twoPow 32 (31 - k) ≠ 0 := by decide
    exact this _ (Nat.mod_lt _ (by norm_num))
  cases hb : (map (bit / 32)).getLsbD (31 - bit % 32) with
  | true => simpa using hne
  | false => simp

/-- Clearing a bit of a word marks its frame, and no other. -/
lemma marked_and_not : Marked (Function.update map (bit / 32)
    (map (bit / 32) &&& ~~~(bitmapBit bit))) b ↔ b = bit ∨ map.Marked b := by
  rw [marked_iff, marked_iff, bitmapBit_eq]
  by_cases hw : b / 32 = bit / 32
  · have hbit : 31 - bit % 32 = 31 - b % 32 ↔ b = bit := by omega
    rw [hw, Function.update_self, BitVec.getLsbD_and, BitVec.getLsbD_not, BitVec.getLsbD_twoPow]
    by_cases heq : b = bit
    · simp [heq, show 31 - bit % 32 < 32 by omega]
    · simp [heq, mt hbit.mp heq, show 31 - b % 32 < 32 by omega]
  · rw [Function.update_of_ne hw]
    have hne : b ≠ bit := fun h => hw (by rw [h])
    simp [hne]

/-- Setting a bit takes the mark of its frame away, and no other. -/
lemma marked_or : Marked (Function.update map (bit / 32)
    (map (bit / 32) ||| bitmapBit bit)) b ↔ b ≠ bit ∧ map.Marked b := by
  rw [marked_iff, marked_iff, bitmapBit_eq]
  by_cases hw : b / 32 = bit / 32
  · have hbit : 31 - bit % 32 = 31 - b % 32 ↔ b = bit := by omega
    rw [hw, Function.update_self, BitVec.getLsbD_or, BitVec.getLsbD_twoPow]
    by_cases heq : b = bit
    · simp [heq, show 31 - bit % 32 < 32 by omega]
    · simp [heq, mt hbit.mp heq]
  · rw [Function.update_of_ne hw]
    have hne : b ≠ bit := fun h => hw (by rw [h])
    simp [hne]

end Bitmap

section Accesses

variable (map : Bitmap) {bit : ℕ} (hbit : bit < frameCount)

include hbit

/-- The word of a frame is in the bitmap. -/
lemma div_lt_bitmapSize : bit / 32 < bitmapSize := by
  rw [frameCount] at hbit
  rw [bitmapSize]
  omega

/-- **`bitmap_set`** of a frame of the memory marks it. -/
lemma bitmapSet_ok : ∃ map', bitmapSet map bit = .ok map'
    ∧ ∀ b, map'.Marked b ↔ b = bit ∨ map.Marked b :=
  ⟨_, if_pos (div_lt_bitmapSize hbit), fun _ => Bitmap.marked_and_not⟩

/-- **`bitmap_clear`** takes its mark away. -/
lemma bitmapClear_ok : ∃ map', bitmapClear map bit = .ok map'
    ∧ ∀ b, map'.Marked b ↔ b ≠ bit ∧ map.Marked b :=
  ⟨_, if_pos (div_lt_bitmapSize hbit), fun _ => Bitmap.marked_or⟩

lemma bitmapTest_ok : bitmapTest map bit = .ok (decide (map.Marked bit)) :=
  if_pos (div_lt_bitmapSize hbit)

end Accesses

/-! ### Single frames -/

/-- The frame is in use. -/
def Pmm.Used (p : Pmm) (f : ℕ) : Prop := p.bitmap.Marked f

/-- The frame belongs to the page-table pool. -/
def Pmm.Pool (p : Pmm) (f : ℕ) : Prop := p.bitmapPagetableMask.Marked f

instance (p : Pmm) (f : ℕ) : Decidable (p.Used f) := inferInstanceAs (Decidable (_ = _))

instance (p : Pmm) (f : ℕ) : Decidable (p.Pool f) := inferInstanceAs (Decidable (_ = _))

lemma div_lt_frameCount {page : ℕ} (h : page < 2 ^ 32) : page / 4096 < frameCount := by
  rw [frameCount]
  omega

variable {p p' : Pmm}

/-- What a call that changes the frames in use leaves alone, and what it makes of them. -/
structure Pmm.Becomes (p p' : Pmm) (used : ℕ → Prop) : Prop where
  mask : p'.bitmapPagetableMask = p.bitmapPagetableMask
  used : ∀ f, p'.Used f ↔ used f

lemma Pmm.Becomes.pool {used : ℕ → Prop} (h : p.Becomes p' used) (f : ℕ) :
    p'.Pool f ↔ p.Pool f := by
  rw [Pmm.Pool, Pmm.Pool, h.mask]

/-- **`pmm_mark_used`.** -/
lemma pmmMarkUsed_ok {page : ℕ} (h : page < 2 ^ 32) :
    ∃ p', pmmMarkUsed p page = .ok p' ∧ p.Becomes p' fun f => f = page / 4096 ∨ p.Used f := by
  obtain ⟨map, hmap, hmarked⟩ := bitmapSet_ok p.bitmap (div_lt_frameCount h)
  exact ⟨pmmUsageUse { p with bitmap := map } 1, by rw [pmmMarkUsed, hmap]; rfl, rfl, hmarked⟩

/-- **`pmm_free`.** -/
lemma pmmFree_ok {page : ℕ} (h : page < 2 ^ 32) :
    ∃ p', pmmFree p page = .ok p' ∧ p.Becomes p' fun f => f ≠ page / 4096 ∧ p.Used f := by
  obtain ⟨map, hmap, hmarked⟩ := bitmapClear_ok p.bitmap (div_lt_frameCount h)
  exact ⟨pmmUsageUnuse { p with bitmap := map } 1, by rw [pmmFree, hmap]; rfl, rfl, hmarked⟩

/-- `pmm_free` returns for an address of 32 bits only. -/
lemma pmmFree_lt {page : ℕ} (h : pmmFree p page = .ok p') : page < 2 ^ 32 := by
  obtain ⟨map, hmap, -⟩ := bind_eq_ok.mp h
  rw [bitmapClear] at hmap
  split_ifs at hmap with hlt
  rw [bitmapSize] at hlt
  omega

/-- A frame that `pmm_alloc` or `pmm_alloc_pagetable` may hand out. -/
def Pmm.Fits (p : Pmm) (inPool : Bool) (f : ℕ) : Prop := ¬ p.Used f ∧ (p.Pool f ↔ inPool = true)

/-- **The search for a frame** finds one that fits, or there is none. -/
lemma findFrame_spec (inPool : Bool) {n i : ℕ} (hn : i + n ≤ frameCount) :
    (findFrame p inPool n i = .ok none ∧ ∀ f, i ≤ f → f < i + n → ¬ p.Fits inPool f)
    ∨ ∃ f, findFrame p inPool n i = .ok (some f) ∧ i ≤ f ∧ f < i + n ∧ p.Fits inPool f
      ∧ ∀ g, i ≤ g → g < f → ¬ p.Fits inPool g := by
  induction n generalizing i with
  | zero => exact Or.inl ⟨rfl, fun f h1 h2 => by omega⟩
  | succ n ih =>
    have hi : i < frameCount := by omega
    have hstep : findFrame p inPool (n + 1) i
        = if !decide (p.Used i) && (decide (p.Pool i) == inPool) then .ok (some i)
          else findFrame p inPool n (i + 1) := by
      simp only [findFrame, bitmapTest_ok _ hi, ok_bind]
      change (if (!decide (p.Used i)) = true then
          (if decide (p.Pool i) = inPool then _ else _) else _) = _
      cases hu : decide (p.Used i) <;> cases hp : decide (p.Pool i) <;> cases inPool <;> rfl
    have hfits : (!decide (p.Used i) && (decide (p.Pool i) == inPool)) = true
        ↔ p.Fits inPool i := by
      cases inPool <;> simp [Pmm.Fits]
    rw [hstep]
    by_cases hf : p.Fits inPool i
    · rw [if_pos (hfits.mpr hf)]
      exact Or.inr ⟨i, rfl, le_rfl, by omega, hf, fun g h1 h2 => by omega⟩
    · rw [if_neg (mt hfits.mp hf)]
      have hsplit : ∀ g, i ≤ g → g ≠ i → i + 1 ≤ g := fun g h1 h2 => by omega
      rcases @ih (i + 1) (by omega) with ⟨h1, h2⟩ | ⟨f, h1, h2, h3, h4, h5⟩
      · refine Or.inl ⟨h1, fun g hg1 hg2 => ?_⟩
        by_cases hgi : g = i
        · exact hgi ▸ hf
        · exact h2 g (hsplit g hg1 hgi) (by omega)
      · refine Or.inr ⟨f, h1, by omega, by omega, h4, fun g hg1 hg2 => ?_⟩
        by_cases hgi : g = i
        · exact hgi ▸ hf
        · exact h5 g (hsplit g hg1 hgi) hg2

/-- **`pmm_alloc` and `pmm_alloc_pagetable`** hand out the first frame that fits. -/
lemma allocFrame_spec (p : Pmm) (inPool : Bool) :
    (allocFrame inPool p = .error .abort ∧ ∀ f < frameCount, ¬ p.Fits inPool f)
    ∨ ∃ f p', allocFrame inPool p = .ok (p', f * 0x1000) ∧ f < frameCount ∧ p.Fits inPool f
      ∧ (∀ g < f, ¬ p.Fits inPool g) ∧ p.Becomes p' fun g => g = f ∨ p.Used g := by
  have hcount : 0 + bitmapSize * 32 ≤ frameCount := by
    rw [bitmapSize, frameCount]
    norm_num
  rcases findFrame_spec (p := p) inPool hcount with ⟨h1, h2⟩ | ⟨f, h1, _, h3, h4, h5⟩
  · refine Or.inl ⟨by rw [allocFrame, h1]; rfl, fun f hf => h2 f (Nat.zero_le f) ?_⟩
    rw [bitmapSize, Nat.zero_add]
    rw [frameCount] at hf
    omega
  · have hf : f < frameCount := by omega
    obtain ⟨map, hmap, hmarked⟩ := bitmapSet_ok p.bitmap hf
    refine Or.inr ⟨f, pmmUsageUse { p with bitmap := map } 1, ?_, hf, h4,
      fun g hg => h5 g (Nat.zero_le g) hg, rfl, hmarked⟩
    rw [allocFrame, h1, ok_bind]
    simp only [hmap, ok_bind]
    rfl

/-! ### Ranges -/

/-- A run of frames is marked. -/
lemma bitmapFill_set {n i : ℕ} (map : Bitmap) (hn : i + n ≤ frameCount) :
    ∃ map', bitmapFill bitmapSet n i map = .ok map'
      ∧ ∀ b, map'.Marked b ↔ (i ≤ b ∧ b < i + n) ∨ map.Marked b := by
  induction n generalizing i map with
  | zero => exact ⟨map, rfl, fun b => by simp⟩
  | succ n ih =>
    obtain ⟨map₁, h1, hm₁⟩ := bitmapSet_ok map (show i < frameCount by omega)
    obtain ⟨map₂, h2, hm₂⟩ := @ih (i + 1) map₁ (by omega)
    refine ⟨map₂, by rw [bitmapFill, h1]; exact h2, fun b => ?_⟩
    have hcut : i ≤ b ∧ b < i + (n + 1) ↔ (i + 1 ≤ b ∧ b < i + 1 + n) ∨ b = i := by omega
    rw [hm₂, hm₁, hcut, or_assoc]

/-- The marks of a run of frames are taken away. -/
lemma bitmapFill_clear {n i : ℕ} (map : Bitmap) (hn : i + n ≤ frameCount) :
    ∃ map', bitmapFill bitmapClear n i map = .ok map'
      ∧ ∀ b, map'.Marked b ↔ ¬ (i ≤ b ∧ b < i + n) ∧ map.Marked b := by
  induction n generalizing i map with
  | zero => exact ⟨map, rfl, fun b => ⟨fun h => ⟨by omega, h⟩, fun h => h.2⟩⟩
  | succ n ih =>
    obtain ⟨map₁, h1, hm₁⟩ := bitmapClear_ok map (show i < frameCount by omega)
    obtain ⟨map₂, h2, hm₂⟩ := @ih (i + 1) map₁ (by omega)
    refine ⟨map₂, by rw [bitmapFill, h1]; exact h2, fun b => ?_⟩
    have hcut : ¬ (i ≤ b ∧ b < i + (n + 1)) ↔ ¬ (i + 1 ≤ b ∧ b < i + 1 + n) ∧ b ≠ i := by omega
    rw [hm₂, hm₁, hcut, and_assoc]

/-- **`pmm_free_range`.** -/
lemma pmmFreeRange_ok {page : ℕ} {count : ℤ} (h : page / 4096 + count.toNat ≤ frameCount) :
    ∃ p', pmmFreeRange p page count = .ok p' ∧ p.Becomes p' fun f =>
      ¬ (page / 4096 ≤ f ∧ f < page / 4096 + count.toNat) ∧ p.Used f := by
  obtain ⟨map, hmap, hmarked⟩ := bitmapFill_clear p.bitmap h
  exact ⟨pmmUsageUnuse { p with bitmap := map } (amountOf count),
    by rw [pmmFreeRange, hmap]; rfl, rfl, hmarked⟩

lemma bitmapFill_clear_le {n i : ℕ} {map map' : Bitmap}
    (h : bitmapFill bitmapClear n i map = .ok map') : n = 0 ∨ i + n ≤ frameCount := by
  induction n generalizing i map with
  | zero => exact Or.inl rfl
  | succ n ih =>
    obtain ⟨map₁, h1, h2⟩ := bind_eq_ok.mp h
    rw [bitmapClear] at h1
    split_ifs at h1 with hlt
    rw [bitmapSize] at hlt
    rw [frameCount] at ih ⊢
    rcases ih h2 with rfl | hle
    · omega
    · omega

/-- `pmm_free_range` returns for frames that the bitmap has only. -/
lemma pmmFreeRange_le {page : ℕ} {count : ℤ} (hcount : 0 < count)
    (h : pmmFreeRange p page count = .ok p') : page / 4096 + count.toNat ≤ frameCount := by
  obtain ⟨map, hmap, -⟩ := bind_eq_ok.mp h
  exact (bitmapFill_clear_le hmap).resolve_left (by omega)

/-- **Where the pool lies**, and the frames in use around it that stop a range. -/
structure Pmm.Guarded (p : Pmm) (lo : ℕ) : Prop where
  pool : ∀ f, p.Pool f ↔ lo ≤ f ∧ f < lo + pagingDataPages
  pos : 0 < lo
  room : lo + pagingDataPages < frameCount
  below : p.Used (lo - 1)
  last : p.Used (frameCount - 1)

/-- Frames that come into use leave the pool guarded. -/
lemma Pmm.Guarded.of_becomes {lo : ℕ} {extra : ℕ → Prop} (hg : p.Guarded lo)
    (hb : p.Becomes p' fun f => extra f ∨ p.Used f) : p'.Guarded lo :=
  ⟨fun f => (hb.pool f).trans (hg.pool f), hg.pos, hg.room, (hb.used _).mpr (Or.inr hg.below),
    (hb.used _).mpr (Or.inr hg.last)⟩

/-- A run of free frames outside the pool. -/
structure Pmm.FreeRun (p : Pmm) (f n : ℕ) : Prop where
  room : f + n ≤ frameCount
  free : ∀ g, f ≤ g → g < f + n → ¬ p.Used g ∧ ¬ p.Pool g

/-- A frame that ends a range. -/
def Pmm.Stops (p : Pmm) (f : ℕ) : Prop := p.Used f ∧ ¬ p.Pool f

instance (p : Pmm) (f : ℕ) : Decidable (p.Stops f) := inferInstanceAs (Decidable (_ ∧ _))

/-- The frame just below each block of frames of the pool is in use. -/
def Pmm.PoolFenced (p : Pmm) : Prop :=
  ∀ f, 0 < f → f < frameCount → p.Pool f → ¬ p.Pool (f - 1) → p.Used (f - 1)

/-- A range that starts outside the pool and meets no frame that stops it is free. -/
lemma Pmm.PoolFenced.freeRun (hfence : p.PoolFenced) {i n : ℕ} (hi : ¬ p.Pool i)
    (hroom : i + n ≤ frameCount) (hn : ∀ g, i ≤ g → g < i + n → ¬ p.Stops g) :
    p.FreeRun i n := by
  -- the first frame of the pool would come right behind one that stops the range
  have hpool : ∀ d < n, ¬ p.Pool (i + d) := by
    intro d hd
    induction d with
    | zero => exact hi
    | succ d ih =>
      intro hp
      have hlast := ih (Nat.lt_of_succ_lt hd)
      exact hn (i + d) (Nat.le_add_right _ _) (by omega)
        ⟨hfence (i + (d + 1)) (by omega) (by omega) hp hlast, hlast⟩
  have hpool' : ∀ g, i ≤ g → g < i + n → ¬ p.Pool g := by
    intro g h1 h2
    rw [← Nat.add_sub_cancel' h1]
    exact hpool (g - i) (by omega)
  exact ⟨hroom, fun g h1 h2 => ⟨fun hu => hn g h1 h2 ⟨hu, hpool' g h1 h2⟩, hpool' g h1 h2⟩⟩

/-- A search ends at the last frame. -/
lemma Pmm.Guarded.stops_last {lo : ℕ} (hg : p.Guarded lo) : p.Stops (frameCount - 1) := by
  refine ⟨hg.last, fun hp => ?_⟩
  have h1 := (hg.pool _).mp hp
  have h2 := hg.room
  omega

/-- The pool is fenced. -/
lemma Pmm.Guarded.fenced {lo : ℕ} (hg : p.Guarded lo) : p.PoolFenced := by
  intro f h0 _ hp hlast
  have h1 := (hg.pool f).mp hp
  have h2 := mt (hg.pool (f - 1)).mpr hlast
  obtain rfl : f = lo := by omega
  exact hg.below

/-- **The scan of a range**: no frame stops it, or it finds the first frame that does, or it leaves
the bitmap. -/
lemma rangeStop_cases (i : ℕ) {n j : ℕ} (hj : i + j ≤ frameCount) :
    (rangeStop p i n j = .ok none ∧ i + j + n ≤ frameCount
        ∧ ∀ g, i + j ≤ g → g < i + j + n → ¬ p.Stops g)
    ∨ (∃ k, rangeStop p i n j = .ok (some k) ∧ j ≤ k ∧ k < j + n ∧ i + k < frameCount
        ∧ p.Stops (i + k))
    ∨ (rangeStop p i n j = .error (.outOfBounds frameCount) ∧ frameCount < i + j + n
        ∧ ∀ g, i + j ≤ g → g < frameCount → ¬ p.Stops g) := by
  induction n generalizing j with
  | zero => exact Or.inl ⟨rfl, hj, fun g h1 h2 => absurd h2 (not_lt.mpr h1)⟩
  | succ n ih =>
    by_cases hend : i + j = frameCount
    · refine Or.inr (Or.inr ⟨?_, by omega, fun g h1 h2 => by omega⟩)
      rw [rangeStop, hend]
      rfl
    have hlt : i + j < frameCount := by omega
    have hstep : rangeStop p i (n + 1) j
        = if p.Stops (i + j) then .ok (some j) else rangeStop p i n (j + 1) := by
      simp only [rangeStop, bitmapTest_ok _ hlt, ok_bind]
      change (if decide (p.Used (i + j)) = true then
          (if (!decide (p.Pool (i + j))) = true then _ else _) else _) = _
      by_cases hu : p.Used (i + j)
      · by_cases hp : p.Pool (i + j)
        · simp [Pmm.Stops, hu, hp]
        · simp [Pmm.Stops, hu, hp]
          rfl
      · simp [Pmm.Stops, hu]
    rw [hstep]
    by_cases hs : p.Stops (i + j)
    · rw [if_pos hs]
      exact Or.inr (Or.inl ⟨j, rfl, le_rfl, by omega, hlt, hs⟩)
    · rw [if_neg hs]
      have hne : ∀ g, i + j ≤ g → (i + (j + 1) ≤ g → ¬ p.Stops g) → ¬ p.Stops g := by
        intro g h1 h2
        by_cases hg : g = i + j
        · exact hg ▸ hs
        · exact h2 (by omega)
      rcases @ih (j + 1) (by omega) with ⟨h1, h2, h3⟩ | ⟨k, h1, h2, h3, h4⟩ | ⟨h1, h2, h3⟩
      · exact Or.inl ⟨h1, by omega, fun g hg1 hg2 => hne g hg1 fun h => h3 g h (by omega)⟩
      · exact Or.inr (Or.inl ⟨k, h1, by omega, by omega, h4⟩)
      · exact Or.inr (Or.inr ⟨h1, by omega, fun g hg1 hg2 => hne g hg1 fun h => h3 g h hg2⟩)

/-- **What `pmm_alloc_range` returns**: null when there is no run of that many free frames, with
nothing changed, and else the first such run, which is in use now. -/
def RangeResult (p : Pmm) (count : ℤ) (r : Except Halt (Pmm × ℕ)) : Prop :=
  (r = .ok (p, 0) ∧ (0 < count.toNat → ∀ g, ¬ p.FreeRun g count.toNat))
    ∨ ∃ f p', r = .ok (p', f * 0x1000) ∧ f < frameCount ∧ ¬ p.Used f ∧ p.FreeRun f count.toNat
      ∧ (0 < count.toNat → ∀ g, p.FreeRun g count.toNat → f ≤ g)
      ∧ p.Becomes p' fun g => (f ≤ g ∧ g < f + count.toNat) ∨ p.Used g

/-- A frame is free when it is neither used nor of the pool. -/
lemma isFreePage_ok {i : ℕ} (hi : i < frameCount) :
    isFreePage p i = .ok (decide (¬ p.Used i ∧ ¬ p.Pool i)) := by
  simp only [isFreePage, bitmapTest_ok _ hi, ok_bind]
  change (if decide (p.Used i) = true then _ else Except.ok (!decide (p.Pool i))) = _
  by_cases hu : p.Used i
  · simp [hu]
    rfl
  · simp [hu]

/-- **The scan leaves the bitmap**: the last frame is free, and no run is long enough. -/
structure RunsOut (p : Pmm) (count : ℤ) : Prop where
  used : ¬ p.Used (frameCount - 1)
  pool : ¬ p.Pool (frameCount - 1)
  none : ∀ g, ¬ p.FreeRun g count.toNat

/-- **The search for a range** from a frame on, when none begins in front of it. -/
lemma allocRangeFrom_spec (hfence : p.PoolFenced) (count : ℤ) {fuel i : ℕ}
    (hi : i < frameCount) (hfuel : frameCount - i < fuel)
    (hlow : 0 < count.toNat → ∀ g < i, ¬ p.FreeRun g count.toNat) :
    RangeResult p count (allocRangeFrom p count fuel i) ∧ ¬ RunsOut p count
      ∨ allocRangeFrom p count fuel i = .error (.outOfBounds frameCount) ∧ RunsOut p count := by
  induction fuel generalizing i with
  | zero => omega
  | succ fuel ih =>
    rw [allocRangeFrom, isFreePage_ok hi, ok_bind]
    by_cases hfree : ¬ p.Used i ∧ ¬ p.Pool i
    · rw [if_pos (by simpa using hfree)]
      -- the range is whole, stops at a used frame, or runs out of the bitmap
      rcases rangeStop_cases (p := p) i (n := count.toNat) (j := 0) hi.le with
        ⟨h1, hroom, h2⟩ | ⟨j, h1, _, h3, h4, h5⟩ | ⟨h1, hout, h2⟩
      · rw [h1, ok_bind]
        dsimp only
        obtain ⟨map, hmap, hmarked⟩ := bitmapFill_set p.bitmap hroom
        rw [Nat.add_zero] at hmap hmarked hroom h2
        have hrun := hfence.freeRun hfree.2 hroom h2
        rw [hmap]
        refine Or.inl ⟨Or.inr ⟨i, pmmUsageUse { p with bitmap := map } (amountOf count), rfl, hi,
          hfree.1, hrun, fun h0 g hrun => ?_, rfl, hmarked⟩, fun hout => hout.none i hrun⟩
        by_contra hlt
        exact hlow h0 g (by omega) hrun
      · -- `goto retry` from the frame that stopped the range, which every run up to it contains
        rw [h1, ok_bind]
        have hj : j ≠ 0 := by
          rintro rfl
          exact hfree.1 h5.1
        refine ih h4 (by omega) fun h0 g hgj hrun => ?_
        by_cases hgi : g < i
        · exact hlow h0 g hgi hrun
        · exact (hrun.free (i + j) (by omega) (by omega)).1 h5.1
      · -- all frames from here on are free, and too few
        rw [h1]
        have hrun : p.FreeRun i (frameCount - i) :=
          hfence.freeRun hfree.2 (by omega) fun g hg1 hg2 => h2 g hg1 (by omega)
        have hlast := hrun.free (frameCount - 1) (by omega) (by omega)
        refine Or.inr ⟨rfl, hlast.1, hlast.2, fun g hrun => ?_⟩
        by_cases hgi : g < i
        · exact hlow (by omega) g hgi hrun
        · have hroom := hrun.room
          omega
    · -- the frame itself is used: the loop goes on with the next one, if there is one
      rw [if_neg (by simpa using hfree)]
      have hlow' : 0 < count.toNat → ∀ g < i + 1, ¬ p.FreeRun g count.toNat := by
        intro h0 g hgi hrun
        by_cases hlt : g < i
        · exact hlow h0 g hlt hrun
        · obtain rfl : g = i := by omega
          exact hfree (hrun.free g le_rfl (by omega))
      split_ifs with hnext
      · rw [bitmapSize] at hnext
        exact ih (by rw [frameCount]; omega) (by omega) hlow'
      · rw [bitmapSize] at hnext
        have hlast : i = frameCount - 1 := by
          rw [frameCount] at hi ⊢
          omega
        refine Or.inl ⟨Or.inl ⟨rfl, fun h0 g hrun => ?_⟩, fun hout => ?_⟩
        · have hroom := hrun.room
          exact hlow' h0 g (by omega) hrun
        · exact hfree (hlast ▸ ⟨hout.used, hout.pool⟩)

/-- `pmm_alloc_range`, for any bitmap in which the pool is fenced. -/
lemma pmmAllocRange_cases (hfence : p.PoolFenced) (count : ℤ) :
    RangeResult p count (pmmAllocRange p count) ∧ ¬ RunsOut p count
      ∨ pmmAllocRange p count = .error (.outOfBounds frameCount) ∧ RunsOut p count := by
  refine allocRangeFrom_spec hfence count (by norm_num [frameCount]) ?_ fun _ g hlt => by omega
  rw [frameCount, bitmapSize]
  norm_num

/-- **`pmm_alloc_range`.** -/
lemma pmmAllocRange_spec {lo : ℕ} (hg : p.Guarded lo) (count : ℤ) :
    RangeResult p count (pmmAllocRange p count) :=
  ((pmmAllocRange_cases hg.fenced count).resolve_right fun h => h.2.used hg.last).1

/-! ### First fit -/

/-- **First fit**: the lowest run of `count` free frames outside the pool is handed out and marked,
and without one null is returned and nothing is changed. -/
def FirstFit (p : Pmm) (count : ℤ) (r : Except Halt (Pmm × ℕ)) : Prop :=
  (r = .ok (p, 0) ∧ ∀ g, ¬ p.FreeRun g count.toNat)
    ∨ ∃ f p', r = .ok (p', f * 0x1000) ∧ p.FreeRun f count.toNat
      ∧ (∀ g < f, ¬ p.FreeRun g count.toNat)
      ∧ p.Becomes p' fun g => (f ≤ g ∧ g < f + count.toNat) ∨ p.Used g

/-- What the search returns is the first fit, when a page at least is asked for. -/
lemma RangeResult.firstFit {count : ℤ} {r : Except Halt (Pmm × ℕ)} (hcount : 1 ≤ count)
    (h : RangeResult p count r) : FirstFit p count r := by
  have h0 : 0 < count.toNat := by omega
  rcases h with ⟨hr, hno⟩ | ⟨f, p', hr, -, -, hrun, hfirst, hb⟩
  · exact Or.inl ⟨hr, hno h0⟩
  · exact Or.inr ⟨f, p', hr, hrun, fun g hlt hg => absurd (hfirst h0 g hg) (not_le.mpr hlt), hb⟩

/-- **`pmm_alloc_range` is first fit exactly when its scan does not leave the bitmap.** -/
theorem firstFit_iff {count : ℤ} (hfence : p.PoolFenced) (hcount : 1 ≤ count) :
    FirstFit p count (pmmAllocRange p count) ↔ ¬ RunsOut p count := by
  rcases pmmAllocRange_cases hfence count with ⟨h, hout⟩ | ⟨h, hout⟩
  · exact iff_of_true (h.firstFit hcount) hout
  · refine iff_of_false ?_ (not_not.mpr hout)
    rw [h]
    rintro (⟨hr, -⟩ | ⟨f, p', hr, -⟩)
    · cases hr
    · cases hr

/-- A bitmap of ones marks nothing. -/
lemma not_marked_ones {map : Bitmap} {b : ℕ} (h : map (b / 32) = 0xffffffff) : ¬ map.Marked b := by
  rw [Bitmap.marked_iff, h]
  have hbit : ∀ k < 32, (0xffffffff#32).getLsbD (31 - k) ≠ false := by decide
  exact hbit _ (Nat.mod_lt _ (by norm_num))

/-- All frames are free, and there is no pool. -/
def allFree : Pmm := ⟨fun _ => 0xffffffff, fun _ => 0xffffffff, 0, 0⟩

/-- Two pages are found where every frame is free. -/
theorem firstFit_allFree :
    allFree.PoolFenced ∧ FirstFit allFree 2 (pmmAllocRange allFree 2) := by
  have hfence : allFree.PoolFenced := fun _ _ _ hpool => absurd hpool (not_marked_ones rfl)
  have hrun : allFree.FreeRun 0 2 :=
    ⟨by norm_num [frameCount], fun _ _ _ => ⟨not_marked_ones rfl, not_marked_ones rfl⟩⟩
  exact ⟨hfence, (firstFit_iff hfence (by norm_num)).mpr fun hout => hout.none 0 hrun⟩

/-- Only the last frame is free, and there is no pool. -/
def lastFree : Pmm := ⟨fun w => if w = 32767 then 1 else 0, fun _ => 0xffffffff, 0, 0⟩

/-- For two frames the scan reads behind the bitmap. -/
theorem lastFree_not_firstFit :
    lastFree.PoolFenced ∧ ¬ FirstFit lastFree 2 (pmmAllocRange lastFree 2) := by
  have hfence : lastFree.PoolFenced := fun _ _ _ hpool => absurd hpool (not_marked_ones rfl)
  have hlast : ∀ g, ¬ lastFree.FreeRun g 2 := by
    rintro g ⟨hroom, hfree⟩
    have hused : ∀ b < frameCount - 1, lastFree.Used b := by
      intro b hb
      -- of the last word only the lowest bit is set
      rw [frameCount] at hb
      have hword : lastFree.bitmap (b / 32) = if b / 32 = 32767 then 1 else 0 := rfl
      rw [Pmm.Used, Bitmap.marked_iff, hword]
      by_cases hw : b / 32 = 32767
      · have hbit : ∀ k < 31, (1#32).getLsbD (31 - k) = false := by decide
        rw [if_pos hw]
        exact hbit _ (by omega)
      · rw [if_neg hw]
        exact BitVec.getLsbD_zero
    exact (hfree g le_rfl (by omega)).1 (hused g (by omega))
  refine ⟨hfence, ?_⟩
  rcases pmmAllocRange_cases hfence 2 with ⟨-, hout⟩ | ⟨h, -⟩
  · exact absurd ⟨by decide, not_marked_ones rfl, hlast⟩ hout
  · rw [h]
    rintro (⟨hr, -⟩ | ⟨f, p', hr, -⟩)
    · cases hr
    · cases hr

end MicroOS
