import MicroOS.Lib.Run
import MicroOS.Memory.PmmSpec

/-!
Runs of the physical memory manager, from `pmm_init` on.

* `pmmInit_guarded`: a `pmm_init` that returns leaves the pool where `link.ld` puts it, the frame
  just below it in use and the last frame of the address space in use. For the last frame this
  needs that the loops return: one that reaches it wraps around and never ends.
* `PmmInv`: the invariant of a run; `PmmInv.call` is its step lemma.
* `reachable_frames`: in every run no frame is handed out twice and no access leaves the bitmaps.
-/

namespace MicroOS

open ByteMem Checked Run

variable {p p' : Pmm} {body : Pmm → ℕ → Except Halt Pmm} {fuel addr endAddr : ℕ}

/-! ### The loops of `pmm_init` -/

/-- The invariant rule of a loop over pages. -/
lemma forPages_rule (I : ℕ → Pmm → Prop)
    (hstep : ∀ a q q', I a q → a < endAddr → body q a = .ok q' → I (wrap32 (a + 0x1000)) q')
    (h0 : I addr p) (h : forPages body fuel endAddr addr p = .ok p') :
    ∃ a, I a p' ∧ endAddr ≤ a := by
  rw [forPages, bind_eq_ok] at h
  obtain ⟨⟨a, q⟩, hloop, hret⟩ := h
  obtain rfl : q = p' := Except.ok.inj hret
  have hrule := repeatWhile_rule (fun s : ℕ × Pmm => I s.1 s.2) ?_ h0 hloop
  · refine ⟨a, hrule.1, ?_⟩
    simpa using hrule.2
  · rintro ⟨b, q⟩ ⟨c, q'⟩ hI htest hbody
    obtain ⟨q'', hq, heq⟩ := bind_eq_ok.mp hbody
    obtain ⟨rfl, rfl⟩ := Prod.mk.inj (Except.ok.inj heq)
    exact hstep b q q'' hI (by simpa using htest) hq

/-- A loop that reaches the last page wraps around and never returns. -/
lemma forPages_below (haddr : addr < 2 ^ 32) (h : forPages body fuel endAddr addr p = .ok p') :
    endAddr ≤ addr % 0x1000 + 0xfffff000 := by
  have hkeep : ∀ a : ℕ, a % 0x1000 = addr % 0x1000 →
      wrap32 (a + 0x1000) % 0x1000 = addr % 0x1000 := by
    intro a ha
    rw [wrap32]
    omega
  obtain ⟨a, ⟨h1, h2⟩, h3⟩ :=
    forPages_rule (fun a _ => a < 2 ^ 32 ∧ a % 0x1000 = addr % 0x1000)
      (fun a _ _ ha _ _ => ⟨wrap32_lt _, hkeep a ha.2⟩) ⟨haddr, rfl⟩ h
  omega

/-- What a body keeps below the last page, a loop that returns keeps. -/
lemma forPages_keeps (I : Pmm → Prop) (haddr : addr < 2 ^ 32)
    (hbody : ∀ a q q', a < 0xfffff000 → I q → body q a = .ok q' → I q') (h0 : I p)
    (h : forPages body fuel endAddr addr p = .ok p') : I p' := by
  have hend := forPages_below haddr h
  have hstep : ∀ a q q', a < 2 ^ 32 ∧ a % 0x1000 = addr % 0x1000 ∧ I q → a < endAddr →
      body q a = .ok q' → wrap32 (a + 0x1000) < 2 ^ 32
        ∧ wrap32 (a + 0x1000) % 0x1000 = addr % 0x1000 ∧ I q' := by
    rintro a q q' ⟨h1, h2, hI⟩ hlt hq
    refine ⟨wrap32_lt _, ?_, hbody a q q' (by omega) hI hq⟩
    rw [wrap32]
    omega
  obtain ⟨a, ⟨_, _, hI⟩, _⟩ := forPages_rule
    (fun a q => a < 2 ^ 32 ∧ a % 0x1000 = addr % 0x1000 ∧ I q) hstep ⟨haddr, rfl, h0⟩ h
  exact hI

/-- The invariant rule of a loop over the frames from `lo` to `hi`. -/
lemma forPages_frames {lo hi : ℕ} (I : ℕ → Pmm → Prop) (hle : lo ≤ hi)
    (hhi : hi * 0x1000 < 2 ^ 32)
    (hbody : ∀ f q q', lo ≤ f → f < hi → I f q → body q (f * 0x1000) = .ok q' → I (f + 1) q')
    (h0 : I lo p) (h : forPages body fuel (hi * 0x1000) (lo * 0x1000) p = .ok p') : I hi p' := by
  have hstep : ∀ a q q', (∃ f, a = f * 0x1000 ∧ lo ≤ f ∧ f ≤ hi ∧ I f q) → a < hi * 0x1000 →
      body q a = .ok q' →
      ∃ f, wrap32 (a + 0x1000) = f * 0x1000 ∧ lo ≤ f ∧ f ≤ hi ∧ I f q' := by
    rintro _ q q' ⟨f, rfl, h1, h2, hI⟩ hlt hq
    have hfh : f < hi := by omega
    have hlt' : (f + 1) * 0x1000 < 2 ^ 32 := (Nat.mul_le_mul_right _ hfh).trans_lt hhi
    refine ⟨f + 1, ?_, by omega, by omega, hbody f q q' h1 (by omega) hI hq⟩
    rw [← Nat.succ_mul, wrap32_of_lt hlt']
  obtain ⟨a, ⟨f, rfl, _, h2, hI⟩, h3⟩ := forPages_rule
    (fun a q => ∃ f, a = f * 0x1000 ∧ lo ≤ f ∧ f ≤ hi ∧ I f q) hstep ⟨lo, rfl, le_rfl, hle, h0⟩ h
  obtain rfl : f = hi := by omega
  exact hI

/-! ### `pmm_init` -/

/-- The last frame is in use. -/
def LastUsed (p : Pmm) : Prop := p.Used (frameCount - 1)

/-- Freeing a page below the last one keeps that in use. -/
lemma LastUsed.free {a : ℕ} (hp : LastUsed p) (ha : a < 0xfffff000)
    (h : pmmFree p a = .ok p') : LastUsed p' := by
  obtain ⟨q, hq, hb⟩ := pmmFree_ok (p := p) (show a < 2 ^ 32 by omega)
  obtain rfl : q = p' := Except.ok.inj (hq.symm.trans h)
  refine (hb.used _).mpr ⟨?_, hp⟩
  rw [frameCount]
  omega

/-- `pmm_mark_used` keeps what is in use, and the pool. -/
lemma pmmMarkUsed_used {page : ℕ} (hpage : page < 2 ^ 32) (h : pmmMarkUsed p page = .ok p') :
    p'.bitmapPagetableMask = p.bitmapPagetableMask
      ∧ ∀ f, p'.Used f ↔ f = page / 4096 ∨ p.Used f := by
  obtain ⟨q, hq, hb⟩ := pmmMarkUsed_ok (p := p) hpage
  obtain rfl : q = p' := Except.ok.inj (hq.symm.trans h)
  exact ⟨hb.mask, hb.used⟩

/-- So does freeing a section of the map, and no frame gets into the pool. -/
lemma freeSection_keeps {e : MultibootMmap} (hp : LastUsed p ∧ ∀ f, ¬ p.Pool f)
    (h : freeSection fuel p e = .ok p') : LastUsed p' ∧ ∀ f, ¬ p'.Pool f := by
  rw [freeSection] at h
  by_cases htype : e.type = 1
  · rw [if_pos htype] at h
    by_cases hbase : e.base > 0xfffff000
    · rw [if_pos hbase] at h
      obtain rfl := Except.ok.inj h
      exact hp
    rw [if_neg hbase] at h
    refine forPages_keeps (fun q => LastUsed q ∧ ∀ f, ¬ q.Pool f) (wrap32_lt _) ?_ hp h
    rintro a q q' ha ⟨h1, h2⟩ hq
    refine ⟨h1.free ha hq, fun f => ?_⟩
    obtain ⟨q'', hq'', hb⟩ := pmmFree_ok (p := q) (show a < 2 ^ 32 by omega)
    obtain rfl : q'' = q' := Except.ok.inj (hq''.symm.trans hq)
    rw [hb.pool]
    exact h2 f
  · rw [if_neg htype] at h
    obtain rfl := Except.ok.inj h
    exact hp

/-- The first frame of the pool. -/
def KernelLayout.poolFrame (L : KernelLayout) : ℕ := L.kernelEnd / 0x1000

lemma KernelLayout.poolFrame_mul (L : KernelLayout) : L.poolFrame * 0x1000 = L.kernelEnd :=
  Nat.div_mul_cancel L.aligned

/-- It ends behind its pages. -/
lemma KernelLayout.pagingEnd_eq (L : KernelLayout) :
    L.pagingEnd = (L.poolFrame + pagingDataPages) * 0x1000 :=
  (congrArg (· + pagingDataPages * 0x1000) L.poolFrame_mul.symm).trans
    (Nat.add_mul L.poolFrame pagingDataPages 0x1000).symm

/-- The frames of the pool, by their addresses. -/
lemma KernelLayout.mem_pool_iff (L : KernelLayout) (f : ℕ) :
    L.pagingStart ≤ f * 0x1000 ∧ f * 0x1000 < L.pagingEnd
      ↔ L.poolFrame ≤ f ∧ f < L.poolFrame + pagingDataPages := by
  have hstart : L.pagingStart = L.poolFrame * 0x1000 := L.poolFrame_mul.symm
  rw [L.pagingEnd_eq, hstart]
  exact and_congr (Nat.mul_le_mul_right_iff (by norm_num)) (Nat.mul_lt_mul_right (by norm_num))

/-- The pool is behind the kernel's start, and in the memory. -/
lemma KernelLayout.poolFrame_bounds (L : KernelLayout) :
    0x200 < L.poolFrame ∧ L.poolFrame + pagingDataPages < frameCount := by
  have hmul := L.poolFrame_mul
  have himage := L.image
  have hfits := L.fits
  rw [pagingDataPages] at *
  rw [frameCount]
  omega

/-- The image is in use once it has been marked. -/
lemma forPages_image (L : KernelLayout) (hp : LastUsed p ∧ ∀ f, ¬ p.Pool f)
    (h : forPages pmmMarkUsed fuel L.kernelEnd KernelLayout.kernelStart p = .ok p') :
    (LastUsed p' ∧ ∀ f, ¬ p'.Pool f) ∧ p'.Used (L.poolFrame - 1) := by
  obtain ⟨hlow, hhigh⟩ := L.poolFrame_bounds
  rw [frameCount] at hhigh
  rw [← L.poolFrame_mul, show KernelLayout.kernelStart = 0x200 * 0x1000 from rfl] at h
  have hrule := forPages_frames
    (fun f q => (LastUsed q ∧ ∀ g, ¬ q.Pool g) ∧ (0x200 < f → q.Used (f - 1)))
    hlow.le (by omega) ?_ ⟨hp, fun h0 => absurd h0 (lt_irrefl _)⟩ h
  · exact ⟨hrule.1, hrule.2 hlow⟩
  · rintro f q q' _ hf ⟨⟨h1, h2⟩, _⟩ hq
    obtain ⟨hmask, hused⟩ := pmmMarkUsed_used (by omega) hq
    refine ⟨⟨(hused _).mpr (Or.inr h1), fun g => ?_⟩, fun _ => (hused _).mpr (Or.inl ?_)⟩
    · rw [Pmm.Pool, hmask]
      exact h2 g
    · omega

/-- The mask holds the pool once it has been marked. -/
lemma forPages_pool (L : KernelLayout) (hp : LastUsed p ∧ ∀ f, ¬ p.Pool f)
    (hbelow : p.Used (L.poolFrame - 1))
    (h : forPages maskPage fuel L.pagingEnd L.pagingStart p = .ok p') :
    LastUsed p' ∧ p'.Used (L.poolFrame - 1)
      ∧ ∀ f, p'.Pool f ↔ L.poolFrame ≤ f ∧ f < L.poolFrame + pagingDataPages := by
  obtain ⟨_, hhigh⟩ := L.poolFrame_bounds
  rw [L.pagingEnd_eq, KernelLayout.pagingStart, ← L.poolFrame_mul] at h
  refine forPages_frames
    (fun f q => LastUsed q ∧ q.Used (L.poolFrame - 1)
      ∧ ∀ g, q.Pool g ↔ L.poolFrame ≤ g ∧ g < f)
    (Nat.le_add_right _ _) ?_ ?_ ⟨hp.1, hbelow, fun g => ?_⟩ h
  · rw [frameCount] at hhigh
    omega
  · rintro f q q' hlo hf ⟨h1, h2, h3⟩ hq
    have hcount : f * 0x1000 / 0x1000 < frameCount := by
      rw [Nat.mul_div_cancel _ (by norm_num)]
      exact hf.trans hhigh
    obtain ⟨map, hmap, hmarked⟩ := bitmapSet_ok q.bitmapPagetableMask hcount
    rw [maskPage, hmap] at hq
    obtain rfl := Except.ok.inj hq
    refine ⟨h1, h2, fun g => (hmarked g).trans ?_⟩
    rw [Nat.mul_div_cancel _ (by norm_num)]
    refine (or_congr_right (h3 g)).trans ?_
    omega
  · exact ⟨fun hpool => absurd hpool (hp.2 g), fun hlt => by omega⟩

/-- What the marking after the pool keeps. -/
lemma pmmMarkUsed_keeps {lo page : ℕ} (hpage : page < 2 ^ 32)
    (hp : LastUsed p ∧ p.Used (lo - 1) ∧ ∀ f, p.Pool f ↔ lo ≤ f ∧ f < lo + pagingDataPages)
    (h : pmmMarkUsed p page = .ok p') :
    LastUsed p' ∧ p'.Used (lo - 1) ∧ ∀ f, p'.Pool f ↔ lo ≤ f ∧ f < lo + pagingDataPages := by
  obtain ⟨hmask, hused⟩ := pmmMarkUsed_used hpage h
  refine ⟨(hused _).mpr (Or.inr hp.1), (hused _).mpr (Or.inr hp.2.1), fun f => ?_⟩
  rw [Pmm.Pool, hmask]
  exact hp.2.2 f

/-- **`pmm_init` leaves the frames around the pool in use.** -/
theorem pmmInit_guarded {L : KernelLayout} {mb : MultibootInfo}
    (h : pmmInit fuel L mb = .ok p) : p.Guarded L.poolFrame ∧ p.Used 0 := by
  simp only [pmmInit, bind_eq_ok] at h
  obtain ⟨p₁, h1, p₂, h2, p₃, h3, p₄, h4, p₅, h5, p₆, h6, h7⟩ := h
  have hfree : LastUsed p₁ ∧ ∀ f, ¬ p₁.Pool f := by
    refine foldlM_rule (fun q => LastUsed q ∧ ∀ f, ¬ q.Pool f) ?_ ⟨?_, fun f => ?_⟩ h1
    · exact fun q e q' _ hq hq' => freeSection_keeps hq hq'
    · exact BitVec.zero_and
    · exact not_marked_ones rfl
  obtain ⟨himage, hbelow⟩ := forPages_image L (p := { p₁ with usedMemory := 0 }) hfree h2
  have hpool := forPages_pool L himage hbelow h3
  have h4' := pmmMarkUsed_keeps mb.addr.toNat_lt hpool h4
  have h5' := pmmMarkUsed_keeps mb.modsAddr.toNat_lt h4' h5
  have h6' := foldlM_rule (fun q => LastUsed q ∧ q.Used (L.poolFrame - 1)
    ∧ ∀ f, q.Pool f ↔ L.poolFrame ≤ f ∧ f < L.poolFrame + pagingDataPages)
    (fun q m q' _ hq hq' => forPages_keeps _ m.modStart.toNat_lt
      (fun a r r' ha hr hr' => pmmMarkUsed_keeps (by omega) hr hr') hq hq') h5' h6
  have h7' := pmmMarkUsed_keeps (by norm_num) h6' h7
  have hzero := (pmmMarkUsed_used (by norm_num) h7).2 0
  obtain ⟨hlow, hhigh⟩ := L.poolFrame_bounds
  exact ⟨⟨h7'.2.2, by omega, hhigh, h7'.2.1, h7'.1⟩, hzero.mpr (Or.inl rfl)⟩

/-! ### Calls -/

/-- A call of the memory manager. -/
inductive PmmCall where
  | alloc
  | allocPagetable
  | allocRange (count : ℤ)
  | free (page : ℕ)
  | freeRange (page : ℕ) (count : ℤ)
  deriving DecidableEq, Repr

namespace PmmCall

/-- The call; those without a result return null. -/
def exec (p : Pmm) : PmmCall → Except Halt (Pmm × ℕ)
  | alloc => pmmAlloc p
  | allocPagetable => pmmAllocPagetable p
  | allocRange count => pmmAllocRange p count
  | free page => (fun p => (p, 0)) <$> pmmFree p page
  | freeRange page count => (fun p => (p, 0)) <$> pmmFreeRange p page count

/-- The frames a call hands out when it returns `r`. -/
def handsOut (r : ℕ) : PmmCall → List ℕ
  | alloc => [r / 4096]
  | allocPagetable => [r / 4096]
  | allocRange count => if r = 0 then [] else List.range' (r / 4096) count.toNat
  | _ => []

/-- The frames a call gives back. -/
def givesBack : PmmCall → List ℕ
  | free page => [page / 4096]
  | freeRange page count => List.range' (page / 4096) count.toNat
  | _ => []

end PmmCall

/-- A run's state: the memory manager and the frames of each live allocation. -/
structure PmmState where
  pmm : Pmm
  live : List (List ℕ)

namespace PmmState

/-- The frame belongs to a live allocation. -/
def Live (s : PmmState) (f : ℕ) : Prop := ∃ a ∈ s.live, f ∈ a

/-- Ranges have at least one frame, and only frames of live allocations are freed. -/
def Legal (s : PmmState) : PmmCall → Prop
  | .allocRange count => 1 ≤ count
  | .free page => page < 2 ^ 32 ∧ s.Live (page / 4096)
  | .freeRange page count =>
    page < 2 ^ 32 ∧ ∀ f ∈ List.range' (page / 4096) count.toNat, s.Live f
  | _ => True

/-- Only frames of live allocations are freed. -/
def FreesLive (s : PmmState) : PmmCall → Prop
  | .free page => page < 2 ^ 32 ∧ s.Live (page / 4096)
  | .freeRange page count =>
    page < 2 ^ 32 ∧ ∀ f ∈ List.range' (page / 4096) count.toNat, s.Live f
  | _ => True

/-- A call that may be made frees only what is live. -/
lemma Legal.freesLive {s : PmmState} {op : PmmCall} (h : s.Legal op) : s.FreesLive op := by
  cases op with
  | free page => exact h
  | freeRange page count => exact h
  | alloc => trivial
  | allocPagetable => trivial
  | allocRange count => trivial

/-- The state after a call returned. -/
def after (s : PmmState) (op : PmmCall) (p : Pmm) (r : ℕ) : PmmState :=
  ⟨p, op.handsOut r :: s.live.map (·.filter (· ∉ op.givesBack))⟩

end PmmState

/-- `pmm_init` has returned. -/
def PmmStarted (L : KernelLayout) (s : PmmState) : Prop :=
  ∃ fuel mb, pmmInit fuel L mb = .ok s.pmm ∧ s.live = []

/-- One call. `abortf` may come back when the panic is continued; nothing has changed then. -/
inductive PmmStep : PmmState → PmmState → Prop where
  | call {s : PmmState} {p : Pmm} {r : ℕ} (op : PmmCall) (legal : s.Legal op)
      (returns : op.exec s.pmm = .ok (p, r)) : PmmStep s (s.after op p r)
  | panic {s : PmmState} (op : PmmCall) (legal : s.Legal op)
      (aborts : op.exec s.pmm = .error .abort) : PmmStep s s

/-! ### The invariant of a run -/

/-- A frame that may belong to an allocation: not one of those that guard the pool and the end. -/
def Ownable (lo f : ℕ) : Prop := f < frameCount ∧ f ≠ 0 ∧ f ≠ lo - 1 ∧ f ≠ frameCount - 1

/-- **The invariant of a run.** -/
structure PmmInv (lo : ℕ) (s : PmmState) : Prop where
  guarded : s.pmm.Guarded lo
  zero : s.pmm.Used 0
  used : ∀ f, s.Live f → s.pmm.Used f ∧ Ownable lo f
  nodup : ∀ a ∈ s.live, a.Nodup
  disjoint : s.live.Pairwise List.Disjoint

/-- **What a call promises about the frames it hands out**: they were free, are in use now,
belong to no live allocation and lie in the pool or outside it as they should. -/
structure HandsOut (s : PmmState) (op : PmmCall) (p : Pmm) (r : ℕ) : Prop where
  wasFree : ∀ f ∈ op.handsOut r, f < frameCount ∧ ¬ s.pmm.Used f ∧ p.Used f
  fresh : ∀ f ∈ op.handsOut r, ¬ s.Live f
  place : ∀ f ∈ op.handsOut r, s.pmm.Pool f ↔ op = .allocPagetable

/-- **What a call does to the frames in use**: it hands out frames that were free, or it gives
back frames that were live. -/
inductive CallEffect (s : PmmState) (op : PmmCall) (p : Pmm) (r : ℕ) : Prop where
  | out (back : op.givesBack = [])
      (free : ∀ f ∈ op.handsOut r, f < frameCount ∧ ¬ s.pmm.Used f)
      (nodup : (op.handsOut r).Nodup)
      (becomes : s.pmm.Becomes p fun f => f ∈ op.handsOut r ∨ s.pmm.Used f)
      (place : ∀ f ∈ op.handsOut r, s.pmm.Pool f ↔ op = .allocPagetable)
  | back (out : op.handsOut r = []) (live : ∀ f ∈ op.givesBack, s.Live f)
      (nodup : op.givesBack.Nodup)
      (becomes : s.pmm.Becomes p fun f => f ∉ op.givesBack ∧ s.pmm.Used f)

namespace PmmInv

variable {lo : ℕ} {s : PmmState} {op : PmmCall} {r : ℕ}

/-- A frame that is free may be owned. -/
lemma ownable (hs : PmmInv lo s) {f : ℕ} (hf : f < frameCount) (hu : ¬ s.pmm.Used f) :
    Ownable lo f := by
  refine ⟨hf, ?_, ?_, ?_⟩
  · rintro rfl
    exact hu hs.zero
  · rintro rfl
    exact hu hs.guarded.below
  · rintro rfl
    exact hu hs.guarded.last

/-- A call that hands out free frames. -/
lemma of_handsOut (hs : PmmInv lo s) (hback : op.givesBack = [])
    (hfree : ∀ f ∈ op.handsOut r, f < frameCount ∧ ¬ s.pmm.Used f)
    (hnodup : (op.handsOut r).Nodup)
    (hb : s.pmm.Becomes p' fun f => f ∈ op.handsOut r ∨ s.pmm.Used f)
    (hplace : ∀ f ∈ op.handsOut r, s.pmm.Pool f ↔ op = .allocPagetable) :
    PmmInv lo (s.after op p' r) ∧ HandsOut s op p' r := by
  have hlive : s.live.map (·.filter (· ∉ op.givesBack)) = s.live := by
    simp [hback]
  have hmono : ∀ f, s.pmm.Used f → p'.Used f := fun f hf => (hb.used f).mpr (Or.inr hf)
  have hout : ∀ f ∈ op.handsOut r, ¬ s.Live f :=
    fun f hf hl => (hfree f hf).2 (hs.used f hl).1
  rw [PmmState.after, hlive]
  refine ⟨⟨?_, hmono _ hs.zero, ?_, ?_, ?_⟩, ?_, hout, hplace⟩
  · have hg := hs.guarded
    exact ⟨fun f => (hb.pool f).trans (hg.pool f), hg.pos, hg.room, hmono _ hg.below,
      hmono _ hg.last⟩
  · rintro f ⟨a, ha, hf⟩
    rcases List.mem_cons.mp ha with rfl | ha
    · exact ⟨(hb.used f).mpr (Or.inl hf), hs.ownable (hfree f hf).1 (hfree f hf).2⟩
    · obtain ⟨h1, h2⟩ := hs.used f ⟨a, ha, hf⟩
      exact ⟨hmono f h1, h2⟩
  · exact List.forall_mem_cons.mpr ⟨hnodup, hs.nodup⟩
  · exact List.pairwise_cons.mpr ⟨fun a ha f hf hfa => hout f hf ⟨a, ha, hfa⟩, hs.disjoint⟩
  · exact fun f hf => ⟨(hfree f hf).1, (hfree f hf).2, (hb.used f).mpr (Or.inl hf)⟩

/-- A call that gives live frames back. -/
lemma of_givesBack (hs : PmmInv lo s) (hout : op.handsOut r = [])
    (hlive : ∀ f ∈ op.givesBack, s.Live f)
    (hb : s.pmm.Becomes p' fun f => f ∉ op.givesBack ∧ s.pmm.Used f) :
    PmmInv lo (s.after op p' r) ∧ HandsOut s op p' r := by
  have hkeep : ∀ f, s.pmm.Used f → ¬ Ownable lo f → p'.Used f :=
    fun f hf hno => (hb.used f).mpr ⟨fun hback => hno (hs.used f (hlive f hback)).2, hf⟩
  have hg := hs.guarded
  refine ⟨⟨⟨fun f => (hb.pool f).trans (hg.pool f), hg.pos, hg.room, ?_, ?_⟩, ?_, ?_, ?_, ?_⟩,
    by simp [hout], by simp [hout], by simp [hout]⟩
  · exact hkeep _ hg.below fun h => h.2.2.1 rfl
  · exact hkeep _ hg.last fun h => h.2.2.2 rfl
  · exact hkeep _ hs.zero fun h => h.2.1 rfl
  · rintro f ⟨a, ha, hf⟩
    simp only [PmmState.after, hout, List.mem_cons, List.mem_map] at ha
    rcases ha with rfl | ⟨a, ha, rfl⟩
    · simp at hf
    · obtain ⟨hfa, hback⟩ := List.mem_filter.mp hf
      obtain ⟨h1, h2⟩ := hs.used f ⟨a, ha, hfa⟩
      exact ⟨(hb.used f).mpr ⟨by simpa using hback, h1⟩, h2⟩
  · refine List.forall_mem_cons.mpr ⟨by simp [hout], ?_⟩
    intro b hb'
    obtain ⟨a, ha, rfl⟩ := List.mem_map.mp hb'
    exact (hs.nodup a ha).filter _
  · refine List.pairwise_cons.mpr ⟨fun a _ => by simp [hout], ?_⟩
    refine List.pairwise_map.mpr (hs.disjoint.imp fun {a b} hab f hfa hfb => ?_)
    exact hab (List.mem_of_mem_filter hfa) (List.mem_of_mem_filter hfb)

/-- One of the two single-frame allocations. -/
lemma call_allocFrame (inPool : Bool) (hexec : op.exec s.pmm = allocFrame inPool s.pmm)
    (hback : op.givesBack = []) (hout : ∀ f, op.handsOut (f * 0x1000) = [f])
    (hpool : inPool = true ↔ op = .allocPagetable) :
    op.exec s.pmm = .error .abort ∨ ∃ p' r, op.exec s.pmm = .ok (p', r)
      ∧ CallEffect s op p' r := by
  rcases allocFrame_spec s.pmm inPool with ⟨h1, _⟩ | ⟨f, p', h1, h2, h3, _, hb⟩
  · exact Or.inl (hexec.trans h1)
  · refine Or.inr ⟨p', f * 0x1000, hexec.trans h1, .out hback ?_ ?_ ?_ ?_⟩
    · simp only [hout, List.mem_singleton, forall_eq]
      exact ⟨h2, h3.1⟩
    · simp [hout]
    · exact ⟨hb.mask, fun g => by rw [hb.used, hout, List.mem_singleton]⟩
    · simp only [hout, List.mem_singleton, forall_eq]
      exact h3.2.trans hpool

/-- **A call returns or aborts**, with this effect. -/
lemma call_effect (hs : PmmInv lo s) (hfrees : s.FreesLive op) :
    op.exec s.pmm = .error .abort ∨ ∃ p' r, op.exec s.pmm = .ok (p', r)
      ∧ CallEffect s op p' r := by
  cases op with
  | alloc =>
    refine call_allocFrame false rfl rfl (fun f => ?_) (by simp)
    simp [PmmCall.handsOut]
  | allocPagetable =>
    refine call_allocFrame true rfl rfl (fun f => ?_) (by simp)
    simp [PmmCall.handsOut]
  | allocRange count =>
    rcases pmmAllocRange_spec hs.guarded count with
      ⟨h1, _⟩ | ⟨f, p', h1, _, hnot, ⟨hroom, hfree⟩, _, hb⟩
    · refine Or.inr ⟨s.pmm, 0, h1, .out rfl ?_ ?_ ⟨rfl, fun g => ?_⟩ ?_⟩
      all_goals simp [PmmCall.handsOut]
    · have hf : f ≠ 0 := by
        rintro rfl
        exact hnot hs.zero
      have hout : PmmCall.handsOut (f * 0x1000) (.allocRange count)
          = List.range' f count.toNat := by
        rw [PmmCall.handsOut, if_neg (by omega), Nat.mul_div_cancel _ (by norm_num)]
      have hmem : ∀ g, g ∈ PmmCall.handsOut (f * 0x1000) (.allocRange count)
          ↔ f ≤ g ∧ g < f + count.toNat := by
        intro g
        rw [hout, List.mem_range'_1]
      refine Or.inr ⟨p', f * 0x1000, h1, .out rfl ?_ ?_ ⟨hb.mask, fun g => ?_⟩ ?_⟩
      · intro g hg
        obtain ⟨hg1, hg2⟩ := (hmem g).mp hg
        exact ⟨by omega, (hfree g hg1 hg2).1⟩
      · rw [hout]
        exact List.nodup_range'
      · rw [hb.used, hmem]
      · intro g hg
        obtain ⟨hg1, hg2⟩ := (hmem g).mp hg
        exact ⟨fun hp => absurd hp (hfree g hg1 hg2).2, fun h => by cases h⟩
  | free page =>
    obtain ⟨p', h1, hb⟩ := pmmFree_ok (p := s.pmm) hfrees.1
    refine Or.inr ⟨p', 0, by rw [PmmCall.exec, h1]; rfl,
      .back rfl ?_ (List.nodup_singleton _) ⟨hb.mask, ?_⟩⟩
    · simpa [PmmCall.givesBack] using hfrees.2
    · simpa [PmmCall.givesBack] using hb.used
  | freeRange page count =>
    have hroom : page / 4096 + count.toNat ≤ frameCount := by
      by_contra hlt
      have h1 := div_lt_frameCount hfrees.1
      -- the last frame of the range is live, and so below the end
      have h2 := hfrees.2 (page / 4096 + count.toNat - 1)
        (List.mem_range'_1.mpr ⟨by omega, by omega⟩)
      have h3 := (hs.used _ h2).2.1
      omega
    obtain ⟨p', h1, hb⟩ := pmmFreeRange_ok (p := s.pmm) hroom
    refine Or.inr ⟨p', 0, by rw [PmmCall.exec, h1]; rfl,
      .back rfl hfrees.2 List.nodup_range' ⟨hb.mask, fun f => ?_⟩⟩
    rw [hb.used, PmmCall.givesBack, List.mem_range'_1]

/-- What a call does keeps the invariant. -/
lemma effect (hs : PmmInv lo s) (h : CallEffect s op p' r) :
    PmmInv lo (s.after op p' r) ∧ HandsOut s op p' r := by
  cases h with
  | out back free nodup becomes place => exact hs.of_handsOut back free nodup becomes place
  | back out live nodup becomes => exact hs.of_givesBack out live becomes

/-- **The step lemma**: a legal call returns or aborts, and keeps the invariant. -/
theorem call (hs : PmmInv lo s) (hlegal : s.Legal op) :
    op.exec s.pmm = .error .abort ∨ ∃ p' r, op.exec s.pmm = .ok (p', r)
      ∧ PmmInv lo (s.after op p' r) ∧ HandsOut s op p' r := by
  rcases hs.call_effect hlegal.freesLive with h | ⟨p', r, h, heffect⟩
  · exact Or.inl h
  · exact Or.inr ⟨p', r, h, hs.effect heffect⟩

/-- **The run lemma.** -/
theorem of_reachable {L : KernelLayout} (hs : Reachable (PmmStarted L) PmmStep s) :
    PmmInv L.poolFrame s := by
  refine hs.invariant _ ?_ ?_
  · rintro t ⟨fuel, mb, hinit, hlive⟩
    obtain ⟨hg, hz⟩ := pmmInit_guarded hinit
    exact ⟨hg, hz, by simp [PmmState.Live, hlive], by simp [hlive], by simp [hlive]⟩
  · rintro t u ht hstep
    cases hstep with
    | call op legal returns =>
      rcases ht.call legal with h1 | ⟨p', r, h1, h2, _⟩
      · simp [h1] at returns
      · obtain ⟨rfl, rfl⟩ := Prod.mk.inj (Except.ok.inj (h1.symm.trans returns))
        exact h2
    | panic op legal aborts => exact ht

end PmmInv

/-! ### What holds in every run -/

/-- **No frame is handed out twice.** In every run from a `pmm_init` that returned: the frames of
live allocations are in use and no two allocations share one, and every further call either stops
in `abortf` or returns, with every access inside the bitmaps; the frames it hands out were free,
are in use now, belong to no live allocation, and lie in the page-table pool exactly for
`pmm_alloc_pagetable`. -/
theorem reachable_frames {L : KernelLayout} {s : PmmState}
    (hs : Reachable (PmmStarted L) PmmStep s) :
    (∀ f, s.Live f → s.pmm.Used f) ∧ (∀ a ∈ s.live, a.Nodup) ∧ s.live.Pairwise List.Disjoint
      ∧ (∀ f, s.pmm.Pool f ↔ L.pagingStart ≤ f * 0x1000 ∧ f * 0x1000 < L.pagingEnd)
      ∧ ∀ op, s.Legal op → op.exec s.pmm = .error .abort
        ∨ ∃ p r, op.exec s.pmm = .ok (p, r) ∧ HandsOut s op p r := by
  have hinv := PmmInv.of_reachable hs
  refine ⟨fun f hf => (hinv.used f hf).1, hinv.nodup, hinv.disjoint, fun f => ?_,
    fun op hlegal => ?_⟩
  · rw [hinv.guarded.pool, L.mem_pool_iff]
  · rcases hinv.call hlegal with h1 | ⟨p, r, h1, _, h2⟩
    · exact Or.inl h1
    · exact Or.inr ⟨p, r, h1, h2⟩

/-- An image of one page. -/
def bootLayout : KernelLayout :=
  ⟨0x201000, by norm_num, by norm_num, by norm_num [pagingDataPages]⟩

/-- A memory map with four usable frames, the first of them in the pool. -/
def bootInfo : MultibootInfo := ⟨0x9000, [⟨0x400000, 0x4000, 1⟩], 0xa000, []⟩

/-- After the start, the first page that is handed out is not owned by anyone. -/
theorem reachable_frames_boot :
    ∃ p, pmmInit 600 bootLayout bootInfo = .ok p ∧ ∃ p', pmmAlloc p = .ok (p', 0x401000)
      ∧ HandsOut ⟨p, []⟩ .alloc p' 0x401000 := by
  have halloc : (pmmInit 600 bootLayout bootInfo >>= pmmAlloc).toOption.map Prod.snd
      = some 0x401000 := by decide +kernel
  cases hinit : pmmInit 600 bootLayout bootInfo with
  | error e => simp [hinit, Except.toOption] at halloc
  | ok p =>
    have hreach : Reachable (PmmStarted bootLayout) PmmStep ⟨p, []⟩ :=
      .start ⟨600, bootInfo, hinit, rfl⟩
    rw [hinit, ok_bind] at halloc
    rcases (reachable_frames hreach).2.2.2.2 .alloc trivial with h1 | ⟨p', r, h1, h2⟩
    · rw [PmmCall.exec] at h1
      simp [h1, Except.toOption] at halloc
    · rw [PmmCall.exec] at h1
      rw [h1] at halloc
      obtain rfl : r = 0x401000 := Option.some.inj halloc
      exact ⟨p, rfl, p', h1, h2⟩

end MicroOS
