import MicroOS.User.HeapRun

/-!
`malloc` terminates in every program.

* `walkVisits`, `mallocWalks` and `expansions` record what a call of `malloc` goes through: the
  segments each walk looks at, and the calls of `expand_heap`.
* `Passes`: the walk passes over a list of segments that do not fit.
* `expandHeap_hdr_of_lastFree`, `expandHeap_hdr_of_lastUsed`: what `expand_heap` leaves in the
  headers. The end of the heap may wrap here, since a second expansion can reach over the top of
  the address space although the request does not.
* `MallocRun`: the calls of `malloc` up to the one that returns; `HeapInv.mallocRun` finds at
  most two expansions.
-/

namespace MicroOS

open ByteMem Chain Run

/-! ### What a call goes through -/

/-- The segments that the loop of `malloc` looks at. -/
def walkVisits (h : Heap) (size : ℕ) : ℕ → ℕ → List ℕ
  | 0, _ => []
  | fuel + 1, currentSeg =>
    if (h.hdr currentSeg).free ∧ size ≤ (h.hdr currentSeg).length then [currentSeg]
    else if (h.hdr currentSeg).next = 0 then [currentSeg]
    else currentSeg :: walkVisits h size fuel (h.hdr currentSeg).next

/-- The walks of a call of `malloc`, its own and those of the calls it makes. -/
def mallocWalks : ℕ → Heap → ℕ → List (List ℕ)
  | 0, _, _ => []
  | fuel + 1, h, size =>
    let size := roundSize size
    if size = 0 then []
    else walkVisits h size walkFuel h.heapStart ::
      match mallocWalk h size walkFuel h.heapStart with
      | some (h, none) => mallocWalks fuel (expandHeap h size) size
      | _ => []

/-- The number of calls of `expand_heap` in a call of `malloc`. -/
def expansions : ℕ → Heap → ℕ → ℕ
  | 0, _, _ => 0
  | fuel + 1, h, size =>
    let size := roundSize size
    if size = 0 then 0
    else
      match mallocWalk h size walkFuel h.heapStart with
      | some (h, none) => expansions fuel (expandHeap h size) size + 1
      | _ => 0

variable {h h' : Heap} {segs l l₁ l₂ : List Seg} {b z : Seg} {size k p : ℕ}

/-- Both see the request rounded. -/
lemma expansions_roundSize (fuel n : ℕ) :
    expansions fuel h (roundSize n) = expansions fuel h n := by
  cases fuel with
  | zero => rfl
  | succ fuel => simp only [expansions, roundSize_of_dvd (dvd_roundSize n)]

/-- The walks are those for the rounded size. -/
lemma mallocWalks_roundSize (fuel n : ℕ) :
    mallocWalks fuel h (roundSize n) = mallocWalks fuel h n := by
  cases fuel with
  | zero => rfl
  | succ fuel => simp only [mallocWalks, roundSize_of_dvd (dvd_roundSize n)]

/-! ### The walk -/

/-- The walk from `a` passes over the segments of a list, none of which fits, and comes to `b`. -/
inductive Passes (h : Heap) (size : ℕ) : ℕ → List ℕ → ℕ → Prop where
  | here (b : ℕ) : Passes h size b [] b
  | pass {a b : ℕ} {l : List ℕ} (small : (h.hdr a).free = true → (h.hdr a).length < size)
      (more : (h.hdr a).next ≠ 0) (rest : Passes h size (h.hdr a).next l b) :
      Passes h size a (a :: l) b

namespace Passes

variable {as as' : List ℕ} {a e o : ℕ}

/-- A walk goes on behind the segments that it passes. -/
lemma mallocWalk_eq (hp : Passes h size a as e) (fuel : ℕ) :
    mallocWalk h size (as.length + fuel) a = mallocWalk h size fuel e := by
  induction hp with
  | here => simp
  | pass small more _ ih =>
    rw [List.length_cons, Nat.add_right_comm, mallocWalk, if_neg, if_neg, if_neg more, ih]
    · rintro ⟨hf, heq⟩
      exact absurd (small hf) (by omega)
    · rintro ⟨hf, hgt⟩
      exact absurd (small hf) (by omega)

/-- And visits them. -/
lemma walkVisits_eq (hp : Passes h size a as e) (fuel : ℕ) :
    walkVisits h size (as.length + fuel) a = as ++ walkVisits h size fuel e := by
  induction hp with
  | here => simp
  | pass small more _ ih =>
    rw [List.length_cons, Nat.add_right_comm, walkVisits, if_neg, if_neg more, ih,
      List.cons_append]
    rintro ⟨hf, hle⟩
    exact absurd (small hf) (by omega)

/-- Segments that are passed one behind the other. -/
lemma trans (hp : Passes h size a as e) (hq : Passes h size e as' o) :
    Passes h size a (as ++ as') o := by
  induction hp with
  | here => exact hq
  | pass small more _ ih => exact .pass small more (ih hq)

/-- The walk reads the headers of the segments it passes. -/
lemma congr (hp : Passes h size a as e) (heq : ∀ x ∈ as, h'.hdr x = h.hdr x) :
    Passes h' size a as e := by
  induction hp with
  | here => exact .here _
  | pass small more _ ih =>
    have ha := heq _ List.mem_cons_self
    rw [← ha] at small more ih
    exact .pass small more (ih fun x hx => heq x (List.mem_cons_of_mem _ hx))

end Passes

/-- The walk stops at a segment that fits. -/
lemma mallocWalk_of_fits {a fuel : ℕ} (hf : (h.hdr a).free = true)
    (hle : size ≤ (h.hdr a).length) :
    ∃ h', mallocWalk h size (fuel + 1) a = some (h', some (wrap32 (a + headerSize))) := by
  rw [mallocWalk]
  by_cases hlt : size < (h.hdr a).length
  · rw [if_pos ⟨hf, hlt⟩]
    exact ⟨_, rfl⟩
  · rw [if_neg fun hc => hlt hc.2, if_pos ⟨hf, by omega⟩]
    exact ⟨_, rfl⟩

lemma walkVisits_of_fits {a fuel : ℕ} (hf : (h.hdr a).free = true)
    (hle : size ≤ (h.hdr a).length) : walkVisits h size (fuel + 1) a = [a] := by
  rw [walkVisits, if_pos ⟨hf, hle⟩]

/-- The walk ends behind a last segment that does not fit. -/
lemma mallocWalk_of_last {a fuel : ℕ} (hsmall : (h.hdr a).free = true → (h.hdr a).length < size)
    (hlast : (h.hdr a).next = 0) : mallocWalk h size (fuel + 1) a = some (h, none) := by
  rw [mallocWalk, if_neg, if_neg, if_pos hlast]
  · rintro ⟨hf, heq⟩
    exact absurd (hsmall hf) (by omega)
  · rintro ⟨hf, hgt⟩
    exact absurd (hsmall hf) (by omega)

/-- Or at the last one. -/
lemma walkVisits_of_last {a fuel : ℕ} (hsmall : (h.hdr a).free = true → (h.hdr a).length < size)
    (hlast : (h.hdr a).next = 0) : walkVisits h size (fuel + 1) a = [a] := by
  rw [walkVisits, if_neg, if_pos hlast]
  rintro ⟨hf, hle⟩
  exact absurd (hsmall hf) (by omega)

namespace Shape

/-- The first segment is at the start of the heap. -/
lemma firstD_eq (hs : Shape h segs) : firstD 0 (addrs segs) = h.heapStart := by
  cases segs with
  | nil => exact absurd rfl hs.nonempty
  | cons b l => exact hs.tiles.1

/-- The segments before one that are too small are passed over. -/
lemma passes_of_append (hs : Shape h (l₂ ++ (l₁ ++ b :: l)))
    (hsmall : ∀ s ∈ l₁, s.free = true → s.length < size) :
    Passes h size (firstD 0 (addrs (l₁ ++ b :: l))) (addrs l₁) b.addr := by
  induction l₁ generalizing l₂ with
  | nil => exact .here _
  | cons d l₁ ih =>
    have hd : h.hdr d.addr = ⟨d.length, firstD 0 (addrs (l₁ ++ b :: l)), _, d.free⟩ := hs.hdr_eq
    have hs' : Shape h ((l₂ ++ [d]) ++ (l₁ ++ b :: l)) := by simpa using hs
    have hne : firstD 0 (addrs (l₁ ++ b :: l)) ≠ 0 := by
      cases l₁ with
      | nil => exact hs'.firstD_ne_zero
      | cons e l₁ => exact hs'.firstD_ne_zero
    show Passes h size d.addr (d.addr :: addrs l₁) b.addr
    refine .pass ?_ ?_ ?_
    · rw [hd]
      exact hsmall d (by simp)
    · rw [hd]
      exact hne
    · rw [hd]
      exact ih hs' fun s hsl => hsmall s (List.mem_cons_of_mem d hsl)

/-- From the start of the heap. -/
lemma passes (hs : Shape h (l₁ ++ b :: l))
    (hsmall : ∀ s ∈ l₁, s.free = true → s.length < size) :
    Passes h size h.heapStart (addrs l₁) b.addr := by
  rw [← hs.firstD_eq]
  exact passes_of_append (show Shape h ([] ++ (l₁ ++ b :: l)) from hs) hsmall

/-- Segments have addresses of their own. -/
lemma addrs_nodup (hs : Shape h segs) : (addrs segs).Nodup := by
  refine List.pairwise_map.mpr (hs.tiles.pairwise.imp fun {s t} hst => ?_)
  simp only [Seg.size, headerSize] at hst
  omega

end Shape

/-! ### The headers that `expand_heap` leaves -/

section Expand

lemma pageCeil_pos (h0 : 0 < size) : 0 < pageCeil size := by
  rw [pageCeil]
  omega

lemma dvd_pageCeil (n : ℕ) : 0x1000 ∣ pageCeil n := Dvd.intro_left _ rfl

/-- The heap grows at its end. -/
@[simp] lemma mmapHeapEnd_heapStart (n : ℕ) : (mmapHeapEnd h n).heapStart = h.heapStart := by
  induction n with
  | zero => rfl
  | succ n ih =>
    rw [mmapHeapEnd] at ih ⊢
    rw [Function.iterate_succ_apply', mmapHeapPage, ih]

/-- By as many pages as are asked for. -/
lemma mmapHeapEnd_length (n : ℕ) : (mmapHeapEnd h n).mmaps.length = h.mmaps.length + n := by
  induction n with
  | zero => simp [mmapHeapEnd]
  | succ n ih =>
    rw [mmapHeapEnd] at ih ⊢
    rw [Function.iterate_succ_apply', mmapHeapPage, List.length_append, ih,
      List.length_singleton, Nat.add_assoc]

@[simp] lemma expandHeap_heapStart (n : ℕ) : (expandHeap h n).heapStart = h.heapStart := by
  rw [expandHeap_eq, hshCombineBackward_heapStart]
  exact mmapHeapEnd_heapStart (roundPages n / 0x1000)

/-- It moves the end by the pages of the size. -/
lemma expandHeap_heapEnd (hfit : h.heapEnd + pageCeil size < 2 ^ 32) :
    (expandHeap h size).heapEnd = h.heapEnd + pageCeil size := by
  rw [expandHeap_eq, hshCombineBackward_heapEnd, roundPages_eq (by omega)]
  exact (appendSegment_globals (dvd_pageCeil size) hfit).2.1

variable (hs : Shape h (l ++ [z])) (h0 : 0 < size) (hpages : pageCeil size < 2 ^ 32)

include hs h0 hpages

/-- Behind a segment in use the new segment stays alone. -/
lemma expandHeap_hdr_of_lastUsed (hz : z.free = false) :
    (∀ s ∈ l, (expandHeap h size).hdr s.addr = h.hdr s.addr)
      ∧ (expandHeap h size).hdr z.addr = { h.hdr z.addr with next := h.heapEnd }
      ∧ (expandHeap h size).hdr h.heapEnd = ⟨pageCeil size - 16, 0, z.addr, true⟩ := by
  have hzb := hs.bounds (b := z) (by simp)
  have hzh := hs.hdr_eq
  obtain ⟨hold, hzn, hnew⟩ :=
    appendSegment_hdr hs (pageCeil_pos h0) (dvd_pageCeil size) hpages
  have heq : expandHeap h size = appendSegment h (pageCeil size) := by
    rw [expandHeap_eq, roundPages_eq hpages, hshCombineBackward, hnew, hzn, hz, if_neg (by simp)]
  rw [heq]
  refine ⟨fun s hsl => hold s.addr ?_, ?_, hnew⟩
  · have := hs.cut.1 s hsl
    omega
  · rw [hzn, hzh]

/-- A free last segment swallows the new one. -/
lemma expandHeap_hdr_of_lastFree (hz : z.free = true) :
    (∀ s ∈ l, (expandHeap h size).hdr s.addr = h.hdr s.addr)
      ∧ (expandHeap h size).hdr z.addr
        = ⟨wrap32 (z.length + pageCeil size), 0, finalD 0 (addrs l), true⟩ := by
  have hzb := hs.bounds (b := z) (by simp)
  have hpage := pageCeil_pos h0
  have hdvd := dvd_pageCeil size
  obtain ⟨hold, hzn, hnew⟩ := appendSegment_hdr hs hpage hdvd hpages
  have hlast : (appendSegment h (pageCeil size)).lastHdr = h.heapEnd := by
    rw [appendSegment_eq hdvd hs.below]
    rfl
  have heq : expandHeap h size = hshCombineForward (appendSegment h (pageCeil size)) z.addr := by
    rw [expandHeap_eq, roundPages_eq hpages, hshCombineBackward, hnew, hzn, hz,
      if_pos ⟨hzb.1.ne', rfl⟩]
  have hsum : z.length + (pageCeil size - 16) + 16 = z.length + pageCeil size := by omega
  rw [hz] at hzn
  rw [heq, hshCombineForward_eq_of_lastHdr hzn hnew hlast (by omega), hsum]
  constructor
  · intro s hsl
    have := hs.cut.1 s hsl
    rw [Heap.hdr_setNext_of_apart _ _ (by omega), Heap.hdr_setLength_of_apart _ _ (by omega)]
    exact hold s.addr (by omega)
  · rw [Heap.hdr_setNext_self, Heap.hdr_setLength_self, wrap32_of_lt (wrap32_lt _), wrap32_zero]
    exact congrArg (fun d : HeapSegmentHeader => { d with
      length := wrap32 (z.length + pageCeil size), next := 0 }) hzn

end Expand

/-! ### The recursion -/

/-- The call of `malloc` for `size` bytes in `h` returns `p` after `k` calls of `expand_heap`, and
no walk on the way looks at a segment twice. -/
inductive MallocRun (size : ℕ) : Heap → ℕ → Heap → ℕ → Prop where
  | found {h h' : Heap} {p : ℕ}
      (walk : mallocWalk h size walkFuel h.heapStart = some (h', some p))
      (once : (walkVisits h size walkFuel h.heapStart).Nodup) : MallocRun size h 0 h' p
  | expand {h h' : Heap} {k p : ℕ}
      (walk : mallocWalk h size walkFuel h.heapStart = some (h, none))
      (once : (walkVisits h size walkFuel h.heapStart).Nodup)
      (retry : MallocRun size (expandHeap h size) k h' p) : MallocRun size h (k + 1) h' p

namespace MallocRun

/-- What a run says about `malloc`. -/
lemma malloc_eq (hr : MallocRun size h k h' p) (h0 : 0 < size) (h16 : 16 ∣ size) {fuel : ℕ}
    (hfuel : k < fuel) : malloc fuel h size = some (h', p) := by
  induction hr generalizing fuel with
  | found walk _ =>
    obtain ⟨fuel, rfl⟩ : ∃ f, fuel = f + 1 := ⟨fuel - 1, by omega⟩
    simp only [malloc, roundSize_of_dvd h16, if_neg h0.ne', walk]
  | expand walk _ _ ih =>
    obtain ⟨fuel, rfl⟩ : ∃ f, fuel = f + 1 := ⟨fuel - 1, by omega⟩
    simp only [malloc, roundSize_of_dvd h16, if_neg h0.ne', walk]
    exact ih (by omega)

/-- No more expansions are made than the run of `malloc` has. -/
lemma expansions_le (hr : MallocRun size h k h' p) (h0 : 0 < size) (h16 : 16 ∣ size) (fuel : ℕ) :
    expansions fuel h size ≤ k := by
  induction hr generalizing fuel with
  | found walk _ =>
    cases fuel with
    | zero => exact Nat.zero_le _
    | succ fuel => simp only [expansions, roundSize_of_dvd h16, if_neg h0.ne', walk, le_refl]
  | expand walk _ _ ih =>
    cases fuel with
    | zero => exact Nat.zero_le _
    | succ fuel =>
      simp only [expansions, roundSize_of_dvd h16, if_neg h0.ne', walk]
      exact Nat.succ_le_succ (ih fuel)

/-- **No walk visits a segment twice.** -/
lemma walks_nodup (hr : MallocRun size h k h' p) (h0 : 0 < size) (h16 : 16 ∣ size) (fuel : ℕ) :
    ∀ walk ∈ mallocWalks fuel h size, walk.Nodup := by
  induction hr generalizing fuel with
  | found walk once =>
    cases fuel with
    | zero => simp [mallocWalks]
    | succ fuel => simpa [mallocWalks, roundSize_of_dvd h16, h0.ne', walk] using once
  | expand walk once _ ih =>
    cases fuel with
    | zero => simp [mallocWalks]
    | succ fuel =>
      simp only [mallocWalks, roundSize_of_dvd h16, if_neg h0.ne', walk, List.forall_mem_cons]
      exact ⟨once, ih fuel⟩

/-- A run whose walk passes some segments and stops at one that fits. -/
lemma of_passes {as : List ℕ} {a : ℕ} (hp : Passes h size h.heapStart as a)
    (hf : (h.hdr a).free = true) (hle : size ≤ (h.hdr a).length) (hnodup : (as ++ [a]).Nodup)
    (hlen : as.length < walkFuel) : ∃ h', MallocRun size h 0 h' (wrap32 (a + headerSize)) := by
  obtain ⟨fuel, hfuel⟩ : ∃ f, walkFuel = as.length + (f + 1) :=
    ⟨walkFuel - as.length - 1, by omega⟩
  obtain ⟨h', hwalk⟩ : ∃ h', mallocWalk h size (fuel + 1) a
      = some (h', some (wrap32 (a + headerSize))) := mallocWalk_of_fits hf hle
  refine ⟨h', .found ?_ ?_⟩
  · rw [hfuel, hp.mallocWalk_eq]
    exact hwalk
  · rw [hfuel, hp.walkVisits_eq, walkVisits_of_fits hf hle]
    exact hnodup

/-- A run that has to expand first, since no segment fits. -/
lemma of_expand (hs : Shape h (l ++ [z]))
    (hsmall : ∀ s ∈ l ++ [z], s.free = true → s.length < size)
    (hretry : MallocRun size (expandHeap h size) k h' p) : MallocRun size h (k + 1) h' p := by
  have hz := hs.hdr_eq
  have hp : Passes h size h.heapStart (addrs l) z.addr :=
    hs.passes fun s hsl => hsmall s (by simp [hsl])
  have hlen := hs.length_lt_walkFuel
  obtain ⟨fuel, hfuel⟩ : ∃ f, walkFuel = (addrs l).length + (f + 1) := by
    refine ⟨walkFuel - l.length - 1, ?_⟩
    rw [List.length_append] at hlen
    rw [addrs, List.length_map]
    omega
  have hzsmall : (h.hdr z.addr).free = true → (h.hdr z.addr).length < size := by
    rw [hz]
    exact hsmall z (by simp)
  have hznext : (h.hdr z.addr).next = 0 := by
    rw [hz]
    rfl
  refine .expand ?_ ?_ hretry
  · rw [hfuel, hp.mallocWalk_eq, mallocWalk_of_last hzsmall hznext]
  · rw [hfuel, hp.walkVisits_eq, walkVisits_of_last hzsmall hznext]
    simpa [addrs] using hs.addrs_nodup

end MallocRun

namespace HeapInv

variable (size) in
/-- The first walk returns a block, or no segment fits. -/
lemma found_or (hi : HeapInv h segs) :
    (∃ h' p, p ≠ 0 ∧ MallocRun size h 0 h' p)
    ∨ ∀ s ∈ segs, s.free = true → s.length < size := by
  have hs := hi.shape
  by_cases hfit : ∃ s ∈ segs, s.free = true ∧ size ≤ s.length
  · -- the first segment that fits
    obtain ⟨b, hb⟩ : ∃ b, segs.find? (fun s => s.free && decide (size ≤ s.length)) = some b := by
      obtain ⟨s, hsl, hf, hle⟩ := hfit
      exact Option.isSome_iff_exists.mp (List.find?_isSome.mpr ⟨s, hsl, by simp [hf, hle]⟩)
    obtain ⟨hbfit, l₁, l₂, rfl, hno⟩ := List.find?_eq_some_iff_append.mp hb
    simp only [Bool.and_eq_true, decide_eq_true_eq] at hbfit
    have hbb := hs.bounds (b := b) (by simp)
    have hbh := hs.hdr_eq
    have hlen := hs.length_lt_walkFuel
    have hp : Passes h size h.heapStart (addrs l₁) b.addr := hs.passes fun s hsl hf => by
      have := hno s hsl
      simpa [hf] using this
    have hnodup : (addrs l₁ ++ [b.addr]).Nodup := by
      refine hs.addrs_nodup.sublist ?_
      simp [addrs]
    obtain ⟨h', hr⟩ := MallocRun.of_passes hp (by rw [hbh]; exact hbfit.1)
      (by rw [hbh]; exact hbfit.2) hnodup (by simp at hlen ⊢; omega)
    refine Or.inl ⟨h', _, ?_, hr⟩
    rw [headerSize, wrap32_of_lt (by omega)]
    omega
  · refine Or.inr fun s hsl hf => ?_
    by_contra hlt
    exact hfit ⟨s, hsl, hf, by omega⟩

end HeapInv

/-- Behind a last segment in use the walk comes to the new one. -/
lemma passes_expandHeap (hs : Shape h (l ++ [z]))
    (hsmall : ∀ s ∈ l ++ [z], s.free = true → s.length < size) (hz : z.free = false)
    (hold : ∀ s ∈ l, (expandHeap h size).hdr s.addr = h.hdr s.addr)
    (hlast : (expandHeap h size).hdr z.addr = { h.hdr z.addr with next := h.heapEnd }) :
    Passes (expandHeap h size) size (expandHeap h size).heapStart (addrs l ++ [z.addr])
      h.heapEnd := by
  have hzb := hs.bounds (b := z) (by simp)
  have hold' : Passes h size h.heapStart (addrs l) z.addr :=
    hs.passes fun s hsl => hsmall s (by simp [hsl])
  rw [expandHeap_heapStart]
  refine Passes.trans (e := z.addr) ?_ (.pass ?_ ?_ ?_)
  · refine hold'.congr fun a ha => ?_
    obtain ⟨s, hsl, rfl⟩ := List.mem_map.mp ha
    exact hold s hsl
  · simp [hlast, hs.hdr_eq, hz]
  · rw [hlast]
    exact (show 0 < h.heapEnd by omega).ne'
  · rw [hlast]
    exact .here h.heapEnd

section LastSegment

variable (hs : Shape h (l ++ [z])) (h0 : 0 < size) (hpages : pageCeil size < 2 ^ 32)
  (hsmall : ∀ s ∈ l ++ [z], s.free = true → s.length < size)

include hs h0 hpages hsmall

/-- Behind a free last segment one expansion is enough, wherever the heap ends. -/
lemma mallocRun_of_lastFree (hz : z.free = true) (hsum : z.length + pageCeil size < 2 ^ 32) :
    ∃ h' p, p ≠ 0 ∧ MallocRun size h 1 h' p := by
  obtain ⟨hold, hnew⟩ := expandHeap_hdr_of_lastFree hs h0 hpages hz
  have hzb := hs.bounds (b := z) (by simp)
  have hlen := hs.length_lt_walkFuel
  have hold' : Passes h size h.heapStart (addrs l) z.addr :=
    hs.passes fun s hsl => hsmall s (by simp [hsl])
  have hp : Passes (expandHeap h size) size (expandHeap h size).heapStart (addrs l) z.addr := by
    rw [expandHeap_heapStart]
    refine hold'.congr fun a ha => ?_
    obtain ⟨s, hsl, rfl⟩ := List.mem_map.mp ha
    exact hold s hsl
  have hnodup : (addrs l ++ [z.addr]).Nodup := by simpa [addrs] using hs.addrs_nodup
  have hroom : size ≤ z.length + pageCeil size := by
    rw [pageCeil]
    omega
  rw [wrap32_of_lt hsum] at hnew
  obtain ⟨h', hr⟩ := MallocRun.of_passes hp (by rw [hnew]) (by rw [hnew]; exact hroom) hnodup
    (by simp at hlen ⊢; omega)
  refine ⟨h', _, ?_, MallocRun.of_expand hs hsmall hr⟩
  rw [headerSize, wrap32_of_lt (by omega)]
  omega

/-- Behind a last segment in use one expansion is enough for a request that leaves room for the
header in its last page. -/
lemma mallocRun_of_lastUsed (hz : z.free = false) (hroom : size + 16 ≤ pageCeil size)
    (hend : h.heapEnd + 16 < 2 ^ 32) : ∃ h' p, p ≠ 0 ∧ MallocRun size h 1 h' p := by
  obtain ⟨hold, hlast, hnew⟩ := expandHeap_hdr_of_lastUsed hs h0 hpages hz
  have hzb := hs.bounds (b := z) (by simp)
  have hlen := hs.length_lt_walkFuel
  have hp := passes_expandHeap hs hsmall hz hold hlast
  have hnodup : ((addrs l ++ [z.addr]) ++ [h.heapEnd]).Nodup := by
    have hsegs : (addrs l ++ [z.addr]).Nodup := by simpa [addrs] using hs.addrs_nodup
    refine List.nodup_append.mpr ⟨hsegs, by simp, ?_⟩
    intro a ha e he heq
    have hmem : a ∈ addrs (l ++ [z]) := by simpa [addrs] using ha
    obtain ⟨s, hsl, rfl⟩ := List.mem_map.mp hmem
    have hsb := hs.bounds hsl
    rw [List.mem_singleton.mp he] at heq
    omega
  obtain ⟨h', hr⟩ := MallocRun.of_passes hp (by rw [hnew]) (by rw [hnew]; simp only; omega) hnodup
    (by simpa using hlen)
  refine ⟨h', _, ?_, MallocRun.of_expand hs hsmall hr⟩
  rw [headerSize, wrap32_of_lt hend]
  omega

end LastSegment

/-- **At most two expansions**, in a heap in the upper half of the address space whose end is the
start of a page: the rounded request fits below the top, its expansions need not. -/
theorem HeapInv.mallocRun (hi : HeapInv h segs) (h0 : 0 < size) (h16 : 16 ∣ size)
    (hhigh : 2 ^ 31 ≤ h.heapStart) (hpage : 0x1000 ∣ h.heapEnd)
    (hfit : h.heapEnd + size < 2 ^ 32) : ∃ k ≤ 2, ∃ h' p, p ≠ 0 ∧ MallocRun size h k h' p := by
  have hceil : size ≤ pageCeil size ∧ pageCeil size < size + 0x1000 := by
    rw [pageCeil]
    omega
  have hdvd := dvd_pageCeil size
  have hs := hi.shape
  obtain rfl | ⟨l, z, rfl⟩ := List.eq_nil_or_concat' segs
  · exact absurd rfl hs.nonempty
  have hzb := hs.bounds (b := z) (by simp)
  rcases hi.found_or size with ⟨h', p, hp, hr⟩ | hsmall
  · exact ⟨0, by norm_num, h', p, hp, hr⟩
  cases hz : z.free with
  | true =>
    obtain ⟨h', p, hp, hr⟩ := mallocRun_of_lastFree hs h0 (by omega) hsmall hz (by omega)
    exact ⟨1, by norm_num, h', p, hp, hr⟩
  | false =>
    by_cases hroom : size + 16 ≤ pageCeil size
    · obtain ⟨h', p, hp, hr⟩ :=
        mallocRun_of_lastUsed hs h0 (by omega) hsmall hz hroom (by omega)
      exact ⟨1, by norm_num, h', p, hp, hr⟩
    · -- a page multiple: the new segment is a header too small, and the next one merges with it
      obtain ⟨l', f, hi', _, hstart, hf, _, _⟩ := expandHeap_spec hi h0 (by omega)
      have hs' := hi'.shape
      have hfb := hs'.bounds (b := f) (by simp)
      have hend : (expandHeap h size).heapEnd = h.heapEnd + pageCeil size :=
        expandHeap_heapEnd (by omega)
      rcases hi'.found_or size with ⟨h', p, hp, hr⟩ | hsmall'
      · exact ⟨1, by norm_num, h', p, hp, MallocRun.of_expand hs hsmall hr⟩
      · obtain ⟨h', p, hp, hr⟩ :=
          mallocRun_of_lastFree hs' h0 (by omega) hsmall' hf (by omega)
        exact ⟨2, le_refl 2, h', p, hp, MallocRun.of_expand hs hsmall hr⟩

end MicroOS
