import MicroOS.User.HeapProgram

/-!
The sizes that `malloc`, `calloc` and `realloc` are asked for, and those of the blocks they return.

Three computations in 32 bits may wrap: the product of `calloc`, the rounding to sixteen bytes, and
the end of the heap.

* `SizesRight`: a call returns null or a block of the size asked for, and `calloc` clears the block
  or nothing;
* `SizesFit`: nothing wraps that the call goes on with;
* `malloc_noPages`: a request that rounds to no page at all never returns null;
* `sizesRight_of_fit`, `fit_of_sizesRight`: the calls that fit are the calls that are right;
* `sizesRight_iff`: **in a run of calls that fit, the next call is right exactly when it fits**.
-/

namespace MicroOS

open ByteMem Chain Run

/-! ### Calls and their sizes -/

/-- A block with room for `n` bytes, which lie in the heap. -/
structure SizedBlock (h : Heap) (p n : ℕ) : Prop where
  room : n ≤ h.capacity p
  start : h.heapStart ≤ p
  stop : p + n ≤ h.top

/-- What a call may return: null, or a block of the size asked for. -/
def SizedAnswer (h : Heap) : HeapCall → Heap → ℕ → Prop
  | .malloc n, h', r => r = 0 ∨ SizedBlock h' r n.toNat
  | .calloc count size, h', r =>
    r = 0 ∧ h' = h ∨ SizedBlock h' r (count.toNat * size.toNat) ∧
      ∀ i < count.toNat * size.toNat, h'.mem (r + i) = 0
  | .realloc _ n, h', r => n = 0 ∨ r = 0 ∨ SizedBlock h' r n.toNat
  | .free _, _, _ => True

/-- The call returns, leaves the heap below the top of the address space, and answers right. -/
def SizesRight (c : Client) (op : HeapCall) : Prop :=
  ∃ fuel h' r, op.execWith fuel c.heap = some (h', r) ∧ h'.top < 2 ^ 32 ∧ SizedAnswer c.heap op h' r

/-- A request that rounds to whole pages, and that the heap has or can grow by. -/
structure RequestFits (h : Heap) (n : ℕ) : Prop where
  rounds : n + 0xfff < 2 ^ 32
  fits : mallocFits HeapCall.fuel h n

/-- `malloc` gets a request that rounds to nothing or that fits; `calloc` gets a product that is
zero in 32 bits, or one that fits as it is. -/
def SizesFit (c : Client) : HeapCall → Prop
  | .malloc n => roundSize n.toNat = 0 ∨ RequestFits c.heap n.toNat
  | .calloc count size =>
    wrap32 (count.toNat * size.toNat) = 0 ∨ RequestFits c.heap (count.toNat * size.toNat)
  | .realloc p n =>
    n = 0 ∨ p ≠ 0 ∧ n.toNat ≤ c.heap.capacity p ∨ roundSize n.toNat = 0 ∨
      RequestFits c.heap n.toNat
  | .free _ => True

/-- One step of a program: a call that fits, or a store into one of its blocks. -/
inductive SizedStep : Client → Client → Prop where
  | call {c c' : Client} {r : ℕ} (fuel : ℕ) (op : HeapCall) (legal : c.Legal op)
      (sizes : SizesFit c op) (returns : c.callWith fuel op = some (c', r)) : SizedStep c c'
  | store {c : Client} {p n : ℕ} (a : ℕ) (v : UInt8) (live : (p, n) ∈ c.live) (low : p ≤ a)
      (high : a < p + n) :
      SizedStep c { c with heap := { c.heap with mem := writeByte c.heap.mem a v } }

variable {h h' : Heap} {c c' : Client} {segs segs' l : List Seg} {z : Seg} {op : HeapCall}
  {size fuel n p r : ℕ}

/-! ### Requests that round to no page -/

/-- A length in the last page of the address space. -/
lemma roundPages_eq_zero (hlow : 0xfffff000 < size) (hhigh : size < 2 ^ 32) :
    roundPages size = 0 := by
  rw [roundPages, wrap32, if_pos (by omega)]
  omega

/-- The invariant reads the globals and the headers of the segments. -/
lemma HeapInv.congr (hi : HeapInv h segs) (hstart : h'.heapStart = h.heapStart)
    (hend : h'.heapEnd = h.heapEnd) (hlast : h'.lastHdr = h.lastHdr) (hmmaps : h'.mmaps = h.mmaps)
    (hsplits : h'.splits = h.splits) (hhdr : ∀ s ∈ segs, h'.hdr s.addr = h.hdr s.addr) :
    HeapInv h' segs := by
  obtain ⟨hs, hn, hlog, hmapped⟩ := hi
  refine ⟨⟨hs.nonempty, ?_, ?_, ?_, hlast.trans hs.final, hs.length, hstart ▸ hs.pos,
    hend ▸ hs.below⟩, hn, hsplits ▸ hlog, ?_⟩
  · rw [hstart, hend]
    exact hs.tiles
  · refine hs.linked.congr ?_ ?_ <;>
    · intro a ha
      obtain ⟨s, hsl, rfl⟩ := List.mem_map.mp ha
      rw [hhdr s hsl]
  · intro s hsl
    rw [hhdr s hsl]
    exact hs.stored s hsl
  · rw [hstart, hend, hmmaps]
    exact hmapped

section NoPages

variable (hs : Shape h (l ++ [z])) (hpages : roundPages size = 0)

include hs hpages

/-- Behind a segment in use the new segment has the length of nearly everything. -/
lemma expandHeap_noPages_used (hz : z.free = false) :
    (∀ s ∈ l, (expandHeap h size).hdr s.addr = h.hdr s.addr)
      ∧ (expandHeap h size).hdr z.addr = { h.hdr z.addr with next := h.heapEnd }
      ∧ (expandHeap h size).hdr h.heapEnd = ⟨2 ^ 32 - 16, 0, z.addr, true⟩ := by
  obtain ⟨hold, hzn, hnew⟩ := appendSegment_hdr_sub32 hs (Nat.dvd_zero 0x1000)
  have heq : expandHeap h size = appendSegment h 0 := by
    rw [expandHeap_eq, hpages, hshCombineBackward, hnew, hzn, hz, if_neg (by simp)]
  rw [heq]
  refine ⟨fun s hsl => hold s.addr ?_, ?_, hnew⟩
  · have := hs.cut.1 s hsl
    omega
  · rw [hzn, hs.hdr_eq]

/-- A free last segment swallows the new one and is as long as before. -/
lemma expandHeap_noPages_free (hi : HeapInv h (l ++ [z])) (hz : z.free = true) :
    HeapInv (expandHeap h size) (l ++ [z]) ∧ (expandHeap h size).heapEnd = h.heapEnd := by
  have hzb := hs.bounds (b := z) (by simp)
  obtain ⟨hold, hzn, hnew⟩ := appendSegment_hdr_sub32 hs (Nat.dvd_zero 0x1000)
  have happend := appendSegment_eq (Nat.dvd_zero 0x1000) hs.below
  have hlast : (appendSegment h 0).lastHdr = h.heapEnd := by
    rw [happend]
    rfl
  have hsub : sub32 0 headerSize = 2 ^ 32 - 16 := rfl
  have hlength : wrap32 (z.length + (2 ^ 32 - 16) + 16) = z.length := by
    rw [wrap32]
    omega
  rw [hz] at hzn
  rw [hsub] at hnew
  have heq : expandHeap h size = Heap.setNext
      (Heap.setLength { appendSegment h 0 with lastHdr := z.addr } z.addr z.length) z.addr 0 := by
    rw [expandHeap_eq, hpages, hshCombineBackward, hnew, hzn, if_pos ⟨hzb.1.ne', rfl⟩,
      hshCombineForward_eq_of_lastHdr hzn hnew hlast (by omega), hlength]
  have hhdr : ∀ s ∈ l ++ [z], (expandHeap h size).hdr s.addr = h.hdr s.addr := by
    intro s hsl
    rw [heq]
    cases List.mem_append.mp hsl with
    | inl hsl =>
      have := hs.cut.1 s hsl
      rw [Heap.hdr_setNext_of_apart _ _ (by omega), Heap.hdr_setLength_of_apart _ _ (by omega)]
      exact hold s.addr (by omega)
    | inr hsz =>
      rw [List.mem_singleton.mp hsz, Heap.hdr_setNext_self, Heap.hdr_setLength_self, hs.hdr_eq,
        wrap32_of_lt (by omega), wrap32_zero, hz]
      exact congrArg (fun d : HeapSegmentHeader => { d with length := z.length, next := 0 }) hzn
  have hend : (expandHeap h size).heapEnd = h.heapEnd := by
    rw [heq, happend]
    exact wrap32_of_lt hs.below
  refine ⟨hi.congr (expandHeap_heapStart size) hend ?_ ?_ ?_ hhdr, hend⟩
  · rw [heq, hs.lastHdr_eq_iff.mpr rfl]
    rfl
  · rw [heq, happend]
    exact List.append_nil h.mmaps
  · rw [heq, happend]
    rfl

end NoPages

/-- **A request that rounds to no page never returns null**: behind a free segment `malloc` goes on
for ever, and behind one in use it takes a segment that is not there. -/
lemma malloc_noPages (hi : HeapInv h segs) (h16 : 16 ∣ size) (hlow : 0xfffff000 < size)
    (hhigh : size < 2 ^ 32) (hend : h.heapEnd + 16 < 2 ^ 32)
    (heq : malloc fuel h size = some (h', r)) : r ≠ 0 := by
  have h0 : size ≠ 0 := by omega
  have hpages := roundPages_eq_zero hlow hhigh
  induction fuel generalizing h with
  | zero => exact absurd heq (by simp [malloc])
  | succ fuel ih =>
    have hs := hi.shape
    obtain rfl | ⟨l, z, rfl⟩ := List.eq_nil_or_concat' segs
    · exact absurd rfl hs.nonempty
    rcases mallocWalk_heap hi (Nat.pos_of_ne_zero h0) h16 with
      ⟨h₁, q, segs₁, hw, ha⟩ | ⟨hsmall, hw⟩
    · simp only [malloc, roundSize_of_dvd h16, if_neg h0, hw, Option.some.injEq,
        Prod.mk.injEq] at heq
      rw [← heq.2]
      exact ha.below.1.ne'
    · simp only [malloc, roundSize_of_dvd h16, if_neg h0, hw] at heq
      cases hz : z.free with
      | true =>
        -- the heap grows by no page: a free last segment takes the call back to where it was
        obtain ⟨hi', hend'⟩ := expandHeap_noPages_free hs hpages hi hz
        exact ih hi' (by rw [hend']; exact hend) heq
      | false =>
        cases fuel with
        | zero => exact absurd heq (by simp [malloc])
        | succ fuel =>
          -- behind a used one stands a header whose length wraps to almost 2^32
          obtain ⟨hold, hlast, hnew⟩ := expandHeap_noPages_used hs hpages hz
          have hp := passes_expandHeap hs hsmall hz hold hlast
          have hlen := hs.length_lt_walkFuel
          obtain ⟨k, hk⟩ : ∃ k, walkFuel = (addrs l ++ [z.addr]).length + (k + 1) := by
            refine ⟨walkFuel - (l ++ [z]).length - 1, ?_⟩
            have hlength : (addrs l ++ [z.addr]).length = (l ++ [z]).length := by
              simp [addrs]
            omega
          have hroom : size ≤ ((expandHeap h size).hdr h.heapEnd).length := by
            rw [hnew]
            show size ≤ 2 ^ 32 - 16
            omega
          obtain ⟨h₁, hfound⟩ : ∃ h₁, mallocWalk (expandHeap h size) size (k + 1) h.heapEnd =
              some (h₁, some (wrap32 (h.heapEnd + headerSize))) :=
            mallocWalk_of_fits (by rw [hnew]) hroom
          have hwalk : mallocWalk (expandHeap h size) size walkFuel
              (expandHeap h size).heapStart =
              some (h₁, some (wrap32 (h.heapEnd + headerSize))) := by
            rw [hk, hp.mallocWalk_eq, hfound]
          simp only [malloc, roundSize_of_dvd h16, if_neg h0, hwalk, Option.some.injEq,
            Prod.mk.injEq] at heq
          rw [← heq.2, headerSize, wrap32_of_lt hend]
          omega

/-! ### Runs of calls that fit -/

/-- A size that is rounded to zero always fits. -/
lemma mallocFits_of_roundSize (h0 : roundSize n = 0) (k : ℕ) : mallocFits k h n := by
  rw [← mallocFits_roundSize, h0]
  exact mallocFits_zero k

/-- A call that fits is one of `HeapRun`. -/
lemma SizesFit.fits (hsizes : SizesFit c op) : c.Fits op := by
  cases op with
  | malloc n =>
    cases hsizes with
    | inl h0 => exact mallocFits_of_roundSize h0 _
    | inr hfit => exact hfit.fits
  | calloc count size =>
    cases hsizes with
    | inl h0 =>
      show wrap32 _ + 0xf < 2 ^ 32 ∧ mallocFits _ _ (wrap32 _)
      rw [h0]
      exact ⟨by norm_num, mallocFits_zero _⟩
    | inr hfit =>
      have hrounds := hfit.rounds
      show wrap32 _ + 0xf < 2 ^ 32 ∧ mallocFits _ _ (wrap32 _)
      rw [wrap32_of_lt (by omega)]
      exact ⟨by omega, hfit.fits⟩
  | realloc p n =>
    intro hmove
    rcases hsizes with h0 | ⟨hp, hroom⟩ | h0 | hfit
    · rw [h0]
      exact mallocFits_zero _
    · omega
    · exact mallocFits_of_roundSize h0 _
    · exact hfit.fits
  | free p => trivial

/-- The walk maps no page. -/
lemma mallocWalk_top {a : ℕ} {o : Option ℕ} (heq : mallocWalk h size fuel a = some (h', o)) :
    h'.top = h.top := by
  induction fuel generalizing a with
  | zero => exact absurd heq (by simp [mallocWalk])
  | succ fuel ih =>
    rw [mallocWalk] at heq
    split_ifs at heq
    · cases heq
      simp [Heap.top]
    · cases heq
      simp [Heap.top]
    · cases heq
      rfl
    · exact ih heq

lemma free_top (a : ℕ) : (free h a).top = h.top := by simp [Heap.top, free]

/-- A request that fits leaves the heap below the top. -/
lemma malloc_top_lt (hend : h.heapEnd = h.top) (hlt : h.top < 2 ^ 32)
    (hfits : mallocFits fuel h n) (heq : malloc fuel h n = some (h', p)) : h'.top < 2 ^ 32 := by
  induction fuel generalizing h n with
  | zero => exact absurd heq (by simp [malloc])
  | succ fuel ih =>
    simp only [malloc] at heq
    split_ifs at heq with h0
    · cases heq
      exact hlt
    · cases hw : mallocWalk h (roundSize n) walkFuel h.heapStart with
      | none => simp [hw] at heq
      | some w =>
        obtain ⟨h₁, o⟩ := w
        cases o with
        | some q =>
          simp only [hw] at heq
          cases heq
          rw [mallocWalk_top hw]
          exact hlt
        | none =>
          obtain rfl := (mallocWalk_grows hw).2 rfl
          simp only [hw] at heq
          simp only [mallocFits, hw] at hfits
          obtain ⟨hfit, hfits⟩ := hfits h0
          have htop : (expandHeap h₁ (roundSize n)).top = h₁.top + pageCeil (roundSize n) :=
            expandHeap_top (by omega)
          have hend' : (expandHeap h₁ (roundSize n)).heapEnd =
              (expandHeap h₁ (roundSize n)).top := by
            rw [expandHeap_heapEnd hfit, htop, hend]
          exact ih hend' (by omega) hfits heq

/-- `realloc` frees, stays, or moves to what `malloc` returned; only `malloc` maps pages. -/
lemma realloc_cases (heq : realloc fuel h p n = some (h', r)) :
    (n = 0 ∨ p ≠ 0 ∧ n ≤ h.capacity p) ∧ h'.top = h.top ∨
      (p = 0 ∨ h.capacity p < n) ∧ ∃ h₁, malloc fuel h n = some (h₁, r) ∧ h'.top = h₁.top := by
  simp only [realloc] at heq
  split_ifs at heq with h0 hp hstay
  · simp only [Option.some.injEq, Prod.mk.injEq] at heq
    rw [← heq.1, free_top]
    exact .inl ⟨.inl h0, rfl⟩
  · exact .inr ⟨.inl hp, h', heq, rfl⟩
  · simp only [Option.some.injEq, Prod.mk.injEq] at heq
    rw [heq.1]
    exact .inl ⟨.inr ⟨hp, heq.1 ▸ hstay⟩, rfl⟩
  · refine .inr ⟨.inr (Nat.lt_of_not_le hstay), ?_⟩
    cases hm : malloc fuel h n with
    | none => simp [hm] at heq
    | some y =>
      obtain ⟨h₁, q⟩ := y
      simp only [hm] at heq
      split_ifs at heq with hq
      · simp only [Option.some.injEq, Prod.mk.injEq] at heq
        rw [← heq.1, ← heq.2, free_top]
        exact ⟨h₁, rfl, rfl⟩
      · simp only [Option.some.injEq, Prod.mk.injEq] at heq
        rw [← heq.1, ← heq.2]
        exact ⟨h₁, rfl, rfl⟩

/-- `calloc` clears what `malloc` returned. -/
lemma calloc_cases {count size : ℕ} (heq : calloc fuel h count size = some (h', r)) :
    ∃ h₁, malloc fuel h (wrap32 (count * size)) = some (h₁, r) ∧
      h' = { h₁ with mem := memset h₁.mem r 0 (wrap32 (count * size)) } := by
  rw [calloc] at heq
  cases hm : malloc fuel h (wrap32 (count * size)) with
  | none => simp [hm] at heq
  | some y =>
    obtain ⟨h₁, q⟩ := y
    simp only [hm, Option.some.injEq, Prod.mk.injEq] at heq
    obtain ⟨heq, rfl⟩ := heq
    exact ⟨h₁, rfl, heq.symm⟩

/-- A call that fits leaves the heap below the top. -/
lemma execWith_top_lt (hend : c.heap.heapEnd = c.heap.top) (hlt : c.heap.top < 2 ^ 32)
    (hfits : c.Fits op) (heq : op.execWith HeapCall.fuel c.heap = some (h', r)) :
    h'.top < 2 ^ 32 := by
  cases op with
  | malloc n => exact malloc_top_lt hend hlt hfits heq
  | calloc count size =>
    obtain ⟨h₁, hm, rfl⟩ := calloc_cases heq
    have htop : h₁.top < 2 ^ 32 := malloc_top_lt hend hlt hfits.2 hm
    exact htop
  | realloc p n =>
    rcases realloc_cases heq with ⟨-, hsame⟩ | ⟨hmove, h₁, hm, hsame⟩
    · rwa [hsame]
    · rw [hsame]
      exact malloc_top_lt hend hlt (hfits hmove) hm
  | free p =>
    simp only [HeapCall.execWith, Option.some.injEq, Prod.mk.injEq] at heq
    rw [← heq.1, free_top]
    exact hlt

/-- **In a run of calls that fit** the heap has its invariant, starts at `HEAP_ADDRESS` and ends
where the pages end. -/
lemma sized_invariant (hc : Reachable HeapBooted SizedStep c) : (∃ segs, ClientInv c segs) ∧
    c.heap.heapStart = 0xD0000000 ∧ c.heap.heapEnd = c.heap.top := by
  refine hc.invariant (fun c => (∃ segs, ClientInv c segs) ∧
    c.heap.heapStart = 0xD0000000 ∧ c.heap.heapEnd = c.heap.top) ?_ ?_
  · rintro c hboot
    obtain ⟨hstart, hwrap, hrun⟩ := program_invariant (.start hboot)
    obtain ⟨m, rfl⟩ := hboot
    have htop : (initializeHeap m 0xD0000000 0x10).top < 2 ^ 32 := by
      simp [initializeHeap, Heap.top, mmapFrom]
    rw [wrap32_of_lt htop] at hwrap
    exact ⟨ClientInv.of_reachable (hrun htop), hstart, hwrap⟩
  · rintro c c' ⟨⟨segs, hinv⟩, hstart, hend⟩ hst
    cases hst with
    | store a v live low high =>
      exact ⟨⟨segs, (hinv.store live low high).1⟩, hstart, hend⟩
    | @call _ r fuel op legal sizes returns =>
      obtain ⟨⟨h', r'⟩, hexec, hout⟩ := Option.map_eq_some_iff.mp returns
      simp only [Prod.mk.injEq] at hout
      obtain ⟨rfl, rfl⟩ := hout
      have hfits := sizes.fits
      obtain ⟨c₁, r₁, segs₁, hcall, hinv₁, -⟩ := hinv.call legal hfits
      obtain ⟨⟨h₁, r₂⟩, hexec₁, hout₁⟩ := Option.map_eq_some_iff.mp hcall
      simp only [Prod.mk.injEq] at hout₁
      obtain ⟨rfl, rfl⟩ := hout₁
      rw [HeapCall.exec_eq] at hexec₁
      have hsame := HeapCall.execWith_unique hexec₁ hexec
      simp only [Prod.mk.injEq] at hsame
      obtain ⟨rfl, rfl⟩ := hsame
      have hgrows := HeapCall.execWith_grows hexec₁
      have hlt : c.heap.top < 2 ^ 32 := hend ▸ hinv.inv.shape.below
      have htop := execWith_top_lt hend hlt hfits hexec₁
      have hwrap := hgrows.wraps (by rw [wrap32_of_lt hlt, hend])
      rw [wrap32_of_lt htop] at hwrap
      exact ⟨⟨segs₁, hinv₁⟩, hgrows.start.trans hstart, hwrap⟩

/-! ### Calls that fit are right -/

/-- A fresh block is one of the heap. -/
lemma Allocates.sizedBlock (ha : Allocates h segs n h' p segs') (hend : h'.heapEnd = h'.top) :
    SizedBlock h' p n := by
  obtain ⟨b, hb, -, rfl, hroom, -⟩ := ha.fresh
  have hs := ha.inv.shape
  have hbounds := hs.bounds hb
  refine ⟨by rwa [hs.capacity_payload hb], ?_, ?_⟩
  · rw [Seg.payload, headerSize]
    omega
  · rw [Seg.payload, headerSize, ← hend]
    omega

/-- Where the heap ends after a call that fits. -/
lemma execWith_end (hend : c.heap.heapEnd = c.heap.top) (hlt : c.heap.top < 2 ^ 32)
    (hfits : c.Fits op) (heq : op.execWith HeapCall.fuel c.heap = some (h', r)) :
    h'.heapEnd = h'.top ∧ h'.top < 2 ^ 32 := by
  have htop := execWith_top_lt hend hlt hfits heq
  have hwrap := (HeapCall.execWith_grows heq).wraps (by rw [wrap32_of_lt hlt, hend])
  rw [wrap32_of_lt htop] at hwrap
  exact ⟨hwrap, htop⟩

section Right

variable (hinv : ClientInv c segs) (hend : c.heap.heapEnd = c.heap.top)
  (hlt : c.heap.top < 2 ^ 32)

include hinv hend hlt

/-- `malloc`, and `realloc` of null. -/
lemma malloc_right {n : UInt32} (hfits : c.Fits (.malloc n)) :
    ∃ h' r, malloc HeapCall.fuel c.heap n.toNat = some (h', r) ∧ h'.top < 2 ^ 32 ∧
      (r = 0 ∨ SizedBlock h' r n.toNat) := by
  rcases hinv.call_malloc n hfits with heq | ⟨h', r, segs', -, heq, ha⟩
  · exact ⟨c.heap, 0, heq, hlt, .inl rfl⟩
  · have hexec : (HeapCall.malloc n).execWith HeapCall.fuel c.heap = some (h', r) := heq
    obtain ⟨hend', hlt'⟩ := execWith_end hend hlt hfits hexec
    exact ⟨h', r, heq, hlt', .inr (ha.sizedBlock hend')⟩

/-- **`calloc`** gives the bytes that are asked for, when their product fits. -/
lemma calloc_right {count size : UInt32} (hsizes : SizesFit c (.calloc count size)) :
    SizesRight c (.calloc count size) := by
  have hfits := hsizes.fits
  rcases calloc_spec hinv.inv HeapCall.three_le_fuel hfits.1 hfits.2 with
    ⟨-, heq⟩ | ⟨h', r, segs', heq, ha⟩
  · exact ⟨HeapCall.fuel, c.heap, 0, heq, hlt, .inl ⟨rfl, rfl⟩⟩
  · have hexec : (HeapCall.calloc count size).execWith HeapCall.fuel c.heap = some (h', r) := heq
    obtain ⟨hend', hlt'⟩ := execWith_end hend hlt hfits hexec
    refine ⟨HeapCall.fuel, h', r, heq, hlt', ?_⟩
    cases hsizes with
    | inl h0 =>
      have hzero : calloc HeapCall.fuel c.heap count.toNat size.toNat = some (c.heap, 0) := by
        rw [calloc, h0]
        rfl
      rw [hzero, Option.some.injEq, Prod.mk.injEq] at heq
      exact .inl ⟨heq.2.symm, heq.1.symm⟩
    | inr hfit =>
      have hrounds := hfit.rounds
      have hwrap : wrap32 (count.toNat * size.toNat) = count.toNat * size.toNat :=
        wrap32_of_lt (by omega)
      rw [hwrap] at ha
      refine .inr ⟨ha.sizedBlock hend', fun i hi => ?_⟩
      obtain ⟨h₁, -, rfl⟩ := calloc_cases heq
      rw [hwrap]
      exact memset_apply ha.below.2 hi

/-- **`realloc`** gives them, when the size fits. -/
lemma realloc_right {p : ℕ} {n : UInt32} (hlegal : c.Legal (.realloc p n))
    (hsizes : SizesFit c (.realloc p n)) : SizesRight c (.realloc p n) := by
  have hfits := hsizes.fits
  by_cases hp : c.Live p
  · obtain ⟨s, hs, hsf, rfl⟩ := hinv.seg_of_live hp
    have hcap := hinv.inv.shape.capacity_payload hs
    by_cases hn : n = 0
    · refine ⟨HeapCall.fuel, free c.heap s.payload, 0, ?_, by rwa [free_top], .inl hn⟩
      rw [HeapCall.execWith, hn]
      exact realloc_zero _ _
    · have hn0 : n.toNat ≠ 0 := fun h0 => hn (UInt32.toNat_inj.mp h0)
      by_cases hroom : n.toNat ≤ s.length
      · have heq := (realloc_eq_of_stay HeapCall.fuel hn0 hs hinv.inv.shape).1 hroom
        refine ⟨HeapCall.fuel, c.heap, s.payload, heq, hlt, .inr (.inr ⟨?_, ?_, ?_⟩)⟩
        · rwa [hcap]
        · have := hinv.inv.shape.bounds hs
          rw [Seg.payload, headerSize]
          omega
        · have := hinv.inv.shape.bounds hs
          rw [Seg.payload, headerSize, ← hend]
          omega
      · rcases realloc_spec hinv.inv hs hsf (by omega) n.toNat_lt HeapCall.three_le_fuel
            (hfits (.inr (by rw [hcap]; omega))) with ⟨-, heq⟩ | ⟨h', r, segs', heq, ha, -⟩
        · exact ⟨HeapCall.fuel, c.heap, 0, heq, hlt, .inr (.inl rfl)⟩
        · have hexec : (HeapCall.realloc s.payload n).execWith HeapCall.fuel c.heap =
              some (h', r) := heq
          obtain ⟨hend', hlt'⟩ := execWith_end hend hlt hfits hexec
          exact ⟨HeapCall.fuel, h', r, heq, hlt', .inr (.inr (ha.sizedBlock hend'))⟩
  · obtain ⟨rfl, hn⟩ := hlegal.resolve_left hp
    obtain ⟨h', r, heq, hlt', hanswer⟩ := malloc_right hinv hend hlt (hfits (.inl rfl))
    refine ⟨HeapCall.fuel, h', r, ?_, hlt', .inr hanswer⟩
    exact (realloc_null HeapCall.fuel hn.ne').trans heq

/-- **Every call** gives them, when its sizes fit. -/
lemma sizesRight_of_fit (hlegal : c.Legal op) (hsizes : SizesFit c op) : SizesRight c op := by
  cases op with
  | malloc n =>
    obtain ⟨h', r, heq, hlt', hanswer⟩ := malloc_right hinv hend hlt hsizes.fits
    exact ⟨HeapCall.fuel, h', r, heq, hlt', hanswer⟩
  | calloc count size => exact calloc_right hinv hend hlt hsizes
  | realloc p n => exact realloc_right hinv hend hlt hlegal hsizes
  | free p => exact ⟨HeapCall.fuel, free c.heap p, 0, rfl, by rwa [free_top], trivial⟩

end Right

/-! ### Calls that are right fit -/

/-- A block below the top is of less than the address space behind `HEAP_ADDRESS`. -/
lemma SizedBlock.rounds (hb : SizedBlock h p n) (hstart : h.heapStart = 0xD0000000)
    (htop : h.top < 2 ^ 32) : n + 0xfff < 2 ^ 32 := by
  have hlow := hb.start
  have hhigh := hb.stop
  omega

section Converse

variable (hi : HeapInv h segs) (hend : h.heapEnd = h.top)

include hi hend

/-- A request that `malloc` served below the top fits, if it rounds to pages. -/
lemma requestFits_of_malloc (hrounds : n + 0xfff < 2 ^ 32)
    (heq : malloc fuel h n = some (h', r)) (htop : h'.top < 2 ^ 32) : RequestFits h n := by
  have hwrap : h.heapEnd = wrap32 h.top := by
    rw [hend, wrap32_of_lt (hend ▸ hi.shape.below)]
  exact ⟨hrounds, mallocFits_of_returns hwrap hrounds heq htop _⟩

variable (hstart : h.heapStart = 0xD0000000)

include hstart

/-- **Below the top only a request that rounds to zero is answered with null.** -/
lemma roundSize_eq_zero_of_null (hn : n < 2 ^ 32) (heq : malloc fuel h n = some (h', 0))
    (htop : h'.top < 2 ^ 32) : roundSize n = 0 := by
  by_contra h0
  by_cases hrounds : n + 0xfff < 2 ^ 32
  · have hfit := requestFits_of_malloc hi hend hrounds heq htop
    rcases malloc_spec hi hn HeapCall.three_le_fuel hfit.fits with
      ⟨hzero, -⟩ | ⟨h₁, q, segs₁, heq₁, ha⟩
    · exact h0 hzero
    · have hq := malloc_mono heq₁ (le_max_left HeapCall.fuel fuel)
      rw [malloc_mono heq (le_max_right HeapCall.fuel fuel), Option.some.injEq,
        Prod.mk.injEq] at hq
      exact ha.below.1.ne hq.2
  · have hle := le_roundSize hn h0
    have hround : roundSize n < 2 ^ 32 := by
      rw [roundSize, wrap32]
      split_ifs <;> omega
    have hbelow : h.heapEnd + 16 < 2 ^ 32 := by
      have hlt := hi.shape.below
      rw [hend, Heap.top, hstart] at hlt ⊢
      omega
    rw [← malloc_roundSize] at heq
    exact malloc_noPages hi (dvd_roundSize n) (by omega) hround hbelow heq rfl

/-- What `malloc` answers with null or with a block fits. -/
lemma fits_of_malloc (hn : n < 2 ^ 32) (heq : malloc fuel h n = some (h', r))
    (htop : h'.top < 2 ^ 32) (hanswer : r = 0 ∨ SizedBlock h' r n) :
    roundSize n = 0 ∨ RequestFits h n := by
  cases hanswer with
  | inl h0 =>
    rw [h0] at heq
    exact .inl (roundSize_eq_zero_of_null hi hend hstart hn heq htop)
  | inr hb =>
    have hrounds := hb.rounds ((malloc_grows heq).start.trans hstart) htop
    exact .inr (requestFits_of_malloc hi hend hrounds heq htop)

/-- **`calloc` never returns null with the heap untouched**, unless its product is zero: the zeros
that `memset` stores from null on run over the first header. -/
lemma wrap32_eq_zero_of_null {count size : ℕ} (heq : calloc fuel h count size = some (h, 0)) :
    wrap32 (count * size) = 0 := by
  have hs := hi.shape
  have hlt := wrap32_lt (count * size)
  obtain ⟨h₁, hm, hmem⟩ := calloc_cases heq
  have htop : h₁.top < 2 ^ 32 := by
    have hsame : h.top = h₁.top := by
      rw [hmem]
      rfl
    rw [← hsame, ← hend]
    exact hs.below
  have h0 := roundSize_eq_zero_of_null hi hend hstart hlt hm htop
  by_contra hne
  have hlarge : 0xfffffff0 < wrap32 (count * size) := by
    generalize wrap32 (count * size) = w at *
    rw [roundSize, wrap32] at h0
    split_ifs at h0 <;> omega
  have hzero : ∀ x < wrap32 (count * size), h.mem x = 0 := by
    intro x hx
    have hclear : memset h₁.mem 0 0 (wrap32 (count * size)) (0 + x) = 0 :=
      memset_apply (by omega) hx
    have hbytes : h.mem = memset h₁.mem 0 0 (wrap32 (count * size)) := congrArg Heap.mem hmem
    rwa [Nat.zero_add, ← hbytes] at hclear
  obtain ⟨s, l, rfl⟩ := List.exists_cons_of_ne_nil hs.nonempty
  have haddr : s.addr = 0xD0000000 := hs.tiles.1.trans hstart
  have hlength : readWord h.mem s.addr = s.length := (hs.stored s List.mem_cons_self).1
  have hword : readWord h.mem s.addr = 0 := by
    rw [readWord, hzero _ (by omega), hzero _ (by omega), hzero _ (by omega), hzero _ (by omega)]
    rfl
  have hpos := hs.length s List.mem_cons_self
  omega

end Converse

/-- A call that is right fits. -/
lemma fit_of_sizesRight (hinv : ClientInv c segs) (hstart : c.heap.heapStart = 0xD0000000)
    (hend : c.heap.heapEnd = c.heap.top) (hright : SizesRight c op) : SizesFit c op := by
  obtain ⟨fuel, h', r, heq, htop, hanswer⟩ := hright
  have hi := hinv.inv
  have hstart' : h'.heapStart = 0xD0000000 := (HeapCall.execWith_grows heq).start.trans hstart
  cases op with
  | malloc n => exact fits_of_malloc hi hend hstart n.toNat_lt heq htop hanswer
  | calloc count size =>
    rcases hanswer with ⟨rfl, rfl⟩ | ⟨hb, -⟩
    · exact .inl (wrap32_eq_zero_of_null hi hend hstart heq)
    · have hrounds := hb.rounds hstart' htop
      obtain ⟨h₁, hm, rfl⟩ := calloc_cases heq
      rw [wrap32_of_lt (by omega)] at hm
      exact .inr (requestFits_of_malloc hi hend hrounds hm htop)
  | realloc p n =>
    rcases realloc_cases heq with ⟨h0 | hstay, -⟩ | ⟨-, h₁, hm, hsame⟩
    · exact .inl (UInt32.toNat_inj.mp h0)
    · exact .inr (.inl hstay)
    · rw [hsame] at htop
      rcases hanswer with h0 | h0 | hb
      · exact .inl h0
      · rw [h0] at hm
        exact .inr (.inr (.inl (roundSize_eq_zero_of_null hi hend hstart n.toNat_lt hm htop)))
      · have hrounds := hb.rounds hstart' (by rw [hsame]; exact htop)
        exact .inr (.inr (.inr (requestFits_of_malloc hi hend hrounds hm htop)))
  | free p => trivial

/-- **The sizes of the next call.** In a run of calls that fit, the next call returns null or a
block of the size asked for, cleared by `calloc`, exactly when it fits as well. -/
theorem sizesRight_iff (hc : Reachable HeapBooted SizedStep c) (legal : c.Legal op) :
    SizesRight c op ↔ SizesFit c op := by
  obtain ⟨⟨segs, hinv⟩, hstart, hend⟩ := sized_invariant hc
  have hlt : c.heap.top < 2 ^ 32 := hend ▸ hinv.inv.shape.below
  exact ⟨fit_of_sizesRight hinv hstart hend, sizesRight_of_fit hinv hend hlt legal⟩

/-- The first request gets its bytes. -/
theorem sizesRight_boot : SizesRight bootClient (.malloc 24) := by
  have hboot : Reachable HeapBooted SizedStep bootClient := .start ⟨_, rfl⟩
  have hlegal : bootClient.Legal (.malloc 24) := trivial
  exact (sizesRight_iff hboot hlegal).mpr (.inr ⟨by decide, bootClient_fits⟩)

/-- A product that is `24` in 32 bits: `calloc(0x20000003, 8)` returns a block, and what it returns
is neither null nor a block of `0x100000018` bytes. -/
theorem sizesRight_product :
    (∃ fuel h' r, calloc fuel bootClient.heap 0x20000003 8 = some (h', r) ∧ h'.top < 2 ^ 32 ∧
      r ≠ 0) ∧ ¬ SizesRight bootClient (.calloc 0x20000003 8) := by
  have hboot : Reachable HeapBooted SizedStep bootClient := .start ⟨_, rfl⟩
  obtain ⟨⟨segs, hinv⟩, hstart, hend⟩ := sized_invariant hboot
  have hlt : bootClient.heap.top < 2 ^ 32 := hend ▸ hinv.inv.shape.below
  have hfits : bootClient.Fits (.calloc 0x20000003 8) := ⟨by decide, bootClient_fits⟩
  constructor
  · obtain ⟨h', r, segs', heq, ha⟩ :=
      (calloc_spec hinv.inv HeapCall.three_le_fuel hfits.1 hfits.2).resolve_left
        fun hzero => absurd hzero.1 (by decide)
    exact ⟨HeapCall.fuel, h', r, heq, execWith_top_lt hend hlt hfits heq, ha.below.1.ne'⟩
  · intro hright
    cases fit_of_sizesRight hinv hstart hend hright with
    | inl h0 => exact absurd h0 (by decide)
    | inr hfit => exact absurd hfit.rounds (by decide)

end MicroOS
