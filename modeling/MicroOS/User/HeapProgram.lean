import MicroOS.User.HeapTermination

/-!
Programs on the heap that do not know how much address space is left.

* `ProgramStep`: one call, whether or not it fits the address space, or one store into a block.
* `Heap.top`: where the heap ends, as a natural number; `HeapGrows` says that no call shrinks it.
* `ProgramStep.heapStep`: while the heap ends below the top of the address space, every call so
  far did fit, so that the run is one of `HeapRun`.
* `malloc_terminates`: in every state of a program, a request that fits together with the heap is
  served after at most two calls of `expand_heap`.
-/

namespace MicroOS

open ByteMem Chain Run

/-! ### Programs -/

/-- The end of the heap as a natural number: `heap_end` holds it modulo `2 ^ 32`. -/
def Heap.top (h : Heap) : ℕ := h.heapStart + h.mmaps.length * 0x1000

namespace HeapCall

/-- The call, with any bound on the recursion of `malloc`. -/
def execWith (fuel : ℕ) (h : Heap) : HeapCall → Option (Heap × ℕ)
  | malloc n => MicroOS.malloc fuel h n.toNat
  | calloc count size => MicroOS.calloc fuel h count.toNat size.toNat
  | realloc p n => MicroOS.realloc fuel h p n.toNat
  | free p => some (MicroOS.free h p, 0)

/-- The request rounds to pages. Beyond it `expand_heap` would ask for no page at all, and the
store of its header would fault. -/
def Rounds (op : HeapCall) : Prop := op.request + 0xfff < 2 ^ 32

end HeapCall

/-- One call, with any bound on the recursion of `malloc`. -/
def Client.callWith (c : Client) (fuel : ℕ) (op : HeapCall) : Option (Client × ℕ) :=
  (op.execWith fuel c.heap).map fun (h, r) => (⟨h, c.liveAfter r op⟩, r)

/-- A program at the start of `main.c`: `initialize_heap(HEAP_ADDRESS, HEAP_PAGES)`. -/
def HeapBooted (c : Client) : Prop := ∃ m, c = ⟨initializeHeap m 0xD0000000 0x10, []⟩

/-- One step of a program: a call that returns, or a store into one of its blocks. -/
inductive ProgramStep : Client → Client → Prop where
  | call {c c' : Client} {r : ℕ} (fuel : ℕ) (op : HeapCall) (legal : c.Legal op)
      (rounds : op.Rounds) (returns : c.callWith fuel op = some (c', r)) : ProgramStep c c'
  | store {c : Client} {p n : ℕ} (a : ℕ) (v : UInt8) (live : (p, n) ∈ c.live) (low : p ≤ a)
      (high : a < p + n) :
      ProgramStep c { c with heap := { c.heap with mem := writeByte c.heap.mem a v } }

variable {h h' h'' : Heap} {segs : List Seg} {c c' : Client} {size fuel n p r : ℕ}

/-! ### The bound on the recursion -/

/-- More fuel does not change what `malloc` returns. -/
lemma malloc_mono {fuel' : ℕ} (heq : malloc fuel h n = some (h', p)) (hle : fuel ≤ fuel') :
    malloc fuel' h n = some (h', p) := by
  induction fuel generalizing fuel' h n with
  | zero => exact absurd heq (by simp [malloc])
  | succ fuel ih =>
    obtain ⟨fuel', rfl⟩ : ∃ f, fuel' = f + 1 := ⟨fuel' - 1, by omega⟩
    simp only [malloc] at heq ⊢
    split_ifs at heq ⊢ with h0
    · exact heq
    · cases hw : mallocWalk h (roundSize n) walkFuel h.heapStart with
      | none => simp [hw] at heq
      | some w =>
        obtain ⟨h₁, o⟩ := w
        cases o with
        | some q => simpa [hw] using heq
        | none =>
          simp only [hw] at heq ⊢
          exact ih heq (by omega)

/-- More fuel does not change what a call returns. -/
lemma HeapCall.execWith_mono {op : HeapCall} {fuel' : ℕ} {x : Heap × ℕ}
    (heq : op.execWith fuel h = some x) (hle : fuel ≤ fuel') : op.execWith fuel' h = some x := by
  cases op with
  | malloc n => exact malloc_mono heq hle
  | calloc count size =>
    simp only [execWith, MicroOS.calloc] at heq ⊢
    cases hm : MicroOS.malloc fuel h (wrap32 (count.toNat * size.toNat)) with
    | none => simp [hm] at heq
    | some y => rwa [malloc_mono hm hle, ← hm]
  | realloc p n =>
    simp only [execWith, MicroOS.realloc] at heq ⊢
    split_ifs at heq ⊢ with h0 hp hstay
    · exact heq
    · exact malloc_mono heq hle
    · exact heq
    · cases hm : MicroOS.malloc fuel h n.toNat with
      | none => simp [hm] at heq
      | some y => rwa [malloc_mono hm hle, ← hm]
  | free p => exact heq

/-- What a call returns does not depend on the fuel. -/
lemma HeapCall.execWith_unique {op : HeapCall} {fuel' : ℕ} {x y : Heap × ℕ}
    (hx : op.execWith fuel h = some x) (hy : op.execWith fuel' h = some y) : x = y := by
  have hx' := execWith_mono hx (le_max_left fuel fuel')
  have hy' := execWith_mono hy (le_max_right fuel fuel')
  rw [hx'] at hy'
  exact Option.some.inj hy'

lemma HeapCall.exec_eq (op : HeapCall) : op.exec h = op.execWith HeapCall.fuel h := by
  cases op <;> rfl

/-! ### The heap never shrinks -/

/-- The heap stays where it starts, and its end moves up, in step with `heap_end`. -/
structure HeapGrows (h h' : Heap) : Prop where
  start : h'.heapStart = h.heapStart
  le : h.top ≤ h'.top
  wraps : h.heapEnd = wrap32 h.top → h'.heapEnd = wrap32 h'.top

namespace HeapGrows

/-- A heap with the same bounds and pages counts as grown. -/
lemma of_eq (hstart : h'.heapStart = h.heapStart) (hend : h'.heapEnd = h.heapEnd)
    (hmmaps : h'.mmaps = h.mmaps) : HeapGrows h h' := by
  have htop : h'.top = h.top := by rw [Heap.top, Heap.top, hstart, hmmaps]
  exact ⟨hstart, htop.ge, fun hw => by rw [hend, hw, htop]⟩

lemma trans (h1 : HeapGrows h h') (h2 : HeapGrows h' h'') : HeapGrows h h'' :=
  ⟨h2.start.trans h1.start, h1.le.trans h2.le, fun hw => h2.wraps (h1.wraps hw)⟩

end HeapGrows

/-- A page more grows the heap. -/
lemma mmapHeapPage_grows : HeapGrows h (mmapHeapPage h) := by
  have htop : (mmapHeapPage h).top = h.top + 0x1000 := by
    simp only [Heap.top, mmapHeapPage, List.length_append, List.length_singleton]
    omega
  refine ⟨by simp only [mmapHeapPage], by omega, fun hw => ?_⟩
  rw [htop]
  simp only [mmapHeapPage, wrap32] at hw ⊢
  omega

/-- So do several pages. -/
lemma mmapHeapEnd_grows (k : ℕ) : HeapGrows h (mmapHeapEnd h k) := by
  induction k with
  | zero => exact HeapGrows.of_eq rfl rfl rfl
  | succ k ih =>
    refine ih.trans ?_
    rw [mmapHeapEnd, mmapHeapEnd, Function.iterate_succ_apply']
    exact mmapHeapPage_grows

/-- And `expand_heap`. -/
lemma expandHeap_grows (k : ℕ) : HeapGrows h (expandHeap h k) := by
  rw [expandHeap_eq]
  have hmerge : HeapGrows (appendSegment h (roundPages k))
      (hshCombineBackward (appendSegment h (roundPages k)) h.heapEnd) :=
    HeapGrows.of_eq (by simp) (by simp) (by simp)
  refine HeapGrows.trans ?_ hmerge
  have happend : HeapGrows (mmapHeapEnd h (roundPages k / 0x1000))
      (appendSegment h (roundPages k)) := HeapGrows.of_eq rfl rfl rfl
  exact (mmapHeapEnd_grows _).trans happend

/-- A request that rounds to pages grows the heap by them. -/
lemma expandHeap_top (hpages : pageCeil size < 2 ^ 32) :
    (expandHeap h size).top = h.top + pageCeil size := by
  have hmmaps : (expandHeap h size).mmaps
      = (mmapHeapEnd h (roundPages size / 0x1000)).mmaps := by
    rw [expandHeap_eq, hshCombineBackward_mmaps]
    rfl
  have hmul : pageCeil size / 0x1000 * 0x1000 = pageCeil size :=
    Nat.div_mul_cancel (dvd_pageCeil size)
  rw [Heap.top, Heap.top, expandHeap_heapStart, hmmaps, mmapHeapEnd_length, roundPages_eq hpages]
  omega

/-- A walk only grows the heap, and changes nothing when it finds no segment. -/
lemma mallocWalk_grows {a : ℕ} {o : Option ℕ}
    (heq : mallocWalk h size fuel a = some (h', o)) : HeapGrows h h' ∧ (o = none → h' = h) := by
  induction fuel generalizing a with
  | zero => exact absurd heq (by simp [mallocWalk])
  | succ fuel ih =>
    rw [mallocWalk] at heq
    split_ifs at heq
    · cases heq
      exact ⟨HeapGrows.of_eq (by simp) (by simp) (by simp), by simp⟩
    · cases heq
      exact ⟨HeapGrows.of_eq rfl rfl rfl, by simp⟩
    · cases heq
      exact ⟨HeapGrows.of_eq rfl rfl rfl, fun _ => rfl⟩
    · exact ih heq

/-- **`malloc`** only grows the heap. -/
lemma malloc_grows (heq : malloc fuel h n = some (h', p)) : HeapGrows h h' := by
  induction fuel generalizing h n with
  | zero => exact absurd heq (by simp [malloc])
  | succ fuel ih =>
    simp only [malloc] at heq
    split_ifs at heq with h0
    · cases heq
      exact HeapGrows.of_eq rfl rfl rfl
    · cases hw : mallocWalk h (roundSize n) walkFuel h.heapStart with
      | none => simp [hw] at heq
      | some w =>
        obtain ⟨h₁, o⟩ := w
        obtain ⟨hg, _⟩ := mallocWalk_grows hw
        cases o with
        | some q =>
          simp only [hw] at heq
          cases heq
          exact hg
        | none =>
          simp only [hw] at heq
          exact hg.trans ((expandHeap_grows _).trans (ih heq))

lemma free_grows (a : ℕ) : HeapGrows h (free h a) :=
  HeapGrows.of_eq (by simp [free]) (by simp [free]) (by simp [free])

/-- **No call takes pages away.** -/
lemma HeapCall.execWith_grows {op : HeapCall} (heq : op.execWith fuel h = some (h', r)) :
    HeapGrows h h' := by
  cases op with
  | malloc n => exact malloc_grows heq
  | calloc count size =>
    simp only [execWith, MicroOS.calloc] at heq
    cases hm : MicroOS.malloc fuel h (wrap32 (count.toNat * size.toNat)) with
    | none => simp [hm] at heq
    | some y =>
      rw [hm] at heq
      cases heq
      exact (malloc_grows hm).trans (HeapGrows.of_eq rfl rfl rfl)
  | realloc p n =>
    simp only [execWith, MicroOS.realloc] at heq
    split_ifs at heq with h0 hp hstay
    · simp only [Option.some.injEq, Prod.mk.injEq] at heq
      rw [← heq.1]
      exact free_grows p
    · exact malloc_grows heq
    · cases heq
      exact HeapGrows.of_eq rfl rfl rfl
    · cases hm : MicroOS.malloc fuel h n.toNat with
      | none => simp [hm] at heq
      | some y =>
        obtain ⟨h₁, q⟩ := y
        simp only [hm] at heq
        split_ifs at heq with hq
        · simp only [Option.some.injEq, Prod.mk.injEq] at heq
          rw [← heq.1]
          refine (malloc_grows hm).trans (HeapGrows.trans ?_ (free_grows p))
          exact HeapGrows.of_eq rfl rfl rfl
        · cases heq
          exact malloc_grows hm
  | free p =>
    simp only [execWith, Option.some.injEq, Prod.mk.injEq] at heq
    rw [← heq.1]
    exact free_grows p

/-! ### A program below the top of the address space -/

/-- A request for nothing always fits. -/
lemma mallocFits_zero (k : ℕ) : mallocFits k h 0 := by
  cases k with
  | zero => trivial
  | succ k =>
    rw [mallocFits]
    split
    · exact fun h0 => absurd rfl h0
    · trivial

/-- A call that returned with the heap below the top did fit. -/
lemma mallocFits_of_returns (hw : h.heapEnd = wrap32 h.top) (hn : n + 0xfff < 2 ^ 32)
    (heq : malloc fuel h n = some (h', p)) (htop : h'.top < 2 ^ 32) (k : ℕ) :
    mallocFits k h n := by
  induction fuel generalizing h n k with
  | zero => exact absurd heq (by simp [malloc])
  | succ fuel ih =>
    cases k with
    | zero => trivial
    | succ k =>
      have hround : roundSize n + 0xfff < 2 ^ 32 := by
        rw [roundSize, wrap32]
        split_ifs <;> omega
      simp only [malloc] at heq
      rw [mallocFits]
      cases hwalk : mallocWalk h (roundSize n) walkFuel h.heapStart with
      | none => trivial
      | some w =>
        obtain ⟨h₁, o⟩ := w
        cases o with
        | some q => trivial
        | none =>
          intro h0
          obtain rfl := (mallocWalk_grows hwalk).2 rfl
          simp only [if_neg h0, hwalk] at heq
          have hpages : pageCeil (roundSize n) < 2 ^ 32 := by
            rw [pageCeil]
            omega
          have hgrown := (malloc_grows heq).le
          rw [expandHeap_top hpages] at hgrown
          rw [hw, wrap32_of_lt (by omega)]
          exact ⟨by omega, ih ((expandHeap_grows _).wraps hw) hround heq k⟩

/-- **A call that returned with the heap below the top is a call of `HeapRun`.** -/
lemma ProgramStep.heapStep {segs : List Seg} (hst : ProgramStep c c') (hc : ClientInv c segs)
    (hw : c.heap.heapEnd = wrap32 c.heap.top) (htop : c'.heap.top < 2 ^ 32) : HeapStep c c' := by
  cases hst with
  | store a v live low high => exact .store a v live low high
  | @call _ r fuel op legal rounds returns =>
    obtain ⟨⟨h', r'⟩, hexec, hout⟩ := Option.map_eq_some_iff.mp returns
    simp only [Prod.mk.injEq] at hout
    obtain ⟨rfl, rfl⟩ := hout
    replace htop : h'.top < 2 ^ 32 := htop
    have hfits : c.Fits op := by
      cases op with
      | malloc n => exact mallocFits_of_returns hw rounds hexec htop _
      | calloc count size =>
        simp only [HeapCall.execWith, calloc] at hexec
        cases hm : malloc fuel c.heap (wrap32 (count.toNat * size.toNat)) with
        | none => simp [hm] at hexec
        | some y =>
          rw [hm] at hexec
          cases hexec
          have hrounds : wrap32 (count.toNat * size.toNat) + 0xfff < 2 ^ 32 := rounds
          exact ⟨by omega, mallocFits_of_returns hw hrounds hm htop _⟩
      | realloc p n =>
        intro hmove
        simp only [HeapCall.execWith, realloc] at hexec
        split_ifs at hexec with h0 hp hstay
        · rw [h0]
          exact mallocFits_zero _
        · exact mallocFits_of_returns hw rounds hexec htop _
        · rw [Heap.capacity] at hmove
          omega
        · cases hm : malloc fuel c.heap n.toNat with
          | none => simp [hm] at hexec
          | some y =>
            obtain ⟨h₁, q⟩ := y
            simp only [hm] at hexec
            refine mallocFits_of_returns hw rounds hm (lt_of_le_of_lt ?_ htop) _
            split_ifs at hexec with hq
            · simp only [Option.some.injEq, Prod.mk.injEq] at hexec
              rw [← hexec.1]
              refine le_trans ?_ (free_grows p).le
              exact le_refl _
            · cases hexec
              exact le_refl _
      | free p => trivial
    -- the same call, with the bound on the recursion of `HeapRun`
    obtain ⟨c₁, r₁, _, hcall, _, _⟩ := hc.call legal hfits
    obtain ⟨⟨h₁, r₂⟩, hexec', hout⟩ := Option.map_eq_some_iff.mp hcall
    rw [HeapCall.exec_eq] at hexec'
    have hsame := HeapCall.execWith_unique hexec' hexec
    refine .call (r := r') op legal hfits ?_
    rw [Client.call, HeapCall.exec_eq, hexec', hsame, Option.map_some]

/-- **What holds in every state of a program**: the heap starts at `HEAP_ADDRESS`, `heap_end`
is its end modulo `2 ^ 32`, and below the top the program is a run of `HeapRun`. -/
lemma program_invariant (hc : Reachable HeapBooted ProgramStep c) :
    c.heap.heapStart = 0xD0000000 ∧ c.heap.heapEnd = wrap32 c.heap.top
      ∧ (c.heap.top < 2 ^ 32 → Reachable HeapStarted HeapStep c) := by
  refine hc.invariant (fun c => c.heap.heapStart = 0xD0000000
    ∧ c.heap.heapEnd = wrap32 c.heap.top
    ∧ (c.heap.top < 2 ^ 32 → Reachable HeapStarted HeapStep c)) ?_ ?_
  · rintro c ⟨m, rfl⟩
    refine ⟨by simp [initializeHeap], by simp [initializeHeap, Heap.top, mmapFrom, wrap32],
      fun _ => .start ?_⟩
    exact ⟨m, _, _, by norm_num, by norm_num, by norm_num, rfl⟩
  · rintro c c' ⟨hstart, hw, hrun⟩ hst
    have hg : HeapGrows c.heap c'.heap := by
      cases hst with
      | store a v => exact HeapGrows.of_eq rfl rfl rfl
      | @call _ r fuel op legal rounds returns =>
        obtain ⟨⟨h', r'⟩, hexec, hout⟩ := Option.map_eq_some_iff.mp returns
        simp only [Prod.mk.injEq] at hout
        obtain ⟨rfl, rfl⟩ := hout
        exact HeapCall.execWith_grows hexec
    refine ⟨hg.start.trans hstart, hg.wraps hw, fun htop => ?_⟩
    have hrun' := hrun (lt_of_le_of_lt hg.le htop)
    obtain ⟨segs, hinv⟩ := ClientInv.of_reachable hrun'
    exact hrun'.next (hst.heapStep hinv hw htop)

/-- **`malloc` terminates.** In every state of a program, a request whose size, rounded to a
multiple of sixteen, fits below the top of the address space together with the heap makes at most
two calls of `expand_heap`, whatever the bound on the recursion, and returns a block when it is
for at least one byte; and no walk over the segments looks at one of them twice. -/
theorem malloc_terminates (hc : Reachable HeapBooted ProgramStep c) (n : UInt32)
    (hfits : c.heap.top + (n.toNat + 0xf) / 0x10 * 0x10 < 2 ^ 32) :
    (∃ h' p, (∀ fuel, 3 ≤ fuel → malloc fuel c.heap n.toNat = some (h', p))
        ∧ (0 < n.toNat → p ≠ 0))
      ∧ (∀ fuel, expansions fuel c.heap n.toNat ≤ 2)
      ∧ ∀ fuel, ∀ walk ∈ mallocWalks fuel c.heap n.toNat, walk.Nodup := by
  obtain ⟨hstart, hw, hrun⟩ := program_invariant hc
  have htop : c.heap.top < 2 ^ 32 := by omega
  obtain ⟨segs, hinv⟩ := ClientInv.of_reachable (hrun htop)
  have hend : c.heap.heapEnd = c.heap.top := by rw [hw, wrap32_of_lt htop]
  have hround : roundSize n.toNat = (n.toNat + 0xf) / 0x10 * 0x10 := by
    rw [roundSize, wrap32]
    split_ifs <;> omega
  by_cases h0 : roundSize n.toNat = 0
  · refine ⟨⟨c.heap, 0, fun fuel hfuel => ?_, fun hn => by omega⟩, fun fuel => ?_, fun fuel => ?_⟩
    · obtain ⟨fuel, rfl⟩ : ∃ f, fuel = f + 1 := ⟨fuel - 1, by omega⟩
      simp only [malloc, h0, if_pos]
    · cases fuel <;> simp [expansions, h0]
    · cases fuel <;> simp [mallocWalks, h0]
  · have hpage : 0x1000 ∣ c.heap.heapEnd := by
      rw [hend, Heap.top, hstart]
      omega
    obtain ⟨k, hk, h', p, hp, hr⟩ := hinv.inv.mallocRun (Nat.pos_of_ne_zero h0)
      (dvd_roundSize n.toNat) (by rw [hstart]; norm_num) hpage (by rw [hend, hround]; exact hfits)
    have hpos := Nat.pos_of_ne_zero h0
    have h16 := dvd_roundSize n.toNat
    refine ⟨⟨h', p, fun fuel hfuel => ?_, fun _ => hp⟩, fun fuel => ?_, fun fuel => ?_⟩
    · rw [← malloc_roundSize]
      exact hr.malloc_eq hpos h16 (by omega)
    · rw [← expansions_roundSize]
      exact (hr.expansions_le hpos h16 fuel).trans hk
    · rw [← mallocWalks_roundSize]
      exact hr.walks_nodup hpos h16 fuel

/-- A request for more than the heap has, in the heap that `main.c` starts. -/
theorem malloc_terminates_boot :
    ∃ h' p, malloc 3 bootClient.heap 0x20000 = some (h', p) ∧ p ≠ 0 := by
  obtain ⟨⟨h', p, hm, hp⟩, _⟩ :=
    malloc_terminates (c := bootClient) (.start ⟨_, rfl⟩) 0x20000 (by decide +kernel)
  exact ⟨h', p, hm 3 (le_refl 3), hp (by decide)⟩

end MicroOS
