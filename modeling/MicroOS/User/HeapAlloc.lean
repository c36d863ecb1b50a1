import Mathlib.Data.List.Chain
import MicroOS.User.HeapOps

/-!
`malloc`, `free` and `realloc` keep the allocator's invariant, hand out room that is
nobody else's and keep the bytes of everybody else.

* `HeapInv`: the represented list, no two free neighbours, no split that wraps, and every page
  of the heap asked for with `mmap`.
* `Keeps`: the allocated segments of one heap are segments of the other, with the same bytes.
* `free_spec`, `malloc_spec`: the two interface functions. `malloc_spec` also says that the
  recursion through `expand_heap` is over after the second expansion.
-/

namespace MicroOS

open ByteMem Chain

variable {h h' h'' : Heap} {segs segs' segs'' l l₁ l₂ : List Seg} {a b c s : Seg}

/-! ### The invariant -/

/-- No two neighbouring segments are both free. -/
def NoTwoFree (segs : List Seg) : Prop := segs.IsChain fun s t => ¬ (s.free = true ∧ t.free = true)

/-- **The invariant of the allocator.** -/
structure HeapInv (h : Heap) (segs : List Seg) : Prop where
  shape : Shape h segs
  noTwoFree : NoTwoFree segs
  splits : ∀ c ∈ h.splits, c.2 + headerSize ≤ c.1
  mapped : ∀ x, h.heapStart ≤ x → x < h.heapEnd → ∃ p ∈ h.mmaps, p ≤ x ∧ x < p + 0x1000

/-- The payload bytes of a segment. -/
def Seg.bytes (s : Seg) : Set ℕ := Set.Ico s.payload (s.payload + s.length)

/-- **The allocated segments and their bytes are kept.** -/
structure Keeps (h : Heap) (segs : List Seg) (h' : Heap) (segs' : List Seg) : Prop where
  mem : ∀ s ∈ segs, s.free = false → s ∈ segs'
  bytes : ∀ s ∈ segs, s.free = false → Set.EqOn h'.mem h.mem s.bytes

/-- What is kept by two calls is kept by both together. -/
lemma Keeps.trans (h1 : Keeps h segs h' segs') (h2 : Keeps h' segs' h'' segs'') :
    Keeps h segs h'' segs'' := by
  refine ⟨fun s hs hf => h2.mem s (h1.mem s hs hf) hf, fun s hs hf => ?_⟩
  exact (h2.bytes s (h1.mem s hs hf) hf).trans (h1.bytes s hs hf)

/-- Headers are found by their addresses. -/
lemma OffHeaders.mono {x : ℕ} (hx : OffHeaders segs x) (hsub : addrs segs' ⊆ addrs segs) :
    OffHeaders segs' x := by
  intro t ht
  obtain ⟨s, hs, hst⟩ := List.mem_map.mp (hsub (List.mem_map_of_mem ht))
  rw [← hst]
  exact hx s hs

/-- No header lies in a payload. -/
lemma Shape.offHeaders_of_mem_bytes (hs : Shape h segs) (hb : b ∈ segs) {x : ℕ}
    (hx : x ∈ b.bytes) : OffHeaders segs x := by
  simp only [Seg.bytes, Seg.payload, headerSize, Set.mem_Ico] at hx
  exact hs.offHeaders_payload hb hx.1 hx.2

/-- Segments at the same address are the same. -/
lemma Shape.eq_of_addr_eq (hs : Shape h segs) (hb : b ∈ segs) (hc : c ∈ segs)
    (heq : b.addr = c.addr) : b = c := by
  rcases hs.tiles.eq_or_apart hb hc with h1 | h1 | h1
  · exact h1
  all_goals
    simp only [Seg.size, headerSize] at h1
    omega

/-- A segment bounds the number of segments there is room for. -/
lemma Shape.length_lt_walkFuel (hs : Shape h segs) : segs.length < walkFuel := by
  have h1 : h.heapStart + segs.length * 16 ≤ h.heapEnd :=
    hs.tiles.length_mul_le fun b _ => by
      rw [Seg.size, headerSize]
      omega
  have h2 := hs.below
  rw [walkFuel]
  omega

/-! ### `free` -/

/-- A forward merge of a free segment: what is left, and that only a free segment went. -/
lemma mergeForward_cases (b : Seg) (l : List Seg) :
    ∃ b' r, mergeForward b l = b' :: r ∧ b'.addr = b.addr ∧ b'.free = b.free
      ∧ (r = l ∧ (∀ c ∈ l.head?, c.free = false) ∨ ∃ c, l = c :: r ∧ c.free = true) := by
  cases l with
  | nil => exact ⟨b, [], rfl, rfl, rfl, Or.inl ⟨rfl, by simp⟩⟩
  | cons c l =>
    cases hc : c.free with
    | false => exact ⟨b, c :: l, by simp [mergeForward, hc], rfl, rfl, Or.inl ⟨rfl, by simp [hc]⟩⟩
    | true =>
      exact ⟨{ b with length := b.length + c.size }, l, by rw [mergeForward, hc, if_pos rfl],
        rfl, rfl, Or.inr ⟨c, rfl, hc⟩⟩

/-- What follows a merged segment is in use. -/
lemma NoTwoFree.head_of_cons (hn : NoTwoFree (c :: l)) (hc : c.free = true) :
    ∀ d ∈ l.head?, d.free = false := by
  intro d hd
  have := (List.isChain_cons.mp hn).1 d hd
  simpa [hc] using this

lemma free_eq (p : ℕ) : free h p =
    hshCombineBackward (hshCombineForward (h.setFree (sub32 p headerSize) true)
      (sub32 p headerSize)) (sub32 p headerSize) := rfl

lemma mem_of_mem_filter_cut (hs : s ∈ (l₁ ++ b :: l₂).filter (· ≠ b)) : s ∈ l₁ ∨ s ∈ l₂ := by
  simp only [List.mem_filter, List.mem_append, List.mem_cons, decide_eq_true_eq] at hs
  tauto

/-- The backward merge of `free`, at a free segment whose right neighbour is in use. -/
lemma hshCombineBackward_free (hs : Shape h (l₁ ++ b :: l)) (hb : b.free = true)
    (hn₁ : NoTwoFree l₁) (hn₂ : NoTwoFree l) (hhead : ∀ d ∈ l.head?, d.free = false) :
    ∃ segs', Shape (hshCombineBackward h b.addr) segs' ∧ NoTwoFree segs'
      ∧ (∀ s, s.free = false → s ∈ l₁ ∨ s ∈ l → s ∈ segs')
      ∧ ∀ x, OffHeaders (l₁ ++ b :: l) x → (hshCombineBackward h b.addr).mem x = h.mem x := by
  rcases List.eq_nil_or_concat' l₁ with rfl | ⟨l₀, a, rfl⟩
  · -- the first segment of the heap
    refine ⟨b :: l, ?_, ?_, ?_, ?_⟩
    · rw [hshCombineBackward_of_first hs]
      exact hs
    · exact List.isChain_cons.mpr ⟨fun d hd => by simp [hhead d hd], hn₂⟩
    · intro s _ hmem
      simpa using Or.inr (by simpa using hmem)
    · intro x _
      rw [hshCombineBackward_of_first hs]
  · have hs' : Shape h (l₀ ++ a :: b :: l) := by simpa using hs
    obtain ⟨hn₀, _, hna⟩ := List.isChain_append.mp hn₁
    refine ⟨l₀ ++ mergeBackward a b l, hshCombineBackward_shape hs', ?_, ?_, ?_⟩
    · rw [mergeBackward, mergeForward, hb, if_pos rfl]
      refine List.isChain_append.mpr ⟨hn₀, ?_, ?_⟩
      · split_ifs with ha
        · exact List.isChain_cons.mpr ⟨fun d hd => by simp [hhead d hd], hn₂⟩
        · refine List.isChain_cons.mpr ⟨by simp [ha], ?_⟩
          exact List.isChain_cons.mpr ⟨fun d hd => by simp [hhead d hd], hn₂⟩
      · intro s hsl t ht
        have := hna s hsl a (by simp)
        split_ifs at ht <;>
        · simp only [List.head?_cons, Option.mem_some_iff] at ht
          subst ht
          exact this
    · intro s hsf hmem
      rw [mergeBackward, mergeForward, hb, if_pos rfl]
      have hne : a.free = true → s ≠ a := by
        rintro ha rfl
        simp [ha] at hsf
      simp only [List.mem_append, List.mem_singleton] at hmem ⊢
      split_ifs with ha
      · have := hne ha
        simp only [List.mem_cons]
        tauto
      · simp only [List.mem_cons]
        tauto
    · intro x hx
      exact hshCombineBackward_mem hs' (by simpa using hx)

/-- **`free` returns a segment**, and writes headers only. -/
theorem free_headers (hi : HeapInv h segs) (hb : b ∈ segs) :
    ∃ segs', HeapInv (free h b.payload) segs'
      ∧ (∀ s ∈ segs.filter (· ≠ b), s.free = false → s ∈ segs')
      ∧ ∀ x, OffHeaders segs x → (free h b.payload).mem x = h.mem x := by
  obtain ⟨hs, hn, hsplits, hmapped⟩ := hi
  obtain ⟨l₁, l₂, rfl⟩ := List.append_of_mem hb
  have hbb := hs.bounds hb
  have haddr : sub32 b.payload headerSize = b.addr := by
    rw [Seg.payload, headerSize, sub32_of_le (by omega) (by omega)]
    omega
  obtain ⟨hn₁, hn₂, hn₁b⟩ := List.isChain_append.mp hn
  -- the flag, then the forward merge
  have hs₁ := hs.setFree true
  set h₁ := h.setFree b.addr true with hh₁
  have hs₂ := hshCombineForward_shape hs₁
  obtain ⟨b', r, hmerge, haddr', hfree', hr⟩ := mergeForward_cases { b with free := true } l₂
  rw [hmerge] at hs₂
  have hhead : ∀ d ∈ r.head?, d.free = false := by
    rcases hr with ⟨rfl, hhd⟩ | ⟨c, rfl, hc⟩
    · exact hhd
    · exact NoTwoFree.head_of_cons (List.isChain_cons.mp hn₂).2 hc
  have hnr : NoTwoFree r := by
    rcases hr with ⟨rfl, _⟩ | ⟨c, rfl, _⟩
    · exact (List.isChain_cons.mp hn₂).2
    · exact (List.isChain_cons.mp (List.isChain_cons.mp hn₂).2).2
  have hrsub : r ⊆ l₂ := by
    rcases hr with ⟨rfl, _⟩ | ⟨c, rfl, _⟩
    · exact List.Subset.refl r
    · exact List.subset_cons_self c r
  have hsub : addrs (l₁ ++ b' :: r) ⊆ addrs (l₁ ++ b :: l₂) := by
    simp only [addrs, List.map_append, List.map_cons, haddr']
    refine List.append_subset.mpr ⟨List.subset_append_left .., ?_⟩
    exact List.subset_append_of_subset_right _ (List.cons_subset_cons _ (List.map_subset _ hrsub))
  -- the backward merge
  obtain ⟨segs', hs₃, hn₃, hmem₃, hbytes₃⟩ :=
    hshCombineBackward_free hs₂ hfree' hn₁ hnr hhead
  have heq : free h b.payload
      = hshCombineBackward (hshCombineForward h₁ b.addr) b'.addr := by
    rw [free_eq, haddr, haddr']
  rw [heq]
  refine ⟨segs', ⟨hs₃, hn₃, ?_, ?_⟩, ?_, ?_⟩
  · simpa [hh₁] using hsplits
  · simpa [hh₁] using hmapped
  · intro s hsf hfree
    rcases mem_of_mem_filter_cut hsf with h1 | h1
    · exact hmem₃ s hfree (Or.inl h1)
    · refine hmem₃ s hfree (Or.inr ?_)
      rcases hr with ⟨rfl, _⟩ | ⟨c, rfl, hc⟩
      · exact h1
      · rcases List.mem_cons.mp h1 with rfl | h2
        · simp [hc] at hfree
        · exact h2
  · intro x hoff
    rw [hbytes₃ x (hoff.mono hsub)]
    have h2 := hshCombineForward_mem hs₁ (hoff.mono (by simp [addrs]))
    rw [h2, hh₁, Heap.setFree_mem _ _ (hoff b (by simp))]

/-- **`free` keeps the other blocks.** -/
theorem free_spec (hi : HeapInv h segs) (hb : b ∈ segs) :
    ∃ segs', HeapInv (free h b.payload) segs'
      ∧ Keeps h (segs.filter (· ≠ b)) (free h b.payload) segs' := by
  obtain ⟨segs', hi', hmem, hoff⟩ := free_headers hi hb
  refine ⟨segs', hi', hmem, fun s hs _ x hx => hoff x ?_⟩
  exact hi.shape.offHeaders_of_mem_bytes (List.mem_of_mem_filter hs) hx

/-! ### `malloc` -/

/-- The segment `malloc` settles on is cut to size and taken. -/
def takeSegment (h : Heap) (b : Seg) (size : ℕ) : Heap :=
  if size < b.length then (hshSplit h b.addr size).setFree b.addr false
  else h.setFree b.addr false

/-- The walk of `malloc`: it takes the first segment that fits, or passes them all. -/
lemma mallocWalk_spec (size : ℕ) {fuel : ℕ} (hs : Shape h (l₁ ++ l)) (hne : l ≠ [])
    (hfuel : l.length ≤ fuel) :
    (∃ m b r, l = m ++ b :: r ∧ b.free = true ∧ size ≤ b.length
      ∧ mallocWalk h size fuel (firstD 0 (addrs l)) = some (takeSegment h b size, some b.payload))
    ∨ (∀ s ∈ l, s.free = true → s.length < size)
      ∧ mallocWalk h size fuel (firstD 0 (addrs l)) = some (h, none) := by
  induction l generalizing l₁ fuel with
  | nil => exact absurd rfl hne
  | cons b l ih =>
    have hb := hs.hdr_eq
    have hbb := hs.bounds (b := b) (by simp)
    have hpay : wrap32 (b.addr + headerSize) = b.payload := by
      rw [Seg.payload]
      exact wrap32_of_lt (by rw [headerSize]; omega)
    obtain ⟨fuel, rfl⟩ : ∃ f, fuel = f + 1 := ⟨fuel - 1, by simp at hfuel; omega⟩
    simp only [addrs, List.map_cons, firstD_cons, mallocWalk, hb, hpay]
    by_cases hfit : b.free = true ∧ size ≤ b.length
    · refine Or.inl ⟨[], b, l, rfl, hfit.1, hfit.2, ?_⟩
      rw [takeSegment]
      by_cases hlt : size < b.length
      · rw [if_pos ⟨hfit.1, hlt⟩, if_pos hlt]
      · rw [if_neg (by omega), if_pos ⟨hfit.1, by omega⟩, if_neg hlt]
    · rw [if_neg fun hc => hfit ⟨hc.1, by omega⟩, if_neg fun hc => hfit ⟨hc.1, by omega⟩]
      have hnot : b.free = true → b.length < size := by
        intro hf
        by_contra hlt
        exact hfit ⟨hf, by omega⟩
      cases l with
      | nil => exact Or.inr ⟨by simpa using hnot, by simp⟩
      | cons d l =>
        have hs' : Shape h ((l₁ ++ [b]) ++ d :: l) := by simpa using hs
        rw [if_neg (hs'.firstD_ne_zero)]
        rcases ih hs' (by simp) (by simpa using hfuel) with
          ⟨m, c, r, heq, h1, h2, h3⟩ | ⟨h1, h2⟩
        · exact Or.inl ⟨b :: m, c, r, by rw [heq]; rfl, h1, h2, h3⟩
        · refine Or.inr ⟨?_, h2⟩
          intro s hsl hf
          rcases List.mem_cons.mp hsl with rfl | hsl
          · exact hnot hf
          · exact h1 s hsl hf

/-- **What `malloc` promises**: the invariant, the other blocks, and a new block of the size
asked for at the address returned. -/
structure Allocates (h : Heap) (segs : List Seg) (size : ℕ) (h' : Heap) (p : ℕ)
    (segs' : List Seg) : Prop where
  inv : HeapInv h' segs'
  keeps : Keeps h segs h' segs'
  start : h'.heapStart = h.heapStart
  fresh : ∃ b ∈ segs', b.free = false ∧ b.payload = p ∧ size ≤ b.length
    ∧ ∀ s ∈ segs, s.free = false → s.addr ≠ b.addr

/-- The pieces of a split: the first has the size asked for, and a second one is free. -/
lemma splitSeg_cases {k : ℕ} (hk : k < b.length) :
    ∃ b' r, splitSeg b k = b' :: r ∧ b'.addr = b.addr ∧ k ≤ b'.length
      ∧ (r = [] ∨ ∃ c, r = [c] ∧ c.free = b.free) := by
  rw [splitSeg]
  split_ifs with hroom
  · exact ⟨b, [], rfl, rfl, hk.le, Or.inl rfl⟩
  · exact ⟨_, _, rfl, rfl, le_rfl, Or.inr ⟨_, rfl, rfl⟩⟩

/-- Taking a segment allocates it. -/
lemma takeSegment_spec {size : ℕ} (hi : HeapInv h (l₁ ++ b :: l₂)) (hb : b.free = true)
    (h0 : 0 < size) (h16 : 16 ∣ size) (hle : size ≤ b.length) :
    ∃ segs', Allocates h (l₁ ++ b :: l₂) size (takeSegment h b size) b.payload segs' := by
  obtain ⟨hs, hn, hsplits, hmapped⟩ := hi
  obtain ⟨hn₁, hn₂, hn₁b⟩ := List.isChain_append.mp hn
  have hhead := NoTwoFree.head_of_cons hn₂ hb
  have hothers : ∀ s ∈ l₁ ++ b :: l₂, s.free = false → s.addr ≠ b.addr := by
    intro s hsl hf heq
    have := hs.eq_of_addr_eq hsl (by simp) heq
    simp [this, hb] at hf
  have hmem : ∀ s ∈ l₁ ++ b :: l₂, s.free = false → s ∈ l₁ ∨ s ∈ l₂ := by
    intro s hsl hf
    have hne : s ≠ b := by
      rintro rfl
      simp [hb] at hf
    simp only [List.mem_append, List.mem_cons] at hsl
    tauto
  rw [takeSegment]
  split_ifs with hlt
  · have hs' := hshSplit_shape hs h0 h16 hlt
    obtain ⟨b', r, heq, haddr, hlen, hr⟩ := splitSeg_cases hlt
    rw [heq, List.cons_append] at hs'
    have hs'' := hs'.setFree false
    rw [haddr] at hs''
    refine ⟨_, ⟨hs'', ?_, ?_, ?_⟩, ⟨?_, ?_⟩, by simp, { b' with free := false }, by simp [haddr],
      rfl, by rw [Seg.payload, Seg.payload, haddr], hlen, fun s hsl hf => ?_⟩
    · refine List.isChain_append.mpr ⟨hn₁, ?_, by simp⟩
      refine List.isChain_cons.mpr ⟨by simp, ?_⟩
      have hn₂' := (List.isChain_cons.mp hn₂).2
      rcases hr with rfl | ⟨c, rfl, _⟩
      · exact hn₂'
      · exact List.isChain_cons.mpr ⟨fun d hd => by simp [hhead d hd], hn₂'⟩
    · intro c hc
      rw [Heap.setFree_splits, hshSplit_splits, hs.hdr_eq] at hc
      rcases List.mem_append.mp hc with hc | hc
      · exact hsplits c hc
      · -- the call made here: lengths are multiples of sixteen, so that a header fits
        rw [List.mem_singleton.mp hc, headerSize]
        have := (hs.length b (by simp)).2
        simp only
        omega
    · simpa using hmapped
    · intro s hsl hf
      rcases hmem s hsl hf with h1 | h1 <;> simp [h1]
    · intro s hsl hf x hx
      have hoff := hs.offHeaders_of_mem_bytes hsl hx
      rw [Heap.setFree_mem _ _ (hoff b (by simp))]
      refine hshSplit_mem hs h0 h16 hlt hoff ?_
      -- another block's bytes lie before or behind the segment that is cut
      have hne : s ≠ b := by
        rintro rfl
        simp [hb] at hf
      simp only [Seg.bytes, Seg.payload, headerSize, Set.mem_Ico] at hx
      rcases hs.tiles.eq_or_apart hsl (show b ∈ l₁ ++ b :: l₂ by simp) with h1 | h1 | h1
      · exact absurd h1 hne
      all_goals
        simp only [Seg.size, headerSize] at h1
        omega
    · simpa [haddr] using hothers s hsl hf
  · refine ⟨l₁ ++ { b with free := false } :: l₂, ⟨hs.setFree false, ?_, hsplits, hmapped⟩,
      ⟨?_, ?_⟩, rfl, { b with free := false }, by simp, rfl, rfl, hle, hothers⟩
    · refine List.isChain_append.mpr ⟨hn₁, ?_, ?_⟩
      · exact List.isChain_cons.mpr ⟨by simp, (List.isChain_cons.mp hn₂).2⟩
      · simp
    · intro s hsl hf
      rcases hmem s hsl hf with h1 | h1 <;> simp [h1]
    · intro s hsl _ x hx
      exact Heap.setFree_mem _ _ (hs.offHeaders_of_mem_bytes hsl hx b (by simp))

/-- `expand_heap` keeps every payload. -/
lemma expandHeap_mem {z : Seg} {size : ℕ} (hs : Shape h (l ++ [z])) (h0 : 0 < pageCeil size)
    (hfit : h.heapEnd + pageCeil size < 2 ^ 32) (hsl : s ∈ l ++ [z]) :
    Set.EqOn (expandHeap h size).mem h.mem s.bytes := by
  intro x hx
  have hdvd : 0x1000 ∣ pageCeil size := Dvd.intro_left _ rfl
  have hoff := hs.offHeaders_of_mem_bytes hsl hx
  have hsb := hs.bounds hsl
  simp only [Seg.bytes, Seg.payload, headerSize, Set.mem_Ico] at hx
  have hoff' : OffHeaders (l ++ z :: [⟨h.heapEnd, pageCeil size - 16, true⟩]) x := by
    intro t ht
    simp only [List.mem_append, List.mem_cons, List.not_mem_nil, or_false] at ht
    rcases ht with ht | rfl | rfl
    · exact hoff t (by simp [ht])
    · exact hoff _ (by simp)
    · exact Or.inl (by simp only; omega)
  rw [expandHeap_eq, roundPages_eq (by omega)]
  exact (hshCombineBackward_mem (appendSegment_shape hs h0 hdvd hfit) hoff').trans
    (appendSegment_mem hs hdvd hoff (by omega))

/-- **`expand_heap` leaves a free segment at the end**, with room for the request when there
was one before, and short of it by at most a header otherwise. -/
lemma expandHeap_spec {z : Seg} {size : ℕ} (hi : HeapInv h (l ++ [z])) (h0 : 0 < size)
    (hfit : h.heapEnd + pageCeil size < 2 ^ 32) :
    ∃ l' f, HeapInv (expandHeap h size) (l' ++ [f])
      ∧ Keeps h (l ++ [z]) (expandHeap h size) (l' ++ [f])
      ∧ (expandHeap h size).heapStart = h.heapStart
      ∧ f.free = true ∧ size ≤ f.length + 16 ∧ (z.free = true → size ≤ f.length) := by
  obtain ⟨hs, hn, hsplits, hmapped⟩ := hi
  have hdvd : 0x1000 ∣ pageCeil size := Dvd.intro_left _ rfl
  have hpage : 16 ≤ pageCeil size ∧ size ≤ pageCeil size := by
    rw [pageCeil]
    omega
  have hbytes : ∀ s ∈ l ++ [z], s.free = false → Set.EqOn (expandHeap h size).mem h.mem s.bytes :=
    fun s hsl _ => expandHeap_mem hs (by omega) hfit hsl
  have hshape := hshCombineBackward_shape (appendSegment_shape hs (by omega) hdvd hfit)
  obtain ⟨hstart, hend, _, hmmaps, hlog⟩ := appendSegment_globals hdvd hfit
  have heq : expandHeap h size
      = hshCombineBackward (appendSegment h (pageCeil size)) h.heapEnd := by
    rw [expandHeap_eq, roundPages_eq (by omega)]
  have hstart' : (expandHeap h size).heapStart = h.heapStart := by simp [heq, hstart]
  have hlog' : ∀ c ∈ (expandHeap h size).splits, c.2 + headerSize ≤ c.1 := by
    simpa [heq, hlog] using hsplits
  -- the new addresses are mapped by the calls of this expansion
  have hmapped' : ∀ x, (expandHeap h size).heapStart ≤ x → x < (expandHeap h size).heapEnd →
      ∃ p ∈ (expandHeap h size).mmaps, p ≤ x ∧ x < p + 0x1000 := by
    intro x h1 h2
    simp only [heq, hshCombineBackward_heapStart, hshCombineBackward_heapEnd,
      hshCombineBackward_mmaps, hstart, hend, hmmaps] at h1 h2 ⊢
    by_cases hx : x < h.heapEnd
    · obtain ⟨p, hp, h3⟩ := hmapped x h1 hx
      exact ⟨p, List.mem_append_left _ hp, h3⟩
    · have hmul : pageCeil size / 0x1000 * 0x1000 = pageCeil size := Nat.div_mul_cancel hdvd
      obtain ⟨p, hp, h3⟩ := exists_mem_mmapFrom (n := pageCeil size / 0x1000) (x := x)
        (show h.heapEnd + _ < 2 ^ 32 by omega) (by omega) (by omega)
      exact ⟨p, List.mem_append_right _ hp, h3⟩
  obtain ⟨hn₀, _, hnz⟩ := List.isChain_append.mp hn
  rw [mergeBackward, mergeForward, if_pos rfl, ← heq] at hshape
  by_cases hz : z.free = true
  · rw [if_pos hz] at hshape
    refine ⟨l, _, ⟨hshape, ?_, hlog', hmapped'⟩, ⟨?_, hbytes⟩, hstart', hz, ?_, ?_⟩
    · exact List.isChain_append.mpr ⟨hn₀, by simp, by simpa using hnz⟩
    · intro s hsl hf
      simp only [List.mem_append, List.mem_singleton] at hsl ⊢
      rcases hsl with hsl | rfl
      · exact Or.inl hsl
      · simp [hz] at hf
    all_goals
      simp only [Seg.size, headerSize]
      omega
  · rw [if_neg hz] at hshape
    refine ⟨l ++ [z], ⟨h.heapEnd, pageCeil size - 16, true⟩, ⟨by simpa using hshape, ?_, hlog',
      hmapped'⟩, ⟨fun s hsl _ => List.mem_append_left _ hsl, hbytes⟩, hstart', rfl, ?_,
      fun h1 => absurd h1 hz⟩
    · exact List.isChain_append.mpr ⟨hn, by simp, by simpa using hz⟩
    · simp only
      omega

/-- **The request fits the address space**: whenever `malloc` grows the heap for it, the heap
ends below the top of the 32-bit address space, in natural numbers. -/
def mallocFits : ℕ → Heap → ℕ → Prop
  | 0, _, _ => True
  | fuel + 1, h, size =>
    match mallocWalk h (roundSize size) walkFuel h.heapStart with
    | some (h', none) =>
      roundSize size ≠ 0 → h'.heapEnd + pageCeil (roundSize size) < 2 ^ 32
        ∧ mallocFits fuel (expandHeap h' (roundSize size)) (roundSize size)
    | _ => True

lemma dvd_roundSize (n : ℕ) : 16 ∣ roundSize n := by
  rw [roundSize, wrap32]
  split_ifs <;> omega

lemma roundSize_of_dvd {n : ℕ} (h : 16 ∣ n) : roundSize n = n := by
  rw [roundSize, if_neg (by omega)]

/-- Rounding makes no size smaller, unless it wraps to zero. -/
lemma le_roundSize {n : ℕ} (hn : n < 2 ^ 32) (h0 : roundSize n ≠ 0) : n ≤ roundSize n := by
  rw [roundSize, wrap32] at *
  split_ifs at * <;> omega

/-- `malloc` sees its request rounded. -/
lemma malloc_roundSize (fuel n : ℕ) : malloc fuel h (roundSize n) = malloc fuel h n := by
  cases fuel with
  | zero => rfl
  | succ fuel => simp only [malloc, roundSize_of_dvd (dvd_roundSize n)]

/-- A size fits just when its rounded one does. -/
lemma mallocFits_roundSize (fuel n : ℕ) :
    mallocFits fuel h (roundSize n) ↔ mallocFits fuel h n := by
  cases fuel with
  | zero => exact Iff.rfl
  | succ fuel => simp only [mallocFits, roundSize_of_dvd (dvd_roundSize n)]

/-- An allocation after a step that keeps the blocks is an allocation. -/
lemma Keeps.allocates {size p : ℕ} (hk : Keeps h segs h' segs')
    (hstart : h'.heapStart = h.heapStart) (ha : Allocates h' segs' size h'' p segs'') :
    Allocates h segs size h'' p segs'' := by
  obtain ⟨b, hb, h1, h2, h3, h4⟩ := ha.fresh
  exact ⟨ha.inv, hk.trans ha.keeps, ha.start.trans hstart, b, hb, h1, h2, h3,
    fun s hs hf => h4 s (hk.mem s hs hf) hf⟩

/-- The walk over the whole heap: an allocation, or no segment fits. -/
lemma mallocWalk_heap {size : ℕ} (hi : HeapInv h segs) (h0 : 0 < size) (h16 : 16 ∣ size) :
    (∃ h' p segs', mallocWalk h size walkFuel h.heapStart = some (h', some p)
        ∧ Allocates h segs size h' p segs')
    ∨ (∀ s ∈ segs, s.free = true → s.length < size)
      ∧ mallocWalk h size walkFuel h.heapStart = some (h, none) := by
  have hs := hi.shape
  have hfirst : firstD 0 (addrs segs) = h.heapStart := by
    cases segs with
    | nil => exact absurd rfl hs.nonempty
    | cons b l => exact hs.tiles.1
  have hwalk := mallocWalk_spec size (show Shape h ([] ++ segs) from hs) hs.nonempty
    hs.length_lt_walkFuel.le
  rw [hfirst] at hwalk
  rcases hwalk with ⟨m, b, r, rfl, hb, hle, hw⟩ | hw
  · obtain ⟨segs', ha⟩ := takeSegment_spec hi hb h0 h16 hle
    exact Or.inl ⟨_, _, segs', hw, ha⟩
  · exact Or.inr hw

section Malloc

variable {size k : ℕ} (h0 : 0 < size) (h16 : 16 ∣ size)

include h0 h16

/-- With a segment that fits, `malloc` does not expand. -/
lemma malloc_of_room (hi : HeapInv h segs) (hroom : ∃ s ∈ segs, s.free = true ∧ size ≤ s.length) :
    ∃ h' p segs', malloc (k + 1) h size = some (h', p) ∧ Allocates h segs size h' p segs' := by
  rcases mallocWalk_heap hi h0 h16 with ⟨h', p, segs', hw, ha⟩ | ⟨hno, _⟩
  · refine ⟨h', p, segs', ?_, ha⟩
    simp only [malloc, roundSize_of_dvd h16, if_neg h0.ne', hw]
  · obtain ⟨s, hs, hf, hle⟩ := hroom
    have := hno s hs hf
    omega

/-- One expansion: `malloc` is done, or it is where an expansion leaves it. -/
lemma malloc_expand (hi : HeapInv h segs) (hfits : mallocFits (k + 1) h size) :
    (∃ h' p segs', malloc (k + 1) h size = some (h', p) ∧ Allocates h segs size h' p segs')
    ∨ malloc (k + 1) h size = malloc k (expandHeap h size) size
      ∧ h.heapEnd + pageCeil size < 2 ^ 32 ∧ mallocFits k (expandHeap h size) size := by
  rcases mallocWalk_heap hi h0 h16 with ⟨h', p, segs', hw, ha⟩ | ⟨_, hw⟩
  · refine Or.inl ⟨h', p, segs', ?_, ha⟩
    simp only [malloc, roundSize_of_dvd h16, if_neg h0.ne', hw]
  · simp only [mallocFits, roundSize_of_dvd h16, hw] at hfits
    refine Or.inr ⟨?_, hfits h0.ne'⟩
    simp only [malloc, roundSize_of_dvd h16, if_neg h0.ne', hw]

/-- Behind a free last segment one expansion is enough. -/
lemma malloc_of_lastFree {z : Seg} (hi : HeapInv h (l ++ [z])) (hz : z.free = true)
    (hfits : mallocFits (k + 2) h size) :
    ∃ h' p segs', malloc (k + 2) h size = some (h', p)
      ∧ Allocates h (l ++ [z]) size h' p segs' := by
  rcases malloc_expand h0 h16 hi hfits with hdone | ⟨heq, hfit, _⟩
  · exact hdone
  · obtain ⟨l', f, hi', hk, hstart, hf, _, hroom⟩ := expandHeap_spec hi h0 hfit
    obtain ⟨h', p, segs', hm, ha⟩ :=
      malloc_of_room (k := k) h0 h16 hi' ⟨f, by simp, hf, hroom hz⟩
    exact ⟨h', p, segs', heq.trans hm, hk.allocates hstart ha⟩

/-- **`malloc` is done after at most two expansions.** -/
lemma malloc_of_dvd (hi : HeapInv h segs) (hfits : mallocFits (k + 3) h size) :
    ∃ h' p segs', malloc (k + 3) h size = some (h', p) ∧ Allocates h segs size h' p segs' := by
  obtain rfl | ⟨l, z, rfl⟩ := List.eq_nil_or_concat' segs
  · exact absurd rfl hi.shape.nonempty
  rcases malloc_expand h0 h16 hi hfits with hdone | ⟨heq, hfit, hfits'⟩
  · exact hdone
  · obtain ⟨l', f, hi', hk, hstart, hf, _, _⟩ := expandHeap_spec hi h0 hfit
    obtain ⟨h', p, segs', hm, ha⟩ := malloc_of_lastFree h0 h16 hi' hf hfits'
    exact ⟨h', p, segs', heq.trans hm, hk.allocates hstart ha⟩

end Malloc

/-- **`malloc` of any 32-bit request**: null when the rounded request is zero, and else a block
of at least that many bytes. -/
theorem malloc_spec {n fuel : ℕ} (hi : HeapInv h segs) (hn : n < 2 ^ 32) (hfuel : 3 ≤ fuel)
    (hfits : mallocFits fuel h n) :
    roundSize n = 0 ∧ malloc fuel h n = some (h, 0)
    ∨ ∃ h' p segs', malloc fuel h n = some (h', p) ∧ Allocates h segs n h' p segs' := by
  obtain ⟨k, rfl⟩ : ∃ k, fuel = k + 3 := ⟨fuel - 3, by omega⟩
  by_cases h0 : roundSize n = 0
  · exact Or.inl ⟨h0, by simp only [malloc, h0, if_pos]⟩
  · rw [← mallocFits_roundSize] at hfits
    rw [← malloc_roundSize]
    obtain ⟨h', p, segs', hm, ha⟩ :=
      malloc_of_dvd (Nat.pos_of_ne_zero h0) (dvd_roundSize n) hi hfits
    obtain ⟨b, hb, h1, h2, h3, h4⟩ := ha.fresh
    exact Or.inr ⟨h', p, segs', hm, ha.inv, ha.keeps, ha.start, b, hb, h1, h2,
      (le_roundSize hn h0).trans h3, h4⟩

end MicroOS
