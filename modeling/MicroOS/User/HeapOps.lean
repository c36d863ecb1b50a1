import MicroOS.User.HeapRep

/-!
The allocator's internal operations on the represented list: `hsh_combine_forward` and
`hsh_combine_backward` merge two neighbours, `hsh_split` cuts a segment in two, `expand_heap`
appends one. Each comes as two lemmas: the list its result represents, and that it writes no
byte outside the headers of the old and the new list.
-/

namespace MicroOS

open ByteMem Chain

variable {h : Heap} {segs l l₁ l₂ : List Seg} {b c : Seg}

/-- The byte at `x` belongs to no header of the list. -/
def OffHeaders (segs : List Seg) (x : ℕ) : Prop := ∀ t ∈ segs, x < t.addr ∨ t.addr + 16 ≤ x

namespace Shape

/-- `last_hdr` is a segment exactly when nothing follows it. -/
lemma lastHdr_eq_iff (hs : Shape h (l₁ ++ b :: l₂)) : h.lastHdr = b.addr ↔ l₂ = [] := by
  have hfin := hs.final
  simp only [addrs, List.map_append, List.map_cons, finalD_append, finalD_cons] at hfin
  constructor
  · intro heq
    by_contra hne
    have hmem : finalD b.addr (addrs l₂) ∈ addrs l₂ := finalD_mem (by simpa using hne)
    obtain ⟨t, ht, hta⟩ := List.mem_map.mp hmem
    have hcut := hs.cut.2 t ht
    rw [hfin, ← hta] at heq
    omega
  · rintro rfl
    simpa using hfin

/-- The payload of a segment contains no header. -/
lemma offHeaders_payload (hs : Shape h segs) (hb : b ∈ segs) {x : ℕ} (h1 : b.addr + 16 ≤ x)
    (h2 : x < b.addr + 16 + b.length) : OffHeaders segs x := by
  intro t ht
  rcases hs.tiles.eq_or_apart hb ht with rfl | h3 | h3
  · exact Or.inr h1
  all_goals
    simp only [Seg.size, headerSize] at h3
    omega

end Shape

/-! ### Merging -/

/-- A segment swallows the one after it when that one is free. -/
def mergeForward (b : Seg) : List Seg → List Seg
  | [] => [b]
  | c :: l => if c.free then { b with length := b.length + c.size } :: l else b :: c :: l

@[simp] lemma hshCombineForward_heapStart (a : ℕ) :
    (hshCombineForward h a).heapStart = h.heapStart := by
  simp only [hshCombineForward]
  split_ifs <;> rfl

@[simp] lemma hshCombineForward_heapEnd (a : ℕ) :
    (hshCombineForward h a).heapEnd = h.heapEnd := by
  simp only [hshCombineForward]
  split_ifs <;> rfl

@[simp] lemma hshCombineForward_mmaps (a : ℕ) : (hshCombineForward h a).mmaps = h.mmaps := by
  simp only [hshCombineForward]
  split_ifs <;> rfl

@[simp] lemma hshCombineForward_splits (a : ℕ) :
    (hshCombineForward h a).splits = h.splits := by
  simp only [hshCombineForward]
  split_ifs <;> rfl

/-- The merge with the last segment in closed form, from the two headers. -/
lemma hshCombineForward_eq_of_lastHdr {a e n m p q : ℕ} {f : Bool} (ha : h.hdr a = ⟨n, e, p, f⟩)
    (he : h.hdr e = ⟨m, 0, q, true⟩) (hlast : h.lastHdr = e) (hae : a + 16 ≤ e) :
    hshCombineForward h a
      = (Heap.setLength { h with lastHdr := a } a (wrap32 (n + m + 16))).setNext a 0 := by
  have hset : ∀ v, (Heap.setLength { h with lastHdr := a } a v).hdr e = h.hdr e :=
    fun v => Heap.hdr_setLength_of_apart _ _ (by omega)
  have hself : Heap.hdr { h with lastHdr := a } a = h.hdr a := rfl
  have hother : Heap.hdr { h with lastHdr := a } e = h.hdr e := rfl
  have hpos : e ≠ 0 := by omega
  simp [hshCombineForward, ha, he, hlast, headerSize, hset, hself, hother, hpos]

/-- The merge at the end of the list, in closed form. -/
lemma hshCombineForward_eq_of_nil (hs : Shape h (l₁ ++ [b, c])) (hc : c.free = true) :
    hshCombineForward h b.addr
      = (Heap.setLength { h with lastHdr := b.addr } b.addr
          (wrap32 (b.length + c.length + 16))).setNext b.addr 0 := by
  have hs' : Shape h ((l₁ ++ [b]) ++ [c]) := by simpa using hs
  have hcut := hs.cut.2 c (by simp)
  have hb := hs.hdr_eq
  have hcd := hs'.hdr_eq
  simp only [addrs, List.map_cons, List.map_nil, firstD_cons, firstD_nil, hc] at hb hcd
  exact hshCombineForward_eq_of_lastHdr hb hcd (hs'.lastHdr_eq_iff.mpr rfl) (by omega)

/-- The merge in the middle of the list, in closed form. -/
lemma hshCombineForward_eq_of_cons {d : Seg} (hs : Shape h (l₁ ++ b :: c :: d :: l))
    (hc : c.free = true) :
    hshCombineForward h b.addr
      = ((h.setLast d.addr b.addr).setLength b.addr
          (wrap32 (b.length + c.length + 16))).setNext b.addr d.addr := by
  have hb := hs.hdr_eq
  have hs' : Shape h ((l₁ ++ [b]) ++ c :: d :: l) := by simpa using hs
  have hcd := hs'.hdr_eq
  have hlast : ¬ c.addr = h.lastHdr := by
    intro heq
    have := hs'.lastHdr_eq_iff.mp heq.symm
    simp at this
  have hcut := hs.cut.2 c (by simp)
  have hcutd := hs'.cut.2 d (by simp)
  have hpos := (hs.bounds (b := c) (by simp)).1
  have hposd := (hs.bounds (b := d) (by simp)).1
  have hself : (h.setLast d.addr b.addr).hdr b.addr = h.hdr b.addr :=
    Heap.hdr_setLast_of_apart _ _ (by omega)
  have hother : (h.setLast d.addr b.addr).hdr c.addr = h.hdr c.addr :=
    Heap.hdr_setLast_of_apart _ _ (by omega)
  have hset : ∀ v, ((h.setLast d.addr b.addr).setLength b.addr v).hdr c.addr = h.hdr c.addr :=
    fun v => (Heap.hdr_setLength_of_apart _ _ (by omega)).trans hother
  simp only [addrs, List.map_cons, firstD_cons] at hb hcd
  simp [hshCombineForward, hb, hcd, hc, hlast, headerSize, hset, hself, hother, hpos.ne',
    hposd.ne']

/-- The list with two neighbours merged, from the headers the merge leaves. -/
lemma Shape.merge {h' : Heap} (hs : Shape h (l₁ ++ b :: c :: l))
    (hstart : h'.heapStart = h.heapStart) (hend : h'.heapEnd = h.heapEnd)
    (hb : h'.hdr b.addr
      = ⟨b.length + c.length + 16, firstD 0 (addrs l), finalD 0 (addrs l₁), b.free⟩)
    (hleft : ∀ s ∈ l₁, h'.hdr s.addr = h.hdr s.addr)
    (hseam : ∀ s ∈ l.head?, h'.hdr s.addr = { h.hdr s.addr with last := b.addr })
    (hright : ∀ s ∈ l.tail, h'.hdr s.addr = h.hdr s.addr)
    (hfinal : h'.lastHdr = finalD b.addr (addrs l)) :
    Shape h' (l₁ ++ { b with length := b.length + c.size } :: l) := by
  have hlen := hs.length b (by simp)
  have hlenc := hs.length c (by simp)
  have hsize : b.length + c.size = b.length + c.length + 16 := by
    rw [Seg.size, headerSize]
    omega
  refine Shape.splice l₁ [b, c] [{ b with length := b.length + c.size }] l hs (by simp) hstart
    (hend ▸ hs.below) ?_ rfl hleft ?_ ?_ ?_ hseam hright hfinal
  · obtain ⟨mid, h1, h2, h3, h4⟩ := tiles_append.mp hs.tiles
    rw [hstart, hend]
    refine tiles_append.mpr ⟨mid, h1, h2, ?_⟩
    simpa only [Seg.size, Nat.add_assoc, List.append_eq, List.nil_append] using h4
  · simp [Linked, hb]
  · simp [hb, hsize]
  · intro s hmem
    rw [List.mem_singleton.mp hmem]
    simp only [hsize]
    omega

/-- **`hsh_combine_forward` merges forward.** -/
theorem hshCombineForward_shape (hs : Shape h (l₁ ++ b :: l₂)) :
    Shape (hshCombineForward h b.addr) (l₁ ++ mergeForward b l₂) := by
  have hb := hs.hdr_eq
  cases l₂ with
  | nil =>
    have : hshCombineForward h b.addr = h := by simp [hshCombineForward, hb]
    rwa [this]
  | cons c l =>
    have hs' : Shape h ((l₁ ++ [b]) ++ c :: l) := by simpa using hs
    have hcd := hs'.hdr_eq
    cases hc : c.free with
    | false =>
      have : hshCombineForward h b.addr = h := by
        simp only [addrs, List.map_cons, firstD_cons] at hb
        simp [hshCombineForward, hb, hcd, hc]
      rw [this, mergeForward, hc]
      simpa using hs
    | true =>
      have hcb := hs.bounds (b := c) (by simp)
      have hcut := hs.cut
      have hcutc := hs'.cut
      have hcutb := hcut.2 c (by simp)
      have hsum : b.length + c.length + 16 < 2 ^ 32 := by omega
      rw [mergeForward, hc, if_pos rfl]
      -- both forms of the rest are the merge of `b` and `c`
      cases l with
      | nil =>
        rw [hshCombineForward_eq_of_nil hs hc]
        refine hs.merge rfl rfl ?_ ?_ (by simp) (by simp) rfl
        · have hself : Heap.hdr { h with lastHdr := b.addr } b.addr = h.hdr b.addr := rfl
          simp [hself, hb, wrap32_of_lt hsum]
        · intro s hsl
          have := hcut.1 s hsl
          rw [Heap.hdr_setNext_of_apart _ _ (by omega),
            Heap.hdr_setLength_of_apart _ _ (by omega)]
          rfl
      | cons d l =>
        have hdb := hs.bounds (b := d) (by simp)
        have hcutd := hcutc.2 d (by simp)
        have hs'' : Shape h ((l₁ ++ [b, c]) ++ d :: l) := by simpa using hs
        rw [hshCombineForward_eq_of_cons hs hc]
        refine hs.merge rfl rfl ?_ ?_ ?_ ?_ ?_
        · have hself : (h.setLast d.addr b.addr).hdr b.addr = h.hdr b.addr :=
            Heap.hdr_setLast_of_apart _ _ (by omega)
          simp [hself, hb, wrap32_of_lt hsum, wrap32_of_lt (show d.addr < 2 ^ 32 by omega)]
        · intro s hsl
          have := hcut.1 s hsl
          rw [Heap.hdr_setNext_of_apart _ _ (by omega),
            Heap.hdr_setLength_of_apart _ _ (by omega),
            Heap.hdr_setLast_of_apart _ _ (by omega)]
        · intro s hsd
          simp only [List.head?_cons, Option.mem_some_iff] at hsd
          subst hsd
          rw [Heap.hdr_setNext_of_apart _ _ (by omega),
            Heap.hdr_setLength_of_apart _ _ (by omega), Heap.hdr_setLast_self,
            wrap32_of_lt (by omega)]
        · intro s hsl
          have := hs''.cut.2 s (by simpa using hsl)
          rw [Heap.hdr_setNext_of_apart _ _ (by omega),
            Heap.hdr_setLength_of_apart _ _ (by omega),
            Heap.hdr_setLast_of_apart _ _ (by omega)]
        · simpa using hs.final

/-- `hsh_combine_forward` writes headers only. -/
lemma hshCombineForward_mem (hs : Shape h (l₁ ++ b :: l₂)) {x : ℕ}
    (hx : OffHeaders (l₁ ++ b :: l₂) x) : (hshCombineForward h b.addr).mem x = h.mem x := by
  have hb := hs.hdr_eq
  have hxb := hx b (by simp)
  cases l₂ with
  | nil => simp [hshCombineForward, hb]
  | cons c l =>
    have hs' : Shape h ((l₁ ++ [b]) ++ c :: l) := by simpa using hs
    have hcd := hs'.hdr_eq
    cases hc : c.free with
    | false =>
      simp only [addrs, List.map_cons, firstD_cons] at hb
      simp [hshCombineForward, hb, hcd, hc]
    | true =>
      cases l with
      | nil =>
        rw [hshCombineForward_eq_of_nil hs hc, Heap.setNext_mem _ _ hxb,
          Heap.setLength_mem _ _ hxb]
      | cons d l =>
        rw [hshCombineForward_eq_of_cons hs hc, Heap.setNext_mem _ _ hxb,
          Heap.setLength_mem _ _ hxb, Heap.setLast_mem _ _ (hx d (by simp))]

@[simp] lemma hshCombineBackward_heapStart (a : ℕ) :
    (hshCombineBackward h a).heapStart = h.heapStart := by
  rw [hshCombineBackward]
  split_ifs <;> simp

@[simp] lemma hshCombineBackward_heapEnd (a : ℕ) :
    (hshCombineBackward h a).heapEnd = h.heapEnd := by
  rw [hshCombineBackward]
  split_ifs <;> simp

@[simp] lemma hshCombineBackward_mmaps (a : ℕ) : (hshCombineBackward h a).mmaps = h.mmaps := by
  rw [hshCombineBackward]
  split_ifs <;> simp

@[simp] lemma hshCombineBackward_splits (a : ℕ) :
    (hshCombineBackward h a).splits = h.splits := by
  rw [hshCombineBackward]
  split_ifs <;> simp

/-- The first segment has nothing to merge backward with. -/
lemma hshCombineBackward_of_first (hs : Shape h (b :: l)) : hshCombineBackward h b.addr = h := by
  have hb := Shape.hdr_eq (show Shape h ([] ++ b :: l) from hs)
  simp [hshCombineBackward, hb]

/-- `hsh_combine_backward` is a forward merge of the segment before. -/
lemma hshCombineBackward_eq {a : Seg} (hs : Shape h (l₁ ++ a :: b :: l)) :
    hshCombineBackward h b.addr = if a.free then hshCombineForward h a.addr else h := by
  have hs' : Shape h ((l₁ ++ [a]) ++ b :: l) := by simpa using hs
  have hb := hs'.hdr_eq
  have ha := hs.hdr_eq
  have hpos := (hs.bounds (b := a) (by simp)).1
  simp only [addrs, List.map_append, List.map_cons, List.map_nil, finalD_append, finalD_cons,
    finalD_nil] at hb
  simp [hshCombineBackward, hb, ha, hpos.ne']

/-- The list after a backward merge at `b`. -/
def mergeBackward (a b : Seg) (l : List Seg) : List Seg :=
  if a.free then mergeForward a (b :: l) else a :: b :: l

/-- **`hsh_combine_backward` merges backward.** -/
theorem hshCombineBackward_shape {a : Seg} (hs : Shape h (l₁ ++ a :: b :: l)) :
    Shape (hshCombineBackward h b.addr) (l₁ ++ mergeBackward a b l) := by
  rw [hshCombineBackward_eq hs, mergeBackward]
  split
  · exact hshCombineForward_shape hs
  · exact hs

/-- `hsh_combine_backward` writes headers only. -/
lemma hshCombineBackward_mem {a : Seg} (hs : Shape h (l₁ ++ a :: b :: l)) {x : ℕ}
    (hx : OffHeaders (l₁ ++ a :: b :: l) x) : (hshCombineBackward h b.addr).mem x = h.mem x := by
  rw [hshCombineBackward_eq hs]
  split
  · exact hshCombineForward_mem hs hx
  · rfl

/-! ### The free flag -/

/-- Setting the flag of a segment. -/
theorem Shape.setFree (hs : Shape h (l₁ ++ b :: l₂)) (f : Bool) :
    Shape (h.setFree b.addr f) (l₁ ++ { b with free := f } :: l₂) := by
  have hb := hs.hdr_eq
  have hcut := hs.cut
  have hother : ∀ s ∈ l₂, (h.setFree b.addr f).hdr s.addr = h.hdr s.addr := by
    intro s hsl
    have := hcut.2 s hsl
    exact Heap.hdr_setFree_of_apart _ _ (by omega)
  refine Shape.splice l₁ [b] [{ b with free := f }] l₂ hs (by simp) rfl hs.below ?_ rfl ?_ ?_ ?_
    ?_ ?_ ?_ ?_
  · obtain ⟨mid, h1, h2, h3⟩ := tiles_append.mp hs.tiles
    exact tiles_append.mpr ⟨mid, h1, h2, h3⟩
  · intro s hsl
    have := hcut.1 s hsl
    exact Heap.hdr_setFree_of_apart _ _ (by omega)
  · simp [Linked, hb]
  · simp [hb]
  · simpa using hs.length b (by simp)
  · intro s hsl
    rw [hother s (List.mem_of_mem_head? hsl)]
    cases l₂ with
    | nil => simp at hsl
    | cons d l =>
      simp only [List.head?_cons, Option.mem_some_iff] at hsl
      subst hsl
      have hs' : Shape h ((l₁ ++ [b]) ++ d :: l) := by simpa using hs
      rw [hs'.hdr_eq]
      simp
  · exact fun s hsl => hother s (List.mem_of_mem_tail hsl)
  · simpa using hs.final

/-! ### Splitting -/

/-- A segment cut after `k` payload bytes, when a header and sixteen more bytes are left. -/
def splitSeg (b : Seg) (k : ℕ) : List Seg :=
  if b.length < k + 32 then [b]
  else [{ b with length := k }, ⟨b.addr + 16 + k, b.length - k - 16, b.free⟩]

@[simp] lemma hshSplit_heapStart (a k : ℕ) : (hshSplit h a k).heapStart = h.heapStart := by
  simp only [hshSplit]
  split_ifs <;> rfl

@[simp] lemma hshSplit_heapEnd (a k : ℕ) : (hshSplit h a k).heapEnd = h.heapEnd := by
  simp only [hshSplit]
  split_ifs <;> rfl

@[simp] lemma hshSplit_mmaps (a k : ℕ) : (hshSplit h a k).mmaps = h.mmaps := by
  simp only [hshSplit]
  split_ifs <;> rfl

@[simp] lemma hshSplit_splits (a k : ℕ) :
    (hshSplit h a k).splits = h.splits ++ [((h.hdr a).length, k)] := by
  simp only [hshSplit]
  split_ifs <;> rfl

/-- The list with a segment cut in two, from the headers the split leaves. -/
lemma Shape.split {h' : Heap} {k : ℕ} (hs : Shape h (l₁ ++ b :: l₂)) (hk : 0 < k)
    (hk16 : 16 ∣ k) (hlt : k + 32 ≤ b.length)
    (hstart : h'.heapStart = h.heapStart) (hend : h'.heapEnd = h.heapEnd)
    (hb : h'.hdr b.addr = ⟨k, b.addr + 16 + k, finalD 0 (addrs l₁), b.free⟩)
    (hn : h'.hdr (b.addr + 16 + k)
      = ⟨b.length - k - 16, firstD 0 (addrs l₂), b.addr, b.free⟩)
    (hleft : ∀ s ∈ l₁, h'.hdr s.addr = h.hdr s.addr)
    (hseam : ∀ s ∈ l₂.head?, h'.hdr s.addr = { h.hdr s.addr with last := b.addr + 16 + k })
    (hright : ∀ s ∈ l₂.tail, h'.hdr s.addr = h.hdr s.addr)
    (hfinal : h'.lastHdr = finalD (b.addr + 16 + k) (addrs l₂)) :
    Shape h' (l₁ ++ (splitSeg b k ++ l₂)) := by
  have hlen := hs.length b (by simp)
  rw [splitSeg, if_neg (by omega)]
  refine Shape.splice l₁ [b] _ l₂ hs (by simp) hstart (hend ▸ hs.below) ?_ rfl hleft ?_ ?_ ?_
    hseam hright hfinal
  · obtain ⟨mid, h1, h2, h3⟩ := tiles_append.mp hs.tiles
    rw [hstart, hend]
    simp only [Seg.size, headerSize] at h3
    refine tiles_append.mpr ⟨mid, h1, h2, ?_, ?_⟩
    · simp only [Seg.size, headerSize]
      omega
    · simp only [Seg.size, headerSize]
      rwa [show mid + (16 + k) + (16 + (b.length - k - 16)) = mid + (16 + b.length) by omega]
  · simp [Linked, hb, hn]
  · simp [hb, hn]
  · simp only [List.mem_cons, List.not_mem_nil, or_false, forall_eq_or_imp, forall_eq]
    omega

/-- The stores of `hsh_split` after the back link of the next segment: the new header at `n`,
entered from `b` and pointing on to `q`, and the shortened header of `b`. -/
def cutAt (h : Heap) (b : Seg) (k q : ℕ) : Heap :=
  (((((h.setNext (b.addr + 16 + k) q).setNext b.addr (b.addr + 16 + k)).setLast
    (b.addr + 16 + k) b.addr).setLength (b.addr + 16 + k) (b.length - k - 16)).setFree
      (b.addr + 16 + k) b.free).setLength b.addr k

section Cut

variable {k q : ℕ} (hb : h.hdr b.addr = ⟨b.length, q, finalD 0 (addrs l₁), b.free⟩)
  (hend : b.addr + 16 + b.length < 2 ^ 32) (hlt : k + 32 ≤ b.length) (hq : q < 2 ^ 32)

include hend hlt in
/-- The headers apart from the segment that is cut stay. -/
lemma cutAt_hdr_of_apart {a : ℕ}
    (ha : a + 16 ≤ b.addr ∨ b.addr + 16 + b.length ≤ a) : (cutAt h b k q).hdr a = h.hdr a := by
  rw [cutAt, Heap.hdr_setLength_of_apart _ _ (by omega), Heap.hdr_setFree_of_apart _ _ (by omega),
    Heap.hdr_setLength_of_apart _ _ (by omega), Heap.hdr_setLast_of_apart _ _ (by omega),
    Heap.hdr_setNext_of_apart _ _ (by omega), Heap.hdr_setNext_of_apart _ _ (by omega)]

include hb hend hlt in
/-- The segment keeps its first bytes. -/
lemma cutAt_hdr_self :
    (cutAt h b k q).hdr b.addr = ⟨k, b.addr + 16 + k, finalD 0 (addrs l₁), b.free⟩ := by
  rw [cutAt, Heap.hdr_setLength_self, Heap.hdr_setFree_of_apart _ _ (by omega),
    Heap.hdr_setLength_of_apart _ _ (by omega), Heap.hdr_setLast_of_apart _ _ (by omega),
    Heap.hdr_setNext_self, Heap.hdr_setNext_of_apart _ _ (by omega), hb]
  simp only [wrap32_of_lt (show k < 2 ^ 32 by omega),
    wrap32_of_lt (show b.addr + 16 + k < 2 ^ 32 by omega)]

include hend hlt hq in
/-- The others are a new segment. -/
lemma cutAt_hdr_new :
    (cutAt h b k q).hdr (b.addr + 16 + k) = ⟨b.length - k - 16, q, b.addr, b.free⟩ := by
  rw [cutAt, Heap.hdr_setLength_of_apart _ _ (by omega), Heap.hdr_setFree_self,
    Heap.hdr_setLength_self, Heap.hdr_setLast_self, Heap.hdr_setNext_of_apart _ _ (by omega),
    Heap.hdr_setNext_self]
  simp only [wrap32_of_lt hq, wrap32_of_lt (show b.addr < 2 ^ 32 by omega),
    wrap32_of_lt (show b.length - k - 16 < 2 ^ 32 by omega)]

/-- The bytes behind both headers stay. -/
lemma cutAt_mem {x : ℕ} (h1 : x < b.addr ∨ b.addr + 16 ≤ x)
    (h2 : x < b.addr + 16 + k ∨ b.addr + 16 + k + 16 ≤ x) : (cutAt h b k q).mem x = h.mem x := by
  rw [cutAt, Heap.setLength_mem _ _ h1, Heap.setFree_mem _ _ h2, Heap.setLength_mem _ _ h2,
    Heap.setLast_mem _ _ h2, Heap.setNext_mem _ _ h1, Heap.setNext_mem _ _ h2]

include hb hend hlt in
/-- **`hsh_split` in closed form**: the difference does not wrap, and on its way the function
reads the old `next` and the old flag of its segment. -/
lemma hshSplit_eq (hk : 0x10 ≤ k) (hqb : q ≠ 0 → b.addr + 16 + b.length ≤ q) :
    hshSplit h b.addr k =
      let h := { h with splits := h.splits ++ [(b.length, k)] }
      let h := cutAt (if q ≠ 0 then h.setLast q (b.addr + 16 + k) else h) b k q
      if h.lastHdr = b.addr then { h with lastHdr := b.addr + 16 + k } else h := by
  have hdiff : sub32 b.length (wrap32 (k + 16)) = b.length - k - 16 := by
    rw [wrap32_of_lt (by omega), sub32_of_le (by omega) (by omega)]
    omega
  have hnew : wrap32 (b.addr + k + 16) = b.addr + 16 + k := by
    rw [wrap32_of_lt (by omega)]
    omega
  -- the back link of the next segment is outside the header of `b`
  set h₀ : Heap := { h with splits := h.splits ++ [(b.length, k)] } with hh₀
  have hb₀ : h₀.hdr b.addr = ⟨b.length, q, finalD 0 (addrs l₁), b.free⟩ := hb
  set h₁ : Heap := if q ≠ 0 then h₀.setLast q (b.addr + 16 + k) else h₀ with hh₁
  have hb₁ : h₁.hdr b.addr = ⟨b.length, q, finalD 0 (addrs l₁), b.free⟩ := by
    rw [hh₁]
    split_ifs with hq0
    · rw [Heap.hdr_setLast_of_apart _ _ (by have := hqb hq0; omega), hb₀]
    · exact hb₀
  have hflag : ((((h₁.setNext (b.addr + 16 + k) q).setNext b.addr (b.addr + 16 + k)).setLast
      (b.addr + 16 + k) b.addr).setLength (b.addr + 16 + k) (b.length - k - 16)).hdr b.addr
      = ⟨b.length, b.addr + 16 + k, finalD 0 (addrs l₁), b.free⟩ := by
    rw [Heap.hdr_setLength_of_apart _ _ (by omega), Heap.hdr_setLast_of_apart _ _ (by omega),
      Heap.hdr_setNext_self, Heap.hdr_setNext_of_apart _ _ (by omega), hb₁]
    simp only [wrap32_of_lt (show b.addr + 16 + k < 2 ^ 32 by omega)]
  simp only [hshSplit, hb, headerSize, ← hh₀, hb₀, hdiff, hnew, ← hh₁, hb₁, hflag, cutAt]
  rw [if_neg (by omega), if_neg (by omega)]

end Cut

/-- **`hsh_split` cuts a segment in two**, or leaves it alone when too little would remain. -/
theorem hshSplit_shape {k : ℕ} (hs : Shape h (l₁ ++ b :: l₂)) (hk : 0 < k) (hk16 : 16 ∣ k)
    (hlt : k < b.length) : Shape (hshSplit h b.addr k) (l₁ ++ (splitSeg b k ++ l₂)) := by
  have hb := hs.hdr_eq
  have hbb := hs.bounds (b := b) (by simp)
  have hlen := hs.length b (by simp)
  by_cases hroom : b.length < k + 32
  · -- the rest is exactly one header: nothing is written
    have heq : b.length = k + 16 := by omega
    have hdiff : sub32 b.length (wrap32 (k + 16)) = 0 := by
      rw [wrap32_of_lt (by omega), sub32_of_le (by omega) (by omega)]
      omega
    have hread : Heap.hdr { h with splits := h.splits ++ [(b.length, k)] } b.addr
        = h.hdr b.addr := rfl
    have hsame : hshSplit h b.addr k = { h with splits := h.splits ++ [(b.length, k)] } := by
      simp [hshSplit, hread, hb, headerSize, hdiff]
    rw [hsame, splitSeg, if_pos hroom]
    exact ⟨hs.nonempty, hs.tiles, hs.linked, hs.stored, hs.final, hs.length, hs.pos, hs.below⟩
  · -- the rest is a segment of its own, and a new header is written before it
    have hcut := hs.cut
    cases l₂ with
    | nil =>
      have hlast : h.lastHdr = b.addr := hs.lastHdr_eq_iff.mpr rfl
      rw [hshSplit_eq hb (by omega) (by omega) (by omega) (by simp)]
      simp only [addrs, List.map_nil, firstD_nil, ne_eq, not_true_eq_false, if_false] at hb ⊢
      -- the new header becomes the last one of the heap
      set h₁ : Heap := { h with splits := h.splits ++ [(b.length, k)] }
      rw [if_pos (show (cutAt h₁ b k 0).lastHdr = b.addr from hlast)]
      refine hs.split hk hk16 (by omega) rfl rfl ?_ ?_ ?_ (by simp) (by simp) rfl
      · exact cutAt_hdr_self (h := h₁) hb (by omega) (by omega)
      · exact cutAt_hdr_new (by omega) (by omega) (by simp)
      · intro s hsl
        have := hcut.1 s hsl
        exact cutAt_hdr_of_apart (h := h₁) (by omega) (by omega) (by omega)
    | cons d l =>
      -- the header behind is linked to the new one
      have hdb := hs.bounds (b := d) (by simp)
      have hcutd := hcut.2 d (by simp)
      have hs' : Shape h ((l₁ ++ [b]) ++ d :: l) := by simpa using hs
      have hlast : ¬ h.lastHdr = b.addr := fun heq => by simpa using hs.lastHdr_eq_iff.mp heq
      rw [hshSplit_eq hb (by omega) (by omega) (by omega) fun _ => hcutd]
      simp only [addrs, List.map_cons, firstD_cons] at hb ⊢
      rw [if_pos (show d.addr ≠ 0 by omega)]
      set h₁ : Heap := { h with splits := h.splits ++ [(b.length, k)] }
      set h₂ : Heap := h₁.setLast d.addr (b.addr + 16 + k) with hh₂
      have hb₂ : h₂.hdr b.addr = h.hdr b.addr := Heap.hdr_setLast_of_apart _ _ (by omega)
      rw [if_neg (show ¬ (cutAt h₂ b k d.addr).lastHdr = b.addr from hlast)]
      refine hs.split hk hk16 (by omega) rfl rfl ?_ ?_ ?_ ?_ ?_ ?_
      · exact cutAt_hdr_self (hb₂.trans hb) (by omega) (by omega)
      · exact cutAt_hdr_new (by omega) (by omega) (by omega)
      · intro s hsl
        have := hcut.1 s hsl
        rw [cutAt_hdr_of_apart (by omega) (by omega) (by omega), hh₂,
          Heap.hdr_setLast_of_apart _ _ (by omega)]
        rfl
      · intro s hsd
        simp only [List.head?_cons, Option.mem_some_iff] at hsd
        subst hsd
        rw [cutAt_hdr_of_apart (by omega) (by omega) (by omega), hh₂, Heap.hdr_setLast_self,
          wrap32_of_lt (by omega)]
        rfl
      · intro s hsl
        have := hs'.cut.2 s (by simpa using hsl)
        rw [cutAt_hdr_of_apart (by omega) (by omega) (by omega), hh₂,
          Heap.hdr_setLast_of_apart _ _ (by omega)]
        rfl
      · have hfin := hs.final
        simp only [addrs, List.map_append, List.map_cons, finalD_append, finalD_cons] at hfin
        exact hfin

/-- `hsh_split` writes old headers and the new one. -/
lemma hshSplit_mem {k : ℕ} (hs : Shape h (l₁ ++ b :: l₂)) (hk : 0 < k) (hk16 : 16 ∣ k)
    (hlt : k < b.length) {x : ℕ} (hx : OffHeaders (l₁ ++ b :: l₂) x)
    (hpay : x < b.addr ∨ b.addr + 16 + b.length ≤ x) : (hshSplit h b.addr k).mem x = h.mem x := by
  have hb := hs.hdr_eq
  have hbb := hs.bounds (b := b) (by simp)
  have hlen := hs.length b (by simp)
  by_cases hroom : b.length < k + 32
  · have hdiff : sub32 b.length (wrap32 (k + 16)) = 0 := by
      rw [wrap32_of_lt (by omega), sub32_of_le (by omega) (by omega)]
      omega
    have hread : Heap.hdr { h with splits := h.splits ++ [(b.length, k)] } b.addr
        = h.hdr b.addr := rfl
    simp [hshSplit, hread, hb, headerSize, hdiff]
  · have hqb : firstD 0 (addrs l₂) ≠ 0 → b.addr + 16 + b.length ≤ firstD 0 (addrs l₂) := by
      cases l₂ with
      | nil => simp
      | cons d l => exact fun _ => hs.cut.2 d (by simp)
    rw [hshSplit_eq hb (by omega) (by omega) (by omega) hqb]
    simp only
    rw [apply_ite Heap.mem, ite_self, cutAt_mem (by omega) (by omega)]
    split_ifs with hq
    · cases l₂ with
      | nil => simp at hq
      | cons d l => exact Heap.setLast_mem _ _ (hx d (by simp))
    · rfl

/-! ### Growing -/

/-- A length rounded up to whole pages, as a natural number. -/
def pageCeil (length : ℕ) : ℕ := (length + 0xfff) / 0x1000 * 0x1000

/-- The rounding of `expand_heap` is exact while it does not wrap. -/
lemma roundPages_eq {n : ℕ} (h : pageCeil n < 2 ^ 32) : roundPages n = pageCeil n := by
  simp only [pageCeil, roundPages] at *
  split_ifs with hn
  · rw [wrap32_of_lt (by omega)]
    omega
  · omega

/-- The `mmap` loop in closed form. -/
lemma mmapHeapEnd_eq_wrap (hend : h.heapEnd < 2 ^ 32) (n : ℕ) :
    mmapHeapEnd h n = { h with
      mmaps := h.mmaps ++ mmapFrom h.heapEnd n, heapEnd := wrap32 (h.heapEnd + n * 0x1000) } := by
  induction n generalizing h with
  | zero => simp [mmapHeapEnd, mmapFrom, wrap32_of_lt hend]
  | succ n ih =>
    have hstep : mmapHeapEnd h (n + 1) = mmapHeapEnd (mmapHeapPage h) n :=
      Function.iterate_succ_apply mmapHeapPage n h
    have hpage : (mmapHeapPage h).heapEnd = wrap32 (h.heapEnd + 0x1000) := rfl
    rw [hstep, mmapFrom, ih (hpage ▸ wrap32_lt _), hpage]
    simp only [mmapHeapPage, List.append_assoc, List.singleton_append, Heap.mk.injEq, true_and,
      and_true, wrap32]
    omega

/-- The pages of the loop cover the new part of the heap. -/
lemma exists_mem_mmapFrom {pos n x : ℕ} (hfit : pos + n * 0x1000 < 2 ^ 32) (h1 : pos ≤ x)
    (h2 : x < pos + n * 0x1000) : ∃ p ∈ mmapFrom pos n, p ≤ x ∧ x < p + 0x1000 := by
  induction n generalizing pos with
  | zero => omega
  | succ n ih =>
    rw [mmapFrom, wrap32_of_lt (by omega)]
    by_cases hx : x < pos + 0x1000
    · exact ⟨pos, by simp, h1, hx⟩
    · obtain ⟨p, hp, h3, h4⟩ := @ih (pos + 0x1000) (by omega) (by omega) (by omega)
      exact ⟨p, List.mem_cons_of_mem pos hp, h3, h4⟩

/-- The heap before the backward merge of `expand_heap`: the new segment is linked in. -/
def appendSegment (h : Heap) (length : ℕ) : Heap :=
  let newSegment := h.heapEnd
  let h := mmapHeapEnd h (length / 0x1000)
  let h := h.setFree newSegment true
  let h := h.setLast newSegment h.lastHdr
  let h := h.setNext h.lastHdr newSegment
  let h := { h with lastHdr := newSegment }
  let h := h.setNext newSegment 0
  h.setLength newSegment (sub32 length headerSize)

lemma expandHeap_eq (n : ℕ) :
    expandHeap h n = hshCombineBackward (appendSegment h (roundPages n)) h.heapEnd := rfl

section Append

variable {z : Seg} {n : ℕ} (hs : Shape h (l ++ [z])) (hn : 0 < n) (hn16 : 0x1000 ∣ n)

include hn16

/-- The stores of the append. The end of the heap may wrap. -/
lemma appendSegment_eq (hend : h.heapEnd < 2 ^ 32) : appendSegment h n =
    Heap.setLength (Heap.setNext
      { (((({ h with
        mmaps := h.mmaps ++ mmapFrom h.heapEnd (n / 0x1000), heapEnd := wrap32 (h.heapEnd + n) } :
          Heap).setFree h.heapEnd true).setLast h.heapEnd h.lastHdr).setNext h.lastHdr h.heapEnd)
          with lastHdr := h.heapEnd } h.heapEnd 0) h.heapEnd (sub32 n headerSize) := by
  have hmul : n / 0x1000 * 0x1000 = n := Nat.div_mul_cancel hn16
  rw [appendSegment, mmapHeapEnd_eq_wrap hend, hmul]
  rfl

include hs in
/-- The headers after the new segment is linked in, whose length wraps where there is no page for
it. -/
lemma appendSegment_hdr_sub32 :
    (∀ a, a + 16 ≤ z.addr → (appendSegment h n).hdr a = h.hdr a)
      ∧ (appendSegment h n).hdr z.addr = ⟨z.length, h.heapEnd, finalD 0 (addrs l), z.free⟩
      ∧ (appendSegment h n).hdr h.heapEnd = ⟨sub32 n headerSize, 0, z.addr, true⟩ := by
  have hz := hs.hdr_eq
  have hzb := hs.bounds (b := z) (by simp)
  have hlast : h.lastHdr = z.addr := hs.lastHdr_eq_iff.mpr rfl
  rw [appendSegment_eq hn16 hs.below, hlast]
  -- `lastHdr` is no part of a header, so the record update in the middle is invisible
  have hskip : ∀ (g : Heap) (a : ℕ), Heap.hdr { g with lastHdr := h.heapEnd } a = g.hdr a :=
    fun _ _ => rfl
  have hskip' : ∀ a : ℕ, Heap.hdr { h with
      mmaps := h.mmaps ++ mmapFrom h.heapEnd (n / 0x1000),
      heapEnd := wrap32 (h.heapEnd + n) } a = h.hdr a := fun _ => rfl
  refine ⟨fun a ha => ?_, ?_, ?_⟩
  · rw [Heap.hdr_setLength_of_apart _ _ (by omega), Heap.hdr_setNext_of_apart _ _ (by omega),
      hskip, Heap.hdr_setNext_of_apart _ _ (by omega), Heap.hdr_setLast_of_apart _ _ (by omega),
      Heap.hdr_setFree_of_apart _ _ (by omega)]
    exact hskip' a
  · rw [Heap.hdr_setLength_of_apart _ _ (by omega), Heap.hdr_setNext_of_apart _ _ (by omega),
      hskip, Heap.hdr_setNext_self, Heap.hdr_setLast_of_apart _ _ (by omega),
      Heap.hdr_setFree_of_apart _ _ (by omega), wrap32_of_lt hs.below]
    exact congrArg (fun d : HeapSegmentHeader => { d with next := h.heapEnd }) hz
  · rw [Heap.hdr_setLength_self, Heap.hdr_setNext_self, hskip,
      Heap.hdr_setNext_of_apart _ _ (by omega), Heap.hdr_setLast_self, Heap.hdr_setFree_self,
      wrap32_of_lt (show sub32 n headerSize < 2 ^ 32 from Nat.mod_lt _ (by norm_num)),
      wrap32_of_lt (show z.addr < 2 ^ 32 by omega), wrap32_zero]

include hs hn in
/-- The headers after the new segment is linked in: those before the last one are kept, the
last one points to the new one, and the new one is free. -/
lemma appendSegment_hdr (hlt : n < 2 ^ 32) :
    (∀ a, a + 16 ≤ z.addr → (appendSegment h n).hdr a = h.hdr a)
      ∧ (appendSegment h n).hdr z.addr = ⟨z.length, h.heapEnd, finalD 0 (addrs l), z.free⟩
      ∧ (appendSegment h n).hdr h.heapEnd = ⟨n - 16, 0, z.addr, true⟩ := by
  have hsub : sub32 n headerSize = n - 16 := sub32_of_le hlt (by rw [headerSize]; omega)
  rw [← hsub]
  exact appendSegment_hdr_sub32 hs hn16

variable (hfit : h.heapEnd + n < 2 ^ 32)

include hfit

/-- The globals after the new segment is linked in. -/
lemma appendSegment_globals :
    (appendSegment h n).heapStart = h.heapStart ∧ (appendSegment h n).heapEnd = h.heapEnd + n
      ∧ (appendSegment h n).lastHdr = h.heapEnd
      ∧ (appendSegment h n).mmaps = h.mmaps ++ mmapFrom h.heapEnd (n / 0x1000)
      ∧ (appendSegment h n).splits = h.splits := by
  rw [appendSegment_eq hn16 (by omega), wrap32_of_lt hfit]
  exact ⟨rfl, rfl, rfl, rfl, rfl⟩

include hs hn

/-- The new segment is linked in behind the last one. -/
lemma appendSegment_shape :
    Shape (appendSegment h n) (l ++ [z, ⟨h.heapEnd, n - 16, true⟩]) := by
  obtain ⟨hold, hzn, hnew⟩ := appendSegment_hdr hs hn hn16 (by omega)
  have hcut := hs.cut
  have hlen := hs.length z (by simp)
  obtain ⟨hstart, hend, hfinal, _, _⟩ := appendSegment_globals hn16 hfit
  refine Shape.splice l [z] [z, ⟨h.heapEnd, n - 16, true⟩] [] hs (by simp) hstart
    (hend ▸ hfit) ?_ rfl ?_ ?_ ?_ ?_ (by simp) (by simp) hfinal
  · obtain ⟨mid, h1, h2, h3⟩ := tiles_append.mp hs.tiles
    have h4 : mid + z.size = h.heapEnd := h3
    rw [hstart, hend]
    refine tiles_append.mpr ⟨mid, h1, h2, h4.symm, ?_⟩
    show mid + z.size + (headerSize + (n - 16)) = h.heapEnd + n
    rw [h4, headerSize]
    omega
  · intro s hsl
    have := hcut.1 s hsl
    exact hold s.addr (by omega)
  · simp [Linked, hzn, hnew]
  · simp [hzn, hnew]
  · simp only [List.mem_cons, List.not_mem_nil, or_false, forall_eq_or_imp, forall_eq]
    omega

omit hn hfit in
/-- `expand_heap` writes to headers only: the last one and the new one. -/
lemma appendSegment_mem {x : ℕ} (hx : OffHeaders (l ++ [z]) x)
    (hend : x < h.heapEnd ∨ h.heapEnd + 16 ≤ x) :
    (appendSegment h n).mem x = h.mem x := by
  have hlast : h.lastHdr = z.addr := hs.lastHdr_eq_iff.mpr rfl
  rw [appendSegment_eq hn16 hs.below, Heap.setLength_mem _ _ (by omega),
    Heap.setNext_mem _ _ (by omega)]
  show ((Heap.setLast _ _ _).setNext h.lastHdr h.heapEnd).mem x = h.mem x
  rw [Heap.setNext_mem _ _ (by rw [hlast]; exact hx z (by simp)), Heap.setLast_mem _ _ (by omega),
    Heap.setFree_mem _ _ (by omega)]

end Append

end MicroOS
