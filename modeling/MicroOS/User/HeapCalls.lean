import MicroOS.User.HeapAlloc

/-!
The calls of the allocator that are built on `malloc` and `free`, and its start.

* `initializeHeap_inv`: `initialize_heap` leaves one free segment.
* `HeapInv.overwrite`: stores inside one payload keep the representation and every other block.
* `calloc_spec`, `realloc_spec`: `calloc` clears nothing but its own block, and `realloc` carries
  the old bytes along when the block moves.
-/

namespace MicroOS

open ByteMem Chain

variable {h h' : Heap} {segs segs' : List Seg} {b s : Seg}

/-! ### The start -/

/-- **`initialize_heap` leaves one free segment over the whole heap.** -/
theorem initializeHeap_inv {m : Mem} {heapAddress pageCount : ℕ} (h0 : 0 < heapAddress)
    (hp : 0 < pageCount) (hfit : heapAddress + pageCount * 0x1000 < 2 ^ 32) :
    HeapInv (initializeHeap m heapAddress pageCount)
      [⟨heapAddress, pageCount * 0x1000 - headerSize, true⟩] := by
  have hlen : wrap32 (pageCount * 0x1000) = pageCount * 0x1000 := wrap32_of_lt (by omega)
  have hseg : sub32 (pageCount * 0x1000) headerSize = pageCount * 0x1000 - headerSize := by
    rw [headerSize]
    exact sub32_of_le (by omega) (by omega)
  have hstart : (initializeHeap m heapAddress pageCount).heapStart = heapAddress := rfl
  have hend : (initializeHeap m heapAddress pageCount).heapEnd
      = heapAddress + pageCount * 0x1000 := by
    rw [← wrap32_of_lt hfit, ← hlen, initializeHeap]
    simp [hlen]
  have hhdr : (initializeHeap m heapAddress pageCount).hdr heapAddress
      = ⟨pageCount * 0x1000 - headerSize, 0, 0, true⟩ := by
    simp only [initializeHeap, hlen, hseg, Heap.hdr_setFree_self, Heap.hdr_setLast_self,
      Heap.hdr_setNext_self, Heap.hdr_setLength_self, wrap32_zero]
    rw [wrap32_of_lt (by omega)]
  refine ⟨⟨by simp, ?_, ?_, ?_, rfl, ?_, h0, by rw [hend]; exact hfit⟩, ?_, ?_, ?_⟩
  · refine ⟨rfl, ?_⟩
    simp only [Seg.size, headerSize, Tiles, hend]
    omega
  · simp [Linked, hhdr]
  · simp [hhdr]
  · simp only [List.mem_singleton, forall_eq, headerSize]
    omega
  · exact List.isChain_singleton _
  · simp [initializeHeap]
  · intro x h1 h2
    rw [hend] at h2
    exact exists_mem_mmapFrom hfit h1 h2

/-! ### Stores inside a block -/

/-- Segments with the same bytes are the same. -/
lemma HeapInv.not_mem_bytes (hi : HeapInv h segs) (hb : b ∈ segs) (hs : s ∈ segs) (hne : s ≠ b)
    {x : ℕ} (hx : x ∈ s.bytes) : x ∉ b.bytes := by
  intro hx'
  simp only [Seg.bytes, Seg.payload, headerSize, Set.mem_Ico] at hx hx'
  rcases hi.shape.tiles.eq_or_apart hs hb with h1 | h1 | h1
  · exact hne h1
  all_goals
    simp only [Seg.size, headerSize] at h1
    omega

/-- **Stores inside a payload** keep the representation and the bytes of every other block. -/
theorem HeapInv.overwrite {m : Mem} (hi : HeapInv h segs) (hb : b ∈ segs)
    (hm : ∀ x ∉ b.bytes, m x = h.mem x) :
    HeapInv { h with mem := m } segs ∧ Keeps h (segs.filter (· ≠ b)) { h with mem := m } segs := by
  have hhdr : ∀ s ∈ segs, ({ h with mem := m } : Heap).hdr s.addr = h.hdr s.addr := by
    intro s hs
    refine Heap.hdr_congr fun x h1 h2 => hm x fun hx => ?_
    have hoff := hi.shape.offHeaders_of_mem_bytes hb hx s hs
    omega
  have hs := hi.shape
  refine ⟨⟨⟨hs.nonempty, hs.tiles, ?_, ?_, hs.final, hs.length, hs.pos, hs.below⟩,
    hi.noTwoFree, hi.splits, hi.mapped⟩, fun s hsf _ => List.mem_of_mem_filter hsf, ?_⟩
  · refine hs.linked.congr ?_ ?_ <;>
    · intro a ha
      obtain ⟨s, hsl, rfl⟩ := List.mem_map.mp ha
      rw [hhdr s hsl]
  · intro s hsl
    rw [hhdr s hsl]
    exact hs.stored s hsl
  · intro s hsf _ x hx
    obtain ⟨hsl, hne⟩ := List.mem_filter.mp hsf
    exact hm x (hi.not_mem_bytes hb hsl (by simpa using hne) hx)

/-- A fresh block may be filled. -/
lemma Allocates.overwrite {size p : ℕ} {m : Mem} (ha : Allocates h segs size h' p segs')
    (hm : ∀ x, x < p ∨ p + size ≤ x → m x = h'.mem x) :
    Allocates h segs size { h' with mem := m } p segs' := by
  obtain ⟨b, hb, hbf, rfl, hsize, hother⟩ := ha.fresh
  have hout : ∀ x ∉ b.bytes, m x = h'.mem x := by
    intro x hx
    refine hm x ?_
    simp only [Seg.bytes, Set.mem_Ico] at hx
    omega
  obtain ⟨hi, hk⟩ := ha.inv.overwrite hb hout
  refine ⟨hi, ⟨ha.keeps.mem, fun s hs hf => ?_⟩, ha.start, b, hb, hbf, rfl, hsize, hother⟩
  have hne : s ≠ b := fun heq => hother s hs hf (congrArg Seg.addr heq)
  have hmem : s ∈ segs'.filter (· ≠ b) :=
    List.mem_filter.mpr ⟨ha.keeps.mem s hs hf, by simpa using hne⟩
  exact (hk.bytes s hmem hf).trans (ha.keeps.bytes s hs hf)

/-- The bytes of a fresh block stay below the top of the address space. -/
lemma Allocates.below {size p : ℕ} (ha : Allocates h segs size h' p segs') :
    0 < p ∧ p + size < 2 ^ 32 := by
  obtain ⟨b, hb, _, rfl, hsize, _⟩ := ha.fresh
  have := ha.inv.shape.bounds hb
  simp only [Seg.payload, headerSize]
  omega

/-! ### `calloc` -/

/-- **`calloc`** of a request that does not round to the whole address space. -/
theorem calloc_spec {count size fuel : ℕ} (hi : HeapInv h segs) (hfuel : 3 ≤ fuel)
    (hn : wrap32 (count * size) + 0xf < 2 ^ 32)
    (hfits : mallocFits fuel h (wrap32 (count * size))) :
    wrap32 (count * size) = 0 ∧ calloc fuel h count size = some (h, 0)
    ∨ ∃ h' p segs', calloc fuel h count size = some (h', p)
      ∧ Allocates h segs (wrap32 (count * size)) h' p segs' := by
  rcases malloc_spec hi (wrap32_lt _) hfuel hfits with ⟨h0, heq⟩ | ⟨h', p, segs', heq, ha⟩
  · have hzero : wrap32 (count * size) = 0 := by
      generalize wrap32 (count * size) = n at *
      rw [roundSize, wrap32] at h0
      split_ifs at h0 <;> omega
    refine Or.inl ⟨hzero, ?_⟩
    rw [calloc, heq, hzero]
    rfl
  · refine Or.inr ⟨_, p, segs', by rw [calloc, heq], ha.overwrite fun x hx => ?_⟩
    exact memset_of_disjoint ha.below.2 hx

/-! ### `realloc` -/

lemma realloc_zero (fuel p : ℕ) : realloc fuel h p 0 = some (free h p, 0) := by
  rw [realloc, if_pos rfl]

lemma realloc_null (fuel : ℕ) {n : ℕ} (hn : n ≠ 0) : realloc fuel h 0 n = malloc fuel h n := by
  rw [realloc, if_neg hn, if_pos rfl]

/-- `realloc` of a block that has to move, in three steps. -/
lemma realloc_eq_of_malloc {fuel n p : ℕ} (hn : n ≠ 0) (hb : b ∈ segs) (hs : Shape h segs)
    (hlt : b.length < n) (hm : malloc fuel h n = some (h', p)) (hp : p ≠ 0) (hs' : Shape h' segs')
    (hb' : b ∈ segs') :
    realloc fuel h b.payload n
      = some (free { h' with mem := memcpy h'.mem p b.payload b.length } b.payload, p) := by
  have hbb := hs.bounds hb
  have haddr : sub32 b.payload headerSize = b.addr := by
    rw [Seg.payload, headerSize, sub32_of_le (by omega) (by omega)]
    omega
  rw [realloc, if_neg hn, if_neg (by rw [Seg.payload, headerSize]; omega), haddr,
    (hs.stored b hb).1, if_neg (by omega), hm]
  simp only [if_pos hp, (hs'.stored b hb').1]

/-- `realloc` of a block that is large enough, or that cannot move. -/
lemma realloc_eq_of_stay (fuel : ℕ) {n : ℕ} (hn : n ≠ 0) (hb : b ∈ segs) (hs : Shape h segs) :
    (n ≤ b.length → realloc fuel h b.payload n = some (h, b.payload))
    ∧ (b.length < n → malloc fuel h n = some (h, 0) →
      realloc fuel h b.payload n = some (h, 0)) := by
  have hbb := hs.bounds hb
  have haddr : sub32 b.payload headerSize = b.addr := by
    rw [Seg.payload, headerSize, sub32_of_le (by omega) (by omega)]
    omega
  have hne : b.payload ≠ 0 := by
    rw [Seg.payload, headerSize]
    omega
  simp only [realloc, if_neg hn, if_neg hne, haddr, (hs.stored b hb).1]
  refine ⟨fun hle => if_pos hle, fun hlt hm => ?_⟩
  rw [if_neg (by omega), hm]
  rfl

/-- **`realloc` of a block that has to move**: the others are kept, the room is new and starts
with the old bytes. -/
theorem realloc_spec {fuel n : ℕ} (hi : HeapInv h segs) (hb : b ∈ segs) (hbf : b.free = false)
    (hlt : b.length < n) (hn : n < 2 ^ 32) (hfuel : 3 ≤ fuel) (hfits : mallocFits fuel h n) :
    roundSize n = 0 ∧ realloc fuel h b.payload n = some (h, 0)
    ∨ ∃ h' p segs', realloc fuel h b.payload n = some (h', p)
      ∧ Allocates h (segs.filter (· ≠ b)) n h' p segs'
      ∧ ∀ i < b.length, h'.mem (p + i) = h.mem (b.payload + i) := by
  have hn0 : n ≠ 0 := by omega
  rcases malloc_spec hi hn hfuel hfits with ⟨h0, heq⟩ | ⟨h₁, p, segs₁, heq, ha⟩
  · exact Or.inl ⟨h0, (realloc_eq_of_stay fuel hn0 hb hi.shape).2 hlt heq⟩
  · -- the bytes are copied into the new block, and then the old one is freed
    obtain ⟨hp, htop⟩ := ha.below
    have hb₁ : b ∈ segs₁ := ha.keeps.mem b hb hbf
    obtain ⟨f, hf, hff, hfp, hfn, hother⟩ := ha.fresh
    have hfb : f ≠ b := fun h1 => hother b hb hbf (congrArg Seg.addr h1.symm)
    set m := memcpy h₁.mem p b.payload b.length with hm
    have ha₂ : Allocates h segs n { h₁ with mem := m } p segs₁ :=
      ha.overwrite fun x hx => memcpy_of_disjoint (by omega) (by omega)
    obtain ⟨segs₂, hi₂, hk₂⟩ := free_spec ha₂.inv hb₁
    have hmem₂ : ∀ s ∈ segs₁, s ≠ b → s ∈ segs₁.filter (· ≠ b) :=
      fun s hs hne => List.mem_filter.mpr ⟨hs, by simpa using hne⟩
    refine Or.inr ⟨_, p, segs₂,
      realloc_eq_of_malloc hn0 hb hi.shape hlt heq hp.ne' ha.inv.shape hb₁,
      ⟨hi₂, ⟨?_, ?_⟩, ?_, f, hk₂.mem f (hmem₂ f hf hfb) hff, hff, hfp, hfn, ?_⟩, ?_⟩
    · intro s hs hsf
      obtain ⟨hsl, hne⟩ := List.mem_filter.mp hs
      exact hk₂.mem s (hmem₂ s (ha₂.keeps.mem s hsl hsf) (by simpa using hne)) hsf
    · intro s hs hsf
      obtain ⟨hsl, hne⟩ := List.mem_filter.mp hs
      have h1 := hk₂.bytes s (hmem₂ s (ha₂.keeps.mem s hsl hsf) (by simpa using hne)) hsf
      exact h1.trans (ha₂.keeps.bytes s hsl hsf)
    · simp [free, ha.start]
    · exact fun s hs hsf => hother s (List.mem_of_mem_filter hs) hsf
    · intro i hib
      have hpi : p + i ∈ f.bytes := by
        simp only [Seg.bytes, Set.mem_Ico]
        omega
      have hbi : b.payload + i ∈ b.bytes := by
        simp only [Seg.bytes, Set.mem_Ico]
        omega
      have hfb' := ha.inv.shape.bounds hf
      have hbb' := ha.inv.shape.bounds hb₁
      -- the two blocks lie apart, so the copy reads no byte that it wrote
      have hdisj : p + b.length ≤ b.payload ∨ b.payload + b.length ≤ p := by
        rcases ha.inv.shape.tiles.eq_or_apart hf hb₁ with h1 | h1 | h1
        · exact absurd h1 hfb
        all_goals
          simp only [Seg.size, Seg.payload, headerSize] at h1 hfp ⊢
          omega
      have hpay : b.payload + b.length < 2 ^ 32 := by
        simp only [Seg.payload, headerSize]
        omega
      have hcopy : m (p + i) = h₁.mem (b.payload + i) :=
        memcpy_apply (by omega) hpay.le (hdisj.imp_left (Nat.le_of_add_right_le)) hib
      rw [hk₂.bytes f (hmem₂ f hf hfb) hff hpi, ← ha.keeps.bytes b hb hbf hbi]
      exact hcopy

end MicroOS
