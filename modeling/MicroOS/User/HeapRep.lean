import MicroOS.Lib.Chain
import MicroOS.User.Heap

/-!
What the bytes of the heap represent: a list of segments.

* The field stores read back (`hdr_setNext_self` and its siblings), leave other headers alone
  and write inside their own header only.
* `Seg` is a segment as the allocator means it, and `Shape h segs` says that the bytes of `h`
  represent the list `segs`: the segments tile the heap, each header holds its segment's length
  and flag, `next` and `last` link the list in both directions, and `last_hdr` is its end.
  `Shape.hdr_eq` reads a header off the list.
* `Shape.splice` is the rule every operation is proved with: a piece of the list is replaced,
  the headers left of it are kept and those right of it are kept up to the back link at the
  seam.
-/

namespace MicroOS

open ByteMem Chain

/-! ### Field stores -/

namespace Heap

variable (h : Heap) {a b : ℕ} (v : ℕ) (f : Bool)

@[simp] lemma setLength_heapStart : (h.setLength a v).heapStart = h.heapStart := rfl
@[simp] lemma setNext_heapStart : (h.setNext a v).heapStart = h.heapStart := rfl
@[simp] lemma setLast_heapStart : (h.setLast a v).heapStart = h.heapStart := rfl
@[simp] lemma setFree_heapStart : (h.setFree a f).heapStart = h.heapStart := rfl
@[simp] lemma setLength_heapEnd : (h.setLength a v).heapEnd = h.heapEnd := rfl
@[simp] lemma setNext_heapEnd : (h.setNext a v).heapEnd = h.heapEnd := rfl
@[simp] lemma setLast_heapEnd : (h.setLast a v).heapEnd = h.heapEnd := rfl
@[simp] lemma setFree_heapEnd : (h.setFree a f).heapEnd = h.heapEnd := rfl
@[simp] lemma setLength_lastHdr : (h.setLength a v).lastHdr = h.lastHdr := rfl
@[simp] lemma setNext_lastHdr : (h.setNext a v).lastHdr = h.lastHdr := rfl
@[simp] lemma setLast_lastHdr : (h.setLast a v).lastHdr = h.lastHdr := rfl
@[simp] lemma setFree_lastHdr : (h.setFree a f).lastHdr = h.lastHdr := rfl
@[simp] lemma setLength_mmaps : (h.setLength a v).mmaps = h.mmaps := rfl
@[simp] lemma setNext_mmaps : (h.setNext a v).mmaps = h.mmaps := rfl
@[simp] lemma setLast_mmaps : (h.setLast a v).mmaps = h.mmaps := rfl
@[simp] lemma setFree_mmaps : (h.setFree a f).mmaps = h.mmaps := rfl
@[simp] lemma setLength_splits : (h.setLength a v).splits = h.splits := rfl
@[simp] lemma setNext_splits : (h.setNext a v).splits = h.splits := rfl
@[simp] lemma setLast_splits : (h.setLast a v).splits = h.splits := rfl
@[simp] lemma setFree_splits : (h.setFree a f).splits = h.splits := rfl

/-- The length of a header that is stored. -/
@[simp] lemma hdr_setLength_self :
    (h.setLength a v).hdr a = { h.hdr a with length := wrap32 v } := by
  simp only [setLength, hdr, header, readWord_writeWord, HeapSegmentHeader.mk.injEq, true_and]
  refine ⟨readWord_writeWord_of_disjoint _ _ (by omega),
    readWord_writeWord_of_disjoint _ _ (by omega), ?_⟩
  rw [writeWord_of_disjoint _ _ (by omega)]

/-- Its pointer forward. -/
@[simp] lemma hdr_setNext_self :
    (h.setNext a v).hdr a = { h.hdr a with next := wrap32 v } := by
  simp only [setNext, hdr, header, readWord_writeWord, HeapSegmentHeader.mk.injEq, true_and]
  refine ⟨readWord_writeWord_of_disjoint _ _ (by omega),
    readWord_writeWord_of_disjoint _ _ (by omega), ?_⟩
  rw [writeWord_of_disjoint _ _ (by omega)]

/-- Its pointer back. -/
@[simp] lemma hdr_setLast_self :
    (h.setLast a v).hdr a = { h.hdr a with last := wrap32 v } := by
  simp only [setLast, hdr, header, readWord_writeWord, HeapSegmentHeader.mk.injEq, true_and]
  refine ⟨readWord_writeWord_of_disjoint _ _ (by omega),
    readWord_writeWord_of_disjoint _ _ (by omega), ?_⟩
  rw [writeWord_of_disjoint _ _ (by omega)]

/-- Its flag. -/
@[simp] lemma hdr_setFree_self : (h.setFree a f).hdr a = { h.hdr a with free := f } := by
  simp only [setFree, hdr, header, writeByte_self, HeapSegmentHeader.mk.injEq]
  refine ⟨readWord_writeByte_of_disjoint _ _ (by omega),
    readWord_writeByte_of_disjoint _ _ (by omega),
    readWord_writeByte_of_disjoint _ _ (by omega), ?_⟩
  cases f <;> rfl

/-- A header is its sixteen bytes. -/
lemma hdr_congr {h h' : Heap} (heq : ∀ x, a ≤ x → x < a + 16 → h'.mem x = h.mem x) :
    h'.hdr a = h.hdr a := by
  rw [hdr, hdr, header, header, readWord_congr fun x h1 h2 => heq x h1 (by omega),
    readWord_congr fun x h1 h2 => heq x (by omega) (by omega),
    readWord_congr fun x h1 h2 => heq x (by omega) (by omega), heq (a + 12) (by omega) (by omega)]

variable {x : ℕ}

lemma setLength_mem (hx : x < a ∨ a + 16 ≤ x) : (h.setLength a v).mem x = h.mem x :=
  writeWord_of_disjoint _ _ (by omega)

lemma setNext_mem (hx : x < a ∨ a + 16 ≤ x) : (h.setNext a v).mem x = h.mem x :=
  writeWord_of_disjoint _ _ (by omega)

lemma setLast_mem (hx : x < a ∨ a + 16 ≤ x) : (h.setLast a v).mem x = h.mem x :=
  writeWord_of_disjoint _ _ (by omega)

lemma setFree_mem (hx : x < a ∨ a + 16 ≤ x) : (h.setFree a f).mem x = h.mem x :=
  writeByte_of_ne _ _ (by omega)

variable (hab : a + 16 ≤ b ∨ b + 16 ≤ a)

include hab

lemma hdr_setLength_of_apart : (h.setLength a v).hdr b = h.hdr b :=
  hdr_congr fun _ _ _ => setLength_mem h v (by omega)

lemma hdr_setNext_of_apart : (h.setNext a v).hdr b = h.hdr b :=
  hdr_congr fun _ _ _ => setNext_mem h v (by omega)

lemma hdr_setLast_of_apart : (h.setLast a v).hdr b = h.hdr b :=
  hdr_congr fun _ _ _ => setLast_mem h v (by omega)

lemma hdr_setFree_of_apart : (h.setFree a f).hdr b = h.hdr b :=
  hdr_congr fun _ _ _ => setFree_mem h f (by omega)

end Heap

/-! ### Segments -/

/-- A segment: where its header is, how many bytes follow it and whether they are free. -/
structure Seg where
  addr : ℕ
  length : ℕ
  free : Bool
  deriving DecidableEq, Repr

namespace Seg

/-- Header and payload together. -/
def size (s : Seg) : ℕ := headerSize + s.length

/-- The address of the payload, the pointer a client holds. -/
def payload (s : Seg) : ℕ := s.addr + headerSize

end Seg

/-- The addresses of a list of segments. -/
abbrev addrs (segs : List Seg) : List ℕ := segs.map Seg.addr

/-- **The bytes of the heap represent the list of segments.** -/
structure Shape (h : Heap) (segs : List Seg) : Prop where
  nonempty : segs ≠ []
  tiles : Tiles Seg.addr Seg.size h.heapStart segs h.heapEnd
  linked : Linked (fun a => (h.hdr a).next) (fun a => (h.hdr a).last) 0 (addrs segs) 0
  stored : ∀ s ∈ segs, (h.hdr s.addr).length = s.length ∧ (h.hdr s.addr).free = s.free
  final : h.lastHdr = finalD 0 (addrs segs)
  length : ∀ s ∈ segs, 0 < s.length ∧ 16 ∣ s.length
  pos : 0 < h.heapStart
  below : h.heapEnd < 2 ^ 32

namespace Shape

variable {h h' : Heap} {segs l₁ l₂ : List Seg} {b s : Seg}

/-- A segment lies in the heap. -/
lemma bounds (hs : Shape h segs) (hb : b ∈ segs) :
    0 < b.addr ∧ h.heapStart ≤ b.addr ∧ b.addr + 16 + b.length ≤ h.heapEnd
      ∧ h.heapEnd < 2 ^ 32 := by
  have h1 := hs.tiles.mem_bounds hb
  have h2 := hs.pos
  have h3 := hs.below
  simp only [Seg.size, headerSize] at h1
  omega

/-- The segments left and right of a given one. -/
lemma cut (hs : Shape h (l₁ ++ b :: l₂)) :
    (∀ s ∈ l₁, s.addr + 16 + s.length ≤ b.addr)
      ∧ ∀ t ∈ l₂, b.addr + 16 + b.length ≤ t.addr := by
  obtain ⟨h1, h2⟩ := hs.tiles.cut
  simp only [Seg.size, headerSize, ← Nat.add_assoc] at h1 h2
  exact ⟨h1, h2⟩

/-- A header, read off the list. -/
lemma hdr_eq (hs : Shape h (l₁ ++ b :: l₂)) :
    h.hdr b.addr = ⟨b.length, firstD 0 (addrs l₂), finalD 0 (addrs l₁), b.free⟩ := by
  have hlink := hs.linked
  rw [addrs, List.map_append, List.map_cons, linked_append] at hlink
  obtain ⟨_, h1, h2, _⟩ := hlink
  obtain ⟨h3, h4⟩ := hs.stored b (by simp)
  exact HeapSegmentHeader.ext h3 h1 h2 h4

/-- The first address of a tail is null only when the tail is empty. -/
lemma firstD_ne_zero (hs : Shape h (l₁ ++ s :: l₂)) : firstD 0 (addrs (s :: l₂)) ≠ 0 := by
  have := (hs.bounds (b := s) (by simp)).1
  simp only [addrs, List.map_cons, firstD_cons]
  omega

/-- **The splice rule.** -/
lemma splice (l₁ mid mid' l₂ : List Seg) (hs : Shape h (l₁ ++ (mid ++ l₂)))
    (hne : mid' ≠ [])
    (hstart : h'.heapStart = h.heapStart) (hbelow : h'.heapEnd < 2 ^ 32)
    (htiles : Tiles Seg.addr Seg.size h'.heapStart (l₁ ++ (mid' ++ l₂)) h'.heapEnd)
    (hentry : firstD 0 (addrs mid') = firstD (firstD 0 (addrs l₂)) (addrs mid))
    (hleft : ∀ s ∈ l₁, h'.hdr s.addr = h.hdr s.addr)
    (hmid : Linked (fun a => (h'.hdr a).next) (fun a => (h'.hdr a).last)
      (finalD 0 (addrs l₁)) (addrs mid') (firstD 0 (addrs l₂)))
    (hstored : ∀ s ∈ mid', (h'.hdr s.addr).length = s.length ∧ (h'.hdr s.addr).free = s.free)
    (hlength : ∀ s ∈ mid', 0 < s.length ∧ 16 ∣ s.length)
    (hseam : ∀ s ∈ l₂.head?, h'.hdr s.addr
      = { h.hdr s.addr with last := finalD 0 (addrs mid') })
    (hright : ∀ s ∈ l₂.tail, h'.hdr s.addr = h.hdr s.addr)
    (hfinal : h'.lastHdr = finalD (finalD 0 (addrs mid')) (addrs l₂)) :
    Shape h' (l₁ ++ (mid' ++ l₂)) := by
  have hlink := hs.linked
  simp only [addrs, List.map_append, linked_append, firstD_append] at hlink
  obtain ⟨hl1, _, hl2⟩ := hlink
  -- the entry of a nonempty list and its end do not depend on the default
  have hfirst : ∀ d, firstD d (addrs mid') = firstD 0 (addrs mid') := by
    intro d
    cases mid' with
    | nil => exact absurd rfl hne
    | cons c l => rfl
  have hlast : ∀ d, finalD d (addrs mid') = finalD 0 (addrs mid') := by
    intro d
    cases mid' with
    | nil => exact absurd rfl hne
    | cons c l => rfl
  have hnext2 : ∀ s ∈ l₂, (h'.hdr s.addr).next = (h.hdr s.addr).next := by
    intro s hs2
    cases l₂ with
    | nil => simp at hs2
    | cons c l =>
      rcases List.mem_cons.mp hs2 with rfl | hs2
      · rw [hseam s (by simp)]
      · rw [hright s (by simpa using hs2)]
  refine ⟨by simp [hne], htiles, ?_, ?_, ?_, ?_, by rw [hstart]; exact hs.pos, hbelow⟩
  · simp only [addrs, List.map_append, linked_append, firstD_append]
    refine ⟨?_, hmid, ?_⟩
    · rw [hfirst, hentry]
      refine hl1.congr ?_ ?_ <;>
      · intro a ha
        obtain ⟨s, hs1, rfl⟩ := List.mem_map.mp ha
        rw [hleft s hs1]
    · rw [hlast]
      refine hl2.reenter ?_ ?_ ?_
      · intro a ha
        obtain ⟨s, hs2, rfl⟩ := List.mem_map.mp ha
        exact hnext2 s hs2
      · intro a ha
        rw [List.head?_map] at ha
        obtain ⟨s, hs2, rfl⟩ := Option.mem_map.mp ha
        rw [hseam s hs2]
      · intro a ha
        rw [← List.map_tail] at ha
        obtain ⟨s, hs2, rfl⟩ := List.mem_map.mp ha
        rw [hright s hs2]
  · intro s hmem
    rcases List.mem_append.mp hmem with hs1 | hmem
    · rw [hleft s hs1]
      exact hs.stored s (by simp [hs1])
    · rcases List.mem_append.mp hmem with hs1 | hs2
      · exact hstored s hs1
      · cases l₂ with
        | nil => simp at hs2
        | cons c l =>
          have hold := hs.stored s (by simp [hs2])
          rcases List.mem_cons.mp hs2 with rfl | hs2
          · rw [hseam s (by simp)]
            exact hold
          · rw [hright s (by simpa using hs2)]
            exact hold
  · rw [hfinal]
    simp only [addrs, List.map_append, finalD_append, hlast]
  · intro s hmem
    rcases List.mem_append.mp hmem with hs1 | hmem
    · exact hs.length s (by simp [hs1])
    · rcases List.mem_append.mp hmem with hs1 | hs2
      · exact hlength s hs1
      · exact hs.length s (by simp [hs2])

end Shape

end MicroOS
