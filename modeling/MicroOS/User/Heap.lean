import MicroOS.User.LibcString

/-!
The user-space allocator `user/libc/stdlib/heap.c`, on byte memory.

Segment headers live in the memory they describe: `header m a` decodes the sixteen bytes of a
`heap_segment_header_t` at `a`, and the four field stores rewrite them. The allocator's
functions are the source's, field access by field access, with `size_t` arithmetic in 32 bits.
The walk of `malloc` and its recursion through `expand_heap` carry fuel; `none` means that the
fuel ran out, and `HeapRun` shows that it does not.

`mmap` hands back a page with arbitrary contents. The memory of the initial state is arbitrary
everywhere, and no page is mapped twice, so the model leaves the bytes alone and records the
address of the call.
-/

namespace MicroOS

open ByteMem

/-! ### Segment headers -/

/-- `heap_segment_header_t`. A null pointer is `0`. -/
@[ext]
structure HeapSegmentHeader where
  length : ℕ
  next : ℕ
  last : ℕ
  free : Bool
  deriving DecidableEq, Repr

/-- `sizeof(heap_segment_header_t)` on i686: three words, a `bool` and its padding. -/
def headerSize : ℕ := 16

/-- The header stored at an address. -/
def header (m : Mem) (a : ℕ) : HeapSegmentHeader :=
  ⟨readWord m a, readWord m (a + 4), readWord m (a + 8), m (a + 12) != 0⟩

/-- The allocator's globals and its memory. The last two fields only record what was called:
the addresses given to `mmap`, and the pair (`_this->length`, `split_length`) of every call of
`hsh_split`. -/
structure Heap where
  mem : Mem
  heapStart : ℕ
  heapEnd : ℕ
  lastHdr : ℕ
  mmaps : List ℕ
  splits : List (ℕ × ℕ)

namespace Heap

/-- The header at an address of the heap. -/
def hdr (h : Heap) (a : ℕ) : HeapSegmentHeader := header h.mem a

/-- `a->length = v`. -/
def setLength (h : Heap) (a v : ℕ) : Heap := { h with mem := writeWord h.mem a v }

/-- `a->next = v`. -/
def setNext (h : Heap) (a v : ℕ) : Heap := { h with mem := writeWord h.mem (a + 4) v }

/-- `a->last = v`. -/
def setLast (h : Heap) (a v : ℕ) : Heap := { h with mem := writeWord h.mem (a + 8) v }

/-- `a->free = b`. -/
def setFree (h : Heap) (a : ℕ) (b : Bool) : Heap :=
  { h with mem := writeByte h.mem (a + 12) (if b then 1 else 0) }

end Heap

/-! ### Merging and splitting -/

/-- `hsh_combine_forward`. -/
def hshCombineForward (h : Heap) (this : ℕ) : Heap :=
  if (h.hdr this).next = 0 then h
  else if !(h.hdr (h.hdr this).next).free then h
  else
    let h := if (h.hdr this).next = h.lastHdr then { h with lastHdr := this } else h
    let h :=
      if (h.hdr (h.hdr this).next).next ≠ 0 then h.setLast (h.hdr (h.hdr this).next).next this
      else h
    let h := h.setLength this
      (wrap32 ((h.hdr this).length + (h.hdr (h.hdr this).next).length + headerSize))
    h.setNext this (h.hdr (h.hdr this).next).next

/-- `hsh_combine_backward`. -/
def hshCombineBackward (h : Heap) (this : ℕ) : Heap :=
  if (h.hdr this).last ≠ 0 ∧ (h.hdr (h.hdr this).last).free then
    hshCombineForward h (h.hdr this).last
  else h

/-- `hsh_split`, without its return value, which no caller reads. The `int64_t` receives the
unsigned 32-bit difference, so that it is never negative. -/
def hshSplit (h : Heap) (this splitLength : ℕ) : Heap :=
  let h := { h with splits := h.splits ++ [((h.hdr this).length, splitLength)] }
  if splitLength < 0x10 then h
  else
    let splitSegLength := sub32 (h.hdr this).length (wrap32 (splitLength + headerSize))
    if splitSegLength < 0x10 then h
    else
      let newSplitHdr := wrap32 (this + splitLength + headerSize)
      let h :=
        if (h.hdr this).next ≠ 0 then h.setLast (h.hdr this).next newSplitHdr else h
      let h := h.setNext newSplitHdr (h.hdr this).next
      let h := h.setNext this newSplitHdr
      let h := h.setLast newSplitHdr this
      let h := h.setLength newSplitHdr splitSegLength
      let h := h.setFree newSplitHdr (h.hdr this).free
      let h := h.setLength this splitLength
      if h.lastHdr = this then { h with lastHdr := newSplitHdr } else h

/-! ### Growing the heap -/

/-- `mmap(heap_end)`, and the step of `heap_end` over the page. -/
def mmapHeapPage (h : Heap) : Heap :=
  { h with mmaps := h.mmaps ++ [h.heapEnd], heapEnd := wrap32 (h.heapEnd + 0x1000) }

/-- The `mmap` loop of `expand_heap`. -/
def mmapHeapEnd (h : Heap) (pageCount : ℕ) : Heap := mmapHeapPage^[pageCount] h

/-- The `mmap` loop of `initialize_heap`: the addresses it maps from `pos` on. -/
def mmapFrom (pos : ℕ) : ℕ → List ℕ
  | 0 => []
  | n + 1 => pos :: mmapFrom (wrap32 (pos + 0x1000)) n

/-- `initialize_heap`, from a memory with arbitrary contents. -/
def initializeHeap (m : Mem) (heapAddress pageCount : ℕ) : Heap :=
  let heapLength := wrap32 (pageCount * 0x1000)
  let h : Heap :=
    { mem := m, heapStart := heapAddress, heapEnd := wrap32 (heapAddress + heapLength),
      lastHdr := heapAddress, mmaps := mmapFrom heapAddress pageCount, splits := [] }
  let h := h.setLength heapAddress (sub32 heapLength headerSize)
  let h := h.setNext heapAddress 0
  let h := h.setLast heapAddress 0
  h.setFree heapAddress true

/-- The rounding of `expand_heap` to whole pages. -/
def roundPages (length : ℕ) : ℕ :=
  if length % 0x1000 ≠ 0 then wrap32 (length - length % 0x1000 + 0x1000) else length

/-- `expand_heap`. -/
def expandHeap (h : Heap) (length : ℕ) : Heap :=
  let length := roundPages length
  let newSegment := h.heapEnd
  let h := mmapHeapEnd h (length / 0x1000)
  let h := h.setFree newSegment true
  let h := h.setLast newSegment h.lastHdr
  let h := h.setNext h.lastHdr newSegment
  let h := { h with lastHdr := newSegment }
  let h := h.setNext newSegment 0
  let h := h.setLength newSegment (sub32 length headerSize)
  hshCombineBackward h newSegment

/-! ### The interface -/

/-- The rounding of `malloc` to a multiple of sixteen. -/
def roundSize (size : ℕ) : ℕ :=
  if size % 0x10 > 0 then wrap32 (size - size % 0x10 + 0x10) else size

/-- The loop of `malloc` from `currentSeg` on: the heap with the first fitting segment taken
and its payload's address, or `none` in the second place when the last segment was passed. -/
def mallocWalk (h : Heap) (size : ℕ) : ℕ → ℕ → Option (Heap × Option ℕ)
  | 0, _ => none
  | fuel + 1, currentSeg =>
    if (h.hdr currentSeg).free ∧ (h.hdr currentSeg).length > size then
      some ((hshSplit h currentSeg size).setFree currentSeg false,
        some (wrap32 (currentSeg + headerSize)))
    else if (h.hdr currentSeg).free ∧ (h.hdr currentSeg).length = size then
      some (h.setFree currentSeg false, some (wrap32 (currentSeg + headerSize)))
    else if (h.hdr currentSeg).next = 0 then some (h, none)
    else mallocWalk h size fuel (h.hdr currentSeg).next

/-- More segments than fit the address space. -/
def walkFuel : ℕ := 2 ^ 28

/-- `malloc`; the fuel bounds its recursion through `expand_heap`. -/
def malloc : ℕ → Heap → ℕ → Option (Heap × ℕ)
  | 0, _, _ => none
  | fuel + 1, h, size =>
    let size := roundSize size
    if size = 0 then some (h, 0)
    else
      match mallocWalk h size walkFuel h.heapStart with
      | none => none
      | some (h, some p) => some (h, p)
      | some (h, none) => malloc fuel (expandHeap h size) size

/-- `free`. -/
def free (h : Heap) (address : ℕ) : Heap :=
  let segment := sub32 address headerSize
  let h := h.setFree segment true
  let h := hshCombineForward h segment
  hshCombineBackward h segment

/-- `realloc`. -/
def realloc (fuel : ℕ) (h : Heap) (ptr size : ℕ) : Option (Heap × ℕ) :=
  let segment := sub32 ptr headerSize
  if size = 0 then some (free h ptr, 0)
  else if ptr = 0 then malloc fuel h size
  else if size ≤ (h.hdr segment).length then some (h, ptr)
  else
    match malloc fuel h size with
    | none => none
    | some (h, newPtr) =>
      if newPtr ≠ 0 then
        some (free { h with mem := memcpy h.mem newPtr ptr (h.hdr segment).length } ptr, newPtr)
      else some (h, newPtr)

/-- `calloc`. -/
def calloc (fuel : ℕ) (h : Heap) (count size : ℕ) : Option (Heap × ℕ) :=
  match malloc fuel h (wrap32 (count * size)) with
  | none => none
  | some (h, addr) => some ({ h with mem := memset h.mem addr 0 (wrap32 (count * size)) }, addr)

end MicroOS
