import Mathlib.Data.List.Range
import MicroOS.Lib.ByteMem
import MicroOS.Lib.Checked

/-!
The physical memory manager `memory/pmm.c`.

Two bitmaps of `BITMAP_SIZE` words describe the 2^20 frames of the address space: a cleared bit
of `bitmap` is a frame in use, a cleared bit of `bitmap_pagetable_mask` a frame of the page-table
pool. Every access checks its index, so that an access outside the arrays stops the model with
`outOfBounds`. `abortf` stops it with `abort`, and a loop of `pmm_init` that runs for ever ends,
at any fuel, in `loops`.
-/

namespace MicroOS

open ByteMem Checked

/-- Why the kernel does not go on. -/
inductive Halt where
  | outOfBounds (bit : ℕ)
  | abort
  | loops
  deriving DecidableEq, Repr

/-! ### Bitmaps -/

/-- The words of a bitmap. -/
abbrev Bitmap := ℕ → BitVec 32

/-- `BITMAP_SIZE`. -/
def bitmapSize : ℕ := 32768

/-- `0b10000000000000000000000000000000 >> (bit % 32)`. -/
def bitmapBit (bit : ℕ) : BitVec 32 := 0b10000000000000000000000000000000#32 >>> (bit % 32)

/-- The bit is cleared. -/
def Bitmap.Marked (map : Bitmap) (bit : ℕ) : Prop := map (bit / 32) &&& bitmapBit bit = 0

instance (map : Bitmap) (bit : ℕ) : Decidable (map.Marked bit) :=
  inferInstanceAs (Decidable (_ = _))

/-- `bitmap_set`. -/
def bitmapSet (map : Bitmap) (bit : ℕ) : Except Halt Bitmap :=
  if bit / 32 < bitmapSize then
    .ok (Function.update map (bit / 32) (map (bit / 32) &&& ~~~(bitmapBit bit)))
  else .error (.outOfBounds bit)

/-- `bitmap_clear`. -/
def bitmapClear (map : Bitmap) (bit : ℕ) : Except Halt Bitmap :=
  if bit / 32 < bitmapSize then
    .ok (Function.update map (bit / 32) (map (bit / 32) ||| bitmapBit bit))
  else .error (.outOfBounds bit)

/-- `bitmap_test`. -/
def bitmapTest (map : Bitmap) (bit : ℕ) : Except Halt Bool :=
  if bit / 32 < bitmapSize then .ok (decide (map.Marked bit)) else .error (.outOfBounds bit)

/-! ### Frames -/

/-- The globals of the memory manager. -/
structure Pmm where
  bitmap : Bitmap
  bitmapPagetableMask : Bitmap
  freeMemory : ℕ
  usedMemory : ℕ

/-- `pmm_usage_use`. -/
def pmmUsageUse (p : Pmm) (amount : ℕ) : Pmm :=
  { p with
    freeMemory := sub32 p.freeMemory (wrap32 (amount * 0x1000))
    usedMemory := wrap32 (p.usedMemory + amount * 0x1000) }

/-- `pmm_usage_unuse`. -/
def pmmUsageUnuse (p : Pmm) (amount : ℕ) : Pmm :=
  { p with
    freeMemory := wrap32 (p.freeMemory + amount * 0x1000)
    usedMemory := sub32 p.usedMemory (wrap32 (amount * 0x1000)) }

/-- `pmm_mark_used`. -/
def pmmMarkUsed (p : Pmm) (page : ℕ) : Except Halt Pmm := do
  let map ← bitmapSet p.bitmap (page / 4096)
  return pmmUsageUse { p with bitmap := map } 1

/-- `pmm_free`. -/
def pmmFree (p : Pmm) (page : ℕ) : Except Halt Pmm := do
  let map ← bitmapClear p.bitmap (page / 4096)
  return pmmUsageUnuse { p with bitmap := map } 1

/-- The loop of `pmm_alloc` and `pmm_alloc_pagetable` over `n` frames from `i` on: the first
frame that is free and lies in the pool or outside it, as asked. -/
def findFrame (p : Pmm) (inPool : Bool) : ℕ → ℕ → Except Halt (Option ℕ)
  | 0, _ => .ok none
  | n + 1, i => do
      if !(← bitmapTest p.bitmap i) then
        if (← bitmapTest p.bitmapPagetableMask i) = inPool then return some i
      findFrame p inPool n (i + 1)

/-- `pmm_alloc` and `pmm_alloc_pagetable`, which differ in the test of the mask. -/
def allocFrame (inPool : Bool) (p : Pmm) : Except Halt (Pmm × ℕ) := do
  match ← findFrame p inPool (bitmapSize * 32) 0 with
  | some i =>
    let map ← bitmapSet p.bitmap i
    return (pmmUsageUse { p with bitmap := map } 1, i * 0x1000)
  | none => throw .abort

/-- `pmm_alloc`. -/
def pmmAlloc : Pmm → Except Halt (Pmm × ℕ) := allocFrame false

/-- `pmm_alloc_pagetable`. -/
def pmmAllocPagetable : Pmm → Except Halt (Pmm × ℕ) := allocFrame true

/-! ### Ranges of frames -/

/-- An `int` as the `uint32_t` parameter of the usage counters. -/
def amountOf (count : ℤ) : ℕ := (count % 2 ^ 32).toNat

/-- The first inner loop of `pmm_alloc_range`, for `n` more values of `j`: the first frame that
is in use and outside the pool. -/
def rangeStop (p : Pmm) (i : ℕ) : ℕ → ℕ → Except Halt (Option ℕ)
  | 0, _ => .ok none
  | n + 1, j => do
      if ← bitmapTest p.bitmap (i + j) then
        if !(← bitmapTest p.bitmapPagetableMask (i + j)) then return some j
      rangeStop p i n (j + 1)

/-- `n` stores into a bitmap, from an index on. -/
def bitmapFill (store : Bitmap → ℕ → Except Halt Bitmap) : ℕ → ℕ → Bitmap → Except Halt Bitmap
  | 0, _, map => .ok map
  | n + 1, i, map => do bitmapFill store n (i + 1) (← store map i)

/-- `!bitmap_test(bitmap, i) && !bitmap_test(bitmap_pagetable_mask, i)`. -/
def isFreePage (p : Pmm) (i : ℕ) : Except Halt Bool := do
  if ← bitmapTest p.bitmap i then return false
  return !(← bitmapTest p.bitmapPagetableMask i)

/-- `pmm_alloc_range` from its label `retry` on. -/
def allocRangeFrom (p : Pmm) (count : ℤ) : ℕ → ℕ → Except Halt (Pmm × ℕ)
  | 0, _ => .error .loops
  | fuel + 1, i => do
      if ← isFreePage p i then
        match ← rangeStop p i count.toNat 0 with
        | some j => allocRangeFrom p count fuel (i + j)
        | none =>
          let map ← bitmapFill bitmapSet count.toNat i p.bitmap
          return (pmmUsageUse { p with bitmap := map } (amountOf count), i * 0x1000)
      else if i + 1 < bitmapSize * 32 then allocRangeFrom p count fuel (i + 1)
      else return (p, 0)

/-- `pmm_alloc_range`. Every turn advances `i`, so that there are no more turns than frames. -/
def pmmAllocRange (p : Pmm) (count : ℤ) : Except Halt (Pmm × ℕ) :=
  allocRangeFrom p count (bitmapSize * 32 + 1) 0

/-- `pmm_free_range`. -/
def pmmFreeRange (p : Pmm) (page : ℕ) (count : ℤ) : Except Halt Pmm := do
  let map ← bitmapFill bitmapClear count.toNat (page / 4096) p.bitmap
  return pmmUsageUnuse { p with bitmap := map } (amountOf count)

/-! ### Start -/

/-- `multiboot_mmap_t`, the fields that are read. -/
structure MultibootMmap where
  base : UInt64
  length : UInt64
  type : UInt32

/-- `multiboot_module`, the fields that are read. -/
structure MultibootModule where
  modStart : UInt32
  modEnd : UInt32

/-- `multiboot_info_t`, the fields that `pmm_init` reads, and its own address. -/
structure MultibootInfo where
  addr : UInt32
  mmap : List MultibootMmap
  modsAddr : UInt32
  mods : List MultibootModule

/-- `PAGING_DATA_PAGES`. -/
def pagingDataPages : ℕ := 512

/-- The layout of `link.ld`: the image starts at `0x200000`, ends at a page boundary and is
followed by the page-table pool. -/
structure KernelLayout where
  kernelEnd : ℕ
  aligned : 0x1000 ∣ kernelEnd
  image : 0x200000 < kernelEnd
  fits : kernelEnd + pagingDataPages * 0x1000 < 2 ^ 32

namespace KernelLayout

/-- `KERNEL_START`. -/
def kernelStart : ℕ := 0x200000

/-- `PAGING_START`. -/
def pagingStart (L : KernelLayout) : ℕ := L.kernelEnd

/-- `PAGING_END`. -/
def pagingEnd (L : KernelLayout) : ℕ := L.kernelEnd + pagingDataPages * 0x1000

end KernelLayout

/-- `while (addr < end) { body(addr); addr += 0x1000; }`. -/
def forPages (body : Pmm → ℕ → Except Halt Pmm) (fuel endAddr addr : ℕ) (p : Pmm) :
    Except Halt Pmm := do
  let r ← repeatWhile (fun s : ℕ × Pmm => decide (s.1 < endAddr))
    (fun s => do return (wrap32 (s.1 + 0x1000), ← body s.2 s.1)) .loops fuel (addr, p)
  return r.2

/-- One turn of the loop over the memory map. -/
def freeSection (fuel : ℕ) (p : Pmm) (e : MultibootMmap) : Except Halt Pmm :=
  if e.type = 1 then
    let addr := wrap32 e.base.toNat
    let endAddr := wrap32 (addr + wrap32 e.length.toNat)
    if e.base > 0xfffff000 then .ok p
    else
      let endAddr := if e.base + e.length > 0xffffffff then 0xfffff000 else endAddr
      forPages pmmFree fuel endAddr addr p
  else .ok p

/-- A frame of the pool is marked in the mask. -/
def maskPage (p : Pmm) (addr : ℕ) : Except Halt Pmm := do
  return { p with bitmapPagetableMask := ← bitmapSet p.bitmapPagetableMask (addr / 0x1000) }

/-- `pmm_init`. -/
def pmmInit (fuel : ℕ) (L : KernelLayout) (mb : MultibootInfo) : Except Halt Pmm := do
  let p : Pmm := ⟨fun _ => 0, fun _ => 0xffffffff, 0, 0⟩
  let p ← mb.mmap.foldlM (freeSection fuel) p
  let p := { p with usedMemory := 0 }
  let p ← forPages pmmMarkUsed fuel L.kernelEnd KernelLayout.kernelStart p
  let p ← forPages maskPage fuel L.pagingEnd L.pagingStart p
  let p ← pmmMarkUsed p mb.addr.toNat
  let p ← pmmMarkUsed p mb.modsAddr.toNat
  let p ← mb.mods.foldlM
    (fun p m => forPages pmmMarkUsed fuel m.modEnd.toNat m.modStart.toNat p) p
  pmmMarkUsed p 0

end MicroOS
