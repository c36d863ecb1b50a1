import MicroOS.Lib.BitStream
import MicroOS.Lib.Checked

/-!
The decompressor `user/libtinf/tinflate.c`.

* `TinfTree`, `TinfData`: `struct tinf_tree` and `struct tinf_data`; `TinfScratch` is what the
  memory holds that `tinf_uncompress` does not initialise.
* `tinfBuildFixedTrees`, `tinfBuildTree`, `tinfGetbits`, `tinfDecodeSymbol`, `tinfDecodeTrees`,
  `tinfInflateBlockData`, `tinfInflateUncompressedBlock`, `tinfUncompress`: the functions.

A function that returns an error code stops with it; what it has stored is lost to the caller, who
sees the code only. An `assert` that fails and an access outside an array stop too. `source` holds
the bytes up to `source_end`, `out` those from `dest_start` up to `dest`, and `limit` is the
distance from `dest_start` to `dest_end`.
-/

namespace MicroOS

/-- Why a function of the decompressor stops. -/
inductive TinfStop where
  | dataError
  | bufError
  | assertion
  | outOfBounds
  | loops
  deriving DecidableEq, Repr

/-- `assert`. -/
def tinfAssert (p : Prop) [Decidable p] : Except TinfStop Unit :=
  if p then .ok () else .error .assertion

/-- `a[i]`. -/
def tinfGet {α : Type} (a : List α) (i : ℕ) : Except TinfStop α :=
  match a[i]? with
  | some x => .ok x
  | none => .error .outOfBounds

/-- `a[i] = x`. -/
def tinfSet {α : Type} (a : List α) (i : ℕ) (x : α) : Except TinfStop (List α) :=
  if i < a.length then .ok (a.set i x) else .error .outOfBounds

/-- `struct tinf_tree`. -/
structure TinfTree where
  counts : List ℕ
  symbols : List ℕ
  maxSym : ℤ
  deriving DecidableEq, Repr

/-- `struct tinf_data`, without its trees. -/
structure TinfData where
  source : List UInt8
  tag : ℕ
  bitcount : ℕ
  overflow : Bool
  out : List UInt8
  limit : ℕ
  deriving DecidableEq, Repr

/-- The memory of `ltree` and `dtree`, and of `lengths` in `tinf_decode_trees`, as it is found. -/
structure TinfScratch where
  ltree : TinfTree
  dtree : TinfTree
  lengths : List ℕ
  ltree_symbols : ltree.symbols.length = 288
  dtree_symbols : dtree.symbols.length = 288
  lengths_length : lengths.length = 288 + 32

/-- `read_le16`. -/
def tinfReadLe16 (p : List UInt8) : Except TinfStop ℕ := do
  let b₀ ← tinfGet p 0
  let b₁ ← tinfGet p 1
  return b₀.toNat ||| (b₁.toNat <<< 8)

/-! ### Trees -/

/-- The literal/length tree that `tinf_build_fixed_trees` stores. -/
def tinfFixedLtree : TinfTree where
  counts := [0, 0, 0, 0, 0, 0, 0, 24, 152, 112, 0, 0, 0, 0, 0, 0]
  symbols := (List.range 24).map (256 + ·) ++ List.range 144 ++ (List.range 8).map (280 + ·)
    ++ (List.range 112).map (144 + ·)
  maxSym := 285

/-- The distance tree that `tinf_build_fixed_trees` stores. -/
def tinfFixedDtree (dt : TinfTree) : TinfTree where
  counts := [0, 0, 0, 0, 0, 32, 0, 0, 0, 0, 0, 0, 0, 0, 0, 0]
  symbols := List.range 32 ++ dt.symbols.drop 32
  maxSym := 29

/-- `tinf_build_fixed_trees`. -/
def tinfBuildFixedTrees (dt : TinfTree) : TinfTree × TinfTree := (tinfFixedLtree, tinfFixedDtree dt)

/-- One code length is counted. -/
def tinfCountLength (lengths : List ℕ) (s : List ℕ × ℤ) (i : ℕ) :
    Except TinfStop (List ℕ × ℤ) := do
  let len ← tinfGet lengths i
  tinfAssert (len ≤ 15)
  if len = 0 then return s
  let n ← tinfGet s.1 len
  let counts ← tinfSet s.1 len (n + 1)
  return (counts, (i : ℤ))

/-- The variables of the loop over the lengths. -/
structure TinfOffsets where
  available : ℕ
  numCodes : ℕ
  offs : List ℕ
  deriving DecidableEq, Repr

/-- One turn of the loop that computes the offsets. -/
def tinfOffset (counts : List ℕ) (s : TinfOffsets) (i : ℕ) : Except TinfStop TinfOffsets := do
  let used ← tinfGet counts i
  if used > s.available then .error .dataError
  else return ⟨2 * (s.available - used), s.numCodes + used, s.offs ++ [s.numCodes]⟩

/-- One symbol is put in its place. -/
def tinfPlace (lengths : List ℕ) (s : List ℕ × List ℕ) (i : ℕ) :
    Except TinfStop (List ℕ × List ℕ) := do
  let len ← tinfGet lengths i
  if len = 0 then return s
  let o ← tinfGet s.2 len
  let symbols ← tinfSet s.1 o i
  let offs ← tinfSet s.2 len (o + 1)
  return (symbols, offs)

/-- `tinf_build_tree`. -/
def tinfBuildTree (t : TinfTree) (lengths : List ℕ) (num : ℕ) : Except TinfStop TinfTree := do
  tinfAssert (num ≤ 288)
  let (counts, maxSym) ← (List.range num).foldlM (tinfCountLength lengths) (List.replicate 16 0, -1)
  let s ← (List.range 16).foldlM (tinfOffset counts) ⟨1, 0, []⟩
  if s.numCodes > 1 ∧ s.available > 0 then .error .dataError
  let ones ← tinfGet counts 1
  if s.numCodes = 1 ∧ ones ≠ 1 then .error .dataError
  let (symbols, _) ← (List.range num).foldlM (tinfPlace lengths) (t.symbols, s.offs)
  if s.numCodes = 1 then
    let counts ← tinfSet counts 1 2
    let symbols ← tinfSet symbols 1 (maxSym + 1).toNat
    return ⟨counts, symbols, maxSym⟩
  else return ⟨counts, symbols, maxSym⟩

/-! ### The bit reader -/

/-- The body of the loop of `tinf_refill`. -/
def TinfData.refillByte (d : TinfData) : TinfData :=
  match d.source with
  | b :: source =>
    { d with
      source
      tag := d.tag ||| (b.toNat <<< d.bitcount) % 2 ^ 32
      bitcount := d.bitcount + 8 }
  | [] => { d with overflow := true, bitcount := d.bitcount + 8 }

/-- The loop of `tinf_refill`, which a turn brings at least one bit closer to its end. -/
def tinfRefillLoop (num : ℕ) : ℕ → TinfData → TinfData
  | 0, d => d
  | n + 1, d => if d.bitcount < num then tinfRefillLoop num n d.refillByte else d

/-- `tinf_refill`. -/
def tinfRefill (d : TinfData) (num : ℕ) : Except TinfStop TinfData := do
  tinfAssert (num ≤ 32)
  let d := tinfRefillLoop num num d
  tinfAssert (d.bitcount ≤ 32)
  return d

/-- `tinf_getbits_no_refill`. -/
def tinfGetbitsNoRefill (d : TinfData) (num : ℕ) : Except TinfStop (ℕ × TinfData) := do
  tinfAssert (num ≤ d.bitcount)
  return (d.tag &&& (1 <<< num - 1), { d with tag := d.tag >>> num, bitcount := d.bitcount - num })

/-- `tinf_getbits`. -/
def tinfGetbits (d : TinfData) (num : ℕ) : Except TinfStop (ℕ × TinfData) := do
  let d ← tinfRefill d num
  tinfGetbitsNoRefill d num

/-- `tinf_getbits_base`. -/
def tinfGetbitsBase (d : TinfData) (num base : ℕ) : Except TinfStop (ℕ × TinfData) := do
  if num = 0 then return (base, d)
  let (bits, d) ← tinfGetbits d num
  return (base + bits, d)

/-- The loop of `tinf_decode_symbol`. -/
def tinfDecodeLoop (t : TinfTree) : ℕ → ℕ → ℕ → ℕ → TinfData → Except TinfStop (ℕ × TinfData)
  | 0, _, _, _, _ => .error .loops
  | n + 1, len, base, offs, d => do
      let (bit, d) ← tinfGetbits d 1
      let offs := 2 * offs + bit
      tinfAssert (len ≤ 15)
      let leaves ← tinfGet t.counts len
      if offs < leaves then
        tinfAssert (base + offs < 288)
        let sym ← tinfGet t.symbols (base + offs)
        return (sym, d)
      else tinfDecodeLoop t n (len + 1) (base + leaves) (offs - leaves) d

/-- `tinf_decode_symbol`. The assertion on `len` ends the loop before the fuel does. -/
def tinfDecodeSymbol (d : TinfData) (t : TinfTree) : Except TinfStop (ℕ × TinfData) :=
  tinfDecodeLoop t 16 1 0 0 d

/-! ### Dynamic trees -/

/-- `clcidx`. -/
def tinfClcidx : List ℕ := [16, 17, 18, 0, 8, 7, 9, 6, 10, 5, 11, 4, 12, 3, 13, 2, 14, 1, 15]

/-- One code length of the code length alphabet is read. -/
def tinfReadClen (s : List ℕ × TinfData) (i : ℕ) : Except TinfStop (List ℕ × TinfData) := do
  let (clen, d) ← tinfGetbits s.2 3
  let pos ← tinfGet tinfClcidx i
  let lengths ← tinfSet s.1 pos clen
  return (lengths, d)

/-- The `switch` of `tinf_decode_trees`: the code length, how often it is stored, and the reader. -/
def tinfLengthRun (lengths : List ℕ) (num sym : ℕ) (d : TinfData) :
    Except TinfStop (ℕ × ℕ × TinfData) := do
  if sym = 16 then
    if num = 0 then .error .dataError
    else
      let sym ← tinfGet lengths (num - 1)
      let (length, d) ← tinfGetbitsBase d 2 3
      return (sym, length, d)
  else if sym = 17 then
    let (length, d) ← tinfGetbitsBase d 3 3
    return (0, length, d)
  else if sym = 18 then
    let (length, d) ← tinfGetbitsBase d 7 11
    return (0, length, d)
  else return (sym, 1, d)

/-- `while (length--) lengths[num++] = sym`. -/
def tinfStoreRun (lengths : List ℕ) (num sym : ℕ) : ℕ → Except TinfStop (List ℕ)
  | 0 => .ok lengths
  | length + 1 => do
      let lengths ← tinfSet lengths num sym
      tinfStoreRun lengths (num + 1) sym length

/-- The loop over the code lengths of the dynamic trees; a turn stores at least one. -/
def tinfLengthsLoop (lt : TinfTree) (total : ℕ) :
    ℕ → ℕ → List ℕ → TinfData → Except TinfStop (List ℕ × TinfData)
  | 0, _, _, _ => .error .loops
  | n + 1, num, lengths, d =>
    if num < total then do
      let (sym, d) ← tinfDecodeSymbol d lt
      if (sym : ℤ) > lt.maxSym then .error .dataError
      else
        let (sym, length, d) ← tinfLengthRun lengths num sym d
        if length > total - num then .error .dataError
        else
          let lengths ← tinfStoreRun lengths num sym length
          tinfLengthsLoop lt total n (num + length) lengths d
    else return (lengths, d)

/-- `tinf_decode_trees`. -/
def tinfDecodeTrees (d : TinfData) (lt dt : TinfTree) (lengths : List ℕ) :
    Except TinfStop (TinfTree × TinfTree × TinfData) := do
  let (hlit, d) ← tinfGetbitsBase d 5 257
  let (hdist, d) ← tinfGetbitsBase d 5 1
  let (hclen, d) ← tinfGetbitsBase d 4 4
  if hlit > 286 ∨ hdist > 30 then .error .dataError
  else
    let lengths ← tinfStoreRun lengths 0 0 19
    let (lengths, d) ← (List.range hclen).foldlM tinfReadClen (lengths, d)
    let lt ← tinfBuildTree lt lengths 19
    if lt.maxSym = -1 then .error .dataError
    else
      let (lengths, d) ← tinfLengthsLoop lt (hlit + hdist) (hlit + hdist + 1) 0 lengths d
      let eob ← tinfGet lengths 256
      if eob = 0 then .error .dataError
      else
        let lt ← tinfBuildTree lt lengths hlit
        let dt ← tinfBuildTree dt (lengths.drop hlit) hdist
        return (lt, dt, d)

/-! ### Blocks -/

/-- `length_bits`. -/
def tinfLengthBits : List ℕ :=
  [0, 0, 0, 0, 0, 0, 0, 0, 1, 1, 1, 1, 2, 2, 2, 2, 3, 3, 3, 3, 4, 4, 4, 4, 5, 5, 5, 5, 0, 127]

/-- `length_base`. -/
def tinfLengthBase : List ℕ :=
  [3, 4, 5, 6, 7, 8, 9, 10, 11, 13, 15, 17, 19, 23, 27, 31, 35, 43, 51, 59, 67, 83, 99, 115, 131,
    163, 195, 227, 258, 0]

/-- `dist_bits`. -/
def tinfDistBits : List ℕ :=
  [0, 0, 0, 0, 1, 1, 2, 2, 3, 3, 4, 4, 5, 5, 6, 6, 7, 7, 8, 8, 9, 9, 10, 10, 11, 11, 12, 12, 13,
    13]

/-- `dist_base`. -/
def tinfDistBase : List ℕ :=
  [1, 2, 3, 4, 5, 7, 9, 13, 17, 25, 33, 49, 65, 97, 129, 193, 257, 385, 513, 769, 1025, 1537, 2049,
    3073, 4097, 6145, 8193, 12289, 16385, 24577]

/-- `*d->dest++ = b`. -/
def TinfData.store (d : TinfData) (b : UInt8) : Except TinfStop TinfData :=
  if d.out.length < d.limit then .ok { d with out := d.out ++ [b] } else .error .outOfBounds

/-- `d->dest[i] = d->dest[i - offs]`, where `d->dest` is `dest` bytes behind `d->dest_start`. -/
def tinfCopyByte (dest offs : ℕ) (d : TinfData) (i : ℕ) : Except TinfStop TinfData :=
  if dest + i < offs then .error .outOfBounds
  else do
    let b ← tinfGet d.out (dest + i - offs)
    d.store b

/-- A match, whose symbol for the length is read. -/
def tinfInflateMatch (lt dt : TinfTree) (sym : ℕ) (d : TinfData) : Except TinfStop TinfData := do
  if (sym : ℤ) > lt.maxSym ∨ sym - 257 > 28 ∨ dt.maxSym = -1 then .error .dataError
  else
    let lengthBits ← tinfGet tinfLengthBits (sym - 257)
    let lengthBase ← tinfGet tinfLengthBase (sym - 257)
    let (length, d) ← tinfGetbitsBase d lengthBits lengthBase
    let (dist, d) ← tinfDecodeSymbol d dt
    if (dist : ℤ) > dt.maxSym ∨ dist > 29 then .error .dataError
    else
      let distBits ← tinfGet tinfDistBits dist
      let distBase ← tinfGet tinfDistBase dist
      let (offs, d) ← tinfGetbitsBase d distBits distBase
      if offs > d.out.length then .error .dataError
      else if d.limit - d.out.length < length then .error .bufError
      else (List.range length).foldlM (tinfCopyByte d.out.length offs) d

/-- `tinf_inflate_block_data`. -/
def tinfInflateBlockData (lt dt : TinfTree) : ℕ → TinfData → Except TinfStop TinfData
  | 0, _ => .error .loops
  | n + 1, d => do
      let (sym, d) ← tinfDecodeSymbol d lt
      if d.overflow then .error .dataError
      else if sym < 256 then
        if d.out.length = d.limit then .error .bufError
        else
          let d ← d.store (UInt8.ofNat sym)
          tinfInflateBlockData lt dt n d
      else if sym = 256 then return d
      else
        let d ← tinfInflateMatch lt dt sym d
        tinfInflateBlockData lt dt n d

/-- `while (length--) *d->dest++ = *d->source++`. -/
def tinfCopySource : ℕ → TinfData → Except TinfStop TinfData
  | 0, d => .ok d
  | length + 1, d =>
    match d.source with
    | [] => .error .outOfBounds
    | b :: source => do
        let d ← { d with source }.store b
        tinfCopySource length d

/-- `tinf_inflate_uncompressed_block`. -/
def tinfInflateUncompressedBlock (d : TinfData) : Except TinfStop TinfData := do
  if d.source.length < 4 then .error .dataError
  else
    let length ← tinfReadLe16 d.source
    let invlength ← tinfReadLe16 (d.source.drop 2)
    if length ≠ (2 ^ 32 - 1 - invlength) &&& 0xffff then .error .dataError
    else
      let d := { d with source := d.source.drop 4 }
      if d.source.length < length then .error .dataError
      else if d.limit - d.out.length < length then .error .bufError
      else
        let d ← tinfCopySource length d
        return { d with tag := 0, bitcount := 0 }

/-- The `switch` of `tinf_uncompress`, with the functions for the two kinds of Huffman blocks. -/
def tinfInflateBlock (lengths : List ℕ) (n btype : ℕ) (d : TinfData) (lt dt : TinfTree) :
    Except TinfStop (TinfData × TinfTree × TinfTree) :=
  match btype with
  | 0 => do
      let d ← tinfInflateUncompressedBlock d
      return (d, lt, dt)
  | 1 => do
      let (lt, dt) := tinfBuildFixedTrees dt
      let d ← tinfInflateBlockData lt dt n d
      return (d, lt, dt)
  | 2 => do
      let (lt, dt, d) ← tinfDecodeTrees d lt dt lengths
      let d ← tinfInflateBlockData lt dt n d
      return (d, lt, dt)
  | _ => .error .dataError

/-- The loop of `tinf_uncompress`, where `n` is the fuel of the loop over the symbols. -/
def tinfBlocks (lengths : List ℕ) (n : ℕ) :
    ℕ → TinfData → TinfTree → TinfTree → Except TinfStop TinfData
  | 0, _, _, _ => .error .loops
  | k + 1, d, lt, dt => do
      let (bfinal, d) ← tinfGetbits d 1
      let (btype, d) ← tinfGetbits d 2
      let (d, lt, dt) ← tinfInflateBlock lengths n btype d lt dt
      if bfinal = 0 then tinfBlocks lengths n k d lt dt else return d

/-- `tinf_uncompress`, which stores `*destLen` bytes at most: the bytes that it has stored, of which
there are `*destLen` when it returns. Every turn of a loop reads a bit at least. -/
def tinfUncompress (init : TinfScratch) (destLen : ℕ) (source : List UInt8) :
    Except TinfStop (List UInt8) := do
  let fuel := 8 * source.length + 1
  let d ← tinfBlocks init.lengths fuel fuel ⟨source, 0, 0, false, [], destLen⟩ init.ltree init.dtree
  if d.overflow then .error .dataError else return d.out

end MicroOS
