import MicroOS.Lib.Canonical

/-!
The format of deflated data.

* `Usable`: the lengths of a code that may be sent: a complete one, or one with a single symbol or
  none.
* `Token`: a byte, or a copy of earlier output; `Token.encode` are its bits and `Token.expand` is
  what it adds to the output.
* `LengthToken`, `Header`: the codes of a block, as they are sent; `Header.Valid` are the ones that
  may be.
* `Block`: a stored block, or one with the fixed codes or with codes of its own; `Block.Sends` are
  its bits, and `Sends` those of a list of blocks; `expand` is what they stand for.
-/

namespace Deflate

open BitStream Canonical

/-- The lengths of a complete code, or of one with a single symbol or none. -/
def Usable (ls : List ℕ) : Prop := kraft ls 15 = 2 ^ 15 ∨ used ls = [] ∨ used ls = [1]

/-- `ls` has a code for the symbol `s`. -/
def Coded (ls : List ℕ) (s : ℕ) : Prop := s < ls.length ∧ ls.getD s 0 ≠ 0

/-! ### Tokens -/

/-- The extra bits of the symbols for lengths, from 257 on, and the shortest length of each. -/
def lengthTable : List (ℕ × ℕ) :=
  [(0, 3), (0, 4), (0, 5), (0, 6), (0, 7), (0, 8), (0, 9), (0, 10), (1, 11), (1, 13), (1, 15),
    (1, 17), (2, 19), (2, 23), (2, 27), (2, 31), (3, 35), (3, 43), (3, 51), (3, 59), (4, 67),
    (4, 83), (4, 99), (4, 115), (5, 131), (5, 163), (5, 195), (5, 227), (0, 258)]

/-- The extra bits of the symbols for distances, and the shortest distance of each. -/
def distTable : List (ℕ × ℕ) :=
  [(0, 1), (0, 2), (0, 3), (0, 4), (1, 5), (1, 7), (2, 9), (2, 13), (3, 17), (3, 25), (4, 33),
    (4, 49), (5, 65), (5, 97), (6, 129), (6, 193), (7, 257), (7, 385), (8, 513), (8, 769),
    (9, 1025), (9, 1537), (10, 2049), (10, 3073), (11, 4097), (11, 6145), (12, 8193), (12, 12289),
    (13, 16385), (13, 24577)]

/-- A byte, or a copy: the symbol of its length and that of its distance, with their extra bits. -/
inductive Token where
  | literal (b : UInt8)
  | copy (len lenExtra dist distExtra : ℕ)
  deriving DecidableEq, Repr

/-- `n` bytes are copied one by one from `dist` bytes back. -/
def copyBack (dist : ℕ) : ℕ → List UInt8 → List UInt8
  | 0, out => out
  | n + 1, out => copyBack dist n (out ++ [out.getD (out.length - dist) 0])

/-- A copy adds as many bytes as are asked for. -/
@[simp] lemma length_copyBack (dist n : ℕ) (out : List UInt8) :
    (copyBack dist n out).length = out.length + n := by
  induction n generalizing out with
  | zero => rfl
  | succ n ih =>
    rw [copyBack, ih, List.length_append, List.length_singleton]
    ring

namespace Token

/-- The token has a code, where `lit` and `dist` are the lengths of the codes. -/
def Valid (lit dist : List ℕ) : Token → Prop
  | literal b => Coded lit b.toNat
  | copy l x d y => Coded lit (257 + l) ∧ Coded dist d ∧ l < 29 ∧ d < 30
      ∧ x < 2 ^ (lengthTable.getD l 0).1 ∧ y < 2 ^ (distTable.getD d 0).1

/-- The bits of a token. -/
def encode (lit dist : List ℕ) : Token → List Bool
  | literal b => code lit b.toNat
  | copy l x d y => code lit (257 + l) ++ bits (lengthTable.getD l 0).1 x
      ++ (code dist d ++ bits (distTable.getD d 0).1 y)

/-- What a token adds to the output; there must be as much of it as a copy reaches back. -/
def expand (out : List UInt8) : Token → Option (List UInt8)
  | literal b => some (out ++ [b])
  | copy l x d y =>
    if (distTable.getD d 0).2 + y ≤ out.length then
      some (copyBack ((distTable.getD d 0).2 + y) ((lengthTable.getD l 0).2 + x) out)
    else none

end Token

/-! ### Codes of a block -/

/-- A code length, the last one again, or a run of zeros; with extra bits for how often. -/
inductive LengthToken where
  | len (n : ℕ)
  | again (x : ℕ)
  | zeros (x : ℕ)
  | manyZeros (x : ℕ)
  deriving DecidableEq, Repr

namespace LengthToken

/-- The symbol of a token. -/
def symbol : LengthToken → ℕ
  | len n => n
  | again _ => 16
  | zeros _ => 17
  | manyZeros _ => 18

/-- How many extra bits a token has, and which. -/
def extra : LengthToken → ℕ × ℕ
  | len _ => (0, 0)
  | again x => (2, x)
  | zeros x => (3, x)
  | manyZeros x => (7, x)

/-- The token has a code. -/
def Valid (cl : List ℕ) (t : LengthToken) : Prop :=
  Coded cl t.symbol ∧ t.extra.2 < 2 ^ t.extra.1 ∧ ∀ n, t = len n → n < 16

/-- The bits of a token. -/
def encode (cl : List ℕ) (t : LengthToken) : List Bool :=
  code cl t.symbol ++ bits t.extra.1 t.extra.2

/-- The length that a token stands for behind `ls`, and how often. -/
def run (ls : List ℕ) : LengthToken → Option (ℕ × ℕ)
  | len n => some (n, 1)
  | again x => ls.getLast?.map fun n => (n, 3 + x)
  | zeros x => some (0, 3 + x)
  | manyZeros x => some (0, 11 + x)

/-- A token adds its lengths. -/
def expand (ls : List ℕ) (t : LengthToken) : Option (List ℕ) :=
  (t.run ls).map fun r => ls ++ List.replicate r.2 r.1

end LengthToken

/-- The order in which the lengths of the code of the code lengths are sent. -/
def lengthOrder : List ℕ := [16, 17, 18, 0, 8, 7, 9, 6, 10, 5, 11, 4, 12, 3, 13, 2, 14, 1, 15]

/-- The codes of a block. -/
structure Header where
  hlit : ℕ
  hdist : ℕ
  order : List ℕ
  tokens : List LengthToken
  deriving DecidableEq, Repr

namespace Header

/-- The lengths of the code of the code lengths, by symbol. -/
def codeLengths (h : Header) : List ℕ :=
  (List.range 19).map fun s => h.order.getD (lengthOrder.idxOf s) 0

/-- The lengths of both codes. -/
def lengths (h : Header) : Option (List ℕ) := h.tokens.foldlM LengthToken.expand []

/-- The codes may be sent. -/
structure Valid (h : Header) (ls : List ℕ) : Prop where
  hlit : 257 ≤ h.hlit ∧ h.hlit ≤ 286
  hdist : 1 ≤ h.hdist ∧ h.hdist ≤ 30
  order : 4 ≤ h.order.length ∧ h.order.length ≤ 19
  order_lt : ∀ l ∈ h.order, l < 8
  codeLengths : Usable h.codeLengths
  codeLengths_ne : used h.codeLengths ≠ []
  tokens : ∀ t ∈ h.tokens, t.Valid h.codeLengths
  lengths : h.lengths = some ls
  length : ls.length = h.hlit + h.hdist
  lit : Usable (ls.take h.hlit)
  dist : Usable (ls.drop h.hlit)
  eob : ls.getD 256 0 ≠ 0

/-- The bits of the codes. -/
def encode (h : Header) : List Bool :=
  bits 5 (h.hlit - 257) ++ bits 5 (h.hdist - 1) ++ bits 4 (h.order.length - 4)
    ++ h.order.flatMap (bits 3) ++ h.tokens.flatMap (LengthToken.encode h.codeLengths)

end Header

/-! ### Blocks -/

/-- The lengths of the fixed codes. -/
def fixedLit : List ℕ :=
  List.replicate 144 8 ++ List.replicate 112 9 ++ List.replicate 24 7 ++ List.replicate 8 8

@[inherit_doc fixedLit] def fixedDist : List ℕ := List.replicate 32 5

/-- Tokens, and the symbol for their end. -/
def encodeTokens (lit dist : List ℕ) (ts : List Token) : List Bool :=
  ts.flatMap (Token.encode lit dist) ++ code lit 256

/-- A block. A stored one begins at a byte, behind bits that nobody reads. -/
inductive Block where
  | stored (pad : List Bool) (data : List UInt8)
  | fixed (ts : List Token)
  | dynamic (h : Header) (ts : List Token)
  deriving DecidableEq, Repr

namespace Block

/-- The two bits that say which kind a block is. -/
def type : Block → ℕ
  | stored _ _ => 0
  | fixed _ => 1
  | dynamic _ _ => 2

/-- The bits `before` are those of the block, and `after` them. -/
def Sends (before after : List Bool) : Block → Prop
  | stored pad data => before = pad ++ bits 16 data.length ++ bits 16 (2 ^ 16 - 1 - data.length)
      ++ stream data ++ after ∧ pad.length < 8 ∧ 8 ∣ after.length ∧ data.length < 2 ^ 16
  | fixed ts => before = encodeTokens fixedLit fixedDist ts ++ after
      ∧ ∀ t ∈ ts, t.Valid fixedLit fixedDist
  | dynamic h ts => ∃ ls, h.Valid ls
      ∧ before = h.encode ++ encodeTokens (ls.take h.hlit) (ls.drop h.hlit) ts ++ after
      ∧ ∀ t ∈ ts, t.Valid (ls.take h.hlit) (ls.drop h.hlit)

/-- What a block adds to the output. -/
def expand (out : List UInt8) : Block → Option (List UInt8)
  | stored _ data => some (out ++ data)
  | fixed ts => ts.foldlM Token.expand out
  | dynamic _ ts => ts.foldlM Token.expand out

end Block

/-- The bits `before` are those of a list of blocks, the last of which says that it is, and `after`
them. -/
inductive Sends : List Block → List Bool → List Bool → Prop where
  | last {b : Block} {mid after : List Bool} : b.Sends mid after →
      Sends [b] (bits 1 1 ++ bits 2 b.type ++ mid) after
  | more {b : Block} {bs : List Block} {mid mid' after : List Bool} : b.Sends mid mid' →
      Sends bs mid' after → Sends (b :: bs) (bits 1 0 ++ bits 2 b.type ++ mid) after

/-- What a list of blocks stands for. -/
def expand (bs : List Block) : Option (List UInt8) := bs.foldlM Block.expand []

/-! ### Output only grows -/

variable {out out' : List UInt8}

/-- A token only adds to the output. -/
lemma Token.length_le_expand {t : Token} (h : t.expand out = some out') :
    out.length ≤ out'.length := by
  cases t with
  | literal b =>
    obtain rfl := Option.some.inj h
    rw [List.length_append]
    exact Nat.le_add_right _ _
  | copy l x d y =>
    rw [expand] at h
    split_ifs at h
    obtain rfl := Option.some.inj h
    rw [length_copyBack]
    exact Nat.le_add_right _ _

namespace LengthToken

variable {ls ls' : List ℕ} {t : LengthToken} {r : ℕ × ℕ}

/-- A token stands for one length at least, and for none that is too large. -/
lemma run_spec (h : t.run ls = some r) (hls : ∀ l ∈ ls, l < 16) (hlen : ∀ n, t = len n → n < 16) :
    0 < r.2 ∧ r.1 < 16 := by
  cases t with
  | len n =>
    obtain rfl := Option.some.inj h
    exact ⟨Nat.one_pos, hlen n rfl⟩
  | again x =>
    obtain ⟨n, hn, rfl⟩ := Option.map_eq_some_iff.mp h
    exact ⟨Nat.add_pos_left (by norm_num) x, hls n (List.mem_of_getLast? hn)⟩
  | zeros x =>
    obtain rfl := Option.some.inj h
    exact ⟨Nat.add_pos_left (by norm_num) x, by norm_num⟩
  | manyZeros x =>
    obtain rfl := Option.some.inj h
    exact ⟨Nat.add_pos_left (by norm_num) x, by norm_num⟩

/-- A token of the code lengths only adds to them. -/
lemma length_le_expand (h : t.expand ls = some ls') : ls.length ≤ ls'.length := by
  obtain ⟨r, -, rfl⟩ := Option.map_eq_some_iff.mp h
  rw [List.length_append]
  exact Nat.le_add_right _ _

/-- So do tokens one behind the other. -/
lemma length_le_foldlM {ts : List LengthToken}
    (h : ts.foldlM expand ls = some ls') : ls.length ≤ ls'.length := by
  induction ts generalizing ls with
  | nil =>
    obtain rfl : ls = ls' := Option.some.inj h
    exact le_rfl
  | cons t ts ih =>
    rw [List.foldlM_cons, Option.bind_eq_bind, Option.bind_eq_some_iff] at h
    obtain ⟨mid, ht, h⟩ := h
    exact (length_le_expand ht).trans (ih h)

end LengthToken

/-- Tokens one behind the other only add to the output. -/
lemma length_le_foldlM {ts : List Token} (h : ts.foldlM Token.expand out = some out') :
    out.length ≤ out'.length := by
  induction ts generalizing out with
  | nil =>
    obtain rfl : out = out' := Option.some.inj h
    exact le_rfl
  | cons t ts ih =>
    rw [List.foldlM_cons, Option.bind_eq_bind, Option.bind_eq_some_iff] at h
    obtain ⟨mid, ht, h⟩ := h
    exact (Token.length_le_expand ht).trans (ih h)

/-- A block only adds to the output. -/
lemma Block.length_le_expand {b : Block} (h : b.expand out = some out') :
    out.length ≤ out'.length := by
  cases b with
  | stored pad data =>
    obtain rfl := Option.some.inj h
    rw [List.length_append]
    exact Nat.le_add_right _ _
  | fixed ts => exact length_le_foldlM h
  | dynamic h' ts => exact length_le_foldlM h

/-- So do blocks one behind the other. -/
lemma Block.length_le_foldlM {bs : List Block} (h : bs.foldlM expand out = some out') :
    out.length ≤ out'.length := by
  induction bs generalizing out with
  | nil =>
    obtain rfl : out = out' := Option.some.inj h
    exact le_rfl
  | cons b bs ih =>
    rw [List.foldlM_cons, Option.bind_eq_bind, Option.bind_eq_some_iff] at h
    obtain ⟨mid, hb, h⟩ := h
    exact (length_le_expand hb).trans (ih h)

/-! ### Input only shrinks -/

variable {lit dist : List ℕ} {ts : List Token} {before after : List Bool}

lemma length_code (ls : List ℕ) (s : ℕ) : (code ls s).length = ls.getD s 0 := length_msb _ _

/-- A token has one bit at least. -/
lemma Token.Valid.length_pos {t : Token} (h : t.Valid lit dist) :
    0 < (t.encode lit dist).length := by
  cases t with
  | literal b =>
    rw [encode, length_code]
    exact Nat.pos_of_ne_zero h.2
  | copy l x d y =>
    rw [encode, List.length_append, List.length_append, length_code, Nat.add_assoc]
    exact Nat.add_pos_left (Nat.pos_of_ne_zero h.1.2) _

/-- There are no more tokens than bits. -/
lemma length_le_encodeTokens (h : ∀ t ∈ ts, t.Valid lit dist) :
    ts.length ≤ (encodeTokens lit dist ts).length := by
  rw [encodeTokens, List.length_append]
  refine le_trans ?_ (Nat.le_add_right _ _)
  induction ts with
  | nil => exact le_rfl
  | cons t ts ih =>
    have hpos := (h t List.mem_cons_self).length_pos
    have hrest := ih fun u hu => h u (List.mem_cons_of_mem t hu)
    rw [List.flatMap_cons, List.length_append, List.length_cons]
    omega

/-- A block takes bits, and gives none back. -/
lemma Block.Sends.length_le {b : Block} (h : b.Sends before after) :
    after.length ≤ before.length := by
  cases b with
  | stored pad data =>
    rw [h.1, List.length_append]
    exact Nat.le_add_left _ _
  | fixed ts =>
    rw [h.1, List.length_append]
    exact Nat.le_add_left _ _
  | dynamic h' ts =>
    obtain ⟨ls, -, rfl, -⟩ := h
    rw [List.length_append]
    exact Nat.le_add_left _ _

end Deflate
