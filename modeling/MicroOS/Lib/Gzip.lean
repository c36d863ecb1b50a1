import MicroOS.Lib.ByteImage
import MicroOS.Lib.Deflate

/-!
The two formats that wrap deflated data.

* `Gzip.Header`: the header with its optional fields, `Header.encode` are its bytes; `Gzip.File` is
  a header, deflated data, and a checksum and the length of what they stand for.
* `Zlib.File`: two bytes, deflated data, and a checksum.

Both checksums are parameters.
-/

open ByteImage BitStream

namespace Deflate

/-- The bytes `body` begin with deflated data that stand for `out`. -/
def Holds (body out : List UInt8) : Prop :=
  ∃ bs rest, Sends bs (stream body) rest ∧ expand bs = some out

end Deflate

namespace Gzip

/-- What a header says; a field that the flags leave out has no bytes. -/
structure Header where
  flags : UInt8
  other : List UInt8
  extra : List UInt8
  name : List UInt8
  comment : List UInt8
  deriving DecidableEq, Repr

namespace Header

/-- The header may be written. -/
structure Valid (h : Header) : Prop where
  flags : h.flags &&& 0xE0 = 0
  other : h.other.length = 6
  extra : h.extra.length < 2 ^ 16
  name : 0 ∉ h.name
  comment : 0 ∉ h.comment

/-- The bytes of the header before its own checksum. -/
def fields (h : Header) : List UInt8 :=
  [0x1F, 0x8B, 8, h.flags] ++ h.other
    ++ (if h.flags &&& 4 ≠ 0 then leBytes 2 h.extra.length ++ h.extra else [])
    ++ (if h.flags &&& 8 ≠ 0 then h.name ++ [0] else [])
    ++ if h.flags &&& 16 ≠ 0 then h.comment ++ [0] else []

/-- The bytes of the header; its checksum are two bytes of `crc`. -/
def encode (crc : List UInt8 → ℕ) (h : Header) : List UInt8 :=
  h.fields ++ if h.flags &&& 2 ≠ 0 then leBytes 2 (crc h.fields) else []

end Header

/-- The bytes of a file that stands for `out`. -/
def File (crc : List UInt8 → ℕ) (file out : List UInt8) : Prop :=
  ∃ (h : Header) (body : List UInt8), h.Valid ∧ Deflate.Holds body out ∧ out.length < 2 ^ 32
    ∧ file = h.encode crc ++ body ++ leBytes 4 (crc out) ++ leBytes 4 out.length

end Gzip

namespace Zlib

/-- The two bytes in front: a method, a size of the window, and no dictionary. -/
structure Head (cmf flg : UInt8) : Prop where
  check : (256 * cmf.toNat + flg.toNat) % 31 = 0
  method : cmf &&& 0x0F = 8
  window : cmf >>> 4 ≤ 7
  dictionary : flg &&& 0x20 = 0

/-- The bytes of a file that stands for `out`. -/
def File (adler : List UInt8 → ℕ) (file out : List UInt8) : Prop :=
  ∃ (cmf flg : UInt8) (body : List UInt8), Head cmf flg ∧ Deflate.Holds body out
    ∧ file = [cmf, flg] ++ body ++ (leBytes 4 (adler out)).reverse

end Zlib
