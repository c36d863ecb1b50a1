import MicroOS.Lib.Fields
import MicroOS.Lib.Gzip
import MicroOS.User.Checksum
import MicroOS.User.TinfUncompress

/-!
The formats around the deflated data, `tinf_gzip_uncompress` and `tinf_zlib_uncompress`.

* `tinfGzipExtra_accepts`, `tinfSkipString_accepts`, `tinfGzipHcrc_accepts`: the optional fields of
  a header, one by one.
* `tinfGzipUncompress_ok_iff`, `tinfZlibUncompress_ok_iff`: **what is accepted is the format, with
  checksums that are right.**
* `tinfGzipUncompress_returned`, `tinfZlibUncompress_returned`: on every input the functions return,
  and nothing is read outside of the source.
-/

namespace MicroOS

/-- `read_le32`. -/
def tinfReadLe32 (p : List UInt8) : Except TinfStop ℕ := do
  let b₀ ← tinfGet p 0
  let b₁ ← tinfGet p 1
  let b₂ ← tinfGet p 2
  let b₃ ← tinfGet p 3
  return b₀.toNat ||| (b₁.toNat <<< 8) ||| (b₂.toNat <<< 16) ||| (b₃.toNat <<< 24)

/-- `read_be32`. -/
def tinfReadBe32 (p : List UInt8) : Except TinfStop ℕ := do
  let b₀ ← tinfGet p 0
  let b₁ ← tinfGet p 1
  let b₂ ← tinfGet p 2
  let b₃ ← tinfGet p 3
  return (b₀.toNat <<< 24) ||| (b₁.toNat <<< 16) ||| (b₂.toNat <<< 8) ||| b₃.toNat

/-- `FEXTRA`. -/
def tinfGzipExtra (source : List UInt8) (start : ℕ) : Except TinfStop ℕ := do
  let xlen ← tinfReadLe16 (source.drop start)
  if xlen > source.length - 12 then .error .dataError else return start + (xlen + 2)

/-- `FNAME` and `FCOMMENT`: the loop to the end of a string. -/
def tinfSkipString (source : List UInt8) : ℕ → ℕ → Except TinfStop ℕ
  | 0, _ => .error .loops
  | n + 1, start =>
    if start ≥ source.length then .error .dataError
    else do
      let c ← tinfGet source start
      if c ≠ 0 then tinfSkipString source n (start + 1) else return start + 1

/-- `FHCRC`. -/
def tinfGzipHcrc (source : List UInt8) (start : ℕ) : Except TinfStop ℕ :=
  if start > source.length - 2 then .error .dataError
  else do
    let hcrc ← tinfReadLe16 (source.drop start)
    if hcrc ≠ (tinfCrc32 (source.take start)).toNat &&& 0x0000FFFF then .error .dataError
    else return start + 2

/-- The first part of `tinf_gzip_uncompress`, up to the start of the deflated data. -/
def tinfGzipStart (source : List UInt8) : Except TinfStop ℕ :=
  if source.length < 18 then .error .dataError
  else do
    let id₁ ← tinfGet source 0
    let id₂ ← tinfGet source 1
    if id₁ ≠ 0x1F ∨ id₂ ≠ 0x8B then .error .dataError
    else
      let method ← tinfGet source 2
      if method ≠ 8 then .error .dataError
      else
        let flg ← tinfGet source 3
        if flg &&& 0xE0 ≠ 0 then .error .dataError
        else
          let start ← (if flg &&& 4 ≠ 0 then tinfGzipExtra source 10 else .ok 10)
          let start ← (if flg &&& 8 ≠ 0 then tinfSkipString source (source.length + 1) start
            else .ok start)
          let start ← (if flg &&& 16 ≠ 0 then tinfSkipString source (source.length + 1) start
            else .ok start)
          if flg &&& 2 ≠ 0 then tinfGzipHcrc source start else .ok start

/-- `if (res != TINF_OK) return TINF_DATA_ERROR`. -/
def tinfResult (res : Except TinfStop (List UInt8)) : Except TinfStop (List UInt8) :=
  if res = .error .bufError then .error .dataError else res

/-- `tinf_gzip_uncompress`. -/
def tinfGzipUncompress (init : TinfScratch) (destLen : ℕ) (source : List UInt8) :
    Except TinfStop (List UInt8) := do
  let start ← tinfGzipStart source
  let dlen ← tinfReadLe32 (source.drop (source.length - 4))
  if dlen > destLen then .error .bufError
  else
    let crc ← tinfReadLe32 (source.drop (source.length - 8))
    if source.length - start < 8 then .error .dataError
    else
      let dst ← tinfResult (tinfUncompress init destLen
        ((source.drop start).take (source.length - start - 8)))
      if dst.length ≠ dlen then .error .dataError
      else if crc ≠ (tinfCrc32 (dst.take dlen)).toNat then .error .dataError
      else return dst

/-- The part of `tinf_zlib_uncompress` behind the checks of the header. -/
def tinfZlibBody (init : TinfScratch) (destLen : ℕ) (source : List UInt8) :
    Except TinfStop (List UInt8) := do
  let a32 ← tinfReadBe32 (source.drop (source.length - 4))
  let dst ← tinfResult (tinfUncompress init destLen ((source.drop 2).take (source.length - 6)))
  let sum ← tinfAdler32 dst
  if a32 ≠ sum then .error .dataError else return dst

/-- `tinf_zlib_uncompress`. -/
def tinfZlibUncompress (init : TinfScratch) (destLen : ℕ) (source : List UInt8) :
    Except TinfStop (List UInt8) :=
  if source.length < 6 then .error .dataError
  else do
    let cmf ← tinfGet source 0
    let flg ← tinfGet source 1
    if (256 * cmf.toNat + flg.toNat) % 31 ≠ 0 then .error .dataError
    else if cmf &&& 0x0F ≠ 8 then .error .dataError
    else if cmf >>> 4 > 7 then .error .dataError
    else if flg &&& 0x20 ≠ 0 then .error .dataError
    else tinfZlibBody init destLen source

open BitStream ByteImage Checked Deflate Fields

variable {pre rest x y : List UInt8} {n : ℕ}

/-! ### Reading -/

lemma or_shiftLeft {a k : ℕ} (h : a < 2 ^ k) (b : ℕ) : a ||| b <<< k = a + 2 ^ k * b := by
  rw [Nat.shiftLeft_eq, Nat.mul_comm b, Nat.or_comm, ← Nat.two_pow_add_eq_or_of_lt h, Nat.add_comm]

/-- Two bytes are read as their number. -/
lemma tinfReadLe16_leNumber (hx : x.length = 2) (y : List UInt8) :
    tinfReadLe16 (x ++ y) = .ok (leNumber x) := by
  obtain ⟨b, c, rfl⟩ := List.length_eq_two.mp hx
  exact tinfReadLe16_eq b c y

/-- So are four. -/
lemma tinfReadLe32_leNumber (hx : x.length = 4) (y : List UInt8) :
    tinfReadLe32 (x ++ y) = .ok (leNumber x) := by
  rcases x with _ | ⟨b₀, _ | ⟨b₁, _ | ⟨b₂, _ | ⟨b₃, _ | ⟨b₄, x⟩⟩⟩⟩⟩ <;> simp at hx
  have h₀ : b₀.toNat < 2 ^ 8 := b₀.toNat_lt
  have h₁ : b₁.toNat < 2 ^ 8 := b₁.toNat_lt
  have h₂ : b₂.toNat < 2 ^ 8 := b₂.toNat_lt
  have hread : tinfReadLe32 ([b₀, b₁, b₂, b₃] ++ y)
      = .ok (b₀.toNat ||| b₁.toNat <<< 8 ||| b₂.toNat <<< 16 ||| b₃.toNat <<< 24) := rfl
  rw [hread, or_shiftLeft h₀, or_shiftLeft (by omega : b₀.toNat + 2 ^ 8 * b₁.toNat < 2 ^ 16),
    or_shiftLeft (by omega : b₀.toNat + 2 ^ 8 * b₁.toNat + 2 ^ 16 * b₂.toNat < 2 ^ 24)]
  congr 1
  simp only [leNumber]
  ring

/-- The other order of bytes. -/
lemma tinfReadBe32_eq (p : List UInt8) (hp : p.length = 4) :
    tinfReadBe32 p = tinfReadLe32 p.reverse := by
  rcases p with _ | ⟨b₀, _ | ⟨b₁, _ | ⟨b₂, _ | ⟨b₃, _ | ⟨b₄, p⟩⟩⟩⟩⟩ <;> simp at hp
  have hor (a b c d : ℕ) : a ||| b ||| c ||| d = d ||| c ||| b ||| a := by
    rw [Nat.or_comm _ d, Nat.or_comm _ c, Nat.or_comm a b, ← Nat.or_assoc, ← Nat.or_assoc]
  exact congrArg Except.ok (hor _ _ _ _)

/-! ### The fields of a header -/

/-- The extra data, behind their length. -/
def GzipExtra (x : List UInt8) : Prop :=
  ∃ e : List UInt8, e.length < 2 ^ 16 ∧ x = leBytes 2 e.length ++ e

/-- A string, up to its terminator. -/
def GzipString (x : List UInt8) : Prop := ∃ s : List UInt8, 0 ∉ s ∧ x = s ++ [0]

/-- **`FEXTRA`.** -/
lemma tinfGzipExtra_accepts (hpre : pre.length = 10) (hrest : 2 ≤ rest.length) :
    Accepts .dataError GzipExtra pre rest (tinfGzipExtra (pre ++ rest) 10) := by
  have htwo : (rest.take 2).length = 2 := by rw [List.length_take]; omega
  have hdrop : (pre ++ rest).drop 10 = rest.take 2 ++ rest.drop 2 := by
    rw [List.take_append_drop, ← hpre, List.drop_left]
  have hread : tinfGzipExtra (pre ++ rest) 10
      = if leNumber (rest.take 2) > (pre ++ rest).length - 12 then .error .dataError
        else .ok (10 + (leNumber (rest.take 2) + 2)) := by
    rw [tinfGzipExtra, hdrop, tinfReadLe16_leNumber htwo, ok_bind]
    rfl
  have hlen : (pre ++ rest).length = 12 + (rest.drop 2).length := by
    rw [List.length_append, List.length_drop, hpre]
    omega
  rw [hread]
  constructor
  · rintro x y hxy ⟨e, he, rfl⟩
    have htake : rest.take 2 = leBytes 2 e.length := by
      rw [← hxy, List.append_assoc]
      exact List.take_left' (length_leBytes 2 _)
    have hfits : e.length ≤ (rest.drop 2).length := by
      rw [← hxy, List.append_assoc, List.drop_left' (length_leBytes 2 _), List.length_append]
      exact Nat.le_add_right _ _
    rw [htake, leNumber_leBytes, Nat.mod_eq_of_lt (by omega), if_neg (by omega)]
    congr 1
    rw [List.length_append, List.length_append, length_leBytes, hpre]
    omega
  · intro hnone
    by_cases hlong : leNumber (rest.take 2) > (pre ++ rest).length - 12
    · rw [if_pos hlong]
    · have hlt : leNumber (rest.take 2) < 2 ^ 16 :=
        (leNumber_lt (rest.take 2)).trans_eq (by rw [htwo]; norm_num)
      obtain ⟨e, z, hsplit, he⟩ : ∃ e z, e ++ z = rest.drop 2 ∧ e.length = leNumber (rest.take 2) :=
        ⟨_, _, List.take_append_drop (leNumber (rest.take 2)) (rest.drop 2), by
          rw [List.length_take]; omega⟩
      have hhead : rest.take 2 = leBytes 2 e.length :=
        eq_leBytes_iff.mpr ⟨htwo, by rw [he]; exact (Nat.mod_eq_of_lt hlt).symm⟩
      refine absurd ⟨e, by omega, rfl⟩ (hnone (leBytes 2 e.length ++ e) z ?_)
      rw [← hhead, List.append_assoc, hsplit, List.take_append_drop]

/-- **`FNAME` and `FCOMMENT`**, by induction on what is left of the source. -/
lemma tinfSkipString_accepts (hn : rest.length < n) :
    Accepts .dataError GzipString pre rest (tinfSkipString (pre ++ rest) n pre.length) := by
  induction rest generalizing pre n with
  | nil =>
    obtain ⟨n, rfl⟩ : ∃ n', n = n' + 1 := ⟨n - 1, by omega⟩
    rw [tinfSkipString, List.append_nil, if_pos le_rfl]
    refine ⟨?_, fun _ => rfl⟩
    rintro x y hxy ⟨s, -, rfl⟩
    exact absurd hxy (by simp)
  | cons c rest ih =>
    rw [List.length_cons] at hn
    obtain ⟨n, rfl⟩ : ∃ n', n = n' + 1 := ⟨n - 1, by omega⟩
    have hget : tinfGet (pre ++ c :: rest) pre.length = .ok c := by
      rw [tinfGet, List.getElem?_append_right le_rfl, Nat.sub_self]
      rfl
    rw [tinfSkipString, if_neg (by simp), hget, ok_bind]
    by_cases hc : c = 0
    · rw [if_neg (not_not.mpr hc)]
      constructor
      · rintro x y hxy ⟨s, hs, rfl⟩
        cases s with
        | nil => rw [List.nil_append, List.length_append, List.length_singleton]; rfl
        | cons d s =>
          obtain ⟨rfl, -⟩ := List.cons.inj hxy
          exact absurd (hc ▸ List.mem_cons_self) hs
      · intro hnone
        exact absurd ⟨[], List.not_mem_nil, by rw [hc]; rfl⟩ (hnone [c] rest rfl)
    · have hlt : rest.length < n := by omega
      have hnext : Accepts TinfStop.dataError GzipString (pre ++ [c]) rest _ := ih hlt
      rw [List.append_assoc, List.singleton_append, List.length_append, List.length_singleton]
        at hnext
      rw [if_pos hc]
      constructor
      · rintro x y hxy ⟨s, hs, rfl⟩
        cases s with
        | nil => exact absurd (List.cons.inj hxy).1.symm hc
        | cons d s =>
          have hxy : s ++ [0] ++ y = rest := (List.cons.inj hxy).2
          rw [hnext.ok (s ++ [0]) y hxy ⟨s, fun h => hs (List.mem_cons_of_mem d h), rfl⟩]
          congr 1
          simp only [List.length_append, List.length_cons, List.length_nil]
          omega
      · intro hnone
        refine hnext.error ?_
        rintro x y hxy ⟨s, hs, rfl⟩
        refine hnone (c :: (s ++ [0])) y (congrArg (c :: ·) hxy) ⟨c :: s, ?_, rfl⟩
        exact List.not_mem_cons_of_ne_of_not_mem (Ne.symm hc) hs

/-- The checksum of what is in front of it. -/
def GzipHcrc (pre x : List UInt8) : Prop := x = leBytes 2 (crcSpec pre).toNat

/-- **`FHCRC`.** -/
lemma tinfGzipHcrc_accepts (hlen : 2 ≤ (pre ++ rest).length) :
    Accepts .dataError (GzipHcrc pre) pre rest (tinfGzipHcrc (pre ++ rest) pre.length) := by
  rw [tinfGzipHcrc]
  by_cases hshort : pre.length > (pre ++ rest).length - 2
  · rw [if_pos hshort]
    refine ⟨?_, fun _ => rfl⟩
    rintro x y rfl rfl
    simp only [List.length_append, length_leBytes] at hshort
    omega
  · have htwo : (rest.take 2).length = 2 := by
      rw [List.length_append] at hshort hlen
      rw [List.length_take]
      omega
    have hdrop : (pre ++ rest).drop pre.length = rest.take 2 ++ rest.drop 2 := by
      rw [List.take_append_drop, List.drop_left]
    have hmask : (crcSpec pre).toNat &&& 0x0000FFFF = (crcSpec pre).toNat % 2 ^ 16 :=
      Nat.and_two_pow_sub_one_eq_mod _ 16
    rw [if_neg hshort, hdrop, tinfReadLe16_leNumber htwo, ok_bind, List.take_left, tinfCrc32_eq,
      hmask]
    constructor
    · rintro x y rfl rfl
      rw [List.take_left' (length_leBytes 2 _), leNumber_leBytes, if_neg (by norm_num),
        List.length_append, length_leBytes]
      rfl
    · intro hnone
      by_cases hsum : leNumber (rest.take 2) ≠ (crcSpec pre).toNat % 2 ^ 16
      · rw [if_pos hsum]
      · exact absurd (eq_leBytes_iff.mpr ⟨htwo, not_not.mp hsum⟩)
          (hnone (rest.take 2) (rest.drop 2) (List.take_append_drop 2 rest))

/-! ### The header -/

/-- The checksum of the files. -/
def gzipCrc (x : List UInt8) : ℕ := (crcSpec x).toNat

/-- The fields behind the first ten bytes. -/
def GzipFields (pre : List UInt8) (flg : UInt8) : List UInt8 → Prop :=
  Both (Optional (flg &&& 4 ≠ 0) GzipExtra) fun x =>
    Both (Optional (flg &&& 8 ≠ 0) GzipString) fun y =>
      Both (Optional (flg &&& 16 ≠ 0) GzipString) fun z =>
        Optional (flg &&& 2 ≠ 0) (GzipHcrc (pre ++ x ++ y ++ z))

/-- **The fields are those of a header.** -/
lemma gzipFields_iff {flg : UInt8} {other w : List UInt8} (hother : other.length = 6)
    (hflg : flg &&& 0xE0 = 0) :
    GzipFields ([0x1F, 0x8B, 8, flg] ++ other) flg w
      ↔ ∃ h : Gzip.Header, h.Valid ∧ h.flags = flg ∧ h.other = other
        ∧ [0x1F, 0x8B, 8, flg] ++ other ++ w = h.encode gzipCrc := by
  have hextra {x : List UInt8} : Optional (flg &&& 4 ≠ 0) GzipExtra x ↔ _ :=
    optional_iff ⟨[], by norm_num⟩
  have hstring {b : Prop} [Decidable b] {x : List UInt8} : Optional b GzipString x ↔ _ :=
    optional_iff ⟨[], List.not_mem_nil⟩
  constructor
  · rintro ⟨x, -, rfl, hx, y, -, rfl, hy, z, u, rfl, hz, hu⟩
    obtain ⟨e, he, rfl⟩ := hextra.mp hx
    obtain ⟨s, hs, rfl⟩ := hstring.mp hy
    obtain ⟨t, ht, rfl⟩ := hstring.mp hz
    refine ⟨⟨flg, other, e, s, t⟩, ⟨hflg, hother, he, hs, ht⟩, rfl, rfl, ?_⟩
    rw [Gzip.Header.encode, Gzip.Header.fields, gzipCrc]
    dsimp only
    by_cases h2 : flg &&& 2 ≠ 0
    · rw [if_pos h2, hu.1 h2]
      simp only [List.append_assoc]
    · rw [if_neg h2, hu.2 h2]
      simp only [List.append_assoc]
  · rintro ⟨⟨flg', other', e, s, t⟩, ⟨-, -, he, hs, ht⟩, hflg', hother', hw⟩
    obtain rfl : flg' = flg := hflg'
    obtain rfl : other' = other := hother'
    dsimp only at *
    rw [Gzip.Header.encode, Gzip.Header.fields] at hw
    dsimp only at hw
    simp only [List.append_assoc] at hw
    have hhcrc (p : List UInt8) : Optional (flg' &&& 2 ≠ 0) (GzipHcrc p)
        (if flg' &&& 2 ≠ 0 then leBytes 2 (crcSpec p).toNat else []) :=
      ⟨fun h2 => if_pos h2, fun h2 => if_neg h2⟩
    refine ⟨_, _, ?_, hextra.mpr ⟨e, he, rfl⟩, _, _, rfl, hstring.mpr ⟨s, hs, rfl⟩, _, _, rfl,
      hstring.mpr ⟨t, ht, rfl⟩, hhcrc _⟩
    simp only [List.append_assoc]
    exact List.append_cancel_left (List.append_cancel_left hw)

/-- **The header is read field by field.** -/
lemma tinfGzipStart_accepts {flg : UInt8} {other : List UInt8} (hother : other.length = 6)
    (hflg : flg &&& 0xE0 = 0) (hlen : 8 ≤ rest.length) :
    Accepts .dataError (GzipFields ([0x1F, 0x8B, 8, flg] ++ other) flg)
      ([0x1F, 0x8B, 8, flg] ++ other) rest
      (tinfGzipStart ([0x1F, 0x8B, 8, flg] ++ other ++ rest)) := by
  set pre := [0x1F, 0x8B, 8, flg] ++ other with hpredef
  have hpre : pre.length = 10 := by rw [hpredef, List.length_append, hother]; rfl
  have hsource : ¬(pre ++ rest).length < 18 := by rw [List.length_append]; omega
  have h₀ : tinfGet (pre ++ rest) 0 = .ok 0x1F := rfl
  have h₁ : tinfGet (pre ++ rest) 1 = .ok 0x8B := rfl
  have h₂ : tinfGet (pre ++ rest) 2 = .ok 8 := rfl
  have h₃ : tinfGet (pre ++ rest) 3 = .ok flg := rfl
  rw [tinfGzipStart, if_neg hsource, h₀, ok_bind, h₁, ok_bind, if_neg (by decide), h₂, ok_bind,
    if_neg (by decide), h₃, ok_bind, if_neg (by rw [hflg]; decide)]
  have hextra : Accepts .dataError (Optional (flg &&& 4 ≠ 0) GzipExtra) pre rest
      (if flg &&& 4 ≠ 0 then tinfGzipExtra (pre ++ rest) 10 else .ok 10) := by
    rw [← hpre]
    exact .optional fun _ => hpre.symm ▸ tinfGzipExtra_accepts hpre (by omega)
  refine hextra.both fun x y hxy _ => ?_
  have hskip {pre' rest' : List UInt8} (h : pre' ++ rest' = pre ++ rest) :
      Accepts .dataError GzipString pre' rest'
        (tinfSkipString (pre ++ rest) ((pre ++ rest).length + 1) pre'.length) := by
    rw [← h]
    exact tinfSkipString_accepts (by rw [List.length_append]; omega)
  have hsource₁ : pre ++ x ++ y = pre ++ rest := by rw [List.append_assoc, hxy]
  refine (Accepts.optional fun _ => hskip hsource₁).both fun x' y' hxy' _ => ?_
  have hsource₂ : pre ++ x ++ x' ++ y' = pre ++ rest := by
    rw [List.append_assoc (pre ++ x), hxy', hsource₁]
  refine (Accepts.optional fun _ => hskip hsource₂).both fun x'' y'' hxy'' _ => ?_
  have hsource₃ : pre ++ x ++ x' ++ x'' ++ y'' = pre ++ rest := by
    rw [List.append_assoc (pre ++ x ++ x'), hxy'', hsource₂]
  refine .optional fun _ => ?_
  rw [← hsource₃]
  exact tinfGzipHcrc_accepts (by rw [hsource₃, List.length_append]; omega)

/-- A header is accepted. -/
lemma tinfGzipStart_encode {h : Gzip.Header} (hvalid : h.Valid)
    (hlen : 18 ≤ (h.encode gzipCrc ++ y).length) :
    tinfGzipStart (h.encode gzipCrc ++ y) = .ok (h.encode gzipCrc).length := by
  obtain ⟨w, hw⟩ : ∃ w, h.encode gzipCrc = [0x1F, 0x8B, 8, h.flags] ++ h.other ++ w := by
    rw [Gzip.Header.encode, Gzip.Header.fields]
    simp only [List.append_assoc]
    exact ⟨_, rfl⟩
  have hfields := (gzipFields_iff hvalid.other hvalid.flags).mpr ⟨h, hvalid, rfl, rfl, hw.symm⟩
  rw [hw, List.append_assoc _ w] at hlen ⊢
  rw [List.length_append, List.length_append, hvalid.other] at hlen
  change 18 ≤ 4 + 6 + _ at hlen
  exact (tinfGzipStart_accepts hvalid.other hvalid.flags (by omega)).ok w y rfl hfields

/-- **What is accepted is a header.** -/
lemma tinfGzipStart_cases (source : List UInt8) :
    tinfGzipStart source = .error .dataError
      ∨ ∃ (h : Gzip.Header) (y : List UInt8), h.Valid ∧ h.encode gzipCrc ++ y = source
        ∧ 18 ≤ source.length ∧ tinfGzipStart source = .ok (h.encode gzipCrc).length := by
  by_cases hshort : source.length < 18
  · rw [tinfGzipStart, if_pos hshort]
    exact .inl rfl
  rcases source with _ | ⟨b₀, _ | ⟨b₁, _ | ⟨b₂, _ | ⟨b₃, x⟩⟩⟩⟩
  iterate 4 exact absurd (by simp) hshort
  by_cases hid : b₀ ≠ 0x1F ∨ b₁ ≠ 0x8B
  · rw [tinfGzipStart, if_neg hshort]
    exact .inl (if_pos hid)
  by_cases hmethod : b₂ ≠ 8
  · rw [tinfGzipStart, if_neg hshort]
    exact .inl ((if_neg hid).trans (if_pos hmethod))
  by_cases hflg : b₃ &&& 0xE0 ≠ 0
  · rw [tinfGzipStart, if_neg hshort]
    exact .inl ((if_neg hid).trans ((if_neg hmethod).trans (if_pos hflg)))
  push Not at hid hmethod hflg
  obtain ⟨rfl, rfl⟩ := hid
  obtain rfl := hmethod
  have hsplit : (0x1F : UInt8) :: 0x8B :: 8 :: b₃ :: x
      = [0x1F, 0x8B, 8, b₃] ++ x.take 6 ++ x.drop 6 := by
    rw [List.append_assoc, List.take_append_drop]
    rfl
  rw [List.length_cons, List.length_cons, List.length_cons, List.length_cons] at hshort
  have hother : (x.take 6).length = 6 := by rw [List.length_take]; omega
  have hdrop : 8 ≤ (x.drop 6).length := by rw [List.length_drop]; omega
  have haccepts := tinfGzipStart_accepts hother hflg hdrop
  rw [hsplit]
  rcases haccepts.cases with herr | ⟨w, y, hwy, hfields, hok⟩
  · exact .inl herr
  · obtain ⟨h, hvalid, -, -, hencode⟩ := (gzipFields_iff hother hflg).mp hfields
    rw [hencode] at hok
    refine .inr ⟨h, y, hvalid, ?_, ?_, hok⟩
    · rw [← hencode, List.append_assoc, hwy]
    · rw [← hsplit]
      simp only [List.length_cons]
      omega

/-! ### The functions -/

variable (init : TinfScratch) (destLen : ℕ) {source out : List UInt8}

/-- The decompressor is called, which has one error only. -/
lemma tinfResult_cases (body : List UInt8) :
    tinfResult (tinfUncompress init destLen body) = .error .dataError
      ∨ ∃ out, tinfResult (tinfUncompress init destLen body) = .ok out ∧ Holds body out
        ∧ out.length ≤ destLen := by
  rcases tinfUncompress_cases init destLen body with ⟨e, herr, rfl | rfl⟩ | h
  · rw [herr]
    exact .inl rfl
  · rw [herr]
    exact .inl rfl
  · obtain ⟨bs, rest, out, heq, hsends, hexpand, hlen⟩ := h
    rw [heq]
    exact .inr ⟨out, rfl, ⟨bs, rest, hsends, hexpand⟩, hlen⟩

/-- **What the body holds is decompressed**, with room for it. -/
lemma tinfResult_accepts {body : List UInt8} (h : Holds body out)
    (hlen : out.length ≤ destLen) : tinfResult (tinfUncompress init destLen body) = .ok out := by
  obtain ⟨bs, rest, hsends, hexpand⟩ := h
  rw [tinfUncompress_accepts init destLen body hsends hexpand hlen]
  rfl

/-- The data are in front of two trailers of four bytes. -/
lemma exists_trailers (h : 8 ≤ y.length) :
    ∃ body a b : List UInt8, y = body ++ a ++ b ∧ a.length = 4 ∧ b.length = 4 := by
  refine ⟨y.take (y.length - 8), (y.drop (y.length - 8)).take 4, (y.drop (y.length - 8)).drop 4,
    ?_, ?_, ?_⟩
  · rw [List.append_assoc, List.take_append_drop, List.take_append_drop]
  · rw [List.length_take, List.length_drop]
    omega
  · rw [List.length_drop, List.length_drop]
    omega

/-- What `tinf_gzip_uncompress` does behind a header. -/
lemma tinfGzipUncompress_eq {head body a b : List UInt8} (ha : a.length = 4) (hb : b.length = 4)
    (hstart : tinfGzipStart (head ++ (body ++ a ++ b)) = .ok head.length) :
    tinfGzipUncompress init destLen (head ++ (body ++ a ++ b))
      = if leNumber b > destLen then .error .bufError
        else do
          let dst ← tinfResult (tinfUncompress init destLen body)
          if dst.length ≠ leNumber b then .error .dataError
          else if leNumber a ≠ gzipCrc (dst.take (leNumber b)) then .error .dataError
          else return dst := by
  have hlen : (head ++ (body ++ a ++ b)).length = head.length + body.length + 8 := by
    simp only [List.length_append, ha, hb]
    omega
  have hdropb : (head ++ (body ++ a ++ b)).drop (head.length + body.length + 8 - 4) = b ++ [] := by
    rw [← List.append_assoc, List.append_nil]
    exact List.drop_left' (by simp only [List.length_append, ha]; omega)
  have hdropa : (head ++ (body ++ a ++ b)).drop (head.length + body.length + 8 - 8) = a ++ b := by
    rw [List.append_assoc body, ← List.append_assoc head]
    exact List.drop_left' (by simp only [List.length_append]; omega)
  have hbody : ((head ++ (body ++ a ++ b)).drop head.length).take
      (head.length + body.length + 8 - head.length - 8) = body := by
    rw [List.drop_left, List.append_assoc]
    exact List.take_left' (by omega)
  have hroom : ¬head.length + body.length + 8 - head.length < 8 := by omega
  have hcrc (x : List UInt8) : (tinfCrc32 x).toNat = gzipCrc x :=
    congrArg BitVec.toNat (tinfCrc32_eq x)
  rw [tinfGzipUncompress, hstart, ok_bind, hlen, hdropb, tinfReadLe32_leNumber hb, ok_bind, hdropa,
    tinfReadLe32_leNumber ha, ok_bind, if_neg hroom, hbody]
  simp only [hcrc]

/-- **What `tinf_gzip_uncompress` accepts is a file.** -/
lemma tinfGzipUncompress_cases :
    (∃ e, tinfGzipUncompress init destLen source = .error e ∧ e.Returned)
      ∨ ∃ out, tinfGzipUncompress init destLen source = .ok out ∧ Gzip.File gzipCrc source out
        ∧ out.length ≤ destLen := by
  rcases tinfGzipStart_cases source with herr | ⟨h, y, hvalid, rfl, hlen, hstart⟩
  · rw [tinfGzipUncompress, herr]
    exact .inl ⟨_, rfl, .inl rfl⟩
  by_cases hshort : y.length < 8
  · -- no whole trailer: the last bytes are read as one all the same, and the length test fails
    have hread (k : ℕ) (hk : 4 ≤ k) (hk' : k ≤ 8) : ∃ v, tinfReadLe32
        ((h.encode gzipCrc ++ y).drop ((h.encode gzipCrc ++ y).length - k)) = .ok v := by
      set z := (h.encode gzipCrc ++ y).drop ((h.encode gzipCrc ++ y).length - k) with hz
      have hzlen : z.length = k := by rw [hz, List.length_drop]; omega
      refine ⟨leNumber (z.take 4), ?_⟩
      rw [← List.take_append_drop 4 z, tinfReadLe32_leNumber (by rw [List.length_take]; omega),
        List.take_append_drop]
    obtain ⟨dlen, hdlen⟩ := hread 4 le_rfl (by norm_num)
    obtain ⟨crc, hcrc⟩ := hread 8 (by norm_num) le_rfl
    rw [tinfGzipUncompress, hstart, ok_bind, hdlen, ok_bind]
    by_cases hover : dlen > destLen
    · rw [if_pos hover]
      exact .inl ⟨_, rfl, .inr rfl⟩
    · rw [if_neg hover, hcrc, ok_bind, if_pos (by rw [List.length_append]; omega)]
      exact .inl ⟨_, rfl, .inl rfl⟩
  obtain ⟨body, a, b, rfl, ha, hb⟩ := exists_trailers (Nat.not_lt.mp hshort)
  rw [tinfGzipUncompress_eq init destLen ha hb hstart]
  by_cases hover : leNumber b > destLen
  · rw [if_pos hover]
    exact .inl ⟨_, rfl, .inr rfl⟩
  rw [if_neg hover]
  rcases tinfResult_cases init destLen body with herr | ⟨out, hok, hholds, hout⟩
  · rw [herr]
    exact .inl ⟨_, rfl, .inl rfl⟩
  rw [hok, ok_bind]
  -- the trailer has the length and the checksum of what came out
  by_cases hdlen : out.length ≠ leNumber b
  · rw [if_pos hdlen]
    exact .inl ⟨_, rfl, .inl rfl⟩
  rw [if_neg hdlen]
  by_cases hsum : leNumber a ≠ gzipCrc (out.take (leNumber b))
  · rw [if_pos hsum]
    exact .inl ⟨_, rfl, .inl rfl⟩
  rw [if_neg hsum]
  rw [not_not] at hdlen hsum
  rw [← hdlen, List.take_length] at hsum
  have hblt := leNumber_lt b
  rw [hb, ← hdlen] at hblt
  have haeq : a = leBytes 4 (gzipCrc out) :=
    eq_leBytes_iff.mpr ⟨ha, by rw [hsum, Nat.mod_eq_of_lt (hsum ▸ ha ▸ leNumber_lt a)]⟩
  have hbeq : b = leBytes 4 out.length :=
    eq_leBytes_iff.mpr ⟨hb, by rw [← hdlen, Nat.mod_eq_of_lt hblt]⟩
  refine .inr ⟨out, rfl, ⟨h, body, hvalid, hholds, hblt.trans_eq (by norm_num), ?_⟩, hout⟩
  rw [← haeq, ← hbeq]
  simp only [List.append_assoc]

/-- **`tinf_gzip_uncompress` accepts the files**, with the checksums that they need, and nothing
else. -/
theorem tinfGzipUncompress_ok_iff :
    tinfGzipUncompress init destLen source = .ok out
      ↔ Gzip.File gzipCrc source out ∧ out.length ≤ destLen := by
  constructor
  · intro hok
    rcases tinfGzipUncompress_cases init destLen with ⟨e, herr, -⟩ | ⟨out', heq, hfile, hlen⟩
    · exact nomatch herr.symm.trans hok
    · obtain rfl := Except.ok.inj (heq.symm.trans hok)
      exact ⟨hfile, hlen⟩
  · rintro ⟨⟨h, body, hvalid, hholds, hsmall, rfl⟩, hlen⟩
    have ha := length_leBytes 4 (gzipCrc out)
    have hb := length_leBytes 4 out.length
    have hcrc : gzipCrc out < 256 ^ 4 := (crcSpec out).isLt.trans_eq (by norm_num)
    have hhead : 10 ≤ (h.encode gzipCrc).length := by
      rw [Gzip.Header.encode, Gzip.Header.fields]
      simp only [List.length_append, hvalid.other, List.length_cons]
      omega
    have hstart : tinfGzipStart (h.encode gzipCrc
        ++ (body ++ leBytes 4 (gzipCrc out) ++ leBytes 4 out.length))
        = .ok (h.encode gzipCrc).length :=
      tinfGzipStart_encode hvalid (by simp only [List.length_append, ha, hb]; omega)
    simp only [← List.append_assoc] at hstart ⊢
    have heq := tinfGzipUncompress_eq init destLen ha hb (by simpa only [← List.append_assoc])
    simp only [← List.append_assoc] at heq
    rw [heq, leNumber_leBytes, Nat.mod_eq_of_lt (hsmall.trans_eq (by norm_num)),
      if_neg (Nat.not_lt.mpr hlen), tinfResult_accepts init destLen hholds hlen, ok_bind,
      if_neg (not_not.mpr rfl), leNumber_leBytes, Nat.mod_eq_of_lt hcrc, List.take_length,
      if_neg (not_not.mpr rfl)]
    rfl

/-- **On every input `tinf_gzip_uncompress` returns.** -/
theorem tinfGzipUncompress_returned (source : List UInt8) :
    tinfGzipUncompress init destLen source = .error .dataError
      ∨ tinfGzipUncompress init destLen source = .error .bufError
      ∨ ∃ out, tinfGzipUncompress init destLen source = .ok out ∧ out.length ≤ destLen := by
  rcases tinfGzipUncompress_cases init destLen with ⟨e, herr, rfl | rfl⟩ | ⟨out, heq, -, hlen⟩
  · exact .inl herr
  · exact .inr (.inl herr)
  · exact .inr (.inr ⟨out, heq, hlen⟩)

/-! ### The other format -/

/-- A checksum has 32 bits. -/
lemma adlerSpec_lt (x : List UInt8) : adlerSpec x < 256 ^ 4 := by
  have h₁ : (Fletcher.rem 65521 (Fletcher.sums (1, 0) (adlerBytes x))).1 < 65521 :=
    Nat.mod_lt _ (by norm_num)
  have h₂ : (Fletcher.rem 65521 (Fletcher.sums (1, 0) (adlerBytes x))).2 < 65521 :=
    Nat.mod_lt _ (by norm_num)
  rw [adlerSpec]
  omega

/-- What `tinf_zlib_uncompress` does behind the two bytes. -/
lemma tinfZlibBody_eq {cmf flg : UInt8} {body a : List UInt8} (ha : a.length = 4) :
    tinfZlibBody init destLen ([cmf, flg] ++ (body ++ a)) = do
      let dst ← tinfResult (tinfUncompress init destLen body)
      let sum ← tinfAdler32 dst
      if leNumber a.reverse ≠ sum then .error .dataError else return dst := by
  have hlen : ([cmf, flg] ++ (body ++ a)).length = body.length + 6 := by
    simp only [List.length_append, List.length_cons, List.length_nil, ha]
    omega
  have hdrop : ([cmf, flg] ++ (body ++ a)).drop (body.length + 6 - 4) = a := by
    rw [← List.append_assoc]
    refine List.drop_left' ?_
    simp only [List.length_append, List.length_cons, List.length_nil]
    omega
  have hbody : (([cmf, flg] ++ (body ++ a)).drop 2).take (body.length + 6 - 6) = body := by
    rw [Nat.add_sub_cancel]
    exact List.take_left
  have hread := tinfReadLe32_leNumber (by rwa [List.length_reverse]) []
  rw [List.append_nil] at hread
  rw [tinfZlibBody, hlen, hdrop, tinfReadBe32_eq a ha, hread, ok_bind, hbody]

/-- **What `tinf_zlib_uncompress` accepts is a file.** -/
lemma tinfZlibUncompress_cases :
    (∃ e, tinfZlibUncompress init destLen source = .error e ∧ e.Returned)
      ∨ ∃ out, tinfZlibUncompress init destLen source = .ok out ∧ Zlib.File adlerSpec source out
        ∧ out.length ≤ destLen := by
  rw [tinfZlibUncompress]
  by_cases hshort : source.length < 6
  · rw [if_pos hshort]
    exact .inl ⟨_, rfl, .inl rfl⟩
  obtain ⟨cmf, flg, x, rfl⟩ : ∃ cmf flg x, source = [cmf, flg] ++ x := by
    rcases source with _ | ⟨cmf, _ | ⟨flg, x⟩⟩
    iterate 2 exact absurd (by simp) hshort
    exact ⟨cmf, flg, x, rfl⟩
  have h₀ : tinfGet ([cmf, flg] ++ x) 0 = .ok cmf := rfl
  have h₁ : tinfGet ([cmf, flg] ++ x) 1 = .ok flg := rfl
  rw [if_neg hshort, h₀, ok_bind, h₁, ok_bind]
  by_cases hcheck : (256 * cmf.toNat + flg.toNat) % 31 ≠ 0
  · rw [if_pos hcheck]
    exact .inl ⟨_, rfl, .inl rfl⟩
  by_cases hmethod : cmf &&& 0x0F ≠ 8
  · rw [if_neg hcheck, if_pos hmethod]
    exact .inl ⟨_, rfl, .inl rfl⟩
  by_cases hwindow : cmf >>> 4 > 7
  · rw [if_neg hcheck, if_neg hmethod, if_pos hwindow]
    exact .inl ⟨_, rfl, .inl rfl⟩
  by_cases hdict : flg &&& 0x20 ≠ 0
  · rw [if_neg hcheck, if_neg hmethod, if_neg hwindow, if_pos hdict]
    exact .inl ⟨_, rfl, .inl rfl⟩
  rw [if_neg hcheck, if_neg hmethod, if_neg hwindow, if_neg hdict]
  rw [List.length_append] at hshort
  change ¬2 + x.length < 6 at hshort
  -- the four checks of the header hold, and the last four bytes are the sum
  obtain ⟨body, a, rfl, ha⟩ : ∃ body a, x = body ++ a ∧ a.length = 4 :=
    ⟨_, _, (List.take_append_drop (x.length - 4) x).symm, by rw [List.length_drop]; omega⟩
  rw [tinfZlibBody_eq init destLen ha]
  rcases tinfResult_cases init destLen body with herr | ⟨out, hok, hholds, hout⟩
  · rw [herr]
    exact .inl ⟨_, rfl, .inl rfl⟩
  rw [hok, ok_bind, tinfAdler32_eq, ok_bind]
  by_cases hsum : leNumber a.reverse ≠ adlerSpec out
  · rw [if_pos hsum]
    exact .inl ⟨_, rfl, .inl rfl⟩
  rw [if_neg hsum]
  rw [not_not] at hcheck hmethod hdict hsum
  have hrev : a.reverse.length = 4 := by rw [List.length_reverse, ha]
  have hlt := leNumber_lt a.reverse
  rw [hrev, hsum] at hlt
  have haeq : a.reverse = leBytes 4 (adlerSpec out) :=
    eq_leBytes_iff.mpr ⟨hrev, by rw [hsum, Nat.mod_eq_of_lt hlt]⟩
  refine .inr ⟨out, rfl, ⟨cmf, flg, body, ⟨hcheck, hmethod, UInt8.not_lt.mp hwindow, hdict⟩, hholds,
    ?_⟩, hout⟩
  rw [← haeq, List.reverse_reverse, List.append_assoc]

/-- **`tinf_zlib_uncompress` accepts the files**, with the checksum that they need, and nothing
else. -/
theorem tinfZlibUncompress_ok_iff :
    tinfZlibUncompress init destLen source = .ok out
      ↔ Zlib.File adlerSpec source out ∧ out.length ≤ destLen := by
  constructor
  · intro hok
    rcases tinfZlibUncompress_cases init destLen with ⟨e, herr, -⟩ | ⟨out', heq, hfile, hlen⟩
    · exact nomatch herr.symm.trans hok
    · obtain rfl := Except.ok.inj (heq.symm.trans hok)
      exact ⟨hfile, hlen⟩
  · rintro ⟨⟨cmf, flg, body, ⟨hcheck, hmethod, hwindow, hdict⟩, hholds, rfl⟩, hlen⟩
    have ha : (leBytes 4 (adlerSpec out)).reverse.length = 4 := by
      rw [List.length_reverse, length_leBytes]
    have h₀ (x : List UInt8) : tinfGet ([cmf, flg] ++ x) 0 = .ok cmf := rfl
    have h₁ (x : List UInt8) : tinfGet ([cmf, flg] ++ x) 1 = .ok flg := rfl
    have hroom (x : List UInt8) (hx : x.length = 4) : ¬([cmf, flg] ++ (body ++ x)).length < 6 := by
      simp only [List.length_append, List.length_cons, List.length_nil, hx]
      omega
    rw [List.append_assoc, tinfZlibUncompress, if_neg (hroom _ ha), h₀, ok_bind, h₁, ok_bind,
      if_neg (not_not.mpr hcheck), if_neg (not_not.mpr hmethod),
      if_neg (UInt8.not_lt.mpr hwindow), if_neg (not_not.mpr hdict),
      tinfZlibBody_eq init destLen ha, tinfResult_accepts init destLen hholds hlen, ok_bind,
      tinfAdler32_eq, ok_bind,
      List.reverse_reverse, leNumber_leBytes, Nat.mod_eq_of_lt (adlerSpec_lt out),
      if_neg (not_not.mpr rfl)]
    rfl

/-- **On every input `tinf_zlib_uncompress` returns.** -/
theorem tinfZlibUncompress_returned (source : List UInt8) :
    tinfZlibUncompress init destLen source = .error .dataError
      ∨ tinfZlibUncompress init destLen source = .error .bufError
      ∨ ∃ out, tinfZlibUncompress init destLen source = .ok out ∧ out.length ≤ destLen := by
  rcases tinfZlibUncompress_cases init destLen with ⟨e, herr, rfl | rfl⟩ | ⟨out, heq, -, hlen⟩
  · exact .inl herr
  · exact .inr (.inl herr)
  · exact .inr (.inr ⟨out, heq, hlen⟩)

end MicroOS
