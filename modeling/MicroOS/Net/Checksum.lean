import MicroOS.Lib.OnesComplement
import MicroOS.Net.Tcp

/-!
`ipv4_checksum` of `net/ipv4.c`.

* `ipv4Checksum`: the code, whose `char` is signed;
* `internetChecksum`: the complement of the one's complement sum of the big-endian words;
* `checksum_internet_iff`: both agree unless the last byte stands alone and is 128 or more;
* `checksum_field`: a buffer that has its checksum in a field has the checksum 0.
-/

namespace MicroOS

open OnesComplement

/-! ### The code -/

/-- The loop of `ipv4_checksum` over the words of the buffer. -/
def checksumWords (data : List UInt8) : UInt32 :=
  (List.range (data.length / 2)).foldl
    (fun temp i => temp + (bswap16 (word16 data (2 * i))).toUInt32) 0

/-- The byte behind the last word is added, a `char`. -/
def checksumTail (data : List UInt8) (temp : UInt32) : UInt32 :=
  if data.length % 2 ≠ 0 then
    temp + ((data.getD (data.length - 1) 0).toInt8.toInt16.toUInt16.toUInt32 <<< 8)
  else temp

/-- The upper half of a word is what its bits above the lower half are. -/
lemma and_upper {n : ℕ} (h : n < 2 ^ 32) : n &&& 0xffff0000 = n / 2 ^ 16 * 2 ^ 16 := by
  have hdiv : (n &&& 0xffff0000) / 2 ^ 16 = n / 2 ^ 16 := by
    rw [Nat.and_div_two_pow]
    refine (Nat.and_two_pow_sub_one_eq_mod (n / 2 ^ 16) 16).trans (Nat.mod_eq_of_lt ?_)
    omega
  have hmod : (n &&& 0xffff0000) % 2 ^ 16 = 0 := by
    rw [Nat.and_mod_two_pow]
    exact Nat.and_zero _
  omega

/-- The upper half is not zero just when there is a carry. -/
lemma and_upper_ne_zero {temp : UInt32} :
    temp &&& (0xffff0000 : UInt32) ≠ 0 ↔ 2 ^ 16 ≤ temp.toNat := by
  rw [ne_eq, ← UInt32.toNat_inj, UInt32.toNat_and]
  change ¬temp.toNat &&& 0xffff0000 = 0 ↔ _
  rw [and_upper temp.toNat_lt]
  omega

/-- A turn of the loop adds the carry. -/
lemma toNat_carry (temp : UInt32) :
    ((temp &&& (0xffff : UInt32)) + (temp >>> 16)).toNat =
    temp.toNat % 2 ^ 16 + temp.toNat / 2 ^ 16 := by
  have hlt := temp.toNat_lt
  have hand : (temp &&& 0xffff).toNat = temp.toNat % 2 ^ 16 := by
    rw [UInt32.toNat_and]
    exact Nat.and_two_pow_sub_one_eq_mod temp.toNat 16
  have hshift : (temp >>> 16).toNat = temp.toNat / 2 ^ 16 := by
    rw [UInt32.toNat_shiftRight]
    exact Nat.shiftRight_eq_div_pow _ _
  rw [UInt32.toNat_add, hand, hshift]
  omega

/-- The loop that adds the carries. -/
def foldCarries (temp : UInt32) : UInt32 :=
  if temp &&& (0xffff0000 : UInt32) ≠ 0 then
    foldCarries ((temp &&& (0xffff : UInt32)) + (temp >>> 16))
  else temp
termination_by temp.toNat
decreasing_by
  rw [toNat_carry]
  exact carry_lt (by norm_num) (and_upper_ne_zero.mp ‹_›)

/-- `ipv4_checksum`. -/
def ipv4Checksum (data : List UInt8) : UInt16 :=
  let temp := foldCarries (checksumTail data (checksumWords data))
  (((~~~temp &&& 0xff00) >>> 8) ||| ((~~~temp &&& 0x00ff) <<< 8)).toUInt16

/-! ### The specification -/

/-- The big-endian words of a string; a last byte is followed by a zero. -/
def beWords : List UInt8 → List ℕ
  | a :: b :: data => (256 * a.toNat + b.toNat) :: beWords data
  | [a] => [256 * a.toNat]
  | [] => []

/-- **The Internet checksum**, in host order. -/
def internetChecksum (data : List UInt8) : ℕ :=
  complement (2 ^ 16) (OnesComplement.sum (2 ^ 16) (beWords data))

/-! ### Bytes and words -/

/-- Two bytes change places. -/
lemma swap_bytes (n : ℕ) : ((n &&& 0xff00) >>> 8) ||| ((n &&& 0x00ff) <<< 8) =
    n % 2 ^ 8 * 2 ^ 8 + n / 2 ^ 8 % 2 ^ 8 := by
  have hlow : n &&& 0x00ff = n % 2 ^ 8 := Nat.and_two_pow_sub_one_eq_mod n 8
  have hhigh : (n &&& 0xff00) >>> 8 = n / 2 ^ 8 % 2 ^ 8 := by
    rw [Nat.shiftRight_eq_div_pow, Nat.and_div_two_pow]
    exact Nat.and_two_pow_sub_one_eq_mod (n / 2 ^ 8) 8
  rw [hlow, hhigh, Nat.or_comm, ← Nat.shiftLeft_add_eq_or_of_lt (Nat.mod_lt _ (by norm_num)),
    Nat.shiftLeft_eq]

/-- A swapped word has its bytes the other way around. -/
lemma toNat_bswap16 (n : UInt16) :
    (bswap16 n).toNat = n.toNat % 2 ^ 8 * 2 ^ 8 + n.toNat / 2 ^ 8 := by
  have hlt := n.toNat_lt
  have hlow : (n.toNat &&& 0x00ff) <<< 8 % 2 ^ 16 = (n.toNat &&& 0x00ff) <<< 8 := by
    have hand : n.toNat &&& 0x00ff = n.toNat % 2 ^ 8 := Nat.and_two_pow_sub_one_eq_mod n.toNat 8
    rw [hand, Nat.shiftLeft_eq]
    exact Nat.mod_eq_of_lt (by omega)
  have hswap := swap_bytes n.toNat
  rw [bswap16, UInt16.toNat_or, UInt16.toNat_shiftLeft, UInt16.toNat_shiftRight, UInt16.toNat_and,
    UInt16.toNat_and]
  change (n.toNat &&& 0x00ff) <<< 8 % 2 ^ 16 ||| (n.toNat &&& 0xff00) >>> 8 = _
  rw [hlow, Nat.or_comm, hswap]
  omega

/-- The bytes of a word in memory, with the first one the upper one. -/
lemma toNat_bswap16_word16 (data : List UInt8) (i : ℕ) : (bswap16 (word16 data i)).toNat =
    256 * (data.getD i 0).toNat + (data.getD (i + 1) 0).toNat := by
  have h0 := (data.getD i 0).toNat_lt
  have h1 := (data.getD (i + 1) 0).toNat_lt
  have hword : (word16 data i).toNat =
      (data.getD (i + 1) 0).toNat * 2 ^ 8 + (data.getD i 0).toNat := by
    rw [word16, UInt16.toNat_or, UInt16.toNat_shiftLeft, Nat.or_comm, UInt8.toNat_toUInt16,
      UInt8.toNat_toUInt16]
    change (data.getD (i + 1) 0).toNat <<< 8 % 2 ^ 16 ||| (data.getD i 0).toNat = _
    rw [Nat.mod_eq_of_lt (by rw [Nat.shiftLeft_eq]; omega),
      ← Nat.shiftLeft_add_eq_or_of_lt (by omega), Nat.shiftLeft_eq]
  rw [toNat_bswap16, hword]
  omega

/-! ### The sum -/

/-- The words that the loop adds. -/
def fullWords (data : List UInt8) : List ℕ :=
  (List.range (data.length / 2)).map fun i =>
    256 * (data.getD (2 * i) 0).toNat + (data.getD (2 * i + 1) 0).toNat

/-- The words of some bytes are the full ones and, of an odd number, the last byte. -/
lemma beWords_eq (data : List UInt8) : beWords data = fullWords data ++
    if data.length % 2 = 0 then [] else [256 * (data.getD (data.length - 1) 0).toNat] := by
  induction data using beWords.induct with
  | case1 a b data ih =>
    have hhalf : (data.length + 1 + 1) / 2 = data.length / 2 + 1 := by omega
    have hodd : (data.length + 1 + 1) % 2 = data.length % 2 := by omega
    rw [beWords, ih, fullWords, fullWords, List.length_cons, List.length_cons, hhalf, hodd,
      List.range_succ_eq_map, List.map_cons, List.map_map, List.cons_append]
    congr 2
    split_ifs with heven
    · rfl
    · obtain ⟨n, hn⟩ : ∃ n, data.length = n + 1 := ⟨data.length - 1, by omega⟩
      rw [hn]
      rfl
  | case2 a => simp [beWords, fullWords]
  | case3 => rfl

/-- A word has 16 bits. -/
lemma word_lt {data : List UInt8} {x : ℕ} (h : x ∈ beWords data) : x < 2 ^ 16 := by
  induction data using beWords.induct with
  | case1 a b data ih =>
    have ha := a.toNat_lt
    have hb := b.toNat_lt
    rcases List.mem_cons.mp h with rfl | h
    · omega
    · exact ih h
  | case2 a =>
    have ha := a.toNat_lt
    obtain rfl := List.mem_singleton.mp h
    omega
  | case3 => exact absurd h List.not_mem_nil

lemma length_fullWords (data : List UInt8) : (fullWords data).length = data.length / 2 := by
  rw [fullWords, List.length_map, List.length_range]

/-- Their sum is bounded by their number. -/
lemma sum_fullWords_le (data : List UInt8) :
    (fullWords data).sum ≤ data.length / 2 * (2 ^ 16 - 1) := by
  have hle : ∀ x ∈ fullWords data, x ≤ 2 ^ 16 - 1 := fun x hx =>
    have hmem : x ∈ beWords data := by
      rw [beWords_eq]
      exact List.mem_append_left _ hx
    Nat.le_sub_one_of_lt (word_lt hmem)
  rw [← length_fullWords, ← smul_eq_mul]
  exact List.sum_le_card_nsmul _ _ hle

/-- **The loop adds the words**, as long as they fit 32 bits. -/
lemma toNat_checksumWords {data : List UInt8} (h : data.length ≤ 131072) :
    (checksumWords data).toNat = (fullWords data).sum := by
  have hfold : ∀ (l : List ℕ) (temp : UInt32), (l.foldl
      (fun temp i => temp + (bswap16 (word16 data (2 * i))).toUInt32) temp).toNat =
        (temp.toNat + (l.map fun i =>
          256 * (data.getD (2 * i) 0).toNat + (data.getD (2 * i + 1) 0).toNat).sum) % 2 ^ 32 := by
    intro l
    induction l with
    | nil => exact fun temp => (Nat.mod_eq_of_lt temp.toNat_lt).symm
    | cons i l ih =>
      intro temp
      rw [List.foldl_cons, ih, UInt32.toNat_add, UInt16.toNat_toUInt32, toNat_bswap16_word16,
        List.map_cons, List.sum_cons]
      omega
  have hle := sum_fullWords_le data
  rw [checksumWords, hfold, UInt32.toNat_zero, Nat.zero_add]
  exact Nat.mod_eq_of_lt (by rw [← fullWords]; omega)

/-- The loop that adds the carries. -/
lemma toNat_foldCarries (temp : UInt32) :
    (foldCarries temp).toNat = foldCarry (2 ^ 16) temp.toNat := by
  induction temp using foldCarries.induct with
  | case1 temp htest ih =>
    rw [foldCarries, if_pos htest, ih, toNat_carry,
      foldCarry_of_le (by norm_num) (and_upper_ne_zero.mp htest)]
  | case2 temp htest =>
    rw [foldCarries, if_neg htest, foldCarry_of_lt]
    exact not_le.mp fun hle => htest (and_upper_ne_zero.mpr hle)

/-- The complement is stored with its bytes swapped. -/
lemma toNat_complement {temp : UInt32} (h : temp.toNat < 2 ^ 16) :
    (bswap16 (((~~~temp &&& 0xff00) >>> 8) ||| ((~~~temp &&& 0x00ff) <<< 8)).toUInt16).toNat =
      complement (2 ^ 16) temp.toNat := by
  have hnot : (~~~temp).toNat = 2 ^ 32 - 1 - temp.toNat := UInt32.toNat_not temp
  have hlow : ((~~~temp).toNat &&& 0x00ff) <<< 8 % 2 ^ 32 = ((~~~temp).toNat &&& 0x00ff) <<< 8 := by
    have hand : (~~~temp).toNat &&& 0x00ff = (~~~temp).toNat % 2 ^ 8 :=
      Nat.and_two_pow_sub_one_eq_mod _ 8
    rw [hand, Nat.shiftLeft_eq]
    exact Nat.mod_eq_of_lt (by omega)
  have hswap := swap_bytes (~~~temp).toNat
  have hword : (((~~~temp &&& 0xff00) >>> 8) ||| ((~~~temp &&& 0x00ff) <<< 8)).toNat =
      (~~~temp).toNat % 2 ^ 8 * 2 ^ 8 + (~~~temp).toNat / 2 ^ 8 % 2 ^ 8 := by
    rw [UInt32.toNat_or, UInt32.toNat_shiftLeft, UInt32.toNat_shiftRight, UInt32.toNat_and,
      UInt32.toNat_and, ← hswap, ← hlow]
    rfl
  have hback : ∀ lo hi : ℕ, lo < 2 ^ 8 → hi < 2 ^ 8 →
      (lo * 2 ^ 8 + hi) % 2 ^ 16 % 2 ^ 8 * 2 ^ 8 + (lo * 2 ^ 8 + hi) % 2 ^ 16 / 2 ^ 8 =
        hi * 2 ^ 8 + lo := by
    intro lo hi hlo hhi
    omega
  rw [toNat_bswap16, UInt32.toNat_toUInt16, hword, complement,
    hback _ _ (Nat.mod_lt _ (by norm_num)) (Nat.mod_lt _ (by norm_num)), hnot]
  omega

/-- **What is returned**, in host order. -/
lemma toNat_ipv4Checksum (data : List UInt8) : (bswap16 (ipv4Checksum data)).toNat =
    complement (2 ^ 16) (foldCarry (2 ^ 16) (checksumTail data (checksumWords data)).toNat) := by
  rw [← toNat_foldCarries]
  refine toNat_complement ?_
  rw [toNat_foldCarries]
  exact (foldCarry_spec (by norm_num) _).1

/-! ### The Internet checksum -/

/-- A `char` as the upper byte of a word: the bits of its sign are above the word. -/
lemma toNat_charWord (c : UInt8) : (c.toInt8.toInt16.toUInt16.toUInt32 <<< 8).toNat =
    256 * c.toNat + if 128 ≤ c then 0xff0000 else 0 := by
  have hc := c.toNat_lt
  have hsign : c.toInt8.toInt16.toUInt16.toNat = c.toNat + if 128 ≤ c then 0xff00 else 0 := by
    change (c.toBitVec.signExtend 16).toNat = _
    rw [BitVec.toNat_signExtend, BitVec.msb_eq_decide, BitVec.toNat_setWidth]
    by_cases hle : 128 ≤ c
    · have hmsb : 2 ^ 7 ≤ c.toBitVec.toNat := hle
      rw [if_pos hle, if_pos (decide_eq_true hmsb), UInt8.toNat_toBitVec]
      omega
    · have hmsb : ¬2 ^ 7 ≤ c.toBitVec.toNat := hle
      rw [if_neg hle, decide_eq_false hmsb, if_neg Bool.false_ne_true, UInt8.toNat_toBitVec]
      omega
  rw [UInt32.toNat_shiftLeft, UInt16.toNat_toUInt32, hsign]
  change (c.toNat + if 128 ≤ c then 0xff00 else 0) <<< 8 % 2 ^ 32 = _
  rw [Nat.shiftLeft_eq]
  split_ifs <;> omega

/-- The byte behind the last word is a word whose upper byte it is, unless its sign is set. -/
lemma toNat_checksumTail {data : List UInt8} (h : data.length ≤ 65535) :
    (checksumTail data (checksumWords data)).toNat = (beWords data).sum +
      if data.length % 2 = 1 ∧ 128 ≤ data.getD (data.length - 1) 0 then 0xff0000 else 0 := by
  have hwords : (checksumWords data).toNat = (fullWords data).sum :=
    toNat_checksumWords (by omega)
  have hle := sum_fullWords_le data
  rw [checksumTail, beWords_eq, List.sum_append]
  by_cases heven : data.length % 2 = 0
  · rw [if_neg (not_not.mpr heven), if_pos heven, if_neg (by omega), hwords]
    rfl
  · rw [if_pos heven, if_neg heven, UInt32.toNat_add, hwords, toNat_charWord, List.sum_singleton]
    have hc := (data.getD (data.length - 1) 0).toNat_lt
    have hodd : data.length % 2 = 1 := by omega
    simp only [hodd, true_and]
    split_ifs <;> omega

/-- **`ipv4_checksum` is the Internet checksum** exactly when no byte of 128 or more
stands alone. -/
theorem checksum_internet_iff {data : List UInt8} (h : data.length ≤ 65535) :
    (bswap16 (ipv4Checksum data)).toNat = internetChecksum data ↔
      (data.length % 2 = 1 → data.getD (data.length - 1) 0 < 128) := by
  have hb : 1 < 2 ^ 16 := by norm_num
  rw [toNat_ipv4Checksum, toNat_checksumTail h, internetChecksum,
    sum_eq_foldCarry hb fun x => word_lt]
  generalize (beWords data).sum = s
  split_ifs with hsigned
  · -- the bits of the sign are added to the sum
    obtain ⟨hlt, hmod, -⟩ := foldCarry_spec hb s
    obtain ⟨hlt', hmod', -⟩ := foldCarry_spec hb (s + 0xff0000)
    refine iff_of_false (fun heq => ?_) fun himp =>
      absurd (himp hsigned.1) (UInt8.not_lt.mpr hsigned.2)
    have hsame : foldCarry (2 ^ 16) (s + 0xff0000) = foldCarry (2 ^ 16) s := by
      rw [complement, complement] at heq
      omega
    rw [hsame] at hmod'
    have hsigns : s + 0xff0000 ≡ s [MOD 2 ^ 16 - 1] := hmod'.symm.trans hmod
    rw [Nat.ModEq] at hsigns
    omega
  · rw [Nat.add_zero]
    exact iff_of_true rfl fun hodd => UInt8.not_le.mp fun hle => hsigned ⟨hodd, hle⟩

/-- The words of a string are summed. -/
theorem checksum_internet_words :
    (bswap16 (ipv4Checksum [0x12, 0x34, 0x56])).toNat = internetChecksum [0x12, 0x34, 0x56] :=
  (checksum_internet_iff (by decide)).mpr fun _ => by decide

/-- The only byte is 128, and its sign is added. -/
theorem checksum_sign_extended : ¬∀ data : List UInt8, data.length ≤ 65535 →
    (bswap16 (ipv4Checksum data)).toNat = internetChecksum data := by
  intro h
  have hbyte := h [0x80] (by decide)
  rw [toNat_ipv4Checksum, internetChecksum,
    sum_eq_foldCarry (by norm_num) fun x => word_lt] at hbyte
  rw [show (checksumTail [0x80] (checksumWords [0x80])).toNat = 0xff8000 by decide,
    show (beWords [0x80]).sum = 0x8000 by decide, foldCarry_of_le (by norm_num) (by norm_num),
    foldCarry_of_lt (by norm_num), foldCarry_of_lt (by norm_num)] at hbyte
  exact absurd hbyte (by decide)

/-! ### A field for the checksum -/

/-- A `uint16_t` in memory. -/
def le16 (n : UInt16) : List UInt8 := [n.toUInt8, (n >>> 8).toUInt8]

@[simp] lemma length_le16 (n : UInt16) : (le16 n).length = 2 := rfl

/-- Behind an even number of bytes the words go on. -/
lemma beWords_append {data rest : List UInt8} (h : data.length % 2 = 0) :
    beWords (data ++ rest) = beWords data ++ beWords rest := by
  induction data using beWords.induct with
  | case1 a b data ih =>
    rw [List.length_cons, List.length_cons] at h
    rw [List.cons_append, List.cons_append, beWords, beWords, ih (by omega), List.cons_append]
  | case2 a => exact absurd h (by simp)
  | case3 => rfl

/-- A word of the machine is a swapped one on the line. -/
lemma beWords_le16 (n : UInt16) : beWords (le16 n) = [(bswap16 n).toNat] := by
  have hlow : n.toUInt8.toNat = n.toNat % 2 ^ 8 := UInt16.toNat_toUInt8 n
  have hhigh : (n >>> 8).toUInt8.toNat = n.toNat / 2 ^ 8 := by
    have hlt := n.toNat_lt
    rw [UInt16.toNat_toUInt8, UInt16.toNat_shiftRight]
    change n.toNat >>> 8 % 2 ^ 8 = _
    rw [Nat.shiftRight_eq_div_pow]
    exact Nat.mod_eq_of_lt (by omega)
  rw [le16, beWords, beWords, hlow, hhigh, toNat_bswap16, Nat.mul_comm]
  rfl

/-- The checksum of a buffer of even size. -/
lemma toNat_checksum_even {data : List UInt8} (heven : data.length % 2 = 0)
    (h : data.length ≤ 131072) : (bswap16 (ipv4Checksum data)).toNat =
      complement (2 ^ 16) (foldCarry (2 ^ 16) (beWords data).sum) := by
  rw [toNat_ipv4Checksum, checksumTail, if_neg (not_not.mpr heven), toNat_checksumWords h,
    beWords_eq, if_pos heven, List.append_nil]

/-- **A buffer with its checksum in a field verifies**, when the field held zero. -/
lemma checksum_field {before rest : List UInt8} (hbefore : before.length % 2 = 0)
    (hrest : rest.length % 2 = 0) (h : before.length + 2 + rest.length ≤ 131072) :
    ipv4Checksum (before ++ le16 (ipv4Checksum (before ++ le16 0 ++ rest)) ++ rest) = 0 := by
  have hlen : ∀ n, (before ++ le16 n ++ rest).length = before.length + 2 + rest.length := by
    intro n
    rw [List.length_append, List.length_append]
    rfl
  have hwords : ∀ n, (beWords (before ++ le16 n ++ rest)).sum =
      (beWords before).sum + (beWords rest).sum + (bswap16 n).toNat := by
    intro n
    rw [List.append_assoc, beWords_append hbefore, beWords_append (by rw [length_le16]),
      beWords_le16, List.sum_append, List.singleton_append, List.sum_cons]
    omega
  have hsum : ∀ n : UInt16, (bswap16 (ipv4Checksum (before ++ le16 n ++ rest))).toNat =
      complement (2 ^ 16) (foldCarry (2 ^ 16) (beWords (before ++ le16 n ++ rest)).sum) :=
    fun n => toNat_checksum_even (by rw [hlen]; omega) (by rw [hlen]; exact h)
  have hfirst := hsum 0
  have hsecond := hsum (ipv4Checksum (before ++ le16 0 ++ rest))
  have hzero : (bswap16 0).toNat = 0 := by decide
  rw [hwords, hzero, Nat.add_zero] at hfirst
  rw [hwords, hfirst, foldCarry_add_complement (by norm_num), complement, Nat.sub_self,
    toNat_bswap16] at hsecond
  apply UInt16.toNat_inj.mp
  rw [UInt16.toNat_zero]
  omega

end MicroOS
