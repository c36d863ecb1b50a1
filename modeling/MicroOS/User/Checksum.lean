import MicroOS.Lib.Crc
import MicroOS.Lib.Fletcher
import MicroOS.User.Tinflate

/-!
The checksums of the archives, `tinf_crc32` and `tinf_adler32`, and of the partition table,
`crc32` of the installer.

* `tinfCrc32_eq`, `crc32_eq`: both functions, one with a table of 16 words and one with 256, are the
  shift register `crcSpec`; so **they agree** (`tinfCrc32_eq_crc32`).
* `tinfCrc32_burst`: data that differ within 32 bits only have different checksums.
* `tinfAdlerLoop_eq`: **the remainders that `tinf_adler32` puts off are not lost**, as no sum
  overflows in 5552 bytes; `tinfAdler32_sums` are the sums.
-/

namespace MicroOS

open BitStream Checked Crc Fletcher Function

/-- `tinf_crc32tab`. -/
def tinfCrc32tab : List (BitVec 32) :=
  [0x00000000, 0x1DB71064, 0x3B6E20C8, 0x26D930AC, 0x76DC4190, 0x6B6B51F4, 0x4DB26158, 0x5005713C,
    0xEDB88320, 0xF00F9344, 0xD6D6A3E8, 0xCB61B38C, 0x9B64C2B0, 0x86D3D2D4, 0xA00AE278, 0xBDBDF21C]

/-- `crc = tinf_crc32tab[crc & 0x0F] ^ (crc >> 4)`. -/
def tinfCrc32Nibble (crc : BitVec 32) : BitVec 32 :=
  tinfCrc32tab.getD (crc &&& 0x0F).toNat 0 ^^^ crc >>> 4

/-- A turn of the loop of `tinf_crc32`. -/
def tinfCrc32Byte (crc : BitVec 32) (b : UInt8) : BitVec 32 :=
  tinfCrc32Nibble (tinfCrc32Nibble (crc ^^^ BitVec.ofNat 32 b.toNat))

/-- `tinf_crc32`. -/
def tinfCrc32 (data : List UInt8) : BitVec 32 :=
  if data.length = 0 then 0 else data.foldl tinfCrc32Byte 0xFFFFFFFF ^^^ 0xFFFFFFFF

/-- `crc32_table`. -/
def crc32Table : List (BitVec 32) :=
  [0x00000000, 0x77073096, 0xee0e612c, 0x990951ba, 0x076dc419, 0x706af48f, 0xe963a535, 0x9e6495a3,
    0x0edb8832, 0x79dcb8a4, 0xe0d5e91e, 0x97d2d988, 0x09b64c2b, 0x7eb17cbd, 0xe7b82d07, 0x90bf1d91,
    0x1db71064, 0x6ab020f2, 0xf3b97148, 0x84be41de, 0x1adad47d, 0x6ddde4eb, 0xf4d4b551, 0x83d385c7,
    0x136c9856, 0x646ba8c0, 0xfd62f97a, 0x8a65c9ec, 0x14015c4f, 0x63066cd9, 0xfa0f3d63, 0x8d080df5,
    0x3b6e20c8, 0x4c69105e, 0xd56041e4, 0xa2677172, 0x3c03e4d1, 0x4b04d447, 0xd20d85fd, 0xa50ab56b,
    0x35b5a8fa, 0x42b2986c, 0xdbbbc9d6, 0xacbcf940, 0x32d86ce3, 0x45df5c75, 0xdcd60dcf, 0xabd13d59,
    0x26d930ac, 0x51de003a, 0xc8d75180, 0xbfd06116, 0x21b4f4b5, 0x56b3c423, 0xcfba9599, 0xb8bda50f,
    0x2802b89e, 0x5f058808, 0xc60cd9b2, 0xb10be924, 0x2f6f7c87, 0x58684c11, 0xc1611dab, 0xb6662d3d,
    0x76dc4190, 0x01db7106, 0x98d220bc, 0xefd5102a, 0x71b18589, 0x06b6b51f, 0x9fbfe4a5, 0xe8b8d433,
    0x7807c9a2, 0x0f00f934, 0x9609a88e, 0xe10e9818, 0x7f6a0dbb, 0x086d3d2d, 0x91646c97, 0xe6635c01,
    0x6b6b51f4, 0x1c6c6162, 0x856530d8, 0xf262004e, 0x6c0695ed, 0x1b01a57b, 0x8208f4c1, 0xf50fc457,
    0x65b0d9c6, 0x12b7e950, 0x8bbeb8ea, 0xfcb9887c, 0x62dd1ddf, 0x15da2d49, 0x8cd37cf3, 0xfbd44c65,
    0x4db26158, 0x3ab551ce, 0xa3bc0074, 0xd4bb30e2, 0x4adfa541, 0x3dd895d7, 0xa4d1c46d, 0xd3d6f4fb,
    0x4369e96a, 0x346ed9fc, 0xad678846, 0xda60b8d0, 0x44042d73, 0x33031de5, 0xaa0a4c5f, 0xdd0d7cc9,
    0x5005713c, 0x270241aa, 0xbe0b1010, 0xc90c2086, 0x5768b525, 0x206f85b3, 0xb966d409, 0xce61e49f,
    0x5edef90e, 0x29d9c998, 0xb0d09822, 0xc7d7a8b4, 0x59b33d17, 0x2eb40d81, 0xb7bd5c3b, 0xc0ba6cad,
    0xedb88320, 0x9abfb3b6, 0x03b6e20c, 0x74b1d29a, 0xead54739, 0x9dd277af, 0x04db2615, 0x73dc1683,
    0xe3630b12, 0x94643b84, 0x0d6d6a3e, 0x7a6a5aa8, 0xe40ecf0b, 0x9309ff9d, 0x0a00ae27, 0x7d079eb1,
    0xf00f9344, 0x8708a3d2, 0x1e01f268, 0x6906c2fe, 0xf762575d, 0x806567cb, 0x196c3671, 0x6e6b06e7,
    0xfed41b76, 0x89d32be0, 0x10da7a5a, 0x67dd4acc, 0xf9b9df6f, 0x8ebeeff9, 0x17b7be43, 0x60b08ed5,
    0xd6d6a3e8, 0xa1d1937e, 0x38d8c2c4, 0x4fdff252, 0xd1bb67f1, 0xa6bc5767, 0x3fb506dd, 0x48b2364b,
    0xd80d2bda, 0xaf0a1b4c, 0x36034af6, 0x41047a60, 0xdf60efc3, 0xa867df55, 0x316e8eef, 0x4669be79,
    0xcb61b38c, 0xbc66831a, 0x256fd2a0, 0x5268e236, 0xcc0c7795, 0xbb0b4703, 0x220216b9, 0x5505262f,
    0xc5ba3bbe, 0xb2bd0b28, 0x2bb45a92, 0x5cb36a04, 0xc2d7ffa7, 0xb5d0cf31, 0x2cd99e8b, 0x5bdeae1d,
    0x9b64c2b0, 0xec63f226, 0x756aa39c, 0x026d930a, 0x9c0906a9, 0xeb0e363f, 0x72076785, 0x05005713,
    0x95bf4a82, 0xe2b87a14, 0x7bb12bae, 0x0cb61b38, 0x92d28e9b, 0xe5d5be0d, 0x7cdcefb7, 0x0bdbdf21,
    0x86d3d2d4, 0xf1d4e242, 0x68ddb3f8, 0x1fda836e, 0x81be16cd, 0xf6b9265b, 0x6fb077e1, 0x18b74777,
    0x88085ae6, 0xff0f6a70, 0x66063bca, 0x11010b5c, 0x8f659eff, 0xf862ae69, 0x616bffd3, 0x166ccf45,
    0xa00ae278, 0xd70dd2ee, 0x4e048354, 0x3903b3c2, 0xa7672661, 0xd06016f7, 0x4969474d, 0x3e6e77db,
    0xaed16a4a, 0xd9d65adc, 0x40df0b66, 0x37d83bf0, 0xa9bcae53, 0xdebb9ec5, 0x47b2cf7f, 0x30b5ffe9,
    0xbdbdf21c, 0xcabac28a, 0x53b39330, 0x24b4a3a6, 0xbad03605, 0xcdd70693, 0x54de5729, 0x23d967bf,
    0xb3667a2e, 0xc4614ab8, 0x5d681b02, 0x2a6f2b94, 0xb40bbe37, 0xc30c8ea1, 0x5a05df1b, 0x2d02ef8d]

/-- A turn of the loop of `crc32`. -/
def crc32Byte (ret : BitVec 32) (b : UInt8) : BitVec 32 :=
  ret >>> 8 ^^^ crc32Table.getD ((ret ^^^ BitVec.ofNat 32 b.toNat) &&& 0xff).toNat 0

/-- `crc32`. -/
def crc32 (stream : List UInt8) : BitVec 32 := stream.foldl crc32Byte 0xffffffff ^^^ 0xffffffff

/-- `s1 += b; s2 += s1;`. -/
def tinfAdlerByte (s : ℕ × ℕ) (b : UInt8) : ℕ × ℕ :=
  let s1 := (s.1 + b.toNat) % 2 ^ 32
  (s1, (s.2 + s1) % 2 ^ 32)

/-- A loop of `tinf_adler32`, which reads `m` bytes in each turn. -/
def tinfAdlerRun (m : ℕ) :
    ℕ → ℕ × ℕ → List UInt8 → Except TinfStop ((ℕ × ℕ) × List UInt8)
  | 0, s, buf => .ok (s, buf)
  | i + 1, s, buf =>
    if buf.length < m then .error .outOfBounds
    else tinfAdlerRun m i ((buf.take m).foldl tinfAdlerByte s) (buf.drop m)

/-- The `while` loop of `tinf_adler32`, where `length` is that of `buf`. -/
def tinfAdlerLoop : ℕ → ℕ × ℕ → List UInt8 → Except TinfStop (ℕ × ℕ)
  | 0, _, _ => .error .loops
  | n + 1, s, buf =>
    if buf.length > 0 then do
      let k := if buf.length < 5552 then buf.length else 5552
      let (s, buf) ← tinfAdlerRun 16 (k / 16) s buf
      let (s, buf) ← tinfAdlerRun 1 (k % 16) s buf
      tinfAdlerLoop n (s.1 % 65521, s.2 % 65521) buf
    else return s

/-- `tinf_adler32`. -/
def tinfAdler32 (data : List UInt8) : Except TinfStop ℕ := do
  let s ← tinfAdlerLoop (data.length + 1) (1, 0) data
  return (s.2 <<< 16) % 2 ^ 32 ||| s.1

/-! ### The cyclic codes -/

/-- The polynomial of the tables. -/
def crcPoly : BitVec 32 := 0xEDB88320

/-- The checksum that the tables are for. -/
def crcSpec (data : List UInt8) : BitVec 32 := feed crcPoly 0xFFFFFFFF (stream data) ^^^ 0xFFFFFFFF

/-- The words of the tables are steps of the register. -/
lemma tinfCrc32tab_eq {i : ℕ} (hi : i < 2 ^ 4) :
    tinfCrc32tab.getD i 0 = (step crcPoly)^[4] (BitVec.ofNat 32 i) :=
  (by decide : ∀ i < 2 ^ 4, tinfCrc32tab.getD i 0 = (step crcPoly)^[4] (BitVec.ofNat 32 i)) i hi

/-- **The table of bytes** has eight steps of the register. -/
lemma crc32Table_eq {i : ℕ} (hi : i < 2 ^ 8) :
    crc32Table.getD i 0 = (step crcPoly)^[8] (BitVec.ofNat 32 i) :=
  (by decide +kernel : ∀ i < 2 ^ 8,
    crc32Table.getD i 0 = (step crcPoly)^[8] (BitVec.ofNat 32 i)) i hi

lemma toNat_and_mask (c : BitVec 32) (n : ℕ) (hn : 2 ^ n - 1 < 2 ^ 32) :
    (c &&& BitVec.ofNat 32 (2 ^ n - 1)).toNat = c.toNat % 2 ^ n := by
  rw [BitVec.toNat_and, BitVec.toNat_ofNat, Nat.mod_eq_of_lt hn, Nat.and_two_pow_sub_one_eq_mod]

/-- **The table of nibbles** has four. -/
lemma tinfCrc32Nibble_eq (c : BitVec 32) : tinfCrc32Nibble c = (step crcPoly)^[4] c := by
  have hmask : (c &&& 0x0F).toNat = c.toNat % 2 ^ 4 := toNat_and_mask c 4 (by norm_num)
  rw [tinfCrc32Nibble, hmask, tinfCrc32tab_eq (Nat.mod_lt _ (by norm_num)), ← steps_table]

/-- A byte is eight steps. -/
lemma tinfCrc32Byte_eq (c : BitVec 32) (b : UInt8) :
    tinfCrc32Byte c b = feed crcPoly c (bits 8 b.toNat) := by
  rw [tinfCrc32Byte, tinfCrc32Nibble_eq, tinfCrc32Nibble_eq, ← iterate_add_apply,
    feed_bits crcPoly c (by norm_num) b.toNat_lt]

/-- A byte is fed by its bits. -/
lemma crc32Byte_eq (c : BitVec 32) (b : UInt8) :
    crc32Byte c b = feed crcPoly c (bits 8 b.toNat) := by
  have hmask (d : BitVec 32) : (d &&& 0xff).toNat = d.toNat % 2 ^ 8 :=
    toNat_and_mask d 8 (by norm_num)
  have hlow : BitVec.ofNat 32 b.toNat >>> 8 = 0#32 := by
    have hb : b.toNat < 2 ^ 8 := b.toNat_lt
    apply BitVec.eq_of_toNat_eq
    rw [BitVec.toNat_ushiftRight, BitVec.toNat_ofNat, Nat.mod_eq_of_lt (by omega),
      Nat.shiftRight_eq_div_pow, Nat.div_eq_of_lt hb]
    rfl
  rw [crc32Byte, hmask, crc32Table_eq (Nat.mod_lt _ (by norm_num)),
    feed_bits crcPoly c (by norm_num) b.toNat_lt, steps_table crcPoly (c ^^^ _) 8,
    BitVec.ushiftRight_xor_distrib, hlow, BitVec.xor_zero, BitVec.xor_comm]

/-- A loop over the bytes feeds their bits. -/
lemma foldl_feed {f : BitVec 32 → UInt8 → BitVec 32}
    (hf : ∀ c b, f c b = feed crcPoly c (bits 8 b.toNat)) (c : BitVec 32) (data : List UInt8) :
    data.foldl f c = feed crcPoly c (stream data) := by
  induction data generalizing c with
  | nil => rfl
  | cons b data ih => rw [List.foldl_cons, hf, ih, stream_cons, feed_append]

/-- **`tinf_crc32` is the checksum**, of no data also. -/
lemma tinfCrc32_eq (data : List UInt8) : tinfCrc32 data = crcSpec data := by
  rw [tinfCrc32, foldl_feed tinfCrc32Byte_eq, crcSpec]
  cases data with
  | nil => rfl
  | cons b data => rw [if_neg (by simp)]

@[inherit_doc tinfCrc32_eq] lemma crc32_eq (data : List UInt8) : crc32 data = crcSpec data := by
  rw [crc32, foldl_feed crc32Byte_eq, crcSpec]

/-- **The decompressor and the installer have one checksum**, from tables of 16 and 256 words. -/
theorem tinfCrc32_eq_crc32 (data : List UInt8) :
    tinfCrc32 data = crc32 data ∧ crc32 data = crcSpec data :=
  ⟨(tinfCrc32_eq data).trans (crc32_eq data).symm, crc32_eq data⟩

/-- **Data that differ within 32 bits only are told apart.** -/
theorem tinfCrc32_burst {x y : List UInt8} {u a b v : List Bool} (hx : stream x = u ++ a ++ v)
    (hy : stream y = u ++ b ++ v) (hlen : a.length = b.length) (ha : a.length ≤ 32) (hxy : x ≠ y) :
    tinfCrc32 x ≠ tinfCrc32 y := by
  have hab : a ≠ b := by
    rintro rfl
    exact hxy (stream_inj (hx.trans hy.symm))
  rw [tinfCrc32_eq, tinfCrc32_eq, crcSpec, crcSpec, hx, hy, Ne, BitVec.xor_left_inj]
  exact feed_burst (by decide) _ hlen ha hab u v

/-- A byte that is changed changes the checksum. -/
theorem tinfCrc32_burst_byte : tinfCrc32 [1, 2, 3] ≠ tinfCrc32 [1, 4, 3] :=
  tinfCrc32_burst (u := stream [1]) (a := stream [2]) (b := stream [4]) (v := stream [3])
    (by decide) (by decide) (by decide) (by decide) (by decide)

/-! ### The sums -/

/-- The numbers that bytes are. -/
def adlerBytes (data : List UInt8) : List ℕ := data.map UInt8.toNat

/-- The sums that `tinf_adler32` is about, which no remainder is taken of but the last. -/
def adlerSpec (data : List UInt8) : ℕ :=
  let s := rem 65521 (sums (1, 0) (adlerBytes data))
  2 ^ 16 * s.2 + s.1

variable {s : ℕ × ℕ} {data : List UInt8} {m i : ℕ}

/-- Sums of 32 bits, as long as they fit. -/
lemma foldl_tinfAdlerByte (h₁ : (sums s (adlerBytes data)).1 < 2 ^ 32)
    (h₂ : (sums s (adlerBytes data)).2 < 2 ^ 32) :
    data.foldl tinfAdlerByte s = sums s (adlerBytes data) := by
  induction data generalizing s with
  | nil => rfl
  | cons b data ih =>
    rw [adlerBytes, List.map_cons, sums, ← adlerBytes] at h₁ h₂ ⊢
    obtain ⟨hle₁, hle₂⟩ := le_sums (s.1 + b.toNat, s.2 + (s.1 + b.toNat)) (adlerBytes data)
    dsimp only at hle₁ hle₂
    have hstep : tinfAdlerByte s b = (s.1 + b.toNat, s.2 + (s.1 + b.toNat)) := by
      rw [tinfAdlerByte, Nat.mod_eq_of_lt (hle₁.trans_lt h₁), Nat.mod_eq_of_lt (hle₂.trans_lt h₂)]
    rw [List.foldl_cons, hstep]
    exact ih h₁ h₂

/-- A loop takes its bytes one after the other. -/
lemma tinfAdlerRun_eq (h : m * i ≤ data.length) :
    tinfAdlerRun m i s data
      = .ok ((data.take (m * i)).foldl tinfAdlerByte s, data.drop (m * i)) := by
  induction i generalizing s data with
  | zero => rfl
  | succ i ih =>
    rw [Nat.mul_succ] at h
    rw [tinfAdlerRun, if_neg (by omega), ih (by rw [List.length_drop]; omega), Nat.mul_succ,
      Nat.add_comm (m * i), List.take_add, List.foldl_append, List.drop_drop]

/-- **In 5552 bytes no sum overflows.** -/
lemma sums_adler_lt (hs : s.1 < 65521 ∧ s.2 < 65521) (hlen : data.length ≤ 5552) :
    (sums s (adlerBytes data)).1 < 2 ^ 32 ∧ (sums s (adlerBytes data)).2 < 2 ^ 32 := by
  have hbytes : ∀ x ∈ adlerBytes data, x ≤ 255 := by
    intro x hx
    obtain ⟨b, -, rfl⟩ := List.mem_map.mp hx
    exact Nat.le_of_lt_succ b.toNat_lt
  obtain ⟨h₁, h₂⟩ := @sums_le s _ 255 hbytes
  rw [adlerBytes, List.length_map] at h₁ h₂
  rw [adlerBytes]
  constructor
  · omega
  · have hprod : s.1 * data.length ≤ 65520 * 5552 := Nat.mul_le_mul (by omega) hlen
    have hsquare : data.length * (data.length + 1) ≤ 5552 * (5552 + 1) :=
      Nat.mul_le_mul hlen (by omega)
    omega

/-- **The loop**: what it puts off until the end of a block is not lost. -/
lemma tinfAdlerLoop_eq {n : ℕ} (hs : s.1 < 65521 ∧ s.2 < 65521) (hn : data.length < n) :
    tinfAdlerLoop n s data = .ok (rem 65521 (sums s (adlerBytes data))) := by
  induction n generalizing s data with
  | zero => omega
  | succ n ih =>
    rw [tinfAdlerLoop]
    by_cases hpos : data.length > 0
    · obtain ⟨k, hk, hk0, hkle, hk5552⟩ : ∃ k,
          (if data.length < 5552 then data.length else 5552) = k ∧ 0 < k ∧ k ≤ data.length
            ∧ k ≤ 5552 := by
        by_cases h : data.length < 5552
        · exact ⟨_, if_pos h, hpos, le_rfl, h.le⟩
        · exact ⟨_, if_neg h, by norm_num, by omega, le_rfl⟩
      have hsplit := Nat.div_add_mod k 16
      have hlen : (data.take k).length ≤ 5552 := by rw [List.length_take]; omega
      obtain ⟨h₁, h₂⟩ := sums_adler_lt hs hlen
      have hall : ((data.drop (16 * (k / 16))).take (1 * (k % 16))).foldl tinfAdlerByte
          ((data.take (16 * (k / 16))).foldl tinfAdlerByte s)
          = sums s (adlerBytes (data.take k)) := by
        rw [← List.foldl_append, Nat.one_mul, ← List.take_add, hsplit]
        exact foldl_tinfAdlerByte h₁ h₂
      have hrest : (data.drop (16 * (k / 16))).drop (1 * (k % 16)) = data.drop k := by
        rw [List.drop_drop, Nat.one_mul, hsplit]
      have hdata : adlerBytes data = adlerBytes (data.take k) ++ adlerBytes (data.drop k) := by
        rw [adlerBytes, adlerBytes, adlerBytes, ← List.map_append, List.take_append_drop]
      rw [if_pos hpos, hk]
      dsimp only
      rw [tinfAdlerRun_eq (by omega), ok_bind]
      dsimp only
      rw [tinfAdlerRun_eq (by rw [List.length_drop]; omega), ok_bind, hall, hrest]
      dsimp only
      rw [ih ⟨Nat.mod_lt _ (by norm_num), Nat.mod_lt _ (by norm_num)⟩
        (by rw [List.length_drop]; omega), hdata, sums_append]
      exact congrArg Except.ok (sums_mod 65521 _ _)
    · rw [if_neg hpos]
      obtain rfl : data = [] := List.length_eq_zero_iff.mp (by omega)
      exact congrArg Except.ok (Prod.ext (Nat.mod_eq_of_lt hs.1) (Nat.mod_eq_of_lt hs.2)).symm

/-- **`tinf_adler32` is the two sums**, with one remainder at the end. -/
lemma tinfAdler32_eq (data : List UInt8) : tinfAdler32 data = .ok (adlerSpec data) := by
  rw [tinfAdler32, tinfAdlerLoop_eq ⟨by norm_num, by norm_num⟩ (Nat.lt_succ_self _), ok_bind,
    adlerSpec]
  set s := rem 65521 (sums (1, 0) (adlerBytes data)) with hs
  have h₁ : s.1 < 65521 := Nat.mod_lt _ (by norm_num)
  have h₂ : s.2 < 65521 := Nat.mod_lt _ (by norm_num)
  have hhigh : (s.2 <<< 16) % 2 ^ 32 = 2 ^ 16 * s.2 := by
    rw [Nat.shiftLeft_eq, Nat.mod_eq_of_lt (by omega), Nat.mul_comm]
  rw [hhigh, ← Nat.two_pow_add_eq_or_of_lt (by omega : s.1 < 2 ^ 16)]
  rfl

/-- **The sums of `tinf_adler32`**: the bytes, and the bytes each as often as there are bytes from
it on; nothing but the data is read. -/
theorem tinfAdler32_sums (data : List UInt8) : tinfAdler32 data
    = .ok (2 ^ 16 * ((data.length + ∑ i ∈ Finset.range data.length,
        (data.length - i) * (data.getD i 0).toNat) % 65521)
      + (1 + (data.map UInt8.toNat).sum) % 65521) := by
  have hbyte (i : ℕ) : (data.map UInt8.toNat).getD i 0 = (data.getD i 0).toNat := by
    rw [List.getD_eq_getElem?_getD, List.getElem?_map, List.getD_eq_getElem?_getD]
    cases data[i]? <;> rfl
  rw [tinfAdler32_eq, adlerSpec, rem, sums_fst, sums_snd, adlerBytes, List.length_map, Nat.zero_add,
    Nat.mul_one]
  simp only [hbyte]

end MicroOS
