import MicroOS.Lib.ByteMem

/-!
The copying loops of `user/libc/string.c`: `memcpy` and `memset`, which the allocator calls, and
`memmove`, byte by byte and with the pointers advancing in 32 bits.

For a destination that stays below the top of the address space the loops touch exactly the
destination (`memcpy_of_disjoint`, `memset_of_disjoint`) and leave there what they promise
(`memcpy_apply`, `memset_apply`). A forward copy is right for regions that overlap too when the
destination is the lower one, and `memmove` for any (`memmove_apply`).
-/

namespace MicroOS

open ByteMem

/-- `memcpy(dest, src, n)`: `while (n--) *d++ = *s++`. -/
def memcpy (m : Mem) (dest src : ℕ) : ℕ → Mem
  | 0 => m
  | n + 1 => memcpy (writeByte m dest (m src)) (wrap32 (dest + 1)) (wrap32 (src + 1)) n

/-- `memset(start, value, num)`: `while (num--) *s++ = value`. -/
def memset (m : Mem) (start : ℕ) (value : UInt8) : ℕ → Mem
  | 0 => m
  | n + 1 => memset (writeByte m start value) (wrap32 (start + 1)) value n

/-- `memcpy` keeps every byte outside the destination. -/
lemma memcpy_of_disjoint {m : Mem} {dest src n x : ℕ} (hd : dest + n ≤ 2 ^ 32)
    (hx : x < dest ∨ dest + n ≤ x) : memcpy m dest src n x = m x := by
  induction n generalizing m dest src with
  | zero => rfl
  | succ n ih =>
    rw [memcpy]
    cases n with
    | zero => exact writeByte_of_ne _ _ (by omega)
    | succ n =>
      rw [wrap32_of_lt (show dest + 1 < 2 ^ 32 by omega), ih (by omega) (by omega),
        writeByte_of_ne _ _ (by omega)]

/-- `memcpy` between regions that do not overlap copies every byte. -/
lemma memcpy_apply {m : Mem} {dest src n i : ℕ} (hd : dest + n ≤ 2 ^ 32) (hs : src + n ≤ 2 ^ 32)
    (hsafe : dest ≤ src ∨ src + n ≤ dest) (hi : i < n) :
    memcpy m dest src n (dest + i) = m (src + i) := by
  induction n generalizing m dest src i with
  | zero => omega
  | succ n ih =>
    rw [memcpy]
    obtain rfl | hpos := Nat.eq_zero_or_pos n
    · obtain rfl : i = 0 := by omega
      exact writeByte_self m dest (m src)
    rw [wrap32_of_lt (show dest + 1 < 2 ^ 32 by omega),
      wrap32_of_lt (show src + 1 < 2 ^ 32 by omega)]
    cases i with
    | zero => rw [memcpy_of_disjoint (by omega) (by omega), Nat.add_zero, writeByte_self,
        Nat.add_zero]
    | succ i =>
      have h : memcpy (writeByte m dest (m src)) (dest + 1) (src + 1) n (dest + 1 + i)
          = writeByte m dest (m src) (src + 1 + i) :=
        ih (by omega) (by omega) (by omega) (by omega)
      rw [show dest + (i + 1) = dest + 1 + i by omega, h, writeByte_of_ne _ _ (by omega),
        show src + (i + 1) = src + 1 + i by omega]

/-- `memset` keeps every byte outside its region. -/
lemma memset_of_disjoint {m : Mem} {start n x : ℕ} {value : UInt8} (hd : start + n < 2 ^ 32)
    (hx : x < start ∨ start + n ≤ x) : memset m start value n x = m x := by
  induction n generalizing m start with
  | zero => rfl
  | succ n ih =>
    rw [memset, wrap32_of_lt (show start + 1 < 2 ^ 32 by omega), ih (by omega) (by omega),
      writeByte_of_ne _ _ (by omega)]

/-- `memset` leaves its value in every byte of the region. -/
lemma memset_apply {m : Mem} {start n i : ℕ} {value : UInt8} (hd : start + n < 2 ^ 32)
    (hi : i < n) : memset m start value n (start + i) = value := by
  induction n generalizing m start i with
  | zero => omega
  | succ n ih =>
    rw [memset, wrap32_of_lt (show start + 1 < 2 ^ 32 by omega)]
    cases i with
    | zero => rw [memset_of_disjoint (by omega) (by omega), Nat.add_zero, writeByte_self]
    | succ i =>
      rw [show start + (i + 1) = start + 1 + i by omega]
      exact ih (by omega) (by omega)

/-- The second loop of `memmove`: `while (len--) *--d = *--s`. -/
def memmoveBackward (m : Mem) (dest src : ℕ) : ℕ → Mem
  | 0 => m
  | n + 1 =>
    memmoveBackward (writeByte m (wrap32 (dest + n)) (m (wrap32 (src + n)))) dest src n

/-- `memmove(dest, src, len)`. -/
def memmove (m : Mem) (dest src len : ℕ) : Mem :=
  if dest < src then memcpy m dest src len else memmoveBackward m dest src len

/-- A copy from the end on leaves what is around it alone. -/
lemma memmoveBackward_of_disjoint {m : Mem} {dest src n x : ℕ} (hd : dest + n ≤ 2 ^ 32)
    (hx : x < dest ∨ dest + n ≤ x) : memmoveBackward m dest src n x = m x := by
  induction n generalizing m with
  | zero => rfl
  | succ n ih =>
    rw [memmoveBackward, ih (by omega) (by omega), wrap32_of_lt (by omega),
      writeByte_of_ne _ _ (by omega)]

/-- **It copies the bytes**, though they overlap. -/
lemma memmoveBackward_apply {m : Mem} {dest src n i : ℕ} (hd : dest + n ≤ 2 ^ 32)
    (hle : src ≤ dest) (hi : i < n) : memmoveBackward m dest src n (dest + i) = m (src + i) := by
  induction n generalizing m with
  | zero => omega
  | succ n ih =>
    rw [memmoveBackward, wrap32_of_lt (show dest + n < 2 ^ 32 by omega),
      wrap32_of_lt (show src + n < 2 ^ 32 by omega)]
    rcases Nat.lt_succ_iff_lt_or_eq.mp hi with hlt | rfl
    · rw [ih (by omega) hlt, writeByte_of_ne _ _ (by omega)]
    · rw [memmoveBackward_of_disjoint (by omega) (by omega), writeByte_self]

/-- `memmove` keeps every byte outside the destination. -/
lemma memmove_of_disjoint {m : Mem} {dest src n x : ℕ} (hd : dest + n ≤ 2 ^ 32)
    (hx : x < dest ∨ dest + n ≤ x) : memmove m dest src n x = m x := by
  rw [memmove]
  split_ifs
  · exact memcpy_of_disjoint hd hx
  · exact memmoveBackward_of_disjoint hd hx

/-- `memmove` copies every byte. -/
lemma memmove_apply {m : Mem} {dest src n i : ℕ} (hd : dest + n ≤ 2 ^ 32) (hs : src + n ≤ 2 ^ 32)
    (hi : i < n) : memmove m dest src n (dest + i) = m (src + i) := by
  rw [memmove]
  split_ifs with hlt
  · exact memcpy_apply hd hs (.inl hlt.le) hi
  · exact memmoveBackward_apply hd (not_lt.mp hlt) hi

end MicroOS
