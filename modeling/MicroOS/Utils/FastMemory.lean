import MicroOS.Utils.String

/-!
The two forms of `memcpy` and `memset` in `utils/string.c`.

* `fastMemcpy`, `fastMemset`: with `FAST_MEMORY`, word by word; `plainMemcpy`, `plainMemset`:
  without. Each is the memory that it leaves and the pointer that it returns;
* `movsl_eq`, `stosl_eq`: what the words do to memory, as bytes;
* `fast_memory_agrees_iff`: the memory is the same, and when the pointer is.
-/

namespace MicroOS

open ByteMem

variable {m : Mem} {dest src start n a : ℕ} {value : UInt8}

/-- `edi` or `esi` after `n` words. -/
def advance (p : ℕ) : ℕ → ℕ
  | 0 => p
  | n + 1 => advance (wrap32 (p + 4)) n

/-- `rep stosl` with `n` in `ecx`. -/
def stosl (m : Mem) (start longValue : ℕ) : ℕ → Mem
  | 0 => m
  | n + 1 => stosl (writeWord m start longValue) (wrap32 (start + 4)) longValue n

/-- `memcpy` with `FAST_MEMORY`. The assembly changes `dest` and `src` themselves. -/
def fastMemcpy (m : Mem) (dest src n : ℕ) : Mem × ℕ :=
  let nn := n / 4
  let m := movsl m dest src nn
  let dest := advance dest nn
  let src := advance src nn
  (memcpy m dest src (n % 4), dest)

/-- `long_value`: four times the byte. -/
def longValue (value : UInt8) : ℕ :=
  value.toNat <<< 24 ||| value.toNat <<< 16 ||| value.toNat <<< 8 ||| value.toNat

/-- `memset` with `FAST_MEMORY`. -/
def fastMemset (m : Mem) (start : ℕ) (value : UInt8) (num : ℕ) : Mem × ℕ :=
  let nn := num / 4
  let m := stosl m start (longValue value) nn
  let start := advance start nn
  (memset m start value (num % 4), start)

/-- `memcpy` without `FAST_MEMORY`. -/
def plainMemcpy (m : Mem) (dest src n : ℕ) : Mem × ℕ := (memcpy m dest src n, dest)

/-- `memset` without `FAST_MEMORY`. -/
def plainMemset (m : Mem) (start : ℕ) (value : UInt8) (num : ℕ) : Mem × ℕ :=
  (memset m start value num, start)

/-! ### Bytes -/

/-- The byte stands four times in the word. -/
lemma longValue_eq (value : UInt8) : longValue value =
    value.toNat + 2 ^ 8 * value.toNat + 2 ^ 16 * value.toNat + 2 ^ 24 * value.toNat := by
  have h := value.toNat_lt
  have hsmall : value.toNat < 2 ^ 8 := h
  rw [longValue, Nat.or_assoc, Nat.or_assoc, ← Nat.shiftLeft_add_eq_or_of_lt hsmall,
    ← Nat.shiftLeft_add_eq_or_of_lt (b := _ <<< 8 + _), ← Nat.shiftLeft_add_eq_or_of_lt]
  · simp only [Nat.shiftLeft_eq]
    ring
  · simp only [Nat.shiftLeft_eq]
    omega
  · simp only [Nat.shiftLeft_eq]
    omega

/-- An address that is moved on by double words wraps. -/
lemma advance_eq (p n : ℕ) (h : p < 2 ^ 32) : advance p n = wrap32 (p + 4 * n) := by
  induction n generalizing p with
  | zero => rw [advance, Nat.mul_zero, Nat.add_zero, wrap32_of_lt h]
  | succ n ih =>
    rw [advance, ih _ (wrap32_lt _), wrap32, wrap32, wrap32, Nat.mod_add_mod]
    congr 1
    ring

/-- A pointer that has gone on by less than the whole address space is another one. -/
lemma advance_eq_self (h : start + n ≤ 2 ^ 32) (hn : n < 2 ^ 32) :
    advance start (n / 4) = start ↔ n < 4 := by
  constructor
  · intro heq
    by_contra hlt
    rw [advance_eq start _ (by omega), wrap32] at heq
    omega
  · intro hlt
    rw [Nat.div_eq_of_lt hlt, advance]

/-! ### Words -/

/-- The bytes of a copy in two parts. -/
lemma memcpy_add (hd : dest + a < 2 ^ 32) (hs : src + a < 2 ^ 32) (m : Mem) (n : ℕ) :
    memcpy m dest src (a + n) = memcpy (memcpy m dest src a) (dest + a) (src + a) n := by
  induction a generalizing m dest src with
  | zero => rw [Nat.zero_add, memcpy, Nat.add_zero, Nat.add_zero]
  | succ a ih =>
    rw [Nat.add_right_comm, memcpy, memcpy, wrap32_of_lt (by omega), wrap32_of_lt (by omega),
      ih (by omega) (by omega), Nat.add_right_comm dest, Nat.add_right_comm src, Nat.add_assoc,
      Nat.add_assoc src]

/-- The bytes of a fill in two parts. -/
lemma memset_add (hd : start + a < 2 ^ 32) (m : Mem) (n : ℕ) :
    memset m start value (a + n) = memset (memset m start value a) (start + a) value n := by
  induction a generalizing m start with
  | zero => rw [Nat.zero_add, memset, Nat.add_zero]
  | succ a ih =>
    rw [Nat.add_right_comm, memset, memset, wrap32_of_lt (by omega), ih (by omega),
      Nat.add_right_comm start, Nat.add_assoc]

/-- One word of `rep movsl` is four bytes. -/
lemma writeWord_readWord_eq (hd : dest + 4 ≤ 2 ^ 32) (hs : src + 4 ≤ 2 ^ 32)
    (hdisj : dest + 4 ≤ src ∨ src + 4 ≤ dest) :
    writeWord m dest (readWord m src) = memcpy m dest src 4 := by
  have hwrap : ∀ p i, i < 4 → p + 4 ≤ 2 ^ 32 → wrap32 (p + i) = p + i := fun p i hi hp =>
    wrap32_of_lt (by omega)
  have hread : ∀ i j b (m : Mem), i < 4 → j < 4 →
      writeByte m (dest + i) b (src + j) = m (src + j) := fun i j b m hi hj =>
    writeByte_of_ne m b (by omega)
  have hread₀ : ∀ j b (m : Mem), j < 4 → writeByte m dest b (src + j) = m (src + j) :=
    fun j b m hj => hread 0 j b m (by norm_num) hj
  rw [readWord, writeWord_bytes]
  simp only [memcpy, hwrap dest 1 (by norm_num) hd, hwrap src 1 (by norm_num) hs, Nat.add_assoc,
    Nat.reduceAdd, hwrap dest 2 (by norm_num) hd, hwrap src 2 (by norm_num) hs,
    hwrap dest 3 (by norm_num) hd, hwrap src 3 (by norm_num) hs, hread₀ 1 _ _ (by norm_num),
    hread₀ 2 _ _ (by norm_num), hread₀ 3 _ _ (by norm_num),
    hread 1 2 _ _ (by norm_num) (by norm_num), hread 1 3 _ _ (by norm_num) (by norm_num),
    hread 2 3 _ _ (by norm_num) (by norm_num)]

/-- One word of `rep stosl` is four bytes. -/
lemma writeWord_longValue (hd : start + 4 ≤ 2 ^ 32) :
    writeWord m start (longValue value) = memset m start value 4 := by
  have hwrap : ∀ i < 4, wrap32 (start + i) = start + i := fun i hi => wrap32_of_lt (by omega)
  rw [longValue_eq, writeWord_bytes]
  simp only [memset, hwrap 1 (by norm_num), Nat.add_assoc, Nat.reduceAdd, hwrap 2 (by norm_num),
    hwrap 3 (by norm_num)]

/-- **`rep movsl` copies bytes.** -/
lemma movsl_eq (hd : dest + 4 * n ≤ 2 ^ 32) (hs : src + 4 * n ≤ 2 ^ 32)
    (hdisj : dest + 4 * n ≤ src ∨ src + 4 * n ≤ dest) :
    movsl m dest src n = memcpy m dest src (4 * n) := by
  induction n generalizing m dest src with
  | zero => rfl
  | succ n ih =>
    rw [movsl, writeWord_readWord_eq (by omega) (by omega) (by omega)]
    cases n with
    | zero => rfl
    | succ n =>
      have hd4 : wrap32 (dest + 4) = dest + 4 := wrap32_of_lt (by omega)
      have hs4 : wrap32 (src + 4) = src + 4 := wrap32_of_lt (by omega)
      rw [hd4, hs4, ih (by omega) (by omega) (by omega), ← memcpy_add (by omega) (by omega)]
      congr 1
      ring

/-- **`rep stosl` fills bytes.** -/
lemma stosl_eq (hd : start + 4 * n ≤ 2 ^ 32) :
    stosl m start (longValue value) n = memset m start value (4 * n) := by
  induction n generalizing m start with
  | zero => rfl
  | succ n ih =>
    rw [stosl, writeWord_longValue (by omega)]
    cases n with
    | zero => rfl
    | succ n =>
      have hd4 : wrap32 (start + 4) = start + 4 := wrap32_of_lt (by omega)
      rw [hd4, ih (by omega), ← memset_add (by omega)]
      congr 1
      ring

/-! ### The two forms -/

/-- **The memory is the same** after both forms of `memcpy`. -/
lemma fastMemcpy_memory (hd : dest + n ≤ 2 ^ 32) (hs : src + n ≤ 2 ^ 32) (hn : n < 2 ^ 32)
    (hdisj : dest + n ≤ src ∨ src + n ≤ dest) :
    (fastMemcpy m dest src n).1 = memcpy m dest src n := by
  have hwords : 4 * (n / 4) + n % 4 = n := Nat.div_add_mod n 4
  rw [fastMemcpy]
  dsimp only
  rw [movsl_eq (by omega) (by omega) (by omega)]
  by_cases hrest : n % 4 = 0
  · rw [hrest, memcpy, show 4 * (n / 4) = n by omega]
  · rw [advance_eq dest _ (by omega), advance_eq src _ (by omega), wrap32_of_lt (by omega),
      wrap32_of_lt (by omega), ← memcpy_add (by omega) (by omega), hwords]

/-- The memory is the same after both forms of `memset`. -/
lemma fastMemset_memory (hd : start + n ≤ 2 ^ 32) (hn : n < 2 ^ 32) :
    (fastMemset m start value n).1 = memset m start value n := by
  have hwords : 4 * (n / 4) + n % 4 = n := Nat.div_add_mod n 4
  rw [fastMemset]
  dsimp only
  rw [stosl_eq (by omega)]
  by_cases hrest : n % 4 = 0
  · rw [hrest, memset, show 4 * (n / 4) = n by omega]
  · rw [advance_eq start _ (by omega), wrap32_of_lt (by omega), ← memset_add (by omega), hwords]

/-- **`FAST_MEMORY` agrees with the plain loops** for less than a word: it leaves the same memory
for every length, but from four bytes on the pointer that it returns is behind the words. -/
theorem fast_memory_agrees_iff (m : Mem) (dest src n : ℕ) (value : UInt8) (hn : n < 2 ^ 32)
    (hd : dest + n ≤ 2 ^ 32) :
    (src + n ≤ 2 ^ 32 → (dest + n ≤ src ∨ src + n ≤ dest) →
      (fastMemcpy m dest src n).1 = (plainMemcpy m dest src n).1 ∧
      (fastMemcpy m dest src n = plainMemcpy m dest src n ↔ n < 4)) ∧
    (fastMemset m dest value n).1 = (plainMemset m dest value n).1 ∧
    (fastMemset m dest value n = plainMemset m dest value n ↔ n < 4) := by
  refine ⟨fun hs hdisj => ?_, ?_⟩
  · have hmem : (fastMemcpy m dest src n).1 = (plainMemcpy m dest src n).1 :=
      fastMemcpy_memory hd hs hn hdisj
    refine ⟨hmem, ?_⟩
    rw [Prod.ext_iff, and_iff_right hmem]
    exact advance_eq_self hd hn
  · have hmem : (fastMemset m dest value n).1 = (plainMemset m dest value n).1 :=
      fastMemset_memory hd hn
    refine ⟨hmem, ?_⟩
    rw [Prod.ext_iff, and_iff_right hmem]
    exact advance_eq_self hd hn

/-- Three bytes at `0x1000`. -/
theorem fast_memory_three :
    fastMemcpy (fun _ => 0) 0x1000 0x2000 3 = plainMemcpy (fun _ => 0) 0x1000 0x2000 3 ∧
      fastMemset (fun _ => 0) 0x1000 0 3 = plainMemset (fun _ => 0) 0x1000 0 3 :=
  have h := fast_memory_agrees_iff (fun _ => 0) 0x1000 0x2000 3 0 (by norm_num) (by norm_num)
  ⟨(h.1 (by norm_num) (by norm_num)).2.mpr (by norm_num), h.2.2.mpr (by norm_num)⟩

/-- **Four bytes** at `0x1000`: the pointer that is returned is `0x1004`. -/
theorem fast_memory_returns_end : (fastMemcpy (fun _ => 0) 0x1000 0x2000 4).2 = 0x1004 ∧
    (plainMemcpy (fun _ => 0) 0x1000 0x2000 4).2 = 0x1000 ∧
    (fastMemset (fun _ => 0) 0x1000 1 4).2 = 0x1004 ∧
    (plainMemset (fun _ => 0) 0x1000 1 4).2 = 0x1000 := by
  decide

end MicroOS
