import Mathlib.Tactic
import Mathlib.Data.Set.Function

/-!
Byte-addressed memory with little-endian 32-bit words, unsigned 32-bit arithmetic on natural
numbers, and the type `int`: a value computed over the integers and stored in 32 bits.

A memory is a total function from addresses to bytes. Stores come with two lemmas each: what
a load of the stored cell returns, and that a byte outside the cell is kept. Everything a
later module says about "no byte outside this region changed" is a `Set.EqOn` obtained from
the second kind.
-/

namespace CInt

/-- The `int` that holds `z`: two's complement, 32 bits. -/
def int (z : ℤ) : ℤ := Int.bmod z (2 ^ 32)

/-- The largest `int`. -/
def intMax : ℤ := 2 ^ 31 - 1

/-- A number in the range of `int` is itself as an `int`. -/
lemma int_of_mem {z : ℤ} (hlo : -2 ^ 31 ≤ z) (hhi : z ≤ intMax) : int z = z := by
  rw [intMax] at hhi
  exact Int.bmod_eq_of_le (by norm_num; omega) (by norm_num; omega)

lemma int_sub_int (x y : ℤ) : int (int x - int y) = int (x - y) := by
  rw [int, int, int, int, Int.sub_bmod_bmod, Int.bmod_sub_bmod]

/-- Storing a number keeps it modulo `2 ^ 32`. -/
lemma int_emod (z : ℤ) : int z % 2 ^ 32 = z % 2 ^ 32 := by
  have h := Int.bmod_emod (x := z) (m := 2 ^ 32)
  push_cast at h
  exact h

lemma int_succ_intMax : int (intMax + 1) = -2 ^ 31 := by
  decide

end CInt

namespace ByteMem

/-! ### Unsigned 32-bit arithmetic -/

/-- The value a 32-bit register keeps of a natural number. -/
def wrap32 (x : ℕ) : ℕ := x % 2 ^ 32

/-- Unsigned 32-bit subtraction. -/
def sub32 (x y : ℕ) : ℕ := (x + (2 ^ 32 - y % 2 ^ 32)) % 2 ^ 32

lemma wrap32_of_lt {x : ℕ} (h : x < 2 ^ 32) : wrap32 x = x := Nat.mod_eq_of_lt h

@[simp] lemma wrap32_zero : wrap32 0 = 0 := rfl

lemma wrap32_lt (x : ℕ) : wrap32 x < 2 ^ 32 := Nat.mod_lt _ (by norm_num)

/-- Without a borrow the subtraction is the one of the natural numbers. -/
lemma sub32_of_le {x y : ℕ} (hx : x < 2 ^ 32) (h : y ≤ x) : sub32 x y = x - y := by
  rw [sub32]
  omega

/-! ### Memory -/

/-- A byte-addressed memory. -/
abbrev Mem := ℕ → UInt8

/-- Store one byte. -/
def writeByte (m : Mem) (a : ℕ) (b : UInt8) : Mem := Function.update m a b

/-- Load a little-endian 32-bit word. -/
def readWord (m : Mem) (a : ℕ) : ℕ :=
  (m a).toNat + 2 ^ 8 * (m (a + 1)).toNat + 2 ^ 16 * (m (a + 2)).toNat
    + 2 ^ 24 * (m (a + 3)).toNat

/-- Store a little-endian 32-bit word. -/
def writeWord (m : Mem) (a v : ℕ) : Mem :=
  writeByte (writeByte (writeByte (writeByte m a (UInt8.ofNat v)) (a + 1) (UInt8.ofNat (v / 2 ^ 8)))
    (a + 2) (UInt8.ofNat (v / 2 ^ 16))) (a + 3) (UInt8.ofNat (v / 2 ^ 24))

@[simp] lemma writeByte_self (m : Mem) (a : ℕ) (b : UInt8) : writeByte m a b a = b :=
  Function.update_self ..

lemma writeByte_of_ne (m : Mem) {a x : ℕ} (b : UInt8) (h : x ≠ a) : writeByte m a b x = m x :=
  Function.update_of_ne h ..

/-- A word store keeps every byte outside its four. -/
lemma writeWord_of_disjoint (m : Mem) {a x : ℕ} (v : ℕ) (h : x < a ∨ a + 4 ≤ x) :
    writeWord m a v x = m x := by
  rw [writeWord, writeByte_of_ne _ _ (by omega), writeByte_of_ne _ _ (by omega),
    writeByte_of_ne _ _ (by omega), writeByte_of_ne _ _ (by omega)]

/-- Four bytes that are the same, also at two places. -/
lemma readWord_eq {m m' : Mem} {a b : ℕ} (h : ∀ i < 4, m' (a + i) = m (b + i)) :
    readWord m' a = readWord m b := by
  have h0 : m' a = m b := h 0 (by norm_num)
  rw [readWord, readWord, h0, h 1 (by norm_num), h 2 (by norm_num), h 3 (by norm_num)]

lemma readWord_congr {m m' : Mem} {a : ℕ} (h : ∀ x, a ≤ x → x < a + 4 → m' x = m x) :
    readWord m' a = readWord m a :=
  readWord_eq fun i hi => h (a + i) (by omega) (by omega)

/-- Writing a word leaves the words apart from it alone. -/
lemma readWord_writeWord_of_disjoint (m : Mem) {a b : ℕ} (v : ℕ)
    (h : a + 4 ≤ b ∨ b + 4 ≤ a) : readWord (writeWord m a v) b = readWord m b :=
  readWord_congr fun _ _ _ => writeWord_of_disjoint m v (by omega)

/-- Writing a byte leaves the words apart from it alone. -/
lemma readWord_writeByte_of_disjoint (m : Mem) {a b : ℕ} (v : UInt8)
    (h : a < b ∨ b + 4 ≤ a) : readWord (writeByte m a v) b = readWord m b :=
  readWord_congr fun _ _ _ => writeByte_of_ne m v (by omega)

/-- A stored word is read back, up to the 32 bits a word has. -/
@[simp] lemma readWord_writeWord (m : Mem) (a v : ℕ) :
    readWord (writeWord m a v) a = wrap32 v := by
  have h3 : writeWord m a v (a + 3) = UInt8.ofNat (v / 2 ^ 24) := by
    rw [writeWord, writeByte_self]
  have h2 : writeWord m a v (a + 2) = UInt8.ofNat (v / 2 ^ 16) := by
    rw [writeWord, writeByte_of_ne _ _ (by omega), writeByte_self]
  have h1 : writeWord m a v (a + 1) = UInt8.ofNat (v / 2 ^ 8) := by
    rw [writeWord, writeByte_of_ne _ _ (by omega), writeByte_of_ne _ _ (by omega), writeByte_self]
  have h0 : writeWord m a v a = UInt8.ofNat v := by
    rw [writeWord, writeByte_of_ne _ _ (by omega), writeByte_of_ne _ _ (by omega),
      writeByte_of_ne _ _ (by omega), writeByte_self]
  rw [readWord, h0, h1, h2, h3, wrap32]
  simp only [UInt8.toNat_ofNat']
  omega

/-- The bytes of a word that is made of bytes. -/
lemma writeWord_bytes (m : Mem) (a : ℕ) (b₀ b₁ b₂ b₃ : UInt8) :
    writeWord m a (b₀.toNat + 2 ^ 8 * b₁.toNat + 2 ^ 16 * b₂.toNat + 2 ^ 24 * b₃.toNat) =
      writeByte (writeByte (writeByte (writeByte m a b₀) (a + 1) b₁) (a + 2) b₂) (a + 3) b₃ := by
  have h₀ := b₀.toNat_lt
  have h₁ := b₁.toNat_lt
  have h₂ := b₂.toNat_lt
  have h₃ := b₃.toNat_lt
  have hbyte : ∀ b : UInt8, ∀ v : ℕ, v % 256 = b.toNat → UInt8.ofNat v = b := by
    intro b v hv
    apply UInt8.toNat_inj.mp
    rw [UInt8.toNat_ofNat']
    omega
  rw [writeWord, hbyte b₀ _ (by omega), hbyte b₁ _ (by omega), hbyte b₂ _ (by omega),
    hbyte b₃ _ (by omega)]

/-- A word that is copied has the bytes of its source. -/
lemma writeWord_readWord {m : Mem} {dest src i : ℕ} (hi : i < 4) :
    writeWord m dest (readWord m src) (dest + i) = m (src + i) := by
  rw [readWord, writeWord_bytes]
  rcases (by omega : i = 0 ∨ i = 1 ∨ i = 2 ∨ i = 3) with rfl | rfl | rfl | rfl
  · rw [writeByte_of_ne _ _ (by omega), writeByte_of_ne _ _ (by omega),
      writeByte_of_ne _ _ (by omega)]
    exact writeByte_self m dest _
  · rw [writeByte_of_ne _ _ (by omega), writeByte_of_ne _ _ (by omega), writeByte_self]
  · rw [writeByte_of_ne _ _ (by omega), writeByte_self]
  · rw [writeByte_self]

end ByteMem
