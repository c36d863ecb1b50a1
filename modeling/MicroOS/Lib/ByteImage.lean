import Mathlib.Data.List.GetD
import Mathlib.Tactic

/-!
Byte images: lists of bytes at an offset, and little-endian numbers among them.

* `Holds`: the bytes of a list are at an offset; `holds_append` takes a record apart into its
  fields, `Holds.congr` is the frame rule;
* `store`: bytes are stored at an offset; `holds_store` and `Holds.store`, at the same place and at
  another one;
* `leBytes`, `leValue`: a number as little-endian bytes, and the number that bytes are;
  `Holds.leValue` reads back what was stored;
* `leNumber`: the number that a list of bytes is;
* `Holds.element`: a number of an array is read; `leWords`: an array of 64-bit numbers.
-/

namespace ByteImage

variable {a a' : ℕ → UInt8} {off off' n v i : ℕ} {b : UInt8} {x y : List UInt8}

/-! ### Bytes at an offset -/

/-- The bytes of a list are at an offset. -/
def Holds (a : ℕ → UInt8) (off : ℕ) (x : List UInt8) : Prop :=
    ∀ i b, x[i]? = some b → a (off + i) = b

lemma holds_nil : Holds a off [] := fun _ _ h => by simp at h

/-- The first byte, and the others. -/
lemma holds_cons : Holds a off (b :: x) ↔ a off = b ∧ Holds a (off + 1) x := by
  refine ⟨fun h => ⟨h 0 b rfl, fun i c hc => ?_⟩, fun ⟨h0, h⟩ i c hc => ?_⟩
  · rw [Nat.add_assoc, Nat.add_comm 1]
    exact h (i + 1) c hc
  · cases i with
    | zero => exact h0.trans (Option.some.inj hc)
    | succ i =>
      rw [Nat.add_comm i, ← Nat.add_assoc]
      exact h i c hc

instance decidableHolds (a : ℕ → UInt8) :
    (off : ℕ) → (x : List UInt8) → Decidable (Holds a off x)
  | _, [] => isTrue holds_nil
  | off, _ :: x =>
    have := decidableHolds a (off + 1) x
    decidable_of_iff _ holds_cons.symm

/-- The bytes behind the first one. -/
lemma Holds.tail (h : Holds a 0 (b :: x)) : Holds (fun i => a (i + 1)) 0 x := by
  intro i c hc
  dsimp only
  rw [Nat.zero_add, Nat.add_comm]
  exact (holds_cons.mp h).2 i c hc

/-- **A record is its fields.** -/
lemma holds_append : Holds a off (x ++ y) ↔ Holds a off x ∧ Holds a (off + x.length) y := by
  induction x generalizing off with
  | nil => simp [holds_nil]
  | cons c x ih =>
    rw [List.cons_append, holds_cons, holds_cons, ih, and_assoc, List.length_cons,
      Nat.add_right_comm, Nat.add_assoc off]

/-- **The frame rule**: only the bytes at the offset matter. -/
lemma Holds.congr (h : Holds a off x)
    (heq : ∀ i, off ≤ i → i < off + x.length → a' i = a i) : Holds a' off x := by
  intro i c hc
  obtain ⟨hi, -⟩ := List.getElem?_eq_some_iff.mp hc
  exact (heq _ (Nat.le_add_right off i) (by omega)).trans (h i c hc)

lemma holds_shift : Holds (fun i => a (off' + i)) off x ↔ Holds a (off' + off) x := by
  simp only [Holds, Nat.add_assoc]

/-- An image from its start is the list. -/
lemma Holds.map_range (h : Holds a 0 x) : (List.range x.length).map a = x := by
  refine List.ext_getElem? fun i => ?_
  by_cases hi : i < x.length
  · have hbyte := h i x[i] (List.getElem?_eq_getElem hi)
    rw [Nat.zero_add] at hbyte
    rw [List.getElem?_map, List.getElem?_range hi, List.getElem?_eq_getElem hi, Option.map_some,
      hbyte]
  · rw [List.getElem?_eq_none (by simpa using hi), List.getElem?_eq_none (not_lt.mp hi)]

/-! ### Stores -/

/-- The bytes of a list are stored at an offset. -/
def store (a : ℕ → UInt8) (off : ℕ) (x : List UInt8) : ℕ → UInt8 :=
  fun i => if off ≤ i then x.getD (i - off) (a i) else a i

/-- A store leaves the other bytes alone. -/
lemma store_of_disjoint (h : i < off ∨ off + x.length ≤ i) : store a off x i = a i := by
  rw [store]
  split_ifs with hle
  · exact List.getD_eq_default _ _ (by omega)
  · rfl

/-- What was stored is there. -/
lemma holds_store : Holds (store a off x) off x := by
  intro i c hc
  rw [store, if_pos (Nat.le_add_right off i), Nat.add_sub_cancel_left, List.getD_eq_getElem?_getD,
    hc]
  rfl

/-- The first byte is stored, and the others behind it. -/
lemma store_update : store (Function.update a off b) (off + 1) x = store a off (b :: x) := by
  funext i
  rw [store, store]
  rcases Nat.lt_trichotomy i off with hlt | rfl | hgt
  · rw [if_neg (by omega), if_neg (by omega), Function.update_of_ne (by omega)]
  · rw [if_neg (by omega), if_pos le_rfl, Function.update_self, Nat.sub_self, List.getD_cons_zero]
  · rw [if_pos (by omega), if_pos (by omega), Function.update_of_ne (by omega),
      show i - off = i - (off + 1) + 1 by omega, List.getD_cons_succ]

/-- Nothing is stored. -/
lemma store_nil : store a off [] = a := by
  funext i
  rw [store]
  split_ifs <;> rfl

lemma Holds.store (h : Holds a off x)
    (hdisj : off' + y.length ≤ off ∨ off + x.length ≤ off') : Holds (store a off' y) off x :=
  h.congr fun _ h1 h2 => store_of_disjoint (by omega)

/-! ### Numbers -/

/-- The last `n` bytes of a number, the lowest first. -/
def leBytes : ℕ → ℕ → List UInt8
  | 0, _ => []
  | n + 1, v => UInt8.ofNat v :: leBytes n (v / 256)

/-- A number is written with as many bytes as are asked for. -/
@[simp] lemma length_leBytes (n v : ℕ) : (leBytes n v).length = n := by
  induction n generalizing v with
  | zero => rfl
  | succ n ih => rw [leBytes, List.length_cons, ih]

/-- The number that `n` bytes are. -/
def leValue (a : ℕ → UInt8) (off : ℕ) : ℕ → ℕ
  | 0 => 0
  | n + 1 => (a off).toNat + 256 * leValue a (off + 1) n

/-- Bytes stand for a number below the power of their count. -/
lemma leValue_lt (a : ℕ → UInt8) (off n : ℕ) : leValue a off n < 256 ^ n := by
  induction n generalizing off with
  | zero => exact Nat.one_pos
  | succ n ih =>
    have hrest := ih (off + 1)
    have hbyte : (a off).toNat < 256 := (a off).toNat_lt
    rw [leValue, pow_succ']
    omega

/-- A number depends on its bytes alone. -/
lemma leValue_congr (h : ∀ i, off ≤ i → i < off + n → a i = a' i) :
    leValue a off n = leValue a' off n := by
  induction n generalizing off with
  | zero => rfl
  | succ n ih =>
    rw [leValue, leValue, h off le_rfl (by omega), ih fun i hle hlt => h i (by omega) (by omega)]

/-- A number at an offset of an image that begins later. -/
lemma leValue_shift (a : ℕ → UInt8) (off' off n : ℕ) :
    leValue (fun i => a (off' + i)) off n = leValue a (off' + off) n := by
  induction n generalizing off with
  | zero => rfl
  | succ n ih => rw [leValue, leValue, ih, Nat.add_assoc]

/-- **A number is read back**, up to the bytes that it was stored with. -/
lemma Holds.leValue_mod (h : Holds a off (leBytes n v)) : leValue a off n = v % 256 ^ n := by
  induction n generalizing off v with
  | zero => rw [leValue, pow_zero, Nat.mod_one]
  | succ n ih =>
    rw [leBytes, holds_cons] at h
    rw [ByteImage.leValue, h.1, ih h.2, UInt8.toNat_ofNat', pow_succ' 256 n, Nat.mod_mul]

lemma Holds.leValue (h : Holds a off (leBytes n v)) (hv : v < 256 ^ n) : leValue a off n = v := by
  rw [h.leValue_mod, Nat.mod_eq_of_lt hv]

/-- The number that a list of bytes is, the lowest first. -/
def leNumber : List UInt8 → ℕ
  | [] => 0
  | b :: x => b.toNat + 256 * leNumber x

/-- A list of bytes stands for a number below the power of its length. -/
lemma leNumber_lt (x : List UInt8) : leNumber x < 256 ^ x.length := by
  induction x with
  | nil => exact Nat.one_pos
  | cons b x ih =>
    have hbyte : b.toNat < 256 := b.toNat_lt
    rw [leNumber, List.length_cons, pow_succ']
    omega

/-- The bytes of a number stand for it, as far as they go. -/
lemma leNumber_leBytes (n v : ℕ) : leNumber (leBytes n v) = v % 256 ^ n := by
  induction n generalizing v with
  | zero => exact (Nat.mod_one v).symm
  | succ n ih => rw [leBytes, leNumber, ih, UInt8.toNat_ofNat', pow_succ' 256 n, Nat.mod_mul]

/-- A list of bytes is that of its number. -/
lemma leBytes_leNumber (x : List UInt8) : leBytes x.length (leNumber x) = x := by
  induction x with
  | nil => rfl
  | cons b x ih =>
    have hbyte : b.toNat < 256 := b.toNat_lt
    have hhead : UInt8.ofNat (b.toNat + 256 * leNumber x) = b := by
      apply UInt8.toNat.inj
      rw [UInt8.toNat_ofNat', Nat.add_mul_mod_self_left, Nat.mod_eq_of_lt hbyte]
    rw [List.length_cons, leNumber, leBytes, hhead, Nat.add_mul_div_left _ _ (by norm_num),
      Nat.div_eq_of_lt hbyte, Nat.zero_add, ih]

/-- Bytes are those of a number if and only if they are as many and come to it. -/
lemma eq_leBytes_iff : x = leBytes n v ↔ x.length = n ∧ leNumber x = v % 256 ^ n := by
  constructor
  · rintro rfl
    exact ⟨length_leBytes n v, leNumber_leBytes n v⟩
  · rintro ⟨rfl, h⟩
    have hlen := length_leBytes x.length v
    rw [← leNumber_leBytes] at h
    calc x = leBytes x.length (leNumber x) := (leBytes_leNumber x).symm
      _ = leBytes (leBytes x.length v).length (leNumber (leBytes x.length v)) := by rw [h, hlen]
      _ = leBytes x.length v := leBytes_leNumber _

/-! ### Arrays -/

/-- An array has as many bytes for each of its numbers. -/
lemma length_leArray (n : ℕ) (l : List ℕ) : (l.flatMap (leBytes n)).length = n * l.length := by
  induction l with
  | nil => rfl
  | cons v l ih =>
    rw [List.flatMap_cons, List.length_append, length_leBytes, ih, List.length_cons]
    ring

/-- **An element of an array is read back.** -/
lemma Holds.element {l : List ℕ} (h : Holds a off (l.flatMap (leBytes n))) (hi : l[i]? = some v)
    (hv : v < 256 ^ n) : ByteImage.leValue a (off + n * i) n = v := by
  induction l generalizing off i with
  | nil => simp at hi
  | cons w l ih =>
    rw [List.flatMap_cons, holds_append, length_leBytes] at h
    cases i with
    | zero =>
      obtain rfl := Option.some.inj hi
      exact h.1.leValue hv
    | succ i =>
      rw [Nat.mul_succ, Nat.add_comm (n * i), ← Nat.add_assoc]
      exact ih h.2 hi

/-- 64-bit numbers, one after the other. -/
def leWords (l : List ℕ) : List UInt8 := l.flatMap (leBytes 8)

@[simp] lemma length_leWords (l : List ℕ) : (leWords l).length = 8 * l.length :=
  length_leArray 8 l

/-- A 64-bit number of an array is read back. -/
lemma Holds.word {l : List ℕ} (h : Holds a off (leWords l)) (hi : l[i]? = some v)
    (hv : v < 2 ^ 64) : ByteImage.leValue a (off + 8 * i) 8 = v :=
  h.element hi (lt_of_lt_of_eq hv (by norm_num))

/-- The numbers of a list are stored one after the other. -/
def storeWords (a : ℕ → UInt8) (off : ℕ) : List ℕ → ℕ → UInt8
  | [] => a
  | v :: l => storeWords (store a off (leBytes 8 v)) (off + 8) l

/-- Storing words leaves the bytes around them alone. -/
lemma storeWords_of_disjoint {l : List ℕ} (h : i < off ∨ off + 8 * l.length ≤ i) :
    storeWords a off l i = a i := by
  induction l generalizing a off with
  | nil => rfl
  | cons v l ih =>
    rw [List.length_cons] at h
    rw [storeWords, ih (by omega), store_of_disjoint (by rw [length_leBytes]; omega)]

/-- The array that was stored is there. -/
lemma holds_storeWords {l : List ℕ} : Holds (storeWords a off l) off (leWords l) := by
  induction l generalizing a off with
  | nil => exact holds_nil
  | cons v l ih =>
    rw [leWords, List.flatMap_cons, holds_append, length_leBytes]
    have hfirst : Holds (store a off (leBytes 8 v)) off (leBytes 8 v) := holds_store
    refine ⟨hfirst.congr fun i h1 h2 => ?_, ih⟩
    rw [length_leBytes] at h2
    exact storeWords_of_disjoint (.inl h2)

/-- What is apart from the words that are stored stays. -/
lemma Holds.storeWords {l : List ℕ} (h : Holds a off x)
    (hdisj : off' + 8 * l.length ≤ off ∨ off + x.length ≤ off') :
    Holds (storeWords a off' l) off x :=
  h.congr fun _ h1 h2 => storeWords_of_disjoint (by omega)

end ByteImage
