import Mathlib.Data.List.TakeWhile
import MicroOS.Lib.Checked

/-!
Strings in the buffers of the user programs, and `strcpy` and `strcat` of `user/libc/string.c`.

* `bufRead`, `bufWrite`, `bufText`: memory from a pointer on, where nothing stands behind the end of
  the list;
* `libcStrcpy`, `libcStrcat`;
* `zeroPadded`: a text with zeros behind it, and what writing, `strcpy` and `strcat` make of it.
-/

namespace MicroOS

open Checked

/-- Why a program stops. -/
inductive BufferFault where
  /-- A read or a write behind the memory that a pointer is into. -/
  | pastEnd
  /-- An index outside of an array. -/
  | index (i : ℤ)
  | nullPointer
  /-- An `assert` that fails, which ends the program. -/
  | assertFailed
  | outOfFuel
  deriving DecidableEq

/-- `mem[i]`. -/
def bufRead (mem : List UInt8) (i : ℕ) : Except BufferFault UInt8 :=
  match mem[i]? with
  | some c => .ok c
  | none => .error .pastEnd

/-- `mem[i] = c`. -/
def bufWrite (mem : List UInt8) (i : ℕ) (c : UInt8) : Except BufferFault (List UInt8) :=
  if i < mem.length then .ok (mem.set i c) else .error .pastEnd

/-- The string at a pointer. -/
def bufText (mem : List UInt8) : Except BufferFault (List UInt8) :=
  if 0 ∈ mem then .ok (mem.takeWhile fun c => c ≠ 0) else .error .pastEnd

/-- Characters are written from an index on. -/
def bufStore (mem : List UInt8) (i : ℕ) : List UInt8 → Except BufferFault (List UInt8)
  | [] => .ok mem
  | c :: src => do bufStore (← bufWrite mem i c) (i + 1) src

/-- `strcpy`, which writes no terminator. For the empty string it would go on behind the terminator
that it copies. -/
def libcStrcpy (dest src : List UInt8) : Except BufferFault (List UInt8) :=
  if src = [] then .error .pastEnd else bufStore dest 0 src

/-- `strcat`. -/
def libcStrcat (dest src : List UInt8) : Except BufferFault (List UInt8) := do
  let length := (← bufText dest).length
  bufWrite (← bufStore dest length src) (length + src.length) 0

section Buffer

variable {text src p : List UInt8} {n : ℕ}

/-- The text of a buffer ends at its first zero. -/
lemma bufText_takeWhile (x rest : List UInt8) :
    bufText (x ++ 0 :: rest) = .ok (x.takeWhile fun c => c ≠ 0) := by
  rw [bufText, if_pos (List.mem_append_right x List.mem_cons_self)]
  congr 1
  induction x with
  | nil => simp
  | cons c x ih =>
    rw [List.cons_append, List.takeWhile_cons, List.takeWhile_cons, ih]

/-- A text without zeros is read back. -/
lemma bufText_append {s : List UInt8} (hs : 0 ∉ s) (rest : List UInt8) :
    bufText (s ++ 0 :: rest) = .ok s := by
  have hall : ∀ c ∈ s, decide (c ≠ 0) = true := fun c hc =>
    decide_eq_true fun h => hs (h ▸ hc)
  rw [bufText_takeWhile, List.takeWhile_eq_self_iff.mpr hall]

/-- A character behind a prefix is read. -/
lemma bufRead_append (p : List UInt8) (c : UInt8) (tail : List UInt8) :
    bufRead (p ++ c :: tail) p.length = .ok c := by
  rw [bufRead, List.getElem?_append_right le_rfl, Nat.sub_self]
  rfl

/-- A character is written behind a prefix. -/
lemma bufWrite_append (p : List UInt8) (c : UInt8) {x : List UInt8} (hx : x ≠ []) :
    bufWrite (p ++ x) p.length c = .ok (p ++ c :: x.drop 1) := by
  obtain ⟨d, x, rfl⟩ := List.exists_cons_of_ne_nil hx
  rw [bufWrite, if_pos (by simp), List.set_append_right _ _ le_rfl, Nat.sub_self,
    List.set_cons_zero]
  rfl

/-- Characters are stored behind a prefix, with room for them. -/
lemma bufStore_append (p : List UInt8) {x : List UInt8} (hroom : src.length ≤ x.length) :
    bufStore (p ++ x) p.length src = .ok (p ++ src ++ x.drop src.length) := by
  induction src generalizing p x with
  | nil => rw [bufStore, List.append_nil, List.length_nil, List.drop_zero]
  | cons c src ih =>
    cases x with
    | nil => exact absurd hroom (by simp)
    | cons d x =>
      have hstep : bufStore (p ++ [c] ++ x) (p ++ [c]).length src =
          .ok (p ++ [c] ++ src ++ x.drop src.length) := ih _ (by simpa using hroom)
      rw [List.length_append, List.length_singleton, List.append_assoc, List.append_assoc p,
        List.singleton_append, List.singleton_append] at hstep
      rw [bufStore, bufWrite_append p c (List.cons_ne_nil d x), ok_bind, List.length_cons]
      exact hstep

/-- `strcpy` into a buffer with room for the characters. -/
lemma libcStrcpy_append (hsrc : src ≠ []) {x : List UInt8} (hroom : src.length ≤ x.length) :
    libcStrcpy x src = .ok (src ++ x.drop src.length) := by
  rw [libcStrcpy, if_neg hsrc]
  exact bufStore_append [] hroom

/-- `strcat` to a string in a buffer with room for the characters. -/
lemma libcStrcat_append (htext : 0 ∉ text) {x : List UInt8} (hroom : src.length ≤ x.length) :
    libcStrcat (text ++ 0 :: x) src = .ok (text ++ src ++ 0 :: x.drop src.length) := by
  have hne : (0 :: x).drop src.length ≠ [] := by
    rw [Ne, List.drop_eq_nil_iff, List.length_cons]
    omega
  have hstore : bufStore (text ++ 0 :: x) text.length src =
      .ok (text ++ src ++ (0 :: x).drop src.length) :=
    bufStore_append text (by rw [List.length_cons]; omega)
  rw [libcStrcat, bufText_append htext, ok_bind]
  dsimp only
  rw [hstore, ok_bind, ← List.length_append, bufWrite_append _ 0 hne, List.drop_drop, Nat.add_comm,
    Nat.add_comm 1, List.drop_succ_cons]

/-- A text with zeros up to the end of its buffer. -/
def zeroPadded (n : ℕ) (text : List UInt8) : List UInt8 :=
  text ++ List.replicate (n - text.length) 0

lemma zeroPadded_nil (n : ℕ) : zeroPadded n [] = List.replicate n 0 := by
  rw [zeroPadded, List.length_nil, Nat.sub_zero, List.nil_append]

/-- A text that is shorter than the buffer has a zero behind it. -/
lemma zeroPadded_of_lt (hlt : text.length < n) :
    ∃ k, zeroPadded n text = text ++ 0 :: List.replicate k 0 ∧ n = text.length + 1 + k := by
  obtain ⟨k, rfl⟩ := Nat.exists_eq_add_of_lt hlt
  refine ⟨k, ?_, by omega⟩
  rw [zeroPadded, Nat.add_assoc, Nat.add_sub_cancel_left, List.replicate_succ]

/-- So it is read back. -/
lemma bufText_zeroPadded (htext : 0 ∉ text) (hlt : text.length < n) :
    bufText (zeroPadded n text) = .ok text := by
  obtain ⟨k, hpadded, -⟩ := zeroPadded_of_lt hlt
  rw [hpadded, bufText_append htext]

/-- A character at its end is added to it. -/
lemma bufWrite_zeroPadded (c : UInt8) (hlt : text.length < n) :
    bufWrite (zeroPadded n text) text.length c = .ok (zeroPadded n (text ++ [c])) := by
  obtain ⟨k, hpadded, hn⟩ := zeroPadded_of_lt hlt
  rw [hpadded, bufWrite_append text c (List.cons_ne_nil _ _), zeroPadded, List.length_append,
    List.length_singleton, hn, Nat.add_sub_cancel_left, List.append_assoc, List.singleton_append]
  rfl

/-- `strcpy` into a buffer of zeros. -/
lemma libcStrcpy_zeroPadded (hsrc : src ≠ []) (hlt : src.length < n) :
    libcStrcpy (zeroPadded n []) src = .ok (zeroPadded n src) := by
  rw [zeroPadded_nil, libcStrcpy_append hsrc (by rw [List.length_replicate]; exact hlt.le),
    List.drop_replicate, zeroPadded]

/-- `strcat` to a text in a buffer of zeros. -/
lemma libcStrcat_zeroPadded (htext : 0 ∉ text) (hlt : text.length + src.length < n) :
    libcStrcat (zeroPadded n text) src = .ok (zeroPadded n (text ++ src)) := by
  have hfits : text.length < n := by omega
  obtain ⟨k, hpadded, hn⟩ := zeroPadded_of_lt hfits
  have hrest : n - (text ++ src).length = (k - src.length) + 1 := by
    rw [List.length_append]
    omega
  rw [hpadded, libcStrcat_append htext (by rw [List.length_replicate]; omega), List.drop_replicate,
    zeroPadded, hrest, List.replicate_succ]

end Buffer

end MicroOS
