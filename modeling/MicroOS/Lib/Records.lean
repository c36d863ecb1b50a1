import MicroOS.Lib.ByteMem

/-!
Tables of records in memory.

* `Local`: what a record is depends on its bytes only;
* `records`: the records of a table, at 32-bit addresses;
* `records_eq`: a table that was moved or left alone; `records_set`: one record was written;
  `records_succ`: a table with one more record.
-/

namespace Records

open ByteMem

variable {ρ : Type*} {read : Mem → ℕ → ρ} {w n i p q : ℕ} {m m' : Mem}

/-- A record of `w` bytes is what these bytes say, wherever they are. -/
def Local (read : Mem → ℕ → ρ) (w : ℕ) : Prop :=
  ∀ ⦃m m' : Mem⦄ ⦃a b : ℕ⦄, (∀ i < w, m' (a + i) = m (b + i)) → read m' a = read m b

/-- The `n` records of `w` bytes at `p`. -/
def records (read : Mem → ℕ → ρ) (w : ℕ) (m : Mem) (p n : ℕ) : List ρ :=
  (List.range n).map fun i => read m (wrap32 (p + w * i))

lemma local_readWord : Local readWord 4 := fun _ _ _ _ => readWord_eq

/-- The count of the records that are read. -/
@[simp] lemma length_records (read : Mem → ℕ → ρ) (w : ℕ) (m : Mem) (p n : ℕ) :
    (records read w m p n).length = n := by
  rw [records, List.length_map, List.length_range]

lemma getElem?_records (hi : i < n) :
    (records read w m p n)[i]? = some (read m (wrap32 (p + w * i))) := by
  rw [records, List.getElem?_map, List.getElem?_range hi, Option.map_some]

/-- A record ends where the table does, or before. -/
lemma slot_le (hi : i < n) : w * i + w ≤ w * n := by
  calc w * i + w = w * (i + 1) := by ring
    _ ≤ w * n := Nat.mul_le_mul_left w hi

/-- Where a record that is not empty lies, in a table that the top of the address space does not
cut. -/
lemma wrap32_slot (hw : 0 < w) (hp : p + w * n ≤ 2 ^ 32) (hi : i < n) :
    wrap32 (p + w * i) = p + w * i := by
  have hle : w * i + w ≤ w * n := slot_le hi
  exact wrap32_of_lt (by omega)

variable (hread : Local read w) (hw : 0 < w)

include hread hw

/-- **The same bytes are the same records**, also at two places. -/
lemma records_eq (hp : p + w * n ≤ 2 ^ 32) (hq : q + w * n ≤ 2 ^ 32)
    (h : ∀ x < w * n, m' (q + x) = m (p + x)) : records read w m' q n = records read w m p n := by
  refine List.map_congr_left fun i hi => ?_
  have hi := List.mem_range.mp hi
  have hle : w * i + w ≤ w * n := slot_le hi
  rw [wrap32_slot hw hp hi, wrap32_slot hw hq hi]
  refine hread fun j hj => ?_
  rw [Nat.add_assoc, Nat.add_assoc]
  exact h (w * i + j) (by omega)

/-- **A record is written.** -/
lemma records_set (hp : p + w * n ≤ 2 ^ 32) (hi : i < n)
    (h : ∀ x, x < p + w * i ∨ p + w * i + w ≤ x → m' x = m x) :
    records read w m' p n = (records read w m p n).set i (read m' (p + w * i)) := by
  refine List.ext_getElem? fun j => ?_
  by_cases hj : j < n
  · rw [getElem?_records hj, List.getElem?_set]
    by_cases hij : i = j
    · subst hij
      rw [if_pos rfl, if_pos (by rwa [length_records]), wrap32_slot hw hp hi]
    · rw [if_neg hij, getElem?_records hj, wrap32_slot hw hp hj]
      refine congrArg some (hread fun k hk => h _ ?_)
      rcases Nat.lt_or_gt_of_ne hij with hlt | hlt
      · have hle : w * i + w ≤ w * j := slot_le hlt
        omega
      · have hle : w * j + w ≤ w * i := slot_le hlt
        omega
  · rw [List.getElem?_eq_none (by rw [length_records]; omega),
      List.getElem?_eq_none (by rw [List.length_set, length_records]; omega)]

omit hread in
/-- A table with one more record. -/
lemma records_succ (hp : p + w * (n + 1) ≤ 2 ^ 32) :
    records read w m p (n + 1) = records read w m p n ++ [read m (p + w * n)] := by
  rw [records, List.range_succ, List.map_append, List.map_singleton,
    wrap32_slot hw hp (Nat.lt_succ_self n)]
  rfl

end Records
