import Mathlib.Tactic

/-!
Tables that are searched from the front.

* `Slots.insert`: a value is put into the first free slot, one value marking the slots that are
  free, or behind the table; `mem_insert_iff`: what is in the table afterwards, the free slots
  apart;
* `filter_set_perm`: the slots in use, when a free one is taken;
* `Slots.clear`: the first slot with a property becomes free; `mem_clear_iff`;
* `Slots.Distinct`: every value stands once, the free slots apart; `Distinct.insert` and
  `Distinct.clear` keep it;
* `Slots.upsert`: a value is put in place of the first one with a property, or behind the table;
  `find?_upsert_self` says what a later search finds.
-/

namespace Slots

variable {α : Type*} [DecidableEq α] {free a b : α} {l : List α}

/-- A value is put into the first free slot, or behind the table. -/
def insert (free : α) (l : List α) (a : α) : List α :=
  if free ∈ l then l.set (l.idxOf free) a else l ++ [a]

/-- What is inserted is there. -/
lemma mem_insert_self : a ∈ insert free l a := by
  rw [insert]
  split_ifs with h
  · exact List.mem_set (List.idxOf_lt_length_of_mem h) a
  · exact List.mem_append_right l (List.mem_singleton_self a)

/-- What was there stays, a free slot apart. -/
lemma mem_insert_of_mem (hb : b ∈ l) (hne : b ≠ free) : b ∈ insert free l a := by
  rw [insert]
  split_ifs with h
  · obtain ⟨i, hi, rfl⟩ := List.mem_iff_getElem.mp hb
    have hfree : l.idxOf free ≠ i := by
      rintro rfl
      exact hne (List.getElem_idxOf hi)
    have hi' : i < (l.set (l.idxOf free) a).length := by simpa using hi
    exact List.mem_iff_getElem.mpr ⟨i, hi', List.getElem_set_of_ne hfree _ hi'⟩
  · exact List.mem_append_left _ hb

/-- Nothing else is there. -/
lemma mem_of_mem_insert (h : b ∈ insert free l a) : b = a ∨ b ∈ l := by
  rw [insert] at h
  split_ifs at h with hfree
  · exact (List.mem_or_eq_of_mem_set h).symm
  · rcases List.mem_append.mp h with hb | hb
    · exact .inr hb
    · exact .inl (List.mem_singleton.mp hb)

/-- **The table after an insertion**, its free slots apart. -/
lemma mem_insert_iff (hne : b ≠ free) : b ∈ insert free l a ↔ b = a ∨ b ∈ l := by
  refine ⟨mem_of_mem_insert, ?_⟩
  rintro (rfl | hb)
  · exact mem_insert_self
  · exact mem_insert_of_mem hb hne

omit [DecidableEq α] in
/-- A value is put into a slot that is not in use, `p` saying which are. -/
lemma filter_set_perm {p : α → Bool} {i : ℕ} (hi : i < l.length) (hfree : p l[i] = false)
    (ha : p a = true) : ((l.set i a).filter p).Perm (a :: l.filter p) := by
  induction l generalizing i with
  | nil => exact absurd hi (Nat.not_lt_zero i)
  | cons b l ih =>
    cases i with
    | zero =>
      have hb : p b = false := hfree
      rw [List.set_cons_zero, List.filter_cons_of_pos ha,
        List.filter_cons_of_neg (by simp [hb])]
    | succ i =>
      have htail := ih (Nat.lt_of_succ_lt_succ hi) hfree
      rw [List.set_cons_succ]
      by_cases hb : p b = true
      · rw [List.filter_cons_of_pos hb, List.filter_cons_of_pos hb]
        exact (htail.cons b).trans (List.Perm.swap a b _)
      · rwa [List.filter_cons_of_neg hb, List.filter_cons_of_neg hb]

/-! ### Tables without duplicates -/

/-- Every value stands once, the free slots apart. -/
def Distinct (free : α) (l : List α) : Prop := ∀ a ∈ l, a ≠ free → l.count a = 1

/-- The first slot with a property becomes free. -/
def clear (free : α) (p : α → Bool) (l : List α) : List α := l.set (l.findIdx p) free

lemma distinct_nil (free : α) : Distinct free [] := fun _ h => absurd h List.not_mem_nil

/-- How often a value stands in the table after an insertion. -/
lemma count_insert (hb : b ≠ free) :
    (insert free l a).count b = l.count b + if a = b then 1 else 0 := by
  rw [insert]
  split_ifs with hfree hab hab
  · have hidx := List.idxOf_lt_length_of_mem hfree
    rw [List.count_set hidx, List.getElem_idxOf hidx, if_neg (by simpa using hb.symm),
      if_pos (by simpa using hab), Nat.sub_zero]
  · have hidx := List.idxOf_lt_length_of_mem hfree
    rw [List.count_set hidx, List.getElem_idxOf hidx, if_neg (by simpa using hb.symm),
      if_neg (by simpa using hab), Nat.sub_zero]
  · rw [List.count_append, hab, List.count_singleton_self]
  · rw [List.count_append, List.count_singleton, if_neg (by simpa using hab)]

/-- A new value keeps the table without duplicates. -/
lemma Distinct.insert (h : Distinct free l) (ha : a ∉ l) : Distinct free (insert free l a) := by
  intro b hb hne
  rw [count_insert hne]
  split_ifs with hab
  · rw [← hab, List.count_eq_zero_of_not_mem ha]
  · exact h b ((mem_of_mem_insert hb).resolve_left (Ne.symm hab)) hne

/-- Without the free slots, the table has no duplicates. -/
lemma Distinct.nodup_filter (h : Distinct free l) : (l.filter (· ≠ free)).Nodup := by
  rw [List.nodup_iff_count_le_one]
  intro b
  by_cases hb : b ∈ l.filter (· ≠ free)
  · obtain ⟨hmem, hne⟩ := List.mem_filter.mp hb
    exact (List.filter_sublist.count_le b).trans_eq (h b hmem (by simpa using hne))
  · rw [List.count_eq_zero_of_not_mem hb]
    exact Nat.zero_le 1

section Clear

variable {p : α → Bool}

/-- How often a value stands in the table after a slot has become free. -/
lemma count_clear (ha : a ∈ l) (hp : ∀ x ∈ l, p x = true ↔ x = a) (hb : b ≠ free) :
    (clear free p l).count b = l.count b - if a = b then 1 else 0 := by
  have hidx : l.findIdx p < l.length :=
    List.findIdx_lt_length_of_exists ⟨a, ha, (hp a ha).mpr rfl⟩
  have hget : l[l.findIdx p] = a := (hp _ (List.getElem_mem hidx)).mp List.findIdx_getElem
  rw [clear, List.count_set hidx, hget]
  simp only [beq_iff_eq, hb.symm, if_false, Nat.add_zero]

/-- **The table after a slot has become free.** -/
lemma mem_clear_iff (h : Distinct free l) (ha : a ∈ l) (hp : ∀ x ∈ l, p x = true ↔ x = a)
    (hb : b ≠ free) : b ∈ clear free p l ↔ b ∈ l ∧ b ≠ a := by
  rw [← List.count_pos_iff, count_clear ha hp hb]
  split_ifs with hab
  · subst hab
    rw [h a ha hb]
    simp
  · rw [Nat.sub_zero, List.count_pos_iff]
    exact ⟨fun hmem => ⟨hmem, Ne.symm hab⟩, fun hmem => hmem.1⟩

/-- Clearing one element keeps the others distinct. -/
lemma Distinct.clear (h : Distinct free l) (ha : a ∈ l) (hp : ∀ x ∈ l, p x = true ↔ x = a) :
    Distinct free (clear free p l) := by
  intro b hb hne
  obtain ⟨hmem, hba⟩ := (mem_clear_iff h ha hp hne).mp hb
  rw [count_clear ha hp hne, if_neg hba.symm, Nat.sub_zero, h b hmem hne]

end Clear

omit [DecidableEq α] in
/-- The search finds the only value with the property. -/
lemma find?_eq_some {p : α → Bool} (ha : a ∈ l) (hp : ∀ x ∈ l, p x = true ↔ x = a) :
    l.find? p = some a := by
  obtain ⟨x, hx⟩ := Option.isSome_iff_exists.mp (List.find?_isSome.mpr ⟨a, ha, (hp a ha).mpr rfl⟩)
  rw [hx, (hp x (List.mem_of_find?_eq_some hx)).mp (List.find?_some hx)]

/-! ### Replacing the first match -/

section Upsert

variable {β : Type*} {p q : β → Bool} {new x : β} {table : List β}

/-- A value is put in place of the first one that `p` holds of, or behind the table. -/
def upsert (p : β → Bool) (new : β) : List β → List β
  | [] => [new]
  | x :: table => if p x then new :: table else x :: upsert p new table

/-- An element of a key that is there takes its place. -/
lemma upsert_append {front back : List β} (hfront : ∀ y ∈ front, p y = false) (hx : p x) :
    upsert p new (front ++ x :: back) = front ++ new :: back := by
  induction front with
  | nil => rw [List.nil_append, List.nil_append, upsert, if_pos hx]
  | cons y front ih =>
    rw [List.cons_append, upsert, hfront y List.mem_cons_self, if_neg Bool.false_ne_true,
      ih fun z hz => hfront z (List.mem_cons_of_mem y hz), List.cons_append]

/-- The search that made room for a value finds it afterwards. -/
lemma find?_upsert_self (hnew : p new) : (upsert p new table).find? p = some new := by
  induction table with
  | nil => exact List.find?_cons_of_pos hnew
  | cons x table ih =>
    rw [upsert]
    split_ifs with hx
    · exact List.find?_cons_of_pos hnew
    · rw [List.find?_cons_of_neg hx, ih]

end Upsert

end Slots
