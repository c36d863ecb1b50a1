import Mathlib.Tactic

/-!
Strings that stand one behind the other, with a terminator between them.

* `stringAt`: the string that begins at a place; `starts`: where the strings begin;
* `map_stringAt_starts`: they are the parts between the terminators;
* `map_stringAt_cut`: they are the parts between the separators that terminators are written over;
* `intercalate_splitOn_map`: with another character between them, the parts give the list in which
  this character stands for the terminator.
-/

namespace Terminated

variable {α : Type} [DecidableEq α] {z y c : α} {m : List α}

/-- What stands from a place on up to the terminator. -/
def stringAt (z : α) (m : List α) (o : ℕ) : List α := (m.drop o).takeWhile fun c => c ≠ z

/-- The places of the terminators. -/
def ends (z : α) (m : List α) : List ℕ := (List.range m.length).filter fun i => m[i]? = some z

/-- Where strings begin: at the start and behind each terminator. -/
def starts (z : α) (m : List α) : List ℕ := 0 :: (ends z m).map (· + 1)

/-- A terminator at the front, and those behind it. -/
lemma ends_cons (z c : α) (m : List α) :
    ends z (c :: m) = (if c = z then [0] else []) ++ (ends z m).map (· + 1) := by
  have htail : ((List.range m.length).map Nat.succ).filter (fun i => (c :: m)[i]? = some z) =
      (ends z m).map (· + 1) := by
    rw [List.filter_map, ends]
    rfl
  rw [ends, List.length_cons, List.range_succ_eq_map, List.filter_cons, htail,
    List.getElem?_cons_zero]
  by_cases hc : c = z
  · simp [hc]
  · simp [hc]

/-- **The strings are the parts between the terminators.** -/
lemma map_stringAt_starts (z : α) (m : List α) :
    (starts z m).map (stringAt z m) = m.splitOn z := by
  induction m with
  | nil => rfl
  | cons c m ih =>
    have hshift : ((ends z m).map (· + 1)).map (fun o => stringAt z (c :: m) (o + 1)) =
        ((ends z m).map (· + 1)).map (stringAt z m) := rfl
    rw [starts, List.map_cons] at ih
    rw [starts, ends_cons, List.splitOn_cons_eq_if_modifyHead, ← ih]
    by_cases hc : c = z
    · rw [if_pos hc, if_pos (by simpa using hc), List.singleton_append, List.map_cons,
        List.map_cons, List.map_cons, List.map_map]
      congr 1
      simp [stringAt, hc]
    · rw [if_neg hc, if_neg (by simpa using hc), List.nil_append, List.map_cons, List.map_map,
        List.modifyHead_cons]
      congr 1
      simp [stringAt, hc]

/-- A terminator over each separator. -/
def cut (z y : α) (m : List α) : List α := m.map fun c => if c = y then z else c

/-- Where one terminator is put in place of another, the strings end there. -/
lemma ends_cut (hz : z ∉ m) : ends z (cut z y m) = ends y m := by
  induction m with
  | nil => rfl
  | cons c m ih =>
    have hc : c ≠ z := fun h => hz (h ▸ List.mem_cons_self)
    have hiff : (if c = y then z else c) = z ↔ c = y := by
      by_cases h : c = y
      · simp [h]
      · simp [h, hc]
    rw [cut, List.map_cons, ends_cons, ends_cons, ← ih fun h => hz (List.mem_cons_of_mem c h),
      if_congr hiff rfl rfl]
    rfl

/-- A text that is cut is split at what was replaced. -/
lemma splitOn_cut (hz : z ∉ m) : (cut z y m).splitOn z = m.splitOn y := by
  induction m with
  | nil => rfl
  | cons c m ih =>
    have hc : c ≠ z := fun h => hz (h ▸ List.mem_cons_self)
    have htail : (m.map fun c => if c = y then z else c).splitOn z = m.splitOn y :=
      ih fun h => hz (List.mem_cons_of_mem c h)
    rw [cut, List.map_cons, List.splitOn_cons_eq_if_modifyHead,
      List.splitOn_cons_eq_if_modifyHead, htail]
    by_cases h : c = y
    · simp [h]
    · simp [h, hc]

/-- **The strings are the parts between the separators.** -/
lemma map_stringAt_cut (hz : z ∉ m) :
    (starts y m).map (stringAt z (cut z y m)) = m.splitOn y := by
  rw [starts, ← ends_cut hz]
  exact (map_stringAt_starts z _).trans (splitOn_cut hz)

/-- Strings with another character between them. -/
lemma intercalate_splitOn_map (z y : α) (m : List α) :
    [y].intercalate (m.splitOn z) = m.map fun c => if c = z then y else c := by
  induction m with
  | nil => rfl
  | cons c m ih =>
    rw [List.splitOn_cons_eq_if_modifyHead, List.map_cons, ← ih]
    have hne := List.splitOn_ne_nil z m
    by_cases hc : c = z
    · rw [if_pos (by simpa using hc), if_pos hc, List.intercalate_cons_of_ne_nil hne]
      rfl
    · rw [if_neg (by simpa using hc), if_neg hc]
      cases hsplit : m.splitOn z with
      | nil => exact absurd hsplit hne
      | cons l ls =>
        rw [List.modifyHead_cons, List.intercalate_cons_cons_left]

end Terminated
