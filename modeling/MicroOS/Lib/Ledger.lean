import Mathlib.Tactic

/-!
Ledgers of what was taken and given back.

* `Entry`: something is taken or given;
* `taken`, `given`: what a ledger took and gave in all, with multiplicities;
* `Sound`: at no time was more given than taken;
* `Open`: a sound ledger with what it still holds, which `Open.take` and `Open.give` follow;
  `Open.balanced`: one that holds nothing gave what it took.
-/

namespace Ledger

variable {α : Type*}

/-- An entry of a ledger. -/
inductive Entry (α : Type*) where
  | take (s : Multiset α)
  | give (s : Multiset α)

/-- What an entry takes. -/
def Entry.taken : Entry α → Multiset α
  | .take s => s
  | .give _ => 0

/-- What an entry gives. -/
def Entry.given : Entry α → Multiset α
  | .take _ => 0
  | .give s => s

/-- What a ledger took. -/
def taken (l : List (Entry α)) : Multiset α := (l.map Entry.taken).sum

/-- What a ledger gave. -/
def given (l : List (Entry α)) : Multiset α := (l.map Entry.given).sum

@[simp] lemma taken_nil : taken ([] : List (Entry α)) = 0 := rfl

@[simp] lemma given_nil : given ([] : List (Entry α)) = 0 := rfl

@[simp] lemma taken_concat (l : List (Entry α)) (e : Entry α) :
    taken (l ++ [e]) = taken l + e.taken := by
  simp [taken]

/-- What was given back, with one more entry. -/
@[simp] lemma given_concat (l : List (Entry α)) (e : Entry α) :
    given (l ++ [e]) = given l + e.given := by
  simp [given]

/-- At no time was more given than taken. -/
def Sound (l : List (Entry α)) : Prop := ∀ p, p <+: l → given p ≤ taken p

/-- **A ledger that holds `s`.** -/
structure Open (l : List (Entry α)) (s : Multiset α) : Prop where
  sound : Sound l
  holds : taken l = given l + s

namespace Open

variable {l : List (Entry α)} {s t : Multiset α}

/-- At the start nothing is out. -/
lemma nil : Open ([] : List (Entry α)) 0 := by
  refine ⟨fun p hp => ?_, rfl⟩
  rw [List.prefix_nil.mp hp]
  exact le_rfl

/-- An entry is added. -/
lemma concat {e : Entry α} (h : Open l s) (heq : s + e.taken = e.given + t) :
    Open (l ++ [e]) t := by
  have hholds : taken (l ++ [e]) = given (l ++ [e]) + t := by
    calc taken (l ++ [e]) = given l + (s + e.taken) := by
          rw [taken_concat, h.holds, add_assoc]
      _ = given (l ++ [e]) + t := by rw [heq, given_concat, add_assoc]
  refine ⟨fun p hp => ?_, hholds⟩
  rcases List.prefix_concat_iff.mp hp with rfl | hp
  · rw [hholds]
    exact Multiset.le_add_right _ _
  · exact h.sound p hp

lemma take (h : Open l s) (t : Multiset α) : Open (l ++ [.take t]) (s + t) :=
  h.concat (zero_add _).symm

lemma give (h : Open l (s + t)) : Open (l ++ [.give s]) t :=
  h.concat (add_zero _)

lemma balanced (h : Open l 0) : given l = taken l := by
  rw [h.holds, add_zero]

end Open

end Ledger
