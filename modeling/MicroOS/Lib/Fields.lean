import Mathlib.Tactic

/-!
Readers of fields that stand one behind the other.

A reader looks at a list from a place on and returns the place behind the field that it has read.

* `Accepts`: it returns where a field of the kind stands, and stops with one error elsewhere.
* `Accepts.both`: a field and another one behind it; `Accepts.optional`: a field that may be left
  out.
-/

namespace Fields

variable {ε α : Type} {bad : ε} {P : List α → Prop} {Q : List α → List α → Prop}
  {pre rest x y : List α} {v : Except ε ℕ} {g : ℕ → Except ε ℕ}

/-- `v` is what a reader of `P` makes of `rest`, which stands behind `pre`. -/
structure Accepts (bad : ε) (P : List α → Prop) (pre rest : List α) (v : Except ε ℕ) : Prop where
  ok : ∀ x y, x ++ y = rest → P x → v = .ok (pre ++ x).length
  error : (∀ x y, x ++ y = rest → ¬ P x) → v = .error bad

/-- The reader stops, or it has read a field. -/
lemma Accepts.cases (h : Accepts bad P pre rest v) :
    v = .error bad ∨ ∃ x y, x ++ y = rest ∧ P x ∧ v = .ok (pre ++ x).length := by
  by_cases hP : ∃ x y, x ++ y = rest ∧ P x
  · obtain ⟨x, y, hrest, hx⟩ := hP
    exact .inr ⟨x, y, hrest, hx, h.ok x y hrest hx⟩
  · exact .inl (h.error fun x y hrest hx => hP ⟨x, y, hrest, hx⟩)

/-- A field, and another one behind it. -/
def Both (P : List α → Prop) (Q : List α → List α → Prop) (z : List α) : Prop :=
  ∃ x y, z = x ++ y ∧ P x ∧ Q x y

/-- **Two readers, one after the other.** -/
lemma Accepts.both (h : Accepts bad P pre rest v)
    (hg : ∀ x y, x ++ y = rest → P x → Accepts bad (Q x) (pre ++ x) y (g (pre ++ x).length)) :
    Accepts bad (Both P Q) pre rest (v >>= g) where
  ok z w hrest hz := by
    obtain ⟨x, y, rfl, hx, hy⟩ := hz
    rw [List.append_assoc] at hrest
    rw [h.ok x _ hrest hx, ← List.append_assoc]
    exact (hg x _ hrest hx).ok y w rfl hy
  error hnone := by
    rcases h.cases with herr | ⟨x, y, hrest, hx, hok⟩
    · rw [herr]
      rfl
    · rw [hok]
      refine (hg x y hrest hx).error fun y' w hy hQ => hnone (x ++ y') w ?_ ⟨x, y', rfl, hx, hQ⟩
      rw [List.append_assoc, hy, hrest]

/-- A field that is there on a condition. -/
def Optional (b : Prop) (P : List α → Prop) (x : List α) : Prop := (b → P x) ∧ (¬ b → x = [])

/-- **A field may be left out.** -/
lemma Accepts.optional {b : Prop} [Decidable b] (h : b → Accepts bad P pre rest v) :
    Accepts bad (Optional b P) pre rest (if b then v else .ok pre.length) := by
  by_cases hb : b
  · rw [if_pos hb]
    exact ⟨fun x y hrest hx => (h hb).ok x y hrest (hx.1 hb),
      fun hnone => (h hb).error fun x y hrest hx =>
        hnone x y hrest ⟨fun _ => hx, fun hnb => absurd hb hnb⟩⟩
  · rw [if_neg hb]
    refine ⟨fun x y _ hx => by rw [hx.2 hb, List.append_nil], fun hnone => ?_⟩
    exact absurd ⟨fun h => absurd h hb, fun _ => rfl⟩ (hnone [] rest rfl)

/-- What an optional field holds, if it is there. -/
lemma optional_iff {b : Prop} [Decidable b] {β : Type} {V : β → Prop} {enc : β → List α}
    (hV : ∃ e, V e) :
    Optional b (fun x => ∃ e, V e ∧ x = enc e) x ↔ ∃ e, V e ∧ x = if b then enc e else [] := by
  by_cases hb : b
  · simp only [Optional, hb, if_true, true_implies, not_true_eq_false, false_implies, and_true]
  · simp only [Optional, hb, if_false, false_implies, not_false_eq_true, true_implies, true_and]
    exact ⟨fun hx => hV.imp fun e he => ⟨he, hx⟩, fun ⟨_, _, hx⟩ => hx⟩

end Fields
