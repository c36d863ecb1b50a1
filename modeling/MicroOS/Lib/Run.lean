import Mathlib.Tactic

/-!
Runs of a transition system, in the form the rest of the development uses them: a predicate
of initial states and a step relation, the states they reach, and the rule that an inductive
invariant holds in all of them.

* `Reachable`: the states of finite runs;
* `Reachable.invariant`: what holds initially and is kept by a step holds in every state;
* `Reachable.mono`: fewer steps reach fewer states, the rule behind "in every run whose
  steps all meet the condition";
* `foldl_invariant`, `foldl_invariant_of_steps`: the invariant rules of a run along a schedule;
* `Along`: what holds of every step of a schedule; `along_iff` says that two properties of the
  steps agree along it;
* `Trace`: a run with the events that made it; `Trace.split` cuts it.
-/

namespace Run

variable {σ : Type*}

/-- The states reached from an initial state by finitely many steps. -/
inductive Reachable (init : σ → Prop) (step : σ → σ → Prop) : σ → Prop where
  | start {s : σ} : init s → Reachable init step s
  | next {s t : σ} : Reachable init step s → step s t → Reachable init step t

variable {init : σ → Prop} {step : σ → σ → Prop}

/-- **The invariant rule.** -/
theorem Reachable.invariant (I : σ → Prop) (hinit : ∀ s, init s → I s)
    (hstep : ∀ s t, I s → step s t → I t) {s : σ} (h : Reachable init step s) : I s := by
  induction h with
  | start hs => exact hinit _ hs
  | next _ hst ih => exact hstep _ _ ih hst

/-- A run of fewer steps is a run. -/
theorem Reachable.mono {step' : σ → σ → Prop} (hle : ∀ s t, step s t → step' s t) {s : σ}
    (h : Reachable init step s) : Reachable init step' s := by
  induction h with
  | start hs => exact .start hs
  | next _ hst ih => exact .next ih (hle _ _ hst)

/-! ### Schedules -/

variable {α : Type*} {f : σ → α → σ} {s : σ}

/-- The invariant rule of a run whose steps follow a schedule. -/
theorem foldl_invariant (I : σ → Prop) (hstep : ∀ s a, I s → I (f s a)) (hs : I s) (l : List α) :
    I (l.foldl f s) := by
  induction l generalizing s with
  | nil => exact hs
  | cons a l ih => exact ih (hstep s a hs)

/-- The invariant rule of a run whose steps meet a condition in the states they are taken in. -/
theorem foldl_invariant_of_steps (I : σ → Prop) (C : σ → α → Prop)
    (hstep : ∀ s a, I s → C s a → I (f s a)) (hs : I s) {l : List α}
    (hC : ∀ l₁ a l₂, l = l₁ ++ a :: l₂ → C (l₁.foldl f s) a) : I (l.foldl f s) := by
  induction l generalizing s with
  | nil => exact hs
  | cons a l ih =>
    refine ih (hstep s a hs (hC [] a l rfl)) fun l₁ b l₂ h => ?_
    exact hC (a :: l₁) b l₂ (by rw [h, List.cons_append])

/-- Every step of a schedule has a property, in the state it is taken in. -/
def Along (f : σ → α → σ) (s : σ) (l : List α) (P : σ → α → Prop) : Prop :=
  ∀ l₁ a l₂, l = l₁ ++ a :: l₂ → P (l₁.foldl f s) a

lemma along_nil (f : σ → α → σ) (s : σ) (P : σ → α → Prop) : Along f s [] P :=
  fun l₁ _ _ h => absurd h (by simp)

/-- What holds along a run holds of its first step and along the others. -/
lemma along_cons {P : σ → α → Prop} {a : α} {l : List α} :
    Along f s (a :: l) P ↔ P s a ∧ Along f (f s a) l P := by
  constructor
  · intro h
    exact ⟨h [] a l rfl, fun l₁ b l₂ hl => h (a :: l₁) b l₂ (by rw [hl, List.cons_append])⟩
  · rintro ⟨ha, h⟩ l₁ b l₂ hl
    cases l₁ with
    | nil =>
      obtain ⟨rfl, rfl⟩ := List.cons.inj hl
      exact ha
    | cons c l₁ =>
      obtain ⟨rfl, htail⟩ := List.cons.inj hl
      exact h l₁ b l₂ htail

/-- **Two properties of steps agree along a schedule** of legal steps, if they agree in the states
that satisfy an invariant and the steps that have one of them keep it. -/
theorem along_iff (I : σ → Prop) {L P C : σ → α → Prop}
    (hiff : ∀ s a, I s → L s a → (P s a ↔ C s a))
    (hkeep : ∀ s a, I s → L s a → P s a → I (f s a)) {l : List α} (hs : I s)
    (hL : Along f s l L) : Along f s l P ↔ Along f s l C := by
  induction l generalizing s with
  | nil => exact ⟨fun _ => along_nil f s C, fun _ => along_nil f s P⟩
  | cons a l ih =>
    obtain ⟨ha, hl⟩ := along_cons.mp hL
    rw [along_cons, along_cons, hiff s a hs ha]
    constructor
    · rintro ⟨hC, h⟩
      exact ⟨hC, (ih (hkeep s a hs ha ((hiff s a hs ha).mpr hC)) hl).mp h⟩
    · rintro ⟨hC, h⟩
      exact ⟨hC, (ih (hkeep s a hs ha ((hiff s a hs ha).mpr hC)) hl).mpr h⟩

/-! ### Traces -/

/-- The runs from a state, with the events of their steps. -/
inductive Trace {ε : Type*} (step : σ → ε → σ → Prop) (s : σ) : List ε → σ → Prop where
  | nil : Trace step s [] s
  | snoc {l : List ε} {t u : σ} {e : ε} : Trace step s l t → step t e u →
      Trace step s (l ++ [e]) u

section Trace

variable {ε : Type*} {step : σ → ε → σ → Prop} {t u : σ} {l l' : List ε} {e : ε}

/-- A trace with one more step at its end. -/
lemma trace_snoc_iff : Trace step s (l ++ [e]) u ↔ ∃ t, Trace step s l t ∧ step t e u := by
  refine ⟨fun h => ?_, fun ⟨t, h, hstep⟩ => h.snoc hstep⟩
  generalize hl : l ++ [e] = l' at h
  cases h with
  | nil => exact absurd hl (by simp)
  | snoc h hstep =>
    obtain ⟨rfl, heq⟩ := List.append_inj' hl rfl
    rw [List.singleton_inj] at heq
    exact ⟨_, h, heq ▸ hstep⟩

/-- A run passes through a state behind every part of its events. -/
lemma Trace.split (h : Trace step s (l ++ l') u) : ∃ t, Trace step s l t ∧ Trace step t l' u := by
  induction l' using List.reverseRecOn generalizing u with
  | nil => exact ⟨u, by rwa [List.append_nil] at h, .nil⟩
  | append_singleton l' e ih =>
    rw [← List.append_assoc, trace_snoc_iff] at h
    obtain ⟨v, hv, hstep⟩ := h
    obtain ⟨t, ht, htv⟩ := ih hv
    exact ⟨t, ht, htv.snoc hstep⟩

/-- The invariant rule of a run with its events. -/
lemma Trace.invariant (I : List ε → σ → Prop) (hnil : I [] s)
    (hstep : ∀ l t e u, I l t → step t e u → I (l ++ [e]) u) (h : Trace step s l t) : I l t := by
  induction h with
  | nil => exact hnil
  | snoc _ hst ih => exact hstep _ _ _ _ ih hst

end Trace

end Run
