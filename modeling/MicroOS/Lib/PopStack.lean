import Mathlib.Tactic

/-!
A list worked off with a stack: some elements pop, the others are pushed.

* `run`: what is on the stack at the end, from the bottom up;
* `run_isSome_iff`: **no element finds the stack empty exactly when no beginning of the list has
  more elements that pop than others**, where the stack is empty at first;
* `run_sublist`, `not_pops_of_mem_run`: what is left is left in its order, and does not pop;
* `run_map`: the elements may stand for others.
-/

namespace PopStack

variable {α β : Type} (pops : α → Prop) [DecidablePred pops]

/-- The stack at the end, or `none` where an element that pops finds it empty. The top of the stack
is the head of the list. -/
def run : List α → List α → Option (List α)
  | [], stack => some stack.reverse
  | a :: as, [] => if pops a then none else run as [a]
  | a :: as, b :: stack => if pops a then run as stack else run as (a :: b :: stack)

variable {pops} {a : α} {as stack left : List α}

/-- An element that is no pop is pushed. -/
lemma run_push (ha : ¬ pops a) : run pops (a :: as) stack = run pops as (a :: stack) := by
  cases stack with
  | nil => rw [run, if_neg ha]
  | cons b stack => rw [run, if_neg ha]

lemma run_pop (ha : pops a) (b : α) : run pops (a :: as) (b :: stack) = run pops as stack := by
  rw [run, if_pos ha]

lemma run_underflow (ha : pops a) : run pops (a :: as) [] = none := by
  rw [run, if_pos ha]

/-- **The stack is never found empty exactly when every beginning of the list pushes enough.** -/
lemma run_isSome_iff : (run pops as stack).isSome ↔
    ∀ p, p <+: as → 2 * p.countP (fun a => pops a) ≤ stack.length + p.length := by
  induction as generalizing stack with
  | nil =>
    refine ⟨fun _ p hp => ?_, fun _ => rfl⟩
    rw [List.prefix_nil.mp hp]
    simp
  | cons a as ih =>
    -- A beginning of the longer list is empty, or has `a` in front of one of the shorter list.
    have hcons : (∀ p, p <+: a :: as → 2 * p.countP (fun a => pops a) ≤
          stack.length + p.length) ↔
        ∀ p, p <+: as → 2 * (a :: p).countP (fun a => pops a) ≤
          stack.length + (p.length + 1) := by
      constructor
      · intro h p hp
        exact h (a :: p) (List.cons_prefix_cons.mpr ⟨rfl, hp⟩)
      · intro h p hp
        cases p with
        | nil => simp
        | cons b p =>
          obtain ⟨rfl, hprefix⟩ := List.cons_prefix_cons.mp hp
          exact h p hprefix
    rw [hcons]
    by_cases ha : pops a
    · have hcount : ∀ p : List α, (a :: p).countP (fun a => pops a) =
          p.countP (fun a => pops a) + 1 := fun p =>
        List.countP_cons_of_pos (by simpa using ha)
      simp only [hcount]
      cases stack with
      | nil =>
        rw [run_underflow ha]
        refine ⟨fun h => absurd h (by simp), fun h => ?_⟩
        have := h [] List.nil_prefix
        simp at this
      | cons b stack =>
        rw [run_pop ha, ih]
        refine forall₂_congr fun p _ => ?_
        rw [List.length_cons]
        omega
    · have hcount : ∀ p : List α, (a :: p).countP (fun a => pops a) =
          p.countP (fun a => pops a) := fun p =>
        List.countP_cons_of_neg (by simpa using ha)
      simp only [hcount]
      rw [run_push ha, ih]
      refine forall₂_congr fun p _ => ?_
      rw [List.length_cons]
      omega

/-- Without elements that pop everything is left. -/
lemma run_of_not_pops (h : ∀ a ∈ as, ¬ pops a) :
    run pops as stack = some (stack.reverse ++ as) := by
  induction as generalizing stack with
  | nil => rw [run, List.append_nil]
  | cons a as ih =>
    obtain ⟨ha, has⟩ := List.forall_mem_cons.mp h
    rw [run_push ha, ih has, List.reverse_cons, List.append_assoc, List.singleton_append]

/-- What is left stands in the order of the list. -/
lemma run_sublist (h : run pops as stack = some left) : left.Sublist (stack.reverse ++ as) := by
  induction as generalizing stack with
  | nil =>
    rw [run, Option.some.injEq] at h
    rw [← h, List.append_nil]
  | cons a as ih =>
    by_cases ha : pops a
    · cases stack with
      | nil =>
        rw [run_underflow ha] at h
        exact absurd h (by simp)
      | cons b stack =>
        rw [run_pop ha] at h
        refine (ih h).trans (List.Sublist.append ?_ (List.sublist_cons_self a as))
        rw [List.reverse_cons]
        exact List.sublist_append_left _ _
    · rw [run_push ha] at h
      have hsub := ih h
      rwa [List.reverse_cons, List.append_assoc, List.singleton_append] at hsub

/-- What is left does not pop. -/
lemma not_pops_of_mem_run (h : run pops as stack = some left) (hstack : ∀ b ∈ stack, ¬ pops b) :
    ∀ b ∈ left, ¬ pops b := by
  induction as generalizing stack with
  | nil =>
    rw [run, Option.some.injEq] at h
    intro b hb
    exact hstack b (by rwa [← h, List.mem_reverse] at hb)
  | cons a as ih =>
    by_cases ha : pops a
    · cases stack with
      | nil =>
        rw [run_underflow ha] at h
        exact absurd h (by simp)
      | cons b stack =>
        rw [run_pop ha] at h
        exact ih h fun c hc => hstack c (List.mem_cons_of_mem b hc)
    · rw [run_push ha] at h
      refine ih h fun c hc => ?_
      cases List.mem_cons.mp hc with
      | inl hca => rwa [hca]
      | inr hc => exact hstack c hc

/-- Elements that stand for others. -/
lemma run_map (f : β → α) (as stack : List β) :
    run pops (as.map f) (stack.map f) = (run (fun b => pops (f b)) as stack).map (List.map f) := by
  induction as generalizing stack with
  | nil => rw [List.map_nil, run, run, Option.map_some, List.map_reverse]
  | cons a as ih =>
    rw [List.map_cons]
    by_cases ha : pops (f a)
    · cases stack with
      | nil => rw [List.map_nil, run_underflow ha, run, if_pos ha, Option.map_none]
      | cons b stack => rw [List.map_cons, run_pop ha, run, if_pos ha, ih]
    · have hpush : run (fun b => pops (f b)) (a :: as) stack =
          run (fun b => pops (f b)) as (a :: stack) := run_push ha
      rw [run_push ha, hpush, ← List.map_cons, ih]

end PopStack
