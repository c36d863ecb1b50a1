import MicroOS.Lib.Run

/-!
Numbers from a counter that runs around: a system whose steps take the next of `modulus` numbers,
the first one being `low`, and hold on to what they took for some time.

* `Dispenser`: such a system;
* `Dispenser.Fair`: in a run nobody is given a number below `low`, and no two hold the same one;
* `Dispenser.fair_iff`: a run is fair exactly when it takes no more numbers than there are from
  `low` on.
-/

open Run

/-- A system that gives out numbers: the counter, the number that somebody was given, the number
that somebody holds, and who takes one in a step. -/
structure Dispenser (σ ε ι : Type*) where
  modulus : ℕ
  low : ℕ
  init : σ
  step : σ → ε → σ → Prop
  takes : ε → Option ι
  next : σ → ℕ
  given : σ → ι → Option ℕ
  held : σ → ι → Option ℕ
  low_pos : 0 < low
  low_lt : low < modulus
  next_init : next init = low
  held_init : ∀ p, held init p = none
  next_take : ∀ s e t p, step s e t → takes e = some p → next t = (next s + 1) % modulus
  given_take : ∀ s e t p, step s e t → takes e = some p → given t p = some (next s)
  held_take : ∀ s e t p, step s e t → takes e = some p → ∀ n, held t p = some n → n = next s
  held_other : ∀ s e t p, step s e t → takes e = some p → ∀ q n, q ≠ p → held t q = some n →
    held s q = some n
  next_keep : ∀ s e t, step s e t → takes e = none → next t = next s
  held_keep : ∀ s e t, step s e t → takes e = none → ∀ q n, held t q = some n →
    held s q = some n

namespace Dispenser

variable {σ ε ι : Type*} {D : Dispenser σ ε ι} {l : List ε} {s t : σ} {e : ε}

/-- The numbers that a run takes. -/
def taken (D : Dispenser σ ε ι) (l : List ε) : ℕ := l.countP fun e => (D.takes e).isSome

/-- No two hold the same number. -/
def Distinct (D : Dispenser σ ε ι) (s : σ) : Prop :=
  ∀ p q n, D.held s p = some n → D.held s q = some n → p = q

/-- **A fair run**: in no state two hold the same number, and nobody is given one below `low`. -/
structure Fair (D : Dispenser σ ε ι) (l : List ε) : Prop where
  distinct : ∀ l' s, l' <+: l → Trace D.step D.init l' s → D.Distinct s
  low_le : ∀ l' e s p n, l' ++ [e] <+: l → Trace D.step D.init (l' ++ [e]) s →
    D.takes e = some p → D.given s p = some n → D.low ≤ n

/-- How many numbers are taken, with one more event. -/
lemma taken_snoc (l : List ε) (e : ε) :
    D.taken (l ++ [e]) = D.taken l + if (D.takes e).isSome then 1 else 0 := by
  rw [taken, taken, List.countP_append, List.countP_singleton]

/-- Where the counter stands. -/
lemma next_eq (h : Trace D.step D.init l s) : D.next s = (D.low + D.taken l) % D.modulus := by
  refine h.invariant (fun l s => D.next s = (D.low + D.taken l) % D.modulus) ?_ ?_
  · rw [D.next_init, taken, List.countP_nil, Nat.add_zero, Nat.mod_eq_of_lt D.low_lt]
  · intro l t e u ih hstep
    rw [taken_snoc]
    cases he : D.takes e with
    | none => rw [D.next_keep t e u hstep he, ih, Option.isSome_none, if_neg (by simp),
      Nat.add_zero]
    | some p =>
      rw [D.next_take t e u p hstep he, ih, Option.isSome_some, if_pos rfl, Nat.mod_add_mod,
        Nat.add_assoc]

/-- **As long as the counter has not run around**, everybody holds one of the numbers that were
taken, and no two the same. -/
lemma held_bounds (h : Trace D.step D.init l s) (hl : D.taken l ≤ D.modulus - D.low) :
    (∀ p n, D.held s p = some n → D.low ≤ n ∧ n < D.low + D.taken l) ∧ D.Distinct s := by
  induction h with
  | nil => exact ⟨fun p n hp => absurd hp (by simp [D.held_init]),
      fun p q n hp => absurd hp (by simp [D.held_init])⟩
  | @snoc l t u e htrace hstep ih =>
    have hcount := taken_snoc (D := D) l e
    cases he : D.takes e with
    | none =>
      rw [he, Option.isSome_none, if_neg (by simp), Nat.add_zero] at hcount
      rw [hcount] at hl ⊢
      obtain ⟨hbounds, hdist⟩ := ih hl
      have hkeep := D.held_keep t e u hstep he
      exact ⟨fun p n hp => hbounds p n (hkeep p n hp),
        fun p q n hp hq => hdist p q n (hkeep p n hp) (hkeep q n hq)⟩
    | some r =>
      rw [he, Option.isSome_some, if_pos rfl] at hcount
      rw [hcount] at hl ⊢
      obtain ⟨hbounds, hdist⟩ := ih (by omega)
      have hlow := D.low_lt
      -- as long as the counter does not wrap, it stands above all numbers taken
      have hnext : D.next t = D.low + D.taken l := by
        rw [next_eq htrace, Nat.mod_eq_of_lt (by omega)]
      have hnew : ∀ n, D.held u r = some n → n = D.low + D.taken l := fun n hn =>
        (D.held_take t e u r hstep he n hn).trans hnext
      have hold := D.held_other t e u r hstep he
      refine ⟨fun p n hp => ?_, fun p q n hp hq => ?_⟩
      · by_cases hpr : p = r
        · subst hpr
          have hn := hnew n hp
          omega
        · have hn := hbounds p n (hold p n hpr hp)
          omega
      · -- the number just taken is above all that were
        by_cases hpr : p = r
        · by_cases hqr : q = r
          · rw [hpr, hqr]
          · subst hpr
            have hn := hnew n hp
            have hn' := hbounds q n (hold q n hqr hq)
            omega
        · by_cases hqr : q = r
          · subst hqr
            have hn := hnew n hq
            have hn' := hbounds p n (hold p n hpr hp)
            omega
          · exact hdist p q n (hold p n hpr hp) (hold q n hqr hq)

/-- A run that takes more than `k` numbers takes one after it has taken `k`. -/
lemma exists_take (D : Dispenser σ ε ι) {k : ℕ} (h : k < D.taken l) :
    ∃ l' e p, l' ++ [e] <+: l ∧ D.taken l' = k ∧ D.takes e = some p := by
  induction l using List.reverseRecOn with
  | nil => exact absurd h (by simp [taken])
  | append_singleton l e ih =>
    by_cases hk : k < D.taken l
    · obtain ⟨l', e', p, hpre, hcount, he'⟩ := ih hk
      exact ⟨l', e', p, hpre.trans (List.prefix_append l [e]), hcount, he'⟩
    · rw [taken_snoc] at h
      cases he : D.takes e with
      | none =>
        rw [he, Option.isSome_none, if_neg (by simp)] at h
        omega
      | some p =>
        rw [he, Option.isSome_some, if_pos rfl] at h
        exact ⟨l, e, p, List.prefix_rfl, by omega, he⟩

/-- **A run is fair** exactly when it takes no more numbers than there are from `low` on. -/
theorem fair_iff (h : Trace D.step D.init l s) : D.Fair l ↔ D.taken l ≤ D.modulus - D.low := by
  have hmono : ∀ l', l' <+: l → D.taken l' ≤ D.taken l := by
    rintro l' ⟨l'', rfl⟩
    rw [taken, taken, List.countP_append]
    exact Nat.le_add_right _ _
  constructor
  · intro hfair
    by_contra hmany
    obtain ⟨l', e, p, hpre, hcount, he⟩ := D.exists_take (not_le.mp hmany)
    obtain ⟨l'', hsplit⟩ := id hpre
    rw [← hsplit] at h
    obtain ⟨t, ht, -⟩ := h.split
    obtain ⟨u, hu, hstep⟩ := trace_snoc_iff.mp ht
    -- the counter has just run around
    have hlow := D.low_lt
    have hnext : D.next u = 0 := by
      rw [next_eq hu, hcount, Nat.add_sub_cancel' hlow.le, Nat.mod_self]
    have hle := hfair.low_le l' e t p _ hpre ht he (D.given_take u e t p hstep he)
    have hpos := D.low_pos
    omega
  · intro hfew
    refine ⟨fun l' t hpre ht => (held_bounds ht ((hmono l' hpre).trans hfew)).2, ?_⟩
    intro l' e t p n hpre ht he hn
    obtain ⟨u, hu, hstep⟩ := trace_snoc_iff.mp ht
    have hcount := (hmono _ hpre).trans hfew
    rw [taken_snoc, he, Option.isSome_some, if_pos rfl] at hcount
    have hlow := D.low_lt
    have hgiven : n = D.next u := Option.some.inj (hn.symm.trans (D.given_take u e t p hstep he))
    rw [hgiven, next_eq hu, Nat.mod_eq_of_lt (by omega)]
    exact Nat.le_add_right _ _

end Dispenser
