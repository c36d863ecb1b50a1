import Mathlib.Tactic

/-!
Computations that may stop with an error, and the loops of such computations.

* `bind_eq_ok`: a sequence returns when both parts do.
* `foldlM_rule`, `foldlM_prefix_rule`, `foldlM_range_rule`: the invariant rules of a loop over a
  list and of a counted loop; `foldlM_congr`, `foldlM_transfer`, `foldlM_flatMap` compare loops.
* `repeatWhile`: a `while` loop with fuel; `repeatWhile_rule` is its invariant rule, and
  `repeatWhile_ok` says how much fuel is enough.
* `Settles`: a computation returns with every fuel from some number on.
* `Logged`: a value with the offsets of an array that were read for it, as a monad of its own;
  `Logged.Within` bounds them, and `Logged.checked` stops at an offset that cannot be read.
-/

universe u

namespace Checked

variable {ε α β σ : Type}

/-- **Two computations return** when the first does, and the second on what it returned. -/
lemma bind_eq_ok {x : Except ε α} {f : α → Except ε β} {b : β} :
    (x >>= f) = .ok b ↔ ∃ a, x = .ok a ∧ f a = .ok b := by
  cases x with
  | error e => simp [bind, Except.bind]
  | ok a => simp [bind, Except.bind]

@[simp] lemma ok_bind (a : α) (f : α → Except ε β) : (Except.ok a >>= f) = f a := rfl

@[simp] lemma error_bind (e : ε) (f : α → Except ε β) : (Except.error e >>= f) = .error e := rfl

lemma pure_ne_error (a : α) (e : ε) : (pure a : Except ε α) ≠ .error e := by
  simp [pure, Except.pure]

/-- A sequence does not stop with an error that neither part stops with. -/
lemma bind_ne_error {x : Except ε α} {f : α → Except ε β} {e : ε} (hx : x ≠ .error e)
    (hf : ∀ a, x = .ok a → f a ≠ .error e) : (x >>= f) ≠ .error e := by
  cases x with
  | error e' => exact fun h => hx (congrArg Except.error (Except.error.inj h))
  | ok a => exact hf a rfl

/-- A value of a computation, read off by evaluation. -/
lemma exists_of_map_toOption {x : Except ε α} {f : α → β} {b : β}
    (h : (x.map f).toOption = some b) : ∃ a, x = .ok a ∧ f a = b := by
  cases x with
  | error e => exact absurd h (by simp [Except.map, Except.toOption])
  | ok a => exact ⟨a, rfl, by simpa [Except.map, Except.toOption] using h⟩

/-- A loop over a list whose turns return. -/
lemma foldlM_ok (I : σ → Prop) {f : σ → α → Except ε σ} {l : List α} {s : σ}
    (hstep : ∀ s a, a ∈ l → I s → ∃ t, f s a = .ok t ∧ I t) (hs : I s) :
    ∃ t, l.foldlM f s = .ok t ∧ I t := by
  induction l generalizing s with
  | nil => exact ⟨s, rfl, hs⟩
  | cons a l ih =>
    obtain ⟨t, ht, hI⟩ := hstep s a List.mem_cons_self hs
    obtain ⟨u, hu, hI⟩ := ih (fun s b hb => hstep s b (List.mem_cons_of_mem a hb)) hI
    exact ⟨u, by rw [List.foldlM_cons, ht]; exact hu, hI⟩

/-- A counted loop whose turns return. -/
lemma foldlM_range_ok (I : ℕ → σ → Prop) {f : σ → ℕ → Except ε σ} {n : ℕ} {s : σ}
    (hstep : ∀ i s, i < n → I i s → ∃ t, f s i = .ok t ∧ I (i + 1) t) (hs : I 0 s) :
    ∃ t, (List.range n).foldlM f s = .ok t ∧ I n t := by
  induction n with
  | zero => exact ⟨s, rfl, hs⟩
  | succ n ih =>
    obtain ⟨t, ht, hI⟩ := ih fun i s hi => hstep i s (hi.trans (Nat.lt_succ_self n))
    obtain ⟨u, hu, hI⟩ := hstep n t (Nat.lt_succ_self n) hI
    refine ⟨u, ?_, hI⟩
    rw [List.range_succ, List.foldlM_append, ht, ok_bind, List.foldlM_cons, hu]
    rfl

/-- **The invariant rule of a loop over a list.** -/
lemma foldlM_rule (I : σ → Prop) {f : σ → α → Except ε σ} {l : List α} {s t : σ}
    (hstep : ∀ s a t, a ∈ l → I s → f s a = .ok t → I t) (hs : I s)
    (h : l.foldlM f s = .ok t) : I t := by
  induction l generalizing s with
  | nil =>
    obtain rfl : s = t := Except.ok.inj h
    exact hs
  | cons a l ih =>
    rw [List.foldlM_cons, bind_eq_ok] at h
    obtain ⟨u, hu, h⟩ := h
    refine ih (fun s b t hb => hstep s b t (List.mem_cons_of_mem a hb)) ?_ h
    exact hstep s a u List.mem_cons_self hs hu

/-- The invariant rule of a loop over a list, where a turn may use how the loop came to it. -/
lemma foldlM_prefix_rule (I : σ → Prop) {f : σ → α → Except ε σ} {l : List α} {s t : σ}
    (hstep : ∀ done a rest u v, l = done ++ a :: rest → done.foldlM f s = .ok u → I u →
      f u a = .ok v → I v) (hs : I s) (h : l.foldlM f s = .ok t) : I t := by
  induction l using List.reverseRecOn generalizing t with
  | nil =>
    obtain rfl : s = t := Except.ok.inj h
    exact hs
  | append_singleton l a ih =>
    rw [List.foldlM_append, bind_eq_ok] at h
    obtain ⟨u, hu, h⟩ := h
    rw [List.foldlM_cons, bind_eq_ok] at h
    obtain ⟨v, hv, h⟩ := h
    obtain rfl : v = t := Except.ok.inj h
    refine hstep l a [] u v rfl hu (ih (fun done b rest u v hl => ?_) hu) hv
    rw [hl, List.append_assoc, List.cons_append] at hstep
    exact hstep done b (rest ++ [a]) u v rfl

/-- **The invariant rule of a loop over `0, …, n - 1`**, which may speak of the turn. -/
lemma foldlM_range_rule (I : ℕ → σ → Prop) {f : σ → ℕ → Except ε σ} {n : ℕ} {s t : σ}
    (hstep : ∀ i s t, i < n → I i s → f s i = .ok t → I (i + 1) t) (hs : I 0 s)
    (h : (List.range n).foldlM f s = .ok t) : I n t := by
  induction n generalizing t with
  | zero =>
    obtain rfl : s = t := Except.ok.inj h
    exact hs
  | succ n ih =>
    rw [List.range_succ, List.foldlM_append, bind_eq_ok] at h
    obtain ⟨u, hu, h⟩ := h
    rw [List.foldlM_cons, bind_eq_ok] at h
    obtain ⟨v, hv, h⟩ := h
    obtain rfl : v = t := Except.ok.inj h
    exact hstep n u v (Nat.lt_succ_self n)
      (ih (fun i s t hi => hstep i s t (hi.trans (Nat.lt_succ_self n))) hu) hv

/-- Loops whose turns are the same. -/
lemma foldlM_congr {f g : σ → α → Except ε σ} {l : List α}
    (h : ∀ s a, a ∈ l → f s a = g s a) (s : σ) : l.foldlM f s = l.foldlM g s := by
  induction l generalizing s with
  | nil => rfl
  | cons a l ih =>
    rw [List.foldlM_cons, List.foldlM_cons, h s a List.mem_cons_self]
    exact congrArg _ (funext fun t => ih (fun s b hb => h s b (List.mem_cons_of_mem a hb)) t)

/-- A loop that returns, turn by turn as another one. -/
lemma foldlM_transfer {f g : σ → α → Except ε σ} {P : α → Prop} {l : List α} {s t : σ}
    (hstep : ∀ s a t, a ∈ l → f s a = .ok t → P a ∧ g s a = .ok t)
    (h : l.foldlM f s = .ok t) : (∀ a ∈ l, P a) ∧ l.foldlM g s = .ok t := by
  induction l generalizing s with
  | nil => exact ⟨fun a ha => absurd ha List.not_mem_nil, h⟩
  | cons a l ih =>
    rw [List.foldlM_cons, bind_eq_ok] at h
    obtain ⟨u, hu, h⟩ := h
    obtain ⟨ha, hg⟩ := hstep s a u List.mem_cons_self hu
    obtain ⟨hl, hloop⟩ := ih (fun s b t hb => hstep s b t (List.mem_cons_of_mem a hb)) h
    exact ⟨List.forall_mem_cons.mpr ⟨ha, hl⟩, by rw [List.foldlM_cons, hg, ok_bind, hloop]⟩

/-- Two loops, one in the other. -/
lemma foldlM_flatMap {f : σ → β → Except ε σ} (g : α → List β) (l : List α) (s : σ) :
    (l.flatMap g).foldlM f s = l.foldlM (fun s a => (g a).foldlM f s) s := by
  induction l generalizing s with
  | nil => rfl
  | cons a l ih =>
    rw [List.flatMap_cons, List.foldlM_append, List.foldlM_cons]
    exact congrArg _ (funext ih)

/-! ### `while` -/

/-- `while (test) body`, stopping with an error when the fuel runs out. -/
def repeatWhile (test : σ → Bool) (body : σ → Except ε σ) (stuck : ε) : ℕ → σ → Except ε σ
  | 0, _ => .error stuck
  | n + 1, s => if test s then body s >>= repeatWhile test body stuck n else .ok s

variable {test : σ → Bool} {body : σ → Except ε σ} {stuck : ε} {n : ℕ} {s t : σ}

/-- **The invariant rule of `while`.** -/
lemma repeatWhile_rule (I : σ → Prop)
    (hstep : ∀ s t, I s → test s = true → body s = .ok t → I t) (hs : I s)
    (h : repeatWhile test body stuck n s = .ok t) : I t ∧ test t = false := by
  induction n generalizing s with
  | zero => simp [repeatWhile] at h
  | succ n ih =>
    rw [repeatWhile] at h
    cases ht : test s with
    | true =>
      rw [ht, if_pos rfl, bind_eq_ok] at h
      obtain ⟨u, hu, h⟩ := h
      exact ih (hstep s u hs ht hu) h
    | false =>
      rw [ht, if_neg (by simp)] at h
      obtain rfl : s = t := Except.ok.inj h
      exact ⟨hs, ht⟩

variable (stuck) in
/-- Enough fuel: a measure that every turn lowers bounds the number of turns. -/
lemma repeatWhile_ok (I : σ → Prop) (μ : σ → ℕ)
    (hstep : ∀ s, I s → test s = true → ∃ t, body s = .ok t ∧ I t ∧ μ t < μ s) (hs : I s)
    (hn : μ s < n) : ∃ t, repeatWhile test body stuck n s = .ok t ∧ I t := by
  induction n generalizing s with
  | zero => omega
  | succ n ih =>
    rw [repeatWhile]
    cases ht : test s with
    | true =>
      obtain ⟨t, hb, hI, hμ⟩ := hstep s hs ht
      rw [if_pos rfl, hb, ok_bind]
      exact ih hI (by omega)
    | false => exact ⟨s, by simp, hs⟩

/-! ### Enough fuel -/

/-- With enough fuel, and from then on with any, a computation returns `a`. -/
def Settles (f : ℕ → Except ε α) (a : α) : Prop := ∃ n, ∀ k, f (n + k) = .ok a

section Settles

variable {f : ℕ → Except ε α} {a : α}

lemma settles_const (a : α) : Settles (fun _ => (.ok a : Except ε α)) a := ⟨0, fun _ => rfl⟩

/-- One more level of calls. -/
lemma Settles.succ {g : ℕ → Except ε α} (hf : Settles f a) (h : ∀ n, g (n + 1) = f n) :
    Settles g a := by
  obtain ⟨n, hn⟩ := hf
  refine ⟨n + 1, fun k => ?_⟩
  rw [Nat.add_right_comm, h]
  exact hn k

/-- **A sequence settles when both parts do.** -/
lemma Settles.bind {g : ℕ → α → Except ε β} {b : β} (hf : Settles f a)
    (hg : Settles (fun n => g n a) b) : Settles (fun n => f n >>= g n) b := by
  obtain ⟨n, hn⟩ := hf
  obtain ⟨m, hm⟩ := hg
  refine ⟨n + m, fun k => ?_⟩
  have hf : f (n + m + k) = .ok a := by rw [Nat.add_assoc, hn]
  have hg : g (n + m + k) a = .ok b := by rw [Nat.add_comm n m, Nat.add_assoc]; exact hm _
  dsimp only
  rw [hf, ok_bind, hg]

/-- A computation settles on one value. -/
lemma Settles.unique {b : α} (ha : Settles f a) (hb : Settles f b) : a = b := by
  obtain ⟨n, hn⟩ := ha
  obtain ⟨m, hm⟩ := hb
  have h := hn m
  rw [Nat.add_comm, hm] at h
  exact (Except.ok.inj h).symm

/-- A computation that fails with every large fuel does not settle. -/
lemma not_settles {e : ε} (n : ℕ) (h : ∀ k, f (n + k) = .error e) : ¬Settles f a := by
  rintro ⟨m, hm⟩
  have hfail := h m
  rw [Nat.add_comm, hm] at hfail
  exact nomatch hfail

end Settles

end Checked

/-! ### Reads -/

/-- A value that was computed by reading an array at some offsets. -/
structure Logged (α : Type u) where
  value : α
  reads : List ℕ

namespace Logged

variable {α β : Type u} {x : Logged α} {f : α → Logged β} {a : ℕ → α} {i n : ℕ}

instance : Monad Logged where
  pure v := ⟨v, []⟩
  bind x f := ⟨(f x.value).value, x.reads ++ (f x.value).reads⟩

/-- One access. -/
def load (a : ℕ → α) (i : ℕ) : Logged α := ⟨a i, [i]⟩

@[simp] lemma value_pure (v : α) : (pure v : Logged α).value = v := rfl

@[simp] lemma reads_pure (v : α) : (pure v : Logged α).reads = [] := rfl

@[simp] lemma value_bind : (x >>= f).value = (f x.value).value := rfl

@[simp] lemma reads_bind : (x >>= f).reads = x.reads ++ (f x.value).reads := rfl

@[simp] lemma value_load : (load a i).value = a i := rfl

@[simp] lemma reads_load : (load a i).reads = [i] := rfl

/-- The reads are below a bound. -/
def Within (x : Logged α) (n : ℕ) : Prop := ∀ i ∈ x.reads, i < n

lemma within_pure (v : α) : Within (pure v) n := fun _ hi => absurd hi List.not_mem_nil

lemma within_load : (load a i).Within n ↔ i < n := by
  simp [Within]

lemma within_bind : (x >>= f).Within n ↔ x.Within n ∧ (f x.value).Within n := by
  simp only [Within, reads_bind, List.mem_append, or_imp, forall_and]

/-- The largest offset that is read, told by the bounds. -/
lemma mem_reads_of_within (h : ∀ n, x.Within n ↔ i < n) : i ∈ x.reads ∧ ∀ j ∈ x.reads, j ≤ i := by
  have hle : ∀ j ∈ x.reads, j ≤ i := fun j hj =>
    Nat.le_of_lt_succ ((h (i + 1)).mpr (Nat.lt_succ_self i) j hj)
  refine ⟨?_, hle⟩
  by_contra hmem
  refine absurd ((h i).mp fun j hj => lt_of_le_of_ne (hle j hj) ?_) (lt_irrefl i)
  rintro rfl
  exact hmem hj

/-- A program in an array that can be read at some offsets only: it stops at the first other one. -/
def checked {ε : Type} (ok : ℕ → Bool) (stop : ℕ → ε) (x : Logged α) : Except ε (Logged α) :=
  match x.reads.find? (fun i => !ok i) with
  | some i => .error (stop i)
  | none => .ok x

/-- A checked computation returns just when every read is allowed, and then it returns the same. -/
lemma checked_eq_ok {ε : Type} {ok : ℕ → Bool} {stop : ℕ → ε} {y : Logged α} :
    x.checked ok stop = .ok y ↔ (∀ i ∈ x.reads, ok i = true) ∧ x = y := by
  have hnone : x.reads.find? (fun i => !ok i) = none ↔ ∀ i ∈ x.reads, ok i = true := by
    simp
  rw [checked]
  cases hfind : x.reads.find? (fun i => !ok i) with
  | none => exact ⟨fun h => ⟨hnone.mp hfind, Except.ok.inj h⟩, fun h => congrArg _ h.2⟩
  | some i =>
    refine ⟨nofun, fun h => ?_⟩
    rw [hnone.mpr h.1] at hfind
    exact nomatch hfind

end Logged
