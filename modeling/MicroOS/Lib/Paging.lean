import MicroOS.Lib.Checked

/-!
Memory behind page tables.

An address space maps pages to frames, and an address is translated with the frame of its page.

* `translate`: the address behind an address, for pages of any size.
* `Private`: no frame is mapped twice among the pages of a set; `Private.translate_inj` is the same
  for addresses.
* `fill`: the pages of a range that are not mapped get frames of a range, one each.
* `storeBlock`: a block of values is stored through a translation; `storeBlock_ok` says where the
  values are afterwards, and what stays. `storeBlock_elsewhere` and `storeBlock_agree` are for
  blocks that were stored, also where two addresses are the same.
-/

namespace Paging

open Checked

/-! ### Pages -/

/-- The frames that the pages of an address space are mapped to. -/
abbrev Pages := ℕ → Option ℕ

variable {w : ℕ} {A B : Pages} {S : Set ℕ} {v v' p n m b f i j : ℕ}

/-- The address behind an address, for pages of the size `w`. -/
def translate (w : ℕ) (A : Pages) (v : ℕ) : Option ℕ :=
  (A (v / w)).map fun f => f * w + v % w

/-- **A translation keeps the place in the page.** -/
lemma translate_eq_some (hw : 0 < w) :
    translate w A v = some p ↔ A (v / w) = some (p / w) ∧ p % w = v % w := by
  have hmod : v % w < w := Nat.mod_lt v hw
  rw [translate, Option.map_eq_some_iff]
  constructor
  · rintro ⟨f, hf, rfl⟩
    rw [Nat.mul_comm, Nat.mul_add_div hw, Nat.mul_add_mod, Nat.div_eq_of_lt hmod, Nat.add_zero,
      Nat.mod_mod]
    exact ⟨hf, rfl⟩
  · rintro ⟨hf, hp⟩
    refine ⟨p / w, hf, ?_⟩
    rw [← hp, Nat.mul_comm]
    exact Nat.div_add_mod p w

lemma translate_congr (h : B (v / w) = A (v / w)) : translate w B v = translate w A v := by
  rw [translate, translate, h]

/-- No frame is mapped twice among the pages of a set. -/
def Private (A : Pages) (S : Set ℕ) : Prop :=
  ∀ n ∈ S, ∀ m ∈ S, ∀ f, A n = some f → A m = some f → n = m

/-- A change outside of some pages keeps them private. -/
lemma Private.congr (h : Private A S) (heq : ∀ n ∈ S, B n = A n) : Private B S := by
  intro n hn m hm f hf hf'
  rw [heq n hn] at hf
  rw [heq m hm] at hf'
  exact h n hn m hm f hf hf'

/-- **Addresses in private pages are behind different addresses.** -/
lemma Private.translate_inj (h : Private A S) (hw : 0 < w) (hv : v / w ∈ S) (hv' : v' / w ∈ S)
    (hp : translate w A v = some p) (hp' : translate w A v' = some p) : v = v' := by
  obtain ⟨hpage, hmod⟩ := (translate_eq_some hw).mp hp
  obtain ⟨hpage', hmod'⟩ := (translate_eq_some hw).mp hp'
  have hdiv := h _ hv _ hv' _ hpage hpage'
  calc v = w * (v / w) + v % w := (Nat.div_add_mod v w).symm
    _ = w * (v' / w) + v' % w := by rw [hdiv, ← hmod, hmod']
    _ = v' := Nat.div_add_mod v' w

/-! ### Filling a range -/

/-- The pages from `b` to `b + n` that are not mapped get the frames from `f` on, one each. -/
def fill (A : Pages) (b n f : ℕ) : Pages :=
  fun i => if (b ≤ i ∧ i < b + n) ∧ A i = none then some (f + (i - b)) else A i

lemma fill_zero : fill A b 0 f i = A i := if_neg fun h => by omega

lemma fill_of_keep (h : A i ≠ none ∨ ¬ (b ≤ i ∧ i < b + n)) : fill A b n f i = A i :=
  if_neg fun hc => h.elim (fun hn => hn hc.2) fun hn => hn hc.1

/-- A page that is not mapped gets its place in the run. -/
lemma fill_of_none (hi : b ≤ i ∧ i < b + n) (hn : A i = none) :
    fill A b n f i = some (f + (i - b)) :=
  if_pos ⟨hi, hn⟩

/-- Afterwards every page of the range is mapped. -/
lemma fill_ne_none (hi : b ≤ i ∧ i < b + n) : fill A b n f i ≠ none := by
  by_cases hn : A i = none
  · rw [fill_of_none hi hn]
    exact Option.some_ne_none _
  · rwa [fill_of_keep (Or.inl hn)]

/-- The next page of the range, when it is mapped. -/
lemma fill_succ_of_some (h : A (b + n) ≠ none) : fill A b (n + 1) f i = fill A b n f i := by
  by_cases hi : i = b + n
  · subst hi
    rw [fill_of_keep (Or.inl h), fill_of_keep (Or.inl h)]
  · rw [fill, fill]
    exact if_congr (and_congr_left fun _ => by omega) rfl rfl

/-- The next page of the range, when it is not. -/
lemma fill_succ_of_none (h : A (b + n) = none) :
    fill A b (n + 1) f i = if i = b + n then some (f + n) else fill A b n f i := by
  by_cases hi : i = b + n
  · subst hi
    rw [if_pos rfl, fill_of_none (by omega) h, Nat.add_sub_cancel_left]
  · rw [if_neg hi, fill, fill]
    exact if_congr (and_congr_left fun _ => by omega) rfl rfl

/-- What is mapped after a range was filled. -/
lemma fill_eq_some {g : ℕ} (h : fill A b n f i = some g) :
    A i = some g ∨ (A i = none ∧ b ≤ i ∧ i < b + n ∧ g = f + (i - b)) := by
  by_cases hc : (b ≤ i ∧ i < b + n) ∧ A i = none
  · rw [fill_of_none hc.1 hc.2] at h
    exact Or.inr ⟨hc.2, hc.1.1, hc.1.2, (Option.some.inj h).symm⟩
  · rw [fill, if_neg hc] at h
    exact Or.inl h

/-- **Filling with frames that are not mapped keeps the pages private.** -/
lemma Private.fill (h : Private A S) (hnew : ∀ i ∈ S, ∀ g, A i = some g → ¬ (f ≤ g ∧ g < f + n)) :
    Private (fill A b n f) S := by
  intro i hi j hj g hg hg'
  rcases fill_eq_some hg with hg | ⟨-, h1, h2, rfl⟩
  · rcases fill_eq_some hg' with hg' | ⟨-, h1', h2', rfl⟩
    · exact h i hi j hj g hg hg'
    · exact absurd (by omega) (hnew i hi _ hg)
  · rcases fill_eq_some hg' with hg' | ⟨-, h1', h2', heq⟩
    · exact absurd (by omega) (hnew j hj _ hg')
    · omega

/-! ### Stores -/

variable {ε β : Type} {fault : ε} {tr : ℕ → Option ℕ} {addr : ℕ → ℕ} {val : ℕ → β}
  {mem mem' : ℕ → β}

/-- A value is stored at an address. Without a translation there is a fault. -/
def store (fault : ε) (tr : ℕ → Option ℕ) (mem : ℕ → β) (v : ℕ) (x : β) : Except ε (ℕ → β) :=
  match tr v with
  | none => .error fault
  | some p => .ok (Function.update mem p x)

/-- A store at an address that is mapped changes its cell. -/
lemma store_of_some {x : β} (h : tr v = some p) :
    store fault tr mem v x = .ok (Function.update mem p x) := by
  rw [store, h]

/-- `n` values are stored one after the other, value `i` at the address `addr i`. -/
def storeBlock (fault : ε) (tr : ℕ → Option ℕ) (addr : ℕ → ℕ) (val : ℕ → β) (n : ℕ)
    (mem : ℕ → β) : Except ε (ℕ → β) :=
  (List.range n).foldlM (fun mem i => store fault tr mem (addr i) (val i)) mem

/-- A block is stored when its addresses are mapped. -/
lemma storeBlock_returns (hmapped : ∀ i < n, tr (addr i) ≠ none) (mem : ℕ → β) :
    ∃ mem', storeBlock fault tr addr val n mem = .ok mem' := by
  have hstep : ∀ i m, i < n → True → ∃ m', store fault tr m (addr i) (val i) = .ok m' ∧ True := by
    intro i m hi _
    obtain ⟨p, hp⟩ := Option.ne_none_iff_exists'.mp (hmapped i hi)
    exact ⟨_, store_of_some hp, trivial⟩
  obtain ⟨mem', h, -⟩ := foldlM_range_ok (s := mem) (fun _ _ => True) hstep trivial
  exact ⟨mem', h⟩

section Returns

variable (h : storeBlock fault tr addr val n mem = .ok mem')

include h

/-- The addresses of a block that was stored are mapped. -/
lemma storeBlock_mapped : ∀ i < n, tr (addr i) ≠ none := by
  refine foldlM_range_rule (fun j _ => ∀ i < j, tr (addr i) ≠ none) ?_
    (fun i hi => absurd hi (Nat.not_lt_zero i)) h
  intro j m m' hj ih hstore i hi hnone
  rcases Nat.lt_succ_iff_lt_or_eq.mp hi with hi | rfl
  · exact ih i hi hnone
  · rw [store, hnone] at hstore
    cases hstore

/-- What is behind no address of the block stays. -/
lemma storeBlock_elsewhere (hp : ∀ i < n, tr (addr i) ≠ some p) : mem' p = mem p := by
  refine foldlM_range_rule (fun _ m => m p = mem p) ?_ rfl h
  intro j m m' hj ih hstore
  cases hq : tr (addr j) with
  | none =>
    rw [store, hq] at hstore
    cases hstore
  | some q =>
    rw [store_of_some hq] at hstore
    obtain rfl := Except.ok.inj hstore
    have hne : p ≠ q := fun hc => hp j hj (hc ▸ hq)
    rw [Function.update_of_ne hne, ih]

/-- **What a block leaves behind its addresses** does not depend on what was there before. -/
lemma storeBlock_agree {m m' : ℕ → β} (h' : storeBlock fault tr addr val n m = .ok m')
    (hp : mem p = m p ∨ ∃ i < n, tr (addr i) = some p) : mem' p = m' p := by
  suffices hrule : ∀ j, ∀ a b, (List.range j).foldlM
        (fun mem i => store fault tr mem (addr i) (val i)) mem = .ok a →
      (List.range j).foldlM (fun mem i => store fault tr mem (addr i) (val i)) m = .ok b →
      mem p = m p ∨ (∃ i < j, tr (addr i) = some p) → a p = b p from hrule n mem' m' h h' hp
  intro j
  induction j with
  | zero =>
    intro a b ha hb hp
    obtain rfl : mem = a := Except.ok.inj ha
    obtain rfl : m = b := Except.ok.inj hb
    exact hp.resolve_right fun ⟨i, hi, _⟩ => absurd hi (Nat.not_lt_zero i)
  | succ j ih =>
    intro a b ha hb hp
    rw [List.range_succ, List.foldlM_append, bind_eq_ok] at ha hb
    obtain ⟨a', ha', ha⟩ := ha
    obtain ⟨b', hb', hb⟩ := hb
    rw [List.foldlM_cons, bind_eq_ok] at ha hb
    obtain ⟨a'', ha, hreta⟩ := ha
    obtain ⟨b'', hb, hretb⟩ := hb
    obtain rfl : a'' = a := Except.ok.inj hreta
    obtain rfl : b'' = b := Except.ok.inj hretb
    cases hq : tr (addr j) with
    | none =>
      rw [store, hq] at ha
      cases ha
    | some q =>
      rw [store_of_some hq] at ha hb
      obtain rfl := Except.ok.inj ha
      obtain rfl := Except.ok.inj hb
      by_cases hpq : p = q
      · subst hpq
        rw [Function.update_self, Function.update_self]
      · rw [Function.update_of_ne hpq, Function.update_of_ne hpq]
        refine ih a' b' ha' hb' (hp.imp_right ?_)
        rintro ⟨i, hi, htr⟩
        rcases Nat.lt_succ_iff_lt_or_eq.mp hi with hi | rfl
        · exact ⟨i, hi, htr⟩
        · exact absurd (Option.some.inj (htr.symm.trans hq)) hpq

end Returns

/-- What a block that is stored leaves. -/
structure Stored (tr : ℕ → Option ℕ) (addr : ℕ → ℕ) (val : ℕ → β) (n : ℕ) (mem mem' : ℕ → β) :
    Prop where
  there : ∀ i < n, ∀ p, tr (addr i) = some p → mem' p = val i
  elsewhere : ∀ p, (∀ i < n, tr (addr i) ≠ some p) → mem' p = mem p

/-- **A block is stored**, when its addresses are mapped to different ones. -/
lemma storeBlock_ok (hmapped : ∀ i < n, tr (addr i) ≠ none)
    (hinj : ∀ i < n, ∀ j < n, ∀ p, tr (addr i) = some p → tr (addr j) = some p → i = j) :
    ∃ mem', storeBlock fault tr addr val n mem = .ok mem' ∧ Stored tr addr val n mem mem' := by
  refine foldlM_range_ok (fun i m => Stored tr addr val i mem m) ?_
    ⟨fun i hi => absurd hi (Nat.not_lt_zero i), fun p _ => rfl⟩
  intro i m hi hm
  obtain ⟨p, hp⟩ := Option.ne_none_iff_exists'.mp (hmapped i hi)
  refine ⟨Function.update m p (val i), store_of_some hp, fun j hj q hq => ?_, fun q hq => ?_⟩
  · by_cases hji : j = i
    · subst hji
      obtain rfl := Option.some.inj (hp.symm.trans hq)
      exact Function.update_self ..
    · have hne : q ≠ p := by
        rintro rfl
        exact hji (hinj j (by omega) i hi q hq hp)
      rw [Function.update_of_ne hne]
      exact hm.there j (by omega) q hq
  · have hne : q ≠ p := fun hc => hq i (Nat.lt_succ_self i) (hc ▸ hp)
    rw [Function.update_of_ne hne]
    exact hm.elsewhere q fun j hj => hq j (by omega)

end Paging
