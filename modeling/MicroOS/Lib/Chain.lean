import Mathlib.Tactic

/-!
Two descriptions of a list of blocks laid out in an address space, and how edits of the list
act on them.

* **Links.** `Linked next last p l q`: the addresses of `l` form a doubly linked list, entered
  from `p` on the left and left towards `q` on the right. The predicate is stated for a piece
  of a list, so that `linked_append` cuts it anywhere, and `Linked.congr` moves it to other
  link functions that agree on its nodes. A local edit of a list is then a cut, a new link at
  the seam and `congr` on the rest.
* **Tilings.** `Tiles lo l hi`: consecutive blocks fill the interval from `lo` to `hi`. It is
  cut by `tiles_append`, gives each block its place (`Tiles.mem_bounds`) and keeps blocks apart
  (`Tiles.pairwise`).
-/

namespace Chain

/-! ### Doubly linked lists -/

section Links

variable {α : Type*}

/-- The address a list is entered at, `d` for the empty list. -/
def firstD (d : α) : List α → α
  | [] => d
  | a :: _ => a

/-- The address a list is left from, `d` for the empty list. -/
def finalD (d : α) : List α → α
  | [] => d
  | a :: l => finalD a l

/-- **A piece of a doubly linked list**: every node points forward to the node after it, or to
`q` from the last one, and back to the node before it, or to `p` from the first one. -/
def Linked (next last : α → α) : α → List α → α → Prop
  | _, [], _ => True
  | p, a :: l, q => next a = firstD q l ∧ last a = p ∧ Linked next last a l q

@[simp] lemma firstD_nil (d : α) : firstD d [] = d := rfl

@[simp] lemma firstD_cons (d a : α) (l : List α) : firstD d (a :: l) = a := rfl

@[simp] lemma finalD_nil (d : α) : finalD d [] = d := rfl

@[simp] lemma finalD_cons (d a : α) (l : List α) : finalD d (a :: l) = finalD a l := rfl

/-- Of two lists the first one is entered first. -/
lemma firstD_append (d : α) (l₁ l₂ : List α) :
    firstD d (l₁ ++ l₂) = firstD (firstD d l₂) l₁ := by
  cases l₁ <;> rfl

/-- And the second one is left last. -/
@[simp] lemma finalD_append (d : α) (l₁ l₂ : List α) :
    finalD d (l₁ ++ l₂) = finalD (finalD d l₁) l₂ := by
  induction l₁ generalizing d with
  | nil => rfl
  | cons a l₁ ih => exact ih a

/-- A list that is not empty is left from one of its addresses. -/
lemma finalD_mem {d : α} {l : List α} (h : l ≠ []) : finalD d l ∈ l := by
  induction l generalizing d with
  | nil => exact absurd rfl h
  | cons a l ih =>
    cases l with
    | nil => simp
    | cons b l => exact List.mem_cons_of_mem a (ih (d := a) (by simp))

variable {next last next' last' : α → α} {p q : α} {l l₁ l₂ : List α}

/-- A linked list is cut at any place. -/
lemma linked_append : Linked next last p (l₁ ++ l₂) q ↔
    Linked next last p l₁ (firstD q l₂) ∧ Linked next last (finalD p l₁) l₂ q := by
  induction l₁ generalizing p with
  | nil => simp [Linked]
  | cons a l₁ ih =>
    simp only [List.cons_append, Linked, ih, finalD_cons, firstD_append]
    tauto

/-- The links are read at the nodes of the list only. -/
lemma Linked.congr (h : Linked next last p l q) (hn : ∀ a ∈ l, next' a = next a)
    (hl : ∀ a ∈ l, last' a = last a) : Linked next' last' p l q := by
  induction l generalizing p with
  | nil => trivial
  | cons a l ih =>
    obtain ⟨h1, h2, h3⟩ := h
    refine ⟨(hn a (by simp)).trans h1, (hl a (by simp)).trans h2, ih h3 ?_ ?_⟩
    · exact fun b hb => hn b (by simp [hb])
    · exact fun b hb => hl b (by simp [hb])

/-- A list is entered from elsewhere once its first node points back there. -/
lemma Linked.reenter {p' : α} (h : Linked next last p l q) (hn : ∀ a ∈ l, next' a = next a)
    (hfirst : ∀ a ∈ l.head?, last' a = p') (hrest : ∀ a ∈ l.tail, last' a = last a) :
    Linked next' last' p' l q := by
  cases l with
  | nil => trivial
  | cons a l =>
    obtain ⟨h1, _, h3⟩ := h
    refine ⟨(hn a (by simp)).trans h1, hfirst a (by simp), h3.congr ?_ hrest⟩
    exact fun b hb => hn b (by simp [hb])

end Links

/-! ### Tilings of an interval -/

section Tiling

variable {β : Type*} (start size : β → ℕ)

/-- **Consecutive blocks fill the interval** from `lo` to `hi`. -/
def Tiles : ℕ → List β → ℕ → Prop
  | lo, [], hi => lo = hi
  | lo, b :: l, hi => start b = lo ∧ Tiles (lo + size b) l hi

variable {start size} {lo hi : ℕ} {l l₁ l₂ : List β}

/-- Two lists of tiles meet at an address. -/
lemma tiles_append : Tiles start size lo (l₁ ++ l₂) hi ↔
    ∃ mid, Tiles start size lo l₁ mid ∧ Tiles start size mid l₂ hi := by
  induction l₁ generalizing lo with
  | nil => simp [Tiles]
  | cons b l₁ ih => simp only [List.cons_append, Tiles, ih]; tauto

/-- Tiles end behind their start. -/
lemma Tiles.le (h : Tiles start size lo l hi) : lo ≤ hi := by
  induction l generalizing lo with
  | nil => exact le_of_eq h
  | cons b l ih => exact (Nat.le_add_right _ _).trans (ih h.2)

/-- Every block lies inside the interval. -/
lemma Tiles.mem_bounds (h : Tiles start size lo l hi) {b : β} (hb : b ∈ l) :
    lo ≤ start b ∧ start b + size b ≤ hi := by
  induction l generalizing lo with
  | nil => simp at hb
  | cons c l ih =>
    obtain ⟨h1, h2⟩ := h
    have hle := h2.le
    rcases List.mem_cons.mp hb with rfl | hb
    · omega
    · have := ih h2 hb
      omega

/-- A block lies before every later one. -/
lemma Tiles.pairwise (h : Tiles start size lo l hi) :
    l.Pairwise fun b c => start b + size b ≤ start c := by
  induction l generalizing lo with
  | nil => exact List.Pairwise.nil
  | cons b l ih =>
    obtain ⟨h1, h2⟩ := h
    refine List.pairwise_cons.mpr ⟨fun c hc => ?_, ih h2⟩
    have := (h2.mem_bounds hc).1
    omega

/-- Blocks of a minimal size bound their number. -/
lemma Tiles.length_mul_le {c : ℕ} (h : Tiles start size lo l hi) (hc : ∀ b ∈ l, c ≤ size b) :
    lo + l.length * c ≤ hi := by
  induction l generalizing lo with
  | nil => simpa using h.le
  | cons b l ih =>
    have h1 := ih h.2 fun d hd => hc d (by simp [hd])
    have h2 := hc b (by simp)
    rw [List.length_cons, Nat.add_mul, Nat.one_mul]
    omega

/-- The blocks left of a given one end before it, those right of it start after it. -/
lemma Tiles.cut {b : β} (h : Tiles start size lo (l₁ ++ b :: l₂) hi) :
    (∀ s ∈ l₁, start s + size s ≤ start b) ∧ (∀ t ∈ l₂, start b + size b ≤ start t) := by
  have hp := List.pairwise_append.mp h.pairwise
  exact ⟨fun s hs => hp.2.2 s hs b (by simp), (List.pairwise_cons.mp hp.2.1).1⟩

/-- Two blocks are the same or apart. -/
lemma Tiles.eq_or_apart (h : Tiles start size lo l hi) {b c : β} (hb : b ∈ l) (hc : c ∈ l) :
    b = c ∨ start b + size b ≤ start c ∨ start c + size c ≤ start b := by
  by_cases hbc : b = c
  · exact Or.inl hbc
  · refine Or.inr ?_
    have hsymm : Std.Symm fun b c =>
        start b + size b ≤ start c ∨ start c + size c ≤ start b := ⟨fun _ _ => Or.symm⟩
    have hpair : l.Pairwise fun b c =>
        start b + size b ≤ start c ∨ start c + size c ≤ start b := h.pairwise.imp Or.inl
    exact hpair.forall hb hc hbc

end Tiling

end Chain
