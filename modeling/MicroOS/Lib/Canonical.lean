import Mathlib.Data.List.GetD
import MicroOS.Lib.BitStream

/-!
Canonical prefix codes: the code words of a length are consecutive numbers, given out in the order
of the symbols, and those of the next length go on where they end.

* `count`: how many symbols have a code of a length; `first`: the first code of a length; `before`:
  how many codes are shorter.
* `code`: the code word of a symbol.
* `slot`: the place of a symbol among all in the order of their codes; `slot_inj`.
* `Fits`, `Complete`: the code has room for its words, and uses all of it; `complete_iff` is Kraft's
  equality. `Word.eq_of_prefix`: no code word is a prefix of another one.
-/

namespace Canonical

open BitStream

variable {c : ℕ → ℕ} {i l m r s v : ℕ} {ls : List ℕ}

/-- The number of symbols whose code has the length `l`; a length of zero means that there is none.
-/
def count (ls : List ℕ) (l : ℕ) : ℕ := if l = 0 then 0 else ls.count l

/-- The first code of length `l`, where `c` counts the codes of every length. -/
def first (c : ℕ → ℕ) : ℕ → ℕ
  | 0 => 0
  | l + 1 => 2 * (first c l + c l)

/-- The number of codes that are shorter than `l`. -/
def before (c : ℕ → ℕ) : ℕ → ℕ
  | 0 => 0
  | l + 1 => before c l + c l

/-- The number of symbols before `s` with a code of the same length. -/
def rank (ls : List ℕ) (s : ℕ) : ℕ := (ls.take s).count (ls.getD s 0)

/-- The code word of a symbol. -/
def code (ls : List ℕ) (s : ℕ) : List Bool :=
  msb (ls.getD s 0) (first (count ls) (ls.getD s 0) + rank ls s)

/-- The place of a symbol in the order of the codes. -/
def slot (ls : List ℕ) (s : ℕ) : ℕ := before (count ls) (ls.getD s 0) + rank ls s

/-- The codes up to the length `m` have room. -/
def Fits (c : ℕ → ℕ) (m : ℕ) : Prop := ∀ l ≤ m, first c l + c l ≤ 2 ^ l

/-- The codes up to the length `m` have room, and use all of it. -/
def Complete (c : ℕ → ℕ) (m : ℕ) : Prop := Fits c m ∧ first c m + c m = 2 ^ m

/-! ### The order of the codes -/

/-- A symbol has fewer symbols of its length in front of it than there are. -/
lemma rank_lt (hs : s < ls.length) : rank ls s < ls.count (ls.getD s 0) := by
  have hget : ls.getD s 0 = ls[s] := List.getD_eq_getElem _ _ hs
  have hsplit : ls.count ls[s] = (ls.take s ++ ls[s] :: ls.drop (s + 1)).count ls[s] := by
    rw [← List.drop_eq_getElem_cons hs, List.take_append_drop]
  rw [rank, hget, hsplit, List.count_append, List.count_cons_self]
  omega

/-- A symbol that comes later has a higher rank among those of its length. -/
lemma rank_lt_rank {t : ℕ} (hst : s < t) (ht : t < ls.length)
    (hlen : ls.getD s 0 = ls.getD t 0) : rank ls s < rank ls t := by
  have hs : s < (ls.take t).length := by rw [List.length_take]; omega
  have h := rank_lt hs
  have hget : (ls.take t).getD s 0 = ls.getD s 0 := by
    rw [List.getD_eq_getElem _ _ hs, List.getElem_take,
      List.getD_eq_getElem _ _ (by omega : s < ls.length)]
  rw [rank, hget, List.take_take, Nat.min_eq_left hst.le] at h
  rw [rank, rank, ← hlen]
  exact h

/-- Symbols that are added behind do not change a length or a rank. -/
lemma rank_append_left (hs : s < ls.length) (ls' : List ℕ) :
    (ls ++ ls').getD s 0 = ls.getD s 0 ∧ rank (ls ++ ls') s = rank ls s := by
  have hget : (ls ++ ls').getD s 0 = ls.getD s 0 := List.getD_append _ _ _ _ hs
  exact ⟨hget, by rw [rank, rank, hget, List.take_append_of_le_length hs.le]⟩

/-- In a run of equal lengths, the rank of a symbol is its place. -/
lemma rank_run (x y : List ℕ) (hr : r < m) (l : ℕ) :
    (x ++ (List.replicate m l ++ y)).getD (x.length + r) 0 = l
      ∧ rank (x ++ (List.replicate m l ++ y)) (x.length + r) = x.count l + r := by
  have hget : (x ++ (List.replicate m l ++ y)).getD (x.length + r) 0 = l := by
    rw [List.getD_append_right _ _ _ _ (Nat.le_add_right _ _), Nat.add_sub_cancel_left,
      List.getD_append _ _ _ _ (by rwa [List.length_replicate]), List.getD_replicate _ hr]
  refine ⟨hget, ?_⟩
  rw [rank, hget, List.take_length_add_append, List.count_append,
    List.take_append_of_le_length (by rw [List.length_replicate]; exact hr.le),
    List.take_replicate, List.count_replicate_self, Nat.min_eq_left hr.le]

/-- Every rank below the number of codes of a length is that of a symbol. -/
lemma exists_rank (hr : r < ls.count l) : ∃ s < ls.length, ls.getD s 0 = l ∧ rank ls s = r := by
  induction ls using List.reverseRecOn with
  | nil => simp at hr
  | append_singleton ls a ih =>
    rw [List.count_append] at hr
    by_cases hlt : r < ls.count l
    · obtain ⟨s, hs, hlen, hrank⟩ := ih hlt
      refine ⟨s, by rw [List.length_append]; omega, ?_⟩
      rw [(rank_append_left hs [a]).1, (rank_append_left hs [a]).2]
      exact ⟨hlen, hrank⟩
    · have ha : a = l := by
        by_contra hne
        rw [List.count_singleton, if_neg (by simpa using hne)] at hr
        omega
      subst ha
      rw [List.count_singleton_self] at hr
      have hget : (ls ++ [a]).getD ls.length 0 = a := by simp
      refine ⟨ls.length, by simp, hget, ?_⟩
      rw [rank, hget, List.take_left]
      omega

/-- Longer codes have more codes in front of them. -/
lemma before_mono (hlm : l ≤ m) : before c l ≤ before c m := by
  induction hlm with
  | refl => exact le_rfl
  | step _ ih => exact ih.trans (Nat.le_add_right _ _)

lemma before_add_lt (hr : r < c l) (hlm : l < m) : before c l + r < before c m :=
  lt_of_lt_of_le (Nat.add_lt_add_left hr _) (before_mono (c := c) (Nat.succ_le_of_lt hlm))

/-- `rank_lt`, for the counts. -/
lemma rank_lt_count (hs : s < ls.length) (hl : ls.getD s 0 ≠ 0) :
    rank ls s < count ls (ls.getD s 0) := by
  rw [count, if_neg hl]
  exact rank_lt hs

/-- **Two symbols with codes have two slots.** -/
lemma slot_inj {t : ℕ} (hs : s < ls.length) (ht : t < ls.length) (hs0 : ls.getD s 0 ≠ 0)
    (ht0 : ls.getD t 0 ≠ 0) (h : slot ls s = slot ls t) : s = t := by
  rw [slot, slot] at h
  have hranks := rank_lt_count hs hs0
  have hrankt := rank_lt_count ht ht0
  rcases lt_trichotomy (ls.getD s 0) (ls.getD t 0) with hlt | heq | hgt
  · have hbelow := before_add_lt hranks hlt
    omega
  · rw [heq] at h
    rcases lt_trichotomy s t with hst | hst | hst
    · have hrank := rank_lt_rank hst ht heq
      omega
    · exact hst
    · have hrank := rank_lt_rank hst hs heq.symm
      omega
  · have hbelow := before_add_lt hrankt hgt
    omega

/-- The slots are below the number of all codes. -/
lemma slot_lt (hs : s < ls.length) (hs0 : ls.getD s 0 ≠ 0) (hm : ls.getD s 0 < m) :
    slot ls s < before (count ls) m :=
  before_add_lt (rank_lt_count hs hs0) hm

/-- One symbol more adds a code of its length. -/
lemma before_count_cons (a : ℕ) (ls : List ℕ) (m : ℕ) :
    before (count (a :: ls)) m = before (count ls) m + if a ≠ 0 ∧ a < m then 1 else 0 := by
  induction m with
  | zero => simp [before]
  | succ m ih =>
    have hcount : count (a :: ls) m = count ls m + if a ≠ 0 ∧ a = m then 1 else 0 := by
      rw [count, count, List.count_cons]
      by_cases hm : m = 0
      · simp [hm]
      · by_cases ha : a = m <;> simp [hm, ha]
    rw [before, before, ih, hcount]
    split_ifs <;> omega

/-- The lengths that are those of codes. -/
def used (ls : List ℕ) : List ℕ := ls.filter (· ≠ 0)

/-- **All codes together.** -/
lemma before_count (hm : ∀ l ∈ ls, l < m) : before (count ls) m = (used ls).length := by
  induction ls with
  | nil =>
    clear hm
    induction m with
    | zero => rfl
    | succ m ih => simpa [before, count] using ih
  | cons a ls ih =>
    rw [before_count_cons, ih fun l hl => hm l (List.mem_cons_of_mem a hl), used, used,
      List.filter_cons]
    have ha := hm a List.mem_cons_self
    by_cases h0 : a = 0
    · simp [h0]
    · simp [h0, ha]

lemma length_used_le (ls : List ℕ) : (used ls).length ≤ ls.length := List.length_filter_le _ _

/-- Lengths that are not used do not count. -/
lemma count_used (hl : l ≠ 0) : (used ls).count l = count ls l := by
  rw [count, if_neg hl, used, List.count_filter]
  simpa using hl

/-! ### Room -/

/-- The first code of a length, and the numbers before it at a shorter length. -/
lemma first_le (h : first c l ≤ v) (hil : i < l) : first c i + c i ≤ v / 2 ^ (l - i) := by
  induction l generalizing v with
  | zero => omega
  | succ l ih =>
    rw [first] at h
    have hhalf : first c l + c l ≤ v / 2 := by omega
    rcases Nat.lt_succ_iff_lt_or_eq.mp hil with hlt | heq
    · have hstep := ih (v := v / 2) (by omega) hlt
      rwa [Nat.div_div_eq_div_mul, ← Nat.pow_succ', ← Nat.succ_sub hlt.le] at hstep
    · subst heq
      simpa using hhalf

/-- The lengths that are not used do not matter. -/
lemma count_used_eq (ls : List ℕ) : count (used ls) = count ls := by
  funext l
  by_cases hl : l = 0
  · rw [count, count, if_pos hl, if_pos hl]
  · rw [count, if_neg hl, count_used hl]

/-- The length of a symbol that has a code is used. -/
lemma getD_mem_used (hs : s < ls.length) (hs0 : ls.getD s 0 ≠ 0) : ls.getD s 0 ∈ used ls := by
  rw [List.getD_eq_getElem _ _ hs] at hs0 ⊢
  exact List.mem_filter.mpr ⟨List.getElem_mem hs, by simpa using hs0⟩

/-- A single code is the bit zero. -/
lemma code_of_single (hused : used ls = [1]) (hs : s < ls.length) (hs0 : ls.getD s 0 ≠ 0) :
    code ls s = [false] ∧ slot ls s = 0 := by
  have hlen : ls.getD s 0 = 1 := by
    have h := getD_mem_used hs hs0
    rwa [hused, List.mem_singleton] at h
  have hcount : count ls 1 = 1 := by
    rw [← count_used one_ne_zero, hused]
    rfl
  have hzero : count ls 0 = 0 := if_pos rfl
  have hrank : rank ls s = 0 := by
    have h := rank_lt_count hs hs0
    rw [hlen, hcount] at h
    omega
  rw [code, slot, hrank, hlen, first, first, before, before, hzero]
  exact ⟨rfl, rfl⟩

/-- How much of the room the codes take, in units of the longest length. -/
def kraft (ls : List ℕ) (m : ℕ) : ℕ :=
  (ls.map fun l => if l = 0 ∨ m < l then 0 else 2 ^ (m - l)).sum

lemma kraft_cons (a : ℕ) (ls : List ℕ) (m : ℕ) :
    kraft (a :: ls) m = (if a = 0 ∨ m < a then 0 else 2 ^ (m - a)) + kraft ls m := rfl

/-- One length more is one more factor of two. -/
lemma kraft_succ (ls : List ℕ) (m : ℕ) : kraft ls (m + 1) = 2 * kraft ls m + count ls (m + 1) := by
  induction ls with
  | nil => rfl
  | cons a ls ih =>
    have hterm : (if a = 0 ∨ m + 1 < a then 0 else 2 ^ (m + 1 - a))
        = 2 * (if a = 0 ∨ m < a then 0 else 2 ^ (m - a)) + if a = m + 1 then 1 else 0 := by
      by_cases ha : a = 0
      · subst ha; simp
      · rcases lt_trichotomy a (m + 1) with hlt | heq | hgt
        · have hpow : m + 1 - a = m - a + 1 := by omega
          rw [if_neg (by omega), if_neg (by omega), if_neg (by omega), hpow, Nat.pow_succ']
          rfl
        · subst heq; simp
        · rw [if_pos (by omega), if_pos (by omega), if_neg (by omega)]
    have hcount : count (a :: ls) (m + 1) = count ls (m + 1) + if a = m + 1 then 1 else 0 := by
      rw [count, count, if_neg (Nat.succ_ne_zero m), if_neg (Nat.succ_ne_zero m),
        List.count_cons]
      simp
    rw [kraft_cons, kraft_cons, hterm, hcount, ih]
    ring

/-- Lengths that are not used have no share in it. -/
lemma kraft_used (ls : List ℕ) (m : ℕ) : kraft (used ls) m = kraft ls m := by
  induction ls with
  | nil => rfl
  | cons a ls ih =>
    by_cases h0 : a = 0
    · have hskip : used (a :: ls) = used ls := by simp [used, h0]
      rw [hskip, ih, kraft_cons, if_pos (.inl h0), Nat.zero_add]
    · have hkeep : used (a :: ls) = a :: used ls := by simp [used, h0]
      rw [hkeep, kraft_cons, kraft_cons, ih]

/-- **The sum of Kraft** is what the counts of the lengths take up. -/
lemma kraft_eq (ls : List ℕ) (m : ℕ) : kraft ls m = first (count ls) m + count ls m := by
  induction m with
  | zero =>
    have hzero : kraft ls 0 = 0 := by
      rw [kraft, List.sum_eq_zero]
      intro x hx
      obtain ⟨a, -, rfl⟩ := List.mem_map.mp hx
      exact if_pos (by omega)
    rw [hzero]
    rfl
  | succ m ih => rw [kraft_succ, ih, first]

/-- **A code is complete if and only if Kraft's sum is one.** -/
lemma complete_iff : Complete (count ls) m ↔ kraft ls m = 2 ^ m := by
  constructor
  · intro h
    rw [kraft_eq, h.2]
  · intro h
    refine ⟨fun l hl => ?_, by rw [← kraft_eq, h]⟩
    rw [← kraft_eq]
    have hgrow : kraft ls l * 2 ^ (m - l) ≤ kraft ls m := by
      clear h
      induction m, hl using Nat.le_induction with
      | base => rw [Nat.sub_self, Nat.pow_zero, Nat.mul_one]
      | succ m hl ih =>
        rw [kraft_succ, Nat.succ_sub hl, Nat.pow_succ']
        calc kraft ls l * (2 * 2 ^ (m - l)) = 2 * (kraft ls l * 2 ^ (m - l)) := by ring
          _ ≤ 2 * kraft ls m + count ls (m + 1) := by omega
    rw [h] at hgrow
    have hpow : 2 ^ m = 2 ^ l * 2 ^ (m - l) := by rw [← Nat.pow_add, Nat.add_sub_cancel' hl]
    rw [hpow] at hgrow
    exact Nat.le_of_mul_le_mul_right hgrow (Nat.two_pow_pos _)

/-! ### Words -/

/-- The number `v` is a code of length `l`. -/
def Word (c : ℕ → ℕ) (l v : ℕ) : Prop := first c l ≤ v ∧ v < first c l + c l

instance (c : ℕ → ℕ) (l v : ℕ) : Decidable (Word c l v) := inferInstanceAs (Decidable (_ ∧ _))

/-- The code of a symbol is one of the words of its length. -/
lemma word_code (hs : s < ls.length) (hs0 : ls.getD s 0 ≠ 0) :
    Word (count ls) (ls.getD s 0) (first (count ls) (ls.getD s 0) + rank ls s) := by
  have hrank := rank_lt_count hs hs0
  exact ⟨Nat.le_add_right _ _, by omega⟩

/-- **No code word begins with another one.** -/
lemma Word.eq_of_prefix {w : ℕ} (hfits : Fits c r) (hm : m ≤ r) (h : Word c l v) (h' : Word c m w)
    (hinit : msb l v <+: msb m w) : l = m ∧ v = w := by
  have hle : l ≤ m := by
    have hlen := hinit.length_le
    rwa [length_msb, length_msb] at hlen
  have hv : v < 2 ^ l := h.2.trans_le (hfits l (hle.trans hm))
  have hw : w < 2 ^ m := h'.2.trans_le (hfits m hm)
  have hquot : w / 2 ^ (m - l) < 2 ^ l := by
    rwa [Nat.div_lt_iff_lt_mul (Nat.two_pow_pos _), ← Nat.pow_add, Nat.add_sub_cancel' hle]
  have heq : v = w / 2 ^ (m - l) := by
    refine msb_inj hv hquot ?_
    rw [← take_msb hle, List.prefix_iff_eq_take.mp hinit, length_msb]
  rcases Nat.lt_or_eq_of_le hle with hlt | rfl
  · have hpast := first_le h'.1 hlt
    rw [← heq] at hpast
    exact absurd h.2 (by omega)
  · rw [Nat.sub_self, Nat.pow_zero, Nat.div_one] at heq
    exact ⟨rfl, heq⟩

end Canonical
