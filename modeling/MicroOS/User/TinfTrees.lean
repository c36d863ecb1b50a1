import MicroOS.Lib.Deflate
import MicroOS.User.TinfReader

/-!
The Huffman trees of the decompressor, `tinf_build_tree` and `tinf_decode_symbol`.

* `TinfTree.Sound`: a tree with which decoding ends; `TinfTree.Reads`: the words that it decodes.
* `tinfDecodeSymbol_took`: decoding takes one word; `tinfDecodeSymbol_reads`: it takes the word that
  is ahead.
* `tinfBuildTree_ok_iff`: **a tree is built of usable lengths and of no others**;
  `tinfDecodeSymbol_code`: **it decodes the canonical code.**
-/

namespace MicroOS

open BitStream Canonical Checked Deflate TinfData

variable {t t' : TinfTree} {d d' : TinfData} {ls : List ℕ} {w w' rest : List Bool}
  {l m n s s' v : ℕ}

namespace TinfTree

/-- How many codes of a length the tree has. -/
def leaves (t : TinfTree) (l : ℕ) : ℕ := if l = 0 then 0 else t.counts.getD l 0

/-- The tree is that of a complete code. -/
structure Sound (t : TinfTree) : Prop where
  counts : t.counts.length = 16
  symbols : t.symbols.length = 288
  complete : Complete t.leaves 15
  before_le : before t.leaves 16 ≤ 288

/-- The word `w` is decoded to `s`. -/
def Reads (t : TinfTree) (w : List Bool) (s : ℕ) : Prop :=
  ∃ l v, l ≤ 15 ∧ Word t.leaves l v ∧ w = msb l v
    ∧ s = t.symbols.getD (before t.leaves l + (v - first t.leaves l)) 0

/-- A word has a bit. -/
lemma Reads.ne_nil (h : t.Reads w s) : w ≠ [] := by
  obtain ⟨l, v, -, hword, rfl, -⟩ := h
  cases l with
  | zero => exact absurd hword.2 (by rw [leaves, if_pos rfl]; have := hword.1; omega)
  | succ l => exact List.cons_ne_nil _ _

/-- No word of a tree begins with another one. -/
lemma Reads.eq_of_prefix (ht : t.Sound) {x : List Bool} (h : t.Reads w s) (h' : t.Reads w' s')
    (hw : w <+: x) (hw' : w' <+: x) : w = w' ∧ s = s' := by
  have hinit (w w' : List Bool) (s s' : ℕ) (h : t.Reads w s) (h' : t.Reads w' s')
      (hle : w <+: w') : w = w' ∧ s = s' := by
    obtain ⟨l, v, -, hword, rfl, rfl⟩ := h
    obtain ⟨m, u, hm, hword', rfl, rfl⟩ := h'
    obtain ⟨rfl, rfl⟩ := hword.eq_of_prefix ht.complete.1 hm hword' hle
    exact ⟨rfl, rfl⟩
  rcases List.prefix_or_prefix_of_prefix hw hw' with hle | hle
  · exact hinit w w' s s' h h' hle
  · obtain ⟨rfl, rfl⟩ := hinit w' w s' s h' h hle
    exact ⟨rfl, rfl⟩

end TinfTree

open TinfTree

/-! ### `tinf_decode_symbol` -/

/-- A read inside of an array returns its element. -/
lemma tinfGet_of_lt {α : Type} {a : List α} {i : ℕ} (z : α) (hi : i < a.length) :
    tinfGet a i = .ok (a.getD i z) := by
  rw [tinfGet, List.getElem?_eq_getElem hi, List.getD_eq_getElem _ _ hi]

/-- The loop after `k` bits, which are the number `v`: `l` more bits at most are to come. -/
lemma tinfDecodeLoop_took (ht : t.Sound) {k n : ℕ} {d₀ : TinfData} (hlen : k + l = 15)
    (hn : l < n) (hv : v < 2 ^ k) (hpast : first t.leaves k + t.leaves k ≤ v)
    (htook : d₀.Took (msb k v) d) :
    ∃ w s d', tinfDecodeLoop t n (k + 1) (before t.leaves k + t.leaves k)
      (v - (first t.leaves k + t.leaves k)) d = .ok (s, d') ∧ t.Reads w s ∧ d₀.Took w d' := by
  induction l generalizing k v n d with
  | zero =>
    obtain rfl : k = 15 := by omega
    exact absurd ht.complete.2 (by omega)
  | succ l ih =>
    obtain ⟨n, rfl⟩ : ∃ n', n = n' + 1 := ⟨n - 1, by omega⟩
    obtain ⟨bit, d₁, hget, hbit, hbits⟩ := tinfGetbits_took htook.ready (by norm_num : 1 ≤ 24)
    have hbool : bits 1 bit = [decide (bit % 2 = 1)] := rfl
    have hnat : (decide (bit % 2 = 1)).toNat = bit := by rw [toNat_odd]; omega
    have htook' : d₀.Took (msb (k + 1) (2 * v + bit)) d₁ := by
      have h := htook.trans hbits
      rwa [hbool, ← msb_succ, hnat] at h
    have hfirst : first t.leaves (k + 1) = 2 * (first t.leaves k + t.leaves k) := rfl
    have hbefore : before t.leaves (k + 1) = before t.leaves k + t.leaves k := rfl
    have hoffs : 2 * (v - (first t.leaves k + t.leaves k)) + bit
        = 2 * v + bit - first t.leaves (k + 1) := by omega
    have hv' : 2 * v + bit < 2 ^ (k + 1) := by rw [Nat.pow_succ]; omega
    have hcount : tinfGet t.counts (k + 1) = .ok (t.leaves (k + 1)) := by
      rw [tinfGet_of_lt 0 (by rw [ht.counts]; omega), leaves, if_neg (Nat.succ_ne_zero k)]
    rw [tinfDecodeLoop, hget, ok_bind]
    dsimp only
    rw [tinfAssert_of (by omega), ok_bind, hcount, ok_bind, hoffs, ← hbefore]
    by_cases hleaf : 2 * v + bit - first t.leaves (k + 1) < t.leaves (k + 1)
    · -- the number is that of a leaf
      have hslot : before t.leaves (k + 1) + (2 * v + bit - first t.leaves (k + 1)) < 288 :=
        (before_add_lt hleaf (by omega : k + 1 < 16)).trans_le ht.before_le
      rw [if_pos hleaf, tinfAssert_of hslot, ok_bind, tinfGet_of_lt 0 (by rwa [ht.symbols]),
        ok_bind]
      refine ⟨_, _, d₁, rfl, ⟨k + 1, 2 * v + bit, by omega, ⟨by omega, by omega⟩, rfl, rfl⟩, ?_⟩
      exact htook'
    · rw [if_neg hleaf, Nat.sub_sub]
      exact ih (by omega) (by omega) hv' (by omega) htook'

/-- **`tinf_decode_symbol` takes a word of the tree.** -/
lemma tinfDecodeSymbol_took (ht : t.Sound) (hd : d.Ready) :
    ∃ w s d', tinfDecodeSymbol d t = .ok (s, d') ∧ t.Reads w s ∧ d.Took w d' := by
  have hzero : t.leaves 0 = 0 := if_pos rfl
  have h := tinfDecodeLoop_took (n := 16) (k := 0) (l := 15) (v := 0) ht rfl (by norm_num)
    Nat.one_pos (by rw [hzero]; exact le_rfl) (Took.refl hd)
  rw [hzero] at h
  exact h

/-- **The word ahead is taken.** -/
lemma tinfDecodeSymbol_reads (ht : t.Sound) (hd : d.Ready) (hov : d.overflow = false)
    (hw : d.pending = w ++ rest) (hreads : t.Reads w s) :
    ∃ d', tinfDecodeSymbol d t = .ok (s, d') ∧ d.Took w d' ∧ d'.overflow = false
      ∧ d'.pending = rest := by
  obtain ⟨w', s', d', heq, hreads', htook⟩ := tinfDecodeSymbol_took ht hd
  obtain ⟨rfl, hov', hrest⟩ := htook.of_prefix hov hw fun x hx hx' =>
    (hreads'.eq_of_prefix ht hreads hx hx').1
  obtain ⟨-, rfl⟩ := hreads'.eq_of_prefix ht hreads (List.prefix_refl _) (List.prefix_refl _)
  exact ⟨d', heq, htook, hov', hrest⟩

/-! ### `tinf_build_tree` -/

/-- The last symbol with a code, or `-1`. -/
def lastCode (ls : List ℕ) : ℤ :=
  ls.zipIdx.foldl (fun m p => if p.1 = 0 then m else (p.2 : ℤ)) (-1)

/-- One more length is the last one that is used, or is not used. -/
lemma lastCode_append (ls : List ℕ) (a : ℕ) :
    lastCode (ls ++ [a]) = if a = 0 then lastCode ls else ls.length := by
  rw [lastCode, List.zipIdx_append, List.foldl_append, ← lastCode]
  simp

/-- The last symbol is one of the code. -/
lemma lastCode_lt (ls : List ℕ) : lastCode ls < ls.length := by
  induction ls using List.reverseRecOn with
  | nil => exact neg_one_lt_zero
  | append_singleton ls a ih =>
    rw [lastCode_append, List.length_append, List.length_singleton]
    split_ifs <;> push_cast <;> omega

/-- No symbol with a code is behind it. -/
lemma le_lastCode (hs : s < ls.length) (hs0 : ls.getD s 0 ≠ 0) : (s : ℤ) ≤ lastCode ls := by
  induction ls using List.reverseRecOn with
  | nil => exact absurd hs (Nat.not_lt_zero s)
  | append_singleton ls a ih =>
    have hlt := lastCode_lt ls
    rw [List.length_append, List.length_singleton] at hs
    rw [lastCode_append]
    rcases Nat.lt_succ_iff_lt_or_eq.mp hs with hlt' | heq
    · rw [List.getD_append _ _ _ _ hlt'] at hs0
      have hle := ih hlt' hs0
      split_ifs <;> omega
    · subst heq
      rw [List.getD_append_right _ _ _ _ le_rfl, Nat.sub_self] at hs0
      rw [if_neg (by simpa using hs0)]

/-- One symbol more. -/
lemma count_take_succ (ls : List ℕ) {i : ℕ} (hi : i < ls.length) (l : ℕ) :
    count (ls.take (i + 1)) l = count (ls.take i) l
      + if l ≠ 0 ∧ ls.getD i 0 = l then 1 else 0 := by
  rw [List.take_add_one, List.getElem?_eq_getElem hi, Option.toList_some, count, count,
    List.count_append, List.getD_eq_getElem _ _ hi, List.count_singleton]
  by_cases hl : l = 0
  · simp [hl]
  · simp [hl, beq_iff_eq]

/-- The loop that counts the lengths. -/
lemma tinfCountLength_loop {lengths : List ℕ} (hn : n ≤ lengths.length)
    (hle : ∀ x ∈ lengths.take n, x ≤ 15) :
    ∃ counts, (List.range n).foldlM (tinfCountLength lengths) (List.replicate 16 0, -1)
        = .ok (counts, lastCode (lengths.take n))
      ∧ counts.length = 16 ∧ ∀ l < 16, counts.getD l 0 = count (lengths.take n) l := by
  have hloop := foldlM_range_ok (ε := TinfStop) (f := tinfCountLength lengths) (n := n)
    (s := (List.replicate 16 0, -1))
    (fun i s => s.2 = lastCode (lengths.take i) ∧ s.1.length = 16
      ∧ ∀ l < 16, s.1.getD l 0 = count (lengths.take i) l) ?_ ?_
  · obtain ⟨⟨counts, last⟩, hrun, hlast, hlen, hcount⟩ := hloop
    dsimp only at hlast hlen hcount
    exact ⟨counts, by rw [hrun, hlast], hlen, hcount⟩
  · rintro i ⟨counts, last⟩ hi ⟨hlast, hlen, hcount⟩
    dsimp only at hlast hlen hcount
    have hi' : i < lengths.length := by omega
    have hget : lengths.getD i 0 = lengths[i] := List.getD_eq_getElem _ _ hi'
    have h15 : lengths.getD i 0 ≤ 15 := by
      rw [hget]
      exact hle _ (List.mem_take_iff_getElem.mpr ⟨i, by omega, rfl⟩)
    have htake : lengths.take (i + 1) = lengths.take i ++ [lengths.getD i 0] := by
      rw [List.take_add_one, List.getElem?_eq_getElem hi', hget]
      rfl
    have hlen' : (lengths.take i).length = i := by rw [List.length_take]; omega
    rw [tinfCountLength, tinfGet_of_lt 0 hi', ok_bind, tinfAssert_of h15, ok_bind]
    by_cases h0 : lengths.getD i 0 = 0
    · rw [if_pos h0]
      refine ⟨(counts, last), rfl, ?_, hlen, fun l hl => ?_⟩
      · rw [htake, lastCode_append, if_pos h0, hlast]
      · rw [count_take_succ _ hi', hcount l hl, if_neg (by omega), Nat.add_zero]
    · have hset : lengths.getD i 0 < counts.length := by omega
      rw [if_neg h0, tinfGet_of_lt 0 hset, ok_bind, tinfSet, if_pos hset, ok_bind]
      refine ⟨_, rfl, ?_, by rw [List.length_set, hlen], fun l hl => ?_⟩
      · rw [htake, lastCode_append, if_neg h0, hlen']
      · rw [count_take_succ _ hi', List.getD_eq_getElem?_getD, List.getElem?_set]
        by_cases hl' : lengths.getD i 0 = l
        · rw [if_pos hl', if_pos (by omega), Option.getD_some, hcount _ (by omega), hl',
            if_pos ⟨by omega, rfl⟩]
        · rw [if_neg hl', ← List.getD_eq_getElem?_getD, hcount l hl, if_neg (by tauto),
            Nat.add_zero]
  · exact ⟨rfl, rfl, fun l hl => by
      rw [List.getD_replicate _ hl]; simp [count]⟩

/-- The loop that computes the offsets, and stops at a length with too many codes. -/
lemma tinfOffset_loop {counts : List ℕ} (hlen : counts.length = 16) {c : ℕ → ℕ}
    (hcount : ∀ l < 16, counts.getD l 0 = c l) (hn : n ≤ 16) :
    (List.range n).foldlM (tinfOffset counts) ⟨1, 0, []⟩
      = if ∀ l < n, first c l + c l ≤ 2 ^ l then
          .ok ⟨2 ^ n - first c n, before c n, (List.range n).map (before c)⟩
        else .error .dataError := by
  induction n with
  | zero => rfl
  | succ n ih =>
    rw [List.range_succ, List.foldlM_append, ih (by omega)]
    by_cases hfits : ∀ l < n, first c l + c l ≤ 2 ^ l
    · have hle : first c n ≤ 2 ^ n := by
        cases n with
        | zero => exact Nat.zero_le _
        | succ n =>
          have h := hfits n (Nat.lt_succ_self n)
          rw [first, Nat.pow_succ']
          omega
      rw [if_pos hfits, ok_bind, List.foldlM_cons, tinfOffset, tinfGet_of_lt 0 (by omega),
        ok_bind, hcount n (by omega)]
      dsimp only
      by_cases hroom : first c n + c n ≤ 2 ^ n
      · have hall : ∀ l < n + 1, first c l + c l ≤ 2 ^ l := fun l hl =>
          (Nat.lt_succ_iff_lt_or_eq.mp hl).elim (hfits l) fun h => h ▸ hroom
        rw [if_neg (by omega), if_pos hall, List.map_append, first, before, Nat.pow_succ',
          Nat.sub_sub, Nat.mul_sub]
        rfl
      · rw [if_pos (by omega), if_neg fun h => hroom (h n (Nat.lt_succ_self n))]
        rfl
    · rw [if_neg hfits, if_neg fun h => hfits fun l hl => h l (by omega)]
      rfl

/-- The loop that sorts the symbols by their codes. -/
lemma tinfPlace_loop {lengths symbols : List ℕ} (hn : n ≤ lengths.length)
    (hle : ∀ x ∈ lengths.take n, x ≤ 15) (hsymbols : symbols.length = 288) (hn' : n ≤ 288) :
    ∃ placed offs, (List.range n).foldlM (tinfPlace lengths)
        (symbols, (List.range 16).map (before (count (lengths.take n)))) = .ok (placed, offs)
      ∧ placed.length = 288 ∧ ∀ s < n, lengths.getD s 0 ≠ 0 →
        placed.getD (slot (lengths.take n) s) 0 = s := by
  set ls := lengths.take n with hls
  have hlen : ls.length = n := by rw [hls, List.length_take]; omega
  have hgetD {s : ℕ} (hs : s < n) : ls.getD s 0 = lengths.getD s 0 := by
    rw [List.getD_eq_getElem _ _ (hlen.symm ▸ hs), List.getD_eq_getElem _ _ (by omega)]
    exact List.getElem_take
  -- the invariant: after `i` lengths the offsets count the symbols placed so far
  have hloop := foldlM_range_ok (ε := TinfStop) (f := tinfPlace lengths) (n := n)
    (s := (symbols, (List.range 16).map (before (count ls))))
    (fun i s => s.1.length = 288 ∧ s.2.length = 16
      ∧ (∀ l < 16, l ≠ 0 → s.2.getD l 0 = before (count ls) l + (ls.take i).count l)
      ∧ ∀ s' < i, ls.getD s' 0 ≠ 0 → s.1.getD (slot ls s') 0 = s') ?_ ?_
  · obtain ⟨⟨placed, offs⟩, hrun, hplaced, -, -, hall⟩ := hloop
    exact ⟨placed, offs, hrun, hplaced, fun s hs hs0 => hall s hs (by rwa [hgetD hs])⟩
  · rintro i ⟨placed, offs⟩ hi ⟨hplaced, hoffs, hnext, hall⟩
    dsimp only at hplaced hoffs hnext hall
    have hi' : i < ls.length := by omega
    have htake (l : ℕ) : (ls.take (i + 1)).count l
        = (ls.take i).count l + if ls.getD i 0 = l then 1 else 0 := by
      rw [List.take_add_one, List.getElem?_eq_getElem hi', Option.toList_some, List.count_append,
        List.getD_eq_getElem _ _ hi', List.count_singleton]
      simp only [beq_iff_eq]
    rw [tinfPlace, tinfGet_of_lt 0 (by omega), ok_bind, ← hgetD hi]
    dsimp only
    -- a length of zero places nothing
    by_cases h0 : ls.getD i 0 = 0
    · rw [if_pos h0]
      refine ⟨(placed, offs), rfl, hplaced, hoffs, fun l hl hl0 => ?_, fun s hs hs0 => ?_⟩
      · rw [hnext l hl hl0, htake, if_neg (by omega), Nat.add_zero]
      · rcases Nat.lt_succ_iff_lt_or_eq.mp hs with hlt | rfl
        · exact hall s hlt hs0
        · exact absurd h0 hs0
    · have h15 : ls.getD i 0 ≤ 15 := by
        rw [List.getD_eq_getElem _ _ hi']
        exact hle _ (List.getElem_mem hi')
      have hslot : before (count ls) (ls.getD i 0) + (ls.take i).count (ls.getD i 0) = slot ls i :=
        rfl
      -- the slot is below the number of used symbols
      have hin : slot ls i < placed.length := by
        have hlt := Canonical.slot_lt hi' h0 (by omega : ls.getD i 0 < 16)
        have hcount : before (count ls) 16 = (used ls).length :=
          before_count fun l hl => Nat.lt_succ_of_le (hle l hl)
        have hused := length_used_le ls
        omega
      rw [if_neg h0, tinfGet_of_lt 0 (by omega), ok_bind, hnext _ (by omega) h0, hslot, tinfSet,
        if_pos hin, ok_bind, tinfSet, if_pos (by omega), ok_bind]
      refine ⟨_, rfl, by rw [List.length_set, hplaced], by rw [List.length_set, hoffs],
        fun l hl hl0 => ?_, fun s hs hs0 => ?_⟩
      · rw [List.getD_eq_getElem?_getD, List.getElem?_set, htake]
        by_cases hl' : ls.getD i 0 = l
        · rw [if_pos hl', if_pos (by omega), Option.getD_some, if_pos hl', ← hslot, hl']
          rfl
        · rw [if_neg hl', if_neg hl', ← List.getD_eq_getElem?_getD, hnext l hl hl0, Nat.add_zero]
      · rw [List.getD_eq_getElem?_getD, List.getElem?_set]
        rcases Nat.lt_succ_iff_lt_or_eq.mp hs with hlt | rfl
        · -- two symbols have two slots, so what is placed stays
          have hne : slot ls i ≠ slot ls s := fun h =>
            absurd (slot_inj hi' (by omega) h0 hs0 h) (by omega)
          rw [if_neg hne, ← List.getD_eq_getElem?_getD]
          exact hall s hlt hs0
        · rw [if_pos rfl, if_pos hin, Option.getD_some]
  · refine ⟨hsymbols, by simp, fun l hl _ => ?_, fun s hs _ => absurd hs (Nat.not_lt_zero s)⟩
    dsimp only
    rw [List.getD_eq_getElem _ _ (by simpa using hl), List.getElem_map, List.getElem_range,
      List.take_zero, List.count_nil, Nat.add_zero]

/-- The tree `t` is that of the lengths `ls`: it decodes their code, and what else it decodes is too
large. Its symbols up to `lim` are not. -/
structure TinfTree.Decodes (t : TinfTree) (ls : List ℕ) (lim : ℕ) : Prop where
  symbols : t.symbols.length = 288
  sound : t.maxSym ≠ -1 → t.Sound
  reads : ∀ s, Coded ls s → t.Reads (code ls s) s
  of_reads : ∀ w s, t.Reads w s → Coded ls s ∧ w = code ls s ∨ t.maxSym < s
  le_maxSym : ∀ s, Coded ls s → s ≤ lim → (s : ℤ) ≤ t.maxSym

/-- A tree with the codes of the lengths in their order. -/
lemma decodes_of_leaves {lim : ℕ} (hleaves : t.leaves = count ls) (hcounts : t.counts.length = 16)
    (hsymbols : t.symbols.length = 288) (hle : ∀ l ∈ ls, l ≤ 15) (hls : ls.length ≤ 288)
    (hplaced : ∀ s < ls.length, ls.getD s 0 ≠ 0 → t.symbols.getD (slot ls s) 0 = s)
    (hcomplete : t.maxSym ≠ -1 → Complete (count ls) 15)
    (hmax : ∀ s, Coded ls s → s ≤ lim → (s : ℤ) ≤ t.maxSym) : t.Decodes ls lim where
  symbols := hsymbols
  sound h := by
    refine ⟨hcounts, hsymbols, hleaves ▸ hcomplete h, ?_⟩
    rw [hleaves, before_count fun l hl => Nat.lt_succ_of_le (hle l hl)]
    exact (length_used_le ls).trans hls
  reads s h := by
    refine ⟨ls.getD s 0, _, ?_, hleaves ▸ word_code h.1 h.2, rfl, ?_⟩
    · rw [List.getD_eq_getElem _ _ h.1]
      exact hle _ (List.getElem_mem h.1)
    · rw [hleaves, Nat.add_sub_cancel_left]
      exact (hplaced s h.1 h.2).symm
  of_reads w s h := by
    obtain ⟨l, v, -, hword, rfl, rfl⟩ := h
    rw [hleaves] at hword ⊢
    have hl : l ≠ 0 := by
      rintro rfl
      exact absurd hword.2 (by have := hword.1; rw [count, if_pos rfl]; omega)
    have hlt := hword.2
    have hle := hword.1
    rw [count, if_neg hl] at hlt
    obtain ⟨s, hs, rfl, hrank⟩ := exists_rank (by omega : v - first (count ls) l < ls.count l)
    have hslot : before (count ls) (ls.getD s 0) + (v - first (count ls) (ls.getD s 0))
        = slot ls s := by rw [slot, hrank]
    rw [hslot, hplaced s hs hl]
    exact .inl ⟨⟨hs, hl⟩, by rw [code, hrank, Nat.add_sub_cancel' hle]⟩
  le_maxSym := hmax

/-- It is a symbol with a code, or there is none. -/
lemma lastCode_eq (ls : List ℕ) :
    lastCode ls = -1 ∨ ∃ s < ls.length, ls.getD s 0 ≠ 0 ∧ lastCode ls = s := by
  induction ls using List.reverseRecOn with
  | nil => exact .inl rfl
  | append_singleton ls a ih =>
    rw [lastCode_append]
    by_cases ha : a = 0
    · rw [if_pos ha]
      refine ih.imp_right ?_
      rintro ⟨s, hs, hs0, heq⟩
      exact ⟨s, by rw [List.length_append]; omega, by rwa [List.getD_append _ _ _ _ hs], heq⟩
    · rw [if_neg ha]
      exact .inr ⟨ls.length, by simp, by simpa using ha, rfl⟩

/-- There is a last symbol if and only if a length is used. -/
lemma lastCode_ne (ls : List ℕ) : lastCode ls ≠ -1 ↔ used ls ≠ [] := by
  constructor
  · intro h
    obtain ⟨s, hs, hs0, -⟩ := (lastCode_eq ls).resolve_left h
    exact List.ne_nil_of_mem (getD_mem_used hs hs0)
  · intro h
    obtain ⟨l, hl⟩ := List.exists_mem_of_ne_nil _ h
    obtain ⟨hmem, h0⟩ := List.mem_filter.mp hl
    obtain ⟨s, hs, rfl⟩ := List.getElem_of_mem hmem
    have hle := le_lastCode hs (by rw [List.getD_eq_getElem _ _ hs]; simpa using h0)
    omega

/-- The tree of one code, with the second word that is added to it. -/
lemma decodes_of_single {lim : ℕ} (hleaves : t.leaves = count [1, 1])
    (hmax : t.maxSym = lastCode ls) (hcounts : t.counts.length = 16)
    (hsymbols : t.symbols.length = 288) (hused : used ls = [1])
    (hplaced : ∀ s < ls.length, ls.getD s 0 ≠ 0 → t.symbols.getD 0 0 = s)
    (hlast : (t.symbols.getD 1 0 : ℤ) = lastCode ls + 1) : t.Decodes ls lim where
  symbols := hsymbols
  sound _ := by
    refine ⟨hcounts, hsymbols, ?_, ?_⟩
    · rw [hleaves, complete_iff]
      decide
    · rw [hleaves]
      decide
  reads s h := by
    refine ⟨1, 0, by norm_num, ?_, (code_of_single hused h.1 h.2).1, ?_⟩
    · rw [hleaves]
      decide
    · rw [hleaves]
      exact (hplaced s h.1 h.2).symm
  of_reads w s h := by
    obtain ⟨l, v, hl, hword, rfl, rfl⟩ := h
    rw [hleaves] at hword ⊢
    -- the tree has two words of one bit, the second of which stands for no symbol
    have hl1 : l = 1 := by
      have hlt := hword.2
      have hge := hword.1
      by_contra hne
      have hzero : count [1, 1] l = 0 := by
        rw [count]
        split_ifs with h0
        · rfl
        · exact List.count_eq_zero.mpr (by simpa using hne)
      omega
    subst hl1
    have hv : v = 0 ∨ v = 1 := by
      have hlt := hword.2
      rw [show first (count [1, 1]) 1 + count [1, 1] 1 = 2 from rfl] at hlt
      omega
    rcases hv with rfl | rfl
    · obtain ⟨s, hs, hs0, -⟩ := (lastCode_eq ls).resolve_left
        ((lastCode_ne ls).mpr (by rw [hused]; exact List.cons_ne_nil _ _))
      have hsym : t.symbols.getD 0 0 = s := hplaced s hs hs0
      rw [show before (count [1, 1]) 1 + (0 - first (count [1, 1]) 1) = 0 from rfl, hsym]
      exact .inl ⟨⟨hs, hs0⟩, (code_of_single hused hs hs0).1.symm⟩
    · right
      rw [show before (count [1, 1]) 1 + (1 - first (count [1, 1]) 1) = 1 from rfl, hlast, hmax]
      omega
  le_maxSym s h _ := hmax ▸ le_lastCode h.1 h.2

/-- Usable lengths leave room for the codes. -/
lemma usable_fits (h : Usable ls) (hl : l < 16) : first (count ls) l + count ls l ≤ 2 ^ l := by
  rw [← count_used_eq]
  rcases h with h | h | h
  · rw [count_used_eq]
    exact (complete_iff.mpr h).1 l (by omega)
  all_goals
    rw [h]
    clear h
    revert l
    decide

/-- A single code has one bit. -/
lemma usable_of_length_one (hused : (used ls).length = 1) : Usable ls ↔ count ls 1 = 1 := by
  obtain ⟨a, ha⟩ := List.length_eq_one_iff.mp hused
  have ha0 : a ≠ 0 := by
    have hmem : a ∈ used ls := by rw [ha]; exact List.mem_singleton_self a
    simpa using (List.mem_filter.mp hmem).2
  have hcount : count ls 1 = if a = 1 then 1 else 0 := by
    rw [← count_used one_ne_zero, ha, List.count_singleton]
    simp
  rw [Usable, ← kraft_used, ha, hcount, kraft_cons]
  by_cases h1 : a = 1
  · simp [h1]
  · have hlt : 2 ^ (15 - a) < 2 ^ 15 := Nat.pow_lt_pow_right (by norm_num) (by omega)
    have hkraft : ¬ (if a = 0 ∨ 15 < a then 0 else 2 ^ (15 - a)) + kraft [] 15 = 2 ^ 15 := by
      rw [show kraft [] 15 = 0 from rfl]
      split_ifs <;> omega
    rw [if_neg h1]
    simp only [hkraft, List.cons_ne_nil, List.cons.injEq, h1, false_and, or_false, zero_ne_one]

/-- The counts of a tree, as they are in the array. -/
lemma leaves_eq {counts symbols : List ℕ} {c : ℕ → ℕ} (hlen : counts.length = 16)
    (hcount : ∀ l < 16, counts.getD l 0 = c l) (hzero : c 0 = 0) (hlong : ∀ l, 16 ≤ l → c l = 0)
    (max : ℤ) : (⟨counts, symbols, max⟩ : TinfTree).leaves = c := by
  funext l
  rw [leaves]
  by_cases hl : l = 0
  · rw [if_pos hl, hl, hzero]
  · rw [if_neg hl]
    by_cases hlt : l < 16
    · exact hcount l hlt
    · rw [hlong l (by omega), List.getD_eq_default _ _ (by rw [hlen]; omega)]

/-- The counts, with the word that is added to a single code. -/
lemma getD_set_one {counts : List ℕ} (hlen : counts.length = 16) (hused : used ls = [1])
    (hcount : ∀ l < 16, counts.getD l 0 = count ls l) (hl : l < 16) :
    (counts.set 1 2).getD l 0 = count [1, 1] l := by
  rw [List.getD_eq_getElem?_getD, List.getElem?_set]
  by_cases h1 : l = 1
  · subst h1
    rw [if_pos rfl, if_pos (by omega)]
    rfl
  · rw [if_neg (by omega), ← List.getD_eq_getElem?_getD, hcount l hl, ← count_used_eq, hused, count,
      count]
    split_ifs with h0
    · rfl
    · rw [List.count_eq_zero.mpr (by simpa using h1), List.count_eq_zero.mpr (by simpa using h1)]

/-- The length of a single code of one bit. -/
lemma used_of_single (hsingle : (used ls).length = 1) (hbit : count ls 1 = 1) :
    used ls = [1] := by
  obtain ⟨a, ha⟩ := List.length_eq_one_iff.mp hsingle
  rw [← count_used one_ne_zero, ha, List.count_singleton] at hbit
  rw [ha]
  split_ifs at hbit with h1
  simpa using h1

/-- Codes that fit are complete when they leave no room. -/
lemma complete_iff_room {c : ℕ → ℕ} (hfits : ∀ l < 16, first c l + c l ≤ 2 ^ l) :
    Complete c 15 ↔ ¬ 2 ^ 16 - first c 16 > 0 := by
  have hlast := hfits 15 (by norm_num)
  rw [first]
  constructor
  · intro h
    rw [h.2]
    decide
  · intro h
    exact ⟨fun l hl => hfits l (by omega), by omega⟩

/-- **The tests of `tinf_build_tree`** let the usable lengths pass. -/
lemma usable_iff_tests : Usable ls ↔ (∀ l < 16, first (count ls) l + count ls l ≤ 2 ^ l)
    ∧ ¬ ((used ls).length > 1 ∧ 2 ^ 16 - first (count ls) 16 > 0)
    ∧ ¬ ((used ls).length = 1 ∧ count ls 1 ≠ 1) := by
  constructor
  · intro h
    have hfits : ∀ l < 16, first (count ls) l + count ls l ≤ 2 ^ l := fun l hl => usable_fits h hl
    refine ⟨hfits, ?_, fun hsingle => hsingle.2 ((usable_of_length_one hsingle.1).mp h)⟩
    rintro ⟨hmany, hroom⟩
    rcases h with h | h | h
    · exact (complete_iff_room hfits).mp (complete_iff.mpr h) hroom
    · rw [h] at hmany
      exact absurd hmany (by decide)
    · rw [h] at hmany
      exact absurd hmany (by decide)
  · rintro ⟨hfits, hmany, hbit⟩
    rcases Nat.lt_trichotomy (used ls).length 1 with hfew | hsingle | hlong
    · -- no code at all
      exact .inr (.inl (List.length_eq_zero_iff.mp (by omega)))
    · exact (usable_of_length_one hsingle).mpr (not_not.mp fun h => hbit ⟨hsingle, h⟩)
    · exact .inl (complete_iff.mp ((complete_iff_room hfits).mpr fun h => hmany ⟨hlong, h⟩))

/-- **What `tinf_build_tree` returns**, its loops done. -/
lemma tinfBuildTree_eq {lengths : List ℕ} (hn : n ≤ 288) (hlen : n ≤ lengths.length)
    (hle : ∀ l ∈ lengths.take n, l ≤ 15) (hsymbols : t.symbols.length = 288)
    (hls : lengths.take n = ls) :
    ∃ counts placed : List ℕ, counts.length = 16 ∧ (∀ l < 16, counts.getD l 0 = count ls l)
      ∧ placed.length = 288
      ∧ (∀ s < ls.length, ls.getD s 0 ≠ 0 → placed.getD (slot ls s) 0 = s)
      ∧ tinfBuildTree t lengths n =
          if ∀ l < (16 : ℕ), first (count ls) l + count ls l ≤ 2 ^ l then
            if (used ls).length > 1 ∧ 2 ^ 16 - first (count ls) 16 > 0 then .error .dataError
            else if (used ls).length = 1 ∧ count ls 1 ≠ 1 then .error .dataError
            else if (used ls).length = 1 then
              .ok ⟨counts.set 1 2, placed.set 1 (lastCode ls + 1).toNat, lastCode ls⟩
            else .ok ⟨counts, placed, lastCode ls⟩
          else .error .dataError := by
  obtain ⟨counts, hcounts, hclen, hc⟩ := tinfCountLength_loop hlen hle
  obtain ⟨placed, offs, hplace, hplen, hplaced⟩ := tinfPlace_loop hlen hle hsymbols hn
  have hoffs := tinfOffset_loop hclen hc le_rfl
  have hbefore : before (count (lengths.take n)) 16 = (used (lengths.take n)).length :=
    before_count fun l hl => Nat.lt_succ_of_le (hle l hl)
  have hone : tinfGet counts 1 = .ok (count (lengths.take n) 1) := by
    rw [tinfGet_of_lt 0 (by omega), hc 1 (by norm_num)]
  subst hls
  refine ⟨counts, placed, hclen, hc, hplen, fun s hs hs0 => ?_, ?_⟩
  · rw [List.length_take] at hs
    refine hplaced s (by omega) ?_
    rwa [List.getD_eq_getElem _ _ (by rw [List.length_take]; omega), List.getElem_take,
      ← List.getD_eq_getElem lengths 0 (by omega)] at hs0
  rw [tinfBuildTree, tinfAssert_of hn, ok_bind, hcounts, ok_bind]
  dsimp only
  rw [hoffs]
  by_cases hfits : ∀ l < 16, first (count (lengths.take n)) l + count (lengths.take n) l ≤ 2 ^ l
  · rw [if_pos hfits, if_pos hfits, ok_bind]
    dsimp only
    rw [hone, hbefore]
    by_cases hmany : (used (lengths.take n)).length > 1 ∧
        2 ^ 16 - first (count (lengths.take n)) 16 > 0
    · rw [if_pos hmany, if_pos hmany]
      rfl
    rw [if_neg hmany, if_neg hmany, ok_bind]
    by_cases hbit : (used (lengths.take n)).length = 1 ∧ count (lengths.take n) 1 ≠ 1
    · rw [if_pos hbit, if_pos hbit]
      rfl
    rw [if_neg hbit, if_neg hbit, hplace, ok_bind]
    dsimp only
    by_cases hsingle : (used (lengths.take n)).length = 1
    · -- the second word of a single code
      rw [if_pos hsingle, if_pos hsingle, tinfSet, if_pos (by omega), ok_bind, tinfSet,
        if_pos (by omega), ok_bind]
      rfl
    · rw [if_neg hsingle, if_neg hsingle]
      rfl
  · rw [if_neg hfits, if_neg hfits]
    rfl

section Built

variable {counts placed : List ℕ} (hle : ∀ l ∈ ls, l ≤ 15) (hclen : counts.length = 16)
  (hc : ∀ l < 16, counts.getD l 0 = count ls l) (hplen : placed.length = 288)
  (hplaced : ∀ s < ls.length, ls.getD s 0 ≠ 0 → placed.getD (slot ls s) 0 = s)

include hclen hc hplen hplaced

include hle in
/-- The tree of several codes, or of none. -/
lemma decodes_of_placed (hls : ls.length ≤ 288) (husable : Usable ls)
    (hsingle : (used ls).length ≠ 1) (lim : ℕ) :
    (⟨counts, placed, lastCode ls⟩ : TinfTree).Decodes ls lim := by
  have hlong : ∀ l, 16 ≤ l → count ls l = 0 := by
    intro l hl
    rw [count, if_neg (by omega), List.count_eq_zero]
    exact fun h => absurd (hle l h) (by omega)
  have hcomplete : used ls ≠ [] → Complete (count ls) 15 := by
    intro hne
    rcases husable with h | h | h
    · exact complete_iff.mpr h
    · exact absurd h hne
    · exact absurd (congrArg List.length h) hsingle
  exact decodes_of_leaves (leaves_eq hclen hc (if_pos rfl) hlong _) hclen hplen hle hls hplaced
    (fun h => hcomplete ((lastCode_ne ls).mp h)) fun s h _ => le_lastCode h.1 h.2

/-- The tree of a single code, with the second word that is added to it. -/
lemma decodes_of_second_word (hused : used ls = [1]) (lim : ℕ) :
    (⟨counts.set 1 2, placed.set 1 (lastCode ls + 1).toNat, lastCode ls⟩ : TinfTree).Decodes ls
      lim := by
  have hge : -1 ≤ lastCode ls := by
    rcases lastCode_eq ls with h | ⟨s, -, -, h⟩ <;> omega
  have hlong : ∀ l, 16 ≤ l → count [1, 1] l = 0 := by
    intro l hl
    rw [count, if_neg (by omega), List.count_eq_zero]
    simp only [List.mem_cons, List.not_mem_nil, or_false, or_self]
    omega
  refine decodes_of_single (leaves_eq (by rw [List.length_set, hclen])
    (fun l => getD_set_one hclen hused hc) rfl hlong _) rfl (by rw [List.length_set, hclen])
    (by rw [List.length_set, hplen]) hused (fun s hs hs0 => ?_) ?_
  · have h := hplaced s hs hs0
    rw [(code_of_single hused hs hs0).2] at h
    rw [List.getD_eq_getElem?_getD, List.getElem?_set, if_neg (by omega),
      ← List.getD_eq_getElem?_getD, h]
  · rw [List.getD_eq_getElem?_getD, List.getElem?_set, if_pos rfl, if_pos (by omega),
      Option.getD_some]
    omega

end Built

/-- **`tinf_build_tree`**: usable lengths become a tree, and others are an error. -/
lemma tinfBuildTree_spec {lengths : List ℕ} (hn : n ≤ 288) (hlen : n ≤ lengths.length)
    (hle : ∀ l ∈ lengths.take n, l ≤ 15) (hsymbols : t.symbols.length = 288) :
    (Usable (lengths.take n)
        ∧ ∃ t', tinfBuildTree t lengths n = .ok t' ∧ t'.maxSym = lastCode (lengths.take n)
          ∧ ∀ lim, t'.Decodes (lengths.take n) lim)
      ∨ ¬ Usable (lengths.take n) ∧ tinfBuildTree t lengths n = .error .dataError := by
  obtain ⟨counts, placed, hclen, hc, hplen, hplaced, heq⟩ :=
    tinfBuildTree_eq hn hlen hle hsymbols rfl
  have hls : (lengths.take n).length ≤ 288 := (List.length_take_le _ _).trans hn
  rw [heq]
  generalize lengths.take n = ls at *
  by_cases husable : Usable ls
  · obtain ⟨hfits, hmany, hbit⟩ := usable_iff_tests.mp husable
    rw [if_pos hfits, if_neg hmany, if_neg hbit]
    refine .inl ⟨husable, ?_⟩
    by_cases hsingle : (used ls).length = 1
    · have hused := used_of_single hsingle (not_not.mp fun h => hbit ⟨hsingle, h⟩)
      rw [if_pos hsingle]
      exact ⟨_, rfl, rfl, decodes_of_second_word hclen hc hplen hplaced hused⟩
    · rw [if_neg hsingle]
      exact ⟨_, rfl, rfl, decodes_of_placed hle hclen hc hplen hplaced hls husable hsingle⟩
  · refine .inr ⟨husable, ?_⟩
    rw [usable_iff_tests] at husable
    by_cases hfits : ∀ l < 16, first (count ls) l + count ls l ≤ 2 ^ l
    · rw [if_pos hfits]
      split_ifs with hmany hbit
      · rfl
      · rfl
      all_goals exact absurd ⟨hfits, hmany, hbit⟩ husable
    · rw [if_neg hfits]

/-! ### The fixed trees -/

/-- The symbols of a run of equal lengths in the fixed code are in the order of their codes. -/
lemma tinfFixedLtree_run {x y : List ℕ} {b k : ℕ}
    (hsplit : fixedLit = x ++ (List.replicate m l ++ y)) (hlength : x.length = k)
    (hfirst : before (count fixedLit) l + x.count l = b)
    (hrun : ∀ r < m, tinfFixedLtree.symbols.getD (b + r) 0 = k + r) (hs : k ≤ s) (hs' : s < k + m) :
    tinfFixedLtree.symbols.getD (slot fixedLit s) 0 = s := by
  obtain ⟨r, rfl⟩ := Nat.exists_eq_add_of_le hs
  have hr : r < m := by omega
  obtain ⟨hlen, hrank⟩ := rank_run x y hr l
  rw [← hsplit, hlength] at hlen hrank
  rw [slot, hlen, hrank, ← Nat.add_assoc, hfirst]
  exact hrun r hr

/-- The symbols of the fixed tree are in the order of their codes. -/
lemma tinfFixedLtree_placed (hs : s < 288) :
    tinfFixedLtree.symbols.getD (slot fixedLit s) 0 = s := by
  rcases Nat.lt_or_ge s 144 with h | h
  · have hsplit : fixedLit = [] ++ (List.replicate 144 8 ++ (List.replicate 112 9
        ++ (List.replicate 24 7 ++ List.replicate 8 8))) := by decide +kernel
    exact tinfFixedLtree_run hsplit rfl (by decide +kernel : _ = 24) (by decide +kernel)
      (Nat.zero_le s) (by omega)
  rcases Nat.lt_or_ge s 256 with h' | h'
  · have hsplit : fixedLit = List.replicate 144 8 ++ (List.replicate 112 9
        ++ (List.replicate 24 7 ++ List.replicate 8 8)) := by decide +kernel
    exact tinfFixedLtree_run hsplit List.length_replicate (by decide +kernel : _ = 176)
      (by decide +kernel) h h'
  rcases Nat.lt_or_ge s 280 with h'' | h''
  · have hsplit : fixedLit = (List.replicate 144 8 ++ List.replicate 112 9)
        ++ (List.replicate 24 7 ++ List.replicate 8 8) := by decide +kernel
    exact tinfFixedLtree_run hsplit (by decide +kernel : _ = 256) (by decide +kernel : _ = 0)
      (by decide +kernel) h' h''
  · have hsplit : fixedLit = (List.replicate 144 8 ++ List.replicate 112 9 ++ List.replicate 24 7)
        ++ (List.replicate 8 8 ++ []) := by decide +kernel
    exact tinfFixedLtree_run hsplit (by decide +kernel : _ = 280) (by decide +kernel : _ = 168)
      (by decide +kernel) h'' hs

/-- **The fixed tree of literals** decodes its code. -/
lemma tinfFixedLtree_decodes : tinfFixedLtree.Decodes fixedLit 285 := by
  refine decodes_of_leaves (leaves_eq rfl (by decide +kernel) rfl (fun l hl => ?_) _) rfl
    (by decide +kernel) (by decide +kernel) (by decide +kernel)
    (fun s hs _ => tinfFixedLtree_placed (hs.trans_eq (by decide +kernel)))
    (fun _ => complete_iff.mpr (by decide +kernel)) fun s _ hs => ?_
  · rw [count, if_neg (by omega), List.count_eq_zero]
    exact fun h => absurd ((by decide +kernel : ∀ l ∈ fixedLit, l < 16) l h) (by omega)
  · change (s : ℤ) ≤ 285
    omega

/-- **The fixed tree of distances** decodes its code. -/
lemma tinfFixedDtree_decodes (ht : t.symbols.length = 288) :
    (tinfFixedDtree t).Decodes fixedDist 29 := by
  refine decodes_of_leaves (leaves_eq rfl (by decide) rfl (fun l hl => ?_) _) rfl ?_ (by decide)
    (by decide) (fun s hs _ => ?_) (fun _ => complete_iff.mpr (by decide)) fun s _ hs => ?_
  · rw [count, if_neg (by omega), List.count_eq_zero]
    exact fun h => absurd ((by decide : ∀ l ∈ fixedDist, l < 16) l h) (by omega)
  · change (List.range 32 ++ t.symbols.drop 32).length = 288
    rw [List.length_append, List.length_drop, List.length_range, ht]
  · have hslot : ∀ s < 32, slot fixedDist s = s := by decide
    have hs : s < (List.range 32).length := hs
    rw [hslot s (by simpa using hs)]
    change (List.range 32 ++ t.symbols.drop 32).getD s 0 = s
    rw [List.getD_append _ _ _ _ hs, List.getD_eq_getElem _ _ hs, List.getElem_range]
  · change (s : ℤ) ≤ 29
    omega

/-! ### What the trees are for -/

variable {lengths : List ℕ}

/-- **A tree is built of a complete code, of a single code of one bit, or of none**, and of nothing
else. -/
theorem tinfBuildTree_ok_iff (hn : n ≤ 288) (hlen : n ≤ lengths.length)
    (hle : ∀ l ∈ lengths.take n, l ≤ 15) (hsymbols : t.symbols.length = 288) :
    (∃ t', tinfBuildTree t lengths n = .ok t') ↔ kraft (lengths.take n) 15 = 2 ^ 15
      ∨ used (lengths.take n) = [] ∨ used (lengths.take n) = [1] := by
  rcases tinfBuildTree_spec hn hlen hle hsymbols with ⟨husable, t', ht', -⟩ | ⟨hnot, herror⟩
  · exact ⟨fun _ => husable, fun _ => ⟨t', ht'⟩⟩
  · refine ⟨?_, fun h => absurd h hnot⟩
    rintro ⟨t', ht'⟩
    rw [herror] at ht'
    exact nomatch ht'

/-- A tree of three symbols is built. -/
theorem tinfBuildTree_ok_iff_three : ∃ t', tinfBuildTree ⟨[], List.replicate 288 0, 0⟩
    [1, 2, 2, 0] 3 = .ok t' :=
  (tinfBuildTree_ok_iff (by decide) (by decide) (by decide) List.length_replicate).mpr
    (.inl (by decide))

/-- **A tree decodes the canonical code of its lengths**: of a symbol whose code is ahead in the
input, the bits of the code are taken and no others. -/
theorem tinfDecodeSymbol_code (hn : n ≤ 288) (hlen : n ≤ lengths.length)
    (hle : ∀ l ∈ lengths.take n, l ≤ 15) (hsymbols : t.symbols.length = 288)
    (ht : tinfBuildTree t lengths n = .ok t') (hd : d.Ready) (hov : d.overflow = false)
    (hs : s < n) (hs0 : lengths.getD s 0 ≠ 0) (hw : d.pending = code (lengths.take n) s ++ rest) :
    ∃ d', tinfDecodeSymbol d t' = .ok (s, d') ∧ d'.pending = rest ∧ d'.overflow = false
      ∧ d'.Ready ∧ d'.out = d.out := by
  rcases tinfBuildTree_spec hn hlen hle hsymbols with ⟨-, t'', ht'', hmax, hdec⟩ | ⟨-, herror⟩
  · obtain rfl : t'' = t' := by rw [ht''] at ht; exact Except.ok.inj ht
    have hcoded : Coded (lengths.take n) s := by
      have hlt : s < (lengths.take n).length := by rw [List.length_take]; omega
      refine ⟨hlt, ?_⟩
      rwa [List.getD_eq_getElem _ _ hlt, List.getElem_take,
        ← List.getD_eq_getElem lengths 0 (by omega)]
    have hmax' : t''.maxSym ≠ -1 := by
      have hle := (hdec s).le_maxSym s hcoded le_rfl
      omega
    obtain ⟨d', hdec', htook, hov', hrest⟩ :=
      tinfDecodeSymbol_reads ((hdec 0).sound hmax') hd hov hw ((hdec 0).reads s hcoded)
    exact ⟨d', hdec', hrest, hov', htook.ready, htook.out⟩
  · rw [herror] at ht
    exact nomatch ht

/-- The last of three symbols is decoded. -/
theorem tinfDecodeSymbol_code_three : ∃ d',
    tinfDecodeSymbol ⟨[3], 0, 0, false, [], 0⟩ ⟨[0, 1, 2] ++ List.replicate 13 0,
        [0, 1, 2] ++ List.replicate 285 0, 2⟩ = .ok (2, d')
      ∧ d'.pending = List.replicate 6 false ∧ d'.overflow = false ∧ d'.Ready ∧ d'.out = [] :=
  tinfDecodeSymbol_code (t := ⟨[], List.replicate 288 0, 0⟩) (by decide)
    (by decide : 3 ≤ [1, 2, 2].length) (by decide) List.length_replicate (by decide +kernel)
    ⟨by decide, by decide, by decide⟩ rfl (by decide) (by decide) (by decide)

end MicroOS
