import MicroOS.Lib.ByteImage
import MicroOS.Lib.Walk

/-!
The options of the kernel command line, `utils/argparser.c`.

* `isArg`: `is_arg`; strings are lists of bytes without a zero;
* `firstToken`, `tokenValue`: the first token that gives an option, and its value;
* `Looked`: the places that the scan looks at, as a walk; `isArg_cases` says where it ends;
* `is_arg_right_iff`: the command lines and options for which the lookup is right.
-/

namespace MicroOS

open ByteImage Walk

/-- How the comparison of `is_arg` at a place ends. -/
inductive ArgTry where
  | found
  | next
  | fail
  deriving DecidableEq

/-- The inner loop of `is_arg`, from the character `j` of the option on. -/
def tryArg (s : List UInt8) (i : ℕ) : List UInt8 → ℕ → ArgTry
  | [], _ => .found
  | c :: arg, j =>
    if i + j > s.length then .fail
    else if s.getD (i + j) 0 ≠ c then .next
    else tryArg s i arg (j + 1)

/-- What is copied to `out` from the place `i` on. -/
def valueFrom (s : List UInt8) (i : ℕ) : List UInt8 :=
  (s.drop i).takeWhile fun c => c ≠ 0x20 ∧ c ≠ 0

/-- The loop of `is_arg`; `out` is the buffer, if there is one. -/
def isArgLoop (s arg : List UInt8) (out : Option (ℕ → UInt8)) :
    ℕ → ℕ → Bool × Option (ℕ → UInt8)
  | 0, _ => (false, out)
  | fuel + 1, i =>
    if i < s.length then
      match tryArg s i arg 0 with
      | .fail => (false, out)
      | .next => isArgLoop s arg out fuel (i + 1)
      | .found =>
        let i := i + arg.length
        if s.length ≤ i then (true, out)
        else if s.getD i 0 ≠ 0x20 ∧ s.getD i 0 ≠ 0x3d then isArgLoop s arg out fuel (i + 1)
        else if s.getD i 0 = 0x3d then
          (true, out.map fun o => store o 0 (valueFrom s (i + 1)))
        else (true, out)
    else (false, out)

/-- `is_arg`: what is returned, and `out` afterwards. -/
def isArg (s arg : List UInt8) (out : Option (ℕ → UInt8)) : Bool × Option (ℕ → UInt8) :=
  isArgLoop s arg out s.length 0

/-! ### Tokens -/

/-- A token gives an option, alone or with a value. -/
def Gives (arg token : List UInt8) : Prop := token = arg ∨ arg ++ [0x3d] <+: token

instance (arg token : List UInt8) : Decidable (Gives arg token) :=
  inferInstanceAs (Decidable (token = arg ∨ arg ++ [0x3d] <+: token))

/-- The first of the tokens of a command line that gives an option. -/
def firstToken (s arg : List UInt8) : Option (List UInt8) :=
  (s.splitOn 0x20).find? fun token => Gives arg token

/-- The value in a token, nothing if there is none. -/
def tokenValue (arg token : List UInt8) : List UInt8 := token.drop (arg.length + 1)

/-- **The lookup is right**: it is successful if a token gives the option, and stores the value of
the first such token. -/
def LooksUpArg (s arg : List UInt8) : Prop :=
  ∀ out, ((isArg s arg out).1 = true ↔ ∃ token ∈ s.splitOn 0x20, Gives arg token) ∧
    (isArg s arg out).2 = match firstToken s arg with
      | some token => out.map fun o => store o 0 (tokenValue arg token)
      | none => out

/-! ### Places -/

/-- The option is at a place, with an end, a space or an equals sign behind it. -/
def OptionFits (arg u : List UInt8) : Prop :=
  arg <+: u ∧ ∀ c ∈ (u.drop arg.length).head?, c = 0x20 ∨ c = 0x3d

instance (arg u : List UInt8) : Decidable (OptionFits arg u) :=
  @instDecidableAnd _ _ inferInstance (Option.decidableForallMem _)

/-- The value behind the option at a place. -/
def valueAt (arg u : List UInt8) : List UInt8 :=
  if (u.drop arg.length).head? = some 0x3d then
    (u.drop (arg.length + 1)).takeWhile (· ≠ 0x20)
  else []

/-- The place that is looked at next. -/
def nextPlace (s arg : List UInt8) (p : ℕ) : Option ℕ :=
  if s.length ≤ p ∨ OptionFits arg (s.drop p) then none
  else if arg <+: s.drop p then some (p + arg.length + 1)
  else some (p + 1)

/-- A place that the scan looks at, unless it has ended before. -/
abbrev Looked (s arg : List UInt8) (p : ℕ) : Prop := Leads (nextPlace s arg) 0 p

/-- A place where a token begins. -/
def TokenStart (s : List UInt8) (p : ℕ) : Prop := p = 0 ∨ s[p - 1]? = some 0x20

variable {s arg u w r : List UInt8} {i p q fuel : ℕ} {out : Option (ℕ → UInt8)}

/-- The inner loop compares with what is at the place. -/
lemma tryArg_eq (hnul : 0 ∉ arg) {j : ℕ} (hj : i + j ≤ s.length) :
    tryArg s i arg j = if arg <+: s.drop (i + j) then .found else .next := by
  induction arg generalizing j with
  | nil => simp [tryArg]
  | cons c arg ih =>
    have hc : c ≠ 0 := fun h => hnul (h ▸ List.mem_cons_self)
    have hnul : 0 ∉ arg := fun h => hnul (List.mem_cons_of_mem c h)
    rw [tryArg, if_neg (not_lt.mpr hj)]
    rcases hj.eq_or_lt with hend | hlt
    · -- the zero behind the string
      rw [List.getD_eq_default _ _ hend.ge, List.drop_eq_nil_of_le hend.ge, if_pos hc.symm,
        if_neg (by simp)]
    · rw [List.getD_eq_getElem _ _ hlt, List.drop_eq_getElem_cons hlt, ih hnul (by omega)]
      by_cases hsame : s[i + j] = c
      · rw [if_neg (not_not.mpr hsame), hsame]
        simp only [List.cons_prefix_cons, true_and, Nat.add_assoc]
      · rw [if_pos hsame, if_neg fun h => hsame (List.cons_prefix_cons.mp h).1.symm]

/-- The character behind the option at a place. -/
lemma optionFits_iff (hpre : arg <+: s.drop i) : OptionFits arg (s.drop i) ↔
    s.length ≤ i + arg.length ∨ s.getD (i + arg.length) 0 = 0x20 ∨
      s.getD (i + arg.length) 0 = 0x3d := by
  rw [OptionFits, List.drop_drop, and_iff_right hpre]
  rcases le_or_gt s.length (i + arg.length) with hle | hlt
  · rw [List.drop_eq_nil_of_le hle]
    exact ⟨fun _ => .inl hle, fun _ c hc => nomatch hc⟩
  · rw [List.drop_eq_getElem_cons hlt, List.head?_cons, List.getD_eq_getElem _ _ hlt]
    simp [not_le.mpr hlt]

/-- The value at a place is what is copied. -/
lemma valueAt_eq (hs : 0 ∉ s) : valueAt arg (s.drop i) =
    if s.getD (i + arg.length) 0 = 0x3d then valueFrom s (i + arg.length + 1) else [] := by
  have hwhile : ∀ l : List UInt8, 0 ∉ l →
      (l.takeWhile fun c => c ≠ 0x20 ∧ c ≠ 0) = l.takeWhile (· ≠ 0x20) := by
    intro l hl
    induction l with
    | nil => rfl
    | cons c l ih =>
      have hc : c ≠ 0 := fun h => hl (h ▸ List.mem_cons_self)
      have htest : decide (c ≠ 0x20 ∧ c ≠ 0) = decide (c ≠ 0x20) := by simp [hc]
      rw [List.takeWhile_cons, List.takeWhile_cons, htest,
        ih fun h => hl (List.mem_cons_of_mem c h)]
  rw [valueAt, valueFrom, hwhile _ fun h => hs (List.mem_of_mem_drop h), List.drop_drop,
    List.drop_drop, Nat.add_assoc]
  rcases le_or_gt s.length (i + arg.length) with hle | hlt
  · rw [List.drop_eq_nil_of_le hle, List.getD_eq_default _ _ hle]
    rfl
  · rw [List.drop_eq_getElem_cons hlt, List.head?_cons, List.getD_eq_getElem _ _ hlt]
    simp only [Option.some.injEq]

/-- **Where the scan ends**: at the place where it finds the option, or behind the string. -/
lemma isArgLoop_cases (harg : arg ≠ []) (hnul : 0 ∉ arg) (hs : 0 ∉ s) (hi : Looked s arg i)
    (hfuel : s.length ≤ i + fuel) :
    ∃ p, Looked s arg p ∧ nextPlace s arg p = none ∧ isArgLoop s arg out fuel i =
      if OptionFits arg (s.drop p) then
        (true, out.map fun o => store o 0 (valueAt arg (s.drop p)))
      else (false, out) := by
  have hshort : ∀ k, s.length ≤ k → ¬OptionFits arg (s.drop k) := fun k hk h => by
    have hpre := h.1
    rw [List.drop_eq_nil_of_le hk] at hpre
    exact harg (List.prefix_nil.mp hpre)
  have hstop : ∀ k, s.length ≤ k → nextPlace s arg k = none := fun k hk => if_pos (.inl hk)
  induction fuel generalizing i with
  | zero =>
    refine ⟨i, hi, hstop i hfuel, ?_⟩
    rw [if_neg (hshort i hfuel)]
    rfl
  | succ fuel ih =>
    rw [isArgLoop]
    rcases le_or_gt s.length i with hle | hlt
    · rw [if_neg (not_lt.mpr hle)]
      exact ⟨i, hi, hstop i hle, by rw [if_neg (hshort i hle)]⟩
    rw [if_pos hlt, tryArg_eq hnul (by omega), Nat.add_zero]
    by_cases hpre : arg <+: s.drop i
    · rw [if_pos hpre]
      dsimp only
      by_cases hfits : OptionFits arg (s.drop i)
      · refine ⟨i, hi, if_pos (.inr hfits), ?_⟩
        rw [if_pos hfits, valueAt_eq hs]
        rw [optionFits_iff hpre] at hfits
        by_cases hend : s.length ≤ i + arg.length
        · rw [if_pos hend, List.getD_eq_default _ _ hend, if_neg (by decide)]
          simp only [store_nil, Option.map_id']
        · rw [if_neg hend, if_neg fun h => (hfits.resolve_left hend).elim h.1 h.2]
          split_ifs with hequals
          · rfl
          · simp only [store_nil, Option.map_id']
      · -- the argument stands here, with something else behind it: the scan goes on
        have hfits' := hfits
        rw [optionFits_iff hpre] at hfits'
        obtain ⟨hmore, hspace, hequals⟩ := by
          rw [not_or, not_or] at hfits'
          exact hfits'
        rw [if_neg hmore, if_pos ⟨hspace, hequals⟩]
        refine ih (hi.tail ?_) (by omega)
        rw [Step, nextPlace, if_neg (by simp [hfits, hlt]), if_pos hpre]
    · rw [if_neg hpre]
      refine ih (hi.tail ?_) (by omega)
      have hfits : ¬OptionFits arg (s.drop i) := fun h => hpre h.1
      rw [Step, nextPlace, if_neg (by simp [hfits, hlt]), if_neg hpre]

/-- The scan ends at one place. -/
lemma looked_unique (hp : Looked s arg p) (hpend : nextPlace s arg p = none) (hq : Looked s arg q)
    (hqend : nextPlace s arg q = none) : p = q := by
  have hunique : Relator.RightUnique (Step (nextPlace s arg)) :=
    fun a b c hb hc => Option.some.inj (hb.symm.trans hc)
  rcases Relation.ReflTransGen.total_of_right_unique hunique hp hq with hpq | hqp
  · exact ((leads_iff_of_none hpend).mp hpq).symm
  · exact (leads_iff_of_none hqend).mp hqp

/-- A space in front of a place is not in an option that begins before it. -/
lemma prefix_space (hspace : 0x20 ∉ arg) (hpre : arg <+: s.drop p) (hq : s[q - 1]? = some 0x20)
    (hpq : p < q) : p + arg.length < q := by
  by_contra hle
  refine hspace ?_
  have hlt : q - 1 - p < arg.length := by omega
  obtain ⟨r, hr⟩ := hpre
  have hget : (s.drop p)[q - 1 - p]? = some 0x20 := by
    rw [List.getElem?_drop, show p + (q - 1 - p) = q - 1 by omega]
    exact hq
  rw [← hr, List.getElem?_append_left hlt] at hget
  exact List.mem_of_getElem? hget

/-- **The scan jumps over no token** that gives the option. -/
lemma looked_le (hspace : 0x20 ∉ arg) (hq : TokenStart s q) (hfits : OptionFits arg (s.drop q))
    (hp : Looked s arg p) : p ≤ q := by
  induction hp with
  | refl => exact Nat.zero_le q
  | @tail b c _ hstep ih =>
    have hne : b ≠ q := fun h => by
      rw [h, Step, nextPlace, if_pos (.inr hfits)] at hstep
      cases hstep
    have hlt : b < q := lt_of_le_of_ne ih hne
    have hchar : s[q - 1]? = some 0x20 := hq.resolve_left (by omega)
    rw [Step, nextPlace] at hstep
    split_ifs at hstep with hend hpre
    · have := prefix_space hspace hpre hchar hlt
      obtain rfl := Option.some.inj hstep
      omega
    · obtain rfl := Option.some.inj hstep
      omega

/-! ### Tokens and places -/

/-- A command line is one token, or a token, a space and more. -/
lemma exists_token (s : List UInt8) : (0x20 ∉ s ∧ s.splitOn 0x20 = [s]) ∨
    ∃ w r, s = w ++ 0x20 :: r ∧ 0x20 ∉ w ∧ s.splitOn 0x20 = w :: r.splitOn 0x20 := by
  by_cases hmem : 0x20 ∈ s
  · obtain ⟨w, r, rfl, hw⟩ := List.eq_append_cons_of_mem hmem
    exact .inr ⟨w, r, rfl, hw, List.splitOn_append_cons_self_of_not_mem hw r⟩
  · exact .inl ⟨hmem, List.splitOn_eq_singleton hmem⟩

/-- A token ends at a space. -/
lemma takeWhile_token (hw : 0x20 ∉ w) (hr : ∀ c ∈ r.head?, c = 0x20) :
    (w ++ r).takeWhile (· ≠ 0x20) = w := by
  rw [List.takeWhile_append_of_pos fun c hc => by simpa using ne_of_mem_of_not_mem hc hw]
  cases r with
  | nil => exact List.append_nil w
  | cons c r =>
    obtain rfl := hr c rfl
    simp

/-- A token that begins with an option without a space. -/
lemma prefix_token (hspace : 0x20 ∉ arg) (hr : ∀ c ∈ r.head?, c = 0x20) (h : arg <+: w ++ r) :
    arg <+: w := by
  rcases le_total arg.length w.length with hle | hle
  · exact List.prefix_of_prefix_length_le h (List.prefix_append w r) hle
  · obtain ⟨y, rfl⟩ := List.prefix_of_prefix_length_le (List.prefix_append w r) h hle
    cases y with
    | nil => rw [List.append_nil]
    | cons c y =>
      obtain ⟨t, ht⟩ := (List.prefix_append_right_inj w).mp h
      obtain rfl := hr c (by rw [← ht]; rfl)
      exact absurd (by simp) hspace

/-- The option at the start of a token, with the end or a space behind the token. -/
lemma optionFits_token (hspace : 0x20 ∉ arg) (hw : 0x20 ∉ w) (hr : ∀ c ∈ r.head?, c = 0x20) :
    (OptionFits arg (w ++ r) ↔ Gives arg w) ∧
      (Gives arg w → valueAt arg (w ++ r) = tokenValue arg w) := by
  refine ⟨⟨?_, ?_⟩, ?_⟩
  · rintro ⟨hpre, hnext⟩
    obtain ⟨x, rfl⟩ := prefix_token hspace hr hpre
    rw [List.append_assoc, List.drop_left] at hnext
    cases x with
    | nil => exact .inl (List.append_nil arg)
    | cons d v =>
      rcases hnext d rfl with rfl | rfl
      · exact absurd (by simp) hw
      · exact .inr ⟨v, by simp⟩
  · rintro (rfl | ⟨v, rfl⟩)
    · refine ⟨List.prefix_append w r, fun c hc => .inl (hr c ?_)⟩
      rwa [List.drop_left] at hc
    · refine ⟨⟨0x3d :: (v ++ r), by simp⟩, fun c hc => .inr ?_⟩
      rw [List.append_assoc, List.append_assoc, List.drop_left] at hc
      exact (Option.some.inj hc).symm
  · rintro (rfl | ⟨v, rfl⟩)
    · have hhead : r.head? ≠ some 0x3d := fun h => absurd (hr 0x3d h) (by decide)
      rw [valueAt, List.drop_left, if_neg hhead, tokenValue,
        List.drop_eq_nil_of_le (Nat.le_succ _)]
    · have hv : 0x20 ∉ v := fun h => hw (List.mem_append_right _ h)
      have hlen : arg.length + 1 = (arg ++ [0x3d]).length := by simp
      rw [valueAt, tokenValue, hlen, List.drop_left, List.append_assoc, List.drop_left, if_pos ?_]
      · exact takeWhile_token hv hr
      · rw [List.append_assoc, List.drop_left]
        rfl

lemma drop_token (w r : List UInt8) (k : ℕ) :
    (w ++ 0x20 :: r).drop (w.length + 1 + k) = r.drop k := by
  rw [Nat.add_assoc, Nat.add_comm 1, ← List.drop_drop, List.drop_left, List.drop_succ_cons]

/-- A token starts there where it does in what is behind the space. -/
lemma tokenStart_iff {k : ℕ} :
    TokenStart (w ++ 0x20 :: r) (w.length + 1 + k) ↔ TokenStart r k := by
  have hindex : w.length + 1 + k - 1 = w.length + k := by omega
  rw [TokenStart, TokenStart, hindex, List.getElem?_append_right (Nat.le_add_right _ _),
    Nat.add_sub_cancel_left]
  cases k with
  | zero => simp
  | succ k => simp

/-- A token begins at the start, or behind the space that ends the first one. -/
lemma TokenStart.cases (hw : 0x20 ∉ w) (h : TokenStart (w ++ 0x20 :: r) p) :
    p = 0 ∨ ∃ k, p = w.length + 1 + k ∧ TokenStart r k := by
  rcases Nat.eq_zero_or_pos p with rfl | hpos
  · exact .inl rfl
  have hle : w.length + 1 ≤ p := by
    by_contra hlt
    have hget := h.resolve_left (by omega)
    rw [List.getElem?_append_left (by omega)] at hget
    exact hw (List.mem_of_getElem? hget)
  obtain ⟨k, rfl⟩ := Nat.exists_eq_add_of_le hle
  exact .inr ⟨k, rfl, tokenStart_iff.mp h⟩

/-- **The first token that gives an option** begins at the first place that does. -/
lemma firstToken_cases (hspace : 0x20 ∉ arg) (s : List UInt8) :
    (firstToken s arg = none ∧ ∀ p, TokenStart s p → ¬OptionFits arg (s.drop p)) ∨
    ∃ token p, firstToken s arg = some token ∧ TokenStart s p ∧ OptionFits arg (s.drop p) ∧
      valueAt arg (s.drop p) = tokenValue arg token ∧
      ∀ q < p, TokenStart s q → ¬OptionFits arg (s.drop q) := by
  induction hn : s.length using Nat.strong_induction_on generalizing s with
  | _ n ih =>
    rcases exists_token s with ⟨hmem, hsplit⟩ | ⟨w, r, rfl, hw, hsplit⟩
    · -- one token
      obtain ⟨hfits, hvalue⟩ := optionFits_token (r := []) hspace hmem (fun c hc => nomatch hc)
      rw [List.append_nil] at hfits hvalue
      have hstart : ∀ p, TokenStart s p → p = 0 := fun p hp => by
        by_contra hne
        exact hmem (List.mem_of_getElem? (hp.resolve_left hne))
      rw [firstToken, hsplit]
      by_cases hgives : Gives arg s
      · refine .inr ⟨s, 0, ?_, .inl rfl, hfits.mpr hgives, hvalue hgives,
          fun q hq => absurd hq (Nat.not_lt_zero q)⟩
        exact List.find?_cons_of_pos (decide_eq_true hgives)
      · refine .inl ⟨?_, fun p hp h => ?_⟩
        · rw [List.find?_cons_of_neg (by simpa using hgives)]
          rfl
        · obtain rfl := hstart p hp
          exact hgives (hfits.mp h)
    · -- a token, and those behind the space
      obtain ⟨hfits, hvalue⟩ := optionFits_token (r := 0x20 :: r) hspace hw
        (fun c hc => (Option.some.inj hc).symm)
      rw [firstToken, hsplit]
      by_cases hgives : Gives arg w
      · refine .inr ⟨w, 0, ?_, .inl rfl, hfits.mpr hgives, hvalue hgives,
          fun q hq => absurd hq (Nat.not_lt_zero q)⟩
        exact List.find?_cons_of_pos (decide_eq_true hgives)
      rw [List.find?_cons_of_neg (by simpa using hgives), ← firstToken]
      have hfirst : ¬OptionFits arg (w ++ 0x20 :: r) := fun h => hgives (hfits.mp h)
      rcases ih r.length (by rw [← hn, List.length_append, List.length_cons]; omega) r rfl with
        ⟨hnone, hmiss⟩ | ⟨token, p, hsome, hp, hpfits, hpvalue, hmiss⟩
      · refine .inl ⟨hnone, fun q hq h => ?_⟩
        rcases hq.cases hw with rfl | ⟨k, rfl, hk⟩
        · exact hfirst h
        · exact hmiss k hk (drop_token w r k ▸ h)
      · refine .inr ⟨token, w.length + 1 + p, hsome, tokenStart_iff.mpr hp, ?_, ?_,
          fun q hlt hq h => ?_⟩
        · rwa [drop_token]
        · rwa [drop_token]
        · rcases hq.cases hw with rfl | ⟨k, rfl, hk⟩
          · exact hfirst h
          · exact hmiss k (by omega) hk (drop_token w r k ▸ h)

/-! ### The lookup -/

/-- Lists that are stored alike in every buffer. -/
lemma store_injective {x y : List UInt8} (h : ∀ o : ℕ → UInt8, store o 0 x = store o 0 y) :
    x = y := by
  refine List.ext_getElem? fun i => ?_
  have hget : ∀ b, x[i]?.getD b = y[i]?.getD b := fun b => by
    have hi := congrFun (h fun _ => b) i
    rwa [store, store, if_pos (Nat.zero_le i), if_pos (Nat.zero_le i), Nat.sub_zero,
      List.getD_eq_getElem?_getD, List.getD_eq_getElem?_getD] at hi
  cases hx : x[i]? with
  | none =>
    cases hy : y[i]? with
    | none => rfl
    | some d =>
      rw [hx, hy] at hget
      exact absurd ((hget 0).trans (hget 1).symm) (by decide)
  | some c =>
    cases hy : y[i]? with
    | none =>
      rw [hx, hy] at hget
      exact absurd ((hget 0).symm.trans (hget 1)) (by decide)
    | some d =>
      rw [hx, hy] at hget
      exact congrArg some (hget 0)

/-- **What `is_arg` does**, by what is at the place where the scan ends. -/
lemma isArg_cases (harg : arg ≠ []) (hnul : 0 ∉ arg) (hs : 0 ∉ s) :
    (∃ p, Looked s arg p ∧ nextPlace s arg p = none ∧ OptionFits arg (s.drop p) ∧
      ∀ out, isArg s arg out = (true, out.map fun o => store o 0 (valueAt arg (s.drop p)))) ∨
    (∀ p, Looked s arg p → ¬OptionFits arg (s.drop p)) ∧ (∃ p, Looked s arg p ∧ s.length ≤ p) ∧
      ∀ out, isArg s arg out = (false, out) := by
  have hend : ∀ out, ∃ p, Looked s arg p ∧ nextPlace s arg p = none ∧ isArg s arg out =
      if OptionFits arg (s.drop p) then
        (true, out.map fun o => store o 0 (valueAt arg (s.drop p)))
      else (false, out) := fun out => isArgLoop_cases harg hnul hs .refl (Nat.zero_add _).ge
  obtain ⟨p, hp, hpend, -⟩ := hend none
  have hresult : ∀ out, isArg s arg out = if OptionFits arg (s.drop p) then
      (true, out.map fun o => store o 0 (valueAt arg (s.drop p))) else (false, out) := fun out => by
    obtain ⟨q, hq, hqend, h⟩ := hend out
    rwa [looked_unique hq hqend hp hpend] at h
  by_cases hfits : OptionFits arg (s.drop p)
  · exact .inl ⟨p, hp, hpend, hfits, fun out => (hresult out).trans (if_pos hfits)⟩
  · refine .inr ⟨fun q hq h => hfits ?_, ⟨p, hp, ?_⟩, fun out => (hresult out).trans (if_neg hfits)⟩
    · rwa [looked_unique hp hpend hq (if_pos (.inr h))]
    · by_contra hlt
      rw [nextPlace, if_neg (not_or.mpr ⟨hlt, hfits⟩)] at hpend
      split_ifs at hpend

/-- **Whole options are looked up** if and only if what the scan finds inside a token has the value
of the first token that gives the option. -/
theorem is_arg_right_iff (harg : arg ≠ []) (hnul : 0 ∉ arg) (hspace : 0x20 ∉ arg) (hs : 0 ∉ s) :
    LooksUpArg s arg ↔ ∀ p, Looked s arg p → OptionFits arg (s.drop p) → ¬TokenStart s p →
      ∃ token, firstToken s arg = some token ∧
        tokenValue arg token = valueAt arg (s.drop p) := by
  have hgives : (∃ token ∈ s.splitOn 0x20, Gives arg token) ↔ firstToken s arg ≠ none := by
    rw [firstToken, Ne, List.find?_eq_none]
    simp only [decide_eq_true_eq, not_forall, not_not, exists_prop]
  rcases isArg_cases harg hnul hs with ⟨p, hp, hpend, hfits, hresult⟩ |
    ⟨hmiss, ⟨p, hp, hpend⟩, hresult⟩
  · -- the scan finds the option at `p`
    constructor
    · intro h q hq hqfits _
      obtain rfl := looked_unique hp hpend hq (if_pos (.inr hqfits))
      have hsome := hgives.mp ((h none).1.mp (by rw [hresult]))
      obtain ⟨token, htoken⟩ := Option.ne_none_iff_exists'.mp hsome
      refine ⟨token, htoken, store_injective fun o => ?_⟩
      have hout := (h (some o)).2
      rw [hresult, htoken] at hout
      exact (Option.some.inj hout).symm
    · intro h out
      have hfirst : ∃ token, firstToken s arg = some token ∧
          tokenValue arg token = valueAt arg (s.drop p) := by
        -- where the scan stops at the start of a token, that token is the first one that fits
        by_cases hstart : TokenStart s p
        · rcases firstToken_cases hspace s with ⟨-, hnone⟩ |
            ⟨token, q, htoken, hq, hqfits, hvalue, hleast⟩
          · exact absurd hfits (hnone p hstart)
          · have hle : p ≤ q := looked_le hspace hq hqfits hp
            have hge : q ≤ p := by
              by_contra hlt
              exact hleast p (not_le.mp hlt) hstart hfits
            obtain rfl := le_antisymm hle hge
            exact ⟨token, htoken, hvalue.symm⟩
        · exact h p hp hfits hstart
      obtain ⟨token, htoken, hvalue⟩ := hfirst
      rw [hresult, hgives, htoken, ← hvalue]
      exact ⟨⟨fun _ => nofun, fun _ => rfl⟩, rfl⟩
  · -- the scan finds nothing, so no token gives the option
    refine ⟨fun _ p hp hfits => absurd hfits (hmiss p hp), fun _ out => ?_⟩
    have hnone : firstToken s arg = none := by
      rcases firstToken_cases hspace s with ⟨hnone, -⟩ | ⟨token, q, -, hq, hqfits, -⟩
      · exact hnone
      · have hle : s.length ≤ q := hpend.trans (looked_le hspace hq hqfits hp)
        have hpre := hqfits.1
        rw [List.drop_eq_nil_of_le hle] at hpre
        exact absurd (List.prefix_nil.mp hpre) harg
    rw [hresult, hgives, hnone]
    exact ⟨⟨nofun, fun h => absurd rfl h⟩, rfl⟩

/-- The option `a` in the command line `a=b`. -/
theorem is_arg_right_value : LooksUpArg [0x61, 0x3d, 0x62] [0x61] := by
  refine (is_arg_right_iff (by decide) (by decide) (by decide) (by decide)).mpr
    fun p _ hfits hstart => absurd ?_ hstart
  have hnone : ∀ p < 3, OptionFits [0x61] ([0x61, 0x3d, 0x62].drop p) → p = 0 := by decide
  rcases lt_or_ge p 3 with hlt | hge
  · exact .inl (hnone p hlt hfits)
  · have hpre := hfits.1
    rw [List.drop_eq_nil_of_le hge] at hpre
    exact absurd (List.prefix_nil.mp hpre) (by decide)

/-- The bytes of `--gdb`, `--no--gdb`, `--init` and `x--init=a --init=b`. -/
def gdbOption : List UInt8 := [0x2d, 0x2d, 0x67, 0x64, 0x62]

/-- The line `--no--gdb`. -/
def noGdbLine : List UInt8 := [0x2d, 0x2d, 0x6e, 0x6f] ++ gdbOption

/-- The option `--init`. -/
def initOption : List UInt8 := [0x2d, 0x2d, 0x69, 0x6e, 0x69, 0x74]

/-- The line `x--init=a --init=b`. -/
def initLine : List UInt8 :=
    [0x78] ++ initOption ++ [0x3d, 0x61, 0x20] ++ initOption ++ [0x3d, 0x62]

/-- **The option `--gdb` is found in `--no--gdb`**, and the value of `--init` is taken from the
token `x--init=a`. -/
theorem option_found_inside :
    ¬LooksUpArg noGdbLine gdbOption ∧ ¬LooksUpArg initLine initOption := by
  constructor
  · intro h
    exact absurd ((h none).1.mp (by decide)) (by decide)
  · intro h
    have hstored : ((isArg initLine initOption (some fun _ => 0)).2.map fun o => o 0) =
      some 0x61 := by
      decide
    have hfirst : firstToken initLine initOption = some (initOption ++ [0x3d, 0x62]) := by decide
    rw [(h (some fun _ => 0)).2, hfirst] at hstored
    exact absurd hstored (by decide)

end MicroOS
