import MicroOS.Lib.Radix
import MicroOS.User.Ansi

/-!
Numbers as text: `user/libc/stdio/vsprintf.c` and `user/libc/stdlib/strtol.c`.

* `printNum`, `printNumUnsigned`, `vsprintf`: the printing of numbers. Texts are given by value,
  without the zero at their end.
* `strtol`: the reading, with what stands behind the number.
* `printed_reads_back_iff`: **what is printed reads back exactly where no letter is needed that the
  reader does not know, and no number lies beyond the signed ones**.
-/

namespace MicroOS

open Checked CInt

/-! ### Printing -/

/-- Why the printing stops. -/
inductive PrintFault where
  /-- An index outside the table of digits. -/
  | tableIndex (i : ℤ)
  /-- Writing before the start of `buf`. -/
  | overflow
  | divideError
  /-- An argument that is not there, or is not what the format takes it for. -/
  | argument
  deriving DecidableEq

/-- The characters of `digits`. -/
def digitTable : List UInt8 :=
  [48, 49, 50, 51, 52, 53, 54, 55, 56, 57, 97, 98, 99, 100, 101, 102, 103, 104, 105, 106, 107, 108,
    109, 110, 111, 112, 113, 114, 115, 116, 117, 118, 119, 120, 121, 122]

/-- `digits[i]`. -/
def digitAt (i : ℤ) : Except PrintFault UInt8 :=
  if 0 ≤ i ∧ i < 36 then .ok (digitTable.getD i.toNat 0) else .error (.tableIndex i)

/-- The bytes before the terminator of `buf`. -/
def printRoom : ℕ := 64

/-- The loop of `print_num`: `room` bytes are left before `p`, and `text` stands behind it. -/
def printLoop (base : ℤ) : ℕ → ℤ → List UInt8 → Except PrintFault (List UInt8)
  | 0, _, _ => .error .overflow
  | room + 1, x, text =>
    if base = 0 ∨ x = -2 ^ 31 ∧ base = -1 then .error .divideError
    else do
      let c ← digitAt (x.tmod base)
      if x.tdiv base = 0 then return c :: text
      else printLoop base room (x.tdiv base) (c :: text)

/-- `print_num`, for an `x` that is a `long`. -/
def printNum (x base : ℤ) : Except PrintFault (List UInt8) :=
  if 36 < base then .ok []
  else do
    let text ← printLoop base printRoom (if x < 0 then int (x * -1) else x) []
    if x < 0 then
      if printRoom ≤ text.length then .error .overflow
      else return 45 :: text
    else return text

/-- The loop of `print_num_unsigned`. -/
def printLoopUnsigned (base : ℕ) : ℕ → ℕ → List UInt8 → Except PrintFault (List UInt8)
  | 0, _, _ => .error .overflow
  | room + 1, x, text =>
    if base = 0 then .error .divideError
    else do
      let c ← digitAt (x % base : ℕ)
      if x / base = 0 then return c :: text
      else printLoopUnsigned base room (x / base) (c :: text)

/-- `print_num_unsigned`. The base becomes unsigned in the division. -/
def printNumUnsigned (x : ℕ) (base : ℤ) : Except PrintFault (List UInt8) :=
  if 36 < base then .ok []
  else printLoopUnsigned (base % 2 ^ 32).toNat printRoom x []

/-- An argument: a word, or a string. -/
inductive VaArg where
  | word (n : UInt32)
  | string (s : List UInt8)
  deriving DecidableEq

/-- The next argument as a word. -/
def vaWord : List VaArg → Except PrintFault (UInt32 × List VaArg)
  | .word n :: args => .ok (n, args)
  | _ => .error .argument

/-- The next argument as a string. -/
def vaString : List VaArg → Except PrintFault (List UInt8 × List VaArg)
  | .string s :: args => .ok (s, args)
  | _ => .error .argument

/-- `vsprintf`: what is written to `buf`. The zero at its end is missing where the format ends with
a percent sign. -/
def vsprintf : List UInt8 → List VaArg → Except PrintFault (List UInt8)
  | [], _ => .ok [0]
  | c :: str, args =>
    if c = 37 then
      match str with
      | [] => .ok []
      | f :: str =>
        if f = 115 then do
          let (s, args) ← vaString args
          return s ++ (← vsprintf str args)
        else if f = 99 then do
          let (n, args) ← vaWord args
          return n.toUInt8 :: (← vsprintf str args)
        else if f = 100 ∨ f = 117 then do
          let (n, args) ← vaWord args
          let text ← printNum n.toInt32.toInt 10
          return text ++ (← vsprintf str args)
        else if f = 120 ∨ f = 112 then do
          let (n, args) ← vaWord args
          let text ← printNumUnsigned n.toNat 16
          return text ++ (← vsprintf str args)
        else if f = 37 then return 37 :: (← vsprintf str args)
        else return 37 :: f :: (← vsprintf str args)
    else return c :: (← vsprintf str args)

/-! ### Reading -/

/-- `isspace`. -/
def isSpace (c : UInt8) : Bool := c = 9 ∨ c = 10 ∨ c = 11 ∨ c = 12 ∨ c = 13 ∨ c = 32

/-- `isxdigit`. -/
def isXDigit (c : UInt8) : Bool := libcIsDigit c ∨ (97 ≤ c ∧ c ≤ 102) ∨ (65 ≤ c ∧ c ≤ 70)

/-- `tolower`. -/
def toLower (c : UInt8) : UInt8 := if 65 ≤ c ∧ c ≤ 90 then c + 32 else c

/-- The value of a character in `strtol`, if it has one. -/
def strtolDigit (base : ℤ) (c : UInt8) : Option ℕ :=
  if libcIsDigit c then some (c.toNat - 48)
  else if base = 16 ∧ isXDigit c then some ((toLower c).toNat - 97 + 10)
  else none

/-- The loop of `strtol`: the sum, and what stands behind `p`. -/
def strtolDigits (base : ℤ) : List UInt8 → ℤ → ℤ × List UInt8
  | [], result => (result, [])
  | c :: p, result =>
    match strtolDigit base c with
    | none => (result, c :: p)
    | some digit =>
      if base ≤ digit then (result, c :: p)
      else strtolDigits base p (int (result * base + digit))

/-- The base that `strtol` reads with, and where it begins to. -/
def strtolBase (p : List UInt8) (base : ℤ) : ℤ × List UInt8 :=
  if base = 0 then
    if p[0]? = some 48 then
      (if p[1]? = some 120 ∨ p[1]? = some 88 then 16 else 8, p)
    else (10, p)
  else if base = 16 ∧ p[0]? = some 48 ∧ (p[1]? = some 120 ∨ p[1]? = some 88) then (base, p.drop 2)
  else (base, p)

/-- `strtol`: the number, and `*endptr`. -/
def strtol (nptr : List UInt8) (base : ℤ) : ℤ × List UInt8 :=
  let p := nptr.dropWhile isSpace
  let negative := p[0]? = some 45
  let p := if negative ∨ p[0]? = some 43 then p.drop 1 else p
  let (base, p) := strtolBase p base
  let (result, p) := strtolDigits base p 0
  (if negative then int (-result) else result, p)

/-! ### Digits -/

/-- The character of a digit. -/
def digitChar (d : ℕ) : UInt8 := digitTable.getD d 0

section Digits

variable {d b n room : ℕ} {ds : List ℕ} {text : List UInt8}

lemma digitAt_eq (hd : d < 36) : digitAt d = .ok (digitChar d) := by
  rw [digitAt, if_pos (by omega), Int.toNat_natCast, digitChar]

lemma digitAt_neg {i : ℤ} (hi : i < 0) : digitAt i = .error (.tableIndex i) :=
  if_neg fun h => absurd h.1 (not_le.mpr hi)

lemma digitChar_plain : ∀ d < 36, isSpace (digitChar d) = false ∧ digitChar d ≠ 45 ∧
    digitChar d ≠ 43 := by
  decide

lemma digitChar_hex : ∀ d < 16, digitChar d ≠ 120 ∧ digitChar d ≠ 88 := by
  decide

/-- A decimal digit is read in every base. -/
lemma strtolDigit_dec (base : ℤ) : ∀ d < 10, strtolDigit base (digitChar d) = some d := by
  have h : ∀ d < 10, libcIsDigit (digitChar d) = true ∧ (digitChar d).toNat - 48 = d := by decide
  intro d hd
  rw [strtolDigit, if_pos (h d hd).1, (h d hd).2]

lemma strtolDigit_hex : ∀ d < 16, strtolDigit 16 (digitChar d) = some d := by
  decide

/-- Letters are not read in other bases than 16. -/
lemma strtolDigit_letter {base : ℤ} (hbase : base ≠ 16) (h10 : 10 ≤ d) (hd : d < 36) :
    strtolDigit base (digitChar d) = none := by
  have h : ∀ d < 36, 10 ≤ d → libcIsDigit (digitChar d) = false := by decide
  rw [strtolDigit, h d hd h10, if_neg Bool.false_ne_true, if_neg fun h => hbase h.1]

/-- The digits that are read in a base. -/
def Readable (b : ℕ) (ds : List ℕ) : Prop := b = 16 ∨ ∀ d ∈ ds, d < 10

/-- Readable digits are read to their end. -/
lemma strtolDigits_readable (hds : ∀ d ∈ ds, d < b) (h : Readable b ds) (r : ℤ) :
    strtolDigits b (ds.map digitChar) r =
      (ds.foldl (fun (r : ℤ) (d : ℕ) => int (r * b + d)) r, []) := by
  induction ds generalizing r with
  | nil => rfl
  | cons d ds ih =>
    have hd : d < b := hds d List.mem_cons_self
    have hvalue : strtolDigit b (digitChar d) = some d := by
      cases h with
      | inl h16 =>
        rw [h16] at hd ⊢
        exact strtolDigit_hex d hd
      | inr h10 => exact strtolDigit_dec b d (h10 d List.mem_cons_self)
    have htail : Readable b ds := h.imp_right fun h10 d hd => h10 d (List.mem_cons_of_mem _ hd)
    rw [List.map_cons, strtolDigits, hvalue, List.foldl_cons]
    dsimp only
    rw [if_neg (by omega)]
    exact ih (fun d hd => hds d (List.mem_cons_of_mem _ hd)) htail _

/-- Digits that are read to their end are readable. -/
lemma readable_of_strtolDigits (hds : ∀ d ∈ ds, d < 36) {r : ℤ}
    (h : (strtolDigits b (ds.map digitChar) r).2 = []) : Readable b ds := by
  by_cases hb : b = 16
  · exact Or.inl hb
  · refine Or.inr ?_
    induction ds generalizing r with
    | nil => exact fun d hd => absurd hd List.not_mem_nil
    | cons d ds ih =>
      have hd : d < 10 := by
        by_contra hge
        have hnone : strtolDigit b (digitChar d) = none :=
          strtolDigit_letter (by exact_mod_cast hb) (not_lt.mp hge) (hds d List.mem_cons_self)
        rw [List.map_cons, strtolDigits, hnone] at h
        exact List.cons_ne_nil _ _ h
      rw [List.map_cons, strtolDigits, strtolDigit_dec b d hd] at h
      dsimp only at h
      split_ifs at h
      exact List.forall_mem_cons.mpr
        ⟨hd, ih (fun d hd => hds d (List.mem_cons_of_mem _ hd)) h⟩

/-- **The text of a number.** -/
def numeralText (b n : ℕ) : List UInt8 := (Radix.numeral b n).map digitChar

/-- Printing a number. -/
lemma printLoop_eq (hb : 2 ≤ b) (hb' : b ≤ 36) (hroom : (Radix.numeral b n).length ≤ room) :
    printLoop b room n text = .ok (numeralText b n ++ text) := by
  induction room generalizing n text with
  | zero =>
    exact absurd (List.length_eq_zero_iff.mp (Nat.le_zero.mp hroom)) (Radix.numeral_ne_nil b n)
  | succ room ih =>
    have hmod : ((n : ℤ).tmod b) = (n % b : ℕ) := Int.ofNat_tmod n b |>.symm
    have hdiv : ((n : ℤ).tdiv b) = (n / b : ℕ) := Int.ofNat_tdiv n b |>.symm
    rw [numeralText, Radix.numeral_step hb]
    rw [Radix.numeral_step hb] at hroom
    rw [printLoop, if_neg (by omega), hmod, hdiv,
      digitAt_eq ((Nat.mod_lt n (by omega)).trans_le hb'), ok_bind]
    by_cases hq : n / b = 0
    · rw [if_pos hq, if_pos (by exact_mod_cast hq)]
      rfl
    · rw [if_neg hq, List.length_append, List.length_singleton] at hroom
      rw [if_neg hq, if_neg (by exact_mod_cast hq), ih (by omega), List.map_append,
        List.append_assoc]
      rfl

/-- **The loop of digits** writes the numeral, with room for it. -/
lemma printLoopUnsigned_eq (hb : 2 ≤ b) (hb' : b ≤ 36)
    (hroom : (Radix.numeral b n).length ≤ room) :
    printLoopUnsigned b room n text = .ok (numeralText b n ++ text) := by
  induction room generalizing n text with
  | zero =>
    exact absurd (List.length_eq_zero_iff.mp (Nat.le_zero.mp hroom)) (Radix.numeral_ne_nil b n)
  | succ room ih =>
    rw [numeralText, Radix.numeral_step hb]
    rw [Radix.numeral_step hb] at hroom
    rw [printLoopUnsigned, if_neg (by omega),
      digitAt_eq ((Nat.mod_lt n (by omega)).trans_le hb'), ok_bind]
    by_cases hq : n / b = 0
    · rw [if_pos hq, if_pos hq]
      rfl
    · rw [if_neg hq, List.length_append, List.length_singleton] at hroom
      rw [if_neg hq, if_neg hq, ih (by omega), List.map_append, List.append_assoc]
      rfl

/-- **A negative number is not printed**: its last remainder is a negative index. -/
lemma printLoop_neg (hb : 2 ≤ b) {x : ℤ} (hx : x < 0) {t : List UInt8} :
    printLoop b room x text ≠ .ok t := by
  induction room generalizing x text with
  | zero =>
    intro h
    cases h
  | succ room ih =>
    intro h
    rw [printLoop, if_neg (by omega)] at h
    by_cases hr : x.tmod b < 0
    · rw [digitAt_neg hr, error_bind] at h
      cases h
    · rw [bind_eq_ok] at h
      obtain ⟨c, -, h⟩ := h
      have hmul : (b : ℤ) * x.tdiv b + x.tmod b = x := Int.mul_tdiv_add_tmod x b
      have hq : x.tdiv b < 0 := by
        by_contra hq
        have hpos : 0 ≤ (b : ℤ) * x.tdiv b := mul_nonneg (by omega) (not_lt.mp hq)
        omega
      rw [if_neg hq.ne] at h
      exact ih hq h

lemma room_numeral (hb : 2 ≤ b) (hn : n < 2 ^ 32) : (Radix.numeral b n).length ≤ 32 :=
  Radix.length_numeral_le hb (by norm_num) (hn.trans_le (Nat.pow_le_pow_left hb 32))

/-- A text of digits has no blanks and no signs. -/
lemma numeralText_plain (hb : 2 ≤ b) (hb' : b ≤ 36) :
    ∀ c ∈ numeralText b n, isSpace c = false ∧ c ≠ 45 ∧ c ≠ 43 := by
  intro c hc
  obtain ⟨d, hd, rfl⟩ := List.mem_map.mp hc
  exact digitChar_plain d ((Radix.numeral_lt hb hd).trans_le hb')

lemma numeralText_cons (b n : ℕ) : ∃ c p, numeralText b n = c :: p := by
  refine List.exists_cons_of_ne_nil fun h => Radix.numeral_ne_nil b n ?_
  exact List.map_eq_nil_iff.mp h

/-- A text of digits is read in its own base, and from its start. -/
lemma strtolBase_numeralText (hb : 2 ≤ b) :
    strtolBase (numeralText b n) b = ((b : ℤ), numeralText b n) := by
  have hprefix : ¬((b : ℤ) = 16 ∧ (numeralText b n)[0]? = some 48 ∧
      ((numeralText b n)[1]? = some 120 ∨ (numeralText b n)[1]? = some 88)) := by
    rintro ⟨hb16, -, hx⟩
    have hmem : ∀ c ∈ numeralText b n, c ≠ 120 ∧ c ≠ 88 := by
      intro c hc
      obtain ⟨d, hd, rfl⟩ := List.mem_map.mp hc
      have hlt : d < b := Radix.numeral_lt hb hd
      exact digitChar_hex d (by omega)
    cases hx with
    | inl hx => exact (hmem _ (List.mem_of_getElem? hx)).1 rfl
    | inr hx => exact (hmem _ (List.mem_of_getElem? hx)).2 rfl
  rw [strtolBase, if_neg (by omega), if_neg hprefix]

/-- A numeral without a sign is read from its first digit on. -/
lemma strtol_numeralText (hb : 2 ≤ b) (hb' : b ≤ 36) :
    strtol (numeralText b n) b = strtolDigits b (numeralText b n) 0 := by
  have hbase := strtolBase_numeralText (n := n) hb
  have hplain := numeralText_plain (n := n) hb hb'
  obtain ⟨c, p, htext⟩ := numeralText_cons b n
  rw [htext] at hbase hplain ⊢
  obtain ⟨hspace, hminus, hplus⟩ := hplain c List.mem_cons_self
  simp [strtol, hspace, hminus, hplus, hbase]

/-- One with a sign is negated. -/
lemma strtol_minus (hb : 2 ≤ b) : strtol (45 :: numeralText b n) b =
    (int (-(strtolDigits b (numeralText b n) 0).1), (strtolDigits b (numeralText b n) 0).2) := by
  have hspace : isSpace 45 = false := rfl
  simp [strtol, hspace, strtolBase_numeralText hb]

/-- **A readable number is read.** -/
lemma strtolDigits_numeralText (hb : 2 ≤ b) (h : Readable b (Radix.numeral b n)) :
    strtolDigits b (numeralText b n) 0 = (int n, []) := by
  have hvalue := Radix.int_foldl b (Radix.numeral b n) 0
  rw [← Radix.value, Radix.value_numeral] at hvalue
  rw [numeralText, strtolDigits_readable (fun d hd => Radix.numeral_lt hb hd) h]
  exact congrArg (·, []) hvalue

end Digits

/-! ### Decimal texts in the calculator -/

lemma digitValue_digitChar : ∀ d < 10, digitValue (digitChar d) = some d := by
  decide

/-- The value of decimal digits, as the reader sums it up. -/
lemma foldl_digitValue {ds : List ℕ} (hds : ∀ d ∈ ds, d < 10) (v : ℕ) :
    (ds.map digitChar).foldl (fun v c => v * 10 + (digitValue c).getD 0) v =
      ds.foldl (fun v d => v * 10 + d) v := by
  induction ds generalizing v with
  | nil => rfl
  | cons d ds ih =>
    rw [List.map_cons, List.foldl_cons, List.foldl_cons,
      digitValue_digitChar d (hds d List.mem_cons_self), Option.getD_some]
    exact ih (fun d hd => hds d (List.mem_cons_of_mem _ hd)) _

/-- The decimal digits of a number stand for it. -/
lemma digitsValue_numeralText (n : ℕ) : digitsValue 10 (numeralText 10 n) = n := by
  rw [digitsValue, numeralText, foldl_digitValue fun d hd => Radix.numeral_lt (by norm_num) hd]
  exact Radix.value_numeral 10 n

/-- A number that is written in decimal. -/
def printedNumeral (n : ℕ) (hn : n < 2 ^ 31) : Numeral where
  base := .decimal
  digits := numeralText 10 n
  ne_nil := by
    obtain ⟨c, p, h⟩ := numeralText_cons 10 n
    exact h ▸ List.cons_ne_nil c p
  valid := by
    intro c hc
    obtain ⟨d, hd, rfl⟩ := List.mem_map.mp hc
    have hlt : d < 10 := Radix.numeral_lt (by norm_num) hd
    exact ⟨d, hlt, digitValue_digitChar d hlt⟩
  value_lt := (digitsValue_numeralText n).trans_lt hn

/-! ### Printing and reading -/

section RoundTrip

variable {b : ℕ}

/-- The sign and the digits of a number. -/
def signedText (b : ℕ) (x : ℤ) : List UInt8 :=
  if x < 0 then 45 :: numeralText b x.natAbs else numeralText b x.natAbs

/-- Every number but the smallest is printed. -/
lemma printNum_eq (hb : 2 ≤ b) (hb' : b ≤ 36) {x : ℤ} (hlo : -2 ^ 31 < x) (hhi : x < 2 ^ 31) :
    printNum x b = .ok (signedText b x) := by
  have hroom : (Radix.numeral b x.natAbs).length ≤ 32 := room_numeral hb (by omega)
  have hloop : printLoop b printRoom x.natAbs [] = .ok (numeralText b x.natAbs) := by
    rw [printLoop_eq hb hb' (hroom.trans (by rw [printRoom]; norm_num)), List.append_nil]
  rw [printNum, if_neg (by omega), signedText]
  by_cases hx : x < 0
  · have habs : int (x * -1) = x.natAbs := by
      rw [int_of_mem (by omega) (by rw [intMax]; omega)]
      omega
    have hlen : (numeralText b x.natAbs).length ≤ 32 := by
      rw [numeralText, List.length_map]
      exact hroom
    rw [if_pos hx, if_pos hx, habs, hloop, ok_bind, if_pos hx,
      if_neg (by rw [printRoom]; omega)]
    rfl
  · have habs : x = x.natAbs := by omega
    rw [← habs] at hloop
    rw [if_neg hx, if_neg hx, hloop, ok_bind, if_neg hx]
    rfl

/-- **The smallest number is not printed**: it is its own negative. -/
lemma printNum_smallest (hb : 2 ≤ b) (hb' : b ≤ 36) {text : List UInt8} :
    printNum (-2 ^ 31) b ≠ .ok text := by
  intro h
  have hneg : int (-2 ^ 31 * -1) = -2 ^ 31 := by
    rw [show (-2 ^ 31 * -1 : ℤ) = intMax + 1 by rw [intMax]; norm_num, int_succ_intMax]
  rw [printNum, if_neg (by omega), if_pos (by norm_num), hneg, bind_eq_ok] at h
  obtain ⟨t, ht, -⟩ := h
  exact printLoop_neg hb (by norm_num) ht

/-- A printed number is read where its digits are readable. -/
lemma strtol_signedText (hb : 2 ≤ b) (hb' : b ≤ 36) {x : ℤ} (hlo : -2 ^ 31 ≤ x) (hhi : x < 2 ^ 31)
    (h : Readable b (Radix.numeral b x.natAbs)) : strtol (signedText b x) b = (x, []) := by
  rw [signedText]
  by_cases hx : x < 0
  · have hvalue : int (-int x.natAbs) = x := by
      rw [int, int, Int.bmod_neg_bmod, ← int, int_of_mem (by omega) (by rw [intMax]; omega)]
      omega
    rw [if_pos hx, strtol_minus hb, strtolDigits_numeralText hb h, hvalue]
  · have hvalue : int x.natAbs = x := by
      rw [int_of_mem (by omega) (by rw [intMax]; omega)]
      omega
    rw [if_neg hx, strtol_numeralText hb hb', strtolDigits_numeralText hb h, hvalue]

/-- The reader only comes to the end of readable digits. -/
lemma readable_of_strtol (hb : 2 ≤ b) (hb' : b ≤ 36) {x : ℤ}
    (h : (strtol (signedText b x) b).2 = []) : Readable b (Radix.numeral b x.natAbs) := by
  have hds : ∀ d ∈ Radix.numeral b x.natAbs, d < 36 :=
    fun d hd => (Radix.numeral_lt hb hd).trans_le hb'
  rw [signedText] at h
  split_ifs at h
  · rw [strtol_minus hb] at h
    exact readable_of_strtolDigits hds h
  · rw [strtol_numeralText hb hb'] at h
    exact readable_of_strtolDigits hds h

/-- `x` is printed in a base, and `strtol` gives it back with the end at the terminator. -/
def SignedReadsBack (x : Int32) (b : ℕ) : Prop :=
  ∃ text, printNum x.toInt b = .ok text ∧ strtol text b = (x.toInt, [])

/-- `v` is printed by `%u` without a sign, and is read modulo `2 ^ 32` in the base 10. -/
def UnsignedReadsBack (v : UInt32) : Prop :=
  ∃ text, vsprintf [37, 117] [.word v] = .ok (text ++ [0]) ∧ 45 ∉ text ∧
    (strtol text 10).2 = [] ∧ (strtol text 10).1 % 2 ^ 32 = v.toNat

/-- `v` is printed by `%x`, and is read modulo `2 ^ 32` in the base 16. -/
def HexReadsBack (v : UInt32) : Prop :=
  ∃ text, vsprintf [37, 120] [.word v] = .ok (text ++ [0]) ∧
    (strtol text 16).2 = [] ∧ (strtol text 16).1 % 2 ^ 32 = v.toNat

/-- The numbers that `strtol` reads in a base: it knows no letters but those of the base 16. -/
def Spellable (b n : ℕ) : Prop := b ≤ 10 ∨ b = 16 ∨ ∀ d ∈ Nat.digits b n, d < 10

/-- A numeral is readable just when the number is spelled with digits that are. -/
lemma readable_numeral_iff (hb : 2 ≤ b) (n : ℕ) :
    Readable b (Radix.numeral b n) ↔ Spellable b n := by
  have hdigits : (∀ d ∈ Radix.numeral b n, d < 10) ↔ ∀ d ∈ Nat.digits b n, d < 10 := by
    rw [Radix.numeral]
    split_ifs with hn
    · simp [hn]
    · simp
  constructor
  · exact fun h => Or.inr (h.imp_right hdigits.mp)
  · intro h
    obtain h10 | h := h
    · exact Or.inr fun d hd => (Radix.numeral_lt hb hd).trans_le h10
    · exact h.imp_right hdigits.mpr

/-- **A signed number is read back** just when it is not the least one, and is spelled so. -/
lemma signedReadsBack_iff (hb : 2 ≤ b) (hb' : b ≤ 36) (x : Int32) :
    SignedReadsBack x b ↔ x.toInt ≠ -2 ^ 31 ∧ Spellable b x.toInt.natAbs := by
  have hlo : -2 ^ 31 ≤ x.toInt := x.le_toInt
  have hhi : x.toInt < 2 ^ 31 := x.toInt_lt
  rw [← readable_numeral_iff hb]
  constructor
  · rintro ⟨text, hprint, hread⟩
    have hx : x.toInt ≠ -2 ^ 31 := fun hx => printNum_smallest hb hb' (hx ▸ hprint)
    rw [printNum_eq hb hb' (lt_of_le_of_ne hlo hx.symm) hhi] at hprint
    obtain rfl := Except.ok.inj hprint
    exact ⟨hx, readable_of_strtol hb hb' (congrArg Prod.snd hread)⟩
  · rintro ⟨hx, h⟩
    exact ⟨signedText b x.toInt, printNum_eq hb hb' (lt_of_le_of_ne hlo hx.symm) hhi,
      strtol_signedText hb hb' hlo hhi h⟩

/-- `%u` prints an `int`. -/
lemma vsprintf_u (v : UInt32) : vsprintf [37, 117] [.word v] =
    (do let text ← printNum v.toInt32.toInt 10; return text ++ [0]) := by
  rw [vsprintf, if_pos rfl]
  dsimp only
  rw [if_neg (by decide), if_neg (by decide), if_pos (by decide), vaWord, ok_bind]
  rfl

/-- `%x` prints an unsigned number. -/
lemma vsprintf_x (v : UInt32) : vsprintf [37, 120] [.word v] =
    (do let text ← printNumUnsigned v.toNat 16; return text ++ [0]) := by
  rw [vsprintf, if_pos rfl]
  dsimp only
  rw [if_neg (by decide), if_neg (by decide), if_neg (by decide), if_pos (by decide), vaWord,
    ok_bind]
  rfl

/-- **An unsigned number is read back** just below `2 ^ 31`. -/
lemma unsignedReadsBack_iff (v : UInt32) : UnsignedReadsBack v ↔ v.toNat < 2 ^ 31 := by
  have hx : v.toInt32.toInt = int v.toNat := BitVec.toInt_eq_toNat_bmod _
  have hv : v.toNat < 2 ^ 32 := v.toNat_lt
  have hlo : -2 ^ 31 ≤ v.toInt32.toInt := Int32.le_toInt _
  have hhi : v.toInt32.toInt < 2 ^ 31 := Int32.toInt_lt _
  constructor
  · rintro ⟨text, hprint, hsign, -⟩
    rw [vsprintf_u, bind_eq_ok] at hprint
    obtain ⟨t, ht, hprint⟩ := hprint
    have hne : v.toInt32.toInt ≠ -2 ^ 31 := by
      intro h
      rw [h] at ht
      exact printNum_smallest (by norm_num) (by norm_num) ht
    have hnum := printNum_eq (b := 10) (by norm_num) (by norm_num) (lt_of_le_of_ne hlo hne.symm) hhi
    rw [Nat.cast_ofNat, ht] at hnum
    obtain rfl := List.append_cancel_right (Except.ok.inj hprint)
    by_contra hbig
    have hmod := int_emod v.toNat
    rw [← hx] at hmod
    have hneg : v.toInt32.toInt < 0 := by omega
    rw [Except.ok.inj hnum, signedText, if_pos hneg] at hsign
    exact hsign List.mem_cons_self
  · intro hsmall
    have hvalue : v.toInt32.toInt = v.toNat := by
      rw [hx]
      exact int_of_mem (by omega) (by rw [intMax]; omega)
    have hprint := printNum_eq (b := 10) (by norm_num) (by norm_num)
      (show -2 ^ 31 < (v.toNat : ℤ) by omega) (by exact_mod_cast hsmall)
    have hread := strtol_signedText (b := 10) (by norm_num) (by norm_num)
      (show -2 ^ 31 ≤ (v.toNat : ℤ) by omega) (by exact_mod_cast hsmall)
      ((readable_numeral_iff (by norm_num) _).mpr (Or.inl le_rfl))
    have htext : signedText 10 v.toNat = numeralText 10 v.toNat := if_neg (by omega)
    rw [Nat.cast_ofNat] at hprint hread
    refine ⟨signedText 10 v.toNat, ?_, ?_, ?_, ?_⟩
    · rw [vsprintf_u, hvalue, hprint]
      rfl
    · rw [htext]
      exact fun h => (numeralText_plain (by norm_num) (by norm_num) _ h).2.1 rfl
    · rw [hread]
    · rw [hread]
      dsimp only
      exact Int.emod_eq_of_lt (by omega) (by exact_mod_cast hv)

/-- **`%x` always reads back.** -/
lemma hexReadsBack (v : UInt32) : HexReadsBack v := by
  have hv : v.toNat < 2 ^ 32 := v.toNat_lt
  have hroom : (Radix.numeral 16 v.toNat).length ≤ printRoom :=
    (room_numeral (by norm_num) hv).trans (by rw [printRoom]; norm_num)
  have hprint : printNumUnsigned v.toNat 16 = .ok (numeralText 16 v.toNat) := by
    have h : printLoopUnsigned 16 printRoom v.toNat [] = .ok (numeralText 16 v.toNat ++ []) :=
      printLoopUnsigned_eq (by norm_num) (by norm_num) hroom
    rw [List.append_nil] at h
    exact h
  have hread : strtol (numeralText 16 v.toNat) 16 = (int v.toNat, []) := by
    have h := strtol_numeralText (b := 16) (n := v.toNat) (by norm_num) (by norm_num)
    rw [strtolDigits_numeralText (by norm_num) (Or.inl rfl)] at h
    exact h
  refine ⟨numeralText 16 v.toNat, ?_, ?_, ?_⟩
  · rw [vsprintf_x, hprint]
    rfl
  · rw [hread]
  · rw [hread, int_emod]
    exact Int.emod_eq_of_lt (by omega) (by exact_mod_cast hv)

/-- **What is printed reads back exactly where** the number is not the smallest and `strtol` knows
its digits, and an unsigned number is below `2 ^ 31`. -/
theorem printed_reads_back_iff (x : Int32) (v : UInt32) (hb : 2 ≤ b) (hb' : b ≤ 36) :
    (SignedReadsBack x b ∧ UnsignedReadsBack v ∧ HexReadsBack v) ↔
      (x.toInt ≠ -2 ^ 31 ∧ Spellable b x.toInt.natAbs) ∧ v.toNat < 2 ^ 31 := by
  rw [signedReadsBack_iff hb hb', unsignedReadsBack_iff]
  exact and_congr_right fun _ => and_iff_left (hexReadsBack v)

/-- In the base 16 every letter is known. -/
theorem printed_reads_back_255 :
    (SignedReadsBack 255 16 ∧ UnsignedReadsBack 255 ∧ HexReadsBack 255) :=
  (printed_reads_back_iff 255 255 (by norm_num) (by norm_num)).mpr
    ⟨⟨by decide, Or.inr (Or.inl rfl)⟩, by decide⟩

/-- `35` is printed as `z` in the base 36, where nothing is read; the smallest number asks for the
digit `-8`; and the largest unsigned number is printed as `-1`. -/
theorem printed_does_not_read_back :
    (printNum 35 36 = .ok [122] ∧ strtol [122] 36 = (0, [122]) ∧ ¬SignedReadsBack 35 36) ∧
      printNum (-2 ^ 31) 10 = .error (.tableIndex (-8)) ∧
      vsprintf [37, 117] [.word 0xffffffff] = .ok [45, 49, 0] := by
  have h35 : ¬SignedReadsBack 35 36 := by
    intro h
    have hs := ((signedReadsBack_iff (by norm_num) (by norm_num) 35).mp h).2
    have hnat : (35 : Int32).toInt.natAbs = 35 := by decide
    rw [Spellable, hnat] at hs
    norm_num at hs
  refine ⟨⟨by decide, by decide, h35⟩, ?_, ?_⟩
  · decide
  · decide

end RoundTrip

end MicroOS
