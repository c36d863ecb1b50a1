import MicroOS.Lib.Checked

/-!
The lexer of the calculator, `user/calc/lexer.c`.

* `lexerTokenize`: the tokens of a text, which is given by value without the zero at its end;
* `Lexeme`: numerals, the constant and the operators, as they are written;
* `lexerTokenize_spell`: lexemes with blanks between them are found, if no word touches another.

A `dynamic_array_t` is a list, and every `malloc` returns.
-/

namespace MicroOS

open Checked

/-- Why the calculator stops. -/
inductive CalcFault where
  | abort
  | nullDereference
  | divideError
  | outOfFuel
  deriving DecidableEq

/-! ### The lexer -/

/-- `lexer_token_t`. -/
inductive LexerToken where
  | number (value : Int32)
  | plus
  | minus
  | multiply
  | divide
  | modulo
  | lparen
  | rparen
  | comma
  | id (name : List UInt8)
  deriving DecidableEq

/-- The value of a character as a digit of any number system. -/
def digitValue (c : UInt8) : Option ℕ :=
  if 48 ≤ c ∧ c ≤ 57 then some (c.toNat - 48)
  else if 97 ≤ c ∧ c ≤ 102 then some (c.toNat - 97 + 10)
  else if 65 ≤ c ∧ c ≤ 70 then some (c.toNat - 65 + 10)
  else none

/-- The loop of `_lexer_parse_number`: the number, and what stands behind it. -/
def numberLoop (base : Int32) : List UInt8 → Int32 → Int32 × List UInt8
  | [], n => (n, [])
  | c :: input, n =>
    match digitValue c with
    | some d => numberLoop base input (n * base + Int32.ofNat d)
    | none => (n, c :: input)

/-- `_lexer_parse_number`. -/
def lexerParseNumber (input : List UInt8) : Int32 × List UInt8 :=
  if input[0]? = some 48 ∧ input[1]? = some 120 then numberLoop 16 (input.drop 2) 0
  else if input[0]? = some 48 ∧ input[1]? = some 98 then numberLoop 2 (input.drop 2) 0
  else numberLoop 10 input 0

/-- The tokens of one character. -/
def punctuation (c : UInt8) : Option LexerToken :=
  match c with
  | 43 => some .plus
  | 45 => some .minus
  | 42 => some .multiply
  | 47 => some .divide
  | 37 => some .modulo
  | 40 => some .lparen
  | 41 => some .rparen
  | 44 => some .comma
  | _ => none

/-- A space, a tab or a line break. -/
def isBlank (c : UInt8) : Bool := c = 32 ∨ c = 9 ∨ c = 10

/-- A letter. -/
def isLetter (c : UInt8) : Bool := (97 ≤ c ∧ c ≤ 122) ∨ (65 ≤ c ∧ c ≤ 90)

/-- The loop of `lexer_tokenize`. Every turn takes a character. -/
def lexerLoop : ℕ → List UInt8 → Except CalcFault (List LexerToken)
  | 0, _ => .error .outOfFuel
  | _ + 1, [] => .ok []
  | fuel + 1, c :: input =>
    if isBlank c then lexerLoop fuel input
    else
      match punctuation c with
      | some token => do return token :: (← lexerLoop fuel input)
      | none =>
        if 48 ≤ c ∧ c ≤ 57 then do
          return .number (lexerParseNumber (c :: input)).1 ::
            (← lexerLoop fuel (lexerParseNumber (c :: input)).2)
        else if isLetter c then do
          return .id (c :: input.takeWhile isLetter) ::
            (← lexerLoop fuel (input.dropWhile isLetter))
        else .error .abort

/-- `lexer_tokenize`. The zero of an empty text is an unknown token. -/
def lexerTokenize (input : List UInt8) : Except CalcFault (List LexerToken) :=
  match input with
  | [] => .error .abort
  | _ => lexerLoop (input.length + 1) input

/-! ### Lexemes -/

/-- The number systems. -/
inductive Base where
  | decimal
  | hexadecimal
  | binary
  deriving DecidableEq

/-- The base of a number system. -/
def Base.radix : Base → ℕ
  | decimal => 10
  | hexadecimal => 16
  | binary => 2

/-- What a numeral begins with. -/
def Base.sign : Base → List UInt8
  | decimal => []
  | hexadecimal => [48, 120]
  | binary => [48, 98]

/-- The number that digits stand for. -/
def digitsValue (radix : ℕ) (digits : List UInt8) : ℕ :=
  digits.foldl (fun n c => n * radix + (digitValue c).getD 0) 0

/-- A numeral of a number below `2 ^ 31`. -/
structure Numeral where
  base : Base
  digits : List UInt8
  ne_nil : digits ≠ []
  valid : ∀ c ∈ digits, ∃ d < base.radix, digitValue c = some d
  value_lt : digitsValue base.radix digits < 2 ^ 31

namespace Numeral

/-- How a numeral is written. -/
def text (n : Numeral) : List UInt8 := n.base.sign ++ n.digits

/-- The number that a numeral stands for. -/
def value (n : Numeral) : ℕ := digitsValue n.base.radix n.digits

end Numeral

/-- What an expression is written with. -/
inductive Lexeme where
  | numeral (n : Numeral)
  | test
  | plus
  | minus
  | multiply
  | divide
  | modulo
  | lparen
  | rparen

namespace Lexeme

/-- How a lexeme is written. -/
def text : Lexeme → List UInt8
  | numeral n => n.text
  | test => [116, 101, 115, 116]
  | plus => [43]
  | minus => [45]
  | multiply => [42]
  | divide => [47]
  | modulo => [37]
  | lparen => [40]
  | rparen => [41]

/-- The token that a lexeme should be. -/
def token : Lexeme → LexerToken
  | numeral n => .number (Int32.ofNat n.value)
  | test => .id [116, 101, 115, 116]
  | plus => .plus
  | minus => .minus
  | multiply => .multiply
  | divide => .divide
  | modulo => .modulo
  | lparen => .lparen
  | rparen => .rparen

/-- Numerals and names, which end only where something else begins. -/
def isWord : Lexeme → Bool
  | numeral _ | test => true
  | _ => false

end Lexeme

/-- Lexemes with what stands before each of them, and what stands behind the last one. -/
def spell (spaced : List (List UInt8 × Lexeme)) (tail : List UInt8) : List UInt8 :=
  spaced.foldr (fun x text => x.1 ++ (x.2.text ++ text)) tail

/-- What can follow a word. -/
def Delimited (input : List UInt8) : Prop :=
  ∀ c, input[0]? = some c → digitValue c = none ∧ isLetter c = false

/-! ### Numerals -/

section Numerals

variable {base : Int32} {digits rest : List UInt8} {c : UInt8}

/-- **The loop over digits** ends in front of the first other character. -/
lemma numberLoop_digits (hdigits : ∀ c ∈ digits, ∃ d, digitValue c = some d)
    (hrest : ∀ c, rest[0]? = some c → digitValue c = none) (n : Int32) :
    numberLoop base (digits ++ rest) n =
      (digits.foldl (fun n c => n * base + Int32.ofNat ((digitValue c).getD 0)) n, rest) := by
  induction digits generalizing n with
  | nil =>
    cases rest with
    | nil => rfl
    | cons c rest =>
      rw [List.nil_append, numberLoop, hrest c rfl]
      rfl
  | cons c digits ih =>
    obtain ⟨d, hd⟩ := hdigits c List.mem_cons_self
    rw [List.cons_append, numberLoop, hd, List.foldl_cons, hd]
    exact ih (fun c hc => hdigits c (List.mem_cons_of_mem _ hc)) _

/-- In 32 bits the digits give the number that they stand for. -/
lemma foldl_digits (radix n : ℕ) (digits : List UInt8) :
    digits.foldl (fun n c => n * Int32.ofNat radix + Int32.ofNat ((digitValue c).getD 0))
        (Int32.ofNat n) =
      Int32.ofNat (digits.foldl (fun n c => n * radix + (digitValue c).getD 0) n) := by
  induction digits generalizing n with
  | nil => rfl
  | cons c digits ih =>
    rw [List.foldl_cons, List.foldl_cons, ← ih, Int32.ofNat_add, Int32.ofNat_mul]

/-- A character with a value below ten is a decimal digit. -/
lemma digitValue_lt_ten (h : ∃ d < 10, digitValue c = some d) : 48 ≤ c ∧ c ≤ 57 := by
  obtain ⟨d, hd, hc⟩ := h
  rw [digitValue] at hc
  split_ifs at hc with h09 haf hAF
  · exact h09
  · obtain rfl := Option.some.inj hc
    omega
  · obtain rfl := Option.some.inj hc
    omega

lemma Numeral.digits_some (n : Numeral) : ∀ c ∈ n.digits, ∃ d, digitValue c = some d :=
  fun c hc => let ⟨d, _, hd⟩ := n.valid c hc; ⟨d, hd⟩

/-- The digits of a numeral give its number. -/
lemma Numeral.numberLoop_eq (n : Numeral)
    (hrest : ∀ c, rest[0]? = some c → digitValue c = none) :
    numberLoop (Int32.ofNat n.base.radix) (n.digits ++ rest) 0 =
      (Int32.ofNat n.value, rest) :=
  calc numberLoop (Int32.ofNat n.base.radix) (n.digits ++ rest) 0
    _ = (n.digits.foldl (fun m c => m * Int32.ofNat n.base.radix +
          Int32.ofNat ((digitValue c).getD 0)) (Int32.ofNat 0), rest) :=
        numberLoop_digits n.digits_some hrest _
    _ = (Int32.ofNat n.value, rest) := by
        rw [foldl_digits]
        rfl

/-- No letter that is not a digit stands second in a decimal numeral or right behind it. -/
lemma Numeral.second_ne (n : Numeral) (hbase : n.base = .decimal) (hrest : Delimited rest)
    (hc : isLetter c = true) (hc₁₀ : ¬∃ d < 10, digitValue c = some d) :
    (n.digits ++ rest)[1]? ≠ some c := by
  intro h
  by_cases hlt : 1 < n.digits.length
  · rw [List.getElem?_append_left hlt] at h
    have hvalid := n.valid c (List.mem_of_getElem? h)
    rw [hbase] at hvalid
    exact hc₁₀ hvalid
  · have hlen : n.digits.length = 1 :=
      Nat.le_antisymm (Nat.le_of_not_lt hlt) (List.length_pos_iff.mpr n.ne_nil)
    rw [List.getElem?_append_right hlen.le, hlen] at h
    rw [(hrest c h).2] at hc
    exact Bool.noConfusion hc

/-- **A numeral is read.** -/
lemma lexerParseNumber_text (n : Numeral) (hrest : Delimited rest) :
    lexerParseNumber (n.text ++ rest) = (Int32.ofNat n.value, rest) := by
  have h := n.numberLoop_eq fun c hc => (hrest c hc).1
  rw [Numeral.text, lexerParseNumber]
  cases hbase : n.base with
  | decimal =>
    rw [hbase] at h
    have hx : (n.digits ++ rest)[1]? ≠ some 120 := n.second_ne hbase hrest rfl (by decide)
    have hb : (n.digits ++ rest)[1]? ≠ some 98 := n.second_ne hbase hrest rfl (by decide)
    rw [Base.sign, List.nil_append, if_neg fun h => hx h.2, if_neg fun h => hb h.2]
    exact h
  | hexadecimal =>
    rw [hbase] at h
    exact h
  | binary =>
    rw [hbase] at h
    exact h

/-- A numeral begins with a decimal digit. -/
lemma Numeral.text_eq_cons (n : Numeral) :
    ∃ c text, n.text = c :: text ∧ 48 ≤ c ∧ c ≤ 57 := by
  rw [Numeral.text]
  cases hbase : n.base with
  | decimal =>
    obtain ⟨c, digits, hdigits⟩ := List.exists_cons_of_ne_nil n.ne_nil
    have hvalid := n.valid c (hdigits ▸ List.mem_cons_self)
    rw [hbase] at hvalid
    exact ⟨c, digits, hdigits, digitValue_lt_ten hvalid⟩
  | hexadecimal => exact ⟨48, 120 :: n.digits, rfl, by decide⟩
  | binary => exact ⟨48, 98 :: n.digits, rfl, by decide⟩

end Numerals

/-! ### Spelled lexemes -/

section Spelled

variable {rest : List UInt8} {fuel : ℕ}

/-- A decimal digit is nothing else. -/
lemma digit_cases : ∀ c : UInt8, 48 ≤ c ∧ c ≤ 57 → isBlank c = false ∧ punctuation c = none := by
  rintro ⟨c⟩
  revert c
  decide

/-- Blanks are passed over. -/
lemma lexerLoop_blanks {blanks : List UInt8} (hblanks : ∀ c ∈ blanks, isBlank c = true) :
    lexerLoop (fuel + blanks.length) (blanks ++ rest) = lexerLoop fuel rest := by
  induction blanks with
  | nil => rfl
  | cons c blanks ih =>
    rw [List.length_cons, ← Nat.add_assoc, List.cons_append, lexerLoop,
      if_pos (hblanks c List.mem_cons_self)]
    exact ih fun c hc => hblanks c (List.mem_cons_of_mem _ hc)

/-- A text that begins with no letter has no word in front. -/
lemma takeWhile_isLetter (hrest : Delimited rest) : rest.takeWhile isLetter = [] := by
  cases rest with
  | nil => rfl
  | cons c rest => rw [List.takeWhile_cons, (hrest c rfl).2]; rfl

/-- So nothing is skipped. -/
lemma dropWhile_isLetter (hrest : Delimited rest) : rest.dropWhile isLetter = rest := by
  cases rest with
  | nil => rfl
  | cons c rest => rw [List.dropWhile_cons, (hrest c rfl).2]; rfl

/-- **A lexeme is found**, where nothing behind it could belong to it. -/
lemma lexerLoop_text (x : Lexeme) (hrest : x.isWord = true → Delimited rest) :
    lexerLoop (fuel + 1) (x.text ++ rest) = do return x.token :: (← lexerLoop fuel rest) := by
  cases x with
  | numeral n =>
    obtain ⟨c, text, htext, hc⟩ := n.text_eq_cons
    have hnumber := lexerParseNumber_text n (hrest rfl)
    rw [Lexeme.text, Lexeme.token]
    rw [htext, List.cons_append] at hnumber ⊢
    rw [lexerLoop, (digit_cases c hc).1, if_neg Bool.false_ne_true, (digit_cases c hc).2]
    dsimp only
    rw [if_pos hc, hnumber]
  | test =>
    have hletters : ∀ c ∈ ([101, 115, 116] : List UInt8), isLetter c = true :=
      List.all_eq_true.mp rfl
    have htake : ([101, 115, 116] ++ rest).takeWhile isLetter = [101, 115, 116] := by
      rw [List.takeWhile_append_of_pos hletters, takeWhile_isLetter (hrest rfl),
        List.append_nil]
    have hdrop : ([101, 115, 116] ++ rest).dropWhile isLetter = rest := by
      rw [List.dropWhile_append_of_pos hletters, dropWhile_isLetter (hrest rfl)]
    change (do return LexerToken.id (116 :: List.takeWhile isLetter ([101, 115, 116] ++ rest)) ::
      (← lexerLoop fuel (List.dropWhile isLetter ([101, 115, 116] ++ rest)))) = _
    rw [htake, hdrop, Lexeme.token]
  | _ => rfl

/-- No word touches another. -/
def Apart (x y : Lexeme) : Prop := ¬(x.isWord = true ∧ y.isWord = true)

/-- A blank is neither a digit nor a letter. -/
lemma blank_delimits : ∀ c : UInt8, isBlank c = true →
    digitValue c = none ∧ isLetter c = false := by
  rintro ⟨c⟩
  revert c
  decide

/-- Blanks end a word, and so does what ends it behind them. -/
lemma Delimited.of_blanks {blanks : List UInt8} (hblanks : ∀ c ∈ blanks, isBlank c = true)
    (hrest : Delimited rest) : Delimited (blanks ++ rest) := by
  intro c hc
  cases blanks with
  | nil => exact hrest c hc
  | cons d blanks =>
    obtain rfl : d = c := Option.some.inj hc
    exact blank_delimits d (hblanks d List.mem_cons_self)

/-- A lexeme that is no word ends one. -/
lemma Delimited.of_text {x : Lexeme} (hx : x.isWord = false) : Delimited (x.text ++ rest) := by
  intro c hc
  cases x with
  | numeral n => exact Bool.noConfusion hx
  | test => exact Bool.noConfusion hx
  | _ =>
    obtain rfl := Option.some.inj hc
    decide

/-- A lexeme has a character. -/
lemma Lexeme.text_length_pos (x : Lexeme) : 0 < x.text.length := by
  cases x with
  | numeral n =>
    obtain ⟨c, text, htext, -⟩ := n.text_eq_cons
    rw [Lexeme.text, htext]
    exact Nat.succ_pos _
  | _ => exact Nat.succ_pos _

variable {spaced : List (List UInt8 × Lexeme)} {tail : List UInt8}

lemma spell_cons (x : List UInt8 × Lexeme) :
    spell (x :: spaced) tail = x.1 ++ (x.2.text ++ spell spaced tail) := rfl

/-- What follows a word in a spelling. -/
lemma delimited_spell {x : Lexeme} (hx : x.isWord = true)
    (hapart : (x :: spaced.map Prod.snd).IsChain Apart)
    (hblanks : ∀ y ∈ spaced, ∀ c ∈ y.1, isBlank c = true)
    (htail : ∀ c ∈ tail, isBlank c = true) : Delimited (spell spaced tail) := by
  cases spaced with
  | nil => exact fun c hc => blank_delimits c (htail c (List.mem_of_getElem? hc))
  | cons y spaced =>
    rw [List.map_cons, List.isChain_cons_cons] at hapart
    have hy : y.2.isWord = false := by
      rw [← Bool.not_eq_true]
      exact fun hy => hapart.1 ⟨hx, hy⟩
    exact (Delimited.of_text hy).of_blanks (hblanks y List.mem_cons_self)

/-- **Every lexeme of a spelling is found.** -/
lemma lexerLoop_spell (hapart : (spaced.map Prod.snd).IsChain Apart)
    (hblanks : ∀ x ∈ spaced, ∀ c ∈ x.1, isBlank c = true)
    (htail : ∀ c ∈ tail, isBlank c = true) (hfuel : (spell spaced tail).length < fuel) :
    lexerLoop fuel (spell spaced tail) = .ok (spaced.map fun x => x.2.token) := by
  induction spaced generalizing fuel with
  | nil =>
    obtain ⟨k, rfl⟩ : ∃ k, fuel = k + 1 + tail.length :=
      ⟨fuel - 1 - tail.length, by rw [spell, List.foldr_nil] at hfuel; omega⟩
    have h : lexerLoop (k + 1 + tail.length) (tail ++ []) = lexerLoop (k + 1) [] :=
      lexerLoop_blanks htail
    rw [List.append_nil] at h
    exact h
  | cons x spaced ih =>
    rw [spell_cons, List.length_append, List.length_append] at hfuel
    have hpos := x.2.text_length_pos
    obtain ⟨k, rfl⟩ : ∃ k, fuel = k + 1 + x.1.length := ⟨fuel - 1 - x.1.length, by omega⟩
    have hblanks' : ∀ y ∈ spaced, ∀ c ∈ y.1, isBlank c = true :=
      fun y hy => hblanks y (List.mem_cons_of_mem x hy)
    rw [spell_cons, lexerLoop_blanks (hblanks x List.mem_cons_self),
      lexerLoop_text x.2 fun hx => delimited_spell hx hapart hblanks' htail,
      ih hapart.tail hblanks' (by omega)]
    rfl

/-- **A spelling is taken apart into its lexemes.** -/
theorem lexerTokenize_spell (hne : spaced ≠ []) (hapart : (spaced.map Prod.snd).IsChain Apart)
    (hblanks : ∀ x ∈ spaced, ∀ c ∈ x.1, isBlank c = true)
    (htail : ∀ c ∈ tail, isBlank c = true) :
    lexerTokenize (spell spaced tail) = .ok (spaced.map fun x => x.2.token) := by
  have h := lexerLoop_spell hapart hblanks htail (Nat.lt_succ_self _)
  rw [lexerTokenize]
  · exact h
  · intro hnil
    obtain ⟨x, spaced, rfl⟩ := List.exists_cons_of_ne_nil hne
    rw [spell_cons, List.append_eq_nil_iff, List.append_eq_nil_iff] at hnil
    have hpos := x.2.text_length_pos
    rw [hnil.2.1] at hpos
    exact lt_irrefl 0 hpos

end Spelled

end MicroOS
