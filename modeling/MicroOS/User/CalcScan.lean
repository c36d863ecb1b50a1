import MicroOS.User.NumberText

/-!
The index of the lexer: `lexer_tokenize` and `_lexer_parse_number` of `user/calc/lexer.c` with the
places that they read, and what the lexer makes of a token list that is printed.

* `tokenizeAt`: the function with its index, where a read outside of the string is an error;
* `tokenizeAt_eq`: **the index is where the text is that `lexerTokenize` has left**, so that both
  find the same tokens;
* `printToken`, `Printable`: how a token is written;
* `tokenizeAt_printed`: the lexer inverts printing.

A `dynamic_array_t` is a list, and every `malloc` returns.
-/

namespace MicroOS

open Checked

/-- Why the lexer stops. -/
inductive LexFault where
  | abort
  | outOfBounds
  | outOfFuel
  deriving DecidableEq

/-- `input[idx]`, with the zero at the end. -/
def charAt (input : List UInt8) (idx : ℤ) : Except LexFault UInt8 :=
  match (input ++ [0])[idx.toNat]? with
  | some c => if 0 ≤ idx then .ok c else .error .outOfBounds
  | none => .error .outOfBounds

/-- The loop of `_lexer_parse_number`, whose `input` begins at `start`. -/
def scanDigits (input : List UInt8) (start : ℤ) (base : Int32) :
    ℕ → ℤ → Int32 → Except LexFault (Int32 × ℤ)
  | 0, _, _ => .error .outOfFuel
  | fuel + 1, idx, n => do
      let c ← charAt input (start + idx)
      if c = 0 then return (n, idx)
      else
        match digitValue c with
        | some d => scanDigits input start base fuel (idx + 1) (n * base + Int32.ofNat d)
        | none => return (n, idx)

/-- The number system at `start`, and how many characters its sign has. -/
def numberSystem (input : List UInt8) (start : ℤ) : Except LexFault (Int32 × ℤ) := do
  if (← charAt input start) = 48 then
    let second ← charAt input (start + 1)
    if second = 120 then return (16, 2)
    else if second = 98 then return (2, 2)
    else return (10, 0)
  else return (10, 0)

/-- `_lexer_parse_number(token, &input[start])`: the number, and what is returned. -/
def parseNumberAt (fuel : ℕ) (input : List UInt8) (start : ℤ) :
    Except LexFault (Int32 × ℤ) := do
  let (base, idx) ← numberSystem input start
  let (number, idx) ← scanDigits input start base fuel idx 0
  return (number, idx - 1)

/-- The loop over the letters of an identifier. -/
def scanLetters (input : List UInt8) : ℕ → ℤ → Except LexFault ℤ
  | 0, _ => .error .outOfFuel
  | fuel + 1, idx => do
      let c ← charAt input idx
      if c ≠ 0 ∧ isLetter c = true then scanLetters input fuel (idx + 1) else return idx

/-- The characters from `start` up to `stop`, which `memcpy` takes. -/
def sliceOf (input : List UInt8) (start stop : ℤ) : List UInt8 :=
  ((input ++ [0]).drop start.toNat).take (stop - start).toNat

/-- The `switch` of `lexer_tokenize`: the index, and the tokens. -/
def tokenizeTurn (fuel : ℕ) (input : List UInt8) (current : UInt8) (idx : ℤ)
    (token : List LexerToken) : Except LexFault (ℤ × List LexerToken) :=
  if isBlank current then .ok (idx, token)
  else
    match punctuation current with
    | some t => .ok (idx, token ++ [t])
    | none =>
      if 48 ≤ current ∧ current ≤ 57 then do
        let (n, advance) ← parseNumberAt fuel input idx
        return (idx + advance, token ++ [.number n])
      else if isLetter current then do
        let stop ← scanLetters input fuel (idx + 1)
        return (stop - 1, token ++ [.id (sliceOf input idx stop)])
      else .error .abort

/-- The loop of `lexer_tokenize`: `do … while ((current = input[++idx]) != '\0')`. -/
def tokenizeLoop (input : List UInt8) :
    ℕ → UInt8 → ℤ → List LexerToken → Except LexFault (List LexerToken)
  | 0, _, _, _ => .error .outOfFuel
  | fuel + 1, current, idx, token => do
      let (idx, token) ← tokenizeTurn (input.length + 1) input current idx token
      let current ← charAt input (idx + 1)
      if current ≠ 0 then tokenizeLoop input fuel current (idx + 1) token else return token

/-- `lexer_tokenize`. -/
def tokenizeAt (input : List UInt8) : Except LexFault (List LexerToken) := do
  let current ← charAt input 0
  tokenizeLoop input (input.length + 1) current 0 []

/-! ### The index and the text that is left -/

section Index

variable {done rest : List UInt8} {c : UInt8} {fuel : ℕ} {idx start : ℤ}

/-- The character at an index is the first one of what is left. -/
lemma charAt_append (done rest : List UInt8) :
    charAt (done ++ rest) done.length = .ok (rest.headD 0) := by
  have hread : (done ++ rest ++ [0])[done.length]? = some (rest.headD 0) := by
    rw [List.append_assoc, List.getElem?_append_right le_rfl, Nat.sub_self]
    cases rest with
    | nil => rfl
    | cons c rest => rfl
  rw [charAt, Int.toNat_natCast, hread]
  exact if_pos (Int.natCast_nonneg _)

/-- The digits of a number: the index stands behind them. -/
lemma scanDigits_eq (base : Int32) (hrest : 0 ∉ rest) (hidx : start + idx = done.length)
    (hfuel : rest.length < fuel) (n : Int32) : ∃ mid,
      rest = mid ++ (numberLoop base rest n).2 ∧
      scanDigits (done ++ rest) start base fuel idx n =
        .ok ((numberLoop base rest n).1, idx + mid.length) := by
  induction rest generalizing done fuel idx n with
  | nil =>
    obtain ⟨k, rfl⟩ : ∃ k, fuel = k + 1 := ⟨fuel - 1, by omega⟩
    refine ⟨[], rfl, ?_⟩
    rw [scanDigits, hidx, charAt_append]
    simp [numberLoop, pure, Except.pure]
  | cons c rest ih =>
    obtain ⟨k, rfl⟩ : ∃ k, fuel = k + 1 := ⟨fuel - 1, by omega⟩
    have hc : c ≠ 0 := fun h => hrest (h ▸ List.mem_cons_self)
    rw [scanDigits, hidx, charAt_append, ok_bind, List.headD_cons, if_neg hc, numberLoop]
    cases hd : digitValue c with
    | none => exact ⟨[], rfl, by simp [pure, Except.pure]⟩
    | some d =>
      have hnext : start + (idx + 1) = ((done ++ [c]).length : ℤ) := by
        rw [List.length_append, List.length_singleton]
        push_cast
        omega
      obtain ⟨mid, hmid, hscan⟩ := ih (fun h => hrest (List.mem_cons_of_mem c h)) hnext
        (show rest.length < k by rw [List.length_cons] at hfuel; omega)
        (n * base + Int32.ofNat d)
      refine ⟨c :: mid, congrArg (c :: ·) hmid, ?_⟩
      rw [List.append_assoc, List.singleton_append] at hscan
      dsimp only
      rw [hscan, List.length_cons]
      congr 2
      push_cast
      ring

/-- The letters of an identifier: the index stands behind them. -/
lemma scanLetters_eq (hrest : 0 ∉ rest) (hidx : idx = done.length) (hfuel : rest.length < fuel) :
    scanLetters (done ++ rest) fuel idx = .ok (idx + (rest.takeWhile isLetter).length) := by
  induction rest generalizing done fuel idx with
  | nil =>
    obtain ⟨k, rfl⟩ : ∃ k, fuel = k + 1 := ⟨fuel - 1, by omega⟩
    rw [scanLetters, hidx, charAt_append]
    simp [pure, Except.pure]
  | cons c rest ih =>
    obtain ⟨k, rfl⟩ : ∃ k, fuel = k + 1 := ⟨fuel - 1, by omega⟩
    have hc : c ≠ 0 := fun h => hrest (h ▸ List.mem_cons_self)
    rw [scanLetters, hidx, charAt_append, ok_bind, List.headD_cons]
    cases hletter : isLetter c with
    | false =>
      rw [if_neg (by simp), List.takeWhile_cons_of_neg (by simp [hletter])]
      simp [pure, Except.pure]
    | true =>
      have hnext : (done.length : ℤ) + 1 = ((done ++ [c]).length : ℤ) := by simp
      have hscan := ih (fun h => hrest (List.mem_cons_of_mem c h)) hnext
        (show rest.length < k by rw [List.length_cons] at hfuel; omega)
      rw [List.append_assoc, List.singleton_append] at hscan
      rw [if_pos ⟨hc, rfl⟩, hscan, List.takeWhile_cons_of_pos hletter, List.length_cons]
      congr 1
      push_cast
      ring

/-- The digits behind the sign of a number system. -/
lemma scanDigits_sign (done sign : List UInt8) (base : Int32) (hrest : 0 ∉ rest)
    (hfuel : rest.length < fuel) : ∃ mid,
      rest = mid ++ (numberLoop base rest 0).2 ∧
      scanDigits (done ++ (sign ++ rest)) done.length base fuel sign.length 0 =
        .ok ((numberLoop base rest 0).1, (sign ++ mid).length) := by
  have hidx : (done.length : ℤ) + sign.length = ((done ++ sign).length : ℤ) := by simp
  obtain ⟨mid, hmid, hscan⟩ := scanDigits_eq base hrest hidx hfuel 0
  rw [List.append_assoc] at hscan
  refine ⟨mid, hmid, hscan.trans ?_⟩
  rw [List.length_append]
  push_cast
  rfl

variable (done) in
/-- A number: the returned index is that of its last character. -/
lemma parseNumberAt_eq (hrest : 0 ∉ c :: rest) (hfuel : (c :: rest).length < fuel) : ∃ mid,
    c :: rest = mid ++ (lexerParseNumber (c :: rest)).2 ∧
    parseNumberAt fuel (done ++ c :: rest) done.length =
      .ok ((lexerParseNumber (c :: rest)).1, mid.length - 1) := by
  have hfirst : charAt (done ++ c :: rest) done.length = .ok c := charAt_append done (c :: rest)
  have hsecond : charAt (done ++ c :: rest) (done.length + 1) = .ok (rest.headD 0) := by
    have h := charAt_append (done ++ [c]) rest
    rw [List.append_assoc, List.singleton_append, List.length_append, List.length_singleton] at h
    exact_mod_cast h
  -- the sign and its number system, as both functions find them
  obtain ⟨base, sign, digits, hsplit, hsystem, hparse⟩ : ∃ (base : Int32)
      (sign digits : List UInt8), c :: rest = sign ++ digits ∧
      numberSystem (done ++ c :: rest) done.length = .ok (base, (sign.length : ℤ)) ∧
      lexerParseNumber (c :: rest) = numberLoop base digits 0 := by
    rw [numberSystem, hfirst, ok_bind]
    by_cases hc : c = 48
    · rw [if_pos hc, hsecond, ok_bind]
      cases rest with
      | nil => exact ⟨10, [], [c], rfl, rfl, by rw [hc]; rfl⟩
      | cons d rest =>
        rw [List.headD_cons, hc]
        by_cases hx : d = 120
        · exact ⟨16, [48, 120], rest, by rw [hx]; rfl, by rw [hx]; rfl, by rw [hx]; rfl⟩
        · by_cases hb : d = 98
          · exact ⟨2, [48, 98], rest, by rw [hb]; rfl, by rw [hb]; rfl, by rw [hb]; rfl⟩
          · refine ⟨10, [], 48 :: d :: rest, rfl, by rw [if_neg hx, if_neg hb]; rfl, ?_⟩
            simp [lexerParseNumber, hx, hb]
    · refine ⟨10, [], c :: rest, rfl, by rw [if_neg hc]; rfl, ?_⟩
      simp [lexerParseNumber, hc]
  have hdigits : 0 ∉ digits := fun h => hrest (hsplit ▸ List.mem_append_right sign h)
  have hlen : digits.length < fuel := by
    rw [hsplit, List.length_append] at hfuel
    omega
  obtain ⟨mid, hmid, hscan⟩ := scanDigits_sign done sign base hdigits hlen
  refine ⟨sign ++ mid, by rw [hparse, List.append_assoc, ← hmid, hsplit], ?_⟩
  rw [← hsplit] at hscan
  rw [parseNumberAt, hsystem, ok_bind]
  dsimp only
  rw [hscan, ok_bind, hparse]
  rfl

variable (done) in
/-- An identifier: where it stops, and its characters. -/
lemma scanLetters_id (hrest : 0 ∉ c :: rest) (hfuel : (c :: rest).length < fuel) :
    ∃ stop : ℤ, stop = done.length + (c :: rest.takeWhile isLetter).length ∧
      scanLetters (done ++ c :: rest) fuel (done.length + 1) = .ok stop ∧
      sliceOf (done ++ c :: rest) done.length stop = c :: rest.takeWhile isLetter := by
  have hnext : (done.length : ℤ) + 1 = ((done ++ [c]).length : ℤ) := by simp
  have hscan := scanLetters_eq (fun h => hrest (List.mem_cons_of_mem c h)) hnext
    (show rest.length < fuel by rw [List.length_cons] at hfuel; omega)
  rw [List.append_assoc, List.singleton_append] at hscan
  refine ⟨_, rfl, ?_, ?_⟩
  · rw [hscan, List.length_cons]
    congr 1
    push_cast
    ring
  · have hlen : (done.length + ((c :: rest.takeWhile isLetter).length : ℤ) - done.length).toNat =
        (c :: rest.takeWhile isLetter).length := by
      rw [add_sub_cancel_left, Int.toNat_natCast]
    have hsplit : c :: rest ++ [0] =
        (c :: rest.takeWhile isLetter) ++ (rest.dropWhile isLetter ++ [0]) := by
      rw [List.cons_append, List.cons_append, ← List.append_assoc,
        List.takeWhile_append_dropWhile]
    rw [sliceOf, hlen, Int.toNat_natCast, List.append_assoc, List.drop_left, hsplit,
      List.take_left]

/-- The loop over digits only goes forward. -/
lemma numberLoop_length (base : Int32) (rest : List UInt8) (n : Int32) :
    (numberLoop base rest n).2.length ≤ rest.length := by
  induction rest generalizing n with
  | nil => exact le_rfl
  | cons c rest ih =>
    rw [numberLoop]
    cases digitValue c with
    | none => exact le_rfl
    | some d => exact (ih _).trans (Nat.le_succ _)

/-- A number takes at least its first digit. -/
lemma lexerParseNumber_length (hc : 48 ≤ c ∧ c ≤ 57) (rest : List UInt8) :
    (lexerParseNumber (c :: rest)).2.length ≤ rest.length := by
  have hdrop : ((c :: rest).drop 2).length ≤ rest.length := by simp
  rw [lexerParseNumber]
  split_ifs
  · exact (numberLoop_length _ _ _).trans hdrop
  · exact (numberLoop_length _ _ _).trans hdrop
  · rw [numberLoop, digitValue, if_pos hc]
    exact numberLoop_length _ _ _

variable (done) in
/-- **One turn**: it stops in both functions, or it takes `mid` off the text, and the index is that
of the last character of `mid`. -/
lemma tokenizeTurn_eq (hrest : 0 ∉ c :: rest) (hfuel : (c :: rest).length < fuel)
    (token : List LexerToken) :
    ((∀ k, lexerLoop (k + 1) (c :: rest) = .error .abort) ∧
      tokenizeTurn fuel (done ++ c :: rest) c done.length token = .error .abort) ∨
    ∃ mid rest' ts, c :: rest = mid ++ rest' ∧ rest'.length ≤ rest.length ∧
      (∀ k, lexerLoop (k + 1) (c :: rest) = (lexerLoop k rest').map (ts ++ ·)) ∧
      tokenizeTurn fuel (done ++ c :: rest) c done.length token =
        .ok (done.length + mid.length - 1, token ++ ts) := by
  -- a turn that takes one character
  have hone : ∀ ts, (∀ k, lexerLoop (k + 1) (c :: rest) = (lexerLoop k rest).map (ts ++ ·)) →
      tokenizeTurn fuel (done ++ c :: rest) c done.length token =
        .ok ((done.length : ℤ), token ++ ts) →
      ∃ mid rest' ts, c :: rest = mid ++ rest' ∧ rest'.length ≤ rest.length ∧
        (∀ k, lexerLoop (k + 1) (c :: rest) = (lexerLoop k rest').map (ts ++ ·)) ∧
        tokenizeTurn fuel (done ++ c :: rest) c done.length token =
          .ok (done.length + mid.length - 1, token ++ ts) :=
    fun ts hloop hturn => ⟨[c], rest, ts, rfl, le_rfl, hloop, by rw [hturn]; simp⟩
  by_cases hblank : isBlank c = true
  · refine .inr (hone [] (fun k => ?_) ?_)
    · rw [lexerLoop, if_pos hblank]
      cases lexerLoop k rest <;> rfl
    · rw [tokenizeTurn, if_pos hblank, List.append_nil]
  cases hpunct : punctuation c with
  | some t =>
    refine .inr (hone [t] (fun k => ?_) ?_)
    · rw [lexerLoop, if_neg hblank, hpunct]
      cases lexerLoop k rest <;> rfl
    · rw [tokenizeTurn, if_neg hblank, hpunct]
  | none =>
    by_cases hdigit : 48 ≤ c ∧ c ≤ 57
    · -- a number: the inner scanner stops where the list's does
      obtain ⟨mid, hmid, hparse⟩ := parseNumberAt_eq done hrest hfuel
      refine .inr ⟨mid, _, [.number (lexerParseNumber (c :: rest)).1], hmid,
        lexerParseNumber_length hdigit rest, fun k => ?_, ?_⟩
      · rw [lexerLoop, if_neg hblank, hpunct]
        dsimp only
        rw [if_pos hdigit]
        cases lexerLoop k (lexerParseNumber (c :: rest)).2 <;> rfl
      · rw [tokenizeTurn, if_neg hblank, hpunct]
        dsimp only
        rw [if_pos hdigit, hparse, ok_bind]
        dsimp only
        congr 2
        ring
    · by_cases hletter : isLetter c = true
      · -- a name: the letters up to the next other character
        obtain ⟨stop, hstop, hscan, hslice⟩ := scanLetters_id done hrest hfuel
        refine .inr ⟨c :: rest.takeWhile isLetter, rest.dropWhile isLetter,
          [.id (c :: rest.takeWhile isLetter)], ?_, (List.dropWhile_suffix _).length_le,
          fun k => ?_, ?_⟩
        · rw [List.cons_append, List.takeWhile_append_dropWhile]
        · rw [lexerLoop, if_neg hblank, hpunct]
          dsimp only
          rw [if_neg hdigit, if_pos hletter]
          cases lexerLoop k (rest.dropWhile isLetter) <;> rfl
        · rw [tokenizeTurn, if_neg hblank, hpunct]
          dsimp only
          rw [if_neg hdigit, if_pos hletter, hscan, ok_bind, hslice, hstop]
          rfl
      · -- no other character begins a token
        refine .inl ⟨fun k => ?_, ?_⟩
        · rw [lexerLoop, if_neg hblank, hpunct]
          dsimp only
          rw [if_neg hdigit, if_neg hletter]
        · rw [tokenizeTurn, if_neg hblank, hpunct]
          dsimp only
          rw [if_neg hdigit, if_neg hletter]

variable (done) in
/-- **The loop**: both functions find the same tokens, or both stop. -/
lemma tokenizeLoop_eq {input : List UInt8} (hinput : 0 ∉ input) (htext : input = done ++ c :: rest)
    (token : List LexerToken) {k : ℕ} (hfuel : rest.length < fuel) (hk : rest.length + 1 < k) :
    tokenizeLoop input fuel c done.length token =
      ((lexerLoop k (c :: rest)).map (token ++ ·)).mapError fun _ => .abort := by
  induction fuel generalizing done c rest token k with
  | zero => omega
  | succ fuel ih =>
    obtain ⟨k, rfl⟩ : ∃ j, k = j + 1 := ⟨k - 1, by omega⟩
    have hrest : 0 ∉ c :: rest := fun h => hinput (htext ▸ List.mem_append_right done h)
    have hlen : (c :: rest).length < input.length + 1 := by
      rw [htext, List.length_append]
      omega
    have hturn := tokenizeTurn_eq done hrest hlen token
    rw [← htext] at hturn
    rw [tokenizeLoop]
    rcases hturn with ⟨habort, hturn⟩ | ⟨mid, rest', ts, hmid, hle, hloop, hturn⟩
    · rw [hturn, habort k]
      rfl
    · have hdone : input = (done ++ mid) ++ rest' := by rw [htext, hmid, List.append_assoc]
      have hidx : (done.length : ℤ) + mid.length - 1 + 1 = ((done ++ mid).length : ℤ) := by
        simp
      have hread : charAt input (done.length + mid.length - 1 + 1) = .ok (rest'.headD 0) := by
        rw [hidx, hdone]
        exact charAt_append (done ++ mid) rest'
      rw [hturn, ok_bind, hloop k]
      dsimp only
      rw [hread, ok_bind]
      cases rest' with
      | nil =>
        obtain ⟨k, rfl⟩ : ∃ j, k = j + 1 := ⟨k - 1, by omega⟩
        simp [lexerLoop, Except.map, Except.mapError, pure, Except.pure]
      | cons d rest' =>
        have hd : d ≠ 0 := fun h => hinput (by rw [hdone, h]; simp)
        have hnext := ih (done ++ mid) hdone (token ++ ts) (k := k)
          (by rw [List.length_cons] at hle; omega) (by rw [List.length_cons] at hle; omega)
        rw [List.headD_cons, if_pos hd, hidx, hnext]
        cases lexerLoop k (d :: rest') with
        | error e => rfl
        | ok us => simp [Except.map, Except.mapError]

/-- **The index is where the text is that is left**: the function with its index and the one
without find the same tokens. -/
lemma tokenizeAt_eq {input : List UInt8} (hinput : 0 ∉ input) :
    tokenizeAt input = (lexerTokenize input).mapError fun _ => .abort := by
  cases input with
  | nil => rfl
  | cons c rest =>
    have hloop := tokenizeLoop_eq [] hinput rfl []
      (show rest.length < (c :: rest).length + 1 by simp)
      (show rest.length + 1 < (c :: rest).length + 1 by simp)
    have hfirst : charAt (c :: rest) 0 = .ok c := charAt_append [] (c :: rest)
    rw [tokenizeAt, hfirst, ok_bind]
    refine hloop.trans ?_
    change ((lexerLoop ((c :: rest).length + 1) (c :: rest)).map ([] ++ ·)).mapError _ =
      (lexerLoop ((c :: rest).length + 1) (c :: rest)).mapError _
    cases lexerLoop ((c :: rest).length + 1) (c :: rest) <;> rfl

end Index

/-! ### Printing -/

/-- How a token is written. -/
def printToken : LexerToken → List UInt8
  | .number value => numeralText 10 value.toInt.toNat
  | .plus => [43]
  | .minus => [45]
  | .multiply => [42]
  | .divide => [47]
  | .modulo => [37]
  | .lparen => [40]
  | .rparen => [41]
  | .comma => [44]
  | .id name => name

/-- A token that can be written: the number is not negative, the identifier is a word of letters. -/
def Printable : LexerToken → Prop
  | .number value => 0 ≤ value
  | .id name => name ≠ [] ∧ ∀ c ∈ name, isLetter c = true
  | _ => True

/-- Tokens with what stands before each of them, and what stands behind the last one. -/
def printAll (spaced : List (List UInt8 × LexerToken)) (tail : List UInt8) : List UInt8 :=
  spaced.foldr (fun x text => x.1 ++ (printToken x.2 ++ text)) tail

section Printing

variable {rest tail : List UInt8} {t : LexerToken} {spaced : List (List UInt8 × LexerToken)}
  {fuel n : ℕ}

/-- A letter is no blank, no punctuation and no digit. -/
lemma letter_cases : ∀ c : UInt8, isLetter c = true →
    isBlank c = false ∧ punctuation c = none ∧ ¬(48 ≤ c ∧ c ≤ 57) := by
  rintro ⟨c⟩
  revert c
  decide

/-- **A printed token is found**, where nothing behind it could belong to it. -/
lemma lexerLoop_printToken (ht : Printable t) (hrest : Delimited rest) :
    lexerLoop (fuel + 1) (printToken t ++ rest) = do return t :: (← lexerLoop fuel rest) := by
  cases t with
  | number value =>
    have hnonneg : 0 ≤ value.toInt := Int32.le_iff_toInt_le.mp ht
    have hlt : value.toInt.toNat < 2 ^ 31 := by
      have := value.toInt_lt
      omega
    have hvalue : Int32.ofNat value.toInt.toNat = value := by
      rw [← Int32.toInt_inj, Int32.toInt_ofNat_of_lt hlt, Int.toNat_of_nonneg hnonneg]
    have hloop : lexerLoop (fuel + 1) ((printedNumeral _ hlt).text ++ rest) = _ :=
      lexerLoop_text (.numeral (printedNumeral _ hlt)) fun _ => hrest
    have htoken : (Lexeme.numeral (printedNumeral _ hlt)).token = .number value := by
      rw [Lexeme.token, Numeral.value]
      exact congrArg LexerToken.number ((congrArg Int32.ofNat (digitsValue_numeralText _)).trans
        hvalue)
    rw [htoken] at hloop
    exact hloop
  | id name =>
    obtain ⟨c, name, rfl⟩ := List.exists_cons_of_ne_nil ht.1
    have hletters := fun a ha => ht.2 a (List.mem_cons_of_mem c ha)
    obtain ⟨hblank, hpunct, hdigit⟩ := letter_cases c (ht.2 c List.mem_cons_self)
    have htake : (name ++ rest).takeWhile isLetter = name := by
      rw [List.takeWhile_append_of_pos hletters, takeWhile_isLetter hrest, List.append_nil]
    have hdrop : (name ++ rest).dropWhile isLetter = rest := by
      rw [List.dropWhile_append_of_pos hletters, dropWhile_isLetter hrest]
    rw [printToken, List.cons_append, lexerLoop, hblank, if_neg Bool.false_ne_true, hpunct]
    dsimp only
    rw [if_neg hdigit, if_pos (ht.2 c List.mem_cons_self), htake, hdrop]
  | _ => rfl

/-- Blanks end a word, where there is one. -/
lemma delimited_of_blanks {blanks : List UInt8} (hne : blanks ≠ [])
    (hblanks : ∀ c ∈ blanks, isBlank c = true) : Delimited (blanks ++ rest) := by
  obtain ⟨d, blanks, rfl⟩ := List.exists_cons_of_ne_nil hne
  intro c hc
  obtain rfl : d = c := Option.some.inj hc
  exact blank_delimits d (hblanks d List.mem_cons_self)

/-- What follows a token. -/
lemma delimited_printAll (hgaps : ∀ x ∈ spaced, x.1 ≠ [])
    (hblanks : ∀ x ∈ spaced, ∀ c ∈ x.1, isBlank c = true)
    (htail : ∀ c ∈ tail, isBlank c = true) : Delimited (printAll spaced tail) := by
  cases spaced with
  | nil => exact fun c hc => blank_delimits c (htail c (List.mem_of_getElem? hc))
  | cons x spaced =>
    exact delimited_of_blanks (hgaps x List.mem_cons_self) (hblanks x List.mem_cons_self)

/-- A token is printed with a character at least. -/
lemma printToken_length_pos (ht : Printable t) : 0 < (printToken t).length := by
  cases t with
  | number value =>
    obtain ⟨c, p, h⟩ := numeralText_cons 10 value.toInt.toNat
    rw [printToken, h]
    exact Nat.succ_pos _
  | id name => exact List.length_pos_iff.mpr ht.1
  | _ => exact Nat.succ_pos 0

/-- **Every printed token is found.** -/
lemma lexerLoop_printAll (hprint : ∀ x ∈ spaced, Printable x.2)
    (hgaps : ∀ x ∈ spaced.tail, x.1 ≠ []) (hblanks : ∀ x ∈ spaced, ∀ c ∈ x.1, isBlank c = true)
    (htail : ∀ c ∈ tail, isBlank c = true) (hfuel : (printAll spaced tail).length < fuel) :
    lexerLoop fuel (printAll spaced tail) = .ok (spaced.map Prod.snd) := by
  induction spaced generalizing fuel with
  | nil =>
    rw [printAll, List.foldr_nil] at hfuel
    obtain ⟨k, rfl⟩ : ∃ k, fuel = k + 1 + tail.length := ⟨fuel - 1 - tail.length, by omega⟩
    have h : lexerLoop (k + 1 + tail.length) (tail ++ []) = lexerLoop (k + 1) [] :=
      lexerLoop_blanks htail
    rw [List.append_nil] at h
    exact h
  | cons x spaced ih =>
    have htext : printAll (x :: spaced) tail =
        x.1 ++ (printToken x.2 ++ printAll spaced tail) := rfl
    rw [htext, List.length_append, List.length_append] at hfuel
    have hpos := printToken_length_pos (hprint x List.mem_cons_self)
    obtain ⟨k, rfl⟩ : ∃ k, fuel = k + 1 + x.1.length := ⟨fuel - 1 - x.1.length, by omega⟩
    have hblanks' : ∀ y ∈ spaced, ∀ c ∈ y.1, isBlank c = true :=
      fun y hy => hblanks y (List.mem_cons_of_mem x hy)
    have hgaps' : ∀ y ∈ spaced, y.1 ≠ [] := hgaps
    rw [htext, lexerLoop_blanks (hblanks x List.mem_cons_self),
      lexerLoop_printToken (hprint x List.mem_cons_self)
        (delimited_printAll hgaps' hblanks' htail),
      ih (fun y hy => hprint y (List.mem_cons_of_mem x hy))
        (fun y hy => hgaps y (List.mem_of_mem_tail hy)) hblanks' (by omega)]
    rfl

/-- It is printed without zeros. -/
lemma zero_notMem_printToken (ht : Printable t) : 0 ∉ printToken t := by
  have hdigit : ∀ d < 10, digitChar d ≠ 0 := by decide
  cases t with
  | number value =>
    intro h
    obtain ⟨d, hd, h0⟩ := List.mem_map.mp h
    exact hdigit d (Radix.numeral_lt (by decide) hd) h0
  | id name => exact fun h => absurd (ht.2 0 h) (by decide)
  | _ => decide

/-- A printed text is a string. -/
lemma zero_notMem_printAll (hprint : ∀ x ∈ spaced, Printable x.2)
    (hblanks : ∀ x ∈ spaced, ∀ c ∈ x.1, isBlank c = true)
    (htail : ∀ c ∈ tail, isBlank c = true) : 0 ∉ printAll spaced tail := by
  have hblank : isBlank 0 = false := rfl
  induction spaced with
  | nil =>
    intro h
    rw [htail 0 h] at hblank
    exact Bool.noConfusion hblank
  | cons x spaced ih =>
    intro h
    have hcases : 0 ∈ x.1 ∨ 0 ∈ printToken x.2 ∨ 0 ∈ printAll spaced tail := by
      simpa [printAll] using h
    rcases hcases with h | h | h
    · rw [hblanks x List.mem_cons_self 0 h] at hblank
      exact Bool.noConfusion hblank
    · exact zero_notMem_printToken (hprint x List.mem_cons_self) h
    · exact ih (fun y hy => hprint y (List.mem_cons_of_mem x hy))
        (fun y hy => hblanks y (List.mem_cons_of_mem x hy)) h

variable (tail spaced) in
/-- **The lexer inverts printing**: tokens with blanks between them, and any blanks before and
behind, are found as they were written. -/
theorem tokenizeAt_printed (hne : spaced ≠ []) (hprint : ∀ x ∈ spaced, Printable x.2)
    (hblanks : ∀ x ∈ spaced, ∀ c ∈ x.1, isBlank c = true)
    (hgaps : ∀ x ∈ spaced.tail, x.1 ≠ []) (htail : ∀ c ∈ tail, isBlank c = true) :
    tokenizeAt (printAll spaced tail) = .ok (spaced.map Prod.snd) := by
  have hloop := lexerLoop_printAll hprint hgaps hblanks htail (Nat.lt_succ_self _)
  have hlex : lexerTokenize (printAll spaced tail) = .ok (spaced.map Prod.snd) := by
    rw [lexerTokenize]
    · exact hloop
    · intro hnil
      obtain ⟨x, spaced, rfl⟩ := List.exists_cons_of_ne_nil hne
      have hpos := printToken_length_pos (hprint x List.mem_cons_self)
      have hempty : printToken x.2 = [] := by
        have := List.append_eq_nil_iff.mp hnil
        exact (List.append_eq_nil_iff.mp this.2).1
      rw [hempty] at hpos
      exact lt_irrefl 0 hpos
  rw [tokenizeAt_eq (zero_notMem_printAll hprint hblanks htail), hlex]
  rfl

end Printing

/-- The text `12 * ab` with blanks around it. -/
theorem tokenizeAt_printed_product : tokenizeAt [32, 49, 50, 10, 42, 32, 9, 97, 98, 32] =
    .ok [.number 12, .multiply, .id [97, 98]] :=
  tokenizeAt_printed [32] [([32], .number 12), ([10], .multiply), ([32, 9], .id [97, 98])]
    (by simp) (by simp [Printable, isLetter]) (by simp [isBlank]) (by simp) (by simp [isBlank])

end MicroOS
