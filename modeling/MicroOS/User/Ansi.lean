import MicroOS.User.CalcLexer

/-!
Escape sequences of the terminal: `ansi_putchar` and `ansi_process` of `user/libc/buildin/ansi.c`.

* `ansiPutchar`: a character goes to the output, or to the buffer of a sequence;
* `ansiProcess`: the sequence in the buffer is parsed and run;
* `AnsiPiece`: texts, and sequences as the grammar has them;
* `ansi_sequences_parsed_iff`: **sequences are run with what they say exactly where their final
  letter is not taken for a digit of the last number**; the text around them is written in any case.
-/

namespace MicroOS

open Checked

/-! ### The terminal -/

/-- What `ansi_putchar` does: it writes a character, runs a sequence with its arguments, or reports
a malformed one. -/
inductive AnsiEvent where
  | write (c : UInt8)
  | run (f : UInt8) (args : List Int32)
  | malformed (c : UInt8)
  deriving DecidableEq

/-- Why it stops: an array is too short, or an assertion fails. -/
inductive AnsiFault where
  | overflow
  | asserted
  | outOfFuel
  deriving DecidableEq

/-- The static variables of `ansi_putchar`: `escBuf` has the bytes of `esc_buf`
below `esc_buf_idx`. -/
structure AnsiState where
  esc : Bool
  escBuf : List UInt8
  deriving DecidableEq

/-- Outside of a sequence. -/
def AnsiState.idle : AnsiState := ⟨false, []⟩

/-- The size of `esc_buf`, and the number of elements of `args`. -/
def ansiBufLen : ℕ := 32

/-- `isdigit` of the C library. -/
def libcIsDigit (c : UInt8) : Bool := 48 ≤ c ∧ c ≤ 57

/-- `__libc_parse_number`, which is the function of the calculator. -/
def libcParseNumber (input : List UInt8) : Int32 × List UInt8 := lexerParseNumber input

/-- The loop of `ansi_process`. Every turn but the last takes a number. -/
def ansiLoop : ℕ → List UInt8 → List Int32 → Except AnsiFault (List AnsiEvent)
  | 0, _, _ => .error .outOfFuel
  | fuel + 1, ansi, args =>
    let number := fun ansi =>
      if ansiBufLen ≤ args.length then .error .overflow
      else ansiLoop fuel (libcParseNumber ansi).2 (args ++ [(libcParseNumber ansi).1])
    match ansi with
    | [] => .ok []
    | c :: ansi =>
      if c = 59 then number ansi
      else if isLetter c then .ok [.run c args]
      else if c = 0 then .ok []
      else if !libcIsDigit c then .ok [.malformed c]
      else number (c :: ansi)

/-- `ansi_process`. -/
def ansiProcess (ansi : List UInt8) : Except AnsiFault (List AnsiEvent) :=
  match ansi with
  | 27 :: 91 :: ansi => ansiLoop (ansi.length + 1) ansi []
  | _ => .error .asserted

/-- `ansi_putchar`. -/
def ansiPutchar (s : AnsiState) (c : UInt8) : Except AnsiFault (AnsiState × List AnsiEvent) :=
  let esc := c = 27 || s.esc
  if !esc then .ok (s, [.write c])
  else if ansiBufLen ≤ s.escBuf.length then .error .overflow
  else
    let escBuf := s.escBuf ++ [c]
    if isLetter c then
      if ansiBufLen ≤ escBuf.length then .error .overflow
      else do
        let events ← ansiProcess escBuf
        return (.idle, events)
    else .ok (⟨true, escBuf⟩, [])

/-- Characters one after the other, with what is done. -/
def ansiFeed (s : AnsiState) : List UInt8 → Except AnsiFault (AnsiState × List AnsiEvent)
  | [] => .ok (s, [])
  | c :: text => do
      let (s, events) ← ansiPutchar s c
      let (s, events') ← ansiFeed s text
      return (s, events ++ events')

/-! ### The grammar -/

/-- A decimal number below `2 ^ 31` without leading zeros, as it is written. -/
structure DecimalNumber extends Numeral where
  decimal : base = .decimal
  no_leading_zero : digits[0]? = some 48 → digits = [48]

/-- Numbers with semicolons between them. -/
def argsText : List DecimalNumber → List UInt8
  | [] => []
  | [n] => n.digits
  | n :: m :: ns => n.digits ++ 59 :: argsText (m :: ns)

/-- What is fed to `ansi_putchar`: text without the escape character, or a sequence that fits its
buffer. -/
inductive AnsiPiece where
  | text (cs : List UInt8) (plain : 27 ∉ cs)
  | sequence (ns : List DecimalNumber) (f : UInt8) (letter : isLetter f = true)
      (short : (argsText ns).length + 3 < 31)

namespace AnsiPiece

/-- The characters of a piece. -/
def bytes : AnsiPiece → List UInt8
  | text cs _ => cs
  | sequence ns f _ _ => 27 :: 91 :: (argsText ns ++ [f])

/-- What the grammar says is done: text is written, and a sequence is run once, with its letter and
its arguments. -/
def meaning : AnsiPiece → List AnsiEvent
  | text cs _ => cs.map .write
  | sequence ns f _ _ => [.run f (ns.map fun n => Int32.ofNat n.value)]

/-- The text of a piece. -/
def written : AnsiPiece → List UInt8
  | text cs _ => cs
  | sequence _ _ _ _ => []

/-- The final letter of a sequence does not look like a digit of the last number: it is no
hexadecimal digit, and no `x` behind a zero. -/
def LetterEnds : AnsiPiece → Prop
  | text _ _ => True
  | sequence ns f _ _ => ns = [] ∨
      (digitValue f = none ∧ ¬ (f = 120 ∧ ∃ n, ns.getLast? = some n ∧ n.value = 0))

end AnsiPiece

/-- The character that an event writes. -/
def AnsiEvent.written : AnsiEvent → Option UInt8
  | write c => some c
  | _ => none

/-! ### Numbers -/

/-- A digit is no letter, and neither a semicolon nor the end of a string. -/
lemma digit_spec : ∀ c : UInt8, 48 ≤ c ∧ c ≤ 57 →
    isLetter c = false ∧ c ≠ 59 ∧ c ≠ 0 ∧ libcIsDigit c = true := by
  rintro ⟨c⟩
  revert c
  decide

/-- What stands in front of digits counts with their places. -/
lemma le_foldl_digits (digits : List UInt8) (k : ℕ) : k * 10 ^ digits.length ≤
    digits.foldl (fun n c => n * 10 + (digitValue c).getD 0) k := by
  induction digits generalizing k with
  | nil => exact (Nat.mul_one k).le
  | cons c digits ih =>
    refine le_trans ?_ (ih _)
    rw [List.length_cons, Nat.pow_succ', ← Nat.mul_assoc]
    exact Nat.mul_le_mul_right _ (Nat.le_add_right _ _)

namespace DecimalNumber

variable (n : DecimalNumber) {f : UInt8}

lemma text_eq : n.text = n.digits := by
  rw [Numeral.text, n.decimal]
  rfl

/-- The characters of a number are digits. -/
lemma isDigit_of_mem : ∀ c ∈ n.digits, 48 ≤ c ∧ c ≤ 57 := by
  intro c hc
  have hvalid := n.valid c hc
  rw [n.decimal] at hvalid
  exact digitValue_lt_ten hvalid

/-- Only `0` begins with a zero. -/
lemma digits_of_first {c : UInt8} {digits : List UInt8} (hdigits : n.digits = c :: digits)
    (h : (digitValue c).getD 0 = 0) : n.digits = [48] := by
  have hc := n.isDigit_of_mem c (hdigits ▸ List.mem_cons_self)
  rw [digitValue, if_pos hc, Option.getD_some] at h
  have h48 := UInt8.le_iff_toNat_le.mp hc.1
  have hzero : c = 48 := UInt8.toNat_inj.mp (Nat.le_antisymm (Nat.sub_eq_zero_iff_le.mp h) h48)
  refine n.no_leading_zero ?_
  rw [hdigits, hzero]
  rfl

/-- Only `0` is zero. -/
lemma digits_eq_of_value (h : n.value = 0) : n.digits = [48] := by
  obtain ⟨c, digits, hdigits⟩ := List.exists_cons_of_ne_nil n.ne_nil
  rw [Numeral.value, n.decimal, hdigits, digitsValue, List.foldl_cons] at h
  refine n.digits_of_first hdigits ?_
  by_contra hne
  have hlow := le_foldl_digits digits (0 * 10 + (digitValue c).getD 0)
  have hpos : 0 < (0 * 10 + (digitValue c).getD 0) * 10 ^ digits.length :=
    Nat.mul_pos (by omega) (by positivity)
  exact (hpos.trans_le hlow).ne' h

/-- It is zero just when it is written `0`. -/
lemma value_eq_zero_iff : n.value = 0 ↔ n.digits = [48] := by
  refine ⟨n.digits_eq_of_value, fun h => ?_⟩
  rw [Numeral.value, n.decimal, h]
  rfl

/-- A number is parsed up to a semicolon. -/
lemma parse_semicolon (rest : List UInt8) :
    libcParseNumber (n.digits ++ 59 :: rest) = (Int32.ofNat n.value, 59 :: rest) := by
  rw [libcParseNumber, ← n.text_eq]
  refine lexerParseNumber_text n.toNumeral fun c hc => ?_
  cases hc
  decide

/-- The second character of a number with a letter behind it. -/
lemma second_eq_letter {c : UInt8} (hc : isLetter c = true)
    (h : (n.digits ++ [f])[1]? = some c) : n.digits.length = 1 ∧ f = c := by
  have hlen : n.digits.length = 1 := by
    by_contra hlen
    have hlt : 1 < n.digits.length := by
      have hpos := List.length_pos_iff.mpr n.ne_nil
      omega
    rw [List.getElem?_append_left hlt] at h
    rw [(digit_spec c (n.isDigit_of_mem c (List.mem_of_getElem? h))).1] at hc
    cases hc
  rw [List.getElem?_append_right hlen.le, hlen] at h
  exact ⟨hlen, Option.some.inj h⟩

/-- A number with a letter behind it begins with a prefix exactly where it is zero. -/
lemma prefix_iff {c : UInt8} (hc : isLetter c = true) :
    ((n.digits ++ [f])[0]? = some 48 ∧ (n.digits ++ [f])[1]? = some c) ↔
      f = c ∧ n.value = 0 := by
  rw [n.value_eq_zero_iff]
  constructor
  · rintro ⟨h0, h1⟩
    obtain ⟨hlen, hf⟩ := n.second_eq_letter hc h1
    rw [List.getElem?_append_left (by omega)] at h0
    exact ⟨hf, n.no_leading_zero h0⟩
  · rintro ⟨rfl, hdigits⟩
    rw [hdigits]
    exact ⟨rfl, rfl⟩

/-- A number is parsed up to a letter that is not taken for one of its digits. -/
lemma parse_letter (hf : digitValue f = none) (hx : ¬ (f = 120 ∧ n.value = 0)) :
    libcParseNumber (n.digits ++ [f]) = (Int32.ofNat n.value, [f]) := by
  have hb : ¬ (f = 98 ∧ n.value = 0) := by
    rintro ⟨rfl, -⟩
    cases hf
  have hend : ∀ c, [f][0]? = some c → digitValue c = none := fun c hc => by
    cases hc
    exact hf
  have hloop := n.numberLoop_eq hend
  rw [n.decimal] at hloop
  rw [libcParseNumber, lexerParseNumber, if_neg (by rwa [n.prefix_iff (by decide)]),
    if_neg (by rwa [n.prefix_iff (by decide)])]
  exact hloop

/-- Digits up to the end of a text are all taken. -/
lemma numberLoop_all {base m : Int32} {digits : List UInt8}
    (h : ∀ c ∈ digits, digitValue c ≠ none) : (numberLoop base digits m).2 = [] := by
  induction digits generalizing m with
  | nil => rfl
  | cons c digits ih =>
    obtain ⟨d, hd⟩ := Option.ne_none_iff_exists'.mp (h c List.mem_cons_self)
    rw [numberLoop, hd]
    exact ih fun c hc => h c (List.mem_cons_of_mem _ hc)

/-- Another letter is lost. -/
lemma parse_lost (h : ¬ (digitValue f = none ∧ ¬ (f = 120 ∧ n.value = 0))) :
    (libcParseNumber (n.digits ++ [f])).2 = [] := by
  rw [libcParseNumber, lexerParseNumber]
  have hdrop : n.value = 0 → (n.digits ++ [f]).drop 2 = [] := fun h0 => by
    rw [n.digits_eq_of_value h0]
    rfl
  split_ifs with hx hb
  · rw [hdrop ((n.prefix_iff (by decide)).mp hx).2]
    rfl
  · rw [hdrop ((n.prefix_iff (by decide)).mp hb).2]
    rfl
  · rw [n.prefix_iff (by decide)] at hx
    have hf : digitValue f ≠ none := fun hf => h ⟨hf, hx⟩
    refine numberLoop_all (List.forall_mem_append.mpr ⟨fun c hc => ?_, ?_⟩)
    · obtain ⟨d, hd⟩ := n.digits_some c hc
      rw [hd]
      exact Option.some_ne_none d
    · exact List.forall_mem_singleton.mpr hf

end DecimalNumber

/-! ### Sequences -/

section Sequences

variable {ns : List DecimalNumber} {n : DecimalNumber} {f : UInt8} {args : List Int32} {fuel : ℕ}

/-- A turn of `ansi_process` that takes a number. -/
def ansiNumber (fuel : ℕ) (ansi : List UInt8) (args : List Int32) :
    Except AnsiFault (List AnsiEvent) :=
  if ansiBufLen ≤ args.length then .error .overflow
  else ansiLoop fuel (libcParseNumber ansi).2 (args ++ [(libcParseNumber ansi).1])

lemma ansiLoop_semicolon (fuel : ℕ) (ansi : List UInt8) (args : List Int32) :
    ansiLoop (fuel + 1) (59 :: ansi) args = ansiNumber fuel ansi args := rfl

/-- A letter at the end runs its command. -/
lemma ansiLoop_letter (fuel : ℕ) (hf : isLetter f = true) (args : List Int32) :
    ansiLoop (fuel + 1) [f] args = .ok [.run f args] := by
  have hne : f ≠ 59 := by
    rintro rfl
    cases hf
  rw [ansiLoop]
  dsimp only
  rw [if_neg hne, if_pos hf]

/-- A digit begins a number. -/
lemma ansiLoop_digit {c : UInt8} (hc : 48 ≤ c ∧ c ≤ 57) (fuel : ℕ) (ansi : List UInt8)
    (args : List Int32) :
    ansiLoop (fuel + 1) (c :: ansi) args = ansiNumber fuel (c :: ansi) args := by
  obtain ⟨hletter, h59, hzero, hdigit⟩ := digit_spec c hc
  rw [ansiLoop]
  dsimp only
  rw [if_neg h59, hletter, if_neg Bool.false_ne_true, if_neg hzero, hdigit]
  rfl

/-- The final letter is not taken for a digit of the last number. -/
def LastEnds (ns : List DecimalNumber) (f : UInt8) : Prop :=
  digitValue f = none ∧ ¬ (f = 120 ∧ ∃ n, ns.getLast? = some n ∧ n.value = 0)

/-- **Numbers are parsed**, and then the letter is run or it is lost. -/
lemma ansiNumber_args (hf : isLetter f = true) (hfuel : ns.length + 1 ≤ fuel)
    (hargs : args.length + (n :: ns).length ≤ ansiBufLen) :
    (LastEnds (n :: ns) f → ansiNumber fuel (argsText (n :: ns) ++ [f]) args =
      .ok [.run f (args ++ (n :: ns).map fun n => Int32.ofNat n.value)]) ∧
    (¬ LastEnds (n :: ns) f → ansiNumber fuel (argsText (n :: ns) ++ [f]) args = .ok []) := by
  obtain ⟨fuel, rfl⟩ : ∃ m, fuel = m + 1 := ⟨fuel - 1, by omega⟩
  have hroom : ¬ ansiBufLen ≤ args.length := by
    rw [List.length_cons] at hargs
    omega
  induction ns generalizing n args fuel with
  | nil =>
    have hlast : LastEnds [n] f ↔ digitValue f = none ∧ ¬ (f = 120 ∧ n.value = 0) := by
      rw [LastEnds, List.getLast?_singleton]
      simp only [Option.some.injEq, exists_eq_left']
    rw [hlast, argsText, ansiNumber, if_neg hroom]
    constructor
    · rintro ⟨hdigit, hx⟩
      rw [n.parse_letter hdigit hx]
      exact ansiLoop_letter fuel hf _
    · intro hlost
      rw [n.parse_lost hlost]
      rfl
  | cons m ns ih =>
    rw [List.length_cons] at hfuel
    rw [List.length_cons, List.length_cons] at hargs
    obtain ⟨fuel, rfl⟩ : ∃ k, fuel = k + 1 := ⟨fuel - 1, by omega⟩
    have hsucc : ansiNumber (fuel + 1 + 1) (argsText (n :: m :: ns) ++ [f]) args =
        ansiNumber (fuel + 1) (argsText (m :: ns) ++ [f]) (args ++ [Int32.ofNat n.value]) := by
      rw [argsText, List.append_assoc, List.cons_append, ansiNumber, if_neg hroom,
        n.parse_semicolon]
      exact ansiLoop_semicolon _ _ _
    have hlength : (args ++ [Int32.ofNat n.value]).length = args.length + 1 := by simp
    have hlast : LastEnds (n :: m :: ns) f ↔ LastEnds (m :: ns) f := by
      rw [LastEnds, LastEnds, List.getLast?_cons_cons]
    have hargs' : (args ++ [Int32.ofNat n.value]).length + (m :: ns).length ≤ ansiBufLen := by
      rw [hlength, List.length_cons]
      omega
    have hrest := ih hargs' fuel (by omega) (by rw [hlength]; omega)
    rw [hsucc, hlast, List.map_cons]
    rwa [List.append_assoc, List.singleton_append] at hrest

end Sequences

/-! ### The buffer -/

section Buffer

variable {ns : List DecimalNumber} {f c : UInt8} {s : AnsiState} {text text' : List UInt8}

/-- Feeding text in two parts. -/
lemma ansiFeed_append (s : AnsiState) (text text' : List UInt8) :
    ansiFeed s (text ++ text') = do
      let (s, events) ← ansiFeed s text
      let (s, events') ← ansiFeed s text'
      return (s, events ++ events') := by
  induction text generalizing s with
  | nil =>
    rw [List.nil_append, ansiFeed, ok_bind]
    dsimp only
    cases ansiFeed s text' <;> rfl
  | cons c text ih =>
    rw [List.cons_append, ansiFeed, ansiFeed]
    cases ansiPutchar s c with
    | error e => rfl
    | ok r =>
      rw [ok_bind, ok_bind]
      dsimp only
      rw [ih]
      cases ansiFeed r.1 text with
      | error e => rfl
      | ok r' =>
        simp only [ok_bind, pure_bind]
        cases ansiFeed r'.1 text' with
        | error e => rfl
        | ok r'' => exact congrArg Except.ok (Prod.ext rfl (List.append_assoc _ _ _).symm)

/-- Text outside of a sequence is written. -/
lemma ansiFeed_text (h : 27 ∉ text) : ansiFeed .idle text = .ok (.idle, text.map .write) := by
  induction text with
  | nil => rfl
  | cons c text ih =>
    rw [List.mem_cons, not_or] at h
    have hc : ansiPutchar .idle c = .ok (.idle, [.write c]) := by
      rw [ansiPutchar, decide_eq_false (Ne.symm h.1)]
      rfl
    rw [ansiFeed, hc, ok_bind]
    dsimp only
    rw [ih h.2]
    rfl

/-- Characters in a sequence that are no letters go to the buffer. -/
lemma ansiFeed_buffer {buf : List UInt8} (h : ∀ c ∈ text, isLetter c = false)
    (hlen : buf.length + text.length ≤ ansiBufLen) :
    ansiFeed ⟨true, buf⟩ text = .ok (⟨true, buf ++ text⟩, []) := by
  induction text generalizing buf with
  | nil =>
    rw [List.append_nil]
    rfl
  | cons c text ih =>
    rw [List.length_cons] at hlen
    have hc : ansiPutchar ⟨true, buf⟩ c = .ok (⟨true, buf ++ [c]⟩, []) := by
      rw [ansiPutchar]
      dsimp only
      rw [Bool.or_true, Bool.not_true, if_neg Bool.false_ne_true, if_neg (by omega),
        h c List.mem_cons_self, if_neg Bool.false_ne_true]
    have hlen' : (buf ++ [c]).length + text.length ≤ ansiBufLen := by
      rw [List.length_append, List.length_singleton]
      omega
    have hrest := ih (fun c hc => h c (List.mem_cons_of_mem _ hc)) hlen'
    rw [ansiFeed, hc, ok_bind]
    dsimp only
    rw [hrest, List.append_assoc, List.singleton_append]
    rfl

/-- A letter ends a sequence. -/
lemma ansiPutchar_letter {buf : List UInt8} (hc : isLetter c = true)
    (hlen : buf.length + 1 < ansiBufLen) : ansiPutchar ⟨true, buf⟩ c = do
      let events ← ansiProcess (buf ++ [c])
      return (.idle, events) := by
  have hlen' : ¬ ansiBufLen ≤ (buf ++ [c]).length := by
    rw [List.length_append, List.length_singleton]
    omega
  rw [ansiPutchar]
  dsimp only
  rw [Bool.or_true, Bool.not_true, if_neg Bool.false_ne_true, if_neg (by omega), if_pos hc,
    if_neg hlen']

/-- No character of numbers and semicolons is a letter. -/
lemma isLetter_argsText : ∀ c ∈ argsText ns, isLetter c = false := by
  have hdigits : ∀ (n : DecimalNumber), ∀ c ∈ n.digits, isLetter c = false :=
    fun n c hc => (digit_spec c (n.isDigit_of_mem c hc)).1
  induction ns using argsText.induct with
  | case1 => simp [argsText]
  | case2 n => exact hdigits n
  | case3 n m ns ih =>
    exact List.forall_mem_append.mpr ⟨hdigits n, List.forall_mem_cons.mpr ⟨rfl, ih⟩⟩

/-- There are no more numbers than characters. -/
lemma length_le_argsText (ns : List DecimalNumber) : ns.length ≤ (argsText ns).length := by
  induction ns using argsText.induct with
  | case1 => exact Nat.zero_le _
  | case2 n => exact List.length_pos_iff.mpr n.ne_nil
  | case3 n m ns ih =>
    simp only [argsText, List.length_append, List.length_cons] at ih ⊢
    omega

end Buffer

/-! ### Pieces -/

/-- Text is fed from outside of a sequence to outside of one: `written` is written, and no more is
done than `meaning` says, and that exactly where `parsed` holds. -/
structure Fed (text written : List UInt8) (meaning : List AnsiEvent) (parsed : Prop)
    (events : List AnsiEvent) : Prop where
  fed : ansiFeed .idle text = .ok (.idle, events)
  written_eq : events.filterMap AnsiEvent.written = written
  length_le : events.length ≤ meaning.length
  eq_iff : events = meaning ↔ parsed

/-- Text that is fed in two parts. -/
lemma Fed.append {text text' written written' : List UInt8}
    {meaning meaning' events events' : List AnsiEvent} {parsed parsed' : Prop}
    (h : Fed text written meaning parsed events)
    (h' : Fed text' written' meaning' parsed' events') :
    Fed (text ++ text') (written ++ written') (meaning ++ meaning') (parsed ∧ parsed')
      (events ++ events') := by
  constructor
  case fed =>
    rw [ansiFeed_append, h.fed, ok_bind]
    dsimp only
    rw [h'.fed]
    rfl
  case written_eq => rw [List.filterMap_append, h.written_eq, h'.written_eq]
  case length_le =>
    rw [List.length_append, List.length_append]
    exact Nat.add_le_add h.length_le h'.length_le
  case eq_iff =>
    rw [← h.eq_iff, ← h'.eq_iff]
    constructor
    · intro heq
      have hlen := congrArg List.length heq
      rw [List.length_append, List.length_append] at hlen
      have hle := h.length_le
      have hle' := h'.length_le
      exact List.append_inj heq (by omega)
    · rintro ⟨rfl, rfl⟩
      rfl

/-- A sequence is fed. -/
lemma fed_sequence (ns : List DecimalNumber) {f : UInt8} (hf : isLetter f = true)
    (hshort : (argsText ns).length + 3 < 31) :
    ∃ events, Fed (27 :: 91 :: (argsText ns ++ [f])) []
      [.run f (ns.map fun n => Int32.ofNat n.value)] (ns = [] ∨ LastEnds ns f) events := by
  -- the bytes up to the letter are kept, and the letter has them processed
  have hprocess : ∀ events, ansiLoop ((argsText ns ++ [f]).length + 1) (argsText ns ++ [f]) [] =
      .ok events → ansiFeed .idle (27 :: 91 :: (argsText ns ++ [f])) = .ok (.idle, events) := by
    intro events hloop
    have hbuffer : ansiFeed ⟨true, []⟩ (27 :: 91 :: argsText ns) =
        .ok (⟨true, [] ++ 27 :: 91 :: argsText ns⟩, []) := ansiFeed_buffer
      (List.forall_mem_cons.mpr ⟨rfl, List.forall_mem_cons.mpr ⟨rfl, isLetter_argsText⟩⟩)
      (by simp only [List.length_nil, List.length_cons, ansiBufLen]; omega)
    have hbegin : ∀ text, ansiFeed .idle (27 :: text) = ansiFeed ⟨true, []⟩ (27 :: text) :=
      fun text => rfl
    have hlen : (27 :: 91 :: argsText ns).length + 1 < ansiBufLen := by
      simp only [List.length_cons, ansiBufLen]
      omega
    have hletter := ansiPutchar_letter hf hlen
    rw [hbegin, ← List.cons_append, ← List.cons_append, ansiFeed_append, hbuffer, ok_bind]
    dsimp only
    rw [List.nil_append, ansiFeed, hletter]
    rw [List.cons_append, List.cons_append, ansiProcess]
    dsimp only
    rw [hloop]
    simp [ansiFeed]
  cases ns with
  | nil =>
    refine ⟨[.run f []], hprocess _ (ansiLoop_letter _ hf []), rfl, le_rfl, ?_⟩
    exact iff_of_true rfl (.inl rfl)
  | cons n ns =>
    have hnumbers := length_le_argsText (n :: ns)
    obtain ⟨c, digits, hdigits⟩ := List.exists_cons_of_ne_nil n.ne_nil
    -- an argument begins with a digit
    have hfirst : ∀ fuel, ansiLoop (fuel + 1) (argsText (n :: ns) ++ [f]) [] =
        ansiNumber fuel (argsText (n :: ns) ++ [f]) [] := by
      have hc := n.isDigit_of_mem c (hdigits ▸ List.mem_cons_self)
      intro fuel
      cases ns with
      | nil =>
        rw [argsText, hdigits]
        exact ansiLoop_digit hc fuel _ _
      | cons m ns =>
        rw [argsText, hdigits]
        exact ansiLoop_digit hc fuel _ _
    have hfuel : ns.length + 1 ≤ (argsText (n :: ns) ++ [f]).length := by
      rw [List.length_cons] at hnumbers
      rw [List.length_append, List.length_singleton]
      omega
    have hroom : ([] : List Int32).length + (n :: ns).length ≤ ansiBufLen := by
      rw [List.length_nil, ansiBufLen]
      omega
    have hargs := ansiNumber_args hf hfuel hroom
    rw [← hfirst] at hargs
    by_cases hlast : LastEnds (n :: ns) f
    · refine ⟨_, hprocess _ (hargs.1 hlast), rfl, le_rfl, ?_⟩
      exact iff_of_true rfl (.inr hlast)
    · refine ⟨[], hprocess _ (hargs.2 hlast), rfl, Nat.zero_le _, ?_⟩
      exact iff_of_false (by simp) (not_or.mpr ⟨by simp, hlast⟩)

namespace AnsiPiece

/-- A piece is fed. -/
lemma fed (p : AnsiPiece) : ∃ events, Fed p.bytes p.written p.meaning p.LetterEnds events := by
  cases p with
  | text cs plain =>
    refine ⟨cs.map .write, ansiFeed_text plain, ?_, le_rfl, iff_of_true rfl trivial⟩
    rw [List.filterMap_map]
    exact List.filterMap_some
  | sequence ns f letter short => exact fed_sequence ns letter short

/-- Pieces are fed one after the other. -/
lemma fed_all (pieces : List AnsiPiece) : ∃ events, Fed (pieces.flatMap bytes)
    (pieces.flatMap written) (pieces.flatMap meaning) (∀ p ∈ pieces, p.LetterEnds) events := by
  induction pieces with
  | nil => exact ⟨[], rfl, rfl, le_rfl, iff_of_true rfl (by simp)⟩
  | cons p pieces ih =>
    obtain ⟨events, h⟩ := p.fed
    obtain ⟨events', h'⟩ := ih
    have hboth := h.append h'
    rw [← List.forall_mem_cons] at hboth
    exact ⟨events ++ events', hboth⟩

end AnsiPiece

/-- **Sequences are run with what they say exactly where their final letters are not taken for
digits.** Text and sequences that are fed outside of a sequence do what the grammar says exactly
where no sequence with arguments ends in a hexadecimal digit, and none in `x` behind a zero. In any
case the terminal is outside of a sequence behind them, and the text has been written unchanged. -/
theorem ansi_sequences_parsed_iff (pieces : List AnsiPiece) :
    (ansiFeed .idle (pieces.flatMap AnsiPiece.bytes) =
        .ok (.idle, pieces.flatMap AnsiPiece.meaning) ↔ ∀ p ∈ pieces, p.LetterEnds) ∧
    ∃ events, ansiFeed .idle (pieces.flatMap AnsiPiece.bytes) = .ok (.idle, events) ∧
      events.filterMap AnsiEvent.written = pieces.flatMap AnsiPiece.written := by
  obtain ⟨events, h⟩ := AnsiPiece.fed_all pieces
  refine ⟨?_, events, h.fed, h.written_eq⟩
  rw [← h.eq_iff, h.fed]
  constructor
  · intro hsame
    cases hsame
    rfl
  · rintro rfl
    rfl

/-- The number 2. -/
def decimalTwo : DecimalNumber where
  base := .decimal
  digits := [50]
  ne_nil := List.cons_ne_nil _ _
  valid := List.forall_mem_singleton.mpr ⟨2, by decide, rfl⟩
  value_lt := by decide
  decimal := rfl
  no_leading_zero := by decide

/-- `ESC [ 2 c` is not run: its letter is taken for a digit. -/
theorem ansi_letter_lost :
    ¬ (∀ pieces : List AnsiPiece, ansiFeed .idle (pieces.flatMap AnsiPiece.bytes) =
      .ok (.idle, pieces.flatMap AnsiPiece.meaning)) ∧
    ansiFeed .idle [27, 91, 50, 99] = .ok (.idle, []) := by
  have hlost : ansiFeed .idle [27, 91, 50, 99] = .ok (.idle, []) := rfl
  refine ⟨fun hall => ?_, hlost⟩
  have hrun := hall [.sequence [decimalTwo] 99 (by decide) (by decide)]
  have hsame := hlost.symm.trans hrun
  simp [AnsiPiece.meaning] at hsame

end MicroOS
