import Mathlib.Data.List.DropRight
import Mathlib.Tactic

/-!
Quotes in the commands of the terminal: `get_command_type`, `argv_split` and `is_quote_open` of
`user/terminal/argv_tools.c`, which each go over a command with the same three flags.

* `commandStep`, `splitStep`, `isQuoteOpenStep`: a turn of each of them;
* `getCommandType`, `isQuoteOpen`;
* `quotingOf`: where a text leaves the quotes, if a backslash counts for the character behind it;
* `quotes_agree_iff`: **they agree exactly where no quote has a backslash before it that only one of
  them still knows of**.

Commands are given by value, without the zero at their end.
-/

namespace MicroOS

/-! ### The flags -/

/-- The flags of the scanners: `quote_open` is about the character `"`, `double_quote_open` about
the character `'`. -/
structure QuoteFlags where
  quoteOpen : Bool
  doubleQuoteOpen : Bool
  specialCharNext : Bool
  deriving DecidableEq

/-- All flags are `false` first. -/
def QuoteFlags.closed : QuoteFlags := ⟨false, false, false⟩

/-- The branches that the scanners share, with what is done at any other character. -/
def scanStep (other : QuoteFlags → QuoteFlags) (f : QuoteFlags) (c : UInt8) : QuoteFlags :=
  if c = 92 then { f with specialCharNext := true }
  else if c = 34 then
    if f.specialCharNext || f.doubleQuoteOpen then { f with specialCharNext := false }
    else { f with quoteOpen := !f.quoteOpen }
  else if c = 39 then
    if f.specialCharNext || f.quoteOpen then { f with specialCharNext := false }
    else { f with doubleQuoteOpen := !f.doubleQuoteOpen }
  else other f

/-- A turn of `get_command_type` that does not return: any other character clears the flag of the
backslash. -/
def commandStep (f : QuoteFlags) (c : UInt8) : QuoteFlags :=
  scanStep (fun f => { f with specialCharNext := false }) f c

/-- A turn of `argv_split`. -/
def splitStep (f : QuoteFlags) (c : UInt8) : QuoteFlags :=
  if c = 32 then f else scanStep id f c

/-- A turn of `is_quote_open`. -/
def isQuoteOpenStep (f : QuoteFlags) (c : UInt8) : QuoteFlags := scanStep id f c

/-- The flags of `get_command_type` behind a text. -/
def commandFlags (text : List UInt8) : QuoteFlags := text.foldl commandStep .closed

/-- The flags of `argv_split` behind a text, in both of its passes. -/
def splitFlags (text : List UInt8) : QuoteFlags := text.foldl splitStep .closed

/-- `is_quote_open`. -/
def isQuoteOpen (command : List UInt8) : Bool :=
  let f := command.foldl isQuoteOpenStep .closed
  f.doubleQuoteOpen || f.quoteOpen

/-! ### Operators -/

/-- What `get_command_type` returns. -/
inductive CommandType where
  | normal
  | pipeProc
  | pipeFile
  | pipeFileAppend
  | andRun
  deriving DecidableEq

/-- The characters `|`, `>` and `&`. -/
def isOperator (c : UInt8) : Bool := c = 124 ∨ c = 62 ∨ c = 38

/-- Nothing keeps an operator from being one. -/
def QuoteFlags.free (f : QuoteFlags) : Bool :=
  !(f.quoteOpen || f.doubleQuoteOpen || f.specialCharNext)

/-- The loop of `get_command_type` from the index `i` on: the type, `token_pos` and
`double_pipe_symbol`. -/
def getCommandLoop : QuoteFlags → ℕ → List UInt8 → CommandType × ℕ × Bool
  | _, _, [] => (.normal, 0, false)
  | f, i, c :: command =>
    if c = 124 ∧ f.free then (.pipeProc, i, false)
    else if c = 62 ∧ f.free then
      if command.head? = some 62 then (.pipeFileAppend, i + 1, true) else (.pipeFile, i, false)
    else if c = 38 ∧ f.free then (.andRun, i, false)
    else getCommandLoop (commandStep f c) (i + 1) command

/-- `get_command_type`. -/
def getCommandType (command : List UInt8) : CommandType × ℕ × Bool :=
  getCommandLoop .closed 0 command

/-- How many characters `get_command_type` goes over before it returns. -/
def commandStop : QuoteFlags → List UInt8 → ℕ
  | _, [] => 0
  | f, c :: command =>
    if isOperator c ∧ f.free then 0 else commandStop (commandStep f c) command + 1

/-! ### Where the quotes are -/

/-- Inside the quotes `"`, inside the quotes `'`, or outside of both. -/
inductive Quoting where
  | outside
  | double
  | single
  deriving DecidableEq

/-- What the flags say. -/
def QuoteFlags.quoting (f : QuoteFlags) : Quoting :=
  if f.quoteOpen then .double else if f.doubleQuoteOpen then .single else .outside

/-- The two quote characters. -/
def isQuote (c : UInt8) : Bool := c = 34 ∨ c = 39

/-- A character that no backslash stands before. -/
def Quoting.turn (q : Quoting) (c : UInt8) : Quoting :=
  if c = 34 then
    match q with
    | outside => double
    | double => outside
    | single => single
  else if c = 39 then
    match q with
    | outside => single
    | double => double
    | single => outside
  else q

/-- Where a text leaves the quotes, from its last character on. -/
def quotingRev : List UInt8 → Quoting
  | [] => .outside
  | c :: text => if text.head? = some 92 then quotingRev text else (quotingRev text).turn c

/-- Where a text leaves the quotes: a quote character directly behind a backslash does not count. -/
def quotingOf (text : List UInt8) : Quoting := quotingRev text.reverse

/-- An operator stands in a text, outside of the quotes and not directly behind a backslash. -/
def HasOperator (text : List UInt8) : Prop :=
  ∃ pre c post, text = pre ++ c :: post ∧ isOperator c = true ∧ quotingOf pre = .outside ∧
    pre.getLast? ≠ some 92

/-- What stands behind the last quote character. -/
def sinceQuote (text : List UInt8) : List UInt8 := text.rtakeWhile fun c => !isQuote c

/-- A quote character `c` behind `text` counts, and has a backslash before it since the last quote
character, but not directly before it. -/
def StaleBackslash (text : List UInt8) (c : UInt8) : Prop :=
  (quotingOf text).turn c ≠ quotingOf text ∧ 92 ∈ sinceQuote text ∧ text.getLast? ≠ some 92

/-- The three scanners agree: at every place up to where `get_command_type` returns, and about the
quotes that are open at the end of a command without operators. -/
def QuotesAgree (command : List UInt8) : Prop :=
  (∀ i ≤ commandStop .closed command,
    (commandFlags (command.take i)).quoting = (splitFlags (command.take i)).quoting) ∧
  ((getCommandType command).1 = .normal →
    (isQuoteOpen command = true ↔ (commandFlags command).quoting ≠ .outside))

/-! ### What the flags are -/

section Flags

variable {f : QuoteFlags} {other : QuoteFlags → QuoteFlags} {c : UInt8} {text command : List UInt8}

/-- At most one kind of quotes is open. -/
def QuoteFlags.Exclusive (f : QuoteFlags) : Prop := (f.quoteOpen && f.doubleQuoteOpen) = false

instance : Decidable f.Exclusive := inferInstanceAs (Decidable (_ = _))

/-- A character that is no quote changes no quoting. -/
lemma Quoting.turn_of_not (q : Quoting) (hc : isQuote c = false) : q.turn c = q := by
  have h : c ≠ 34 ∧ c ≠ 39 := by simpa [isQuote] using hc
  rw [Quoting.turn.eq_def, if_neg h.1, if_neg h.2]

variable (other c) in
/-- **A turn**: the quotes are left as they are behind a backslash, and the flags stay exclusive. -/
lemma scanStep_quoting (hf : f.Exclusive)
    (hother : (other f).quoting = f.quoting ∧ (other f).Exclusive) :
    (scanStep other f c).quoting = (if f.specialCharNext then f.quoting else f.quoting.turn c) ∧
      (scanStep other f c).Exclusive := by
  rw [scanStep]
  by_cases h92 : c = 92
  · rw [if_pos h92, Quoting.turn_of_not _ (by rw [h92]; decide), ite_self]
    exact ⟨rfl, hf⟩
  rw [if_neg h92]
  by_cases h34 : c = 34
  · rw [if_pos h34, h34]
    obtain ⟨q, d, e⟩ := f
    clear hother
    revert hf
    revert q d e
    decide
  rw [if_neg h34]
  by_cases h39 : c = 39
  · rw [if_pos h39, h39]
    obtain ⟨q, d, e⟩ := f
    clear hother
    revert hf
    revert q d e
    decide
  rw [if_neg h39, Quoting.turn_of_not _ (by simp [isQuote, h34, h39]), ite_self]
  exact hother

/-- At a quote character the flag of the backslash is cleared. -/
lemma scanStep_special_quote (hc : isQuote c = true) :
    (scanStep other f c).specialCharNext = false := by
  have h : c = 34 ∨ c = 39 := by simpa [isQuote] using hc
  obtain ⟨q, d, e⟩ := f
  obtain rfl | rfl := h
  · rw [scanStep, if_neg (by decide), if_pos rfl]
    revert q d e
    decide
  · rw [scanStep, if_neg (by decide), if_neg (by decide), if_pos rfl]
    revert q d e
    decide

lemma scanStep_special_backslash : (scanStep other f 92).specialCharNext = true := rfl

lemma scanStep_other (hc : isQuote c = false) (h92 : c ≠ 92) : scanStep other f c = other f := by
  have h : c ≠ 34 ∧ c ≠ 39 := by simpa [isQuote] using hc
  rw [scanStep, if_neg h92, if_neg h.1, if_neg h.2]

/-- A space is no different from other characters. -/
lemma splitStep_eq : splitStep = isQuoteOpenStep := by
  funext f c
  rw [splitStep, isQuoteOpenStep]
  split_ifs with h
  · rw [h, scanStep_other (by decide) (by decide), id]
  · rfl

/-- A quote behind a backslash does not count. -/
lemma quotingOf_concat (text : List UInt8) (c : UInt8) : quotingOf (text ++ [c]) =
    if text.getLast? = some 92 then quotingOf text else (quotingOf text).turn c := by
  rw [quotingOf, List.reverse_append, List.reverse_singleton, List.singleton_append, quotingRev,
    List.head?_reverse, quotingOf]

/-- **The flags of `get_command_type`** are those of the quotes, and of a backslash
directly before. -/
lemma commandFlags_eq (text : List UInt8) : (commandFlags text).Exclusive ∧
    (commandFlags text).quoting = quotingOf text ∧
    ((commandFlags text).specialCharNext = true ↔ text.getLast? = some 92) := by
  induction text using List.reverseRecOn with
  | nil => exact ⟨rfl, rfl, by simp [commandFlags, QuoteFlags.closed]⟩
  | append_singleton text c ih =>
    obtain ⟨hex, hquoting, hspecial⟩ := ih
    have hturn :=
      scanStep_quoting (fun f => { f with specialCharNext := false }) c hex ⟨rfl, hex⟩
    rw [commandFlags, List.foldl_append, ← commandFlags, List.foldl_cons, List.foldl_nil]
    refine ⟨hturn.2, ?_, ?_⟩
    · rw [commandStep, hturn.1, quotingOf_concat, hquoting]
      exact if_congr hspecial rfl rfl
    · rw [List.getLast?_concat, Option.some_inj, commandStep]
      by_cases h92 : c = 92
      · rw [h92]
        exact iff_of_true scanStep_special_backslash rfl
      · refine iff_of_false ?_ h92
        rw [Bool.not_eq_true]
        by_cases hc : isQuote c = true
        · exact scanStep_special_quote hc
        · rw [scanStep_other (Bool.not_eq_true _ ▸ hc) h92]

/-- **The flags of `argv_split`**: that of the backslash is kept up to the next quote character. -/
lemma splitFlags_eq (text : List UInt8) : (splitFlags text).Exclusive ∧
    ((splitFlags text).specialCharNext = true ↔ 92 ∈ sinceQuote text) := by
  induction text using List.reverseRecOn with
  | nil => exact ⟨rfl, by simp [splitFlags, QuoteFlags.closed, sinceQuote]⟩
  | append_singleton text c ih =>
    obtain ⟨hex, hspecial⟩ := ih
    have hturn := scanStep_quoting id c hex ⟨rfl, hex⟩
    rw [splitFlags, List.foldl_append, ← splitFlags, List.foldl_cons, List.foldl_nil,
      splitStep_eq, isQuoteOpenStep]
    refine ⟨hturn.2, ?_⟩
    rw [sinceQuote, List.rtakeWhile_concat, ← sinceQuote]
    by_cases hc : isQuote c = true
    · rw [scanStep_special_quote hc, hc]
      simp
    · rw [Bool.not_eq_true] at hc
      rw [hc, Bool.not_false, if_pos rfl, List.mem_append, List.mem_singleton]
      by_cases h92 : c = 92
      · rw [h92]
        exact iff_of_true scanStep_special_backslash (Or.inr rfl)
      · rw [scanStep_other hc h92, id, hspecial]
        exact (or_iff_left (Ne.symm h92)).symm

/-- A turn of `argv_split`. -/
lemma splitFlags_concat (text : List UInt8) (c : UInt8) : (splitFlags (text ++ [c])).quoting =
    if 92 ∈ sinceQuote text then (splitFlags text).quoting
    else (splitFlags text).quoting.turn c := by
  obtain ⟨hex, hspecial⟩ := splitFlags_eq text
  rw [splitFlags, List.foldl_append, ← splitFlags, List.foldl_cons, List.foldl_nil,
    splitStep_eq, isQuoteOpenStep, (scanStep_quoting id c hex ⟨rfl, hex⟩).1]
  exact if_congr hspecial rfl rfl

/-- The flags are free outside of quotes, and not behind a backslash. -/
lemma free_iff (f : QuoteFlags) :
    f.free = true ↔ f.quoting = .outside ∧ f.specialCharNext = false := by
  obtain ⟨q, d, e⟩ := f
  revert q d e
  decide

/-- A quote is open just when they are inside. -/
lemma quoting_open_iff (f : QuoteFlags) :
    (f.doubleQuoteOpen || f.quoteOpen) = true ↔ f.quoting ≠ .outside := by
  obtain ⟨q, d, e⟩ := f
  revert q d e
  decide

end Flags

/-! ### Where `get_command_type` stops -/

section Stop

variable {f : QuoteFlags} {c : UInt8} {text command : List UInt8} {i : ℕ}

/-- One more character is an operator, or there was one before. -/
lemma hasOperator_concat (text : List UInt8) (c : UInt8) : HasOperator (text ++ [c]) ↔
    HasOperator text ∨ (isOperator c = true ∧ (commandFlags text).free = true) := by
  have hfree : (commandFlags text).free = true ↔
      quotingOf text = .outside ∧ text.getLast? ≠ some 92 := by
    obtain ⟨-, hquoting, hspecial⟩ := commandFlags_eq text
    rw [free_iff, hquoting, ← Bool.not_eq_true, hspecial]
  rw [hfree]
  constructor
  · rintro ⟨pre, d, post, hsplit, hop⟩
    obtain rfl | ⟨post, e, rfl⟩ := List.eq_nil_or_concat post
    · obtain ⟨rfl, hcd⟩ := List.append_inj' hsplit rfl
      obtain rfl := (List.cons.inj hcd).1
      exact Or.inr hop
    · rw [List.concat_eq_append, ← List.cons_append, ← List.append_assoc] at hsplit
      exact Or.inl ⟨pre, d, post, (List.append_inj' hsplit rfl).1, hop⟩
  · rintro (⟨pre, d, post, rfl, hop⟩ | hop)
    · exact ⟨pre, d, post ++ [c], by rw [List.append_assoc, List.cons_append], hop⟩
    · exact ⟨text, c, [], rfl, hop⟩

/-- An operator stays one, whatever follows. -/
lemma HasOperator.append (h : HasOperator text) (post : List UInt8) :
    HasOperator (text ++ post) := by
  obtain ⟨pre, d, post', rfl, hop⟩ := h
  exact ⟨pre, d, post' ++ post, by rw [List.append_assoc, List.cons_append], hop⟩

lemma not_hasOperator_nil : ¬HasOperator [] := by
  rintro ⟨pre, d, post, h, -⟩
  exact List.append_ne_nil_of_right_ne_nil pre (List.cons_ne_nil d post) h.symm

/-- The flags behind one more character. -/
lemma commandFlags_concat (text : List UInt8) (c : UInt8) :
    commandFlags (text ++ [c]) = commandStep (commandFlags text) c := by
  rw [commandFlags, List.foldl_append]
  rfl

/-- **`get_command_type` goes over the characters up to the first operator.** -/
lemma le_commandStop_iff (htext : ¬HasOperator text) (hi : i ≤ command.length) :
    i ≤ commandStop (commandFlags text) command ↔ ¬HasOperator (text ++ command.take i) := by
  induction command generalizing text i with
  | nil =>
    rw [List.take_nil, List.append_nil]
    exact iff_of_true (hi.trans (Nat.zero_le _)) htext
  | cons c command ih =>
    cases i with
    | zero =>
      rw [List.take_zero, List.append_nil]
      exact iff_of_true (Nat.zero_le _) htext
    | succ i =>
      have hassoc : text ++ (c :: command).take (i + 1) = text ++ [c] ++ command.take i := by
        rw [List.take_succ_cons, List.append_assoc, List.singleton_append]
      have hconcat := hasOperator_concat text c
      rw [commandStop, hassoc]
      by_cases hop : isOperator c = true ∧ (commandFlags text).free = true
      · rw [if_pos hop]
        exact iff_of_false (Nat.not_succ_le_zero i)
          (not_not.mpr ((hconcat.mpr (Or.inr hop)).append _))
      · rw [if_neg hop, ← commandFlags_concat, Nat.succ_le_succ_iff]
        exact ih (fun h => (hconcat.mp h).elim htext hop) (Nat.succ_le_succ_iff.mp hi)

/-- A command ends in its text. -/
lemma commandStop_le (f : QuoteFlags) (command : List UInt8) :
    commandStop f command ≤ command.length := by
  induction command generalizing f with
  | nil => exact le_rfl
  | cons c command ih =>
    rw [commandStop]
    split_ifs
    · exact Nat.zero_le _
    · exact Nat.succ_le_succ (ih _)

/-- A command without operators is gone over to its end. -/
lemma commandStop_of_normal (h : (getCommandLoop f i command).1 = .normal) :
    commandStop f command = command.length := by
  induction command generalizing f i with
  | nil => rfl
  | cons c command ih =>
    rw [getCommandLoop] at h
    rw [commandStop, List.length_cons]
    split_ifs at h with hpipe hfile happend hand
    rw [if_neg, ih h]
    rintro ⟨hop, hfree⟩
    have hc : c = 124 ∨ c = 62 ∨ c = 38 := by simpa [isOperator] using hop
    obtain hc | hc | hc := hc
    · exact hpipe ⟨hc, hfree⟩
    · exact hfile ⟨hc, hfree⟩
    · exact hand ⟨hc, hfree⟩

end Stop

/-! ### Agreement -/

section Agreement

variable {text command : List UInt8} {i : ℕ}

lemma commandFlags_quoting (text : List UInt8) : (commandFlags text).quoting = quotingOf text :=
  (commandFlags_eq text).2.1

/-- A backslash at the end is behind the last quote. -/
lemma mem_sinceQuote_of_getLast (h : text.getLast? = some 92) : 92 ∈ sinceQuote text := by
  obtain ⟨pre, rfl⟩ := List.getLast?_eq_some_iff.mp h
  rw [sinceQuote, List.rtakeWhile_concat, if_pos (by decide)]
  exact List.mem_append_right _ (List.mem_singleton_self _)

/-- Where no backslash is stale, `argv_split` has the quotes as they are. -/
lemma splitFlags_quoting (hno : ¬HasOperator text)
    (h : ∀ pre c post, text = pre ++ c :: post → ¬StaleBackslash pre c) :
    (splitFlags text).quoting = quotingOf text := by
  induction text using List.reverseRecOn with
  | nil => rfl
  | append_singleton text c ih =>
    have hno' : ¬HasOperator text := fun h => hno (h.append _)
    have ih := ih hno' fun pre d post hsplit =>
      h pre d (post ++ [c]) (by rw [hsplit, List.append_assoc, List.cons_append])
    have hstale := h text c [] rfl
    rw [splitFlags_concat, quotingOf_concat, ih]
    by_cases hlast : text.getLast? = some 92
    · rw [if_pos hlast, if_pos (mem_sinceQuote_of_getLast hlast)]
    · rw [if_neg hlast]
      by_cases hmem : 92 ∈ sinceQuote text
      · rw [if_pos hmem]
        by_contra hne
        exact hstale ⟨Ne.symm hne, hmem, hlast⟩
      · rw [if_neg hmem]

/-- **The scanners agree exactly where** no quote character that counts has a stale backslash before
it. -/
theorem quotes_agree_iff (command : List UInt8) : QuotesAgree command ↔
    ∀ text c post, command = text ++ c :: post → ¬HasOperator text → ¬StaleBackslash text c := by
  constructor
  · rintro ⟨hagree, -⟩ text c post rfl hno ⟨hturn, hmem, hlast⟩
    have hquote : isQuote c = true := by
      by_contra hc
      exact hturn (Quoting.turn_of_not _ (Bool.not_eq_true _ ▸ hc))
    have hop : isOperator c = false := by
      have hc : c = 34 ∨ c = 39 := by simpa [isQuote] using hquote
      obtain rfl | rfl := hc
      · decide
      · decide
    have hno' : ¬HasOperator (text ++ [c]) := by
      rw [hasOperator_concat, hop]
      exact fun h => h.elim hno fun h => Bool.false_ne_true h.1
    -- `get_command_type` comes past the quote character
    have hstop : text.length + 1 ≤ commandStop .closed (text ++ c :: post) := by
      refine (le_commandStop_iff not_hasOperator_nil (by simp)).mpr ?_
      rw [List.nil_append, List.take_length_add_append, List.take_succ_cons, List.take_zero]
      exact hno'
    have hbefore := hagree text.length (Nat.le_of_succ_le hstop)
    have hbehind := hagree (text.length + 1) hstop
    rw [List.take_left, commandFlags_quoting] at hbefore
    rw [List.take_length_add_append, List.take_succ_cons, List.take_zero, commandFlags_quoting,
      quotingOf_concat, if_neg hlast, splitFlags_concat, if_pos hmem, ← hbefore] at hbehind
    exact hturn hbehind
  · intro h
    have hagree : ∀ i ≤ commandStop .closed command,
        (commandFlags (command.take i)).quoting = (splitFlags (command.take i)).quoting := by
      intro i hi
      have hno := (le_commandStop_iff not_hasOperator_nil (hi.trans (commandStop_le _ _))).mp hi
      rw [List.nil_append] at hno
      rw [commandFlags_quoting]
      refine (splitFlags_quoting hno fun pre c post hsplit => ?_).symm
      refine h pre c (post ++ command.drop i) ?_ fun hpre => ?_
      · rw [← List.cons_append, ← List.append_assoc, ← hsplit, List.take_append_drop]
      · rw [hsplit] at hno
        exact hno (hpre.append _)
    refine ⟨hagree, fun hnormal => ?_⟩
    have hend := hagree command.length (commandStop_of_normal hnormal).ge
    rw [List.take_length] at hend
    rw [hend, isQuoteOpen, ← splitStep_eq]
    exact quoting_open_iff _

/-- Behind a backslash and the letter `a`, the quote character opens quotes for `get_command_type`
but not for `argv_split`. -/
theorem quotes_disagree : ¬QuotesAgree [92, 97, 34] := by
  intro h
  have hend := h.1 3 (by decide)
  revert hend
  decide

end Agreement

end MicroOS
