import Mathlib.Logic.Relation
import MicroOS.FileSystem.Vfs
import MicroOS.User.Buffer

/-!
The syntax highlighting of the editor, `highlight` in `user/edit/syntax.c`. The text is in the
input with the zero behind it, and the output has a colour for each of its characters; the strings
of a syntax file are given by value, without the table that they stand in.

* `lookForwardCompare_eq`: the comparison is that of a prefix;
* `sectionEnd`, `wordsEnd`: the position behind a section and behind words;
* `highlightSection_closed`, `highlightSection_open`: a section that is not closed in the text is
  coloured behind the end of it;
* `highlightTurn_some`, `highlightTurn_none`: one turn of the loop;
* `highlightsInside_iff`: when the highlighting stays inside of the text.
-/

namespace MicroOS

open Checked

/-! ### The function -/

/-- `syntax_section_t`. -/
structure SyntaxSection where
  active : Bool
  sectStart : CString
  sectEnd : CString
  color : UInt8
  skipNext : UInt8

/-- `syntax_word_t`. -/
structure SyntaxWord where
  word : CString
  color : UInt8

/-- `syntax_header_t`, with the words behind it. -/
structure SyntaxHeader where
  singleLineComment : SyntaxSection
  multiLineComment : SyntaxSection
  string : SyntaxSection
  singleChar : SyntaxSection
  bracketsStart : CString
  bracketsEnd : CString
  matchBrackets : Bool
  words : List SyntaxWord

/-- `look_forward_compare`, from the character of `search` on that `cur` has come to. -/
def lookForwardCompare (maxl : ℕ) (input : List UInt8) : ℕ → List UInt8 → Except BufferFault Bool
  | _, [] => .ok true
  | cur, c :: search =>
    if cur > maxl then .ok false
    else do
      if (← bufRead input cur) ≠ c then return false
      else lookForwardCompare maxl input (cur + 1) search

/-- The loop of `highlight_section` to the end of a section. -/
def sectionLoop (input : List UInt8) (len : ℕ) (sect : SyntaxSection) :
    ℕ → ℕ → Except BufferFault ℕ
  | 0, _ => .error .outOfFuel
  | fuel + 1, cur => do
      if ← lookForwardCompare len input cur sect.sectEnd.chars then return cur
      else if cur > len then return cur
      else if (← bufRead input cur) = sect.skipNext then
        sectionLoop input len sect fuel (cur + 2)
      else sectionLoop input len sect fuel (cur + 1)

/-- `memset(&output[start], color, n)`. -/
def colorRange (output : List UInt8) (start : ℕ) (color : UInt8) (n : ℕ) :
    Except BufferFault (List UInt8) :=
  bufStore output start (List.replicate n color)

/-- `highlight_section`: the new `cur`, and the output. -/
def highlightSection (fuel : ℕ) (input : List UInt8) (len : ℕ) (sect : SyntaxSection)
    (cur : ℕ) (output : List UInt8) : Except BufferFault (ℕ × List UInt8) := do
  if sect.active = false then return (cur, output)
  else if ← lookForwardCompare len input cur sect.sectStart.chars then do
    let endLen := sect.sectEnd.chars.length
    let stop ← sectionLoop input len sect fuel (cur + sect.sectStart.chars.length)
    let output ← colorRange output cur sect.color (stop - cur + endLen)
    return (stop + endLen, output)
  else return (cur, output)

/-- `isalpha(c) || c == '_'`. -/
def isWordChar (c : UInt8) : Bool := (97 ≤ c ∧ c ≤ 122) ∨ (65 ≤ c ∧ c ≤ 90) ∨ c = 95

/-- The loop over the words, one word. -/
def highlightWord (input : List UInt8) (len : ℕ) (p : ℕ × List UInt8) (w : SyntaxWord) :
    Except BufferFault (ℕ × List UInt8) := do
  if ← lookForwardCompare len input p.1 w.word.chars then
    if isWordChar (← bufRead input (p.1 + w.word.chars.length)) then return p
    else do
      let output ← colorRange p.2 p.1 w.color w.word.chars.length
      return (p.1 + w.word.chars.length, output)
  else return p

/-- The words, if `i` is not behind a letter. -/
def highlightWords (input : List UInt8) (len : ℕ) (words : List SyntaxWord) (p : ℕ × List UInt8) :
    Except BufferFault (ℕ × List UInt8) :=
  if p.1 = 0 then words.foldlM (highlightWord input len) p
  else do
    if isWordChar (← bufRead input (p.1 - 1)) then return p
    else words.foldlM (highlightWord input len) p

/-- `bracket_matching_colors[idx % sizeof(bracket_matching_colors)]`, where the index is taken as
an unsigned number. -/
def bracketColor (idx : UInt32) : UInt8 := [1, 2, 3, 4, 5, 6].getD (idx % 6).toNat 0

/-- An opening bracket, with the output and `curr_bracket_idx`. -/
def openBracket (hl : SyntaxHeader) (i : ℕ) (c : UInt8) (p : List UInt8 × UInt32) :
    Except BufferFault (List UInt8 × UInt32) :=
  if c ∈ hl.bracketsStart.chars then do
    return (← bufWrite p.1 i (bracketColor (p.2 + 1)), p.2 + 1)
  else .ok p

/-- A closing bracket. -/
def closeBracket (hl : SyntaxHeader) (i : ℕ) (c : UInt8) (p : List UInt8 × UInt32) :
    Except BufferFault (List UInt8 × UInt32) :=
  if c ∈ hl.bracketsEnd.chars then do
    return (← bufWrite p.1 i (bracketColor p.2), p.2 - 1)
  else .ok p

/-- The brackets at `i`. -/
def highlightBrackets (input : List UInt8) (hl : SyntaxHeader) (i : ℕ)
    (p : List UInt8 × UInt32) : Except BufferFault (List UInt8 × UInt32) :=
  if hl.matchBrackets then do
    let c ← bufRead input i
    closeBracket hl i c (← openBracket hl i c p)
  else .ok p

/-- The sections, in the order of `highlight`. -/
def SyntaxHeader.sections (hl : SyntaxHeader) : List SyntaxSection :=
  [hl.string, hl.singleChar, hl.singleLineComment, hl.multiLineComment]

/-- One turn of the loop of `highlight`. -/
def highlightTurn (fuel : ℕ) (input : List UInt8) (len : ℕ) (hl : SyntaxHeader) (i : ℕ)
    (output : List UInt8) (idx : UInt32) : Except BufferFault (ℕ × List UInt8 × UInt32) := do
  let p ← hl.sections.foldlM
    (fun p sect => highlightSection fuel input len sect p.1 p.2) (i, output)
  let p ← highlightWords input len hl.words p
  let q ← highlightBrackets input hl p.1 (p.2, idx)
  return (p.1, q)

/-- The loop of `highlight`. -/
def highlightLoop (fuel : ℕ) (input : List UInt8) (len : ℕ) (hl : SyntaxHeader) :
    ℕ → ℕ → List UInt8 → UInt32 → Except BufferFault (List UInt8)
  | 0, _, _, _ => .error .outOfFuel
  | n + 1, i, output, idx =>
    if i < len then do
      let (i, output, idx) ← highlightTurn fuel input len hl i output idx
      highlightLoop fuel input len hl n (i + 1) output idx
    else .ok output

/-- `highlight`, where every `malloc` returns. -/
def highlight (fuel : ℕ) (input : List UInt8) (len : ℕ) (hl : SyntaxHeader) :
    Except BufferFault (List UInt8) :=
  highlightLoop fuel input len hl fuel 0 (List.replicate len 7) 0

/-! ### Where it comes to in a text -/

/-- The characters before the end string of a section, where those behind `skipNext` are skipped. -/
def untilEnd (sect : SyntaxSection) : List UInt8 → Option ℕ
  | [] => if sect.sectEnd.chars = [] then some 0 else none
  | [c] => if sect.sectEnd.chars <+: [c] then some 0 else none
  | c :: d :: rest =>
    if sect.sectEnd.chars <+: c :: d :: rest then some 0
    else if c = sect.skipNext then (untilEnd sect rest).map (· + 2)
    else (untilEnd sect (d :: rest)).map (· + 1)

/-- The position behind the section that begins at `i`, or `i` if none does. A section that is not
closed in the text has none. -/
def sectionEnd (text : List UInt8) (i : ℕ) (sect : SyntaxSection) : Option ℕ :=
  if sect.active = true ∧ sect.sectStart.chars <+: text.drop i then
    (untilEnd sect (text.drop (i + sect.sectStart.chars.length))).map
      fun n => i + sect.sectStart.chars.length + n + sect.sectEnd.chars.length
  else some i

/-- The position behind a word at `i`, if no letter stands there. -/
def wordEnd (text : List UInt8) (i : ℕ) (w : SyntaxWord) : ℕ :=
  if w.word.chars <+: text.drop i ∧ text[i + w.word.chars.length]?.any isWordChar = false then
    i + w.word.chars.length
  else i

/-- The position behind the words at `i`. -/
def wordsEnd (text : List UInt8) (words : List SyntaxWord) (i : ℕ) : ℕ :=
  if i ≠ 0 ∧ text[i - 1]?.any isWordChar = true then i else words.foldl (wordEnd text) i

/-- The position behind the sections at `i`. -/
def sectionsEnd (text : List UInt8) (hl : SyntaxHeader) (i : ℕ) : Option ℕ :=
  hl.sections.foldlM (sectionEnd text) i

/-- From a position to that of the next turn. -/
def NextTurn (text : List UInt8) (hl : SyntaxHeader) (i j : ℕ) : Prop :=
  i < text.length ∧ ∃ k, sectionsEnd text hl i = some k ∧ j = wordsEnd text hl.words k + 1

/-- **The sections are closed**: those that begin at a position of the loop. -/
def SectionsClosed (text : List UInt8) (hl : SyntaxHeader) : Prop :=
  ∀ i, Relation.ReflTransGen (NextTurn text hl) 0 i → i < text.length →
    sectionsEnd text hl i ≠ none

section Text

variable {text output : List UInt8} {i : ℕ}

/-- The character at an index of the text, or the zero behind it. -/
lemma bufRead_text (h : i ≤ text.length) : bufRead (text ++ [0]) i = .ok (text[i]?.getD 0) := by
  rw [bufRead]
  rcases h.lt_or_eq with hlt | rfl
  · simp [List.getElem?_append_left hlt, hlt]
  · simp

/-- **The comparison is that of a prefix**, wherever it is made. -/
lemma lookForwardCompare_eq {search : List UInt8} (hsearch : 0 ∉ search) (i : ℕ) :
    lookForwardCompare text.length (text ++ [0]) i search =
      .ok (decide (search <+: text.drop i)) := by
  induction search generalizing i with
  | nil => simp [lookForwardCompare]
  | cons c search ih =>
    rw [lookForwardCompare]
    obtain ⟨hc, hsearch⟩ := not_or.mp (mt List.mem_cons.mpr hsearch)
    split_ifs with hi
    · simp [List.drop_eq_nil_of_le hi.le]
    · rw [bufRead_text (not_lt.mp hi), ok_bind]
      rcases (not_lt.mp hi).lt_or_eq with hlt | rfl
      · rw [List.drop_eq_getElem_cons hlt, List.getElem?_eq_getElem hlt, Option.getD_some]
        by_cases hne : text[i] = c
        · simp [hne, ih hsearch, List.cons_prefix_cons]
        · have hno : ¬c :: search <+: text[i] :: text.drop (i + 1) := fun h =>
            hne (List.cons_prefix_cons.mp h).1.symm
          rw [if_pos hne, decide_eq_false hno]
          rfl
      · rw [List.drop_length, decide_eq_false (by simp), if_pos (by simpa using hc)]
        rfl

/-- A range of the output is coloured. -/
lemma colorRange_ok {n : ℕ} (h : i + n ≤ output.length) (color : UInt8) : ∃ output',
    colorRange output i color n = .ok output' ∧ output'.length = output.length := by
  rw [colorRange]
  induction n generalizing i output with
  | zero => exact ⟨output, rfl, rfl⟩
  | succ n ih =>
    have hset : i + 1 + n ≤ (output.set i color).length := by
      rw [List.length_set]
      omega
    obtain ⟨output', hstore, hlen⟩ := ih hset
    refine ⟨output', ?_, by simpa using hlen⟩
    rw [List.replicate_succ, bufStore, bufWrite, if_pos (by omega), ok_bind, hstore]

/-- A range that goes behind the output. -/
lemma colorRange_error {n : ℕ} (hi : i ≤ output.length) (h : output.length < i + n)
    (color : UInt8) : colorRange output i color n = .error .pastEnd := by
  rw [colorRange]
  induction n generalizing i output with
  | zero => omega
  | succ n ih =>
    rw [List.replicate_succ, bufStore, bufWrite]
    split_ifs with hlt
    · exact ih (by simpa using hlt) (by simp; omega)
    · rfl

/-- A section that is at its end is over. -/
lemma untilEnd_atEnd {sect : SyntaxSection} {rest : List UInt8}
    (h : sect.sectEnd.chars <+: rest) : untilEnd sect rest = some 0 := by
  cases rest with
  | nil => simp [untilEnd, List.prefix_nil.mp h]
  | cons c rest => cases rest <;> simp [untilEnd, h]

/-- Before it, a character is skipped with the next one, or alone. -/
lemma untilEnd_cons {sect : SyntaxSection} {c : UInt8} {rest : List UInt8}
    (h : ¬sect.sectEnd.chars <+: c :: rest) : untilEnd sect (c :: rest) =
      if c = sect.skipNext then (untilEnd sect (rest.drop 1)).map (· + 2)
      else (untilEnd sect rest).map (· + 1) := by
  have hne : sect.sectEnd.chars ≠ [] := fun hnil => h (by simp [hnil])
  cases rest with
  | nil => simp [untilEnd, h, hne]
  | cons d rest => simp [untilEnd, h]

/-- One turn of the loop to the end of a section. -/
lemma sectionLoop_succ (sect : SyntaxSection) (fuel : ℕ) {cur : ℕ} (hcur : cur ≤ text.length) :
    sectionLoop (text ++ [0]) text.length sect (fuel + 1) cur =
      if sect.sectEnd.chars <+: text.drop cur then .ok cur
      else if text[cur]?.getD 0 = sect.skipNext then
        sectionLoop (text ++ [0]) text.length sect fuel (cur + 2)
      else sectionLoop (text ++ [0]) text.length sect fuel (cur + 1) := by
  rw [sectionLoop, lookForwardCompare_eq sect.sectEnd.zero_notMem, ok_bind, if_neg hcur.not_gt,
    bufRead_text hcur, ok_bind]
  simp only [decide_eq_true_eq]
  rfl

/-- The turn at the end string, wherever it stands. -/
lemma sectionLoop_atEnd {sect : SyntaxSection} (fuel : ℕ) {cur : ℕ}
    (h : sect.sectEnd.chars <+: text.drop cur) :
    sectionLoop (text ++ [0]) text.length sect (fuel + 1) cur = .ok cur := by
  rw [sectionLoop, lookForwardCompare_eq sect.sectEnd.zero_notMem, ok_bind, decide_eq_true h]
  rfl

/-- The loop to the end of a section stops at the end string, -/
lemma sectionLoop_some {sect : SyntaxSection} {fuel cur n : ℕ}
    (hfuel : text.length + 2 < fuel + cur) (hcur : cur ≤ text.length + 2)
    (h : untilEnd sect (text.drop cur) = some n) :
    sectionLoop (text ++ [0]) text.length sect fuel cur = .ok (cur + n) := by
  induction fuel generalizing cur n with
  | zero => omega
  | succ fuel ih =>
    by_cases hend : sect.sectEnd.chars <+: text.drop cur
    · rw [untilEnd_atEnd hend] at h
      rw [sectionLoop_atEnd fuel hend, ← Option.some.inj h, Nat.add_zero]
    · have hlt : cur < text.length := by
        by_contra hge
        rw [List.drop_eq_nil_of_le (not_lt.mp hge)] at h hend
        have hne : sect.sectEnd.chars ≠ [] := fun hnil => hend (by simp [hnil])
        simp [untilEnd, hne] at h
      rw [List.drop_eq_getElem_cons hlt] at h hend
      rw [untilEnd_cons hend, List.drop_drop] at h
      rw [sectionLoop_succ sect fuel hlt.le, List.drop_eq_getElem_cons hlt, if_neg hend,
        List.getElem?_eq_getElem hlt, Option.getD_some]
      split_ifs at h ⊢ with hskip
      · obtain ⟨m, hm, rfl⟩ := Option.map_eq_some_iff.mp h
        rw [ih (by omega) (by omega) hm]
        congr 1
        omega
      · obtain ⟨m, hm, rfl⟩ := Option.map_eq_some_iff.mp h
        rw [ih (by omega) (by omega) hm]
        congr 1
        omega

/-- or behind the text. -/
lemma sectionLoop_none {sect : SyntaxSection} {fuel cur : ℕ}
    (hfuel : text.length + 2 < fuel + cur) (hcur : cur ≤ text.length + 2)
    (h : untilEnd sect (text.drop cur) = none) :
    ∃ stop, sectionLoop (text ++ [0]) text.length sect fuel cur = .ok stop ∧
      text.length < stop := by
  induction fuel generalizing cur with
  | zero => omega
  | succ fuel ih =>
    have hend : ¬sect.sectEnd.chars <+: text.drop cur := fun hend => by
      rw [untilEnd_atEnd hend] at h
      simp at h
    rcases lt_trichotomy cur text.length with hlt | rfl | hgt
    · rw [sectionLoop_succ sect fuel hlt.le, if_neg hend, List.getElem?_eq_getElem hlt,
        Option.getD_some]
      rw [List.drop_eq_getElem_cons hlt] at h hend
      rw [untilEnd_cons hend, List.drop_drop] at h
      split_ifs at h ⊢ with hskip
      · exact ih (by omega) (by omega) (Option.map_eq_none_iff.mp h)
      · exact ih (by omega) (by omega) (Option.map_eq_none_iff.mp h)
    · rw [List.drop_length] at h
      rw [sectionLoop_succ sect fuel le_rfl, if_neg hend]
      split_ifs
      · exact ih (by omega) (by omega) (by rwa [List.drop_eq_nil_of_le (by omega)])
      · exact ih (by omega) (by omega) (by rwa [List.drop_eq_nil_of_le (by omega)])
    · refine ⟨cur, ?_, hgt⟩
      rw [sectionLoop, lookForwardCompare_eq sect.sectEnd.zero_notMem, ok_bind,
        decide_eq_false hend, if_pos hgt]
      rfl

/-- The end string of a section stands in the text. -/
lemma untilEnd_le {sect : SyntaxSection} {rest : List UInt8} {n : ℕ}
    (h : untilEnd sect rest = some n) : n + sect.sectEnd.chars.length ≤ rest.length := by
  induction hlen : rest.length using Nat.strong_induction_on generalizing rest n with
  | _ len ih =>
    by_cases hend : sect.sectEnd.chars <+: rest
    · have hle := hend.length_le
      rw [untilEnd_atEnd hend] at h
      obtain rfl := Option.some.inj h
      omega
    · cases rest with
      | nil =>
        have hne : sect.sectEnd.chars ≠ [] := fun hnil => hend (by simp [hnil])
        simp [untilEnd, hne] at h
      | cons c rest =>
        have hne : sect.sectEnd.chars ≠ [] := fun hnil => hend (by simp [hnil])
        rw [List.length_cons] at hlen
        rw [untilEnd_cons hend] at h
        split_ifs at h
        · obtain ⟨m, hm, rfl⟩ := Option.map_eq_some_iff.mp h
          cases rest with
          | nil => simp [untilEnd, hne] at hm
          | cons d rest =>
            rw [List.length_cons] at hlen
            have hle := ih rest.length (by omega) hm rfl
            omega
        · obtain ⟨m, hm, rfl⟩ := Option.map_eq_some_iff.mp h
          have hle := ih rest.length (by omega) hm rfl
          omega

/-- A section that is open at `i`, from behind its start string. -/
lemma highlightSection_opened {sect : SyntaxSection} {fuel stop : ℕ} (hactive : sect.active = true)
    (hstart : sect.sectStart.chars <+: text.drop i)
    (hstop : sectionLoop (text ++ [0]) text.length sect fuel (i + sect.sectStart.chars.length) =
      .ok stop) :
    highlightSection fuel (text ++ [0]) text.length sect i output =
      (colorRange output i sect.color (stop - i + sect.sectEnd.chars.length)).map
        fun output' => (stop + sect.sectEnd.chars.length, output') := by
  rw [highlightSection, if_neg (by simp [hactive]),
    lookForwardCompare_eq sect.sectStart.zero_notMem, ok_bind, decide_eq_true hstart, if_pos rfl]
  dsimp only
  rw [hstop, ok_bind]
  rfl

/-- What begins at `i` ends in the text. -/
lemma add_length_le_text {s : List UInt8} (hi : i ≤ text.length) (h : s <+: text.drop i) :
    i + s.length ≤ text.length := by
  have hle := h.length_le
  rw [List.length_drop] at hle
  omega

/-- **A section that is closed**, or does not begin, stays inside of the text. -/
lemma highlightSection_closed {sect : SyntaxSection} {fuel j : ℕ} (hfuel : text.length + 2 < fuel)
    (hi : i ≤ text.length) (hlen : output.length = text.length)
    (h : sectionEnd text i sect = some j) : ∃ output',
    highlightSection fuel (text ++ [0]) text.length sect i output = .ok (j, output') ∧
      output'.length = text.length ∧ i ≤ j ∧ j ≤ text.length := by
  rw [sectionEnd] at h
  split_ifs at h with hopens
  · obtain ⟨hactive, hstart⟩ := hopens
    obtain ⟨n, hn, rfl⟩ := Option.map_eq_some_iff.mp h
    have hstartle := add_length_le_text hi hstart
    have hend := untilEnd_le hn
    rw [List.length_drop] at hend
    have hstop : sectionLoop (text ++ [0]) text.length sect fuel
        (i + sect.sectStart.chars.length) = .ok (i + sect.sectStart.chars.length + n) :=
      sectionLoop_some (by omega) (by omega) hn
    have hrange : i + (i + sect.sectStart.chars.length + n - i + sect.sectEnd.chars.length) ≤
        output.length := by omega
    obtain ⟨output', hcolor, hlen'⟩ := colorRange_ok hrange sect.color
    refine ⟨output', ?_, hlen'.trans hlen, by omega, by omega⟩
    rw [highlightSection_opened hactive hstart hstop, hcolor]
    rfl
  · obtain rfl := Option.some.inj h
    refine ⟨output, ?_, hlen, le_rfl, hi⟩
    rw [highlightSection, lookForwardCompare_eq sect.sectStart.zero_notMem, ok_bind]
    by_cases hactive : sect.active = true
    · have hno : ¬sect.sectStart.chars <+: text.drop i := fun hstart => hopens ⟨hactive, hstart⟩
      rw [if_neg (by simp [hactive]), decide_eq_false hno]
      rfl
    · rw [if_pos (by simpa using hactive)]
      rfl

/-- **A section that is not closed** is coloured behind the end of the text. -/
lemma highlightSection_open {sect : SyntaxSection} {fuel : ℕ} (hfuel : text.length + 2 < fuel)
    (hi : i ≤ text.length) (hlen : output.length = text.length)
    (h : sectionEnd text i sect = none) :
    highlightSection fuel (text ++ [0]) text.length sect i output = .error .pastEnd := by
  rw [sectionEnd] at h
  split_ifs at h with hopens
  obtain ⟨hactive, hstart⟩ := hopens
  have hstartle := add_length_le_text hi hstart
  have hfuel' : text.length + 2 < fuel + (i + sect.sectStart.chars.length) := by omega
  obtain ⟨stop, hstop, hlt⟩ := sectionLoop_none hfuel' (by omega) (Option.map_eq_none_iff.mp h)
  rw [highlightSection_opened hactive hstart hstop,
    colorRange_error (by omega) (by omega)]
  rfl

/-- The sections one after the other, -/
lemma highlightSections_closed {fuel j : ℕ} (hfuel : text.length + 2 < fuel)
    (sects : List SyntaxSection) (hi : i ≤ text.length) (hlen : output.length = text.length)
    (h : sects.foldlM (sectionEnd text) i = some j) : ∃ output',
    sects.foldlM (fun p sect => highlightSection fuel (text ++ [0]) text.length sect p.1 p.2)
      (i, output) = .ok (j, output') ∧ output'.length = text.length ∧ i ≤ j ∧ j ≤ text.length := by
  induction sects generalizing i output with
  | nil =>
    obtain rfl := Option.some.inj h
    exact ⟨output, rfl, hlen, le_rfl, hi⟩
  | cons sect sects ih =>
    rw [List.foldlM_cons, Option.bind_eq_bind, Option.bind_eq_some_iff] at h
    obtain ⟨k, hk, h⟩ := h
    obtain ⟨output₁, hsect, hlen₁, hle₁, hk⟩ := highlightSection_closed hfuel hi hlen hk
    obtain ⟨output₂, hsects, hlen₂, hle₂, hj⟩ := ih hk hlen₁ h
    refine ⟨output₂, ?_, hlen₂, hle₁.trans hle₂, hj⟩
    rw [List.foldlM_cons, hsect, ok_bind, hsects]

/-- up to the first that is not closed. -/
lemma highlightSections_open {fuel : ℕ} (hfuel : text.length + 2 < fuel)
    (sects : List SyntaxSection) (hi : i ≤ text.length) (hlen : output.length = text.length)
    (h : sects.foldlM (sectionEnd text) i = none) :
    sects.foldlM (fun p sect => highlightSection fuel (text ++ [0]) text.length sect p.1 p.2)
      (i, output) = .error .pastEnd := by
  induction sects generalizing i output with
  | nil => simp at h
  | cons sect sects ih =>
    rw [List.foldlM_cons, Option.bind_eq_bind] at h
    rw [List.foldlM_cons]
    cases hk : sectionEnd text i sect with
    | none => rw [highlightSection_open hfuel hi hlen hk, error_bind]
    | some k =>
      rw [hk, Option.bind_some] at h
      obtain ⟨output₁, hsect, hlen₁, -, hk⟩ := highlightSection_closed hfuel hi hlen hk
      rw [hsect, ok_bind]
      exact ih hk hlen₁ h

lemma isWordChar_getD (c : Option UInt8) : isWordChar (c.getD 0) = c.any isWordChar := by
  cases c <;> rfl

/-- A word stays inside of the text. -/
lemma highlightWord_ok (w : SyntaxWord) (hi : i ≤ text.length)
    (hlen : output.length = text.length) : ∃ output',
    highlightWord (text ++ [0]) text.length (i, output) w = .ok (wordEnd text i w, output') ∧
      output'.length = text.length ∧ i ≤ wordEnd text i w ∧ wordEnd text i w ≤ text.length := by
  rw [highlightWord, lookForwardCompare_eq w.word.zero_notMem, ok_bind, wordEnd]
  by_cases hword : w.word.chars <+: text.drop i
  · have hle := add_length_le_text hi hword
    rw [decide_eq_true hword, if_pos rfl, bufRead_text hle, ok_bind, isWordChar_getD]
    cases hnext : text[i + w.word.chars.length]?.any isWordChar with
    | true => exact ⟨output, by simp [pure, Except.pure], hlen, by simp, by simpa using hi⟩
    | false =>
      have hrange : i + w.word.chars.length ≤ output.length := by omega
      obtain ⟨output', hcolor, hlen'⟩ := colorRange_ok hrange w.color
      refine ⟨output', ?_, hlen'.trans hlen, by simp [hword], by simpa [hword] using hle⟩
      rw [if_neg Bool.false_ne_true, hcolor, if_pos ⟨hword, rfl⟩]
      rfl
  · rw [decide_eq_false hword, if_neg Bool.false_ne_true, if_neg fun h => hword h.1]
    exact ⟨output, rfl, hlen, le_rfl, hi⟩

/-- So do the words one after the other. -/
lemma foldlM_highlightWord_ok (words : List SyntaxWord) (hi : i ≤ text.length)
    (hlen : output.length = text.length) : ∃ output',
    words.foldlM (highlightWord (text ++ [0]) text.length) (i, output) =
      .ok (words.foldl (wordEnd text) i, output') ∧ output'.length = text.length ∧
      i ≤ words.foldl (wordEnd text) i ∧ words.foldl (wordEnd text) i ≤ text.length := by
  induction words generalizing i output with
  | nil => exact ⟨output, rfl, hlen, le_rfl, hi⟩
  | cons w words ih =>
    obtain ⟨output₁, hword, hlen₁, hle₁, hend⟩ := highlightWord_ok w hi hlen
    obtain ⟨output₂, hwords, hlen₂, hle₂, hend₂⟩ := ih hend hlen₁
    refine ⟨output₂, ?_, hlen₂, hle₁.trans hle₂, hend₂⟩
    rw [List.foldlM_cons, hword, ok_bind, hwords]
    rfl

/-- Colouring words stays in the text. -/
lemma highlightWords_ok (words : List SyntaxWord) (hi : i ≤ text.length)
    (hlen : output.length = text.length) : ∃ output',
    highlightWords (text ++ [0]) text.length words (i, output) =
      .ok (wordsEnd text words i, output') ∧ output'.length = text.length ∧
      i ≤ wordsEnd text words i ∧ wordsEnd text words i ≤ text.length := by
  have hwords := foldlM_highlightWord_ok words hi hlen
  rw [highlightWords, wordsEnd]
  by_cases hzero : i = 0
  · rw [if_pos hzero, if_neg fun h => h.1 hzero]
    exact hwords
  · rw [if_neg hzero, bufRead_text (by omega), ok_bind, isWordChar_getD]
    cases hprev : text[i - 1]?.any isWordChar with
    | true =>
      rw [if_pos rfl, if_pos ⟨hzero, rfl⟩]
      exact ⟨output, rfl, hlen, le_rfl, hi⟩
    | false =>
      rw [if_neg Bool.false_ne_true, if_neg (by simp)]
      exact hwords

/-- A bracket is a character of the text. -/
lemma bufWrite_of_mem {s : CString} (hi : i ≤ text.length) (hlen : output.length = text.length)
    (h : text[i]?.getD 0 ∈ s.chars) (color : UInt8) :
    bufWrite output i color = .ok (output.set i color) := by
  have hlt : i < text.length := by
    refine lt_of_le_of_ne hi fun heq => ?_
    rw [heq, List.getElem?_eq_none le_rfl] at h
    exact s.zero_notMem h
  rw [bufWrite, if_pos (by omega)]

/-- The brackets stay inside of the text. -/
lemma highlightBrackets_ok (hl : SyntaxHeader) (hi : i ≤ text.length)
    (hlen : output.length = text.length) (idx : UInt32) : ∃ q,
    highlightBrackets (text ++ [0]) hl i (output, idx) = .ok q ∧ q.1.length = text.length := by
  rw [highlightBrackets]
  split_ifs
  · rw [bufRead_text hi, ok_bind]
    have hopen : ∃ q, openBracket hl i (text[i]?.getD 0) (output, idx) = .ok q ∧
        q.1.length = text.length := by
      rw [openBracket]
      split_ifs with hmem
      · rw [bufWrite_of_mem hi hlen hmem]
        exact ⟨_, rfl, by simpa using hlen⟩
      · exact ⟨_, rfl, hlen⟩
    obtain ⟨q, hq, hlen⟩ := hopen
    rw [hq, ok_bind, closeBracket]
    split_ifs with hmem
    · rw [bufWrite_of_mem hi hlen hmem]
      exact ⟨_, rfl, by simpa using hlen⟩
    · exact ⟨_, rfl, hlen⟩
  · exact ⟨_, rfl, hlen⟩

/-- **A turn whose sections are closed** stays inside of the text, -/
lemma highlightTurn_some {hl : SyntaxHeader} {fuel k : ℕ} (hfuel : text.length + 2 < fuel)
    (hi : i ≤ text.length) (hlen : output.length = text.length) (idx : UInt32)
    (h : sectionsEnd text hl i = some k) : ∃ q,
    highlightTurn fuel (text ++ [0]) text.length hl i output idx =
      .ok (wordsEnd text hl.words k, q) ∧ q.1.length = text.length ∧
      i ≤ wordsEnd text hl.words k := by
  obtain ⟨output₁, hsects, hlen₁, hle₁, hk⟩ := highlightSections_closed hfuel hl.sections hi hlen h
  obtain ⟨output₂, hwords, hlen₂, hle₂, hend⟩ := highlightWords_ok hl.words hk hlen₁
  obtain ⟨q, hbrackets, hlen₃⟩ := highlightBrackets_ok hl hend hlen₂ idx
  refine ⟨q, ?_, hlen₃, hle₁.trans hle₂⟩
  rw [highlightTurn, hsects, ok_bind, hwords, ok_bind, hbrackets]
  rfl

/-- **and another one does not.** -/
lemma highlightTurn_none {hl : SyntaxHeader} {fuel : ℕ} (hfuel : text.length + 2 < fuel)
    (hi : i ≤ text.length) (hlen : output.length = text.length) (idx : UInt32)
    (h : sectionsEnd text hl i = none) :
    highlightTurn fuel (text ++ [0]) text.length hl i output idx = .error .pastEnd := by
  rw [highlightTurn, highlightSections_open hfuel hl.sections hi hlen h, error_bind]

/-- A turn has one next position. -/
lemma reflTransGen_nextTurn {hl : SyntaxHeader} {j k : ℕ} (hi : i < text.length)
    (hk : sectionsEnd text hl i = some k) : Relation.ReflTransGen (NextTurn text hl) i j ↔
      i = j ∨ Relation.ReflTransGen (NextTurn text hl) (wordsEnd text hl.words k + 1) j := by
  rw [Relation.ReflTransGen.cases_head_iff]
  refine or_congr_right ⟨?_, fun h => ⟨_, ⟨hi, k, hk, rfl⟩, h⟩⟩
  rintro ⟨next, ⟨-, k', hk', rfl⟩, h⟩
  rw [hk] at hk'
  rwa [Option.some.inj hk']

/-- The run from a position, by induction on the turns that are left. -/
lemma highlightLoop_iff {hl : SyntaxHeader} {fuel n : ℕ} (hfuel : text.length + 2 < fuel)
    (hn : text.length < n + i) (hpos : 0 < n) (hlen : output.length = text.length) (idx : UInt32) :
    (∃ output', highlightLoop fuel (text ++ [0]) text.length hl n i output idx = .ok output' ∧
        output'.length = text.length) ↔
      ∀ j, Relation.ReflTransGen (NextTurn text hl) i j → j < text.length →
        sectionsEnd text hl j ≠ none := by
  induction n generalizing i output idx with
  | zero => omega
  | succ n ih =>
    rw [highlightLoop]
    by_cases hi : i < text.length
    · rw [if_pos hi]
      cases hk : sectionsEnd text hl i with
      | none =>
        rw [highlightTurn_none hfuel hi.le hlen idx hk, error_bind]
        constructor
        · rintro ⟨output', h, -⟩
          simp at h
        · exact fun h => absurd hk (h i .refl hi)
      | some k =>
        obtain ⟨q, hturn, hlen', hle⟩ := highlightTurn_some hfuel hi.le hlen idx hk
        rw [hturn, ok_bind]
        dsimp only
        rw [ih (by omega) (by omega) hlen']
        constructor
        · intro h j hj hjlen
          rcases (reflTransGen_nextTurn hi hk).mp hj with rfl | hj
          · simp [hk]
          · exact h j hj hjlen
        · intro h j hj hjlen
          exact h j ((reflTransGen_nextTurn hi hk).mpr (.inr hj)) hjlen
    · rw [if_neg hi]
      refine iff_of_true ⟨output, rfl, hlen⟩ fun j hj hjlen => ?_
      cases hj.cases_head with
      | inl heq => exact absurd (heq ▸ hjlen) hi
      | inr hnext =>
        obtain ⟨next, hnext, -⟩ := hnext
        exact absurd hnext.1 hi

end Text

/-- **The highlighting stays inside of the text**: it ends, and no read or write is behind it. -/
def HighlightsInside (text : CString) (hl : SyntaxHeader) : Prop :=
  ∃ enough, ∀ fuel ≥ enough, ∃ output,
    highlight fuel (text.chars ++ [0]) text.chars.length hl = .ok output ∧
      output.length = text.chars.length

/-- **When the highlighting stays inside of the text.** -/
theorem highlightsInside_iff (text : CString) (hl : SyntaxHeader) :
    HighlightsInside text hl ↔ SectionsClosed text.chars hl := by
  have hlen : (List.replicate text.chars.length (7 : UInt8)).length = text.chars.length :=
    List.length_replicate
  constructor
  · rintro ⟨enough, h⟩
    have hrun := h (max enough (text.chars.length + 3)) (le_max_left ..)
    exact (highlightLoop_iff (by omega) (by omega) (by omega) hlen 0).mp hrun
  · intro h
    refine ⟨text.chars.length + 3, fun fuel hfuel => ?_⟩
    exact (highlightLoop_iff (by omega) (by omega) (by omega) hlen 0).mpr h

/-- Strings in quotes, with a backslash before a character that does not count. -/
def quoted : SyntaxSection :=
  ⟨true, ⟨[34], by simp⟩, ⟨[34], by simp⟩, 3, 92⟩

/-- No section. -/
def noSection : SyntaxSection :=
  ⟨false, ⟨[], List.not_mem_nil⟩, ⟨[], List.not_mem_nil⟩, 7, 0⟩

/-- Strings alone are coloured. -/
def quotedHeader : SyntaxHeader :=
  ⟨noSection, noSection, quoted, noSection, ⟨[], List.not_mem_nil⟩, ⟨[], List.not_mem_nil⟩,
    false, []⟩

/-- The text `"a" b`. -/
def closedText : CString := ⟨[34, 97, 34, 32, 98], by simp⟩

/-- The next turn behind a closed quote is behind its end. -/
theorem highlightsInside_closed : HighlightsInside closedText quotedHeader := by
  refine (highlightsInside_iff closedText quotedHeader).mpr fun i hreach hlt => ?_
  have hlength : closedText.chars.length = 5 := rfl
  have hquote : sectionsEnd closedText.chars quotedHeader 0 = some 3 := by decide
  have hletter : sectionsEnd closedText.chars quotedHeader 4 = some 4 := by decide
  -- the turns are at the first quote, and at positions behind the second one
  have hturns : i = 0 ∨ 4 ≤ i := by
    clear hlt
    induction hreach with
    | refl => exact .inl rfl
    | @tail i j _ hturn ih =>
      obtain ⟨hlt, k, hk, rfl⟩ := hturn
      have hword : k ≤ wordsEnd closedText.chars quotedHeader.words k := by
        rw [wordsEnd]
        split_ifs <;> exact le_rfl
      rcases ih with rfl | hbehind
      · obtain rfl := Option.some.inj (hquote.symm.trans hk)
        exact .inr (by omega)
      · obtain rfl : i = 4 := by omega
        obtain rfl := Option.some.inj (hletter.symm.trans hk)
        exact .inr (by omega)
  rcases hturns with rfl | hbehind
  · decide
  · obtain rfl : i = 4 := by omega
    decide

/-- Of a quote alone, the character behind the text is coloured. -/
theorem open_quote_outside : ¬∀ (text : CString) (hl : SyntaxHeader), 1 ≤ text.chars.length →
    HighlightsInside text hl := by
  intro h
  obtain ⟨enough, hruns⟩ := h ⟨[34], by simp⟩
    ⟨noSection, noSection, quoted, noSection, ⟨[], List.not_mem_nil⟩, ⟨[], List.not_mem_nil⟩, false,
      []⟩ le_rfl
  obtain ⟨output, hrun, -⟩ := hruns (enough + 4) (by omega)
  rw [highlight, highlightLoop, if_pos (by simp),
    highlightTurn_none (by simp) (by simp) (by simp) 0 (by rfl)] at hrun
  simp at hrun

end MicroOS
