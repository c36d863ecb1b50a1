import Mathlib.Data.List.DropRight
import MicroOS.User.Buffer

/-!
Trimming the lines of the terminal: `process_line` of `user/terminal/argv_tools.c`, which moves a
string to the left in its own memory.

* `processLine`: the function, which returns its pointer;
* `cleanText`: a line without the spaces around it, and up to its first `#`;
* `processLine_eq`: **the string that is left is the text of the line, and the memory behind it**;
* `processLine_trims`: the function is trimming, inside the string, and a second time nothing.
-/

namespace MicroOS

open Checked

/-- The first loop of `process_line` with `n` turns left: the memory, and `j`. -/
def processShift (checkHashtag : Bool) :
    ℕ → ℕ → ℕ → Bool → List UInt8 → Except BufferFault (List UInt8 × ℕ)
  | 0, _, j, _, mem => .ok (mem, j)
  | n + 1, i, j, textFound, mem => do
      let c ← bufRead mem i
      if c = 32 ∧ !textFound then
        -- `j--` here, and `j++` at the end of the turn
        processShift checkHashtag n (i + 1) j textFound mem
      else if c = 35 ∧ checkHashtag then return (← bufWrite mem j 0, j)
      else processShift checkHashtag n (i + 1) (j + 1) true (← bufWrite mem j c)

/-- The second loop of `process_line`, from the index `i` down to `1`. -/
def processTrim : ℕ → List UInt8 → Except BufferFault (List UInt8)
  | 0, mem => .ok mem
  | i + 1, mem => do
      if (← bufRead mem (i + 1)) = 32 then processTrim i (← bufWrite mem (i + 1) 0)
      else return mem

/-- `process_line`: the memory from the pointer on, which is returned. -/
def processLine (checkHashtag : Bool) (command : List UInt8) : Except BufferFault (List UInt8) := do
  let commandLength := (← bufText command).length
  let (output, j) ← processShift checkHashtag commandLength 0 0 false command
  let output ← bufWrite output j 0
  let commandLength := (← bufText output).length
  if commandLength = 0 then return output
  else processTrim (commandLength - 1) output

/-! ### The text of a line -/

/-- Without the spaces in front. -/
def trimLeft (s : List UInt8) : List UInt8 := s.dropWhile fun c => c = 32

/-- Without the spaces at the end. -/
def trimRight (s : List UInt8) : List UInt8 := s.rdropWhile fun c => c = 32

/-- What is left of the first `#`, where it is looked for. -/
def cutHashtag (checkHashtag : Bool) (s : List UInt8) : List UInt8 :=
  if checkHashtag then s.takeWhile fun c => c ≠ 35 else s

/-- What the first loop keeps of a line. -/
def lineBody (checkHashtag : Bool) (s : List UInt8) : List UInt8 :=
  cutHashtag checkHashtag (trimLeft s)

/-- The text of a line. -/
def cleanText (checkHashtag : Bool) (s : List UInt8) : List UInt8 :=
  trimRight (lineBody checkHashtag s)

/-! ### Trimming -/

section Trim

variable {s u v : List UInt8} {c : UInt8}

/-- A text without a space in front. -/
lemma trimLeft_of_head (h : s.head? ≠ some 32) : trimLeft s = s := by
  cases s with
  | nil => rfl
  | cons c s =>
    exact List.dropWhile_cons_of_neg (by simpa using h)

/-- A text that does not begin with a space has no part in front that does. -/
lemma trimLeft_of_head_append (h : (u ++ v).head? ≠ some 32) : trimLeft u = u := by
  refine trimLeft_of_head fun hu => h ?_
  rw [List.head?_append, hu]
  rfl

/-- Spaces in front of two texts. -/
lemma trimLeft_append (u v : List UInt8) :
    trimLeft (u ++ v) = if trimLeft u = [] then trimLeft v else trimLeft u ++ v := by
  rw [trimLeft, List.dropWhile_append, ← trimLeft, ← trimLeft]
  exact if_congr List.isEmpty_iff rfl rfl

lemma trimRight_concat_space (u : List UInt8) : trimRight (u ++ [32]) = trimRight u :=
  List.rdropWhile_concat_pos _ _ _ rfl

lemma trimRight_concat (hc : c ≠ 32) (u : List UInt8) : trimRight (u ++ [c]) = u ++ [c] :=
  List.rdropWhile_concat_neg _ _ _ (by simpa using hc)

/-- What does not end with a space is kept. -/
lemma trimRight_append (hv : v ≠ []) (hlast : ∀ c ∈ v, c ≠ 32) (w : List UInt8) :
    trimRight (u ++ (v ++ w)) = u ++ (v ++ trimRight w) := by
  induction w using List.reverseRecOn with
  | nil =>
    obtain rfl | ⟨v, c, rfl⟩ := List.eq_nil_or_concat v
    · exact absurd rfl hv
    · have hc : c ≠ 32 := hlast c (by simp)
      rw [List.concat_eq_append, List.append_nil, ← List.append_assoc, trimRight_concat hc]
      simp [trimRight]
  | append_singleton w c ih =>
    rw [← List.append_assoc, ← List.append_assoc]
    by_cases hc : c = 32
    · rw [hc, trimRight_concat_space, trimRight_concat_space, List.append_assoc]
      exact ih
    · rw [trimRight_concat hc, trimRight_concat hc]
      simp

/-- A space at the end is trimmed, -/
lemma trim_concat_space (u : List UInt8) :
    trimRight (trimLeft (u ++ [32])) = trimRight (trimLeft u) := by
  rw [trimLeft_append]
  split_ifs with hu
  · rw [hu]
    rfl
  · exact trimRight_concat_space _

/-- and no other character is. -/
lemma trim_concat (hc : c ≠ 32) (u : List UInt8) :
    trimRight (trimLeft (u ++ [c])) = trimLeft u ++ [c] := by
  have hsingle : trimLeft [c] = [c] := trimLeft_of_head (by simpa using hc)
  rw [trimLeft_append]
  split_ifs with hu
  · rw [hsingle, hu]
    exact trimRight_concat hc []
  · exact trimRight_concat hc _

/-- Spaces that were behind a text are not missed. -/
lemma cleanText_trimRight (u : List UInt8) : cleanText false (trimRight u) = cleanText false u := by
  induction u using List.reverseRecOn with
  | nil => rfl
  | append_singleton u c ih =>
    by_cases hc : c = 32
    · rw [hc, trimRight_concat_space, ih]
      exact (trim_concat_space u).symm
    · rw [trimRight_concat hc]

end Trim

/-! ### The memory of a line -/

section Memory

variable {s rest p g u tail : List UInt8} {c : UInt8} {check : Bool} {i j n : ℕ}

/-- The text in front of a comment. -/
lemma cutHashtag_cons (c : UInt8) (u : List UInt8) : cutHashtag check (c :: u) =
    if c = 35 ∧ check = true then [] else c :: cutHashtag check u := by
  cases check with
  | false => simp [cutHashtag]
  | true =>
    by_cases hc : c = 35
    · simp [cutHashtag, hc]
    · simp [cutHashtag, hc]

variable (p g u check) in
/-- The first loop where text has been found: `p` is written, `g` are the places of the skipped
spaces, and `u` is to come. -/
lemma processShift_found (htail : tail ≠ []) :
    (do let (mem, j) ← processShift check u.length (p.length + g.length) p.length true
          (p ++ (g ++ u ++ tail))
        bufWrite mem j 0) =
      .ok (p ++ cutHashtag check u ++
        0 :: (g ++ u ++ tail).drop ((cutHashtag check u).length + 1)) := by
  have hne : ∀ g u : List UInt8, g ++ u ++ tail ≠ [] := fun g u =>
    List.append_ne_nil_of_right_ne_nil _ htail
  induction u generalizing p g with
  | nil =>
    have hcut : cutHashtag check [] = [] := by cases check <;> rfl
    rw [List.length_nil, processShift, ok_bind, hcut, List.append_nil p]
    exact bufWrite_append p 0 (hne g [])
  | cons c u ih =>
    have hread : bufRead (p ++ (g ++ c :: u ++ tail)) (p.length + g.length) = .ok c := by
      rw [← List.length_append, ← List.append_assoc, ← List.append_assoc,
        List.append_assoc _ _ tail]
      exact bufRead_append (p ++ g) c (u ++ tail)
    rw [List.length_cons, processShift, hread, ok_bind, if_neg (by simp), cutHashtag_cons,
      bufWrite_append p 0 (hne g (c :: u)), bufWrite_append p c (hne g (c :: u)), ok_bind,
      ok_bind]
    by_cases hhash : c = 35 ∧ check = true
    · have hagain := bufWrite_append p 0 (List.cons_ne_nil 0 ((g ++ c :: u ++ tail).drop 1))
      rw [if_pos hhash, if_pos hhash, List.append_nil]
      exact hagain
    · have hdrop : (g ++ c :: u ++ tail).drop 1 = (g ++ [c]).drop 1 ++ u ++ tail := by
        have happend : g ++ c :: u ++ tail = (g ++ [c]) ++ (u ++ tail) := by simp
        rw [happend, List.drop_append_of_le_length (by simp), List.append_assoc]
      have hlen : p.length + g.length + 1 = (p ++ [c]).length + ((g ++ [c]).drop 1).length := by
        simp
        omega
      have hstep := ih (p ++ [c]) ((g ++ [c]).drop 1)
      rw [← hlen, List.length_append, List.length_singleton, ← hdrop, List.append_assoc p,
        List.singleton_append, List.drop_drop] at hstep
      rw [if_neg hhash, if_neg hhash, hstep]
      simp [Nat.add_comm]

variable (g u check) in
/-- The first loop in the spaces in front, of which `g` are skipped. -/
lemma processShift_spaces (htail : tail ≠ []) :
    (do let (mem, j) ← processShift check u.length g.length 0 false (g ++ u ++ tail)
        bufWrite mem j 0) =
      .ok (lineBody check u ++ 0 :: (g ++ u ++ tail).drop ((lineBody check u).length + 1)) := by
  induction u generalizing g with
  | nil =>
    have hbody : lineBody check [] = [] := by cases check <;> rfl
    have hwrite := bufWrite_append [] 0 (List.append_ne_nil_of_right_ne_nil (g ++ []) htail)
    rw [List.length_nil, processShift, ok_bind, hbody]
    exact hwrite
  | cons c u ih =>
    have hread : bufRead (g ++ c :: u ++ tail) g.length = .ok c := by
      rw [List.append_assoc, List.cons_append]
      exact bufRead_append g c (u ++ tail)
    by_cases hspace : c = 32
    · have hbody : lineBody check (c :: u) = lineBody check u := by
        rw [lineBody, trimLeft, List.dropWhile_cons_of_pos (by simpa using hspace)]
        rfl
      have hassoc : g ++ c :: u ++ tail = g ++ [c] ++ u ++ tail := by simp
      have hstep := ih (g ++ [c])
      rw [List.length_append, List.length_singleton, ← hassoc] at hstep
      rw [List.length_cons, processShift, hread, ok_bind, if_pos ⟨hspace, rfl⟩, hbody]
      exact hstep
    · have hbody : lineBody check (c :: u) = cutHashtag check (c :: u) := by
        rw [lineBody, trimLeft, List.dropWhile_cons_of_neg (by simpa using hspace)]
      have hfound := processShift_found [] g (c :: u) check htail
      have hstart : processShift check (c :: u).length g.length 0 false (g ++ c :: u ++ tail) =
          processShift check (c :: u).length g.length 0 true (g ++ c :: u ++ tail) := by
        have hnot : ∀ b : Bool, ¬(c = 32 ∧ (!b) = true) := fun b h => hspace h.1
        rw [List.length_cons, processShift, processShift, hread, ok_bind, ok_bind,
          if_neg (hnot false), if_neg (hnot true)]
      rw [hstart, hbody]
      simpa using hfound

/-- The second loop, on a text that does not begin with a space. -/
lemma processTrim_eq {w : List UInt8} (hw : w ≠ []) (hhead : w.head? ≠ some 32) :
    processTrim (w.length - 1) (w ++ tail) =
      .ok (trimRight w ++ List.replicate (w.length - (trimRight w).length) 0 ++ tail) := by
  induction w using List.reverseRecOn generalizing tail with
  | nil => exact absurd rfl hw
  | append_singleton w c ih =>
    rw [List.length_append, List.length_singleton, Nat.add_sub_cancel]
    cases w with
    | nil =>
      have hc : c ≠ 32 := fun h => hhead (h ▸ rfl)
      have htrim : trimRight [c] = [c] := by simp [trimRight, List.rdropWhile, hc]
      rw [List.nil_append, htrim]
      rfl
    | cons d w =>
      have hassoc : (d :: w) ++ [c] ++ tail = (d :: w) ++ c :: tail := by simp
      rw [hassoc, List.length_cons, processTrim, ← List.length_cons, bufRead_append, ok_bind]
      by_cases hc : c = 32
      · have htrim : trimRight ((d :: w) ++ [c]) = trimRight (d :: w) :=
          List.rdropWhile_concat_pos _ _ _ (by simpa using hc)
        have hle : (trimRight (d :: w)).length ≤ (d :: w).length :=
          (List.rdropWhile_prefix _ _).length_le
        have hstep : processTrim ((d :: w).length - 1) (d :: w ++ 0 :: tail) =
            .ok (trimRight (d :: w) ++
              List.replicate ((d :: w).length - (trimRight (d :: w)).length) 0 ++ 0 :: tail) :=
          ih (List.cons_ne_nil d w) hhead
        have hcount : (d :: w).length + 1 - (trimRight (d :: w)).length =
            (d :: w).length - (trimRight (d :: w)).length + 1 := by
          omega
        rw [if_pos hc, bufWrite_append _ _ (List.cons_ne_nil c tail), ok_bind, htrim, hcount,
          List.replicate_succ', List.append_assoc, List.append_assoc, List.singleton_append,
          ← List.append_assoc]
        exact hstep
      · have htrim : trimRight ((d :: w) ++ [c]) = (d :: w) ++ [c] :=
          List.rdropWhile_concat_neg _ _ _ (by simpa using hc)
        have hcount : (d :: w).length + 1 - ((d :: w) ++ [c]).length = 0 := by simp
        rw [if_neg hc, htrim, hcount, List.replicate_zero, List.append_nil, hassoc]
        rfl

/-- A trimmed text begins with no space. -/
lemma head_trimLeft (s : List UInt8) : (trimLeft s).head? ≠ some 32 := by
  intro h
  have hne := List.head?_dropWhile_not (fun c => decide (c = 32)) s
  rw [← trimLeft, h] at hne
  simp at hne

/-- Nor does the body of a line. -/
lemma head_lineBody (check : Bool) (s : List UInt8) : (lineBody check s).head? ≠ some 32 := by
  have h := head_trimLeft s
  rw [lineBody]
  cases hs : trimLeft s with
  | nil => cases check <;> simp [cutHashtag]
  | cons c u =>
    rw [hs] at h
    rw [cutHashtag_cons]
    split_ifs
    · simp
    · exact h

/-- The body has characters of the line. -/
lemma lineBody_sublist (check : Bool) (s : List UInt8) : (lineBody check s).Sublist s := by
  refine List.Sublist.trans ?_ (List.dropWhile_sublist fun c => decide (c = 32))
  rw [lineBody, trimLeft, cutHashtag]
  split_ifs
  · exact List.takeWhile_sublist _
  · exact List.Sublist.refl _

/-- **`process_line`** leaves the text of the line, with zeros for the spaces that were behind it,
and the memory behind what it kept. -/
lemma processLine_eq (hs : 0 ∉ s) (rest : List UInt8) : processLine check (s ++ 0 :: rest) =
    .ok (cleanText check s ++
      List.replicate ((lineBody check s).length - (cleanText check s).length) 0 ++
      0 :: (s ++ 0 :: rest).drop ((lineBody check s).length + 1)) := by
  have hbody : 0 ∉ lineBody check s := fun h => hs ((lineBody_sublist check s).subset h)
  have hshift := processShift_spaces [] s check (List.cons_ne_nil 0 rest)
  rw [bind_eq_ok] at hshift
  obtain ⟨⟨mem, j⟩, hloop, hwrite⟩ := hshift
  have hloop' : processShift check s.length 0 0 false (s ++ 0 :: rest) = .ok (mem, j) := hloop
  dsimp only at hwrite
  rw [List.nil_append] at hwrite
  rw [processLine, bufText_append hs, ok_bind]
  dsimp only
  rw [hloop', ok_bind]
  dsimp only
  rw [hwrite, ok_bind, bufText_append hbody, ok_bind]
  by_cases hnil : lineBody check s = []
  · have htext : cleanText check s = [] := by
      rw [cleanText, hnil]
      rfl
    rw [if_pos (by rw [hnil, List.length_nil]), hnil, htext]
    rfl
  · rw [if_neg fun h => hnil (List.length_eq_zero_iff.mp h), cleanText]
    exact processTrim_eq hnil (head_lineBody check s)

/-- Where only the string counts. -/
lemma processLine_text (check : Bool) (hs : 0 ∉ s) (rest : List UInt8) :
    ∃ rest', processLine check (s ++ 0 :: rest) = .ok (cleanText check s ++ 0 :: rest') := by
  have hzeros : ∀ (k : ℕ) (y : List UInt8),
      List.replicate k 0 ++ 0 :: y = 0 :: (List.replicate k 0 ++ y) := by
    intro k y
    rw [← List.singleton_append, ← List.append_assoc, ← List.replicate_succ', List.replicate_succ]
    rfl
  rw [processLine_eq hs, List.append_assoc, hzeros]
  exact ⟨_, rfl⟩

/-- What is kept of a line is empty where its text is. -/
lemma lineBody_eq_nil (h : cleanText check s = []) : lineBody check s = [] := by
  have hhead := head_lineBody check s
  cases hbody : lineBody check s with
  | nil => rfl
  | cons c w =>
    rw [cleanText, hbody, trimRight, List.rdropWhile_eq_nil_iff] at h
    rw [hbody] at hhead
    have hc : c = 32 := by simpa using h c List.mem_cons_self
    exact absurd (congrArg some hc) hhead

/-- A cleaned text begins with no space. -/
lemma head_cleanText (s : List UInt8) : (cleanText check s).head? ≠ some 32 := by
  have h := head_lineBody check s
  intro htext
  obtain ⟨w, hw⟩ := List.head?_eq_some_iff.mp htext
  obtain ⟨v, hv⟩ : cleanText check s <+: lineBody check s := List.rdropWhile_prefix _ _
  rw [hw] at hv
  exact h (by rw [← hv]; rfl)

lemma zero_notMem_cleanText (hs : 0 ∉ s) : 0 ∉ cleanText check s := fun h =>
  hs ((lineBody_sublist check s).subset ((List.rdropWhile_prefix _ _).subset h))

/-! ### Trimming as a whole -/

/-- It does not matter that the spaces in front go before the line is cut. -/
lemma lineBody_eq (check : Bool) (s : List UInt8) :
    lineBody check s = trimLeft (cutHashtag check s) := by
  induction s with
  | nil => cases check <;> rfl
  | cons c s ih =>
    rw [cutHashtag_cons]
    by_cases hc : c = 32
    · have hhash : ¬(c = 35 ∧ check = true) := by simp [hc]
      rw [if_neg hhash, lineBody, trimLeft, trimLeft,
        List.dropWhile_cons_of_pos (by simpa using hc),
        List.dropWhile_cons_of_pos (by simpa using hc), ← trimLeft, ← trimLeft, ← lineBody, ih]
    · have hleft : trimLeft (c :: s) = c :: s := trimLeft_of_head (by simpa using hc)
      rw [lineBody, hleft, cutHashtag_cons]
      split_ifs
      · rfl
      · exact (trimLeft_of_head (by simpa using hc)).symm

/-- The text of a line has nothing to be cut off in front or behind, -/
lemma lineBody_cleanText (check : Bool) (s : List UInt8) :
    lineBody check (cleanText check s) = cleanText check s := by
  have hprefix : cleanText check s <+: lineBody check s := List.rdropWhile_prefix _ _
  rw [lineBody, trimLeft_of_head (head_cleanText s)]
  cases check with
  | false => rfl
  | true =>
    refine List.takeWhile_eq_self_iff.mpr fun c hc => ?_
    have hbody : c ∈ (trimLeft s).takeWhile fun c => c ≠ 35 := hprefix.subset hc
    exact List.mem_takeWhile_imp (p := fun c => decide (c ≠ 35)) hbody

/-- and is its own text. -/
lemma cleanText_cleanText (check : Bool) (s : List UInt8) :
    cleanText check (cleanText check s) = cleanText check s := by
  rw [cleanText, lineBody_cleanText, cleanText]
  exact List.rdropWhile_idempotent _ _

/-- **`process_line` is trimming**: the string in the memory becomes the line up to its first `#`
without the spaces around it, no byte behind the terminator is needed or changed, and a second
time changes nothing. -/
theorem processLine_trims (check : Bool) (hs : 0 ∉ s) : ∃ out,
    processLine check (s ++ [0]) = .ok out ∧ out.length = (s ++ [0]).length ∧
      bufText out = .ok (trimRight (trimLeft (cutHashtag check s))) ∧
      (∀ rest, processLine check (s ++ 0 :: rest) = .ok (out ++ rest)) ∧
      ∀ rest, processLine check (out ++ rest) = .ok (out ++ rest) := by
  have hle : (lineBody check s).length ≤ s.length := (lineBody_sublist check s).length_le
  have htext : (cleanText check s).length ≤ (lineBody check s).length :=
    (List.rdropWhile_prefix _ _).length_le
  obtain ⟨rest', hout⟩ := processLine_text check hs []
  have heq : processLine check (s ++ [0]) = _ := processLine_eq hs []
  have hlen : (cleanText check s ++ 0 :: rest').length = (s ++ [0]).length := by
    rw [hout] at heq
    rw [Except.ok.inj heq]
    simp
    omega
  refine ⟨cleanText check s ++ 0 :: rest', hout, hlen, ?_, fun rest => ?_, fun rest => ?_⟩
  · rw [bufText_append (zero_notMem_cleanText hs), cleanText, lineBody_eq]
  · rw [hout] at heq
    have hdrop : (s ++ 0 :: rest).drop ((lineBody check s).length + 1) =
        (s ++ [0]).drop ((lineBody check s).length + 1) ++ rest := by
      rw [← List.drop_append_of_le_length (by simpa using hle), List.append_assoc]
      rfl
    rw [processLine_eq hs rest, hdrop, Except.ok.inj heq]
    simp
  · have hclean : 0 ∉ cleanText check s := zero_notMem_cleanText hs
    have hagain : processLine check (cleanText check s ++ 0 :: (rest' ++ rest)) = _ :=
      processLine_eq hclean (rest' ++ rest)
    rw [cleanText_cleanText, lineBody_cleanText] at hagain
    simpa using hagain

end Memory

/-- The line ` a # b`, from which `a` is left. -/
theorem processLine_trims_comment : ∃ out,
    processLine true [32, 97, 32, 35, 32, 98, 0] = .ok out ∧ out.length = 7 ∧
      bufText out = .ok [97] := by
  obtain ⟨out, hout, hlen, htext, -⟩ :=
    processLine_trims (s := [32, 97, 32, 35, 32, 98]) true (by decide)
  exact ⟨out, hout, hlen, htext⟩

end MicroOS
