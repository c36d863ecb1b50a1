import MicroOS.User.ShellLine

/-!
Scripts of the terminal: `run_script` of `user/terminal/script.c`.

* `readLine`, `runScriptLoop`, `runScript`: the loops over the text of a script, with the buffer
  `current_line` that they share;
* `scriptCommands`: the commands of a script;
* `leftover`: what an earlier line has left in the buffer;
* `runScript_iff`: **exactly the commands are run, unless the last line has no newline and runs into
  such a leftover**.

The text of a script is given by value, and the buffer `command` is a copy of a string.
-/

namespace MicroOS

open Checked

/-- What `command_received` returns, and `should_break`. -/
structure CommandAnswer where
  found : Bool
  shouldBreak : Bool

/-- What was passed to `command_received`, and the line with which the terminal exits. -/
structure ScriptResult where
  passed : List (List UInt8)
  exitLine : Option ℕ
  deriving DecidableEq

/-- The size of `current_line`. -/
def lineSize : ℕ := 256

/-- The inner loop: `rest` is the text from `script_idx` on. It returns the text that is left, the
buffer, and whether a newline was read. -/
def readLine : List UInt8 → ℕ → List UInt8 → Except BufferFault (List UInt8 × List UInt8 × Bool)
  | [], _, currentLine => .ok ([], currentLine, false)
  | c :: rest, idx, currentLine =>
    if c = 10 then do return (rest, ← bufWrite currentLine idx 0, true)
    else do readLine rest (idx + 1) (← bufWrite currentLine idx c)

/-- The rest of a turn of the outer loop: `received` answers a command with all that were passed
before it, and `next` is where every `continue` leads. -/
def runLine (received : List (List UInt8) → CommandAnswer) (currentLine : List UInt8)
    (lineNumber : ℕ)
    (passed : List (List UInt8))
    (next : List UInt8 → List (List UInt8) → Except BufferFault ScriptResult) :
    Except BufferFault ScriptResult := do
  let c ← bufRead currentLine 0
  if c = 35 then next currentLine passed
  else if c = 0 then next currentLine passed
  else
    let currentLine ← processLine true currentLine
    if (← bufRead currentLine 0) = 0 then next currentLine passed
    else
      let passed := passed ++ [← bufText currentLine]
      let answer := received passed
      if !answer.found then return ⟨passed, some lineNumber⟩
      else if answer.shouldBreak then return ⟨passed, none⟩
      else next (List.replicate lineSize 0) passed

/-- The outer loop. -/
def runScriptLoop (received : List (List UInt8) → CommandAnswer) :
    ℕ → List UInt8 → List UInt8 → ℕ → List (List UInt8) → Except BufferFault ScriptResult
  | 0, _, _, _, _ => .error .outOfFuel
  | fuel + 1, rest, currentLine, lineNumber, passed => do
      let (rest, currentLine, newline) ← readLine rest 0 currentLine
      let lineNumber := if newline then lineNumber + 1 else lineNumber
      runLine received currentLine lineNumber passed fun currentLine passed =>
        if rest = [] then .ok ⟨passed, none⟩
        else runScriptLoop received fuel rest currentLine lineNumber passed

/-- `run_script`, for the text of the file. -/
def runScript (received : List (List UInt8) → CommandAnswer) (script : List UInt8) :
    Except BufferFault ScriptResult :=
  runScriptLoop received (script.length + 1) script (List.replicate lineSize 0) 0 []

/-! ### The commands of a script -/

/-- A line, cut at its first `#`, without the spaces around it. -/
def scriptText (line : List UInt8) : List UInt8 :=
  trimRight (trimLeft (line.takeWhile fun c => c ≠ 35))

/-- The texts of the lines that are not empty. -/
def scriptCommands (lines : List (List UInt8)) : List (List UInt8) :=
  (lines.map scriptText).filter fun text => text ≠ []

/-- The lines that are skipped behind the last command. -/
def skippedLines (lines : List (List UInt8)) : List (List UInt8) :=
  lines.rtakeWhile fun line => scriptText line = []

/-- What the skipped lines leave in the buffer from an index on: the rest of the last line that is
long enough. -/
def leftover (skipped : List (List UInt8)) (n : ℕ) : List UInt8 :=
  ((skipped.reverse.find? fun line => n ≤ line.length).getD []).drop n

/-- The last line ends with a newline, has a `#`, or runs into nothing but spaces before a `#`. -/
def LastLineEnds (script : List UInt8) : Prop :=
  let lines := (script.splitOn 10).dropLast
  let last := (script.splitOn 10).getLastD []
  last = [] ∨ 35 ∈ last ∨
    ∀ c ∈ (leftover (skippedLines lines) last.length).takeWhile (fun c => c ≠ 35), c = 32

instance (script : List UInt8) : Decidable (LastLineEnds script) :=
  inferInstanceAs (Decidable (_ ∨ _ ∨ _))

/-! ### The buffer -/

section Buffer

variable {line rest buf tail s : List UInt8} {skipped : List (List UInt8)} {n : ℕ}

/-- The buffer with what the skipped lines left in it. -/
structure LeftoverIn (skipped : List (List UInt8)) (buf : List UInt8) : Prop where
  length_eq : buf.length = lineSize
  last_eq : buf[255]? = some 0
  leftover_eq : ∀ n, 0 < n → (buf.drop n).takeWhile (fun c => c ≠ 0) = leftover skipped n

/-- At the start nothing is left over. -/
lemma LeftoverIn.zeros : LeftoverIn [] (List.replicate lineSize 0) := by
  refine ⟨List.length_replicate, ?_, fun n _ => ?_⟩
  · rw [List.getElem?_replicate, if_pos (by rw [lineSize]; norm_num)]
  · have hleft : leftover [] n = [] := by simp [leftover]
    rw [List.drop_replicate, hleft]
    cases lineSize - n with
    | zero => rfl
    | succ k => rfl

/-- A line with a newline behind it, where `p` is read before it. -/
lemma readLine_newline {p x : List UInt8} (hline : 10 ∉ line) (hx : line.length < x.length) :
    readLine (line ++ 10 :: rest) p.length (p ++ x) =
      .ok (rest, p ++ line ++ 0 :: x.drop (line.length + 1), true) := by
  induction line generalizing p x with
  | nil =>
    rw [List.nil_append, readLine, if_pos rfl, bufWrite_append p 0 (List.ne_nil_of_length_pos hx),
      List.append_nil]
    rfl
  | cons c line ih =>
    obtain ⟨hc, hline⟩ := not_or.mp (mt List.mem_cons.mpr hline)
    obtain ⟨d, x, rfl⟩ := List.exists_cons_of_ne_nil (List.ne_nil_of_length_pos
      (Nat.zero_lt_of_lt hx))
    have hstep := ih (p := p ++ [c]) (x := x) hline (Nat.lt_of_succ_lt_succ hx)
    rw [List.append_assoc p, List.length_append] at hstep
    rw [List.cons_append, readLine, if_neg (Ne.symm hc),
      bufWrite_append p c (List.cons_ne_nil d x), ok_bind, List.append_cons p c line]
    exact hstep

/-- A line without a newline. -/
lemma readLine_end {p x : List UInt8} (hline : 10 ∉ line) (hx : line.length < x.length) :
    readLine line p.length (p ++ x) = .ok ([], p ++ line ++ x.drop line.length, false) := by
  induction line generalizing p x with
  | nil =>
    rw [readLine, List.append_nil]
    rfl
  | cons c line ih =>
    obtain ⟨hc, hline⟩ := not_or.mp (mt List.mem_cons.mpr hline)
    obtain ⟨d, x, rfl⟩ := List.exists_cons_of_ne_nil (List.ne_nil_of_length_pos
      (Nat.zero_lt_of_lt hx))
    have hstep := ih (p := p ++ [c]) (x := x) hline (Nat.lt_of_succ_lt_succ hx)
    rw [List.append_assoc p, List.length_append] at hstep
    rw [readLine, if_neg (Ne.symm hc), bufWrite_append p c (List.cons_ne_nil d x), ok_bind,
      List.append_cons p c line]
    exact hstep

/-- **A skipped line** leaves what is behind its terminator. -/
lemma LeftoverIn.skip (h : LeftoverIn skipped buf) (hline : 0 ∉ line) (hshort : line.length < 256) :
    LeftoverIn (skipped ++ [line]) (line ++ 0 :: buf.drop (line.length + 1)) := by
  have hlen := h.length_eq
  rw [lineSize] at hlen
  refine ⟨?_, ?_, fun n hn => ?_⟩
  · rw [List.length_append, List.length_cons, List.length_drop, hlen, lineSize]
    omega
  · rw [List.getElem?_append_right (by omega)]
    by_cases hend : line.length = 255
    · rw [hend]
      rfl
    · obtain ⟨k, hk⟩ : ∃ k, 255 - line.length = k + 1 := ⟨254 - line.length, by omega⟩
      rw [hk, List.getElem?_cons_succ, List.getElem?_drop, ← h.last_eq]
      congr 1
      omega
  · rw [leftover, List.reverse_append, List.reverse_singleton, List.singleton_append,
      List.find?_cons]
    by_cases hle : n ≤ line.length
    · have hplain : ∀ c ∈ line.drop n, decide (c ≠ 0) = true := fun c hc =>
        decide_eq_true fun h0 => hline (h0 ▸ List.mem_of_mem_drop hc)
      rw [List.drop_append_of_le_length hle, List.takeWhile_append_of_pos hplain]
      simp [hle]
    · have hdrop : (line ++ 0 :: buf.drop (line.length + 1)).drop n = buf.drop n := by
        obtain ⟨k, rfl⟩ : ∃ k, n = line.length + (k + 1) := ⟨n - line.length - 1, by omega⟩
        rw [List.drop_append, Nat.add_sub_cancel_left, List.drop_succ_cons, List.drop_drop]
        simp [Nat.add_assoc, Nat.add_comm 1]
      rw [hdrop, h.leftover_eq n hn, leftover]
      simp [hle]

/-- The first byte does not count. -/
lemma LeftoverIn.clear (h : LeftoverIn skipped buf) : LeftoverIn skipped (0 :: buf.drop 1) := by
  have hlen := h.length_eq
  obtain ⟨c, buf, rfl⟩ := List.exists_cons_of_ne_nil
    (List.ne_nil_of_length_pos (by rw [hlen, lineSize]; norm_num))
  refine ⟨hlen, h.last_eq, fun n hn => ?_⟩
  obtain ⟨k, rfl⟩ := Nat.exists_eq_succ_of_ne_zero hn.ne'
  exact h.leftover_eq (k + 1) hn

/-- What stands in the buffer is a string. -/
lemma exists_text (h : 0 ∈ s) : ∃ rest, s = s.takeWhile (fun c => c ≠ 0) ++ 0 :: rest := by
  have hsplit := List.takeWhile_append_dropWhile (p := fun c : UInt8 => decide (c ≠ 0)) (l := s)
  cases hdrop : s.dropWhile fun c => decide (c ≠ 0) with
  | nil =>
    rw [List.dropWhile_eq_nil_iff] at hdrop
    exact absurd rfl (of_decide_eq_true (hdrop 0 h))
  | cons c rest =>
    have hc := List.head?_dropWhile_not (fun c => decide (c ≠ 0)) s
    rw [hdrop] at hc hsplit
    have hzero : c = 0 := by simpa using hc
    rw [hzero] at hsplit
    exact ⟨rest, hsplit.symm⟩

lemma zero_notMem_takeWhile (s : List UInt8) : 0 ∉ s.takeWhile fun c => c ≠ 0 := fun h =>
  absurd (List.mem_takeWhile_imp h) (by simp)

end Buffer

/-! ### Texts of lines -/

section Texts

variable {line tail s : List UInt8}

/-- It makes no difference whether a line is cut or trimmed first. -/
lemma cleanText_eq_scriptText (s : List UInt8) : cleanText true s = scriptText s := by
  induction s with
  | nil => rfl
  | cons c s ih =>
    by_cases hc : c = 32
    · have hline : cleanText true (c :: s) = cleanText true s := by
        rw [cleanText, lineBody, trimLeft, List.dropWhile_cons_of_pos (by simpa using hc)]
        rfl
      have hscript : scriptText (c :: s) = scriptText s := by
        rw [scriptText, List.takeWhile_cons_of_pos (by simp [hc]), trimLeft,
          List.dropWhile_cons_of_pos (by simpa using hc)]
        rfl
      rw [hline, hscript, ih]
    · have hleft : trimLeft (c :: s) = c :: s :=
        List.dropWhile_cons_of_neg (by simpa using hc)
      rw [cleanText, lineBody, hleft, cutHashtag, if_pos rfl, scriptText]
      by_cases hhash : c = 35
      · rw [List.takeWhile_cons_of_neg (by simpa using hhash)]
        rfl
      · rw [List.takeWhile_cons_of_pos (by simpa using hhash), trimLeft,
          List.dropWhile_cons_of_neg (by simpa using hc)]

/-- Trimming takes nothing but spaces. -/
lemma trim_append_iff (line tail : List UInt8) :
    trimRight (trimLeft (line ++ tail)) = trimRight (trimLeft line) ↔ ∀ c ∈ tail, c = 32 := by
  induction tail using List.reverseRecOn with
  | nil => simp
  | append_singleton tail c ih =>
    rw [← List.append_assoc, List.forall_mem_append]
    by_cases hc : c = 32
    · rw [hc, trim_concat_space, ih]
      simp
    · rw [trim_concat hc]
      refine iff_of_false (fun h => ?_) fun h => hc (h.2 c (List.mem_singleton_self c))
      have hlen := congrArg List.length h
      have hright : (trimRight (trimLeft line)).length ≤ (trimLeft line).length :=
        (List.rdropWhile_prefix _ _).length_le
      have hleft : (trimLeft line).length ≤ (trimLeft (line ++ tail)).length := by
        rw [trimLeft_append]
        split_ifs with hline
        · rw [hline]
          exact Nat.zero_le _
        · rw [List.length_append]
          exact Nat.le_add_right _ _
      rw [List.length_append, List.length_singleton] at hlen
      omega

/-- **What runs into a line** changes its text, unless it is behind a `#`, or there are only spaces
before one. -/
lemma scriptText_append_iff (line tail : List UInt8) : scriptText (line ++ tail) = scriptText line ↔
    35 ∈ line ∨ ∀ c ∈ tail.takeWhile (fun c => c ≠ 35), c = 32 := by
  by_cases hhash : 35 ∈ line
  · have hcut : (line ++ tail).takeWhile (fun c => c ≠ 35) = line.takeWhile fun c => c ≠ 35 := by
      rw [List.takeWhile_append, if_neg]
      intro hlen
      have hall := List.takeWhile_eq_self_iff.mp
        ((List.takeWhile_prefix fun c : UInt8 => decide (c ≠ 35)).eq_of_length hlen)
      exact absurd (hall 35 hhash) (by simp)
    rw [scriptText, scriptText, hcut]
    exact iff_of_true rfl (Or.inl hhash)
  · have hplain : ∀ c ∈ line, decide (c ≠ 35) = true := fun c hc =>
      decide_eq_true fun h => hhash (h ▸ hc)
    have hline : line.takeWhile (fun c => c ≠ 35) = line := List.takeWhile_eq_self_iff.mpr hplain
    rw [scriptText, scriptText, List.takeWhile_append_of_pos hplain, hline, trim_append_iff]
    exact (or_iff_right hhash).symm

end Texts

/-! ### The loop -/

section Loop

variable {received : List (List UInt8) → CommandAnswer} {line last text rest buf : List UInt8}
  {lines skipped passed : List (List UInt8)} {lineNumber fuel : ℕ}
  {next : List UInt8 → List (List UInt8) → Except BufferFault ScriptResult}

/-- Every command is found, and none requests a break. -/
def Obeys (received : List (List UInt8) → CommandAnswer) : Prop :=
  ∀ passed, (received passed).found = true ∧ (received passed).shouldBreak = false

variable (received rest passed lineNumber) in
/-- **A line without a text** is skipped: at most the first byte of the buffer is changed. -/
lemma runLine_skip (htext : 0 ∉ text) (h : scriptText text = []) :
    runLine received (text ++ 0 :: rest) lineNumber passed next = next (text ++ 0 :: rest) passed ∨
      runLine received (text ++ 0 :: rest) lineNumber passed next =
        next (0 :: (text ++ 0 :: rest).drop 1) passed := by
  cases text with
  | nil =>
    left
    rw [runLine]
    rfl
  | cons c text =>
    have hread : bufRead (c :: text ++ 0 :: rest) 0 = .ok c := rfl
    rw [runLine, hread, ok_bind]
    by_cases hhash : c = 35
    · left
      rw [if_pos hhash]
    · have hc : c ≠ 0 := fun h0 => htext (h0 ▸ List.mem_cons_self)
      right
      rw [← cleanText_eq_scriptText] at h
      have hbody := lineBody_eq_nil h
      rw [if_neg hhash, if_neg hc, processLine_eq htext, hbody, h]
      rfl

/-- **A line with a text** is passed on, and the buffer is cleared. -/
lemma runLine_text (hobeys : Obeys received) (htext : 0 ∉ text) (h : scriptText text ≠ []) :
    runLine received (text ++ 0 :: rest) lineNumber passed next =
      next (List.replicate lineSize 0) (passed ++ [scriptText text]) := by
  cases text with
  | nil => exact absurd rfl h
  | cons c text =>
    have hread : bufRead (c :: text ++ 0 :: rest) 0 = .ok c := rfl
    have hc : c ≠ 0 := fun h0 => htext (h0 ▸ List.mem_cons_self)
    have hhash : c ≠ 35 := by
      intro hc
      refine h ?_
      rw [scriptText, List.takeWhile_cons_of_neg (by simpa using hc)]
      rfl
    have hzero : 0 ∉ cleanText true (c :: text) := zero_notMem_cleanText htext
    obtain ⟨rest', hline⟩ := processLine_text true htext rest
    rw [cleanText_eq_scriptText] at hline hzero
    obtain ⟨d, w, hw⟩ := List.exists_cons_of_ne_nil h
    have hd : d ≠ 0 := fun h0 => hzero (hw ▸ h0 ▸ List.mem_cons_self)
    have hfirst : bufRead (scriptText (c :: text) ++ 0 :: rest') 0 = .ok d := by
      rw [hw]
      rfl
    obtain ⟨hfound, hbreak⟩ := hobeys (passed ++ [scriptText (c :: text)])
    rw [runLine, hread, ok_bind, if_neg hhash, if_neg hc, hline, ok_bind, hfirst, ok_bind,
      if_neg hd, bufText_append hzero, ok_bind]
    simp [hfound, hbreak]

/-- A text by its lines, the last of which has no newline. -/
def joinLines (lines : List (List UInt8)) (last : List UInt8) : List UInt8 :=
  (lines.flatMap fun line => line ++ [10]) ++ last

/-- The lines that are skipped behind the last command, after some that were. -/
def skippedFrom : List (List UInt8) → List (List UInt8) → List (List UInt8)
  | skipped, [] => skipped
  | skipped, line :: lines =>
    if scriptText line = [] then skippedFrom (skipped ++ [line]) lines
    else skippedFrom [] lines

/-- The command of the last line, with what it runs into. -/
def lastCommand (skipped : List (List UInt8)) (last : List UInt8) : List (List UInt8) :=
  if last = [] then []
  else [scriptText (last ++ leftover skipped last.length)].filter fun text => text ≠ []

/-- A line that the loop can read. -/
structure ShortLine (line : List UInt8) : Prop where
  zero_notMem : 0 ∉ line
  newline_notMem : 10 ∉ line
  length_lt : line.length < 256

/-- The command of a line, and those of the others. -/
lemma scriptCommands_cons (line : List UInt8) (lines : List (List UInt8)) :
    scriptCommands (line :: lines) =
      (if scriptText line = [] then [] else [scriptText line]) ++ scriptCommands lines := by
  rw [scriptCommands, List.map_cons, List.filter_cons]
  split_ifs with h1 h2 <;> simp_all [scriptCommands]

/-- The last line is run with what is left of the lines that were skipped before it. -/
lemma runScriptLoop_last (hobeys : Obeys received) (hbuf : LeftoverIn skipped buf)
    (hlast : ShortLine last) (hne : last ≠ []) :
    runScriptLoop received (fuel + 1) last buf lineNumber passed =
      .ok ⟨passed ++ lastCommand skipped last, none⟩ := by
  have hlen := hbuf.length_eq
  have hshort := hlast.length_lt
  have hread : readLine last 0 buf = .ok ([], last ++ buf.drop last.length, false) :=
    readLine_end (p := []) hlast.newline_notMem (by rw [hlen, lineSize]; exact hshort)
  have hzero : 0 ∈ buf.drop last.length := by
    refine List.mem_of_getElem? (i := 255 - last.length) ?_
    rw [List.getElem?_drop, ← hbuf.last_eq]
    congr 1
    omega
  obtain ⟨rest, hsplit⟩ := exists_text hzero
  have htext : 0 ∉ last ++ (buf.drop last.length).takeWhile fun c => c ≠ 0 := fun h =>
    (List.mem_append.mp h).elim hlast.zero_notMem (zero_notMem_takeWhile _)
  have hmem : last ++ buf.drop last.length =
      (last ++ (buf.drop last.length).takeWhile fun c => c ≠ 0) ++ 0 :: rest := by
    rw [List.append_assoc, ← hsplit]
  have hleft := hbuf.leftover_eq last.length (List.length_pos_iff.mpr hne)
  rw [runScriptLoop, hread, ok_bind]
  dsimp only
  rw [hmem, lastCommand, if_neg hne, ← hleft]
  by_cases h : scriptText (last ++ (buf.drop last.length).takeWhile fun c => c ≠ 0) = []
  · rw [h]
    obtain hskip | hskip := runLine_skip received rest passed lineNumber htext h
    all_goals
      rw [if_neg Bool.false_ne_true, hskip]
      simp
  · have hfilter := List.filter_cons_of_pos (p := fun text : List UInt8 => decide (text ≠ []))
      (l := []) (decide_eq_true h)
    rw [if_neg Bool.false_ne_true, runLine_text hobeys htext h, hfilter]
    simp

variable (passed lineNumber) in
/-- **The run of a script**: the commands of its lines, and of the last one. -/
lemma runScriptLoop_eq (hobeys : Obeys received) (hbuf : LeftoverIn skipped buf)
    (hlines : ∀ line ∈ lines, ShortLine line) (hlast : ShortLine last)
    (hne : joinLines lines last ≠ []) (hfuel : lines.length < fuel) :
    runScriptLoop received fuel (joinLines lines last) buf lineNumber passed =
      .ok ⟨passed ++ scriptCommands lines ++ lastCommand (skippedFrom skipped lines) last,
        none⟩ := by
  induction lines generalizing skipped buf lineNumber passed fuel with
  | nil =>
    obtain ⟨fuel, rfl⟩ := Nat.exists_eq_succ_of_ne_zero (Nat.ne_zero_of_lt hfuel)
    have hrun : runScriptLoop received (fuel + 1) last buf lineNumber passed =
        .ok ⟨passed ++ lastCommand skipped last, none⟩ :=
      runScriptLoop_last hobeys hbuf hlast hne
    simpa [scriptCommands, skippedFrom, joinLines] using hrun
  | cons line lines ih =>
    obtain ⟨fuel, rfl⟩ := Nat.exists_eq_succ_of_ne_zero (Nat.ne_zero_of_lt hfuel)
    have hline := hlines line List.mem_cons_self
    have hlen := hbuf.length_eq
    have hjoin : joinLines (line :: lines) last = line ++ 10 :: joinLines lines last := by
      simp [joinLines]
    have hread : readLine (line ++ 10 :: joinLines lines last) 0 buf =
        .ok (joinLines lines last, line ++ 0 :: buf.drop (line.length + 1), true) :=
      readLine_newline (p := []) hline.newline_notMem
        (by rw [hlen, lineSize]; exact hline.length_lt)
    -- what the rest of the lines does
    have hnext : ∀ {skipped buf passed}, LeftoverIn skipped buf →
        (if joinLines lines last = [] then .ok ⟨passed, none⟩
        else runScriptLoop received fuel (joinLines lines last) buf (lineNumber + 1) passed) =
        Except.ok (ε := BufferFault) ⟨passed ++ scriptCommands lines ++
          lastCommand (skippedFrom skipped lines) last, none⟩ := by
      intro skipped buf passed hbuf
      split_ifs with hempty
      · have hboth : lines = [] ∧ last = [] := by
          cases lines with
          | nil => exact ⟨rfl, hempty⟩
          | cons line lines => simp [joinLines] at hempty
        rw [hboth.1, hboth.2]
        simp [scriptCommands, lastCommand]
      · exact ih passed _ hbuf (fun line h => hlines line (List.mem_cons_of_mem _ h)) hempty
          (Nat.lt_of_succ_lt_succ hfuel)
    rw [hjoin, runScriptLoop, hread, ok_bind]
    dsimp only
    rw [if_pos rfl, skippedFrom, scriptCommands_cons]
    have hskipped := hbuf.skip hline.zero_notMem hline.length_lt
    by_cases h : scriptText line = []
    · rw [if_pos h, if_pos h, List.nil_append]
      obtain hskip | hskip := runLine_skip received (buf.drop (line.length + 1)) passed
        (lineNumber + 1) hline.zero_notMem h
      · rw [hskip]
        exact hnext hskipped
      · rw [hskip]
        exact hnext hskipped.clear
    · rw [if_neg h, if_neg h, runLine_text hobeys hline.zero_notMem h, ← List.append_assoc]
      exact hnext LeftoverIn.zeros

/-- A line with a text ends what is skipped. -/
lemma skippedLines_behind (h : scriptText line ≠ []) (front lines : List (List UInt8)) :
    skippedLines (front ++ line :: lines) = skippedLines lines := by
  have hreverse : (front ++ line :: lines).reverse = lines.reverse ++ line :: front.reverse := by
    simp
  rw [skippedLines, skippedLines, List.rtakeWhile, List.rtakeWhile, hreverse, List.takeWhile_append,
    List.takeWhile_cons_of_neg (by simpa using h), List.append_nil]
  split_ifs with hlen
  · rw [((List.takeWhile_prefix _).eq_of_length hlen)]
  · rfl

/-- Lines without a command are skipped. -/
lemma skippedFrom_eq (hskipped : ∀ line ∈ skipped, scriptText line = []) :
    skippedFrom skipped lines = skippedLines (skipped ++ lines) := by
  induction lines generalizing skipped with
  | nil =>
    rw [skippedFrom, List.append_nil, skippedLines, List.rtakeWhile_eq_self_iff.mpr]
    exact fun line h => decide_eq_true (hskipped line h)
  | cons line lines ih =>
    rw [skippedFrom]
    split_ifs with h
    · rw [ih (List.forall_mem_append.mpr ⟨hskipped, by simpa using h⟩), List.append_assoc,
        List.singleton_append]
    · rw [ih fun line h => absurd h List.not_mem_nil, skippedLines_behind h, List.nil_append]

/-- A part between separators has none. -/
lemma notMem_of_mem_splitOn {a : UInt8} {l : List UInt8} (text : List UInt8)
    (h : l ∈ text.splitOn a) : a ∉ l := by
  induction text generalizing l with
  | nil =>
    rw [List.splitOn_nil, List.mem_singleton] at h
    rw [h]
    exact List.not_mem_nil
  | cons c text ih =>
    rw [List.splitOn_cons_eq_if_modifyHead] at h
    split_ifs at h with hc
    · obtain rfl | h := List.mem_cons.mp h
      · exact List.not_mem_nil
      · exact ih h
    · cases hsplit : text.splitOn a with
      | nil => exact absurd hsplit (List.splitOn_ne_nil a text)
      | cons first others =>
        rw [hsplit, List.modifyHead_cons] at h
        rw [hsplit] at ih
        obtain rfl | h := List.mem_cons.mp h
        · have hca : c ≠ a := by simpa using hc
          rw [List.mem_cons, not_or]
          exact ⟨hca.symm, ih List.mem_cons_self⟩
        · exact ih (List.mem_cons_of_mem _ h)

/-- Lines and their newlines. -/
lemma joinLines_eq (lines : List (List UInt8)) (last : List UInt8) :
    [10].intercalate (lines ++ [last]) = joinLines lines last := by
  induction lines with
  | nil => simp [joinLines]
  | cons line lines ih =>
    rw [List.cons_append, List.intercalate_cons_of_ne_nil (by simp), ih]
    simp [joinLines]

/-- A line has a character with its newline. -/
lemma length_le_joinLines (lines : List (List UInt8)) (last : List UInt8) :
    lines.length ≤ (joinLines lines last).length := by
  induction lines with
  | nil => exact Nat.zero_le _
  | cons line lines ih =>
    have hcons : joinLines (line :: lines) last = line ++ 10 :: joinLines lines last := by
      simp [joinLines]
    rw [hcons, List.length_append, List.length_cons, List.length_cons]
    omega

/-- The text of the last line is as it should be. -/
lemma lastCommand_eq_iff (skipped : List (List UInt8)) (last : List UInt8) :
    lastCommand skipped last = scriptCommands [last] ↔ last = [] ∨ 35 ∈ last ∨
      ∀ c ∈ (leftover skipped last.length).takeWhile (fun c => c ≠ 35), c = 32 := by
  by_cases hlast : last = []
  · rw [hlast]
    exact iff_of_true rfl (Or.inl rfl)
  · have hsingle : ∀ s t : List UInt8, [s].filter (fun text => text ≠ []) =
        [t].filter (fun text => text ≠ []) ↔ s = t := by
      intro s t
      by_cases hs : s = []
      · by_cases ht : t = []
        · simp [hs, ht]
        · simp [hs, ht, eq_comm]
      · by_cases ht : t = []
        · simp [hs, ht]
        · simp [hs, ht]
    have hone : scriptCommands [last] = [scriptText last].filter fun text => text ≠ [] := rfl
    rw [lastCommand, if_neg hlast, hone, hsingle, scriptText_append_iff]
    exact (or_iff_right hlast).symm

/-- The commands of lines, and of a last one. -/
lemma scriptCommands_append (lines : List (List UInt8)) (last : List UInt8) :
    scriptCommands (lines ++ [last]) = scriptCommands lines ++ scriptCommands [last] := by
  rw [scriptCommands, List.map_append, List.filter_append]
  rfl

/-- **Scripts run exactly their lines** where the last line ends with a newline, has a `#`, or runs
into nothing but spaces before a `#`. -/
theorem runScript_iff {script : List UInt8} (hobeys : Obeys received) (hscript : 0 ∉ script)
    (hlines : ∀ line ∈ script.splitOn 10, line.length < 256) :
    (∃ result, runScript received script = .ok result ∧
      result.passed = scriptCommands (script.splitOn 10)) ↔ LastLineEnds script := by
  obtain hnil | ⟨lines, last, hsplit⟩ := List.eq_nil_or_concat (script.splitOn 10)
  · exact absurd hnil (List.splitOn_ne_nil 10 script)
  rw [List.concat_eq_append] at hsplit
  have hjoin : script = joinLines lines last := by
    rw [← joinLines_eq, ← hsplit, List.intercalate_splitOn]
  have hshort : ∀ line ∈ lines ++ [last], ShortLine line := by
    intro line hline
    have hzero : 0 ∉ line := by
      intro h
      rw [hjoin, joinLines, List.mem_append, List.mem_flatMap] at hscript
      obtain hline | hline := List.mem_append.mp hline
      · exact hscript (Or.inl ⟨line, hline, List.mem_append_left _ h⟩)
      · rw [List.mem_singleton] at hline
        exact hscript (Or.inr (hline ▸ h))
    rw [← hsplit] at hline
    exact ⟨hzero, notMem_of_mem_splitOn script hline, hlines line hline⟩
  -- the lines that end are run as they are, so the last one decides
  have hends : LastLineEnds script ↔ lastCommand (skippedLines lines) last =
      scriptCommands [last] := by
    have hlast : (lines ++ [last]).getLastD [] = last := by simp
    rw [lastCommand_eq_iff, LastLineEnds, hsplit, List.dropLast_concat, hlast]
  rw [hends, hsplit, scriptCommands_append]
  have hrun : runScript received script =
      .ok ⟨scriptCommands lines ++ lastCommand (skippedLines lines) last, none⟩ := by
    by_cases hempty : script = []
    · have hboth : lines = [] ∧ last = [] := by
        rw [hempty, List.splitOn_nil] at hsplit
        cases lines with
        | nil => exact ⟨rfl, (List.cons.inj hsplit).1.symm⟩
        | cons line lines => simp at hsplit
      rw [hempty, hboth.1, hboth.2]
      rfl
    · have hlength : lines.length < script.length + 1 := by
        rw [hjoin]
        exact Nat.lt_succ_of_le (length_le_joinLines lines last)
      have hloop := runScriptLoop_eq [] 0 hobeys LeftoverIn.zeros
        (fun line h => hshort line (List.mem_append_left _ h))
        (hshort last (List.mem_append_right _ (List.mem_singleton_self last)))
        (hjoin ▸ hempty) hlength
      rw [skippedFrom_eq fun line h => absurd h List.not_mem_nil, ← hjoin] at hloop
      exact hloop
  rw [hrun]
  constructor
  · rintro ⟨result, hresult, hpassed⟩
    obtain rfl := Except.ok.inj hresult
    exact List.append_cancel_left hpassed
  · intro h
    exact ⟨_, rfl, by rw [h]⟩

/-- A blank line, a command, and a comment at the end. -/
theorem runScript_comment : ∃ result,
    runScript (fun _ => ⟨true, false⟩) [10, 108, 115, 10, 35, 32, 120] = .ok result ∧
      result.passed = [[108, 115]] := by
  have hobeys : Obeys fun _ => ⟨true, false⟩ := fun _ => ⟨rfl, rfl⟩
  have hscript : (0 : UInt8) ∉ [10, 108, 115, 10, 35, 32, 120] := by decide
  exact (runScript_iff hobeys hscript (by decide)).mpr (by decide)

/-- Behind the comment `#abc`, the last line `ls` runs into what is left of it: `lsbc`. -/
theorem runScript_leftover :
    runScript (fun _ => ⟨true, false⟩) [35, 97, 98, 99, 10, 108, 115] =
        .ok ⟨[[108, 115, 98, 99]], none⟩ ∧
      scriptCommands ([35, 97, 98, 99, 10, 108, 115].splitOn 10) = [[108, 115]] := by
  decide +kernel

end Loop

end MicroOS
