import MicroOS.Lib.Checked
import MicroOS.Lib.Terminated
import MicroOS.User.ShellQuotes

/-!
The arguments of a command: `argv_split` of `user/terminal/argv_tools.c`.

* `argvCount`, `argvTurn`, `argvSplit`: the counting pass, a turn of the pass that cuts the string,
  and both passes;
* `argvSplit_cuts`: **the array is filled exactly, the arguments joined by spaces are the command,
  and the cuts are the spaces outside of the quotes**.

A command is given by value, without the zero at its end, and `malloc` returns.
-/

namespace MicroOS

open Checked Terminated

/-- What stands in an element of `argv`: nothing yet, `NULL`, or the address of a character. -/
inductive ArgvCell where
  | uninitialised
  | null
  | str (offset : ℕ)
  deriving DecidableEq

/-- A read behind the string, or a write behind the array. -/
inductive ArgvFault where
  | stringEnd
  | arrayEnd
  deriving DecidableEq

/-- The variables of the second pass. -/
structure ArgvState where
  str : List UInt8
  argv : List ArgvCell
  argc : ℕ
  flags : QuoteFlags
  deriving DecidableEq

/-- The counting pass: `argc`. -/
def argvCount (str : List UInt8) : ℕ :=
  (str.foldl (fun (s : QuoteFlags × ℕ) c => (splitStep s.1 c,
    if c = 32 ∧ !s.1.quoteOpen ∧ !s.1.doubleQuoteOpen then s.2 + 1 else s.2)) (.closed, 1)).2

/-- A turn of the second pass. -/
def argvTurn (s : ArgvState) (i : ℕ) : Except ArgvFault ArgvState :=
  match s.str[i]? with
  | none => .error .stringEnd
  | some c =>
    if c = 32 ∧ !s.flags.quoteOpen ∧ !s.flags.doubleQuoteOpen then
      if s.argc < s.argv.length then
        .ok { s with str := s.str.set i 0, argv := s.argv.set s.argc (.str (i + 1)),
                     argc := s.argc + 1, flags := splitStep s.flags c }
      else .error .arrayEnd
    else .ok { s with flags := splitStep s.flags c }

/-- `argv_split`: the string afterwards, and the array. -/
def argvSplit (str : List UInt8) : Except ArgvFault (List UInt8 × List ArgvCell) := do
  let argv := (List.replicate (argvCount str + 1) ArgvCell.uninitialised).set 0 (.str 0)
  let s ← (List.range str.length).foldlM argvTurn ⟨str, argv, 1, .closed⟩
  if s.argc < s.argv.length then return (s.str, s.argv.set s.argc .null)
  else .error .arrayEnd

/-- The spaces outside of both kinds of quotes, as `argv_split` has them. -/
def isCut (str : List UInt8) (i : ℕ) : Bool :=
  str[i]? = some 32 ∧ (splitFlags (str.take i)).quoting = .outside

/-- The places of these spaces. -/
def cuts (str : List UInt8) : List ℕ := (List.range str.length).filter (isCut str)

/-- The string with its first `n` characters gone over. -/
def cutString (str : List UInt8) (n : ℕ) : List UInt8 :=
  str.mapIdx fun i c => if i < n ∧ isCut str i then 0 else c

section Passes

variable {str : List UInt8} {n : ℕ} {c : UInt8}

/-- The test of both passes. -/
lemma cut_test_iff (hc : str[n]? = some c) : (c = 32 ∧ !(splitFlags (str.take n)).quoteOpen ∧
    !(splitFlags (str.take n)).doubleQuoteOpen) ↔ isCut str n = true := by
  have h : ∀ q d e : Bool, (!q ∧ !d) ↔ (QuoteFlags.mk q d e).quoting = .outside := by decide
  rw [isCut, hc, decide_eq_true_iff, Option.some_inj]
  exact and_congr_right fun _ => h _ _ _

lemma take_succ_of_getElem? (hc : str[n]? = some c) : str.take (n + 1) = str.take n ++ [c] := by
  rw [List.take_add_one, hc]
  rfl

/-- The flags behind one more character. -/
lemma splitFlags_take_succ (hc : str[n]? = some c) :
    splitFlags (str.take (n + 1)) = splitStep (splitFlags (str.take n)) c := by
  rw [take_succ_of_getElem? hc, splitFlags, List.foldl_append]
  rfl

/-- The places below a bound, with one more. -/
lemma range_filter_succ (p : ℕ → Bool) (n : ℕ) : (List.range (n + 1)).filter p =
    (List.range n).filter p ++ if p n then [n] else [] := by
  rw [List.range_succ, List.filter_append, List.filter_singleton, Bool.cond_eq_ite]

/-- The counting pass counts the cuts. -/
lemma argvCount_eq (str : List UInt8) : argvCount str = (cuts str).length + 1 := by
  have h : ∀ n ≤ str.length, (str.take n).foldl (fun (s : QuoteFlags × ℕ) c => (splitStep s.1 c,
      if c = 32 ∧ !s.1.quoteOpen ∧ !s.1.doubleQuoteOpen then s.2 + 1 else s.2)) (.closed, 1) =
      (splitFlags (str.take n), ((List.range n).filter (isCut str)).length + 1) := by
    intro n hn
    induction n with
    | zero => rfl
    | succ n ih =>
      have hc : str[n]? = some str[n] := List.getElem?_eq_getElem hn
      rw [splitFlags_take_succ hc, take_succ_of_getElem? hc, List.foldl_append,
        ih (Nat.le_of_succ_le hn), range_filter_succ, List.foldl_cons, List.foldl_nil]
      by_cases hcut : isCut str n = true
      · rw [if_pos ((cut_test_iff hc).mpr hcut), if_pos hcut, List.length_append]
        rfl
      · rw [if_neg fun h => hcut ((cut_test_iff hc).mp h), if_neg hcut, List.append_nil]
  have hall := h str.length le_rfl
  rw [List.take_length] at hall
  rw [argvCount, hall, cuts]

/-- The second pass behind `n` characters: they are gone over, and the array has the starts
so far. -/
structure Passed (str : List UInt8) (n : ℕ) (s : ArgvState) : Prop where
  str_eq : s.str = cutString str n
  flags_eq : s.flags = splitFlags (str.take n)
  argc_eq : s.argc = ((List.range n).filter (isCut str)).length + 1
  argv_eq : s.argv = .str 0 :: ((List.range n).filter (isCut str)).map (fun i => .str (i + 1)) ++
    List.replicate (argvCount str + 1 - s.argc) .uninitialised

lemma cutString_getElem? (hc : str[n]? = some c) : (cutString str n)[n]? = some c := by
  rw [cutString, List.getElem?_mapIdx, hc, Option.map_some, if_neg (by simp)]

/-- One more character is cut, or it stays. -/
lemma cutString_succ (str : List UInt8) (n : ℕ) : cutString str (n + 1) =
    if isCut str n then (cutString str n).set n 0 else cutString str n := by
  have helem : ∀ i, (cutString str (n + 1))[i]? =
      if isCut str n = true ∧ i = n ∧ i < str.length then some 0 else (cutString str n)[i]? := by
    intro i
    rw [cutString, cutString, List.getElem?_mapIdx, List.getElem?_mapIdx]
    by_cases hi : i < str.length
    · rw [List.getElem?_eq_getElem hi, Option.map_some, Option.map_some]
      by_cases hin : i = n
      · subst hin
        simp [hi]
        split_ifs <;> rfl
      · have hlt : i < n + 1 ↔ i < n := by omega
        simp only [hin, hlt, false_and, and_false, if_false]
    · rw [List.getElem?_eq_none (not_lt.mp hi), if_neg fun h => hi h.2.2]
      rfl
  refine List.ext_getElem? fun i => ?_
  rw [helem]
  by_cases hcut : isCut str n = true
  · have hlen : (cutString str n).length = str.length := List.length_mapIdx
    rw [if_pos hcut, List.getElem?_set, hlen]
    by_cases hin : n = i
    · rw [if_pos hin]
      by_cases hi : i < str.length
      · rw [if_pos ⟨hcut, hin.symm, hi⟩, if_pos (hin ▸ hi)]
      · rw [if_neg fun h => hi h.2.2, if_neg (hin ▸ hi), List.getElem?_eq_none (by omega)]
    · rw [if_neg hin, if_neg fun h => hin h.2.1.symm]
  · rw [if_neg hcut, if_neg fun h => hcut h.1]

/-- Less cuts are found before a cut than in the whole string. -/
lemma cuts_before (hn : n < str.length) (hcut : isCut str n = true) :
    ((List.range n).filter (isCut str)).length < (cuts str).length := by
  have hsub : ((List.range (n + 1)).filter (isCut str)).length ≤ (cuts str).length :=
    ((List.range_sublist.mpr hn).filter _).length_le
  rw [range_filter_succ, if_pos hcut, List.length_append, List.length_singleton] at hsub
  exact hsub

/-- **A turn of the second pass.** -/
lemma Passed.turn {s : ArgvState} (h : Passed str n s) (hn : n < str.length) :
    ∃ t, argvTurn s n = .ok t ∧ Passed str (n + 1) t := by
  have hc : str[n]? = some str[n] := List.getElem?_eq_getElem hn
  have htest := cut_test_iff hc
  rw [← h.flags_eq] at htest
  rw [argvTurn, h.str_eq, cutString_getElem? hc]
  dsimp only
  by_cases hcut : isCut str n = true
  · have hbefore := cuts_before hn hcut
    have hargc := h.argc_eq
    have hcount := argvCount_eq str
    obtain ⟨k, hk⟩ : ∃ k, argvCount str + 1 - s.argc = k + 1 := ⟨argvCount str - s.argc, by omega⟩
    have hargv := h.argv_eq
    rw [hk] at hargv
    have hfilled : (ArgvCell.str 0 ::
        ((List.range n).filter (isCut str)).map (fun i => ArgvCell.str (i + 1))).length =
          s.argc := by
      rw [List.length_cons, List.length_map, hargc]
    have hlength : s.argc < s.argv.length := by
      rw [hargv, List.length_append, hfilled, List.length_replicate]
      omega
    rw [if_pos (htest.mpr hcut), if_pos hlength]
    refine ⟨_, rfl, ?_, ?_, ?_, ?_⟩
    · rw [cutString_succ, if_pos hcut]
    · rw [splitFlags_take_succ hc, h.flags_eq]
    · rw [range_filter_succ, if_pos hcut, List.length_append, hargc]
      rfl
    · rw [range_filter_succ, if_pos hcut, List.map_append]
      dsimp only
      rw [hargv, show argvCount str + 1 - (s.argc + 1) = k by omega, ← hfilled,
        List.set_append_right _ _ le_rfl, Nat.sub_self, List.replicate_succ, List.set_cons_zero,
        List.cons_append, List.cons_append, List.append_assoc]
      rfl
  · rw [if_neg fun htrue => hcut (htest.mp htrue)]
    refine ⟨_, rfl, ?_, ?_, ?_, ?_⟩
    · rw [cutString_succ, if_neg hcut]
    · rw [splitFlags_take_succ hc, h.flags_eq]
    · rw [range_filter_succ, if_neg hcut, List.append_nil, h.argc_eq]
    · rw [range_filter_succ, if_neg hcut, List.append_nil, h.argv_eq]

/-- The second pass goes over the whole string. -/
lemma passes_passed (str : List UInt8) : ∃ s,
    (List.range str.length).foldlM argvTurn ⟨str, (List.replicate (argvCount str + 1)
      ArgvCell.uninitialised).set 0 (.str 0), 1, .closed⟩ = .ok s ∧ Passed str str.length s := by
  refine foldlM_range_ok (Passed str) (fun i s hi h => h.turn hi) ⟨?_, rfl, rfl, ?_⟩
  · rw [eq_comm, cutString, List.mapIdx_eq_iff]
    intro i
    simp
  · rw [List.replicate_succ, List.set_cons_zero]
    rfl

/-- The zeros of the string that is gone over are the cuts. -/
lemma ends_cutString (hstr : 0 ∉ str) : ends 0 (cutString str str.length) = cuts str := by
  have hlen : (cutString str str.length).length = str.length := List.length_mapIdx
  rw [ends, hlen, cuts]
  refine List.filter_congr fun i hi => ?_
  have hi : i < str.length := List.mem_range.mp hi
  have hne : str[i] ≠ 0 := fun h => hstr (h ▸ List.getElem_mem hi)
  rw [cutString, List.getElem?_mapIdx, List.getElem?_eq_getElem hi, Option.map_some]
  by_cases hcut : isCut str i = true
  · rw [if_pos ⟨hi, hcut⟩, hcut]
    rfl
  · rw [if_neg fun h => hcut h.2, eq_false_of_ne_true hcut]
    simpa using hne

/-- With spaces for its zeros, it is the string as it was. -/
lemma cutString_spaces (hstr : 0 ∉ str) :
    (cutString str str.length).map (fun c => if c = 0 then 32 else c) = str := by
  refine List.ext_getElem? fun i => ?_
  rw [cutString, List.getElem?_map, List.getElem?_mapIdx]
  cases hc : str[i]? with
  | none => rfl
  | some c =>
    have hne : c ≠ 0 := fun h => hstr (h ▸ List.mem_of_getElem? hc)
    rw [Option.map_some, Option.map_some, Option.some_inj]
    by_cases hcut : i < str.length ∧ isCut str i = true
    · have h32 : c = 32 := ((cut_test_iff hc).mpr hcut.2).1
      rw [if_pos hcut, if_pos rfl, h32]
    · rw [if_neg hcut, if_neg hne]

/-- **The arguments**: `argv_split` fills the `argc + 1` elements of its array with the starts of
strings and a `NULL`; the strings joined by single spaces are the command; and the cuts are the
spaces outside of the quotes. -/
theorem argvSplit_cuts {str : List UInt8} (hstr : 0 ∉ str) :
    ∃ memory offsets, argvSplit str = .ok (memory, offsets.map .str ++ [.null]) ∧
      offsets.length = argvCount str ∧
      [32].intercalate (offsets.map (stringAt 0 memory)) = str ∧
      offsets = 0 :: (cuts str).map (· + 1) := by
  obtain ⟨s, hpasses, h⟩ := passes_passed str
  have hcount := argvCount_eq str
  have hargc : s.argc = argvCount str := by rw [h.argc_eq, hcount, cuts]
  have hargv : s.argv = (0 :: (cuts str).map (· + 1)).map .str ++ [.uninitialised] := by
    rw [h.argv_eq, hargc, Nat.add_sub_cancel_left, List.map_cons, List.map_map, cuts]
    rfl
  have hlength : (0 :: (cuts str).map (· + 1)).length = argvCount str := by
    rw [List.length_cons, List.length_map, hcount]
  have hfilled : ((0 :: (cuts str).map (· + 1)).map ArgvCell.str).length = s.argc := by
    rw [List.length_map, hlength, hargc]
  refine ⟨cutString str str.length, 0 :: (cuts str).map (· + 1), ?_, hlength, ?_, rfl⟩
  · rw [argvSplit, hpasses, ok_bind, if_pos, hargv, ← hfilled,
      List.set_append_right _ _ le_rfl, Nat.sub_self, List.set_cons_zero, h.str_eq]
    · rfl
    · rw [hargv, List.length_append, hfilled, List.length_singleton]
      exact Nat.lt_succ_self _
  · rw [← ends_cutString hstr, ← starts, map_stringAt_starts, intercalate_splitOn_map,
      cutString_spaces hstr]

/-- The command `a "b c" d` has two cuts. -/
theorem argvSplit_quoted : ∃ memory offsets,
    argvSplit [97, 32, 34, 98, 32, 99, 34, 32, 100] = .ok (memory, offsets.map .str ++ [.null]) ∧
      offsets = [0, 2, 8] := by
  have hstr : (0 : UInt8) ∉ [97, 32, 34, 98, 32, 99, 34, 32, 100] := by decide
  obtain ⟨memory, offsets, hsplit, -, -, hoffsets⟩ := argvSplit_cuts hstr
  exact ⟨memory, offsets, hsplit, hoffsets.trans (by decide)⟩

end Passes

end MicroOS
