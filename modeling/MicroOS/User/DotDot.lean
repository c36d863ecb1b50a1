import Mathlib.Data.List.ReduceOption
import MicroOS.Lib.PopStack
import MicroOS.Lib.Terminated
import MicroOS.User.Buffer
import MicroOS.User.Environment

/-!
Paths with `..` in them: `compute_dot_dot` of `user/libc/stdio/resolve.c`.

The function cuts the path at its slashes, nulls the pointers to the segments that go, and puts the
others behind the mount. The array of the pointers has the elements that have been set, and an
access outside of them stops with an error.

* `computeDotDot`: the function;
* `MountPath`: a path `mount:/segment/segment`;
* `popSegments_eq`: the search backwards is a pop, and with nothing left to pop it reaches the
  element `-1`;
* `computeDotDot_iff`: **the output is what a stack leaves exactly when the first segment is `..`,
  or no beginning of the path has more `..` than other segments**.
-/

namespace MicroOS

open Checked

/-- `".."`. -/
def dotDot : List UInt8 := [46, 46]

/-! ### The function -/

/-- An element of `path_segments` is set to `NULL`. -/
def setNull (segments : List (Option ℕ)) (i : ℤ) : Except BufferFault (List (Option ℕ)) :=
  if 0 ≤ i ∧ i < segments.length then .ok (segments.set i.toNat none) else .error (.index i)

/-- The loop that puts terminators over the slashes, with `n` turns left: the path, and
`path_segments` with its elements as places in the path. -/
def cutSegments : ℕ → ℕ → List UInt8 → List (Option ℕ) →
    Except BufferFault (List UInt8 × List (Option ℕ))
  | 0, _, path, segments => .ok (path, segments)
  | n + 1, i, path, segments => do
      if (← bufRead path i) = 47 then
        if segments.length < 256 then
          cutSegments n (i + 1) (← bufWrite path i 0) (segments ++ [some (i + 1)])
        else .error (.index segments.length)
      else cutSegments n (i + 1) path segments

/-- `del_idx` after the loop that starts below an index. -/
def delIdx (segments : List (Option ℕ)) : ℕ → ℤ
  | 0 => -1
  | i + 1 => if segments[i]? = some none then delIdx segments i else i

/-- The loop over the segments, with `n` turns left: `false` where the function returns, and
`path_segments`. -/
def popSegments (path : List UInt8) : ℕ → ℕ → List (Option ℕ) →
    Except BufferFault (Bool × List (Option ℕ))
  | 0, _, segments => .ok (true, segments)
  | n + 1, i, segments =>
    match segments[i]? with
    | none => .error (.index i)
    | some none => .error .nullPointer
    | some (some p) => do
        if strcmp (← bufText (path.drop p)) dotDot = 0 then
          if i = 0 then return (false, segments)
          else popSegments path n (i + 1) (← setNull (← setNull segments (delIdx segments i)) i)
        else popSegments path n (i + 1) segments

/-- The loop that puts the segments behind the output. -/
def joinSegments (path : List UInt8) : List (Option ℕ) → List UInt8 →
    Except BufferFault (List UInt8)
  | [], output => .ok output
  | none :: segments, output => joinSegments path segments output
  | some p :: segments, output => do
      let output ← libcStrcat output [47]
      joinSegments path segments (← libcStrcat output (← bufText (path.drop p)))

/-- What `compute_dot_dot` leaves. -/
structure DotDotResult where
  returned : Bool
  output : List UInt8
  /-- The path in the message `Unsupported path: '%s'`. -/
  unsupported : Option (List UInt8)

/-- `compute_dot_dot`. -/
def computeDotDot (path output : List UInt8) : Except BufferFault DotDotResult := do
  let (path, segments) ← cutSegments (← bufText path).length 0 path []
  let (supported, segments) ← popSegments path segments.length 0 segments
  if !supported then return ⟨false, output, some (← bufText path)⟩
  else if output.length < 256 then .error .pastEnd
  else
    match strtok (← bufText path) [47] with
    | none => .error .nullPointer
    | some mount =>
      let output ← libcStrcpy (List.replicate 256 0 ++ output.drop 256) mount
      return ⟨true, ← joinSegments path segments output, none⟩

/-! ### Paths -/

/-- What stands in front of the first slash, and the segments. -/
def pathText (head : List UInt8) (segments : List (List UInt8)) : List UInt8 :=
  head ++ segments.flatMap fun s => 47 :: s

/-- A path `mount:/segment/segment` of fewer than 256 characters. -/
structure MountPath where
  mount : List UInt8
  segments : List (List UInt8)
  zero_notMem_mount : 0 ∉ mount
  slash_notMem_mount : 47 ∉ mount
  zero_notMem : ∀ s ∈ segments, 0 ∉ s
  slash_notMem : ∀ s ∈ segments, 47 ∉ s
  length_lt : (pathText (mount ++ [58]) segments).length < 256

/-- `mount:`. -/
def MountPath.head (p : MountPath) : List UInt8 := p.mount ++ [58]

/-- The string. -/
def MountPath.text (p : MountPath) : List UInt8 := pathText p.head p.segments

/-- What a stack leaves of the segments, where `..` pops. -/
def popDotDot (segments : List (List UInt8)) : Option (List (List UInt8)) :=
  PopStack.run (· = dotDot) segments []

/-- The function returns `false` where a `..` finds the stack empty, and otherwise `true` with the
mount and what is left on the stack, where no `..` is. -/
def DotDotRight (p : MountPath) (rest output : List UInt8) : Prop :=
  match popDotDot p.segments with
  | none => ∃ r, computeDotDot (p.text ++ 0 :: rest) output = .ok r ∧ r.returned = false
  | some left => ∃ r, computeDotDot (p.text ++ 0 :: rest) output = .ok r ∧ r.returned = true ∧
      bufText r.output = .ok (pathText p.head left) ∧ dotDot ∉ left

section Cut

/-- A path is split at its slashes. -/
lemma splitOn_pathText {head : List UInt8} {segments : List (List UInt8)} (hhead : 47 ∉ head)
    (hsegments : ∀ s ∈ segments, 47 ∉ s) :
    (pathText head segments).splitOn 47 = head :: segments := by
  induction segments generalizing head with
  | nil => rw [pathText, List.flatMap_nil, List.append_nil, List.splitOn_eq_singleton hhead]
  | cons s segments ih =>
    obtain ⟨hs, hsegments⟩ := List.forall_mem_cons.mp hsegments
    rw [pathText, List.flatMap_cons, List.cons_append,
      List.splitOn_append_cons_self_of_not_mem hhead]
    exact congrArg (head :: ·) (ih hs hsegments)

/-- The loop puts a terminator over each slash, and points behind it. -/
lemma cutSegments_eq (p s tail : List UInt8) (segments : List (Option ℕ))
    (hcount : segments.length + s.length ≤ 256) :
    cutSegments s.length p.length (p ++ s ++ tail) segments =
      .ok (p ++ Terminated.cut 0 47 s ++ tail,
        segments ++ (Terminated.ends 47 s).map fun k => some (p.length + k + 1)) := by
  induction s generalizing p segments with
  | nil => simp [cutSegments, Terminated.cut, Terminated.ends]
  | cons c s ih =>
    rw [List.length_cons] at hcount
    have hlength : ∀ d : UInt8, (p ++ [d]).length = p.length + 1 := by simp
    have hplaces : ((Terminated.ends 47 s).map (· + 1)).map
          (fun k => some (p.length + k + 1)) =
        (Terminated.ends 47 s).map fun k => some (p.length + 1 + k + 1) := by
      rw [List.map_map]
      refine List.map_congr_left fun k _ => ?_
      rw [Function.comp_apply, Nat.add_right_comm p.length 1 k, Nat.add_assoc p.length k 1]
    have hread : bufRead (p ++ c :: s ++ tail) p.length = .ok c := by
      rw [List.append_assoc]
      exact bufRead_append p c (s ++ tail)
    rw [List.length_cons, cutSegments, hread, ok_bind, Terminated.ends_cons, List.map_append,
      hplaces]
    by_cases hc : c = 47
    · have hwrite : bufWrite (p ++ c :: s ++ tail) p.length 0 = .ok (p ++ [0] ++ s ++ tail) := by
        rw [List.append_assoc, List.cons_append, bufWrite_append p 0 (List.cons_ne_nil c _)]
        simp
      have hstep := ih (p ++ [0]) (segments ++ [some (p.length + 1)]) (by simp; omega)
      rw [hlength] at hstep
      rw [if_pos hc, if_pos (by omega), hwrite, ok_bind, hstep, if_pos hc, hc]
      simp [Terminated.cut]
    · have hstep := ih (p ++ [c]) segments (by omega)
      rw [hlength, List.append_assoc p, List.singleton_append] at hstep
      rw [if_neg hc, hstep, if_neg hc]
      simp [Terminated.cut, hc]

end Cut

section Pop

variable {path : List UInt8} {done segments rest : List (Option ℕ)} {todo : List ℕ}
  {name : ℕ → List UInt8}

/-- A segment is taken out of the list. -/
lemma setNull_append (front rest : List (Option ℕ)) (v : Option ℕ) :
    setNull (front ++ v :: rest) front.length = .ok (front ++ none :: rest) := by
  rw [setNull, if_pos ⟨by omega, by simp⟩, Int.toNat_natCast,
    List.set_append_right _ _ le_rfl, Nat.sub_self, List.set_cons_zero]

/-- Where a pointer is left below an index, the search backwards finds the last one, which is then
nulled. -/
lemma setNull_delIdx {p : ℕ} {below : List ℕ} (h : done.reduceOption = below ++ [p])
    (rest : List (Option ℕ)) : ∃ done', setNull (done ++ rest) (delIdx (done ++ rest) done.length) =
      .ok (done' ++ rest) ∧ done'.length = done.length ∧ done'.reduceOption = below := by
  induction done using List.reverseRecOn generalizing rest with
  | nil => exact absurd h.symm (by simp)
  | append_singleton done v ih =>
    rw [List.append_assoc, List.singleton_append, List.length_append, List.length_singleton,
      delIdx]
    have hget : (done ++ v :: rest)[done.length]? = some v := by simp
    rw [List.reduceOption_append, List.reduceOption_singleton] at h
    cases v with
    | none =>
      rw [Option.toList_none, List.append_nil] at h
      obtain ⟨done', hset, hlength, hreduce⟩ := ih h (none :: rest)
      refine ⟨done' ++ [none], ?_, by simp [hlength],
        by simp [List.reduceOption_append, hreduce]⟩
      rw [if_pos hget, hset, List.append_assoc, List.singleton_append]
    | some q =>
      obtain ⟨hbelow, -⟩ := List.append_inj' h rfl
      refine ⟨done ++ [none], ?_, by simp, by simp [List.reduceOption_append, hbelow]⟩
      rw [if_neg (by rw [hget]; simp), setNull_append, List.append_assoc, List.singleton_append]

/-- Where no pointer is left below an index, the search backwards ends at `-1`. -/
lemma delIdx_of_reduceOption_eq_nil (h : done.reduceOption = []) (rest : List (Option ℕ)) :
    delIdx (done ++ rest) done.length = -1 := by
  induction done using List.reverseRecOn generalizing rest with
  | nil => rfl
  | append_singleton done v ih =>
    rw [List.reduceOption_append, List.append_eq_nil_iff, List.reduceOption_singleton] at h
    cases v with
    | some q => exact absurd h.2 (by simp)
    | none =>
      rw [List.append_assoc, List.singleton_append, List.length_append, List.length_singleton,
        delIdx, if_pos (by simp), ih h.1]

/-! The steps of the loop, at a segment behind which others stand. -/

variable {p n : ℕ}

/-- **A turn of the loop** over the segments. -/
lemma popSegments_cons (htext : bufText (path.drop p) = .ok (name p)) (hzero : 0 ∉ name p) :
    popSegments path (n + 1) done.length (done ++ some p :: rest) =
      if name p = dotDot then
        if done.length = 0 then .ok (false, done ++ some p :: rest)
        else (do
          popSegments path n (done.length + 1) (← setNull (← setNull (done ++ some p :: rest)
            (delIdx (done ++ some p :: rest) done.length)) done.length))
      else popSegments path n (done.length + 1) (done ++ some p :: rest) := by
  have hget : (done ++ some p :: rest)[done.length]? = some (some p) := by simp
  have hstrcmp : strcmp (name p) dotDot = 0 ↔ name p = dotDot := strcmp_eq_zero hzero (by decide)
  simp only [popSegments, hget, htext, ok_bind, hstrcmp]
  rfl

/-- A name stays. -/
lemma popSegments_push (htext : bufText (path.drop p) = .ok (name p)) (hzero : 0 ∉ name p)
    (hp : name p ≠ dotDot) : popSegments path (n + 1) done.length (done ++ some p :: rest) =
      popSegments path n (done ++ [some p]).length (done ++ [some p] ++ rest) := by
  rw [popSegments_cons htext hzero, if_neg hp, List.length_append, List.length_singleton,
    List.append_assoc, List.singleton_append]

/-- Two dots take the last name that is left away, and themselves. -/
lemma popSegments_pop (htext : bufText (path.drop p) = .ok (name p)) (hzero : 0 ∉ name p)
    (hp : name p = dotDot) {q : ℕ} {below : List ℕ} (h : done.reduceOption = below ++ [q]) :
    ∃ done', popSegments path (n + 1) done.length (done ++ some p :: rest) =
      popSegments path n done'.length (done' ++ rest) ∧ done' ≠ [] ∧
      done'.reduceOption = below := by
  obtain ⟨done', hset, hlength, hreduce⟩ := setNull_delIdx h (some p :: rest)
  have hne : done.length ≠ 0 := by
    intro h0
    rw [List.length_eq_zero_iff.mp h0] at h
    exact absurd h.symm (by simp)
  refine ⟨done' ++ [none], ?_, by simp, by simp [List.reduceOption_append, hreduce]⟩
  rw [popSegments_cons htext hzero, if_pos hp, if_neg hne, hset, ok_bind, ← hlength,
    setNull_append, ok_bind, List.length_append, List.length_singleton, List.append_assoc,
    List.singleton_append]

/-- With nothing left to pop, a turn that is not the first writes in front of the array. -/
lemma popSegments_underflow (htext : bufText (path.drop p) = .ok (name p)) (hzero : 0 ∉ name p)
    (hp : name p = dotDot) (hne : done ≠ []) (h : done.reduceOption = []) :
    popSegments path (n + 1) done.length (done ++ some p :: rest) = .error (.index (-1)) := by
  rw [popSegments_cons htext hzero, if_pos hp, if_neg (by rwa [List.length_eq_zero_iff]),
    delIdx_of_reduceOption_eq_nil h, setNull, if_neg (by omega)]
  rfl

/-- **The loop pops and pushes**: where the first segment is not `..`, the pointers that are left
are what a stack leaves, and a pop from the empty stack is the write to the element `-1`. -/
lemma popSegments_eq (hname : ∀ p ∈ todo, bufText (path.drop p) = .ok (name p) ∧ 0 ∉ name p)
    (hfirst : done = [] → ∀ p ∈ todo.head?, name p ≠ dotDot) :
    (popSegments path todo.length done.length (done ++ todo.map some)).map
        (fun r => (r.1, r.2.reduceOption)) =
      (PopStack.run (fun p => name p = dotDot) todo done.reduceOption.reverse).elim
        (.error (.index (-1))) fun left => .ok (true, left) := by
  induction todo generalizing done with
  | nil =>
    rw [PopStack.run, List.reverse_reverse, List.map_nil, List.append_nil]
    rfl
  | cons p todo ih =>
    obtain ⟨⟨htext, hzero⟩, hname⟩ := List.forall_mem_cons.mp hname
    rw [List.length_cons, List.map_cons]
    by_cases hp : name p = dotDot
    · have hne : done ≠ [] := fun h => hfirst h p rfl hp
      cases hrev : done.reduceOption.reverse with
      | nil =>
        rw [popSegments_underflow htext hzero hp hne (List.reverse_eq_nil_iff.mp hrev),
          PopStack.run, if_pos hp]
        rfl
      | cons q stack =>
        have hdone : done.reduceOption = stack.reverse ++ [q] := by
          rw [← List.reverse_reverse done.reduceOption, hrev, List.reverse_cons]
        obtain ⟨done', hpop, hne', hreduce⟩ := popSegments_pop htext hzero hp hdone
        rw [hpop, ih hname fun h => absurd h hne', hreduce, List.reverse_reverse, PopStack.run,
          if_pos hp]
    · have hpush : PopStack.run (fun p => name p = dotDot) (p :: todo) done.reduceOption.reverse =
          PopStack.run (fun p => name p = dotDot) todo (p :: done.reduceOption.reverse) :=
        PopStack.run_push hp
      rw [popSegments_push htext hzero hp, ih hname fun h => absurd h (by simp), hpush,
        List.reduceOption_append, List.reduceOption_singleton, Option.toList_some,
        List.reverse_append, List.reverse_singleton, List.singleton_append]

end Pop

section Join

variable {path text x : List UInt8} {segments : List (Option ℕ)} {name : ℕ → List UInt8}

/-- The segments that are left stand behind the text, each with a slash in front. -/
lemma joinSegments_eq
    (hname : ∀ p ∈ segments.reduceOption, bufText (path.drop p) = .ok (name p) ∧ 0 ∉ name p)
    (htext : 0 ∉ text) (hroom : (pathText [] (segments.reduceOption.map name)).length ≤ x.length) :
    ∃ y, joinSegments path segments (text ++ 0 :: x) =
      .ok (pathText text (segments.reduceOption.map name) ++ 0 :: y) := by
  induction segments generalizing text x with
  | nil => exact ⟨x, by simp [joinSegments, pathText]⟩
  | cons v segments ih =>
    cases v with
    | none =>
      rw [List.reduceOption_cons_of_none] at hname hroom ⊢
      rw [joinSegments]
      exact ih hname htext hroom
    | some p =>
      rw [List.reduceOption_cons_of_some] at hname hroom ⊢
      obtain ⟨⟨hp, hzero⟩, hname⟩ := List.forall_mem_cons.mp hname
      have hlength : (pathText [] ((p :: segments.reduceOption).map name)).length =
          (name p).length + 1 + (pathText [] (segments.reduceOption.map name)).length := by
        simp [pathText, Nat.add_right_comm]
      have hslash : libcStrcat (text ++ 0 :: x) [47] = .ok (text ++ [47] ++ 0 :: x.drop 1) :=
        libcStrcat_append htext (by rw [List.length_singleton]; omega)
      have htext' : 0 ∉ text ++ [47] := by simpa using htext
      have hcat : libcStrcat (text ++ [47] ++ 0 :: x.drop 1) (name p) =
          .ok (text ++ [47] ++ name p ++ 0 :: (x.drop 1).drop (name p).length) :=
        libcStrcat_append htext' (by rw [List.length_drop]; omega)
      have hzero' : 0 ∉ text ++ [47] ++ name p := by
        simpa using ⟨htext, hzero⟩
      have hroom' : (pathText [] (segments.reduceOption.map name)).length ≤
          ((x.drop 1).drop (name p).length).length := by
        rw [List.length_drop, List.length_drop]
        omega
      obtain ⟨y, hy⟩ := ih hname hzero' hroom'
      refine ⟨y, ?_⟩
      rw [joinSegments, hslash, ok_bind, hp, ok_bind, hcat, ok_bind, hy]
      simp [pathText]

end Join

section DotDot

variable (p : MountPath) {rest output : List UInt8} {left : List (List UInt8)}

/-- The name of the mount has no zero. -/
lemma MountPath.zero_notMem_head : 0 ∉ p.head := by
  rw [MountPath.head, List.mem_append, List.mem_singleton]
  rintro (h | h)
  · exact p.zero_notMem_mount h
  · exact absurd h (by decide)

/-- Nor a slash. -/
lemma MountPath.slash_notMem_head : 47 ∉ p.head := by
  rw [MountPath.head, List.mem_append, List.mem_singleton]
  rintro (h | h)
  · exact p.slash_notMem_mount h
  · exact absurd h (by decide)

lemma MountPath.head_ne_nil : p.head ≠ [] := by
  rw [MountPath.head]
  exact List.append_ne_nil_of_right_ne_nil _ (by simp)

/-- A path of strings is a string. -/
lemma zero_notMem_pathText {head : List UInt8} {segments : List (List UInt8)} (hhead : 0 ∉ head)
    (hsegments : ∀ s ∈ segments, 0 ∉ s) : 0 ∉ pathText head segments := by
  rw [pathText, List.mem_append, List.mem_flatMap]
  rintro (h | ⟨s, hs, h⟩)
  · exact hhead h
  · cases List.mem_cons.mp h with
    | inl h => exact absurd h (by decide)
    | inr h => exact hsegments s hs h

lemma MountPath.zero_notMem_text : 0 ∉ p.text :=
  zero_notMem_pathText p.zero_notMem_head p.zero_notMem

/-- The first token at slashes of a string without any is the string. -/
lemma strtok_slash {s : List UInt8} (hne : s ≠ []) (hslash : 47 ∉ s) : strtok s [47] = some s := by
  have hdelim : ∀ c ∈ s, isDelim c [47] = false := by
    intro c hc
    rw [isDelim, List.contains_eq_mem, decide_eq_false_iff_not, List.mem_singleton]
    exact fun h => hslash (h ▸ hc)
  obtain ⟨c, s, rfl⟩ := List.exists_cons_of_ne_nil hne
  have hc : isDelim c [47] = false := hdelim c List.mem_cons_self
  have hall : ∀ d ∈ c :: s, (!isDelim d [47]) = true := fun d hd => by rw [hdelim d hd]; rfl
  rw [strtok, List.dropWhile_cons_of_neg (by simp [hc])]
  exact congrArg some (List.takeWhile_eq_self_iff.mpr hall)

/-- The text with terminators over its slashes. -/
def MountPath.cut : List UInt8 := Terminated.cut 0 47 p.text

/-- The places behind the slashes. -/
def MountPath.places : List ℕ := (Terminated.ends 47 p.text).map (· + 1)

/-- The strings in the text that is cut. -/
lemma MountPath.stringAt_cut : Terminated.stringAt 0 p.cut 0 = p.head ∧
    p.places.map (Terminated.stringAt 0 p.cut) = p.segments := by
  have hparts := Terminated.map_stringAt_cut (y := 47) p.zero_notMem_text
  rw [MountPath.text, splitOn_pathText p.slash_notMem_head p.slash_notMem, Terminated.starts,
    List.map_cons, List.cons.injEq] at hparts
  exact hparts

/-- The text from a place on ends at the next zero. -/
lemma bufText_stringAt {m : List UInt8} {o : ℕ} (ho : o ≤ m.length) (rest : List UInt8) :
    bufText ((m ++ 0 :: rest).drop o) = .ok (Terminated.stringAt 0 m o) := by
  rw [List.drop_append_of_le_length ho, bufText_takeWhile, Terminated.stringAt]

/-- Each place has its string. -/
lemma MountPath.bufText_place (rest : List UInt8) {o : ℕ} (ho : o ∈ p.places) :
    bufText ((p.cut ++ 0 :: rest).drop o) = .ok (Terminated.stringAt 0 p.cut o) ∧
      0 ∉ Terminated.stringAt 0 p.cut o := by
  have hmem : Terminated.stringAt 0 p.cut o ∈ p.segments := by
    rw [← p.stringAt_cut.2]
    exact List.mem_map_of_mem ho
  refine ⟨bufText_stringAt ?_ rest, p.zero_notMem _ hmem⟩
  obtain ⟨k, hk, rfl⟩ := List.mem_map.mp ho
  rw [Terminated.ends, List.mem_filter, List.mem_range] at hk
  rw [MountPath.cut, Terminated.cut, List.length_map]
  exact hk.1

/-- The two loops: the path is cut, and a stack decides which pointers are left. -/
lemma MountPath.cutSegments_text (rest : List UInt8) :
    cutSegments p.text.length 0 (p.text ++ 0 :: rest) [] =
      .ok (p.cut ++ 0 :: rest, p.places.map some) := by
  have h := cutSegments_eq [] p.text (0 :: rest) [] (by
    have := p.length_lt
    rw [List.length_nil, Nat.zero_add]
    exact this.le)
  rw [List.nil_append, List.length_nil] at h
  rw [h, MountPath.places, List.map_map, MountPath.cut]
  simp [Function.comp_def]

/-- `strcpy` to a buffer after `memset`. -/
lemma libcStrcpy_memset (x : List UInt8) {text : List UInt8} (hne : text ≠ [])
    (hlt : text.length < 256) : libcStrcpy (List.replicate 256 0 ++ x) text =
      .ok (text ++ 0 :: (List.replicate (255 - text.length) 0 ++ x)) := by
  have hzeros : 256 - text.length = (255 - text.length) + 1 := by omega
  rw [libcStrcpy_append hne (by rw [List.length_append, List.length_replicate]; omega),
    List.drop_append_of_le_length (by rw [List.length_replicate]; omega), List.drop_replicate,
    hzeros, List.replicate_succ, List.cons_append]

/-- Fewer segments make no longer path. -/
lemma length_pathText_le {segments : List (List UInt8)} (h : left.Sublist segments)
    (head : List UInt8) : (pathText head left).length ≤ (pathText head segments).length := by
  rw [pathText, pathText, List.length_append, List.length_append]
  exact Nat.add_le_add_left (h.flatMap fun s => 47 :: s).length_le _

/-- The stack of the segments is the one of their places. -/
lemma MountPath.popDotDot_eq : popDotDot p.segments =
    (PopStack.run (fun o => Terminated.stringAt 0 p.cut o = dotDot) p.places []).map
      (List.map (Terminated.stringAt 0 p.cut)) := by
  rw [popDotDot]
  nth_rewrite 1 [← p.stringAt_cut.2]
  exact @PopStack.run_map _ _ (· = dotDot) _ (Terminated.stringAt 0 p.cut) p.places []

/-- The name of the first place. -/
lemma MountPath.head_places (h : p.segments.head? = some dotDot) : ∃ o places,
    p.places = o :: places ∧ Terminated.stringAt 0 p.cut o = dotDot := by
  rw [← p.stringAt_cut.2, List.head?_map, Option.map_eq_some_iff] at h
  obtain ⟨o, ho, hname⟩ := h
  obtain ⟨places, hplaces⟩ := List.head?_eq_some_iff.mp ho
  exact ⟨o, places, hplaces, hname⟩

/-- A path that begins with `..` is not supported. -/
lemma computeDotDot_first (rest output : List UInt8) (h : p.segments.head? = some dotDot) :
    computeDotDot (p.text ++ 0 :: rest) output = .ok ⟨false, output, some p.head⟩ := by
  obtain ⟨o, places, hplaces, hname⟩ := p.head_places h
  obtain ⟨htext, hzero⟩ := p.bufText_place rest (hplaces ▸ List.mem_cons_self)
  have hpop : popSegments (p.cut ++ 0 :: rest) (p.places.map some).length 0 (p.places.map some) =
      .ok (false, p.places.map some) := by
    have hcons : popSegments (p.cut ++ 0 :: rest) (places.length + 1) ([] : List (Option ℕ)).length
        ([] ++ some o :: places.map some) = _ := popSegments_cons htext hzero
    rw [if_pos hname, if_pos List.length_nil, List.nil_append, List.length_nil] at hcons
    rw [hplaces, List.map_cons, List.length_cons, List.length_map]
    exact hcons
  have hhead : bufText (p.cut ++ 0 :: rest) = .ok p.head := by
    rw [← p.stringAt_cut.1]
    exact bufText_stringAt (Nat.zero_le _) rest
  rw [computeDotDot, bufText_append p.zero_notMem_text, ok_bind, p.cutSegments_text, ok_bind]
  simp only [hpop, ok_bind, hhead]
  rfl

/-- The loop over the segments of a path that does not begin with `..`. -/
lemma MountPath.popSegments_places (rest : List UInt8) (h : p.segments.head? ≠ some dotDot) :
    (popSegments (p.cut ++ 0 :: rest) (p.places.map some).length 0 (p.places.map some)).map
        (fun r => (r.1, r.2.reduceOption)) =
      (PopStack.run (fun o => Terminated.stringAt 0 p.cut o = dotDot) p.places []).elim
        (.error (.index (-1))) fun left => .ok (true, left) := by
  have hfirst : ∀ o ∈ p.places.head?, Terminated.stringAt 0 p.cut o ≠ dotDot := by
    intro o ho hname
    rw [← p.stringAt_cut.2, List.head?_map, Option.mem_def.mp ho, Option.map_some, hname] at h
    exact h rfl
  have heq : (popSegments (p.cut ++ 0 :: rest) p.places.length ([] : List (Option ℕ)).length
      ([] ++ p.places.map some)).map (fun r => (r.1, r.2.reduceOption)) = _ :=
    popSegments_eq (fun o ho => p.bufText_place rest ho) fun _ => hfirst
  rw [List.nil_append, List.length_nil] at heq
  rw [List.length_map]
  exact heq

/-- **A pop from the empty stack in a later turn than the first writes to the element `-1`.** -/
lemma computeDotDot_underflow (rest output : List UInt8) (h : p.segments.head? ≠ some dotDot)
    (hpop : popDotDot p.segments = none) :
    computeDotDot (p.text ++ 0 :: rest) output = .error (.index (-1)) := by
  rw [p.popDotDot_eq, Option.map_eq_none_iff] at hpop
  have hloop := p.popSegments_places rest h
  rw [hpop, Option.elim_none] at hloop
  rw [computeDotDot, bufText_append p.zero_notMem_text, ok_bind, p.cutSegments_text, ok_bind]
  cases hresult : popSegments (p.cut ++ 0 :: rest) (p.places.map some).length 0
      (p.places.map some) with
  | ok r => exact absurd (hresult ▸ hloop) (by simp [Except.map])
  | error e =>
    rw [hresult, Except.map, Except.error.injEq] at hloop
    simp only [hresult, hloop, error_bind]

/-- **The output is the mount with what the stack leaves.** -/
lemma computeDotDot_left (rest : List UInt8) {output : List UInt8} (hroom : 256 ≤ output.length)
    (hpop : popDotDot p.segments = some left) :
    ∃ y, computeDotDot (p.text ++ 0 :: rest) output =
      .ok ⟨true, pathText p.head left ++ 0 :: y, none⟩ := by
  have hsub : left.Sublist p.segments := by
    simpa using PopStack.run_sublist hpop
  have h : p.segments.head? ≠ some dotDot := by
    intro h
    obtain ⟨segments, hsegments⟩ := List.head?_eq_some_iff.mp h
    rw [popDotDot, hsegments, PopStack.run, if_pos rfl] at hpop
    exact absurd hpop (by simp)
  rw [p.popDotDot_eq, Option.map_eq_some_iff] at hpop
  obtain ⟨places, hrun, rfl⟩ := hpop
  have hloop := p.popSegments_places rest h
  rw [hrun, Option.elim_some] at hloop
  cases hresult : popSegments (p.cut ++ 0 :: rest) (p.places.map some).length 0
      (p.places.map some) with
  | error e => exact absurd (hresult ▸ hloop) (by simp [Except.map])
  | ok r =>
    obtain ⟨supported, segments⟩ := r
    rw [hresult, Except.map, Except.ok.injEq, Prod.mk.injEq] at hloop
    obtain ⟨rfl, hplaces⟩ := hloop
    have hplaces : segments.reduceOption = places := hplaces
    subst hplaces
    -- The buffer has room for the mount, and then for the segments.
    have hlt := p.length_lt
    have hle := length_pathText_le hsub p.head
    have hlength : (pathText p.head (segments.reduceOption.map
        (Terminated.stringAt 0 p.cut))).length = p.head.length +
        (pathText [] (segments.reduceOption.map (Terminated.stringAt 0 p.cut))).length := by
      rw [pathText, pathText, List.length_append, List.nil_append]
    rw [← MountPath.head] at hlt
    have hcopy := libcStrcpy_memset (output.drop 256) p.head_ne_nil (by omega)
    have hname : ∀ o ∈ segments.reduceOption,
        bufText ((p.cut ++ 0 :: rest).drop o) = .ok (Terminated.stringAt 0 p.cut o) ∧
          0 ∉ Terminated.stringAt 0 p.cut o := by
      intro o ho
      have hmem := (PopStack.run_sublist hrun).subset ho
      exact p.bufText_place rest (by simpa using hmem)
    have hroom' : (pathText [] (segments.reduceOption.map
        (Terminated.stringAt 0 p.cut))).length ≤
        (List.replicate (255 - p.head.length) (0 : UInt8) ++ output.drop 256).length := by
      rw [List.length_append, List.length_replicate]
      omega
    obtain ⟨y, hjoin⟩ := joinSegments_eq hname p.zero_notMem_head hroom'
    have hhead : bufText (p.cut ++ 0 :: rest) = .ok p.head := by
      rw [← p.stringAt_cut.1]
      exact bufText_stringAt (Nat.zero_le _) rest
    refine ⟨y, ?_⟩
    rw [computeDotDot, bufText_append p.zero_notMem_text, ok_bind, p.cutSegments_text, ok_bind]
    simp only [hresult, ok_bind, hhead, strtok_slash p.head_ne_nil p.slash_notMem_head, hcopy,
      hjoin, if_neg (Nat.not_lt.mpr hroom)]
    rfl

/-- **The function does what a stack does exactly when the first segment is `..`, or no beginning of
the segments has more of them `..` than not.** -/
theorem computeDotDot_iff (p : MountPath) (rest : List UInt8) {output : List UInt8}
    (hroom : 256 ≤ output.length) : DotDotRight p rest output ↔
      p.segments.head? = some dotDot ∨
        ∀ front, front <+: p.segments → 2 * front.count dotDot ≤ front.length := by
  have hstack : (popDotDot p.segments).isSome ↔
      ∀ front, front <+: p.segments → 2 * front.count dotDot ≤ front.length := by
    rw [popDotDot, PopStack.run_isSome_iff]
    refine forall₂_congr fun front _ => ?_
    have hcount : front.countP (fun s => decide (s = dotDot)) = front.count dotDot :=
      List.countP_congr fun s _ => by simp
    rw [List.length_nil, Nat.zero_add, hcount]
  rw [DotDotRight, ← hstack]
  cases hpop : popDotDot p.segments with
  | some left =>
    refine ⟨fun _ => .inr rfl, fun _ => ?_⟩
    obtain ⟨y, hy⟩ := computeDotDot_left p rest hroom hpop
    have hsub : left.Sublist p.segments := by simpa using PopStack.run_sublist hpop
    have hleft : 0 ∉ pathText p.head left :=
      zero_notMem_pathText p.zero_notMem_head fun s hs => p.zero_notMem s (hsub.subset hs)
    refine ⟨_, hy, rfl, bufText_append hleft y, ?_⟩
    exact fun h => PopStack.not_pops_of_mem_run hpop (by simp) dotDot h rfl
  | none =>
    have hnone : ¬ (none : Option (List (List UInt8))).isSome := by simp
    rw [or_iff_left hnone]
    constructor
    · intro h
      by_contra hfirst
      obtain ⟨r, hr, -⟩ := h
      rw [computeDotDot_underflow p rest output hfirst hpop] at hr
      cases hr
    · intro hfirst
      exact ⟨_, computeDotDot_first p rest output hfirst, rfl⟩

lemma zero_notMem_mountF : (0 : UInt8) ∉ [102] := by decide

lemma slash_notMem_mountF : (47 : UInt8) ∉ [102] := by decide

/-- `"f:"` with the segments `a`, `..` and `b`. -/
def dotDotPath : MountPath where
  mount := [102]
  segments := [[97], dotDot, [98]]
  zero_notMem_mount := zero_notMem_mountF
  slash_notMem_mount := slash_notMem_mountF
  zero_notMem := by decide
  slash_notMem := by decide
  length_lt := by decide

/-- The function takes `a` away. -/
theorem computeDotDot_pops : DotDotRight dotDotPath [] (List.replicate 256 0) := by
  have hfronts : ∀ front ∈ dotDotPath.segments.inits, 2 * front.count dotDot ≤ front.length := by
    decide
  refine (computeDotDot_iff dotDotPath [] (by rw [List.length_replicate])).mpr (.inr ?_)
  exact fun front hfront => hfronts front ((List.mem_inits _ _).mpr hfront)

/-- `"f:/a/../.."`. -/
def dotDotAbove : MountPath where
  mount := [102]
  segments := [[97], dotDot, dotDot]
  zero_notMem_mount := zero_notMem_mountF
  slash_notMem_mount := slash_notMem_mountF
  zero_notMem := by decide
  slash_notMem := by decide
  length_lt := by decide

/-- The path that goes above its mount behind another segment: the write to the element `-1`. -/
theorem computeDotDot_above : ∃ (p : MountPath) (rest output : List UInt8),
    256 ≤ output.length ∧ ¬ DotDotRight p rest output := by
  have herror := computeDotDot_underflow dotDotAbove [] (List.replicate 256 0) (by decide)
    (by decide)
  refine ⟨dotDotAbove, [], List.replicate 256 0, by rw [List.length_replicate], fun h => ?_⟩
  have hnone : popDotDot dotDotAbove.segments = none := by decide
  rw [DotDotRight, hnone] at h
  obtain ⟨r, hr, -⟩ := h
  rw [herror] at hr
  cases hr

end DotDot

end MicroOS
