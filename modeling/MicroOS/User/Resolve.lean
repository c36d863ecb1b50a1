import MicroOS.FileSystem.Paths
import MicroOS.User.DotDot

/-!
`resolve` of `user/libc/stdio/resolve.c`, which makes a path absolute and looks whether it exists.

The system calls `dir_at` and `fs_at` are parameters; a `FileTree` presents itself by them.

* `existsRecursive`: the recursion over the slashes; `resolveCheck`, `resolve`: the functions;
* `FileTree`: the mounts and the entries of their directories; `AbsolutePath`: `mount:/name/name`
  with any number of slashes in between and behind;
* `searchDir_settles`: the loop over a directory finds a name exactly when it is an entry;
* `existsRecursive_settles`: the recursion answers for the names before the first empty one;
* `resolveRight_iff`: **the answer is right exactly where** no empty segment stands between what is
  found and what does not exist, and a path that ends in a colon does not exist or is a mount's.
-/

namespace MicroOS

open Checked

/-! ### The functions -/

/-- The loop of `exists_recursive` that looks for a slash, with `n` turns left: the index, where
`current_slash_idx` is one less than given. -/
def slashIndex (input : List UInt8) : ℕ → ℕ → ℕ → ℕ
  | 0, index, _ => index
  | _ + 1, index, 0 => index
  | n + 1, index, k + 1 => slashIndex input n (index + 1)
      (if input[index + 1]? = some 47 then k else k + 1)

/-- The loop over the entries of a directory, which looks at an entry before it asks whether there
is one. -/
def searchDir (dirAt : List UInt8 → ℕ → DirT) (pathToCheck fileOrDir : List UInt8) :
    ℕ → DirT → Except BufferFault Bool
  | 0, _ => .error .outOfFuel
  | fuel + 1, dir =>
    if strcmp (dir.name.map tolower) (fileOrDir.map tolower) = 0 then .ok true
    else if (dirAt pathToCheck (dir.idx + 1)).isNone then .ok false
    else searchDir dirAt pathToCheck fileOrDir fuel (dirAt pathToCheck (dir.idx + 1))

/-- `exists_recursive`. -/
def existsRecursive (dirAt : List UInt8 → ℕ → DirT) :
    ℕ → List UInt8 → ℕ → Except BufferFault Bool
  | 0, _, _ => .error .outOfFuel
  | fuel + 1, input, currentSlash =>
    let index := slashIndex input input.length 0 (currentSlash + 1)
    let pathToCheck := input.take (index + 1)
    let fileOrDir := (input.drop (index + 1)).takeWhile fun c => c ≠ 47
    if fileOrDir = [] then .ok true
    else do
      if ← searchDir dirAt pathToCheck fileOrDir fuel (dirAt pathToCheck 0) then
        existsRecursive dirAt fuel input (currentSlash + 1)
      else return false

/-- The loop over the mounts, from an index on. -/
def searchMounts (fsAt : ℕ → Option (List UInt8)) (checkExists : List UInt8) :
    ℕ → ℕ → Except BufferFault Bool
  | 0, _ => .error .outOfFuel
  | fuel + 1, idx =>
    match fsAt idx with
    | none => .ok false
    | some fsName =>
      if strcmp checkExists fsName = 0 then .ok true
      else searchMounts fsAt checkExists fuel (idx + 1)

/-- The name of the mount, where a path ends with `:` or with `:/`. -/
def rootPath (checkExists : List UInt8) : Except BufferFault (Option (List UInt8)) :=
  let checkLen := checkExists.length
  if checkLen = 0 then .error (.index (-1))
  else if checkExists[checkLen - 1]? = some 58 then .ok (some (checkExists.take (checkLen - 1)))
  else if checkLen = 1 then .error (.index (-1))
  else if checkExists[checkLen - 2]? = some 58 ∧ checkExists[checkLen - 1]? = some 47 then
    .ok (some (checkExists.take (checkLen - 2)))
  else .ok none

/-- The output where the path is relative or begins with a slash. The output has the working
directory in front of what was in it, and the four bytes that are cleared are those of a pointer. -/
def resolveRelative (cwd tmp output : List UInt8) : Except BufferFault (List UInt8) := do
  let length := (← bufText output).length
  if length = 0 then .error (.index (-1))
  else
    let output ← if (← bufRead output (length - 1)) = 47 then bufWrite output (length - 1) 0
      else .ok output
    if (← bufRead tmp 0) = 47 then
      let output ← bufStore output 0 [0, 0, 0, 0]
      match strtok (← bufText cwd) [58] with
      | none => .error .nullPointer
      | some mount => libcStrcat (← libcStrcat (← libcStrcpy output mount) [58]) (← bufText tmp)
    else
      let length := (← bufText tmp).length
      if length = 0 then .error (.index (-1))
      else
        let last := length - 1
        let tmp ← if (← bufRead tmp last) = 47 then bufWrite tmp last 0 else .ok tmp
        libcStrcat (← libcStrcat output [47]) (← bufText tmp)

/-- The output where the path has a colon. -/
def resolveAbsolute (tmp output : List UInt8) : Except BufferFault (List UInt8) := do
  let text ← bufText tmp
  let output ← bufWrite (← bufStore output 0 text) text.length 0
  if (← bufRead output ((← bufText output).length - 1)) = 58 then libcStrcat output [47]
  else return output

/-- The path without its last part, where the child is not to be looked for. -/
def withoutChild (checkExists : List UInt8) : List UInt8 :=
  if 47 ∈ checkExists then checkExists.take (checkExists.length - 1 - checkExists.reverse.idxOf 47)
  else checkExists

/-- The rest of `resolve_check`, once the path stands in the output. -/
def checkOutput (dirAt : List UInt8 → ℕ → DirT) (fsAt : ℕ → Option (List UInt8)) (fuel : ℕ)
    (checkChild : Bool) (output : List UInt8) : Except BufferFault (Bool × List UInt8) := do
  let result ← computeDotDot (← libcStrcpy (List.replicate 256 0) (← bufText output)) output
  if !result.returned then return (false, result.output)
  else
    let copy ← bufText (← libcStrcpy (List.replicate 256 0) (← bufText result.output))
    let checkExists := if checkChild then copy else withoutChild copy
    match ← rootPath checkExists with
    | some mount => return (← searchMounts fsAt mount fuel 0, result.output)
    | none => return (← existsRecursive dirAt fuel checkExists 0, result.output)

/-- `resolve_check`, where `set_env` leaves `cwd`: what it returns, and the output. -/
def resolveCheck (dirAt : List UInt8 → ℕ → DirT) (fsAt : ℕ → Option (List UInt8)) (fuel : ℕ)
    (cwd path output : List UInt8) (checkChild : Bool) :
    Except BufferFault (Bool × List UInt8) := do
  let output ← bufStore output 0 (← bufText cwd)
  let tmp ← libcStrcpy (List.replicate 256 0) (← bufText path)
  if 58 ∈ (← bufText tmp) then
    checkOutput dirAt fsAt fuel checkChild (← resolveAbsolute tmp output)
  else checkOutput dirAt fsAt fuel checkChild (← resolveRelative cwd tmp output)

/-- `resolve`. -/
def resolve (dirAt : List UInt8 → ℕ → DirT) (fsAt : ℕ → Option (List UInt8)) (fuel : ℕ)
    (cwd path output : List UInt8) : Except BufferFault (Bool × List UInt8) :=
  resolveCheck dirAt fsAt fuel cwd path output true

/-! ### File trees -/

/-- The mounts, and the entries of the directory that a list of names leads to. -/
structure FileTree where
  mounts : List (List UInt8)
  entries : List UInt8 → List (List UInt8) → List (List UInt8 × EntryType)
  zero_notMem : ∀ m ∈ mounts, 0 ∉ m
  colon_notMem : ∀ m ∈ mounts, 58 ∉ m
  dirName : ∀ m dir, ∀ e ∈ entries m dir, DirName e.1
  entries_eq_nil : ∀ m dir, m ∉ mounts → entries m dir = []

/-- What is reported for an index. -/
def dirReport (entries : List (List UInt8 × EntryType)) (idx : ℕ) : DirT :=
  match entries[idx]? with
  | some e => ⟨e.1, idx, false, e.2⟩
  | none => .none

/-- `dir_at`: the mount stands before the first colon. -/
def FileTree.dirAt (t : FileTree) (path : List UInt8) (idx : ℕ) : DirT :=
  dirReport (t.entries (path.takeWhile fun c => c ≠ 58)
    (components ((path.dropWhile fun c => c ≠ 58).drop 1))) idx

/-- `fs_at`. -/
def FileTree.fsAt (t : FileTree) (idx : ℕ) : Option (List UInt8) := t.mounts[idx]?

/-- A name is an entry of a directory, up to ASCII case. -/
def FileTree.HasEntry (t : FileTree) (mount : List UInt8) (dir : List (List UInt8))
    (name : List UInt8) : Prop :=
  ∃ e ∈ t.entries mount dir, SameName e.1 name

/-- Each of the names is an entry of the directory that those before it lead to. -/
def FileTree.Finds (t : FileTree) (mount : List UInt8) (dir names : List (List UInt8)) : Prop :=
  ∀ front name, front ++ [name] <+: names → t.HasEntry mount (dir ++ front) name

/-- A path `mount:/name/name`, where empty segments stand for slashes behind slashes. -/
structure AbsolutePath extends MountPath where
  segments_ne_nil : segments ≠ []
  dotDot_notMem : dotDot ∉ segments
  colon_notMem_mount : 58 ∉ mount

/-- The names. -/
def AbsolutePath.names (p : AbsolutePath) : List (List UInt8) := p.segments.filter (· ≠ [])

/-- The names before the first empty segment. -/
def AbsolutePath.frontNames (p : AbsolutePath) : List (List UInt8) :=
  p.segments.takeWhile (· ≠ [])

/-- The mount exists, and each name in the directory before it. -/
def AbsolutePath.ExistsIn (p : AbsolutePath) (t : FileTree) : Prop :=
  p.mount ∈ t.mounts ∧ t.Finds p.mount [] p.names

/-- `resolve` returns, and returns `true` exactly when the path exists. -/
def ResolveRight (t : FileTree) (p : AbsolutePath) (cwd rest output : List UInt8) : Prop :=
  ∃ r : Bool × List UInt8,
    Settles (fun fuel => resolve t.dirAt t.fsAt fuel cwd (p.text ++ 0 :: rest) output) r ∧
      (r.1 = true ↔ p.ExistsIn t)

section Directory

variable {t : FileTree} {mount name c : List UInt8} {dir names : List (List UInt8)}

lemma FileTree.finds_nil : t.Finds mount dir [] := by
  intro front name h
  exact absurd (List.prefix_nil.mp h) (by simp)

/-- The first name is an entry, and the others are found in it. -/
lemma FileTree.finds_cons : t.Finds mount dir (c :: names) ↔
    t.HasEntry mount dir c ∧ t.Finds mount (dir ++ [c]) names := by
  constructor
  · intro h
    refine ⟨?_, fun front name hfront => ?_⟩
    · have hc := h [] c (by simp)
      rwa [List.append_nil] at hc
    · have hname := h (c :: front) name (by rw [List.cons_append]; simpa using hfront)
      rwa [← List.singleton_append, ← List.append_assoc] at hname
  · rintro ⟨hc, hnames⟩ front name hfront
    cases front with
    | nil =>
      obtain ⟨rfl, -⟩ := List.cons_prefix_cons.mp hfront
      rwa [List.append_nil]
    | cons d front =>
      obtain ⟨rfl, htail⟩ := List.cons_prefix_cons.mp hfront
      have hname := hnames front name htail
      rwa [List.append_assoc, List.singleton_append] at hname

lemma FileTree.Finds.mono {front : List (List UInt8)} (h : t.Finds mount dir names)
    (hfront : front <+: names) : t.Finds mount dir front :=
  fun f name hf => h f name (hf.trans hfront)

end Directory

section Search

variable {t : FileTree} {dirAt : List UInt8 → ℕ → DirT} {path name : List UInt8}
  {entries : List (List UInt8 × EntryType)}

/-- The lower case of a string is a string. -/
lemma zero_notMem_tolower {s : List UInt8} (hs : 0 ∉ s) : 0 ∉ s.map tolower := by
  intro h
  obtain ⟨c, hc, h0⟩ := List.mem_map.mp h
  exact hs (tolower_eq_zero h0 ▸ hc)

/-- Lower cases are equal just for the same names. -/
lemma strcmp_tolower {s t : List UInt8} (hs : 0 ∉ s) (ht : 0 ∉ t) :
    strcmp (s.map tolower) (t.map tolower) = 0 ↔ SameName s t :=
  strcmp_eq_zero (zero_notMem_tolower hs) (zero_notMem_tolower ht)

/-- One turn, at an entry. -/
lemma searchDir_succ (hreport : ∀ idx, dirAt path idx = dirReport entries idx) (hname : 0 ∉ name)
    {i : ℕ} {e : List UInt8 × EntryType} (he : entries[i]? = some e) (hzero : 0 ∉ e.1) (fuel : ℕ) :
    searchDir dirAt path name (fuel + 1) (dirAt path i) =
      if SameName e.1 name then .ok true
      else if i + 1 < entries.length then searchDir dirAt path name fuel (dirAt path (i + 1))
      else .ok false := by
  have hreported : dirAt path i = ⟨e.1, i, false, e.2⟩ := by rw [hreport, dirReport, he]
  have hnext : (dirAt path (i + 1)).isNone = decide (¬ i + 1 < entries.length) := by
    rw [hreport, dirReport]
    by_cases hlt : i + 1 < entries.length
    · rw [List.getElem?_eq_getElem hlt]
      simp [hlt]
    · rw [List.getElem?_eq_none (by omega)]
      simp [hlt, DirT.none]
  rw [hreported, searchDir]
  dsimp only
  rw [if_congr (strcmp_tolower hzero hname) rfl rfl, hnext]
  by_cases hlt : i + 1 < entries.length
  · simp [hlt]
  · simp [hlt]

/-- The loop from an entry on. -/
lemma searchDir_from (hreport : ∀ idx, dirAt path idx = dirReport entries idx) (hname : 0 ∉ name)
    (hnames : ∀ d ∈ entries, DirName d.1) (e : List UInt8 × EntryType)
    (front back : List (List UInt8 × EntryType)) (hentries : entries = front ++ e :: back) :
    ∃ found, Settles (fun fuel => searchDir dirAt path name fuel (dirAt path front.length)) found ∧
      (found = true ↔ ∃ d ∈ e :: back, SameName d.1 name) := by
  induction back generalizing front e with
  | nil =>
    have hget : entries[front.length]? = some e := by rw [hentries]; simp
    have hzero := (hnames e (by rw [hentries]; simp)).no_zero
    have hlast : ¬ front.length + 1 < entries.length := by rw [hentries]; simp
    refine ⟨decide (SameName e.1 name), (settles_const _).succ fun fuel => ?_, by simp⟩
    rw [searchDir_succ hreport hname hget hzero, if_neg hlast]
    by_cases hsame : SameName e.1 name
    · rw [if_pos hsame, decide_eq_true hsame]
    · rw [if_neg hsame, decide_eq_false hsame]
  | cons d back ih =>
    have hget : entries[front.length]? = some e := by rw [hentries]; simp
    have hzero := (hnames e (by rw [hentries]; simp)).no_zero
    have hmore : front.length + 1 < entries.length := by rw [hentries]; simp
    by_cases hsame : SameName e.1 name
    · refine ⟨true, (settles_const _).succ fun fuel => ?_, by simp [hsame]⟩
      rw [searchDir_succ hreport hname hget hzero, if_pos hsame]
    · obtain ⟨found, hsettles, hfound⟩ := ih d (front ++ [e]) (by rw [hentries]; simp)
      rw [List.length_append, List.length_singleton] at hsettles
      refine ⟨found, hsettles.succ fun fuel => ?_, ?_⟩
      · rw [searchDir_succ hreport hname hget hzero, if_neg hsame, if_pos hmore]
      · rw [hfound, List.exists_mem_cons_iff (p := fun d => SameName d.1 name) e,
          or_iff_right hsame]

/-- **The loop over a directory** looks whether a name is an entry. In an empty directory it
compares with the empty name that is reported, and a name is not empty. -/
lemma searchDir_settles (hreport : ∀ idx, dirAt path idx = dirReport entries idx)
    (hname : 0 ∉ name) (hne : name ≠ []) (hnames : ∀ d ∈ entries, DirName d.1) :
    ∃ found, Settles (fun fuel => searchDir dirAt path name fuel (dirAt path 0)) found ∧
      (found = true ↔ ∃ d ∈ entries, SameName d.1 name) := by
  cases hentries : entries with
  | cons e back =>
    rw [← hentries]
    have hfrom := searchDir_from hreport hname hnames e [] back (by rw [hentries]; rfl)
    rwa [List.length_nil, ← hentries] at hfrom
  | nil =>
    subst hentries
    have hnone : ∀ idx, dirAt path idx = DirT.none := fun idx => by
      rw [hreport, dirReport]
      rfl
    have hstrcmp : ¬ strcmp (DirT.none.name.map tolower) (name.map tolower) = 0 := by
      rw [strcmp_tolower (by simp [DirT.none]) hname]
      intro hsame
      exact hne (List.length_eq_zero_iff.mp hsame.length_eq.symm)
    refine ⟨false, (settles_const _).succ fun fuel => ?_, by simp⟩
    rw [searchDir, hnone, if_neg hstrcmp, hnone]
    rfl

end Search

section Slashes

variable {input head : List UInt8} {segments : List (List UInt8)}

/-- The index goes over characters that are no slashes. -/
lemma slashIndex_skip (s : List UInt8) (hs : 47 ∉ s) (n i k : ℕ) (rest : List UInt8)
    (hdrop : input.drop (i + 1) = s ++ rest) :
    slashIndex input (n + s.length) i (k + 1) = slashIndex input n (i + s.length) (k + 1) := by
  induction s generalizing i with
  | nil => rfl
  | cons c s ih =>
    have hget : input[i + 1]? = some c := by
      rw [← List.head?_drop, hdrop]
      rfl
    have hc : ¬ (some c = some (47 : UInt8)) := by
      intro h
      exact hs (Option.some.inj h ▸ List.mem_cons_self)
    have hdrop' : input.drop (i + 1 + 1) = s ++ rest := by
      rw [← List.tail_drop, hdrop]
      rfl
    have hstep := ih (fun h => hs (List.mem_cons_of_mem c h)) (i + 1) hdrop'
    rw [List.length_cons, ← Nat.add_assoc, slashIndex, hget, if_neg hc, hstep, Nat.add_assoc i 1,
      Nat.add_comm 1]

/-- From the end of a text on, the index goes to the slash before a segment, or to the end. -/
lemma slashIndex_from (pre : List UInt8) (segments : List (List UInt8))
    (hsegments : ∀ s ∈ segments, 47 ∉ s) (i j : ℕ) (hpre : pre.length = i + 1)
    (hinput : input = pathText pre segments) :
    slashIndex input ((pathText [] segments).length + 1) i (j + 1) =
      if j < segments.length then (pathText pre (segments.take j)).length else input.length := by
  induction segments generalizing pre i j with
  | nil =>
    have hget : input[i + 1]? = none := by
      rw [hinput, pathText, List.flatMap_nil, List.append_nil, ← hpre]
      exact List.getElem?_eq_none le_rfl
    have hlength : (pathText [] []).length = 0 := rfl
    rw [hlength, slashIndex, hget, List.length_nil, if_neg (Nat.not_lt_zero j), slashIndex,
      hinput, pathText, List.flatMap_nil, List.append_nil, hpre]
  | cons s segments ih =>
    obtain ⟨hs, hsegments⟩ := List.forall_mem_cons.mp hsegments
    have hsplit : input = pre ++ 47 :: (s ++ pathText [] segments) := by
      rw [hinput]
      simp [pathText]
    have hget : input[i + 1]? = some 47 := by rw [hsplit, ← hpre]; simp
    have hlength : (pathText [] (s :: segments)).length =
        (pathText [] segments).length + 1 + s.length := by
      simp [pathText]
      omega
    rw [slashIndex, hget, if_pos rfl, hlength]
    cases j with
    | zero =>
      rw [List.length_cons, if_pos (Nat.succ_pos _), List.take_zero, pathText, pathText,
        List.flatMap_nil, List.append_nil, hpre, Nat.add_right_comm, slashIndex]
    | succ j =>
      have hdrop : input.drop (i + 1 + 1) = s ++ pathText [] segments := by
        rw [hsplit, ← hpre, List.drop_length_add_append]
        rfl
      have hpre' : (pre ++ 47 :: s).length = i + 1 + s.length + 1 := by
        rw [List.length_append, List.length_cons, hpre]
        omega
      have hinput' : input = pathText (pre ++ 47 :: s) segments := by
        rw [hinput]
        simp [pathText]
      rw [slashIndex_skip s hs _ _ _ _ hdrop,
        ih (pre ++ 47 :: s) hsegments (i + 1 + s.length) j hpre' hinput']
      simp [pathText]

/-- **The index is that of the slash before a segment**, or of the end. -/
lemma slashIndex_pathText (hne : head ≠ []) (hhead : 47 ∉ head)
    (hsegments : ∀ s ∈ segments, 47 ∉ s) (j : ℕ) :
    slashIndex (pathText head segments) (pathText head segments).length 0 (j + 1) =
      if j < segments.length then (pathText head (segments.take j)).length
      else (pathText head segments).length := by
  cases head with
  | nil => exact absurd rfl hne
  | cons c head =>
    have hlength : (pathText (c :: head) segments).length =
        (pathText [] segments).length + 1 + head.length := by
      simp [pathText]
      omega
    have hdrop : (pathText (c :: head) segments).drop (0 + 1) = head ++ pathText [] segments := by
      simp [pathText]
    have hskip := slashIndex_skip head (fun h => hhead (List.mem_cons_of_mem c h))
      ((pathText [] segments).length + 1) 0 j (pathText [] segments) hdrop
    rw [← slashIndex_from (c :: head) segments hsegments head.length j rfl rfl, hlength, hskip,
      Nat.zero_add]

end Slashes

section Recursion

variable {t : FileTree} {dirAt : List UInt8 → ℕ → DirT} {head mount s : List UInt8}
  {done todo : List (List UInt8)}

/-- A path up to a segment, and from there on. -/
lemma pathText_append (head s : List UInt8) (done todo : List (List UInt8)) :
    pathText head (done ++ s :: todo) = pathText head done ++ 47 :: (s ++ pathText [] todo) := by
  simp [pathText]

/-- A segment ends at the next slash. -/
lemma takeWhile_segment (hs : 47 ∉ s) (todo : List (List UInt8)) :
    ((s ++ pathText [] todo).takeWhile fun c => c ≠ 47) = s := by
  have hall : ∀ c ∈ s, decide (c ≠ 47) = true := fun c hc =>
    decide_eq_true fun h => hs (h ▸ hc)
  rw [List.takeWhile_append_of_pos hall]
  cases todo with
  | nil => simp [pathText]
  | cons d todo => simp [pathText]

/-- **A level of the recursion** looks for a segment in the directory of those before it. -/
lemma existsRecursive_segment (hne : head ≠ []) (hhead : 47 ∉ head)
    (hsegments : ∀ d ∈ done ++ s :: todo, 47 ∉ d) (fuel : ℕ) :
    existsRecursive dirAt (fuel + 1) (pathText head (done ++ s :: todo)) done.length =
      if s = [] then .ok true
      else (do
        if ← searchDir dirAt (pathText head done ++ [47]) s fuel
            (dirAt (pathText head done ++ [47]) 0) then
          existsRecursive dirAt fuel (pathText head (done ++ s :: todo)) (done.length + 1)
        else return false) := by
  have hs : 47 ∉ s := hsegments s (by simp)
  have hindex : slashIndex (pathText head (done ++ s :: todo))
      (pathText head (done ++ s :: todo)).length 0 (done.length + 1) =
      (pathText head done).length := by
    rw [slashIndex_pathText hne hhead hsegments, if_pos (by simp), List.take_left']
    rfl
  have hpath : (pathText head (done ++ s :: todo)).take ((pathText head done).length + 1) =
      pathText head done ++ [47] := by
    rw [pathText_append, List.take_length_add_append]
    rfl
  have hname : (((pathText head (done ++ s :: todo)).drop
      ((pathText head done).length + 1)).takeWhile fun c => c ≠ 47) = s := by
    rw [pathText_append, List.drop_length_add_append]
    exact takeWhile_segment hs todo
  rw [existsRecursive, hindex, hpath, hname]

/-- Behind the last segment nothing is looked for. -/
lemma existsRecursive_end (hne : head ≠ []) (hhead : 47 ∉ head) (hdone : ∀ d ∈ done, 47 ∉ d)
    (fuel : ℕ) : existsRecursive dirAt (fuel + 1) (pathText head done) done.length = .ok true := by
  rw [existsRecursive, slashIndex_pathText hne hhead hdone, if_neg (lt_irrefl _),
    List.drop_eq_nil_of_le (Nat.le_succ _), List.takeWhile_nil, if_pos rfl]

/-- The directory that a path leads to. -/
lemma FileTree.dirAt_path (t : FileTree) (hcolon : 58 ∉ mount) (hdone : ∀ d ∈ done, 47 ∉ d)
    (hnames : ∀ d ∈ done, d ≠ []) (idx : ℕ) :
    t.dirAt (pathText (mount ++ [58]) done ++ [47]) idx = dirReport (t.entries mount done) idx := by
  have hall : ∀ c ∈ mount, decide (c ≠ 58) = true := fun c hc =>
    decide_eq_true fun h => hcolon (h ▸ hc)
  have hpath : pathText (mount ++ [58]) done ++ [47] =
      mount ++ 58 :: (pathText [] done ++ [47]) := by
    simp [pathText]
  have hcomponents : components (pathText [] done ++ [47]) = done := by
    have hfilter : done.filter (· ≠ []) = done := by
      rw [List.filter_eq_self]
      exact fun d hd => decide_eq_true (hnames d hd)
    rw [components_append, components, components, splitOn_pathText (by simp) hdone]
    simpa using hfilter
  rw [FileTree.dirAt, hpath, List.takeWhile_append_of_pos hall, List.dropWhile_append_of_pos hall]
  simp [hcomponents]

/-- **The recursion finds the names before the first empty segment.** -/
lemma existsRecursive_settles (hslash : 47 ∉ mount) (hcolon : 58 ∉ mount)
    (hnames : ∀ d ∈ done, d ≠ []) (hsegments : ∀ d ∈ done ++ todo, 47 ∉ d ∧ 0 ∉ d) :
    ∃ found, Settles (fun fuel => existsRecursive t.dirAt fuel
        (pathText (mount ++ [58]) (done ++ todo)) done.length) found ∧
      (found = true ↔ t.Finds mount done (todo.takeWhile (· ≠ []))) := by
  have hne : mount ++ [58] ≠ [] := by simp
  have hhead : 47 ∉ mount ++ [58] := by simpa using hslash
  induction todo generalizing done with
  | nil =>
    rw [List.append_nil] at hsegments ⊢
    refine ⟨true, (settles_const true).succ fun fuel => ?_, ?_⟩
    · exact existsRecursive_end hne hhead (fun d hd => (hsegments d hd).1) fuel
    · simpa using FileTree.finds_nil
  | cons s todo ih =>
    have hslashes : ∀ d ∈ done ++ s :: todo, 47 ∉ d := fun d hd => (hsegments d hd).1
    by_cases hs : s = []
    · refine ⟨true, (settles_const true).succ fun fuel => ?_, ?_⟩
      · rw [existsRecursive_segment hne hhead hslashes, if_pos hs]
      · simpa [hs] using FileTree.finds_nil
    · have hreport := t.dirAt_path hcolon (fun d hd => hslashes d (by simp [hd])) hnames
      obtain ⟨entry, hsearch, hentry⟩ := searchDir_settles hreport
        (hsegments s (by simp)).2 hs (t.dirName mount done)
      rw [List.takeWhile_cons_of_pos (by simpa using hs), FileTree.finds_cons,
        FileTree.HasEntry, ← hentry]
      obtain ⟨found, hrest, hfound⟩ : ∃ found, Settles (fun fuel => if entry = true then
            existsRecursive t.dirAt fuel (pathText (mount ++ [58]) (done ++ s :: todo))
              (done.length + 1) else return false) found ∧
          (found = true ↔ entry = true ∧
            t.Finds mount (done ++ [s]) (todo.takeWhile (· ≠ []))) := by
        cases entry with
        | false => exact ⟨false, settles_const false, by simp⟩
        | true =>
          have hassoc : done ++ s :: todo = done ++ [s] ++ todo := by simp
          have hnames' : ∀ d ∈ done ++ [s], d ≠ [] := by
            intro d hd
            cases List.mem_append.mp hd with
            | inl hd => exact hnames d hd
            | inr hd => rwa [List.mem_singleton.mp hd]
          obtain ⟨found, hrest, hfound⟩ := ih hnames' (hassoc ▸ hsegments)
          rw [← hassoc, List.length_append, List.length_singleton] at hrest
          exact ⟨found, hrest, by simpa using hfound⟩
      refine ⟨found, (hsearch.bind (g := fun fuel entry => if entry = true then
        existsRecursive t.dirAt fuel (pathText (mount ++ [58]) (done ++ s :: todo))
          (done.length + 1) else return false) hrest).succ fun fuel => ?_, hfound⟩
      rw [existsRecursive_segment hne hhead hslashes, if_neg hs]

end Recursion

section Root

variable {t : FileTree} {name : List UInt8}

/-- The loop over the mounts from one of them on. -/
lemma searchMounts_from (hname : 0 ∉ name) (front back : List (List UInt8))
    (hmounts : t.mounts = front ++ back) : ∃ found,
    Settles (fun fuel => searchMounts t.fsAt name fuel front.length) found ∧
      (found = true ↔ name ∈ back) := by
  induction back generalizing front with
  | nil =>
    have hget : t.fsAt front.length = none := by rw [FileTree.fsAt, hmounts]; simp
    refine ⟨false, (settles_const false).succ fun fuel => ?_, by simp⟩
    rw [searchMounts, hget]
  | cons m back ih =>
    have hget : t.fsAt front.length = some m := by rw [FileTree.fsAt, hmounts]; simp
    have hzero : 0 ∉ m := t.zero_notMem m (by rw [hmounts]; simp)
    by_cases hm : name = m
    · refine ⟨true, (settles_const true).succ fun fuel => ?_, by simp [hm]⟩
      rw [searchMounts, hget]
      exact if_pos ((strcmp_eq_zero hname hzero).mpr hm)
    · obtain ⟨found, hrest, hfound⟩ := ih (front ++ [m]) (by rw [hmounts]; simp)
      rw [List.length_append, List.length_singleton] at hrest
      refine ⟨found, hrest.succ fun fuel => ?_, by simp [hfound, hm]⟩
      rw [searchMounts, hget]
      exact if_neg fun h => hm ((strcmp_eq_zero hname hzero).mp h)

/-- **The loop over the mounts** looks whether a name is one of them. -/
lemma searchMounts_settles (hname : 0 ∉ name) : ∃ found,
    Settles (fun fuel => searchMounts t.fsAt name fuel 0) found ∧
      (found = true ↔ name ∈ t.mounts) :=
  searchMounts_from hname [] t.mounts rfl

/-- The last two characters decide. -/
lemma rootPath_eq (q : List UInt8) (a b : UInt8) : rootPath (q ++ [a, b]) =
    .ok (if b = 58 then some (q ++ [a]) else if a = 58 ∧ b = 47 then some q else none) := by
  have hlast : (q ++ [a, b])[q.length + 2 - 1]? = some b := by simp
  have hbefore : (q ++ [a, b])[q.length + 2 - 2]? = some a := by simp
  have htake : (q ++ [a, b]).take (q.length + 2 - 1) = q ++ [a] := List.take_length_add_append 1
  have htake' : (q ++ [a, b]).take (q.length + 2 - 2) = q := by simp
  rw [rootPath]
  simp only [List.length_append, List.length_cons, List.length_nil, Nat.zero_add, Nat.reduceAdd,
    hlast, hbefore, htake, htake', Option.some.injEq]
  rw [if_neg (by omega), if_neg (by omega : ¬ q.length + 2 = 1)]
  by_cases hb : b = 58
  · rw [if_pos hb, if_pos hb]
  · rw [if_neg hb, if_neg hb]
    by_cases hab : a = 58 ∧ b = 47
    · rw [if_pos hab, if_pos hab]
    · rw [if_neg hab, if_neg hab]

end Root

section Resolve

variable {t : FileTree} (p : AbsolutePath) {rest output cwd : List UInt8}

/-- The segments after a slash was put behind a colon at the end. -/
def AbsolutePath.closedSegments : List (List UInt8) :=
  if [58] <:+ p.text then p.segments ++ [[]] else p.segments

/-- The text that is worked on. -/
def AbsolutePath.closedText : List UInt8 := pathText p.head p.closedSegments

/-- A path that ends in a colon is closed with a slash. -/
lemma AbsolutePath.closedText_of_colon (h : [58] <:+ p.text) : p.closedText = p.text ++ [47] := by
  rw [closedText, closedSegments, if_pos h, MountPath.text]
  simp [pathText]

lemma AbsolutePath.closedText_of_not_colon (h : ¬ [58] <:+ p.text) : p.closedText = p.text := by
  rw [closedText, closedSegments, if_neg h, MountPath.text]

lemma AbsolutePath.text_ne_nil : p.text ≠ [] := by
  rw [MountPath.text, pathText]
  exact List.append_ne_nil_of_left_ne_nil p.head_ne_nil _

lemma AbsolutePath.text_lt : p.text.length < 256 := p.length_lt

/-- The path is copied, and a slash is put behind a colon at its end. -/
lemma resolveAbsolute_eq (tail : List UInt8) (hroom : 256 ≤ output.length) :
    resolveAbsolute (p.text ++ 0 :: tail) output =
      if [58] <:+ p.text then
        libcStrcat (p.text ++ 0 :: (output.drop p.text.length).drop 1) [47]
      else .ok (p.text ++ 0 :: (output.drop p.text.length).drop 1) := by
  obtain ⟨q, c, hqc⟩ := (List.eq_nil_or_concat' p.text).resolve_left p.text_ne_nil
  have hcolon : [58] <:+ p.text ↔ c = 58 := by
    rw [hqc, ← List.reverse_prefix]
    simp [eq_comm]
  have hlt := p.text_lt
  have hzero := p.zero_notMem_text
  have hne : output.drop p.text.length ≠ [] := by
    rw [Ne, List.drop_eq_nil_iff]
    omega
  have hstore : bufStore output 0 p.text = .ok (p.text ++ output.drop p.text.length) :=
    bufStore_append [] (by omega)
  have hread : bufRead (p.text ++ 0 :: (output.drop p.text.length).drop 1) (p.text.length - 1) =
      .ok c := by
    rw [hqc, List.length_append, List.length_singleton, Nat.add_sub_cancel, List.append_assoc,
      List.singleton_append]
    exact bufRead_append q c _
  rw [resolveAbsolute, bufText_append hzero, ok_bind]
  simp only [hstore, ok_bind, bufWrite_append p.text 0 hne, bufText_append hzero, hread, hcolon]
  rfl

/-- **`resolve_absolute`** closes the path, with room for it. -/
lemma resolveAbsolute_closed (tail : List UInt8) (hroom : 256 ≤ output.length)
    (hclosed : p.closedText.length < 256) : ∃ x,
    resolveAbsolute (p.text ++ 0 :: tail) output = .ok (p.closedText ++ 0 :: x) ∧
      256 ≤ (p.closedText ++ 0 :: x).length := by
  have hlt := p.text_lt
  rw [resolveAbsolute_eq p tail hroom]
  by_cases hcolon : [58] <:+ p.text
  · have hclosedText := p.closedText_of_colon hcolon
    rw [hclosedText, List.length_append, List.length_singleton] at hclosed
    rw [if_pos hcolon, hclosedText, libcStrcat_append p.zero_notMem_text (by
      rw [List.length_drop, List.length_drop, List.length_singleton]
      omega)]
    refine ⟨_, rfl, ?_⟩
    simp only [List.length_append, List.length_cons, List.length_nil, List.length_drop]
    omega
  · rw [if_neg hcolon, p.closedText_of_not_colon hcolon]
    refine ⟨_, rfl, ?_⟩
    rw [List.length_append, List.length_cons, List.length_drop, List.length_drop]
    omega

/-- A segment of the closed path is one of the path, or empty. -/
lemma AbsolutePath.closedSegments_subset : ∀ s ∈ p.closedSegments, s ∈ p.segments ∨ s = [] := by
  intro s hs
  rw [closedSegments] at hs
  split_ifs at hs
  · simpa using hs
  · exact .inl hs

/-- The path with the slash behind it. -/
def AbsolutePath.closed (h : p.closedText.length < 256) : MountPath where
  mount := p.mount
  segments := p.closedSegments
  zero_notMem_mount := p.zero_notMem_mount
  slash_notMem_mount := p.slash_notMem_mount
  zero_notMem s hs := (p.closedSegments_subset s hs).elim (p.zero_notMem s) fun h => by simp [h]
  slash_notMem s hs := (p.closedSegments_subset s hs).elim (p.slash_notMem s) fun h => by simp [h]
  length_lt := h

/-- Without `..` in it `compute_dot_dot` leaves the path as it is. -/
lemma AbsolutePath.popDotDot_closedSegments :
    popDotDot p.closedSegments = some p.closedSegments := by
  refine PopStack.run_of_not_pops fun s hs h => ?_
  cases p.closedSegments_subset s hs with
  | inl hmem => exact p.dotDot_notMem (h ▸ hmem)
  | inr hnil => exact absurd (hnil.symm.trans h) (by decide)

/-- A copy in a buffer of zeros. -/
lemma libcStrcpy_zeros {text : List UInt8} (hne : text ≠ []) (hlt : text.length < 256) :
    ∃ k, libcStrcpy (List.replicate 256 0) text = .ok (text ++ 0 :: List.replicate k 0) := by
  obtain ⟨k, hpadded, -⟩ := zeroPadded_of_lt hlt
  refine ⟨k, ?_⟩
  rw [← zeroPadded_nil, libcStrcpy_zeroPadded hne hlt, hpadded]

/-- A path with a colon is copied to the output. -/
lemma resolve_absolute (dirAt : List UInt8 → ℕ → DirT) (fsAt : ℕ → Option (List UInt8))
    (rest : List UInt8) (hcwd : 0 ∈ cwd) (hlen : cwd.length = 256) (hroom : 256 ≤ output.length) :
    ∃ tail o, 256 ≤ o.length ∧ ∀ fuel, resolve dirAt fsAt fuel cwd (p.text ++ 0 :: rest) output =
      resolveAbsolute (p.text ++ 0 :: tail) o >>= checkOutput dirAt fsAt fuel true := by
  have hzero := p.zero_notMem_text
  have hcwdText : bufText cwd = .ok (cwd.takeWhile fun c => c ≠ 0) := by rw [bufText, if_pos hcwd]
  have hcwdLength : (cwd.takeWhile fun c => c ≠ 0).length ≤ output.length :=
    (List.takeWhile_prefix _).length_le.trans (hlen ▸ hroom)
  obtain ⟨o, hstore, ho⟩ : ∃ o, bufStore output 0 (cwd.takeWhile fun c => c ≠ 0) = .ok o ∧
      256 ≤ o.length := by
    refine ⟨_, bufStore_append [] hcwdLength, ?_⟩
    rw [List.nil_append, List.length_append, List.length_drop]
    omega
  obtain ⟨k, hcopy⟩ := libcStrcpy_zeros p.text_ne_nil p.text_lt
  have hcolon : 58 ∈ p.text := by
    rw [MountPath.text, MountPath.head, pathText]
    simp
  refine ⟨List.replicate k 0, o, ho, fun fuel => ?_⟩
  rw [resolve, resolveCheck]
  simp only [hcwdText, hstore, ok_bind, bufText_append hzero, hcopy, if_pos hcolon]

/-- **What `resolve` looks for** is the path with a slash behind a colon at its end. -/
lemma resolve_eq (dirAt : List UInt8 → ℕ → DirT) (fsAt : ℕ → Option (List UInt8))
    (rest : List UInt8) (hcwd : 0 ∈ cwd) (hlen : cwd.length = 256) (hroom : 256 ≤ output.length)
    (hclosed : p.closedText.length < 256) : ∃ out, ∀ fuel,
    resolve dirAt fsAt fuel cwd (p.text ++ 0 :: rest) output = (do
      match ← rootPath p.closedText with
      | some mount => return (← searchMounts fsAt mount fuel 0, out)
      | none => return (← existsRecursive dirAt fuel p.closedText 0, out)) := by
  have hclosedZero : 0 ∉ p.closedText := (p.closed hclosed).zero_notMem_text
  have hclosedNe : p.closedText ≠ [] := by
    rw [AbsolutePath.closedText, pathText]
    exact List.append_ne_nil_of_left_ne_nil p.head_ne_nil _
  obtain ⟨tail, o, ho, hresolve⟩ := resolve_absolute p dirAt fsAt rest hcwd hlen hroom
  obtain ⟨x, habsolute, hx⟩ := resolveAbsolute_closed p tail ho hclosed
  obtain ⟨k, hcopy⟩ := libcStrcpy_zeros hclosedNe hclosed
  obtain ⟨y, hdotDot⟩ := computeDotDot_left (p.closed hclosed) (List.replicate k 0) hx
    p.popDotDot_closedSegments
  have hdotDot' : computeDotDot (p.closedText ++ 0 :: List.replicate k 0) (p.closedText ++ 0 :: x) =
      .ok ⟨true, p.closedText ++ 0 :: y, none⟩ := hdotDot
  refine ⟨p.closedText ++ 0 :: y, fun fuel => ?_⟩
  rw [hresolve, habsolute, ok_bind, checkOutput]
  simp only [ok_bind, bufText_append hclosedZero, hcopy, hdotDot', Bool.not_true,
    Bool.false_eq_true, if_false, if_true]

/-- A colon at the end of 255 characters: the slash behind it leaves no room for the terminator. -/
lemma resolve_overflow (dirAt : List UInt8 → ℕ → DirT) (fsAt : ℕ → Option (List UInt8))
    (rest : List UInt8) (hcwd : 0 ∈ cwd) (hlen : cwd.length = 256) (hroom : 256 ≤ output.length)
    (hcolon : [58] <:+ p.text) (hfull : p.text.length = 255) (fuel : ℕ) :
    resolve dirAt fsAt fuel cwd (p.text ++ 0 :: rest) output = .error .pastEnd := by
  have hzero := p.zero_notMem_text
  have hzero' : 0 ∉ p.text ++ [47] := by simpa using hzero
  obtain ⟨tail, o, ho, hresolve⟩ := resolve_absolute p dirAt fsAt rest hcwd hlen hroom
  rw [hresolve, resolveAbsolute_eq p tail ho, if_pos hcolon]
  cases hx : (o.drop p.text.length).drop 1 with
  | nil =>
    -- The output ends behind the slash.
    have hstore : bufStore (p.text ++ [0]) p.text.length [47] = .ok (p.text ++ [47]) :=
      by simpa using @bufStore_append [47] p.text [0] le_rfl
    have hcat : libcStrcat (p.text ++ [0]) [47] = .error .pastEnd := by
      rw [libcStrcat, bufText_append hzero, ok_bind]
      dsimp only
      rw [hstore, ok_bind, bufWrite, if_neg (by simp)]
    rw [hcat]
    rfl
  | cons c x =>
    -- The copy for `compute_dot_dot` has no terminator.
    have hcat : libcStrcat (p.text ++ 0 :: c :: x) [47] =
        .ok (p.text ++ [47] ++ 0 :: (c :: x).drop 1) :=
      libcStrcat_append hzero (by simp)
    have hlength : (p.text ++ [47]).length = 256 := by
      rw [List.length_append, hfull, List.length_singleton]
    have hcopy : libcStrcpy (List.replicate 256 0) (p.text ++ [47]) = .ok (p.text ++ [47]) := by
      rw [libcStrcpy_append (by simp) (by rw [hlength, List.length_replicate]), hlength,
        List.drop_replicate, Nat.sub_self, List.replicate_zero, List.append_nil]
    have htext : bufText (p.text ++ [47]) = .error .pastEnd := by rw [bufText, if_neg hzero']
    rw [hcat, ok_bind, checkOutput]
    simp only [bufText_append hzero', ok_bind, hcopy, computeDotDot, htext, error_bind]

/-- The path ends in a colon, or in a colon and a slash. -/
def AbsolutePath.EndsInColon : Prop := [58] <:+ p.text ∨ [58, 47] <:+ p.text

/-- Where the answer is right: the path is that of a mount; or it does not end in a colon, and where
the names before the first empty segment are found it exists; or it ends in a colon, does not exist,
and leaves room for a slash. -/
def ResolveMeets (t : FileTree) : Prop :=
  p.segments = [[]] ∨
  (¬ p.EndsInColon ∧ (t.Finds p.mount [] p.frontNames → p.ExistsIn t)) ∨
  (p.EndsInColon ∧ ¬ p.ExistsIn t ∧ ¬ ([58] <:+ p.text ∧ p.text.length = 255))

/-- The names before the first empty segment come before the other ones. -/
lemma takeWhile_prefix_filter (segments : List (List UInt8)) :
    segments.takeWhile (· ≠ []) <+: segments.filter (· ≠ []) := by
  induction segments with
  | nil => exact List.nil_prefix
  | cons s segments ih =>
    by_cases hs : s = []
    · rw [List.takeWhile_cons_of_neg (by simpa using hs)]
      exact List.nil_prefix
    · rw [List.takeWhile_cons_of_pos (by simpa using hs),
        List.filter_cons_of_pos (by simpa using hs)]
      exact List.cons_prefix_cons.mpr ⟨rfl, ih⟩

/-- The directories of a path that exists are found. -/
lemma AbsolutePath.ExistsIn.finds_front {p : AbsolutePath} (h : p.ExistsIn t) :
    t.Finds p.mount [] p.frontNames :=
  h.2.mono (takeWhile_prefix_filter p.segments)

/-- A slash that is put behind a colon changes nothing about the names in front. -/
lemma AbsolutePath.takeWhile_closedSegments :
    p.closedSegments.takeWhile (· ≠ []) = p.frontNames := by
  rw [closedSegments, frontNames]
  split_ifs
  · induction p.segments with
    | nil => rfl
    | cons s segments ih =>
      by_cases hs : s = []
      · simp [hs]
      · simpa [hs] using ih
  · rfl

/-- The recursion over the path. -/
lemma AbsolutePath.existsRecursive_closed (hclosed : p.closedText.length < 256) : ∃ found,
    Settles (fun fuel => existsRecursive t.dirAt fuel p.closedText 0) found ∧
      (found = true ↔ t.Finds p.mount [] p.frontNames) := by
  have hsegments : ∀ s ∈ [] ++ p.closedSegments, 47 ∉ s ∧ 0 ∉ s := fun s hs =>
    ⟨(p.closed hclosed).slash_notMem s hs, (p.closed hclosed).zero_notMem s hs⟩
  rw [← p.takeWhile_closedSegments]
  exact existsRecursive_settles p.slash_notMem_mount p.colon_notMem_mount (by simp) hsegments

/-- Two characters at the end. -/
lemma exists_last_two {l : List UInt8} (h : 2 ≤ l.length) : ∃ q a b, l = q ++ [a, b] := by
  have hlength : (l.drop (l.length - 2)).length = 2 := by
    rw [List.length_drop]
    omega
  obtain ⟨a, b, hab⟩ := List.length_eq_two.mp hlength
  exact ⟨l.take (l.length - 2), a, b, by rw [← hab, List.take_append_drop]⟩

/-- A path with a name has two characters. -/
lemma two_le_length_pathText {segments : List (List UInt8)} (hne : segments ≠ [])
    (hroot : segments ≠ [[]]) : 2 ≤ (pathText [] segments).length := by
  obtain ⟨s, segments, rfl⟩ := List.exists_cons_of_ne_nil hne
  cases segments with
  | cons d segments =>
    simp only [pathText, List.flatMap_cons, List.nil_append, List.length_append,
      List.length_cons]
    omega
  | nil =>
    cases s with
    | nil => exact absurd rfl hroot
    | cons c s => simp [pathText]

lemma pathText_head (head : List UInt8) (segments : List (List UInt8)) :
    pathText head segments = head ++ pathText [] segments := by
  rw [pathText, pathText, List.nil_append]

/-- A path has two characters. -/
lemma AbsolutePath.two_le_length : 2 ≤ p.text.length := by
  obtain ⟨s, segments, hsegments⟩ := List.exists_cons_of_ne_nil p.segments_ne_nil
  rw [MountPath.text, MountPath.head, hsegments]
  simp only [pathText, List.flatMap_cons, List.length_append, List.length_cons]
  omega

/-- A path that is closed with a slash ends in a colon and it. -/
lemma AbsolutePath.closedText_of_endsInColon (h : p.EndsInColon) :
    ∃ q, p.closedText = q ++ [58, 47] := by
  by_cases hcolon : [58] <:+ p.text
  · obtain ⟨q, hq⟩ := hcolon
    exact ⟨q, by rw [p.closedText_of_colon ⟨q, hq⟩, ← hq]; simp⟩
  · obtain ⟨q, hq⟩ := h.resolve_left hcolon
    exact ⟨q, by rw [p.closedText_of_not_colon hcolon, hq]⟩

/-- What is looked for among the mounts has the colon behind the mount in it. -/
lemma AbsolutePath.colon_mem {q : List UInt8} (hroot : p.segments ≠ [[]])
    (hq : p.closedText = q ++ [58, 47]) : 58 ∈ q := by
  have hne : p.closedSegments ≠ [] ∧ p.closedSegments ≠ [[]] := by
    rw [closedSegments]
    split_ifs
    · obtain ⟨s, segments, hsegments⟩ := List.exists_cons_of_ne_nil p.segments_ne_nil
      rw [hsegments]
      exact ⟨by simp, by simp⟩
    · exact ⟨p.segments_ne_nil, hroot⟩
  have htwo := two_le_length_pathText hne.1 hne.2
  have hsplit : p.closedText = p.head ++ pathText [] p.closedSegments := pathText_head _ _
  have hhead : p.head <+: p.closedText := ⟨_, hsplit.symm⟩
  have hfront : q <+: p.closedText := ⟨_, hq.symm⟩
  have hprefix : p.head <+: q := by
    refine List.prefix_of_prefix_length_le hhead hfront ?_
    have hlength := congrArg List.length (hsplit.symm.trans hq)
    rw [List.length_append, List.length_append] at hlength
    have htail : [(58 : UInt8), 47].length = 2 := rfl
    omega
  refine hprefix.subset ?_
  rw [MountPath.head]
  simp

/-- A path that ends in a colon and a slash is looked for among the mounts. -/
lemma resolve_root {q : List UInt8} (rest : List UInt8) (hcwd : 0 ∈ cwd) (hlen : cwd.length = 256)
    (hroom : 256 ≤ output.length) (hclosed : p.closedText.length < 256)
    (hq : p.closedText = q ++ [58, 47]) : ∃ r : Bool × List UInt8,
    Settles (fun fuel => resolve t.dirAt t.fsAt fuel cwd (p.text ++ 0 :: rest) output) r ∧
      (r.1 = true ↔ q ∈ t.mounts) := by
  obtain ⟨out, hresolve⟩ := resolve_eq p t.dirAt t.fsAt rest hcwd hlen hroom hclosed
  have hzero : 0 ∉ q := fun h => (p.closed hclosed).zero_notMem_text
    (show 0 ∈ p.closedText by rw [hq]; exact List.mem_append_left _ h)
  obtain ⟨found, hsearch, hfound⟩ := searchMounts_settles (t := t) hzero
  refine ⟨(found, out), ?_, hfound⟩
  obtain ⟨n, hn⟩ := hsearch
  refine ⟨n, fun k => ?_⟩
  dsimp only at hn ⊢
  rw [hresolve, hq, rootPath_eq, if_neg (by decide), if_pos ⟨rfl, rfl⟩, ok_bind]
  dsimp only
  rw [hn]
  rfl

/-- Another path is gone through. -/
lemma resolve_names (rest : List UInt8) (hcwd : 0 ∈ cwd) (hlen : cwd.length = 256)
    (hroom : 256 ≤ output.length) (hends : ¬ p.EndsInColon) : ∃ r : Bool × List UInt8,
    Settles (fun fuel => resolve t.dirAt t.fsAt fuel cwd (p.text ++ 0 :: rest) output) r ∧
      (r.1 = true ↔ t.Finds p.mount [] p.frontNames) := by
  have hcolon : ¬ [58] <:+ p.text := fun h => hends (.inl h)
  have hclosedText := p.closedText_of_not_colon hcolon
  have hclosed : p.closedText.length < 256 := hclosedText ▸ p.text_lt
  obtain ⟨out, hresolve⟩ := resolve_eq p t.dirAt t.fsAt rest hcwd hlen hroom hclosed
  obtain ⟨found, hexists, hfound⟩ := p.existsRecursive_closed (t := t) hclosed
  have hroot : rootPath p.closedText = .ok none := by
    obtain ⟨q, a, b, hq⟩ := exists_last_two p.two_le_length
    rw [hq] at hcolon
    have hb : ¬ b = 58 := by
      rintro rfl
      exact hcolon ⟨q ++ [a], by simp⟩
    have hab : ¬ (a = 58 ∧ b = 47) := by
      rintro ⟨rfl, rfl⟩
      exact hends (.inr ⟨q, hq.symm⟩)
    rw [hclosedText, hq, rootPath_eq, if_neg hb, if_neg hab]
  refine ⟨(found, out), ?_, hfound⟩
  obtain ⟨n, hn⟩ := hexists
  refine ⟨n, fun k => ?_⟩
  dsimp only at hn ⊢
  rw [hresolve, hroot, ok_bind]
  dsimp only
  rw [hn]
  rfl

/-- **`resolve` is right exactly where** the path is that of a mount, or it does not end in a colon
and no empty segment stands between what is found and what does not exist, or it ends in a colon and
does not exist. -/
theorem resolveRight_iff (t : FileTree) (p : AbsolutePath) (rest : List UInt8)
    {cwd output : List UInt8} (hcwd : 0 ∈ cwd) (hlen : cwd.length = 256)
    (hroom : 256 ≤ output.length) :
    ResolveRight t p cwd rest output ↔ ResolveMeets p t := by
  by_cases hroot : p.segments = [[]]
  · -- the root of a mount
    have htext : p.text = p.mount ++ [58, 47] := by
      rw [MountPath.text, MountPath.head, hroot]
      simp [pathText]
    have hcolon : ¬ [58] <:+ p.text := by
      rw [htext, ← List.reverse_prefix]
      simp
    have hclosedText := p.closedText_of_not_colon hcolon
    obtain ⟨r, hr, hfound⟩ := resolve_root (t := t) p rest hcwd hlen hroom
      (hclosedText ▸ p.text_lt) (hclosedText.trans htext)
    have hnames : p.names = [] := by
      rw [AbsolutePath.names, hroot]
      rfl
    refine ⟨fun _ => .inl hroot, fun _ => ⟨r, hr, hfound.trans ?_⟩⟩
    rw [AbsolutePath.ExistsIn, hnames]
    exact ⟨fun h => ⟨h, FileTree.finds_nil⟩, fun h => h.1⟩
  · rw [ResolveMeets, or_iff_right hroot]
    by_cases hends : p.EndsInColon
    · rw [or_iff_right fun h => h.1 hends, and_iff_right hends]
      -- the text ends in a colon: a slash is appended, which may be one byte too many
      by_cases hfull : [58] <:+ p.text ∧ p.text.length = 255
      · refine ⟨fun h => ?_, fun h => absurd hfull h.2⟩
        obtain ⟨r, hr, -⟩ := h
        exact absurd hr (not_settles 0 fun k =>
          resolve_overflow p t.dirAt t.fsAt rest hcwd hlen hroom hfull.1 hfull.2 _)
      · rw [and_iff_left hfull]
        obtain ⟨q, hq⟩ := p.closedText_of_endsInColon hends
        have hclosed : p.closedText.length < 256 := by
          have hlt := p.text_lt
          by_cases hcolon : [58] <:+ p.text
          · have hne : p.text.length ≠ 255 := fun h => hfull ⟨hcolon, h⟩
            rw [p.closedText_of_colon hcolon, List.length_append, List.length_singleton]
            omega
          · rwa [p.closedText_of_not_colon hcolon]
        obtain ⟨r, hr, hfound⟩ := resolve_root (t := t) p rest hcwd hlen hroom hclosed hq
        have hmount : q ∉ t.mounts := fun h => t.colon_notMem q h (p.colon_mem hroot hq)
        constructor
        · rintro ⟨r', hr', hright⟩ hexists
          rw [hr'.unique hr] at hright
          exact hmount (hfound.mp (hright.mpr hexists))
        · intro hmissing
          exact ⟨r, hr, fun h => absurd (hfound.mp h) hmount, fun h => absurd h hmissing⟩
    · rw [or_iff_left fun h => hends h.1, and_iff_right hends]
      obtain ⟨r, hr, hfound⟩ := resolve_names (t := t) p rest hcwd hlen hroom hends
      constructor
      · rintro ⟨r', hr', hright⟩ hfront
        rw [hr'.unique hr] at hright
        exact hright.mp (hfound.mpr hfront)
      · intro h
        exact ⟨r, hr, fun hr => h (hfound.mp hr), fun hexists => hfound.mpr hexists.finds_front⟩

/-- One mount `m` with a directory `a`. -/
def smallTree : FileTree where
  mounts := [[109]]
  entries mount dir := if mount = [109] ∧ dir = [] then [([97], .dir)] else []
  zero_notMem := by decide
  colon_notMem := by decide
  dirName mount dir e he := by
    split_ifs at he
    · obtain rfl := List.mem_singleton.mp he
      exact ⟨by decide, by decide, by decide⟩
    · exact absurd he (by simp)
  entries_eq_nil mount dir h := if_neg fun hm => h (List.mem_singleton.mpr hm.1)

/-- `"m:/a"`. -/
def smallPath : AbsolutePath where
  mount := [109]
  segments := [[97]]
  zero_notMem_mount := by decide
  slash_notMem_mount := by decide
  zero_notMem := by decide
  slash_notMem := by decide
  length_lt := by decide
  segments_ne_nil := by decide
  dotDot_notMem := by decide
  colon_notMem_mount := by decide

/-- The directory is found. -/
theorem resolveRight_small :
    ResolveRight smallTree smallPath (List.replicate 256 0) [] (List.replicate 256 0) := by
  have hcolon : ¬smallPath.EndsInColon := by
    rw [AbsolutePath.EndsInColon]
    decide
  refine (resolveRight_iff smallTree smallPath [] (List.mem_replicate.mpr ⟨by decide, rfl⟩)
    List.length_replicate (by rw [List.length_replicate])).mpr (.inr (.inl ⟨hcolon, ?_⟩))
  exact fun hfinds => ⟨List.mem_singleton_self _, hfinds⟩

/-- `"m:/a//b"`. -/
def slashPath : AbsolutePath where
  mount := [109]
  segments := [[97], [], [98]]
  zero_notMem_mount := by decide
  slash_notMem_mount := by decide
  zero_notMem := by decide
  slash_notMem := by decide
  length_lt := by decide
  segments_ne_nil := by decide
  dotDot_notMem := by decide
  colon_notMem_mount := by decide

/-- **Behind two slashes nothing is looked for**: there is no `b` in the empty directory `a`. -/
theorem resolve_slashes : ∃ (t : FileTree) (p : AbsolutePath) (cwd rest output : List UInt8),
    0 ∈ cwd ∧ cwd.length = 256 ∧ 256 ≤ output.length ∧ ¬ ResolveRight t p cwd rest output := by
  have hcwd : (0 : UInt8) ∈ List.replicate 256 0 := List.mem_replicate.mpr ⟨by decide, rfl⟩
  have hroom : 256 ≤ (List.replicate 256 (0 : UInt8)).length := by rw [List.length_replicate]
  have hends : ¬ slashPath.EndsInColon := by
    rw [AbsolutePath.EndsInColon]
    decide
  refine ⟨smallTree, slashPath, List.replicate 256 0, [], List.replicate 256 0, hcwd,
    List.length_replicate, hroom, ?_⟩
  rintro ⟨r', hr', hright⟩
  obtain ⟨r, hr, hfound⟩ := resolve_names (t := smallTree) slashPath [] hcwd List.length_replicate
    hroom hends
  have hfront : slashPath.frontNames = [[97]] := by decide
  have hnames : slashPath.names = [[97], [98]] := by decide
  have hfinds : smallTree.Finds slashPath.mount [] slashPath.frontNames := by
    rw [hfront, FileTree.finds_cons]
    exact ⟨⟨([97], .dir), List.mem_singleton_self _, rfl⟩, FileTree.finds_nil⟩
  rw [hr'.unique hr] at hright
  have hexists := (hright.mp (hfound.mpr hfinds)).2
  rw [hnames, FileTree.finds_cons, FileTree.finds_cons] at hexists
  obtain ⟨e, he, -⟩ := hexists.2.1
  exact absurd he List.not_mem_nil

end Resolve

end MicroOS
