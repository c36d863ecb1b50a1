import MicroOS.Lib.Slots
import MicroOS.Utils.String

/-!
The variables of the environment: `getenv` of `user/libc/stdlib/enviroment.c`, on their texts.

`getenv` compares no more than the characters of the name it looks for, and so does the command
`export` of the terminal, which puts a variable in place of the first match or behind the others.
Variables with different names are a finite map for the two exactly when no name is a prefix of an
earlier one (`exportedIsMap_iff`).

Strings are given by value, without the zero at their end, and the array without the `NULL`
behind it.
-/

namespace MicroOS

/-! ### Functions of `user/libc/string.c` -/

/-- `strncmp`. -/
def strncmp : List UInt8 → List UInt8 → ℕ → ℤ
  | _, _, 0 => 0
  | a :: str1, b :: str2, n + 1 =>
    if a = b then strncmp str1 str2 n else charInt a - charInt b
  | str1, str2, _ + 1 => charInt (str1.headD 0) - charInt (str2.headD 0)

/-- `__is_delim`. -/
def isDelim (c : UInt8) (delim : List UInt8) : Bool := delim.contains c

/-- The first call of `strtok` for a string: the token, or `NULL` when there is none. -/
def strtok (srcString delim : List UInt8) : Option (List UInt8) :=
  match srcString.dropWhile fun c => isDelim c delim with
  | [] => none
  | c :: rest => some ((c :: rest).takeWhile fun c => !isDelim c delim)

/-- `strncmp` with the length of the first string looks for a prefix. -/
lemma strncmp_eq_zero {s t : List UInt8} (hs : 0 ∉ s) : strncmp s t s.length = 0 ↔ s <+: t := by
  induction s generalizing t with
  | nil => simp [strncmp]
  | cons a s ih =>
    cases t with
    | nil =>
      rw [List.length_cons, strncmp.eq_def, charInt_sub_eq_zero]
      simpa using fun ha => hs (by simp [ha])
    | cons b t =>
      rw [List.length_cons, strncmp, List.cons_prefix_cons]
      split_ifs with hab
      · rw [ih fun h => hs (List.mem_cons_of_mem a h)]
        exact ⟨fun h => ⟨hab, h⟩, fun h => h.2⟩
      · rw [charInt_sub_eq_zero]
        exact ⟨fun h => absurd h hab, fun h => absurd h.1 hab⟩

/-! ### `getenv` and `export` -/

/-- The character `=`. -/
def equalsSign : UInt8 := 61

/-- `getenv` over an array: the string that is returned. -/
def getenv : List (List UInt8) → List UInt8 → Option (List UInt8)
  | [], _ => none
  | var :: envp, name =>
    if strncmp name var name.length = 0 then
      -- Nothing behind the first match is looked at, whatever its name is.
      if var.getD name.length 0 = equalsSign then some (var.drop (name.length + 1)) else none
    else getenv envp name

/-- `"export "`. -/
def exportWord : List UInt8 := [101, 120, 112, 111, 114, 116, 32]

/-! ### Variables -/

/-- The name of a variable. -/
@[ext]
structure EnvName where
  chars : List UInt8
  zero_notMem : 0 ∉ chars
  equals_notMem : equalsSign ∉ chars

instance : DecidableEq EnvName := fun _ _ => decidable_of_iff _ EnvName.ext_iff.symm

/-- The value of a variable. -/
@[ext]
structure EnvValue where
  chars : List UInt8
  zero_notMem : 0 ∉ chars

instance : DecidableEq EnvValue := fun _ _ => decidable_of_iff _ EnvValue.ext_iff.symm

/-- A variable `NAME=VALUE`. -/
structure EnvEntry where
  name : EnvName
  value : EnvValue

/-- The string `NAME=VALUE`. -/
def EnvEntry.text (e : EnvEntry) : List UInt8 := e.name.chars ++ equalsSign :: e.value.chars

/-- The array of the variables. -/
def environ (env : List EnvEntry) : List (List UInt8) := env.map EnvEntry.text

/-- The command `export NAME=VALUE`. -/
def EnvEntry.command (e : EnvEntry) : List UInt8 := exportWord ++ e.text

variable {M N : EnvName} {e f new : EnvEntry} {env front back : List EnvEntry}

/-- An entry is a string. -/
lemma EnvEntry.zero_notMem_text (e : EnvEntry) : 0 ∉ e.text := by
  rw [EnvEntry.text, List.mem_append, List.mem_cons]
  rintro (h | h | h)
  · exact e.name.zero_notMem h
  · exact absurd h (by decide)
  · exact e.value.zero_notMem h

/-- A name is a prefix of a variable's text exactly when it is one of its name. -/
lemma EnvEntry.prefix_text : M.chars <+: e.text ↔ M.chars <+: e.name.chars := by
  refine ⟨fun h => ?_, fun h => h.trans (List.prefix_append _ _)⟩
  rcases List.prefix_or_prefix_of_prefix h (List.prefix_append _ _) with h' | ⟨rest, hrest⟩
  · exact h'
  · cases rest with
    | nil => rw [← hrest, List.append_nil]
    | cons c rest =>
      -- The name would have the `=` behind the variable's name in it.
      obtain ⟨tail, htail⟩ := h
      rw [EnvEntry.text, ← hrest, List.append_assoc, List.append_cancel_left_eq,
        List.cons_append, List.cons.injEq] at htail
      have hmem : equalsSign ∈ M.chars := by rw [← hrest, htail.1]; simp
      exact absurd hmem M.equals_notMem

/-- **The comparison of `getenv`** looks for names that begin with the given one. -/
lemma EnvEntry.strncmp_text :
    strncmp M.chars e.text M.chars.length = 0 ↔ M.chars <+: e.name.chars := by
  rw [strncmp_eq_zero M.zero_notMem, EnvEntry.prefix_text]

/-- The character of a variable's text at which a prefix of its name ends. -/
lemma EnvEntry.getD_text (h : M.chars <+: e.name.chars) :
    e.text.getD M.chars.length 0 = equalsSign ↔ e.name = M := by
  obtain ⟨rest, hrest⟩ := h
  rw [EnvEntry.text, ← hrest, List.append_assoc]
  cases rest with
  | nil =>
    rw [List.append_nil] at hrest
    exact ⟨fun _ => EnvName.ext hrest.symm, fun _ => by simp⟩
  | cons c rest =>
    have hc : c ≠ equalsSign := fun hc => e.name.equals_notMem (by rw [← hrest, hc]; simp)
    refine ⟨fun h => absurd (by simpa using h) hc, fun h => ?_⟩
    rw [h] at hrest
    exact absurd (congrArg List.length hrest) (by simp)

/-- The variable at which a search for a name ends. -/
def firstMatch (M : EnvName) (env : List EnvEntry) : Option EnvEntry :=
  env.find? fun e => decide (M.chars <+: e.name.chars)

/-- The value of an entry stands behind its name. -/
lemma EnvEntry.drop_text (h : e.name = M) : e.text.drop (M.chars.length + 1) = e.value.chars := by
  rw [EnvEntry.text, h, List.drop_append, List.drop_eq_nil_of_le (Nat.le_succ _), List.nil_append,
    Nat.add_sub_cancel_left, List.drop_one, List.tail_cons]

/-- **`getenv`** reads the first variable whose name starts with the name it is given. -/
lemma getenv_environ (M : EnvName) (env : List EnvEntry) : getenv (environ env) M.chars =
    (firstMatch M env).bind fun e => if e.name = M then some e.value.chars else none := by
  induction env with
  | nil => rfl
  | cons e env ih =>
    rw [environ, List.map_cons, getenv, ← environ, firstMatch, List.find?_cons]
    by_cases h : M.chars <+: e.name.chars
    · rw [if_pos (EnvEntry.strncmp_text.mpr h), decide_eq_true h, Option.bind_some]
      by_cases hname : e.name = M
      · rw [if_pos ((EnvEntry.getD_text h).mpr hname), if_pos hname, EnvEntry.drop_text hname]
      · rw [if_neg (mt (EnvEntry.getD_text h).mp hname), if_neg hname]
    · rw [if_neg (mt EnvEntry.strncmp_text.mp h), decide_eq_false h, ih, firstMatch]

/-! ### The environment as a map -/

/-- No name is a prefix of the name of an earlier variable. -/
def Unshadowed (env : List EnvEntry) : Prop :=
  env.Pairwise fun e f => ¬ f.name.chars <+: e.name.chars

instance : Decidable (Unshadowed env) := inferInstanceAs (Decidable (List.Pairwise _ _))

/-- The variables behind `export NAME=VALUE`: in place of the first one whose name starts with
`NAME`, or behind the others. -/
def exported (new : EnvEntry) (env : List EnvEntry) : List EnvEntry :=
  Slots.upsert (fun e => decide (new.name.chars <+: e.name.chars)) new env

/-- What a finite map does: `export NAME=VALUE` sets the value of its name and keeps those of the
others, and every variable has its value before. -/
structure ExportedIsMap (env : List EnvEntry) (new : EnvEntry) : Prop where
  exported : getenv (environ (exported new env)) new.name.chars = some new.value.chars
  others : ∀ M : EnvName, M ≠ new.name →
    getenv (environ (MicroOS.exported new env)) M.chars = getenv (environ env) M.chars
  found : ∀ e ∈ env, getenv (environ env) e.name.chars = some e.value.chars

/-- `export` cuts the name off in front of the `=`. -/
lemma strtok_text (hname : new.name.chars ≠ []) :
    strtok new.text [equalsSign] = some new.name.chars := by
  obtain ⟨c, rest, hcons⟩ := List.exists_cons_of_ne_nil hname
  have hdelim : ∀ b ∈ new.name.chars, isDelim b [equalsSign] = false := by
    intro b hb
    have hne : b ≠ equalsSign := fun h => new.name.equals_notMem (h ▸ hb)
    simpa [isDelim] using hne
  have hdrop : new.text.dropWhile (fun c => isDelim c [equalsSign]) = new.text := by
    rw [EnvEntry.text, hcons, List.cons_append, List.dropWhile_cons_of_neg]
    rw [hdelim c (by rw [hcons]; exact List.mem_cons_self)]
    exact Bool.false_ne_true
  have htake : new.text.takeWhile (fun c => !isDelim c [equalsSign]) = new.name.chars := by
    rw [EnvEntry.text, List.takeWhile_append_of_pos fun b hb => by rw [hdelim b hb]; rfl,
      List.takeWhile_cons_of_neg (by simp [isDelim]), List.append_nil]
  rw [strtok, hdrop]
  split
  · next h => exact absurd h (by rw [EnvEntry.text, hcons]; simp)
  · next h => rw [← h, htake]

/-- In an environment without shadowed names the search for a variable's name ends at it. -/
lemma Unshadowed.firstMatch (h : Unshadowed env) (he : e ∈ env) :
    firstMatch e.name env = some e := by
  induction env with
  | nil => exact absurd he (by simp)
  | cons f env ih =>
    obtain ⟨hf, h⟩ := List.pairwise_cons.mp h
    rcases List.mem_cons.mp he with rfl | he
    · exact List.find?_cons_of_pos (decide_eq_true List.prefix_rfl)
    · exact (List.find?_cons_of_neg (by simpa using hf e he)).trans (ih h he)

/-- The value of the first match is returned. -/
lemma getenv_of_firstMatch (h : firstMatch e.name env = some e) :
    getenv (environ env) e.name.chars = some e.value.chars := by
  rw [getenv_environ, h, Option.bind_some, if_pos rfl]

/-- What `getenv` finds is the value of a variable of that name. -/
lemma exists_mem_of_getenv {v : List UInt8} (h : getenv (environ env) M.chars = some v) :
    ∃ e ∈ env, e.name = M ∧ e.value.chars = v := by
  rw [getenv_environ, Option.bind_eq_some_iff] at h
  obtain ⟨e, he, h⟩ := h
  split_ifs at h with hname
  exact ⟨e, List.mem_of_find?_eq_some he, hname, Option.some.inj h⟩

/-- `getenv` finds every variable only when no name is shadowed. -/
lemma unshadowed_of_found (hdistinct : (env.map EnvEntry.name).Nodup)
    (h : ∀ e ∈ env, getenv (environ env) e.name.chars = some e.value.chars) : Unshadowed env := by
  induction env with
  | nil => exact List.Pairwise.nil
  | cons e env ih =>
    rw [List.map_cons, List.nodup_cons] at hdistinct
    have hshadow : ∀ f ∈ env, ¬ f.name.chars <+: e.name.chars := by
      intro f hf hpre
      have hfirst : firstMatch f.name (e :: env) = some e :=
        List.find?_cons_of_pos (decide_eq_true hpre)
      have hne : e.name ≠ f.name := fun heq =>
        hdistinct.1 (heq ▸ List.mem_map_of_mem hf)
      have hnone : getenv (environ (e :: env)) f.name.chars = none := by
        rw [getenv_environ, hfirst, Option.bind_some, if_neg hne]
      exact absurd (hnone.symm.trans (h f (List.mem_cons_of_mem e hf))) (by simp)
    refine List.pairwise_cons.mpr ⟨hshadow, ih hdistinct.2 fun f hf => ?_⟩
    rw [← h f (List.mem_cons_of_mem e hf), getenv_environ, getenv_environ, MicroOS.firstMatch,
      MicroOS.firstMatch, List.find?_cons_of_neg (by simpa using hshadow f hf)]

/-- A search for another name does not see that a variable was replaced by one of its name, or
put behind an array in which its name was not looked at. -/
lemma getenv_upsert (hN : ∀ e, firstMatch new.name env = some e → e.name = new.name)
    (hM : M ≠ new.name) :
    getenv (environ (Slots.upsert (fun e => decide (new.name.chars <+: e.name.chars)) new env))
      M.chars = getenv (environ env) M.chars := by
  rw [getenv_environ, getenv_environ]
  induction env with
  | nil =>
    rw [Slots.upsert, MicroOS.firstMatch, List.find?_cons]
    split
    · rw [Option.bind_some, if_neg hM.symm]
      rfl
    · rfl
  | cons e env ih =>
    rw [Slots.upsert]
    by_cases he : new.name.chars <+: e.name.chars
    · have hname : e.name = new.name := hN e (List.find?_cons_of_pos (decide_eq_true he))
      rw [if_pos (decide_eq_true he), MicroOS.firstMatch, MicroOS.firstMatch, List.find?_cons,
        List.find?_cons, hname]
      split
      · rw [Option.bind_some, Option.bind_some, if_neg hM.symm, if_neg (hname ▸ hM.symm)]
      · rfl
    · have htail : MicroOS.firstMatch new.name (e :: env) = MicroOS.firstMatch new.name env :=
        List.find?_cons_of_neg (by simpa using he)
      rw [if_neg (by simpa using he), MicroOS.firstMatch, MicroOS.firstMatch, List.find?_cons,
        List.find?_cons]
      split
      · rfl
      · exact ih (htail ▸ hN)

/-- A variable that was replaced by one of another name is found no longer. -/
lemma getenv_upsert_lost (hdistinct : (env.map EnvEntry.name).Nodup)
    (he : firstMatch new.name env = some e) (hne : e.name ≠ new.name) :
    getenv (environ (Slots.upsert (fun e => decide (new.name.chars <+: e.name.chars)) new env))
      e.name.chars = none := by
  obtain ⟨hpre, front, back, rfl, hfront⟩ := List.find?_eq_some_iff_append.mp he
  rw [Slots.upsert_append (p := fun e : EnvEntry => decide (new.name.chars <+: e.name.chars))
    (fun f hf => by simpa using hfront f hf) hpre]
  by_contra hsome
  obtain ⟨v, hv⟩ := Option.ne_none_iff_exists'.mp hsome
  obtain ⟨f, hf, hname, -⟩ := exists_mem_of_getenv hv
  rw [List.map_append, List.map_cons, List.nodup_middle, List.nodup_cons, ← List.map_append]
    at hdistinct
  rcases List.mem_append.mp hf with hf | hf
  · exact hdistinct.1 (hname ▸ List.mem_map_of_mem (List.mem_append_left _ hf))
  · rcases List.mem_cons.mp hf with rfl | hf
    · exact hne hname.symm
    · exact hdistinct.1 (hname ▸ List.mem_map_of_mem (List.mem_append_right _ hf))

/-- **The environment is a finite map** for `getenv` and `export NAME=VALUE` exactly when no name
is a prefix of the name of an earlier variable and `NAME` is the name of a variable or no prefix
of a variable's name. -/
lemma exportedIsMap_iff (hdistinct : (env.map EnvEntry.name).Nodup) :
    ExportedIsMap env new ↔ Unshadowed env ∧
      (new.name ∈ env.map EnvEntry.name ∨ ∀ e ∈ env, ¬ new.name.chars <+: e.name.chars) := by
  constructor
  · intro h
    have hshadow := unshadowed_of_found hdistinct h.found
    refine ⟨hshadow, or_iff_not_imp_left.mpr fun hmem e he hpre => ?_⟩
    -- The search ends at some variable, and replacing that one loses it.
    obtain ⟨f, hf⟩ := Option.isSome_iff_exists.mp
      (List.find?_isSome (p := fun e => decide (new.name.chars <+: e.name.chars)).mpr
        ⟨e, he, decide_eq_true hpre⟩)
    have hfmem : f ∈ env := List.mem_of_find?_eq_some hf
    have hne : f.name ≠ new.name := fun heq => hmem (heq ▸ List.mem_map_of_mem hfmem)
    have hkept := h.others f.name hne
    rw [exported, getenv_upsert_lost hdistinct hf hne, h.found f hfmem] at hkept
    exact absurd hkept (by simp)
  · rintro ⟨hshadow, hcond⟩
    have hfirst : ∀ e, firstMatch new.name env = some e → e.name = new.name := by
      intro e he
      rcases hcond with hmem | hnone
      · obtain ⟨f, hf, hfname⟩ := List.mem_map.mp hmem
        rw [← hfname, hshadow.firstMatch hf] at he
        rw [← Option.some.inj he, hfname]
      · exact absurd (by simpa using List.find?_some he) (hnone e (List.mem_of_find?_eq_some he))
    refine ⟨?_, fun M hM => getenv_upsert hfirst hM, fun e he =>
      getenv_of_firstMatch (hshadow.firstMatch he)⟩
    exact getenv_of_firstMatch (Slots.find?_upsert_self (decide_eq_true List.prefix_rfl))

end MicroOS
