import MicroOS.User.Environment

/-!
The command `export` of `user/terminal/commands.c`.

`init_elf` puts the pointers of the array into one page and gives each string of the kernel a page
of its own; a string that `export` put there comes from `malloc`. The command frees the string of
the variable that it replaces, whoever made it, and it does not look where the page ends: the model
stops where it frees a string of the kernel and where it stores behind the page.

* `EnvString`, `strings`: the strings of the array;
* `exportVar`, `exportCommand`: the functions;
* `ExportFits`: the command stays with its own memory; `exportCommand_command`: what it leaves then;
* `export_isMap_iff`: **where it does, `getenv` and `export` are a finite map exactly when no name
  hides another**.
-/

namespace MicroOS

open Checked

/-! ### The array of the terminal -/

/-- A string of the array, and whether `malloc` gave it. -/
structure EnvString where
  text : List UInt8
  fromMalloc : Bool
  deriving DecidableEq

/-- The pointers that the page of the array has room for, the `NULL` with them. -/
def envpSlots : ℕ := 1024

/-- Why the model stops. -/
inductive EnvFault where
  /-- `strtok` returned `NULL`, which is dereferenced. -/
  | nullPointer
  /-- `free` gets a string of the kernel, and takes what is before it for a header. -/
  | notMalloced
  /-- A pointer is stored behind the page. -/
  | pastPage
  deriving DecidableEq

/-! ### `export` -/

/-- The loop of `export` from index `i`, with what is done at its end: the first variable that
starts with the name is freed and replaced; when there is none, the new one is stored at the `NULL`,
and a `NULL` behind it. -/
def exportVar (envName envVar : List UInt8) :
    ℕ → List EnvString → Except EnvFault (List EnvString)
  | i, [] => if i + 1 < envpSlots then .ok [⟨envVar, true⟩] else .error .pastPage
  | i, var :: terminalEnvp =>
    if strncmp envName var.text envName.length = 0 then
      if var.fromMalloc then .ok (⟨envVar, true⟩ :: terminalEnvp) else .error .notMalloced
    else do
      let rest ← exportVar envName envVar (i + 1) terminalEnvp
      return var :: rest

/-- What `export` prints when there is no variable. -/
def noVariable : String :=
  "No environment variable specified! Try like this: export MYVAR=value\n"

/-- What `export` prints when there is no value. -/
def noValue : String :=
  "No environment variable value specified! Try like this: export MYVAR=value\n"

/-- `export`: the array afterwards and what is printed. `malloc`, `memset` and `strcpy` together
make a copy, and `strtok` cuts the name off in another one. -/
def exportCommand (terminalEnvp : List EnvString) (command : List UInt8) :
    Except EnvFault (List EnvString × Option String) :=
  if command.length ≤ 7 then .ok (terminalEnvp, some noVariable)
  else
    match strtok (command.drop 7) [equalsSign] with
    | none => .error .nullPointer
    | some envName =>
      if strcmp (command.drop 7) envName = 0 then .ok (terminalEnvp, some noValue)
      else do
        let after ← exportVar envName (command.drop 7) 0 terminalEnvp
        return (after, none)

/-! ### The strings of variables -/

/-- The strings of an array of variables, of which `malloc` gave some. -/
def strings (env : List (EnvEntry × Bool)) : List EnvString := env.map fun e => ⟨e.1.text, e.2⟩

/-- The texts, which are what `getenv` reads. -/
def texts (terminalEnvp : List EnvString) : List (List UInt8) := terminalEnvp.map EnvString.text

/-- **`export` stays with the memory that is its own**: the variable that it replaces is one that it
made, and a new one has a slot for the `NULL` behind it. -/
def ExportFits (new : EnvEntry) (env : List (EnvEntry × Bool)) : Prop :=
  match env.find? fun e => decide (new.name.chars <+: e.1.name.chars) with
  | some e => e.2 = true
  | none => env.length + 1 < envpSlots

instance (new : EnvEntry) (env : List (EnvEntry × Bool)) : Decidable (ExportFits new env) := by
  unfold ExportFits
  split <;> infer_instance

variable {new : EnvEntry} {env : List (EnvEntry × Bool)} {i : ℕ}

@[simp]
lemma texts_strings : texts (strings env) = environ (env.map Prod.fst) := by
  simp [texts, strings, environ]

/-- **The loop** puts the variable in place of the first one whose name starts with its name. -/
lemma exportVar_strings
    (hfound : ∀ e, (env.find? fun e => decide (new.name.chars <+: e.1.name.chars)) = some e →
      e.2 = true)
    (hroom : (env.find? fun e => decide (new.name.chars <+: e.1.name.chars)) = none →
      i + env.length + 1 < envpSlots) :
    ∃ after, exportVar new.name.chars new.text i (strings env) = .ok after ∧
      texts after = environ (exported new (env.map Prod.fst)) := by
  induction env generalizing i with
  | nil =>
    have hlt : i + 1 < envpSlots := hroom rfl
    exact ⟨[⟨new.text, true⟩], by rw [strings, List.map_nil, exportVar, if_pos hlt], rfl⟩
  | cons e env ih =>
    rw [strings, List.map_cons, exportVar, ← strings, List.map_cons, exported, Slots.upsert]
    by_cases he : new.name.chars <+: e.1.name.chars
    · have hmalloc : e.2 = true := hfound e (List.find?_cons_of_pos (decide_eq_true he))
      refine ⟨⟨new.text, true⟩ :: strings env, ?_, ?_⟩
      · rw [if_pos (EnvEntry.strncmp_text.mpr he), if_pos hmalloc]
      · rw [if_pos (decide_eq_true he), texts, List.map_cons, ← texts, texts_strings, environ,
          environ, List.map_cons]
    · have htail : (e :: env).find? (fun e => decide (new.name.chars <+: e.1.name.chars)) =
          env.find? fun e => decide (new.name.chars <+: e.1.name.chars) :=
        List.find?_cons_of_neg (by simpa using he)
      rw [htail] at hfound hroom
      obtain ⟨after, hrun, htexts⟩ := ih (i := i + 1) hfound fun hnone => by
        have hlt := hroom hnone
        rw [List.length_cons] at hlt
        omega
      refine ⟨⟨e.1.text, e.2⟩ :: after, ?_, ?_⟩
      · rw [if_neg (mt EnvEntry.strncmp_text.mp he), hrun]
        rfl
      · rw [if_neg (by simpa using he), texts, List.map_cons, ← texts, htexts, exported, environ,
          environ, List.map_cons]

/-- **`export NAME=VALUE`** puts the variable in place of the first one whose name starts with
`NAME`. -/
lemma exportCommand_command (hname : new.name.chars ≠ []) (hfits : ExportFits new env) :
    ∃ after, exportCommand (strings env) new.command = .ok (after, none) ∧
      texts after = environ (exported new (env.map Prod.fst)) := by
  have hlen : 7 < new.command.length := by
    have hpos := List.length_pos_iff.mpr hname
    rw [EnvEntry.command, EnvEntry.text, List.length_append, List.length_append]
    simp only [exportWord, List.length_cons, List.length_nil]
    omega
  have hdrop : new.command.drop 7 = new.text := List.drop_left' rfl
  have hne : new.text ≠ new.name.chars := by
    intro h
    have hmem : equalsSign ∈ new.text := by rw [EnvEntry.text]; simp
    exact new.name.equals_notMem (h ▸ hmem)
  have hfound (e : EnvEntry × Bool)
      (he : (env.find? fun e => decide (new.name.chars <+: e.1.name.chars)) = some e) :
      e.2 = true := by
    rwa [ExportFits, he] at hfits
  obtain ⟨after, hrun, htexts⟩ := exportVar_strings (i := 0) hfound fun hnone => by
    rw [ExportFits, hnone] at hfits
    omega
  refine ⟨after, ?_, htexts⟩
  rw [exportCommand, if_neg (by omega), hdrop, strtok_text hname]
  dsimp only
  rw [if_neg (mt (strcmp_eq_zero new.zero_notMem_text new.name.zero_notMem).mp hne), hrun]
  rfl

/-! ### The environment as a map -/

/-- What a finite map does: the command `export NAME=VALUE` sets the value of its name and keeps
those of the others, and every variable has its value before. -/
structure ExportIsMap (env : List (EnvEntry × Bool)) (new : EnvEntry) : Prop where
  returns : ∃ after, exportCommand (strings env) new.command = .ok (after, none)
  exported : ∀ after msg, exportCommand (strings env) new.command = .ok (after, msg) →
    getenv (texts after) new.name.chars = some new.value.chars
  others : ∀ after msg, exportCommand (strings env) new.command = .ok (after, msg) →
    ∀ M : EnvName, M ≠ new.name →
      getenv (texts after) M.chars = getenv (texts (strings env)) M.chars
  found : ∀ e ∈ env, getenv (texts (strings env)) e.1.name.chars = some e.1.value.chars

/-- **The environment is a finite map** for `getenv` and `export NAME=VALUE` exactly when no name
is a prefix of the name of an earlier variable and `NAME` is the name of a variable or no prefix
of a variable's name. -/
theorem export_isMap_iff (env : List (EnvEntry × Bool)) (new : EnvEntry)
    (hdistinct : (env.map fun e => e.1.name).Nodup) (hname : new.name.chars ≠ [])
    (hfits : ExportFits new env) :
    ExportIsMap env new ↔ Unshadowed (env.map Prod.fst) ∧
      (new.name ∈ env.map (fun e => e.1.name) ∨
        ∀ e ∈ env, ¬ new.name.chars <+: e.1.name.chars) := by
  have hnames : (env.map Prod.fst).map EnvEntry.name = env.map fun e => e.1.name := by simp
  have hbare : ExportedIsMap (env.map Prod.fst) new ↔ _ := exportedIsMap_iff (hnames ▸ hdistinct)
  rw [hnames, List.forall_mem_map] at hbare
  rw [← hbare]
  obtain ⟨after, hrun, htexts⟩ := exportCommand_command hname hfits
  constructor
  · intro h
    refine ⟨?_, fun M hM => ?_, fun e he => ?_⟩
    · rw [← htexts]
      exact h.exported after none hrun
    · rw [← htexts, ← texts_strings]
      exact h.others after none hrun M hM
    · obtain ⟨p, hp, rfl⟩ := List.mem_map.mp he
      rw [← texts_strings]
      exact h.found p hp
  · intro h
    refine ⟨⟨after, hrun⟩, fun after' msg heq => ?_, fun after' msg heq M hM => ?_, fun e he => ?_⟩
    · obtain ⟨rfl, -⟩ := Prod.mk.inj (Except.ok.inj (hrun.symm.trans heq))
      rw [htexts]
      exact h.exported
    · obtain ⟨rfl, -⟩ := Prod.mk.inj (Except.ok.inj (hrun.symm.trans heq))
      rw [htexts, texts_strings]
      exact h.others M hM
    · rw [texts_strings]
      exact h.found e.1 (List.mem_map_of_mem he)

/-- `PATH=a`, which the kernel put there, and `HOME=b`, which was exported. -/
def shortEnv : List (EnvEntry × Bool) :=
  [(⟨⟨[80, 65, 84, 72], by decide, by decide⟩, ⟨[97], by decide⟩⟩, false),
    (⟨⟨[72, 79, 77, 69], by decide, by decide⟩, ⟨[98], by decide⟩⟩, true)]

/-- `PA=c`. -/
def shortName : EnvEntry := ⟨⟨[80, 65], by decide, by decide⟩, ⟨[99], by decide⟩⟩

/-- Exporting `HOME=c` in place of the `HOME=b` that was exported, and `PWD=c` behind the others. -/
theorem export_isMap_home :
    ExportIsMap shortEnv ⟨⟨[72, 79, 77, 69], by decide, by decide⟩, ⟨[99], by decide⟩⟩ ∧
      ExportIsMap shortEnv ⟨⟨[80, 87, 68], by decide, by decide⟩, ⟨[99], by decide⟩⟩ :=
  ⟨(export_isMap_iff _ _ (by decide) (by decide) (by decide)).mpr ⟨by decide, .inl (by decide)⟩,
    (export_isMap_iff _ _ (by decide) (by decide) (by decide)).mpr ⟨by decide, .inr (by decide)⟩⟩

/-- `export PA=c` replaces `PATH=a`, here one that was exported. -/
theorem path_lost :
    ExportFits shortName (shortEnv.map fun e => (e.1, true)) ∧
      ((shortEnv.map fun e => (e.1, true)).map fun e => e.1.name).Nodup ∧
      ¬ ExportIsMap (shortEnv.map fun e => (e.1, true)) shortName := by
  refine ⟨by decide, by decide, fun h => ?_⟩
  have hlost := h.others [⟨[80, 65, 61, 99], true⟩, ⟨[72, 79, 77, 69, 61, 98], true⟩] none
    (by decide) ⟨[80, 65, 84, 72], by decide, by decide⟩ (by decide)
  exact absurd hlost (by decide)

end MicroOS
