import MicroOS.User.Environment
import MicroOS.User.ShellLine

/-!
Variables in the arguments of a command: `read_env` and `argv_env_process` of
`user/terminal/argv_tools.c`.

* `envVarLoop`, `readEnvLoop`, `readEnv`: the loops, with the buffers that they write;
* `argvEnvProcess`: all arguments;
* `expandEnv`: the expansion of a text;
* `argvEnvProcess_expands`: **both give the expansion, where the buffers have room for it**.

An argument is given by value, without the zero at its end, and `malloc` returns.
-/

namespace MicroOS

open Checked

/-- The characters of the name of a variable: letters, digits, `_` and `?`. -/
def isEnvChar (c : UInt8) : Bool :=
  (97 ≤ c ∧ c ≤ 122) ∨ (65 ≤ c ∧ c ≤ 90) ∨ (48 ≤ c ∧ c ≤ 57) ∨ c = 95 ∨ c = 63

/-- The inner loop of `read_env`: `env_var`, and `i`. -/
def envVarLoop (input : List UInt8) : ℕ → ℕ → List UInt8 → ℕ → Except BufferFault (List UInt8 × ℕ)
  | 0, _, _, _ => .error .outOfFuel
  | fuel + 1, i, envVar, envVarIdx => do
      let c ← bufRead (input ++ [0]) i
      if isEnvChar c ∧ c ≠ 0 then
        envVarLoop input fuel (i + 1) (← bufWrite envVar envVarIdx c) (envVarIdx + 1)
      else return (envVar, i)

/-- The size of `env_var`. -/
def envVarSize : ℕ := 256

/-- The size of `tmp`. -/
def tmpSize : ℕ := 512

/-- The outer loop of `read_env`, with the array of the variables: `tmp`. -/
def readEnvLoop (envp : List (List UInt8)) (input : List UInt8) :
    ℕ → ℕ → List UInt8 → ℕ → Except BufferFault (List UInt8)
  | 0, _, _, _ => .error .outOfFuel
  | fuel + 1, i, tmp, tmpIdx =>
    if i < input.length then do
      let c ← bufRead (input ++ [0]) i
      if c = 36 then
        let (envVar, i) ← envVarLoop input (input.length + 1) (i + 1)
          (List.replicate envVarSize 0) 0
        -- `i--` here, and `i++` at the end of the turn
        match getenv envp (← bufText envVar) with
        | some value =>
          readEnvLoop envp input fuel (i - 1 + 1) (← libcStrcat tmp value)
            (tmpIdx + value.length)
        | none => readEnvLoop envp input fuel (i - 1 + 1) tmp tmpIdx
      else readEnvLoop envp input fuel (i + 1) (← bufWrite tmp tmpIdx c) (tmpIdx + 1)
    else .ok tmp

/-- `read_env`: the string that is returned. -/
def readEnv (envp : List (List UInt8)) (input : List UInt8) : Except BufferFault (List UInt8) := do
  bufText (← readEnvLoop envp input (input.length + 1) 0 (List.replicate tmpSize 0) 0)

/-- `argv_env_process`, for an array of strings with a `NULL` behind them. -/
def argvEnvProcess (envp : List (List UInt8)) :
    List (Option (List UInt8)) → Except BufferFault (List (Option (List UInt8)))
  | [] => .error .pastEnd
  | none :: rest => .ok (none :: rest)
  | some arg :: rest => do
      let out ← readEnv envp arg
      return some out :: (← argvEnvProcess envp rest)

/-! ### The expansion -/

/-- The expansion of a text: a `$` and the characters of a name behind it stand for the value of the
variable. -/
def expandEnv (envp : List (List UInt8)) : List UInt8 → List UInt8
  | [] => []
  | c :: rest =>
    if c = 36 then
      (getenv envp (rest.takeWhile isEnvChar)).getD [] ++
        expandEnv envp (rest.dropWhile isEnvChar)
    else c :: expandEnv envp rest
termination_by text => text.length
decreasing_by
  · exact Nat.lt_succ_of_le (List.dropWhile_sublist _).length_le
  · exact Nat.lt_succ_self _

/-- A text that the buffers have room for. -/
structure Expandable (envp : List (List UInt8)) (input : List UInt8) : Prop where
  zero_notMem : 0 ∉ input
  name_lt : ∀ pre rest, input = pre ++ 36 :: rest → (rest.takeWhile isEnvChar).length < envVarSize
  length_lt : (expandEnv envp input).length < tmpSize

section Expansion

variable {envp : List (List UInt8)} {input rest text src name : List UInt8} {c : UInt8} {i k n : ℕ}

lemma isEnvChar_ne (h : isEnvChar c = true) : c ≠ 0 := by
  rintro rfl
  exact Bool.noConfusion h

/-- A read at the start of what is left. -/
lemma bufRead_input (hrest : input.drop i = c :: rest) : bufRead (input ++ [0]) i = .ok c := by
  have hc : input[i]? = some c := by
    rw [← List.head?_drop, hrest]
    rfl
  have hi : i < input.length := (List.getElem?_eq_some_iff.mp hc).1
  rw [bufRead, List.getElem?_append_left hi, hc]

lemma drop_succ_of_drop (hrest : input.drop i = c :: rest) : input.drop (i + 1) = rest := by
  rw [← List.drop_drop, hrest]
  rfl

/-- The inner loop takes the characters of a name. -/
lemma envVarLoop_eq (hrest : input.drop i = rest) (hi : i ≤ input.length) (hfuel : rest.length < k)
    (hlt : name.length + (rest.takeWhile isEnvChar).length < n) :
    envVarLoop input k i (zeroPadded n name) name.length =
      .ok (zeroPadded n (name ++ rest.takeWhile isEnvChar),
        i + (rest.takeWhile isEnvChar).length) := by
  induction rest generalizing i k name with
  | nil =>
    obtain ⟨k, rfl⟩ := Nat.exists_eq_succ_of_ne_zero (Nat.ne_zero_of_lt hfuel)
    obtain rfl : i = input.length := le_antisymm hi (List.drop_eq_nil_iff.mp hrest)
    rw [envVarLoop, bufRead_append, ok_bind, if_neg fun h => h.2 rfl, List.takeWhile_nil,
      List.append_nil]
    rfl
  | cons c rest ih =>
    obtain ⟨k, rfl⟩ := Nat.exists_eq_succ_of_ne_zero (Nat.ne_zero_of_lt hfuel)
    have hlen : i + 1 ≤ input.length := by
      have h := congrArg List.length hrest
      rw [List.length_drop, List.length_cons] at h
      omega
    rw [envVarLoop, bufRead_input hrest, ok_bind]
    by_cases hc : isEnvChar c = true
    · rw [List.takeWhile_cons_of_pos hc] at hlt ⊢
      rw [List.length_cons] at hlt
      have hroom : (name ++ [c]).length + (rest.takeWhile isEnvChar).length < n := by
        rw [List.length_append, List.length_singleton]
        omega
      have hstep := ih (drop_succ_of_drop hrest) hlen (Nat.lt_of_succ_lt_succ hfuel) hroom
      rw [List.length_append, List.length_singleton, List.append_assoc] at hstep
      rw [if_pos ⟨hc, isEnvChar_ne hc⟩, bufWrite_zeroPadded c (by omega), ok_bind, hstep,
        List.length_cons, List.singleton_append, Nat.add_assoc, Nat.add_comm 1]
    · rw [List.takeWhile_cons_of_neg hc, if_neg fun h => hc h.1, List.append_nil]
      rfl

/-- The values of variables are strings. -/
lemma zero_notMem_getenv (henvp : ∀ var ∈ envp, 0 ∉ var) {value : List UInt8}
    (h : getenv envp name = some value) : 0 ∉ value := by
  induction envp with
  | nil => cases h
  | cons var envp ih =>
    rw [getenv] at h
    split_ifs at h
    · obtain rfl := Option.some.inj h
      exact fun h0 => henvp var List.mem_cons_self (List.mem_of_mem_drop h0)
    · exact ih (fun var hvar => henvp var (List.mem_cons_of_mem _ hvar)) h

lemma takeWhile_zero_notMem (rest : List UInt8) : 0 ∉ rest.takeWhile isEnvChar := fun h =>
  isEnvChar_ne (List.mem_takeWhile_imp h) rfl

/-- The name behind a `$` is read, and what stands behind the name follows. -/
lemma envVarLoop_name (hdrop : input.drop (i + 1) = rest)
    (hlen : i + 1 + rest.length = input.length)
    (hshort : (rest.takeWhile isEnvChar).length < envVarSize) :
    envVarLoop input (input.length + 1) (i + 1) (List.replicate envVarSize 0) 0 =
        .ok (zeroPadded envVarSize (rest.takeWhile isEnvChar),
          i + 1 + (rest.takeWhile isEnvChar).length) ∧
      input.drop (i + 1 + (rest.takeWhile isEnvChar).length) = rest.dropWhile isEnvChar ∧
      (rest.takeWhile isEnvChar).length + (rest.dropWhile isEnvChar).length = rest.length := by
  have hparts := List.takeWhile_append_dropWhile (p := isEnvChar) (l := rest)
  have hlength := congrArg List.length hparts
  rw [List.length_append] at hlength
  refine ⟨?_, ?_, hlength⟩
  · have hlt : ([] : List UInt8).length + (rest.takeWhile isEnvChar).length < envVarSize := by
      rw [List.length_nil, Nat.zero_add]
      exact hshort
    have h := envVarLoop_eq (k := input.length + 1) hdrop (by omega) (by omega) hlt
    rwa [zeroPadded_nil, List.length_nil, List.nil_append] at h
  · rw [← List.drop_drop, hdrop]
    nth_rewrite 2 [← hparts]
    exact List.drop_left

/-- **The outer loop**: what is expanded so far stands in the buffer, and `tmp_idx` is
its length. -/
lemma readEnvLoop_eq (henvp : ∀ var ∈ envp, 0 ∉ var) (hinput : 0 ∉ input)
    (hname : ∀ pre rest, input = pre ++ 36 :: rest → (rest.takeWhile isEnvChar).length < envVarSize)
    (hrest : input.drop i = rest) (hi : i ≤ input.length) (hfuel : rest.length < k)
    (htext : 0 ∉ text) (hlt : text.length + (expandEnv envp rest).length < tmpSize) :
    readEnvLoop envp input k i (zeroPadded tmpSize text) text.length =
      .ok (zeroPadded tmpSize (text ++ expandEnv envp rest)) := by
  induction k generalizing i rest text with
  | zero => exact absurd hfuel (Nat.not_lt_zero _)
  | succ k ih =>
    cases rest with
    | nil =>
      obtain rfl : i = input.length := le_antisymm hi (List.drop_eq_nil_iff.mp hrest)
      rw [readEnvLoop, if_neg (lt_irrefl _), expandEnv, List.append_nil]
    | cons c rest =>
      have hlen : i + 1 + rest.length = input.length := by
        have h := congrArg List.length hrest
        rw [List.length_drop, List.length_cons] at h
        omega
      have hdrop := drop_succ_of_drop hrest
      rw [List.length_cons] at hfuel
      rw [readEnvLoop, if_pos (by omega), bufRead_input hrest, ok_bind]
      rw [expandEnv] at hlt ⊢
      by_cases hc : c = 36
      · -- a dollar sign: the name is copied, and the value of the variable is appended
        have hsplit : input = input.take i ++ 36 :: rest := by
          rw [← hc, ← hrest, List.take_append_drop]
        have hshort := hname _ _ hsplit
        obtain ⟨hloop, hbehind, hlength⟩ := envVarLoop_name hdrop hlen hshort
        have hback : i + 1 + (rest.takeWhile isEnvChar).length - 1 + 1 =
            i + 1 + (rest.takeWhile isEnvChar).length := by omega
        rw [if_pos hc, List.length_append] at hlt
        rw [if_pos hc, if_pos hc, hloop, ok_bind]
        dsimp only
        rw [bufText_zeroPadded (takeWhile_zero_notMem rest) hshort, ok_bind, hback]
        cases hvalue : getenv envp (rest.takeWhile isEnvChar) with
        | none =>
          rw [hvalue, Option.getD_none, List.length_nil, Nat.zero_add] at hlt
          rw [Option.getD_none, List.nil_append]
          exact ih hbehind (by omega) (by omega) htext hlt
        | some value =>
          rw [hvalue, Option.getD_some] at hlt
          have hvalue0 := zero_notMem_getenv henvp hvalue
          have hboth : 0 ∉ text ++ value := fun h =>
            (List.mem_append.mp h).elim htext hvalue0
          have hstep := ih hbehind (by omega) (by omega) hboth
            (by rw [List.length_append]; omega)
          rw [List.length_append, List.append_assoc] at hstep
          dsimp only
          rw [libcStrcat_zeroPadded htext (by omega), ok_bind, Option.getD_some]
          exact hstep
      · -- any other character is copied
        have hc0 : c ≠ 0 := by
          rintro rfl
          exact hinput (List.mem_of_mem_drop (hrest ▸ List.mem_cons_self))
        rw [if_neg hc, List.length_cons] at hlt
        have hboth : 0 ∉ text ++ [c] := fun h =>
          (List.mem_append.mp h).elim htext fun h => hc0 (List.mem_singleton.mp h).symm
        have hstep := ih hdrop (by omega) (by omega) hboth
          (by rw [List.length_append, List.length_singleton]; omega)
        rw [List.length_append, List.length_singleton, List.append_assoc] at hstep
        rw [if_neg hc, if_neg hc, bufWrite_zeroPadded c (by omega), ok_bind]
        exact hstep

/-- The expansion of a string is one, when the values are. -/
lemma zero_notMem_expandEnv (henvp : ∀ var ∈ envp, 0 ∉ var) (hinput : 0 ∉ input) :
    0 ∉ expandEnv envp input := by
  fun_induction expandEnv envp input with
  | case1 => exact List.not_mem_nil
  | case2 rest ih =>
    have hrest : 0 ∉ rest.dropWhile isEnvChar := fun h =>
      hinput (List.mem_cons_of_mem _ ((List.dropWhile_sublist _).subset h))
    rw [List.mem_append, not_or]
    refine ⟨?_, ih hrest⟩
    cases hvalue : getenv envp (rest.takeWhile isEnvChar) with
    | none => exact List.not_mem_nil
    | some value => exact zero_notMem_getenv henvp hvalue
  | case3 c rest hc ih =>
    obtain ⟨hc0, hrest⟩ := not_or.mp (mt List.mem_cons.mpr hinput)
    rw [List.mem_cons, not_or]
    exact ⟨hc0, ih hrest⟩

/-- **`read_env`** returns the expansion. -/
lemma readEnv_eq (henvp : ∀ var ∈ envp, 0 ∉ var) (h : Expandable envp input) :
    readEnv envp input = .ok (expandEnv envp input) := by
  have hloop : readEnvLoop envp input (input.length + 1) 0 (List.replicate tmpSize 0) 0 =
      .ok (zeroPadded tmpSize (expandEnv envp input)) := by
    have hlt : ([] : List UInt8).length + (expandEnv envp input).length < tmpSize := by
      rw [List.length_nil, Nat.zero_add]
      exact h.length_lt
    have hall := readEnvLoop_eq henvp h.zero_notMem h.name_lt List.drop_zero (Nat.zero_le _)
      (Nat.lt_succ_self _) List.not_mem_nil hlt
    rw [zeroPadded_nil, List.length_nil, List.nil_append] at hall
    exact hall
  rw [readEnv, hloop, ok_bind]
  exact bufText_zeroPadded (zero_notMem_expandEnv henvp h.zero_notMem) h.length_lt

/-- **Arguments are expanded**: `read_env` returns the expansion of each, and `argv_env_process`
puts it into the place of the argument, up to the `NULL`. -/
theorem argvEnvProcess_expands {args : List (List UInt8)} (henvp : ∀ var ∈ envp, 0 ∉ var)
    (hargs : ∀ arg ∈ args, Expandable envp arg) (rest : List (Option (List UInt8))) :
    (∀ arg ∈ args, readEnv envp arg = .ok (expandEnv envp arg)) ∧
      argvEnvProcess envp (args.map some ++ none :: rest) =
        .ok (args.map (fun arg => some (expandEnv envp arg)) ++ none :: rest) := by
  refine ⟨fun arg harg => readEnv_eq henvp (hargs arg harg), ?_⟩
  induction args with
  | nil => rfl
  | cons arg args ih =>
    have hrest := ih fun arg harg => hargs arg (List.mem_cons_of_mem _ harg)
    rw [List.map_cons, List.cons_append, argvEnvProcess,
      readEnv_eq henvp (hargs arg List.mem_cons_self), ok_bind, hrest]
    rfl

/-- With `A=xy`, the argument `$A` becomes `xy`. -/
theorem argvEnvProcess_variable : argvEnvProcess [[65, 61, 120, 121]] [some [36, 65], none] =
    .ok [some [120, 121], none] := by
  have hexpand : expandEnv [[65, 61, 120, 121]] [36, 65] = [120, 121] := by
    have hrest : [65].dropWhile isEnvChar = [] := by decide
    rw [expandEnv, if_pos rfl, hrest, expandEnv]
    decide
  have hargs : ∀ arg ∈ [[36, 65]], Expandable [[65, 61, 120, 121]] arg := by
    intro arg harg
    obtain rfl := List.mem_singleton.mp harg
    refine ⟨by decide, fun pre rest hsplit => ?_, by rw [hexpand, tmpSize]; decide⟩
    have hname := (List.takeWhile_prefix isEnvChar (l := rest)).length_le
    have hlength := congrArg List.length hsplit
    rw [List.length_append] at hlength
    simp only [List.length_cons, List.length_nil] at hlength
    rw [envVarSize]
    omega
  have h := (argvEnvProcess_expands (by decide) hargs []).2
  rw [List.map_singleton, List.map_singleton, hexpand] at h
  exact h

end Expansion

end MicroOS
