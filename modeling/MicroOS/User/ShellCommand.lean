import MicroOS.User.Environment
import MicroOS.User.ShellLine
import MicroOS.User.ShellQuotes

/-!
Running a command of the terminal: `command_received` and `run_command` of
`user/terminal/commands.c`.

* `Host`: what the other functions answer to what has been done before, and what can be read at
  `NULL`;
* `runCommand`: the tests of `run_command` and `spawn_process` on the pipes of a command;
* `commandReceived`: the function, on the memory of its string;
* `runCommands`: what it should do, on texts;
* `Runnable`: no command of the chain is stopped by its pipes;
* `commandReceived_iff`: **a command is taken apart at its operators and run exactly where it has
  none or does not begin with a space, and no command that its chain comes to is stopped by its
  pipes**.
-/

namespace MicroOS

open Checked

/-- What `command_received` does: it runs a command with an input, its output kept or not, and looks
up, opens and fills a file. -/
inductive CommandEvent where
  | run (command : List UInt8) (stdin : Option (List UInt8)) (captured : Bool)
  | resolve (name : List UInt8)
  | fopen (path : List UInt8)
  | fwrite (text : List UInt8) (append : Bool)
  deriving DecidableEq

/-- What `run_command` leaves: what it returns, `should_break`, and `*stdout`. -/
structure RunResult where
  found : Bool
  shouldBreak : Bool
  stdout : List UInt8

/-- The other functions: what a command of the terminal itself prints, whether `spawn` finds a
program (neither need come back), `resolve_check` with its path, and whether `fopen` returns a file.
They see all that has been done, the call itself included. -/
structure Host where
  /-- What can be read from `NULL` on: nothing, where page 0 is not mapped. -/
  null : List UInt8
  builtin : List CommandEvent → Option (List UInt8)
  spawn : List CommandEvent → Option Bool
  resolveCheck : List CommandEvent → Option (List UInt8)
  fopen : List CommandEvent → Bool

/-- What `command_received` returns with `should_break`, unless a command does not come back, and
what has been done. -/
structure CommandResult where
  answer : Option (Bool × Bool)
  events : List CommandEvent
  deriving DecidableEq

/-! ### `run_command` -/

/-- The words that `run_command` compares the beginning of a command with: `"layout "`, `"cd "`,
`"pwd"`, `"export "`, `"fault "` and `"read "`. -/
def builtinWords : List (List UInt8) :=
  [[108, 97, 121, 111, 117, 116, 32], [99, 100, 32], [112, 119, 100], exportWord,
    [102, 97, 117, 108, 116, 32], [114, 101, 97, 100, 32]]

/-- `"exit"`. -/
def exitWord : List UInt8 := [101, 120, 105, 116]

/-- A command that the terminal runs itself. -/
def isBuiltin (command : List UInt8) : Bool :=
  (builtinWords.any fun word => strncmp command word word.length = 0) ||
    decide (strcmp command exitWord = 0)

/-- The parameter `stdout` of `run_command`: `NULL`, or a pointer to `NULL`, or to a string. -/
inductive CommandStdout where
  | none
  | null
  | buffer
  deriving DecidableEq

/-- `strlen(term_stdout)`, which `run_command` takes whether or not there is a string. -/
def stdoutLength (host : Host) : CommandStdout → Except BufferFault Unit
  | .null => (bufText host.null).map fun _ => ()
  | _ => .ok ()

/-- The first lines of `spawn_process`. -/
def spawnProcess (stdout stdin : Bool) : Except BufferFault Unit :=
  if stdout then .error .assertFailed
  else if stdin then .error .assertFailed
  else .ok ()

/-- `run_command`, for a call that is the last of what has been done. -/
def runCommand (host : Host) (command : List UInt8) (stdin : Option (List UInt8))
    (stdout : CommandStdout) (events : List CommandEvent) :
    Except BufferFault (Option RunResult) := do
  stdoutLength host stdout
  if isBuiltin command then
    return (host.builtin events).map fun out => ⟨true, strcmp command exitWord = 0, out⟩
  else
    spawnProcess (stdout = .buffer) stdin.isSome
    return (host.spawn events).map fun found => ⟨found, false, []⟩

/-! ### `command_received` -/

/-- The output goes into a file: what has been done, and whether there was a file. -/
def writeFile (host : Host) (name stdout : List UInt8) (append : Bool)
    (events : List CommandEvent) : Bool × List CommandEvent :=
  let events := events ++ [.resolve name]
  match host.resolveCheck events with
  | none => (false, events)
  | some path =>
    let events := events ++ [.fopen path]
    if host.fopen events then (true, events ++ [.fwrite stdout append]) else (false, events)

/-- The terminator that is put into the memory of a command, and `next_command`. -/
def cutCommand (command : List UInt8) (tokenPos : ℕ) (doublePipeSymbol : Bool) :
    Except BufferFault (List UInt8 × List UInt8) := do
  let command ← bufWrite command (tokenPos - if doublePipeSymbol then 1 else 0) 0
  let next ← processLine false (command.drop (tokenPos + 1))
  return (command, next)

/-- The part of `command_received` about a file: whether it is there, the next command, and what has
been done. -/
def redirectTo (host : Host) (next stdout : List UInt8) (append : Bool)
    (events : List CommandEvent) :
    Except BufferFault (Bool × Option (List UInt8) × List CommandEvent) := do
  let name ← bufText next
  let (cmdType, tokenPos, doublePipeSymbol) := getCommandType name
  if cmdType = .normal then
    let (opened, events) := writeFile host name stdout append events
    return (opened, none, events)
  else
    let (current, next) ← cutCommand next tokenPos doublePipeSymbol
    let name ← bufText current
    let (opened, events) := writeFile host name stdout append events
    return (opened, some next, events)

/-- `command_received`. -/
def commandReceived (host : Host) : ℕ → List UInt8 → Option (List UInt8) → List CommandEvent →
    Except BufferFault CommandResult
  | 0, _, _, _ => .error .outOfFuel
  | fuel + 1, command, stdin, events => do
      let text ← bufText command
      let (cmdType, tokenPos, doublePipeSymbol) := getCommandType text
      if cmdType = .normal then
        let events := events ++ [.run text stdin false]
        let answer ← runCommand host text stdin .none events
        return ⟨answer.map fun result => (result.found, result.shouldBreak), events⟩
      else
        let current ← processLine false command
        let (current, next) ← cutCommand current tokenPos doublePipeSymbol
        let first ← bufText current
        let captured := decide (cmdType ≠ .andRun)
        let events := events ++ [.run first stdin captured]
        -- `&stdout` is passed in any case, and `stdout` is `NULL` when there is no pipe
        match ← runCommand host first stdin (if captured then .buffer else .null) events with
        | none => return ⟨none, events⟩
        | some result =>
          let stdout := if captured then some result.stdout else none
          if !result.found then return ⟨some (false, result.shouldBreak), events⟩
          else if cmdType = .pipeFile ∨ cmdType = .pipeFileAppend then
            let (opened, next, events) ←
              redirectTo host next result.stdout (cmdType = .pipeFileAppend) events
            match next with
            | none => return ⟨some (opened, result.shouldBreak), events⟩
            | some next =>
              if opened then commandReceived host fuel next stdout events
              else return ⟨some (false, result.shouldBreak), events⟩
          else commandReceived host fuel next stdout events

/-! ### What should be done -/

/-- What is left by a command that comes back: the terminal's own commands are always found. -/
def Host.answer (host : Host) (command : List UInt8) (events : List CommandEvent) :
    Option RunResult :=
  if isBuiltin command then
    (host.builtin events).map fun out => ⟨true, strcmp command exitWord = 0, out⟩
  else (host.spawn events).map fun found => ⟨found, false, []⟩

/-- The text before the operator without spaces in front, and the text behind it without spaces
around it. -/
def commandParts (command : List UInt8) : List UInt8 × List UInt8 :=
  let (_, tokenPos, doublePipeSymbol) := getCommandType command
  (trimLeft (command.take (tokenPos - if doublePipeSymbol then 1 else 0)),
    cleanText false (command.drop (tokenPos + 1)))

/-- The name of a file, and the command that may follow it. -/
def fileParts (text : List UInt8) : List UInt8 × Option (List UInt8) :=
  if (getCommandType text).1 = .normal then (text, none)
  else ((commandParts text).1, some (commandParts text).2)

/-- What comes behind a command that was found: its file, after which the chain may be at its end or
stop, or the next command. -/
def followUp (host : Host) (cmdType : CommandType) (next stdout : List UInt8)
    (events : List CommandEvent) : (Bool ⊕ List UInt8) × List CommandEvent :=
  if cmdType = .pipeFile ∨ cmdType = .pipeFileAppend then
    let (name, next) := fileParts next
    let (opened, events) := writeFile host name stdout (cmdType = .pipeFileAppend) events
    match next with
    | none => (.inl opened, events)
    | some next => (if opened then .inr next else .inl false, events)
  else (.inr next, events)

/-- A command without operators is run as it is. Else what is before the operator is run first, and
what is behind it is the next command, or the name of a file and possibly a next command. -/
def runCommands (host : Host) : ℕ → List UInt8 → Option (List UInt8) → List CommandEvent →
    Except BufferFault CommandResult
  | 0, _, _, _ => .error .outOfFuel
  | fuel + 1, command, stdin, events =>
    let cmdType := (getCommandType command).1
    if cmdType = .normal then
      let events := events ++ [.run command stdin false]
      let answer := host.answer command events
      .ok ⟨answer.map fun result => (result.found, result.shouldBreak), events⟩
    else
      let (first, next) := commandParts command
      let captured := decide (cmdType ≠ .andRun)
      let events := events ++ [.run first stdin captured]
      match host.answer first events with
      | none => .ok ⟨none, events⟩
      | some result =>
        let stdout := if captured then some result.stdout else none
        if !result.found then .ok ⟨some (false, result.shouldBreak), events⟩
        else match followUp host cmdType next result.stdout events with
          | (.inl opened, events) => .ok ⟨some (opened, result.shouldBreak), events⟩
          | (.inr next, events) => runCommands host fuel next stdout events

/-! ### Commands with pipes -/

/-- **A command is not stopped by its pipes**: a string stands at `NULL` where `*stdout` is `NULL`,
and a program that is not of the terminal itself has no pipe. -/
def CanRun (host : Host) (command : List UInt8) (stdin : Option (List UInt8))
    (stdout : CommandStdout) : Prop :=
  (stdout = .null → 0 ∈ host.null) ∧
    (isBuiltin command = true ∨ stdin = none ∧ stdout ≠ .buffer)

/-- **No command that a chain comes to is stopped by its pipes.** -/
def Runnable (host : Host) :
    ℕ → List UInt8 → Option (List UInt8) → List CommandEvent → Prop
  | 0, _, _, _ => True
  | fuel + 1, command, stdin, events =>
    let cmdType := (getCommandType command).1
    if cmdType = .normal then CanRun host command stdin .none
    else
      let (first, next) := commandParts command
      let captured := decide (cmdType ≠ .andRun)
      let events := events ++ [.run first stdin captured]
      CanRun host first stdin (if captured then .buffer else .null) ∧
        ∀ result, host.answer first events = some result → result.found = true →
          ∀ text events',
            followUp host cmdType next result.stdout events = (.inr text, events') →
            Runnable host fuel text (if captured then some result.stdout else none) events'

section CanRun

variable {host : Host} {command : List UInt8} {stdin : Option (List UInt8)}
  {stdout : CommandStdout} {events : List CommandEvent} {answer : Option RunResult}

/-- **`run_command` goes on to the command exactly where its pipes do not stop it.** -/
lemma runCommand_eq_ok : runCommand host command stdin stdout events = .ok answer ↔
    CanRun host command stdin stdout ∧ host.answer command events = answer := by
  have hnull : stdoutLength host stdout = .ok () ↔ (stdout = .null → 0 ∈ host.null) := by
    cases stdout with
    | none => exact ⟨fun _ h => absurd h (by decide), fun _ => rfl⟩
    | buffer => exact ⟨fun _ h => absurd h (by decide), fun _ => rfl⟩
    | null =>
      rw [stdoutLength, bufText]
      split_ifs with h0
      · exact ⟨fun _ _ => h0, fun _ => rfl⟩
      · refine iff_of_false (fun h => ?_) fun h => h0 (h rfl)
        cases h
  have hpipes : spawnProcess (stdout = .buffer) stdin.isSome = .ok () ↔
      stdin = none ∧ stdout ≠ .buffer := by
    rw [spawnProcess]
    cases stdin <;> cases stdout <;> simp
  rw [runCommand, bind_eq_ok, CanRun, Host.answer, ← hnull, ← hpipes]
  by_cases hbuiltin : isBuiltin command = true
  · rw [if_pos hbuiltin, if_pos hbuiltin]
    constructor
    · rintro ⟨⟨⟩, hlength, h⟩
      exact ⟨⟨hlength, Or.inl hbuiltin⟩, Except.ok.inj h⟩
    · rintro ⟨⟨hlength, _⟩, rfl⟩
      exact ⟨(), hlength, rfl⟩
  · rw [if_neg hbuiltin, if_neg hbuiltin, or_iff_right hbuiltin]
    constructor
    · rintro ⟨⟨⟩, hlength, h⟩
      rw [bind_eq_ok] at h
      obtain ⟨⟨⟩, hspawn, h⟩ := h
      exact ⟨⟨hlength, hspawn⟩, Except.ok.inj h⟩
    · rintro ⟨⟨hlength, hspawn⟩, rfl⟩
      refine ⟨(), hlength, ?_⟩
      rw [hspawn]
      rfl

end CanRun

/-! ### Operators in memory -/

section Cut

variable {s pre op after rest : List UInt8} {f : QuoteFlags} {i : ℕ} {c : UInt8}

/-- Where an operator stands: what is before it, the operator, and what is behind it. -/
structure OperatorAt (s pre op after : List UInt8) (tokenPos : ℕ) (doublePipeSymbol : Bool) :
    Prop where
  split : s = pre ++ (op ++ after)
  op_ne_nil : op ≠ []
  op_plain : ∀ c ∈ op, c ≠ 32 ∧ c ≠ 0
  start_eq : tokenPos = pre.length + if doublePipeSymbol then 1 else 0
  end_eq : tokenPos + 1 = pre.length + op.length

/-- **The operator that `get_command_type` finds.** -/
lemma getCommandLoop_operatorAt (h : (getCommandLoop f i s).1 ≠ .normal) : ∃ pre op after k,
    (getCommandLoop f i s).2.1 = i + k ∧
      OperatorAt s pre op after k (getCommandLoop f i s).2.2 := by
  induction s generalizing f i with
  | nil => exact absurd rfl h
  | cons c s ih =>
    rw [getCommandLoop] at h ⊢
    split_ifs at h ⊢ with hpipe hfile happend hand
    · exact ⟨[], [c], s, 0, rfl, rfl, List.cons_ne_nil _ _, by simp [hpipe.1], rfl, rfl⟩
    · cases s with
      | nil => cases happend
      | cons d s =>
        obtain rfl : d = 62 := Option.some.inj happend
        exact ⟨[], [c, 62], s, 1, rfl, rfl, List.cons_ne_nil _ _, by simp [hfile.1], rfl, rfl⟩
    · exact ⟨[], [c], s, 0, rfl, rfl, List.cons_ne_nil _ _, by simp [hfile.1], rfl, rfl⟩
    · exact ⟨[], [c], s, 0, rfl, rfl, List.cons_ne_nil _ _, by simp [hand.1], rfl, rfl⟩
    · obtain ⟨pre, op, after, k, hk, hat⟩ := ih h
      refine ⟨c :: pre, op, after, k + 1, ?_, ?_, hat.op_ne_nil, hat.op_plain, ?_, ?_⟩
      · rw [hk, Nat.add_assoc, Nat.add_comm 1]
      · rw [hat.split, List.cons_append]
      · rw [hat.start_eq, List.length_cons]
        omega
      · rw [hat.end_eq, List.length_cons]
        omega

/-- A command that is not the last one has an operator behind it. -/
lemma operatorAt (h : (getCommandType s).1 ≠ .normal) : ∃ pre op after,
    OperatorAt s pre op after (getCommandType s).2.1 (getCommandType s).2.2 := by
  obtain ⟨pre, op, after, k, hk, hat⟩ := getCommandLoop_operatorAt h
  rw [Nat.zero_add] at hk
  exact ⟨pre, op, after, hk ▸ hat⟩

lemma OperatorAt.start {k : ℕ} {dbl : Bool} (h : OperatorAt s pre op after k dbl) :
    (k - if dbl then 1 else 0) = pre.length := by
  rw [h.start_eq, Nat.add_sub_cancel]

/-- The parts of a command with an operator. -/
lemma OperatorAt.parts
    (h : OperatorAt s pre op after (getCommandType s).2.1 (getCommandType s).2.2) :
    commandParts s = (trimLeft pre, cleanText false after) := by
  have htake : s.take pre.length = pre := by
    rw [h.split, List.take_left]
  have hdrop : s.drop (pre.length + op.length) = after := by
    rw [h.split, ← List.append_assoc, ← List.length_append, List.drop_left]
  rw [commandParts]
  dsimp only
  rw [h.start, h.end_eq, htake, hdrop]

/-- **A cut**: the string ends before the operator, and the next command is behind it. -/
lemma OperatorAt.cutCommand {k : ℕ} {dbl : Bool} (h : OperatorAt s pre op after k dbl)
    (hs : 0 ∉ s) (rest : List UInt8) : ∃ current rest',
    cutCommand (s ++ 0 :: rest) k dbl = .ok (current, cleanText false after ++ 0 :: rest') ∧
      bufText current = .ok pre := by
  rw [h.split, List.mem_append, List.mem_append, not_or, not_or] at hs
  obtain ⟨d, op', hop⟩ := List.exists_cons_of_ne_nil h.op_ne_nil
  have hmem : s ++ 0 :: rest = pre ++ (op ++ (after ++ 0 :: rest)) := by
    rw [h.split, List.append_assoc, List.append_assoc]
  have hwrite := bufWrite_append pre 0 (x := op ++ (after ++ 0 :: rest))
    (List.append_ne_nil_of_left_ne_nil h.op_ne_nil _)
  have hdrop : (pre ++ 0 :: (op ++ (after ++ 0 :: rest)).drop 1).drop (k + 1) =
      after ++ 0 :: rest := by
    rw [h.end_eq, hop]
    simp
  obtain ⟨rest', hline⟩ := processLine_text false hs.2.2 rest
  rw [MicroOS.cutCommand, h.start, hmem, hwrite, ok_bind, hdrop, hline, ok_bind]
  exact ⟨_, rest', rfl, bufText_append hs.1 _⟩

end Cut

/-! ### Commands that are taken apart -/

section Run

variable {host : Host} {command rest : List UInt8} {stdin : Option (List UInt8)}
  {events : List CommandEvent} {fuel : ℕ}

/-- What is known of the string of a next command. -/
structure NextCommand (text next : List UInt8) : Prop where
  zero_notMem : 0 ∉ next
  head_ne : next.head? ≠ some 32
  length_lt : next.length < text.length

/-- What is behind the operator is the next command. -/
lemma OperatorAt.nextCommand {s pre op after : List UInt8} {k : ℕ} {dbl : Bool}
    (h : OperatorAt s pre op after k dbl) (hs : 0 ∉ s) : NextCommand s (cleanText false after) := by
  rw [h.split, List.mem_append, List.mem_append, not_or, not_or] at hs
  have hop := List.length_pos_iff.mpr h.op_ne_nil
  have hlen : (cleanText false after).length ≤ after.length :=
    ((List.rdropWhile_prefix _ _).length_le).trans (lineBody_sublist false after).length_le
  refine ⟨zero_notMem_cleanText hs.2.2, head_cleanText after, ?_⟩
  rw [h.split, List.length_append, List.length_append]
  omega

variable (host rest events) in
/-- **The part about a file** takes its text apart, which does not begin with a space. -/
lemma redirectTo_eq {text : List UInt8} {cmdType : CommandType} (stdout : List UInt8)
    (hfile : cmdType = .pipeFile ∨ cmdType = .pipeFileAppend) (htext : 0 ∉ text)
    (hhead : text.head? ≠ some 32) : ∃ opened next events',
    redirectTo host (text ++ 0 :: rest) stdout (cmdType = .pipeFileAppend) events =
      .ok (opened, next, events') ∧
    (next = none ∧ followUp host cmdType text stdout events = (.inl opened, events') ∨
      ∃ t rest', next = some (t ++ 0 :: rest') ∧ NextCommand text t ∧
        followUp host cmdType text stdout events =
          (if opened then .inr t else .inl false, events')) := by
  rw [redirectTo, bufText_append htext, ok_bind, followUp, if_pos hfile, fileParts]
  dsimp only
  by_cases hnormal : (getCommandType text).1 = .normal
  · rw [if_pos hnormal, if_pos hnormal]
    exact ⟨_, none, _, rfl, Or.inl ⟨rfl, rfl⟩⟩
  · obtain ⟨pre, op, after, hat⟩ := operatorAt hnormal
    obtain ⟨current, rest', hcut, hname⟩ := hat.cutCommand htext rest
    have hparts := hat.parts
    rw [trimLeft_of_head_append (hat.split ▸ hhead)] at hparts
    rw [if_neg hnormal, if_neg hnormal, hcut, ok_bind, hparts]
    dsimp only
    rw [hname, ok_bind]
    exact ⟨_, _, _, rfl, Or.inr ⟨_, rest', rfl, hat.nextCommand htext, rfl⟩⟩

/-- **What is done is what should be done, while nothing is stopped by its pipes**, for a command
without operator or without a space in front. -/
lemma commandReceived_eq_ok {result : CommandResult} (hcommand : 0 ∉ command)
    (hstart : (getCommandType command).1 = .normal ∨ command.head? ≠ some 32)
    (hfuel : command.length < fuel) :
    commandReceived host fuel (command ++ 0 :: rest) stdin events = .ok result ↔
      Runnable host fuel command stdin events ∧
        runCommands host fuel command stdin events = .ok result := by
  induction fuel generalizing command rest stdin events with
  | zero => exact absurd hfuel (Nat.not_lt_zero _)
  | succ fuel ih =>
    rw [commandReceived, runCommands, Runnable, bufText_append hcommand, ok_bind]
    dsimp only
    by_cases hnormal : (getCommandType command).1 = .normal
    · rw [if_pos hnormal, if_pos hnormal, if_pos hnormal, bind_eq_ok]
      constructor
      · rintro ⟨answer, hrun, h⟩
        obtain ⟨hcan, rfl⟩ := runCommand_eq_ok.mp hrun
        exact ⟨hcan, h⟩
      · rintro ⟨hcan, h⟩
        exact ⟨_, runCommand_eq_ok.mpr ⟨hcan, rfl⟩, h⟩
    · have hhead := hstart.resolve_left hnormal
      obtain ⟨pre, op, after, hat⟩ := operatorAt hnormal
      have hparts := hat.parts
      have hnext := hat.nextCommand hcommand
      obtain ⟨rest₁, hline⟩ := processLine_text false hcommand rest
      have hkeep : cleanText false command = pre ++ (op ++ trimRight after) := by
        rw [← trimRight_append hat.op_ne_nil fun c hc => (hat.op_plain c hc).1, ← hat.split]
        exact congrArg trimRight (trimLeft_of_head hhead)
      have hat' : OperatorAt (cleanText false command) pre op (trimRight after)
          (getCommandType command).2.1 (getCommandType command).2.2 :=
        ⟨hkeep, hat.op_ne_nil, hat.op_plain, hat.start_eq, hat.end_eq⟩
      obtain ⟨current, rest₂, hcut, hfirst⟩ :=
        hat'.cutCommand (zero_notMem_cleanText hcommand) rest₁
      rw [cleanText_trimRight] at hcut
      rw [trimLeft_of_head_append (hat.split ▸ hhead)] at hparts
      rw [if_neg hnormal, if_neg hnormal, if_neg hnormal, hline, ok_bind, hcut, ok_bind]
      dsimp only
      rw [hfirst, ok_bind, hparts]
      dsimp only
      generalize decide ((getCommandType command).1 ≠ .andRun) = captured
      generalize events ++ [CommandEvent.run pre stdin captured] = events
      have hshorter : ∀ t, NextCommand command t → ∀ rest stdin events,
          commandReceived host fuel (t ++ 0 :: rest) stdin events = .ok result ↔
            Runnable host fuel t stdin events ∧
              runCommands host fuel t stdin events = .ok result :=
        fun t ht rest stdin events =>
          ih ht.zero_notMem (Or.inr ht.head_ne) (by have := ht.length_lt; omega)
      -- the pipes of the first command
      by_cases hcan : CanRun host pre stdin (if captured = true then .buffer else .null)
      swap
      · refine iff_of_false (fun h => ?_) fun h => hcan h.1.1
        rw [bind_eq_ok] at h
        obtain ⟨answer, hrun, -⟩ := h
        exact hcan (runCommand_eq_ok.mp hrun).1
      rw [runCommand_eq_ok.mpr ⟨hcan, rfl⟩, ok_bind]
      simp only [hcan, true_and]
      cases host.answer pre events with
      | none => exact (and_iff_right fun _ h => nomatch h).symm
      | some answer =>
        dsimp only
        simp only [Option.some.injEq, forall_eq']
        cases hfound : answer.found with
        | false => exact (and_iff_right fun h => nomatch h).symm
        | true =>
          simp only [Bool.not_true, Bool.false_eq_true, if_false, forall_const]
          generalize (if captured = true then some answer.stdout else none) = stdout
          by_cases hfile : (getCommandType command).1 = .pipeFile ∨
              (getCommandType command).1 = .pipeFileAppend
          · obtain ⟨opened, next, events', hredirect, hcases⟩ := redirectTo_eq host rest₂
              events answer.stdout hfile hnext.zero_notMem hnext.head_ne
            rw [if_pos hfile, hredirect, ok_bind]
            dsimp only
            obtain ⟨rfl, hfollow⟩ | ⟨t, rest', rfl, ht, hfollow⟩ := hcases
            · rw [hfollow]
              exact (and_iff_right fun _ _ h => nomatch h).symm
            · rw [hfollow]
              dsimp only
              cases opened with
              | false => exact (and_iff_right fun _ _ h => nomatch h).symm
              | true =>
                simp only [if_true, Prod.mk.injEq, Sum.inr.injEq, and_imp, forall_eq',
                  forall_apply_eq_imp_iff]
                exact hshorter t ⟨ht.zero_notMem, ht.head_ne,
                  ht.length_lt.trans hnext.length_lt⟩ _ _ _
          · rw [if_neg hfile, followUp, if_neg hfile]
            dsimp only
            rw [hshorter _ hnext]
            refine and_congr_left fun _ => ⟨?_, fun h => h _ _ rfl⟩
            rintro h _ _ ⟨⟩
            exact h

/-- Writing a file adds events at the end. -/
lemma writeFile_prefix (host : Host) (name stdout : List UInt8) (append : Bool)
    (events : List CommandEvent) : events <+: (writeFile host name stdout append events).2 := by
  rw [writeFile]
  dsimp only
  cases host.resolveCheck (events ++ [.resolve name]) with
  | none => exact List.prefix_append _ _
  | some path =>
    dsimp only
    have h : events <+: events ++ [.resolve name] ++ [.fopen path] :=
      (List.prefix_append _ _).trans (List.prefix_append _ _)
    split_ifs
    · exact h.trans (List.prefix_append _ _)
    · exact h

/-- So does a redirection. -/
lemma redirectTo_prefix {next stdout : List UInt8} {append : Bool}
    {r : Bool × Option (List UInt8) × List CommandEvent}
    (h : redirectTo host next stdout append events = .ok r) : events <+: r.2.2 := by
  rw [redirectTo, bind_eq_ok] at h
  obtain ⟨name, -, h⟩ := h
  dsimp only at h
  split_ifs at h
  · obtain rfl := Except.ok.inj h
    exact writeFile_prefix ..
  · rw [bind_eq_ok] at h
    obtain ⟨cut, -, h⟩ := h
    rw [bind_eq_ok] at h
    obtain ⟨name, -, h⟩ := h
    obtain rfl := Except.ok.inj h
    exact writeFile_prefix ..

/-- And what follows a command. -/
lemma followUp_prefix {cmdType : CommandType} {next stdout : List UInt8} :
    events <+: (followUp host cmdType next stdout events).2 := by
  rw [followUp]
  by_cases hfile : cmdType = .pipeFile ∨ cmdType = .pipeFileAppend
  · rw [if_pos hfile]
    dsimp only
    cases (fileParts next).2 <;> exact writeFile_prefix ..
  · rw [if_neg hfile]

/-- The next command is what is left, or a part of it. -/
lemma followUp_inr {cmdType : CommandType} {next stdout t : List UInt8}
    {events' : List CommandEvent} (hnext : 0 ∉ next)
    (h : followUp host cmdType next stdout events = (.inr t, events')) :
    0 ∉ t ∧ t.length ≤ next.length := by
  rw [followUp] at h
  by_cases hfile : cmdType = .pipeFile ∨ cmdType = .pipeFileAppend
  · rw [if_pos hfile, fileParts] at h
    by_cases hnormal : (getCommandType next).1 = .normal
    · rw [if_pos hnormal] at h
      cases congrArg Prod.fst h
    · obtain ⟨pre, op, after, hat⟩ := operatorAt hnormal
      have ht := hat.nextCommand hnext
      rw [if_neg hnormal, hat.parts] at h
      dsimp only at h
      split_ifs at h
      · obtain rfl := Sum.inr.inj (congrArg Prod.fst h)
        exact ⟨ht.zero_notMem, ht.length_lt.le⟩
      · cases congrArg Prod.fst h
  · rw [if_neg hfile] at h
    obtain rfl := Sum.inr.inj (congrArg Prod.fst h)
    exact ⟨hnext, le_rfl⟩

/-- What should be done is said for every command. -/
lemma exists_runCommands (hcommand : 0 ∉ command) (hfuel : command.length < fuel) :
    ∃ result, runCommands host fuel command stdin events = .ok result := by
  induction fuel generalizing command stdin events with
  | zero => exact absurd hfuel (Nat.not_lt_zero _)
  | succ fuel ih =>
    rw [runCommands]
    dsimp only
    by_cases hnormal : (getCommandType command).1 = .normal
    · rw [if_pos hnormal]
      exact ⟨_, rfl⟩
    · obtain ⟨pre, op, after, hat⟩ := operatorAt hnormal
      have hnext := hat.nextCommand hcommand
      rw [if_neg hnormal, hat.parts]
      dsimp only
      generalize decide ((getCommandType command).1 ≠ .andRun) = captured
      generalize events ++ [CommandEvent.run (trimLeft pre) stdin captured] = events
      cases host.answer (trimLeft pre) events with
      | none => exact ⟨_, rfl⟩
      | some answer =>
        dsimp only
        by_cases hfound : (!answer.found) = true
        · rw [if_pos hfound]
          exact ⟨_, rfl⟩
        rw [if_neg hfound]
        rcases hfollow : followUp host (getCommandType command).1 (cleanText false after)
          answer.stdout events with ⟨opened | t, events'⟩
        · exact ⟨_, rfl⟩
        · obtain ⟨h0, hle⟩ := followUp_inr hnext.zero_notMem hfollow
          exact ih h0 (by have := hnext.length_lt; omega)

/-- **What `command_received` does first** is to run the command, or what it has cut off. -/
lemma commandReceived_first {result : CommandResult}
    (h : commandReceived host fuel command stdin events = .ok result) :
    ∃ text first captured, bufText command = .ok text ∧
      events ++ [.run first stdin captured] <+: result.events ∧
      ((getCommandType text).1 ≠ .normal → ∃ line cut, processLine false command = .ok line ∧
        cutCommand line (getCommandType text).2.1 (getCommandType text).2.2 = .ok cut ∧
        bufText cut.1 = .ok first) := by
  induction fuel generalizing command stdin events with
  | zero => cases h
  | succ fuel ih =>
    -- a later command only adds events
    have hlater : ∀ {command stdin} {events : List CommandEvent},
        commandReceived host fuel command stdin events = .ok result →
        events <+: result.events := by
      intro command stdin events h
      obtain ⟨text, first, captured, -, hprefix, -⟩ := ih h
      exact (List.prefix_append _ _).trans hprefix
    rw [commandReceived, bind_eq_ok] at h
    obtain ⟨text, htext, h⟩ := h
    dsimp only at h
    by_cases hnormal : (getCommandType text).1 = .normal
    · rw [if_pos hnormal, bind_eq_ok] at h
      obtain ⟨answer, -, h⟩ := h
      obtain rfl := Except.ok.inj h
      exact ⟨text, text, false, htext, List.prefix_rfl, fun hop => absurd hnormal hop⟩
    · rw [if_neg hnormal, bind_eq_ok] at h
      obtain ⟨line, hline, h⟩ := h
      rw [bind_eq_ok] at h
      obtain ⟨cut, hcut, h⟩ := h
      rw [bind_eq_ok] at h
      obtain ⟨first, hfirst, h⟩ := h
      refine ⟨text, first, decide ((getCommandType text).1 ≠ .andRun), htext, ?_,
        fun _ => ⟨line, cut, hline, hcut, hfirst⟩⟩
      generalize events ++ [CommandEvent.run first stdin
        (decide ((getCommandType text).1 ≠ .andRun))] = events at h ⊢
      rw [bind_eq_ok] at h
      -- the command may end the terminal, may not be found, or may answer
      obtain ⟨_ | answer, -, h⟩ := h
      · obtain rfl := Except.ok.inj h
        exact List.prefix_rfl
      dsimp only at h
      generalize (if decide ((getCommandType text).1 ≠ .andRun) = true then some answer.stdout
        else none) = stdout at h
      by_cases hfound : (!answer.found) = true
      · rw [if_pos hfound] at h
        obtain rfl := Except.ok.inj h
        exact List.prefix_rfl
      rw [if_neg hfound] at h
      by_cases hfile : (getCommandType text).1 = .pipeFile ∨
          (getCommandType text).1 = .pipeFileAppend
      · rw [if_pos hfile, bind_eq_ok] at h
        obtain ⟨⟨opened, next, events'⟩, hredirect, h⟩ := h
        have hprefix : events <+: events' := redirectTo_prefix hredirect
        dsimp only at h
        cases next with
        | none =>
          obtain rfl := Except.ok.inj h
          exact hprefix
        | some next =>
          dsimp only at h
          split_ifs at h
          · exact hprefix.trans (hlater h)
          · obtain rfl := Except.ok.inj h
            exact hprefix
      · rw [if_neg hfile] at h
        exact hlater h

/-- What should be done first. -/
lemma runCommands_first {result : CommandResult}
    (h : runCommands host fuel command stdin events = .ok result) : ∃ captured,
      events ++ [.run (if (getCommandType command).1 = .normal then command
        else (commandParts command).1) stdin captured] <+: result.events := by
  induction fuel generalizing command stdin events with
  | zero => cases h
  | succ fuel ih =>
    have hlater : ∀ {command stdin} {events : List CommandEvent},
        runCommands host fuel command stdin events = .ok result →
        events <+: result.events := by
      intro command stdin events h
      obtain ⟨captured, hprefix⟩ := ih h
      exact (List.prefix_append _ _).trans hprefix
    rw [runCommands] at h
    by_cases hnormal : (getCommandType command).1 = .normal
    · rw [if_pos hnormal] at h ⊢
      obtain rfl := Except.ok.inj h
      exact ⟨false, List.prefix_rfl⟩
    · rw [if_neg hnormal] at h ⊢
      refine ⟨decide ((getCommandType command).1 ≠ .andRun), ?_⟩
      dsimp only at h
      generalize events ++ [CommandEvent.run (commandParts command).1 stdin
        (decide ((getCommandType command).1 ≠ .andRun))] = events at h ⊢
      cases hanswer : host.answer (commandParts command).1 events with
      | none =>
        rw [hanswer] at h
        obtain rfl := Except.ok.inj h
        exact List.prefix_rfl
      | some answer =>
        rw [hanswer] at h
        dsimp only at h
        by_cases hfound : (!answer.found) = true
        · rw [if_pos hfound] at h
          obtain rfl := Except.ok.inj h
          exact List.prefix_rfl
        rw [if_neg hfound] at h
        have hprefix : events <+: (followUp host (getCommandType command).1
          (commandParts command).2 answer.stdout events).2 := followUp_prefix
        generalize followUp host (getCommandType command).1 (commandParts command).2
          answer.stdout events = follow at h hprefix
        obtain ⟨opened | next, events'⟩ := follow
        · obtain rfl := Except.ok.inj h
          exact hprefix
        · exact hprefix.trans (hlater h)

/-- Spaces are only skipped before an operator. -/
lemma OperatorAt.trimLeft_eq {s pre op after : List UInt8} {k : ℕ} {dbl : Bool}
    (h : OperatorAt s pre op after k dbl) : trimLeft s = trimLeft pre ++ (op ++ after) := by
  obtain ⟨d, op', hop⟩ := List.exists_cons_of_ne_nil h.op_ne_nil
  have hd : d ≠ 32 := (h.op_plain d (hop ▸ List.mem_cons_self)).1
  have hstop : trimLeft (op ++ after) = op ++ after := by
    rw [hop]
    exact trimLeft_of_head (by simpa using hd)
  rw [h.split, trimLeft_append, hstop]
  split_ifs with hpre
  · rw [hpre, List.nil_append]
  · rfl

/-- Behind spaces, what is cut off has the operator in it. -/
lemma OperatorAt.cut_behind_spaces {s pre op after first line : List UInt8} {k : ℕ}
    {dbl : Bool} {cut : List UInt8 × List UInt8} (h : OperatorAt s pre op after k dbl) (hs : 0 ∉ s)
    (hhead : s.head? = some 32) (hline : processLine false (s ++ 0 :: rest) = .ok line)
    (hcut : MicroOS.cutCommand line k dbl = .ok cut) (hfirst : bufText cut.1 = .ok first) :
    (trimLeft pre).length < first.length := by
  obtain ⟨d, op', hop⟩ := List.exists_cons_of_ne_nil h.op_ne_nil
  obtain ⟨hd, hd0⟩ := h.op_plain d (hop ▸ List.mem_cons_self)
  have hlt : (trimLeft pre).length < pre.length := by
    cases hpre : pre with
    | nil =>
      rw [h.split, hpre, hop] at hhead
      exact absurd (Option.some.inj hhead) hd
    | cons c pre' =>
      rw [h.split, hpre] at hhead
      obtain rfl : c = 32 := Option.some.inj hhead
      have hle : (trimLeft pre').length ≤ pre'.length := (List.dropWhile_sublist _).length_le
      exact Nat.lt_succ_of_le hle
  have hzero : 0 ∉ trimLeft pre ++ [d] := by
    rw [h.split, List.mem_append, not_or] at hs
    rw [List.mem_append, List.mem_singleton, not_or]
    exact ⟨fun h0 => hs.1 ((List.dropWhile_sublist _).subset h0), hd0.symm⟩
  -- the operator stands before the place where the terminator is put
  have htext : cleanText false s = trimLeft pre ++ [d] ++ (op' ++ trimRight after) := by
    have hline : cleanText false s = trimRight (trimLeft s) := rfl
    rw [hline, h.trimLeft_eq, trimRight_append h.op_ne_nil fun c hc => (h.op_plain c hc).1, hop]
    simp
  obtain ⟨rest', hline'⟩ := processLine_text false hs rest
  rw [hline, htext] at hline'
  obtain rfl := Except.ok.inj hline'
  rw [MicroOS.cutCommand, h.start, bind_eq_ok] at hcut
  obtain ⟨line, hwrite, hcut⟩ := hcut
  rw [bind_eq_ok] at hcut
  obtain ⟨next, -, hcut⟩ := hcut
  obtain rfl := Except.ok.inj hcut
  rw [bufWrite] at hwrite
  split_ifs at hwrite
  obtain rfl := Except.ok.inj hwrite
  have hplain : ∀ c ∈ trimLeft pre ++ [d], decide (c ≠ 0) = true := fun c hc =>
    decide_eq_true fun h0 => hzero (h0 ▸ hc)
  have hlen : (trimLeft pre ++ [d]).length ≤ pre.length := by
    rw [List.length_append, List.length_singleton]
    exact hlt
  dsimp only at hfirst
  rw [List.append_assoc, List.set_append_right _ _ hlen, bufText] at hfirst
  split_ifs at hfirst
  obtain rfl := Except.ok.inj hfirst
  rw [List.takeWhile_append_of_pos hplain]
  simp only [List.length_append, List.length_singleton]
  omega

/-- **A command is taken apart at its operators and run exactly where it has none, or does not begin
with a space, and no command that its chain comes to is stopped by its pipes.** Then nothing behind
the terminator is read. -/
theorem commandReceived_iff (host : Host) (hcommand : 0 ∉ command)
    (stdin : Option (List UInt8)) (events : List CommandEvent) :
    (∃ result,
      commandReceived host (command.length + 1) (command ++ [0]) stdin events = .ok result ∧
      runCommands host (command.length + 1) command stdin events = .ok result) ↔
      ((getCommandType command).1 = .normal ∨ command.head? ≠ some 32) ∧
        Runnable host (command.length + 1) command stdin events := by
  have hfuel : command.length < command.length + 1 := Nat.lt_succ_self _
  constructor
  · rintro ⟨result, hcode, hspec⟩
    have hstart : (getCommandType command).1 = .normal ∨ command.head? ≠ some 32 := by
      by_contra hnot
      rw [not_or, not_not] at hnot
      obtain ⟨hop, hhead⟩ := hnot
      obtain ⟨text, first, captured, htext, hprefix, hcut⟩ := commandReceived_first hcode
      obtain ⟨captured', hprefix'⟩ := runCommands_first hspec
      rw [bufText_append hcommand] at htext
      obtain rfl := Except.ok.inj htext
      obtain ⟨line, cut, hline, hcut, hfirst⟩ := hcut hop
      obtain ⟨pre, op, after, hat⟩ := operatorAt hop
      have hlt := hat.cut_behind_spaces hcommand hhead hline hcut hfirst
      rw [if_neg hop, hat.parts] at hprefix'
      have heq := List.prefix_of_prefix_length_le hprefix hprefix' (by simp)
      have hsame : first = trimLeft pre := by
        have h := List.IsPrefix.eq_of_length heq (by simp)
        have hrun := (List.cons.inj (List.append_cancel_left h)).1
        exact (CommandEvent.run.inj hrun).1
      rw [hsame] at hlt
      exact lt_irrefl _ hlt
    exact ⟨hstart, ((commandReceived_eq_ok hcommand hstart hfuel).mp hcode).1⟩
  · rintro ⟨hstart, hrunnable⟩
    obtain ⟨result, hspec⟩ : ∃ result,
        runCommands host (command.length + 1) command stdin events = .ok result :=
      exists_runCommands hcommand hfuel
    exact ⟨result, (commandReceived_eq_ok hcommand hstart hfuel).mpr ⟨hrunnable, hspec⟩, hspec⟩

/-- Page 0 is not mapped, the commands of the terminal print `x`, and every program is found. -/
def quietHost : Host := ⟨[], fun _ => some [120], fun _ => some true, fun _ => none, fun _ => false⟩

/-- The command `pwd|cd a`, of two commands of the terminal: the first is run with its output kept,
and the second with that output. -/
theorem commandReceived_pipe : ∃ result,
    commandReceived quietHost 9 [112, 119, 100, 124, 99, 100, 32, 97, 0] none [] = .ok result ∧
      runCommands quietHost 9 [112, 119, 100, 124, 99, 100, 32, 97] none [] = .ok result := by
  have hcommand : (0 : UInt8) ∉ [112, 119, 100, 124, 99, 100, 32, 97] := by decide
  refine (commandReceived_iff quietHost hcommand none []).mpr ⟨Or.inr (by decide),
    ⟨by decide, Or.inl (by decide)⟩, fun result hresult _ text events' hfollow => ?_⟩
  have htext : text = [99, 100, 32, 97] := (Sum.inr.inj (congrArg Prod.fst hfollow)).symm
  rw [htext]
  exact ⟨fun h => (nomatch h), Or.inl (by decide)⟩

/-- With a space before it, `pwd| cd a` is cut one character too late: the operator is part of what
is run. The terminal does not come to the end of `pwd&cd a`, where it reads from `NULL`, nor of
`ls|cd a`, where a program that is not its own has a pipe. -/
theorem commandReceived_fails :
    (commandReceived quietHost 10 [32, 112, 119, 100, 124, 32, 99, 100, 32, 97, 0] none [] =
        .ok ⟨some (true, false), [.run [112, 119, 100, 124] none true,
          .run [99, 100, 32, 97] (some [120]) false]⟩ ∧
      runCommands quietHost 10 [32, 112, 119, 100, 124, 32, 99, 100, 32, 97] none [] =
        .ok ⟨some (true, false), [.run [112, 119, 100] none true,
          .run [99, 100, 32, 97] (some [120]) false]⟩) ∧
    (commandReceived quietHost 9 [112, 119, 100, 38, 99, 100, 32, 97, 0] none [] =
        .error .pastEnd ∧
      runCommands quietHost 9 [112, 119, 100, 38, 99, 100, 32, 97] none [] =
        .ok ⟨some (true, false), [.run [112, 119, 100] none false,
          .run [99, 100, 32, 97] none false]⟩) ∧
    commandReceived quietHost 8 [108, 115, 124, 99, 100, 32, 97, 0] none [] =
        .error .assertFailed ∧
      runCommands quietHost 8 [108, 115, 124, 99, 100, 32, 97] none [] =
        .ok ⟨some (true, false), [.run [108, 115] none true,
          .run [99, 100, 32, 97] (some []) false]⟩ := by
  decide

end Run

end MicroOS
