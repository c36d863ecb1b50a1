import MicroOS.Renderer.TextConsole

/-!
The driver of `renderer/text_console.c` and its runs.

* `TextConsole`: the video memory, the table `text_console_vterms` and the current terminal;
  terminal number `n` of the source is entry `n - 1`.
* `TextConsole.logical`: the screen, cursor and colour of a terminal, wherever they are kept.
* `ConsoleOp.exec_logical`: an operation acts on the logical terminal it is addressed to and on no
  other; `ConsoleRun.Agree.run` is the same over runs.
* `vterm_independent`: the terminals are independent.
* `putc_onScreen_iff`: exactly which strings a cleared terminal keeps on its screen.
-/

namespace MicroOS

open CInt Checked

/-- `MAX_VTERM`. -/
def maxVterm : ℕ := 4

instance : NeZero maxVterm := ⟨by decide⟩

/-- `text_console_vterm_t`. -/
structure Vterm where
  x : ℤ
  y : ℤ
  color : UInt32
  buffer : Screen

/-- The globals of the driver: `text_console_video`, `text_console_vterms`, the field
`current_term`, and the position the hardware cursor was last set to. -/
structure TextConsole where
  video : Screen
  vterms : Fin maxVterm → Vterm
  currentTerm : Fin maxVterm
  cursor : UInt16

namespace TextConsole

variable (driver : Bool) (term : Fin maxVterm)

/-- The buffer that a call works on, with the cursor and the colour of its terminal; `driver` says
whether the call has a driver. -/
def select (s : TextConsole) : Terminal where
  screen := if driver ∧ s.currentTerm ≠ term then (s.vterms term).buffer else s.video
  x := (s.vterms term).x
  y := (s.vterms term).y
  color := (s.vterms term).color

/-- Stores into the buffer that a call works on, and into the entry of its terminal. -/
def store (s : TextConsole) (v : Terminal) : TextConsole :=
  if driver ∧ s.currentTerm ≠ term then
    { s with vterms := Function.update s.vterms term ⟨v.x, v.y, v.color, v.screen⟩ }
  else
    { s with
      video := v.screen
      vterms := Function.update s.vterms term ⟨v.x, v.y, v.color, (s.vterms term).buffer⟩ }

/-- `text_console_setcursor`. -/
def setcursor (s : TextConsole) (pos : ℤ) : TextConsole :=
  { s with cursor := UInt16.ofNat (pos % 2 ^ 16).toNat }

/-- `text_console_putc`. -/
def putc (c : UInt8) (s : TextConsole) : Except ConsoleFault TextConsole := do
  let v ← (s.select driver term).putc c
  let s := s.store driver term v
  -- a newline, a carriage return and a tab leave before the hardware cursor is set
  if c ≠ '\n'.toUInt8 ∧ c ≠ '\r'.toUInt8 ∧ c ≠ '\t'.toUInt8 ∧ driver ∧ s.currentTerm = term then
    return s.setcursor (v.y * screenWidth + v.x)
  return s

/-- `text_console_puts`. -/
def puts (cs : List UInt8) (s : TextConsole) : Except ConsoleFault TextConsole :=
  cs.foldlM (fun s c => s.putc driver term c) s

/-- `text_console_clrscr`. -/
def clrscr (s : TextConsole) : Except ConsoleFault TextConsole := do
  let v := s.select driver term
  let screen ← v.screen.clear v.color
  return s.store driver term { v with screen, x := 0, y := 0 }

/-- `text_console_driver_vpoke`. -/
def vpoke (offset : UInt32) (val : List UInt8) (s : TextConsole) :
    Except ConsoleFault TextConsole := do
  let v := s.select true term
  let screen ← v.screen.poke offset val
  return s.store true term { v with screen }

/-- `text_console_driver_vpeek`. -/
def vpeek (offset range : UInt32) (s : TextConsole) : Except ConsoleFault (List UInt8) :=
  (s.select true term).screen.peek offset range

/-- `text_console_vcursor`. -/
def vcursor (x y : ℤ) (s : TextConsole) : TextConsole :=
  let s := { s with vterms := Function.update s.vterms term { s.vterms term with x, y } }
  if driver ∧ s.currentTerm = term then s.setcursor (y * screenWidth + x) else s

/-- `color_table`. -/
def colorTable : List String :=
  ["black", "blue", "green", "cyan", "red", "magenta", "brown", "light_grey", "grey", "light_blue",
    "light_green", "light_cyan", "light_red", "light_magenta", "yellow", "white"]

/-- The colour that `text_console_set_color` stores; a name that is not in the table counts as the
entry after the last. -/
def mixColor (old : UInt32) (color : String) (background : Bool) : UInt32 :=
  let i : UInt32 := UInt32.ofNat (colorTable.idxOf color)
  if background then i <<< 4 ||| old &&& 0xf else i ||| old &&& 0xf0

/-- `text_console_set_color`. -/
def setColor (color : String) (background : Bool) (s : TextConsole) : TextConsole :=
  let v := s.vterms term
  { s with
    vterms := Function.update s.vterms term { v with color := mixColor v.color color background } }

/-- `text_console_vterm`. -/
def vterm (s : TextConsole) : TextConsole :=
  let old := s.vterms s.currentTerm
  let s := { s with
    vterms := Function.update s.vterms s.currentTerm { old with buffer := s.video } }
  let new := s.vterms term
  let s := { s with video := new.buffer }
  let s := s.setcursor (new.y * screenWidth + new.x)
  { s with currentTerm := term }

/-- `text_console_early`. -/
def early (s : TextConsole) : TextConsole :=
  { s with vterms := Function.update s.vterms 0 { s.vterms 0 with x := 0, y := 0, color := 0x0f } }

/-- `text_console_driver_init`, with the buffers that `vmm_alloc` returns. -/
def driverInit (buffers : Fin maxVterm → Screen) (s : TextConsole) :
    Except ConsoleFault TextConsole :=
  (List.finRange maxVterm).foldlM (fun (s : TextConsole) i => do
    let s := { s with
      vterms := Function.update s.vterms i { s.vterms i with buffer := buffers i } }
    if i = 0 then
      return s
    let s := { s with
      vterms := Function.update s.vterms i { s.vterms i with x := 0, y := 0, color := 0x0f } }
    let s ← s.clrscr true i
    s.puts true i ("nothing to see here\n".toList.map Char.toUInt8)) s

/-! ### The logical terminals -/

/-- The logical screen of a terminal, with its cursor and its colour: the video memory of the
current terminal, the buffer of any other. -/
def logical (s : TextConsole) : Terminal := s.select true term

variable {term} {s : TextConsole}

/-- Storing a terminal does not switch to it. -/
lemma store_currentTerm (v : Terminal) : (s.store driver term v).currentTerm = s.currentTerm := by
  rw [store]
  split_ifs <;> rfl

/-- What is stored is what the next call works on. -/
lemma select_store (v : Terminal) : (s.store driver term v).select driver term = v := by
  by_cases h : driver = true ∧ s.currentTerm ≠ term
  · simp [select, store, h]
  · simp only [select, store, if_neg h, Function.update_self]

lemma logical_store (v : Terminal) : (s.store true term v).logical term = v :=
  select_store true v

/-- Storing into one terminal leaves the others alone. -/
lemma logical_store_of_ne {t : Fin maxVterm} (h : t ≠ term) (v : Terminal) :
    (s.store true term v).logical t = s.logical t := by
  by_cases hcur : s.currentTerm = term
  · have ht : term ≠ t := Ne.symm h
    simp [logical, select, store, hcur, h, ht]
  · simp [logical, select, store, hcur, h]

@[simp] lemma logical_setcursor (t : Fin maxVterm) (pos : ℤ) :
    (s.setcursor pos).logical t = s.logical t := rfl

@[simp] lemma setcursor_currentTerm (pos : ℤ) : (s.setcursor pos).currentTerm = s.currentTerm := rfl

/-- Entries of the table that keep their buffers are stored as terminals. -/
lemma logical_update (e : Vterm) (he : e.buffer = (s.vterms term).buffer) (t : Fin maxVterm) :
    { s with vterms := Function.update s.vterms term e }.logical t
      = if t = term then { s.logical t with x := e.x, y := e.y, color := e.color }
        else s.logical t := by
  by_cases h : t = term
  · subst h
    simp [logical, select, he]
  · simp [logical, select, h]

/-- **A switch.** It moves screens between the video memory and the buffers; every terminal keeps
its screen, also when it is switched to itself. -/
lemma logical_vterm (term t : Fin maxVterm) (s : TextConsole) :
    (s.vterm term).logical t = s.logical t := by
  by_cases hnew : t = term
  · subst hnew
    by_cases hcur : s.currentTerm = t
    · simp [logical, select, vterm, setcursor, hcur]
    · have hcur' : t ≠ s.currentTerm := Ne.symm hcur
      simp [logical, select, vterm, setcursor, hcur, hcur']
  · have hnew' : term ≠ t := Ne.symm hnew
    by_cases hcur : s.currentTerm = t
    · simp [logical, select, vterm, setcursor, hcur, hnew']
    · have hcur' : t ≠ s.currentTerm := Ne.symm hcur
      simp [logical, select, vterm, setcursor, hcur, hcur', hnew']

end TextConsole

/-! ### Operations -/

/-- A call of the driver. -/
inductive ConsoleOp where
  | putc (term : Fin maxVterm) (c : UInt8)
  | vpoke (term : Fin maxVterm) (offset : UInt32) (val : List UInt8)
  | vpeek (term : Fin maxVterm) (offset range : UInt32)
  | vcursor (term : Fin maxVterm) (x y : ℤ)
  | setColor (term : Fin maxVterm) (color : String) (background : Bool)
  | vterm (term : Fin maxVterm)
  deriving DecidableEq, Repr

namespace ConsoleOp

/-- The terminal that a call is addressed to; a switch is addressed to none. -/
def target : ConsoleOp → Option (Fin maxVterm)
  | putc term _ => some term
  | vpoke term _ _ => some term
  | vpeek term _ _ => some term
  | vcursor term _ _ => some term
  | setColor term _ _ => some term
  | vterm _ => none

/-- A call of the driver, with the bytes that it hands out. -/
def exec (s : TextConsole) : ConsoleOp → Except ConsoleFault (TextConsole × Option (List UInt8))
  | putc term c => do return (← s.putc true term c, none)
  | vpoke term offset val => do return (← s.vpoke term offset val, none)
  | vpeek term offset range => do return (s, some (← s.vpeek term offset range))
  | vcursor term x y => .ok (s.vcursor true term x y, none)
  | setColor term color background => .ok (s.setColor term color background, none)
  | vterm term => .ok (s.vterm term, none)

/-- What a call does to a terminal that it is addressed to. -/
def act (v : Terminal) : ConsoleOp → Except ConsoleFault (Terminal × Option (List UInt8))
  | putc _ c => do return (← v.putc c, none)
  | vpoke _ offset val => do return ({ v with screen := ← v.screen.poke offset val }, none)
  | vpeek _ offset range => do return (v, some (← v.screen.peek offset range))
  | vcursor _ x y => .ok ({ v with x, y }, none)
  | setColor _ color background =>
    .ok ({ v with color := TextConsole.mixColor v.color color background }, none)
  | vterm _ => .ok (v, none)

/-- What a call leaves behind on the terminal it is addressed to, and everywhere else. -/
structure Acts (s : TextConsole) (term : Fin maxVterm) (v : Terminal) (s' : TextConsole) :
    Prop where
  currentTerm : s'.currentTerm = s.currentTerm
  addressed : s'.logical term = v
  others : ∀ t, t ≠ term → s'.logical t = s.logical t

variable {s s' : TextConsole} {term : Fin maxVterm} {out : Option (List UInt8)}

lemma acts_store (v : Terminal) : Acts s term v (s.store true term v) :=
  ⟨TextConsole.store_currentTerm true v, TextConsole.logical_store v,
    fun _ h => TextConsole.logical_store_of_ne h v⟩

/-- So does setting the hardware cursor behind it. -/
lemma Acts.setcursor {v : Terminal} (h : Acts s term v s') (pos : ℤ) :
    Acts s term v (s'.setcursor pos) :=
  ⟨h.currentTerm, h.addressed, h.others⟩

/-- A change of the cursor and the colour acts on the terminal alone. -/
lemma acts_update (term : Fin maxVterm) (e : Vterm) (he : e.buffer = (s.vterms term).buffer) :
    Acts s term { s.logical term with x := e.x, y := e.y, color := e.color }
      { s with vterms := Function.update s.vterms term e } := by
  refine ⟨rfl, ?_, fun t ht => ?_⟩
  · rw [TextConsole.logical_update e he, if_pos rfl]
  · rw [TextConsole.logical_update e he, if_neg ht]

/-- **A call acts on the terminal it is addressed to**, and fails when the action does. -/
lemma exec_of_target (op : ConsoleOp) (h : op.target = some term) :
    match op.act (s.logical term) with
    | .error e => op.exec s = .error e
    | .ok (v, out) => ∃ s', op.exec s = .ok (s', out) ∧ Acts s term v s' := by
  cases op with
  | putc t c =>
    obtain rfl : t = term := Option.some.inj h
    rw [act, exec, TextConsole.putc, ← TextConsole.logical]
    cases hv : (s.logical t).putc c with
    | error e => rfl
    | ok v =>
      have hacts : Acts s t v (s.store true t v) := acts_store v
      simp only [ok_bind, pure, Except.pure]
      split_ifs
      · exact ⟨_, rfl, hacts.setcursor _⟩
      · exact ⟨_, rfl, hacts⟩
  | vpoke t offset val =>
    obtain rfl : t = term := Option.some.inj h
    rw [act, exec, TextConsole.vpoke, ← TextConsole.logical]
    cases (s.logical t).screen.poke offset val with
    | error e => rfl
    | ok screen => exact ⟨_, rfl, acts_store _⟩
  | vpeek t offset range =>
    obtain rfl : t = term := Option.some.inj h
    rw [act, exec, TextConsole.vpeek, ← TextConsole.logical]
    cases (s.logical t).screen.peek offset range with
    | error e => rfl
    | ok val => exact ⟨s, rfl, rfl, rfl, fun _ _ => rfl⟩
  | vcursor t x y =>
    obtain rfl : t = term := Option.some.inj h
    have hacts := acts_update t { s.vterms t with x, y } rfl
    refine ⟨s.vcursor true t x y, rfl, ?_⟩
    rw [TextConsole.vcursor]
    split_ifs
    · exact hacts.setcursor _
    · exact hacts
  | setColor t color background =>
    obtain rfl : t = term := Option.some.inj h
    let v := s.vterms t
    exact ⟨_, rfl, acts_update t
      { v with color := TextConsole.mixColor v.color color background } rfl⟩
  | vterm t => exact absurd h (by simp [target])

/-- A call that returned, seen from a terminal: it acted there, or the terminal is as it was. -/
lemma exec_logical {op : ConsoleOp} (term : Fin maxVterm) (h : op.exec s = .ok (s', out)) :
    (op.target = some term ∧ op.act (s.logical term) = .ok (s'.logical term, out))
      ∨ (op.target ≠ some term ∧ s'.logical term = s.logical term) := by
  cases htarget : op.target with
  | none =>
    cases op with
    | vterm t =>
      obtain ⟨rfl, rfl⟩ := Prod.mk.inj (Except.ok.inj h)
      exact .inr ⟨by simp, TextConsole.logical_vterm t term s⟩
    | _ => exact absurd htarget (by simp [target])
  | some t =>
    have hexec := exec_of_target (s := s) op htarget
    cases hact : op.act (s.logical t) with
    | error e =>
      rw [hact] at hexec
      exact absurd (hexec.symm.trans h) (by simp)
    | ok p =>
      rw [hact] at hexec
      obtain ⟨s'', hs'', hacts⟩ := hexec
      obtain ⟨rfl, hout⟩ := Prod.mk.inj (Except.ok.inj (hs''.symm.trans h))
      by_cases hterm : t = term
      · subst hterm
        left
        refine ⟨rfl, ?_⟩
        rw [hact, hacts.addressed, ← hout]
      · right
        exact ⟨fun he => hterm (Option.some.inj he), hacts.others term (Ne.symm hterm)⟩

end ConsoleOp

/-! ### Runs -/

/-- The state of a run: the driver, and what the calls of `text_console_driver_vpeek` handed out,
with the terminals they were addressed to. -/
structure ConsoleRun where
  console : TextConsole
  peeks : List (Option (Fin maxVterm) × List UInt8)

/-- One call of a run. -/
def ConsoleRun.step (r : ConsoleRun) (op : ConsoleOp) : Except ConsoleFault ConsoleRun := do
  let (console, out) ← op.exec r.console
  return ⟨console, r.peeks ++ (out.map fun val => (op.target, val)).toList⟩

/-- The calls of a run, in order. -/
def consoleRun (ops : List ConsoleOp) (r : ConsoleRun) : Except ConsoleFault ConsoleRun :=
  ops.foldlM ConsoleRun.step r

/-- What was handed out for a terminal. -/
def ConsoleRun.peeksOf (r : ConsoleRun) (term : Fin maxVterm) : List (List UInt8) :=
  (r.peeks.filter fun p => p.1 = some term).map Prod.snd

/-- Two runs agree on a terminal. -/
structure ConsoleRun.Agree (term : Fin maxVterm) (r q : ConsoleRun) : Prop where
  logical : q.console.logical term = r.console.logical term
  peeks : q.peeksOf term = r.peeksOf term

namespace ConsoleRun

variable {r r' q : ConsoleRun} {op : ConsoleOp} {term : Fin maxVterm}

/-- A step that returns: the operation, with what it shows noted. -/
lemma step_eq_ok (h : r.step op = .ok r') :
    ∃ out, op.exec r.console = .ok (r'.console, out)
      ∧ r'.peeks = r.peeks ++ (out.map fun val => (op.target, val)).toList := by
  rw [step, bind_eq_ok] at h
  obtain ⟨⟨console, out⟩, hexec, h⟩ := h
  obtain rfl := Except.ok.inj h
  exact ⟨out, hexec, rfl⟩

/-- A call that is not addressed to a terminal changes nothing there. -/
lemma Agree.skip (ha : Agree term r q) (h : r.step op = .ok r') (ht : op.target ≠ some term) :
    Agree term r' q := by
  obtain ⟨out, hexec, hpeeks⟩ := step_eq_ok h
  obtain ⟨heq, -⟩ | ⟨-, hlogical⟩ := ConsoleOp.exec_logical term hexec
  · exact absurd heq ht
  · refine ⟨ha.logical.trans hlogical.symm, ha.peeks.trans ?_⟩
    rw [peeksOf, peeksOf, hpeeks, List.filter_append, List.map_append]
    cases out with
    | none => simp
    | some val => simp [ht]

/-- A call that is addressed to a terminal does the same there in both runs. -/
lemma Agree.both (ha : Agree term r q) (h : r.step op = .ok r') (ht : op.target = some term) :
    ∃ q', q.step op = .ok q' ∧ Agree term r' q'
      ∧ q'.console.currentTerm = q.console.currentTerm := by
  obtain ⟨out, hexec, hpeeks⟩ := step_eq_ok h
  obtain ⟨-, hact⟩ | ⟨hne, -⟩ := ConsoleOp.exec_logical term hexec
  · have hq := ConsoleOp.exec_of_target (s := q.console) op ht
    rw [ha.logical, hact] at hq
    obtain ⟨console, hconsole, hacts⟩ := hq
    refine ⟨⟨console, q.peeks ++ (out.map fun val => (op.target, val)).toList⟩, ?_, ?_,
      hacts.currentTerm⟩
    · rw [step, hconsole]
      rfl
    · refine ⟨hacts.addressed, ?_⟩
      have hpeeksOf := ha.peeks
      rw [peeksOf, peeksOf] at hpeeksOf
      rw [peeksOf, peeksOf, hpeeks, List.filter_append, List.filter_append, List.map_append,
        List.map_append, hpeeksOf]
  · exact absurd ht hne

/-- **Runs.** The calls that are addressed to a terminal are enough to know it. -/
lemma Agree.run {ops : List ConsoleOp} (ha : Agree term r q) (h : consoleRun ops r = .ok r') :
    ∃ q', consoleRun (ops.filter fun op => op.target = some term) q = .ok q'
      ∧ Agree term r' q' ∧ q'.console.currentTerm = q.console.currentTerm := by
  induction ops generalizing r q with
  | nil =>
    obtain rfl := Except.ok.inj h
    exact ⟨q, rfl, ha, rfl⟩
  | cons op ops ih =>
    rw [consoleRun, List.foldlM_cons, bind_eq_ok] at h
    obtain ⟨r₁, hstep, h⟩ := h
    by_cases ht : op.target = some term
    · obtain ⟨q₁, hq₁, ha₁, hcur₁⟩ := ha.both hstep ht
      obtain ⟨q', hq', ha', hcur⟩ := ih ha₁ h
      refine ⟨q', ?_, ha', hcur.trans hcur₁⟩
      rw [List.filter_cons_of_pos (by simpa using ht), consoleRun, List.foldlM_cons, hq₁]
      exact hq'
    · obtain ⟨q', hq', ha', hcur⟩ := ih (ha.skip hstep ht) h
      refine ⟨q', ?_, ha', hcur⟩
      rw [List.filter_cons_of_neg (by simpa using ht)]
      exact hq'

end ConsoleRun

/-- **Independent terminals.** Whatever calls a driver runs, the screen, the cursor and the colour
of a terminal and the bytes peeked from it are those of a driver that runs only the calls addressed
to that terminal, and so never switches. -/
theorem vterm_independent (term : Fin maxVterm) (ops : List ConsoleOp) {c d : TextConsole}
    {r : ConsoleRun} (hd : d.logical term = c.logical term)
    (h : consoleRun ops ⟨c, []⟩ = .ok r) :
    ∃ q, consoleRun (ops.filter fun op => op.target = some term) ⟨d, []⟩ = .ok q
      ∧ q.console.logical term = r.console.logical term ∧ q.peeksOf term = r.peeksOf term
      ∧ q.console.currentTerm = d.currentTerm := by
  have ha : ConsoleRun.Agree term ⟨c, []⟩ ⟨d, []⟩ := ⟨hd, rfl⟩
  obtain ⟨q, hq, hagree, hcur⟩ := ha.run h
  exact ⟨q, hq, hagree.logical, hagree.peeks, hcur⟩

/-- A driver with blank terminals. -/
def blankConsole (currentTerm : Fin maxVterm) : TextConsole where
  video := fun _ => 0
  vterms := fun _ => ⟨0, 0, 0x0f, fun _ => 0⟩
  currentTerm
  cursor := 0

/-- Terminal 1 is switched away between a character and a peek; the other driver shows terminal 2
all the time. -/
theorem vterm_independent_switch :
    ∃ q, consoleRun [.putc 0 65, .vpeek 0 0 2] ⟨blankConsole 1, []⟩ = .ok q
      ∧ q.peeksOf 0 = [[65, 0x0f]] ∧ q.console.currentTerm = 1 := by
  obtain ⟨r, hr, hpeeks⟩ := exists_of_map_toOption (b := [[65, 0x0f]])
    (x := consoleRun [.putc 0 65, .vterm 1, .setColor 1 "red" false, .vpeek 0 0 2]
      ⟨blankConsole 0, []⟩) (f := fun r => r.peeksOf 0) (by decide +kernel)
  have hd : (blankConsole 1).logical 0 = (blankConsole 0).logical 0 := rfl
  obtain ⟨q, hq, -, hq', hcur⟩ := vterm_independent 0 _ hd hr
  exact ⟨q, hq, hq'.trans hpeeks, hcur⟩

/-! ### Strings on a cleared terminal -/

namespace TextConsole

variable (driver : Bool) (term : Fin maxVterm)

/-- Every call of a string writes on the screen, and after it the cursor is in its bounds. -/
def StaysOnScreen (s : TextConsole) (cs : List UInt8) : Prop :=
  ∀ l r, cs = l ++ r → ∃ s', s.puts driver term l = .ok s' ∧ (s'.select driver term).InBounds

/-- Every character of a string fits when its turn comes. -/
def AllFit (s : TextConsole) (cs : List UInt8) : Prop :=
  ∀ l c r, cs = l ++ c :: r → ∀ s', s.puts driver term l = .ok s' →
    (s'.select driver term).Fits c

/-- A character acts on the terminal that is selected as on one without a switch. -/
lemma putc_select (s : TextConsole) (c : UInt8) :
    (s.putc driver term c).map (select driver term) = (s.select driver term).putc c := by
  rw [putc]
  cases (s.select driver term).putc c with
  | error e => rfl
  | ok v =>
    have hstore : (s.store driver term v).select driver term = v := select_store driver v
    simp only [ok_bind, pure, Except.pure]
    split_ifs
    · exact congrArg Except.ok hstore
    · exact congrArg Except.ok hstore

/-- A string acts on the terminal it is printed on. -/
lemma puts_select (s : TextConsole) (cs : List UInt8) :
    (s.puts driver term cs).map (select driver term)
      = cs.foldlM Terminal.putc (s.select driver term) := by
  induction cs generalizing s with
  | nil => rfl
  | cons c cs ih =>
    rw [puts, List.foldlM_cons, List.foldlM_cons, ← putc_select]
    cases s.putc driver term c with
    | error e => rfl
    | ok s' => exact ih s'

/-- So does a text, when it returns. -/
lemma puts_ok {s s' : TextConsole} {cs : List UInt8} (h : s.puts driver term cs = .ok s') :
    cs.foldlM Terminal.putc (s.select driver term) = .ok (s'.select driver term) := by
  rw [← puts_select, h]
  rfl

/-- And it returns when it does there. -/
lemma exists_puts {s : TextConsole} {cs : List UInt8} {v : Terminal}
    (h : cs.foldlM Terminal.putc (s.select driver term) = .ok v) :
    ∃ s', s.puts driver term cs = .ok s' ∧ s'.select driver term = v := by
  rw [← puts_select] at h
  cases hs : s.puts driver term cs with
  | error e => simp [hs, Except.map] at h
  | ok s' => exact ⟨s', rfl, by simpa [hs, Except.map] using h⟩

/-- The console stays on the screen just when the terminal stays in bounds. -/
lemma staysOnScreen_iff (s : TextConsole) (cs : List UInt8) :
    s.StaysOnScreen driver term cs ↔ (s.select driver term).StaysInBounds cs := by
  refine forall_congr' fun l => forall_congr' fun r => imp_congr_right fun _ => ⟨?_, ?_⟩
  · rintro ⟨s', hs', hb⟩
    exact ⟨_, puts_ok driver term hs', hb⟩
  · rintro ⟨v, hv, hb⟩
    obtain ⟨s', hs', rfl⟩ := exists_puts driver term hv
    exact ⟨s', hs', hb⟩

/-- The characters fit the console just when they fit the terminal. -/
lemma allFit_iff (s : TextConsole) (cs : List UInt8) :
    s.AllFit driver term cs ↔ (s.select driver term).AllFit cs := by
  refine forall_congr' fun l => forall_congr' fun c => forall_congr' fun r =>
    imp_congr_right fun _ => ⟨fun h v hv => ?_, fun h s' hs' => h _ (puts_ok driver term hs')⟩
  obtain ⟨s', hs', rfl⟩ := exists_puts driver term hv
  exact h s' hs'

/-- Clearing a terminal puts its cursor into the first cell. -/
lemma clrscr_ok (s : TextConsole) :
    ∃ s₀, s.clrscr driver term = .ok s₀ ∧ (s₀.select driver term).x = 0
      ∧ (s₀.select driver term).y = 0 := by
  obtain ⟨screen, hscreen⟩ := (s.select driver term).screen.clear_ok (s.select driver term).color
  refine ⟨_, by rw [clrscr, hscreen]; rfl, ?_, ?_⟩ <;> rw [select_store]

end TextConsole

open TextConsole

/-- **Strings on a cleared terminal.** All calls write inside the screen and keep the cursor in its
bounds exactly when every character fits when its turn comes: a backspace on a row of the screen, a
printable character at most one row below. -/
theorem putc_onScreen_iff (driver : Bool) (term : Fin maxVterm) (s : TextConsole)
    (cs : List UInt8) :
    ∃ s₀, s.clrscr driver term = .ok s₀
      ∧ (s₀.StaysOnScreen driver term cs ↔ s₀.AllFit driver term cs) := by
  obtain ⟨s₀, hs₀, hx, hy⟩ := clrscr_ok driver term s
  refine ⟨s₀, hs₀, ?_⟩
  have hbounds : (s₀.select driver term).InBounds := by
    refine ⟨hx.ge, ?_, hy.ge⟩
    rw [hx]
    norm_num
  rw [staysOnScreen_iff, allFit_iff]
  refine Terminal.staysInBounds_iff hbounds ?_ cs
  rw [hy, intMax]
  norm_num

/-- The last row is reached and filled with tabs; the backspace then goes to the row below. -/
def belowLastRow : List UInt8 :=
  List.replicate 24 '\n'.toUInt8 ++ List.replicate 20 '\t'.toUInt8

/-- A backspace after the last column of the last row is written behind the screen. -/
theorem putc_offScreen :
    ∃ s₀, (blankConsole 0).clrscr true 0 = .ok s₀
      ∧ ¬s₀.StaysOnScreen true 0 (belowLastRow ++ [8]) := by
  have herror : ((blankConsole 0).clrscr true 0 >>= puts true 0 (belowLastRow ++ [8])).isOk
      = false := by decide +kernel
  obtain ⟨s₀, hs₀, -⟩ := clrscr_ok true 0 (blankConsole 0)
  refine ⟨s₀, hs₀, fun h => ?_⟩
  obtain ⟨s', hs', -⟩ := h _ [] (List.append_nil _).symm
  rw [hs₀, ok_bind, hs'] at herror
  exact absurd herror (by simp [Except.isOk, Except.toBool])

end MicroOS
