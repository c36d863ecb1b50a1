import MicroOS.User.Ansi
import MicroOS.Renderer.ConsoleRun

/-!
Escape sequences on the text console: `ansi_run` of `user/libc/buildin/ansi.c`, with the calls of
`renderer/text_console.c` that it ends in.

* `ansiRun`: what a sequence does to the console; `Shows`: text that is fed to `ansi_putchar`;
* `Screen.poke_ok`, `Screen.poke_error`: a block is written inside the screen, or leaves it;
* `MovesCursor`, `Erases`: what `ESC[r;cH`, `ESC[J` and `ESC[K` are for;
* `ansi_cursor_erase_iff`: **when they do that**: the column is cut at 26, and the row is reported
  as the column.
-/

namespace MicroOS

open CInt Checked

/-! ### Blocks of a screen -/

namespace Screen

/-- A screen with its bytes from `a` to `b` set to zero. -/
def erase (s : Screen) (a b : ℤ) : Screen := fun i => if a ≤ (i : ℕ) ∧ (i : ℕ) < b then 0 else s i

/-- Two blocks are erased alike exactly where the bytes in only one of them are zero. -/
lemma erase_eq_iff {s : Screen} {a b a' b' : ℤ} : s.erase a b = s.erase a' b' ↔
    ∀ i : Fin screenBytes, (a ≤ (i : ℕ) ∧ (i : ℕ) < b ↔ a' ≤ (i : ℕ) ∧ (i : ℕ) < b') ∨ s i = 0 := by
  rw [funext_iff]
  refine forall_congr' fun i => ?_
  rw [erase, erase]
  split_ifs with h h' h'
  · simp [h, h']
  · simp only [h, h', and_self, true_iff, false_or]
    exact eq_comm
  · simp [h, h']
  · simp [h, h']

/-- The loop of `memcpy` writes zeros on the screen. -/
lemma foldlM_zeros {offset : ℕ} (n k : ℕ) (s : Screen) (h : offset + k + n ≤ screenBytes) :
    ((List.replicate n (0 : UInt8)).zipIdx k).foldlM
        (fun (s : Screen) (b : UInt8 × ℕ) => s.write (offset + b.2) b.1) s =
      .ok (s.erase ((offset + k : ℕ) : ℤ) ((offset + k + n : ℕ) : ℤ)) := by
  induction n generalizing k s with
  | zero =>
    refine congrArg Except.ok (funext fun i => ?_)
    rw [erase, if_neg (by omega)]
  | succ n ih =>
    have hi : 0 ≤ (offset + k : ℤ) ∧ (offset + k : ℤ) < screenBytes := by omega
    rw [List.replicate_succ, List.zipIdx_cons, List.foldlM_cons]
    rw [write, dif_pos hi, ok_bind, ih (k + 1) _ (by omega)]
    refine congrArg Except.ok (funext fun i => ?_)
    rw [erase, erase, Function.update_apply]
    by_cases heq : (i : ℕ) = offset + k
    · rw [if_neg (by omega), if_pos (Fin.ext (by dsimp only; omega)), if_pos (by omega)]
    · rw [if_neg (show i ≠ _ from fun h => heq (by rw [h]; dsimp only; omega))]
      refine if_congr ?_ rfl rfl
      omega

lemma poke_zeros {offset : UInt32} {n : ℕ} (s : Screen) (h : offset.toNat + n ≤ screenBytes) :
    s.poke offset (List.replicate n 0) = .ok (s.erase offset.toNat (offset.toNat + n : ℕ)) :=
  foldlM_zeros n 0 s h

/-- The loop of `memcpy` leaves the screen. -/
lemma foldlM_error {offset : ℕ} (val : List UInt8) (k : ℕ) (s : Screen) (hne : val ≠ [])
    (h : screenBytes < offset + k + val.length) :
    ∃ e, (val.zipIdx k).foldlM
      (fun (s : Screen) (b : UInt8 × ℕ) => s.write (offset + b.2) b.1) s = .error e := by
  induction val generalizing k s with
  | nil => exact absurd rfl hne
  | cons b val ih =>
    rw [List.length_cons] at h
    rw [List.zipIdx_cons, List.foldlM_cons]
    by_cases hi : 0 ≤ (offset + k : ℤ) ∧ (offset + k : ℤ) < screenBytes
    · rw [write, dif_pos hi, ok_bind]
      refine ih (k + 1) _ ?_ (by omega)
      rintro rfl
      rw [List.length_nil] at h
      omega
    · rw [write_of_offScreen _ _ hi]
      exact ⟨_, rfl⟩

/-- A block that does not fit leaves the screen. -/
lemma poke_error {offset : UInt32} {val : List UInt8} (s : Screen) (hne : val ≠ [])
    (h : screenBytes < offset.toNat + val.length) : ∃ e, s.poke offset val = .error e :=
  foldlM_error val 0 s hne h

end Screen

/-! ### Sequences -/

namespace TextConsole

/-- `text_console_vcursor_get`: the column, and the row as it is reported. -/
def vcursorGet (term : Fin maxVterm) (s : TextConsole) : ℤ × ℤ :=
  ((s.vterms term).x, (s.vterms term).x)

end TextConsole

/-- The console with the static variable of `ansi_run`. -/
structure AnsiConsole where
  console : TextConsole
  bright : Bool

/-- `color_pallet`. -/
def colorPallet : List String :=
  ["black", "red", "green", "yellow", "blue", "magenta", "cyan", "white"]

/-- `color_pallet_bright`. -/
def colorPalletBright : List String :=
  ["grey", "light_red", "light_green", "yellow", "light_blue", "light_magenta", "light_cyan",
    "white"]

/-- The bytes from `zerro_buf` on, with those that stand behind it. -/
def zerroBuf (behind : ℕ → UInt8) (i : ℕ) : UInt8 := if i < 80 * 25 * 2 then 0 else behind i

/-- What `ansi_debug` prints. -/
def ansiDebugText (f : UInt8) (argv : List Int32) : List UInt8 :=
  f :: '('.toUInt8 ::
    (argv.flatMap fun n => (toString n.toInt ++ ";").toList.map Char.toUInt8) ++
    [')'.toUInt8, '\n'.toUInt8]

section Run

variable (term : Fin maxVterm) (behind : ℕ → UInt8)

/-- The offset that `vpoke` gets for the cursor, as `vcursor_get` reports it. -/
def cursorOffset (s : TextConsole) : UInt32 :=
  UInt32.ofInt (int (int (int ((s.vcursorGet term).2 * 80) + (s.vcursorGet term).1) * 2))

/-- `ansi_clear_from_cursor`. -/
def ansiClearFromCursor (s : TextConsole) : Except ConsoleFault TextConsole :=
  let range := UInt32.ofNat (80 * 25 * 2) - cursorOffset term s
  s.vpoke term (cursorOffset term s) ((List.range range.toNat).map (zerroBuf behind))

/-- `ansi_clear_from_cursor_eol`. -/
def ansiClearFromCursorEol (s : TextConsole) : Except ConsoleFault TextConsole :=
  let range := UInt32.ofInt (int (int (25 - (s.vcursorGet term).1) * 2))
  s.vpoke term (cursorOffset term s) ((List.range range.toNat).map (zerroBuf behind))

/-- `ansi_debug`. -/
def ansiDebug (f : UInt8) (argv : List Int32) (t : AnsiConsole) :
    Except ConsoleFault AnsiConsole := do
  return { t with console := ← t.console.puts true term (ansiDebugText f argv) }

/-- The colours that `0` sets. -/
def ansiReset (t : AnsiConsole) : AnsiConsole where
  console := (t.console.setColor term "black" true).setColor term "white" false
  bright := false

/-- A turn of the loop for `m`. -/
def ansiColor (argv : List Int32) (t : AnsiConsole) (n : Int32) :
    Except ConsoleFault AnsiConsole :=
  let i := n.toInt
  if i = 0 then .ok (ansiReset term t)
  else if i = 1 then .ok { t with bright := true }
  else if 30 ≤ i ∧ i ≤ 37 then
    let pallet := if t.bright then colorPalletBright else colorPallet
    .ok { t with console := t.console.setColor term (pallet.getD (i - 30).toNat "") false }
  else if 40 ≤ i ∧ i ≤ 47 then
    .ok { t with console := t.console.setColor term (colorPallet.getD (i - 40).toNat "") true }
  else ansiDebug term 'm'.toUInt8 argv t

/-- `ansi_run`, on a console in text mode. -/
def ansiRun (f : UInt8) (argv : List Int32) (t : AnsiConsole) : Except ConsoleFault AnsiConsole :=
  if f = 'm'.toUInt8 then
    match argv with
    | [] => .ok (ansiReset term t)
    | _ => argv.foldlM (ansiColor term argv) t
  else if f = 'H'.toUInt8 then
    match argv with
    | [] => .ok { t with console := t.console.vcursor true term 0 0 }
    | [row, column] => .ok { t with
        console := t.console.vcursor true term (min 25 (column - 1).toInt)
          (min 80 (row - 1).toInt) }
    | _ => ansiDebug term f argv t
  else if f = 'J'.toUInt8 then
    match argv with
    | [] => do return { t with console := ← ansiClearFromCursor term behind t.console }
    | _ => ansiDebug term f argv t
  else if f = 'K'.toUInt8 then
    match argv with
    | [] => do return { t with console := ← ansiClearFromCursorEol term behind t.console }
    | _ => ansiDebug term f argv t
  else ansiDebug term f argv t

/-- What an event does to the console. -/
def ansiExec (t : AnsiConsole) : AnsiEvent → Except ConsoleFault AnsiConsole
  | .write c => do return { t with console := ← t.console.putc true term c }
  | .run f args => ansiRun term behind f args t
  | .malformed c => do
      let text := "Malformed ansi: ".toList.map Char.toUInt8 ++ [c, '\n'.toUInt8]
      return { t with console := ← t.console.puts true term text }

/-- Text that is fed to `ansi_putchar` outside of a sequence leaves a console behind. -/
def Shows (text : List UInt8) (t t' : AnsiConsole) : Prop :=
  ∃ events, ansiFeed .idle text = .ok (.idle, events) ∧
    events.foldlM (ansiExec term behind) t = .ok t'

end Run

/-! ### What the sequences are for -/

/-- A terminal when a character has been written in a row and a column, with the cursor
behind it. -/
def Terminal.placed (v : Terminal) (row column : ℕ) (c : UInt8) : Terminal where
  screen := fun i =>
    if (i : ℕ) = 2 * (row * screenWidth + column) then c
    else if (i : ℕ) = 2 * (row * screenWidth + column) + 1 then v.color.toUInt8
    else v.screen i
  x := column + 1
  y := row
  color := v.color

/-- `ESC[r;cH`. -/
def cursorSequence (row column : DecimalNumber) : List UInt8 :=
  27 :: 91 :: (argsText [row, column] ++ ['H'.toUInt8])

/-- A sequence without arguments. -/
def plainSequence (f : UInt8) : List UInt8 := [27, 91, f]

section Purpose

variable (term : Fin maxVterm) (behind : ℕ → UInt8)

/-- Behind `ESC[r;cH` a character is written in row `r` and column `c`, counted from one. -/
def MovesCursor (row column : DecimalNumber) (t : AnsiConsole) : Prop :=
  ∀ c, Terminal.Printable c → c ≠ 27 →
    ∃ t', Shows term behind (cursorSequence row column ++ [c]) t t' ∧
      ConsoleOp.Acts t.console term
        ((t.console.logical term).placed (row.value - 1) (column.value - 1) c) t'.console

/-- A sequence erases the bytes of a terminal from `a` to `b`, and does nothing else. -/
def Erases (f : UInt8) (a b : ℤ) (t : AnsiConsole) : Prop :=
  ∃ t', Shows term behind (plainSequence f) t t' ∧
    ConsoleOp.Acts t.console term { t.console.logical term with
      screen := (t.console.logical term).screen.erase a b } t'.console

end Purpose

/-! ### The cursor -/

namespace Terminal

variable {v : Terminal} {row column : ℕ} {c : UInt8}

/-- A printable character is written where the cursor is. -/
lemma putc_placed (hx : v.x = column) (hy : v.y = row) (hrow : row < 25) (hcolumn : column < 80)
    (hc : Printable c) : v.putc c = .ok (v.placed row column c) := by
  have hsize : screenBytes = 4000 := rfl
  have hwidth : screenWidth = 80 := rfl
  have hheight : screenHeight = 25 := rfl
  have hwrap : v.wrapLine c = v := if_neg (by
    rw [not_or, hx, hwidth]
    exact ⟨hc.2.2.1, by omega⟩)
  have hscroll : v.scrollUp = .ok v := if_neg (by
    rw [hy, hheight]
    omega)
  have hplot : v.plot c = .ok { v.placed row column c with x := v.x, y := v.y } := by
    have hi : 0 ≤ 2 * (v.y * screenWidth + v.x) ∧ 2 * (v.y * screenWidth + v.x) < screenBytes := by
      rw [hx, hy, hsize, hwidth]
      omega
    have hi' : 0 ≤ 2 * (v.y * screenWidth + v.x) + 1 ∧
        2 * (v.y * screenWidth + v.x) + 1 < screenBytes := by
      rw [hx, hy, hsize, hwidth]
      omega
    rw [plot, Screen.write, dif_pos hi, ok_bind, Screen.write, dif_pos hi', ok_bind]
    refine congrArg Except.ok ?_
    rw [placed]
    congr 1
    funext i
    rw [Function.update_apply, Function.update_apply]
    have hidx : (2 * (v.y * screenWidth + v.x)).toNat = 2 * (row * screenWidth + column) := by
      rw [hx, hy]
      omega
    have hidx' : (2 * (v.y * screenWidth + v.x) + 1).toNat =
      2 * (row * screenWidth + column) + 1 := by
      rw [hx, hy]
      omega
    simp only [Fin.ext_iff, hidx, hidx']
    by_cases h1 : (i : ℕ) = 2 * (row * screenWidth + column)
    · rw [if_neg (by omega), if_pos h1, if_pos h1]
    · rw [if_neg h1, if_neg h1]
  rw [putc_printable v hc, hwrap, hscroll, ok_bind, hplot, ok_bind, hx]
  rw [placed, ← hy]
  rfl

end Terminal

/-- A number below a hundred has at most two digits. -/
lemma DecimalNumber.length_le_two (n : DecimalNumber) (h : n.value < 100) :
    n.digits.length ≤ 2 := by
  obtain ⟨c, digits, hdigits⟩ := List.exists_cons_of_ne_nil n.ne_nil
  by_contra hlen
  have hfirst : (digitValue c).getD 0 ≠ 0 := by
    intro hzero
    rw [n.digits_of_first hdigits hzero] at hlen
    simp at hlen
  rw [hdigits, List.length_cons] at hlen
  rw [Numeral.value, n.decimal, hdigits, digitsValue, List.foldl_cons] at h
  have hpow : 10 ^ 2 ≤ 10 ^ digits.length := Nat.pow_le_pow_right (by norm_num) (by omega)
  have hlow := le_foldl_digits digits (0 * Base.decimal.radix + (digitValue c).getD 0)
  have hone : 1 * 10 ^ digits.length ≤
      (0 * Base.decimal.radix + (digitValue c).getD 0) * 10 ^ digits.length :=
    Nat.mul_le_mul_right _ (by omega)
  have hall := (hpow.trans ((Nat.one_mul _).ge.trans hone)).trans hlow
  exact absurd h (not_lt.mpr hall)

/-! ### Sequences that are run -/

section Runs

variable {term : Fin maxVterm} {behind : ℕ → UInt8} {t t' : AnsiConsole} {s s' s'' : TextConsole}
  {v w : Terminal} {row column : DecimalNumber} {c f : UInt8}

/-- A sequence whose letter ends it is run. -/
lemma ansiFeed_of_letterEnds (p : AnsiPiece) (h : p.LetterEnds) :
    ansiFeed .idle p.bytes = .ok (.idle, p.meaning) := by
  obtain ⟨events, hfed⟩ := p.fed
  rw [← hfed.eq_iff.mpr h]
  exact hfed.fed

/-- What a sequence without arguments shows. -/
lemma shows_plain (hf : isLetter f = true) :
    Shows term behind (plainSequence f) t t' ↔ ansiRun term behind f [] t = .ok t' := by
  have hfeed : ansiFeed .idle (plainSequence f) = .ok (.idle, [.run f []]) :=
    ansiFeed_of_letterEnds (.sequence [] f hf (by decide)) (.inl rfl)
  have hrun : [AnsiEvent.run f []].foldlM (ansiExec term behind) t =
    ansiRun term behind f [] t := by
    rw [List.foldlM_cons]
    exact bind_pure _
  constructor
  · rintro ⟨events, hevents, hexec⟩
    rw [hfeed] at hevents
    cases hevents
    rwa [hrun] at hexec
  · exact fun h => ⟨_, hfeed, hrun.trans h⟩

/-- What a position and a character show. -/
lemma shows_cursor (hrow : row.value < 100) (hcolumn : column.value < 100) (hc : c ≠ 27) :
    Shows term behind (cursorSequence row column ++ [c]) t t' ↔
      ∃ t₁, ansiRun term behind 'H'.toUInt8 [Int32.ofNat row.value, Int32.ofNat column.value] t =
        .ok t₁ ∧ ansiExec term behind t₁ (.write c) = .ok t' := by
  have hlen := row.length_le_two hrow
  have hlen' := column.length_le_two hcolumn
  have hshort : (argsText [row, column]).length + 3 < 31 := by
    simp only [argsText, List.length_append, List.length_cons]
    omega
  have hsequence : ansiFeed .idle (cursorSequence row column) = .ok (.idle,
      [.run 'H'.toUInt8 [Int32.ofNat row.value, Int32.ofNat column.value]]) :=
    ansiFeed_of_letterEnds (.sequence [row, column] 'H'.toUInt8 (by decide) hshort)
      (.inr ⟨by decide, fun h => absurd h.1 (by decide)⟩)
  have hfeed : ansiFeed .idle (cursorSequence row column ++ [c]) = .ok (.idle,
      [.run 'H'.toUInt8 [Int32.ofNat row.value, Int32.ofNat column.value], .write c]) := by
    rw [ansiFeed_append, hsequence, ok_bind]
    dsimp only
    rw [ansiFeed_text fun h => hc (List.mem_singleton.mp h).symm]
    rfl
  constructor
  · rintro ⟨events, hevents, hexec⟩
    rw [hfeed] at hevents
    cases hevents
    rw [List.foldlM_cons, bind_eq_ok] at hexec
    obtain ⟨t₁, hrun, hexec⟩ := hexec
    rw [List.foldlM_cons, bind_eq_ok] at hexec
    obtain ⟨t₂, hwrite, hexec⟩ := hexec
    cases hexec
    exact ⟨t₁, hrun, hwrite⟩
  · rintro ⟨t₁, hrun, hwrite⟩
    have hexec : ansiExec term behind t (.run 'H'.toUInt8
        [Int32.ofNat row.value, Int32.ofNat column.value]) = .ok t₁ := hrun
    refine ⟨_, hfeed, ?_⟩
    rw [List.foldlM_cons, hexec, ok_bind, List.foldlM_cons, hwrite]
    rfl

/-! ### Calls of the driver -/

/-- Two operations on one terminal, one behind the other. -/
lemma acts_trans (h : ConsoleOp.Acts s term v s') (h' : ConsoleOp.Acts s' term w s'') :
    ConsoleOp.Acts s term w s'' :=
  ⟨h'.currentTerm.trans h.currentTerm, h'.addressed,
    fun t ht => (h'.others t ht).trans (h.others t ht)⟩

lemma acts_unique (h : ConsoleOp.Acts s term v s') (h' : ConsoleOp.Acts s term w s') : v = w :=
  h.addressed.symm.trans h'.addressed

/-- The cursor is set. -/
lemma acts_vcursor (s : TextConsole) (term : Fin maxVterm) (x y : ℤ) :
    ConsoleOp.Acts s term { s.logical term with x, y } (s.vcursor true term x y) := by
  obtain ⟨s', hs', hacts⟩ := ConsoleOp.exec_of_target (s := s) (.vcursor term x y) rfl
  cases hs'
  exact hacts

/-- A character is written. -/
lemma acts_putc (hv : (s.logical term).putc c = .ok v) :
    ∃ s', s.putc true term c = .ok s' ∧ ConsoleOp.Acts s term v s' := by
  have hexec := ConsoleOp.exec_of_target (s := s) (.putc term c) rfl
  rw [ConsoleOp.act, hv] at hexec
  obtain ⟨s', hs', hacts⟩ := hexec
  rw [ConsoleOp.exec, bind_eq_ok] at hs'
  obtain ⟨s'', hputc, hs'⟩ := hs'
  cases hs'
  exact ⟨s', hputc, hacts⟩

/-- A block is written. -/
lemma acts_vpoke {offset : UInt32} {val : List UInt8} {screen : Screen}
    (hv : (s.logical term).screen.poke offset val = .ok screen) :
    ∃ s', s.vpoke term offset val = .ok s' ∧
      ConsoleOp.Acts s term { s.logical term with screen } s' := by
  refine ⟨s.store true term { s.logical term with screen }, ?_, ConsoleOp.acts_store _⟩
  rw [TextConsole.vpoke, ← TextConsole.logical, hv]
  rfl

/-- A block that leaves the screen is not written. -/
lemma vpoke_error {offset : UInt32} {val : List UInt8} {e : ConsoleFault}
    (hv : (s.logical term).screen.poke offset val = .error e) :
    s.vpoke term offset val = .error e := by
  rw [TextConsole.vpoke, ← TextConsole.logical, hv]
  rfl

/-! ### `ESC[r;cH` -/

/-- An argument that counts from one. -/
lemma toInt_pred {n : ℕ} (hlo : 1 ≤ n) (hhi : n ≤ 80) :
    (Int32.ofNat n - 1).toInt = ((n - 1 : ℕ) : ℤ) := by
  have hall : ∀ n ≤ 80, 1 ≤ n → (Int32.ofNat n - 1).toInt = ((n - 1 : ℕ) : ℤ) := by decide
  exact hall n hhi hlo

variable (term behind t) in
/-- A character behind `ESC[r;cH` is written in row `r`, and in column `c` or 26. -/
lemma shows_cursor_placed (hrow : 1 ≤ row.value ∧ row.value ≤ 25)
    (hcolumn : 1 ≤ column.value ∧ column.value ≤ 80) (hc : Terminal.Printable c) (hesc : c ≠ 27) :
    ∃ t', Shows term behind (cursorSequence row column ++ [c]) t t' ∧
      ConsoleOp.Acts t.console term ((t.console.logical term).placed (row.value - 1)
        (min 25 (column.value - 1)) c) t'.console := by
  have hx : min 25 ((Int32.ofNat column.value - 1).toInt) =
      ((min 25 (column.value - 1) : ℕ) : ℤ) := by
    rw [toInt_pred hcolumn.1 hcolumn.2]
    push_cast
    rfl
  have hy : min 80 ((Int32.ofNat row.value - 1).toInt) = ((row.value - 1 : ℕ) : ℤ) := by
    rw [toInt_pred hrow.1 (by omega)]
    exact min_eq_right (by omega)
  have hmove := acts_vcursor t.console term ((min 25 (column.value - 1) : ℕ) : ℤ)
    ((row.value - 1 : ℕ) : ℤ)
  have hvx := congrArg Terminal.x hmove.addressed
  have hvy := congrArg Terminal.y hmove.addressed
  have hputc := Terminal.putc_placed hvx hvy (by omega) (by omega) hc
  obtain ⟨s', hs', hacts⟩ := acts_putc hputc
  rw [hmove.addressed] at hacts
  refine ⟨{ t with console := s' }, ?_, acts_trans hmove hacts⟩
  rw [shows_cursor (by omega) (by omega) hesc]
  refine ⟨⟨t.console.vcursor true term ((min 25 (column.value - 1) : ℕ) : ℤ)
    ((row.value - 1 : ℕ) : ℤ), t.bright⟩, ?_, ?_⟩
  · rw [← hx, ← hy]
    rfl
  · rw [ansiExec, hs']
    rfl

/-- **`ESC[r;cH` moves the cursor to its column up to column 26.** -/
lemma movesCursor_iff (hrow : 1 ≤ row.value ∧ row.value ≤ 25)
    (hcolumn : 1 ≤ column.value ∧ column.value ≤ 80) :
    MovesCursor term behind row column t ↔ column.value ≤ 26 := by
  constructor
  · intro hmoves
    have hprintable : Terminal.Printable 'A'.toUInt8 := by
      rw [Terminal.Printable]
      decide
    obtain ⟨t', hshows, hacts⟩ := hmoves _ hprintable (by decide)
    obtain ⟨t'', hshows', hacts'⟩ :=
      shows_cursor_placed term behind t hrow hcolumn hprintable (by decide)
    have hsame : t' = t'' := by
      obtain ⟨events, hevents, hexec⟩ := hshows
      obtain ⟨events', hevents', hexec'⟩ := hshows'
      rw [hevents] at hevents'
      cases hevents'
      exact Except.ok.inj (hexec.symm.trans hexec')
    have hx := congrArg Terminal.x (acts_unique hacts (hsame ▸ hacts'))
    rw [Terminal.placed, Terminal.placed] at hx
    dsimp only at hx
    omega
  · intro h c hc hesc
    have hplaced := shows_cursor_placed term behind t hrow hcolumn hc hesc
    rwa [min_eq_right (by omega)] at hplaced

/-! ### `ESC[J` and `ESC[K` -/

variable {a b a' b' : ℤ} {n m : ℕ}

/-- A sequence that erases one block erases another one where that comes to the same. -/
lemma erases_iff_of_ok (hf : isLetter f = true) (hrun : ansiRun term behind f [] t = .ok t')
    (hacts : ConsoleOp.Acts t.console term { t.console.logical term with
      screen := (t.console.logical term).screen.erase a' b' } t'.console) :
    Erases term behind f a b t ↔
      (t.console.logical term).screen.erase a' b' = (t.console.logical term).screen.erase a b := by
  constructor
  · rintro ⟨t'', hshows, hacts'⟩
    rw [shows_plain hf, hrun] at hshows
    cases hshows
    exact congrArg Terminal.screen (acts_unique hacts hacts')
  · intro hsame
    rw [hsame] at hacts
    exact ⟨t', (shows_plain hf).mpr hrun, hacts⟩

/-- A sequence that leaves the screen erases nothing. -/
lemma not_erases_of_error {e : ConsoleFault} (hf : isLetter f = true)
    (hrun : ansiRun term behind f [] t = .error e) : ¬ Erases term behind f a b t := by
  rintro ⟨t', hshows, -⟩
  rw [shows_plain hf, hrun] at hshows
  cases hshows

/-- `zerro_buf` has zeros. -/
lemma map_zerroBuf (hm : m ≤ screenBytes) :
    (List.range m).map (zerroBuf behind) = List.replicate m 0 := by
  refine List.eq_replicate_iff.mpr ⟨by simp, fun c hc => ?_⟩
  obtain ⟨i, hi, rfl⟩ := List.mem_map.mp hc
  rw [List.mem_range] at hi
  exact if_pos (lt_of_lt_of_le hi hm)

/-- The offset is that of the cell in the column of the cursor and in the row of that number. -/
lemma toNat_cursorOffset (hx : (s.logical term).x = n) (hn : n < 80) :
    (cursorOffset term s).toNat = 162 * n := by
  have hmax : intMax = 2147483647 := rfl
  have hget : s.vcursorGet term = ((n : ℤ), (n : ℤ)) := Prod.ext hx hx
  rw [cursorOffset, hget]
  dsimp only
  rw [int_of_mem (z := n * 80) (by omega) (by omega),
    int_of_mem (z := n * 80 + n) (by omega) (by omega),
    int_of_mem (by omega) (by omega), UInt32.ofInt, UInt32.toNat_ofNat']
  omega

variable (behind) in
/-- A block of zeros is written from the offset of the cursor on. -/
lemma vpoke_zeros (hx : (s.logical term).x = n) (hn : n < 80) (hm : 162 * n + m ≤ screenBytes) :
    ∃ s', s.vpoke term (cursorOffset term s) ((List.range m).map (zerroBuf behind)) = .ok s' ∧
      ConsoleOp.Acts s term { s.logical term with
        screen := (s.logical term).screen.erase (162 * n : ℕ) (162 * n + m : ℕ) } s' := by
  have hoffset := toNat_cursorOffset hx hn
  have hfits : (cursorOffset term s).toNat + m ≤ screenBytes := by
    rw [hoffset]
    exact hm
  have hpoke := (s.logical term).screen.poke_zeros hfits
  rw [hoffset] at hpoke
  rw [map_zerroBuf (by omega)]
  exact acts_vpoke hpoke

variable (behind) in
/-- A block that is too long leaves the screen. -/
lemma vpoke_leaves (hx : (s.logical term).x = n) (hn : n < 80) (hm : m ≠ 0)
    (hlong : screenBytes < 162 * n + m) :
    ∃ e, s.vpoke term (cursorOffset term s) ((List.range m).map (zerroBuf behind)) = .error e := by
  have hoffset := toNat_cursorOffset hx hn
  have hlength : ((List.range m).map (zerroBuf behind)).length = m := by simp
  have hne : (List.range m).map (zerroBuf behind) ≠ [] := fun h =>
    hm (by rw [← hlength, h, List.length_nil])
  have hlong' : screenBytes <
      (cursorOffset term s).toNat + ((List.range m).map (zerroBuf behind)).length := by
    rw [hoffset, hlength]
    exact hlong
  obtain ⟨e, he⟩ := (s.logical term).screen.poke_error hne hlong'
  exact ⟨e, vpoke_error he⟩

/-- A sequence that writes a block of zeros from the offset of the cursor on erases that block if it
is on the screen. -/
lemma erases_iff_of_vpoke (hf : isLetter f = true) (hx : (t.console.logical term).x = n)
    (hn : n < 80)
    (hm : m ≠ 0) (hrun : ansiRun term behind f [] t =
      t.console.vpoke term (cursorOffset term t.console) ((List.range m).map (zerroBuf behind)) >>=
        fun s => .ok ⟨s, t.bright⟩) :
    Erases term behind f a b t ↔ 162 * n + m ≤ screenBytes ∧
      (t.console.logical term).screen.erase (162 * n : ℕ) (162 * n + m : ℕ) =
        (t.console.logical term).screen.erase a b := by
  by_cases hfits : 162 * n + m ≤ screenBytes
  · obtain ⟨s', hs', hacts⟩ := vpoke_zeros behind hx hn hfits
    rw [hs', ok_bind] at hrun
    rw [erases_iff_of_ok hf hrun hacts]
    exact (and_iff_right hfits).symm
  · obtain ⟨e, he⟩ := vpoke_leaves behind hx hn hm (not_le.mp hfits)
    rw [he] at hrun
    exact iff_of_false (not_erases_of_error hf hrun) fun h => hfits h.1

/-- **`ESC[J` erases from the cell whose row is the column of the cursor.** -/
lemma erases_screen_iff (hx : (t.console.logical term).x = n) (hn : n < 80) :
    Erases term behind 'J'.toUInt8 a b t ↔ n ≤ 24 ∧
      (t.console.logical term).screen.erase (162 * n : ℕ) 4000 =
        (t.console.logical term).screen.erase a b := by
  have hsize : screenBytes = 4000 := rfl
  have hrange : (UInt32.ofNat (80 * 25 * 2) - cursorOffset term t.console).toNat =
      if n ≤ 24 then 4000 - 162 * n else 2 ^ 32 + 4000 - 162 * n := by
    have h4000 : (UInt32.ofNat (80 * 25 * 2)).toNat = 4000 := rfl
    rw [UInt32.toNat_sub, toNat_cursorOffset hx hn, h4000]
    split_ifs <;> omega
  have hrun : ansiRun term behind 'J'.toUInt8 [] t = t.console.vpoke term
      (cursorOffset term t.console) ((List.range
        (if n ≤ 24 then 4000 - 162 * n else 2 ^ 32 + 4000 - 162 * n)).map (zerroBuf behind)) >>=
          fun s => .ok ⟨s, t.bright⟩ := by
    rw [← hrange]
    rfl
  rw [erases_iff_of_vpoke (by decide) hx hn (by split_ifs <;> omega) hrun, hsize]
  by_cases h24 : n ≤ 24
  · have hend : 162 * n + (4000 - 162 * n) = 4000 := by omega
    rw [if_pos h24, hend]
    simp only [h24, le_refl, true_and]
    rfl
  · rw [if_neg h24]
    exact iff_of_false (fun h => absurd h.1 (by omega)) fun h => h24 h.1

/-- **`ESC[K` erases 25 cells less the column from there.** -/
lemma erases_line_iff (hx : (t.console.logical term).x = n) (hn : n < 80) :
    Erases term behind 'K'.toUInt8 a b t ↔ n ≤ 25 ∧
      (t.console.logical term).screen.erase (162 * n : ℕ) (160 * n + 50 : ℕ) =
        (t.console.logical term).screen.erase a b := by
  have hsize : screenBytes = 4000 := rfl
  have hmax : intMax = 2147483647 := rfl
  have hrange : (UInt32.ofInt (int (int (25 - (t.console.vcursorGet term).1) * 2))).toNat =
      if n ≤ 25 then 50 - 2 * n else 2 ^ 32 + 50 - 2 * n := by
    have hget : (t.console.vcursorGet term).1 = n := hx
    rw [hget, int_of_mem (z := 25 - n) (by omega) (by omega), int_of_mem (by omega) (by omega),
      UInt32.ofInt, UInt32.toNat_ofNat']
    split_ifs <;> omega
  have hrun : ansiRun term behind 'K'.toUInt8 [] t = t.console.vpoke term
      (cursorOffset term t.console) ((List.range
        (if n ≤ 25 then 50 - 2 * n else 2 ^ 32 + 50 - 2 * n)).map (zerroBuf behind)) >>=
          fun s => .ok ⟨s, t.bright⟩ := by
    rw [← hrange]
    rfl
  by_cases h25 : n = 25
  · -- nothing is written, beyond the end of the screen
    subst h25
    have hempty : (t.console.logical term).screen =
        (t.console.logical term).screen.erase (162 * 25 : ℕ) (160 * 25 + 50 : ℕ) := by
      funext i
      rw [Screen.erase, if_neg (by omega)]
    have hpoke : (t.console.logical term).screen.poke (cursorOffset term t.console) [] =
        .ok (t.console.logical term).screen := rfl
    obtain ⟨s', hs', hacts⟩ := acts_vpoke hpoke
    rw [hempty] at hacts
    have hdone : ansiRun term behind 'K'.toUInt8 [] t = .ok ⟨s', t.bright⟩ := by
      have hvpoke : t.console.vpoke term (cursorOffset term t.console)
          ((List.range (50 - 2 * 25)).map (zerroBuf behind)) = .ok s' := hs'
      rw [hrun, if_pos le_rfl, hvpoke]
      rfl
    rw [erases_iff_of_ok (by decide) hdone hacts]
    exact (and_iff_right le_rfl).symm
  · rw [erases_iff_of_vpoke (by decide) hx hn (by split_ifs <;> omega) hrun, hsize]
    by_cases hlt : n ≤ 25
    · have hend : 162 * n + (50 - 2 * n) = 160 * n + 50 := by omega
      have hle : 160 * n + 50 ≤ 4000 := by omega
      rw [if_pos hlt, hend]
      simp only [hle, hlt, true_and]
    · rw [if_neg hlt]
      exact iff_of_false (fun h => absurd h.1 (by omega)) fun h => hlt h.1

end Runs

/-- **When the sequences act on the right cells.** `ESC[r;cH` moves the cursor to its cell exactly
where `c` is at most 26. With the cursor in column `x` and row `y`, `ESC[J` and `ESC[K` work exactly
where `x` is at most 24 or 25 and every byte is zero already that is only in one of two blocks: the
one they are for, and the one that they erase, which begins in row `x`. -/
theorem ansi_cursor_erase_iff (term : Fin maxVterm) (behind : ℕ → UInt8) (t : AnsiConsole) :
    (∀ row column : DecimalNumber, 1 ≤ row.value ∧ row.value ≤ 25 →
      1 ≤ column.value ∧ column.value ≤ 80 →
        (MovesCursor term behind row column t ↔ column.value ≤ 26)) ∧
    ∀ x < 80, ∀ y < 25, (t.console.logical term).x = (x : ℕ) →
      (t.console.logical term).y = (y : ℕ) →
      (Erases term behind 'J'.toUInt8 (2 * (y * 80 + x)) 4000 t ↔ x ≤ 24 ∧ ∀ i : Fin screenBytes,
        ((162 * x : ℤ) ≤ (i : ℕ) ∧ ((i : ℕ) : ℤ) < 4000 ↔
          (2 * (y * 80 + x) : ℤ) ≤ (i : ℕ) ∧ ((i : ℕ) : ℤ) < 4000) ∨
            (t.console.logical term).screen i = 0) ∧
      (Erases term behind 'K'.toUInt8 (2 * (y * 80 + x)) (2 * ((y + 1) * 80)) t ↔
        x ≤ 25 ∧ ∀ i : Fin screenBytes,
          ((162 * x : ℤ) ≤ (i : ℕ) ∧ ((i : ℕ) : ℤ) < 160 * x + 50 ↔
            (2 * (y * 80 + x) : ℤ) ≤ (i : ℕ) ∧ ((i : ℕ) : ℤ) < 2 * ((y + 1) * 80)) ∨
              (t.console.logical term).screen i = 0) := by
  refine ⟨fun row column hrow hcolumn => movesCursor_iff hrow hcolumn, ?_⟩
  intro x hx y hy hcolumn hrow
  constructor
  · rw [erases_screen_iff hcolumn hx, Screen.erase_eq_iff]
    push_cast
    rfl
  · rw [erases_line_iff hcolumn hx, Screen.erase_eq_iff]
    push_cast
    rfl

/-- A console with blanks in all cells and its cursors in one column and row. -/
def blanksAt (x y : ℤ) : AnsiConsole where
  console := ⟨fun _ => 0x20, fun _ => ⟨x, y, 0x0f, fun _ => 0x20⟩, 0, 0⟩
  bright := false

/-- `ESC[2;2H`, and `ESC[J` in column 3 of row 3. -/
theorem ansi_cursor_erase_diagonal :
    MovesCursor 0 (fun _ => 0xff) decimalTwo decimalTwo (blanksAt 3 3) ∧
      Erases 0 (fun _ => 0xff) 'J'.toUInt8 486 4000 (blanksAt 3 3) := by
  have hall := ansi_cursor_erase_iff 0 (fun _ => 0xff) (blanksAt 3 3)
  refine ⟨(hall.1 decimalTwo decimalTwo (by decide) (by decide)).mpr (by decide), ?_⟩
  exact (hall.2 3 (by norm_num) 3 (by norm_num) rfl rfl).1.mpr ⟨by norm_num, fun i => .inl Iff.rfl⟩

/-- The number 27. -/
def decimalTwentySeven : DecimalNumber where
  base := .decimal
  digits := [50, 55]
  ne_nil := List.cons_ne_nil _ _
  valid := List.forall_mem_cons.mpr
    ⟨⟨2, by decide, rfl⟩, List.forall_mem_singleton.mpr ⟨7, by decide, rfl⟩⟩
  value_lt := by decide
  decimal := rfl
  no_leading_zero := by decide

/-- `ESC[2;27H` moves the cursor to column 26, and in column 1 of row 0 neither `ESC[J` nor `ESC[K`
erases the cell of the cursor. -/
theorem ansi_cursor_erase_fail :
    ¬ (∀ (term : Fin maxVterm) (behind : ℕ → UInt8) (t : AnsiConsole),
      (∀ row column : DecimalNumber, 1 ≤ row.value ∧ row.value ≤ 25 →
        1 ≤ column.value ∧ column.value ≤ 80 → MovesCursor term behind row column t) ∧
      ∀ x < 80, ∀ y < 25, (t.console.logical term).x = (x : ℕ) →
        (t.console.logical term).y = (y : ℕ) →
          Erases term behind 'J'.toUInt8 (2 * (y * 80 + x)) 4000 t ∧
            Erases term behind 'K'.toUInt8 (2 * (y * 80 + x)) (2 * ((y + 1) * 80)) t) ∧
    ¬ MovesCursor 0 (fun _ => 0) decimalTwo decimalTwentySeven (blanksAt 1 0) ∧
    ¬ Erases 0 (fun _ => 0) 'J'.toUInt8 2 4000 (blanksAt 1 0) ∧
    ¬ Erases 0 (fun _ => 0) 'K'.toUInt8 2 160 (blanksAt 1 0) := by
  have hcursor : ¬ MovesCursor 0 (fun _ => 0) decimalTwo decimalTwentySeven (blanksAt 1 0) := by
    rw [movesCursor_iff (by decide) (by decide)]
    decide
  -- the first byte of the cell of the cursor is not erased
  have hbyte : ∀ a b b' : ℤ, 2 < a → 2 < b →
      ((blanksAt 1 0).console.logical 0).screen.erase a b' ≠
        ((blanksAt 1 0).console.logical 0).screen.erase 2 b := by
    intro a b b' ha hb hsame
    have hi := Screen.erase_eq_iff.mp hsame ⟨2, by decide⟩
    rcases hi with hi | hi
    · exact absurd (hi.mpr ⟨le_rfl, hb⟩).1 (not_le.mpr ha)
    · exact absurd hi (by decide)
  have hscreen : ¬ Erases 0 (fun _ => 0) 'J'.toUInt8 2 4000 (blanksAt 1 0) := by
    rw [erases_screen_iff (n := 1) rfl (by norm_num)]
    exact fun h => hbyte _ _ _ (by norm_num) (by norm_num) h.2
  have hline : ¬ Erases 0 (fun _ => 0) 'K'.toUInt8 2 160 (blanksAt 1 0) := by
    rw [erases_line_iff (n := 1) rfl (by norm_num)]
    exact fun h => hbyte _ _ _ (by norm_num) (by norm_num) h.2
  refine ⟨fun hall => ?_, hcursor, hscreen, hline⟩
  exact hscreen ((hall 0 (fun _ => 0) (blanksAt 1 0)).2 1 (by norm_num) 0 (by norm_num) rfl rfl).1

end MicroOS
