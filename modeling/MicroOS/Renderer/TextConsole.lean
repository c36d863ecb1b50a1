import MicroOS.Lib.ByteMem
import MicroOS.Lib.Checked

/-!
The text console of `renderer/text_console.c`, built as `config.h` has it (no
`TEXT_MODE_EMULATION`): the screen is the video memory, `EMU_UPDATE` does nothing, and
`text_console_setcursor` programs the hardware cursor.

* `Screen`: the bytes of one screen, with checked accesses: an index outside is a fault;
* `Terminal`: what `text_console_putc` works on once it has chosen its buffer;
* `TextConsole`: the video memory, the table `text_console_vterms` and the current terminal;
* `scroll_ok`, `clear_ok`: the loops over a whole screen stay inside it;
* `Terminal.putc_iff`: exactly when a character keeps the cursor and the writes on the screen.
-/

namespace MicroOS

open CInt Checked

/-! ### Screens -/

/-- `SCREEN_WIDTH`. -/
def screenWidth : ℕ := 80

/-- `SCREEN_HEIGHT`. -/
def screenHeight : ℕ := 25

/-- The bytes of a screen: a character and a colour for every cell. -/
def screenBytes : ℕ := screenWidth * screenHeight * 2

/-- An access outside the screen. -/
inductive ConsoleFault where
  | offScreen (index : ℤ)
  deriving DecidableEq, Repr

/-- The bytes of a screen. -/
abbrev Screen := Fin screenBytes → UInt8

namespace Screen

/-- `buffer[i]`. -/
def read (s : Screen) (i : ℤ) : Except ConsoleFault UInt8 :=
  if h : 0 ≤ i ∧ i < screenBytes then .ok (s ⟨i.toNat, by omega⟩) else .error (.offScreen i)

/-- `buffer[i] = b`. -/
def write (s : Screen) (i : ℤ) (b : UInt8) : Except ConsoleFault Screen :=
  if h : 0 ≤ i ∧ i < screenBytes then .ok (Function.update s ⟨i.toNat, by omega⟩ b)
  else .error (.offScreen i)

/-- The loops of `text_console_putc` that move every row up and clear the last one. -/
def scroll (s : Screen) : Except ConsoleFault Screen := do
  let s ← (List.range (2 * (screenHeight - 1) * screenWidth)).foldlM (fun (s : Screen) (i : ℕ) => do
    s.write i (← s.read (i + screenWidth * 2))) s
  (List.range (2 * screenWidth)).foldlM
    (fun (s : Screen) (i : ℕ) => s.write (2 * (screenHeight - 1) * screenWidth + i) 0) s

/-- The loop of `text_console_clrscr`. -/
def clear (s : Screen) (color : UInt32) : Except ConsoleFault Screen :=
  (List.range (25 * 80)).foldlM (fun (s : Screen) (i : ℕ) => do
    let s ← s.write (2 * i) ' '.toUInt8
    s.write (2 * i + 1) color.toUInt8) s

/-- `memcpy(&buffer[offset], val, range)`. -/
def poke (s : Screen) (offset : UInt32) (val : List UInt8) : Except ConsoleFault Screen :=
  val.zipIdx.foldlM (fun (s : Screen) (b : UInt8 × ℕ) => s.write (offset.toNat + b.2) b.1) s

/-- `memcpy(val, &buffer[offset], range)`. -/
def peek (s : Screen) (offset range : UInt32) : Except ConsoleFault (List UInt8) :=
  (List.range range.toNat).mapM fun i => s.read (offset.toNat + i)

/-- A read on the screen returns. -/
lemma read_ok (s : Screen) {i : ℤ} (hlo : 0 ≤ i) (hhi : i < screenBytes) :
    ∃ b, s.read i = .ok b := by
  rw [read, dif_pos ⟨hlo, hhi⟩]
  exact ⟨_, rfl⟩

/-- So does a write. -/
lemma write_ok (s : Screen) {i : ℤ} (b : UInt8) (hlo : 0 ≤ i) (hhi : i < screenBytes) :
    ∃ s', s.write i b = .ok s' := by
  rw [write, dif_pos ⟨hlo, hhi⟩]
  exact ⟨_, rfl⟩

lemma write_of_offScreen (s : Screen) {i : ℤ} (b : UInt8) (h : ¬(0 ≤ i ∧ i < screenBytes)) :
    s.write i b = .error (.offScreen i) := by
  rw [write, dif_neg h]

/-- Scrolling stays on the screen. -/
lemma scroll_ok (s : Screen) : ∃ s', s.scroll = .ok s' := by
  have hsize : screenBytes = 4000 := rfl
  obtain ⟨t, ht, -⟩ := foldlM_range_ok (fun _ _ => True) (n := 2 * (screenHeight - 1) * screenWidth)
    (f := fun (s : Screen) (i : ℕ) => do s.write i (← s.read (i + screenWidth * 2))) (s := s)
    (fun i s hi _ => by
      rw [screenHeight, screenWidth] at hi
      obtain ⟨b, hb⟩ := s.read_ok (i := i + screenWidth * 2) (by omega)
        (by rw [hsize, screenWidth]; omega)
      obtain ⟨s', hs'⟩ := s.write_ok (i := i) b (by omega) (by rw [hsize]; omega)
      exact ⟨s', by rw [hb, ok_bind, hs'], trivial⟩) trivial
  obtain ⟨u, hu, -⟩ := foldlM_range_ok (fun _ _ => True) (n := 2 * screenWidth)
    (f := fun (s : Screen) (i : ℕ) => s.write (2 * (screenHeight - 1) * screenWidth + i) 0) (s := t)
    (fun i s hi _ => by
      rw [screenWidth] at hi
      obtain ⟨s', hs'⟩ := s.write_ok (i := 2 * (screenHeight - 1) * screenWidth + i) 0
        (by rw [screenHeight, screenWidth]; omega)
        (by rw [hsize, screenHeight, screenWidth]; omega)
      exact ⟨s', hs', trivial⟩) trivial
  exact ⟨u, by rw [scroll, ht, ok_bind, hu]⟩

/-- Clearing the first cells stays on the screen. -/
lemma clear_cells_ok (s : Screen) (color : UInt32) {n : ℕ} (hn : 2 * n ≤ screenBytes) :
    ∃ s', (List.range n).foldlM (fun (s : Screen) (i : ℕ) => do
      let s ← s.write (2 * i) ' '.toUInt8
      s.write (2 * i + 1) color.toUInt8) s = .ok s' := by
  obtain ⟨t, ht, -⟩ := foldlM_range_ok (fun _ _ => True) (n := n)
    (f := fun (s : Screen) (i : ℕ) => do
      let s ← s.write (2 * i) ' '.toUInt8
      s.write (2 * i + 1) color.toUInt8) (s := s)
    (fun i s hi _ => by
      obtain ⟨s', hs'⟩ := s.write_ok (i := 2 * i) ' '.toUInt8 (by omega) (by omega)
      obtain ⟨s'', hs''⟩ := s'.write_ok (i := 2 * i + 1) color.toUInt8 (by omega) (by omega)
      exact ⟨s'', by rw [hs', ok_bind, hs''], trivial⟩) trivial
  exact ⟨t, ht⟩

lemma clear_ok (s : Screen) (color : UInt32) : ∃ s', s.clear color = .ok s' :=
  s.clear_cells_ok color (by rw [screenBytes, screenWidth, screenHeight])

end Screen

/-! ### One terminal -/

/-- A screen with the cursor and the colour of the terminal it belongs to. -/
structure Terminal where
  screen : Screen
  x : ℤ
  y : ℤ
  color : UInt32

namespace Terminal

/-- Writes a character at the cursor. -/
def plot (v : Terminal) (c : UInt8) : Except ConsoleFault Terminal := do
  let screen ← v.screen.write (2 * (v.y * screenWidth + v.x)) c
  let screen ← screen.write (2 * (v.y * screenWidth + v.x) + 1) v.color.toUInt8
  return { v with screen }

/-- The line wrap: a newline, and any character after the last column. -/
def wrapLine (v : Terminal) (c : UInt8) : Terminal :=
  if c = '\n'.toUInt8 ∨ v.x > screenWidth - 1 then { v with x := 0, y := int (v.y + 1) } else v

/-- The next tab stop. -/
def tab (v : Terminal) : Terminal :=
  if v.x.tmod 4 = 0 then { v with x := v.x + 4 }
  else { v with x := v.x + (4 - v.x.tmod 4) }

/-- `'\b'`: the cursor goes back and a blank is written. -/
def backspace (v : Terminal) : Except ConsoleFault Terminal :=
  if v.x > 0 then { v with x := v.x - 1 }.plot ' '.toUInt8 else v.plot ' '.toUInt8

/-- Scrolls when the cursor is below the last row. -/
def scrollUp (v : Terminal) : Except ConsoleFault Terminal :=
  if v.y > screenHeight - 1 then do
    let screen ← v.screen.scroll
    return { v with screen, y := v.y - 1 }
  else .ok v

/-- `text_console_putc`, once its buffer is chosen. -/
def putc (v : Terminal) (c : UInt8) : Except ConsoleFault Terminal := do
  let v := v.wrapLine c
  if c = '\r'.toUInt8 then
    return { v with x := 0 }
  if c = '\t'.toUInt8 then
    return v.tab
  if c = 8 then
    return ← v.backspace
  let v ← v.scrollUp
  if c = '\n'.toUInt8 then
    return v
  let v ← v.plot c
  return { v with x := v.x + 1 }

/-! ### Characters that stay on the screen -/

/-- The cursor is in a column of the screen or just after the last one. -/
structure InBounds (v : Terminal) : Prop where
  x_nonneg : 0 ≤ v.x
  x_le : v.x ≤ 80
  y_nonneg : 0 ≤ v.y

/-- The characters that are written as they are. -/
def Printable (c : UInt8) : Prop :=
  c ≠ '\r'.toUInt8 ∧ c ≠ '\t'.toUInt8 ∧ c ≠ '\n'.toUInt8 ∧ c ≠ 8

/-- The row after the line wrap. -/
def nextRow (v : Terminal) (c : UInt8) : ℤ :=
  if c = '\n'.toUInt8 ∨ v.x > screenWidth - 1 then v.y + 1 else v.y

/-- The character is written on the screen: a backspace on one of its rows, a printable character
at most one row below, where scrolling brings it back; and the row fits an `int`. -/
structure Fits (v : Terminal) (c : UInt8) : Prop where
  row : v.nextRow c ≤ intMax
  backspace : c = 8 → v.nextRow c < screenHeight
  printable : Printable c → v.nextRow c ≤ screenHeight

variable {v : Terminal} {c : UInt8}

/-- The column after the line wrap. -/
lemma wrapLine_x (hv : v.InBounds) (c : UInt8) : 0 ≤ (v.wrapLine c).x ∧ (v.wrapLine c).x < 80 := by
  obtain ⟨hx, -, -⟩ := hv
  rw [wrapLine]
  split_ifs with h
  · exact ⟨le_refl _, by norm_num⟩
  · rw [not_or, screenWidth] at h
    exact ⟨hx, by omega⟩

/-- The row after the line wrap is the next row, or the smallest `int` when that does not fit. -/
lemma wrapLine_y (hv : v.InBounds) (hy : v.y ≤ intMax) (c : UInt8) :
    (v.nextRow c ≤ intMax ∧ (v.wrapLine c).y = v.nextRow c)
      ∨ (intMax < v.nextRow c ∧ (v.wrapLine c).y < 0) := by
  have hnonneg := hv.y_nonneg
  rw [wrapLine, nextRow]
  split_ifs with h
  · rcases eq_or_ne v.y intMax with heq | hne
    · right
      rw [heq, int_succ_intMax]
      exact ⟨by omega, by norm_num⟩
    · left
      have hle : v.y + 1 ≤ intMax := by omega
      exact ⟨hle, int_of_mem (by omega) hle⟩
  · exact .inl ⟨hy, rfl⟩

/-- A character is written exactly on a row of the screen. -/
lemma plot_iff (hx : 0 ≤ v.x ∧ v.x < 80) (c : UInt8) :
    (∃ w, v.plot c = .ok w) ↔ 0 ≤ v.y ∧ v.y < screenHeight := by
  have hsize : screenBytes = 4000 := rfl
  have hwidth : screenWidth = 80 := rfl
  have hheight : screenHeight = 25 := rfl
  constructor
  · rintro ⟨w, hw⟩
    rw [plot, bind_eq_ok] at hw
    obtain ⟨s, hs, -⟩ := hw
    by_contra hout
    rw [Screen.write_of_offScreen _ _ (by rw [hsize, hwidth]; omega)] at hs
    exact absurd hs (by simp)
  · rintro ⟨hlo, hhi⟩
    obtain ⟨s, hs⟩ := v.screen.write_ok (i := 2 * (v.y * screenWidth + v.x)) c
      (by rw [hwidth]; omega) (by rw [hsize, hwidth]; omega)
    obtain ⟨s', hs'⟩ := s.write_ok (i := 2 * (v.y * screenWidth + v.x) + 1) v.color.toUInt8
      (by rw [hwidth]; omega) (by rw [hsize, hwidth]; omega)
    exact ⟨{ v with screen := s' }, by rw [plot, hs, ok_bind, hs', ok_bind]; rfl⟩

/-- Writing moves nothing. -/
lemma plot_cursor {w : Terminal} (h : v.plot c = .ok w) : w.x = v.x ∧ w.y = v.y := by
  rw [plot, bind_eq_ok] at h
  obtain ⟨s, -, h⟩ := h
  rw [bind_eq_ok] at h
  obtain ⟨s', -, h⟩ := h
  obtain rfl := Except.ok.inj h
  exact ⟨rfl, rfl⟩

lemma putc_return (v : Terminal) :
    v.putc '\r'.toUInt8 = .ok { v.wrapLine '\r'.toUInt8 with x := 0 } := rfl

lemma putc_tab (v : Terminal) : v.putc '\t'.toUInt8 = .ok (v.wrapLine '\t'.toUInt8).tab := rfl

lemma putc_backspace (v : Terminal) : v.putc 8 = (v.wrapLine 8).backspace := by
  rw [putc, if_neg (by decide), if_neg (by decide), if_pos rfl]

/-- A newline goes to the next line. -/
lemma putc_newline (v : Terminal) :
    v.putc '\n'.toUInt8 = (v.wrapLine '\n'.toUInt8).scrollUp := by
  rw [putc, if_neg (by decide), if_neg (by decide), if_neg (by decide)]
  cases (v.wrapLine '\n'.toUInt8).scrollUp <;> rfl

/-- Any other character is plotted, and the cursor goes on. -/
lemma putc_printable (v : Terminal) (hc : Printable c) :
    v.putc c = do
      let v ← (v.wrapLine c).scrollUp
      let v ← v.plot c
      return { v with x := v.x + 1 } := by
  obtain ⟨hr, ht, hn, hb⟩ := hc
  rw [putc, if_neg hr, if_neg ht, if_neg hb]
  cases h : (v.wrapLine c).scrollUp with
  | error e => rfl
  | ok w => exact if_neg hn

/-- Scrolling takes one row off a cursor below the screen. -/
lemma scrollUp_ok (v : Terminal) : ∃ w, v.scrollUp = .ok w ∧ w.x = v.x
    ∧ w.y = if v.y > screenHeight - 1 then v.y - 1 else v.y := by
  rw [scrollUp]
  split_ifs with h
  · obtain ⟨s, hs⟩ := v.screen.scroll_ok
    exact ⟨{ v with screen := s, y := v.y - 1 }, by rw [hs]; rfl, rfl, rfl⟩
  · exact ⟨v, rfl, rfl, rfl⟩

/-- A backspace is written exactly on a row of the screen. -/
lemma backspace_iff (hx : 0 ≤ v.x ∧ v.x < 80) :
    (∃ w, v.backspace = .ok w) ↔ 0 ≤ v.y ∧ v.y < screenHeight := by
  rw [backspace]
  split_ifs with h
  · exact plot_iff (v := { v with x := v.x - 1 }) ⟨by dsimp only; omega, by dsimp only; omega⟩ _
  · exact plot_iff hx _

/-- A backspace stays in its line. -/
lemma backspace_cursor (hx : 0 ≤ v.x ∧ v.x < 80) {w : Terminal} (h : v.backspace = .ok w) :
    (0 ≤ w.x ∧ w.x < 80) ∧ w.y = v.y := by
  rw [backspace] at h
  split_ifs at h with h0
  · obtain ⟨hwx, hwy⟩ := plot_cursor h
    dsimp only at hwx hwy
    exact ⟨⟨by omega, by omega⟩, hwy⟩
  · obtain ⟨hwx, hwy⟩ := plot_cursor h
    exact ⟨hwx ▸ hx, hwy⟩

/-- The next tab stop is in a column of the screen or just after the last one. -/
lemma tab_bounds (hx : 0 ≤ v.x ∧ v.x < 80) : (0 ≤ v.tab.x ∧ v.tab.x ≤ 80) ∧ v.tab.y = v.y := by
  obtain ⟨hlo, hhi⟩ := hx
  have hmod : v.x.tmod 4 = v.x % 4 := Int.tmod_eq_emod_of_nonneg hlo
  rw [tab, hmod]
  split_ifs with h
  · exact ⟨⟨by dsimp only; omega, by dsimp only; omega⟩, rfl⟩
  · exact ⟨⟨by dsimp only; omega, by dsimp only; omega⟩, rfl⟩

/-- The row after the line wrap is a row, or does not fit an `int`. -/
lemma nextRow_nonneg (hv : v.InBounds) (c : UInt8) : 0 ≤ v.nextRow c := by
  have hnonneg := hv.y_nonneg
  rw [nextRow]
  split_ifs <;> omega

/-- A carriage return or a tab moves the cursor within a row that fits. -/
lemma move_iff (hv : v.InBounds) (hy : v.y ≤ intMax) (hb : c ≠ 8) (hp : ¬Printable c)
    {w : Terminal} (hw : v.putc c = .ok w) (hx : 0 ≤ w.x ∧ w.x ≤ 80)
    (hrow : w.y = (v.wrapLine c).y) :
    (∃ w, v.putc c = .ok w ∧ w.InBounds) ↔ v.Fits c := by
  have hwrap := wrapLine_y hv hy c
  have hpos := nextRow_nonneg hv c
  constructor
  · rintro ⟨u, hu, hbounds⟩
    obtain rfl := Except.ok.inj (hw.symm.trans hu)
    have hlo := hbounds.y_nonneg
    exact ⟨by omega, fun h => absurd h hb, fun h => absurd h hp⟩
  · intro h
    have hrow' := h.row
    exact ⟨w, hw, hx.1, hx.2, by omega⟩

/-- A backspace stays in bounds just where it fits. -/
lemma backspace_fits (hv : v.InBounds) (hy : v.y ≤ intMax) :
    (∃ w, v.putc 8 = .ok w ∧ w.InBounds) ↔ v.Fits 8 := by
  have hheight : (screenHeight : ℤ) = 25 := rfl
  have hmax : intMax = 2147483647 := rfl
  have hx := wrapLine_x hv 8
  have hwrap := wrapLine_y hv hy 8
  have hpos := nextRow_nonneg hv 8
  rw [putc_backspace]
  constructor
  · rintro ⟨w, hw, -⟩
    have hplot := (backspace_iff hx).mp ⟨w, hw⟩
    exact ⟨by omega, fun _ => by omega, fun h => absurd rfl h.2.2.2⟩
  · intro h
    have hrow := h.backspace rfl
    obtain ⟨w, hw⟩ := (backspace_iff hx).mpr ⟨by omega, by omega⟩
    obtain ⟨⟨hlo, hhi⟩, hwy⟩ := backspace_cursor hx hw
    exact ⟨w, hw, hlo, by omega, by rw [hwy]; omega⟩

/-- So does a newline. -/
lemma newline_fits (hv : v.InBounds) (hy : v.y ≤ intMax) :
    (∃ w, v.putc '\n'.toUInt8 = .ok w ∧ w.InBounds) ↔ v.Fits '\n'.toUInt8 := by
  have hheight : (screenHeight : ℤ) = 25 := rfl
  have hx := wrapLine_x hv '\n'.toUInt8
  have hwrap := wrapLine_y hv hy '\n'.toUInt8
  have hpos := nextRow_nonneg hv '\n'.toUInt8
  obtain ⟨u, hu, hux, huy⟩ := scrollUp_ok (v.wrapLine '\n'.toUInt8)
  rw [putc_newline, hu]
  constructor
  · rintro ⟨w, hw, hbounds⟩
    obtain rfl := Except.ok.inj hw
    have hlo := hbounds.y_nonneg
    refine ⟨?_, fun h => absurd h (by decide), fun h => absurd rfl h.2.2.1⟩
    rw [huy] at hlo
    split_ifs at hlo <;> omega
  · intro h
    have hrow := h.row
    refine ⟨u, rfl, by omega, by omega, ?_⟩
    rw [huy]
    split_ifs <;> omega

/-- So does any other character. -/
lemma printable_fits (hv : v.InBounds) (hy : v.y ≤ intMax) (hc : Printable c) :
    (∃ w, v.putc c = .ok w ∧ w.InBounds) ↔ v.Fits c := by
  have hheight : (screenHeight : ℤ) = 25 := rfl
  have hmax : intMax = 2147483647 := rfl
  have hx := wrapLine_x hv c
  have hwrap := wrapLine_y hv hy c
  have hpos := nextRow_nonneg hv c
  obtain ⟨u, hu, hux, huy⟩ := scrollUp_ok (v.wrapLine c)
  have hplot := plot_iff (v := u) ⟨by omega, by omega⟩ c
  rw [putc_printable v hc, hu, ok_bind]
  constructor
  · rintro ⟨w, hw, -⟩
    rw [bind_eq_ok] at hw
    obtain ⟨w', hw', -⟩ := hw
    have hw' := hplot.mp ⟨w', hw'⟩
    rw [huy] at hw'
    refine ⟨?_, fun h => absurd h hc.2.2.2, fun _ => ?_⟩ <;> split_ifs at hw' <;> omega
  · intro h
    have hrow := h.printable hc
    obtain ⟨w, hw⟩ := hplot.mpr (by rw [huy]; split_ifs <;> omega)
    obtain ⟨hwx, hwy⟩ := plot_cursor hw
    have hw' : (u.plot c >>= fun v => pure { v with x := v.x + 1 }) =
      .ok { w with x := w.x + 1 } := by
      rw [hw]
      rfl
    refine ⟨{ w with x := w.x + 1 }, hw', ?_, ?_, ?_⟩ <;> dsimp only
    · omega
    · omega
    · rw [hwy, huy]
      split_ifs <;> omega

/-- **One character.** It keeps its writes on the screen and the cursor in its bounds exactly when
it fits. -/
lemma putc_iff (hv : v.InBounds) (hy : v.y ≤ intMax) (c : UInt8) :
    (∃ w, v.putc c = .ok w ∧ w.InBounds) ↔ v.Fits c := by
  have hx := wrapLine_x hv c
  by_cases hr : c = '\r'.toUInt8
  · subst hr
    exact move_iff hv hy (by decide) (fun h => h.1 rfl) (putc_return v) ⟨le_refl _, by norm_num⟩ rfl
  by_cases ht : c = '\t'.toUInt8
  · subst ht
    obtain ⟨hbounds, hrow⟩ := tab_bounds hx
    exact move_iff hv hy (by decide) (fun h => h.2.1 rfl) (putc_tab v) hbounds hrow
  by_cases hb : c = 8
  · subst hb
    exact backspace_fits hv hy
  by_cases hn : c = '\n'.toUInt8
  · subst hn
    exact newline_fits hv hy
  · exact printable_fits hv hy ⟨hr, ht, hn, hb⟩

/-- No character moves the cursor below the row after the line wrap. -/
lemma putc_row (hx : 0 ≤ (v.wrapLine c).x ∧ (v.wrapLine c).x < 80) {w : Terminal}
    (h : v.putc c = .ok w) : w.y ≤ (v.wrapLine c).y := by
  obtain ⟨u, hu, -, huy⟩ := scrollUp_ok (v.wrapLine c)
  have hrow : u.y ≤ (v.wrapLine c).y := by
    rw [huy]
    split_ifs <;> omega
  by_cases hr : c = '\r'.toUInt8
  · subst hr
    obtain rfl := Except.ok.inj ((putc_return v).symm.trans h)
    exact le_refl _
  by_cases ht : c = '\t'.toUInt8
  · subst ht
    obtain rfl := Except.ok.inj ((putc_tab v).symm.trans h)
    exact (tab_bounds hx).2.le
  by_cases hb : c = 8
  · subst hb
    exact (backspace_cursor hx ((putc_backspace v).symm.trans h)).2.le
  by_cases hn : c = '\n'.toUInt8
  · subst hn
    obtain rfl := Except.ok.inj (hu.symm.trans ((putc_newline v).symm.trans h))
    exact hrow
  · rw [putc_printable v ⟨hr, ht, hn, hb⟩, hu, ok_bind, bind_eq_ok] at h
    obtain ⟨w', hw', h⟩ := h
    obtain rfl := Except.ok.inj h
    exact (plot_cursor hw').2.le.trans hrow

/-- The row stays an `int`. -/
lemma putc_y_le (hv : v.InBounds) (hy : v.y ≤ intMax) {w : Terminal} (h : v.putc c = .ok w) :
    w.y ≤ intMax := by
  have hrow := putc_row (wrapLine_x hv c) h
  have hmax : intMax = 2147483647 := rfl
  rcases wrapLine_y hv hy c with ⟨_, _⟩ | ⟨_, _⟩ <;> omega

/-! ### Strings that stay on the screen -/

/-- Every call of a sequence writes on the screen and leaves the cursor in its bounds. -/
def StaysInBounds (v : Terminal) (cs : List UInt8) : Prop :=
  ∀ l r, cs = l ++ r → ∃ w, l.foldlM putc v = .ok w ∧ w.InBounds

/-- Every character of a sequence fits when its turn comes. -/
def AllFit (v : Terminal) (cs : List UInt8) : Prop :=
  ∀ l c r, cs = l ++ c :: r → ∀ w, l.foldlM putc v = .ok w → w.Fits c

/-- The terminal stays in bounds before and behind the first character. -/
lemma staysInBounds_cons (v : Terminal) (c : UInt8) (cs : List UInt8) :
    v.StaysInBounds (c :: cs) ↔ v.InBounds ∧ ∃ w, v.putc c = .ok w ∧ w.StaysInBounds cs := by
  constructor
  · intro h
    obtain ⟨u, hu, hbounds⟩ := h [] (c :: cs) rfl
    obtain rfl := Except.ok.inj hu
    obtain ⟨w, hw, -⟩ := h [c] cs rfl
    rw [List.foldlM_cons, bind_eq_ok] at hw
    obtain ⟨w', hw', -⟩ := hw
    refine ⟨hbounds, w', hw', fun l r hlr => ?_⟩
    obtain ⟨x, hx, hxb⟩ := h (c :: l) r (by rw [hlr, List.cons_append])
    rw [List.foldlM_cons, hw', ok_bind] at hx
    exact ⟨x, hx, hxb⟩
  · rintro ⟨hbounds, w, hw, h⟩ l r hlr
    cases l with
    | nil => exact ⟨v, rfl, hbounds⟩
    | cons d l =>
      rw [List.cons_append, List.cons.injEq] at hlr
      obtain ⟨rfl, hlr⟩ := hlr
      rw [List.foldlM_cons, hw, ok_bind]
      exact h l r hlr

/-- The first character fits, and the others do behind it. -/
lemma allFit_cons (v : Terminal) (c : UInt8) (cs : List UInt8) :
    v.AllFit (c :: cs) ↔ v.Fits c ∧ ∀ w, v.putc c = .ok w → w.AllFit cs := by
  constructor
  · refine fun h => ⟨h [] c cs rfl v rfl, fun w hw l d r hlr x hx => ?_⟩
    exact h (c :: l) d r (by rw [hlr, List.cons_append]) x (by rw [List.foldlM_cons, hw]; exact hx)
  · rintro ⟨hfit, h⟩ l d r hlr x hx
    cases l with
    | nil =>
      rw [List.nil_append, List.cons.injEq] at hlr
      obtain rfl := Except.ok.inj hx
      exact hlr.1 ▸ hfit
    | cons e l =>
      rw [List.cons_append, List.cons.injEq] at hlr
      obtain ⟨rfl, hlr⟩ := hlr
      rw [List.foldlM_cons, bind_eq_ok] at hx
      obtain ⟨w, hw, hx⟩ := hx
      exact h w hw l d r hlr x hx

/-- **A string.** All its calls stay on the screen exactly when all its characters fit. -/
lemma staysInBounds_iff (hv : v.InBounds) (hy : v.y ≤ intMax) (cs : List UInt8) :
    v.StaysInBounds cs ↔ v.AllFit cs := by
  induction cs generalizing v with
  | nil =>
    constructor
    · intro _ l c r h
      exact absurd h (by simp)
    · intro _ l r h
      obtain ⟨rfl, rfl⟩ := List.nil_eq_append_iff.mp h
      exact ⟨v, rfl, hv⟩
  | cons c cs ih =>
    rw [staysInBounds_cons, allFit_cons]
    constructor
    · rintro ⟨-, w, hw, h⟩
      obtain ⟨u, hu, hb⟩ := h [] cs rfl
      obtain rfl := Except.ok.inj hu
      refine ⟨(putc_iff hv hy c).mp ⟨w, hw, hb⟩, fun w' hw' => ?_⟩
      obtain rfl := Except.ok.inj (hw.symm.trans hw')
      exact (ih hb (putc_y_le hv hy hw)).mp h
    · rintro ⟨hfit, h⟩
      obtain ⟨w, hw, hb⟩ := (putc_iff hv hy c).mpr hfit
      exact ⟨hv, w, hw, (ih hb (putc_y_le hv hy hw)).mpr (h w hw)⟩

end Terminal

end MicroOS
