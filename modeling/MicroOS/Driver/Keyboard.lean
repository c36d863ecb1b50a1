import MicroOS.Lib.Run

/-!
The keyboard: `driver/input/ps2_keyboard.c` and `keymap` of `driver/char_input_driver.c`.

* `ps2KeyboardInterruptHandler`: what the driver does with a byte;
* `Key`, `Key.make`, `Key.break_`: the keys of scancode set 1 and the bytes they send;
* `Followed`: the driver follows the keys in a step;
* `keyboard_follows_iff`: the runs of presses and releases in which it does.

The handler takes the make code of Caps Lock for the first half of its break code. A byte in between
is lost, and so is every second repeat.

The function keys are handed on to the terminals; only that they are is recorded. The flags that
nothing sets (`left_gui`, `right_gui`, `num_lock`, `scroll_lock`) are left out.
-/

namespace MicroOS

open Run

/-! ### The driver -/

/-- `special_keys_down_t`. -/
structure SpecialKeysDown where
  leftShift : Bool
  leftCtrl : Bool
  leftAlt : Bool
  rightShift : Bool
  rightCtrl : Bool
  rightAlt : Bool
  capsLock : Bool
  upArrow : Bool
  downArrow : Bool
  leftArrow : Bool
  rightArrow : Bool
  deriving DecidableEq

/-- The layouts of a `keymap_t`. -/
structure Keymap where
  layoutNormal : UInt8 → UInt8
  layoutShift : UInt8 → UInt8
  layoutAlt : UInt8 → UInt8

/-- `keymap`. -/
def keymap (loadedKeymap : Option Keymap) (key : UInt8) (down : SpecialKeysDown) : UInt8 :=
  match loadedKeymap with
  | none => 0
  | some current =>
    let shift := down.leftShift || down.rightShift
    let alt := down.leftAlt || down.rightAlt
    if down.capsLock then
      if shift then current.layoutNormal key else current.layoutShift key
    else if shift then current.layoutShift key
    else if alt then current.layoutAlt key
    else current.layoutNormal key

/-- The data of the driver, and what it was called with: `keymap` with a key and the flags,
`global_fkey_handler` with a number and whether the key went up. -/
structure Keyboard where
  kbdChar : UInt8
  kbdArrw : UInt8
  specialKeyNext : Bool
  specialCode : UInt8
  down : SpecialKeysDown
  keymapCalls : List (UInt8 × SpecialKeysDown)
  fkeyCalls : List (UInt8 × Bool)
  deriving DecidableEq

namespace Keyboard

/-- The data that `get_ps2_driver` fills with zeros. -/
def init : Keyboard where
  kbdChar := 0
  kbdArrw := 0
  specialKeyNext := false
  specialCode := 0
  down := ⟨false, false, false, false, false, false, false, false, false, false, false⟩
  keymapCalls := []
  fkeyCalls := []

/-- The byte after 0xE0. -/
def extendedByte (kbd : Keyboard) (key : UInt8) : Keyboard :=
  match key with
  | 0x38 => { kbd with down := { kbd.down with rightAlt := true } }
  | 0xB8 => { kbd with down := { kbd.down with rightAlt := false } }
  | 0x1D => { kbd with down := { kbd.down with rightCtrl := true } }
  | 0x9D => { kbd with down := { kbd.down with rightCtrl := false } }
  | 0x48 => { kbd with kbdArrw := 1, down := { kbd.down with upArrow := true } }
  | 0xC8 => { kbd with down := { kbd.down with upArrow := false } }
  | 0x50 => { kbd with kbdArrw := 2, down := { kbd.down with downArrow := true } }
  | 0xD0 => { kbd with down := { kbd.down with downArrow := false } }
  | 0x4B => { kbd with kbdArrw := 3, down := { kbd.down with leftArrow := true } }
  | 0xCB => { kbd with down := { kbd.down with leftArrow := false } }
  | 0x4D => { kbd with kbdArrw := 4, down := { kbd.down with rightArrow := true } }
  | 0xCD => { kbd with down := { kbd.down with rightArrow := false } }
  | _ => kbd

/-- The byte after 0x3A. -/
def capsByte (kbd : Keyboard) (key : UInt8) : Keyboard :=
  match key with
  | 0xBA => { kbd with down := { kbd.down with capsLock := !kbd.down.capsLock } }
  | _ => kbd

/-- The calls of `global_fkey_handler` for a byte. -/
def fkeys (key : UInt8) : List (UInt8 × Bool) :=
  (if 0x3B ≤ key ∧ key ≤ 0x44 then [(key - 0x3A, false)] else []) ++
  (if 0x57 ≤ key ∧ key ≤ 0x58 then [(key - 0x4C, false)] else []) ++
  (if 0xBB ≤ key ∧ key ≤ 0xC4 then [(key - 0xBA, true)] else []) ++
  (if 0xD7 ≤ key ∧ key ≤ 0xD8 then [(key - 0xCC, true)] else [])

/-- The default branch. -/
def charByte (loadedKeymap : Option Keymap) (kbd : Keyboard) (key : UInt8) : Keyboard :=
  { kbd with
    fkeyCalls := kbd.fkeyCalls ++ fkeys key
    keymapCalls := kbd.keymapCalls ++ [(key, kbd.down)]
    kbdChar := keymap loadedKeymap key kbd.down }

/-- A byte that comes without a prefix. -/
def plainByte (loadedKeymap : Option Keymap) (kbd : Keyboard) (key : UInt8) : Keyboard :=
  match key with
  | 0xE0 | 0x3A => { kbd with specialKeyNext := true, specialCode := key }
  | 0x38 => { kbd with down := { kbd.down with leftAlt := true } }
  | 0xB8 => { kbd with down := { kbd.down with leftAlt := false } }
  | 0x1D => { kbd with down := { kbd.down with leftCtrl := true } }
  | 0x9D => { kbd with down := { kbd.down with leftCtrl := false } }
  | 0x2A => { kbd with down := { kbd.down with leftShift := true } }
  | 0xAA => { kbd with down := { kbd.down with leftShift := false } }
  | 0x36 => { kbd with down := { kbd.down with rightShift := true } }
  | 0xB6 => { kbd with down := { kbd.down with rightShift := false } }
  | _ => charByte loadedKeymap kbd key

/-- The byte after a prefix. -/
def prefixedByte (kbd : Keyboard) (key : UInt8) : Keyboard :=
  match kbd.specialCode with
  | 0xE0 => kbd.extendedByte key
  | 0x3A => kbd.capsByte key
  | _ => kbd

/-- `ps2_keyboard_interrupt_handler` for the byte that it reads. -/
def ps2KeyboardInterruptHandler (loadedKeymap : Option Keymap) (kbd : Keyboard) (key : UInt8) :
    Keyboard :=
  if kbd.specialKeyNext then { kbd.prefixedByte key with specialKeyNext := false }
  else kbd.plainByte loadedKeymap key

/-- The bytes of a key, one interrupt after the other. -/
def feed (loadedKeymap : Option Keymap) (kbd : Keyboard) (bytes : List UInt8) : Keyboard :=
  bytes.foldl (ps2KeyboardInterruptHandler loadedKeymap) kbd

end Keyboard

/-! ### Keys -/

/-- The keys that are held to change another. -/
inductive Modifier where
  | leftShift
  | rightShift
  | leftAlt
  | rightAlt
  | leftCtrl
  | rightCtrl
  deriving DecidableEq

/-- The arrow keys. -/
inductive Arrow where
  | up
  | down
  | left
  | right
  deriving DecidableEq

/-- A make code of one byte, of a key that is no modifier. -/
def IsPlainCode (c : UInt8) : Prop :=
  0 < c ∧ c ≤ 0x58 ∧ c ∉ ([0x1D, 0x2A, 0x36, 0x38, 0x3A] : List UInt8)

/-- The second byte of a make code with 0xE0, of a key that is neither a modifier nor an arrow. -/
def IsExtendedCode (c : UInt8) : Prop :=
  0 < c ∧ c < 0x80 ∧
    c ∉ ([0x1D, 0x2A, 0x36, 0x37, 0x38, 0x3A, 0x48, 0x4B, 0x4D, 0x50, 0x60] : List UInt8)

instance (c : UInt8) : Decidable (IsPlainCode c) := inferInstanceAs (Decidable (_ ∧ _ ∧ _))

instance (c : UInt8) : Decidable (IsExtendedCode c) := inferInstanceAs (Decidable (_ ∧ _ ∧ _))

/-- The keys of scancode set 1. -/
inductive Key where
  | capsLock
  | modifier (m : Modifier)
  | arrow (a : Arrow)
  | plain (c : {c : UInt8 // IsPlainCode c})
  | extended (c : {c : UInt8 // IsExtendedCode c})
  | printScreen
  | pause
  deriving DecidableEq

/-- The prefix and the make code of a modifier. -/
def Modifier.code : Modifier → List UInt8 × UInt8
  | leftShift => ([], 0x2A)
  | rightShift => ([], 0x36)
  | leftAlt => ([], 0x38)
  | rightAlt => ([0xE0], 0x38)
  | leftCtrl => ([], 0x1D)
  | rightCtrl => ([0xE0], 0x1D)

/-- The make code of an arrow, behind 0xE0. -/
def Arrow.code : Arrow → UInt8
  | up => 0x48
  | down => 0x50
  | left => 0x4B
  | right => 0x4D

namespace Key

/-- What a key sends when it is pressed, and again while it is held. -/
def make : Key → List UInt8
  | capsLock => [0x3A]
  | modifier m => m.code.1 ++ [m.code.2]
  | arrow a => [0xE0, a.code]
  | plain c => [c.1]
  | extended c => [0xE0, c.1]
  | printScreen => [0xE0, 0x2A, 0xE0, 0x37]
  | pause => [0xE1, 0x1D, 0x45, 0xE1, 0x9D, 0xC5]

/-- What a key sends when it is released. -/
def break_ : Key → List UInt8
  | capsLock => [0xBA]
  | modifier m => m.code.1 ++ [m.code.2 ||| 0x80]
  | arrow a => [0xE0, a.code ||| 0x80]
  | plain c => [c.1 ||| 0x80]
  | extended c => [0xE0, c.1 ||| 0x80]
  | printScreen => [0xE0, 0xB7, 0xE0, 0xAA]
  | pause => []

/-- The make code, without its prefixes, of a key that is neither a modifier nor an arrow. -/
def codes : Key → List UInt8
  | capsLock => []
  | modifier _ => []
  | arrow _ => []
  | plain c => [c.1]
  | extended c => [c.1]
  | printScreen => [0x2A, 0x37]
  | pause => [0x1D, 0x45, 0x9D, 0xC5]

end Key

/-- A key goes down, or is repeated, or goes up. -/
inductive KeyEvent where
  | press (k : Key)
  | release (k : Key)

/-- What a key sends in an event. -/
def KeyEvent.bytes : KeyEvent → List UInt8
  | press k => k.make
  | release k => k.break_

/-- What has to be passed to `keymap` in an event. -/
def KeyEvent.codes : KeyEvent → List UInt8
  | press k => k.codes
  | release _ => []

/-- The keys that are held, and how often Caps Lock was pressed and released. -/
structure Keys where
  held : Key → Bool
  capsPresses : ℕ

namespace Keys

/-- At the start no key is down, and Caps Lock has not been pressed. -/
def init : Keys := ⟨fun _ => false, 0⟩

/-- The keys after an event: a key that is pressed is down until it is released, and Caps Lock
counts how often it was released. -/
def after (keys : Keys) : KeyEvent → Keys
  | .press k => { keys with held := Function.update keys.held k true }
  | .release k =>
    { held := Function.update keys.held k false
      capsPresses := if k = .capsLock then keys.capsPresses + 1 else keys.capsPresses }

end Keys

/-! ### Following the keys -/

namespace SpecialKeysDown

/-- The flag of a modifier. -/
def modifier (down : SpecialKeysDown) : Modifier → Bool
  | .leftShift => down.leftShift
  | .rightShift => down.rightShift
  | .leftAlt => down.leftAlt
  | .rightAlt => down.rightAlt
  | .leftCtrl => down.leftCtrl
  | .rightCtrl => down.rightCtrl

/-- The flag of a modifier is set or cleared. -/
def setModifier (down : SpecialKeysDown) (m : Modifier) (b : Bool) : SpecialKeysDown :=
  match m with
  | .leftShift => { down with leftShift := b }
  | .rightShift => { down with rightShift := b }
  | .leftAlt => { down with leftAlt := b }
  | .rightAlt => { down with rightAlt := b }
  | .leftCtrl => { down with leftCtrl := b }
  | .rightCtrl => { down with rightCtrl := b }

/-- The flag of an arrow is set or cleared. -/
def setArrow (down : SpecialKeysDown) (a : Arrow) (b : Bool) : SpecialKeysDown :=
  match a with
  | .up => { down with upArrow := b }
  | .down => { down with downArrow := b }
  | .left => { down with leftArrow := b }
  | .right => { down with rightArrow := b }

variable (down : SpecialKeysDown) (m m' : Modifier) (a : Arrow) (b : Bool)

/-- One modifier is set, and the others stay. -/
@[simp] lemma modifier_setModifier :
    (down.setModifier m b).modifier m' = if m' = m then b else down.modifier m' := by
  cases m <;> cases m' <;> rfl

@[simp] lemma capsLock_setModifier : (down.setModifier m b).capsLock = down.capsLock := by
  cases m <;> rfl

@[simp] lemma modifier_setArrow : (down.setArrow a b).modifier m = down.modifier m := by
  cases a <;> cases m <;> rfl

@[simp] lemma capsLock_setArrow : (down.setArrow a b).capsLock = down.capsLock := by
  cases a <;> rfl

end SpecialKeysDown

/-- The modifier with the same code and no prefix. -/
def Modifier.single : Modifier → Modifier
  | rightAlt => leftAlt
  | rightCtrl => leftCtrl
  | m => m

/-- The driver and the keys. -/
structure KeyboardRun where
  kbd : Keyboard
  keys : Keys

namespace KeyboardRun

/-- The handler and the keys at the start. -/
def init : KeyboardRun := ⟨.init, .init⟩

/-- An event happens, and its bytes are read. -/
def step (loadedKeymap : Option Keymap) (st : KeyboardRun) (e : KeyEvent) : KeyboardRun :=
  ⟨st.kbd.feed loadedKeymap e.bytes, st.keys.after e⟩

/-- A key that goes up was held. -/
def Legal (st : KeyboardRun) : KeyEvent → Prop
  | .press _ => True
  | .release k => st.keys.held k = true

/-- Caps Lock is on after an odd number of presses, and the flags of the modifiers are set while
they are held. -/
structure FollowsKeys (st : KeyboardRun) : Prop where
  capsLock : st.kbd.down.capsLock = decide (st.keys.capsPresses % 2 = 1)
  modifier : ∀ m, st.kbd.down.modifier m = st.keys.held (.modifier m)

/-- **The driver follows the keys in an event**: the flags are right after it, and the make code of
a key that is neither a modifier nor an arrow was passed to `keymap` with them. -/
structure Followed (loadedKeymap : Option Keymap) (st : KeyboardRun) (e : KeyEvent) : Prop where
  follows : FollowsKeys (st.step loadedKeymap e)
  passed : ∀ c ∈ e.codes, (c, (st.step loadedKeymap e).kbd.down) ∈
    (st.step loadedKeymap e).kbd.keymapCalls.drop st.kbd.keymapCalls.length

/-- While the driver waits for the second byte of Caps Lock, no plain key goes down, no modifier
goes up, and a modifier goes down only if it is held; Caps Lock goes up then only, and a key of two
bytes that the driver does not know goes down then only. -/
def Heard (st : KeyboardRun) : KeyEvent → Prop
  | .press .capsLock => True
  | .press (.modifier m) => st.kbd.specialKeyNext = true →
      st.keys.held (.modifier m) = true ∧ st.keys.held (.modifier m.single) = true
  | .press (.arrow _) => True
  | .press (.plain _) => st.kbd.specialKeyNext = false
  | .press (.extended _) => st.kbd.specialKeyNext = true
  | .press .printScreen => False
  | .press .pause => False
  | .release .capsLock => st.kbd.specialKeyNext = true
  | .release (.modifier _) => st.kbd.specialKeyNext = false
  | .release _ => True

end KeyboardRun

/-! ### Bytes -/

/-- The bytes for which there is a branch without a prefix. -/
def specialBytes : List UInt8 := [0xE0, 0x3A, 0x38, 0xB8, 0x1D, 0x9D, 0x2A, 0xAA, 0x36, 0xB6]

/-- The bytes for which there is a branch after 0xE0. -/
def extendedBytes : List UInt8 :=
  [0x38, 0xB8, 0x1D, 0x9D, 0x48, 0xC8, 0x50, 0xD0, 0x4B, 0xCB, 0x4D, 0xCD]

/-- A plain make code is none of the bytes that the handler treats apart. -/
lemma IsPlainCode.make : ∀ {c : UInt8}, IsPlainCode c → c ∉ specialBytes ∧ c ≠ 0xBA := by
  rintro ⟨c⟩
  revert c
  decide

/-- Nor is a plain break code. -/
lemma IsPlainCode.break_ :
    ∀ {c : UInt8}, IsPlainCode c → c ||| 0x80 ∉ specialBytes ∧ c ||| 0x80 ≠ 0xBA := by
  rintro ⟨c⟩
  revert c
  decide

/-- A make code behind the prefix is none of the bytes that the handler treats apart. -/
lemma IsExtendedCode.make :
    ∀ {c : UInt8}, IsExtendedCode c → c ∉ specialBytes ∧ c ∉ extendedBytes := by
  rintro ⟨c⟩
  revert c
  decide

/-- Nor is a break code behind the prefix. -/
lemma IsExtendedCode.break_ :
    ∀ {c : UInt8}, IsExtendedCode c → c ||| 0x80 ∉ specialBytes ∧ c ||| 0x80 ∉ extendedBytes := by
  rintro ⟨c⟩
  revert c
  decide

namespace Keyboard

variable {loadedKeymap : Option Keymap} {kbd : Keyboard} {key : UInt8} {bytes : List UInt8}

/-- A byte that is not treated apart is looked up in the keymap. -/
lemma plainByte_eq (h : key ∉ specialBytes) :
    kbd.plainByte loadedKeymap key = kbd.charByte loadedKeymap key := by
  rw [plainByte] <;> (rintro rfl; exact h (by decide))

lemma extendedByte_eq (h : key ∉ extendedBytes) : kbd.extendedByte key = kbd := by
  rw [extendedByte] <;> (rintro rfl; exact h (by decide))

/-- What an event did to the driver: the flags, the calls of `keymap`, and a byte that it waits
for belongs to Caps Lock. -/
structure Effect (kbd kbd' : Keyboard) (down : SpecialKeysDown)
    (calls : List (UInt8 × SpecialKeysDown)) : Prop where
  down_eq : kbd'.down = down
  calls_eq : kbd'.keymapCalls = kbd.keymapCalls ++ calls
  waits : kbd'.specialKeyNext = true → kbd'.specialCode = 0x3A

/-- The driver waits for no byte. -/
def Idle (kbd : Keyboard) : Prop := kbd.specialKeyNext = false

/-- The driver waits for the second byte of Caps Lock. -/
def Waits (kbd : Keyboard) : Prop := kbd.specialKeyNext = true ∧ kbd.specialCode = 0x3A

/-- Between two keys the handler takes a byte for a plain one. -/
lemma handler_idle (h : kbd.Idle) :
    kbd.ps2KeyboardInterruptHandler loadedKeymap key = kbd.plainByte loadedKeymap key := by
  rw [ps2KeyboardInterruptHandler, h]
  rfl

/-- After the make code of Caps Lock the handler waits for one byte, whatever it is. -/
lemma handler_waits (h : kbd.Waits) : kbd.ps2KeyboardInterruptHandler loadedKeymap key =
    { kbd.capsByte key with specialKeyNext := false } := by
  have hcaps : kbd.prefixedByte key = kbd.capsByte key := by
    rw [prefixedByte, h.2]
    rfl
  rw [ps2KeyboardInterruptHandler, h.1, if_pos rfl, hcaps]

/-- A byte that is lost. -/
lemma handler_lost (h : kbd.Waits) (hkey : key ≠ 0xBA) :
    kbd.ps2KeyboardInterruptHandler loadedKeymap key = { kbd with specialKeyNext := false } := by
  rw [handler_waits h, capsByte]
  exact hkey

/-- The two bytes of a key with a prefix. -/
lemma feed_extended (h : kbd.Idle) : kbd.feed loadedKeymap [0xE0, key] =
    { ({ kbd with specialKeyNext := true, specialCode := 0xE0 } : Keyboard).extendedByte key with
      specialKeyNext := false } := by
  rw [feed, List.foldl_cons, handler_idle h]
  rfl

variable (loadedKeymap)

/-- **A character**: its code goes to the program, and no flag changes. -/
lemma effect_char (h : kbd.Idle) (hkey : key ∉ specialBytes) :
    Effect kbd (kbd.feed loadedKeymap [key]) kbd.down [(key, kbd.down)] := by
  have hfeed : kbd.feed loadedKeymap [key] = kbd.charByte loadedKeymap key :=
    (handler_idle h).trans (plainByte_eq hkey)
  rw [hfeed]
  exact ⟨rfl, rfl, fun hnext => absurd (hnext.symm.trans h) (by simp)⟩

/-- **A key behind the prefix** that the handler does not know does nothing. -/
lemma effect_ignored (h : kbd.Idle) (hkey : key ∉ extendedBytes) :
    Effect kbd (kbd.feed loadedKeymap [0xE0, key]) kbd.down [] := by
  rw [feed_extended h, extendedByte_eq hkey]
  exact ⟨rfl, (List.append_nil _).symm, fun hnext => absurd hnext (by simp)⟩

/-- **A key while Caps Lock is down** is lost: the handler takes its byte for the end of Caps
Lock. -/
lemma effect_lost (h : kbd.Waits) (hkey : key ≠ 0xBA) :
    Effect kbd (kbd.feed loadedKeymap [key]) kbd.down [] := by
  have hfeed : kbd.feed loadedKeymap [key] = { kbd with specialKeyNext := false } :=
    handler_lost h hkey
  rw [hfeed]
  exact ⟨rfl, (List.append_nil _).symm, fun hnext => absurd hnext (by simp)⟩

/-- While Caps Lock is down, the prefix is taken for its end, and the code behind it for a
character. -/
lemma effect_prefix_lost (h : kbd.Waits) (hkey : key ∉ specialBytes) :
    Effect kbd (kbd.feed loadedKeymap [0xE0, key]) kbd.down [(key, kbd.down)] := by
  have hchar := effect_char loadedKeymap
    (show Idle { kbd with specialKeyNext := false } from rfl) hkey
  rw [feed, List.foldl_cons, handler_lost h (by decide)]
  exact ⟨hchar.down_eq, hchar.calls_eq, hchar.waits⟩

/-- Caps Lock that is pressed changes no flag. -/
lemma effect_capsLock_make (h : kbd.Idle) :
    Effect kbd (kbd.feed loadedKeymap [0x3A]) kbd.down [] := by
  have hfeed : kbd.feed loadedKeymap [0x3A] =
      { kbd with specialKeyNext := true, specialCode := 0x3A } := handler_idle h
  rw [hfeed]
  exact ⟨rfl, (List.append_nil _).symm, fun _ => rfl⟩

/-- Caps Lock that is released turns its flag around. -/
lemma effect_capsLock_break (h : kbd.Waits) : Effect kbd (kbd.feed loadedKeymap [0xBA])
    { kbd.down with capsLock := !kbd.down.capsLock } [] := by
  have hfeed : kbd.feed loadedKeymap [0xBA] = { kbd with
      specialKeyNext := false
      down := { kbd.down with capsLock := !kbd.down.capsLock } } := handler_waits h
  rw [hfeed]
  exact ⟨rfl, (List.append_nil _).symm, fun hnext => absurd hnext (by simp)⟩

/-- A modifier sets its flag when it is pressed, and clears it when it is released. -/
lemma effect_modifier (h : kbd.Idle) (m : Modifier) :
    Effect kbd (kbd.feed loadedKeymap (Key.modifier m).make) (kbd.down.setModifier m true) [] ∧
    Effect kbd (kbd.feed loadedKeymap (Key.modifier m).break_)
      (kbd.down.setModifier m false) [] := by
  obtain ⟨char, arrw, next, code, down, calls, fkeys⟩ := kbd
  obtain rfl : next = false := h
  cases m <;>
    exact ⟨⟨rfl, (List.append_nil _).symm, nofun⟩, ⟨rfl, (List.append_nil _).symm, nofun⟩⟩

/-- An arrow sets its flag when it is pressed, and clears it when it is released. -/
lemma effect_arrow (h : kbd.Idle) (a : Arrow) :
    Effect kbd (kbd.feed loadedKeymap (Key.arrow a).make) (kbd.down.setArrow a true) [] ∧
    Effect kbd (kbd.feed loadedKeymap (Key.arrow a).break_) (kbd.down.setArrow a false) [] := by
  obtain ⟨char, arrw, next, code, down, calls, fkeys⟩ := kbd
  obtain rfl : next = false := h
  cases a <;>
    exact ⟨⟨rfl, (List.append_nil _).symm, nofun⟩, ⟨rfl, (List.append_nil _).symm, nofun⟩⟩

/-- A modifier with a prefix is taken for the one without, and any other is lost. -/
lemma effect_modifier_waits (h : kbd.Waits) (m : Modifier) :
    Effect kbd (kbd.feed loadedKeymap (Key.modifier m).make)
      (if m.single = m then kbd.down else kbd.down.setModifier m.single true) [] ∧
    Effect kbd (kbd.feed loadedKeymap (Key.modifier m).break_)
      (if m.single = m then kbd.down else kbd.down.setModifier m.single false) [] := by
  obtain ⟨char, arrw, next, code, down, calls, fkeys⟩ := kbd
  obtain ⟨hnext, hcode⟩ := h
  obtain rfl : next = true := hnext
  obtain rfl : code = 0x3A := hcode
  cases m <;>
    exact ⟨⟨rfl, (List.append_nil _).symm, nofun⟩, ⟨rfl, (List.append_nil _).symm, nofun⟩⟩

lemma effect_nothing (h : kbd.specialKeyNext = true → kbd.specialCode = 0x3A) :
    Effect kbd (kbd.feed loadedKeymap []) kbd.down [] :=
  ⟨rfl, (List.append_nil _).symm, h⟩

/-- Print Screen and Pause are taken for other keys. -/
lemma effect_printScreen_make (h : kbd.Idle ∨ kbd.Waits) : ∃ down,
    Effect kbd (kbd.feed loadedKeymap Key.printScreen.make) down [] := by
  obtain ⟨char, arrw, next, code, down, calls, fkeys⟩ := kbd
  rcases h with h | ⟨hnext, hcode⟩
  · obtain rfl : next = false := h
    exact ⟨_, rfl, (List.append_nil _).symm, nofun⟩
  · obtain rfl : next = true := hnext
    obtain rfl : code = 0x3A := hcode
    exact ⟨_, rfl, (List.append_nil _).symm, nofun⟩

/-- Print Screen that is released changes no flag, whatever the handler makes of its bytes. -/
lemma effect_printScreen_break (h : kbd.Idle ∨ kbd.Waits) : ∃ calls,
    Effect kbd (kbd.feed loadedKeymap Key.printScreen.break_) kbd.down calls := by
  obtain ⟨char, arrw, next, code, down, calls, fkeys⟩ := kbd
  rcases h with h | ⟨hnext, hcode⟩
  · obtain rfl : next = false := h
    exact ⟨[], rfl, (List.append_nil _).symm, nofun⟩
  · obtain rfl : next = true := hnext
    obtain rfl : code = 0x3A := hcode
    exact ⟨_, rfl, rfl, nofun⟩

/-- Pause never gives its first code to a program: the prefix in front of it is unknown. -/
lemma effect_pause_make (h : kbd.Idle ∨ kbd.Waits) : ∃ down calls,
    Effect kbd (kbd.feed loadedKeymap Key.pause.make) down calls ∧ ∀ d, (0x1D, d) ∉ calls := by
  obtain ⟨char, arrw, next, code, down, calls, fkeys⟩ := kbd
  rcases h with h | ⟨hnext, hcode⟩
  · obtain rfl : next = false := h
    refine ⟨_, [(0xE1, down), (0x45, down.setModifier .leftCtrl true),
      (0xE1, down.setModifier .leftCtrl true), (0xC5, down.setModifier .leftCtrl false)],
      ⟨rfl, ?_, nofun⟩, fun d => by simp⟩
    exact ((List.append_assoc _ _ _).trans (List.append_assoc _ _ _)).trans
      (List.append_assoc _ _ _)
  · obtain rfl : next = true := hnext
    obtain rfl : code = 0x3A := hcode
    refine ⟨_, [(0x45, down.setModifier .leftCtrl true),
      (0xE1, down.setModifier .leftCtrl true), (0xC5, down.setModifier .leftCtrl false)],
      ⟨rfl, ?_, nofun⟩, fun d => by simp⟩
    exact (List.append_assoc _ _ _).trans (List.append_assoc _ _ _)

end Keyboard

/-! ### Events -/

namespace KeyboardRun

variable {loadedKeymap : Option Keymap} {st : KeyboardRun} {e : KeyEvent} {down : SpecialKeysDown}
  {calls : List (UInt8 × SpecialKeysDown)}

/-- A byte that the driver waits for belongs to Caps Lock. -/
def WaitsForCaps (st : KeyboardRun) : Prop :=
  st.kbd.specialKeyNext = true → st.kbd.specialCode = 0x3A

/-- The handler is between two keys, or waits for the end of Caps Lock. -/
lemma WaitsForCaps.idle_or_waits (h : st.WaitsForCaps) : st.kbd.Idle ∨ st.kbd.Waits := by
  cases hnext : st.kbd.specialKeyNext with
  | false => exact .inl hnext
  | true => exact .inr ⟨hnext, h hnext⟩

/-- The flags that an event leaves are right. -/
def FlagsRight (down : SpecialKeysDown) (keys : Keys) : Prop :=
  down.capsLock = decide (keys.capsPresses % 2 = 1) ∧
    ∀ m, down.modifier m = keys.held (.modifier m)

/-- A key is followed when the handler's flags are right after it and its codes were given away with
them. -/
lemma followed_of_effect
    (h : st.kbd.Effect (st.kbd.feed loadedKeymap e.bytes) down calls) :
    Followed loadedKeymap st e ↔
      FlagsRight down (st.keys.after e) ∧ ∀ c ∈ e.codes, (c, down) ∈ calls := by
  have hdown : (st.step loadedKeymap e).kbd.down = down := h.down_eq
  have hcalls : (st.step loadedKeymap e).kbd.keymapCalls.drop st.kbd.keymapCalls.length =
      calls := by
    rw [step, h.calls_eq, List.drop_left]
  constructor
  · rintro ⟨⟨hcaps, hmodifier⟩, hpassed⟩
    rw [hdown] at hcaps hmodifier
    rw [hdown, hcalls] at hpassed
    exact ⟨⟨hcaps, hmodifier⟩, hpassed⟩
  · rintro ⟨⟨hcaps, hmodifier⟩, hpassed⟩
    refine ⟨⟨?_, ?_⟩, ?_⟩
    · rw [hdown]
      exact hcaps
    · rw [hdown]
      exact hmodifier
    · rw [hdown, hcalls]
      exact hpassed

/-- What an event has to be shown to do, from its effect. -/
lemma spec_of_effect (h : st.kbd.Effect (st.kbd.feed loadedKeymap e.bytes) down calls)
    (hiff : (FlagsRight down (st.keys.after e) ∧ ∀ c ∈ e.codes, (c, down) ∈ calls) ↔ Heard st e) :
    (Followed loadedKeymap st e ↔ Heard st e) ∧ WaitsForCaps (st.step loadedKeymap e) :=
  ⟨(followed_of_effect h).trans hiff, h.waits⟩

section Flags

variable {keys : Keys} {k : Key} {m : Modifier}

/-- A key that is pressed is down, and the others are as before. -/
lemma held_press (keys : Keys) (k k' : Key) :
    (keys.after (.press k)).held k' = if k' = k then true else keys.held k' :=
  Function.update_apply _ _ _ _

/-- A key that is released is up, and the others are as before. -/
lemma held_release (keys : Keys) (k k' : Key) :
    (keys.after (.release k)).held k' = if k' = k then false else keys.held k' :=
  Function.update_apply _ _ _ _

/-- `held_press`, for modifiers. -/
lemma held_press_modifier (keys : Keys) (m m' : Modifier) :
    (keys.after (.press (.modifier m))).held (.modifier m') =
      if m' = m then true else keys.held (.modifier m') := by
  rw [held_press]
  simp only [Key.modifier.injEq]

/-- `held_release`, for modifiers. -/
lemma held_release_modifier (keys : Keys) (m m' : Modifier) :
    (keys.after (.release (.modifier m))).held (.modifier m') =
      if m' = m then false else keys.held (.modifier m') := by
  rw [held_release]
  simp only [Key.modifier.injEq]

/-- A key that is no modifier keeps the flags right when it is pressed. -/
lemma FlagsRight.press_other (h : FlagsRight down keys) (hk : ∀ m, Key.modifier m ≠ k) :
    FlagsRight down (keys.after (.press k)) := by
  refine ⟨h.1, fun m => ?_⟩
  rw [held_press, if_neg (hk m)]
  exact h.2 m

/-- So does one that is released, Caps Lock apart. -/
lemma FlagsRight.release_other (h : FlagsRight down keys) (hk : ∀ m, Key.modifier m ≠ k)
    (hcaps : k ≠ .capsLock) : FlagsRight down (keys.after (.release k)) := by
  refine ⟨?_, fun m => ?_⟩
  · rw [Keys.after, if_neg hcaps]
    exact h.1
  · rw [held_release, if_neg (hk m)]
    exact h.2 m

/-- A modifier that is pressed keeps the flags right when its flag is set. -/
lemma FlagsRight.press_modifier (h : FlagsRight down keys) (m : Modifier) :
    FlagsRight (down.setModifier m true) (keys.after (.press (.modifier m))) := by
  refine ⟨?_, fun m' => ?_⟩
  · rw [SpecialKeysDown.capsLock_setModifier]
    exact h.1
  · rw [SpecialKeysDown.modifier_setModifier, held_press_modifier, h.2 m']

/-- A modifier that is released keeps them right when its flag is cleared. -/
lemma FlagsRight.release_modifier (h : FlagsRight down keys) (m : Modifier) :
    FlagsRight (down.setModifier m false) (keys.after (.release (.modifier m))) := by
  refine ⟨?_, fun m' => ?_⟩
  · rw [SpecialKeysDown.capsLock_setModifier, Keys.after, if_neg Key.noConfusion]
    exact h.1
  · rw [SpecialKeysDown.modifier_setModifier, held_release_modifier, h.2 m']

/-- The flags that are compared are not those of the arrows. -/
lemma FlagsRight.setArrow (h : FlagsRight down keys) (a : Arrow) (b : Bool) :
    FlagsRight (down.setArrow a b) keys := by
  refine ⟨?_, fun m => ?_⟩
  · rw [SpecialKeysDown.capsLock_setArrow]
    exact h.1
  · rw [SpecialKeysDown.modifier_setArrow]
    exact h.2 m

/-- Caps Lock that is released keeps them right when its flag is turned around. -/
lemma FlagsRight.release_capsLock (h : FlagsRight down keys) :
    FlagsRight { down with capsLock := !down.capsLock } (keys.after (.release .capsLock)) := by
  refine ⟨?_, fun m => ?_⟩
  · rw [Keys.after, if_pos rfl]
    dsimp only
    rw [h.1, ← decide_not, decide_eq_decide]
    omega
  · rw [held_release, if_neg Key.noConfusion, ← h.2 m]
    cases m <;> rfl

/-- A press of Caps Lock that was completed has to be seen. -/
lemma FlagsRight.not_release_capsLock (h : FlagsRight down keys) :
    ¬FlagsRight down (keys.after (.release .capsLock)) := by
  rintro ⟨hcaps, -⟩
  rw [h.1, Keys.after, if_pos rfl, decide_eq_decide] at hcaps
  dsimp only at hcaps
  omega

/-- A modifier that is taken for the one without its prefix, or lost, when it goes down. -/
lemma FlagsRight.press_single (h : FlagsRight down keys) (m : Modifier) :
    FlagsRight (if m.single = m then down else down.setModifier m.single true)
        (keys.after (.press (.modifier m))) ↔
      keys.held (.modifier m) = true ∧ keys.held (.modifier m.single) = true := by
  by_cases hm : m.single = m
  · rw [if_pos hm, hm, and_self]
    constructor
    · intro hr
      rw [← h.2 m, hr.2 m, held_press, if_pos rfl]
    · intro hheld
      refine ⟨h.1, fun m' => ?_⟩
      rw [held_press_modifier, h.2 m']
      split_ifs with heq
      · rw [heq, hheld]
      · rfl
  · rw [if_neg hm]
    constructor
    · intro hr
      have hself := hr.2 m
      have hsingle := hr.2 m.single
      rw [SpecialKeysDown.modifier_setModifier, if_neg (Ne.symm hm), held_press,
        if_pos rfl] at hself
      rw [SpecialKeysDown.modifier_setModifier, if_pos rfl, held_press_modifier,
        if_neg hm] at hsingle
      exact ⟨(h.2 m).symm.trans hself, hsingle.symm⟩
    · rintro ⟨hheld, hsingle⟩
      refine ⟨?_, fun m' => ?_⟩
      · rw [SpecialKeysDown.capsLock_setModifier]
        exact h.1
      · rw [SpecialKeysDown.modifier_setModifier, held_press_modifier, h.2 m']
        split_ifs with hs hself hself
        · rfl
        · rw [hs, hsingle]
        · rw [hself, hheld]
        · rfl

/-- A modifier that is taken for the one without its prefix, or lost, when it goes up. -/
lemma FlagsRight.not_release_single (h : FlagsRight down keys)
    (hheld : keys.held (.modifier m) = true) :
    ¬FlagsRight (if m.single = m then down else down.setModifier m.single false)
        (keys.after (.release (.modifier m))) := by
  intro hr
  have hself := hr.2 m
  rw [held_release, if_pos rfl] at hself
  split_ifs at hself with hm
  · rw [h.2 m, hheld] at hself
    exact absurd hself (by simp)
  · rw [SpecialKeysDown.modifier_setModifier, if_neg (Ne.symm hm), h.2 m, hheld] at hself
    exact absurd hself (by simp)

end Flags

/-- A press while the driver waits for no byte. -/
lemma press_spec_idle (hflags : FlagsRight st.kbd.down st.keys) (h : st.kbd.Idle) (k : Key) :
    (Followed loadedKeymap st (.press k) ↔ Heard st (.press k)) ∧
      WaitsForCaps (st.step loadedKeymap (.press k)) := by
  have hnext : st.kbd.specialKeyNext = false := h
  cases k with
  | capsLock =>
    refine spec_of_effect (st.kbd.effect_capsLock_make loadedKeymap h)
      ⟨fun _ => trivial, fun _ => ?_⟩
    exact ⟨hflags.press_other nofun, nofun⟩
  | modifier m =>
    refine spec_of_effect (st.kbd.effect_modifier loadedKeymap h m).1
      ⟨fun _ hw => ?_, fun _ => ?_⟩
    · exact absurd (hw.symm.trans hnext) (by simp)
    · exact ⟨hflags.press_modifier m, nofun⟩
  | arrow a =>
    refine spec_of_effect (st.kbd.effect_arrow loadedKeymap h a).1 ⟨fun _ => trivial, fun _ => ?_⟩
    exact ⟨(hflags.setArrow a true).press_other nofun, nofun⟩
  | plain c =>
    refine spec_of_effect (st.kbd.effect_char loadedKeymap h c.2.make.1)
      ⟨fun _ => hnext, fun _ => ?_⟩
    exact ⟨hflags.press_other nofun, fun d hd => by simpa [KeyEvent.codes, Key.codes] using hd⟩
  | extended c =>
    refine spec_of_effect (st.kbd.effect_ignored loadedKeymap h c.2.make.2)
      ⟨fun hf => ?_, fun hw => ?_⟩
    · exact absurd (hf.2 c.1 (List.mem_singleton_self _)) (by simp)
    · exact absurd (hw.symm.trans hnext) (by simp)
  | printScreen =>
    obtain ⟨down, heff⟩ := st.kbd.effect_printScreen_make loadedKeymap (.inl h)
    refine spec_of_effect heff ⟨fun hf => ?_, False.elim⟩
    exact absurd (hf.2 0x2A List.mem_cons_self) (by simp)
  | pause =>
    obtain ⟨down, calls, heff, hcalls⟩ := st.kbd.effect_pause_make loadedKeymap (.inl h)
    refine spec_of_effect heff ⟨fun hf => ?_, False.elim⟩
    exact absurd (hf.2 0x1D List.mem_cons_self) (hcalls _)

/-- A press while the driver waits for the second byte of Caps Lock. -/
lemma press_spec_waits (hflags : FlagsRight st.kbd.down st.keys) (h : st.kbd.Waits) (k : Key) :
    (Followed loadedKeymap st (.press k) ↔ Heard st (.press k)) ∧
      WaitsForCaps (st.step loadedKeymap (.press k)) := by
  cases k with
  | capsLock =>
    refine spec_of_effect (st.kbd.effect_lost loadedKeymap h (by decide))
      ⟨fun _ => trivial, fun _ => ?_⟩
    exact ⟨hflags.press_other nofun, nofun⟩
  | modifier m =>
    refine spec_of_effect (st.kbd.effect_modifier_waits loadedKeymap h m).1
      ⟨fun hf _ => ?_, fun hw => ?_⟩
    · exact (hflags.press_single m).mp hf.1
    · exact ⟨(hflags.press_single m).mpr (hw h.1), nofun⟩
  | arrow a =>
    have hcode : a.code ∉ specialBytes := by cases a <;> decide
    refine spec_of_effect (st.kbd.effect_prefix_lost loadedKeymap h hcode)
      ⟨fun _ => trivial, fun _ => ?_⟩
    exact ⟨hflags.press_other nofun, nofun⟩
  | plain c =>
    refine spec_of_effect (st.kbd.effect_lost loadedKeymap h c.2.make.2)
      ⟨fun hf => ?_, fun hw => ?_⟩
    · exact absurd (hf.2 c.1 (List.mem_singleton_self _)) (by simp)
    · exact absurd (h.1.symm.trans hw) (by simp)
  | extended c =>
    refine spec_of_effect (st.kbd.effect_prefix_lost loadedKeymap h c.2.make.1)
      ⟨fun _ => h.1, fun _ => ?_⟩
    exact ⟨hflags.press_other nofun, fun d hd => by simpa [KeyEvent.codes, Key.codes] using hd⟩
  | printScreen =>
    obtain ⟨down, heff⟩ := st.kbd.effect_printScreen_make loadedKeymap (.inr h)
    refine spec_of_effect heff ⟨fun hf => ?_, False.elim⟩
    exact absurd (hf.2 0x2A List.mem_cons_self) (by simp)
  | pause =>
    obtain ⟨down, calls, heff, hcalls⟩ := st.kbd.effect_pause_make loadedKeymap (.inr h)
    refine spec_of_effect heff ⟨fun hf => ?_, False.elim⟩
    exact absurd (hf.2 0x1D List.mem_cons_self) (hcalls _)

/-- A release while the driver waits for no byte. -/
lemma release_spec_idle (hflags : FlagsRight st.kbd.down st.keys) (h : st.kbd.Idle) (k : Key) :
    (Followed loadedKeymap st (.release k) ↔ Heard st (.release k)) ∧
      WaitsForCaps (st.step loadedKeymap (.release k)) := by
  have hnext : st.kbd.specialKeyNext = false := h
  cases k with
  | capsLock =>
    refine spec_of_effect (st.kbd.effect_char loadedKeymap h (by decide))
      ⟨fun hf => ?_, fun hw => ?_⟩
    · exact absurd hf.1 hflags.not_release_capsLock
    · exact absurd (hw.symm.trans hnext) (by simp)
  | modifier m =>
    refine spec_of_effect (st.kbd.effect_modifier loadedKeymap h m).2
      ⟨fun _ => hnext, fun _ => ?_⟩
    exact ⟨hflags.release_modifier m, nofun⟩
  | arrow a =>
    refine spec_of_effect (st.kbd.effect_arrow loadedKeymap h a).2 ⟨fun _ => trivial, fun _ => ?_⟩
    exact ⟨(hflags.setArrow a false).release_other nofun nofun, nofun⟩
  | plain c =>
    refine spec_of_effect (st.kbd.effect_char loadedKeymap h c.2.break_.1)
      ⟨fun _ => trivial, fun _ => ?_⟩
    exact ⟨hflags.release_other nofun nofun, nofun⟩
  | extended c =>
    refine spec_of_effect (st.kbd.effect_ignored loadedKeymap h c.2.break_.2)
      ⟨fun _ => trivial, fun _ => ?_⟩
    exact ⟨hflags.release_other nofun nofun, nofun⟩
  | printScreen =>
    obtain ⟨calls, heff⟩ := st.kbd.effect_printScreen_break loadedKeymap (.inl h)
    exact spec_of_effect heff
      ⟨fun _ => trivial, fun _ => ⟨hflags.release_other nofun nofun, nofun⟩⟩
  | pause =>
    have heff := st.kbd.effect_nothing loadedKeymap fun hw =>
      absurd (hw.symm.trans hnext) (by simp)
    exact spec_of_effect heff
      ⟨fun _ => trivial, fun _ => ⟨hflags.release_other nofun nofun, nofun⟩⟩

/-- A release while the driver waits for the second byte of Caps Lock. -/
lemma release_spec_waits (hflags : FlagsRight st.kbd.down st.keys) (h : st.kbd.Waits) (k : Key)
    (hheld : st.keys.held k = true) :
    (Followed loadedKeymap st (.release k) ↔ Heard st (.release k)) ∧
      WaitsForCaps (st.step loadedKeymap (.release k)) := by
  cases k with
  | capsLock =>
    refine spec_of_effect (st.kbd.effect_capsLock_break loadedKeymap h)
      ⟨fun _ => h.1, fun _ => ?_⟩
    exact ⟨hflags.release_capsLock, nofun⟩
  | modifier m =>
    refine spec_of_effect (st.kbd.effect_modifier_waits loadedKeymap h m).2
      ⟨fun hf => ?_, fun hw => ?_⟩
    · exact absurd hf.1 (hflags.not_release_single hheld)
    · exact absurd (h.1.symm.trans hw) (by simp)
  | arrow a =>
    have hcode : a.code ||| 0x80 ∉ specialBytes := by cases a <;> decide
    refine spec_of_effect (st.kbd.effect_prefix_lost loadedKeymap h hcode)
      ⟨fun _ => trivial, fun _ => ?_⟩
    exact ⟨hflags.release_other nofun nofun, nofun⟩
  | plain c =>
    refine spec_of_effect (st.kbd.effect_lost loadedKeymap h c.2.break_.2)
      ⟨fun _ => trivial, fun _ => ?_⟩
    exact ⟨hflags.release_other nofun nofun, nofun⟩
  | extended c =>
    refine spec_of_effect (st.kbd.effect_prefix_lost loadedKeymap h c.2.break_.1)
      ⟨fun _ => trivial, fun _ => ?_⟩
    exact ⟨hflags.release_other nofun nofun, nofun⟩
  | printScreen =>
    obtain ⟨calls, heff⟩ := st.kbd.effect_printScreen_break loadedKeymap (.inr h)
    exact spec_of_effect heff
      ⟨fun _ => trivial, fun _ => ⟨hflags.release_other nofun nofun, nofun⟩⟩
  | pause =>
    have heff := st.kbd.effect_nothing loadedKeymap fun _ => h.2
    exact spec_of_effect heff
      ⟨fun _ => trivial, fun _ => ⟨hflags.release_other nofun nofun, nofun⟩⟩

/-- **One event**: the driver follows the keys exactly when it hears them. -/
lemma followed_iff (hfollows : FollowsKeys st) (hwaits : WaitsForCaps st) (hlegal : Legal st e) :
    (Followed loadedKeymap st e ↔ Heard st e) ∧ WaitsForCaps (st.step loadedKeymap e) := by
  have hflags : FlagsRight st.kbd.down st.keys := ⟨hfollows.capsLock, hfollows.modifier⟩
  cases e with
  | press k =>
    rcases hwaits.idle_or_waits with h | h
    · exact press_spec_idle hflags h k
    · exact press_spec_waits hflags h k
  | release k =>
    rcases hwaits.idle_or_waits with h | h
    · exact release_spec_idle hflags h k
    · exact release_spec_waits hflags h k hlegal

end KeyboardRun

section Run

open KeyboardRun

/-- **The keyboard follows the keys** along a run of presses, repeats and releases exactly when the
driver hears every one of them. -/
theorem keyboard_follows_iff (loadedKeymap : Option Keymap) (events : List KeyEvent)
    (h : Along (step loadedKeymap) init events Legal) :
    Along (step loadedKeymap) init events (Followed loadedKeymap) ↔
      Along (step loadedKeymap) init events Heard := by
  refine along_iff (fun st => FollowsKeys st ∧ WaitsForCaps st) ?_ ?_ ?_ h
  · rintro st e ⟨hfollows, hwaits⟩ hlegal
    exact (followed_iff hfollows hwaits hlegal).1
  · rintro st e ⟨hfollows, hwaits⟩ hlegal hfollowed
    exact ⟨hfollowed.follows, (followed_iff hfollows hwaits hlegal).2⟩
  · exact ⟨⟨rfl, fun m => by cases m <;> rfl⟩, nofun⟩

/-- The key "A". -/
def keyA : Key := .plain ⟨0x1E, by decide⟩

/-- Caps Lock is pressed and released, and "A" is pressed. -/
theorem keyboard_follows_capsLock : Along (step none) init
    [.press .capsLock, .release .capsLock, .press keyA] (Followed none) := by
  have hlegal : Along (step none) init [.press .capsLock, .release .capsLock, .press keyA] Legal :=
    along_cons.mpr ⟨trivial, along_cons.mpr ⟨rfl, along_cons.mpr ⟨trivial, along_nil _ _ _⟩⟩⟩
  have hheard : Along (step none) init [.press .capsLock, .release .capsLock, .press keyA] Heard :=
    along_cons.mpr ⟨trivial, along_cons.mpr ⟨rfl, along_cons.mpr ⟨rfl, along_nil _ _ _⟩⟩⟩
  exact (keyboard_follows_iff none _ hlegal).mpr hheard

/-- While Caps Lock is held, the make code of "A" is lost. -/
theorem key_lost : ¬∀ events, Along (step none) init events Legal →
    Along (step none) init events (Followed none) := by
  intro h
  have hlegal : Along (step none) init
      [.press .capsLock, .press keyA, .release keyA, .release .capsLock] Legal :=
    along_cons.mpr ⟨trivial, along_cons.mpr ⟨trivial, along_cons.mpr ⟨rfl,
      along_cons.mpr ⟨rfl, along_nil _ _ _⟩⟩⟩⟩
  have hpassed := (h _ hlegal [.press .capsLock] (.press keyA) _ rfl).passed 0x1E
    (List.mem_singleton_self _)
  exact absurd hpassed (by decide)

end Run

end MicroOS
