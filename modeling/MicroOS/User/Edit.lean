import MicroOS.User.HeapProgram
import MicroOS.Utils.String

/-!
The editor: `user/edit/input.c`, and the state that `user/edit/main.c` begins with.

* `moveUp`, `moveDown`, `moveLeft`, `moveRight`: the cursor;
* `reallocBuffer`: `realloc` of the buffer, by the allocator of `user/libc/stdlib/heap.c`;
* `insertChar`, `backspace`, `listenInput`: what an input does;
* `EditEvent`: an input, or a call of the heap or a store by another part of the editor, such as the
  colouring, `freopen` or the frame buffer;
* `EditConsistent`, `Edited`: the counters fit the text, and an input changed the text as it should;
* `editor_consistent_iff`: the runs of the editor in which they do.

An insertion moves the byte behind the text too. When the block has no byte behind the text, that is
the first byte of the next segment's header, or lies behind the heap; `Inside` excludes the
insertions that change it. The file that `+` writes, `state->file` and the colours are left out; a
run goes on after `q`.
-/

namespace MicroOS

open ByteMem Run

/-! ### The state -/

/-- The character `\n`. -/
def newline : UInt8 := 10

/-- `edit_state_t`, with the heap of the program and the blocks that the program holds. -/
structure EditState where
  client : Client
  inputBuffer : ℕ
  isEdited : Bool
  isInInsertMode : Bool
  lnCnt : ℕ
  charCnt : ℕ
  bufferLnIdx : ℕ
  bufferIdx : ℕ
  currentSize : ℕ

namespace EditState

/-- The memory of the program. -/
def mem (s : EditState) : Mem := s.client.heap.mem

/-- The memory of the program is written. -/
def setMem (s : EditState) (m : Mem) : EditState :=
  { s with client := { s.client with heap := { s.client.heap with mem := m } } }

/-- `state->buffer_idx` is set. -/
def setIdx (s : EditState) (bufferIdx : ℕ) : EditState := { s with bufferIdx := bufferIdx }

/-- `state->input_buffer[i]`. -/
def byteAt (s : EditState) (i : ℕ) : UInt8 := s.mem (wrap32 (s.inputBuffer + i))

/-- The body of the loop of `main`. -/
def countChar (s : EditState) (i : ℕ) : EditState :=
  let s := { s with charCnt := wrap32 (s.charCnt + 1) }
  if s.byteAt i = newline then
    { s with
      lnCnt := wrap32 (s.lnCnt + 1)
      bufferLnIdx := wrap32 (s.bufferLnIdx + 1)
      charCnt := sub32 s.charCnt 1 }
  else s

/-- The state of `main` when `malloc` returned the block for a file. -/
def allocated (client : Client) (file : List UInt8) : EditState :=
  let block := (client.call (.malloc (UInt32.ofNat file.length))).getD (client, 0)
  { client := block.1
    inputBuffer := block.2
    isEdited := false
    isInInsertMode := true
    lnCnt := 0
    charCnt := 0
    bufferLnIdx := 0
    bufferIdx := file.length
    currentSize := file.length }

/-- The state of `main` when the file is read. -/
def loaded (client : Client) (file : List UInt8) : EditState :=
  let s := allocated client file
  let s := s.setMem (memset s.mem s.inputBuffer 0 file.length)
  s.setMem (storeBytes s.mem s.inputBuffer file)

/-- The state of `main` before its last loop. -/
def opened (client : Client) (file : List UInt8) : EditState :=
  (List.range file.length).foldl countChar (loaded client file)

/-! ### The cursor -/

/-- The loop of `move_up`, with `n` for `i`. -/
def moveUpLoop (inputBuffer : ℕ → UInt8) : ℕ → ℕ → ℕ
  | 0, bufferIdx => bufferIdx
  | n + 1, bufferIdx =>
    if inputBuffer n = newline then sub32 bufferIdx 1
    else moveUpLoop inputBuffer n (sub32 bufferIdx 1)

/-- `move_up`. `i` is an `int`, and the test for a negative `buffer_idx` is never true. -/
def moveUp (s : EditState) : EditState :=
  if s.bufferLnIdx = 0 ∨ s.bufferIdx = 0 then s
  else
    { s with
      bufferIdx := moveUpLoop s.byteAt (if s.bufferIdx < 2 ^ 31 then s.bufferIdx else 0) s.bufferIdx
      bufferLnIdx := sub32 s.bufferLnIdx 1 }

/-- The loop of `move_down`, with `n` turns to go. -/
def moveDownLoop (inputBuffer : ℕ → UInt8) (currentSize : ℕ) : ℕ → ℕ → ℕ → ℕ
  | 0, _, bufferIdx => bufferIdx
  | n + 1, i, bufferIdx =>
    if inputBuffer i = newline ∨ currentSize < wrap32 (bufferIdx + 1) then wrap32 (bufferIdx + 1)
    else moveDownLoop inputBuffer currentSize n (i + 1) (wrap32 (bufferIdx + 1))

/-- `move_down`. -/
def moveDown (s : EditState) : EditState :=
  if sub32 s.lnCnt 1 ≤ s.bufferLnIdx ∨ s.currentSize ≤ s.bufferIdx then s
  else
    let bufferIdx := moveDownLoop s.byteAt s.currentSize (s.currentSize - s.bufferIdx) s.bufferIdx
      s.bufferIdx
    if s.currentSize < bufferIdx then s
    else { s with bufferIdx := bufferIdx, bufferLnIdx := wrap32 (s.bufferLnIdx + 1) }

/-- The cursor is going to the line before if there is a line break before it. -/
def leaveLine (s : EditState) : EditState :=
  if s.byteAt (sub32 s.bufferIdx 1) = newline then
    { s with bufferLnIdx := sub32 s.bufferLnIdx 1 }
  else s

/-- `move_left`. -/
def moveLeft (s : EditState) : EditState :=
  if s.bufferIdx = 0 then s
  else
    let s := s.leaveLine
    { s with bufferIdx := sub32 s.bufferIdx 1 }

/-- `move_right`. -/
def moveRight (s : EditState) : EditState :=
  if s.bufferIdx < s.currentSize then
    let s :=
      if s.byteAt s.bufferIdx = newline then
        { s with bufferLnIdx := wrap32 (s.bufferLnIdx + 1) }
      else s
    { s with bufferIdx := wrap32 (s.bufferIdx + 1) }
  else s

/-! ### Inputs -/

/-- `state->input_buffer = realloc(state->input_buffer, state->current_size)`. -/
@[irreducible] def reallocBuffer (s : EditState) : EditState :=
  let op := .realloc s.inputBuffer (UInt32.ofNat s.currentSize)
  let block := (s.client.call op).getD (s.client, 0)
  { s with client := block.1, inputBuffer := block.2 }

/-- The text behind the cursor is moved up. The byte behind the text is moved with it. -/
def makeRoom (s : EditState) : EditState :=
  s.setMem (memmove s.mem (wrap32 (s.inputBuffer + wrap32 (s.bufferIdx + 1)))
    (wrap32 (s.inputBuffer + s.bufferIdx)) (sub32 s.currentSize s.bufferIdx))

/-- A character is counted. -/
def countInput (s : EditState) (input : UInt8) : EditState :=
  if input = newline then
    { s with lnCnt := wrap32 (s.lnCnt + 1), bufferLnIdx := wrap32 (s.bufferLnIdx + 1) }
  else { s with charCnt := wrap32 (s.charCnt + 1) }

/-- The default branch of the insert mode. -/
def insertChar (s : EditState) (input : UInt8) : EditState :=
  let s := s.countInput input
  let s := { s with isEdited := true, currentSize := wrap32 (s.currentSize + 1) }
  let s := s.reallocBuffer.makeRoom
  let s := s.setMem (writeByte s.mem (wrap32 (s.inputBuffer + s.bufferIdx)) input)
  s.setIdx (wrap32 (s.bufferIdx + 1))

/-- The memory after the `memmove` of `backspace`. -/
def shiftedMem (s : EditState) : Mem :=
  if s.bufferIdx = s.currentSize then s.mem
  else memmove s.mem (wrap32 (s.inputBuffer + sub32 s.bufferIdx 1))
    (wrap32 (s.inputBuffer + s.bufferIdx)) (sub32 s.currentSize s.bufferIdx)

/-- The text is shifted over the character before the cursor. -/
def shifted (s : EditState) : EditState := s.setMem s.shiftedMem

/-- A character is subtracted. The one that is looked at is not the one that was shifted over. -/
def uncount (s : EditState) : EditState :=
  if s.byteAt s.bufferIdx = newline then { s with lnCnt := sub32 s.lnCnt 1 }
  else { s with charCnt := sub32 s.charCnt 1 }

/-- The branch for `\b`. The numbers are unsigned, so that the guard is never true. -/
def backspace (s : EditState) : EditState :=
  if sub32 s.bufferIdx 2 < 0 ∨ sub32 s.currentSize 1 < 0 then s
  else
    let s := s.leaveLine.shifted.uncount
    let s := { s with currentSize := sub32 s.currentSize 1 }
    let s := s.reallocBuffer
    s.setIdx (sub32 s.bufferIdx 1)

end EditState

/-- What `async_getarrw` or `async_getc` returns. -/
inductive EditInput where
  | up
  | down
  | left
  | right
  | char (c : UInt8)

/-- The characters of the insert mode. -/
def EditState.insertInput (s : EditState) (input : UInt8) : EditState :=
  match input with
  | 8 => s.backspace
  | 27 => { s with isInInsertMode := !s.isInInsertMode }
  | c => s.insertChar c

/-- The characters of the other mode, and whether the editor ends. -/
def EditState.commandInput (s : EditState) (input : UInt8) : EditState × Bool :=
  match input with
  | 113 => (s, true)
  | 27 => ({ s with isInInsertMode := !s.isInInsertMode }, false)
  | 97 => (s.moveLeft, false)
  | 100 => (s.moveRight, false)
  | 119 => (s.moveUp, false)
  | 115 => (s.moveDown, false)
  | 43 => ({ s with isEdited := false }, false)
  | _ => (s, false)

/-- `listen_input`, and whether the editor ends. -/
def EditState.listenInput (s : EditState) (input : EditInput) : EditState × Bool :=
  match input with
  | .up => (s.moveUp, false)
  | .down => (s.moveDown, false)
  | .left => (s.moveLeft, false)
  | .right => (s.moveRight, false)
  | .char c =>
    if s.isInInsertMode then (s.insertInput c, false)
    else s.commandInput c

/-- What happens: an input, or what another part of the editor does with the heap. -/
inductive EditEvent where
  | input (i : EditInput)
  | call (op : HeapCall)
  | store (a : ℕ) (v : UInt8)

/-- An event. -/
def EditState.step (s : EditState) : EditEvent → EditState
  | .input i => (s.listenInput i).1
  | .call op => { s with client := ((s.client.call op).getD (s.client, 0)).1 }
  | .store a v => s.setMem (writeByte s.mem a v)

/-! ### The text -/

/-- What an input is for. -/
inductive EditCommand where
  | up
  | down
  | left
  | right
  | insert (c : UInt8)
  | backspace
  | other
  deriving DecidableEq

namespace EditState

/-- What an event is for, in the mode of the editor. -/
def command (s : EditState) : EditEvent → EditCommand
  | .input .up => .up
  | .input .down => .down
  | .input .left => .left
  | .input .right => .right
  | .input (.char c) =>
    if s.isInInsertMode then if c = 8 then .backspace else if c = 27 then .other else .insert c
    else if c = 97 then .left
    else if c = 100 then .right
    else if c = 119 then .up
    else if c = 115 then .down
    else .other
  | _ => .other

/-- The first `current_size` characters of the buffer. -/
def text (s : EditState) : List UInt8 := (List.range s.currentSize).map s.byteAt

/-- **The cursor and the counters fit the text.** -/
structure EditConsistent (s : EditState) : Prop where
  bufferIdx_le : s.bufferIdx ≤ s.text.length
  lnCnt_eq : s.lnCnt = s.text.count newline
  bufferLnIdx_eq : s.bufferLnIdx = (s.text.take s.bufferIdx).count newline

/-- The text after a command: a character is put before the cursor, or the one before it is
deleted. -/
def textAfter (s : EditState) : EditCommand → List UInt8
  | .insert c => s.text.insertIdx s.bufferIdx c
  | .backspace => if s.bufferIdx = 0 then s.text else s.text.eraseIdx (s.bufferIdx - 1)
  | _ => s.text

/-- **An event is handled well.** -/
structure Edited (s : EditState) (e : EditEvent) : Prop where
  consistent : EditConsistent (s.step e)
  text_eq : (s.step e).text = s.textAfter (s.command e)

/-- The character that `backspace` looks at: the second one behind the cursor, or the first one when
there is no second. -/
def behind (s : EditState) : UInt8 :=
  if s.bufferIdx + 1 < s.currentSize then s.byteAt (s.bufferIdx + 1) else s.byteAt s.bufferIdx

/-- The cursor does not move down from within a text of one line, and a backspace finds a character
that is a line break exactly if the one it looks at is. -/
def Kept (s : EditState) (e : EditEvent) : Prop :=
  match s.command e with
  | .down => s.lnCnt = 0 → s.currentSize ≤ s.bufferIdx
  | .backspace => s.bufferIdx ≠ 0 ∧
      (s.byteAt (s.bufferIdx - 1) = newline ↔ s.behind = newline)
  | _ => True

/-- An insertion does not fill the block of the buffer to its end, or the byte behind the block is
one of the heap that has the value that is moved there. -/
def Inside (s : EditState) (e : EditEvent) : Prop :=
  match s.command e with
  | .insert _ => s.inputBuffer ≠ 0 → s.client.heap.capacity s.inputBuffer = s.currentSize + 1 →
      s.inputBuffer + s.currentSize + 1 < s.client.heap.heapEnd ∧
        s.byteAt (s.currentSize + 1) = s.byteAt s.currentSize
  | _ => True

/-- The heap has room for the buffer of an insertion, and the other parts of the editor call the
heap and store as they may: for blocks of their own. -/
def Legal (s : EditState) : EditEvent → Prop
  | .input i =>
    match s.command (.input i) with
    | .insert _ => s.client.Fits (.realloc s.inputBuffer (UInt32.ofNat (s.currentSize + 1)))
    | _ => True
  | .call op => s.client.Legal op ∧ s.client.Fits op ∧
      (s.inputBuffer ≠ 0 → op.target ≠ some s.inputBuffer)
  | .store a _ => ∃ b ∈ s.client.live, b.1 ≠ s.inputBuffer ∧ b.1 ≤ a ∧ a < b.1 + b.2

end EditState

end MicroOS
