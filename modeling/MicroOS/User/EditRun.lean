import MicroOS.User.Edit

/-!
Runs of the editor.

* `newlines`: the line breaks among the first characters of a buffer, and how they change when a
  character comes or goes;
* `Placed`, `Counted`: the buffer is a block of the heap, and the counters fit it;
* `Placed.reallocBuffer`, `Placed.setMem`: what the allocator and the stores into the block keep;
* `edited_iff`: one event is handled well exactly when the condition `Kept` holds, if an insertion
  stays inside its block;
* `editor_consistent_iff`: so are all events of a run.
-/

namespace MicroOS

open ByteMem Run

/-! ### Line breaks -/

/-- The line breaks among the first `k` characters. -/
def newlines (f : ℕ → UInt8) : ℕ → ℕ
  | 0 => 0
  | k + 1 => newlines f k + if f k = newline then 1 else 0

section Newlines

variable {f g : ℕ → UInt8} {i j k n : ℕ} {c : UInt8}

/-- The newlines depend on the characters alone. -/
lemma newlines_congr (h : ∀ i < k, g i = f i) : newlines g k = newlines f k := by
  induction k with
  | zero => rfl
  | succ k ih =>
    rw [newlines, newlines, ih fun i hi => h i (hi.trans (Nat.lt_succ_self k)),
      h k (Nat.lt_succ_self k)]

/-- More characters have no fewer newlines. -/
lemma newlines_mono (h : j ≤ k) : newlines f j ≤ newlines f k := by
  induction h with
  | refl => exact le_rfl
  | step _ ih => exact ih.trans (Nat.le_add_right _ _)

/-- A newline is a character. -/
lemma newlines_le (f : ℕ → UInt8) (k : ℕ) : newlines f k ≤ k := by
  induction k with
  | zero => exact le_rfl
  | succ k ih =>
    rw [newlines]
    split_ifs <;> omega

/-- The newlines of a text are those of its characters. -/
lemma count_map_range (f : ℕ → UInt8) (k : ℕ) :
    ((List.range k).map f).count newline = newlines f k := by
  induction k with
  | zero => rfl
  | succ k ih =>
    rw [List.range_succ, List.map_append, List.count_append, ih, newlines, List.map_singleton,
      List.count_singleton]
    simp only [beq_iff_eq]

/-- A character comes to the `j`-th place. -/
lemma newlines_insert (hlow : ∀ i < j, g i = f i) (hself : g j = c)
    (hhigh : ∀ i, j ≤ i → i < n → g (i + 1) = f i) (hj : j ≤ k) (hk : k ≤ n) :
    newlines g (k + 1) = newlines f k + if c = newline then 1 else 0 := by
  induction k, hj using Nat.le_induction with
  | base => rw [newlines, newlines_congr hlow, hself]
  | succ k hj ih =>
    rw [newlines, ih (by omega), hhigh k hj (by omega), newlines, Nat.add_right_comm]

/-- The character at the `j`-th place goes. -/
lemma newlines_delete (hlow : ∀ i < j, g i = f i)
    (hhigh : ∀ i, j ≤ i → i + 1 < n → g i = f (i + 1)) (hj : j ≤ k) (hk : k < n) :
    newlines g k + (if f j = newline then 1 else 0) = newlines f (k + 1) := by
  induction k, hj using Nat.le_induction with
  | base => rw [newlines, newlines_congr hlow]
  | succ k hj ih =>
    rw [newlines, newlines, ← ih (by omega), hhigh k hj hk, Nat.add_right_comm]

/-- A character is inserted when those behind it are moved up. -/
lemma map_range_insertIdx (hlow : ∀ i < j, g i = f i) (hself : g j = c)
    (hhigh : ∀ i, j ≤ i → i < n → g (i + 1) = f i) (hj : j ≤ n) :
    (List.range (n + 1)).map g = ((List.range n).map f).insertIdx j c := by
  have hlen : ((List.range n).map f).length = n := by rw [List.length_map, List.length_range]
  refine List.ext_getElem (by rw [List.length_insertIdx_of_le_length (by omega), hlen]; simp) ?_
  intro i hi hi'
  rw [List.length_map, List.length_range] at hi
  rw [List.getElem_insertIdx, List.getElem_map, List.getElem_range]
  split_ifs with hlt heq
  · rw [hlow i hlt, List.getElem_map, List.getElem_range]
  · rw [heq, hself]
  · obtain ⟨i, rfl⟩ : ∃ k, i = k + 1 := ⟨i - 1, by omega⟩
    rw [hhigh i (by omega) (by omega), List.getElem_map, List.getElem_range, Nat.add_sub_cancel]

/-- One is taken out when those behind it are moved down. -/
lemma map_range_eraseIdx (hlow : ∀ i < j, g i = f i)
    (hhigh : ∀ i, j ≤ i → i + 1 < n → g i = f (i + 1)) (hj : j < n) :
    (List.range (n - 1)).map g = ((List.range n).map f).eraseIdx j := by
  have hlen : ((List.range n).map f).length = n := by rw [List.length_map, List.length_range]
  refine List.ext_getElem (by rw [List.length_eraseIdx_of_lt (by omega), hlen]; simp) ?_
  intro i hi hi'
  rw [List.length_map, List.length_range] at hi
  rw [List.getElem_eraseIdx, List.getElem_map, List.getElem_range]
  split_ifs with hlt
  · rw [hlow i hlt, List.getElem_map, List.getElem_range]
  · rw [hhigh i (by omega) (by omega), List.getElem_map, List.getElem_range]

end Newlines

namespace EditState

variable {s t : EditState} {e : EditEvent} {c : UInt8} {m : Mem}

lemma length_text (s : EditState) : s.text.length = s.currentSize := by
  rw [text, List.length_map, List.length_range]

/-- **The cursor and the counters fit the text**, in numbers. -/
lemma editConsistent_iff : EditConsistent s ↔ s.bufferIdx ≤ s.currentSize ∧
    s.lnCnt = newlines s.byteAt s.currentSize ∧ s.bufferLnIdx = newlines s.byteAt s.bufferIdx := by
  have htotal : s.text.count newline = newlines s.byteAt s.currentSize := count_map_range _ _
  have htake : s.bufferIdx ≤ s.currentSize →
      (s.text.take s.bufferIdx).count newline = newlines s.byteAt s.bufferIdx := by
    intro hle
    rw [text, ← List.map_take, List.take_range, Nat.min_eq_left hle, count_map_range]
  constructor
  · rintro ⟨hidx, hcnt, hln⟩
    rw [length_text] at hidx
    exact ⟨hidx, hcnt.trans htotal, hln.trans (htake hidx)⟩
  · rintro ⟨hidx, hcnt, hln⟩
    exact ⟨hidx.trans_eq s.length_text.symm, hcnt.trans htotal.symm, hln.trans (htake hidx).symm⟩

/-- The fields that hold the text and the counters of lines are the same. -/
structure SameText (s t : EditState) : Prop where
  client : s.client = t.client
  inputBuffer : s.inputBuffer = t.inputBuffer
  lnCnt : s.lnCnt = t.lnCnt
  bufferLnIdx : s.bufferLnIdx = t.bufferLnIdx
  bufferIdx : s.bufferIdx = t.bufferIdx
  currentSize : s.currentSize = t.currentSize

/-- The characters depend on the buffer alone. -/
lemma byteAt_congr (hclient : s.client = t.client) (hbuffer : s.inputBuffer = t.inputBuffer) :
    s.byteAt = t.byteAt := by
  funext i
  rw [byteAt, byteAt, mem, mem, hclient, hbuffer]

lemma SameText.byteAt_eq (h : SameText s t) : s.byteAt = t.byteAt :=
  byteAt_congr h.client h.inputBuffer

lemma SameText.text_eq (h : SameText s t) : s.text = t.text := by
  rw [text, text, h.byteAt_eq, h.currentSize]

lemma SameText.consistent_iff (h : SameText s t) : EditConsistent s ↔ EditConsistent t := by
  rw [editConsistent_iff, editConsistent_iff, h.byteAt_eq, h.currentSize, h.lnCnt, h.bufferLnIdx,
    h.bufferIdx]

/-- A command is carried out. -/
def perform (s : EditState) : EditCommand → EditState
  | .up => s.moveUp
  | .down => s.moveDown
  | .left => s.moveLeft
  | .right => s.moveRight
  | .insert c => s.insertChar c
  | .backspace => s.backspace
  | .other => s

/-- A key in the insert mode edits the text as its operation does. -/
lemma insertInput_sameText (s : EditState) (c : UInt8) :
    SameText (s.insertInput c) (s.perform
      (if c = 8 then .backspace else if c = 27 then .other else .insert c)) := by
  rw [insertInput.eq_def]
  split
  · exact ⟨rfl, rfl, rfl, rfl, rfl, rfl⟩
  · exact ⟨rfl, rfl, rfl, rfl, rfl, rfl⟩
  · next h8 h27 =>
      rw [if_neg h8, if_neg h27]
      exact ⟨rfl, rfl, rfl, rfl, rfl, rfl⟩

/-- A key in the command mode edits the text as its operation does. -/
lemma commandInput_sameText (s : EditState) (c : UInt8) :
    SameText (s.commandInput c).1 (s.perform
      (if c = 97 then .left else if c = 100 then .right else if c = 119 then .up
        else if c = 115 then .down else .other)) := by
  rw [commandInput.eq_def]
  split
  case h_8 h97 h100 h119 h115 _ =>
    rw [if_neg h97, if_neg h100, if_neg h119, if_neg h115]
    exact ⟨rfl, rfl, rfl, rfl, rfl, rfl⟩
  all_goals exact ⟨rfl, rfl, rfl, rfl, rfl, rfl⟩

/-- **An input is its command.** -/
lemma step_sameText (s : EditState) (i : EditInput) :
    SameText (s.step (.input i)) (s.perform (s.command (.input i))) := by
  cases i with
  | up | down | left | right => exact ⟨rfl, rfl, rfl, rfl, rfl, rfl⟩
  | char c =>
    rw [step, listenInput, command]
    by_cases hmode : s.isInInsertMode = true
    · rw [if_pos hmode, if_pos hmode]
      exact insertInput_sameText s c
    · rw [if_neg hmode, if_neg hmode]
      exact commandInput_sameText s c

/-! ### The buffer in the heap -/

section SetIdx

variable (s : EditState) (i : ℕ)

@[simp] lemma setIdx_client : (s.setIdx i).client = s.client := rfl

@[simp] lemma setIdx_inputBuffer : (s.setIdx i).inputBuffer = s.inputBuffer := rfl

@[simp] lemma setIdx_currentSize : (s.setIdx i).currentSize = s.currentSize := rfl

@[simp] lemma setIdx_bufferIdx : (s.setIdx i).bufferIdx = i := rfl

@[simp] lemma setIdx_lnCnt : (s.setIdx i).lnCnt = s.lnCnt := rfl

@[simp] lemma setIdx_bufferLnIdx : (s.setIdx i).bufferLnIdx = s.bufferLnIdx := rfl

end SetIdx

/-- The buffer is a block of the heap with room for the text, or null when there is no text. -/
structure Placed (s : EditState) : Prop where
  heap : ∃ segs, ClientInv s.client segs
  start : s.client.heap.heapStart = 0xD0000000
  null : s.currentSize = 0 → s.inputBuffer = 0
  held : 0 < s.currentSize → (s.inputBuffer, s.currentSize) ∈ s.client.live

/-- The heap, the buffer and the size matter. -/
lemma Placed.congr (h : Placed t) (hclient : s.client = t.client)
    (hbuffer : s.inputBuffer = t.inputBuffer) (hsize : s.currentSize = t.currentSize) :
    Placed s := by
  obtain ⟨hheap, hstart, hnull, hheld⟩ := h
  rw [← hclient] at hheap hstart hheld
  rw [← hsize, ← hbuffer] at hnull hheld
  exact ⟨hheap, hstart, hnull, hheld⟩

/-- The room of the block that the buffer is in. -/
def capacity (s : EditState) : ℕ := s.client.heap.capacity s.inputBuffer

/-- Where the buffer lies when there is a text. -/
lemma Placed.bounds (h : Placed s) (hpos : 0 < s.currentSize) :
    0xD0000010 ≤ s.inputBuffer ∧ s.currentSize ≤ s.capacity ∧
      s.inputBuffer + s.capacity ≤ s.client.heap.heapEnd ∧ s.client.heap.heapEnd < 2 ^ 32 ∧
        16 ∣ s.capacity := by
  obtain ⟨segs, hc⟩ := h.heap
  have hstart := h.start
  obtain ⟨h1, h2, h3, h4, h5⟩ := hc.live_bounds (h.held hpos)
  exact ⟨by omega, h2, h3, h4, h5⟩

/-- The characters can be counted in an `int`. -/
lemma Placed.size_lt (h : Placed s) : s.currentSize < 2 ^ 31 := by
  rcases Nat.eq_zero_or_pos s.currentSize with hzero | hpos
  · omega
  · have := h.bounds hpos
    omega

/-- The buffer does not wrap around the end of memory. -/
lemma Placed.end_lt (h : Placed s) : s.inputBuffer + s.currentSize < 2 ^ 32 := by
  rcases Nat.eq_zero_or_pos s.currentSize with hzero | hpos
  · rw [hzero, h.null hzero]
    omega
  · have := h.bounds hpos
    omega

/-- A character of the text does not wrap. -/
lemma byteAt_of_le (h : Placed s) {i : ℕ} (hi : i ≤ s.currentSize) :
    s.byteAt i = s.mem (s.inputBuffer + i) := by
  have hend := h.end_lt
  rw [byteAt, wrap32_of_lt (by omega)]

/-- **Stores into the block** of the buffer. -/
lemma Placed.setMem (h : Placed s) (hpos : 0 < s.currentSize)
    (hm : ∀ x, x < s.inputBuffer ∨ s.inputBuffer + s.capacity ≤ x → m x = s.mem x) :
    Placed (s.setMem m) := by
  obtain ⟨segs, hc⟩ := h.heap
  have hout : ∀ x ∉ s.client.heap.block s.inputBuffer, m x = s.client.heap.mem x := by
    intro x hx
    refine hm x ?_
    simp only [Heap.block, Set.mem_Ico] at hx
    rw [capacity]
    omega
  exact ⟨⟨segs, (hc.overwrite (h.held hpos) hout).1⟩, h.start, h.null, h.held⟩

/-- A call of the heap keeps its start. -/
lemma call_heapStart {c c' : Client} {op : HeapCall} {r : ℕ} (hcall : c.call op = some (c', r)) :
    c'.heap.heapStart = c.heap.heapStart := by
  obtain ⟨⟨h', r'⟩, hexec, hout⟩ := Option.map_eq_some_iff.mp hcall
  obtain ⟨rfl, -⟩ := Prod.mk.inj hout
  rw [HeapCall.exec_eq] at hexec
  exact (HeapCall.execWith_grows hexec).start

lemma toNat_ofNat_size {n : ℕ} (hn : n < 2 ^ 31) : (UInt32.ofNat n).toNat = n := by
  rw [UInt32.toNat_ofNat', Nat.mod_eq_of_lt (by omega)]

/-- The buffer after a `realloc`. -/
lemma reallocBuffer_eq {c' : Client} {r : ℕ} (hclient : t.client = s.client)
    (hbuffer : t.inputBuffer = s.inputBuffer)
    (hcall : s.client.call (.realloc s.inputBuffer (UInt32.ofNat t.currentSize)) = some (c', r)) :
    t.reallocBuffer = { t with client := c', inputBuffer := r } := by
  rw [EditState.reallocBuffer, hclient, hbuffer, hcall]
  rfl

/-- `realloc` leaves the counters alone. -/
lemma reallocBuffer_counts (s : EditState) : s.reallocBuffer.currentSize = s.currentSize ∧
    s.reallocBuffer.bufferIdx = s.bufferIdx ∧ s.reallocBuffer.lnCnt = s.lnCnt ∧
    s.reallocBuffer.bufferLnIdx = s.bufferLnIdx := by
  rw [EditState.reallocBuffer]
  exact ⟨rfl, rfl, rfl, rfl⟩

/-- **`realloc` of the buffer** to the size of a state `t` with the same heap and buffer: the new
buffer is a block of that size, and the characters that both sizes have are kept. -/
lemma Placed.reallocBuffer (h : Placed s) (hclient : t.client = s.client)
    (hbuffer : t.inputBuffer = s.inputBuffer) (hlt : t.currentSize < 2 ^ 31)
    (hsome : 0 < s.currentSize ∨ 0 < t.currentSize)
    (hfits : s.client.Fits (.realloc s.inputBuffer (UInt32.ofNat t.currentSize))) :
    Placed t.reallocBuffer ∧
      ∀ i < s.currentSize, i < t.currentSize → t.reallocBuffer.byteAt i = s.byteAt i := by
  obtain ⟨segs, hc⟩ := h.heap
  have hnat := toNat_ofNat_size hlt
  set n := UInt32.ofNat t.currentSize with hn
  have hlive : 0 < s.currentSize → s.client.Live s.inputBuffer :=
    fun hpos => List.mem_map_of_mem (h.held hpos)
  have hlegal : s.client.Legal (.realloc s.inputBuffer n) := by
    rcases Nat.eq_zero_or_pos s.currentSize with hzero | hpos
    · exact .inr ⟨h.null hzero, by omega⟩
    · exact .inl (hlive hpos)
  obtain ⟨c', r, segs', hcall, hc', hspec⟩ := hc.call hlegal hfits
  have hafter := reallocBuffer_eq hclient hbuffer hcall
  have hr : 0 < t.currentSize → r ≠ 0 := fun hpos =>
    hc.call_realloc_ne_zero hlegal hfits (by omega) (by omega) hcall
  have hplaced : Placed t.reallocBuffer := by
    rw [hafter]
    refine ⟨⟨segs', hc'⟩, (call_heapStart hcall).trans h.start, fun hzero => ?_, fun hpos => ?_⟩
    · -- A block that is given up leaves null.
      have hzero' : n.toNat = 0 := hnat.trans hzero
      obtain ⟨⟨h', r'⟩, hexec, hout⟩ := Option.map_eq_some_iff.mp hcall
      rw [HeapCall.exec, hzero', realloc_zero, Option.some.injEq, Prod.mk.injEq] at hexec
      exact (Prod.mk.inj hout).2.symm.trans hexec.2.symm
    · have hmem := hspec.returned (hr hpos) n.toNat_lt
      rwa [HeapCall.bytes, hnat] at hmem
  refine ⟨hplaced, fun i hold hnew => ?_⟩
  have hcap := (h.bounds (by omega)).2.1
  have hmoved := hspec.moved _ _ rfl (hlive (by omega)) (hr (by omega)) i
    (lt_min (hold.trans_le hcap) (hnat.symm ▸ hnew))
  have hsize : t.reallocBuffer.currentSize = t.currentSize := t.reallocBuffer_counts.1
  rw [byteAt_of_le hplaced (hsize ▸ hnew.le), byteAt_of_le h hold.le, hafter]
  exact hmoved

/-! ### The cursor -/

/-- The cursor and the counters fit the text, in numbers. -/
structure Counted (s : EditState) : Prop extends Placed s where
  idx_le : s.bufferIdx ≤ s.currentSize
  lnCnt_eq : s.lnCnt = newlines s.byteAt s.currentSize
  lnIdx_eq : s.bufferLnIdx = newlines s.byteAt s.bufferIdx

lemma Counted.lnIdx_le (h : Counted s) : s.bufferLnIdx ≤ s.lnCnt := by
  rw [h.lnIdx_eq, h.lnCnt_eq]
  exact newlines_mono h.idx_le

lemma Counted.lnCnt_lt (h : Counted s) : s.lnCnt < 2 ^ 31 :=
  (h.lnCnt_eq.trans_le (newlines_le _ _)).trans_lt h.size_lt

/-- The loop of `move_up` ends at the line break before. -/
lemma moveUpLoop_spec {f : ℕ → UInt8} {i : ℕ} (hi : i < 2 ^ 31) (h : newlines f i ≠ 0) :
    moveUpLoop f i i < i ∧ newlines f (moveUpLoop f i i) + 1 = newlines f i := by
  induction i with
  | zero => exact absurd rfl h
  | succ i ih =>
    have hsub : sub32 (i + 1) 1 = i := by
      rw [sub32_of_le (by omega) (by omega)]
      omega
    rw [moveUpLoop, hsub, newlines]
    split_ifs with hnl
    · exact ⟨Nat.lt_succ_self i, rfl⟩
    · rw [newlines, if_neg hnl, Nat.add_zero] at h
      obtain ⟨hlt, heq⟩ := ih (by omega) h
      exact ⟨by omega, heq⟩

/-- The loop of `move_down` ends behind the next line break, or at the end of the text. -/
lemma moveDownLoop_spec {f : ℕ → UInt8} {size n i : ℕ} (hsize : size < 2 ^ 31)
    (hn : i + n = size) :
    (newlines f i < newlines f size → moveDownLoop f size n i i ≤ size ∧
      newlines f (moveDownLoop f size n i i) = newlines f i + 1) ∧
    (newlines f i = newlines f size → moveDownLoop f size n i i = size) := by
  induction n generalizing i with
  | zero =>
    obtain rfl : i = size := hn
    exact ⟨fun hlt => absurd hlt (lt_irrefl _), fun _ => rfl⟩
  | succ n ih =>
    rw [moveDownLoop, wrap32_of_lt (show i + 1 < 2 ^ 32 by omega)]
    have hmono : newlines f (i + 1) ≤ newlines f size := newlines_mono (by omega)
    have hnext : newlines f (i + 1) = newlines f i + if f i = newline then 1 else 0 := rfl
    by_cases hnl : f i = newline
    · rw [if_pos hnl] at hnext
      rw [if_pos (.inl hnl)]
      exact ⟨fun _ => ⟨by omega, hnext⟩, fun heq => by omega⟩
    · have hsame : newlines f (i + 1) = newlines f i := hnext.trans (by rw [if_neg hnl]; rfl)
      rw [if_neg (not_or.mpr ⟨hnl, by omega⟩), ← hsame]
      exact ih (by omega)

/-- **Moving up** keeps the counts and the text. -/
lemma Counted.moveUp (h : Counted s) : Counted s.moveUp ∧ s.moveUp.text = s.text := by
  rw [EditState.moveUp]
  by_cases hstop : s.bufferLnIdx = 0 ∨ s.bufferIdx = 0
  · rw [if_pos hstop]
    exact ⟨h, rfl⟩
  · have hidx : s.bufferIdx < 2 ^ 31 := h.idx_le.trans_lt h.size_lt
    have hne : newlines s.byteAt s.bufferIdx ≠ 0 := fun h0 => hstop (.inl (h.lnIdx_eq.trans h0))
    have hle := h.lnIdx_le
    have hlt := h.lnCnt_lt
    obtain ⟨hlow, heq⟩ := moveUpLoop_spec hidx hne
    rw [if_neg hstop, if_pos hidx, sub32_of_le (by omega) (by omega), h.lnIdx_eq, ← heq]
    exact ⟨⟨⟨h.heap, h.start, h.null, h.held⟩, hlow.le.trans h.idx_le, h.lnCnt_eq, rfl⟩, rfl⟩

/-- `move_down` is right unless the text is one line and the cursor is within it. -/
lemma Counted.moveDown (h : Counted s) :
    (EditConsistent s.moveDown ↔ (s.lnCnt = 0 → s.currentSize ≤ s.bufferIdx)) ∧
      Placed s.moveDown ∧ s.moveDown.text = s.text := by
  have hconsistent : EditConsistent s := editConsistent_iff.mpr ⟨h.idx_le, h.lnCnt_eq, h.lnIdx_eq⟩
  have hlt := h.lnCnt_lt
  have hle := h.lnIdx_le
  have hspec := moveDownLoop_spec (f := s.byteAt) h.size_lt (Nat.add_sub_cancel' h.idx_le)
  rw [EditState.moveDown]
  by_cases hstop : sub32 s.lnCnt 1 ≤ s.bufferLnIdx ∨ s.currentSize ≤ s.bufferIdx
  · rw [if_pos hstop]
    refine ⟨⟨fun _ hzero => hstop.resolve_left ?_, fun _ => hconsistent⟩, h.toPlaced, rfl⟩
    rw [hzero, show s.bufferLnIdx = 0 by omega]
    decide
  · rw [if_neg hstop]
    obtain ⟨hmore, hwithin⟩ := not_or.mp hstop
    rw [← h.lnIdx_eq, ← h.lnCnt_eq] at hspec
    rcases Nat.lt_or_eq_of_le hle with hline | hlast
    · -- There is a line break behind the cursor.
      obtain ⟨hend, heq⟩ := hspec.1 hline
      dsimp only
      rw [if_neg (not_lt.mpr hend), wrap32_of_lt (by omega)]
      refine ⟨⟨fun _ hzero => by omega, fun _ => ?_⟩, ⟨h.heap, h.start, h.null, h.held⟩, rfl⟩
      exact editConsistent_iff.mpr ⟨hend, h.lnCnt_eq, heq.symm⟩
    · -- There is none, and the guard is passed only because the number of line breaks wraps.
      have hzero : s.lnCnt = 0 := by
        by_contra hne
        rw [sub32_of_le (by omega) (by omega)] at hmore
        omega
      have hend := hspec.2 hlast
      dsimp only
      rw [hend, if_neg (lt_irrefl _), wrap32_of_lt (by omega)]
      refine ⟨⟨fun hc => ?_, fun hkept => absurd (hkept hzero) hwithin⟩,
        ⟨h.heap, h.start, h.null, h.held⟩, rfl⟩
      have hcount := (editConsistent_iff.mp hc).2.2
      exact absurd (hcount.trans h.lnCnt_eq.symm) (by dsimp only; omega)

/-- **Moving left** keeps the counts and the text. -/
lemma Counted.moveLeft (h : Counted s) : Counted s.moveLeft ∧ s.moveLeft.text = s.text := by
  rw [EditState.moveLeft]
  by_cases hstop : s.bufferIdx = 0
  · rw [if_pos hstop]
    exact ⟨h, rfl⟩
  · obtain ⟨idx, hidx⟩ := Nat.exists_eq_succ_of_ne_zero hstop
    have hle := h.idx_le
    have hsize := h.size_lt
    have hln := h.lnIdx_le.trans_lt h.lnCnt_lt
    have hsub : sub32 s.bufferIdx 1 = idx := by
      rw [sub32_of_le (by omega) (by omega)]
      omega
    have hcount : s.bufferLnIdx = newlines s.byteAt idx +
        if s.byteAt idx = newline then 1 else 0 := by rw [h.lnIdx_eq, hidx, newlines]
    rw [if_neg hstop, leaveLine, hsub]
    by_cases hnl : s.byteAt idx = newline
    · rw [if_pos hnl] at hcount ⊢
      dsimp only
      rw [sub32_of_le (by omega) (by omega), hsub, hcount, Nat.add_sub_cancel]
      exact ⟨⟨⟨h.heap, h.start, h.null, h.held⟩, by dsimp only; omega, h.lnCnt_eq, rfl⟩, rfl⟩
    · rw [if_neg hnl] at hcount ⊢
      dsimp only
      rw [hsub]
      exact ⟨⟨⟨h.heap, h.start, h.null, h.held⟩, by dsimp only; omega, h.lnCnt_eq, hcount⟩, rfl⟩

/-- **Moving right** keeps the counts and the text. -/
lemma Counted.moveRight (h : Counted s) : Counted s.moveRight ∧ s.moveRight.text = s.text := by
  rw [EditState.moveRight]
  by_cases hgo : s.bufferIdx < s.currentSize
  · have hsize := h.size_lt
    have hln := h.lnIdx_le.trans_lt h.lnCnt_lt
    have hcount : newlines s.byteAt (s.bufferIdx + 1) = s.bufferLnIdx +
        if s.byteAt s.bufferIdx = newline then 1 else 0 := by rw [newlines, h.lnIdx_eq]
    rw [if_pos hgo]
    by_cases hnl : s.byteAt s.bufferIdx = newline
    · rw [if_pos hnl] at hcount ⊢
      dsimp only
      rw [wrap32_of_lt (by omega), wrap32_of_lt (by omega)]
      exact ⟨⟨⟨h.heap, h.start, h.null, h.held⟩, hgo, h.lnCnt_eq, hcount.symm⟩, rfl⟩
    · rw [if_neg hnl] at hcount ⊢
      dsimp only
      rw [wrap32_of_lt (by omega)]
      exact ⟨⟨⟨h.heap, h.start, h.null, h.held⟩, hgo, h.lnCnt_eq, hcount.symm⟩, rfl⟩
  · rw [if_neg hgo]
    exact ⟨h, rfl⟩

/-! ### Insertion -/

/-- The state in which the buffer is reallocated for one more character. -/
def grown (s : EditState) (c : UInt8) : EditState :=
  let s := s.countInput c
  { s with isEdited := true, currentSize := wrap32 (s.currentSize + 1) }

/-- The state in which the new character is stored. -/
def roomMade (s : EditState) (c : UInt8) : EditState := (s.grown c).reallocBuffer.makeRoom

/-- An insertion makes room, writes the character and moves the cursor. -/
lemma insertChar_eq (s : EditState) (c : UInt8) : s.insertChar c =
    ((s.roomMade c).setMem (writeByte (s.roomMade c).mem
      (wrap32 ((s.roomMade c).inputBuffer + (s.roomMade c).bufferIdx)) c)).setIdx
        (wrap32 ((s.roomMade c).bufferIdx + 1)) := by
  rw [insertChar]
  rfl

/-- What the insertion counts. -/
lemma grown_fields (s : EditState) (c : UInt8) : (s.grown c).client = s.client ∧
    (s.grown c).inputBuffer = s.inputBuffer ∧ (s.grown c).bufferIdx = s.bufferIdx ∧
    (s.grown c).currentSize = wrap32 (s.currentSize + 1) ∧
    (s.grown c).lnCnt = (if c = newline then wrap32 (s.lnCnt + 1) else s.lnCnt) ∧
    (s.grown c).bufferLnIdx =
      if c = newline then wrap32 (s.bufferLnIdx + 1) else s.bufferLnIdx := by
  rw [grown, countInput]
  split_ifs
  · exact ⟨rfl, rfl, rfl, rfl, rfl, rfl⟩
  · exact ⟨rfl, rfl, rfl, rfl, rfl, rfl⟩

/-- **The block of the longer text** has a byte behind the text, except when it is the old one and
the text now fills it: a new one has a multiple of sixteen bytes, as the old one had, which was
full. -/
lemma Placed.room (h : Placed s) (ht : Placed (s.grown c).reallocBuffer)
    (hsize : s.currentSize + 1 < 2 ^ 31)
    (hfits : s.client.Fits (.realloc s.inputBuffer (UInt32.ofNat (s.currentSize + 1)))) :
    s.currentSize + 1 < (s.grown c).reallocBuffer.capacity ∨
      (0 < s.currentSize ∧ s.capacity = s.currentSize + 1 ∧
        (s.grown c).reallocBuffer.client.heap = s.client.heap ∧
        (s.grown c).reallocBuffer.inputBuffer = s.inputBuffer) := by
  obtain ⟨hclient, hbuffer, -, hgrown, -⟩ := s.grown_fields c
  rw [wrap32_of_lt (by omega)] at hgrown
  have hsize' : (s.grown c).reallocBuffer.currentSize = s.currentSize + 1 :=
    (s.grown c).reallocBuffer_counts.1.trans hgrown
  obtain ⟨-, hcap, -, -, hdvd⟩ := ht.bounds (by omega)
  rw [hsize'] at hcap
  by_cases h16 : 16 ∣ s.currentSize + 1
  · have hpos : 0 < s.currentSize := by omega
    obtain ⟨-, hold, -, -, hdvd'⟩ := h.bounds hpos
    obtain ⟨segs, hc⟩ := h.heap
    have hnat := toNat_ofNat_size hsize
    have hlive : s.client.Live s.inputBuffer := List.mem_map_of_mem (h.held hpos)
    have hlegal : s.client.Legal (.realloc s.inputBuffer (UInt32.ofNat (s.currentSize + 1))) :=
      .inl hlive
    obtain ⟨c', r, -, hcall, -⟩ := hc.call hlegal hfits
    obtain ⟨hheap, rfl⟩ := hc.call_realloc_of_le hlive (by omega)
      (by rw [hnat]; rw [capacity] at hold hdvd'; omega) hcall
    have hafter := reallocBuffer_eq hclient hbuffer (hgrown ▸ hcall)
    have hsame : (s.grown c).reallocBuffer.capacity = s.capacity := by
      rw [hafter, capacity, capacity]
      dsimp only
      rw [hheap]
    rcases Nat.lt_or_eq_of_le hcap with hlt | heq
    · exact .inl hlt
    · exact .inr ⟨hpos, hsame ▸ heq.symm, by rw [hafter]; exact hheap, by rw [hafter]⟩
  · exact .inl (lt_of_le_of_ne hcap fun heq => h16 (heq ▸ hdvd))

/-- **The text behind the cursor is moved up** within the block, or the byte behind the block gets
the value that it has. -/
lemma Placed.makeRoom {k : ℕ} (h : Placed t) (hk : t.currentSize = k + 1) (hidx : t.bufferIdx ≤ k)
    (hroom : k + 1 < t.capacity ∨ (t.inputBuffer + k + 1 < t.client.heap.heapEnd ∧
      t.mem (t.inputBuffer + k + 1) = t.mem (t.inputBuffer + k))) :
    Placed t.makeRoom ∧ (∀ i < t.bufferIdx, t.makeRoom.byteAt i = t.byteAt i) ∧
      ∀ i, t.bufferIdx ≤ i → i < k → t.makeRoom.byteAt (i + 1) = t.byteAt i := by
  have hpos : 0 < t.currentSize := by omega
  have hsize := h.size_lt
  obtain ⟨-, hcap, hend, htop, -⟩ := h.bounds hpos
  have hlast : t.inputBuffer + k + 1 < 2 ^ 32 := by
    rcases hroom with hlt | ⟨hlt, -⟩ <;> omega
  have hmade : t.makeRoom = t.setMem (memmove t.mem (t.inputBuffer + (t.bufferIdx + 1))
      (t.inputBuffer + t.bufferIdx) (k + 1 - t.bufferIdx)) := by
    rw [EditState.makeRoom, hk, wrap32_of_lt (show t.bufferIdx + 1 < 2 ^ 32 by omega),
      wrap32_of_lt (show t.inputBuffer + (t.bufferIdx + 1) < 2 ^ 32 by omega),
      wrap32_of_lt (show t.inputBuffer + t.bufferIdx < 2 ^ 32 by omega),
      sub32_of_le (by omega) (by omega)]
  have hmoved : ∀ i, t.bufferIdx ≤ i → i ≤ k → memmove t.mem (t.inputBuffer + (t.bufferIdx + 1))
      (t.inputBuffer + t.bufferIdx) (k + 1 - t.bufferIdx) (t.inputBuffer + (i + 1)) =
        t.mem (t.inputBuffer + i) := by
    intro i hi hik
    have heq : memmove t.mem (t.inputBuffer + (t.bufferIdx + 1)) (t.inputBuffer + t.bufferIdx)
        (k + 1 - t.bufferIdx) (t.inputBuffer + (t.bufferIdx + 1) + (i - t.bufferIdx)) =
          t.mem (t.inputBuffer + t.bufferIdx + (i - t.bufferIdx)) :=
      memmove_apply (by omega) (by omega) (by omega)
    rwa [show t.inputBuffer + (t.bufferIdx + 1) + (i - t.bufferIdx) =
      t.inputBuffer + (i + 1) by omega,
      show t.inputBuffer + t.bufferIdx + (i - t.bufferIdx) = t.inputBuffer + i by omega] at heq
  have hplaced : Placed t.makeRoom := by
    rw [hmade]
    refine h.setMem hpos fun x hx => ?_
    by_cases hbehind : x = t.inputBuffer + (k + 1)
    · -- The byte behind the block is moved there from the last byte of the block.
      subst hbehind
      rcases hroom with hlt | ⟨-, heq⟩
      · omega
      · rw [hmoved k hidx le_rfl]
        exact heq.symm
    · exact memmove_of_disjoint (by omega) (by omega)
  have hsize' : t.makeRoom.currentSize = k + 1 := hk
  have hbuffer : t.makeRoom.inputBuffer = t.inputBuffer := rfl
  refine ⟨hplaced, fun i hi => ?_, fun i hi hik => ?_⟩
  · rw [byteAt_of_le hplaced (by omega), byteAt_of_le h (by omega), hbuffer, hmade]
    exact memmove_of_disjoint (by omega) (by omega)
  · rw [byteAt_of_le hplaced (by omega), byteAt_of_le h (by omega), hbuffer, hmade]
    exact hmoved i hi hik.le

/-- **The new buffer** is placed, and the characters are where the insertion puts them. -/
lemma insertChar_spec (h : Placed s) (hidx : s.bufferIdx ≤ s.currentSize)
    (hfits : s.client.Fits (.realloc s.inputBuffer (UInt32.ofNat (s.currentSize + 1))))
    (hinside : s.inputBuffer ≠ 0 → s.capacity = s.currentSize + 1 →
      s.inputBuffer + s.currentSize + 1 < s.client.heap.heapEnd ∧
        s.byteAt (s.currentSize + 1) = s.byteAt s.currentSize) :
    Placed (s.insertChar c) ∧ (∀ i < s.bufferIdx, (s.insertChar c).byteAt i = s.byteAt i) ∧
      (s.insertChar c).byteAt s.bufferIdx = c ∧
      ∀ i, s.bufferIdx ≤ i → i < s.currentSize →
        (s.insertChar c).byteAt (i + 1) = s.byteAt i := by
  have hsize : s.currentSize + 1 < 2 ^ 31 := by
    rcases Nat.eq_zero_or_pos s.currentSize with hzero | hpos
    · omega
    · have := h.bounds hpos
      omega
  obtain ⟨hclient, hbuffer, hgidx, hgrown, -⟩ := s.grown_fields c
  rw [wrap32_of_lt (by omega)] at hgrown
  obtain ⟨ht, hkept⟩ := h.reallocBuffer hclient hbuffer (by omega) (.inr (by omega))
    (by rw [hgrown]; exact hfits)
  obtain ⟨hsame, hsameIdx, -⟩ := (s.grown c).reallocBuffer_counts
  set t := (s.grown c).reallocBuffer with htdef
  have htsize : t.currentSize = s.currentSize + 1 := hsame.trans hgrown
  have htidx : t.bufferIdx = s.bufferIdx := hsameIdx.trans hgidx
  -- the loop reads one byte behind the text: the block holds it, or it lies inside the heap
  have hroom : s.currentSize + 1 < t.capacity ∨
      (t.inputBuffer + s.currentSize + 1 < t.client.heap.heapEnd ∧
        t.mem (t.inputBuffer + s.currentSize + 1) = t.mem (t.inputBuffer + s.currentSize)) := by
    rcases h.room ht hsize hfits with hlt | ⟨hpos, hcap, hheap, hptr⟩
    · exact .inl hlt
    · have hbounds := h.bounds hpos
      obtain ⟨hlt, heq⟩ := hinside (by omega) hcap
      rw [byteAt_of_le h le_rfl, byteAt, wrap32_of_lt (by omega)] at heq
      right
      rw [mem, hheap, hptr]
      exact ⟨hlt, heq⟩
  obtain ⟨hmade, hlow, hhigh⟩ := ht.makeRoom htsize (htidx.trans_le hidx) hroom
  rw [htidx] at hlow hhigh
  set u := t.makeRoom with hu
  have husize : u.currentSize = s.currentSize + 1 := htsize
  have huidx : u.bufferIdx = s.bufferIdx := htidx
  have hubounds := hmade.bounds (by omega)
  have hinsert : s.insertChar c =
      (u.setMem (writeByte u.mem (u.inputBuffer + s.bufferIdx) c)).setIdx
        (wrap32 (s.bufferIdx + 1)) := by
    have hroomMade : s.roomMade c = u := rfl
    rw [insertChar_eq, hroomMade, huidx, wrap32_of_lt (by omega)]
  have hwritten : Placed (u.setMem (writeByte u.mem (u.inputBuffer + s.bufferIdx) c)) :=
    hmade.setMem (by omega) fun x hx => writeByte_of_ne _ _ (by omega)
  have hplaced : Placed (s.insertChar c) := by
    rw [hinsert]
    exact ⟨hwritten.heap, hwritten.start, hwritten.null, hwritten.held⟩
  have hbyte : ∀ i ≤ s.currentSize, (s.insertChar c).byteAt i =
      writeByte u.mem (u.inputBuffer + s.bufferIdx) c (u.inputBuffer + i) := by
    intro i hi
    rw [hinsert, byteAt]
    refine congrArg _ (wrap32_of_lt ?_)
    change u.inputBuffer + i < 2 ^ 32
    omega
  refine ⟨hplaced, fun i hi => ?_, ?_, fun i hi hik => ?_⟩
  · -- before the cursor nothing moves, and behind it everything moves by one
    rw [hbyte i (by omega), writeByte_of_ne _ _ (by omega), ← byteAt_of_le hmade (by omega),
      hlow i hi, hkept i (by omega) (by omega)]
  · rw [hbyte _ hidx, writeByte_self]
  · rw [hbyte (i + 1) (by omega), writeByte_of_ne _ _ (by omega),
      ← byteAt_of_le hmade (by omega), hhigh i hi hik, hkept i hik (by omega)]

/-- The counts after an insertion. -/
lemma insertChar_fields (s : EditState) (c : UInt8) :
    (s.insertChar c).currentSize = wrap32 (s.currentSize + 1) ∧
    (s.insertChar c).bufferIdx = wrap32 (s.bufferIdx + 1) ∧
    (s.insertChar c).lnCnt = (if c = newline then wrap32 (s.lnCnt + 1) else s.lnCnt) ∧
    (s.insertChar c).bufferLnIdx =
      (if c = newline then wrap32 (s.bufferLnIdx + 1) else s.bufferLnIdx) := by
  obtain ⟨-, -, hidx, hsize, hcnt, hln⟩ := s.grown_fields c
  obtain ⟨hsize', hidx', hcnt', hln'⟩ := (s.grown c).reallocBuffer_counts
  have hsame : (s.roomMade c).bufferIdx = s.bufferIdx := hidx'.trans hidx
  rw [insertChar_eq, hsame]
  exact ⟨hsize'.trans hsize, rfl, hcnt'.trans hcnt, hln'.trans hln⟩

/-- **A character is inserted** before the cursor. -/
lemma Counted.insertChar (h : Counted s)
    (hfits : s.client.Fits (.realloc s.inputBuffer (UInt32.ofNat (s.currentSize + 1))))
    (hinside : s.inputBuffer ≠ 0 → s.capacity = s.currentSize + 1 →
      s.inputBuffer + s.currentSize + 1 < s.client.heap.heapEnd ∧
        s.byteAt (s.currentSize + 1) = s.byteAt s.currentSize) :
    Counted (s.insertChar c) ∧ (s.insertChar c).text = s.text.insertIdx s.bufferIdx c := by
  have hsize := h.size_lt
  have hidx := h.idx_le
  have hcnt := h.lnCnt_lt
  have hln := h.lnIdx_le
  obtain ⟨hplaced, hlow, hself, hhigh⟩ := insertChar_spec (c := c) h.toPlaced hidx hfits hinside
  obtain ⟨hsize', hidx', hcnt', hln'⟩ := insertChar_fields s c
  rw [wrap32_of_lt (by omega)] at hsize' hidx' hcnt' hln'
  refine ⟨⟨hplaced, ?_, ?_, ?_⟩, ?_⟩
  · rw [hsize', hidx']
    omega
  · rw [hsize', newlines_insert hlow hself hhigh hidx le_rfl, hcnt', ← h.lnCnt_eq]
    split_ifs <;> rfl
  · rw [hidx', newlines_insert hlow hself hhigh le_rfl hidx, hln', ← h.lnIdx_eq]
    split_ifs <;> rfl
  · rw [text, hsize', map_range_insertIdx hlow hself hhigh hidx, text]

/-! ### Backspace -/

/-- The line of the cursor before a newline is taken away. -/
lemma leaveLine_eq (s : EditState) : s.leaveLine = { s with
    bufferLnIdx :=
      if s.byteAt (sub32 s.bufferIdx 1) = newline then sub32 s.bufferLnIdx 1
      else s.bufferLnIdx } := by
  rw [leaveLine]
  split_ifs <;> rfl

/-- The count of lines when a newline is taken away. -/
lemma uncount_eq (s : EditState) : s.uncount = { s with
    lnCnt := if s.byteAt s.bufferIdx = newline then sub32 s.lnCnt 1 else s.lnCnt
    charCnt := if s.byteAt s.bufferIdx = newline then s.charCnt else sub32 s.charCnt 1 } := by
  rw [uncount]
  split_ifs <;> rfl

/-- The state in which the buffer is reallocated for one character less. -/
def shrunk (s : EditState) : EditState :=
  let s := s.leaveLine.shifted.uncount
  { s with currentSize := sub32 s.currentSize 1 }

/-- A backspace moves the characters, gives memory back and moves the cursor. -/
lemma backspace_eq (s : EditState) : s.backspace =
    s.shrunk.reallocBuffer.setIdx (sub32 s.shrunk.reallocBuffer.bufferIdx 1) := by
  rw [backspace, if_neg (by simp)]
  rfl

/-- What `backspace` counts. -/
lemma shrunk_fields (s : EditState) : s.shrunk.client = s.shifted.client ∧
    s.shrunk.inputBuffer = s.inputBuffer ∧ s.shrunk.bufferIdx = s.bufferIdx ∧
    s.shrunk.currentSize = sub32 s.currentSize 1 ∧
    s.shrunk.lnCnt =
      (if s.shifted.byteAt s.bufferIdx = newline then sub32 s.lnCnt 1 else s.lnCnt) ∧
    s.shrunk.bufferLnIdx =
      if s.byteAt (sub32 s.bufferIdx 1) = newline then sub32 s.bufferLnIdx 1
      else s.bufferLnIdx := by
  rw [shrunk, leaveLine_eq, uncount_eq]
  exact ⟨rfl, rfl, rfl, rfl, rfl, rfl⟩

/-- The counts after a backspace. -/
lemma backspace_fields (s : EditState) :
    s.backspace.currentSize = sub32 s.currentSize 1 ∧
    s.backspace.bufferIdx = sub32 s.bufferIdx 1 ∧
    s.backspace.lnCnt =
      (if s.shifted.byteAt s.bufferIdx = newline then sub32 s.lnCnt 1 else s.lnCnt) ∧
    s.backspace.bufferLnIdx =
      if s.byteAt (sub32 s.bufferIdx 1) = newline then sub32 s.bufferLnIdx 1
      else s.bufferLnIdx := by
  obtain ⟨-, -, hidx, hsize, hcnt, hln⟩ := s.shrunk_fields
  obtain ⟨hsize', hidx', hcnt', hln'⟩ := s.shrunk.reallocBuffer_counts
  rw [backspace_eq, hidx', hidx, setIdx_currentSize, setIdx_bufferIdx, setIdx_lnCnt,
    setIdx_bufferLnIdx]
  exact ⟨hsize'.trans hsize, rfl, hcnt'.trans hcnt, hln'.trans hln⟩

/-- The characters behind the cursor move down over the one before it, within the block. -/
lemma shifted_spec (h : Counted s) {j : ℕ} (hj : s.bufferIdx = j + 1) : Placed s.shifted ∧
    ∀ i ≤ s.currentSize, s.shifted.byteAt i =
      if j ≤ i ∧ i + 1 < s.currentSize then s.byteAt (i + 1) else s.byteAt i := by
  have hplaced := h.toPlaced
  have hidx := h.idx_le
  have hpos : 0 < s.currentSize := by omega
  obtain ⟨-, hcap, hend, htop, -⟩ := hplaced.bounds hpos
  have hbuffer : s.shifted.inputBuffer = s.inputBuffer := rfl
  have hsize : s.shifted.currentSize = s.currentSize := rfl
  by_cases hlast : s.bufferIdx = s.currentSize
  · have hsame : s.shifted = s := by
      rw [shifted, shiftedMem, if_pos hlast]
      rfl
    rw [hsame]
    exact ⟨hplaced, fun i _ => (if_neg (by omega)).symm⟩
  · have hmem : s.shifted = s.setMem (memmove s.mem (s.inputBuffer + j) (s.inputBuffer + (j + 1))
        (s.currentSize - (j + 1))) := by
      rw [shifted, shiftedMem, if_neg hlast, hj, sub32_of_le (by omega) (by omega),
        sub32_of_le (by omega) (by omega), Nat.add_sub_cancel,
        wrap32_of_lt (show s.inputBuffer + j < 2 ^ 32 by omega),
        wrap32_of_lt (show s.inputBuffer + (j + 1) < 2 ^ 32 by omega)]
    have hplaced' : Placed s.shifted := by
      rw [hmem]
      exact hplaced.setMem hpos fun x hx => memmove_of_disjoint (by omega) (by omega)
    refine ⟨hplaced', fun i hi => ?_⟩
    rw [byteAt_of_le hplaced' (hsize.symm ▸ hi), hbuffer, hmem]
    split_ifs with hin
    · have hmoved : memmove s.mem (s.inputBuffer + j) (s.inputBuffer + (j + 1))
          (s.currentSize - (j + 1)) (s.inputBuffer + j + (i - j)) =
            s.mem (s.inputBuffer + (j + 1) + (i - j)) :=
        memmove_apply (by omega) (by omega) (by omega)
      rw [byteAt_of_le hplaced (by omega), show s.inputBuffer + (i + 1) =
        s.inputBuffer + (j + 1) + (i - j) by omega, ← hmoved,
        show s.inputBuffer + j + (i - j) = s.inputBuffer + i by omega]
      rfl
    · rw [byteAt_of_le hplaced hi]
      exact memmove_of_disjoint (by omega) (by omega)

/-- The character that is looked at. -/
lemma shifted_behind (h : Counted s) {j : ℕ} (hj : s.bufferIdx = j + 1) :
    s.shifted.byteAt s.bufferIdx = s.behind := by
  rw [(shifted_spec h hj).2 _ h.idx_le, behind]
  split_ifs with h1 h2 h2
  · rfl
  · exact absurd h1.2 h2
  · exact absurd ⟨by omega, h2⟩ h1
  · rfl

/-- **A character is deleted** before the cursor, and the lines are counted right if the character
that is looked at is a line break exactly when that one is. -/
lemma Counted.backspace (h : Counted s) {j : ℕ} (hj : s.bufferIdx = j + 1) :
    (EditConsistent s.backspace ↔ (s.byteAt j = newline ↔ s.behind = newline)) ∧
      Placed s.backspace ∧ s.backspace.text = s.text.eraseIdx j := by
  have hsize := h.size_lt
  have hidx := h.idx_le
  have hcnt := h.lnCnt_lt
  have hln := h.lnIdx_le
  have hsub : sub32 s.bufferIdx 1 = j := by
    rw [sub32_of_le (by omega) (by omega)]
    omega
  obtain ⟨hsize', hidx', hcnt', hln'⟩ := backspace_fields s
  rw [sub32_of_le (by omega) (by omega)] at hsize'
  rw [hsub] at hidx' hln'
  rw [shifted_behind h hj] at hcnt'
  obtain ⟨hshifted, hshift⟩ := shifted_spec h hj
  obtain ⟨hplaced, hkept⟩ : Placed s.backspace ∧ ∀ i, i + 1 < s.currentSize →
      s.backspace.byteAt i = s.shifted.byteAt i := by
    obtain ⟨hclient, hbuffer, -, hshrunk, -⟩ := s.shrunk_fields
    rw [sub32_of_le (by omega) (by omega)] at hshrunk
    obtain ⟨-, hcap, -⟩ := hshifted.bounds (show 0 < s.currentSize by omega)
    -- A smaller size stays in the block, so that nothing has to fit.
    have hfits : s.shifted.client.Fits
        (.realloc s.shifted.inputBuffer (UInt32.ofNat s.shrunk.currentSize)) := by
      rintro (hnull | hlt)
      · have := (h.toPlaced.bounds (by omega)).1
        exact absurd hnull (by change s.inputBuffer ≠ 0; omega)
      · rw [toNat_ofNat_size (by omega)] at hlt
        change s.currentSize ≤ _ at hcap
        rw [capacity] at hcap
        omega
    obtain ⟨ht, hkept⟩ := hshifted.reallocBuffer hclient hbuffer (by omega)
      (.inl (show 0 < s.currentSize by omega)) hfits
    have hsame : s.backspace.client = s.shrunk.reallocBuffer.client ∧
        s.backspace.inputBuffer = s.shrunk.reallocBuffer.inputBuffer ∧
        s.backspace.currentSize = s.shrunk.reallocBuffer.currentSize := by
      rw [backspace_eq]
      exact ⟨setIdx_client _ _, setIdx_inputBuffer _ _, setIdx_currentSize _ _⟩
    obtain ⟨hclient', hbuffer', hcurrent⟩ := hsame
    refine ⟨ht.congr hclient' hbuffer' hcurrent, fun i hi => ?_⟩
    rw [byteAt_congr hclient' hbuffer']
    exact hkept i (show i < s.currentSize by omega) (by omega)
  have hbyte : ∀ i, i + 1 < s.currentSize → s.backspace.byteAt i =
      if j ≤ i then s.byteAt (i + 1) else s.byteAt i := by
    intro i hi
    rw [hkept i hi, hshift i (by omega)]
    simp only [hi, and_true]
  have hlow : ∀ i < j, s.backspace.byteAt i = s.byteAt i := fun i hi => by
    rw [hbyte i (by omega), if_neg (by omega)]
  have hhigh : ∀ i, j ≤ i → i + 1 < s.currentSize →
      s.backspace.byteAt i = s.byteAt (i + 1) := fun i hji hi => by
    rw [hbyte i hi, if_pos hji]
  have htotal : newlines s.backspace.byteAt (s.currentSize - 1) +
      (if s.byteAt j = newline then 1 else 0) = s.lnCnt := by
    rw [newlines_delete hlow hhigh (by omega) (by omega), Nat.sub_add_cancel (by omega),
      h.lnCnt_eq]
  have hbefore : newlines s.backspace.byteAt j = newlines s.byteAt j :=
    newlines_congr hlow
  have hline : s.bufferLnIdx = newlines s.byteAt j + if s.byteAt j = newline then 1 else 0 := by
    rw [h.lnIdx_eq, hj, newlines]
  refine ⟨?_, hplaced, ?_⟩
  · rw [editConsistent_iff, hsize', hidx', hcnt', hln', hbefore]
    by_cases hnl : s.byteAt j = newline
    · rw [if_pos hnl] at htotal hline ⊢
      rw [sub32_of_le (by omega) (by omega)]
      by_cases hb : s.behind = newline
      · rw [if_pos hb, sub32_of_le (by omega) (by omega)]
        exact ⟨fun _ => iff_of_true hnl hb, fun _ => ⟨by omega, by omega, by omega⟩⟩
      · rw [if_neg hb]
        exact ⟨fun hc => absurd hc.2.1 (by omega), fun hiff => absurd (hiff.mp hnl) hb⟩
    · rw [if_neg hnl] at htotal hline ⊢
      by_cases hb : s.behind = newline
      · rw [if_pos hb]
        refine ⟨fun hc => absurd hc.2.1 ?_, fun hiff => absurd (hiff.mpr hb) hnl⟩
        rw [← Nat.add_zero (newlines _ _), htotal, sub32]
        omega
      · rw [if_neg hb]
        exact ⟨fun _ => iff_of_false hnl hb, fun _ => ⟨by omega, by omega, by omega⟩⟩
  · rw [text, hsize', map_range_eraseIdx hlow hhigh (by omega), text]

/-- A backspace is never refused. -/
lemma backspace_text_ne (h : Placed s) : s.backspace.text ≠ s.text := by
  have hsize := h.size_lt
  obtain ⟨hsize', -⟩ := backspace_fields s
  intro htext
  have hlen := congrArg List.length htext
  rw [length_text, length_text, hsize', sub32] at hlen
  omega

/-! ### Inputs -/

lemma Counted.consistent (h : Counted s) : EditConsistent s :=
  editConsistent_iff.mpr ⟨h.idx_le, h.lnCnt_eq, h.lnIdx_eq⟩

/-- And consistent ones are right, where the buffer is placed. -/
lemma Counted.of_consistent (hp : Placed s) (hc : EditConsistent s) : Counted s := by
  obtain ⟨hidx, hcnt, hln⟩ := editConsistent_iff.mp hc
  exact ⟨hp, hidx, hcnt, hln⟩

lemma SameText.placed (h : SameText s t) (hp : Placed t) : Placed s :=
  hp.congr h.client h.inputBuffer h.currentSize

/-- An input is handled well if its command is carried out well. -/
lemma edited_iff_perform {i : EditInput} : Edited s (.input i) ↔
    EditConsistent (s.perform (s.command (.input i))) ∧
      (s.perform (s.command (.input i))).text = s.textAfter (s.command (.input i)) := by
  have hsame := s.step_sameText i
  constructor
  · rintro ⟨hc, htext⟩
    exact ⟨hsame.consistent_iff.mp hc, hsame.text_eq.symm.trans htext⟩
  · rintro ⟨hc, htext⟩
    exact ⟨hsame.consistent_iff.mpr hc, hsame.text_eq.trans htext⟩

/-- At the start of the text nothing should be removed, yet a byte is. -/
lemma Counted.backspace_start_wrong (h : Counted s) (hzero : s.bufferIdx = 0) :
    ¬(EditConsistent (s.perform .backspace) ∧
      (s.perform .backspace).text = s.textAfter .backspace) := by
  rintro ⟨-, htext⟩
  have hkeep : s.textAfter .backspace = s.text := if_pos hzero
  exact backspace_text_ne h.toPlaced (htext.trans hkeep)

/-- Elsewhere it is the character before the cursor. -/
lemma textAfter_backspace {j : ℕ} (hj : s.bufferIdx = j + 1) :
    s.textAfter .backspace = s.text.eraseIdx j := by
  have hne : s.bufferIdx ≠ 0 := hj ▸ Nat.succ_ne_zero j
  have herase : s.textAfter .backspace = s.text.eraseIdx (s.bufferIdx - 1) := if_neg hne
  rw [herase, hj, Nat.add_sub_cancel]

/-- **One input** is handled well exactly when the condition holds, and then the state is one from
which the run can go on. -/
lemma edited_input_iff {i : EditInput} (h : Counted s) (hl : Legal s (.input i))
    (hin : Inside s (.input i)) : (Edited s (.input i) ↔ Kept s (.input i)) ∧
      (Edited s (.input i) → Counted (s.step (.input i))) := by
  have hsame := s.step_sameText i
  -- what is drawn changes no text, so the command alone decides
  have hgo : Placed (s.perform (s.command (.input i))) → Edited s (.input i) →
      Counted (s.step (.input i)) :=
    fun hp hedited => .of_consistent (hsame.placed hp) hedited.consistent
  rw [edited_iff_perform] at hgo ⊢
  rw [Legal] at hl
  rw [Inside] at hin
  rw [Kept]
  cases hcommand : s.command (.input i) with
  | up =>
    rw [hcommand] at hgo
    obtain ⟨hcounted, htext⟩ := h.moveUp
    exact ⟨iff_of_true ⟨hcounted.consistent, htext⟩ trivial, hgo hcounted.toPlaced⟩
  | down =>
    rw [hcommand] at hgo
    obtain ⟨hiff, hplaced, htext⟩ := h.moveDown
    exact ⟨(and_iff_left htext).trans hiff, hgo hplaced⟩
  | left =>
    rw [hcommand] at hgo
    obtain ⟨hcounted, htext⟩ := h.moveLeft
    exact ⟨iff_of_true ⟨hcounted.consistent, htext⟩ trivial, hgo hcounted.toPlaced⟩
  | right =>
    rw [hcommand] at hgo
    obtain ⟨hcounted, htext⟩ := h.moveRight
    exact ⟨iff_of_true ⟨hcounted.consistent, htext⟩ trivial, hgo hcounted.toPlaced⟩
  | insert c =>
    rw [hcommand] at hgo hl hin
    obtain ⟨hcounted, htext⟩ := h.insertChar (c := c) hl hin
    exact ⟨iff_of_true ⟨hcounted.consistent, htext⟩ trivial, hgo hcounted.toPlaced⟩
  | backspace =>
    rw [hcommand] at hgo
    by_cases hzero : s.bufferIdx = 0
    · have hfalse := h.backspace_start_wrong hzero
      exact ⟨iff_of_false hfalse fun hkept => hkept.1 hzero, fun hedited => absurd hedited hfalse⟩
    · obtain ⟨j, hj⟩ := Nat.exists_eq_succ_of_ne_zero hzero
      obtain ⟨hiff, hplaced, htext⟩ := h.backspace hj
      rw [textAfter_backspace hj]
      refine ⟨(and_iff_left htext).trans (hiff.trans ?_), ?_⟩
      · rw [hj]
        exact (and_iff_right (Nat.succ_ne_zero j)).symm
      · rw [textAfter_backspace hj] at hgo
        exact hgo hplaced
  | other =>
    rw [hcommand] at hgo
    exact ⟨iff_of_true ⟨h.consistent, rfl⟩ trivial, hgo h.toPlaced⟩

/-! ### The other parts of the editor -/

/-- The state with another heap, in which the text is the same. -/
lemma Counted.withClient {client : Client} (h : Counted s)
    (hp : Placed { s with client := client })
    (hbytes : ∀ i < s.currentSize, client.heap.mem (s.inputBuffer + i) = s.byteAt i) :
    Counted { s with client := client } ∧ text { s with client := client } = s.text := by
  have hend := h.toPlaced.end_lt
  have hbyte : ∀ i < s.currentSize, byteAt { s with client := client } i = s.byteAt i := by
    intro i hi
    rw [byteAt_of_le hp hi.le]
    exact hbytes i hi
  have hidx := h.idx_le
  refine ⟨⟨hp, hidx, ?_, ?_⟩, ?_⟩
  · exact h.lnCnt_eq.trans (newlines_congr hbyte).symm
  · exact h.lnIdx_eq.trans (newlines_congr fun i hi => hbyte i (lt_of_lt_of_le hi hidx)).symm
  · rw [text, text]
    exact List.map_congr_left fun i hi => hbyte i (List.mem_range.mp hi)

/-- **A call of the heap** for another block keeps the text. -/
lemma Counted.call {op : HeapCall} (h : Counted s) (hl : Legal s (.call op)) :
    Counted (s.step (.call op)) ∧ (s.step (.call op)).text = s.text := by
  obtain ⟨hlegal, hfits, htarget⟩ := hl
  obtain ⟨segs, hc⟩ := h.heap
  obtain ⟨c', r, segs', hcall, hc', hspec⟩ := hc.call hlegal hfits
  have hstep : s.step (.call op) = { s with client := c' } := by
    rw [step, hcall]
    rfl
  have hblock : 0 < s.currentSize → (s.inputBuffer, s.currentSize) ∈ c'.live ∧
      Set.EqOn c'.heap.mem s.client.heap.mem (s.client.heap.block s.inputBuffer) := by
    intro hpos
    have hne : s.inputBuffer ≠ 0 := by
      have := h.toPlaced.bounds hpos
      omega
    exact hspec.frame _ (h.held hpos) fun heq => htarget hne heq.symm
  rw [hstep]
  refine h.withClient ⟨⟨segs', hc'⟩, (call_heapStart hcall).trans h.start, h.null,
    fun hpos => (hblock hpos).1⟩ fun i hi => ?_
  have hcap := (h.toPlaced.bounds (by omega)).2.1
  rw [byteAt_of_le h.toPlaced hi.le]
  exact (hblock (by omega)).2 ⟨Nat.le_add_right _ _, Nat.add_lt_add_left (hi.trans_le hcap) _⟩

/-- **A store into another block** keeps the text. -/
lemma Counted.store {a : ℕ} {v : UInt8} (h : Counted s) (hl : Legal s (.store a v)) :
    Counted (s.step (.store a v)) ∧ (s.step (.store a v)).text = s.text := by
  obtain ⟨⟨p, n⟩, hb, hne, hlow, hhigh⟩ := hl
  obtain ⟨segs, hc⟩ := h.heap
  obtain ⟨hc', hframe⟩ := hc.store (v := v) hb hlow hhigh
  refine h.withClient ⟨⟨segs, hc'⟩, h.start, h.null, h.held⟩ fun i hi => ?_
  have hcap := (h.toPlaced.bounds (by omega)).2.1
  rw [byteAt_of_le h.toPlaced hi.le]
  refine hframe _ (h.held (by omega)) (Ne.symm hne) ⟨Nat.le_add_right _ _, ?_⟩
  exact Nat.add_lt_add_left (hi.trans_le hcap) _

/-- **One event** is handled well exactly when the condition holds, and then the state is one from
which the run can go on. -/
lemma edited_iff (h : Counted s) (hl : Legal s e) (hin : Inside s e) :
    (Edited s e ↔ Kept s e) ∧ (Edited s e → Counted (s.step e)) := by
  cases e with
  | input i => exact edited_input_iff h hl hin
  | call op =>
    obtain ⟨hcounted, htext⟩ := h.call hl
    exact ⟨iff_of_true ⟨hcounted.consistent, htext⟩ trivial, fun _ => hcounted⟩
  | store a v =>
    obtain ⟨hcounted, htext⟩ := h.store hl
    exact ⟨iff_of_true ⟨hcounted.consistent, htext⟩ trivial, fun _ => hcounted⟩

/-! ### Runs -/

/-- The loop of `main` counts the lines. -/
lemma foldl_countChar (s : EditState) {k : ℕ} (hk : k < 2 ^ 31) (hcnt : s.lnCnt = 0)
    (hln : s.bufferLnIdx = 0) (hchar : s.charCnt = 0) :
    (List.range k).foldl countChar s = { s with
      lnCnt := newlines s.byteAt k
      bufferLnIdx := newlines s.byteAt k
      charCnt := k - newlines s.byteAt k } := by
  induction k with
  | zero =>
    obtain ⟨mem, buffer, edited, mode, cnt, char, ln, idx, size⟩ := s
    obtain rfl : cnt = 0 := hcnt
    obtain rfl : ln = 0 := hln
    obtain rfl : char = 0 := hchar
    rfl
  | succ k ih =>
    have hle := newlines_le s.byteAt k
    rw [List.range_succ, List.foldl_append, ih (by omega), List.foldl_cons, List.foldl_nil,
      countChar]
    by_cases hnl : s.byteAt k = newline
    · have hnext : newlines s.byteAt (k + 1) = newlines s.byteAt k + 1 := by
        rw [newlines, if_pos hnl]
      refine (if_pos hnl).trans ?_
      dsimp only
      rw [hnext, wrap32_of_lt (show newlines s.byteAt k + 1 < 2 ^ 32 by omega),
        wrap32_of_lt (by omega), sub32_of_le (by omega) (by omega), Nat.add_sub_cancel,
        Nat.add_sub_add_right]
    · have hnext : newlines s.byteAt (k + 1) = newlines s.byteAt k := by
        rw [newlines, if_neg hnl, Nat.add_zero]
      refine (if_neg hnl).trans ?_
      dsimp only
      rw [hnext, wrap32_of_lt (by omega), Nat.sub_add_comm hle]

variable {client : Client} {segs : List Seg} {file : List UInt8}

/-- **The block of the file**, when the heap has room for it. -/
lemma placed_allocated (hc : ClientInv client segs) (hstart : client.heap.heapStart = 0xD0000000)
    (hsize : file.length + 0xf < 2 ^ 32)
    (hfits : client.Fits (.malloc (UInt32.ofNat file.length))) :
    Placed (allocated client file) := by
  have hnat : (UInt32.ofNat file.length).toNat = file.length := by
    rw [UInt32.toNat_ofNat', Nat.mod_eq_of_lt (by omega)]
  have hlegal : client.Legal (.malloc (UInt32.ofNat file.length)) := trivial
  obtain ⟨c', r, segs', hcall, hc', hspec⟩ := hc.call hlegal hfits
  have hr : 0 < file.length → r ≠ 0 := by
    intro hpos
    obtain ⟨⟨h', r'⟩, hexec, hout⟩ := Option.map_eq_some_iff.mp hcall
    obtain ⟨-, rfl⟩ := Prod.mk.inj hout
    exact hc.malloc_ne_zero hfits (by omega) (by omega) hexec
  rw [allocated, hcall]
  refine ⟨⟨segs', hc'⟩, (call_heapStart hcall).trans hstart, fun hzero => ?_, fun hpos => ?_⟩
  · -- `malloc` of nothing returns null.
    obtain ⟨⟨h', r'⟩, hexec, hout⟩ := Option.map_eq_some_iff.mp hcall
    have hnone : MicroOS.malloc HeapCall.fuel client.heap 0 = some (client.heap, 0) := rfl
    rw [HeapCall.exec, hnat, show file.length = 0 from hzero, hnone] at hexec
    exact (Prod.mk.inj hout).2.symm.trans (Prod.mk.inj (Option.some.inj hexec)).2.symm
  · have hmem := hspec.returned (hr hpos) (UInt32.toNat_lt _)
    rwa [HeapCall.bytes, hnat] at hmem

/-- **The file is read** into its block. -/
lemma placed_loaded (h : Placed (allocated client file)) : Placed (loaded client file) ∧
    ∀ i < file.length, (loaded client file).byteAt i = file.getD i 0 := by
  rcases Nat.eq_zero_or_pos file.length with hzero | hpos
  · obtain rfl := List.eq_nil_of_length_eq_zero hzero
    exact ⟨h, fun i hi => absurd hi (by simp)⟩
  set s := allocated client file with hs
  have hlen : s.currentSize = file.length := rfl
  have hbounds := h.bounds (hlen ▸ hpos)
  have hcleared : Placed (s.setMem (memset s.mem s.inputBuffer 0 file.length)) :=
    h.setMem (hlen ▸ hpos) fun x hx => memset_of_disjoint (by omega) (by omega)
  have hloaded : loaded client file = (s.setMem (memset s.mem s.inputBuffer 0 file.length)).setMem
      (storeBytes (memset s.mem s.inputBuffer 0 file.length) s.inputBuffer file) := rfl
  have hplaced : Placed (loaded client file) := by
    rw [hloaded]
    refine hcleared.setMem (hlen ▸ hpos) fun x hx => storeBytes_of_disjoint (by omega) ?_
    have hcap := (hcleared.bounds (hlen ▸ hpos)).2.1
    exact hx.imp_right fun hx => le_trans (Nat.add_le_add_left hcap _) hx
  refine ⟨hplaced, fun i hi => ?_⟩
  rw [byteAt_of_le hplaced hi.le, hloaded]
  exact storeBytes_apply (by omega) hi

/-- **What `main` begins with** fits the file. -/
lemma counted_opened (h : Placed (allocated client file)) :
    Counted (opened client file) ∧ (opened client file).text = file := by
  obtain ⟨hplaced, hbyte⟩ := placed_loaded h
  have hsize : (loaded client file).currentSize = file.length := rfl
  have hlt : file.length < 2 ^ 31 := hsize ▸ hplaced.size_lt
  rw [opened, foldl_countChar _ hlt rfl rfl rfl]
  refine ⟨⟨⟨hplaced.heap, hplaced.start, hplaced.null, hplaced.held⟩, le_rfl, rfl, rfl⟩, ?_⟩
  refine List.ext_getElem (by rw [length_text]; exact hsize) fun i _ hi => ?_
  simp only [text, List.getElem_map, List.getElem_range]
  rw [← List.getD_eq_getElem _ 0 hi]
  exact hbyte i hi

end EditState

section Run

open EditState

/-- **The editor is consistent** along a run from any file, exactly when every input meets the
condition, as long as no insertion changes what lies behind the block of the buffer. -/
theorem editor_consistent_iff {client : Client} {file : List UInt8}
    (hc : Reachable HeapBooted ProgramStep client) (htop : client.heap.top < 2 ^ 32)
    (hsize : file.length + 0xf < 2 ^ 32)
    (hfits : client.Fits (.malloc (UInt32.ofNat file.length))) (events : List EditEvent)
    (h : Along step (opened client file) events Legal) :
    (EditConsistent (opened client file) ∧ (opened client file).text = file) ∧
      (Along step (opened client file) events Inside →
        (Along step (opened client file) events Edited ↔
          Along step (opened client file) events Kept)) := by
  obtain ⟨hstart, -, hrun⟩ := program_invariant hc
  obtain ⟨segs, hinv⟩ := ClientInv.of_reachable (hrun htop)
  obtain ⟨hcounted, htext⟩ := counted_opened (placed_allocated hinv hstart hsize hfits)
  refine ⟨⟨hcounted.consistent, htext⟩, fun hinside => ?_⟩
  have hboth : Along step (opened client file) events fun s e => Legal s e ∧ Inside s e :=
    fun l₁ e l₂ hl => ⟨h l₁ e l₂ hl, hinside l₁ e l₂ hl⟩
  refine along_iff Counted ?_ ?_ hcounted hboth
  · exact fun s e hs hl => (edited_iff hs hl.1 hl.2).1
  · exact fun s e hs hl => (edited_iff hs hl.1 hl.2).2

/-- What a run asks of an insertion into a block that is not filled by it. -/
lemma insertion_ok {s : EditState} {i : EditInput} {c : UInt8}
    (hcommand : s.command (.input i) = .insert c)
    (hfits : s.client.Fits (.realloc s.inputBuffer (UInt32.ofNat (s.currentSize + 1))))
    (hroom : s.client.heap.capacity s.inputBuffer ≠ s.currentSize + 1) :
    Legal s (.input i) ∧ Inside s (.input i) ∧ Kept s (.input i) := by
  rw [Legal, Inside, Kept, hcommand]
  exact ⟨hfits, fun _ heq => absurd heq hroom, trivial⟩

/-- A file of sixteen letters, which fills its block. -/
def fullBlock : EditState := opened bootClient (List.replicate 16 97)

/-- A letter behind the text moves it to a larger block, and a line break is put before the
letter. -/
theorem editor_consistent_break :
    Along step fullBlock [.input (.char 98), .input .left, .input (.char 10)] Edited := by
  obtain ⟨hlegal, hinside, hkept⟩ :
      Legal fullBlock (.input (.char 98)) ∧ Inside fullBlock (.input (.char 98)) ∧
        Kept fullBlock (.input (.char 98)) := by
    refine insertion_ok (c := 98) (by decide +kernel) (fun _ => ?_) (by decide +kernel)
    exact fits_of_walk (p := 0xD0000030) (by decide +kernel)
  obtain ⟨hlegal', hinside', hkept'⟩ :
      Legal ((fullBlock.step (.input (.char 98))).step (.input .left)) (.input (.char 10)) ∧
        Inside ((fullBlock.step (.input (.char 98))).step (.input .left)) (.input (.char 10)) ∧
          Kept ((fullBlock.step (.input (.char 98))).step (.input .left)) (.input (.char 10)) := by
    refine insertion_ok (c := 10) (by decide +kernel) (fun hsmall => ?_) (by decide +kernel)
    exact absurd hsmall (by decide +kernel)
  have hall : ∀ {P : EditState → EditEvent → Prop}, P fullBlock (.input (.char 98)) →
      P (fullBlock.step (.input (.char 98))) (.input .left) →
      P ((fullBlock.step (.input (.char 98))).step (.input .left)) (.input (.char 10)) →
        Along step fullBlock [.input (.char 98), .input .left, .input (.char 10)] P :=
    fun h1 h2 h3 => along_cons.mpr ⟨h1, along_cons.mpr ⟨h2, along_cons.mpr ⟨h3, along_nil _ _ _⟩⟩⟩
  have hfits : mallocFits HeapCall.fuel bootClient.heap (UInt32.ofNat 16).toNat :=
    fits_of_walk (p := 0xD0000010) (by decide +kernel)
  have hboot : Reachable HeapBooted ProgramStep bootClient := .start ⟨_, rfl⟩
  have hall_iff := @editor_consistent_iff bootClient (List.replicate 16 97) hboot
    (by decide +kernel) (by decide) hfits _ (hall hlegal trivial hlegal')
  exact (hall_iff.2 (hall hinside trivial hinside')).mpr (hall hkept trivial hkept')

/-- From within the only line the cursor moves down into a second one. -/
theorem line_counted_twice : ¬∀ (client : Client) (file : List UInt8),
    Reachable HeapBooted ProgramStep client → client.heap.top < 2 ^ 32 →
      file.length + 0xf < 2 ^ 32 → client.Fits (.malloc (UInt32.ofNat file.length)) →
        ∀ events, Along step (opened client file) events Legal →
          Along step (opened client file) events Inside →
            Along step (opened client file) events Edited := by
  intro h
  have hall : ∀ {P : EditState → EditEvent → Prop}, P (opened bootClient [97]) (.input .left) →
      P ((opened bootClient [97]).step (.input .left)) (.input .down) →
        Along step (opened bootClient [97]) [.input .left, .input .down] P :=
    fun h1 h2 => along_cons.mpr ⟨h1, along_cons.mpr ⟨h2, along_nil _ _ _⟩⟩
  have hfits : mallocFits HeapCall.fuel bootClient.heap (UInt32.ofNat 1).toNat :=
    fits_of_walk (p := 0xD0000010) (by decide +kernel)
  have hedited := h bootClient [97] (.start ⟨_, rfl⟩) (by decide +kernel) (by decide) hfits
    [.input .left, .input .down] (hall trivial trivial) (hall trivial trivial)
    [.input .left] _ [] rfl
  exact absurd hedited.consistent.bufferLnIdx_eq (by decide +kernel)

/-- A letter that fills the block changes the length in the header behind it. -/
example : ((opened bootClient (List.replicate 15 97)).client.heap.hdr 0xD0000020).length = 0xFFD0 ∧
    (((opened bootClient (List.replicate 15 97)).step (.input (.char 98))).client.heap.hdr
      0xD0000020).length = 0xFF00 := by decide +kernel

end Run

end MicroOS
