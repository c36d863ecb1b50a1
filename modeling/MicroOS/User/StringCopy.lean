import MicroOS.Lib.ByteImage
import MicroOS.User.HeapTermination

/-!
The copies of `user/libc/string.c` as their callers see them: `memmove` with the pointer that it
returns, `strcpy` with every byte that it reads or writes, and `strdup` on top of the allocator.
The kernel's `strcpy` has the same text.

* `memmove_copies`: any two regions that end in the address space;
* `strcpyLoop_string`, `strcpyLoop_empty`: what the loop does with a string. It looks at the next
  byte of the source when it has stepped on, so the zero at the end is not copied, and of the
  empty string nothing but that zero is the end;
* `malloc_outside`: `malloc` writes inside the heap only;
* `copies_terminated_iff`: when a copy of a string is a string.
-/

namespace MicroOS

open ByteMem Chain

/-! ### `memmove` -/

namespace Libc

/-- The second loop of `memmove`, `while (len--) *--d = *--s`, with its two pointers. -/
def copyDown (m : Mem) (d s : ℕ) : ℕ → Mem
  | 0 => m
  | n + 1 => copyDown (writeByte m (sub32 d 1) (m (sub32 s 1))) (sub32 d 1) (sub32 s 1) n

/-- `memmove(dest, src, len)`: the pointer that it returns, and the memory. -/
def memmove (m : Mem) (dest src len : ℕ) : ℕ × Mem :=
  if dest < src then (dest, memcpy m dest src len)
  else (dest, copyDown m (wrap32 (dest + len)) (wrap32 (src + len)) len)

end Libc

/-- **What a copy leaves**: the bytes that were at the source, and no other byte is changed. -/
structure Copied (m : Mem) (dest src n : ℕ) (m' : Mem) : Prop where
  region : ∀ i < n, m' (dest + i) = m (src + i)
  others : ∀ x, x < dest ∨ dest + n ≤ x → m' x = m x

/-- A pointer steps down from the end of a region. -/
lemma sub32_one_wrap32 (p n : ℕ) : sub32 (wrap32 (p + (n + 1))) 1 = wrap32 (p + n) := by
  rw [sub32, wrap32, wrap32]
  omega

/-- Two pointers that step down, and one index. -/
lemma copyDown_eq (m : Mem) (dest src n : ℕ) :
    Libc.copyDown m (wrap32 (dest + n)) (wrap32 (src + n)) n = memmoveBackward m dest src n := by
  induction n generalizing m with
  | zero => rfl
  | succ n ih => rw [Libc.copyDown, sub32_one_wrap32, sub32_one_wrap32, ih, memmoveBackward]

/-- `memmove` returns its destination. -/
lemma memmove_eq (m : Mem) (dest src len : ℕ) :
    Libc.memmove m dest src len = (dest, memmove m dest src len) := by
  rw [Libc.memmove, memmove, copyDown_eq]
  split_ifs <;> rfl

/-- **`memmove` copies between any two regions.** -/
theorem memmove_copies {m : Mem} {dest src len : ℕ} (hd : dest + len ≤ 2 ^ 32)
    (hs : src + len ≤ 2 ^ 32) : (Libc.memmove m dest src len).1 = dest ∧
      Copied m dest src len (Libc.memmove m dest src len).2 := by
  rw [memmove_eq]
  exact ⟨rfl, fun i hi => memmove_apply hd hs hi, fun x hx => memmove_of_disjoint hd hx⟩

/-- Regions that overlap, the destination behind the source and up to the last address. -/
theorem memmove_copies_overlap :
    (Libc.memmove UInt8.ofNat (2 ^ 32 - 4) (2 ^ 32 - 6) 4).1 = 2 ^ 32 - 4 ∧
      Copied UInt8.ofNat (2 ^ 32 - 4) (2 ^ 32 - 6) 4
        (Libc.memmove UInt8.ofNat (2 ^ 32 - 4) (2 ^ 32 - 6) 4).2 :=
  memmove_copies (by norm_num) (by norm_num)

/-! ### `strcpy` -/

/-- A byte that a loop reads or writes. -/
inductive ByteAccess where
  | read (a : ℕ)
  | write (a : ℕ)

/-- `do { *dest++ = *src++; } while (*src != 0)`: the memory, and the accesses in their order. -/
def strcpyLoop (m : Mem) (dest src : ℕ) : ℕ → Option (Mem × List ByteAccess)
  | 0 => none
  | fuel + 1 =>
    let m' := writeByte m dest (m src)
    let turn := [.read src, .write dest, .read (wrap32 (src + 1))]
    if m' (wrap32 (src + 1)) ≠ 0 then
      (strcpyLoop m' (wrap32 (dest + 1)) (wrap32 (src + 1)) fuel).map
        fun r => (r.1, turn ++ r.2)
    else some (m', turn)

/-- `strcpy(dest, src)` of the kernel. -/
def Kernel.strcpy (fuel : ℕ) (m : Mem) (dest src : ℕ) : Option (Mem × List ByteAccess) :=
  strcpyLoop m dest src fuel

/-- `strcpy(dest, src)` of the library. -/
def Libc.strcpy (fuel : ℕ) (m : Mem) (dest src : ℕ) : Option (Mem × List ByteAccess) :=
  strcpyLoop m dest src fuel

/-- A string with the zero at its end. -/
structure StringAt (m : Mem) (a : ℕ) (s : List UInt8) : Prop where
  no_zero : 0 ∉ s
  holds : ByteImage.Holds m a (s ++ [0])

/-- A string from one of its bytes on. -/
lemma StringAt.drop {m : Mem} {a k : ℕ} {s : List UInt8} (hs : StringAt m a s)
    (hk : k ≤ s.length) : StringAt m (a + k) (s.drop k) := by
  have hholds := hs.holds
  rw [← List.take_append_drop k s, List.append_assoc] at hholds
  have hdrop := (ByteImage.holds_append.mp hholds).2
  rw [List.length_take_of_le hk] at hdrop
  exact ⟨fun h0 => hs.no_zero (List.mem_of_mem_drop h0), hdrop⟩

/-- **A copy of a string that is a string**: it reads no byte behind the source's zero and writes
none behind the place of its own. -/
structure StringCopied (dest src : ℕ) (s : List UInt8) (m' : Mem) (log : List ByteAccess) :
    Prop where
  copy : StringAt m' dest s
  reads : ∀ a, .read a ∈ log → src ≤ a ∧ a ≤ src + s.length
  writes : ∀ a, .write a ∈ log → dest ≤ a ∧ a ≤ dest + s.length

/-- `strcpy` returns, and the copy is a string. -/
def CopyRight (copy : ℕ → Mem → ℕ → ℕ → Option (Mem × List ByteAccess)) (m : Mem) (dest src : ℕ)
    (s : List UInt8) : Prop :=
  ∃ fuel m' log, copy fuel m dest src = some (m', log) ∧ StringCopied dest src s m' log

section Strcpy

variable {m : Mem} {dest src : ℕ} {s : List UInt8} (hs : StringAt m src s)
  (hfit : src + s.length < 2 ^ 32) (hroom : dest + s.length < 2 ^ 32)
  (hapart : dest + s.length < src ∨ src + s.length < dest)

include hs hfit hroom hapart

/-- **The loop copies a string that is not empty, without its zero.** -/
lemma strcpyLoop_string (hne : s ≠ []) : ∃ log,
    (∀ fuel, strcpyLoop m dest src fuel =
      if fuel < s.length then none else some (memcpy m dest src s.length, log)) ∧
    (∀ a, .read a ∈ log → src ≤ a ∧ a ≤ src + s.length) ∧
    ∀ a, .write a ∈ log → dest ≤ a ∧ a < dest + s.length := by
  induction s generalizing m dest src with
  | nil => exact absurd rfl hne
  | cons b s ih =>
    rw [List.length_cons] at hfit hroom hapart
    have hsrc : wrap32 (src + 1) = src + 1 := wrap32_of_lt (by omega)
    have hdest : wrap32 (dest + 1) = dest + 1 := wrap32_of_lt (by omega)
    have hholds : ByteImage.Holds m (src + 1) (s ++ [0]) :=
      (ByteImage.holds_cons.mp hs.holds).2
    -- the byte that is written lies outside the rest of the string
    have hkept : ByteImage.Holds (writeByte m dest (m src)) (src + 1) (s ++ [0]) := by
      refine hholds.congr fun i h1 h2 => writeByte_of_ne m _ ?_
      rw [List.length_append, List.length_singleton] at h2
      omega
    cases s with
    | nil =>
      -- the next byte is the terminator, which the loop does not copy
      have hzero : writeByte m dest (m src) (src + 1) = 0 := hkept 0 0 rfl
      refine ⟨[.read src, .write dest, .read (src + 1)], fun fuel => ?_, ?_, ?_⟩
      · cases fuel with
        | zero => simp [strcpyLoop]
        | succ fuel => simp [strcpyLoop, hsrc, hzero, memcpy]
      · simp
      · simp
    | cons c s =>
      have hnz : 0 ∉ c :: s := fun hmem => hs.no_zero (List.mem_cons_of_mem b hmem)
      have hbyte : writeByte m dest (m src) (src + 1) = c := hkept 0 c rfl
      have hc : c ≠ 0 := fun h0 => hnz (h0 ▸ List.mem_cons_self)
      obtain ⟨log, hloop, hreads, hwrites⟩ :=
        ih ⟨hnz, hkept⟩ (by omega) (show dest + 1 + (c :: s).length < 2 ^ 32 by
          rw [List.length_cons] at hroom ⊢
          omega) (by omega) (List.cons_ne_nil c s)
      simp only [List.length_cons] at hloop hreads hwrites ⊢
      refine ⟨[.read src, .write dest, .read (src + 1)] ++ log, fun fuel => ?_, ?_, ?_⟩
      · cases fuel with
        | zero => simp [strcpyLoop]
        | succ fuel =>
          rw [strcpyLoop, memcpy, hsrc, hdest, if_pos (hbyte ▸ hc), hloop]
          split_ifs with h1 h2 h2
          · rfl
          · omega
          · omega
          · rfl
      · intro a ha
        have hcases : a = src ∨ a = src + 1 ∨ .read a ∈ log := by simpa using ha
        rcases hcases with rfl | rfl | ha
        · omega
        · omega
        · have := hreads a ha
          omega
      · intro a ha
        have hcases : a = dest ∨ .write a ∈ log := by simpa using ha
        rcases hcases with rfl | ha
        · omega
        · have := hwrites a ha
          omega

omit hs hfit hroom hapart in
/-- The loop looks at the byte behind the first one. -/
lemma strcpyLoop_read {fuel : ℕ} {m' : Mem} {log : List ByteAccess}
    (h : strcpyLoop m dest src fuel = some (m', log)) : .read (wrap32 (src + 1)) ∈ log := by
  cases fuel with
  | zero => exact absurd h (by simp [strcpyLoop])
  | succ fuel =>
    rw [strcpyLoop] at h
    split_ifs at h
    · obtain ⟨r, -, hr⟩ := Option.map_eq_some_iff.mp h
      obtain ⟨-, rfl⟩ := Prod.mk.inj hr
      simp
    · obtain ⟨-, rfl⟩ := Prod.mk.inj (Option.some.inj h)
      simp

omit hs hfit hroom hapart in
/-- More fuel. -/
lemma strcpyLoop_mono {fuel fuel' : ℕ} {r : Mem × List ByteAccess}
    (h : strcpyLoop m dest src fuel = some r) (hle : fuel ≤ fuel') :
    strcpyLoop m dest src fuel' = some r := by
  induction fuel generalizing m dest src r fuel' with
  | zero => exact absurd h (by simp [strcpyLoop])
  | succ fuel ih =>
    obtain ⟨k, rfl⟩ : ∃ k, fuel' = k + 1 := ⟨fuel' - 1, by omega⟩
    rw [strcpyLoop] at h ⊢
    split_ifs at h ⊢
    · obtain ⟨u, hu, hr⟩ := Option.map_eq_some_iff.mp h
      rw [ih hu (by omega), Option.map_some, hr]
    · exact h

/-- **A copy is a string** when there is something to copy and the zero is already there. -/
lemma strcpy_right_iff :
    CopyRight Libc.strcpy m dest src s ↔ s ≠ [] ∧ m (dest + s.length) = 0 := by
  constructor
  · rintro ⟨fuel, m', log, hloop, hcopied⟩
    have hne : s ≠ [] := by
      rintro rfl
      have hread := hcopied.reads _ (strcpyLoop_read hloop)
      rw [wrap32, List.length_nil] at hread
      omega
    obtain ⟨log', hrun, -, -⟩ := strcpyLoop_string hs hfit hroom hapart hne
    rw [Libc.strcpy, hrun] at hloop
    split_ifs at hloop
    obtain ⟨rfl, -⟩ := Prod.mk.inj (Option.some.inj hloop)
    have hzero : memcpy m dest src s.length (dest + s.length) = 0 :=
      hcopied.copy.holds s.length 0 (by simp)
    rw [memcpy_of_disjoint hroom.le (.inr le_rfl)] at hzero
    exact ⟨hne, hzero⟩
  · rintro ⟨hne, hzero⟩
    obtain ⟨log, hrun, hreads, hwrites⟩ := strcpyLoop_string hs hfit hroom hapart hne
    refine ⟨s.length, memcpy m dest src s.length, log,
      by rw [Libc.strcpy, hrun, if_neg (lt_irrefl _)],
      ⟨hs.no_zero, fun i b hb => ?_⟩, hreads, fun a ha => ?_⟩
    · rcases Nat.lt_or_ge i s.length with hi | hi
      · rw [memcpy_apply hroom.le hfit.le (hapart.imp (by omega) (by omega)) hi]
        exact hs.holds i b hb
      · rw [List.getElem?_append_right hi, List.getElem?_singleton] at hb
        split_ifs at hb with hlast
        obtain rfl : i = s.length := by omega
        rw [memcpy_of_disjoint hroom.le (.inr le_rfl), hzero]
        exact Option.some.inj hb
    · have := hwrites a ha
      omega

end Strcpy

/-! ### `malloc` writes inside the heap -/

section Outside

variable {h h' : Heap} {segs l l₁ l₂ : List Seg} {b z : Seg} {size x : ℕ}

/-- No header is outside of the heap. -/
lemma Shape.offHeaders_outside (hs : Shape h segs) (hx : x < h.heapStart ∨ h.heapEnd ≤ x) :
    OffHeaders segs x := by
  intro t ht
  have := hs.bounds ht
  omega

/-- Taking a segment writes nothing there. -/
lemma takeSegment_outside (hs : Shape h (l₁ ++ b :: l₂)) (h0 : 0 < size) (h16 : 16 ∣ size)
    (hx : x < h.heapStart ∨ h.heapEnd ≤ x) : (takeSegment h b size).mem x = h.mem x := by
  have hoff := hs.offHeaders_outside hx
  have hb := hs.bounds (b := b) (by simp)
  rw [takeSegment]
  split_ifs with hlt
  · rw [Heap.setFree_mem _ _ (hoff b (by simp))]
    exact hshSplit_mem hs h0 h16 hlt hoff (by omega)
  · exact Heap.setFree_mem _ _ (hoff b (by simp))

lemma takeSegment_heapEnd : (takeSegment h b size).heapEnd = h.heapEnd := by
  rw [takeSegment]
  split_ifs <;> simp

/-- An expansion writes nothing outside of the heap that it makes. -/
lemma expandHeap_outside (hs : Shape h (l ++ [z])) (h0 : 0 < pageCeil size)
    (hfit : h.heapEnd + pageCeil size < 2 ^ 32)
    (hx : x < h.heapStart ∨ h.heapEnd + pageCeil size ≤ x) :
    (expandHeap h size).mem x = h.mem x := by
  have hdvd : 0x1000 ∣ pageCeil size := Dvd.intro_left _ rfl
  have hz := hs.bounds (b := z) (by simp)
  have hoff := hs.offHeaders_outside (x := x) (by omega)
  have hshape := appendSegment_shape hs h0 hdvd hfit
  obtain ⟨hstart, hend, -, -, -⟩ := appendSegment_globals hdvd hfit
  rw [expandHeap_eq, roundPages_eq (by omega)]
  refine (hshCombineBackward_mem hshape (hshape.offHeaders_outside ?_)).trans
    (appendSegment_mem hs hdvd hoff (by omega))
  rw [hstart, hend]
  exact hx

/-- **`malloc` writes inside the heap only**, the heap as it is afterwards. -/
lemma malloc_outside {fuel p : ℕ} (hi : HeapInv h segs) (h0 : 0 < size) (h16 : 16 ∣ size)
    (hfits : mallocFits fuel h size) (heq : malloc fuel h size = some (h', p)) :
    h.heapEnd ≤ h'.heapEnd ∧
      ∀ x, x < h.heapStart ∨ h'.heapEnd ≤ x → h'.mem x = h.mem x := by
  induction fuel generalizing h segs with
  | zero => exact absurd heq (by simp [malloc])
  | succ fuel ih =>
    have hfirst : firstD 0 (addrs segs) = h.heapStart := hi.shape.firstD_eq
    have hwalk := mallocWalk_spec size (show Shape h ([] ++ segs) from hi.shape)
      hi.shape.nonempty hi.shape.length_lt_walkFuel.le
    rw [hfirst] at hwalk
    simp only [malloc, roundSize_of_dvd h16, if_neg h0.ne'] at heq
    rcases hwalk with ⟨l₁, b, l₂, rfl, -, -, hw⟩ | ⟨-, hw⟩
    · simp only [hw, Option.some.injEq, Prod.mk.injEq] at heq
      obtain ⟨rfl, -⟩ := heq
      rw [takeSegment_heapEnd]
      exact ⟨le_rfl, fun x hx => takeSegment_outside hi.shape h0 h16 hx⟩
    · simp only [hw] at heq
      simp only [mallocFits, roundSize_of_dvd h16, hw] at hfits
      obtain ⟨hfit, hfits⟩ := hfits h0.ne'
      obtain rfl | ⟨l, z, rfl⟩ := List.eq_nil_or_concat' segs
      · exact absurd rfl hi.shape.nonempty
      obtain ⟨l', f, hi', -, hstart, -⟩ := expandHeap_spec hi h0 hfit
      obtain ⟨hend, hmem⟩ := ih hi' hfits heq
      rw [expandHeap_heapEnd hfit] at hend
      refine ⟨by omega, fun x hx => (hmem x (by omega)).trans ?_⟩
      exact expandHeap_outside hi.shape (pageCeil_pos h0) hfit (by omega)

end Outside

/-! ### `strdup` -/

/-- `strlen(src)`: the loop from `src` on, whose counter is `i`. -/
def Libc.strlenLoop (m : Mem) (src i : ℕ) : ℕ → Option ℕ
  | 0 => none
  | fuel + 1 =>
    if m src ≠ 0 then Libc.strlenLoop m (wrap32 (src + 1)) (wrap32 (i + 1)) fuel else some i

/-- `strdup(src)`: the pointer that it returns, the heap and the accesses of its `strcpy`. -/
def Libc.strdup (fuel : ℕ) (h : Heap) (src : ℕ) : Option (ℕ × Heap × List ByteAccess) := do
  let len ← Libc.strlenLoop h.mem src 0 fuel
  let (h, dup) ← malloc HeapCall.fuel h (wrap32 (len + 1))
  let (mem, log) ← Libc.strcpy fuel h.mem dup src
  return (dup, { h with mem }, log)

/-- **The loop of `strlen`** counts the bytes in front of the zero. -/
lemma strlenLoop_string {m : Mem} {src i : ℕ} {s : List UInt8} (hs : StringAt m src s)
    (hfit : src + s.length < 2 ^ 32) (hi : i + s.length < 2 ^ 32) (fuel : ℕ) :
    Libc.strlenLoop m src i fuel = if fuel ≤ s.length then none else some (i + s.length) := by
  induction fuel generalizing src i s with
  | zero => simp [Libc.strlenLoop]
  | succ fuel ih =>
    rw [Libc.strlenLoop]
    cases s with
    | nil =>
      have hzero : m src = 0 := hs.holds 0 0 rfl
      simp [hzero]
    | cons b s =>
      have hb : m src = b := hs.holds 0 b rfl
      have hne : m src ≠ 0 := fun h0 => hs.no_zero (by rw [← h0, hb]; exact List.mem_cons_self)
      have htail : StringAt m (src + 1) s :=
        ⟨fun hmem => hs.no_zero (List.mem_cons_of_mem b hmem),
          (ByteImage.holds_cons.mp hs.holds).2⟩
      rw [List.length_cons] at hfit hi ⊢
      rw [if_pos hne, wrap32_of_lt (show src + 1 < 2 ^ 32 by omega),
        wrap32_of_lt (show i + 1 < 2 ^ 32 by omega), ih htail (by omega) (by omega)]
      simp only [Nat.add_le_add_iff_right, Nat.add_assoc, Nat.add_comm 1]

/-- **A byte of the program**: it is in an allocated block, or the heap does not come to it. -/
def OfProgram (segs : List Seg) (h h' : Heap) (x : ℕ) : Prop :=
  (∃ b ∈ segs, b.free = false ∧ x ∈ b.bytes) ∨ x < h.heapStart ∨ h'.heapEnd ≤ x

section Strdup

variable {h h' : Heap} {segs segs' : List Seg} {src p x n : ℕ} {s : List UInt8}

/-- An allocation keeps the program's bytes, and the new block is another place. -/
lemma Allocates.ofProgram (ha : Allocates h segs n h' p segs')
    (hout : ∀ x, x < h.heapStart ∨ h'.heapEnd ≤ x → h'.mem x = h.mem x)
    (hx : OfProgram segs h h' x) : h'.mem x = h.mem x ∧ (x < p ∨ p + n ≤ x) := by
  obtain ⟨b, hb, -, hpay, hlen, hnew⟩ := ha.fresh
  have hbb := ha.inv.shape.bounds hb
  rw [Seg.payload, headerSize] at hpay
  rcases hx with ⟨c, hc, hused, hxc⟩ | hx
  · refine ⟨ha.keeps.bytes c hc hused hxc, ?_⟩
    have hapart := ha.inv.shape.tiles.eq_or_apart (ha.keeps.mem c hc hused) hb
    simp only [Seg.bytes, Seg.payload, headerSize, Set.mem_Ico] at hxc
    rcases hapart with rfl | hapart | hapart
    · exact absurd rfl (hnew c hc hused)
    all_goals
      simp only [Seg.size, headerSize] at hapart
      omega
  · refine ⟨hout x hx, ?_⟩
    rw [ha.start] at hbb
    omega

/-- A string of the program is another place than the new block. -/
lemma Allocates.string_apart (ha : Allocates h segs (s.length + 1) h' p segs')
    (hout : ∀ x, x < h.heapStart ∨ h'.heapEnd ≤ x → h'.mem x = h.mem x)
    (hown : ∀ i ≤ s.length, OfProgram segs h h' (src + i)) :
    p + s.length < src ∨ src + s.length < p := by
  have hplace : ∀ i ≤ s.length, src + i < p ∨ p + (s.length + 1) ≤ src + i :=
    fun i hi => (ha.ofProgram hout (hown i hi)).2
  have hfirst := hplace 0 (Nat.zero_le _)
  by_contra hmeet
  have hinside := hplace (p - src) (by omega)
  omega

/-- A string of the program does not leave room for a request that rounds to zero: the heap has
a header. -/
lemma HeapInv.roundSize_ne_zero (hi : HeapInv h segs) (hfit : src + s.length < 2 ^ 32)
    (hown : ∀ i ≤ s.length, OfProgram segs h h (src + i)) : roundSize (s.length + 1) ≠ 0 := by
  intro h0
  have hlen : 2 ^ 32 - 16 ≤ s.length := by
    rw [roundSize, wrap32] at h0
    split_ifs at h0
    omega
  obtain ⟨b, l, rfl⟩ := List.exists_cons_of_ne_nil hi.shape.nonempty
  have hb : b.addr = h.heapStart := hi.shape.tiles.1
  have hbounds := hi.shape.bounds (b := b) (by simp)
  have hblock := hi.shape.length b (by simp)
  rcases hown (max h.heapStart src - src) (by omega) with ⟨c, hc, -, hx⟩ | hx
  · have := hi.shape.offHeaders_of_mem_bytes hc hx b (by simp)
    omega
  · omega

/-- `strdup` is `strcpy` to the block that `malloc` returns. -/
lemma strdup_eq (hs : StringAt h.mem src s) (hsrc : 0 < src) (hfit : src + s.length < 2 ^ 32)
    (hm : malloc HeapCall.fuel h (s.length + 1) = some (h', p)) (fuel : ℕ) :
    Libc.strdup fuel h src = if fuel ≤ s.length then none else
      (strcpyLoop h'.mem p src fuel).map fun r => (p, { h' with mem := r.1 }, r.2) := by
  rw [Libc.strdup, strlenLoop_string hs (by omega) (by omega), Nat.zero_add]
  split_ifs with hfuel
  · rfl
  · simp only [Option.bind_eq_bind, Option.bind_some, wrap32_of_lt (show s.length + 1 < 2 ^ 32 by
      omega), hm, Libc.strcpy]
    cases strcpyLoop h'.mem p src fuel <;> rfl

/-- `strdup` returns a block with a string in it. -/
def StrdupRight (h : Heap) (src : ℕ) (s : List UInt8) : Prop :=
  ∃ fuel p h' log, Libc.strdup fuel h src = some (p, h', log) ∧ StringCopied p src s h'.mem log

/-- **A duplicate is a string** when there is something to copy and the block that `malloc` hands
out has a zero where the string ends. -/
lemma strdup_right_iff (hi : HeapInv h segs) (hfits : mallocFits HeapCall.fuel h (s.length + 1))
    (hs : StringAt h.mem src s) (hsrc : 0 < src) (hfit : src + s.length < 2 ^ 32)
    (hown : ∀ h' p, malloc HeapCall.fuel h (s.length + 1) = some (h', p) →
      ∀ i ≤ s.length, OfProgram segs h h' (src + i)) :
    StrdupRight h src s ↔ s ≠ [] ∧ ∃ h' p,
      malloc HeapCall.fuel h (s.length + 1) = some (h', p) ∧ h'.mem (p + s.length) = 0 := by
  obtain ⟨h0, hm⟩ | ⟨h', p, segs', hm, ha⟩ :=
    malloc_spec hi (by omega) HeapCall.three_le_fuel hfits
  · exact absurd h0 (hi.roundSize_ne_zero hfit (hown h 0 hm))
  have hroom := ha.below
  have hsize : roundSize (s.length + 1) ≠ 0 := fun h0 => by
    have hnull : malloc HeapCall.fuel h (s.length + 1) = some (h, 0) := by
      simp [malloc, HeapCall.fuel, h0]
    rw [hm] at hnull
    obtain ⟨-, rfl⟩ := Prod.mk.inj (Option.some.inj hnull)
    omega
  have hout := (malloc_outside hi (Nat.pos_of_ne_zero hsize) (dvd_roundSize _)
    ((mallocFits_roundSize _ _).mpr hfits) ((malloc_roundSize _ _).trans hm)).2
  have hown := hown h' p hm
  have hapart := ha.string_apart hout hown
  have hs' : StringAt h'.mem src s := by
    refine ⟨hs.no_zero, hs.holds.congr fun x h1 h2 => ?_⟩
    rw [List.length_append, List.length_singleton] at h2
    have hx := (ha.ofProgram hout (hown (x - src) (by omega))).1
    rwa [Nat.add_sub_cancel' h1] at hx
  have hcopy := strcpy_right_iff hs' hfit (by omega) hapart
  constructor
  · rintro ⟨fuel, q, g, log, hdup, hcopied⟩
    rw [strdup_eq hs hsrc hfit hm] at hdup
    split_ifs at hdup
    obtain ⟨⟨m', log'⟩, hloop, heq⟩ := Option.map_eq_some_iff.mp hdup
    obtain ⟨rfl, rfl, rfl⟩ : p = q ∧ { h' with mem := m' } = g ∧ log' = log := by
      simpa using heq
    obtain ⟨hne, hzero⟩ := hcopy.mp ⟨fuel, m', log', hloop, hcopied⟩
    exact ⟨hne, h', p, hm, hzero⟩
  · rintro ⟨hne, g, q, hg, hzero⟩
    obtain ⟨rfl, rfl⟩ : h' = g ∧ p = q := by
      rw [hm] at hg
      exact Prod.mk.inj (Option.some.inj hg)
    obtain ⟨fuel, m', log, hloop, hcopied⟩ := hcopy.mpr ⟨hne, hzero⟩
    refine ⟨fuel + s.length + 1, p, { h' with mem := m' }, log, ?_, hcopied⟩
    rw [strdup_eq hs hsrc hfit hm, if_neg (by omega),
      strcpyLoop_mono hloop (show fuel ≤ fuel + s.length + 1 by omega)]
    rfl

end Strdup

/-- **Copies are terminated** exactly when the string is not empty and the zero behind the copy is
there before: for the kernel's `strcpy` and the library's, and for `strdup` with what `malloc`
hands out. -/
theorem copies_terminated_iff {src : ℕ} {s : List UInt8} (hsrc : 0 < src)
    (hfit : src + s.length < 2 ^ 32) :
    (∀ copy ∈ [Kernel.strcpy, Libc.strcpy], ∀ m dest, StringAt m src s →
      dest + s.length < 2 ^ 32 → dest + s.length < src ∨ src + s.length < dest →
      (CopyRight copy m dest src s ↔ s ≠ [] ∧ m (dest + s.length) = 0)) ∧
    ∀ h segs, HeapInv h segs → mallocFits HeapCall.fuel h (s.length + 1) → StringAt h.mem src s →
      (∀ h' p, malloc HeapCall.fuel h (s.length + 1) = some (h', p) →
        ∀ i ≤ s.length, OfProgram segs h h' (src + i)) →
      (StrdupRight h src s ↔ s ≠ [] ∧ ∃ h' p,
        malloc HeapCall.fuel h (s.length + 1) = some (h', p) ∧ h'.mem (p + s.length) = 0) := by
  refine ⟨fun copy hcopy m dest hs hroom hapart => ?_, fun h segs hi hfits hs hown => ?_⟩
  · have heq : copy = Libc.strcpy := by
      simp only [List.mem_cons, List.not_mem_nil, or_false] at hcopy
      rcases hcopy with rfl | rfl
      · rfl
      · rfl
    rw [heq]
    exact strcpy_right_iff hs hfit hroom hapart
  · exact strdup_right_iff hi hfits hs hsrc hfit hown

/-- One letter at address 16. -/
def letterMem : Mem := writeByte (fun _ => 0) 16 97

lemma letterMem_string : StringAt letterMem 16 [97] := ⟨by decide, by decide⟩

/-- The letter is copied to a buffer of zeros. -/
theorem copies_terminated_letter : CopyRight Libc.strcpy letterMem 32 16 [97] :=
  ((copies_terminated_iff (by decide) (by decide)).1 Libc.strcpy (by simp) letterMem 32
    letterMem_string (by decide) (by decide)).mpr ⟨by decide, by decide⟩

/-- A buffer with another text in it: the copy of one letter goes on with the old text. -/
theorem copy_of_letter_runs_on : StringAt (writeByte letterMem 33 120) 16 [97] ∧
    ¬ CopyRight Libc.strcpy (writeByte letterMem 33 120) 32 16 [97] ∧
    ∃ log, Libc.strcpy 1 (writeByte letterMem 33 120) 32 16 =
        some (writeByte (writeByte letterMem 33 120) 32 97, log) ∧
      StringAt (writeByte (writeByte letterMem 33 120) 32 97) 32 [97, 120] := by
  have hs : StringAt (writeByte letterMem 33 120) 16 [97] := ⟨by decide, by decide⟩
  refine ⟨hs, ?_, [.read 16, .write 32, .read 17], rfl, by decide, by decide⟩
  rw [strcpy_right_iff hs (by decide) (by decide) (by decide)]
  decide

end MicroOS
