import MicroOS.Lib.ByteImage
import MicroOS.Memory.Pmm
import MicroOS.User.LibcString

/-!
Functions of `utils/string.c` of the kernel, which is built with `FAST_MEMORY`.

* `movsl`: `rep movsl`, word by word;
* `kernelMemcpy`: `memcpy`, words first and the last bytes after them; `kernelMemcpy_of_disjoint`
  and `kernelMemcpy_apply` say what it does, also to regions that overlap when it copies downwards;
* `storeBytes`: a copy whose source is the memory of a caller;
* `IsString`: what a string in memory is;
* `copyUntil`, `strcmp`, `strcasecmp`, `strcpy`: strings, with `strcmp_eq_zero`,
  `strcasecmp_eq_zero` and `strcpy_ok`.

A string that is given by value is a list of bytes without a zero, one in memory is what stands
there up to a zero.
-/

namespace MicroOS

open ByteMem

variable {m : Mem} {dest src n x i : ℕ}

/-! ### `memcpy` -/

/-- `rep movsl` with `n` in `ecx`. -/
def movsl (m : Mem) (dest src : ℕ) : ℕ → Mem
  | 0 => m
  | n + 1 => movsl (writeWord m dest (readWord m src)) (wrap32 (dest + 4)) (wrap32 (src + 4)) n

/-- `memcpy`. -/
def kernelMemcpy (m : Mem) (dest src n : ℕ) : Mem :=
  memcpy (movsl m dest src (n / 4)) (wrap32 (dest + 4 * (n / 4))) (wrap32 (src + 4 * (n / 4)))
    (n % 4)

/-- A copy leaves what is around it alone. -/
lemma movsl_of_disjoint (hd : dest + 4 * n < 2 ^ 32) (hx : x < dest ∨ dest + 4 * n ≤ x) :
    movsl m dest src n x = m x := by
  induction n generalizing m dest src with
  | zero => rfl
  | succ n ih =>
    rw [movsl, wrap32_of_lt (show dest + 4 < 2 ^ 32 by omega), ih (by omega) (by omega),
      writeWord_of_disjoint _ _ (by omega)]

/-- **A copy of double words** copies their bytes. -/
lemma movsl_apply (hd : dest + 4 * n < 2 ^ 32) (hs : src + 4 * n < 2 ^ 32)
    (hsafe : dest ≤ src ∨ src + 4 * n ≤ dest) (hi : i < 4 * n) :
    movsl m dest src n (dest + i) = m (src + i) := by
  induction n generalizing m dest src i with
  | zero => omega
  | succ n ih =>
    rw [movsl, wrap32_of_lt (show dest + 4 < 2 ^ 32 by omega),
      wrap32_of_lt (show src + 4 < 2 ^ 32 by omega)]
    by_cases hword : i < 4
    · rw [movsl_of_disjoint (by omega) (by omega), writeWord_readWord hword]
    · have h : movsl (writeWord m dest (readWord m src)) (dest + 4) (src + 4) n
          (dest + 4 + (i - 4)) = writeWord m dest (readWord m src) (src + 4 + (i - 4)) :=
        ih (by omega) (by omega) (by omega) (by omega)
      rw [show dest + i = dest + 4 + (i - 4) by omega, h, writeWord_of_disjoint _ _ (by omega),
        show src + i = src + 4 + (i - 4) by omega]

/-- `memcpy` keeps every byte outside the destination. -/
lemma kernelMemcpy_of_disjoint (hd : dest + n < 2 ^ 32) (hx : x < dest ∨ dest + n ≤ x) :
    kernelMemcpy m dest src n x = m x := by
  rw [kernelMemcpy, wrap32_of_lt (show dest + 4 * (n / 4) < 2 ^ 32 by omega),
    memcpy_of_disjoint (by omega) (by omega), movsl_of_disjoint (by omega) (by omega)]

/-- `memcpy` copies every byte between regions that do not overlap, and downwards between others: a
word is read before any of it is written. -/
lemma kernelMemcpy_apply (hd : dest + n < 2 ^ 32) (hs : src + n < 2 ^ 32)
    (hsafe : dest ≤ src ∨ src + n ≤ dest) (hi : i < n) :
    kernelMemcpy m dest src n (dest + i) = m (src + i) := by
  rw [kernelMemcpy, wrap32_of_lt (show dest + 4 * (n / 4) < 2 ^ 32 by omega),
    wrap32_of_lt (show src + 4 * (n / 4) < 2 ^ 32 by omega)]
  by_cases hword : i < 4 * (n / 4)
  · rw [memcpy_of_disjoint (by omega) (by omega)]
    exact movsl_apply (by omega) (by omega) (by omega) hword
  · have h : memcpy (movsl m dest src (n / 4)) (dest + 4 * (n / 4)) (src + 4 * (n / 4)) (n % 4)
        (dest + 4 * (n / 4) + (i - 4 * (n / 4))) =
          movsl m dest src (n / 4) (src + 4 * (n / 4) + (i - 4 * (n / 4))) :=
      memcpy_apply (by omega) (by omega) (by omega) (by omega)
    rw [show dest + i = dest + 4 * (n / 4) + (i - 4 * (n / 4)) by omega, h,
      movsl_of_disjoint (by omega) (by omega),
      show src + i = src + 4 * (n / 4) + (i - 4 * (n / 4)) by omega]

/-! ### A copy from a caller -/

/-- `memcpy` from a buffer of the caller that holds `data`. -/
def storeBytes (m : Mem) (dest : ℕ) : List UInt8 → Mem
  | [] => m
  | b :: data => storeBytes (writeByte m dest b) (wrap32 (dest + 1)) data

variable {data : List UInt8}

/-- Storing bytes leaves what is around them alone. -/
lemma storeBytes_of_disjoint (hd : dest + data.length < 2 ^ 32)
    (hx : x < dest ∨ dest + data.length ≤ x) : storeBytes m dest data x = m x := by
  induction data generalizing m dest with
  | nil => rfl
  | cons b data ih =>
    rw [List.length_cons] at hd hx
    rw [storeBytes, wrap32_of_lt (show dest + 1 < 2 ^ 32 by omega), ih (by omega) (by omega),
      writeByte_of_ne _ _ (by omega)]

/-- The bytes that are stored. -/
lemma storeBytes_apply (hd : dest + data.length < 2 ^ 32) (hi : i < data.length) :
    storeBytes m dest data (dest + i) = data.getD i 0 := by
  induction data generalizing m dest i with
  | nil => exact absurd hi (by simp)
  | cons b data ih =>
    rw [List.length_cons] at hd hi
    rw [storeBytes, wrap32_of_lt (show dest + 1 < 2 ^ 32 by omega)]
    cases i with
    | zero =>
      rw [storeBytes_of_disjoint (by omega) (by omega)]
      exact writeByte_self m dest b
    | succ i =>
      rw [show dest + (i + 1) = dest + 1 + i by omega]
      exact ih (by omega) (by omega)

/-- A store that goes around the end of the address space keeps the bytes that it does not meet. -/
lemma storeBytes_of_ne (hd : dest < 2 ^ 32) (hx : ∀ i < data.length, x ≠ wrap32 (dest + i)) :
    storeBytes m dest data x = m x := by
  induction data generalizing m dest with
  | nil => rfl
  | cons b data ih =>
    rw [List.length_cons] at hx
    have hne := hx 0 (Nat.succ_pos _)
    rw [Nat.add_zero, wrap32_of_lt hd] at hne
    rw [storeBytes, ih (wrap32_lt _) fun i hi => ?_, writeByte_of_ne _ _ hne]
    have hnext := hx (i + 1) (Nat.succ_lt_succ hi)
    rw [wrap32] at hnext ⊢
    rw [wrap32]
    omega

/-- A store that may go around the end of the address space is there, if it is no longer
than that. -/
lemma storeBytes_wrap {m : Mem} {dest i : ℕ} {data : List UInt8} (hd : dest < 2 ^ 32)
    (hlen : data.length ≤ 2 ^ 32) (hi : i < data.length) :
    storeBytes m dest data (wrap32 (dest + i)) = data.getD i 0 := by
  induction data generalizing m dest i with
  | nil => exact absurd hi (by simp)
  | cons b data ih =>
    rw [List.length_cons] at hlen hi
    rw [storeBytes]
    cases i with
    | zero =>
      have hself : storeBytes (writeByte m dest b) (wrap32 (dest + 1)) data dest =
          writeByte m dest b dest := by
        refine storeBytes_of_ne (wrap32_lt _) fun j hj => ?_
        rw [wrap32, wrap32]
        omega
      change storeBytes _ _ data (wrap32 dest) = b
      rw [wrap32_of_lt hd, hself]
      exact writeByte_self m dest b
    | succ i =>
      have hnext : wrap32 (dest + (i + 1)) = wrap32 (wrap32 (dest + 1) + i) := by
        rw [wrap32, wrap32, wrap32]
        omega
      rw [hnext]
      exact ih (wrap32_lt _) (by omega) (by omega)

/-- What was stored is there. -/
lemma holds_storeBytes (hd : dest + data.length < 2 ^ 32) :
    ByteImage.Holds (storeBytes m dest data) dest data := by
  intro i b hb
  obtain ⟨hi, -⟩ := List.getElem?_eq_some_iff.mp hb
  rw [storeBytes_apply hd hi, List.getD_eq_getElem?_getD, hb, Option.getD_some]

/-! ### Strings -/

/-- The string that begins at a path. -/
structure IsString (path : ℕ → UInt8) (s : List UInt8) : Prop where
  zero_notMem : 0 ∉ s
  holds : ByteImage.Holds path 0 (s ++ [0])

/-- `copy_until`: what is copied to `dest`, without the zero behind it, and the string that is
returned. -/
def copyUntil (until_ : UInt8) : List UInt8 → List UInt8 × List UInt8
  | [] => ([], [])
  | c :: src =>
    if c = until_ then ([], src)
    else (c :: (copyUntil until_ src).1, (copyUntil until_ src).2)

/-- `tolower`. -/
def tolower (c : UInt8) : UInt8 := if 65 ≤ c ∧ c ≤ 90 then c + 32 else c

/-- A `char` as an `int`. -/
def charInt (c : UInt8) : ℤ := c.toInt8.toInt

/-- `strcasecmp` with the second string at `str2`. -/
def strcasecmp : List UInt8 → (ℕ → UInt8) → ℤ
  | [], str2 => charInt (tolower 0) - charInt (tolower (str2 0))
  | c :: str1, str2 =>
    if tolower c = tolower (str2 0) then strcasecmp str1 fun i => str2 (i + 1)
    else charInt (tolower c) - charInt (tolower (str2 0))

/-- `strcmp`, which `user/libc/string.c` has too. -/
def strcmp : List UInt8 → List UInt8 → ℤ
  | a :: str1, b :: str2 => if a = b then strcmp str1 str2 else charInt a - charInt b
  | str1, str2 => charInt (str1.headD 0) - charInt (str2.headD 0)

/-- `strcpy` from `src` to an array of `room` bytes: the bytes that are copied. The first one is
copied before any is looked at, and the zero at the end is not copied. -/
def strcpy (src : ℕ → UInt8) : ℕ → Except Halt (List UInt8)
  | 0 => .error (.outOfBounds 0)
  | room + 1 =>
    if src 1 = 0 then .ok [src 0]
    else do return src 0 :: (← strcpy (fun i => src (i + 1)) room)

/-- A copy ends at the first separator. -/
lemma copyUntil_append {c : UInt8} {s : List UInt8} (hs : c ∉ s) (rest : List UInt8) :
    copyUntil c (s ++ c :: rest) = (s, rest) := by
  induction s with
  | nil => rw [List.nil_append, copyUntil, if_pos rfl]
  | cons b s ih =>
    have hb : b ≠ c := fun h => hs (h ▸ List.mem_cons_self)
    rw [List.cons_append, copyUntil, if_neg hb, ih fun h => hs (List.mem_cons_of_mem b h)]

/-- Without a separator everything is copied. -/
lemma copyUntil_of_notMem {c : UInt8} {s : List UInt8} (hs : c ∉ s) : copyUntil c s = (s, []) := by
  induction s with
  | nil => rfl
  | cons b s ih =>
    have hb : b ≠ c := fun h => hs (h ▸ List.mem_cons_self)
    rw [copyUntil, if_neg hb, ih fun h => hs (List.mem_cons_of_mem b h)]

/-- Two strings are the same up to ASCII case. -/
def SameName (s t : List UInt8) : Prop := s.map tolower = t.map tolower

instance (s t : List UInt8) : Decidable (SameName s t) := inferInstanceAs (Decidable (_ = _))

lemma SameName.length_eq {s t : List UInt8} (h : SameName s t) : s.length = t.length := by
  simpa using congrArg List.length h

/-- Only zero becomes zero. -/
lemma tolower_eq_zero {c : UInt8} (h : tolower c = 0) : c = 0 := by
  rw [tolower] at h
  split_ifs at h with hupper
  · have hsum : (c.toNat + 32) % 256 = 0 := congrArg UInt8.toNat h
    have hlow : 65 ≤ c.toNat := hupper.1
    have hhigh : c.toNat ≤ 90 := hupper.2
    omega
  · exact h

/-- Characters differ by zero just when they are the same. -/
lemma charInt_sub_eq_zero {b c : UInt8} : charInt b - charInt c = 0 ↔ b = c := by
  rw [sub_eq_zero, charInt, charInt, Int8.toInt_inj]
  exact ⟨fun h => congrArg Int8.toUInt8 h, fun h => congrArg UInt8.toInt8 h⟩

/-- **`strcmp`** returns zero just for equal strings. -/
lemma strcmp_eq_zero {s t : List UInt8} (hs : 0 ∉ s) (ht : 0 ∉ t) : strcmp s t = 0 ↔ s = t := by
  induction s generalizing t with
  | nil =>
    rw [strcmp.eq_def, charInt_sub_eq_zero]
    cases t with
    | nil => simp
    | cons b t => simpa using fun hb => ht (by simp [← hb])
  | cons a s ih =>
    cases t with
    | nil =>
      rw [strcmp.eq_def, charInt_sub_eq_zero]
      simpa using fun ha => hs (by simp [ha])
    | cons b t =>
      rw [strcmp, List.cons.injEq]
      split_ifs with hab
      · rw [ih (fun h => hs (List.mem_cons_of_mem a h)) fun h => ht (List.mem_cons_of_mem b h)]
        exact ⟨fun h => ⟨hab, h⟩, fun h => h.2⟩
      · rw [charInt_sub_eq_zero]
        exact ⟨fun h => absurd h hab, fun h => absurd h.1 hab⟩

/-- **`strcasecmp`** with a name in memory. -/
lemma strcasecmp_eq_zero {s name : List UInt8} {str2 : ℕ → UInt8} (hs : 0 ∉ s) (hname : 0 ∉ name)
    (h : ByteImage.Holds str2 0 (name ++ [0])) : strcasecmp s str2 = 0 ↔ SameName s name := by
  induction s generalizing name str2 with
  | nil =>
    rw [strcasecmp, charInt_sub_eq_zero]
    cases name with
    | nil =>
      have hzero : str2 0 = 0 := h 0 0 rfl
      rw [hzero]
      exact ⟨fun _ => rfl, fun _ => rfl⟩
    | cons d name =>
      have hd : str2 0 = d := h 0 d rfl
      rw [hd]
      refine ⟨fun heq => ?_, fun heq => absurd heq (by simp [SameName])⟩
      exact absurd (tolower_eq_zero heq.symm) fun hzero => hname (by simp [hzero])
  | cons c s ih =>
    have hc : c ≠ 0 := fun hc => hs (by simp [hc])
    rw [strcasecmp]
    cases name with
    | nil =>
      have hzero : str2 0 = 0 := h 0 0 rfl
      have hne : tolower c ≠ tolower 0 := fun heq => hc (tolower_eq_zero heq)
      rw [hzero, if_neg hne, charInt_sub_eq_zero]
      exact ⟨fun heq => absurd heq hne, fun heq => absurd heq (by simp [SameName])⟩
    | cons d name =>
      have hfirst : str2 0 = d := h 0 d rfl
      have hih := ih (fun hmem => hs (List.mem_cons_of_mem c hmem))
        (fun hmem => hname (List.mem_cons_of_mem d hmem)) h.tail
      rw [hfirst, SameName, List.map_cons, List.map_cons, List.cons.injEq]
      split_ifs with heq
      · rw [hih]
        exact ⟨fun h => ⟨heq, h⟩, fun h => h.2⟩
      · rw [charInt_sub_eq_zero]
        exact ⟨fun h => absurd h heq, fun h => absurd h.1 heq⟩

/-- What `strcasecmp` finds the same as a string. -/
lemma strcasecmp_eq_zero_iff {s : List UInt8} {str2 : ℕ → UInt8} (hs : 0 ∉ s) :
    strcasecmp s str2 = 0 ↔ ∃ name, IsString str2 name ∧ SameName s name := by
  refine ⟨fun h => ?_, fun ⟨name, hname, hsame⟩ =>
    (strcasecmp_eq_zero hs hname.zero_notMem hname.holds).mpr hsame⟩
  induction s generalizing str2 with
  | nil =>
    rw [strcasecmp, charInt_sub_eq_zero] at h
    refine ⟨[], ⟨List.not_mem_nil, ?_⟩, rfl⟩
    exact ByteImage.holds_cons.mpr ⟨tolower_eq_zero h.symm, ByteImage.holds_nil⟩
  | cons c s ih =>
    rw [strcasecmp] at h
    split_ifs at h with hc
    · obtain ⟨name, hname, hsame⟩ := ih (fun hmem => hs (List.mem_cons_of_mem c hmem)) h
      refine ⟨str2 0 :: name, ⟨fun hmem => ?_, ?_⟩, ?_⟩
      · rcases List.mem_cons.mp hmem with hzero | hmem
        · rw [← hzero] at hc
          exact hs (by simp [tolower_eq_zero hc])
        · exact hname.zero_notMem hmem
      · refine ByteImage.holds_cons.mpr ⟨rfl, fun i b hb => ?_⟩
        rw [Nat.add_comm (0 + 1)]
        simpa using hname.holds i b hb
      · have htail : s.map tolower = name.map tolower := hsame
        rw [SameName, List.map_cons, List.map_cons, hc, htail]
    · rw [charInt_sub_eq_zero] at h
      exact absurd h hc

/-- **`strcpy`** copies up to the first zero that is not the first byte. -/
lemma strcpy_of_zero {src : ℕ → UInt8} {room k : ℕ} (hk : 0 < k) (hroom : k ≤ room)
    (hzero : src k = 0) (hne : ∀ i, 0 < i → i < k → src i ≠ 0) :
    strcpy src room = .ok ((List.range k).map src) := by
  induction room generalizing src k with
  | zero => omega
  | succ room ih =>
    obtain ⟨k, rfl⟩ : ∃ j, k = j + 1 := ⟨k - 1, by omega⟩
    rw [strcpy]
    by_cases hk0 : k = 0
    · subst hk0
      rw [if_pos hzero]
      rfl
    · have hrest : strcpy (fun i => src (i + 1)) room =
          .ok ((List.range k).map fun i => src (i + 1)) :=
        ih (by omega) (by omega) hzero fun i hi hik => hne (i + 1) (by omega) (by omega)
      rw [if_neg (hne 1 (by omega) (by omega)), hrest]
      simp [List.range_succ_eq_map, Function.comp_def, bind, Except.bind, pure, Except.pure]

/-- `strcpy` runs out of an array that is too small. -/
lemma strcpy_overflow {src : ℕ → UInt8} {room : ℕ}
    (hne : ∀ i, 0 < i → i ≤ room → src i ≠ 0) : strcpy src room = .error (.outOfBounds 0) := by
  induction room generalizing src with
  | zero => rfl
  | succ room ih =>
    have hrest : strcpy (fun i => src (i + 1)) room = .error (.outOfBounds 0) :=
      ih fun i hi hroom => hne (i + 1) (by omega) (by omega)
    rw [strcpy, if_neg (hne 1 (by omega) (by omega)), hrest]
    rfl

/-- **`strcpy`** of a name in memory. -/
lemma strcpy_ok {name : List UInt8} {src : ℕ → UInt8} {room : ℕ} (hne : name ≠ [])
    (hname : 0 ∉ name) (hroom : name.length ≤ room)
    (h : ByteImage.Holds src 0 (name ++ [0])) : strcpy src room = .ok name := by
  obtain ⟨hchars, hzero⟩ := ByteImage.holds_append.mp h
  have hbyte : ∀ i, i < name.length → src i ≠ 0 := by
    intro i hi heq
    have hi' := hchars i _ (List.getElem?_eq_getElem hi)
    rw [zero_add, heq] at hi'
    exact hname (hi' ▸ List.getElem_mem hi)
  have hend : src name.length = 0 := by simpa using hzero 0 0 rfl
  rw [strcpy_of_zero (List.length_pos_iff.mpr hne) hroom hend fun i _ hi => hbyte i hi,
    hchars.map_range]

end MicroOS
