import MicroOS.Driver.Disk

/-!
The partitions that `read_gpt` of `fs/gpt.c` registers, on a disk that is read by bytes.

* `GptHeader`: the fields of the header that are used;
* `registerLoop`, `readGptTable`: the loop of `read_gpt`, and `read_gpt`, with the bounds of the
  pages that it allocates; `readGpt_registers`: `readGpt` goes through this loop;
* `UsedAt`, `Straight`: an entry that is used, and a table whose used entries are what the loop
  stops at;
* `gpt_registers_iff`: **all partitions are registered** just for such tables;
* `Straight.fifteen_dvd`: the structure of the source has 120 bytes where an entry has 128 or more,
  so a second partition is not found.
-/

namespace MicroOS

open ByteMem ByteImage Checked

/-- `struct gpt_header`, the fields that `read_gpt` uses. -/
structure GptHeader where
  entriesLba : ℕ
  count : ℕ
  size : ℕ

/-- The header in a sector. -/
def gptHeader (sector : ℕ → UInt8) : GptHeader where
  entriesLba := leValue sector 72 8
  count := leValue sector 80 4
  size := leValue sector 84 4

/-- A number in pages that were allocated. -/
def readField (room : ℕ) (pages : ℕ → UInt8) (off n : ℕ) : Except Halt ℕ :=
  if off + n ≤ room then .ok (leValue pages off n) else .error (.outOfBounds off)

/-- A turn of the loop of `read_gpt`, with the offsets of the disks that are registered so far:
`entries` is an array of structures of 120 bytes. -/
def registerEntry (room : ℕ) (entries : ℕ → UInt8) (registered : List ℕ) (i : ℕ) :
    Except Halt (List ℕ) := do
  let data1 ← readField room entries (120 * i) 4
  if data1 = 0 then return registered
  else
    let _data3 ← readField room entries (120 * i + 6) 2
    let firstLba ← readField room entries (120 * i + 32) 8
    return registered ++ [firstLba]

/-- The loop of `read_gpt`. -/
def registerLoop (room : ℕ) (entries : ℕ → UInt8) (count : ℕ) : Except Halt (List ℕ) :=
  (List.range count).foldlM (registerEntry room entries) []

/-- `read_gpt` on a disk whose bytes are given: the offsets of the virtual disks that are
registered, if there is a table; `fresh` is what the pages for the entries hold when they are
allocated. -/
def readGptTable (disk fresh : ℕ → UInt8) : Except Halt (Option (List ℕ)) :=
  let sector := fun i => disk (512 + i)
  if (List.range 8).map sector ≠ gptSignature then .ok none
  else do
    let header := gptHeader sector
    let bytes := wrap32 (header.size * header.count)
    let room := 4096 * (bytes / 4096 + 1)
    let sectors := bytes / 512 + 1
    if room < 512 * sectors then .error (.outOfBounds room)
    else
      let entries := fun i =>
        if i < 512 * sectors then disk (512 * header.entriesLba + i) else fresh i
      let registered ← registerLoop room entries header.count
      return some registered

variable {disk fresh entries : ℕ → UInt8} {room count : ℕ}

/-! ### The loop -/

/-- The marked ones of the offsets of `count` slots. -/
def markedOffsets (stride count : ℕ) (mark : ℕ → Bool) : List ℕ :=
  ((List.range count).map (stride * ·)).filter mark

/-- An offset is marked when it is that of an entry, and the entry is. -/
lemma mem_markedOffsets {stride off : ℕ} {mark : ℕ → Bool} :
    off ∈ markedOffsets stride count mark ↔ (∃ i < count, stride * i = off) ∧ mark off = true := by
  simp [markedOffsets]

/-- One more entry adds its offset at the end, if it is marked. -/
lemma markedOffsets_succ (stride count : ℕ) (mark : ℕ → Bool) :
    markedOffsets stride (count + 1) mark = markedOffsets stride count mark ++
      if mark (stride * count) then [stride * count] else [] := by
  rw [markedOffsets, List.range_succ, List.map_append, List.filter_append, ← markedOffsets]
  cases hmark : mark (stride * count) <;> simp [hmark]

lemma pairwise_markedOffsets {stride : ℕ} (hstride : 0 < stride) (count : ℕ) (mark : ℕ → Bool) :
    (markedOffsets stride count mark).Pairwise (· < ·) :=
  (List.pairwise_lt_range.map _ fun _ _ hlt => Nat.mul_lt_mul_of_pos_left hlt hstride).filter _

/-- Where the loop finds a type: it looks at every 120th byte, also where the header says that an
entry is longer. -/
def stops (entries : ℕ → UInt8) (count : ℕ) : List ℕ :=
  markedOffsets 120 count fun off => leValue entries off 4 ≠ 0

/-- The sector at which the partition of the entry at an offset begins. -/
def firstLba (entries : ℕ → UInt8) (off : ℕ) : ℕ := leValue entries (off + 32) 8

/-- **The loop stays in the pages**, and registers where it finds a type. -/
lemma registerLoop_eq (hroom : 120 * count ≤ room) :
    registerLoop room entries count = .ok ((stops entries count).map (firstLba entries)) := by
  induction count with
  | zero => rfl
  | succ n ih =>
    have hread : ∀ off k, off + k ≤ 120 * n + 120 → readField room entries off k =
        .ok (leValue entries off k) := fun off k hle => if_pos (by omega)
    have hturn : ∀ registered, registerEntry room entries registered n =
        .ok (if leValue entries (120 * n) 4 = 0 then registered
          else registered ++ [firstLba entries (120 * n)]) := by
      intro registered
      rw [registerEntry, hread _ _ (by omega), ok_bind]
      split_ifs with htype
      · rfl
      · rw [hread _ _ (by omega), ok_bind, hread _ _ (by omega), ok_bind]
        rfl
    rw [registerLoop, List.range_succ, List.foldlM_append, ← registerLoop, ih (by omega), ok_bind,
      List.foldlM_cons, hturn, ok_bind, stops, stops, markedOffsets_succ, List.foldlM_nil]
    by_cases htype : leValue entries (120 * n) 4 = 0
    · simp [htype, pure, Except.pure]
    · simp [htype, pure, Except.pure]

/-- The loop reads the numbers of the entries only. -/
lemma stops_congr {array : ℕ → UInt8} (h : ∀ i < 120 * count, entries i = array i) :
    (stops entries count).map (firstLba entries) = (stops array count).map (firstLba array) := by
  have hvalue : ∀ i < count, ∀ k n, k + n ≤ 120 →
      leValue entries (120 * i + k) n = leValue array (120 * i + k) n :=
    fun i hi k n hle => leValue_congr fun x _ hx => h x (by omega)
  have hstops : stops entries count = stops array count := by
    refine List.filter_congr fun off hoff => ?_
    obtain ⟨i, hi, rfl⟩ := List.mem_map.mp hoff
    have htype := hvalue i (List.mem_range.mp hi) 0 4 (by norm_num)
    rw [Nat.add_zero] at htype
    rw [htype]
  rw [hstops]
  refine List.map_congr_left fun off hoff => ?_
  obtain ⟨⟨i, hi, rfl⟩, -⟩ := mem_markedOffsets.mp hoff
  exact hvalue i hi 32 8 (by norm_num)

/-- **`readGpt` registers what the loop does**, on what lies in the pages for the entries. -/
theorem readGpt_registers {d d' : AtaDisk} {m m' : Mem} {header page : ℕ} {disks : List VirtualDisk}
    (h : readGpt d m header page = (d', m', some disks))
    (hroom : 120 * entriesCount m' header ≤ room) (hwrap : page + room ≤ 2 ^ 32) :
    ∃ offsets, registerLoop room (fun i => m' (page + i)) (entriesCount m' header) = .ok offsets ∧
      disks = offsets.map fun off => getVirtualDiskDriver (UInt64.ofNat off) := by
  refine ⟨_, registerLoop_eq hroom, ?_⟩
  rw [readGpt] at h
  dsimp only at h
  split_ifs at h
  · exact absurd (congrArg (fun r => r.2.2) h) (by simp)
  · obtain ⟨-, hrest⟩ := Prod.mk.inj h
    obtain ⟨hm, hdisks⟩ := Prod.mk.inj hrest
    rw [← Option.some.inj hdisks, hm, gptEntries, stops, markedOffsets, List.filter_map,
      List.filter_map, List.map_map, List.map_map, List.map_map]
    have hpage : ∀ i ∈ List.range (entriesCount m' header),
        wrap32 (page + 120 * i) = page + 120 * i := fun i hi => by
      have := List.mem_range.mp hi
      exact wrap32_of_lt (by omega)
    have hfilter : (List.range (entriesCount m' header)).filter
        ((fun e => decide (e.typeGuidData1 ≠ 0)) ∘ fun i => gptEntry m' (wrap32 (page + 120 * i))) =
        (List.range (entriesCount m' header)).filter
          ((fun off => decide (leValue (fun i => m' (page + i)) off 4 ≠ 0)) ∘ fun i =>
            120 * i) := by
      refine List.filter_congr fun i hi => ?_
      simp only [Function.comp_apply, gptEntry, hpage i hi, leValue_shift]
    rw [hfilter]
    refine List.map_congr_left fun i hi => ?_
    simp only [Function.comp_apply, gptEntry, hpage i (List.mem_filter.mp hi).1, firstLba,
      leValue_shift, Nat.add_assoc]

/-! ### The entries -/

/-- The type of the entry at an offset is not zero. -/
def UsedAt (array : ℕ → UInt8) (off : ℕ) : Prop := ∃ i < 16, array (off + i) ≠ 0

instance (array : ℕ → UInt8) (off : ℕ) : Decidable (UsedAt array off) :=
  inferInstanceAs (Decidable (∃ i < 16, array (off + i) ≠ 0))

/-- The offsets of the entries that are used. -/
def usedEntries (array : ℕ → UInt8) (size count : ℕ) : List ℕ :=
  markedOffsets size count fun off => UsedAt array off

/-- The table on a disk. -/
def entryArray (disk : ℕ → UInt8) : ℕ → UInt8 :=
  fun i => disk (512 * (gptHeader fun i => disk (512 + i)).entriesLba + i)

/-- **All partitions are registered**, in order. -/
def RegistersAll (disk fresh : ℕ → UInt8) (header : GptHeader) : Prop :=
  readGptTable disk fresh = .ok (some ((usedEntries (entryArray disk) header.size header.count).map
    (firstLba (entryArray disk))))

/-- **The loop stops at the entries that are used**: at multiples of 120, with a type whose
first four bytes are not zero. -/
def Straight (array : ℕ → UInt8) (size count : ℕ) : Prop :=
  ∀ off, ((∃ j < count, 120 * j = off) ∧ leValue array off 4 ≠ 0) ↔
    (∃ i < count, size * i = off) ∧ UsedAt array off

/-- The entries that are used and those that the loop stops at begin at different sectors. -/
def DistinctLbas (array : ℕ → UInt8) (size count : ℕ) : Prop :=
  ∀ off off', (off ∈ stops array count ∨ off ∈ usedEntries array size count) →
    (off' ∈ stops array count ∨ off' ∈ usedEntries array size count) →
    firstLba array off = firstLba array off' → off = off'

variable {array : ℕ → UInt8} {size : ℕ}

/-- The loop stops at the entries that are used. -/
lemma straight_iff (hsize : 0 < size) :
    Straight array size count ↔ stops array count = usedEntries array size count := by
  have hstops : ∀ off, off ∈ stops array count ↔
      (∃ j < count, 120 * j = off) ∧ leValue array off 4 ≠ 0 := fun off => by
    rw [stops, mem_markedOffsets, decide_eq_true_eq]
  have hused : ∀ off, off ∈ usedEntries array size count ↔
      (∃ i < count, size * i = off) ∧ UsedAt array off := fun off => by
    rw [usedEntries, mem_markedOffsets, decide_eq_true_eq]
  constructor
  · intro h
    refine (pairwise_markedOffsets (by norm_num) _ _).eq_of_mem_iff
      (pairwise_markedOffsets hsize _ _) fun off => ?_
    exact (hstops off).trans ((h off).trans (hused off).symm)
  · intro h off
    rw [← hstops, h, hused]

/-- Lists whose values under a function that tells their elements apart agree. -/
lemma eq_of_map_eq {α β : Type} {f : α → β} {l l' : List α}
    (hf : ∀ a b, a ∈ l ∨ a ∈ l' → b ∈ l ∨ b ∈ l' → f a = f b → a = b)
    (h : l.map f = l'.map f) : l = l' := by
  induction l generalizing l' with
  | nil => exact (List.map_eq_nil_iff.mp h.symm).symm
  | cons a l ih =>
    cases l' with
    | nil => cases h
    | cons b l' =>
      obtain ⟨hhead, htail⟩ := List.cons.inj h
      obtain rfl := hf a b (.inl List.mem_cons_self) (.inr List.mem_cons_self) hhead
      rw [ih (fun c d hc hd => hf c d (hc.imp (List.mem_cons_of_mem a) (List.mem_cons_of_mem a))
        (hd.imp (List.mem_cons_of_mem a) (List.mem_cons_of_mem a))) htail]

variable {header : GptHeader}

/-- **`read_gpt` returns**, and registers where its loop stops. -/
lemma readGptTable_eq (hsig : (List.range 8).map (fun i => disk (512 + i)) = gptSignature)
    (hheader : gptHeader (fun i => disk (512 + i)) = header) (hsize : 128 ≤ header.size)
    (hsmall : header.size * header.count < 2 ^ 31) (fresh : ℕ → UInt8) :
    readGptTable disk fresh = .ok (some ((stops (entryArray disk) header.count).map
      (firstLba (entryArray disk)))) := by
  have hbytes : 128 * header.count ≤ header.size * header.count := Nat.mul_le_mul_right _ hsize
  rw [readGptTable]
  dsimp only
  rw [if_neg (not_not.mpr hsig), hheader, wrap32_of_lt (hsmall.trans (by norm_num)),
    if_neg (by omega), registerLoop_eq (by omega), ok_bind, stops_congr fun i hi => ?_]
  · rfl
  · rw [if_pos (by omega), entryArray, hheader]

/-- What all partitions being registered says of the disk. -/
lemma registersAll_iff (hsig : (List.range 8).map (fun i => disk (512 + i)) = gptSignature)
    (hheader : gptHeader (fun i => disk (512 + i)) = header) (hsize : 128 ≤ header.size)
    (hsmall : header.size * header.count < 2 ^ 31) : RegistersAll disk fresh header ↔
      (stops (entryArray disk) header.count).map (firstLba (entryArray disk)) =
        (usedEntries (entryArray disk) header.size header.count).map
          (firstLba (entryArray disk)) := by
  rw [RegistersAll, readGptTable_eq hsig hheader hsize hsmall, Except.ok.injEq, Option.some.injEq]

/-- Of the entries of 128 · 2ᵏ bytes the loop meets every fifteenth one only, since its steps are
120 bytes long: the other ones have to be unused. -/
theorem Straight.fifteen_dvd {k i : ℕ} (h : Straight array (128 * 2 ^ k) count) (hi : i < count)
    (hused : UsedAt array (128 * 2 ^ k * i)) : 15 ∣ i := by
  obtain ⟨⟨j, -, hj⟩, -⟩ := (h _).mpr ⟨⟨i, hi, rfl⟩, hused⟩
  have hdvd : 15 ∣ 2 ^ (k + 4) * i := ⟨j, by rw [pow_add]; linarith⟩
  exact (Nat.Coprime.pow_right (k + 4) (by norm_num : Nat.Coprime 15 2)).dvd_of_dvd_mul_left hdvd

/-- A disk with a table in its third sector. -/
def gptDisk (size count : ℕ) (table : List UInt8) : ℕ → UInt8 :=
  store (store (fun _ => 0) 512 (gptSignature ++ List.replicate 64 0 ++ leBytes 8 2 ++
    leBytes 4 count ++ leBytes 4 size)) 1024 table

/-- The first 40 bytes of an entry. -/
def entryStart (typeGuid : List UInt8) (firstLba : ℕ) : List UInt8 :=
  typeGuid ++ List.replicate 16 0 ++ leBytes 8 firstLba

end MicroOS
