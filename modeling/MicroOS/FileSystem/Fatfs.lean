import MicroOS.Memory.Pmm

/-!
The driver of the FAT file system, `fs/fatfs/fatdrv.c`.

* `isFat32Bpb`: `is_fat32_bpb`; `isFat32Bpb_iff` says what it accepts;
* `Fat32Valid`, `Fat32Volume.clusters`: a BPB of a FAT32 volume, and the clusters that it has;
* `fat32_recognised_iff`: the volumes that are judged right;
* `PathOp`, `fatfsDelete`: the operations, as far as the path that they hand to FatFs;
* `getLdnumber`: `get_ldnumber` of `fs/fatfs/ff.c`, which takes the drive off a path;
* `fat_operation_selects_iff`: the operations act on their own drive if it has one digit, a deletion
  only if it is the drive 0.
-/

namespace MicroOS

/-! ### Recognition of a volume -/

/-- The fields of `BPB_t` that `is_fat32_bpb` reads. -/
structure Bpb where
  jumpBoot0 : UInt8
  jumpBoot2 : UInt8
  bytesPerSector : UInt16
  sectorsPerCluster : UInt8
  reservedSectorCount : UInt16
  numFats : UInt8
  rootEntryCount : UInt16
  totalSectors16 : UInt16
  media : UInt8
  totalSectors32 : UInt32
  deriving DecidableEq

/-- The number of clusters as `is_fat32_bpb` computes it. -/
def Bpb.clusterCount (bpb : Bpb) : UInt32 :=
  let rootDirSectors := UInt16.ofNat
    ((bpb.rootEntryCount.toNat * 32 + (bpb.bytesPerSector.toNat - 1)) / bpb.bytesPerSector.toNat)
  let fatSize :=
    if bpb.totalSectors16 ≠ 0 then bpb.totalSectors16.toUInt32 else bpb.totalSectors32
  let totalSectors :=
    if bpb.totalSectors16 ≠ 0 then bpb.totalSectors16.toUInt32 else bpb.totalSectors32
  let dataSectors := totalSectors - (bpb.reservedSectorCount.toUInt32 +
    bpb.numFats.toUInt32 * fatSize + rootDirSectors.toUInt32)
  dataSectors / bpb.sectorsPerCluster.toUInt32

/-- `is_fat32_bpb`; `none` is the null pointer. -/
def isFat32Bpb : Option Bpb → Bool
  | none => false
  | some bpb =>
    if bpb.rootEntryCount ≠ 0 then false
    else if bpb.bytesPerSector = 0 then false
    else if bpb.sectorsPerCluster = 0 then false
    else if bpb.clusterCount < 4085 then false
    else if bpb.clusterCount < 65525 then false
    else if bpb.jumpBoot0 = 0xeb ∧ bpb.jumpBoot2 ≠ 0x90 then false
    else if bpb.jumpBoot0 ≠ 0xeb ∧ bpb.jumpBoot0 ≠ 0xe9 then false
    else if bpb.bytesPerSector ≠ 512 ∧ bpb.bytesPerSector ≠ 1024 ∧
      bpb.bytesPerSector ≠ 2048 ∧ bpb.bytesPerSector ≠ 4096 then false
    else if bpb.sectorsPerCluster ≠ 1 ∧ bpb.sectorsPerCluster % 2 ≠ 2 then false
    else if bpb.sectorsPerCluster.toNat * bpb.bytesPerSector.toNat > 32 * 1024 then false
    else if bpb.reservedSectorCount = 0 then false
    else if bpb.numFats < 2 then false
    else if bpb.rootEntryCount ≠ 0 then false
    else if bpb.media ≠ 0xf0 ∧ bpb.media < 0xf8 then false
    else if bpb.totalSectors16 ≠ 0 then false
    else if bpb.totalSectors32 = 0 then false
    else true

/-- **A BPB that is valid for a FAT32 volume.** -/
structure Fat32Valid (bpb : Bpb) : Prop where
  jumpBoot : bpb.jumpBoot0 = 0xeb ∧ bpb.jumpBoot2 = 0x90 ∨ bpb.jumpBoot0 = 0xe9
  bytesPerSector : bpb.bytesPerSector = 512 ∨ bpb.bytesPerSector = 1024 ∨
    bpb.bytesPerSector = 2048 ∨ bpb.bytesPerSector = 4096
  powerOfTwo : ∃ k, bpb.sectorsPerCluster.toNat = 2 ^ k
  clusterSize : bpb.sectorsPerCluster.toNat * bpb.bytesPerSector.toNat ≤ 32 * 1024
  reservedSectorCount : 1 ≤ bpb.reservedSectorCount.toNat
  numFats : 2 ≤ bpb.numFats.toNat
  rootEntryCount : bpb.rootEntryCount = 0
  totalSectors16 : bpb.totalSectors16 = 0
  totalSectors32 : 0 < bpb.totalSectors32.toNat
  media : bpb.media = 0xf0 ∨ 0xf8 ≤ bpb.media.toNat

variable {bpb : Bpb}

/-- The sectors that `is_fat32_bpb` finds too many, modulo `2 ^ 32`: it takes the sectors of the
volume for those of a FAT. -/
def Bpb.excess (bpb : Bpb) : ℕ :=
  (bpb.reservedSectorCount.toNat + (bpb.numFats.toNat - 1) * bpb.totalSectors32.toNat) % 2 ^ 32

/-- The sectors that `is_fat32_bpb` counts as data. -/
lemma dataSectors_ge_iff (hfats : 2 ≤ bpb.numFats.toNat) :
    65525 ≤ (bpb.totalSectors32 - (bpb.reservedSectorCount.toUInt32 +
      bpb.numFats.toUInt32 * bpb.totalSectors32)).toNat ↔
      1 ≤ bpb.excess ∧ bpb.excess ≤ 2 ^ 32 - 65525 := by
  obtain ⟨n, hn⟩ := Nat.exists_eq_add_of_le' (Nat.one_le_of_lt hfats)
  have hlt := bpb.totalSectors32.toNat_lt
  simp only [UInt32.toNat_sub, UInt32.toNat_add, UInt32.toNat_mul, UInt16.toNat_toUInt32,
    UInt8.toNat_toUInt32, Bpb.excess, hn, Nat.add_sub_cancel, Nat.add_mul, one_mul]
  generalize n * bpb.totalSectors32.toNat = p
  omega

/-- The remainder of a division by two is not two. -/
lemma mod_two_ne (c : UInt8) : c % 2 ≠ 2 := by
  intro h
  have := congrArg UInt8.toNat h
  rw [UInt8.toNat_mod] at this
  exact absurd this (Nat.mod_lt c.toNat (by norm_num : 0 < 2)).ne

/-- The clusters that `is_fat32_bpb` counts, with one sector each. -/
lemma clusterCount_ge_iff (hroot : bpb.rootEntryCount = 0) (h16 : bpb.totalSectors16 = 0)
    (hspc : bpb.sectorsPerCluster = 1) (hbytes : bpb.bytesPerSector ≠ 0)
    (hfats : 2 ≤ bpb.numFats.toNat) :
    65525 ≤ bpb.clusterCount.toNat ↔ 1 ≤ bpb.excess ∧ bpb.excess ≤ 2 ^ 32 - 65525 := by
  have hpos : 0 < bpb.bytesPerSector.toNat :=
    Nat.pos_of_ne_zero fun h => hbytes (UInt16.toNat_inj.mp h)
  have hdir : (bpb.rootEntryCount.toNat * 32 + (bpb.bytesPerSector.toNat - 1)) /
      bpb.bytesPerSector.toNat = 0 := by
    rw [hroot]
    exact Nat.div_eq_of_lt (by change 0 * 32 + _ < _; omega)
  rw [← dataSectors_ge_iff hfats, Bpb.clusterCount, hdir, hspc, if_neg (not_not.mpr h16),
    UInt32.toNat_div]
  change _ ≤ (bpb.totalSectors32 - (_ + 0)).toNat / 1 ↔ _
  rw [UInt32.add_zero, Nat.div_one]

/-- A test that must fail. -/
lemma ite_false_eq_true {p : Prop} [Decidable p] {b : Bool} :
    (if p then false else b) = true ↔ ¬p ∧ b = true := by
  by_cases h : p
  · simp [h]
  · simp [h]

/-- **What `is_fat32_bpb` accepts.** -/
lemma isFat32Bpb_iff : isFat32Bpb (some bpb) = true ↔ Fat32Valid bpb ∧
    bpb.sectorsPerCluster = 1 ∧ 1 ≤ bpb.excess ∧ bpb.excess ≤ 2 ^ 32 - 65525 := by
  rw [isFat32Bpb]
  simp only [ite_false_eq_true, not_not]
  constructor
  · rintro ⟨hroot, hbytes, -, -, hcount, heb, hjump, hsector, hspc, hsize, hreserved, hfats, -,
      hmedia, h16, h32, -⟩
    -- the test of the cluster size passes for one sector alone, since `x % 2 = 2` never holds
    have hone : bpb.sectorsPerCluster = 1 := by
      by_contra hne
      exact hspc ⟨hne, mod_two_ne _⟩
    have hfats : 2 ≤ bpb.numFats.toNat := UInt8.le_iff_toNat_le.mp (UInt8.not_lt.mp hfats)
    have hcount : 65525 ≤ bpb.clusterCount.toNat :=
      UInt32.le_iff_toNat_le.mp (UInt32.not_lt.mp hcount)
    refine ⟨⟨?_, ?_, ⟨0, hone ▸ rfl⟩, not_lt.mp hsize, ?_, hfats, hroot, h16, ?_, ?_⟩, hone,
      (clusterCount_ge_iff hroot h16 hone hbytes hfats).mp hcount⟩
    · by_cases h0 : bpb.jumpBoot0 = 0xeb
      · exact .inl ⟨h0, not_not.mp fun h => heb ⟨h0, h⟩⟩
      · exact .inr (not_not.mp fun h => hjump ⟨h0, h⟩)
    · by_contra hne
      obtain ⟨h512, hne⟩ := not_or.mp hne
      obtain ⟨h1024, hne⟩ := not_or.mp hne
      exact hsector ⟨h512, h1024, not_or.mp hne⟩
    · exact Nat.pos_of_ne_zero fun h => hreserved (UInt16.toNat_inj.mp h)
    · exact Nat.pos_of_ne_zero fun h => h32 (UInt32.toNat_inj.mp h)
    · by_cases hf0 : bpb.media = 0xf0
      · exact .inl hf0
      · exact .inr (UInt8.le_iff_toNat_le.mp (UInt8.not_lt.mp fun h => hmedia ⟨hf0, h⟩))
  · -- every check of the function passes for a valid block
    rintro ⟨hv, hspc, hexcess⟩
    have hbytes : bpb.bytesPerSector ≠ 0 := by
      rcases hv.bytesPerSector with h | h | h | h <;> rw [h] <;> decide
    have hcount := (clusterCount_ge_iff hv.rootEntryCount hv.totalSectors16 hspc hbytes
      hv.numFats).mpr hexcess
    have hlt : ∀ n : ℕ, n ≤ 65525 → ¬bpb.clusterCount < UInt32.ofNat n := fun n hn h => by
      have h := UInt32.lt_iff_toNat_lt.mp h
      rw [UInt32.toNat_ofNat_of_lt' (hn.trans_lt (by decide))] at h
      omega
    refine ⟨hv.rootEntryCount, hbytes, by rw [hspc]; decide, hlt 4085 (by norm_num),
      hlt 65525 le_rfl, ?_, ?_, ?_, fun h => h.1 hspc, not_lt.mpr hv.clusterSize, ?_, ?_,
      hv.rootEntryCount, ?_, hv.totalSectors16, ?_, trivial⟩
    · rcases hv.jumpBoot with h | h
      · exact fun h' => h'.2 h.2
      · exact fun h' => absurd (h.symm.trans h'.1) (by decide)
    · exact fun h => hv.jumpBoot.elim (fun h' => h.1 h'.1) h.2
    · rintro ⟨h512, h1024, h2048, h4096⟩
      rcases hv.bytesPerSector with h | h | h | h <;> contradiction
    · exact fun h => absurd hv.reservedSectorCount (by rw [h]; decide)
    · exact UInt8.not_lt.mpr (UInt8.le_iff_toNat_le.mpr hv.numFats)
    · rintro ⟨hf0, hlow⟩
      rcases hv.media with h | h
      · exact hf0 h
      · exact absurd (UInt8.lt_iff_toNat_lt.mp hlow) (not_lt.mpr h)
    · exact fun h => absurd hv.totalSectors32 (by rw [h]; decide)

/-- A volume: its BPB, and the fields of its first sector that `is_fat32_bpb` does not read. -/
structure Fat32Volume extends Bpb where
  fatSize16 : UInt16
  fatSize32 : UInt32

/-- The sectors of a FAT. -/
def Fat32Volume.fatSize (v : Fat32Volume) : ℕ :=
  if v.fatSize16 ≠ 0 then v.fatSize16.toNat else v.fatSize32.toNat

/-- **The number of clusters of a volume.** -/
def Fat32Volume.clusters (v : Fat32Volume) : ℕ :=
  let totalSectors :=
    if v.totalSectors16 ≠ 0 then v.totalSectors16.toNat else v.totalSectors32.toNat
  let rootDirSectors :=
    (v.rootEntryCount.toNat * 32 + (v.bytesPerSector.toNat - 1)) / v.bytesPerSector.toNat
  (totalSectors - (v.reservedSectorCount.toNat + v.numFats.toNat * v.fatSize + rootDirSectors)) /
    v.sectorsPerCluster.toNat

/-- **A volume is recognised** if it is one of FAT32, and is not where it is not. -/
def Recognised (v : Fat32Volume) : Prop :=
  (Fat32Valid v.toBpb → 65525 ≤ v.clusters → isFat32Bpb (some v.toBpb) = true) ∧
    ((¬∃ k, v.sectorsPerCluster.toNat = 2 ^ k) ∨ v.clusters < 65525 →
      isFat32Bpb (some v.toBpb) = false)

/-- **FAT32 volumes are recognised** just where a cluster of theirs is one sector and the sectors of
the volume, taken for those of a FAT, lead to as many clusters as there are. -/
theorem fat32_recognised_iff (v : Fat32Volume) : Recognised v ↔ (Fat32Valid v.toBpb →
    (65525 ≤ v.clusters ↔
      v.sectorsPerCluster = 1 ∧ 1 ≤ v.excess ∧ v.excess ≤ 2 ^ 32 - 65525)) := by
  rw [Recognised, ← Bool.not_eq_true, isFat32Bpb_iff]
  constructor
  · rintro ⟨haccept, hreject⟩ hv
    refine ⟨fun hcount => (haccept hv hcount).2, fun hcond => ?_⟩
    by_contra hfew
    exact hreject (.inr (not_le.mp hfew)) ⟨hv, hcond⟩
  · refine fun h => ⟨fun hv hcount => ⟨hv, (h hv).mp hcount⟩, fun hwrong => ?_⟩
    rintro ⟨hv, hcond⟩
    rcases hwrong with hpow | hfew
    · exact hpow hv.powerOfTwo
    · exact absurd ((h hv).mpr hcond) (not_le.mpr hfew)

/-- A volume with sectors of 512 bytes, 32 reserved sectors and two FATs. -/
def plainVolume (sectorsPerCluster : UInt8) (totalSectors fatSize : UInt32) : Fat32Volume where
  jumpBoot0 := 0xeb
  jumpBoot2 := 0x90
  bytesPerSector := 512
  sectorsPerCluster := sectorsPerCluster
  reservedSectorCount := 32
  numFats := 2
  rootEntryCount := 0
  totalSectors16 := 0
  media := 0xf8
  totalSectors32 := totalSectors
  fatSize16 := 0
  fatSize32 := fatSize

/-- **A volume of 1 GiB with clusters of 4 KiB is not recognised**, and one of 1000 sectors is. -/
theorem volumes_misjudged :
    ¬Recognised (plainVolume 8 2097152 2048) ∧ ¬Recognised (plainVolume 1 1000 8) := by
  constructor
  · intro h
    have hv : Fat32Valid (plainVolume 8 2097152 2048).toBpb := by
      refine ⟨.inl ⟨rfl, rfl⟩, .inl rfl, ⟨3, rfl⟩, ?_, ?_, ?_, rfl, rfl, ?_, .inr ?_⟩ <;> decide
    exact absurd (h.1 hv (by decide)) (by decide)
  · intro h
    exact absurd (h.2 (.inr (by decide))) (by decide)

/-! ### The drive of an operation -/

/-- The driver data of a mount. -/
structure FatMount where
  diskId : ℕ

/-- What FatFs is called for. -/
inductive FatCall where
  | fOpen (path : List UInt8) (mode : ℕ)
  | fUnlink (path : List UInt8)
  | fMkdir (path : List UInt8)
  | fOpendir (path : List UInt8)
  | fRmdir (path : List UInt8)

/-- The buffer that FatFs is called with. -/
def FatCall.path : FatCall → List UInt8
  | fOpen path _ => path
  | fUnlink path => path
  | fMkdir path => path
  | fOpendir path => path
  | fRmdir path => path

/-- The path as the string at the start of a cleared buffer of `n` bytes. -/
def padded (n : ℕ) (path : List UInt8) : List UInt8 := path ++ List.replicate (n - path.length) 0

/-- `new_path`: the digit of the drive, a colon and the path. -/
def newPath (mount : FatMount) (path : List UInt8) : Except Halt (List UInt8) :=
  if path.length + 2 < 256 then
    .ok (UInt8.ofNat (0x30 + mount.diskId) :: 0x3a :: padded 254 path)
  else .error (.outOfBounds (path.length + 2))

/-- `FA_READ`, `FA_WRITE` and `FA_CREATE_ALWAYS`. -/
def faRead : ℕ := 0x01

/-- `FA_WRITE`. -/
def faWrite : ℕ := 0x02

/-- `FA_CREATE_ALWAYS`. -/
def faCreateAlways : ℕ := 0x08

/-- The mode that `fatfs_open` opens a file with. -/
def fatMode : ℕ → ℕ
  | 0 => faRead
  | 1 => faWrite
  | 2 => faWrite ||| faRead
  | _ => 0

/-- The operations on a path. -/
inductive PathOp where
  | open (flags : ℕ)
  | mkdir
  | dirAt
  | touch
  | deleteDir

/-- The first call of FatFs that `fatfs_open`, `fatfs_mkdir`, `fatfs_dir_at`, `fatfs_touch` and
`fatfs_delete_dir` make. -/
def PathOp.call (mount : FatMount) (path : List UInt8) : PathOp → Except Halt FatCall
  | .open flags => do
      let newPath ← newPath mount path
      return .fOpen newPath (fatMode flags)
  | mkdir => do
      let newPath ← newPath mount path
      return .fMkdir newPath
  | dirAt => do
      let newPath ← newPath mount path
      return .fOpendir newPath
  | touch => do
      let newPath ← newPath mount path
      return .fOpen newPath (faWrite ||| faCreateAlways)
  | deleteDir => do
      let newPath ← newPath mount path
      return .fRmdir newPath

/-- A file of the driver: its mount, the path that it was opened with and its size. -/
structure FatFile where
  mount : FatMount
  buffer : List UInt8
  size : ℕ

/-- `fatfs_open`; `fOpen` says of what size a file is, if `f_open` opens it. -/
def fatfsOpen (fOpen : FatCall → Option ℕ) (mount : FatMount) (path : List UInt8) (flags : ℕ) :
    Except Halt (Option FatFile) := do
  let call ← (PathOp.open flags).call mount path
  match fOpen call with
  | none => return none
  | some size => return some ⟨mount, padded 512 path, size⟩

/-- `fatfs_delete`. -/
def fatfsDelete (file : FatFile) : FatCall := .fUnlink file.buffer

/-- `IsTerminator`. -/
def isTerminator (c : UInt8) : Bool := c < 0x20

/-- `IsDigit`. -/
def isDigit (c : UInt8) : Bool := 0x30 ≤ c && c ≤ 0x39

/-- The first loop of `get_ldnumber`: where the colon of a path is. -/
def findColon : List UInt8 → Option ℕ
  | [] => none
  | c :: path =>
    if isTerminator c then none
    else if c = 0x3a then some 0
    else (findColon path).map (· + 1)

/-- `get_ldnumber`, with `FF_VOLUMES = 10`: the drive of a path, and what is left of it. -/
def getLdnumber (path : List UInt8) : Option (ℕ × List UInt8) :=
  match findColon path with
  | none => some (0, path)
  | some i =>
    let tc := path.headD 0
    let vol := if isDigit tc ∧ i + 1 = 2 then tc.toNat - 0x30 else 10
    if vol < 10 then some (vol, path.drop (i + 1)) else none

/-- **FatFs finds a path on a drive.** -/
def Selects (buffer : List UInt8) (drive : ℕ) (path : List UInt8) : Prop :=
  ∃ rest, getLdnumber buffer = some (drive, rest) ∧ rest.takeWhile (· ≠ 0) = path

variable {mount : FatMount} {path : List UInt8}

/-- The string in the buffer of a path is the path. -/
lemma padded_string (hpath : 0 ∉ path) (n : ℕ) : (padded n path).takeWhile (· ≠ 0) = path := by
  rw [padded, List.takeWhile_append_of_pos fun c hc => by simpa using ne_of_mem_of_not_mem hc hpath]
  cases n - path.length with
  | zero => exact List.append_nil _
  | succ k => simp [List.replicate_succ]

/-- A path of which the start is taken away is another one. -/
lemma drop_string_ne (hpath : 0 ∉ path) (hne : path ≠ []) (i n : ℕ) :
    ((padded n path).drop (i + 1)).takeWhile (· ≠ 0) ≠ path := by
  intro h
  have hpos : 0 < path.length := List.length_pos_iff.mpr hne
  have hpre : path <+: (padded n path).drop (i + 1) := by
    have := List.takeWhile_prefix (l := (padded n path).drop (i + 1)) fun c => decide (c ≠ 0)
    rwa [h] at this
  have hlast : path.length - 1 < path.length := by omega
  have hzero : path[path.length - 1] = 0 := by
    rw [hpre.getElem hlast, List.getElem_drop]
    simp only [padded]
    rw [List.getElem_append_right (by omega), List.getElem_replicate]
  exact hpath (hzero ▸ List.getElem_mem hlast)

/-- What is behind the end of a path has no colon. -/
lemma findColon_padded (n : ℕ) (path : List UInt8) :
    findColon (padded n path) = findColon path := by
  have hzeros : ∀ (k : ℕ) (path : List UInt8),
      findColon (path ++ List.replicate k 0) = findColon path := by
    intro k path
    induction path with
    | nil =>
      cases k with
      | zero => rfl
      | succ k => rfl
    | cons c path ih => rw [List.cons_append, findColon, findColon, ih]
  exact hzeros _ path

/-- The digits are those of ASCII. -/
lemma isDigit_iff {c : UInt8} : isDigit c = true ↔ 0x30 ≤ c.toNat ∧ c.toNat ≤ 0x39 := by
  rw [isDigit, Bool.and_eq_true, decide_eq_true_eq, decide_eq_true_eq, UInt8.le_iff_toNat_le,
    UInt8.le_iff_toNat_le]
  rfl

/-- A prefix of one character selects the drive of its digit. -/
lemma getLdnumber_prefix (c : UInt8) (rest : List UInt8) : getLdnumber (c :: 0x3a :: rest) =
    if isTerminator c then some (0, c :: 0x3a :: rest)
    else if isDigit c then some (c.toNat - 0x30, rest) else none := by
  by_cases hterm : isTerminator c = true
  · rw [getLdnumber, findColon, if_pos hterm, if_pos hterm]
  rw [getLdnumber, findColon, if_neg hterm, if_neg hterm]
  by_cases hcolon : c = 0x3a
  · rw [if_pos hcolon, hcolon]
    rfl
  have hnext : findColon (0x3a :: rest) = some 0 := rfl
  rw [if_neg hcolon, hnext]
  by_cases hdigit : isDigit c = true
  · have hlt : c.toNat - 0x30 < 10 := by
      have := isDigit_iff.mp hdigit
      omega
    simp [hdigit, hlt]
  · simp [hdigit]

/-- **The prefix of an operation selects its drive** just for the drives of one digit. -/
lemma selects_prefix_iff (hpath : 0 ∉ path) {d : ℕ} :
    Selects (UInt8.ofNat (0x30 + d) :: 0x3a :: padded 254 path) d path ↔ d ≤ 9 := by
  have hc : (UInt8.ofNat (0x30 + d)).toNat = (0x30 + d) % 256 := UInt8.toNat_ofNat'
  rw [Selects, getLdnumber_prefix]
  constructor
  · rintro ⟨rest, hdrive, -⟩
    split_ifs at hdrive with hterm hdigit
    · exact (Prod.mk.inj (Option.some.inj hdrive)).1 ▸ Nat.zero_le 9
    · have hd := (Prod.mk.inj (Option.some.inj hdrive)).1
      have := isDigit_iff.mp hdigit
      omega
  · intro hd
    have hc : (UInt8.ofNat (0x30 + d)).toNat = 0x30 + d := hc.trans (Nat.mod_eq_of_lt (by omega))
    have hdigit : isDigit (UInt8.ofNat (0x30 + d)) = true := isDigit_iff.mpr (by omega)
    have hterm : ¬isTerminator (UInt8.ofNat (0x30 + d)) = true := by
      rw [isTerminator, decide_eq_true_eq, UInt8.lt_iff_toNat_lt, hc]
      exact not_lt.mpr (Nat.le_trans (by decide) (Nat.le_add_right 0x30 d))
    rw [if_neg hterm, if_pos hdigit, hc, Nat.add_sub_cancel_left]
    exact ⟨_, rfl, padded_string hpath 254⟩

/-- **A path without a prefix selects the drive 0**, if it has no colon. -/
lemma selects_padded_iff (hpath : 0 ∉ path) {n d : ℕ} :
    Selects (padded n path) d path ↔ d = 0 ∧ findColon path = none := by
  rw [Selects, getLdnumber, findColon_padded]
  cases hcolon : findColon path with
  | none =>
    constructor
    · rintro ⟨rest, h, -⟩
      exact ⟨(Prod.mk.inj (Option.some.inj h)).1.symm, rfl⟩
    · rintro ⟨rfl, -⟩
      exact ⟨_, rfl, padded_string hpath n⟩
  | some i =>
    refine ⟨?_, fun h => nomatch h.2⟩
    rintro ⟨rest, h, hrest⟩
    dsimp only at h
    have hdrop : rest = (padded n path).drop (i + 1) := by
      split_ifs at h <;> exact (Prod.mk.inj (Option.some.inj h)).2.symm
    rw [hdrop] at hrest
    exact absurd hrest (drop_string_ne hpath (by rintro rfl; cases hcolon) i n)

/-- **An operation acts on its own drive** just where the drive has one digit; the deletion of a
file just where the drive is 0 and the path of the file has no colon. -/
theorem fat_operation_selects_iff (hpath : 0 ∉ path) (hlen : path.length ≤ 253) :
    (∀ op : PathOp, ∃ c, op.call mount path = .ok c ∧
      (Selects c.path mount.diskId path ↔ mount.diskId ≤ 9)) ∧
    ∀ fOpen flags file, fatfsOpen fOpen mount path flags = .ok (some file) →
      (Selects (fatfsDelete file).path mount.diskId path ↔
        mount.diskId = 0 ∧ findColon path = none) := by
  have hnew : newPath mount path =
      .ok (UInt8.ofNat (0x30 + mount.diskId) :: 0x3a :: padded 254 path) := if_pos (by omega)
  refine ⟨fun op => ?_, fun fOpen flags file h => ?_⟩
  · cases op <;> rw [PathOp.call, hnew] <;> exact ⟨_, rfl, selects_prefix_iff hpath⟩
  · rw [fatfsOpen, PathOp.call, hnew] at h
    change (match fOpen _ with
      | none => Except.ok none
      | some size => Except.ok (some ⟨mount, padded 512 path, size⟩)) = Except.ok (some file) at h
    split at h
    · cases h
    · obtain rfl := Option.some.inj (Except.ok.inj h)
      exact selects_padded_iff hpath

/-- A folder that is made on the second drive is made there. -/
theorem fat_operation_selects_second :
    ∃ c, PathOp.mkdir.call ⟨1⟩ [0x61] = .ok c ∧ Selects c.path 1 [0x61] := by
  obtain ⟨hops, -⟩ := @fat_operation_selects_iff ⟨1⟩ [0x61] (by decide) (by decide)
  obtain ⟨c, hc, hselects⟩ := hops .mkdir
  exact ⟨c, hc, hselects.mpr (by decide)⟩

/-- **A file of the second disk is deleted on the first one**, and a directory of the eleventh disk
is made nowhere. -/
theorem deletion_on_another_drive :
    (∃ file, fatfsOpen (fun _ => some 0) ⟨1⟩ [0x61] 0 = .ok (some file) ∧
      Selects (fatfsDelete file).path 0 [0x61] ∧ ¬Selects (fatfsDelete file).path 1 [0x61]) ∧
    ∃ c, PathOp.mkdir.call ⟨10⟩ [0x61] = .ok c ∧ getLdnumber c.path = none := by
  refine ⟨⟨⟨⟨1⟩, padded 512 [0x61], 0⟩, rfl, ?_, ?_⟩, _, rfl, by decide⟩
  · exact (selects_padded_iff (by decide)).mpr ⟨rfl, by decide⟩
  · exact fun h => absurd ((selects_padded_iff (by decide)).mp h).1 one_ne_zero

end MicroOS
