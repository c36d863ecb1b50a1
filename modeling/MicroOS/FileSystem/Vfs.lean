import MicroOS.Utils.String

/-!
The virtual file system, `fs/vfs.c`, over the mounts of the drivers.

* `initrdMount`, `getRamfs`, `globalDevfs`, `fatfsMount`, `nextfsMount`: the function pointers that
  each driver sets;
* `lookup`: the loop that looks for the mount of a path, the same in five functions;
* `vfsOpen`, …, `vfsDelete`: the calls, up to the call through a function pointer;
* `vfs_dispatch_iff`: the requests that are dispatched to an operation of the right mount or
  refused.

A call through `NULL` and a path that is longer than its copy are faults. What a driver's function
does with its arguments, and the mode of the file that it opens, are left out.
-/

namespace MicroOS

open ByteImage Checked

/-! ### Mounts -/

/-- The function pointers of a `vfs_mount_t`, without `name`. -/
inductive VfsOp where
  | open_
  | close
  | read
  | write
  | delete
  | mkdir
  | touch
  | dirAt
  | deleteDir
  | truncate
  deriving DecidableEq

/-- The drivers of file systems. -/
inductive FsDriver where
  | initrd
  | ramfs
  | devfs
  | fatfs
  | nextfs
  deriving DecidableEq

/-- A function of a driver, such as `initrd_open`. -/
structure DriverFunction where
  driver : FsDriver
  op : VfsOp
  deriving DecidableEq

/-- A string, without the zero at its end. -/
structure CString where
  chars : List UInt8
  zero_notMem : 0 ∉ chars
  deriving DecidableEq

/-- `vfs_mount_t`: what `name` returns, and the other function pointers. -/
structure VfsMount where
  name : CString
  functions : VfsOp → Option DriverFunction

/-- A mount that is filled with zeros before the functions of a driver are set. -/
def mountOf (driver : FsDriver) (name : CString) (ops : List VfsOp) : VfsMount where
  name := name
  functions op := if op ∈ ops then some ⟨driver, op⟩ else none

/-- `initrd_mount`. -/
def initrdMount : VfsMount :=
  mountOf .initrd ⟨[105, 110, 105, 116, 114, 100], by decide⟩ [.open_, .close, .read, .dirAt]

/-- `get_ramfs`. -/
def getRamfs (name : CString) : VfsMount :=
  mountOf .ramfs name [.open_, .close, .read, .write, .delete, .mkdir, .touch, .dirAt, .deleteDir,
    .truncate]

/-- `global_devfs`. -/
def globalDevfs : VfsMount :=
  mountOf .devfs ⟨[100, 101, 118], by decide⟩ [.open_, .close, .read, .write, .dirAt]

/-- `fatfs_mount`. -/
def fatfsMount (name : CString) : VfsMount :=
  mountOf .fatfs name [.open_, .close, .read, .write, .delete, .mkdir, .dirAt, .touch, .deleteDir,
    .truncate]

/-- `nextfs_mount`. -/
def nextfsMount (name : CString) : VfsMount :=
  mountOf .nextfs name [.open_, .close, .read, .dirAt]

/-- `vfs_mount`. -/
def vfsMount (mounts : List VfsMount) (mount : VfsMount) : List VfsMount := mounts ++ [mount]

/-! ### Calls -/

/-- Why a call goes wrong. -/
inductive VfsFault where
  | overflow
  | nullMount
  | nullFunction
  deriving DecidableEq

/-- What is passed to a function behind the mount. A file is passed as it came. -/
inductive VfsArgs where
  | path (path : List UInt8)
  | openPath (path : List UInt8) (flags : Int32)
  | dirPath (idx : Int32) (path : List UInt8)
  | file
  | fileSize (newSize : UInt32)
  | fileBuffer (buf size offset : UInt32)
  deriving DecidableEq

/-- How a call ends: a function is called with a mount, or the call is refused. -/
inductive VfsOutcome where
  | called (function : DriverFunction) (mount : VfsMount) (args : VfsArgs)
  | refused

/-- `mount->op(mount, …)`. -/
def VfsMount.call (mount : VfsMount) (op : VfsOp) (args : VfsArgs) : Except VfsFault VfsOutcome :=
  match mount.functions op with
  | none => .error .nullFunction
  | some function => .ok (.called function mount args)

/-- `_filename`, an array of 1024 bytes that are zero, after `strcpy(_filename, path)`, as the
string that `strlen` finds there. -/
def copyPath (path : ℕ → UInt8) : Except VfsFault (List UInt8) :=
  match strcpy path 1024 with
  | .error _ => .error .overflow
  | .ok bytes =>
    let filename := bytes ++ List.replicate (1024 - bytes.length) 0
    if 0 ∈ filename then .ok (filename.takeWhile (· ≠ 0)) else .error .overflow

/-- The character `:`. -/
def colon : UInt8 := 58

/-- The string before the first `:`, and `file_path`. -/
def splitPath : List UInt8 → Option (List UInt8 × List UInt8)
  | [] => none
  | c :: rest =>
    if c = colon then some ([], rest) else (splitPath rest).map fun p => (c :: p.1, p.2)

/-- The loop over the mounts. -/
def findMount (mounts : List VfsMount) (filename : List UInt8) : Option VfsMount :=
  mounts.find? fun m => strcmp m.name.chars filename = 0

/-- What the five functions that take a path do first: `mount` and `file_path`. -/
def lookup (mounts : List VfsMount) (path : ℕ → UInt8) :
    Except VfsFault (Option (VfsMount × List UInt8)) := do
  let filename ← copyPath path
  match splitPath filename with
  | none => return none
  | some (filename, filePath) => return (findMount mounts filename).map fun m => (m, filePath)

/-- `vfs_open`. -/
def vfsOpen (mounts : List VfsMount) (path : ℕ → UInt8) (flags : Int32) :
    Except VfsFault VfsOutcome := do
  match ← lookup mounts path with
  | none => return .refused
  | some (mount, filePath) => mount.call .open_ (.openPath filePath flags)

/-- A call that does not ask whether a mount was found. -/
def callFound (op : VfsOp) (args : List UInt8 → VfsArgs) (mounts : List VfsMount)
    (path : ℕ → UInt8) : Except VfsFault VfsOutcome := do
  match ← lookup mounts path with
  | none => throw .nullMount
  | some (mount, filePath) => mount.call op (args filePath)

/-- `vfs_mkdir`. -/
def vfsMkdir : List VfsMount → (ℕ → UInt8) → Except VfsFault VfsOutcome := callFound .mkdir .path

/-- `vfs_touch`. -/
def vfsTouch : List VfsMount → (ℕ → UInt8) → Except VfsFault VfsOutcome := callFound .touch .path

/-- `vfs_dir_at`. -/
def vfsDirAt (idx : Int32) : List VfsMount → (ℕ → UInt8) → Except VfsFault VfsOutcome :=
  callFound .dirAt (.dirPath idx)

/-- `vfs_delete_dir`. -/
def vfsDeleteDir : List VfsMount → (ℕ → UInt8) → Except VfsFault VfsOutcome :=
  callFound .deleteDir .path

/-- `file_t`: the mount that it was opened on. -/
structure VfsFile where
  mount : VfsMount

/-- `vfs_read`. -/
def vfsRead (file : VfsFile) (buf size offset : UInt32) : Except VfsFault VfsOutcome :=
  file.mount.call .read (.fileBuffer buf size offset)

/-- `vfs_write`. -/
def vfsWrite (file : VfsFile) (buf size offset : UInt32) : Except VfsFault VfsOutcome :=
  file.mount.call .write (.fileBuffer buf size offset)

/-- `vfs_truncate`. -/
def vfsTruncate (file : VfsFile) (newSize : UInt32) : Except VfsFault VfsOutcome :=
  file.mount.call .truncate (.fileSize newSize)

/-- `vfs_delete`. -/
def vfsDelete (file : VfsFile) : Except VfsFault VfsOutcome := file.mount.call .delete .file

/-! ### Requests -/

/-- A call with a path. -/
inductive PathRequest where
  | open_ (flags : Int32)
  | mkdir
  | touch
  | dirAt (idx : Int32)
  | deleteDir

namespace PathRequest

/-- The call that a request for a path makes. -/
def run (mounts : List VfsMount) (path : ℕ → UInt8) : PathRequest → Except VfsFault VfsOutcome
  | open_ flags => vfsOpen mounts path flags
  | mkdir => vfsMkdir mounts path
  | touch => vfsTouch mounts path
  | dirAt idx => vfsDirAt idx mounts path
  | deleteDir => vfsDeleteDir mounts path

/-- The operation that a request is for. -/
def op : PathRequest → VfsOp
  | open_ _ => .open_
  | mkdir => .mkdir
  | touch => .touch
  | dirAt _ => .dirAt
  | deleteDir => .deleteDir

/-- What the operation has to be called with. -/
def args (rest : List UInt8) : PathRequest → VfsArgs
  | open_ flags => .openPath rest flags
  | mkdir => .path rest
  | touch => .path rest
  | dirAt idx => .dirPath idx rest
  | deleteDir => .path rest

end PathRequest

/-- A call with an open file. -/
inductive FileRequest where
  | read (buf size offset : UInt32)
  | write (buf size offset : UInt32)
  | truncate (newSize : UInt32)
  | delete

namespace FileRequest

/-- The call that a request for a file makes. -/
def run (file : VfsFile) : FileRequest → Except VfsFault VfsOutcome
  | read buf size offset => vfsRead file buf size offset
  | write buf size offset => vfsWrite file buf size offset
  | truncate newSize => vfsTruncate file newSize
  | delete => vfsDelete file

/-- The operation that a request is for. -/
def op : FileRequest → VfsOp
  | read .. => .read
  | write .. => .write
  | truncate _ => .truncate
  | delete => .delete

/-- What the operation has to be called with. -/
def args : FileRequest → VfsArgs
  | read buf size offset => .fileBuffer buf size offset
  | write buf size offset => .fileBuffer buf size offset
  | truncate newSize => .fileSize newSize
  | delete => .file

lemma run_eq (file : VfsFile) (r : FileRequest) : r.run file = file.mount.call r.op r.args := by
  cases r <;> rfl

end FileRequest

/-! ### The mounts of the drivers -/

/-- The mounts that a driver makes. -/
inductive MountedBy : FsDriver → VfsMount → Prop
  | initrd : MountedBy .initrd initrdMount
  | ramfs (name : CString) : MountedBy .ramfs (getRamfs name)
  | devfs : MountedBy .devfs globalDevfs
  | fatfs (name : CString) : MountedBy .fatfs (fatfsMount name)
  | nextfs (name : CString) : MountedBy .nextfs (nextfsMount name)

/-- A table that was built with `vfs_mount`. -/
inductive MountTable : List VfsMount → Prop
  | init : MountTable []
  | mount {mounts : List VfsMount} {d : FsDriver} {m : VfsMount} (h : MountTable mounts)
      (hm : MountedBy d m) : MountTable (vfsMount mounts m)

/-- Every entry of the table belongs to a driver. -/
lemma MountTable.mounted {mounts : List VfsMount} (h : MountTable mounts) {m : VfsMount}
    (hm : m ∈ mounts) : ∃ d, MountedBy d m := by
  induction h with
  | init => exact absurd hm (by simp)
  | @mount mounts d m' _ hm' ih =>
    rcases List.mem_append.mp hm with hm | hm
    · exact ih hm
    · rw [List.mem_singleton] at hm
      exact ⟨d, hm ▸ hm'⟩

/-- The operations that a driver has. -/
def FsDriver.provides : FsDriver → List VfsOp
  | .initrd | .nextfs => [.open_, .close, .read, .dirAt]
  | .devfs => [.open_, .close, .read, .write, .dirAt]
  | .ramfs | .fatfs =>
    [.open_, .close, .read, .write, .delete, .mkdir, .touch, .dirAt, .deleteDir, .truncate]

/-- A mount has the functions of its driver, and no others. -/
lemma MountedBy.functions_eq {d : FsDriver} {m : VfsMount} (h : MountedBy d m) (op : VfsOp) :
    m.functions op = if op ∈ d.provides then some ⟨d, op⟩ else none := by
  cases h <;> cases op <;> rfl

/-- A mount has a driver that provides an operation. -/
def Provided (m : VfsMount) (op : VfsOp) : Prop := ∃ d, MountedBy d m ∧ op ∈ d.provides

/-- A function of a mount is there just when its driver provides it. -/
lemma MountTable.exists_function_iff {mounts : List VfsMount} (h : MountTable mounts)
    {m : VfsMount} (hm : m ∈ mounts) {op : VfsOp} :
    (∃ f, m.functions op = some f) ↔ Provided m op := by
  constructor
  · rintro ⟨f, hf⟩
    obtain ⟨d, hd⟩ := h.mounted hm
    refine ⟨d, hd, ?_⟩
    by_contra hop
    rw [hd.functions_eq, if_neg hop] at hf
    exact absurd hf (by simp)
  · rintro ⟨d, hd, hop⟩
    exact ⟨⟨d, op⟩, by rw [hd.functions_eq, if_pos hop]⟩

/-! ### Paths -/

/-- A path fits into its copy: `strcpy`, which never looks at the first byte, comes to a zero, and
there is a zero in the copy. -/
def PathFits (path : ℕ → UInt8) : Prop :=
  ∃ k ≤ 1024, k ≠ 0 ∧ path k = 0 ∧ (k = 1024 → path 0 = 0)

instance (path : ℕ → UInt8) : Decidable (PathFits path) :=
  decidable_of_iff (∃ k < 1025, k ≠ 0 ∧ path k = 0 ∧ (k = 1024 → path 0 = 0))
    (exists_congr fun _ => and_congr_left' Nat.lt_succ_iff)

namespace IsString

variable {path : ℕ → UInt8} {s : List UInt8}

/-- No byte in front of the end of a string is zero. -/
lemma byte_ne_zero (h : IsString path s) {i : ℕ} (hi : i < s.length) : path i ≠ 0 := by
  have hbyte := (holds_append.mp h.holds).1 i _ (List.getElem?_eq_getElem hi)
  rw [zero_add] at hbyte
  rw [hbyte]
  exact fun hzero => h.zero_notMem (hzero ▸ List.getElem_mem hi)

/-- The empty path is copied. -/
lemma copyPath_nil (h : IsString path []) (hfits : PathFits path) : copyPath path = .ok [] := by
  have hfirst : path 0 = 0 := h.holds 0 0 rfl
  obtain ⟨k, hk, hk0, hzero, -⟩ := hfits
  have hex : ∃ j, 0 < j ∧ path j = 0 := ⟨k, Nat.pos_of_ne_zero hk0, hzero⟩
  obtain ⟨hpos, hend⟩ := Nat.find_spec hex
  have hne : ∀ i, 0 < i → i < Nat.find hex → path i ≠ 0 := fun i hi hlt hi0 =>
    Nat.find_min hex hlt ⟨hi, hi0⟩
  have hroom : Nat.find hex ≤ 1024 := (Nat.find_min' hex ⟨Nat.pos_of_ne_zero hk0, hzero⟩).trans hk
  obtain ⟨n, hn⟩ := Nat.exists_eq_succ_of_ne_zero hpos.ne'
  rw [copyPath, strcpy_of_zero hpos hroom hend hne, hn, List.range_succ_eq_map, List.map_cons,
    hfirst]
  simp

/-- So is any other that fits. -/
lemma copyPath_of_ne_nil (h : IsString path s) (hs : s ≠ []) (hfits : PathFits path) :
    copyPath path = .ok s := by
  obtain ⟨k, hk, -, hzero, hfull⟩ := hfits
  have hle : s.length ≤ k := not_lt.mp fun hlt => h.byte_ne_zero hlt hzero
  have hlt : s.length < 1024 := by
    by_contra hge
    exact h.byte_ne_zero (List.length_pos_iff.mpr hs) (hfull (by omega))
  obtain ⟨n, hn⟩ := Nat.exists_eq_succ_of_ne_zero (Nat.sub_ne_zero_of_lt hlt)
  have htake : (s ++ 0 :: List.replicate n 0).takeWhile (· ≠ 0) = s := by
    have hpos : ∀ c ∈ s, decide (c ≠ 0) = true := fun c hc =>
      decide_eq_true fun hc0 : c = 0 => h.zero_notMem (hc0 ▸ hc)
    rw [List.takeWhile_append_of_pos hpos, List.takeWhile_cons_of_neg (by simp), List.append_nil]
  rw [copyPath, strcpy_ok hs h.zero_notMem hlt.le h.holds]
  dsimp only
  rw [hn, List.replicate_succ, htake, if_pos (by simp)]

/-- **A path that fits** is copied. -/
lemma copyPath_eq (h : IsString path s) (hfits : PathFits path) : copyPath path = .ok s := by
  by_cases hs : s = []
  · subst hs
    exact h.copyPath_nil hfits
  · exact h.copyPath_of_ne_nil hs hfits

end IsString

/-- **A path that does not fit** goes beyond its copy. -/
lemma copyPath_of_not_fits {path : ℕ → UInt8} (hfits : ¬PathFits path) :
    copyPath path = .error .overflow := by
  rw [copyPath]
  by_cases hzero : ∀ i, 0 < i → i ≤ 1024 → path i ≠ 0
  · rw [strcpy_overflow hzero]
  · have hne : ∀ i, 0 < i → i < 1024 → path i ≠ 0 := fun i hi hlt hi0 =>
      hfits ⟨i, hlt.le, hi.ne', hi0, fun h => absurd h hlt.ne⟩
    have hlast : path 1024 = 0 := by
      by_contra hlast
      exact hzero fun i hi hle => (Nat.lt_or_eq_of_le hle).elim (hne i hi) fun h => h ▸ hlast
    have hfirst : path 0 ≠ 0 := fun h0 => hfits ⟨1024, le_rfl, by decide, hlast, fun _ => h0⟩
    have hnotMem : (0 : UInt8) ∉ (List.range 1024).map path := by
      rw [List.mem_map]
      rintro ⟨i, hi, hi0⟩
      rcases Nat.eq_zero_or_pos i with rfl | hpos
      · exact hfirst hi0
      · exact hne i hpos (List.mem_range.mp hi) hi0
    rw [strcpy_of_zero (by decide) le_rfl hlast hne]
    dsimp only
    rw [List.length_map, List.length_range, Nat.sub_self, List.replicate_zero, List.append_nil,
      if_neg hnotMem]

/-- The text before the first `:`. -/
def mountName (s : List UInt8) : List UInt8 := s.takeWhile (· ≠ colon)

/-- The text after the first `:`. -/
def mountPath (s : List UInt8) : List UInt8 := (s.dropWhile (· ≠ colon)).tail

/-- A path is split at its first colon, if it has one. -/
lemma splitPath_eq (s : List UInt8) :
    splitPath s = if colon ∈ s then some (mountName s, mountPath s) else none := by
  induction s with
  | nil => rfl
  | cons c s ih =>
    rw [splitPath]
    by_cases hc : c = colon
    · subst hc
      rw [if_pos rfl, if_pos List.mem_cons_self, mountName, mountPath,
        List.takeWhile_cons_of_neg (by simp), List.dropWhile_cons_of_neg (by simp),
        List.tail_cons]
    · have hmem : colon ∈ c :: s ↔ colon ∈ s := by simp [Ne.symm hc]
      have hname : mountName (c :: s) = c :: mountName s :=
        List.takeWhile_cons_of_pos (by simpa using hc)
      have hpath : mountPath (c :: s) = mountPath s := by
        rw [mountPath, List.dropWhile_cons_of_pos (by simpa using hc), mountPath]
      rw [if_neg hc, ih, hname, hpath]
      simp only [hmem]
      split_ifs <;> rfl

/-! ### Dispatch -/

/-- The first mount whose name is the text before the first `:`. -/
def NamesMount (mounts : List VfsMount) (s : List UInt8) (m : VfsMount) : Prop :=
  colon ∈ s ∧ mounts.find? (fun m => m.name.chars = mountName s) = some m

/-- **A request with a path is dispatched** to an operation of the mount it names, with the text
after the `:`, or refused. -/
def PathDispatched (mounts : List VfsMount) (s : List UInt8) (r : PathRequest)
    (result : Except VfsFault VfsOutcome) : Prop :=
  result = .ok .refused ∨ ∃ m f, NamesMount mounts s m ∧ m.functions r.op = some f ∧
    result = .ok (.called f m (r.args (mountPath s)))

/-- **A request with a file is dispatched** to an operation of the file's mount, or refused. -/
def FileDispatched (file : VfsFile) (r : FileRequest) (result : Except VfsFault VfsOutcome) :
    Prop :=
  result = .ok .refused ∨ ∃ f, file.mount.functions r.op = some f ∧
    result = .ok (.called f file.mount r.args)

/-- The path fits, and it is to be opened or names a mount that provides the operation. -/
def Served (mounts : List VfsMount) (path : ℕ → UInt8) (s : List UInt8) (r : PathRequest) : Prop :=
  PathFits path ∧ (r.op = .open_ ∨ ∃ m, NamesMount mounts s m ∧ Provided m r.op)

section Dispatch

variable {mounts : List VfsMount} {path : ℕ → UInt8} {s : List UInt8} {m : VfsMount}
  {op : VfsOp} {args : List UInt8 → VfsArgs}

/-- A mount is found by its name. -/
lemma findMount_eq {filename : List UInt8} (h : 0 ∉ filename) :
    findMount mounts filename = mounts.find? fun m => m.name.chars = filename := by
  rw [findMount]
  congr 1
  funext m
  rw [decide_eq_decide, strcmp_eq_zero m.name.zero_notMem h]

/-- **The lookup** splits the path, and takes the first mount of that name. -/
lemma lookup_eq (h : IsString path s) (hfits : PathFits path) : lookup mounts path =
    .ok (if colon ∈ s then (mounts.find? fun m => m.name.chars = mountName s).map
      fun m => (m, mountPath s) else none) := by
  have hname : 0 ∉ mountName s := fun hmem =>
    h.zero_notMem ((List.takeWhile_sublist _).subset hmem)
  rw [lookup, h.copyPath_eq hfits, ok_bind, splitPath_eq]
  split_ifs
  · dsimp only
    rw [findMount_eq hname]
    rfl
  · rfl

/-- A path that names a mount finds it. -/
lemma lookup_of_namesMount (h : IsString path s) (hfits : PathFits path)
    (hm : NamesMount mounts s m) : lookup mounts path = .ok (some (m, mountPath s)) := by
  rw [lookup_eq h hfits, if_pos hm.1, hm.2]
  rfl

/-- A path that names none finds none. -/
lemma lookup_of_not_namesMount (h : IsString path s) (hfits : PathFits path)
    (hm : ∀ m, ¬NamesMount mounts s m) : lookup mounts path = .ok none := by
  rw [lookup_eq h hfits]
  split_ifs with hcolon
  · rw [Option.eq_none_iff_forall_ne_some.mpr fun m hfind => hm m ⟨hcolon, hfind⟩]
    rfl
  · rfl

/-- A path that is too long overflows the buffer. -/
lemma lookup_of_not_fits (hfits : ¬PathFits path) : lookup mounts path = .error .overflow := by
  rw [lookup, copyPath_of_not_fits hfits]
  rfl

lemma NamesMount.mem (h : NamesMount mounts s m) : m ∈ mounts := List.mem_of_find?_eq_some h.2

lemma NamesMount.eq {m' : VfsMount} (h : NamesMount mounts s m) (h' : NamesMount mounts s m') :
    m = m' :=
  Option.some.inj (h.2.symm.trans h'.2)

/-- A call through the pointer of an operation. -/
lemma call_of_function {f : DriverFunction} (h : m.functions op = some f) (args : VfsArgs) :
    m.call op args = .ok (.called f m args) := by
  rw [VfsMount.call, h]

/-- A call that returns was made to the function of the mount. -/
lemma call_eq_ok {args : VfsArgs} {o : VfsOutcome} (h : m.call op args = .ok o) :
    ∃ f, m.functions op = some f ∧ o = .called f m args := by
  rw [VfsMount.call] at h
  cases hf : m.functions op with
  | none =>
    rw [hf] at h
    exact absurd h (by simp)
  | some f =>
    rw [hf] at h
    exact ⟨f, rfl, (Except.ok.inj h).symm⟩

/-- Every driver has a function that opens files. -/
lemma MountTable.provided_open (h : MountTable mounts) (hm : m ∈ mounts) : Provided m .open_ := by
  obtain ⟨d, hd⟩ := h.mounted hm
  exact ⟨d, hd, by cases d <;> decide⟩

/-- `vfs_open` goes wrong only for a path that does not fit. -/
lemma vfsOpen_dispatched (h : MountTable mounts) (hs : IsString path s) (flags : Int32) :
    PathDispatched mounts s (.open_ flags) (vfsOpen mounts path flags) ↔ PathFits path := by
  rw [vfsOpen]
  constructor
  · intro hd
    by_contra hfits
    rw [lookup_of_not_fits hfits] at hd
    rcases hd with hd | ⟨m, f, -, -, hd⟩
    · exact absurd hd (by simp)
    · exact absurd hd (by simp)
  · intro hfits
    by_cases hm : ∃ m, NamesMount mounts s m
    · obtain ⟨m, hm⟩ := hm
      obtain ⟨f, hf⟩ := (h.exists_function_iff hm.mem).mpr (h.provided_open hm.mem)
      rw [lookup_of_namesMount hs hfits hm]
      exact .inr ⟨m, f, hm, hf, call_of_function hf _⟩
    · rw [lookup_of_not_namesMount hs hfits (not_exists.mp hm)]
      exact .inl rfl

/-- The calls that do not ask whether a mount was found go wrong when it was not. -/
lemma callFound_dispatched (h : MountTable mounts) (hs : IsString path s) {r : PathRequest}
    (hop : r.op = op) (hargs : ∀ rest, r.args rest = args rest) :
    PathDispatched mounts s r (callFound op args mounts path) ↔
      PathFits path ∧ ∃ m, NamesMount mounts s m ∧ Provided m op := by
  rw [callFound, PathDispatched, hop, hargs]
  by_cases hfits : PathFits path
  · by_cases hm : ∃ m, NamesMount mounts s m
    · obtain ⟨m, hm⟩ := hm
      rw [lookup_of_namesMount hs hfits hm, ok_bind]
      dsimp only
      constructor
      · rintro (hd | ⟨m', f, hm', hf, -⟩)
        · obtain ⟨f, -, hf⟩ := call_eq_ok hd
          exact absurd hf (by simp)
        · exact ⟨hfits, m', hm', (h.exists_function_iff hm'.mem).mp ⟨f, hf⟩⟩
      · rintro ⟨-, m', hm', hp⟩
        obtain rfl : m = m' := hm.eq hm'
        obtain ⟨f, hf⟩ := (h.exists_function_iff hm.mem).mpr hp
        exact .inr ⟨m, f, hm, hf, call_of_function hf _⟩
    · rw [lookup_of_not_namesMount hs hfits (not_exists.mp hm)]
      constructor
      · rintro (hd | ⟨m, f, hm', -⟩)
        · exact absurd hd (by simp [throw, throwThe, MonadExceptOf.throw])
        · exact absurd ⟨m, hm'⟩ hm
      · rintro ⟨-, m, hm', -⟩
        exact absurd ⟨m, hm'⟩ hm
  · rw [lookup_of_not_fits hfits]
    constructor
    · rintro (hd | ⟨m, f, -, -, hd⟩)
      · exact absurd hd (by simp)
      · exact absurd hd (by simp)
    · exact fun hd => absurd hd.1 hfits

/-- A request that is not to open a file has to name a mount. -/
lemma served_iff {r : PathRequest} (hop : r.op ≠ .open_) :
    Served mounts path s r ↔ PathFits path ∧ ∃ m, NamesMount mounts s m ∧ Provided m r.op :=
  and_congr_right' (or_iff_right hop)

/-- **A request for a path** is dispatched to the mount that it names just when it is served. -/
lemma pathDispatched_iff (h : MountTable mounts) (hs : IsString path s) (r : PathRequest) :
    PathDispatched mounts s r (r.run mounts path) ↔ Served mounts path s r := by
  cases r with
  | open_ flags =>
    exact (vfsOpen_dispatched h hs flags).trans ⟨fun hfits => ⟨hfits, .inl rfl⟩, fun hr => hr.1⟩
  | mkdir =>
    exact (callFound_dispatched h hs rfl fun _ => rfl).trans (served_iff (by decide)).symm
  | touch =>
    exact (callFound_dispatched h hs rfl fun _ => rfl).trans (served_iff (by decide)).symm
  | dirAt idx =>
    exact (callFound_dispatched h hs rfl fun _ => rfl).trans (served_iff VfsOp.noConfusion).symm
  | deleteDir =>
    exact (callFound_dispatched h hs rfl fun _ => rfl).trans (served_iff (by decide)).symm

/-- **A request for a file** is dispatched to its mount just when the driver provides it. -/
lemma fileDispatched_iff (h : MountTable mounts) {file : VfsFile} (hfile : file.mount ∈ mounts)
    (r : FileRequest) : FileDispatched file r (r.run file) ↔ Provided file.mount r.op := by
  rw [FileDispatched, r.run_eq, ← h.exists_function_iff hfile]
  constructor
  · rintro (hd | ⟨f, hf, -⟩)
    · obtain ⟨f, -, hf⟩ := call_eq_ok hd
      exact absurd hf (by simp)
    · exact ⟨f, hf⟩
  · rintro ⟨f, hf⟩
    exact .inr ⟨f, hf, call_of_function hf _⟩

end Dispatch

/-- **Dispatch of the virtual file system**, for every table of the drivers' mounts: a request with
a path is dispatched exactly when it is served, and one with a file exactly when the file's driver
provides the operation. -/
theorem vfs_dispatch_iff {mounts : List VfsMount} (h : MountTable mounts) :
    (∀ (path : ℕ → UInt8) (s : List UInt8), IsString path s → ∀ r : PathRequest,
      (PathDispatched mounts s r (r.run mounts path) ↔ Served mounts path s r)) ∧
    ∀ file : VfsFile, file.mount ∈ mounts → ∀ r : FileRequest,
      (FileDispatched file r (r.run file) ↔ Provided file.mount r.op) :=
  ⟨fun _ _ hs r => pathDispatched_iff h hs r, fun _ hfile r => fileDispatched_iff h hfile r⟩

/-- The table with "tmp" only. -/
def tmpMounts : List VfsMount := vfsMount [] (getRamfs ⟨[116, 109, 112], by decide⟩)

lemma mountTable_tmp : MountTable tmpMounts := .mount .init (.ramfs _)

/-- A string that is followed by zeros. -/
def stringPath (s : List UInt8) : ℕ → UInt8 := fun i => s.getD i 0

/-- The bytes of a string, with zeros behind them. -/
lemma isString_stringPath {s : List UInt8} (h : 0 ∉ s) : IsString (stringPath s) s where
  zero_notMem := h
  holds i b hb := by
    rw [stringPath, zero_add, List.getD_eq_getElem?_getD]
    rw [List.getElem?_append] at hb
    split_ifs at hb with hi
    · rw [hb, Option.getD_some]
    · rw [List.getElem?_singleton] at hb
      split_ifs at hb with hlast
      rw [List.getElem?_eq_none (not_lt.mp hi), ← Option.some.inj hb, Option.getD_none]

/-- A directory in "tmp:a" is made by the file system that is mounted as "tmp". -/
theorem vfs_dispatch_tmp : PathDispatched tmpMounts [116, 109, 112, 58, 97] .mkdir
    (vfsMkdir tmpMounts (stringPath [116, 109, 112, 58, 97])) :=
  ((vfs_dispatch_iff mountTable_tmp).1 _ _ (isString_stringPath (by decide)) .mkdir).mpr
    ⟨⟨5, by decide, by decide, rfl, by decide⟩, .inr ⟨_, ⟨by decide, rfl⟩, .ramfs, .ramfs _,
      by decide⟩⟩

/-- A directory "a", without a mount, is made through `NULL`. -/
theorem mkdir_null_mount : ¬∀ mounts : List VfsMount, MountTable mounts →
    ∀ (path : ℕ → UInt8) (s : List UInt8), IsString path s → ∀ r : PathRequest,
      PathDispatched mounts s r (r.run mounts path) := by
  intro h
  have hmkdir := h tmpMounts mountTable_tmp _ [97] (isString_stringPath (by decide)) .mkdir
  have hserved := (pathDispatched_iff mountTable_tmp (isString_stringPath (by decide)) _).mp hmkdir
  obtain ⟨m, hm, -⟩ := ((served_iff (by decide)).mp hserved).2
  exact absurd hm.1 (by decide)

end MicroOS
