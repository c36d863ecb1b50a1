import MicroOS.FileSystem.Saf

/-!
The writer of SAF archives, `pkgs/saf/make/main.c`.

* `SafHost`: the tree that is archived, by path;
* `calculateSize`, `nodeLoop`, `safMake`: `calculate_size`, `make_node` and `main`; `mainArch` is
  `main` with what memory holds behind the archive;
* `Presents`: the host presents a tree; `Fits`: its paths fit the buffers of the writer;
* `Written`: what a part of the writer has done; `nodeLoop_written`, `nodeLoop_returns`;
* `safMake_archive`, `safMake_returns`: an image that is made is the archive of the tree, and one is
  made if and only if the paths fit.

The loops run with fuel. Offsets count from `adata.ptr`.
-/

namespace MicroOS

open ByteMem ByteImage Checked

/-- The tree that is archived: `resolve`, the name and the type of `dir_at`, and the contents that
`fopen`, `fseek`, `ftell` and `fread` give of a file. -/
structure SafHost where
  resolve : List UInt8 → Option (List UInt8)
  dirAt : List UInt8 → ℕ → Option (List UInt8 × EntryType)
  fopen : List UInt8 → Option (List UInt8)

/-- `arch_data_t`. -/
structure Arch where
  bytes : ℕ → UInt8
  currOffset : ℕ
  allocSize : ℕ

namespace Arch

/-- `inc_offset`. -/
def incOffset (a : Arch) (d : ℕ) : Except Halt Arch :=
  if a.currOffset + d > a.allocSize then .error .abort
  else .ok { a with currOffset := a.currOffset + d }

/-- Bytes are stored in the archive. -/
def store (a : Arch) (off : ℕ) (x : List UInt8) : Arch :=
  { a with bytes := ByteImage.store a.bytes off x }

/-- `num_children` and `children` of the folder at `off`. -/
def closeFolder (a : Arch) (off : ℕ) (children : List ℕ) : Arch :=
  let a := a.store (off + 280) (leBytes 8 children.length)
  { a with bytes := storeWords a.bytes (off + 288) children }

/-- The header of a node, with its magic number and its name. -/
def beginNode (a : Arch) (name : List UInt8) : Arch :=
  let a := a.store a.currOffset (List.replicate 280 0)
  let a := a.store a.currOffset (leBytes 8 magicNumber)
  a.store (a.currOffset + 16) (name ++ [0])

end Arch

/-- A path into the array `res_path` of 512 bytes. -/
def resolveInto (host : SafHost) (path : List UInt8) : Except Halt (List UInt8) :=
  match host.resolve path with
  | none => .error .abort
  | some res => if res.length < 512 then .ok res else .error (.outOfBounds res.length)

/-- `sprintf(fullpath, "%s/%s", path, ent.name)`, into `MAX_PATH_SIZE` bytes. -/
def joinPath (path name : List UInt8) : Except Halt (List UInt8) :=
  if (path ++ 0x2f :: name).length < 1024 then .ok (path ++ 0x2f :: name)
  else .error (.outOfBounds (path ++ 0x2f :: name).length)

/-- The loop of `childcnt`. -/
def childcntFrom (host : SafHost) (res : List UInt8) : ℕ → ℕ → Except Halt ℕ
  | 0, _ => .error .loops
  | fuel + 1, cnt =>
    match host.dirAt res cnt with
    | none => .ok cnt
    | some _ => childcntFrom host res fuel (cnt + 1)

/-- `childcnt`. -/
def childcnt (host : SafHost) (fuel : ℕ) (fldr : List UInt8) : Except Halt ℕ := do
  let path ← resolveInto host fldr
  childcntFrom host path fuel 0

/-- The node of a file, whose header is begun, and its contents. -/
def fileNode (host : SafHost) (fullpath : List UInt8) (a : Arch) : Except Halt Arch := do
  let off := a.currOffset
  let a ← a.incOffset fileNodeSize
  let a := a.store (off + 8) (leBytes 8 fileNodeSize)
  let a := a.store (off + 272) (leBytes 8 0)
  let a := a.store (off + 288) (leBytes 8 a.currOffset)
  match host.fopen fullpath with
  | none => .error .abort
  | some data => do
      let a := a.store (off + 280) (leBytes 8 data.length)
      let a ← a.incOffset data.length
      return a.store (off + fileNodeSize) data

/-- The node of a folder, whose header is begun, around the call of `make_node`. -/
def folderNode (host : SafHost) (fuel : ℕ)
    (makeNode : List UInt8 → Arch → Except Halt (Arch × List ℕ)) (fullpath : List UInt8)
    (a : Arch) :
    Except Halt Arch := do
  let off := a.currOffset
  let nc ← childcnt host fuel fullpath
  let nodesize := wrap32 (folderNodeSize nc)
  let a ← a.incOffset nodesize
  let a := a.store (off + 8) (leBytes 8 nodesize)
  let a := a.store (off + 272) (leBytes 8 flagIsfolder)
  let (a, children) ← makeNode fullpath a
  return a.closeFolder off children

/-- The node of an entry. -/
def entryNode (host : SafHost) (fuel : ℕ)
    (makeNode : List UInt8 → Arch → Except Halt (Arch × List ℕ)) (fullpath : List UInt8)
    (a : Arch) :
    EntryType → Except Halt Arch
  | .dir => folderNode host fuel makeNode fullpath a
  | .file => fileNode host fullpath a

/-- The start of `make_node`, in front of its loop. -/
def makeNodeWith (host : SafHost) (fuel : ℕ)
    (loop : List UInt8 → List UInt8 → ℕ → ℕ → Arch → Except Halt (Arch × List ℕ))
    (path : List UInt8) (a : Arch) : Except Halt (Arch × List ℕ) := do
  let nc ← childcnt host fuel path
  let resPath ← resolveInto host path
  loop path resPath nc 0 a

/-- The loop of `make_node` from the entry `idx` on, and the offsets that it puts in its list, which
has room for `nc`. -/
def nodeLoop (host : SafHost) : ℕ → List UInt8 → List UInt8 → ℕ → ℕ → Arch →
    Except Halt (Arch × List ℕ)
  | 0, _, _, _, _, _ => .error .loops
  | fuel + 1, path, resPath, nc, idx, a =>
    match host.dirAt resPath idx with
    | none => .ok (a, [])
    | some (name, type) => do
        let fullpath ← joinPath path name
        if nc ≤ idx then .error (.outOfBounds idx)
        else do
          let a' ← entryNode host fuel (makeNodeWith host fuel (nodeLoop host fuel)) fullpath
            (a.beginNode name) type
          let (a', offsets) ← nodeLoop host fuel path resPath nc (idx + 1) a'
          return (a', a.currOffset :: offsets)

/-- `make_node`. -/
def makeNode (host : SafHost) (fuel : ℕ) : List UInt8 → Arch → Except Halt (Arch × List ℕ) :=
  makeNodeWith host fuel (nodeLoop host fuel)

/-- What an entry adds to the size, with the size of what is in a folder. -/
def entrySize (host : SafHost) (fuel : ℕ) (calculateSize : List UInt8 → Except Halt ℕ)
    (fullpath : List UInt8) (size : ℕ) : EntryType → Except Halt ℕ
  | .dir => do
      let nc ← childcnt host fuel fullpath
      let size := wrap32 (size + wrap32 (folderNodeSize nc))
      let children ← calculateSize fullpath
      return wrap32 (size + children)
  | .file =>
    match host.fopen fullpath with
    | none => .error .abort
    | some data => .ok (wrap32 (wrap32 (size + fileNodeSize) + data.length))

/-- The loop of `calculate_size` from the entry `idx` on. -/
def sizeLoop (host : SafHost) : ℕ → List UInt8 → List UInt8 → ℕ → ℕ → Except Halt ℕ
  | 0, _, _, _, _ => .error .loops
  | fuel + 1, path, resPath, idx, size =>
    match host.dirAt resPath idx with
    | none => .ok size
    | some (name, type) => do
        let fullpath ← joinPath path name
        let size ← entrySize host fuel (fun p => do
          let res ← resolveInto host p
          sizeLoop host fuel p res 0 0) fullpath size type
        sizeLoop host fuel path resPath (idx + 1) size

/-- `calculate_size`. -/
def calculateSize (host : SafHost) (fuel : ℕ) (path : List UInt8) : Except Halt ℕ := do
  let resPath ← resolveInto host path
  sizeLoop host fuel path resPath 0 0

/-- `main` up to its output: `allocSize` is `alloc_needed`, and `m` is what memory holds
behind it. -/
def mainArch (host : SafHost) (fuel : ℕ) (input : List UInt8) (m : ℕ → UInt8) :
    Except Halt Arch := do
  let size ← calculateSize host fuel input
  let nc ← childcnt host fuel input
  let allocNeeded := wrap32 (size + folderNodeSize nc)
  let a : Arch := ⟨fun i => if i < allocNeeded then 0 else m i, 0, allocNeeded⟩
  let nc ← childcnt host fuel input
  let nodesize := wrap32 (folderNodeSize nc)
  let a ← a.incOffset nodesize
  let a := a.store 0 (leBytes 8 magicNumber)
  let a := a.store 8 (leBytes 8 nodesize)
  let a := a.store 272 (leBytes 8 flagIsfolder)
  let (a, children) ← makeNode host fuel input a
  return a.closeFolder 0 children

/-- `main`, the bytes that are written to the output. No byte behind the archive is among them, so
that memory may be clear there. -/
def safMake (host : SafHost) (fuel : ℕ) (input : List UInt8) : Except Halt (List UInt8) := do
  let a ← mainArch host fuel input fun _ => 0
  return (List.range a.currOffset).map a.bytes

/-! ### The host -/

/-- **The host presents a tree**: the folder at a path, from an entry on. -/
def Presents (host : SafHost) : List UInt8 → List UInt8 → ℕ → Listing → Prop
  | _, res, idx, .nil => host.dirAt res idx = none
  | path, res, idx, .file name data rest =>
    host.dirAt res idx = some (name, .file) ∧ host.fopen (path ++ 0x2f :: name) = some data ∧
      Presents host path res (idx + 1) rest
  | path, res, idx, .folder name children rest =>
    host.dirAt res idx = some (name, .dir) ∧
      (∃ res', host.resolve (path ++ 0x2f :: name) = some res' ∧
        Presents host (path ++ 0x2f :: name) res' 0 children) ∧
      Presents host path res (idx + 1) rest

/-- **The paths fit the buffers**: the path of an entry its 1024 bytes, and what the path of a
folder resolves to its 512 bytes. -/
def Fits (host : SafHost) : List UInt8 → Listing → Prop
  | _, .nil => True
  | path, .file name _ rest => (path ++ 0x2f :: name).length < 1024 ∧ Fits host path rest
  | path, .folder name children rest =>
    (path ++ 0x2f :: name).length < 1024 ∧
      (∀ res, host.resolve (path ++ 0x2f :: name) = some res → res.length < 512) ∧
      Fits host (path ++ 0x2f :: name) children ∧ Fits host path rest

/-- The turns that a loop over a folder and all that is under it may take. -/
def Listing.fuel : Listing → ℕ
  | .nil => 1
  | .file _ _ rest => rest.fuel + 1
  | .folder _ children rest => children.fuel + rest.fuel + 1

variable {host : SafHost} {path res name : List UInt8} {fuel idx n nc off : ℕ} {l : Listing}
  {a a' a'' : Arch} {x y : List UInt8} {offsets : List ℕ}

/-- The fuel of a listing is enough to go through its entries. -/
lemma Listing.count_lt_fuel (l : Listing) : l.count < l.fuel := by
  induction l with
  | nil => exact Nat.zero_lt_one
  | file name data rest ih =>
    rw [fuel, count_file]
    omega
  | folder name children rest _ ih =>
    rw [fuel, count_folder]
    omega

/-- **`childcnt`** counts the entries, if the fuel lasts. -/
lemma childcntFrom_eq (h : Presents host path res idx l) :
    childcntFrom host res fuel idx =
      if l.count < fuel then .ok (idx + l.count) else .error .loops := by
  induction fuel generalizing idx l with
  | zero => rfl
  | succ fuel ih =>
    rw [childcntFrom]
    cases l with
    | nil =>
      rw [show host.dirAt res idx = none from h]
      rfl
    | file name data rest =>
      rw [h.1]
      dsimp only
      rw [ih h.2.2, Nat.add_right_comm, Nat.add_assoc]
      simp only [Listing.count_file, Nat.add_lt_add_iff_right]
    | folder name children rest =>
      rw [h.1]
      dsimp only
      rw [ih h.2.2, Nat.add_right_comm, Nat.add_assoc]
      simp only [Listing.count_folder, Nat.add_lt_add_iff_right]

/-- A path that was resolved into the buffer fits there. -/
lemma resolveInto_ok (hres : host.resolve path = some res) {res' : List UInt8}
    (h : resolveInto host path = .ok res') : res' = res ∧ res.length < 512 := by
  rw [resolveInto, hres] at h
  dsimp only at h
  split_ifs at h with hfit
  exact ⟨(Except.ok.inj h).symm, hfit⟩

/-- A path that fits is resolved. -/
lemma resolveInto_fits (hres : host.resolve path = some res) (hfit : res.length < 512) :
    resolveInto host path = .ok res := by
  rw [resolveInto, hres]
  exact if_pos hfit

/-- **`childcnt`** counts the entries of a directory that a host presents. -/
lemma childcnt_ok (hres : host.resolve path = some res) (hp : Presents host path res 0 l)
    (h : childcnt host fuel path = .ok n) : n = l.count := by
  rw [childcnt, bind_eq_ok] at h
  obtain ⟨res', hresolve, hcnt⟩ := h
  obtain ⟨rfl, -⟩ := resolveInto_ok hres hresolve
  rw [childcntFrom_eq hp] at hcnt
  split_ifs at hcnt
  rw [← Except.ok.inj hcnt, Nat.zero_add]

/-- It returns, when the path fits into its buffer. -/
lemma childcnt_fits (hres : host.resolve path = some res) (hp : Presents host path res 0 l)
    (hfit : res.length < 512) (hfuel : l.fuel ≤ fuel) : childcnt host fuel path = .ok l.count := by
  rw [childcnt, resolveInto_fits hres hfit, ok_bind, childcntFrom_eq hp,
    if_pos (l.count_lt_fuel.trans_le hfuel), Nat.zero_add]

/-- A path that was joined fits into its buffer. -/
lemma joinPath_ok {fullpath : List UInt8} (h : joinPath path name = .ok fullpath) :
    fullpath = path ++ 0x2f :: name ∧ (path ++ 0x2f :: name).length < 1024 := by
  rw [joinPath] at h
  split_ifs at h with hfit
  exact ⟨(Except.ok.inj h).symm, hfit⟩

/-! ### The size -/

/-- **`calculate_size`** is the size of the nodes. -/
lemma sizeLoop_eq {size s : ℕ} (hp : Presents host path res idx l) (hsmall : size + l.size < 2 ^ 32)
    (h : sizeLoop host fuel path res idx size = .ok s) : s = size + l.size ∧ Fits host path l := by
  induction fuel generalizing path res idx l size s with
  | zero => cases h
  | succ fuel ih =>
    rw [sizeLoop] at h
    cases l with
    | nil =>
      rw [show host.dirAt res idx = none from hp] at h
      exact ⟨(Except.ok.inj h).symm, trivial⟩
    | file name data rest =>
      obtain ⟨hdir, hopen, hrest⟩ := hp
      rw [hdir] at h
      dsimp only at h
      obtain ⟨fullpath, hjoin, h⟩ := bind_eq_ok.mp h
      obtain ⟨rfl, hfit⟩ := joinPath_ok hjoin
      rw [Listing.size] at hsmall
      rw [entrySize, hopen, ok_bind, wrap32_of_lt (show size + fileNodeSize < 2 ^ 32 by omega),
        wrap32_of_lt (by omega)] at h
      obtain ⟨rfl, hfits⟩ := ih hrest (by omega) h
      exact ⟨by rw [Listing.size]; omega, hfit, hfits⟩
    | folder name children rest =>
      obtain ⟨hdir, ⟨res', hres', hchildren⟩, hrest⟩ := hp
      rw [hdir] at h
      dsimp only at h
      obtain ⟨fullpath, hjoin, h⟩ := bind_eq_ok.mp h
      obtain ⟨rfl, hfit⟩ := joinPath_ok hjoin
      rw [Listing.size] at hsmall
      obtain ⟨size', hentry, h⟩ := bind_eq_ok.mp h
      rw [entrySize] at hentry
      obtain ⟨nc, hcount, hentry⟩ := bind_eq_ok.mp hentry
      obtain ⟨c, hsub, hret⟩ := bind_eq_ok.mp hentry
      obtain ⟨res'', hresolve, hsub⟩ := bind_eq_ok.mp hsub
      obtain rfl := childcnt_ok hres' hchildren hcount
      obtain ⟨rfl, hshort⟩ := resolveInto_ok hres' hresolve
      obtain ⟨rfl, hfits'⟩ := ih hchildren (by omega) hsub
      have hsize' : size' = size + folderNodeSize children.count + children.size := by
        rw [← Except.ok.inj hret,
          wrap32_of_lt (show folderNodeSize children.count < 2 ^ 32 by omega),
          wrap32_of_lt (show size + folderNodeSize children.count < 2 ^ 32 by omega),
          wrap32_of_lt (by omega), Nat.zero_add]
      subst hsize'
      obtain ⟨rfl, hfits⟩ := ih hrest (by omega) h
      refine ⟨by rw [Listing.size]; omega, hfit, fun r hr => ?_, hfits', hfits⟩
      obtain rfl := Option.some.inj (hres'.symm.trans hr)
      exact hshort

/-! ### What is written -/

/-- **What a part of the writer has done**: bytes are appended to the archive. -/
structure Written (a a' : Arch) (x : List UInt8) : Prop where
  holds : Holds a'.bytes a.currOffset x
  below : ∀ i, i < a.currOffset → a'.bytes i = a.bytes i
  currOffset : a'.currOffset = a.currOffset + x.length
  allocSize : a'.allocSize = a.allocSize

/-- One part after the other. -/
lemma Written.trans (h : Written a a' x) (h' : Written a' a'' y) : Written a a'' (x ++ y) := by
  have hcurr := h.currOffset
  refine ⟨holds_append.mpr ⟨h.holds.congr fun i _ hi => h'.below i (by omega), hcurr ▸ h'.holds⟩,
    fun i hi => (h'.below i (by omega)).trans (h.below i hi), ?_,
    h'.allocSize.trans h.allocSize⟩
  rw [h'.currOffset, hcurr, List.length_append, Nat.add_assoc]

/-- The length and the flags are stored last. -/
lemma holds_hdr {b : ℕ → UInt8} (hmagic : Holds b off (leBytes 8 magicNumber))
    (hname : Holds b (off + 16) (nameField name)) (len flags : ℕ) :
    Holds (store (store b (off + 8) (leBytes 8 len)) (off + 272) (leBytes 8 flags)) off
      (hdrImage len name flags) := by
  rw [hdrImage, holds_append, holds_append, holds_append]
  simp only [length_leBytes, length_nameField, Nat.add_assoc]
  refine ⟨?_, ?_, ?_, holds_store⟩
  · exact (hmagic.store (.inr (by simp))).store (.inr (by simp))
  · exact holds_store.store (.inr (by simp))
  · exact (hname.store (.inl (by simp))).store (.inr (by simp))

/-- The header of a node is cleared, and gets its number and its name. -/
lemma beginNode_bytes (a : Arch) (name : List UInt8) :
    (a.beginNode name).bytes =
      store (store (store a.bytes a.currOffset (List.replicate 280 0)) a.currOffset
        (leBytes 8 magicNumber)) (a.currOffset + 16) (name ++ [0]) := rfl

/-- The name in a header that was cleared. -/
lemma holds_beginNode (a : Arch) (name : List UInt8) :
    Holds (a.beginNode name).bytes (a.currOffset + 16) (nameField name) := by
  intro i b hb
  rw [nameField, List.getElem?_map] at hb
  obtain ⟨j, hj, rfl⟩ := Option.map_eq_some_iff.mp hb
  obtain ⟨hi, rfl⟩ : i < 256 ∧ i = j := by
    obtain ⟨hlt, hget⟩ := List.getElem?_eq_some_iff.mp hj
    rw [List.length_range] at hlt
    exact ⟨hlt, by rw [← hget, List.getElem_range]⟩
  by_cases hlt : i < name.length + 1
  · refine holds_store i _ ?_
    rw [List.getElem?_append, List.getD_eq_getElem?_getD]
    split_ifs with hin
    · rw [List.getElem?_eq_getElem hin]
      rfl
    · rw [show i - name.length = 0 by omega, List.getElem?_eq_none (not_lt.mp hin)]
      rfl
  · -- a byte behind the name, from the `memset`
    have hzero : name.getD i 0 = 0 := List.getD_eq_default _ _ (by omega)
    have hclear : Holds (store a.bytes a.currOffset (List.replicate 280 0)) a.currOffset
        (List.replicate 280 0) := holds_store
    have hbyte := hclear (16 + i) 0 (by rw [List.getElem?_replicate, if_pos (by omega)])
    have hlength : (name ++ [(0 : UInt8)]).length = name.length + 1 := by
      rw [List.length_append, List.length_singleton]
    rw [hzero, beginNode_bytes, store_of_disjoint (by omega),
      store_of_disjoint (by rw [length_leBytes]; omega), Nat.add_assoc]
    exact hbyte

/-- What lies below a header that is begun. -/
lemma beginNode_below (a : Arch) (i : ℕ) (hi : i < a.currOffset) :
    (a.beginNode name).bytes i = a.bytes i := by
  rw [beginNode_bytes, store_of_disjoint (.inl (by omega)), store_of_disjoint (.inl hi),
    store_of_disjoint (.inl hi)]

/-- A node begins with the magic number. -/
lemma beginNode_magic (a : Arch) :
    Holds (a.beginNode name).bytes a.currOffset (leBytes 8 magicNumber) := by
  rw [beginNode_bytes]
  exact holds_store.store (.inr (by rw [length_leBytes]; omega))

/-- The offset is moved inside of what is allocated. -/
lemma incOffset_ok {d : ℕ} (h : a.incOffset d = .ok a') :
    a' = { a with currOffset := a.currOffset + d } ∧ a.currOffset + d ≤ a.allocSize := by
  rw [Arch.incOffset] at h
  split_ifs at h with hfull
  exact ⟨(Except.ok.inj h).symm, not_lt.mp hfull⟩

/-! ### What fits -/

/-- The writer has gone on by at least `n` bytes, within what was allocated. -/
structure Arch.Advances (a a' : Arch) (n : ℕ) : Prop where
  currOffset : a.currOffset + n ≤ a'.currOffset
  le : a'.currOffset ≤ a'.allocSize
  allocSize : a'.allocSize = a.allocSize

/-- Two writers, one behind the other. -/
lemma Arch.Advances.trans {n' : ℕ} (h : a.Advances a' n) (h' : a'.Advances a'' n') :
    a.Advances a'' (n + n') := by
  refine ⟨?_, h'.le, h'.allocSize.trans h.allocSize⟩
  have h1 := h.currOffset
  have h2 := h'.currOffset
  omega

lemma incOffset_advances {d : ℕ} (h : a.incOffset d = .ok a') : a.Advances a' d := by
  obtain ⟨rfl, hle⟩ := incOffset_ok h
  exact ⟨le_rfl, hle, rfl⟩

lemma Arch.Advances.of_beginNode (h : (a.beginNode name).Advances a' n) : a.Advances a' n :=
  ⟨h.currOffset, h.le, h.allocSize⟩

/-- Every node takes the bytes of its header. -/
lemma Listing.count_le_size (l : Listing) : 288 * l.count ≤ l.size := by
  induction l with
  | nil => exact le_rfl
  | file name data rest ih =>
    rw [count_file, size, fileNodeSize]
    omega
  | folder name children rest _ ih =>
    rw [count_folder, size, folderNodeSize]
    omega

/-- The array of a folder does not wrap when the nodes of its children fit. -/
lemma Arch.Advances.folder (h : a.Advances a' (wrap32 (folderNodeSize l.count)))
    (h' : a'.Advances a'' l.size) (halloc : a.allocSize < 2 ^ 32) :
    a.Advances a'' (folderNodeSize l.count + l.size) := by
  have htotal := h.trans h'
  have hcount := l.count_le_size
  have hend := htotal.currOffset
  have hle := htotal.le
  rw [htotal.allocSize] at hle
  have hnode : folderNodeSize l.count < 2 ^ 32 := by
    rw [folderNodeSize]
    omega
  rwa [wrap32_of_lt hnode] at htotal

/-- **A file** advances by its header and its bytes. -/
lemma fileNode_advances {fullpath data : List UInt8} (hopen : host.fopen fullpath = some data)
    (h : fileNode host fullpath a = .ok a') : a.Advances a' (fileNodeSize + data.length) := by
  rw [fileNode, bind_eq_ok] at h
  obtain ⟨a₁, hinc₁, h⟩ := h
  rw [hopen] at h
  obtain ⟨a₂, hinc₂, hret⟩ := bind_eq_ok.mp h
  obtain rfl := Except.ok.inj hret
  have h₁ := incOffset_advances hinc₁
  have h₂ := incOffset_advances hinc₂
  exact h₁.trans ⟨h₂.currOffset, h₂.le, h₂.allocSize⟩

/-- **What `make_node` appends fits.** -/
lemma nodeLoop_advances (hp : Presents host path res idx l) (halloc : a.allocSize < 2 ^ 32)
    (hle : a.currOffset ≤ a.allocSize)
    (h : nodeLoop host fuel path res nc idx a = .ok (a', offsets)) : a.Advances a' l.size := by
  induction fuel generalizing path res nc idx l a a' offsets with
  | zero => cases h
  | succ fuel ih =>
    rw [nodeLoop] at h
    cases l with
    | nil =>
      rw [show host.dirAt res idx = none from hp] at h
      obtain ⟨rfl, rfl⟩ := Prod.mk.inj (Except.ok.inj h)
      exact ⟨le_rfl, hle, rfl⟩
    | file name data rest =>
      obtain ⟨hdir, hopen, hrest⟩ := hp
      rw [hdir] at h
      dsimp only at h
      obtain ⟨fullpath, hjoin, h⟩ := bind_eq_ok.mp h
      obtain ⟨rfl, -⟩ := joinPath_ok hjoin
      split_ifs at h with hroom
      obtain ⟨a₁, hentry, h⟩ := bind_eq_ok.mp h
      obtain ⟨⟨a₂, offs⟩, hloop, hret⟩ := bind_eq_ok.mp h
      obtain ⟨rfl, rfl⟩ := Prod.mk.inj (Except.ok.inj hret)
      have hfile := (fileNode_advances hopen hentry).of_beginNode
      exact hfile.trans (ih hrest (hfile.allocSize ▸ halloc) hfile.le hloop)
    | folder name children rest =>
      obtain ⟨hdir, ⟨res', hres', hchildren⟩, hrest⟩ := hp
      rw [hdir] at h
      dsimp only at h
      obtain ⟨fullpath, hjoin, h⟩ := bind_eq_ok.mp h
      obtain ⟨rfl, -⟩ := joinPath_ok hjoin
      split_ifs at h with hroom
      obtain ⟨a₁, hentry, h⟩ := bind_eq_ok.mp h
      obtain ⟨⟨a₂, offs⟩, hloop, hret⟩ := bind_eq_ok.mp h
      obtain ⟨rfl, rfl⟩ := Prod.mk.inj (Except.ok.inj hret)
      obtain ⟨n, hcount, hentry⟩ := bind_eq_ok.mp hentry
      obtain rfl := childcnt_ok hres' hchildren hcount
      obtain ⟨b, hinc, hentry⟩ := bind_eq_ok.mp hentry
      obtain ⟨⟨b', offs'⟩, hmake, hret⟩ := bind_eq_ok.mp hentry
      obtain rfl := Except.ok.inj hret
      have hnode := (incOffset_advances hinc).of_beginNode
      obtain ⟨n', -, hmake⟩ := bind_eq_ok.mp hmake
      obtain ⟨res'', hresolve, hmake⟩ := bind_eq_ok.mp hmake
      obtain ⟨rfl, -⟩ := resolveInto_ok hres' hresolve
      have hsmall : b.allocSize < 2 ^ 32 := hnode.allocSize ▸ halloc
      have hsub := ih hchildren (by exact hsmall) (by exact hnode.le) hmake
      have hfolder := hnode.folder ⟨hsub.currOffset, hsub.le, hsub.allocSize⟩ halloc
      have hsmall : b'.allocSize < 2 ^ 32 := hfolder.allocSize ▸ halloc
      have hrest := ih hrest (by exact hsmall) (by exact hfolder.le) hloop
      exact hfolder.trans ⟨hrest.currOffset, hrest.le, hrest.allocSize⟩

/-- **The node of a file.** -/
lemma fileNode_written {fullpath data : List UInt8} (hopen : host.fopen fullpath = some data)
    (h : fileNode host fullpath (a.beginNode name) = .ok a') :
    Written a a' (fileImage name data a.currOffset) := by
  rw [fileNode, bind_eq_ok] at h
  obtain ⟨a₁, hinc₁, h⟩ := h
  obtain ⟨rfl, -⟩ := incOffset_ok hinc₁
  rw [hopen] at h
  obtain ⟨a₂, hinc₂, hret⟩ := bind_eq_ok.mp h
  obtain ⟨rfl, -⟩ := incOffset_ok hinc₂
  obtain rfl := Except.ok.inj hret
  set o := a.currOffset with ho
  have hhdr := holds_hdr (beginNode_magic a) (holds_beginNode a name) fileNodeSize 0
  rw [← ho] at hhdr
  set b := store (store (a.beginNode name).bytes (o + 8) (leBytes 8 fileNodeSize)) (o + 272)
    (leBytes 8 0) with hb
  have hsize : fileNodeSize = 296 := rfl
  refine ⟨?_, fun i hi => ?_, ?_, rfl⟩
  · change Holds (store (store (store b (o + 288) (leBytes 8 (o + fileNodeSize))) (o + 280)
      (leBytes 8 data.length)) (o + fileNodeSize) data) o _
    rw [fileImage, holds_append, holds_append, holds_append]
    simp only [length_hdrImage, length_leBytes, Nat.add_assoc]
    refine ⟨?_, ?_, ?_, holds_store⟩
    · refine ((hhdr.store (.inr ?_)).store (.inr ?_)).store (.inr ?_) <;>
        rw [length_hdrImage] <;> omega
    · refine holds_store.store (.inr ?_)
      rw [length_leBytes]
      omega
    · refine (holds_store.store (.inl ?_)).store (.inr ?_)
      · rw [length_leBytes]
      · rw [length_leBytes]
        omega
  · change store (store (store b (o + 288) (leBytes 8 (o + fileNodeSize))) (o + 280)
      (leBytes 8 data.length)) (o + fileNodeSize) data i = _
    rw [store_of_disjoint (.inl (by omega)), store_of_disjoint (.inl (by omega)),
      store_of_disjoint (.inl (by omega)), hb, store_of_disjoint (.inl (by omega)),
      store_of_disjoint (.inl (by omega)), beginNode_below a i hi]
  · rw [length_fileImage, ← Nat.add_assoc]
    rfl

/-- `num_children` and `children` are stored behind the header, in front of the children. -/
lemma closeFolder_bytes (a : Arch) (off : ℕ) (offsets : List ℕ) :
    (a.closeFolder off offsets).bytes =
      storeWords (store a.bytes (off + 280) (leBytes 8 offsets.length)) (off + 288) offsets := rfl

/-- **A folder around its children.** -/
lemma closeFolder_written {x : List UInt8}
    (ha : a'.currOffset = off + folderNodeSize offsets.length)
    (hhdr : Holds a'.bytes off (hdrImage (folderNodeSize offsets.length) name flagIsfolder))
    (hbelow : ∀ i, i < off → a'.bytes i = a.bytes i) (hcurr : a.currOffset = off)
    (halloc : a'.allocSize = a.allocSize) (h : Written a' a'' x) :
    Written a (a''.closeFolder off offsets) (folderImage name offsets x) := by
  have hnode : folderNodeSize offsets.length = 288 + 8 * offsets.length := rfl
  subst hcurr
  refine ⟨?_, fun i hi => ?_, ?_, h.allocSize.trans halloc⟩
  · rw [closeFolder_bytes, folderImage, holds_append, holds_append, holds_append]
    simp only [length_hdrImage, length_leBytes, length_leWords, Nat.add_assoc]
    have hhdr' : Holds a''.bytes a.currOffset
        (hdrImage (folderNodeSize offsets.length) name flagIsfolder) := by
      refine hhdr.congr fun i _ hi => h.below i ?_
      rw [length_hdrImage] at hi
      omega
    refine ⟨?_, ?_, holds_storeWords, ?_⟩
    · refine (hhdr'.store (.inr ?_)).storeWords (.inr ?_)
      · rw [length_hdrImage]
      · rw [length_hdrImage]
        omega
    · refine holds_store.storeWords (.inr ?_)
      rw [length_leBytes]
    · have hx := h.holds
      rw [ha, hnode] at hx
      rw [show 280 + (8 + 8 * offsets.length) = 288 + 8 * offsets.length by omega]
      refine (hx.store (.inl ?_)).storeWords (.inl ?_)
      · rw [length_leBytes]
        omega
      · omega
  · rw [closeFolder_bytes, storeWords_of_disjoint (.inl (by omega)),
      store_of_disjoint (.inl (by omega)), h.below i (by omega), hbelow i hi]
  · change a''.currOffset = _
    rw [h.currOffset, ha, length_folderImage, Nat.add_assoc]

/-- **The node of a folder**, from what `make_node` does for its children. -/
lemma folderNode_written {makeNode : List UInt8 → Arch → Except Halt (Arch × List ℕ)}
    {fullpath : List UInt8} {children : Listing} (hres : host.resolve fullpath = some res)
    (hp : Presents host fullpath res 0 children)
    (hsmall : a.currOffset + (folderNodeSize children.count + children.size) < 2 ^ 32)
    (hmake : ∀ a₁ a₂ offsets, a₁.currOffset = a.currOffset + folderNodeSize children.count →
      makeNode fullpath a₁ = .ok (a₂, offsets) →
      offsets = children.offsets a₁.currOffset ∧ Written a₁ a₂ (children.image a₁.currOffset))
    (h : folderNode host fuel makeNode fullpath (a.beginNode name) = .ok a') :
    Written a a' (folderImage name (children.offsets (a.currOffset + folderNodeSize children.count))
      (children.image (a.currOffset + folderNodeSize children.count))) := by
  rw [folderNode, bind_eq_ok] at h
  obtain ⟨nc, hcount, h⟩ := h
  obtain rfl := childcnt_ok hres hp hcount
  obtain ⟨a₁, hinc, h⟩ := bind_eq_ok.mp h
  obtain ⟨⟨a₂, offsets⟩, hsub, hret⟩ := bind_eq_ok.mp h
  obtain rfl := Except.ok.inj hret
  obtain ⟨rfl, -⟩ := incOffset_ok hinc
  rw [wrap32_of_lt (show folderNodeSize children.count < 2 ^ 32 by omega)] at hsub
  obtain ⟨hoffsets, hwritten⟩ := hmake _ _ _ rfl hsub
  have hlength : offsets.length = children.count := by
    rw [hoffsets, Listing.length_offsets]
  have hhdr := holds_hdr (beginNode_magic a) (holds_beginNode a name)
    (folderNodeSize offsets.length) flagIsfolder
  rw [show children.offsets (a.currOffset + folderNodeSize children.count) = offsets from
    hoffsets.symm]
  refine closeFolder_written ?_ ?_ (fun i hi => ?_) rfl ?_ hwritten
  · rw [hlength]
    rfl
  · rw [← hlength]
    exact hhdr
  · change store (store _ _ _) _ _ i = _
    rw [store_of_disjoint (.inl ?_), store_of_disjoint (.inl ?_)]
    · exact beginNode_below a i hi
    · exact hi.trans_le (Nat.le_add_right _ _)
    · exact hi.trans_le (Nat.le_add_right _ _)
  · rfl

/-- **`make_node` appends the nodes of the folder**, and its list has their offsets. -/
lemma nodeLoop_written (hp : Presents host path res idx l) (hsmall : a.currOffset + l.size < 2 ^ 32)
    (h : nodeLoop host fuel path res nc idx a = .ok (a', offsets)) :
    offsets = l.offsets a.currOffset ∧ Written a a' (l.image a.currOffset) := by
  induction fuel generalizing path res nc idx l a a' offsets with
  | zero => cases h
  | succ fuel ih =>
    rw [nodeLoop] at h
    cases l with
    | nil =>
      rw [show host.dirAt res idx = none from hp] at h
      obtain ⟨rfl, rfl⟩ := Prod.mk.inj (Except.ok.inj h)
      exact ⟨rfl, ⟨holds_nil, fun _ _ => rfl, rfl, rfl⟩⟩
    | file name data rest =>
      obtain ⟨hdir, hopen, hrest⟩ := hp
      rw [hdir] at h
      dsimp only at h
      obtain ⟨fullpath, hjoin, h⟩ := bind_eq_ok.mp h
      obtain ⟨rfl, -⟩ := joinPath_ok hjoin
      split_ifs at h with hroom
      obtain ⟨a₁, hentry, h⟩ := bind_eq_ok.mp h
      obtain ⟨⟨a₂, offs⟩, hloop, hret⟩ := bind_eq_ok.mp h
      obtain ⟨rfl, rfl⟩ := Prod.mk.inj (Except.ok.inj hret)
      have hfile := fileNode_written hopen hentry
      have hcurr := hfile.currOffset
      rw [length_fileImage] at hcurr
      rw [Listing.size] at hsmall
      obtain ⟨rfl, hwritten⟩ := ih hrest (by omega) hloop
      rw [hcurr] at hwritten ⊢
      exact ⟨rfl, hfile.trans hwritten⟩
    | folder name children rest =>
      obtain ⟨hdir, ⟨res', hres', hchildren⟩, hrest⟩ := hp
      rw [hdir] at h
      dsimp only at h
      obtain ⟨fullpath, hjoin, h⟩ := bind_eq_ok.mp h
      obtain ⟨rfl, -⟩ := joinPath_ok hjoin
      split_ifs at h with hroom
      obtain ⟨a₁, hentry, h⟩ := bind_eq_ok.mp h
      obtain ⟨⟨a₂, offs⟩, hloop, hret⟩ := bind_eq_ok.mp h
      obtain ⟨rfl, rfl⟩ := Prod.mk.inj (Except.ok.inj hret)
      rw [Listing.size] at hsmall
      have hfolder := folderNode_written hres' hchildren (by omega) (fun b b' o hb hmake => by
        rw [makeNodeWith] at hmake
        obtain ⟨nc', -, hmake⟩ := bind_eq_ok.mp hmake
        obtain ⟨res'', hresolve, hmake⟩ := bind_eq_ok.mp hmake
        obtain ⟨rfl, -⟩ := resolveInto_ok hres' hresolve
        exact ih hchildren (by omega) hmake) hentry
      have hcurr := hfolder.currOffset
      rw [length_folderImage, Listing.length_offsets, Listing.length_image] at hcurr
      obtain ⟨rfl, hwritten⟩ := ih hrest (by omega) hloop
      rw [hcurr] at hwritten ⊢
      exact ⟨rfl, hfolder.trans hwritten⟩

/-- **`make_node`** writes the image of a directory at the offset, and returns the offsets of its
entries. -/
lemma makeNode_written (hres : host.resolve path = some res) (hp : Presents host path res 0 l)
    (hsmall : a.currOffset + l.size < 2 ^ 32)
    (h : makeNode host fuel path a = .ok (a', offsets)) :
    offsets = l.offsets a.currOffset ∧ Written a a' (l.image a.currOffset) := by
  rw [makeNode, makeNodeWith] at h
  obtain ⟨nc, -, h⟩ := bind_eq_ok.mp h
  obtain ⟨res', hresolve, h⟩ := bind_eq_ok.mp h
  obtain ⟨rfl, -⟩ := resolveInto_ok hres hresolve
  exact nodeLoop_written hp hsmall h

/-! ### The writer returns -/

lemma joinPath_fits (h : (path ++ 0x2f :: name).length < 1024) :
    joinPath path name = .ok (path ++ 0x2f :: name) := if_pos h

lemma incOffset_fits {d : ℕ} (h : a.currOffset + d ≤ a.allocSize) :
    a.incOffset d = .ok { a with currOffset := a.currOffset + d } := if_neg (not_lt.mpr h)

/-- **`calculate_size` returns**, where the paths fit. -/
lemma sizeLoop_returns {size : ℕ} (hp : Presents host path res idx l) (hfits : Fits host path l)
    (hsmall : size + l.size < 2 ^ 32) (hfuel : l.fuel ≤ fuel) :
    ∃ s, sizeLoop host fuel path res idx size = .ok s := by
  induction fuel generalizing path res idx l size with
  | zero => cases l <;> exact absurd hfuel (by simp [Listing.fuel])
  | succ fuel ih =>
    rw [sizeLoop]
    cases l with
    | nil =>
      rw [show host.dirAt res idx = none from hp]
      exact ⟨size, rfl⟩
    | file name data rest =>
      obtain ⟨hdir, hopen, hrest⟩ := hp
      obtain ⟨hfit, hfits⟩ := hfits
      rw [Listing.size] at hsmall
      rw [Listing.fuel] at hfuel
      rw [hdir]
      dsimp only
      rw [joinPath_fits hfit, ok_bind, entrySize, hopen, ok_bind,
        wrap32_of_lt (show size + fileNodeSize < 2 ^ 32 by omega), wrap32_of_lt (by omega)]
      exact ih hrest hfits (by omega) (by omega)
    | folder name children rest =>
      obtain ⟨hdir, ⟨res', hres', hchildren⟩, hrest⟩ := hp
      obtain ⟨hfit, hshort, hfits', hfits⟩ := hfits
      rw [Listing.size] at hsmall
      rw [Listing.fuel] at hfuel
      obtain ⟨s, hs⟩ := ih hchildren hfits' (show 0 + children.size < 2 ^ 32 by omega)
        (by omega)
      obtain ⟨rfl, -⟩ := sizeLoop_eq hchildren (by omega) hs
      rw [hdir]
      dsimp only
      rw [joinPath_fits hfit, ok_bind, entrySize,
        childcnt_fits hres' hchildren (hshort res' hres') (by omega), ok_bind]
      dsimp only
      rw [resolveInto_fits hres' (hshort res' hres'), ok_bind, hs, ok_bind,
        wrap32_of_lt (show folderNodeSize children.count < 2 ^ 32 by omega),
        wrap32_of_lt (show size + folderNodeSize children.count < 2 ^ 32 by omega),
        wrap32_of_lt (by omega)]
      exact ih hrest hfits (by omega) (by omega)

/-- `file_node` returns, with room for the file. -/
lemma fileNode_returns {fullpath data : List UInt8} (name : List UInt8)
    (hopen : host.fopen fullpath = some data)
    (hroom : a.currOffset + (fileNodeSize + data.length) ≤ a.allocSize) :
    ∃ a', fileNode host fullpath (a.beginNode name) = .ok a' := by
  have hinc : (a.beginNode name).incOffset fileNodeSize =
      .ok { a.beginNode name with currOffset := (a.beginNode name).currOffset + fileNodeSize } :=
    incOffset_fits (show a.currOffset + fileNodeSize ≤ a.allocSize by omega)
  rw [fileNode, hinc, ok_bind, hopen]
  dsimp only
  rw [incOffset_fits]
  · exact ⟨_, rfl⟩
  · change a.currOffset + fileNodeSize + data.length ≤ a.allocSize
    omega

/-- `folder_node` returns, with room for the folder, when its children are made. -/
lemma folderNode_returns {makeNode : List UInt8 → Arch → Except Halt (Arch × List ℕ)}
    {fullpath : List UInt8} (name : List UInt8) (hcount : childcnt host fuel fullpath = .ok n)
    (hsmall : folderNodeSize n < 2 ^ 32) (hroom : a.currOffset + folderNodeSize n ≤ a.allocSize)
    (hmake : ∀ a₁ : Arch, a₁.currOffset = a.currOffset + folderNodeSize n →
      a₁.allocSize = a.allocSize → ∃ a₂ offsets, makeNode fullpath a₁ = .ok (a₂, offsets)) :
    ∃ a', folderNode host fuel makeNode fullpath (a.beginNode name) = .ok a' := by
  have hinc : (a.beginNode name).incOffset (folderNodeSize n) =
      .ok { a.beginNode name with currOffset :=
        (a.beginNode name).currOffset + folderNodeSize n } :=
    incOffset_fits hroom
  obtain ⟨a₂, offsets, hsub⟩ := hmake
    (Arch.store (Arch.store
      { a.beginNode name with currOffset := (a.beginNode name).currOffset + folderNodeSize n }
      ((a.beginNode name).currOffset + 8) (leBytes 8 (folderNodeSize n)))
      ((a.beginNode name).currOffset + 272) (leBytes 8 flagIsfolder)) rfl rfl
  rw [folderNode, hcount, ok_bind]
  dsimp only
  rw [wrap32_of_lt hsmall, hinc, ok_bind, hsub, ok_bind]
  exact ⟨_, rfl⟩

/-- **`make_node` returns**, where the paths fit and there is room. -/
lemma nodeLoop_returns (hp : Presents host path res idx l) (hfits : Fits host path l)
    (hsmall : a.currOffset + l.size < 2 ^ 32) (hroom : a.currOffset + l.size ≤ a.allocSize)
    (hnc : idx + l.count ≤ nc) (hfuel : l.fuel ≤ fuel) :
    ∃ a' offsets, nodeLoop host fuel path res nc idx a = .ok (a', offsets) := by
  induction fuel generalizing path res nc idx l a with
  | zero => cases l <;> exact absurd hfuel (by simp [Listing.fuel])
  | succ fuel ih =>
    rw [nodeLoop]
    cases l with
    | nil =>
      rw [show host.dirAt res idx = none from hp]
      exact ⟨a, [], rfl⟩
    | file name data rest =>
      obtain ⟨hdir, hopen, hrest⟩ := hp
      obtain ⟨hfit, hfits⟩ := hfits
      rw [Listing.size] at hsmall hroom
      rw [Listing.fuel] at hfuel
      rw [Listing.count_file] at hnc
      obtain ⟨a₁, hentry⟩ := fileNode_returns (a := a) name hopen (by omega)
      have hfile := fileNode_written hopen hentry
      have hcurr := hfile.currOffset
      have halloc := hfile.allocSize
      rw [length_fileImage] at hcurr
      obtain ⟨a₂, offsets, hloop⟩ := ih hrest hfits
        (show a₁.currOffset + rest.size < 2 ^ 32 by omega)
        (show a₁.currOffset + rest.size ≤ a₁.allocSize by omega)
        (show idx + 1 + rest.count ≤ nc by omega) (by omega)
      rw [hdir]
      dsimp only
      rw [joinPath_fits hfit, ok_bind, if_neg (by omega), entryNode, hentry, ok_bind, hloop]
      exact ⟨a₂, _, rfl⟩
    | folder name children rest =>
      obtain ⟨hdir, ⟨res', hres', hchildren⟩, hrest⟩ := hp
      obtain ⟨hfit, hshort, hfits', hfits⟩ := hfits
      rw [Listing.size] at hsmall hroom
      rw [Listing.fuel] at hfuel
      rw [Listing.count_folder] at hnc
      have hcount : childcnt host fuel (path ++ 0x2f :: name) = .ok children.count :=
        childcnt_fits hres' hchildren (hshort res' hres') (by omega)
      -- the folder's own node fits, so the inner call has the room that its listing needs
      have hmake : ∀ a₁ : Arch, a₁.currOffset = a.currOffset + folderNodeSize children.count →
          a₁.allocSize = a.allocSize → ∃ a₂ offsets,
          makeNodeWith host fuel (nodeLoop host fuel) (path ++ 0x2f :: name) a₁ =
            .ok (a₂, offsets) := by
        intro a₁ hcurr halloc
        rw [makeNodeWith, hcount, ok_bind, resolveInto_fits hres' (hshort res' hres'), ok_bind]
        exact ih hchildren hfits' (by omega) (by omega) (Nat.zero_add _).le (by omega)
      obtain ⟨a₁, hentry⟩ := folderNode_returns name hcount (by omega) (by omega) hmake
      have hfolder := folderNode_written hres' hchildren (by omega)
        (fun _ _ _ hb hmade => makeNode_written hres' hchildren (by omega) hmade) hentry
      have hcurr := hfolder.currOffset
      have halloc := hfolder.allocSize
      rw [length_folderImage, Listing.length_offsets, Listing.length_image] at hcurr
      obtain ⟨a₂, offsets, hloop⟩ := ih hrest hfits
        (show a₁.currOffset + rest.size < 2 ^ 32 by omega)
        (show a₁.currOffset + rest.size ≤ a₁.allocSize by omega)
        (show idx + 1 + rest.count ≤ nc by omega) (by omega)
      rw [hdir]
      dsimp only
      rw [joinPath_fits hfit, ok_bind, if_neg (by omega), entryNode, hentry, ok_bind, hloop]
      exact ⟨a₂, _, rfl⟩

/-! ### The archive -/

/-- **The host presents a tree** at the path that is archived. -/
def PresentsTree (host : SafHost) (input : List UInt8) (l : Listing) : Prop :=
  ∃ res, host.resolve input = some res ∧ Presents host input res 0 l

/-- **The paths of a tree fit the buffers**, and so does what its own path resolves to. -/
def FitsTree (host : SafHost) (input : List UInt8) (l : Listing) : Prop :=
  (∀ res, host.resolve input = some res → res.length < 512) ∧ Fits host input l

variable {input image : List UInt8}

/-- **`calculate_size`** returns the size of what the host presents. -/
lemma calculateSize_eq {s : ℕ} (hp : PresentsTree host input l) (hsmall : l.size < 2 ^ 32)
    (h : calculateSize host fuel input = .ok s) : s = l.size ∧ FitsTree host input l := by
  obtain ⟨res, hres, hp⟩ := hp
  rw [calculateSize, bind_eq_ok] at h
  obtain ⟨res', hresolve, h⟩ := h
  obtain ⟨rfl, hshort⟩ := resolveInto_ok hres hresolve
  obtain ⟨rfl, hfits⟩ := sizeLoop_eq hp (by omega) h
  refine ⟨Nat.zero_add _, fun r hr => ?_, hfits⟩
  obtain rfl := Option.some.inj (hres.symm.trans hr)
  exact hshort

/-- The header of the root, in memory that was cleared. -/
lemma holds_root (len : ℕ) :
    Holds (store (store (store (fun _ => 0) 0 (leBytes 8 magicNumber)) 8 (leBytes 8 len)) 272
      (leBytes 8 flagIsfolder)) 0 (hdrImage len [] flagIsfolder) := by
  refine holds_hdr holds_store (fun i b hb => ?_) len flagIsfolder
  rw [nameField, List.getElem?_map] at hb
  obtain ⟨j, -, rfl⟩ := Option.map_eq_some_iff.mp hb
  rw [store_of_disjoint (.inr (by rw [length_leBytes]; omega))]
  rfl

/-- The root around its children. -/
lemma root_written {alloc : ℕ} (h : Written ⟨store (store (store (fun _ => 0) 0
      (leBytes 8 magicNumber)) 8 (leBytes 8 (folderNodeSize offsets.length))) 272
      (leBytes 8 flagIsfolder), folderNodeSize offsets.length, alloc⟩ a x) :
    Written ⟨fun _ => 0, 0, alloc⟩ (a.closeFolder 0 offsets) (folderImage [] offsets x) := by
  refine closeFolder_written ?_ ?_ ?_ ?_ ?_ h
  · exact (Nat.zero_add _).symm
  · exact holds_root _
  · exact fun i hi => absurd hi (Nat.not_lt_zero i)
  · rfl
  · rfl

/-- **An image that is made is one of a tree that fits** the address space: `inc_offset` looks at
the 32 bits of the size. -/
lemma safMake_small (hp : PresentsTree host input l) (h : safMake host fuel input = .ok image) :
    (archive l).length < 2 ^ 32 := by
  obtain ⟨res, hres, hp⟩ := hp
  rw [safMake, bind_eq_ok] at h
  obtain ⟨main, h, -⟩ := h
  rw [mainArch, bind_eq_ok] at h
  obtain ⟨size, -, h⟩ := h
  obtain ⟨nc, hcount, h⟩ := bind_eq_ok.mp h
  obtain rfl := childcnt_ok hres hp hcount
  rw [hcount, ok_bind] at h
  dsimp only at h
  obtain ⟨a, hinc, h⟩ := bind_eq_ok.mp h
  have hroot := incOffset_advances hinc
  obtain ⟨⟨a', offsets⟩, hmake, -⟩ := bind_eq_ok.mp h
  obtain ⟨nc', -, hmake⟩ := bind_eq_ok.mp hmake
  obtain ⟨res', hresolve, hmake⟩ := bind_eq_ok.mp hmake
  obtain ⟨rfl, -⟩ := resolveInto_ok hres hresolve
  have halloc : a.allocSize < 2 ^ 32 := by
    rw [hroot.allocSize]
    exact wrap32_lt _
  have hnodes := nodeLoop_advances hp (by exact halloc) (by exact hroot.le) hmake
  have htotal := hroot.folder ⟨hnodes.currOffset, hnodes.le, hnodes.allocSize⟩ (wrap32_lt _)
  have hend := htotal.currOffset
  have hle := htotal.le
  rw [htotal.allocSize] at hle
  have hlt : wrap32 (size + folderNodeSize l.count) < 2 ^ 32 := wrap32_lt _
  dsimp only at hend hle
  rw [length_archive]
  omega

/-- **An image that is made is the archive**, and the paths fit. -/
theorem safMake_archive (hp : PresentsTree host input l)
    (h : safMake host fuel input = .ok image) : image = archive l ∧ FitsTree host input l := by
  have hsmall := safMake_small hp h
  rw [length_archive] at hsmall
  rw [safMake, bind_eq_ok] at h
  obtain ⟨main, h, hmain⟩ := h
  simp only [mainArch, ite_self] at h
  rw [bind_eq_ok] at h
  obtain ⟨size, hsize, h⟩ := h
  obtain ⟨rfl, hfits⟩ := calculateSize_eq hp (by omega) hsize
  obtain ⟨res, hres, hp⟩ := hp
  obtain ⟨nc, hcount, h⟩ := bind_eq_ok.mp h
  obtain rfl := childcnt_ok hres hp hcount
  rw [hcount, ok_bind] at h
  rw [wrap32_of_lt (show folderNodeSize l.count < 2 ^ 32 by omega)] at h
  obtain ⟨a₁, hinc, h⟩ := bind_eq_ok.mp h
  obtain ⟨rfl, -⟩ := incOffset_ok hinc
  obtain ⟨⟨a₂, offsets⟩, hmake, hret⟩ := bind_eq_ok.mp h
  obtain rfl := Except.ok.inj hret
  obtain rfl := Except.ok.inj hmain
  obtain ⟨hoffsets, hwritten⟩ := makeNode_written hres hp (by
    change 0 + folderNodeSize l.count + l.size < 2 ^ 32
    omega) hmake
  have hoffsets : offsets = l.offsets (0 + folderNodeSize l.count) := hoffsets
  have hlength : offsets.length = l.count := by
    rw [hoffsets, Listing.length_offsets]
  have hwritten : Written ⟨store (store (store (fun _ => 0) 0 (leBytes 8 magicNumber)) 8
      (leBytes 8 (folderNodeSize l.count))) 272 (leBytes 8 flagIsfolder),
      0 + folderNodeSize l.count, wrap32 (l.size + folderNodeSize l.count)⟩ a₂
      (l.image (0 + folderNodeSize l.count)) := hwritten
  rw [Nat.zero_add] at hoffsets
  rw [Nat.zero_add, ← hlength] at hwritten
  have hclosed := root_written hwritten
  rw [hlength, hoffsets] at hclosed
  refine ⟨?_, hfits⟩
  have hcurr := hclosed.currOffset
  rw [Nat.zero_add] at hcurr
  dsimp only
  rw [hoffsets, hcurr]
  exact hclosed.holds.map_range

/-- **`main` returns**, where the paths fit. -/
lemma mainArch_returns (hp : PresentsTree host input l) (hsmall : (archive l).length < 2 ^ 32)
    (hfits : FitsTree host input l) (m : ℕ → UInt8) :
    ∃ a, mainArch host l.fuel input m = .ok a := by
  rw [length_archive] at hsmall
  obtain ⟨res, hres, hp'⟩ := hp
  have hresolve : resolveInto host input = .ok res := resolveInto_fits hres (hfits.1 res hres)
  have hcount : childcnt host l.fuel input = .ok l.count :=
    childcnt_fits hres hp' (hfits.1 res hres) le_rfl
  obtain ⟨size, hloop⟩ := sizeLoop_returns hp' hfits.2 (show 0 + l.size < 2 ^ 32 by omega) le_rfl
  have hsize : calculateSize host l.fuel input = .ok size := by
    rw [calculateSize, hresolve, ok_bind]
    exact hloop
  obtain ⟨rfl, -⟩ := calculateSize_eq ⟨res, hres, hp'⟩ (by omega) hsize
  have halloc : wrap32 (l.size + folderNodeSize l.count) = l.size + folderNodeSize l.count :=
    wrap32_of_lt (by omega)
  have hinc : ∀ bytes, (⟨bytes, 0, l.size + folderNodeSize l.count⟩ : Arch).incOffset
      (folderNodeSize l.count) =
      .ok ⟨bytes, 0 + folderNodeSize l.count, l.size + folderNodeSize l.count⟩ := fun bytes =>
    incOffset_fits (show 0 + folderNodeSize l.count ≤ l.size + folderNodeSize l.count by omega)
  have hmake : ∀ bytes, ∃ a offsets, makeNode host l.fuel input
      ⟨bytes, 0 + folderNodeSize l.count, l.size + folderNodeSize l.count⟩ = .ok (a, offsets) := by
    intro bytes
    rw [makeNode, makeNodeWith, hcount, ok_bind, hresolve, ok_bind]
    refine nodeLoop_returns hp' hfits.2 ?_ ?_ (Nat.zero_add _).le le_rfl
    · change 0 + folderNodeSize l.count + l.size < 2 ^ 32
      omega
    · change 0 + folderNodeSize l.count + l.size ≤ l.size + folderNodeSize l.count
      omega
  rw [mainArch, hsize, ok_bind, hcount, ok_bind]
  dsimp only
  rw [ok_bind, halloc, wrap32_of_lt (show folderNodeSize l.count < 2 ^ 32 by omega), hinc, ok_bind]
  obtain ⟨a, offsets, hmade⟩ := hmake _
  exact ⟨a.closeFolder 0 offsets,
    congrArg (fun r => r >>= fun r => .ok (r.1.closeFolder 0 r.2)) hmade⟩

/-- **An image is made**, where the paths fit. -/
theorem safMake_returns (hp : PresentsTree host input l) (hsmall : (archive l).length < 2 ^ 32)
    (hfits : FitsTree host input l) : ∃ image, safMake host l.fuel input = .ok image := by
  obtain ⟨a, ha⟩ := mainArch_returns hp hsmall hfits fun _ => 0
  rw [safMake, ha]
  exact ⟨_, rfl⟩

end MicroOS
