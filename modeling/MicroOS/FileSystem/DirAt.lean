import MicroOS.FileSystem.PathLookup

/-!
Directory enumeration in ramfs trees and in initrd images.

* `Enumerates`: a driver reports each child of a directory at its index, and none from there on;
* `dirSlot_eq`: the loop of `ramfs_dir_at` ends at the slot that it counts down to;
* `ramfs_enumerates_iff`, `initrd_enumerates_iff`: when the drivers enumerate a directory;
* `dir_at_enumerates_iff`: these together;
* `empty_folder_reported`: a folder without children.

An index is an `int` that is not negative.
-/

namespace MicroOS

open ByteMem ByteImage Checked Lookup

/-! ### Enumerations -/

variable {α : Type*}

/-- **A driver enumerates a directory**: it reports each child at its index, and none behind the
last. -/
structure Enumerates (dirAt : ℕ → Except Halt DirT) (children : List α)
    (Is : α → List UInt8 → EntryType → Prop) : Prop where
  child : ∀ idx c, idx < 2 ^ 31 → children[idx]? = some c →
    ∃ name type, dirAt idx = .ok ⟨name, idx, false, type⟩ ∧ Is c name type
  none : ∀ idx, idx < 2 ^ 31 → children.length ≤ idx → dirAt idx = .ok DirT.none

/-! ### The ramfs -/

variable {m : Mem} {root base node idx : ℕ} {path : List UInt8} {l : Listing}

/-- **The loop of `ramfs_dir_at`** ends at the occupied slot that it counts down to, and reads no
slot behind the last. -/
lemma dirSlot_eq {actualIdx : ℕ} (ha : actualIdx < childSlots) (hidx : idx + 1 < 2 ^ 32) :
    dirSlot m node actualIdx (idx + 1) =
      .ok (((List.range' actualIdx (childSlots - actualIdx)).filter
        fun i => ramfsChild m node i ≠ 0)[idx]?) := by
  induction hlen : childSlots - actualIdx generalizing actualIdx idx with
  | zero => omega
  | succ n ih =>
    have hread : childSlot m node actualIdx = .ok (ramfsChild m node actualIdx) := if_pos ha
    have hsub : sub32 (idx + 1) 1 = idx := sub32_of_le hidx (Nat.succ_le_succ (Nat.zero_le idx))
    rw [dirSlot, hread, ok_bind, List.range'_succ]
    -- the slots behind this one
    have hrest : ∀ c, c + 1 < 2 ^ 32 → (if actualIdx + 1 ≥ childSlots then .ok none
        else dirSlot m node (actualIdx + 1) (c + 1)) =
        (.ok (((List.range' (actualIdx + 1) n).filter fun i => ramfsChild m node i ≠ 0)[c]?) :
          Except Halt (Option ℕ)) := by
      intro c hc
      split_ifs with hend
      · rw [show n = 0 by omega]
        rfl
      · exact ih (by omega) hc (by omega)
    by_cases hnull : ramfsChild m node actualIdx = 0
    · rw [List.filter_cons_of_neg (by simpa using hnull), if_neg (not_not.mpr hnull),
        if_neg (Nat.succ_ne_zero idx)]
      exact hrest idx hidx
    · rw [List.filter_cons_of_pos (by simpa using hnull), if_pos hnull, hsub]
      cases idx with
      | zero => rfl
      | succ idx =>
        rw [if_neg (Nat.succ_ne_zero idx), List.getElem?_cons_succ]
        exact hrest idx (by omega)

/-- What `ramfs_dir_at` does in a directory. -/
lemma ramfsDirAt_eq (hfind : ramfsFind m path root = .ok node) (hne : node ≠ 0)
    (hdir : ramfsType m node = nodeDir) (hidx : idx < 2 ^ 31) :
    ramfsDirAt m root idx path = match (ramfsChildren m node)[idx]? with
      | none => .ok DirT.none
      | some child =>
        match entryType (ramfsType m child) with
        | none => .ok DirT.none
        | some type => do
            let name ← strcpy (view m child) 256
            return ⟨name, idx, false, type⟩ := by
  have hslots : ramfsChildren m node = (((List.range' 0 childSlots).filter
      fun i => ramfsChild m node i ≠ 0).map (ramfsChild m node)) := by
    rw [ramfsChildren, List.range_eq_range', List.filter_map]
    rfl
  have hfound : ¬(node = 0 ∨ ramfsType m node ≠ nodeDir) := not_or.mpr ⟨hne, not_not.mpr hdir⟩
  have hloop : dirSlot m node 0 (idx + 1) = .ok (((List.range' 0 (childSlots - 0)).filter
      fun i => ramfsChild m node i ≠ 0)[idx]?) := dirSlot_eq (by decide) (by omega)
  rw [Nat.sub_zero] at hloop
  rw [ramfsDirAt, hfind, ok_bind, if_neg hfound, wrap32_of_lt (by omega), hloop, ok_bind, hslots,
    List.getElem?_map]
  cases hslot : ((List.range' 0 childSlots).filter fun i => ramfsChild m node i ≠ 0)[idx]? with
  | none => rfl
  | some slot =>
    have hmem := List.mem_of_getElem? hslot
    have hlt : slot < childSlots := by
      have hrange := List.mem_range'_1.mp (List.mem_of_mem_filter hmem)
      omega
    dsimp only [Option.map_some]
    rw [show childSlot m node slot = .ok (ramfsChild m node slot) from if_pos hlt, ok_bind]
    rfl

/-- What is reported of a child: its name, and its kind. -/
def RamfsEntry (m : Mem) (child : ℕ) (name : List UInt8) (type : EntryType) : Prop :=
  IsString (view m child) name ∧ entryType (ramfsType m child) = some type

/-- The types that `ramfs_dir_at` reports are those of directories and of files. -/
lemma entryType_isSome {type : ℕ} :
    (∃ t, entryType type = some t) ↔ type = nodeDir ∨ type = nodeFile := by
  rw [entryType]
  split_ifs with hdir hfile <;> simp [*]

/-- **When a directory of a ramfs is enumerated**: when its children, which have names, are files
and directories. -/
theorem ramfs_enumerates_iff (hfind : ramfsFind m path root = .ok node) (hne : node ≠ 0)
    (hdir : ramfsType m node = nodeDir)
    (hnames : ∀ child ∈ ramfsChildren m node, ∃ name, DirName name ∧ IsString (view m child) name) :
    Enumerates (fun idx => ramfsDirAt m root idx path) (ramfsChildren m node) (RamfsEntry m) ↔
      ∀ child ∈ ramfsChildren m node,
        ramfsType m child = nodeDir ∨ ramfsType m child = nodeFile := by
  have hcount : (ramfsChildren m node).length ≤ 1000 := by
    refine (List.length_filter_le _ _).trans ?_
    rw [List.length_map, List.length_range, childSlots]
  constructor
  · intro h child hmem
    obtain ⟨idx, hidx, hget⟩ := List.mem_iff_getElem.mp hmem
    obtain ⟨name, type, -, -, htype⟩ :=
      h.child idx child (by omega) (hget ▸ List.getElem?_eq_getElem hidx)
    exact entryType_isSome.mp ⟨type, htype⟩
  · refine fun htypes => ⟨fun idx child hidx hget => ?_, fun idx hidx hlast => ?_⟩
    · have hmem := List.mem_of_getElem? hget
      obtain ⟨name, hname, hstring⟩ := hnames child hmem
      obtain ⟨type, htype⟩ := entryType_isSome.mpr (htypes child hmem)
      refine ⟨name, type, ?_, hstring, htype⟩
      rw [ramfsDirAt_eq hfind hne hdir hidx, hget]
      dsimp only
      rw [htype]
      dsimp only
      rw [strcpy_ok hname.ne_nil hname.no_zero hname.length_lt.le hstring.holds]
      rfl
    · rw [ramfsDirAt_eq hfind hne hdir hidx, List.getElem?_eq_none hlast]

/-! ### The initrd -/

/-- `initrd_dir_at` reads `children[idx]`. -/
def ReadsChild (m : Mem) (folder idx : ℕ) : Prop :=
  ¬idx > (numChildren m folder + (2 ^ 64 - 1)) % 2 ^ 64

/-- What is reported of a child: its name, and its kind. -/
def InitrdEntry (entry : List UInt8 × Node) (name : List UInt8) (type : EntryType) : Prop :=
  entry.1 = name ∧ entry.2.type = type

section Folder

variable {off : ℕ} {name : List UInt8} {children : Listing}

/-- Some child is read of a folder that has none. -/
lemma readsChild_iff (hat : (Node.folder children).At (view m base) off name)
    (hsize : off + (Node.folder children).size < 2 ^ 32) (hidx : idx < 2 ^ 31) :
    ReadsChild m (wrap32 (base + off)) idx ↔ idx < children.count ∨ children.count = 0 := by
  have hcount : children.count < 2 ^ 32 := by
    rw [Node.size, folderNodeSize] at hsize
    omega
  rw [ReadsChild, numChildren_eq hat hsize]
  omega

/-- In a folder without children every index is reported. -/
lemma initrdDirAt_empty (hat : (Node.folder children).At (view m base) off name)
    (hsize : off + (Node.folder children).size < 2 ^ 32) (hempty : children.count = 0)
    (hne : wrap32 (base + off) ≠ 0)
    (hfind : initrdFind m base path base = .ok (wrap32 (base + off))) (hidx : idx < 2 ^ 31) :
    initrdDirAt m base idx path ≠ .ok DirT.none := by
  have hflags : ¬(Node.folder children).flags ≠ flagIsfolder := not_not.mpr rfl
  have hread : ReadsChild m (wrap32 (base + off)) idx :=
    (readsChild_iff hat hsize hidx).mpr (.inr hempty)
  rw [initrdDirAt, hfind, ok_bind, if_neg hne, nodeFlags_eq hat, if_neg hflags, if_neg hread]
  dsimp only
  cases strcpy (nodeName m (childAt m base (wrap32 (base + off)) idx)) 256 with
  | error e => simp
  | ok name =>
    intro h
    have hnone := congrArg DirT.isNone (Except.ok.inj h)
    cases hnone

/-- **When a folder of an initrd is enumerated**, and no child behind the last is read: when it has
one. -/
theorem initrd_enumerates_iff (hat : (Node.folder children).At (view m base) off name)
    (hsize : off + (Node.folder children).size < 2 ^ 32) (hnames : children.Named)
    (hne : wrap32 (base + off) ≠ 0)
    (hfind : initrdFind m base path base = .ok (wrap32 (base + off))) :
    (Enumerates (fun idx => initrdDirAt m base idx path) children.entries InitrdEntry ∧
      ∀ idx < 2 ^ 31, ReadsChild m (wrap32 (base + off)) idx → idx < children.count) ↔
      children.entries ≠ [] := by
  have hreads : ∀ idx < 2 ^ 31, ReadsChild m (wrap32 (base + off)) idx ↔
      idx < children.count ∨ children.count = 0 := fun idx => readsChild_iff hat hsize
  constructor
  · rintro ⟨h, -⟩ hnil
    refine initrdDirAt_empty hat hsize ?_ hne hfind (by norm_num) (h.none 0 (by norm_num) ?_)
    · rw [Listing.count, hnil, List.length_nil]
    · rw [hnil, List.length_nil]
  · intro hsome
    have hcount : children.count ≠ 0 := fun h => hsome (List.eq_nil_of_length_eq_zero h)
    have hinside : ∀ idx < 2 ^ 31, ReadsChild m (wrap32 (base + off)) idx → idx < children.count :=
      fun idx hidx h => ((hreads idx hidx).mp h).resolve_right hcount
    refine ⟨⟨fun idx e hidx hget => ?_, fun idx hidx hlast => ?_⟩, hinside⟩
    · exact ⟨e.1, e.2.type, initrdDirAt_folder hat hsize hnames hne hfind hget, rfl, rfl⟩
    · have hflags : ¬(Node.folder children).flags ≠ flagIsfolder := not_not.mpr rfl
      have hover := not_not.mp (mt (hinside idx hidx) (not_lt.mpr hlast))
      rw [initrdDirAt, hfind, ok_bind, if_neg hne, nodeFlags_eq hat, if_neg hflags, if_pos hover]
      rfl

end Folder

/-- The names on the way to a node that `initrd_find` gets to are short. -/
lemma shortName_of_initrdFind {names : List (List UInt8)} {node : Node} {x : Option ℕ} {bound p : ℕ}
    {start : Node} (hbound : bound < 2 ^ 32) (h : Sits m base bound start p)
    (hzero : ∀ k ∈ names, 0 ∉ k) (hlookup : Node.tree.lookup start names = some node)
    (hfind : Lookup.find (findName m base) p names = .ok x) : ∀ k ∈ names, ShortName k := by
  refine names_of_find (initrd_simulates hbound) h (fun k hk a y hstep => ⟨?_, hzero k hk⟩) hlookup
    hfind
  rw [findName] at hstep
  split_ifs at hstep with hlong
  omega

/-! ### Both drivers -/

/-- **Directory enumeration is complete and ends**, in a ramfs just for the directories whose
children are files and directories, and in an image that `saf-make` makes just for the folders that
have a child. -/
theorem dir_at_enumerates_iff (path : List UInt8) :
    (∀ m root node, ramfsFind m path root = .ok node → node ≠ 0 →
      ramfsType m node = nodeDir →
      (∀ child ∈ ramfsChildren m node, ∃ name, DirName name ∧ IsString (view m child) name) →
      (Enumerates (fun idx => ramfsDirAt m root idx path) (ramfsChildren m node) (RamfsEntry m) ↔
        ∀ child ∈ ramfsChildren m node,
          ramfsType m child = nodeDir ∨ ramfsType m child = nodeFile)) ∧
    ∀ host input fuel image l, PresentsTree host input l → l.Named →
      safMake host fuel input = .ok image → ∀ m base, 0 < base → base + image.length ≤ 2 ^ 32 →
      Holds m base image → ∀ folder children, 0 ∉ path →
      Node.tree.lookup (.folder l) (components path) = some (.folder children) →
      initrdFind m base path base = .ok folder →
      ((Enumerates (fun idx => initrdDirAt m base idx path) children.entries InitrdEntry ∧
        ∀ idx < 2 ^ 31, ReadsChild m folder idx → idx < children.count) ↔
        children.entries ≠ []) := by
  refine ⟨fun m root node hfind hne hdir hnames =>
    ramfs_enumerates_iff hfind hne hdir hnames, ?_⟩
  intro host input fuel image l hp hnames hmake m base hpos hwrap hm folder children hzero hlookup
    hfind
  obtain ⟨rfl, -⟩ := safMake_archive hp hmake
  have hroot := sits_root hnames hwrap hm
  have hbound : (archive l).length < 2 ^ 32 := by omega
  have hbytes : ∀ k ∈ components path, 0 ∉ k := fun k hk hmem => hzero (components_subset hk hmem)
  -- the folder that is found is the one that the path leads to
  cases hx : Lookup.find (findName m base) base (components path) with
  | error e =>
    rw [initrdFind_eq, hx] at hfind
    cases hfind
  | ok x =>
    have hshort := shortName_of_initrdFind hbound hroot hbytes hlookup hx
    obtain ⟨p, ⟨⟨off, name, rfl, hat, hend⟩, hnames'⟩, hgo⟩ :=
      find_append (initrd_simulates hbound) hroot hshort hlookup
    have hlast := hgo []
    rw [List.append_nil] at hlast
    have hfound : initrdFind m base path base = .ok (wrap32 (base + off)) := by
      rw [initrdFind_eq, hlast]
      rfl
    obtain rfl := Except.ok.inj (hfind.symm.trans hfound)
    have hlt : base + off < 2 ^ 32 := by
      rw [Node.size, folderNodeSize] at hend
      omega
    refine initrd_enumerates_iff hat (hend.trans_lt hbound) hnames' ?_ hfound
    rw [wrap32_of_lt hlt]
    omega

/-- A directory with one file is enumerated, in a ramfs and in an archive. -/
theorem dir_at_enumerates_file :
    Enumerates (fun idx => ramfsDirAt fileRamfs 0x1000 idx []) [0x2000] (RamfsEntry fileRamfs) ∧
    ∃ m base, Holds m base (archive (.file [0x61] [] .nil)) ∧
      Enumerates (fun idx => initrdDirAt m base idx []) (Listing.file [0x61] [] .nil).entries
        InitrdEntry := by
  obtain ⟨hramfs, hinitrd⟩ := dir_at_enumerates_iff []
  constructor
  · have hchildren : ramfsChildren fileRamfs 0x1000 = [0x2000] := by decide +kernel
    have htype : ramfsType fileRamfs 0x2000 = nodeFile := by decide +kernel
    have hname : DirName [0x61] := ⟨by decide, by decide, by decide⟩
    have hstring : IsString (view fileRamfs 0x2000) [0x61] := ⟨by decide, by decide +kernel⟩
    have hiff := hramfs fileRamfs 0x1000 0x1000 (ramfsFind_nil _ _) (by norm_num)
      (by decide +kernel)
    rw [hchildren] at hiff
    refine (hiff fun child hchild => ?_).mpr fun child hchild => ?_
    · obtain rfl := List.mem_singleton.mp hchild
      exact ⟨[0x61], hname, hstring⟩
    · obtain rfl := List.mem_singleton.mp hchild
      exact .inr htype
  · obtain ⟨fuel, hmake⟩ := fileHost_image
    have hwrap : 0x1000 + (archive (.file [0x61] [] .nil)).length ≤ 2 ^ 32 := by
      rw [length_archive]
      decide
    have hfind : initrdFind (store (fun _ => 0) 0x1000 (archive (.file [0x61] [] .nil))) 0x1000 []
        0x1000 = .ok 0x1000 := by
      rw [initrdFind_eq]
      rfl
    refine ⟨store (fun _ => 0) 0x1000 (archive (.file [0x61] [] .nil)), 0x1000, holds_store, ?_⟩
    exact ((hinitrd _ _ fuel _ _ fileHost_presents file_named hmake _ _ (by norm_num) hwrap
      holds_store 0x1000 _ List.not_mem_nil rfl hfind).mpr (List.cons_ne_nil _ _)).1

/-- **An empty folder has an entry at every index**: the root of the archive of an empty
directory. -/
theorem empty_folder_reported : ∃ host input fuel image m base, PresentsTree host input .nil ∧
    safMake host fuel input = .ok image ∧ 0 < base ∧ base + image.length ≤ 2 ^ 32 ∧
    Holds m base image ∧ ∀ idx < 2 ^ 31, initrdDirAt m base idx [] ≠ .ok DirT.none := by
  let host : SafHost := ⟨fun _ => some [], fun _ _ => none, fun _ => none⟩
  have hp : PresentsTree host [] .nil := ⟨[], rfl, rfl⟩
  have hlength : (archive .nil).length = 288 := length_archive .nil
  have hfits : FitsTree host [] .nil := by
    refine ⟨fun res hres => ?_, trivial⟩
    obtain rfl := Option.some.inj hres
    decide
  obtain ⟨image, hmake⟩ := safMake_returns hp (by omega) hfits
  obtain ⟨rfl, -⟩ := safMake_archive hp hmake
  have hm : Holds (store (fun _ => 0) 0x1000 (archive .nil)) 0x1000 (archive .nil) := holds_store
  have hnames : Listing.nil.Named := trivial
  obtain ⟨⟨off, name, hoff, hat, hend⟩, -⟩ := sits_root hnames (by omega) hm
  have hfind : initrdFind (store (fun _ => 0) 0x1000 (archive .nil)) 0x1000 [] 0x1000 =
      .ok (wrap32 (0x1000 + off)) := by
    rw [← hoff, initrdFind_eq]
    rfl
  refine ⟨host, [], _, _, _, 0x1000, hp, hmake, by norm_num, by omega, hm, fun idx hidx => ?_⟩
  exact initrdDirAt_empty hat (by omega) rfl (hoff ▸ by norm_num) hfind hidx

end MicroOS
