import MicroOS.FileSystem.Initrd
import MicroOS.FileSystem.RamfsTree

/-!
Lookups of paths in ramfs trees and in initrd images.

* `RamfsLooksUp`, `InitrdLooksUp`: a lookup that goes through directories only, and ends at the node
  that the names of the path lead to;
* `ramfs_looksUp_iff`, `initrd_looksUp_iff`: when it is one;
* `lookups_walk_directories_iff`: these together;
* `lookup_through_file`: a name behind the name of a file.
-/

namespace MicroOS

open ByteMem ByteImage Checked Lookup Run

variable {m : Mem} {root base : ℕ} {path : List UInt8} {l : Listing}

/-! ### The ramfs -/

/-- **`ramfs_find` walks directories**: it returns the node that the names lead to and null where
they lead nowhere, and takes no word of another node for the pointer to a child. -/
structure RamfsLooksUp (m : Mem) (root : ℕ) (path : List UInt8) : Prop where
  found : ∀ node, (ramfsTree m).lookup root (components path) = some node →
    ramfsFind m path root = .ok node
  missing : (ramfsTree m).lookup root (components path) = none → ramfsFind m path root = .ok 0
  directories : ∀ c ∈ ramfsFollowed m path root, ramfsType m c.1 = nodeDir

/-- A node that a name can be looked up in: a directory, or a file without contents. -/
def RamfsWalkable (m : Mem) (node : ℕ) : Prop := ramfsType m node = nodeDir ∨ NoChildren m node

/-- In a tree that can be walked through the search for a short name does no harm. -/
lemma RamfsWalkable.harmless {node : ℕ} (h : RamfsWalkable m node) :
    Harmless (ramfsTree m) (ramfsFindName m) Eq ShortName node := by
  refine h.imp ramfsTree_isDir.mpr fun hnone => ?_
  rintro _ buffer rfl hshort
  exact hnone.find hshort

/-- **When a lookup in a ramfs walks directories.** -/
theorem ramfs_looksUp_iff (m : Mem) (root : ℕ) (hzero : 0 ∉ path)
    (hshort : ∀ c ∈ components path, c.length ≤ 127) :
    RamfsLooksUp m root path ↔ (ramfsTree m).Before (RamfsWalkable m) root (components path) := by
  have hK : ∀ k ∈ components path, ShortName k := fun k hk => shortName_of_mem hzero hshort hk
  constructor
  · rintro ⟨-, -, hdirectories⟩ pre k rest node hpath hnode
    by_cases hdir : ramfsType m node = nodeDir
    · exact .inl hdir
    -- the loop takes a word of the node for a pointer
    refine .inr (not_not.mp fun hsome => hdir ?_)
    obtain ⟨_, rfl, hasked⟩ := mem_asked (ramfs_simulates m) rfl
      (fun k hk => hK k (hpath ▸ List.mem_append_left _ hk)) hnode
    have hne : ramfsCompared m node k childSlots 0 ≠ [] := mt ramfsCompared_eq_nil.mp hsome
    obtain ⟨c, hc⟩ := List.exists_mem_of_ne_nil _ hne
    refine hdirectories (node, c) ?_
    rw [ramfsFollowed_eq, hpath]
    exact List.mem_flatMap.mpr ⟨(node, k), hasked k rest, List.mem_map.mpr ⟨c, hc, rfl⟩⟩
  · intro hbefore
    obtain ⟨x, hx, hrel⟩ := find_lookup (ramfs_simulates m) rfl hK
      (hbefore.mono fun node h => h.harmless)
    have hfind : ramfsFind m path root = .ok (x.getD 0) := by
      rw [ramfsFind_eq, hx]
      rfl
    refine ⟨fun node hnode => ?_, fun hnone => ?_, fun c hc => ?_⟩
    · rw [hnode] at hrel
      cases hrel with
      | some heq =>
        rw [hfind, heq]
        rfl
    · rw [hnone] at hrel
      cases hrel
      exact hfind
    · rw [ramfsFollowed_eq] at hc
      obtain ⟨⟨node, k⟩, hasked, hmem⟩ := List.mem_flatMap.mp hc
      obtain ⟨child, hchild, rfl⟩ := List.mem_map.mp hmem
      obtain ⟨_, rfl, hwalk⟩ := forall_asked (ramfs_simulates m) rfl hK hbefore
        (fun node h => h.harmless) (node, k) hasked
      refine hwalk.resolve_right fun hnone => ?_
      rw [ramfsCompared_eq_nil.mpr hnone] at hchild
      exact absurd hchild List.not_mem_nil

/-! ### The initrd -/

/-- **`initrd_find` walks directories**: it returns where the node stands that the names lead to,
and null where they lead nowhere. -/
structure InitrdLooksUp (m : Mem) (base : ℕ) (l : Listing) (path : List UInt8) : Prop where
  found : ∀ node, Node.tree.lookup (.folder l) (components path) = some node →
    ∃ off name, initrdFind m base path base = .ok (base + off) ∧ node.At (view m base) off name
  missing : Node.tree.lookup (.folder l) (components path) = none →
    initrdFind m base path base = .ok 0

/-- Names are looked up in folders alone. -/
lemma initrd_asked_file {node : Node} {p bound : ℕ} (h : Sits m base bound node p)
    (hdir : ¬Node.tree.isDir node) {k : List UInt8} (hshort : ShortName k)
    (rest : List (List UInt8)) :
    Lookup.find (findName m base) p (k :: rest) = .error .abort := by
  obtain ⟨off, name, rfl, hat, -⟩ := h.at_
  cases node with
  | folder children => exact absurd rfl hdir
  | file data =>
    have hlong : ¬128 ≤ k.length := not_le.mpr (Nat.lt_succ_of_le hshort.1)
    have hflags : nodeFlags m (wrap32 (base + off)) ≠ flagIsfolder := by
      rw [nodeFlags_eq hat]
      exact Nat.zero_ne_one
    exact find_cons_error (by rw [findName, if_neg hlong, if_pos hflags])

/-- **When a lookup in an initrd walks directories.** -/
theorem initrd_looksUp_iff (hnames : l.Named) (hpos : 0 < base)
    (hwrap : base + (archive l).length ≤ 2 ^ 32) (hm : Holds m base (archive l))
    (hzero : 0 ∉ path) (hshort : ∀ c ∈ components path, c.length ≤ 127) :
    InitrdLooksUp m base l path ↔
      Node.tree.Before (fun node => Node.tree.isDir node) (.folder l) (components path) := by
  have hroot := sits_root hnames hwrap hm
  have hbound : (archive l).length < 2 ^ 32 := by omega
  have hsteps : Lookup.Simulates Node.tree (findName m base) (Sits m base (archive l).length)
      ShortName := initrd_simulates hbound
  have hK : ∀ k ∈ components path, ShortName k := fun k hk => shortName_of_mem hzero hshort hk
  constructor
  · rintro ⟨hfound, hmissing⟩ pre k rest node hpath hnode
    by_contra hdir
    obtain ⟨p, hp, hgo⟩ := find_append hsteps hroot
      (fun k hk => hK k (hpath ▸ List.mem_append_left _ hk)) hnode
    have habort : initrdFind m base path base = .error .abort := by
      rw [initrdFind_eq, hpath, hgo, initrd_asked_file hp hdir (hK k (by simp [hpath]))]
      rfl
    -- in both cases the call returns
    cases hend : Node.tree.lookup (.folder l) (components path) with
    | none => exact absurd (habort.symm.trans (hmissing hend)) nofun
    | some node' =>
      obtain ⟨off, name, hfind, -⟩ := hfound node' hend
      exact absurd (habort.symm.trans hfind) nofun
  · intro hbefore
    obtain ⟨x, hx, hrel⟩ := find_lookup hsteps hroot hK (hbefore.mono fun node h => .inl h)
    have hfind : initrdFind m base path base = .ok (x.getD 0) := by
      rw [initrdFind_eq, hx]
      rfl
    refine ⟨fun node hnode => ?_, fun hnone => ?_⟩
    · rw [hnode] at hrel
      cases hrel with
      | some hp =>
        obtain ⟨off, name, rfl, hat, hend⟩ := hp.at_
        refine ⟨off, name, ?_, hat⟩
        rw [hfind, Option.getD_some, wrap32_of_lt]
        have hsize : 0 < node.size := by
          cases node <;> simp [Node.size, fileNodeSize, folderNodeSize]
        omega
    · rw [hnone] at hrel
      cases hrel
      exact hfind

/-! ### Both drivers -/

/-- **Path lookup walks directories** just when every name but the last leads to one: in a ramfs, to
a directory or to a file without contents; in an image that `saf-make` makes, to a folder. -/
theorem lookups_walk_directories_iff (hzero : 0 ∉ path)
    (hshort : ∀ c ∈ components path, c.length ≤ 127) :
    (∀ m root, RamfsLooksUp m root path ↔
      (ramfsTree m).Before (RamfsWalkable m) root (components path)) ∧
    ∀ host input fuel image l, PresentsTree host input l → l.Named →
      safMake host fuel input = .ok image → ∀ m base, 0 < base → base + image.length ≤ 2 ^ 32 →
      Holds m base image → (InitrdLooksUp m base l path ↔
        Node.tree.Before (fun node => Node.tree.isDir node) (.folder l) (components path)) := by
  refine ⟨fun m root => ramfs_looksUp_iff m root hzero hshort, ?_⟩
  intro host input fuel image l hp hnames hmake m base hpos hwrap hm
  obtain ⟨rfl, -⟩ := safMake_archive hp hmake
  exact initrd_looksUp_iff hnames hpos hwrap hm hzero hshort

/-- The host that presents a file `a` at the empty path. -/
def fileHost : SafHost where
  resolve path := some path
  dirAt _ idx := if idx = 0 then some ([0x61], .file) else none
  fopen _ := some []

lemma fileHost_presents : PresentsTree fileHost [] (.file [0x61] [] .nil) :=
  ⟨[], rfl, rfl, rfl, rfl⟩

lemma file_named : (Listing.file [0x61] [] .nil).Named :=
  ⟨⟨List.cons_ne_nil _ _, by norm_num, by decide⟩, trivial⟩

/-- Its archive is made. -/
lemma fileHost_image : ∃ fuel, safMake fileHost fuel [] = .ok (archive (.file [0x61] [] .nil)) := by
  have hsmall : (archive (.file [0x61] [] .nil)).length < 2 ^ 32 := by
    rw [length_archive]
    decide
  have hfits : FitsTree fileHost [] (.file [0x61] [] .nil) := by
    refine ⟨fun res hres => ?_, by decide, trivial⟩
    obtain rfl := Option.some.inj hres
    decide
  obtain ⟨image, hmake⟩ := safMake_returns fileHost_presents hsmall hfits
  exact ⟨_, (safMake_archive fileHost_presents hmake).1 ▸ hmake⟩

/-- A ramfs with a file `a` in its root. -/
def fileRamfs : Mem :=
  writeWord (writeWord (writeWord (storeBytes (fun _ => 0) 0x2000 [0x61]) (0x2000 + 92) nodeFile)
    (0x1000 + 92) nodeDir) (0x1000 + 96) 0x2000

/-- The file is looked up in a ramfs, where it is found, and in an archive. -/
theorem lookups_walk_directories_file : RamfsLooksUp fileRamfs 0x1000 [0x61] ∧
    ramfsFind fileRamfs [0x61] 0x1000 = .ok 0x2000 ∧
      ∃ m base, Holds m base (archive (.file [0x61] [] .nil)) ∧
        InitrdLooksUp m base (.file [0x61] [] .nil) [0x61] := by
  have hcomp : components [0x61] = [[0x61]] := by decide
  obtain ⟨hramfs, hinitrd⟩ := @lookups_walk_directories_iff [0x61] (by decide) (by decide)
  rw [hcomp] at hramfs hinitrd
  refine ⟨?_, by decide +kernel, ?_⟩
  · have hroot : ramfsType fileRamfs 0x1000 = nodeDir := by decide +kernel
    exact (hramfs _ _).mpr (Tree.before_cons.mpr ⟨.inl hroot, fun c _ _ => Tree.before_nil⟩)
  · obtain ⟨fuel, hmake⟩ := fileHost_image
    have hwrap : 0x1000 + (archive (.file [0x61] [] .nil)).length ≤ 2 ^ 32 := by
      rw [length_archive]
      decide
    refine ⟨store (fun _ => 0) 0x1000 (archive (.file [0x61] [] .nil)), 0x1000, holds_store, ?_⟩
    refine (hinitrd _ _ fuel _ _ fileHost_presents file_named hmake _ _ (by norm_num) hwrap
      holds_store).mpr ?_
    exact Tree.before_cons.mpr ⟨rfl, fun c _ _ => Tree.before_nil⟩

/-! ### A file in a ramfs -/

section Machine

variable {fs : RamfsTree} {k k₁ k₂ k' : Kernel} {bytes : Mem} {p q r node file data x : ℕ}
  {name : List UInt8} {c : UInt8} {childs : ℕ → ℕ}

/-- A byte off the page at an address. -/
def OffPage (p x : ℕ) : Prop := x < p ∨ p + 0x1000 ≤ x

/-- Two pages do not meet. -/
def PagesApart (p q : ℕ) : Prop := p + 0x1000 ≤ q ∨ q + 0x1000 ≤ p

lemma PagesApart.symm (h : PagesApart p q) : PagesApart q p := Or.symm h

lemma PagesApart.offPage (h : PagesApart p q) (h1 : p ≤ x) (h2 : x < p + 0x1000) : OffPage q x := by
  rw [OffPage]
  rcases h with h | h <;> omega

/-- A node stays when another page is written. -/
lemma RamfsNodeAt.offPage {m' : Mem} {type : ℕ} (h : RamfsNodeAt m p name type childs)
    (hapart : PagesApart p q) (heq : ∀ x, OffPage q x → m' x = m x) :
    RamfsNodeAt m' p name type childs := h.congr fun x h1 h2 => heq x (hapart.offPage h1 h2)

/-- The root of a ramfs that was mounted. -/
lemma getRamfs_root (bytes : Mem) (hmount : vmmAlloc k 1 = .ok (k₁, p))
    (hroot : vmmAlloc k₁ 1 = .ok (k₂, q)) (hp : p + 0x1000 < 2 ^ 32) (hq : q + 0x1000 < 2 ^ 32) :
    ∃ bytes', RamfsTree.getRamfs k bytes = .ok ⟨k₂, bytes', p, q⟩ ∧
      RamfsNodeAt bytes' q [] nodeDir (fun _ => 0) ∧
      ∀ x, OffPage p x → OffPage q x → bytes' x = bytes x := by
  refine ⟨writeWord (memset (memset bytes p 0 0x1000) q 0 0x1000) (q + 92) nodeDir, ?_, ?_,
    fun x h1 h2 => ?_⟩
  · rw [RamfsTree.getRamfs, hmount, ok_bind]
    dsimp only
    rw [hroot]
    rfl
  · exact RamfsNodeAt.create _ hq (by norm_num) List.not_mem_nil (by norm_num [nodeDir])
  · rw [OffPage] at h2
    rw [writeWord_of_disjoint _ _ (by omega), memset_of_disjoint hq h2, memset_of_disjoint hp h1]

/-- The child in the first slot is found. -/
lemma ramfsFindName_first {type : ℕ} {buffer : List UInt8}
    (h : RamfsNodeAt m p name type (Function.update childs 0 q)) (hq : q ≠ 0)
    (hname : HasName m q buffer) (hshort : ShortName buffer) :
    ramfsFindName m p buffer = .ok (some q) := by
  have hslot : ramfsChild m p 0 = q := h.child 0 (by decide)
  rw [ramfsFindName_eq hshort, ramfsTree_child (by decide) (hslot ▸ hq) (hslot ▸ hname)
    (fun j hj => absurd hj (Nat.not_lt_zero j)), hslot]

/-- In an empty root nothing is found. -/
lemma ramfsFind_empty (h : RamfsNodeAt m p name nodeDir fun _ => 0)
    (hcomp : components path = [[c]]) (hc : c ≠ 0) : ramfsFind m path p = .ok 0 := by
  have hshort : ShortName [c] := ⟨by norm_num, by simpa using hc.symm⟩
  rw [ramfsFind_eq, hcomp, find_cons_none (NoChildren.find (fun i hi => h.child i hi) hshort)]
  rfl

/-- A path of one letter has one component. -/
lemma components_single (hslash : c ≠ 0x2f) : components [0x2f, c] = [[c]] := by
  rw [components_slash, components_copyUntil hslash, copyUntil, if_neg hslash]
  rfl

/-- The empty path leads to the node where it starts. -/
lemma ramfsFind_nil (m : Mem) (p : ℕ) : ramfsFind m [] p = .ok p := by
  rw [ramfsFind_eq]
  rfl

/-- A path of one name behind a slash. -/
lemma ramfsSplitPath_single (hslash : c ≠ 0x2f) : ramfsSplitPath [0x2f, c] = .ok ([], [c]) := by
  have hloop : splitLoop none [0x2f, c] = .ok (some [c]) := by
    simp [splitLoop, copyUntil, hslash]
  rw [ramfsSplitPath, hloop]
  rfl

/-- **A file is created** in an empty root. -/
lemma ramfsTouch_first (fs : RamfsTree) (hroot : RamfsNodeAt fs.bytes fs.root [] nodeDir fun _ => 0)
    (hne : fs.root ≠ 0) (halloc : vmmAlloc fs.kernel 1 = .ok (k', p)) (hp : p + 0x1000 < 2 ^ 32)
    (hapart : PagesApart fs.root p) (hc : c ≠ 0) (hslash : c ≠ 0x2f) :
    ∃ bytes', ramfsTouch fs [0x2f, c] = .ok { fs with kernel := k', bytes := bytes' } ∧
      RamfsNodeAt bytes' fs.root [] nodeDir (Function.update (fun _ => 0) 0 p) ∧
      RamfsNodeAt bytes' p [c] nodeFile (fun _ => 0) ∧
      ∀ x, OffPage fs.root x → OffPage p x → bytes' x = fs.bytes x := by
  set m := storeBytes (writeWord (memset fs.bytes p 0 0x1000) (p + 92) nodeFile) p [c] with hm
  have hframe : ∀ x, OffPage p x → m x = fs.bytes x := by
    intro x hx
    rw [OffPage] at hx
    rw [hm, storeBytes_of_disjoint (by rw [List.length_singleton]; omega)
      (by rw [List.length_singleton]; omega), writeWord_of_disjoint _ _ (by omega),
      memset_of_disjoint hp hx]
  have hroot' : RamfsNodeAt m fs.root [] nodeDir fun _ => 0 := hroot.offPage hapart hframe
  have hlink : ∀ x, OffPage fs.root x → writeWord m (fs.root + (96 + 4 * 0)) p x = m x := by
    intro x hx
    rw [OffPage] at hx
    exact writeWord_of_disjoint _ _ (by omega)
  refine ⟨writeWord m (fs.root + (96 + 4 * 0)) p, ?_, ?_, ?_, fun x h1 h2 => ?_⟩
  · have hslot : freeSlot fs.bytes fs.root childSlots 0 = some 0 := by
      change freeSlot fs.bytes fs.root (999 + 1) 0 = some 0
      rw [freeSlot, if_pos (hroot.child 0 (by decide))]
    have hdir : ¬(fs.root = 0 ∨ ramfsType fs.bytes fs.root ≠ nodeDir) :=
      not_or.mpr ⟨hne, not_not.mpr hroot.type⟩
    rw [ramfsTouch, ramfsCreate, ramfsFind_empty hroot (components_single hslash) hc, ok_bind,
      if_neg (not_not.mpr rfl), ramfsSplitPath_single hslash, ok_bind]
    dsimp only
    rw [ramfsFind_nil, ok_bind, if_neg hdir, hslot]
    dsimp only
    rw [halloc]
    rfl
  · exact hroot'.link (by decide) (by omega)
  · refine (RamfsNodeAt.create fs.bytes hp ?_ ?_ ?_).offPage hapart.symm hlink
    · norm_num
    · simpa using hc.symm
    · norm_num [nodeFile]
  · rw [hlink x h1, hframe x h2]

/-- **A file is opened.** -/
lemma ramfsOpen_file (fs : RamfsTree) (hfind : ramfsFind fs.bytes path fs.root = .ok node)
    (hne : node ≠ 0) (hnode : RamfsNodeAt fs.bytes node name nodeFile childs)
    (halloc : vmmAlloc fs.kernel 1 = .ok (k', p)) (hp : p + 0x1000 < 2 ^ 32) :
    ∃ bytes', ramfsOpen fs path = .ok ({ fs with kernel := k', bytes := bytes' }, p) ∧
      readWord (view bytes' p) 8 = node ∧ ∀ x, OffPage p x → bytes' x = fs.bytes x := by
  set m := writeWord fs.bytes p fs.mount with hm
  have hnodelt : node < 2 ^ 32 := lt_of_le_of_lt (Nat.le_add_right node 0x1000) hnode.page
  refine ⟨writeWord (writeWord m (p + 524) (ramfsFsize m node)) (p + 8) node, ?_, ?_,
    fun x hx => ?_⟩
  · have hfile : ¬(node = 0 ∨ ramfsType fs.bytes node ≠ nodeFile) :=
      not_or.mpr ⟨hne, not_not.mpr hnode.type⟩
    rw [ramfsOpen, hfind, ok_bind, if_neg hfile, halloc]
    rfl
  · rw [readWord_view (by omega), readWord_writeWord, wrap32_of_lt hnodelt]
  · rw [OffPage] at hx
    rw [writeWord_of_disjoint _ _ (by omega), writeWord_of_disjoint _ _ (by omega), hm,
      writeWord_of_disjoint _ _ (by omega)]

/-- **A file gets its first page**, for two bytes. -/
lemma ramfsWrite_first {b : UInt8} (fs : RamfsTree) (hfile : readWord (view fs.bytes file) 8 = node)
    (hnode : RamfsNodeAt fs.bytes node name nodeFile fun _ => 0)
    (hapart : PagesApart node file)
    (halloc : vmmAlloc fs.kernel 1 = .ok (k', p)) (hp : p + 0x1000 < 2 ^ 32)
    (hpnode : PagesApart node p) :
    ∃ bytes', ramfsWrite fs file [b, 0] 0 = .ok { fs with kernel := k', bytes := bytes' } ∧
      RamfsNodeAt bytes' node name nodeFile
        (Function.update (Function.update (fun _ => 0) 1 p) 0 2) ∧
      (b ≠ 0 → IsString (view bytes' p) [b]) ∧
      ∀ x, OffPage node x → OffPage file x → OffPage p x → bytes' x = fs.bytes x := by
  have hnodepage := hnode.page
  set m₁ := writeWord (writeWord fs.bytes (node + (96 + 4 * 1)) p) (node + (96 + 4 * 0)) 2 with hm₁
  have hgrown : RamfsNodeAt m₁ node name nodeFile
      (Function.update (Function.update (fun _ => 0) 1 p) 0 2) :=
    (hnode.link (by decide) (by omega)).link (by decide) (by norm_num)
  set m₂ := writeWord m₁ (file + 524) (ramfsFsize m₁ node) with hm₂
  -- the three stores: the node's fields, the size in the handle, and the text
  have hframe₁ : ∀ x, OffPage node x → m₁ x = fs.bytes x := by
    intro x hx
    rw [OffPage] at hx
    rw [hm₁, writeWord_of_disjoint _ _ (by omega), writeWord_of_disjoint _ _ (by omega)]
  have hframe₂ : ∀ x, OffPage file x → m₂ x = m₁ x := by
    intro x hx
    rw [OffPage] at hx
    exact writeWord_of_disjoint _ _ (by omega)
  have hnode₂ := hgrown.offPage hapart hframe₂
  have hframe₃ : ∀ x, OffPage p x → storeBytes m₂ p [b, 0] x = m₂ x := by
    intro x hx
    rw [OffPage] at hx
    have hlength : [b, 0].length = 2 := rfl
    exact storeBytes_of_disjoint (by omega) (by omega)
  refine ⟨storeBytes m₂ p [b, 0], ?_, hnode₂.offPage hpnode hframe₃, fun hb => ⟨?_, ?_⟩,
    fun x h1 h2 h3 => ?_⟩
  · -- the file had no page, so the write takes one
    have hgrow : ramfsGrow fs node (wrap32 (0 + [b, 0].length)) =
        .ok { fs with kernel := k', bytes := m₁ } := by
      have hlen : wrap32 (0 + [b, 0].length) = 2 := by norm_num [wrap32]
      have hpages : pagesOf 2 = 1 := by norm_num [pagesOf]
      rw [ramfsGrow, ramfsFsize, ramfsFdata, hnode.child 0 (by decide), hnode.child 1 (by decide),
        hlen, if_pos (by decide), resizeBytes, vmmResize_bytes, if_pos rfl, hpages, halloc]
      rfl
    have hfdata : wrap32 (ramfsFdata m₂ node + 0) = p := by
      rw [ramfsFdata, hnode₂.child 1 (by decide), Nat.add_zero, wrap32_of_lt]
      · rfl
      · change p < 2 ^ 32
        omega
    rw [ramfsWrite, hfile]
    dsimp only
    rw [hgrow, ok_bind]
    dsimp only
    rw [← hm₂, hfdata]
    rfl
  · simpa using hb.symm
  · intro i a ha
    have hi : i < 2 := (List.getElem?_eq_some_iff.mp ha).1
    have hlength : [b, 0].length = 2 := rfl
    rw [Nat.zero_add, view_of_lt (by omega)]
    exact holds_storeBytes (by omega) i a ha
  · rw [hframe₃ x h3, hframe₂ x h2, hframe₁ x h1]

end Machine

/-- A ramfs on the machine with a file `a`: its contents are the string `b`, and the page of the
null pointer is as it was. -/
lemma file_in_ramfs : ∃ s file data,
    Reachable (RamfsSession.Started bootLayout.poolFrame) RamfsCall s ∧ file ≠ 0 ∧ data ≠ 0 ∧
      RamfsNodeAt s.fs.bytes s.fs.root [] nodeDir (Function.update (fun _ => 0) 0 file) ∧
      RamfsNodeAt s.fs.bytes file [0x61] nodeFile
        (Function.update (Function.update (fun _ => 0) 1 data) 0 2) ∧
      IsString (view s.fs.bytes data) [0x62] ∧ s.fs.bytes 2 = 0 := by
  obtain ⟨k₀, h₀⟩ := machine_handedOut
  -- the pages of the mount, the root, the node, the handle and the contents
  obtain ⟨k₁, M, hM, hMlt, hMnew, h₁⟩ := h₀.next
  obtain ⟨k₂, R, hR, hRlt, hRnew, h₂⟩ := h₁.next
  obtain ⟨k₃, C, hC, hClt, hCnew, h₃⟩ := h₂.next
  obtain ⟨k₄, F, hF, hFlt, hFnew, h₄⟩ := h₃.next
  obtain ⟨k₅, D, hD, hDlt, hDnew, -⟩ := h₄.next
  simp only [List.mem_cons, List.not_mem_nil, or_false, not_or] at hMnew hRnew hCnew hFnew hDnew
  have happart : ∀ {f g : ℕ}, f ≠ g → PagesApart (f * 0x1000) (g * 0x1000) := by
    intro f g hne
    rw [PagesApart]
    omega
  have hnull : ∀ {f : ℕ}, f ≠ 0 → OffPage (f * 0x1000) 2 := by
    intro f hne
    rw [OffPage]
    omega
  have hR0 : R * 0x1000 ≠ 0 := Nat.mul_ne_zero hRnew.2 (by norm_num)
  have hC0 : C * 0x1000 ≠ 0 := Nat.mul_ne_zero hCnew.2.2 (by norm_num)
  obtain ⟨m₁, hget, hroot₁, hkeep₁⟩ :=
    getRamfs_root (fun _ => 0) hM hR (by omega) (by omega)
  obtain ⟨m₂, htouch, hroot₂, hnode₂, hkeep₂⟩ :=
    ramfsTouch_first (c := 0x61) ⟨k₂, m₁, M * 0x1000, R * 0x1000⟩ hroot₁ hR0 hC (by omega)
      (happart (Ne.symm hCnew.1)) (by decide) (by decide)
  have hchild : ramfsFindName m₂ (R * 0x1000) [0x61] = .ok (some (C * 0x1000)) :=
    ramfsFindName_first hroot₂ hC0 ⟨[0x61], hnode₂.name, rfl⟩ (by decide)
  have hfind : ramfsFind m₂ [0x2f, 0x61] (R * 0x1000) = .ok (C * 0x1000) := by
    rw [ramfsFind_eq, components_single (by decide), find_cons_some hchild]
    rfl
  obtain ⟨m₃, hopen, hfile, hkeep₃⟩ :=
    ramfsOpen_file ⟨k₃, m₂, M * 0x1000, R * 0x1000⟩ hfind hC0 hnode₂ hF (by omega)
  have hroot₃ := hroot₂.offPage (happart (Ne.symm hFnew.2.1)) hkeep₃
  have hnode₃ := hnode₂.offPage (happart (Ne.symm hFnew.1)) hkeep₃
  obtain ⟨m₄, hwrite, hnode₄, hdata, hkeep₄⟩ :=
    ramfsWrite_first (b := 0x62) ⟨k₄, m₃, M * 0x1000, R * 0x1000⟩ hfile hnode₃
      (happart (Ne.symm hFnew.1)) hD (by omega) (happart (Ne.symm hDnew.2.1))
  refine ⟨⟨⟨k₅, m₄, M * 0x1000, R * 0x1000⟩, [F * 0x1000]⟩, C * 0x1000, D * 0x1000, ?_, hC0,
    Nat.mul_ne_zero hDnew.2.2.2.2 (by norm_num), ?_, hnode₄, hdata (by decide), ?_⟩
  · have hstart : Reachable (RamfsSession.Started bootLayout.poolFrame) RamfsCall
        ⟨⟨k₂, m₁, M * 0x1000, R * 0x1000⟩, []⟩ :=
      .start ⟨rfl, k₀, fun _ => 0, h₀.inv, h₀.used 0 h₀.null, hget⟩
    have hF0 : F * 0x1000 ≠ 0 := Nat.mul_ne_zero hFnew.2.2.2 (by norm_num)
    exact ((hstart.next (.touch (by decide) htouch)).next (.open_ (by decide) hopen hF0)).next
      (.write List.mem_cons_self (by norm_num) hwrite)
  · exact hroot₃.congr fun x h1 h2 => hkeep₄ x
      ((happart (Ne.symm hCnew.1)).offPage h1 h2) ((happart (Ne.symm hFnew.2.1)).offPage h1 h2)
      ((happart (Ne.symm hDnew.2.2.1)).offPage h1 h2)
  · calc m₄ 2 = m₃ 2 := hkeep₄ 2 (hnull hCnew.2.2) (hnull hFnew.2.2.2) (hnull hDnew.2.2.2.2)
      _ = m₂ 2 := hkeep₃ 2 (hnull hFnew.2.2.2)
      _ = m₁ 2 := hkeep₂ 2 (hnull hRnew.2) (hnull hCnew.2.2)
      _ = 0 := hkeep₁ 2 (hnull hMnew) (hnull hRnew.2)

/-- **A name behind the name of a file.** The path `a/b`, where `a` is a file: in a ramfs that a
file was written in, `ramfs_find` returns the contents of the file, which are the string `b`; in an
initrd, `initrd_find` fails an assertion. -/
theorem lookup_through_file :
    (∃ s p, Reachable (RamfsSession.Started bootLayout.poolFrame) RamfsCall s ∧ p ≠ 0 ∧
      (ramfsTree s.fs.bytes).lookup s.fs.root (components [0x61, 0x2f, 0x62]) = none ∧
      ramfsFind s.fs.bytes [0x61, 0x2f, 0x62] s.fs.root = .ok p) ∧
    ∃ host input fuel image m base, safMake host fuel input = .ok image ∧ 0 < base ∧
      base + image.length ≤ 2 ^ 32 ∧ Holds m base image ∧
      initrdFind m base [0x61, 0x2f, 0x62] base = .error .abort := by
  have hcomp : components [0x61, 0x2f, 0x62] = [[0x61], [0x62]] := by decide
  constructor
  · obtain ⟨s, file, data, hreach, hfile, hdata, hroot, hnode, hstring, hnull⟩ := file_in_ramfs
    have hfirst : ramfsFindName s.fs.bytes s.fs.root [0x61] = .ok (some file) :=
      ramfsFindName_first hroot hfile ⟨[0x61], hnode.name, rfl⟩ (by decide)
    -- the size is no pointer to a name, but the contents are one
    have hsize : ramfsChild s.fs.bytes file 0 = 2 := hnode.child 0 (by decide)
    have hfdata : ramfsChild s.fs.bytes file 1 = data := hnode.child 1 (by decide)
    have hnoname : ¬HasName s.fs.bytes 2 [0x62] := by
      rintro ⟨name, hname, hsame⟩
      have hlength := hsame.length_eq
      cases name with
      | nil => exact absurd hlength (by decide)
      | cons c name =>
        have hc : view s.fs.bytes 2 0 = c := hname.holds 0 c rfl
        rw [view_of_lt (by norm_num), Nat.add_zero, hnull] at hc
        exact hname.zero_notMem (by simp [← hc])
    have hsecond : ramfsFindName s.fs.bytes file [0x62] = .ok (some data) := by
      rw [ramfsFindName_eq (by decide), ramfsTree_child (i := 1) (by decide) (hfdata ▸ hdata)
        (hfdata ▸ ⟨[0x62], hstring, rfl⟩) fun j hj => ?_, hfdata]
      obtain rfl : j = 0 := by omega
      exact .inr (hsize ▸ hnoname)
    refine ⟨s, data, hreach, hdata, ?_, ?_⟩
    · have hdir : (ramfsTree s.fs.bytes).isDir s.fs.root := ramfsTree_isDir.mpr hroot.type
      have hno : ¬(ramfsTree s.fs.bytes).isDir file := by
        refine fun h => absurd (hnode.type.symm.trans (ramfsTree_isDir.mp h)) ?_
        decide
      have hchild : (ramfsTree s.fs.bytes).child s.fs.root [0x61] = some file :=
        Except.ok.inj ((ramfsFindName_eq (by decide)).symm.trans hfirst)
      rw [hcomp, Tree.lookup_cons hdir, hchild, Option.bind_some, Tree.lookup, if_neg hno]
    · rw [ramfsFind_eq, hcomp, find_cons_some hfirst, find_cons_some hsecond]
      rfl
  · obtain ⟨fuel, hmake⟩ := fileHost_image
    have hwrap : 0x1000 + (archive (.file [0x61] [] .nil)).length ≤ 2 ^ 32 := by
      rw [length_archive]
      decide
    have hm : Holds (store (fun _ => 0) 0x1000 (archive (.file [0x61] [] .nil))) 0x1000
        (archive (.file [0x61] [] .nil)) := holds_store
    refine ⟨fileHost, [], fuel, _, _, 0x1000, hmake, by norm_num, hwrap, hm, ?_⟩
    have hbound : (archive (.file [0x61] [] .nil)).length < 2 ^ 32 := by omega
    have hlookup : Node.tree.lookup (.folder (.file [0x61] [] .nil)) [[0x61]] = some (.file []) :=
      rfl
    obtain ⟨p, hp, hgo⟩ := find_append (initrd_simulates hbound) (sits_root file_named hwrap hm)
      (by simp [ShortName]) hlookup
    have habort := initrd_asked_file hp (by decide) (k := [0x62]) (by decide) []
    rw [initrdFind_eq, hcomp]
    exact congrArg (fun r => (fun x : Option ℕ => x.getD 0) <$> r) ((hgo [[0x62]]).trans habort)

end MicroOS
