import MicroOS.FileSystem.Paths

/-!
SAF archives, `saf.h`.

* `Listing`, `Node`: a directory tree, in the order in which `dir_at` reports it; `Node.Path` says
  where the names of a path lead;
* `Listing.image`: the nodes of a folder in an archive, with the offsets that they refer to each
  other by; `archive` is the whole of it;
* `Node.At`: a node stands in an image, and what its fields are then;
* `Listing.node_at`: every child of a folder stands where its offset says.
-/

namespace MicroOS

open ByteImage

/-! ### Directory trees -/

/-- What is in a folder, in order: files with their contents, and folders. -/
inductive Listing where
  | nil
  | file (name data : List UInt8) (rest : Listing)
  | folder (name : List UInt8) (children rest : Listing)

/-- A file or a folder. -/
inductive Node where
  | file (data : List UInt8)
  | folder (children : Listing)

namespace Listing

/-- The children with their names. -/
def entries : Listing → List (List UInt8 × Node)
  | nil => []
  | file name data rest => (name, .file data) :: rest.entries
  | folder name children rest => (name, .folder children) :: rest.entries

/-- The number of children. -/
def count (l : Listing) : ℕ := l.entries.length

/-- A name that the archive can have: not empty, at most 127 bytes, without a zero or a slash. -/
structure GoodName (name : List UInt8) : Prop where
  ne_nil : name ≠ []
  length_le : name.length ≤ 127
  no_zero : 0 ∉ name
  no_slash : 0x2f ∉ name

/-- All names are good, and those in a folder are different up to ASCII case. -/
def WellNamed : Listing → Prop
  | nil => True
  | file name _ rest =>
    GoodName name ∧ (∀ e ∈ rest.entries, ¬SameName name e.1) ∧ rest.WellNamed
  | folder name children rest =>
    GoodName name ∧ (∀ e ∈ rest.entries, ¬SameName name e.1) ∧ children.WellNamed ∧ rest.WellNamed

/-- All names are such that `dir_at` can report them. -/
def Named : Listing → Prop
  | nil => True
  | file name _ rest => DirName name ∧ rest.Named
  | folder name children rest => DirName name ∧ children.Named ∧ rest.Named

end Listing

namespace Node

/-- `dir_t.type` of a node. -/
def type : Node → EntryType
  | file _ => .file
  | folder _ => .dir

/-- **Where a path leads**: the names of a path, which may differ in ASCII case, from a node on. -/
inductive Path : Node → List (List UInt8) → Node → Prop
  | here {node : Node} : Path node [] node
  | down {children : Listing} {name name' : List UInt8} {child node : Node}
      {path : List (List UInt8)} (entry : (name', child) ∈ children.entries)
      (same : SameName name name') (rest : Path child path node) :
      Path (.folder children) (name :: path) node

/-- The names under a node are good. -/
def WellNamed : Node → Prop
  | file _ => True
  | folder children => children.WellNamed

/-- `dir_at` can report the names under a node. -/
def Named : Node → Prop
  | file _ => True
  | folder children => children.Named

/-- **The tree of an archive**: a name leads to the first child whose name is the same up to ASCII
case. -/
def tree : Lookup.Tree Node (List UInt8) where
  isDir
    | file _ => false
    | folder _ => true
  child
    | file _, _ => none
    | folder children, name => (children.entries.find? fun e => SameName name e.1).map (·.2)

end Node

/-! ### The format -/

/-- `MAGIC_NUMBER`. -/
def magicNumber : ℕ := 0x766863726c706d73

/-- `FLAG_ISFOLDER`. -/
def flagIsfolder : ℕ := 1

/-- `sizeof(saf_node_file_t)`. -/
def fileNodeSize : ℕ := 296

/-- `sizeof(saf_node_folder_t)` with room for `n` children. -/
def folderNodeSize (n : ℕ) : ℕ := 288 + 8 * n

/-- `char name[256]`. -/
def nameField (name : List UInt8) : List UInt8 := (List.range 256).map fun i => name.getD i 0

/-- `saf_node_hdr_t`. -/
def hdrImage (len : ℕ) (name : List UInt8) (flags : ℕ) : List UInt8 :=
  leBytes 8 magicNumber ++ (leBytes 8 len ++ (nameField name ++ leBytes 8 flags))

/-- `saf_node_file_t` at an offset, and the contents behind it. -/
def fileImage (name data : List UInt8) (off : ℕ) : List UInt8 :=
  hdrImage fileNodeSize name 0 ++
    (leBytes 8 data.length ++ (leBytes 8 (off + fileNodeSize) ++ data))

/-- `saf_node_folder_t`, and the nodes of the children behind it. -/
def folderImage (name : List UInt8) (offsets : List ℕ) (children : List UInt8) : List UInt8 :=
  hdrImage (folderNodeSize offsets.length) name flagIsfolder ++
    (leBytes 8 offsets.length ++ (leWords offsets ++ children))

namespace Listing

/-- The bytes that the nodes of a folder take, with all that is under them. -/
def size : Listing → ℕ
  | nil => 0
  | file _ data rest => fileNodeSize + data.length + rest.size
  | folder _ children rest => folderNodeSize children.count + children.size + rest.size

/-- The offsets of the nodes, when the first is at `off`. -/
def offsets : Listing → ℕ → List ℕ
  | nil, _ => []
  | file _ data rest, off => off :: rest.offsets (off + (fileNodeSize + data.length))
  | folder _ children rest, off =>
    off :: rest.offsets (off + (folderNodeSize children.count + children.size))

/-- **The nodes of a folder in an archive**, the first of them at `off`. -/
def image : Listing → ℕ → List UInt8
  | nil, _ => []
  | file name data rest, off =>
    fileImage name data off ++ rest.image (off + (fileNodeSize + data.length))
  | folder name children rest, off =>
    folderImage name (children.offsets (off + folderNodeSize children.count))
        (children.image (off + folderNodeSize children.count)) ++
      rest.image (off + (folderNodeSize children.count + children.size))

end Listing

/-- **The archive of a tree.** Its root is a folder without a name. -/
def archive (l : Listing) : List UInt8 :=
  folderImage [] (l.offsets (folderNodeSize l.count)) (l.image (folderNodeSize l.count))

/-! ### Sizes -/

variable {a : ℕ → UInt8} {off i : ℕ} {name : List UInt8} {l : Listing} {node : Node}

@[simp] lemma length_nameField (name : List UInt8) : (nameField name).length = 256 := by
  rw [nameField, List.length_map, List.length_range]

@[simp] lemma length_hdrImage (len : ℕ) (name : List UInt8) (flags : ℕ) :
    (hdrImage len name flags).length = 280 := by
  simp [hdrImage]

/-- A file takes its header and its bytes. -/
@[simp] lemma length_fileImage (name data : List UInt8) (off : ℕ) :
    (fileImage name data off).length = fileNodeSize + data.length := by
  simp only [fileImage, List.length_append, length_hdrImage, length_leBytes, fileNodeSize]
  omega

/-- A folder takes its header, its offsets and its children. -/
@[simp] lemma length_folderImage (name : List UInt8) (offsets : List ℕ) (children : List UInt8) :
    (folderImage name offsets children).length =
      folderNodeSize offsets.length + children.length := by
  simp only [folderImage, List.length_append, length_hdrImage, length_leBytes, length_leWords,
    folderNodeSize]
  omega

namespace Listing

@[simp] lemma count_nil : nil.count = 0 := rfl

@[simp] lemma count_file (name data : List UInt8) (rest : Listing) :
    (file name data rest).count = rest.count + 1 := rfl

@[simp] lemma count_folder (name : List UInt8) (children rest : Listing) :
    (folder name children rest).count = rest.count + 1 := rfl

/-- There is an offset for each entry. -/
@[simp] lemma length_offsets (l : Listing) (off : ℕ) : (l.offsets off).length = l.count := by
  induction l generalizing off with
  | nil => rfl
  | file name data rest ih => rw [offsets, List.length_cons, ih, count_file]
  | folder name children rest _ ih => rw [offsets, List.length_cons, ih, count_folder]

/-- The image of a listing has its size. -/
@[simp] lemma length_image (l : Listing) (off : ℕ) : (l.image off).length = l.size := by
  induction l generalizing off with
  | nil => rfl
  | file name data rest ih => rw [image, List.length_append, length_fileImage, ih, size]
  | folder name children rest ihc ih =>
    rw [image, List.length_append, length_folderImage, length_offsets, ihc, ih, size]

end Listing

lemma length_archive (l : Listing) : (archive l).length = folderNodeSize l.count + l.size := by
  rw [archive, length_folderImage, Listing.length_offsets, Listing.length_image]

/-! ### Nodes in an image -/

namespace Node

/-- The bytes that a node takes, with all that is under it. -/
def size : Node → ℕ
  | file data => fileNodeSize + data.length
  | folder children => folderNodeSize children.count + children.size

/-- The flags of a node. -/
def flags : Node → ℕ
  | file _ => 0
  | folder _ => flagIsfolder

/-- **A node stands at an offset of an image.** -/
def At (a : ℕ → UInt8) (off : ℕ) (name : List UInt8) : Node → Prop
  | file data => Holds a off (fileImage name data off)
  | folder children => Holds a off (folderImage name
      (children.offsets (off + folderNodeSize children.count))
      (children.image (off + folderNodeSize children.count)))

/-- Every node has a header. -/
lemma At.hdr (h : node.At a off name) : ∃ len, Holds a off (hdrImage len name node.flags) := by
  cases node with
  | file data => exact ⟨_, (holds_append.mp h).1⟩
  | folder children => exact ⟨_, (holds_append.mp h).1⟩

/-- The flags of a node are read back from its header. -/
lemma At.flags_eq (h : node.At a off name) : leValue a (off + 272) 8 = node.flags := by
  obtain ⟨len, hhdr⟩ := h.hdr
  rw [hdrImage, holds_append, holds_append, holds_append] at hhdr
  simp only [length_leBytes, length_nameField, Nat.add_assoc] at hhdr
  refine hhdr.2.2.2.leValue ?_
  cases node <;> norm_num [flags, flagIsfolder]

/-- The name of a node, as a string. -/
lemma At.holds_name (h : node.At a off name) (hname : name.length < 256) :
    Holds a (off + 16) (name ++ [0]) := by
  obtain ⟨len, hhdr⟩ := h.hdr
  rw [hdrImage, holds_append, holds_append, holds_append] at hhdr
  simp only [length_leBytes, length_nameField, Nat.add_assoc] at hhdr
  intro i b hb
  obtain ⟨hi, -⟩ := List.getElem?_eq_some_iff.mp hb
  rw [List.length_append, List.length_singleton] at hi
  refine hhdr.2.2.1 i b ?_
  rw [nameField, List.getElem?_map, List.getElem?_range (by omega), Option.map_some,
    List.getD_eq_getElem?_getD]
  rw [List.getElem?_append] at hb
  split_ifs at hb with hlt
  · rw [hb]
    rfl
  · rw [show i - name.length = 0 by omega] at hb
    rw [List.getElem?_eq_none (not_lt.mp hlt)]
    exact hb

/-- The fields of a file. -/
lemma At.file {data : List UInt8} (h : (Node.file data).At a off name)
    (hsize : off + (Node.file data).size < 2 ^ 32) :
    leValue a (off + 280) 8 = data.length ∧ leValue a (off + 288) 8 = off + fileNodeSize ∧
      Holds a (off + fileNodeSize) data := by
  rw [At, fileImage, holds_append, holds_append, holds_append] at h
  simp only [length_hdrImage, length_leBytes, Nat.add_assoc] at h
  rw [size] at hsize
  exact ⟨h.2.1.leValue (by omega), h.2.2.1.leValue (by omega), h.2.2.2⟩

/-- The fields of a folder. -/
lemma At.folder {children : Listing} (h : (Node.folder children).At a off name)
    (hsize : off + (Node.folder children).size < 2 ^ 32) :
    leValue a (off + 280) 8 = children.count ∧
      Holds a (off + 288) (leWords (children.offsets (off + folderNodeSize children.count))) ∧
      Holds a (off + folderNodeSize children.count)
        (children.image (off + folderNodeSize children.count)) := by
  rw [At, folderImage, holds_append, holds_append, holds_append] at h
  simp only [length_hdrImage, length_leBytes, length_leWords, Listing.length_offsets,
    Nat.add_assoc] at h
  have hpos : 280 + (8 + 8 * children.count) = folderNodeSize children.count := by
    rw [folderNodeSize]
    omega
  rw [hpos] at h
  rw [size, folderNodeSize] at hsize
  exact ⟨h.2.1.leValue (by omega), h.2.2.1, h.2.2.2⟩

end Node

/-- **Every child stands where its offset says**, and within the bytes of its folder. -/
lemma Listing.node_at (h : Holds a off (l.image off)) (hi : l.entries[i]? = some (name, node)) :
    ∃ o, (l.offsets off)[i]? = some o ∧ off ≤ o ∧ o + node.size ≤ off + l.size ∧
      node.At a o name := by
  induction l generalizing off i with
  | nil => simp [entries] at hi
  | file name' data rest ih =>
    rw [image, holds_append, length_fileImage] at h
    cases i with
    | zero =>
      obtain ⟨rfl, rfl⟩ := Prod.mk.inj (Option.some.inj hi)
      exact ⟨off, rfl, le_rfl, by rw [Node.size, size]; omega, h.1⟩
    | succ i =>
      obtain ⟨o, ho, hle, hend, hat⟩ := ih h.2 hi
      exact ⟨o, ho, by omega, by rw [size]; omega, hat⟩
  | folder name' children rest ihc ih =>
    rw [image, holds_append, length_folderImage, length_offsets, length_image] at h
    cases i with
    | zero =>
      obtain ⟨rfl, rfl⟩ := Prod.mk.inj (Option.some.inj hi)
      exact ⟨off, rfl, le_rfl, by rw [Node.size, size]; omega, h.1⟩
    | succ i =>
      obtain ⟨o, ho, hle, hend, hat⟩ := ih h.2 hi
      exact ⟨o, ho, by omega, by rw [size]; omega, hat⟩

/-- The names of the children are good, and theirs below them. -/
lemma Listing.WellNamed.child (h : l.WellNamed) (he : (name, node) ∈ l.entries) :
    GoodName name ∧ node.WellNamed := by
  induction l with
  | nil => simp [entries] at he
  | file name' data rest ih =>
    rcases List.mem_cons.mp he with heq | hrest
    · obtain ⟨rfl, rfl⟩ := Prod.mk.inj heq
      exact ⟨h.1, trivial⟩
    · exact ih h.2.2 hrest
  | folder name' children rest _ ih =>
    rcases List.mem_cons.mp he with heq | hrest
    · obtain ⟨rfl, rfl⟩ := Prod.mk.inj heq
      exact ⟨h.1, h.2.2.1⟩
    · exact ih h.2.2.2 hrest

/-- The entries of a listing with good names have good names. -/
lemma Listing.Named.child (h : l.Named) (he : (name, node) ∈ l.entries) :
    DirName name ∧ node.Named := by
  induction l with
  | nil => simp [entries] at he
  | file name' data rest ih =>
    rcases List.mem_cons.mp he with heq | hrest
    · obtain ⟨rfl, rfl⟩ := Prod.mk.inj heq
      exact ⟨h.1, trivial⟩
    · exact ih h.2 hrest
  | folder name' children rest _ ih =>
    rcases List.mem_cons.mp he with heq | hrest
    · obtain ⟨rfl, rfl⟩ := Prod.mk.inj heq
      exact ⟨h.1, h.2.1⟩
    · exact ih h.2.2 hrest

lemma Listing.GoodName.dirName (h : GoodName name) : DirName name :=
  ⟨h.ne_nil, lt_of_le_of_lt h.length_le (by norm_num), h.no_zero⟩

/-- A listing with names that can be written has names that can be asked for. -/
lemma Listing.WellNamed.named (h : l.WellNamed) : l.Named := by
  induction l with
  | nil => exact trivial
  | file name data rest ih => exact ⟨h.1.dirName, ih h.2.2⟩
  | folder name children rest ihc ih => exact ⟨h.1.dirName, ihc h.2.2.1, ih h.2.2.2⟩

/-- So has a node. -/
lemma Node.WellNamed.named (h : node.WellNamed) : node.Named := by
  cases node with
  | file data => exact trivial
  | folder children => exact Listing.WellNamed.named h

/-- No two children have the same name. -/
lemma Listing.WellNamed.pairwise (h : l.WellNamed) :
    l.entries.Pairwise fun e e' => ¬SameName e.1 e'.1 := by
  induction l with
  | nil => exact List.Pairwise.nil
  | file name' data rest ih => exact List.pairwise_cons.mpr ⟨h.2.1, ih h.2.2⟩
  | folder name' children rest _ ih => exact List.pairwise_cons.mpr ⟨h.2.1, ih h.2.2.2⟩

/-- A name leads to the one child that has it. -/
lemma Listing.WellNamed.child_eq (h : l.WellNamed) {name' : List UInt8}
    (he : (name', node) ∈ l.entries) (hsame : SameName name name') :
    Node.tree.child (.folder l) name = some node := by
  obtain ⟨i, hi, hget⟩ := List.mem_iff_getElem.mp he
  have hfind : l.entries.find? (fun e => SameName name e.1) = some (name', node) := by
    refine List.find?_eq_some_iff_getElem.mpr ⟨by simpa using hsame, i, hi, hget, fun j hj => ?_⟩
    have hdiff := List.pairwise_iff_getElem.mp h.pairwise j i (hj.trans hi) hi hj
    rw [hget] at hdiff
    simpa using fun hsame' : SameName name _ => hdiff (hsame'.symm.trans hsame)
  rw [Node.tree]
  dsimp only
  rw [hfind, Option.map_some]

/-- **A path of the tree is a lookup** in it, by short names. -/
lemma Node.Path.lookup {names : List (List UInt8)} {node' : Node} (h : node.Path names node')
    (hnames : node.WellNamed) : Node.tree.lookup node names = some node' ∧ node'.WellNamed ∧
      ∀ k ∈ names, k.length ≤ 127 := by
  induction h with
  | here => exact ⟨rfl, hnames, fun k hk => absurd hk List.not_mem_nil⟩
  | @down children name name' child node names entry same rest ih =>
    obtain ⟨hgood, hchild⟩ := Listing.WellNamed.child hnames entry
    obtain ⟨hlookup, hnames', hshort⟩ := ih hchild
    refine ⟨?_, hnames', List.forall_mem_cons.mpr ⟨?_, hshort⟩⟩
    · exact Lookup.Tree.lookup_cons_eq_some.mpr
        ⟨rfl, child, Listing.WellNamed.child_eq hnames entry same, hlookup⟩
    · rw [same.length_eq]
      exact hgood.length_le

end MicroOS
