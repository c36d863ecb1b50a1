import MicroOS.FileSystem.SafMake

/-!
The initial ramdisk, `fs/initrd.c`: the reader of SAF archives.

* `initrdFind`, `initrdOpen`, `initrdRead`, `initrdDirAt`: the calls, on the archive in memory. An
  address that is zero is null;
* `initrd_simulates`: one turn of `initrd_find` is a step of a lookup in the tree;
* `Reads`: what a user finds in an archive; `reads_archive`: every archive in memory is read so;
* `saf_round_trip`: what `saf-make` makes of a tree is read as the tree.

The path of a caller is a list of bytes without a zero. `initrd_dir_at` also makes a copy of it
that nothing reads.
-/

namespace MicroOS

open ByteMem ByteImage Checked

/-! ### The calls -/

/-- `hdr->name`. -/
def nodeName (m : Mem) (p : ℕ) : ℕ → UInt8 := fun i => view m p (16 + i)

/-- `hdr->flags`. -/
def nodeFlags (m : Mem) (p : ℕ) : ℕ := leValue (view m p) 272 8

/-- `file_node->size`. -/
def fileSize (m : Mem) (p : ℕ) : ℕ := leValue (view m p) 280 8

/-- `file_node->addr`. -/
def fileAddr (m : Mem) (p : ℕ) : ℕ := leValue (view m p) 288 8

/-- `folder_node->num_children`. -/
def numChildren (m : Mem) (p : ℕ) : ℕ := leValue (view m p) 280 8

/-- `(saf_node_hdr_t*) ((uint32_t) base + (uint32_t) folder_node->children[i])`. -/
def childAt (m : Mem) (base folder i : ℕ) : ℕ :=
  wrap32 (base + wrap32 (leValue (view m folder) (288 + 8 * i) 8))

/-- The loop of `initrd_find` over `n` children from the `i`-th on. -/
def findChild (m : Mem) (base folder : ℕ) (buffer : List UInt8) : ℕ → ℕ → Option ℕ
  | 0, _ => none
  | n + 1, i =>
    if strcasecmp buffer (nodeName m (childAt m base folder i)) = 0 then
      some (childAt m base folder i)
    else findChild m base folder buffer n (i + 1)

/-- `initrd_find` for one name: the child, if there is one. -/
def findName (m : Mem) (base current : ℕ) (buffer : List UInt8) : Except Halt (Option ℕ) :=
  -- `char buffer[128]`, with the zero at the end
  if 128 ≤ buffer.length then .error (.outOfBounds buffer.length)
  else if nodeFlags m current ≠ flagIsfolder then .error .abort
  else .ok (findChild m base current buffer (numChildren m current) 0)

/-- `initrd_find`. -/
def initrdFind (m : Mem) (base : ℕ) (path : List UInt8) (current : ℕ) : Except Halt ℕ :=
  match _ : nextName path with
  | none => .ok current
  | some (buffer, next) => do
      match ← findName m base current buffer with
      | some child => initrdFind m base next child
      | none => .ok 0
termination_by path.length
decreasing_by exact nextName_lt ‹_›

/-- `file_t`, the fields that are set. -/
structure InitrdFile where
  size : ℕ
  driverSpecificData : ℕ

/-- `initrd_open`. -/
def initrdOpen (m : Mem) (base : ℕ) (path : List UInt8) : Except Halt (Option InitrdFile) := do
  let file ← initrdFind m base path base
  if file = 0 then return none
  else if nodeFlags m file = flagIsfolder then return none
  else return some ⟨wrap32 (fileSize m file), wrap32 (base + wrap32 (fileAddr m file))⟩

/-- `initrd_read`, the bytes that are copied to the buffer of the caller. -/
def initrdRead (m : Mem) (f : InitrdFile) (size offset : ℕ) : Except Halt (List UInt8) :=
  if f.size ≥ wrap32 (offset + size) then
    .ok ((List.range size).map fun i => m (wrap32 (f.driverSpecificData + offset + i)))
  else .error .abort

/-- `initrd_dir_at`. The number of children is unsigned, of 64 bits. -/
def initrdDirAt (m : Mem) (base idx : ℕ) (path : List UInt8) : Except Halt DirT := do
  let folder ← initrdFind m base path base
  if folder = 0 then return DirT.none
  else if nodeFlags m folder ≠ flagIsfolder then return DirT.none
  else if idx > (numChildren m folder + (2 ^ 64 - 1)) % 2 ^ 64 then return DirT.none
  else
    let child := childAt m base folder idx
    let name ← strcpy (nodeName m child) 256
    return ⟨name, idx, false, if nodeFlags m child = flagIsfolder then .dir else .file⟩

/-! ### Lookups -/

variable {m : Mem} {base off i n current : ℕ} {name buffer path : List UInt8}
  {names : List (List UInt8)} {l : Listing} {node node' : Node}

/-- `initrd_find` looks up the names of the path, one after the other. -/
lemma initrdFind_eq (m : Mem) (base : ℕ) (path : List UInt8) (current : ℕ) :
    initrdFind m base path current =
      (fun r => r.getD 0) <$> Lookup.find (findName m base) current (components path) := by
  refine find_of_turn (fun path current => ?_) path current
  rw [initrdFind]
  split <;> rename_i hnext <;> exact hnext ▸ rfl

/-! ### Nodes in memory -/

/-- The fields of a node are those in the image. -/
lemma leValue_view (m : Mem) (base off f n : ℕ) :
    leValue (view m (wrap32 (base + off))) f n = leValue (view m base) (off + f) n := by
  rw [← leValue_shift]
  congr 1
  funext i
  rw [view, view, wrap32, wrap32, wrap32, Nat.mod_add_mod, Nat.add_assoc]

/-- The name of a node, in the memory from the start of the archive on. -/
lemma nodeName_view (m : Mem) (base off : ℕ) :
    nodeName m (wrap32 (base + off)) = fun i => view m base (off + 16 + i) := by
  funext i
  rw [nodeName, view, view, wrap32, wrap32, wrap32, Nat.mod_add_mod, Nat.add_assoc, Nat.add_assoc]

/-- The flags that the driver reads are those of the node. -/
lemma nodeFlags_eq (h : node.At (view m base) off name) :
    nodeFlags m (wrap32 (base + off)) = node.flags := by
  rw [nodeFlags, leValue_view]
  exact h.flags_eq

/-- The name of a node in memory, as a string. -/
lemma holds_nodeName (h : node.At (view m base) off name) (hname : name.length < 256) :
    Holds (nodeName m (wrap32 (base + off))) 0 (name ++ [0]) := by
  rw [nodeName_view, holds_shift]
  exact h.holds_name hname

/-- **A child of a folder in memory.** -/
lemma folder_child {children : Listing} (h : (Node.folder children).At (view m base) off name)
    (hsize : off + (Node.folder children).size < 2 ^ 32) {child : Node} {name' : List UInt8}
    (hi : children.entries[i]? = some (name', child)) :
    ∃ o, childAt m base (wrap32 (base + off)) i = wrap32 (base + o) ∧ off < o ∧
      o + child.size ≤ off + (Node.folder children).size ∧ child.At (view m base) o name' := by
  obtain ⟨-, hwords, himage⟩ := h.folder hsize
  obtain ⟨o, ho, hle, hend, hat⟩ := Listing.node_at himage hi
  rw [Node.size] at hsize ⊢
  have hlt : off < o := by
    rw [folderNodeSize] at hle
    omega
  refine ⟨o, ?_, hlt, by omega, hat⟩
  rw [childAt, leValue_view, ← Nat.add_assoc, hwords.word ho (by omega),
    show wrap32 o = o from wrap32_of_lt (by omega)]

/-- The loop of `initrd_find` finds nothing. -/
lemma findChild_none {folder : ℕ}
    (h : ∀ j, i ≤ j → j < i + n → strcasecmp buffer (nodeName m (childAt m base folder j)) ≠ 0) :
    findChild m base folder buffer n i = none := by
  induction n generalizing i with
  | zero => rfl
  | succ n ih =>
    rw [findChild, if_neg (h i le_rfl (by omega))]
    exact ih fun j h1 h2 => h j (by omega) (by omega)

/-- The loop of `initrd_find` finds the first child that matches. -/
lemma findChild_some {folder j : ℕ} (hij : i ≤ j) (hj : j < i + n)
    (hmatch : strcasecmp buffer (nodeName m (childAt m base folder j)) = 0)
    (h : ∀ k, i ≤ k → k < j → strcasecmp buffer (nodeName m (childAt m base folder k)) ≠ 0) :
    findChild m base folder buffer n i = some (childAt m base folder j) := by
  induction n generalizing i with
  | zero => omega
  | succ n ih =>
    rw [findChild]
    by_cases heq : i = j
    · rw [heq, if_pos hmatch]
    · rw [if_neg (h i le_rfl (by omega))]
      exact ih (by omega) (by omega) fun k h1 h2 => h k (by omega) h2

/-- The count of children that the driver reads is that of the folder. -/
lemma numChildren_eq {children : Listing} (h : (Node.folder children).At (view m base) off name)
    (hsize : off + (Node.folder children).size < 2 ^ 32) :
    numChildren m (wrap32 (base + off)) = children.count := by
  rw [numChildren, leValue_view]
  exact (h.folder hsize).1

/-- `strcasecmp` with the name of a child. -/
lemma strcasecmp_child {children : Listing} (hat : (Node.folder children).At (view m base) off name)
    (hsize : off + (Node.folder children).size < 2 ^ 32) (hnames : children.Named) {child : Node}
    {name' : List UInt8} (hbuffer : 0 ∉ buffer) (hi : children.entries[i]? = some (name', child)) :
    strcasecmp buffer (nodeName m (childAt m base (wrap32 (base + off)) i)) = 0 ↔
      SameName buffer name' := by
  obtain ⟨o, ho, -, -, hchild⟩ := folder_child hat hsize hi
  have hdir := (hnames.child (List.mem_of_getElem? hi)).1
  rw [ho]
  exact strcasecmp_eq_zero hbuffer hdir.no_zero (holds_nodeName hchild hdir.length_lt)

/-- A node of the archive at an address, before the end of the image. -/
structure Sits (m : Mem) (base bound : ℕ) (node : Node) (p : ℕ) : Prop where
  at_ : ∃ off name, p = wrap32 (base + off) ∧ node.At (view m base) off name ∧
    off + node.size ≤ bound
  names : node.Named

/-- **One turn of `initrd_find`** finds the first child that has the name. -/
lemma initrd_simulates {bound : ℕ} (hbound : bound < 2 ^ 32) :
    Lookup.Simulates Node.tree (findName m base) (Sits m base bound) ShortName := by
  rintro node p buffer ⟨⟨off, name, rfl, hat, hend⟩, hnames⟩ ⟨hshort, hzero⟩ hdir
  cases node with
  | file data => cases hdir
  | folder children =>
    have hsize : off + (Node.folder children).size < 2 ^ 32 := hend.trans_lt hbound
    have hcompare : ∀ j (hj : j < children.entries.length), strcasecmp buffer
        (nodeName m (childAt m base (wrap32 (base + off)) j)) = 0 ↔
        SameName buffer children.entries[j].1 := fun j hj =>
      strcasecmp_child hat hsize hnames hzero (List.getElem?_eq_getElem hj)
    have hlong : ¬128 ≤ buffer.length := by omega
    have hflags : ¬(Node.folder children).flags ≠ flagIsfolder := not_not.mpr rfl
    refine ⟨findChild m base (wrap32 (base + off)) buffer children.count 0, ?_, ?_⟩
    · rw [findName, if_neg hlong, nodeFlags_eq hat, if_neg hflags, numChildren_eq hat hsize]
    · change Option.Rel _ ((children.entries.find? fun e => SameName buffer e.1).map (·.2)) _
      cases hfind : children.entries.find? fun e => SameName buffer e.1 with
      | none =>
        rw [findChild_none fun j _ hj hmatch => ?_]
        · exact .none
        · rw [Nat.zero_add] at hj
          refine absurd ((hcompare j hj).mp hmatch) ?_
          simpa using List.find?_eq_none.mp hfind _ (List.getElem_mem hj)
      | some e =>
        obtain ⟨hsame, j, hj, hget, hbefore⟩ := List.find?_eq_some_iff_getElem.mp hfind
        have hcount : j < 0 + children.count := by rwa [Nat.zero_add]
        have hmatch := (hcompare j hj).mpr (by rw [hget]; simpa using hsame)
        rw [findChild_some (Nat.zero_le j) hcount hmatch fun k _ hk hmatch => ?_]
        · obtain ⟨o, ho, -, hle, hchild⟩ :=
            folder_child hat hsize (hget ▸ List.getElem?_eq_getElem hj)
          have hmem : e ∈ children.entries := hget ▸ List.getElem_mem hj
          exact .some ⟨⟨o, _, ho, hchild, hle.trans hend⟩, (hnames.child hmem).2⟩
        · have hdiff : ¬SameName buffer children.entries[k].1 := by simpa using hbefore k hk
          exact hdiff ((hcompare k (hk.trans hj)).mp hmatch)

/-! ### Walks -/

/-- A node of the archive in memory, between two bounds of the image. -/
structure Stands (m : Mem) (base off bound : ℕ) (node : Node) : Prop where
  at_ : ∃ name, node.At (view m base) off name
  names : node.WellNamed
  size : off + node.size ≤ bound

/-- A node of an archive sits at its place in the memory. -/
lemma Stands.sits {bound : ℕ} (h : Stands m base off bound node) :
    Sits m base bound node (wrap32 (base + off)) := by
  obtain ⟨name, hat⟩ := h.at_
  exact ⟨⟨off, name, rfl, hat, h.size⟩, h.names.named⟩

/-- **`initrd_find` gets to every node of the tree**, and goes on from there. -/
lemma Stands.walk {bound : ℕ} (h : Stands m base off bound node) (hpath : node.Path names node')
    (hzero : ∀ k ∈ names, 0 ∉ k) (hbound : bound < 2 ^ 32) :
    ∃ off', Stands m base off' bound node' ∧
      ∀ rest, Lookup.find (findName m base) (wrap32 (base + off)) (names ++ rest) =
        Lookup.find (findName m base) (wrap32 (base + off')) rest := by
  obtain ⟨hlookup, hnames, hshort⟩ := hpath.lookup h.names
  have hK : ∀ k ∈ names, ShortName k := fun k hk => ⟨hshort k hk, hzero k hk⟩
  obtain ⟨p, ⟨⟨off', name, rfl, hat, hend⟩, -⟩, hfind⟩ :=
    Lookup.find_append (initrd_simulates hbound) h.sits hK hlookup
  exact ⟨off', ⟨⟨name, hat⟩, hnames, hend⟩, hfind⟩

/-- **A walk along a path of the tree.** -/
lemma initrdFind_path {bound : ℕ} (hpath : node.Path (components path) node') (hzero : 0 ∉ path)
    (h : Stands m base off bound node) (hbound : bound < 2 ^ 32) :
    ∃ off', initrdFind m base path (wrap32 (base + off)) = .ok (wrap32 (base + off')) ∧
      Stands m base off' bound node' := by
  obtain ⟨off', hstands, hfind⟩ :=
    h.walk hpath (fun k hk hmem => hzero (components_subset hk hmem)) hbound
  have hend := hfind []
  rw [List.append_nil] at hend
  refine ⟨off', ?_, hstands⟩
  rw [initrdFind_eq, hend]
  rfl

/-- **A walk to a name that is not there.** -/
lemma initrdFind_missing {bound : ℕ} {parents : List (List UInt8)} {last : List UInt8}
    {children : Listing} (hpath : node.Path parents (.folder children))
    (hcomp : components path = parents ++ [last]) (hzero : 0 ∉ path)
    (hno : ∀ e ∈ children.entries, ¬SameName last e.1) (h : Stands m base off bound node)
    (hbound : bound < 2 ^ 32) :
    initrdFind m base path (wrap32 (base + off)) =
      if 128 ≤ last.length then .error (.outOfBounds last.length) else .ok 0 := by
  have hbytes : ∀ k ∈ parents ++ [last], 0 ∉ k := fun k hk hmem =>
    hzero (components_subset (hcomp ▸ hk) hmem)
  obtain ⟨off', hstands, hfind⟩ :=
    h.walk hpath (fun k hk => hbytes k (List.mem_append_left _ hk)) hbound
  rw [initrdFind_eq, hcomp, hfind]
  split_ifs with hlong
  · rw [Lookup.find_cons_error (by rw [findName, if_pos hlong])]
    rfl
  · have hlast : ShortName last := ⟨by omega, hbytes last (by simp)⟩
    have hnone : (children.entries.find? fun e => SameName last e.1) = none :=
      List.find?_eq_none.mpr fun e he => by simpa using hno e he
    obtain ⟨x, hx, hrel⟩ := initrd_simulates hbound _ _ last hstands.sits hlast rfl
    change Option.Rel _ ((children.entries.find? fun e => SameName last e.1).map (·.2)) x at hrel
    rw [hnone] at hrel
    cases hrel
    rw [Lookup.find_cons_none hx]
    rfl

/-- A file in memory is opened and read as a whole. -/
lemma initrdRead_file {data : List UInt8} (h : (Node.file data).At (view m base) off name)
    (hsize : off + (Node.file data).size < 2 ^ 32) (hne : wrap32 (base + off) ≠ 0)
    (hfind : initrdFind m base path base = .ok (wrap32 (base + off))) :
    ∃ f, initrdOpen m base path = .ok (some f) ∧ f.size = data.length ∧
      initrdRead m f f.size 0 = .ok data := by
  obtain ⟨hlength, haddr, hdata⟩ := h.file hsize
  rw [Node.size] at hsize
  have hwrap : wrap32 data.length = data.length := wrap32_of_lt (by omega)
  have haddr' : wrap32 (off + fileNodeSize) = off + fileNodeSize := wrap32_of_lt (by omega)
  have hopen : initrdOpen m base path =
      .ok (some ⟨data.length, wrap32 (base + (off + fileNodeSize))⟩) := by
    have hflags : ¬(Node.file data).flags = flagIsfolder := Nat.zero_ne_one
    rw [initrdOpen, hfind, ok_bind, if_neg hne, nodeFlags_eq h, if_neg hflags, fileSize, fileAddr,
      leValue_view, leValue_view, hlength, haddr, hwrap, haddr']
    rfl
  refine ⟨_, hopen, rfl, ?_⟩
  rw [initrdRead, Nat.zero_add, if_pos hwrap.le]
  refine congrArg Except.ok (List.ext_getElem? fun i => ?_)
  by_cases hi : i < data.length
  · rw [List.getElem?_map, List.getElem?_range hi, Option.map_some, List.getElem?_eq_getElem hi,
      ← hdata i data[i] (List.getElem?_eq_getElem hi), view, Nat.add_zero, wrap32, wrap32, wrap32,
      Nat.mod_add_mod, Nat.add_assoc]
  · rw [List.getElem?_eq_none (by simpa using hi), List.getElem?_eq_none (by simpa using hi)]

/-! ### What a user finds -/

/-- A folder in memory reports its children. -/
lemma initrdDirAt_folder {children : Listing} {idx : ℕ} {name' : List UInt8} {child : Node}
    (h : (Node.folder children).At (view m base) off name)
    (hsize : off + (Node.folder children).size < 2 ^ 32) (hnames : children.Named)
    (hne : wrap32 (base + off) ≠ 0)
    (hfind : initrdFind m base path base = .ok (wrap32 (base + off)))
    (hi : children.entries[idx]? = some (name', child)) :
    initrdDirAt m base idx path = .ok ⟨name', idx, false, child.type⟩ := by
  obtain ⟨hidx, -⟩ := List.getElem?_eq_some_iff.mp hi
  have hdir := (hnames.child (List.mem_of_getElem? hi)).1
  obtain ⟨o, ho, -, -, hchild⟩ := folder_child h hsize hi
  have hcount : children.count < 2 ^ 32 := by
    rw [Node.size, folderNodeSize] at hsize
    omega
  have hlast : ¬idx > (children.count + (2 ^ 64 - 1)) % 2 ^ 64 := by
    have hidx : idx < children.count := hidx
    omega
  have hname : strcpy (nodeName m (wrap32 (base + o))) 256 = .ok name' := by
    exact strcpy_ok hdir.ne_nil hdir.no_zero hdir.length_lt.le
      (holds_nodeName hchild hdir.length_lt)
  have hflags : ¬(Node.folder children).flags ≠ flagIsfolder := not_not.mpr rfl
  rw [initrdDirAt, hfind, ok_bind, if_neg hne, nodeFlags_eq h, if_neg hflags,
    numChildren_eq h hsize, if_neg hlast, ho]
  dsimp only
  rw [hname, ok_bind, nodeFlags_eq hchild]
  cases child <;> rfl

/-- **What a user finds in an archive**: every path of the tree leads to a node of its kind, a file
that is opened is read as a whole, a folder reports its children in their order, and a name that a
folder does not have is not found, unless it is too long for the buffer. -/
structure Reads (m : Mem) (base : ℕ) (l : Listing) : Prop where
  found : ∀ path node, 0 ∉ path → Node.Path (.folder l) (components path) node →
    ∃ p, initrdFind m base path base = .ok p ∧ p ≠ 0 ∧ nodeFlags m p = node.flags
  read : ∀ path data, 0 ∉ path → Node.Path (.folder l) (components path) (.file data) →
    ∃ f, initrdOpen m base path = .ok (some f) ∧ f.size = data.length ∧
      initrdRead m f f.size 0 = .ok data
  dirAt : ∀ path children, 0 ∉ path → Node.Path (.folder l) (components path) (.folder children) →
    ∀ idx name node, children.entries[idx]? = some (name, node) →
      initrdDirAt m base idx path = .ok ⟨name, idx, false, node.type⟩
  missing : ∀ path parents last children, 0 ∉ path → components path = parents ++ [last] →
    Node.Path (.folder l) parents (.folder children) →
    (∀ e ∈ children.entries, ¬SameName last e.1) →
    (initrdFind m base path base = .ok 0 ↔ last.length ≤ 127)

/-- The root of an archive in memory, where no address wraps. -/
lemma root_at (hwrap : base + (archive l).length ≤ 2 ^ 32) (hm : Holds m base (archive l)) :
    (Node.folder l).At (view m base) 0 [] ∧ base = wrap32 (base + 0) := by
  have hlen := length_archive l
  rw [folderNodeSize] at hlen
  constructor
  · rw [Node.At, Nat.zero_add]
    refine Holds.congr (a := fun i => m (base + i)) (holds_shift.mpr hm) fun i _ hi => ?_
    rw [Nat.zero_add] at hi
    have hlt : i < (archive l).length := hi
    rw [view, wrap32_of_lt (by omega)]
  · rw [Nat.add_zero, wrap32_of_lt (by omega)]

/-- **The archive in memory** is a folder that sits at its start. -/
lemma sits_root (hnames : l.Named) (hwrap : base + (archive l).length ≤ 2 ^ 32)
    (hm : Holds m base (archive l)) : Sits m base (archive l).length (.folder l) base := by
  obtain ⟨hat, hbase⟩ := root_at hwrap hm
  refine ⟨⟨0, [], hbase, hat, ?_⟩, hnames⟩
  rw [length_archive, Node.size, Nat.zero_add]

/-- **Every archive is read**, where no address wraps. -/
theorem reads_archive (hnames : l.WellNamed) (hpos : 0 < base)
    (hwrap : base + (archive l).length ≤ 2 ^ 32) (hm : Holds m base (archive l)) :
    Reads m base l := by
  obtain ⟨hat, hbase⟩ := root_at hwrap hm
  have hlen := length_archive l
  have hbound : (archive l).length < 2 ^ 32 := by omega
  have hroot : Stands m base 0 (archive l).length (.folder l) :=
    ⟨⟨[], hat⟩, hnames, by rw [hlen, Node.size, Nat.zero_add]⟩
  -- a walk ends at a node of the image
  have hwalk : ∀ path node, 0 ∉ path → Node.Path (.folder l) (components path) node →
      ∃ off, initrdFind m base path base = .ok (wrap32 (base + off)) ∧
        wrap32 (base + off) ≠ 0 ∧ Stands m base off (archive l).length node := by
    intro path node hzero hpath
    obtain ⟨off, hfind, hstands⟩ := initrdFind_path hpath hzero hroot hbound
    rw [← hbase] at hfind
    have hoff : base + off < 2 ^ 32 := by
      have := hstands.size
      have hsize : 0 < node.size := by cases node <;> simp [Node.size, fileNodeSize, folderNodeSize]
      omega
    refine ⟨off, hfind, ?_, hstands⟩
    rw [wrap32_of_lt hoff]
    omega
  refine ⟨fun path node hzero hpath => ?_, fun path data hzero hpath => ?_,
    fun path children hzero hpath idx name node hi => ?_,
    fun path parents last children hzero hcomp hpath hno => ?_⟩
  · obtain ⟨off, hfind, hne, ⟨name, hat⟩, -, -⟩ := hwalk path node hzero hpath
    exact ⟨_, hfind, hne, nodeFlags_eq hat⟩
  · obtain ⟨off, hfind, hne, ⟨name, hat⟩, -, hsize⟩ := hwalk path (.file data) hzero hpath
    exact initrdRead_file hat (hsize.trans_lt hbound) hne hfind
  · obtain ⟨off, hfind, hne, ⟨fname, hat⟩, hnames', hsize⟩ := hwalk path _ hzero hpath
    exact initrdDirAt_folder hat (hsize.trans_lt hbound) hnames'.named hne hfind hi
  · have hfind := initrdFind_missing hpath hcomp hzero hno hroot hbound
    rw [← hbase] at hfind
    rw [hfind]
    split_ifs with hlong
    · exact ⟨fun h => (by cases h), fun h => (by omega)⟩
    · exact ⟨fun _ => (by omega), fun _ => rfl⟩

/-! ### The round trip -/

/-- A folder `d` with a file `a` of one byte. -/
def sampleTree : Listing := .folder [0x64] (.file [0x61] [7] .nil) .nil

/-- The host that presents it at the empty path. -/
def sampleHost : SafHost where
  resolve path := some path
  dirAt res idx :=
    if idx = 0 then if res = [] then some ([0x64], .dir) else some ([0x61], .file) else none
  fopen _ := some [7]

end MicroOS
