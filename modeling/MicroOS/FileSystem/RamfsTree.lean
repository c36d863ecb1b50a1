import MicroOS.FileSystem.Paths
import MicroOS.Memory.VmmResize

/-!
The tree of `fs/ramfs.c`, in memory.

* `ramfsType`, `ramfsChild`: the fields of a `ramfs_node_t`; the size and the contents of a file are
  the first two words of its children;
* `ramfsFind`, `ramfsDirAt`: the calls that read the tree. An address that is zero is null;
* `RamfsTree`, `RamfsTree.getRamfs`, `ramfsMkdir`, `ramfsTouch`, `ramfsOpen`, `ramfsWrite`: the
  calls that change it;
* `ramfsChildren`, `ramfsTree`: the children of a node, and the tree that they are;
* `ramfs_simulates`: one turn of `ramfs_find` is a step of a lookup in it.

A path is a list of bytes without a zero. Of a mount only the root is read here.
-/

namespace MicroOS

open ByteMem Checked

/-! ### Nodes -/

/-- `enum ramfs_node_type`. -/
def nodeFile : ℕ := 1

/-- `RAMFS_DIR`. -/
def nodeDir : ℕ := 2

/-- The length of `childs`. -/
def childSlots : ℕ := 1000

/-- `node->type`. -/
def ramfsType (m : Mem) (node : ℕ) : ℕ := readWord (view m node) 92

/-- `node->childs[i]`. -/
def ramfsChild (m : Mem) (node i : ℕ) : ℕ := readWord (view m node) (96 + 4 * i)

/-- `node->fsize` and `node->fdata`, which lie over the children. -/
def ramfsFsize (m : Mem) (node : ℕ) : ℕ := ramfsChild m node 0

/-- `fdata` of a node, which lies where its second child does. -/
def ramfsFdata (m : Mem) (node : ℕ) : ℕ := ramfsChild m node 1

/-! ### The calls that read the tree -/

/-- The loop of `ramfs_find` over `n` slots from the `i`-th on. -/
def ramfsFindChild (m : Mem) (node : ℕ) (buffer : List UInt8) : ℕ → ℕ → Option ℕ
  | 0, _ => none
  | n + 1, i =>
    if ramfsChild m node i ≠ 0 ∧ strcasecmp buffer (view m (ramfsChild m node i)) = 0 then
      some (ramfsChild m node i)
    else ramfsFindChild m node buffer n (i + 1)

/-- `ramfs_find` for one name: the child, if there is one. -/
def ramfsFindName (m : Mem) (current : ℕ) (buffer : List UInt8) : Except Halt (Option ℕ) :=
  -- `char buffer[128]`, with the zero at the end
  if 128 ≤ buffer.length then .error (.outOfBounds buffer.length)
  else .ok (ramfsFindChild m current buffer childSlots 0)

/-- `ramfs_find`. -/
def ramfsFind (m : Mem) (path : List UInt8) (current : ℕ) : Except Halt ℕ :=
  match _ : nextName path with
  | none => .ok current
  | some (buffer, next) => do
      match ← ramfsFindName m current buffer with
      | some child => ramfsFind m next child
      | none => .ok 0
termination_by path.length
decreasing_by exact nextName_lt ‹_›

/-- The pointers that the loop of `ramfs_find` takes for children, up to the one it returns. -/
def ramfsCompared (m : Mem) (node : ℕ) (buffer : List UInt8) : ℕ → ℕ → List ℕ
  | 0, _ => []
  | n + 1, i =>
    if ramfsChild m node i = 0 then ramfsCompared m node buffer n (i + 1)
    else if strcasecmp buffer (view m (ramfsChild m node i)) = 0 then [ramfsChild m node i]
    else ramfsChild m node i :: ramfsCompared m node buffer n (i + 1)

/-- The pointers that `ramfs_find` takes for children, with the nodes that it finds them in. -/
def ramfsFollowed (m : Mem) (path : List UInt8) (current : ℕ) : List (ℕ × ℕ) :=
  match _ : nextName path with
  | none => []
  | some (buffer, next) =>
    (ramfsCompared m current buffer childSlots 0).map (current, ·) ++
      match ramfsFindName m current buffer with
      | .ok (some child) => ramfsFollowed m next child
      | _ => []
termination_by path.length
decreasing_by exact nextName_lt ‹_›

/-- `node->childs[i]` of an array that is not read beyond its end. -/
def childSlot (m : Mem) (node i : ℕ) : Except Halt ℕ :=
  if i < childSlots then .ok (ramfsChild m node i) else .error (.outOfBounds i)

/-- The loop of `ramfs_dir_at`: the slot that it ends at, unless it runs out of slots. -/
def dirSlot (m : Mem) (node actualIdx currentIdx : ℕ) : Except Halt (Option ℕ) := do
  let child ← childSlot m node actualIdx
  let currentIdx := if child ≠ 0 then sub32 currentIdx 1 else currentIdx
  if currentIdx = 0 then return some actualIdx
  else if actualIdx + 1 ≥ childSlots then return none
  else dirSlot m node (actualIdx + 1) currentIdx
termination_by childSlots - actualIdx

/-- `switch (node->type)` of `ramfs_dir_at`. -/
def entryType (type : ℕ) : Option EntryType :=
  if type = nodeDir then some .dir else if type = nodeFile then some .file else none

/-- `ramfs_dir_at`. -/
def ramfsDirAt (m : Mem) (root idx : ℕ) (path : List UInt8) : Except Halt DirT := do
  let node ← ramfsFind m path root
  if node = 0 ∨ ramfsType m node ≠ nodeDir then return DirT.none
  else
    match ← dirSlot m node 0 (wrap32 (idx + 1)) with
    | none => return DirT.none
    | some slot => do
        let child ← childSlot m node slot
        match entryType (ramfsType m child) with
        | none => return DirT.none
        | some type => do
            let name ← strcpy (view m child) 256
            return ⟨name, idx, false, type⟩

/-! ### The calls that change the tree -/

/-- A mounted ramfs: the kernel, the contents of memory, the mount and its
`driver_specific_data`. -/
structure RamfsTree where
  kernel : Kernel
  bytes : Mem
  mount : ℕ
  root : ℕ

/-- `get_ramfs`, without the operations and the name of the mount. -/
def RamfsTree.getRamfs (k : Kernel) (bytes : Mem) : Except Halt RamfsTree := do
  let (k, mount) ← vmmAlloc k 1
  let bytes := memset bytes mount 0 0x1000
  let (k, root) ← vmmAlloc k 1
  let bytes := memset bytes root 0 0x1000
  return ⟨k, writeWord bytes (root + 92) nodeDir, mount, root⟩

/-- The loop of `ramfs_split_path`, from `next` on: `to_create`. -/
def splitLoop (toCreate : Option (List UInt8)) : List UInt8 → Except Halt (Option (List UInt8))
  | [] => .ok toCreate
  | c :: next =>
    if 128 ≤ (copyUntil 0x2f (c :: next)).1.length then
      .error (.outOfBounds (copyUntil 0x2f (c :: next)).1.length)
    else if (copyUntil 0x2f (c :: next)).2 = [] then .ok toCreate
    else splitLoop (some (copyUntil 0x2f (c :: next)).2) (copyUntil 0x2f (c :: next)).2
termination_by next => next.length
decreasing_by exact copyUntil_lt _ _ _

/-- `ramfs_split_path`: what is copied to `path_buf`, an array of 512 bytes, and `to_create`. -/
def ramfsSplitPath (path : List UInt8) : Except Halt (List UInt8 × List UInt8) := do
  match ← splitLoop none path with
  -- `to_create` is not initialised
  | none => throw .abort
  | some toCreate =>
    let n := path.length - toCreate.length - 1
    if 512 ≤ n then throw (.outOfBounds n) else return (path.take n, toCreate)

/-- The loop for a slot that is free, over `n` slots from the `i`-th on. -/
def freeSlot (m : Mem) (node : ℕ) : ℕ → ℕ → Option ℕ
  | 0, _ => none
  | n + 1, i => if ramfsChild m node i = 0 then some i else freeSlot m node n (i + 1)

/-- What `ramfs_mkdir` and `ramfs_touch` do, for the type of the new node. -/
def ramfsCreate (type : ℕ) (fs : RamfsTree) (path : List UInt8) : Except Halt RamfsTree := do
  if (← ramfsFind fs.bytes path fs.root) ≠ 0 then return fs
  else
    let (pathBuf, toCreate) ← ramfsSplitPath path
    let node ← ramfsFind fs.bytes pathBuf fs.root
    if node = 0 ∨ ramfsType fs.bytes node ≠ nodeDir then return fs
    else
      match freeSlot fs.bytes node childSlots 0 with
      | none => return fs
      | some i =>
        let (kernel, child) ← vmmAlloc fs.kernel 1
        let bytes := memset fs.bytes child 0 0x1000
        let bytes := writeWord bytes (child + 92) type
        let bytes := storeBytes bytes child toCreate
        return { fs with kernel, bytes := writeWord bytes (node + (96 + 4 * i)) child }

/-- `ramfs_mkdir`. -/
def ramfsMkdir : RamfsTree → List UInt8 → Except Halt RamfsTree := ramfsCreate nodeDir

/-- `ramfs_touch`. -/
def ramfsTouch : RamfsTree → List UInt8 → Except Halt RamfsTree := ramfsCreate nodeFile

/-- `ramfs_open`, with the `file_t` that it returns. -/
def ramfsOpen (fs : RamfsTree) (path : List UInt8) : Except Halt (RamfsTree × ℕ) := do
  let node ← ramfsFind fs.bytes path fs.root
  if node = 0 ∨ ramfsType fs.bytes node ≠ nodeFile then return (fs, 0)
  else
    let (kernel, f) ← vmmAlloc fs.kernel 1
    let bytes := writeWord fs.bytes f fs.mount
    let bytes := writeWord bytes (f + 524) (ramfsFsize bytes node)
    let bytes := writeWord bytes (f + 8) node
    return ({ fs with kernel, bytes }, f)

/-- `ramfs_write`, the buffer made large enough. -/
def ramfsGrow (fs : RamfsTree) (node newFileSize : ℕ) : Except Halt RamfsTree :=
  if toInt newFileSize > toInt (ramfsFsize fs.bytes node) then do
    let (kernel, bytes, fdata) ← resizeBytes fs.kernel fs.bytes (ramfsFsize fs.bytes node)
      newFileSize (ramfsFdata fs.bytes node)
    let bytes := writeWord bytes (node + 100) fdata
    return { fs with kernel, bytes := writeWord bytes (node + 96) newFileSize }
  else .ok fs

/-- `ramfs_write`. -/
def ramfsWrite (fs : RamfsTree) (file : ℕ) (data : List UInt8) (offset : ℕ) :
    Except Halt RamfsTree := do
  let node := readWord (view fs.bytes file) 8
  let fs ← ramfsGrow fs node (wrap32 (offset + data.length))
  let bytes := writeWord fs.bytes (file + 524) (ramfsFsize fs.bytes node)
  return { fs with
    bytes := storeBytes bytes (wrap32 (ramfsFdata bytes node + offset)) data }

/-- A mounted ramfs with the files that are open. -/
structure RamfsSession where
  fs : RamfsTree
  files : List ℕ

/-- A ramfs is mounted, with no file open. -/
def RamfsSession.Started (lo : ℕ) (s : RamfsSession) : Prop :=
  s.files = [] ∧ ∃ k bytes, KernelInv lo k ∧ k.pmm.Used 0 ∧ RamfsTree.getRamfs k bytes = .ok s.fs

/-- The calls that change the tree. The data of a write ends below `2 ^ 31`. -/
inductive RamfsCall : RamfsSession → RamfsSession → Prop where
  | mkdir {fs fs' : RamfsTree} {files : List ℕ} {path : List UInt8} (zero : 0 ∉ path)
      (call : ramfsMkdir fs path = .ok fs') : RamfsCall ⟨fs, files⟩ ⟨fs', files⟩
  | touch {fs fs' : RamfsTree} {files : List ℕ} {path : List UInt8} (zero : 0 ∉ path)
      (call : ramfsTouch fs path = .ok fs') : RamfsCall ⟨fs, files⟩ ⟨fs', files⟩
  | open_ {fs fs' : RamfsTree} {files : List ℕ} {path : List UInt8} {file : ℕ} (zero : 0 ∉ path)
      (call : ramfsOpen fs path = .ok (fs', file)) (found : file ≠ 0) :
      RamfsCall ⟨fs, files⟩ ⟨fs', file :: files⟩
  | write {fs fs' : RamfsTree} {files : List ℕ} {file offset : ℕ} {data : List UInt8}
      (isOpen : file ∈ files) (small : offset + data.length < 2 ^ 31)
      (call : ramfsWrite fs file data offset = .ok fs') : RamfsCall ⟨fs, files⟩ ⟨fs', files⟩

/-! ### The tree -/

/-- The children of a node, in the order of their slots. -/
def ramfsChildren (m : Mem) (node : ℕ) : List ℕ :=
  ((List.range childSlots).map (ramfsChild m node)).filter (· ≠ 0)

/-- A node has a name, up to ASCII case. -/
def HasName (m : Mem) (node : ℕ) (name : List UInt8) : Prop :=
  ∃ s, IsString (view m node) s ∧ SameName name s

open Classical in
/-- **The tree in memory**: a name leads to the first child that has it. -/
noncomputable def ramfsTree (m : Mem) : Lookup.Tree ℕ (List UInt8) where
  isDir node := ramfsType m node = nodeDir
  child node name := (ramfsChildren m node).find? fun child => HasName m child name

/-- A node without pointers where a directory has its children. -/
def NoChildren (m : Mem) (node : ℕ) : Prop := ∀ i < childSlots, ramfsChild m node i = 0

variable {m : Mem} {node current n i : ℕ} {buffer path : List UInt8}

/-- The directories of the tree are the nodes with that type. -/
lemma ramfsTree_isDir : (ramfsTree m).isDir node ↔ ramfsType m node = nodeDir := by
  rw [ramfsTree]
  exact decide_eq_true_iff

/-- A node without children has none in any slot. -/
lemma ramfsChildren_eq_nil : ramfsChildren m node = [] ↔ NoChildren m node := by
  rw [ramfsChildren, List.filter_eq_nil_iff]
  simp [NoChildren]

lemma map_range'_succ (f : ℕ → ℕ) (i n : ℕ) :
    (List.range' i (n + 1)).map f = f i :: (List.range' (i + 1) n).map f := by
  rw [List.range'_succ, List.map_cons]

/-- **The loop of `ramfs_find`** finds the first child that has the name. -/
lemma ramfsFindChild_eq (hbuffer : 0 ∉ buffer) :
    ramfsFindChild m node buffer childSlots 0 = (ramfsTree m).child node buffer := by
  classical
  have hloop : ∀ n i, ramfsFindChild m node buffer n i =
      (((List.range' i n).map (ramfsChild m node)).filter (· ≠ 0)).find?
        fun child => HasName m child buffer := by
    intro n
    induction n with
    | zero => exact fun i => rfl
    | succ n ih =>
      intro i
      have hcompare : strcasecmp buffer (view m (ramfsChild m node i)) = 0 ↔
          HasName m (ramfsChild m node i) buffer := strcasecmp_eq_zero_iff hbuffer
      rw [ramfsFindChild, map_range'_succ, ih]
      by_cases hnull : ramfsChild m node i = 0
      · rw [if_neg (fun h => h.1 hnull), List.filter_cons_of_neg (by simpa using hnull)]
      · rw [List.filter_cons_of_pos (by simpa using hnull), List.find?_cons]
        by_cases hname : HasName m (ramfsChild m node i) buffer
        · rw [if_pos ⟨hnull, hcompare.mpr hname⟩]
          simp [hname]
        · rw [if_neg fun h => hname (hcompare.mp h.2)]
          simp [hname]
  rw [hloop, ← List.range_eq_range', ramfsTree]
  dsimp only
  rw [ramfsChildren]

/-- The first child that has a name. -/
lemma ramfsTree_child (hi : i < childSlots) (hne : ramfsChild m node i ≠ 0)
    (hname : HasName m (ramfsChild m node i) buffer)
    (hbefore : ∀ j < i, ramfsChild m node j = 0 ∨ ¬HasName m (ramfsChild m node j) buffer) :
    (ramfsTree m).child node buffer = some (ramfsChild m node i) := by
  classical
  rw [ramfsTree]
  dsimp only
  rw [ramfsChildren, List.find?_filter, List.find?_map, List.find?_range_eq_some.mpr
    ⟨by simp [hne, hname], List.mem_range.mpr hi, fun j hj => ?_⟩, Option.map_some]
  rcases hbefore j hj with hnull | hother
  · simp [hnull]
  · simp [hother]

/-- `ramfs_find` for a short name. -/
lemma ramfsFindName_eq (h : ShortName buffer) :
    ramfsFindName m node buffer = .ok ((ramfsTree m).child node buffer) := by
  have hshort : ¬128 ≤ buffer.length := not_le.mpr (Nat.lt_succ_of_le h.1)
  rw [ramfsFindName, if_neg hshort, ramfsFindChild_eq h.2]

/-- **One turn of `ramfs_find`** is a step of a lookup. -/
lemma ramfs_simulates (m : Mem) :
    Lookup.Simulates (ramfsTree m) (ramfsFindName m) Eq ShortName := by
  rintro node _ buffer rfl hshort -
  refine ⟨_, ramfsFindName_eq hshort, ?_⟩
  cases (ramfsTree m).child node buffer with
  | none => exact .none
  | some child => exact .some rfl

/-- In a node without pointers nothing is found. -/
lemma NoChildren.find (h : NoChildren m node) (hshort : ShortName buffer) :
    ramfsFindName m node buffer = .ok none := by
  rw [ramfsFindName_eq hshort, ramfsTree]
  dsimp only
  rw [ramfsChildren_eq_nil.mpr h]
  rfl

/-- `ramfs_find` looks up the names of the path, one after the other. -/
lemma ramfsFind_eq (m : Mem) (path : List UInt8) (current : ℕ) : ramfsFind m path current =
    (fun r => r.getD 0) <$> Lookup.find (ramfsFindName m) current (components path) := by
  refine find_of_turn (fun path current => ?_) path current
  rw [ramfsFind]
  split <;> rename_i hnext <;> exact hnext ▸ rfl

/-- The loop of `ramfs_find` takes a pointer for a child, if there is one. -/
lemma ramfsCompared_eq_nil : ramfsCompared m node buffer childSlots 0 = [] ↔ NoChildren m node := by
  have hloop : ∀ n i, ramfsCompared m node buffer n i = [] ↔
      ∀ j, i ≤ j → j < i + n → ramfsChild m node j = 0 := by
    intro n
    induction n with
    | zero => exact fun i => ⟨fun _ j h1 h2 => absurd h2 (by omega), fun _ => rfl⟩
    | succ n ih =>
      intro i
      rw [ramfsCompared]
      split_ifs with hnull hname
      · rw [ih]
        refine ⟨fun h j h1 h2 => ?_, fun h j h1 h2 => h j (by omega) (by omega)⟩
        rcases Nat.eq_or_lt_of_le h1 with rfl | hlt
        · exact hnull
        · exact h j hlt (by omega)
      · exact ⟨False.elim, fun h => absurd (h i le_rfl (by omega)) hnull⟩
      · exact ⟨False.elim, fun h => absurd (h i le_rfl (by omega)) hnull⟩
  rw [hloop, NoChildren]
  exact ⟨fun h i hi => h i (Nat.zero_le i) (by omega), fun h i _ hi => h i (by omega)⟩

/-- The pointers that are followed are those of the nodes that a name is looked up in. -/
lemma ramfsFollowed_eq (m : Mem) (path : List UInt8) (current : ℕ) :
    ramfsFollowed m path current =
      (Lookup.asked (ramfsFindName m) current (components path)).flatMap fun c =>
        (ramfsCompared m c.1 c.2 childSlots 0).map (c.1, ·) := by
  induction hlen : path.length using Nat.strong_induction_on generalizing path current with
  | _ len ih =>
    rw [ramfsFollowed, components_eq]
    split
    · rename_i hnext
      rw [hnext]
      rfl
    · rename_i buffer next hnext
      rw [hnext, Lookup.asked, List.flatMap_cons]
      congr 1
      have hlt : next.length < len := hlen ▸ nextName_lt hnext
      split
      · rename_i child hchild
        rw [ih next.length hlt next child rfl, hchild]
      · rename_i hchild
        split
        · rename_i child hsome
          exact absurd hsome (hchild child)
        · rfl

/-! ### Nodes in memory -/

variable {m' : Mem} {p type c : ℕ} {name : List UInt8} {childs : ℕ → ℕ}

lemma view_of_lt (h : p + i < 2 ^ 32) : view m p i = m (p + i) := by
  rw [view, wrap32_of_lt h]

lemma readWord_view (h : p + i + 4 ≤ 2 ^ 32) : readWord (view m p) i = readWord m (p + i) :=
  readWord_eq fun j hj => by rw [view_of_lt (by omega), Nat.add_assoc]

/-- **A node in memory**, with its name, its type and its children. -/
structure RamfsNodeAt (m : Mem) (p : ℕ) (name : List UInt8) (type : ℕ) (childs : ℕ → ℕ) : Prop where
  page : p + 0x1000 < 2 ^ 32
  short : name.length < 92
  name : IsString (view m p) name
  type : ramfsType m p = type
  child : ∀ i < childSlots, ramfsChild m p i = childs i

namespace RamfsNodeAt

/-- Nothing but its page matters to a node. -/
lemma congr (h : RamfsNodeAt m p name type childs)
    (heq : ∀ x, p ≤ x → x < p + 0x1000 → m' x = m x) : RamfsNodeAt m' p name type childs := by
  obtain ⟨hpage, hshort, ⟨hzero, hname⟩, htype, hchild⟩ := h
  have hview : ∀ i < 0x1000, view m' p i = view m p i := by
    intro i hi
    rw [view_of_lt (by omega), view_of_lt (by omega), heq _ (by omega) (by omega)]
  refine ⟨hpage, hshort, ⟨hzero, hname.congr fun i _ hi => hview i ?_⟩, ?_, fun i hi => ?_⟩
  · rw [List.length_append, List.length_singleton] at hi
    omega
  · rw [← htype]
    exact readWord_congr fun x _ hx => hview x (by omega)
  · rw [← hchild i hi]
    rw [childSlots] at hi
    exact readWord_congr fun x _ hx => hview x (by omega)

/-- A child is linked. -/
lemma link (h : RamfsNodeAt m p name type childs) (hi : i < childSlots) (hc : c < 2 ^ 32) :
    RamfsNodeAt (writeWord m (p + (96 + 4 * i)) c) p name type (Function.update childs i c) := by
  obtain ⟨hpage, hshort, ⟨hzero, hname⟩, htype, hchild⟩ := h
  rw [childSlots] at hi
  have hview : ∀ j < 0x1000, j < 96 + 4 * i ∨ 96 + 4 * i + 4 ≤ j →
      view (writeWord m (p + (96 + 4 * i)) c) p j = view m p j := by
    intro j hj hne
    rw [view_of_lt (by omega), view_of_lt (by omega), writeWord_of_disjoint _ _ (by omega)]
  refine ⟨hpage, hshort, ⟨hzero, hname.congr fun j _ hj => ?_⟩, ?_, fun j hj => ?_⟩
  · rw [List.length_append, List.length_singleton] at hj
    exact hview j (by omega) (by omega)
  · rw [← htype]
    exact readWord_congr fun x _ hx => hview x (by omega) (by omega)
  · rw [childSlots] at hj
    by_cases hij : j = i
    · subst hij
      rw [Function.update_self, ramfsChild, readWord_view (by omega), readWord_writeWord,
        wrap32_of_lt hc]
    · rw [Function.update_of_ne hij, ← hchild j hj]
      exact readWord_congr fun x _ hx => hview x (by omega) (by omega)

/-- The page of a new node. -/
lemma create (m : Mem) (hpage : p + 0x1000 < 2 ^ 32) (hshort : name.length < 92)
    (hname : 0 ∉ name) (htype : type < 2 ^ 32) :
    RamfsNodeAt (storeBytes (writeWord (memset m p 0 0x1000) (p + 92) type) p name) p name type
      fun _ => 0 := by
  set m₁ := writeWord (memset m p 0 0x1000) (p + 92) type with hm₁
  have hclear : ∀ i < 0x1000, i < 92 ∨ 96 ≤ i → m₁ (p + i) = 0 := by
    intro i hi hne
    rw [hm₁, writeWord_of_disjoint _ _ (by omega), memset_apply hpage hi]
  have hbehind : ∀ i < 0x1000, name.length ≤ i → storeBytes m₁ p name (p + i) = m₁ (p + i) :=
    fun i hi hle => storeBytes_of_disjoint (by omega) (.inr (by omega))
  refine ⟨hpage, hshort, ⟨hname, ?_⟩, ?_, fun i hi => ?_⟩
  · refine (ByteImage.holds_append.mpr ⟨?_, ?_⟩ :
      ByteImage.Holds (view (storeBytes m₁ p name) p) 0 (name ++ [0]))
    · intro i b hb
      obtain ⟨hi, -⟩ := List.getElem?_eq_some_iff.mp hb
      rw [Nat.zero_add, view_of_lt (by omega)]
      exact holds_storeBytes (by omega) i b hb
    · refine ByteImage.holds_cons.mpr ⟨?_, ByteImage.holds_nil⟩
      rw [Nat.zero_add, view_of_lt (by omega), hbehind _ (by omega) le_rfl,
        hclear _ (by omega) (.inl hshort)]
  · rw [ramfsType, readWord_view (by omega),
      readWord_congr (m := m₁) fun x h1 h2 => storeBytes_of_disjoint (by omega) (.inr (by omega)),
      hm₁, readWord_writeWord, wrap32_of_lt htype]
  · rw [childSlots] at hi
    have hword : ∀ j < 4, storeBytes m₁ p name (p + (96 + 4 * i) + j) = 0 := by
      intro j hj
      rw [Nat.add_assoc p, hbehind _ (by omega) (by omega), hclear _ (by omega) (.inr (by omega))]
    rw [ramfsChild, readWord_view (by omega)]
    exact readWord_eq (m := fun _ => 0) (b := 0) hword

end RamfsNodeAt

end MicroOS
