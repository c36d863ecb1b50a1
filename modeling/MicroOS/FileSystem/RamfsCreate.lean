import MicroOS.FileSystem.PathLookup

/-!
What `ramfs_mkdir` and `ramfs_touch` create.

* `RamfsShape`: the nodes of a tree, with their names, types and children; `RamfsShape.Tidy`: every
  node but the root is a child once, and the children of a directory have different names;
  `RamfsShape.add`: a child more;
* `RamfsTree.Shaped`: such a tree in memory;
* `RamfsTree.Makes`: a call for a name that a directory with a free slot does not have yet;
* `EndsInName`: a path with a slash that ends in a name;
* `ramfs_creates`: what a call with such a path does, along every run;
* `ramfs_creates_wrong_name`: paths without a slash, or with one at the end.
-/

namespace MicroOS

open ByteMem Checked Lookup Run

variable {path name : List UInt8}

/-! ### The last name of a path -/

/-- **One turn of `split_path`**: the next name is copied into a buffer of 128 bytes. -/
lemma splitLoop_eq {next : List UInt8} (toCreate : Option (List UInt8)) (hne : next ≠ []) :
    splitLoop toCreate next =
      if 128 ≤ (copyUntil 0x2f next).1.length then
        .error (.outOfBounds (copyUntil 0x2f next).1.length)
      else if (copyUntil 0x2f next).2 = [] then .ok toCreate
      else splitLoop (some (copyUntil 0x2f next).2) (copyUntil 0x2f next).2 := by
  cases next with
  | nil => exact absurd rfl hne
  | cons c next => rw [splitLoop]

/-- The loop ends at a name behind the last slash. -/
lemma splitLoop_name (hslash : 0x2f ∉ name) (hne : name ≠ []) (hname : name.length ≤ 127)
    {pre : List UInt8} (hpre : ∀ k ∈ components pre, k.length ≤ 127)
    (toCreate : Option (List UInt8)) :
    splitLoop toCreate (pre ++ 0x2f :: name) = .ok (some name) := by
  have hlast : splitLoop (some name) name = .ok (some name) := by
    rw [splitLoop_eq _ hne, copyUntil_of_notMem hslash,
      if_neg (not_le.mpr (Nat.lt_succ_of_le hname)), if_pos rfl]
  induction hlen : pre.length using Nat.strong_induction_on generalizing pre toCreate with
  | _ len ih =>
    rw [splitLoop_eq _ (by simp)]
    by_cases hmem : (0x2f : UInt8) ∈ pre
    · obtain ⟨a, b, rfl, ha⟩ := List.eq_append_cons_of_mem hmem
      rw [components_append] at hpre
      obtain ⟨hpa, hpb⟩ := List.forall_mem_append.mp hpre
      have hshort : a.length ≤ 127 := by
        by_cases hnil : a = []
        · simp [hnil]
        · rw [components_of_notMem ha hnil] at hpa
          exact hpa a List.mem_cons_self
      have hlt : b.length < len := by
        rw [← hlen, List.length_append, List.length_cons]
        omega
      rw [List.append_assoc, List.cons_append, copyUntil_append ha,
        if_neg (not_le.mpr (Nat.lt_succ_of_le hshort)), if_neg (by simp)]
      exact ih b.length hlt hpb _ rfl
    · have hshort : pre.length ≤ 127 := by
        by_cases hnil : pre = []
        · simp [hnil]
        · rw [components_of_notMem hmem hnil] at hpre
          exact hpre pre List.mem_cons_self
      rw [copyUntil_append hmem, if_neg (not_le.mpr (Nat.lt_succ_of_le hshort)), if_neg hne]
      exact hlast

/-- **`ramfs_split_path`** of a path with a name behind its last slash. -/
lemma ramfsSplitPath_name (hslash : 0x2f ∉ name) (hne : name ≠ []) (hname : name.length ≤ 127)
    {pre : List UInt8} (hpre : ∀ k ∈ components pre, k.length ≤ 127) :
    ramfsSplitPath (pre ++ 0x2f :: name) =
      if 512 ≤ pre.length then .error (.outOfBounds pre.length) else .ok (pre, name) := by
  have hn : (pre ++ 0x2f :: name).length - name.length - 1 = pre.length := by
    rw [List.length_append, List.length_cons]
    omega
  rw [ramfsSplitPath, splitLoop_name hslash hne hname hpre, ok_bind]
  dsimp only
  rw [hn, List.take_left]
  rfl

/-- Nothing is left behind a cut when there is no separator, or only one at the end. -/
lemma copyUntil_snd_eq_nil {c : UInt8} {s : List UInt8} (h : (copyUntil c s).2 = []) :
    c ∉ s ∨ ∃ b, c ∉ b ∧ s = b ++ [c] := by
  by_cases hmem : c ∈ s
  · obtain ⟨a, b, rfl, ha⟩ := List.eq_append_cons_of_mem hmem
    rw [copyUntil_append ha] at h
    obtain rfl : b = [] := h
    exact .inr ⟨a, ha, rfl⟩
  · exact .inl hmem

/-- Where the loop ends. -/
lemma splitLoop_ok {toCreate r : Option (List UInt8)} (h : splitLoop toCreate path = .ok r) :
    r = toCreate ∧ (copyUntil 0x2f path).2 = [] ∨
      ∃ pre t, path = pre ++ 0x2f :: t ∧ r = some t ∧ t ≠ [] ∧ (copyUntil 0x2f t).2 = [] := by
  induction hlen : path.length using Nat.strong_induction_on generalizing path toCreate with
  | _ len ih =>
    by_cases hne : path = []
    · rw [hne, splitLoop] at h
      rw [hne]
      exact .inl ⟨(Except.ok.inj h).symm, rfl⟩
    · rw [splitLoop_eq _ hne] at h
      split_ifs at h with hlong hend
      · exact .inl ⟨(Except.ok.inj h).symm, hend⟩
      · have hmem : (0x2f : UInt8) ∈ path := by
          by_contra hmem
          rw [copyUntil_of_notMem hmem] at hend
          exact hend rfl
        obtain ⟨a, b, rfl, ha⟩ := List.eq_append_cons_of_mem hmem
        rw [copyUntil_append ha] at h hend
        have hlt : b.length < len := by
          rw [← hlen, List.length_append, List.length_cons]
          omega
        rcases ih b.length hlt h rfl with ⟨rfl, hb⟩ | ⟨pre, t, rfl, hr, ht⟩
        · exact .inr ⟨a, b, rfl, rfl, hend, hb⟩
        · exact .inr ⟨a ++ 0x2f :: pre, t, by simp, hr, ht⟩

/-- **What `ramfs_split_path` returns**: the last name of the path, with the slash behind it, or a
slash alone. -/
lemma ramfsSplitPath_ok {pathBuf toCreate : List UInt8}
    (h : ramfsSplitPath path = .ok (pathBuf, toCreate)) :
    components path = components pathBuf ∨ ∃ nm, 0x2f ∉ nm ∧ nm ≠ [] ∧
      (toCreate = nm ∨ toCreate = nm ++ [0x2f]) ∧ components path = components pathBuf ++ [nm] := by
  rw [ramfsSplitPath, bind_eq_ok] at h
  obtain ⟨r, hloop, h⟩ := h
  rcases splitLoop_ok hloop with ⟨rfl, -⟩ | ⟨pre, t, rfl, rfl, hne, ht⟩
  · cases h
  · have hn : (pre ++ 0x2f :: t).length - t.length - 1 = pre.length := by
      rw [List.length_append, List.length_cons]
      omega
    dsimp only at h
    rw [hn, List.take_left] at h
    split_ifs at h with hlong
    obtain ⟨rfl, rfl⟩ := Prod.mk.inj (Except.ok.inj h)
    rw [components_append]
    rcases copyUntil_snd_eq_nil ht with hslash | ⟨nm, hslash, rfl⟩
    · exact .inr ⟨t, hslash, hne, .inl rfl, by rw [components_of_notMem hslash hne]⟩
    · rw [components_append, show components [] = [] from rfl, List.append_nil]
      by_cases hnil : nm = []
      · left
        rw [hnil, show components [] = [] from rfl, List.append_nil]
      · exact .inr ⟨nm, hslash, hnil, .inr rfl, by rw [components_of_notMem hslash hnil]⟩

/-- What is looked up is a part of the path. -/
lemma ramfsSplitPath_subset {pathBuf toCreate : List UInt8}
    (h : ramfsSplitPath path = .ok (pathBuf, toCreate)) : pathBuf ⊆ path := by
  rw [ramfsSplitPath, bind_eq_ok] at h
  obtain ⟨r, -, h⟩ := h
  cases r with
  | none => cases h
  | some t =>
    dsimp only at h
    split_ifs at h with hlong
    obtain ⟨rfl, -⟩ := Prod.mk.inj (Except.ok.inj h)
    exact List.take_subset _ _

/-! ### Shapes -/

/-- The nodes of a tree. -/
structure RamfsShape where
  nodes : Set ℕ
  name : ℕ → List UInt8
  type : ℕ → ℕ
  childs : ℕ → ℕ → ℕ

namespace RamfsShape

/-- **A tree**: only directories have children, every node but the root is a child of one node, in
one slot, and the names of the children of a directory differ. -/
structure Tidy (t : RamfsShape) (r : ℕ) : Prop where
  root : r ∈ t.nodes
  root_dir : t.type r = nodeDir
  child : ∀ n ∈ t.nodes, ∀ i < childSlots, t.childs n i ≠ 0 →
    t.childs n i ∈ t.nodes ∧ t.childs n i ≠ r ∧ t.type n = nodeDir
  once : ∀ n ∈ t.nodes, ∀ n' ∈ t.nodes, ∀ i < childSlots, ∀ j < childSlots, t.childs n i ≠ 0 →
    t.childs n i = t.childs n' j → n = n' ∧ i = j
  apart : ∀ n ∈ t.nodes, ∀ i < childSlots, ∀ j < childSlots, t.childs n i ≠ 0 → t.childs n j ≠ 0 →
    SameName (t.name (t.childs n i)) (t.name (t.childs n j)) → i = j

/-- The node `c` becomes the `i`-th child of `p`. -/
def add (t : RamfsShape) (p i c : ℕ) (name : List UInt8) (type : ℕ) : RamfsShape where
  nodes := insert c t.nodes
  name := Function.update t.name c name
  type := Function.update t.type c type
  childs := Function.update (Function.update t.childs p (Function.update (t.childs p) i c)) c
    fun _ => 0

variable {t : RamfsShape} {root n p i j c type : ℕ} {name : List UInt8}

lemma add_childs_self : (t.add p i c name type).childs c j = 0 := by simp [add]

lemma add_childs_parent (hne : p ≠ c) : (t.add p i c name type).childs p i = c := by
  simp [add, hne]

/-- The other slots are as they were. -/
lemma add_childs_of_ne (hn : n ≠ c) (hne : ¬(n = p ∧ j = i)) :
    (t.add p i c name type).childs n j = t.childs n j := by
  rw [add]
  dsimp only
  rw [Function.update_of_ne hn]
  by_cases hp : n = p
  · subst hp
    rw [Function.update_self, Function.update_of_ne fun h => hne ⟨rfl, h⟩]
  · rw [Function.update_of_ne hp]

/-- A slot that is not empty: the new one, or one that was not empty. -/
lemma add_childs_ne_zero (hn : n ∈ (t.add p i c name type).nodes)
    (h : (t.add p i c name type).childs n j ≠ 0) :
    (n = p ∧ j = i ∧ (t.add p i c name type).childs n j = c ∧ n ≠ c) ∨
      (n ∈ t.nodes ∧ n ≠ c ∧ ¬(n = p ∧ j = i) ∧
        (t.add p i c name type).childs n j = t.childs n j) := by
  have hnc : n ≠ c := by
    rintro rfl
    exact h add_childs_self
  by_cases hslot : n = p ∧ j = i
  · obtain ⟨rfl, rfl⟩ := hslot
    exact .inl ⟨rfl, rfl, add_childs_parent hnc, hnc⟩
  · exact .inr ⟨hn.resolve_left hnc, hnc, hslot, add_childs_of_ne hnc hslot⟩

lemma add_name_self : (t.add p i c name type).name c = name := by simp [add]

lemma add_name_of_ne (h : n ≠ c) : (t.add p i c name type).name n = t.name n := by
  simp [add, h]

lemma add_type_of_ne (h : n ≠ c) : (t.add p i c name type).type n = t.type n := by
  simp [add, h]

/-- **A child more leaves a tree**, if the directory has no child of its name. -/
lemma Tidy.add (h : t.Tidy root) (hp : p ∈ t.nodes) (hdir : t.type p = nodeDir)
    (hi : i < childSlots) (hc : c ∉ t.nodes)
    (hname : ∀ j < childSlots, t.childs p j ≠ 0 → ¬SameName (t.name (t.childs p j)) name) :
    (t.add p i c name type).Tidy root := by
  have hne : ∀ n ∈ t.nodes, n ≠ c := fun n hn hnc => hc (hnc ▸ hn)
  have hpc := hne p hp
  -- a child that was there is not the new one
  have hold : ∀ n ∈ t.nodes, ∀ j < childSlots, t.childs n j ≠ 0 → t.childs n j ≠ c :=
    fun n hn j hj hj0 => hne _ (h.child n hn j hj hj0).1
  refine ⟨.inr h.root, ?_, fun n hn j hj hj0 => ?_, fun n hn n' hn' j hj k hk hj0 heq => ?_,
    fun n hn j hj k hk hj0 hk0 hsame => ?_⟩
  · rw [add_type_of_ne (hne root h.root), h.root_dir]
  · rcases add_childs_ne_zero hn hj0 with ⟨rfl, rfl, heq, -⟩ | ⟨hn, hnc, -, heq⟩
    · rw [heq, add_type_of_ne hpc]
      exact ⟨.inl rfl, (hne root h.root).symm, hdir⟩
    · rw [heq] at hj0 ⊢
      obtain ⟨hmem, hroot, htype⟩ := h.child n hn j hj hj0
      rw [add_type_of_ne hnc]
      exact ⟨.inr hmem, hroot, htype⟩
  · have hk0 : (t.add p i c name type).childs n' k ≠ 0 := heq ▸ hj0
    rcases add_childs_ne_zero hn hj0 with ⟨rfl, rfl, hj', -⟩ | ⟨hnt, -, -, hj'⟩ <;>
      rcases add_childs_ne_zero hn' hk0 with ⟨hnp, hki, hk', -⟩ | ⟨hnt', -, -, hk'⟩
    · exact ⟨hnp.symm, hki.symm⟩
    · rw [hk'] at hk0
      exact absurd (hk'.symm.trans (heq.symm.trans hj')) (hold n' hnt' k hk hk0)
    · rw [hj'] at hj0
      exact absurd (hj'.symm.trans (heq.trans hk')) (hold n hnt j hj hj0)
    · rw [hj'] at hj0
      exact h.once n hnt n' hnt' j hj k hk hj0 (hj'.symm.trans (heq.trans hk'))
  · rcases add_childs_ne_zero hn hj0 with ⟨rfl, rfl, hj', -⟩ | ⟨hnt, -, -, hj'⟩ <;>
      rcases add_childs_ne_zero hn hk0 with ⟨hnp, hki, hk', -⟩ | ⟨hnt', -, -, hk'⟩
    · exact hki.symm
    · rw [hk'] at hk0
      rw [hj', hk', add_name_self, add_name_of_ne (hold n hnt' k hk hk0)] at hsame
      exact absurd hsame.symm (hname k hk hk0)
    · subst hnp
      rw [hj'] at hj0
      rw [hj', hk', add_name_self, add_name_of_ne (hold n hnt j hj hj0)] at hsame
      exact absurd hsame (hname j hj hj0)
    · rw [hj'] at hj0
      rw [hk'] at hk0
      rw [hj', hk', add_name_of_ne (hold n hnt j hj hj0), add_name_of_ne (hold n hnt k hk hk0)]
        at hsame
      exact h.apart n hnt j hj k hk hj0 hk0 hsame

end RamfsShape

/-! ### Shapes in memory -/

namespace RamfsTree

/-- The bytes when a node has been created. -/
def linked (bytes : Mem) (node i child type : ℕ) (toCreate : List UInt8) : Mem :=
  writeWord (storeBytes (writeWord (memset bytes child 0 0x1000) (child + 92) type) child toCreate)
    (node + (96 + 4 * i)) child

/-- **A tree in memory**: each node has a page that is in use. -/
structure Shaped (lo : ℕ) (fs : RamfsTree) (t : RamfsShape) : Prop where
  tidy : t.Tidy fs.root
  inv : KernelInv lo fs.kernel
  zero : fs.kernel.pmm.Used 0
  page : ∀ n ∈ t.nodes, fs.kernel.Page n
  node : ∀ n ∈ t.nodes, RamfsNodeAt fs.bytes n (t.name n) (t.type n) (t.childs n)

variable {lo : ℕ} {fs : RamfsTree} {t : RamfsShape} {k' : Kernel} {n p i c type : ℕ}
  {name : List UInt8}

/-- Two pages of frames that differ do not meet. -/
lemma pagesApart_of_ne {m n : ℕ} (hm : 0x1000 ∣ m) (hn : 0x1000 ∣ n) (h : m ≠ n) :
    PagesApart m n := by
  rw [PagesApart]
  omega

/-- **A node is created** in a free slot of a directory. -/
lemma Shaped.create (h : Shaped lo fs t) (hp : p ∈ t.nodes) (hdir : t.type p = nodeDir)
    (hi : i < childSlots) (hfree : t.childs p i = 0) (hzero : 0 ∉ name) (hshort : name.length ≤ 91)
    (htype : type < 2 ^ 32)
    (hname : ∀ j < childSlots, t.childs p j ≠ 0 → ¬SameName (t.name (t.childs p j)) name)
    (hroom : fs.kernel.HasPage) (halloc : vmmAlloc fs.kernel 1 = .ok (k', c)) :
    c ∉ t.nodes ∧ c ≠ 0 ∧ Shaped lo
      { fs with kernel := k', bytes := linked fs.bytes p i c type name }
      (t.add p i c name type) := by
  obtain ⟨hinv, hpage, hnew, hkept⟩ := vmmAlloc_page h.inv h.zero hroom halloc
  have hend := hpage.lt
  have hc : c ∉ t.nodes := fun hc => hnew (h.page c hc).used
  have happart : ∀ n ∈ t.nodes, PagesApart n c := fun n hn =>
    pagesApart_of_ne (h.page n hn).aligned hpage.aligned fun heq => hc (heq ▸ hn)
  set m := storeBytes (writeWord (memset fs.bytes c 0 0x1000) (c + 92) type) c name with hm
  have hframe : ∀ x, OffPage c x → m x = fs.bytes x := by
    intro x hx
    rw [OffPage] at hx
    rw [hm, storeBytes_of_disjoint (by omega) (by omega), writeWord_of_disjoint _ _ (by omega),
      memset_of_disjoint hend hx]
  have hslot : i < 1000 := hi
  have hlink : ∀ x, OffPage p x → writeWord m (p + (96 + 4 * i)) c x = m x := by
    intro x hx
    rw [OffPage] at hx
    exact writeWord_of_disjoint _ _ (by omega)
  have hold : ∀ n ∈ t.nodes, RamfsNodeAt m n (t.name n) (t.type n) (t.childs n) :=
    fun n hn => (h.node n hn).offPage (happart n hn) hframe
  refine ⟨hc, hpage.ne, h.tidy.add hp hdir hi hc hname, hinv, hkept 0 h.zero, fun n hn => ?_,
    fun n hn => ?_⟩
  · rcases hn with rfl | hn
    · exact hpage
    · exact (h.page n hn).of_used hkept
  · rcases hn with rfl | hn
    · have hcreated : RamfsNodeAt m n name type fun _ => 0 :=
        RamfsNodeAt.create fs.bytes hend (by omega) hzero htype
      have hat := hcreated.offPage (happart p hp).symm hlink
      simpa [RamfsShape.add, linked, hm] using hat
    · have hnc : n ≠ c := fun heq => hc (heq ▸ hn)
      by_cases hnp : n = p
      · subst hnp
        have hat := (hold n hn).link hi (show c < 2 ^ 32 by omega)
        simpa [RamfsShape.add, linked, hm, hnc] using hat
      · have hat := (hold n hn).offPage
          (pagesApart_of_ne (h.page n hn).aligned (h.page p hp).aligned hnp) hlink
        simpa [RamfsShape.add, linked, hm, hnc, hnp] using hat

/-! ### Lookups in a shape -/

section Lookups

variable {k : List UInt8} {path : List UInt8} {ks ks' : List (List UInt8)} {m : ℕ}

/-- A node has the names that are its name up to ASCII case. -/
lemma Shaped.hasName (h : Shaped lo fs t) (hn : n ∈ t.nodes) :
    HasName fs.bytes n k ↔ SameName k (t.name n) := by
  have hat := (h.node n hn).name
  refine ⟨fun hname => ?_, fun hsame => ⟨t.name n, hat, hsame⟩⟩
  obtain ⟨s, hs, hsame⟩ := hname
  have hk : 0 ∉ k := by
    intro hmem
    have htail : (0 : UInt8) ∈ s.map tolower := by
      rw [← hsame]
      exact List.mem_map.mpr ⟨0, hmem, rfl⟩
    obtain ⟨b, hb, hzero⟩ := List.mem_map.mp htail
    exact hs.zero_notMem (tolower_eq_zero hzero ▸ hb)
  exact (strcasecmp_eq_zero hk hat.zero_notMem hat.holds).mp
    ((strcasecmp_eq_zero_iff hk).mpr ⟨s, hs, hsame⟩)

/-- The memory and the tree agree on which nodes are directories. -/
lemma Shaped.isDir (h : Shaped lo fs t) (hn : n ∈ t.nodes) :
    (ramfsTree fs.bytes).isDir n ↔ t.type n = nodeDir := by
  rw [ramfsTree_isDir, (h.node n hn).type]

/-- **The children of a name.** -/
lemma Shaped.child_eq_some (h : Shaped lo fs t) (hn : n ∈ t.nodes) :
    (ramfsTree fs.bytes).child n k = some c ↔
      ∃ i < childSlots, t.childs n i = c ∧ c ≠ 0 ∧ SameName k (t.name c) := by
  have hchild := (h.node n hn).child
  constructor
  · intro hc
    rw [ramfsTree] at hc
    dsimp only at hc
    have hname := List.find?_some hc
    obtain ⟨hmem, hne⟩ := List.mem_filter.mp (List.mem_of_find?_eq_some hc)
    obtain ⟨i, hi, rfl⟩ := List.mem_map.mp hmem
    have hi := List.mem_range.mp hi
    rw [hchild i hi] at hne hname ⊢
    have hne : t.childs n i ≠ 0 := by simpa using hne
    have hin := (h.tidy.child n hn i hi hne).1
    exact ⟨i, hi, rfl, hne, (h.hasName hin).mp (by simpa using hname)⟩
  · rintro ⟨i, hi, rfl, hne, hsame⟩
    have hin := (h.tidy.child n hn i hi hne).1
    rw [← hchild i hi]
    refine ramfsTree_child hi (hchild i hi ▸ hne) (hchild i hi ▸ (h.hasName hin).mpr hsame) ?_
    intro j hj
    have hj' := hj.trans hi
    rw [hchild j hj']
    refine or_iff_not_imp_left.mpr fun hj0 hname => ?_
    have hjn := (h.hasName (h.tidy.child n hn j hj' hj0).1).mp hname
    exact hj.ne (h.tidy.apart n hn j hj' i hi hj0 hne (hjn.symm.trans hsame))

/-- The children that the memory has of a node of the tree are nodes of the tree. -/
lemma Shaped.closed (h : Shaped lo fs t) :
    ∀ n ∈ t.nodes, ∀ k m, (ramfsTree fs.bytes).child n k = some m → m ∈ t.nodes := by
  intro n hn k m hm
  obtain ⟨i, hi, rfl, hne, -⟩ := (h.child_eq_some hn).mp hm
  exact (h.tidy.child n hn i hi hne).1

/-- The nodes that names lead to are in the tree. -/
lemma Shaped.lookup_mem (h : Shaped lo fs t)
    (hm : (ramfsTree fs.bytes).lookup fs.root ks = some m) : m ∈ t.nodes :=
  Tree.lookup_mem h.closed h.tidy.root hm

/-- In a tree every node is a directory or has no children. -/
lemma Shaped.walkable (h : Shaped lo fs t) (hn : n ∈ t.nodes) : RamfsWalkable fs.bytes n := by
  refine or_iff_not_imp_left.mpr fun hdir i hi => ?_
  rw [(h.node n hn).type] at hdir
  rw [(h.node n hn).child i hi]
  by_contra hne
  exact hdir (h.tidy.child n hn i hi hne).2.2

/-- **`ramfs_find` in a tree.** -/
lemma Shaped.find (h : Shaped lo fs t) (hzero : 0 ∉ path)
    (hshort : ∀ c ∈ components path, c.length ≤ 127) : ramfsFind fs.bytes path fs.root =
      .ok (((ramfsTree fs.bytes).lookup fs.root (components path)).getD 0) := by
  have hlooks := (ramfs_looksUp_iff fs.bytes fs.root hzero hshort).mpr
    fun pre k rest n' _ hn' => h.walkable (h.lookup_mem hn')
  cases hlookup : (ramfsTree fs.bytes).lookup fs.root (components path) with
  | none => exact hlooks.missing hlookup
  | some node => exact hlooks.found node hlookup

/-- The names that lead to a node are the same up to ASCII case. -/
lemma Shaped.keys_unique (h : Shaped lo fs t)
    (hm : (ramfsTree fs.bytes).lookup fs.root ks = some m)
    (hm' : (ramfsTree fs.bytes).lookup fs.root ks' = some m) : List.Forall₂ SameName ks ks' := by
  refine Tree.keys_unique h.tidy.root h.closed (fun n hn n' hn' k k' b hb hb' => ?_)
    (fun n hn k hr => ?_) hm hm'
  · obtain ⟨i, hi, rfl, hne, hk⟩ := (h.child_eq_some hn).mp hb
    obtain ⟨j, hj, heq, -, hk'⟩ := (h.child_eq_some hn').mp hb'
    exact ⟨(h.tidy.once n hn n' hn' i hi j hj hne heq.symm).1, hk.trans hk'.symm⟩
  · obtain ⟨i, hi, hroot, hne, -⟩ := (h.child_eq_some hn).mp hr
    exact (h.tidy.child n hn i hi (hroot ▸ hne)).2.1 hroot

/-- **A node that has been created** is a child more. -/
lemma Shaped.adds {fs' : RamfsTree} (h : Shaped lo fs t)
    (h' : Shaped lo fs' (t.add p i c name type)) (hp : p ∈ t.nodes) (hi : i < childSlots)
    (hfree : t.childs p i = 0) (hc : c ∉ t.nodes) (hc0 : c ≠ 0)
    (hname : ∀ j < childSlots, t.childs p j ≠ 0 → ¬SameName (t.name (t.childs p j)) name) :
    Tree.Adds (ramfsTree fs.bytes) (ramfsTree fs'.bytes) t.nodes (fun k => SameName k name)
      p c := by
  have hne : ∀ n ∈ t.nodes, n ≠ c := fun n hn hnc => hc (hnc ▸ hn)
  have hpc := hne p hp
  refine ⟨h.closed, fun n hn => ?_, fun n hn k hk => ?_, fun k hk => ?_, fun k hk => ?_,
    fun k => ?_⟩
  · rw [Bool.eq_iff_iff, h'.isDir (.inr hn), h.isDir hn, RamfsShape.add_type_of_ne (hne n hn)]
  · -- the slots of the node are the same, but for the new one
    refine Option.ext fun m => ?_
    rw [h'.child_eq_some (.inr hn), h.child_eq_some hn]
    refine exists_congr fun j => and_congr_right fun hj => ?_
    by_cases hslot : n = p ∧ j = i
    · obtain ⟨rfl, rfl⟩ := hslot
      rw [RamfsShape.add_childs_parent hpc, hfree]
      constructor
      · rintro ⟨rfl, -, hsame⟩
        rw [RamfsShape.add_name_self] at hsame
        exact absurd ⟨rfl, hsame⟩ hk
      · rintro ⟨hzero, hm0, -⟩
        exact absurd hzero.symm hm0
    · rw [RamfsShape.add_childs_of_ne (hne n hn) hslot]
      refine and_congr_right fun heq => and_congr_right fun hm0 => ?_
      have hm : m ∈ t.nodes := heq ▸ (h.tidy.child n hn j hj (heq ▸ hm0)).1
      rw [RamfsShape.add_name_of_ne (hne m hm)]
  · rw [Option.eq_none_iff_forall_ne_some]
    intro m hm
    obtain ⟨j, hj, rfl, hm0, hsame⟩ := (h.child_eq_some hp).mp hm
    exact hname j hj hm0 (hsame.symm.trans hk)
  · refine (h'.child_eq_some (.inr hp)).mpr ⟨i, hi, RamfsShape.add_childs_parent hpc, hc0, ?_⟩
    rw [RamfsShape.add_name_self]
    exact hk
  · rw [Option.eq_none_iff_forall_ne_some]
    intro m hm
    obtain ⟨j, -, heq, hm0, -⟩ := (h'.child_eq_some (.inl rfl)).mp hm
    rw [RamfsShape.add_childs_self] at heq
    exact hm0 heq.symm

end Lookups

/-! ### Calls -/

/-- **A call for a new name**: the names in front of the last one lead to a directory that has a
free slot and no child of that name. -/
structure Makes (fs : RamfsTree) (path : List UInt8) (pre : List (List UInt8)) (name : List UInt8)
    (parent : ℕ) : Prop where
  names : components path = pre ++ [name]
  missing : (ramfsTree fs.bytes).lookup fs.root (components path) = none
  leads : (ramfsTree fs.bytes).lookup fs.root pre = some parent
  isDir : ramfsType fs.bytes parent = nodeDir
  slot : ∃ i < childSlots, ramfsChild fs.bytes parent i = 0

/-- A path has a slash and ends in a name. -/
def EndsInName (path : List UInt8) : Prop := 0x2f ∈ path ∧ path.getLast? ≠ some 0x2f

instance (path : List UInt8) : Decidable (EndsInName path) := inferInstanceAs (Decidable (_ ∧ _))

/-- Its last name. -/
lemma EndsInName.eq (h : EndsInName path) :
    ∃ a b, path = a ++ 0x2f :: b ∧ 0x2f ∉ b ∧ b ≠ [] := by
  obtain ⟨hmem, hlast⟩ := h
  obtain ⟨b, a, hrev, hb⟩ := List.eq_append_cons_of_mem (List.mem_reverse.mpr hmem)
  have hpath : path = a.reverse ++ 0x2f :: b.reverse := by
    rw [← List.reverse_reverse path, hrev]
    simp
  refine ⟨a.reverse, b.reverse, hpath, fun h => hb (List.mem_reverse.mp h), fun hnil => hlast ?_⟩
  rw [hpath, hnil]
  simp

/-- The loop for a slot finds one, if there is one. -/
lemma freeSlot_some {m : Mem} (h : ∃ i < childSlots, ramfsChild m p i = 0) :
    ∃ i < childSlots, freeSlot m p childSlots 0 = some i ∧ ramfsChild m p i = 0 := by
  have hloop : ∀ n i, (∃ j, i ≤ j ∧ j < i + n ∧ ramfsChild m p j = 0) →
      ∃ j < i + n, freeSlot m p n i = some j ∧ ramfsChild m p j = 0 := by
    intro n
    induction n with
    | zero =>
      rintro i ⟨j, h1, h2, -⟩
      omega
    | succ n ih =>
      rintro i ⟨j, h1, h2, hj⟩
      rw [freeSlot]
      by_cases hi : ramfsChild m p i = 0
      · exact ⟨i, by omega, if_pos hi, hi⟩
      · have hne : j ≠ i := fun heq => hi (heq ▸ hj)
        obtain ⟨j', h3, hslot, hj'⟩ := ih (i + 1) ⟨j, by omega, by omega, hj⟩
        exact ⟨j', by omega, (if_neg hi).trans hslot, hj'⟩
  obtain ⟨i, hi, hfree⟩ := h
  obtain ⟨j, hj, hslot⟩ := hloop childSlots 0 ⟨i, Nat.zero_le i, by omega, hfree⟩
  exact ⟨j, by omega, hslot⟩

/-- The slot that is found is one of the parent's, and empty. -/
lemma freeSlot_spec {m : Mem} (h : freeSlot m p childSlots 0 = some i) :
    i < childSlots ∧ ramfsChild m p i = 0 := by
  have hloop : ∀ n j, freeSlot m p n j = some i → i < j + n ∧ ramfsChild m p i = 0 := by
    intro n
    induction n with
    | zero =>
      intro j hj
      cases hj
    | succ n ih =>
      intro j hj
      rw [freeSlot] at hj
      split_ifs at hj with hfree
      · obtain rfl := Option.some.inj hj
        exact ⟨by omega, hfree⟩
      · obtain ⟨hlt, hi⟩ := ih (j + 1) hj
        exact ⟨by omega, hi⟩
  simpa using hloop childSlots 0 h

section Calls

variable {pre : List (List UInt8)} {parent : ℕ}

/-- The names that lead somewhere are short. -/
lemma Shaped.names_short (h : Shaped lo fs t) {ks : List (List UInt8)} {m : ℕ}
    (hm : (ramfsTree fs.bytes).lookup fs.root ks = some m) : ∀ k ∈ ks, k.length ≤ 91 := by
  induction ks using List.reverseRecOn generalizing m with
  | nil => exact fun k hk => absurd hk List.not_mem_nil
  | append_singleton ks k ih =>
    obtain ⟨b, hb, -, hchild⟩ := Tree.lookup_concat.mp hm
    obtain ⟨i, hi, rfl, hne, hsame⟩ := (h.child_eq_some (h.lookup_mem hb)).mp hchild
    have hin := (h.tidy.child b (h.lookup_mem hb) i hi hne).1
    have hshort := (h.node _ hin).short
    rw [← hsame.length_eq] at hshort
    refine List.forall_mem_append.mpr ⟨ih hb, List.forall_mem_singleton.mpr (by omega)⟩

/-- **A call for a new name**, with a path that ends in it, allocates a page and links it. -/
lemma Shaped.create_eq (h : Shaped lo fs t) (hzero : 0 ∉ path) (hends : EndsInName path)
    (hmakes : fs.Makes path pre name parent) (hname : name.length ≤ 91) (type : ℕ) :
    ∃ n < path.length, ∃ i < childSlots, t.childs parent i = 0 ∧ ramfsCreate type fs path =
      if 512 ≤ n then .error (.outOfBounds n)
      else do
        let (kernel, child) ← vmmAlloc fs.kernel 1
        return { fs with kernel, bytes := linked fs.bytes parent i child type name } := by
  obtain ⟨a, b, rfl, hslash, hb⟩ := hends.eq
  have hnames : components a = pre ∧ b = name := by
    have hcomp := hmakes.names
    rw [components_append, components_of_notMem hslash hb] at hcomp
    simpa using List.append_inj' hcomp rfl
  obtain ⟨rfl, rfl⟩ := hnames
  have hmem := h.lookup_mem hmakes.leads
  have hshort : ∀ k ∈ components a, k.length ≤ 127 := fun k hk =>
    (h.names_short hmakes.leads k hk).trans (by norm_num)
  have hall : ∀ k ∈ components (a ++ 0x2f :: b), k.length ≤ 127 := by
    rw [hmakes.names]
    exact List.forall_mem_append.mpr ⟨hshort, List.forall_mem_singleton.mpr (by omega)⟩
  obtain ⟨i, hi, hslot, hfree⟩ := freeSlot_some hmakes.slot
  rw [(h.node parent hmem).child i hi] at hfree
  refine ⟨a.length, by simp, i, hi, hfree, ?_⟩
  have hzero' : 0 ∉ a := fun h => hzero (List.mem_append_left _ h)
  have hparent : ¬(parent = 0 ∨ ramfsType fs.bytes parent ≠ nodeDir) :=
    not_or.mpr ⟨(h.page parent hmem).ne, not_not.mpr hmakes.isDir⟩
  have hnone : ramfsFind fs.bytes (a ++ 0x2f :: b) fs.root = .ok 0 := by
    rw [h.find hzero hall, hmakes.missing]
    rfl
  have hfind : ramfsFind fs.bytes a fs.root = .ok parent := by
    rw [h.find hzero' hshort, hmakes.leads]
    rfl
  rw [ramfsCreate, hnone, ok_bind, if_neg (not_not.mpr rfl),
    ramfsSplitPath_name hslash hb (by omega) hshort]
  split_ifs with hlong
  · rfl
  · rw [ok_bind]
    dsimp only
    rw [hfind, ok_bind, if_neg hparent, hslot]
    rfl

/-- The children of a directory have other names than a name that is missing. -/
lemma Shaped.other_names (h : Shaped lo fs t) (hmakes : fs.Makes path pre name parent) :
    ∀ j < childSlots, t.childs parent j ≠ 0 → ¬SameName (t.name (t.childs parent j)) name := by
  intro j hj hj0 hsame
  have hmem := h.lookup_mem hmakes.leads
  have hfound : (ramfsTree fs.bytes).lookup fs.root (components path) =
      some (t.childs parent j) := by
    rw [hmakes.names]
    exact Tree.lookup_concat.mpr ⟨parent, hmakes.leads, ramfsTree_isDir.mpr hmakes.isDir,
      (h.child_eq_some hmem).mpr ⟨j, hj, rfl, hj0, hsame.symm⟩⟩
  rw [hmakes.missing] at hfound
  cases hfound

/-- **What is created**: the page is a node of the tree. -/
lemma Shaped.makes (h : Shaped lo fs t) {i type child : ℕ} (hzero : 0 ∉ path)
    (hmakes : fs.Makes path pre name parent) (hname : name.length ≤ 91) (htype : type < 2 ^ 32)
    (hi : i < childSlots) (hfree : t.childs parent i = 0) (hroom : fs.kernel.HasPage)
    (halloc : vmmAlloc fs.kernel 1 = .ok (k', child)) :
    child ∉ t.nodes ∧ child ≠ 0 ∧ Shaped lo
      { fs with kernel := k', bytes := linked fs.bytes parent i child type name }
      (t.add parent i child name type) := by
  have hmem := h.lookup_mem hmakes.leads
  have hdir : t.type parent = nodeDir := by
    rw [← (h.node parent hmem).type]
    exact hmakes.isDir
  have hin : name ∈ components path := by
    rw [hmakes.names]
    exact List.mem_append_right _ List.mem_cons_self
  exact h.create hmem hdir hi hfree (fun h0 => hzero (components_subset hin h0)) hname htype
    (h.other_names hmakes) hroom halloc

/-- Names that lead to a node are looked up. -/
lemma Shaped.lookup_of_find (h : Shaped lo fs t) {node : ℕ} (hzero : 0 ∉ path)
    (hfind : ramfsFind fs.bytes path fs.root = .ok node) (hne : node ≠ 0) :
    (∀ k ∈ components path, ShortName k) ∧
      (ramfsTree fs.bytes).lookup fs.root (components path) = some node := by
  rw [ramfsFind_eq] at hfind
  cases hlook : Lookup.find (ramfsFindName fs.bytes) fs.root (components path) with
  | error e =>
    rw [hlook] at hfind
    cases hfind
  | ok r =>
    rw [hlook] at hfind
    have hr : r = some node := by
      cases r with
      | none => exact absurd (Except.ok.inj hfind).symm hne
      | some b => exact congrArg some (Except.ok.inj hfind)
    subst hr
    have hshort : ∀ k ∈ components path, ShortName k := by
      intro k hk
      obtain ⟨a, b, hstep⟩ := steps_of_find hlook k hk
      refine ⟨?_, fun h0 => hzero (components_subset hk h0)⟩
      rw [ramfsFindName] at hstep
      split_ifs at hstep with hlong
      omega
    obtain ⟨x, hx, hrel⟩ := find_lookup (ramfs_simulates fs.bytes) rfl hshort
      fun pre k rest n' _ hn' => (h.walkable (h.lookup_mem hn')).harmless
    obtain rfl := Except.ok.inj (hlook.symm.trans hx)
    refine ⟨hshort, ?_⟩
    cases hlookup : (ramfsTree fs.bytes).lookup fs.root (components path) with
    | none =>
      rw [hlookup] at hrel
      cases hrel
    | some c =>
      rw [hlookup] at hrel
      cases hrel with
      | some heq => rw [heq]

/-- **Every other call** leaves the tree as it is. -/
lemma Shaped.create_other (h : Shaped lo fs t) {fs' : RamfsTree} (hzero : 0 ∉ path)
    (hnone : ∀ pre name parent, ¬fs.Makes path pre name parent)
    (hcall : ramfsCreate type fs path = .ok fs') : fs' = fs := by
  rw [ramfsCreate, bind_eq_ok] at hcall
  obtain ⟨found, hfind, hcall⟩ := hcall
  split_ifs at hcall with hfound
  · exact (Except.ok.inj hcall).symm
  have hfound : found = 0 := not_not.mp hfound
  subst hfound
  obtain ⟨⟨pathBuf, toCreate⟩, hsplit, hcall⟩ := bind_eq_ok.mp hcall
  obtain ⟨node, hnode, hcall⟩ := bind_eq_ok.mp hcall
  split_ifs at hcall with hdir
  · exact (Except.ok.inj hcall).symm
  obtain ⟨hne, htype⟩ := not_or.mp hdir
  rw [not_not] at htype
  cases hslot : freeSlot fs.bytes node childSlots 0 with
  | none =>
    rw [hslot] at hcall
    exact (Except.ok.inj hcall).symm
  | some i =>
    -- the call would be one for a new name
    exfalso
    rcases ramfsSplitPath_ok hsplit with hsame | ⟨nm, -, -, -, hnames⟩
    · rw [ramfsFind_eq, hsame, ← ramfsFind_eq, hnode] at hfind
      exact hne (Except.ok.inj hfind)
    have hzero' : 0 ∉ pathBuf := fun h0 => hzero (ramfsSplitPath_subset hsplit h0)
    obtain ⟨hshort, hlead⟩ := h.lookup_of_find hzero' hnode hne
    refine hnone _ nm node ⟨hnames, ?_, hlead, htype, i, (freeSlot_spec hslot).1,
      (freeSlot_spec hslot).2⟩
    have hlong : nm.length ≤ 127 := by
      obtain ⟨b, rfl, hrest⟩ := find_append (ramfs_simulates fs.bytes) rfl hshort hlead
      rw [ramfsFind_eq, hnames, hrest [nm]] at hfind
      by_contra hlong
      rw [Lookup.find_cons_error (show ramfsFindName fs.bytes node nm = _ from
        if_pos (by omega))] at hfind
      cases hfind
    have hall : ∀ k ∈ components path, k.length ≤ 127 := by
      rw [hnames]
      exact List.forall_mem_append.mpr ⟨fun k hk => (hshort k hk).1,
        List.forall_mem_singleton.mpr hlong⟩
    rw [h.find hzero hall] at hfind
    cases hlookup : (ramfsTree fs.bytes).lookup fs.root (components path) with
    | none => rfl
    | some m =>
      rw [hlookup] at hfind
      exact absurd (Except.ok.inj hfind) (h.page m (h.lookup_mem hlookup)).ne

end Calls

/-! ### Runs -/

/-- A ramfs is mounted, and there were pages for the mount and for its root. -/
def Mounted (lo : ℕ) (fs : RamfsTree) : Prop :=
  ∃ k k₁ p bytes, KernelInv lo k ∧ k.pmm.Used 0 ∧ k.HasPage ∧ vmmAlloc k 1 = .ok (k₁, p) ∧
    k₁.HasPage ∧
    getRamfs k bytes = .ok fs

/-- A path creates nothing, or it has a slash, ends in a name that a node has room for, and there
is a page for the node. -/
def Named (fs : RamfsTree) (path : List UInt8) : Prop :=
  ∀ pre name parent, fs.Makes path pre name parent →
    EndsInName path ∧ name.length ≤ 91 ∧ fs.kernel.HasPage

/-- The calls that create nodes, with such paths. -/
inductive NamedCall : RamfsTree → RamfsTree → Prop where
  | mkdir {fs fs' : RamfsTree} {path : List UInt8} (zero : 0 ∉ path) (named : fs.Named path)
      (call : ramfsMkdir fs path = .ok fs') : NamedCall fs fs'
  | touch {fs fs' : RamfsTree} {path : List UInt8} (zero : 0 ∉ path) (named : fs.Named path)
      (call : ramfsTouch fs path = .ok fs') : NamedCall fs fs'

/-- Nodes that names lead to have no two children of a name. -/
def NamesApart (fs : RamfsTree) : Prop :=
  ∀ ks node, (ramfsTree fs.bytes).lookup fs.root ks = some node → ∀ i < childSlots,
    ∀ j < childSlots, ramfsChild fs.bytes node i ≠ 0 → ramfsChild fs.bytes node j ≠ 0 →
      ∀ k, HasName fs.bytes (ramfsChild fs.bytes node i) k →
        HasName fs.bytes (ramfsChild fs.bytes node j) k → i = j

/-- **A node has been created**: the path leads to it and it did not exist, it has the type and no
children, and what is found under other names is what was found. -/
structure Created (fs : RamfsTree) (path : List UInt8) (type child : ℕ) (fs' : RamfsTree) :
    Prop where
  found : ramfsFind fs'.bytes path fs'.root = .ok child
  notNull : child ≠ 0
  new : ∀ ks, (ramfsTree fs.bytes).lookup fs.root ks ≠ some child
  type : ramfsType fs'.bytes child = type
  empty : NoChildren fs'.bytes child
  others : ∀ path', 0 ∉ path' → (∀ k ∈ components path', k.length ≤ 127) →
    ¬List.Forall₂ SameName (components path') (components path) →
      ramfsFind fs'.bytes path' fs'.root = ramfsFind fs.bytes path' fs.root

/-- In a tree the names differ. -/
lemma Shaped.namesApart (h : Shaped lo fs t) : fs.NamesApart := by
  intro ks node hnode i hi j hj hi0 hj0 k hk hk'
  have hmem := h.lookup_mem hnode
  have hchild := (h.node node hmem).child
  rw [hchild i hi] at hi0 hk
  rw [hchild j hj] at hj0 hk'
  have hsame := (h.hasName (h.tidy.child node hmem i hi hi0).1).mp hk
  have hsame' := (h.hasName (h.tidy.child node hmem j hj hj0).1).mp hk'
  exact h.tidy.apart node hmem i hi j hj hi0 hj0 (hsame.symm.trans hsame')

/-- A ramfs that was mounted has a root without children. -/
lemma Mounted.shaped (h : Mounted lo fs) : ∃ t, Shaped lo fs t := by
  obtain ⟨k, k₁, p, bytes, hi, hzero, hroom, hmount, hroom₁, hget⟩ := h
  obtain ⟨hi₁, hpage, -, hkept⟩ := vmmAlloc_page hi hzero hroom hmount
  have hroot := hget
  rw [getRamfs, hmount, ok_bind] at hroot
  obtain ⟨⟨k₂, q⟩, hroot, -⟩ := bind_eq_ok.mp hroot
  obtain ⟨hi₂, hpage₂, -, hkept₂⟩ := vmmAlloc_page hi₁ (hkept 0 hzero) hroom₁ hroot
  obtain ⟨bytes', hget', hnode, -⟩ := getRamfs_root bytes hmount hroot hpage.lt hpage₂.lt
  obtain rfl := Except.ok.inj (hget.symm.trans hget')
  refine ⟨⟨{q}, fun _ => [], fun _ => nodeDir, fun _ _ => 0⟩, ⟨rfl, rfl, ?_, ?_, ?_⟩, hi₂,
    hkept₂ 0 (hkept 0 hzero), ?_, ?_⟩
  · exact fun n _ i _ hne => absurd rfl hne
  · exact fun n _ n' _ i _ j _ hne => absurd rfl hne
  · exact fun n _ i _ j _ hne => absurd rfl hne
  · rintro n rfl
    exact hpage₂
  · rintro n rfl
    exact hnode

/-- **A call keeps the tree a tree.** -/
lemma Shaped.call (h : Shaped lo fs t) {fs' : RamfsTree} (hzero : 0 ∉ path)
    (hnamed : fs.Named path) (htype : type < 2 ^ 32) (hcall : ramfsCreate type fs path = .ok fs') :
    ∃ t, Shaped lo fs' t := by
  by_cases hmakes : ∃ pre name parent, fs.Makes path pre name parent
  · obtain ⟨pre, name, parent, hmakes⟩ := hmakes
    obtain ⟨hends, hname, hroom⟩ := hnamed pre name parent hmakes
    obtain ⟨n, -, i, hi, hfree, heq⟩ := h.create_eq hzero hends hmakes hname type
    rw [heq] at hcall
    split_ifs at hcall
    obtain ⟨⟨k', child⟩, halloc, hret⟩ := bind_eq_ok.mp hcall
    obtain ⟨-, -, hshaped⟩ := h.makes hzero hmakes hname htype hi hfree hroom halloc
    obtain rfl := Except.ok.inj hret
    exact ⟨_, hshaped⟩
  · obtain rfl := h.create_other hzero
      (fun pre name parent hm => hmakes ⟨pre, name, parent, hm⟩) hcall
    exact ⟨t, h⟩

/-- **The tree is a tree**, along every run. -/
lemma shaped_of_reachable (h : Reachable (Mounted lo) NamedCall fs) : ∃ t, Shaped lo fs t := by
  refine h.invariant (fun fs => ∃ t, Shaped lo fs t) (fun fs hfs => hfs.shaped) ?_
  rintro fs fs' ⟨t, hshaped⟩ hstep
  cases hstep with
  | mkdir zero named call => exact hshaped.call zero named (by norm_num [nodeDir]) call
  | touch zero named call => exact hshaped.call zero named (by norm_num [nodeFile]) call

/-- **What a call for a new name does** in a tree. -/
lemma Shaped.created (h : Shaped lo fs t) {pre : List (List UInt8)} {parent child : ℕ}
    (hzero : 0 ∉ path) (hlen : path.length < 512) (hends : EndsInName path)
    (hmakes : fs.Makes path pre name parent) (hname : name.length ≤ 91) (htype : type < 2 ^ 32)
    (hroom : fs.kernel.HasPage) (halloc : vmmAlloc fs.kernel 1 = .ok (k', child)) :
    ∃ fs', ramfsCreate type fs path = .ok fs' ∧ fs.Created path type child fs' ∧
      fs'.NamesApart := by
  obtain ⟨n, hn, i, hi, hfree, heq⟩ := h.create_eq hzero hends hmakes hname type
  obtain ⟨hc, hc0, h'⟩ := h.makes hzero hmakes hname htype hi hfree hroom halloc
  set fs' : RamfsTree :=
    { fs with kernel := k', bytes := linked fs.bytes parent i child type name } with hfs'
  have hparent := h.lookup_mem hmakes.leads
  have hadds : Tree.Adds (ramfsTree fs.bytes) (ramfsTree fs'.bytes) t.nodes
      (fun k => SameName k name) parent child :=
    h.adds h' hparent hi hfree hc hc0 (h.other_names hmakes)
  have hshort : ∀ k ∈ components path, k.length ≤ 127 := by
    intro k hk
    rw [hmakes.names] at hk
    rcases List.mem_append.mp hk with hk | hk
    · exact (h.names_short hmakes.leads k hk).trans (by norm_num)
    · obtain rfl := List.mem_singleton.mp hk
      omega
  have hnode := h'.node child (.inl rfl)
  refine ⟨fs', ?_, ⟨?_, hc0, ?_, ?_, ?_, ?_⟩, h'.namesApart⟩
  · rw [heq, if_neg (by omega), halloc]
    rfl
  · have hnew := hadds.lookup_new hparent h.tidy.root (ramfsTree_isDir.mpr hmakes.isDir)
      hmakes.leads (k := name) rfl
    rw [h'.find hzero hshort, hmakes.names]
    exact congrArg (fun r => Except.ok (r.getD 0)) hnew
  · exact fun ks hks => hc (h.lookup_mem hks)
  · rw [hnode.type]
    simp [RamfsShape.add]
  · intro j hj
    rw [hnode.child j hj, RamfsShape.add_childs_self]
  · intro path' hzero' hshort' hother
    rw [h'.find hzero' hshort', h.find hzero' hshort']
    have hroot : fs'.root = fs.root := rfl
    rw [hroot]
    cases hlookup : (ramfsTree fs.bytes).lookup fs.root (components path') with
    | some m => rw [hadds.lookup_some h.tidy.root hlookup]
    | none =>
      rcases hadds.lookup_none h.tidy.root hlookup with hnone | ⟨pre', k, hks, hpre', hk⟩
      · rw [hnone]
      · -- the names would be those of the new node
        refine absurd ?_ hother
        rw [hks, hmakes.names]
        exact List.rel_append (h.keys_unique hpre' hmakes.leads) (.cons hk .nil)

end RamfsTree

open RamfsTree

/-- **What `ramfs_mkdir` and `ramfs_touch` create.** In a ramfs that was changed by calls whose
paths end in the names they create, such a call, for a path below 512 bytes, creates its last name
when there is a page for it; the children of every directory have different names. -/
theorem ramfs_creates {lo : ℕ} {fs : RamfsTree} (h : Reachable (Mounted lo) NamedCall fs) :
    fs.NamesApart ∧ ∀ {path pre name parent k' child}, 0 ∉ path → path.length < 512 →
      fs.Makes path pre name parent → fs.Named path →
      vmmAlloc fs.kernel 1 = .ok (k', child) →
        (∃ fs', ramfsMkdir fs path = .ok fs' ∧ fs.Created path nodeDir child fs' ∧
          fs'.NamesApart) ∧
        ∃ fs', ramfsTouch fs path = .ok fs' ∧ fs.Created path nodeFile child fs' ∧
          fs'.NamesApart := by
  obtain ⟨t, hshaped⟩ := shaped_of_reachable h
  refine ⟨hshaped.namesApart, fun hzero hlen hmakes hnamed halloc => ?_⟩
  obtain ⟨hends, hname, hroom⟩ := hnamed _ _ _ hmakes
  exact ⟨hshaped.created hzero hlen hends hmakes hname (by norm_num [nodeDir]) hroom halloc,
    hshaped.created hzero hlen hends hmakes hname (by norm_num [nodeFile]) hroom halloc⟩


/-! ### On the machine -/

/-- A ramfs that was mounted on the machine, with a page for a node. -/
lemma mounted_on_machine : ∃ fs k' child, Mounted bootLayout.poolFrame fs ∧ fs.kernel.HasPage ∧
    vmmAlloc fs.kernel 1 = .ok (k', child) ∧
    RamfsNodeAt fs.bytes fs.root [] nodeDir (fun _ => 0) ∧ fs.root ≠ 0 := by
  obtain ⟨k₀, h₀⟩ := machine_handedOut
  obtain ⟨k₁, M, hM, hMlt, -, h₁⟩ := h₀.next
  obtain ⟨k₂, R, hR, hRlt, hRnew, h₂⟩ := h₁.next
  obtain ⟨k₃, C, hC, -⟩ := h₂.next
  obtain ⟨bytes, hget, hroot, -⟩ := getRamfs_root (fun _ => 0) hM hR (by omega) (by omega)
  simp only [List.mem_cons, List.not_mem_nil, or_false, not_or] at hRnew
  refine ⟨_, k₃, C * 0x1000, ⟨k₀, k₁, M * 0x1000, fun _ => 0, h₀.inv, h₀.used 0 h₀.null,
    h₀.room (by norm_num), hM, h₁.room (by norm_num), hget⟩, h₂.room (by norm_num), hC, hroot, ?_⟩
  exact Nat.mul_ne_zero hRnew.2 (by norm_num)

/-- A name is new in a root without children. -/
lemma makes_in_empty {fs : RamfsTree} (h : RamfsNodeAt fs.bytes fs.root [] nodeDir fun _ => 0)
    (hnames : components path = [name]) : fs.Makes path [] name fs.root := by
  have hnone : (ramfsTree fs.bytes).child fs.root name = none := by
    rw [ramfsTree]
    dsimp only
    rw [ramfsChildren_eq_nil.mpr fun i hi => h.child i hi]
    rfl
  refine ⟨hnames, ?_, rfl, h.type, 0, by decide, h.child 0 (by decide)⟩
  rw [hnames, Tree.lookup_cons (ramfsTree_isDir.mpr h.type), hnone]
  rfl

/-- The directory `/a` is created in a ramfs without nodes. -/
theorem ramfs_creates_on_machine : ∃ fs k' child fs',
    Reachable (Mounted bootLayout.poolFrame) NamedCall fs ∧
      fs.Makes [0x2f, 0x61] [] [0x61] fs.root ∧ vmmAlloc fs.kernel 1 = .ok (k', child) ∧
      ramfsMkdir fs [0x2f, 0x61] = .ok fs' ∧ fs.Created [0x2f, 0x61] nodeDir child fs' := by
  obtain ⟨fs, k', child, hmounted, hroom, halloc, hroot, -⟩ := mounted_on_machine
  have hmakes : fs.Makes [0x2f, 0x61] [] [0x61] fs.root := makes_in_empty hroot (by decide)
  have hnamed : fs.Named [0x2f, 0x61] := by
    intro pre name parent h
    have hnames : [] ++ [[0x61]] = pre ++ [name] := h.names
    obtain ⟨-, rfl⟩ := (List.append_inj' hnames rfl).imp id List.singleton_inj.mp
    exact ⟨by decide, by decide, hroom⟩
  obtain ⟨fs', hcall, hcreated, -⟩ :=
    ((ramfs_creates (.start hmounted)).2 (by decide) (by decide) hmakes hnamed halloc).1
  exact ⟨fs, k', child, fs', .start hmounted, hmakes, halloc, hcall, hcreated⟩

/-- The split of a path that ends in a slash. -/
lemma ramfsSplitPath_slash : ramfsSplitPath [0x2f, 0x61, 0x2f] = .ok ([], [0x61, 0x2f]) := by
  rw [ramfsSplitPath, splitLoop_eq _ (by decide), if_neg (by decide), if_neg (by decide),
    show (copyUntil 0x2f [0x2f, 0x61, 0x2f]).2 = [0x61, 0x2f] from by decide,
    splitLoop_eq _ (by decide), if_neg (by decide), if_pos (by decide)]
  rfl

/-- **Paths of other forms.** In a ramfs without nodes, a call for the path `a` goes on with a
pointer that has no value, and one for `/a/` creates a node that the path does not lead to. -/
theorem ramfs_creates_wrong_name : ∃ fs fs', Mounted bootLayout.poolFrame fs ∧
    fs.Makes [0x61] [] [0x61] fs.root ∧ ramfsMkdir fs [0x61] = .error .abort ∧
    fs.Makes [0x2f, 0x61, 0x2f] [] [0x61] fs.root ∧ ramfsMkdir fs [0x2f, 0x61, 0x2f] = .ok fs' ∧
    ramfsFind fs'.bytes [0x2f, 0x61, 0x2f] fs'.root = .ok 0 := by
  obtain ⟨fs, k', child, hmounted, hroom, halloc, hroot, hne⟩ := mounted_on_machine
  obtain ⟨t, h⟩ := hmounted.shaped
  have hempty : ∀ j < childSlots, t.childs fs.root j = 0 := fun j hj => by
    rw [← (h.node _ h.tidy.root).child j hj, hroot.child j hj]
  have hmakes : fs.Makes [0x61] [] [0x61] fs.root := makes_in_empty hroot (by decide)
  have hmakes' : fs.Makes [0x2f, 0x61, 0x2f] [] [0x61] fs.root :=
    makes_in_empty hroot (by decide)
  have hmissing : ∀ {path}, 0 ∉ path → components path = [[0x61]] →
      fs.Makes path [] [0x61] fs.root → ramfsFind fs.bytes path fs.root = .ok 0 := by
    intro path hzero hnames hmakes
    rw [h.find hzero (by rw [hnames]; decide), hmakes.missing]
    rfl
  have hzero : (0 : UInt8) ∉ ([0x61, 0x2f] : List UInt8) := by decide
  have htype : nodeDir < 2 ^ 32 := by decide
  obtain ⟨hnew, -, h'⟩ := h.create h.tidy.root h.tidy.root_dir (by decide)
    (hempty 0 (by decide)) hzero (by decide) htype
    (fun j hj hj0 => absurd (hempty j hj) hj0) hroom halloc
  refine ⟨fs, { fs with
    kernel := k', bytes := linked fs.bytes fs.root 0 child nodeDir [0x61, 0x2f] }, hmounted, hmakes,
    ?_, hmakes', ?_, ?_⟩
  · rw [ramfsMkdir, ramfsCreate, hmissing (by decide) (by decide) hmakes, ok_bind,
      if_neg (not_not.mpr rfl), ramfsSplitPath, splitLoop_eq _ (by decide), if_neg (by decide),
      if_pos (by decide)]
    rfl
  · have hslot : freeSlot fs.bytes fs.root childSlots 0 = some 0 := by
      rw [childSlots, freeSlot, if_pos (hroot.child 0 (by decide))]
    have hfind : ramfsFind fs.bytes [] fs.root = .ok fs.root := by
      rw [ramfsFind_eq]
      rfl
    rw [ramfsMkdir, ramfsCreate, hmissing (by decide) (by decide) hmakes', ok_bind,
      if_neg (not_not.mpr rfl), ramfsSplitPath_slash, ok_bind]
    dsimp only
    rw [hfind, ok_bind, if_neg (not_or.mpr ⟨hne, not_not.mpr hroot.type⟩), hslot]
    dsimp only
    rw [halloc]
    rfl
  · have hroot' : fs.root ≠ child := fun heq => hnew (heq ▸ h.tidy.root)
    -- the name of the only child is longer
    have hnone : (ramfsTree (linked fs.bytes fs.root 0 child nodeDir [0x61, 0x2f])).child fs.root
        [0x61] = none := by
      rw [Option.eq_none_iff_forall_ne_some]
      intro m hm
      obtain ⟨i, hi, hchild, hm0, hsame⟩ :=
        (h'.child_eq_some (n := fs.root) (.inr h.tidy.root)).mp hm
      by_cases hi0 : i = 0
      · rw [hi0, RamfsShape.add_childs_parent hroot'] at hchild
        rw [← hchild, RamfsShape.add_name_self] at hsame
        exact absurd hsame.length_eq (by decide)
      · rw [RamfsShape.add_childs_of_ne hroot' fun h => hi0 h.2, hempty i hi] at hchild
        exact hm0 hchild.symm
    have hdir : (t.add fs.root 0 child [0x61, 0x2f] nodeDir).type fs.root = nodeDir := by
      rw [RamfsShape.add_type_of_ne hroot', h.tidy.root_dir]
    have hnames : components [0x2f, 0x61, 0x2f] = [[0x61]] := by decide
    rw [h'.find (by decide) (by decide), hnames,
      Tree.lookup_cons ((h'.isDir (.inr h.tidy.root)).mpr hdir), hnone]
    rfl

end MicroOS
