import MicroOS.FileSystem.RamfsHandles

/-!
What a file of RamFS shows of the memory that its pages were taken from.

* `FileCall`, `FileTable.call`: the calls, with what they do to memory and the addresses that they
  read; `FileTable.reads`: what the calls of a run read;
* `FileTable.contentsAfter`: the bytes that are written in the run, as in `RamfsRun`;
* `FileTable.Covers`, `FileTable.Covered`: a call finds its pages, and a read copies bytes only that
  were written since the file was last shorter;
* `FileTable.ramfs_write`, `FileTable.ramfs_truncate`: below `2 ^ 31` they are those of `Ramfs`;
* `FileTable.Keeps.call`, `FileTable.Keeps.reads_eq`: the step lemma, and what is read in a step;
* `ramfs_reads_agree`: **such a run reads the same whatever is in free frames**;
* `old_memory_read`: a gap that no one wrote to is read.

The nodes and the handles are kept apart from the contents of memory. The pages that `vmm_alloc`
returns for them are not read by these calls.
-/

namespace MicroOS

open ByteMem Checked RamfsRun

/-! ### Calls -/

/-- A buffer of a caller. -/
abbrev UserBytes := { data : List UInt8 // data.length < 2 ^ 32 }

/-- A call. A read comes with where its assertion fails, if it does. -/
inductive FileCall where
  | touch
  | open (node : ℕ)
  | write (file : ℕ) (data : UserBytes) (offset : BitVec 32)
  | truncate (file : ℕ) (newSize : BitVec 32)
  | read (file : ℕ) (size offset : BitVec 32) (a : Asserting)

/-- What a call does to memory, and the addresses that it copies to the caller. -/
structure Access where
  after : Mem → Mem
  reads : List ℕ

namespace FileTable

/-- The node of a handle. -/
def nodeOf (t : FileTable) (file : ℕ) : FileNode := t.nodes (t.files file).node

/-- `ramfs_touch` of a new file: its page, which is cleared. -/
def touch (t : FileTable) : Except Halt (FileTable × ℕ) := do
  let (kernel, child) ← vmmAlloc t.kernel 1
  return ({ t with kernel, nodes := Function.update t.nodes child ⟨0, 0⟩ }, child)

/-- The kernel after the assertion of `ramfs_read`. A task whose assertion fails is ended. -/
def asserted (t : FileTable) (file : ℕ) (size offset : BitVec 32) (a : Asserting) :
    Except Halt Kernel :=
  if (t.nodeOf file).fsize.toNat ≥ (offset + size).toNat then .ok t.kernel
  else if a.isSchedulerRunning then exitTask t.kernel t.kernel.currentTask
  else .error .abort

/-- `ramfs_read` through a handle, and the addresses that are copied to the caller. -/
def read (t : FileTable) (file : ℕ) (size offset : BitVec 32) (a : Asserting) :
    Except Halt (FileTable × List ℕ) := do
  let kernel ← t.asserted file size offset a
  match (t.nodeOf file).ramfsRead a size offset with
  | .ok range => return ({ t with kernel }, (List.range range.2).map fun i => wrap32 (range.1 + i))
  | .error _ => return ({ t with kernel }, [])

/-- A call, and what it does to memory. The page of a new node is its `sizeof`. -/
def call (t : FileTable) : FileCall → Except Halt (FileTable × Access)
  | .touch => do
      let (t, child) ← t.touch
      return (t, ⟨fun m => memset m child 0 0x1000, []⟩)
  | .open node => do
      let (t, _) ← t.open node
      return (t, ⟨id, []⟩)
  | .write file data offset => do
      let (t, copied) ← t.write file (BitVec.ofNat 32 data.1.length) offset
      return (t, ⟨copied.foldl (MemCopy.run data.1), []⟩)
  | .truncate file newSize => do
      let (t, copied) ← t.truncate file newSize
      return (t, ⟨copied.foldl (MemCopy.run []), []⟩)
  | .read file size offset a => do
      let (t, reads) ← t.read file size offset a
      return (t, ⟨id, reads⟩)

/-- What the calls of a run read, one list of bytes for each call, up to the first one that does not
return. -/
def reads (t : FileTable) (m : Mem) : List FileCall → List (List UInt8)
  | [] => []
  | e :: l =>
    match t.call e with
    | .ok (t', access) => access.reads.map (access.after m) :: t'.reads (access.after m) l
    | .error _ => []

/-! ### The condition -/

/-- The contents of the files after a call. A new file has none. -/
def contentsAfter (t : FileTable) (c : ℕ → FileContents) : FileCall → ℕ → FileContents
  | .touch =>
    match t.touch with
    | .ok (_, child) => Function.update c child .empty
    | .error _ => c
  | .write file data offset =>
    let n := (t.files file).node
    Function.update c n ((c n).write data.1 offset.toNat)
  | .truncate file newSize =>
    let n := (t.files file).node
    Function.update c n ((c n).truncate newSize.toNat)
  | .open _ | .read .. => c

/-- The null page, or a frame of the buffer of a file. -/
def Needs (t : FileTable) (f : ℕ) : Prop :=
  f = 0 ∨ ∃ n, BufferFrame (t.nodes n).fdata (t.nodes n).fsize.toNat f

/-- The task that runs is not charged with a frame that the files need, and has none in its kernel
stack. -/
structure ExitSpares (t : FileTable) : Prop where
  active : (t.kernel.tasks t.kernel.currentTask).active = true
  charged : ∀ f, t.Needs f → ¬t.kernel.Charged t.kernel.currentTask f
  stack : ∀ f, t.Needs f →
    ¬StackFrame ((t.kernel.tasks t.kernel.currentTask).stack / 0x1000) f

/-- **The condition on a call.** It finds the pages that it asks for, sizes are below `2 ^ 31`, and
a read copies bytes only that were written since the file was last shorter. A read whose assertion
fails ends a task that does not give back pages of files. -/
def Covers (t : FileTable) (c : ℕ → FileContents) : FileCall → Prop
  | .touch | .open _ => ∃ f, t.kernel.pmm.FreeRun f 1
  | .write file data offset =>
    offset.toNat + data.1.length < 2 ^ 31 ∧
      ((t.nodeOf file).fsize.toNat < offset.toNat + data.1.length →
        HasRoom t.kernel (t.nodeOf file).fsize.toNat (offset.toNat + data.1.length)
          (t.nodeOf file).fdata)
  | .truncate file newSize =>
    newSize.toNat < 2 ^ 31 ∧
      HasRoom t.kernel (t.nodeOf file).fsize.toNat newSize.toNat (t.nodeOf file).fdata
  | .read file size offset a =>
    (wrap32 (offset.toNat + size.toNat) ≤ (t.nodeOf file).fsize.toNat ∨ a.Returns →
      ∀ p, offset.toNat ≤ p → p < offset.toNat + size.toNat →
        ((c (t.files file).node).byte p).isSome) ∧
    ((t.nodeOf file).fsize.toNat < wrap32 (offset.toNat + size.toNat) → t.ExitSpares)

/-- The calls of a run meet the condition, each in the state that it is made in. -/
def Covered (t : FileTable) (c : ℕ → FileContents) : List FileCall → Prop
  | [] => True
  | e :: l => t.Covers c e ∧ ∀ t' access, t.call e = .ok (t', access) →
      t'.Covered (t.contentsAfter c e) l

/-! ### The files of `Ramfs` -/

/-- The files with the contents of memory. -/
def ramfs (t : FileTable) (m : Mem) : Ramfs where
  kernel := t.kernel
  bytes := m
  nodes n := ⟨(t.nodes n).fsize.toNat, (t.nodes n).fdata⟩
  files file := ⟨(t.files file).node, (t.files file).size.toNat⟩

variable {lo file : ℕ} {t t' : FileTable} {m m' : Mem} {c : ℕ → FileContents} {e : FileCall}
  {access : Access} {kernel : Kernel} {node : FileNode} {newSize offset : BitVec 32}
  {data : List UInt8} {copied : List MemCopy}

/-- A call leaves its kernel behind, and the node of its file. -/
lemma ramfs_refresh : (t.refresh file kernel node).ramfs m =
    { kernel
      bytes := m
      nodes := Function.update (t.ramfs m).nodes (t.files file).node ⟨node.fsize.toNat, node.fdata⟩
      files :=
        Function.update (t.ramfs m).files file ⟨(t.files file).node, node.fsize.toNat⟩ } := by
  refine congrArg₂ (Ramfs.mk kernel m) (funext fun n => ?_) (funext fun f => ?_)
  · dsimp only [refresh, ramfs]
    by_cases hn : n = (t.files file).node
    · rw [hn, Function.update_self, Function.update_self]
    · rw [Function.update_of_ne hn, Function.update_of_ne hn]
  · dsimp only [refresh, ramfs]
    by_cases hf : f = file
    · rw [hf, Function.update_self, Function.update_self]
    · rw [Function.update_of_ne hf, Function.update_of_ne hf]

/-- `ramfs_truncate` below `2 ^ 31`. -/
lemma ramfs_truncate (hold : (t.nodeOf file).fsize.toNat < 2 ^ 31) (hnew : newSize.toNat < 2 ^ 31)
    (h : t.truncate file newSize = .ok (t', copied)) :
    (t.ramfs m).truncate file newSize.toNat =
      .ok (t'.ramfs (copied.foldl (MemCopy.run data) m)) := by
  obtain ⟨⟨k, node, moved⟩, htrunc, hret⟩ := bind_eq_ok.mp h
  obtain ⟨rfl, rfl⟩ := Prod.mk.inj (Except.ok.inj hret)
  obtain ⟨⟨k', fdata, moved⟩, hresize, hret⟩ := bind_eq_ok.mp htrunc
  cases hret
  rw [nodeOf] at hold
  have hbytes : resizeBytes t.kernel m _ _ (t.nodes (t.files file).node).fdata = _ :=
    resizeBytes_words data hold hnew
  rw [hresize] at hbytes
  rw [Ramfs.truncate, ramfs_refresh]
  dsimp only [ramfs]
  rw [hbytes]
  rfl

/-- `ramfs_write` below `2 ^ 31`. -/
lemma ramfs_write (hold : (t.nodeOf file).fsize.toNat < 2 ^ 31)
    (hnew : offset.toNat + data.length < 2 ^ 31)
    (h : t.write file (BitVec.ofNat 32 data.length) offset = .ok (t', copied)) :
    (t.ramfs m).write file data offset.toNat =
      .ok (t'.ramfs (copied.foldl (MemCopy.run data) m)) := by
  have hlength : (BitVec.ofNat 32 data.length).toNat = data.length := Nat.mod_eq_of_lt (by omega)
  have hsum : (offset + BitVec.ofNat 32 data.length).toNat = offset.toNat + data.length := by
    rw [toNat_add_eq, hlength, wrap32_of_lt (by omega)]
  obtain ⟨⟨k, node, moved⟩, hwrite, hret⟩ := bind_eq_ok.mp h
  obtain ⟨rfl, rfl⟩ := Prod.mk.inj (Except.ok.inj hret)
  have hgrows : (t.nodeOf file).Grows (BitVec.ofNat 32 data.length) offset ↔
      offset.toNat + data.length > (t.nodeOf file).fsize.toNat := by
    rw [FileNode.Grows, BitVec.toInt_eq_toNat_cond, BitVec.toInt_eq_toNat_cond, hsum,
      if_pos (by omega), if_pos (by omega)]
    omega
  rw [nodeOf] at hold hgrows
  rw [Ramfs.write, Ramfs.grow, ramfs_refresh]
  dsimp only [ramfs]
  rcases FileNode.ramfsWrite_cases hwrite with
    ⟨hnot, rfl, rfl, rfl⟩ | ⟨hgrow, newPtr, moved, hresize, rfl, rfl⟩
  · have hle : ¬offset.toNat + data.length > (t.nodes (t.files file).node).fsize.toNat :=
      fun hlt => hnot (hgrows.mpr hlt)
    simp only [hle, if_false, ok_bind, Function.update_eq_self_iff.mpr, List.foldl_cons,
      List.foldl_nil, MemCopy.run, hlength]
    rfl
  · have hbytes : resizeBytes t.kernel m _ _ (t.nodes (t.files file).node).fdata = _ :=
      resizeBytes_words data hold (hsum ▸ hnew)
    rw [hresize, hsum] at hbytes
    simp only [hgrows.mp hgrow, if_true, hbytes, Functor.map, Except.map, ok_bind, pure,
      Except.pure, Function.update_self, List.foldl_append, List.foldl_cons, List.foldl_nil,
      MemCopy.run, hsum]

/-! ### One call -/

/-- **The buffers hold the contents**, and the sizes are not negative. -/
structure Keeps (lo : ℕ) (t : FileTable) (m : Mem) (c : ℕ → FileContents) : Prop where
  stored : Stored lo ⟨t.ramfs m, c⟩
  small : ∀ n, (t.nodes n).fsize.toNat < 2 ^ 31

/-- The kernel takes frames and gives back none of a buffer, and no buffer is written to. -/
lemma Keeps.other {k' : Kernel} (h : t.Keeps lo m c) (hi : KernelInv lo k') (hzero : k'.pmm.Used 0)
    (hused : ∀ n f, (t.ramfs m).Frame n f → k'.pmm.Used f)
    (hbytes : ∀ n x, (t.ramfs m).Frame n (x / 0x1000) → m' x = m x) :
    Keeps lo { t with kernel := k' } m' c :=
  ⟨(h.stored.step (e := .other k' m') trivial ⟨hi, hzero, hused, hbytes⟩ rfl).1, h.small⟩

lemma Keeps.files (h : t.Keeps lo m c) (files : ℕ → FileHandle) :
    Keeps lo { t with files } m c := ⟨h.stored.files _, h.small⟩

/-- A page is taken from the free ones. -/
lemma Keeps.alloc {k' : Kernel} {ptr : ℕ} (h : t.Keeps lo m c)
    (hroom : ∃ f, t.kernel.pmm.FreeRun f 1) (halloc : vmmAlloc t.kernel 1 = .ok (k', ptr)) :
    Keeps lo { t with kernel := k' } m c ∧ ptr + 0x1000 < 2 ^ 32 ∧
      ∀ n x, (t.ramfs m).Frame n (x / 0x1000) → x < ptr ∨ ptr + 0x1000 ≤ x := by
  obtain ⟨hi, f, rfl, hne, hrun, hnew, hkept⟩ :=
    vmmAlloc_room h.stored.inv h.stored.zero Nat.one_pos (by norm_num) hroom halloc
  have hused : ∀ n f, (t.ramfs m).Frame n f → t.kernel.pmm.Used f :=
    fun n f hf => ((h.stored.buffer n).frames f hf).1
  have hpage : Buffer lo k' (f * 0x1000) 0 :=
    buffer_of_run h.stored.inv.vmm.guarded hrun hne hnew
  have hlt := hpage.room
  rw [frameCount, pagesOf] at hlt
  refine ⟨h.other hi (hkept 0 h.stored.zero) (fun n f hf => hkept f (hused n f hf))
    fun _ _ _ => rfl, by omega, fun n x hx => ?_⟩
  · by_contra hin
    have hframe : x / 0x1000 = f := by omega
    exact (hrun.free f le_rfl (Nat.lt_succ_self f)).1 (hframe ▸ hused n _ hx)

/-- A node without contents takes the place of another. -/
lemma Keeps.newNode (h : t.Keeps lo m c) (n : ℕ) :
    Keeps lo { t with nodes := Function.update t.nodes n ⟨0, 0⟩ } m
      (Function.update c n .empty) := by
  have hnodes : ∀ n', (ramfs { t with nodes := Function.update t.nodes n ⟨0, 0⟩ } m).nodes n' =
      Function.update (t.ramfs m).nodes n ⟨0, 0⟩ n' := by
    intro n'
    dsimp only [ramfs]
    by_cases hn : n' = n
    · rw [hn, Function.update_self, Function.update_self]
      rfl
    · rw [Function.update_of_ne hn, Function.update_of_ne hn]
  have hs := h.stored
  -- the new node has no buffer, and every other node keeps its own
  have hframe : ∀ n' f, (ramfs { t with nodes := Function.update t.nodes n ⟨0, 0⟩ } m).Frame n' f →
      (t.ramfs m).Frame n' f := by
    intro n' f hf
    rw [Ramfs.Frame, hnodes] at hf
    by_cases hn : n' = n
    · rw [hn, Function.update_self] at hf
      exact absurd rfl hf.1
    · rwa [Function.update_of_ne hn] at hf
  refine ⟨⟨hs.inv, hs.zero, fun n' => ?_, fun n₁ n₂ f hne hf hf' =>
    hs.apart n₁ n₂ f hne (hframe n₁ f hf) (hframe n₂ f hf'), fun n' => ?_, fun n' p b hb => ?_⟩,
    fun n' => ?_⟩
  · dsimp only
    rw [hnodes]
    by_cases hn : n' = n
    · rw [hn, Function.update_self]
      exact buffer_null lo t.kernel
    · rw [Function.update_of_ne hn]
      exact hs.buffer n'
  · dsimp only
    rw [hnodes]
    by_cases hn : n' = n
    · rw [hn, Function.update_self, Function.update_self]
      rfl
    · rw [Function.update_of_ne hn, Function.update_of_ne hn]
      exact hs.size n'
  · dsimp only at hb ⊢
    rw [hnodes]
    by_cases hn : n' = n
    · rw [hn, Function.update_self] at hb
      cases hb
    · rw [Function.update_of_ne hn] at hb ⊢
      exact hs.byte n' p b hb
  · by_cases hn : n' = n
    · dsimp only
      rw [hn, Function.update_self]
      decide
    · dsimp only
      rw [Function.update_of_ne hn]
      exact h.small n'

/-- The sizes stay below `2 ^ 31` where a node gets such a size. -/
lemma small_refresh (h : ∀ n, (t.nodes n).fsize.toNat < 2 ^ 31) (hnode : node.fsize.toNat < 2 ^ 31)
    (n : ℕ) : ((t.refresh file kernel node).nodes n).fsize.toNat < 2 ^ 31 := by
  rw [refresh]
  dsimp only
  by_cases hn : n = (t.files file).node
  · rw [hn, Function.update_self]
    exact hnode
  · rw [Function.update_of_ne hn]
    exact h n

/-- The end of a task spares the buffers. -/
lemma Keeps.exitTask {k' : Kernel} (h : t.Keeps lo m c) (hexit : t.ExitSpares)
    (hcall : MicroOS.exitTask t.kernel t.kernel.currentTask = .ok k') :
    Keeps lo { t with kernel := k' } m c := by
  have hi := h.stored.inv
  obtain ⟨g, hg, hroom, hstack⟩ := hi.tasks.kernelStack _ hexit.active
  obtain ⟨q, hq, he⟩ := exitTask_ok hi.vmm hexit.active (hi.tasks.parent _ hexit.active) hg hroom
  obtain rfl : q = k' := Except.ok.inj (hq.symm.trans hcall)
  have hused : ∀ f, t.Needs f → t.kernel.pmm.Used f → q.pmm.Used f := by
    intro f hf hold
    refine (he.used f).mpr ⟨hold, hexit.charged f hf, fun hs => hexit.stack f hf ?_⟩
    have hg : (t.kernel.tasks t.kernel.currentTask).stack = g * 0x1000 := hg
    rwa [hg, Nat.mul_div_cancel g (by norm_num)]
  exact h.other (hi.exitTask hexit.active hcall) (hused 0 (Or.inl rfl) h.stored.zero)
    (fun n f hf => hused f (Or.inr ⟨n, hf⟩) ((h.stored.buffer n).frames f hf).1) fun _ _ _ => rfl

/-- What a read does to the kernel: it is as it was, or a task was ended. -/
lemma read_table {size : BitVec 32} {a : Asserting} {reads : List ℕ}
    (h : t.read file size offset a = .ok (t', reads)) : ∃ k, (k = t.kernel ∨
      (t.nodeOf file).fsize.toNat < wrap32 (offset.toNat + size.toNat) ∧
        MicroOS.exitTask t.kernel t.kernel.currentTask = .ok k) ∧ t' = { t with kernel := k } := by
  obtain ⟨k, hk, h⟩ := bind_eq_ok.mp h
  refine ⟨k, ?_, ?_⟩
  · rw [asserted] at hk
    split_ifs at hk with hle
    · exact Or.inl (Except.ok.inj hk).symm
    · exact Or.inr ⟨not_le.mp hle, hk⟩
  · split at h
    · exact (congrArg Prod.fst (Except.ok.inj h)).symm
    · exact (congrArg Prod.fst (Except.ok.inj h)).symm

/-- **The step lemma.** -/
lemma Keeps.call (h : t.Keeps lo m c) (hcovers : t.Covers c e)
    (hcall : t.call e = .ok (t', access)) :
    t'.Keeps lo (access.after m) (t.contentsAfter c e) := by
  cases e with
  | touch =>
    obtain ⟨⟨t₁, child⟩, htouch, hret⟩ := bind_eq_ok.mp hcall
    have hc : t.contentsAfter c .touch = Function.update c child .empty := by
      rw [contentsAfter, htouch]
    obtain ⟨⟨k, ptr⟩, halloc, hret'⟩ := bind_eq_ok.mp htouch
    cases hret'
    cases hret
    -- the new node's page is apart from every buffer, and it is cleared
    obtain ⟨hkept, hfit, hapart⟩ := h.alloc hcovers halloc
    rw [hc]
    refine Keeps.newNode (t := { t with kernel := k }) (hkept.other hkept.stored.inv
      hkept.stored.zero (fun n f hf => ((hkept.stored.buffer n).frames f hf).1)
      fun n x hx => ?_) child
    dsimp only
    rw [memset_of_disjoint hfit (hapart n x hx)]
  | «open» node =>
    obtain ⟨⟨t₁, file⟩, hopen, hret⟩ := bind_eq_ok.mp hcall
    obtain ⟨⟨k, ptr⟩, halloc, hret'⟩ := bind_eq_ok.mp hopen
    cases hret'
    cases hret
    exact (h.alloc hcovers halloc).1.files _
  | write file data offset =>
    obtain ⟨⟨t₁, copied⟩, hwrite, hret⟩ := bind_eq_ok.mp hcall
    cases hret
    obtain ⟨hnew, hroom⟩ := hcovers
    have hramfs := ramfs_write (m := m) (h.small _) hnew hwrite
    refine ⟨(h.stored.write rfl hnew hroom hramfs).1, ?_⟩
    obtain ⟨⟨k, node, moved⟩, hnode, hret⟩ := bind_eq_ok.mp hwrite
    cases hret
    refine small_refresh h.small ?_
    rcases FileNode.ramfsWrite_cases hnode with ⟨-, -, rfl, -⟩ | ⟨-, ptr, copied, -, rfl, -⟩
    · exact h.small _
    · -- the file grows to the end of the write
      have hlength : (BitVec.ofNat 32 data.1.length).toNat = data.1.length :=
        Nat.mod_eq_of_lt data.2
      rw [toNat_add_eq, hlength, wrap32_of_lt (by omega)]
      exact hnew
  | truncate file newSize =>
    obtain ⟨⟨t₁, copied⟩, htrunc, hret⟩ := bind_eq_ok.mp hcall
    cases hret
    obtain ⟨hnew, hroom⟩ := hcovers
    have hramfs : (t.ramfs m).truncate file newSize.toNat
        = .ok (t'.ramfs (copied.foldl (MemCopy.run []) m)) :=
      ramfs_truncate (h.small _) hnew htrunc
    refine ⟨(h.stored.truncate rfl hnew hroom hramfs).1, ?_⟩
    obtain ⟨⟨k, node, moved⟩, hnode, hret⟩ := bind_eq_ok.mp htrunc
    cases hret
    refine small_refresh h.small ?_
    rw [OpenFiles.ramfsTruncate_fsize hnode]
    exact hnew
  | read file size offset a =>
    obtain ⟨⟨t₁, reads⟩, hread, hret⟩ := bind_eq_ok.mp hcall
    cases hret
    obtain ⟨k, hk, rfl⟩ := read_table hread
    rcases hk with rfl | ⟨hlt, hexit⟩
    · exact h
    · exact h.exitTask (hcovers.2 hlt) hexit

/-- The addresses that a read copies, when its assertion holds or returns. -/
lemma mem_read {size : BitVec 32} {a : Asserting} {reads : List ℕ} {x : ℕ}
    (h : t.read file size offset a = .ok (t', reads)) (hx : x ∈ reads) :
    (wrap32 (offset.toNat + size.toNat) ≤ (t.nodeOf file).fsize.toNat ∨ a.Returns) ∧
      ∃ i < size.toNat, x = wrap32 ((t.nodeOf file).fdata + (offset.toNat + i)) := by
  obtain ⟨k, -, h⟩ := bind_eq_ok.mp h
  cases hrange : (t.nodeOf file).ramfsRead a size offset with
  | error e =>
    rw [hrange] at h
    cases h
    cases hx
  | ok range =>
    rw [hrange] at h
    cases h
    obtain ⟨hcopies, rfl⟩ := readRange_eq_ok.mp hrange
    obtain ⟨i, hi, rfl⟩ := List.mem_map.mp hx
    refine ⟨hcopies, i, List.mem_range.mp hi, ?_⟩
    rw [wrap32, wrap32, wrap32, Nat.mod_add_mod, Nat.add_assoc]

/-- **What a call reads** is what was written, the same in every memory that holds the contents. -/
lemma Keeps.reads_eq (h : t.Keeps lo m c) (h' : t.Keeps lo m' c) (hcovers : t.Covers c e)
    (hcall : t.call e = .ok (t', access)) :
    access.reads.map (access.after m) = access.reads.map (access.after m') := by
  cases e with
  | touch =>
    obtain ⟨⟨t₁, child⟩, -, hret⟩ := bind_eq_ok.mp hcall
    cases hret
    simp only [List.map_nil]
  | «open» node =>
    obtain ⟨⟨t₁, file⟩, -, hret⟩ := bind_eq_ok.mp hcall
    cases hret
    rfl
  | write file data offset =>
    obtain ⟨⟨t₁, copied⟩, -, hret⟩ := bind_eq_ok.mp hcall
    cases hret
    rfl
  | truncate file newSize =>
    obtain ⟨⟨t₁, copied⟩, -, hret⟩ := bind_eq_ok.mp hcall
    cases hret
    rfl
  | read file size offset a =>
    obtain ⟨⟨t₁, reads⟩, hread, hret⟩ := bind_eq_ok.mp hcall
    cases hret
    refine List.map_congr_left fun x hx => ?_
    obtain ⟨hcopies, i, hi, rfl⟩ := mem_read hread hx
    have hsome := hcovers.1 hcopies (offset.toNat + i) (Nat.le_add_right _ _) (by omega)
    obtain ⟨b, hb⟩ := Option.isSome_iff_exists.mp hsome
    have hend := (h.stored.buffer (t.files file).node).end_lt
    obtain ⟨hlt, hbyte⟩ := h.stored.byte _ _ b hb
    have hbyte' := (h'.stored.byte _ _ b hb).2
    dsimp only [ramfs] at hend hlt hbyte hbyte'
    rw [nodeOf, wrap32_of_lt (by omega)]
    exact hbyte.trans hbyte'.symm

end FileTable

open FileTable in
/-- **RamFS does not leak old memory** in a run whose calls find their pages and read only what was
written since the file was last shorter. -/
theorem ramfs_reads_agree {lo : ℕ} {t : FileTable} {m m' : Mem} {c : ℕ → FileContents}
    (h : t.Keeps lo m c) {l : List FileCall} (hl : t.Covered c l)
    (hagree : ∀ x, t.kernel.pmm.Used (x / 0x1000) → m x = m' x) : t.reads m l = t.reads m' l := by
  have h' : t.Keeps lo m' c := h.other h.stored.inv h.stored.zero
    (fun n f hf => ((h.stored.buffer n).frames f hf).1) fun n x hx =>
      (hagree x ((h.stored.buffer n).frames _ hx).1).symm
  clear hagree
  induction l generalizing t m m' c with
  | nil => rfl
  | cons e l ih =>
    rw [reads, reads]
    cases hcall : t.call e with
    | error e => rfl
    | ok r =>
      obtain ⟨t', access⟩ := r
      dsimp only
      rw [h.reads_eq h' hl.1 hcall,
        ih (h.call hl.1 hcall) (hl.2 t' access hcall) (h'.call hl.1 hcall)]

/-! ### Files of the machine -/

/-- Files without contents, each with a handle. -/
def emptyFiles (k : Kernel) : FileTable := ⟨k, fun _ => ⟨0, 0⟩, fun n => ⟨n, 0⟩⟩

namespace FileTable

variable {lo file : ℕ} {t : FileTable} {k k' : Kernel} {node node' : FileNode}
  {newSize offset : BitVec 32} {data : UserBytes} {copied : List MemCopy}

/-- Files that are all empty keep what the model asks of them. -/
lemma keeps_emptyFiles (hi : KernelInv lo k) (hzero : k.pmm.Used 0) (m : Mem) :
    (emptyFiles k).Keeps lo m fun _ => .empty := by
  refine ⟨.of_mounted ⟨hi, hzero, fun _ => rfl, fun _ => rfl⟩, fun _ => ?_⟩
  dsimp only [emptyFiles]
  decide

lemma nodeOf_refresh : (t.refresh file k node).nodeOf file = node := by
  simp only [nodeOf, refresh, Function.update_self]

/-- Of two calls for one file the later one counts. -/
lemma refresh_refresh :
    (t.refresh file k node).refresh file k' node' = t.refresh file k' node' := by
  simp only [refresh, Function.update_self, Function.update_idem]

/-- A write in the table is that of its node. -/
lemma call_write (hnode : t.nodeOf file = node)
    (h : node.ramfsWrite t.kernel (BitVec.ofNat 32 data.1.length) offset =
      .ok (k', node', copied)) : t.call (.write file data offset) =
    .ok (t.refresh file k' node', ⟨copied.foldl (MemCopy.run data.1), []⟩) := by
  subst hnode
  rw [nodeOf] at h
  rw [FileTable.call, FileTable.write, h]
  rfl

/-- So is a truncation. -/
lemma call_truncate (hnode : t.nodeOf file = node)
    (h : node.ramfsTruncate t.kernel newSize = .ok (k', node', copied)) :
    t.call (.truncate file newSize) =
      .ok (t.refresh file k' node', ⟨copied.foldl (MemCopy.run []), []⟩) := by
  subst hnode
  rw [nodeOf] at h
  rw [FileTable.call, FileTable.truncate, h]
  rfl

/-- A buffer stays where it is as long as its pages are as many. -/
lemma resizeInt_same {size : BitVec 32} {ptr : ℕ} (hptr : ptr ≠ 0) (hnew : newSize ≠ 0)
    (hpages : pagesOfInt newSize = pagesOfInt size) :
    resizeInt k size newSize ptr = .ok (k, ptr, []) := by
  rw [resizeInt]
  dsimp only
  rw [if_neg hptr, if_neg hnew, if_neg (not_not.mpr hpages)]
  rfl

end FileTable

/-- Five bytes are written to a file, it is cut to two, a third one is written, and the three are
read. -/
def writeAndRead : List FileCall :=
  [.write 0 ⟨[65, 66, 67, 68, 69], by decide⟩ 0, .truncate 0 2, .write 0 ⟨[70], by decide⟩ 2,
    .read 0 3 0 ⟨true, 0x20, false⟩]

open FileTable in
/-- This run reads the same in every memory. -/
theorem ramfs_reads_agree_cut : ∃ k, ∀ m m' : Mem,
    (∀ x, k.pmm.Used (x / 0x1000) → m x = m' x) →
      (emptyFiles k).reads m writeAndRead = (emptyFiles k).reads m' writeAndRead := by
  obtain ⟨k, hk⟩ := machine_handedOut
  obtain ⟨k', f, halloc, -, hnew, -⟩ := hk.next
  have hptr : f * 0x1000 ≠ 0 := by
    intro h0
    exact hnew (by rw [show f = 0 by omega]; exact hk.null)
  have hfirst : (emptyFiles k).call (.write 0 ⟨[65, 66, 67, 68, 69], by decide⟩ 0) = _ :=
    call_write rfl (FileNode.ramfsWrite_first halloc)
  have hcut : FileNode.ramfsTruncate ⟨5, f * 0x1000⟩ k' 2 = .ok (k', ⟨2, f * 0x1000⟩, []) := by
    rw [FileNode.ramfsTruncate, resizeInt_same hptr (by decide)
      (show pagesOfInt 2 = pagesOfInt 5 by decide)]
    rfl
  have hgrow : FileNode.ramfsWrite ⟨2, f * 0x1000⟩ k' 1 2 =
      .ok (k', ⟨3, f * 0x1000⟩, [⟨wrap32 (f * 0x1000 + 2), none, 1⟩]) := by
    rw [FileNode.ramfsWrite]
    dsimp only
    rw [if_pos (by decide), resizeInt_same hptr (by decide) (by decide)]
    rfl
  refine ⟨k, fun m m' => ramfs_reads_agree (keeps_emptyFiles hk.inv (hk.used 0 hk.null) m) ?_⟩
  -- each call in the state that it is made in
  refine ⟨⟨by decide, fun _ _ _ => hk.room (by decide)⟩, fun t₁ access hcall => ?_⟩
  obtain ⟨rfl, -⟩ := Prod.mk.inj (Except.ok.inj (hcall.symm.trans hfirst))
  refine ⟨⟨by decide, ?_⟩, fun t₂ access hcall => ?_⟩
  · rw [nodeOf_refresh]
    intro _ hmoves
    exact absurd (hmoves.resolve_left hptr)
      (show ¬pagesOf (2 : BitVec 32).toNat ≠ pagesOf (5 : BitVec 32).toNat by decide)
  obtain ⟨rfl, -⟩ := Prod.mk.inj (Except.ok.inj (hcall.symm.trans
    (call_truncate nodeOf_refresh hcut)))
  rw [refresh_refresh]
  refine ⟨⟨by decide, ?_⟩, fun t₃ access hcall => ?_⟩
  · rw [nodeOf_refresh]
    intro _ _ hmoves
    exact absurd (hmoves.resolve_left hptr)
      (show ¬pagesOf ((2 : BitVec 32).toNat + 1) ≠ pagesOf (2 : BitVec 32).toNat by decide)
  obtain ⟨rfl, -⟩ := Prod.mk.inj (Except.ok.inj (hcall.symm.trans
    (call_write nodeOf_refresh hgrow)))
  rw [refresh_refresh]
  refine ⟨⟨fun _ p _ hp => ?_, ?_⟩, fun t₄ access hcall => trivial⟩
  · have hp : p < 3 := hp
    simp only [contentsAfter, refresh, emptyFiles, Function.update_self]
    rcases p with _ | _ | _ | p
    · rfl
    · rfl
    · rfl
    · omega
  · rw [nodeOf_refresh]
    intro hlt
    exact absurd hlt (show ¬(3 : BitVec 32).toNat < wrap32 (0 + (3 : BitVec 32).toNat) by decide)

/-- A file is truncated to one byte and read. -/
def growAndRead : List FileCall := [.truncate 0 1, .read 0 1 0 ⟨true, 0x20, false⟩]

open FileTable in
/-- **Old memory is read.** An empty file is truncated to one byte and read: the byte is what the
frame of the new buffer held before. -/
theorem old_memory_read : ¬∀ lo (t : FileTable) (c : ℕ → FileContents) (l : List FileCall)
    (m m' : Mem), t.Keeps lo m c → (∀ x, t.kernel.pmm.Used (x / 0x1000) → m x = m' x) →
      t.reads m l = t.reads m' l := by
  intro h
  obtain ⟨k, hk⟩ := machine_handedOut
  obtain ⟨k', f, halloc, hf, hnew, -⟩ := hk.next
  have haddr : wrap32 (f * 0x1000) = f * 0x1000 := wrap32_of_lt (by omega)
  have hgrown : FileNode.ramfsTruncate ⟨0, 0⟩ k 1 = .ok (k', ⟨1, f * 0x1000⟩, []) := by
    have hresize : resizeInt k 0 1 0 = .ok (k', f * 0x1000, []) := by
      rw [resizeInt]
      dsimp only
      rw [if_pos rfl, show pageCount (pagesOfInt 1) = 1 by decide, halloc]
      rfl
    rw [FileNode.ramfsTruncate, hresize]
    rfl
  have hread : ∀ m, (emptyFiles k).reads m growAndRead = [[], [m (f * 0x1000)]] := by
    intro m
    have hcall : (emptyFiles k).call (.truncate 0 1) = _ := call_truncate rfl hgrown
    have hcopied : FileNode.ramfsRead ⟨1, f * 0x1000⟩ ⟨true, 0x20, false⟩ 1 0 =
        .ok (wrap32 (f * 0x1000 + 0), 1) :=
      readRange_eq_ok.mpr ⟨.inl (show wrap32 (0 + (1 : BitVec 32).toNat) ≤ (1 : BitVec 32).toNat by
        decide), rfl⟩
    rw [growAndRead, reads, hcall]
    dsimp only
    rw [reads, FileTable.call, FileTable.read, asserted, nodeOf_refresh,
      if_pos (show (1 : BitVec 32).toNat ≥ ((0 : BitVec 32) + 1).toNat by decide), ok_bind, hcopied]
    dsimp only [pure, Except.pure, bind, Except.bind, reads]
    rw [Nat.add_zero, haddr, List.range_one]
    simp only [List.map_cons, List.map_nil, Nat.add_zero, haddr, List.foldl_nil, id]
  -- the frame of the buffer was free
  have ha := vmmAlloc_allocated hk.inv (hk.used 0 hk.null) Nat.one_pos (by norm_num) halloc
  have hne : f * 0x1000 ≠ 0 := by
    intro h0
    exact hnew (by rw [show f = 0 by omega]; exact hk.null)
  have hfree : ¬k.pmm.Used (f * 0x1000 / 0x1000) := (ha.fresh hne _ le_rfl (Nat.lt_succ_self _)).2
  have heq := h _ _ _ growAndRead (fun _ => 0) (Function.update (fun _ => 0) (f * 0x1000) 1)
    (keeps_emptyFiles hk.inv (hk.used 0 hk.null) _) fun x hx => by
      have hne : x ≠ f * 0x1000 := by
        rintro rfl
        exact hfree hx
      rw [Function.update_of_ne hne]
  rw [hread, hread, Function.update_self] at heq
  exact absurd heq (by decide)

end MicroOS
