import MicroOS.FileSystem.FileBounds

/-!
The sizes of open files in RamFS.

* `FileTable`: the nodes and the handles, each with its own `size`, and the calls on them,
  `ramfs_open`, `ramfs_close`, `ramfs_write`, `ramfs_truncate`;
* `OpenFiles`, `FileEvent`: the runs of these calls, and of the rest of the kernel between them;
* `OpenFiles.Agree`: every open handle has the size of its node;
* `open_handles_agree_iff`: **the handles agree after every call** of a run just if each call that
  changes the size of a file comes through its only handle.
-/

namespace MicroOS

open Checked Run

/-- `file_t`: its node, and its `size`. -/
structure FileHandle where
  node : ℕ
  size : BitVec 32

/-- The kernel, and the nodes and the handles by their addresses. -/
structure FileTable where
  kernel : Kernel
  nodes : ℕ → FileNode
  files : ℕ → FileHandle

namespace FileTable

/-- `ramfs_open` of a node, and the new handle. -/
def «open» (t : FileTable) (node : ℕ) : Except Halt (FileTable × ℕ) := do
  let (kernel, file) ← vmmAlloc t.kernel 1
  let files := Function.update t.files file ⟨node, (t.nodes node).fsize⟩
  return ({ t with kernel, files }, file)

/-- `ramfs_close`. -/
def close (t : FileTable) (file : ℕ) : Except Halt FileTable := do
  return { t with kernel := ← vmmFree t.kernel file 1 }

/-- The end of `ramfs_write` and `ramfs_truncate`: the node is as it became, and the handle gets its
size. -/
def refresh (t : FileTable) (file : ℕ) (kernel : Kernel) (node : FileNode) : FileTable :=
  let n := (t.files file).node
  { kernel
    nodes := Function.update t.nodes n node
    files := Function.update t.files file ⟨n, node.fsize⟩ }

/-- `ramfs_write` through a handle. -/
def write (t : FileTable) (file : ℕ) (size offset : BitVec 32) :
    Except Halt (FileTable × List MemCopy) := do
  let (kernel, node, copied) ← (t.nodes (t.files file).node).ramfsWrite t.kernel size offset
  return (t.refresh file kernel node, copied)

/-- `ramfs_truncate` through a handle. -/
def truncate (t : FileTable) (file : ℕ) (newSize : BitVec 32) :
    Except Halt (FileTable × List MemCopy) := do
  let (kernel, node, copied) ← (t.nodes (t.files file).node).ramfsTruncate t.kernel newSize
  return (t.refresh file kernel node, copied)

end FileTable

/-- A file table, and which handles are open. -/
structure OpenFiles extends FileTable where
  opened : Set ℕ

/-- A call, or what the rest of the kernel does. -/
inductive FileEvent where
  | open (node : ℕ)
  | close (file : ℕ)
  | write (file : ℕ) (size offset : BitVec 32)
  | truncate (file : ℕ) (newSize : BitVec 32)
  | other (kernel : Kernel)

namespace OpenFiles

/-- `sys_filesize`. -/
def filesize (s : OpenFiles) (file : ℕ) : BitVec 32 := (s.files file).size

/-- What an event does. A handle at `NULL`, which `vmm_alloc` returns when memory is full, is not an
open one for the caller. -/
def step (s : OpenFiles) : FileEvent → Except Halt OpenFiles
  | .open node => do
      let (t, file) ← s.toFileTable.open node
      return ⟨t, s.opened ∪ {h | h = file ∧ h ≠ 0}⟩
  | .close file => return ⟨← s.toFileTable.close file, s.opened \ {file}⟩
  | .write file size offset => do
      let (t, _) ← s.toFileTable.write file size offset
      return ⟨t, s.opened⟩
  | .truncate file newSize => do
      let (t, _) ← s.toFileTable.truncate file newSize
      return ⟨t, s.opened⟩
  | .other kernel => .ok { s with kernel }

/-- The state after an event; where it stops, nothing is done. -/
def next (s : OpenFiles) (e : FileEvent) : OpenFiles := (s.step e).toOption.getD s

/-- An event can happen: it is a call on an open handle, and it returns. -/
def Legal (s : OpenFiles) (e : FileEvent) : Prop :=
  (∃ s', s.step e = .ok s') ∧
    match e with
    | .close file | .write file _ _ | .truncate file _ => file ∈ s.opened
    | .open _ | .other _ => True

/-- Every open handle has the size of its node. -/
def Agree (s : OpenFiles) : Prop :=
  ∀ file ∈ s.opened, s.filesize file = (s.nodes (s.files file).node).fsize

/-- A handle is the only one that is open on its node. -/
def Only (s : OpenFiles) (file : ℕ) : Prop :=
  ∀ file' ∈ s.opened, (s.files file').node = (s.files file).node → file' = file

/-- A call that changes the size of a file comes through its only handle. -/
def Alone (s : OpenFiles) : FileEvent → Prop
  | .write file size offset =>
    (s.nodes (s.files file).node).Grows size offset → s.Only file
  | .truncate file newSize => newSize ≠ (s.nodes (s.files file).node).fsize → s.Only file
  | .open _ | .close _ | .other _ => True

variable {s s' : OpenFiles} {e : FileEvent} {file : ℕ} {kernel : Kernel} {node : FileNode}
  {size offset newSize : BitVec 32}

lemma next_eq (h : s.step e = .ok s') : s.next e = s' := by
  rw [next, h]
  rfl

/-- **The handles agree after a call** just if it leaves the size of the file, or comes through its
only handle. -/
lemma agree_refresh_iff (h : s.Agree) (hopen : file ∈ s.opened) :
    Agree ⟨s.toFileTable.refresh file kernel node, s.opened⟩ ↔
      (node.fsize ≠ (s.nodes (s.files file).node).fsize → s.Only file) := by
  constructor
  · intro hagree hne file' hopen' hnode
    by_contra hother
    have hsize := hagree file' hopen'
    rw [filesize, FileTable.refresh] at hsize
    simp only [Function.update_of_ne hother, hnode, Function.update_self] at hsize
    exact hne (hsize.symm.trans (hnode ▸ h file' hopen'))
  · intro honly file' hopen'
    by_cases heq : file' = file
    · subst heq
      simp [FileTable.refresh, filesize]
    · simp only [FileTable.refresh, filesize, Function.update_of_ne heq]
      by_cases hnode : (s.files file').node = (s.files file).node
      · have hsame : node.fsize = (s.nodes (s.files file).node).fsize := by
          by_contra hne
          exact heq (honly hne file' hopen' hnode)
        rw [hnode, Function.update_self, hsame, ← hnode]
        exact h file' hopen'
      · rw [Function.update_of_ne hnode]
        exact h file' hopen'

/-- A write changes the size of a file just if it grows. -/
lemma ramfsWrite_fsize {k k' : Kernel} {node' : FileNode} {copied : List MemCopy}
    (h : node.ramfsWrite k size offset = .ok (k', node', copied)) :
    node'.fsize ≠ node.fsize ↔ node.Grows size offset := by
  rcases FileNode.ramfsWrite_cases h with ⟨hgrows, -, rfl, -⟩ | ⟨hgrows, newPtr, moved, -, rfl, -⟩
  · exact iff_of_false (not_not.mpr rfl) hgrows
  · refine iff_of_true (fun heq => ?_) hgrows
    have hlt : node.fsize.toInt < (offset + size).toInt := hgrows
    have heq : offset + size = node.fsize := heq
    rw [heq] at hlt
    exact lt_irrefl _ hlt

/-- `ramfs_truncate` sets the size. -/
lemma ramfsTruncate_fsize {k k' : Kernel} {node' : FileNode} {copied : List MemCopy}
    (h : node.ramfsTruncate k newSize = .ok (k', node', copied)) : node'.fsize = newSize := by
  rw [FileNode.ramfsTruncate, bind_eq_ok] at h
  obtain ⟨⟨k₁, fdata, moved⟩, -, hret⟩ := h
  cases hret
  rfl

/-- **The step lemma.** -/
lemma agree_next_iff (h : s.Agree) (hlegal : s.Legal e) : (s.next e).Agree ↔ s.Alone e := by
  obtain ⟨⟨s', hstep⟩, hopen⟩ := hlegal
  rw [next_eq hstep]
  cases e with
  | «open» node =>
    obtain ⟨⟨t, file⟩, hcall, hret⟩ := bind_eq_ok.mp hstep
    obtain ⟨⟨k, file⟩, -, hret'⟩ := bind_eq_ok.mp hcall
    cases hret'
    cases hret
    refine iff_of_true (fun file' hopen' => ?_) trivial
    by_cases heq : file' = file
    · subst heq
      simp [filesize]
    · have hopened : file' ∈ s.opened := hopen'.resolve_right fun hnew => heq hnew.1
      simp only [filesize, Function.update_of_ne heq]
      exact h file' hopened
  | close file =>
    obtain ⟨t, hcall, hret⟩ := bind_eq_ok.mp hstep
    obtain ⟨k, -, hret'⟩ := bind_eq_ok.mp hcall
    cases hret'
    cases hret
    exact iff_of_true (fun file' hopen' => h file' hopen'.1) trivial
  | write file size offset =>
    obtain ⟨⟨t, copied⟩, hcall, hret⟩ := bind_eq_ok.mp hstep
    obtain ⟨⟨k, node, copied⟩, hwrite, hret'⟩ := bind_eq_ok.mp hcall
    cases hret'
    cases hret
    rw [agree_refresh_iff h hopen, ramfsWrite_fsize hwrite]
    exact Iff.rfl
  | truncate file newSize =>
    obtain ⟨⟨t, copied⟩, hcall, hret⟩ := bind_eq_ok.mp hstep
    obtain ⟨⟨k, node, copied⟩, htrunc, hret'⟩ := bind_eq_ok.mp hcall
    cases hret'
    cases hret
    rw [agree_refresh_iff h hopen, ramfsTruncate_fsize htrunc]
    exact Iff.rfl
  | other kernel =>
    cases hstep
    exact iff_of_true h trivial

end OpenFiles

open OpenFiles in
/-- **The open handles agree on the sizes** after every call of a run just if each call that changes
the size of a file comes through its only handle. -/
theorem open_handles_agree_iff {s : OpenFiles} (hagree : s.Agree) {l : List FileEvent}
    (hlegal : Along next s l Legal) :
    (Along next s l fun s e => (s.next e).Agree) ↔ Along next s l Alone :=
  along_iff Agree (fun _ _ h hl => agree_next_iff h hl) (fun _ _ _ _ h => h) hagree hlegal

/-! ### One handle and two -/

/-- Files without handles. -/
def closedFiles (k : Kernel) : OpenFiles := ⟨⟨k, fun _ => ⟨0, 0⟩, fun _ => ⟨0, 0⟩⟩, ∅⟩

namespace OpenFiles

variable {s : OpenFiles} {file : ℕ}

lemma closedFiles_agree (k : Kernel) : (closedFiles k).Agree := fun _ h => absurd h id

/-- The files with a new handle. -/
def withHandle (s : OpenFiles) (file node : ℕ) (kernel : Kernel) : OpenFiles :=
  ⟨⟨kernel, s.nodes, Function.update s.files file ⟨node, (s.nodes node).fsize⟩⟩,
    insert file s.opened⟩

/-- A file is opened, when there is a page for the handle. -/
lemma legal_open {k : Kernel} (n : ℕ) (hfile : file ≠ 0)
    (h : vmmAlloc s.kernel 1 = .ok (k, file)) :
    s.Legal (.open n) ∧ s.next (.open n) = s.withHandle file n k := by
  have hopened : s.opened ∪ {h | h = file ∧ h ≠ 0} = insert file s.opened := by
    ext x
    rw [Set.mem_union, Set.mem_insert_iff, or_comm]
    exact or_congr_left ⟨fun hx => hx.1, fun hx => ⟨hx, hx ▸ hfile⟩⟩
  have hstep : s.step (.open n) = .ok (s.withHandle file n k) := by
    rw [step, FileTable.open, h, withHandle, ← hopened]
    rfl
  exact ⟨⟨⟨_, hstep⟩, trivial⟩, next_eq hstep⟩

/-- Five bytes are written to a file without a buffer. -/
lemma legal_write {k : Kernel} {ptr : ℕ} (hopen : file ∈ s.opened)
    (hnode : s.nodes (s.files file).node = ⟨0, 0⟩) (h : vmmAlloc s.kernel 1 = .ok (k, ptr)) :
    s.Legal (.write file 5 0) := by
  refine ⟨⟨⟨s.toFileTable.refresh file k ⟨5, ptr⟩, s.opened⟩, ?_⟩, hopen⟩
  rw [step, FileTable.write, hnode, FileNode.ramfsWrite_first h]
  rfl

end OpenFiles

open OpenFiles in
/-- A file is opened and written through its only handle. -/
theorem open_handles_agree_one : ∃ k file,
    Along next (closedFiles k) [.open 0, .write file 5 0] fun s e => (s.next e).Agree := by
  obtain ⟨k, hk⟩ := machine_handedOut
  obtain ⟨k₁, f, hfile, -, hnew, hk₁⟩ := hk.next
  obtain ⟨k₂, g, hbuffer, -⟩ := hk₁.next
  have hne : f * 0x1000 ≠ 0 := fun h0 => hnew (by rw [show f = 0 by omega]; exact hk.null)
  obtain ⟨hlegal, hnext⟩ := legal_open (s := closedFiles k) 0 hne hfile
  have hopened : f * 0x1000 ∈ ((closedFiles k).withHandle (f * 0x1000) 0 k₁).opened :=
    Set.mem_insert _ _
  have honly : ((closedFiles k).withHandle (f * 0x1000) 0 k₁).Only (f * 0x1000) := by
    intro file' hopen' _
    simpa [withHandle, closedFiles] using hopen'
  refine ⟨k, f * 0x1000, (open_handles_agree_iff (closedFiles_agree k) ?_).mpr ?_⟩
  · rw [along_cons, along_cons, hnext]
    exact ⟨hlegal, legal_write hopened rfl hbuffer, along_nil _ _ _⟩
  · rw [along_cons, along_cons, hnext]
    exact ⟨trivial, fun _ => honly, along_nil _ _ _⟩

open OpenFiles in
/-- **A stale handle.** A file is opened twice, and five bytes are written through the first handle:
the second one still has the size 0. -/
theorem stale_handle : ¬∀ (s : OpenFiles) (l : List FileEvent), s.opened = ∅ →
    Along next s l Legal → Along next s l fun s e => (s.next e).Agree := by
  intro h
  obtain ⟨k, hk⟩ := machine_handedOut
  obtain ⟨k₁, f, hfirst, -, hnew, hk₁⟩ := hk.next
  obtain ⟨k₂, g, hsecond, -, hother, hk₂⟩ := hk₁.next
  obtain ⟨k₃, b, hbuffer, -⟩ := hk₂.next
  have hne : f * 0x1000 ≠ g * 0x1000 := by
    intro heq
    have hfg : f = g := Nat.eq_of_mul_eq_mul_right (by norm_num) heq
    exact hother (hfg ▸ List.mem_cons_self)
  have hne₁ : f * 0x1000 ≠ 0 := fun h0 => hnew (by rw [show f = 0 by omega]; exact hk.null)
  have hne₂ : g * 0x1000 ≠ 0 := fun h0 => hother (by rw [show g = 0 by omega]; exact hk₁.null)
  let s₁ := (closedFiles k).withHandle (f * 0x1000) 0 k₁
  let s₂ := s₁.withHandle (g * 0x1000) 0 k₂
  obtain ⟨hlegal₁, hnext₁⟩ := legal_open (s := closedFiles k) 0 hne₁ hfirst
  obtain ⟨hlegal₂, hnext₂⟩ := legal_open (s := s₁) 0 hne₂ hsecond
  have hnode : (s₂.files (f * 0x1000)).node = 0 := by
    simp [s₂, s₁, withHandle, Function.update_of_ne hne]
  have hopened : f * 0x1000 ∈ s₂.opened := Set.mem_insert_of_mem _ (Set.mem_insert _ _)
  have hlegal : Along next (closedFiles k) [.open 0, .open 0, .write (f * 0x1000) 5 0] Legal := by
    rw [along_cons, along_cons, along_cons, hnext₁, hnext₂]
    exact ⟨hlegal₁, hlegal₂, legal_write hopened rfl hbuffer, along_nil _ _ _⟩
  have halone := (open_handles_agree_iff (closedFiles_agree k) hlegal).mp (h _ _ rfl hlegal)
  rw [along_cons, along_cons, along_cons, hnext₁, hnext₂] at halone
  -- the write makes the file larger, and the other handle is open on it
  have hgrows : FileNode.Grows ⟨0, 0⟩ 5 0 := by decide
  have honly : s₂.Only (f * 0x1000) := halone.2.2.1 hgrows
  refine hne (honly (g * 0x1000) (Set.mem_insert _ _) ?_).symm
  rw [hnode]
  simp [s₂, withHandle]

end MicroOS
