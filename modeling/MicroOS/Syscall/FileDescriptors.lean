import MicroOS.Lib.Checked
import MicroOS.Lib.Slots

/-!
File descriptors and their owners: `fs/fd.c`, `sys_open`, `sys_close`, `sys_delete`, and what
`scheduler/resource.c` and `exit_task` do with files.

* `FileTables.call`: one call, with what it passes to `vfs_close` and `vfs_delete`;
* `FileRun`: a run of calls by any tasks, with the files that `vfs_open` has returned;
* `reaches_rule` is the rule of a run: what holds at the start, and what every call keeps;
* `fdMap_iff`: the descriptors form a map until the first one is closed. `fd_free` is never called,
  so that the descriptor of a closed file maps to it still: `closed_fd_maps`.

`vfs_open` is given by the address that it returns, which is that of no file that is open. The
tables are lists.
-/

namespace MicroOS

open Checked

/-! ### The calls -/

/-- Why a call does not return. -/
inductive FdFault where
  /-- A descriptor outside of `fd_table`. -/
  | outside
  | nullPointer
  deriving DecidableEq

/-- `fd_table`, and the resources of the task with each pid; a free slot is `0`. All of them are
files, with `sys_open_dealloc`. -/
structure FileTables where
  fdTable : List ℕ
  resources : ℕ → List ℕ

/-- What a call passes to the file system. -/
inductive VfsCall where
  | close (file : ℕ)
  | delete (file : ℕ)

/-- The file that it is for. -/
def VfsCall.file : VfsCall → ℕ
  | close file => file
  | delete file => file

/-- A call by a task. For `sysOpen`, `file` is what `vfs_open` returns. -/
inductive FdCall where
  | sysOpen (task file : ℕ)
  | sysClose (task : ℕ) (fd : ℤ)
  | sysDelete (task : ℕ) (fd : ℤ)
  | exitTask (task : ℕ)

namespace FileTables

/-- `file_to_fd`, with `FD_OFFSET`. -/
def fileToFd (table : List ℕ) (file : ℕ) : ℤ × List ℕ :=
  ((if 0 ∈ table then table.idxOf 0 else table.length : ℕ) + 5, Slots.insert 0 table file)

/-- `fd_to_file`. -/
def fdToFile (table : List ℕ) (fd : ℤ) : Except FdFault ℕ :=
  if 5 ≤ fd ∧ fd < 5 + table.length then .ok (table.getD (fd - 5).toNat 0) else .error .outside

/-- `resource_register_self` in the table of a task. -/
def register (t : FileTables) (task file : ℕ) : ℕ → List ℕ :=
  Function.update t.resources task (Slots.insert 0 (t.resources task) file)

/-- `resource_unregister_self`, which clears every slot with the file. -/
def unregister (t : FileTables) (task file : ℕ) : ℕ → List ℕ :=
  Function.update t.resources task ((t.resources task).map fun r => if r = file then 0 else r)

/-- A call: the descriptor of `sys_open`, where there is one, what is passed to the file system,
and the tables. -/
def call (t : FileTables) : FdCall → Except FdFault (Option ℤ × List VfsCall × FileTables)
  | .sysOpen task file =>
    if file = 0 then .ok (none, [], t)
    else
      let p := fileToFd t.fdTable file
      .ok (some p.1, [], ⟨p.2, t.register task file⟩)
  | .sysClose task fd => do
      let file ← fdToFile t.fdTable fd
      if file = 0 then .error .nullPointer
      else .ok (none, [.close file], { t with resources := t.unregister task file })
  | .sysDelete task fd => do
      let file ← fdToFile t.fdTable fd
      if file = 0 then .error .nullPointer
      else .ok (none, [.delete file], { t with resources := t.unregister task file })
  | .exitTask task =>
    .ok (none, ((t.resources task).filter (· ≠ 0)).map .close,
      { t with resources := Function.update t.resources task [] })

end FileTables

/-! ### Runs -/

/-- A file that `vfs_open` has returned in `sys_open`: the descriptor, which is open until the first
`sys_close` or `sys_delete` for it, the address, the task, and how often it was passed to
`vfs_close` or `vfs_delete`. -/
structure OpenedFile where
  fd : ℤ
  file : ℕ
  task : ℕ
  isOpen : Bool
  closes : ℕ

/-- A state of a run: the tables, the files, the last one first, and the tasks that have exited. -/
structure FileRun where
  tables : FileTables
  files : List OpenedFile
  exited : List ℕ

/-- An address is passed to the file system: the last file that was returned there. -/
def passFile (file : ℕ) : List OpenedFile → List OpenedFile
  | [] => []
  | o :: files =>
    if o.file = file then { o with closes := o.closes + 1 } :: files else o :: passFile file files

/-- A descriptor is closed. -/
def closeFd (fd : ℤ) (files : List OpenedFile) : List OpenedFile :=
  files.map fun o => if o.fd = fd then { o with isOpen := false } else o

/-- What stays of a file. -/
def OpenedFile.key (o : OpenedFile) : ℤ × ℕ × ℕ := (o.fd, o.file, o.task)

/-- A file that is there after an address was passed on was there before, open or not. -/
lemma mem_passFile {file : ℕ} {files : List OpenedFile} {o : OpenedFile}
    (h : o ∈ passFile file files) : ∃ o' ∈ files, o.key = o'.key ∧ o.isOpen = o'.isOpen := by
  induction files with
  | nil => simp [passFile] at h
  | cons o' files ih =>
    rw [passFile] at h
    split_ifs at h
    · rcases List.mem_cons.mp h with rfl | h
      · exact ⟨o', List.mem_cons_self, rfl, rfl⟩
      · exact ⟨o, List.mem_cons_of_mem o' h, rfl, rfl⟩
    · rcases List.mem_cons.mp h with rfl | h
      · exact ⟨o, List.mem_cons_self, rfl, rfl⟩
      · obtain ⟨o'', ho, hkey⟩ := ih h
        exact ⟨o'', List.mem_cons_of_mem o' ho, hkey⟩

/-- Passing an address on changes no key. -/
@[simp] lemma passFile_key (file : ℕ) (files : List OpenedFile) :
    (passFile file files).map OpenedFile.key = files.map OpenedFile.key := by
  induction files with
  | nil => rfl
  | cons o files ih =>
    rw [passFile]
    split_ifs
    · rfl
    · rw [List.map_cons, List.map_cons, ih]

/-- Nor does closing a descriptor. -/
@[simp] lemma closeFd_key (fd : ℤ) (files : List OpenedFile) :
    (closeFd fd files).map OpenedFile.key = files.map OpenedFile.key := by
  rw [closeFd, List.map_map]
  refine List.map_congr_left fun o _ => ?_
  rw [Function.comp_apply]
  split_ifs <;> rfl

/-- Nor does passing several on. -/
lemma passFiles_key (passed : List ℕ) (files : List OpenedFile) :
    (passed.foldl (fun files file => passFile file files) files).map OpenedFile.key =
      files.map OpenedFile.key := by
  induction passed generalizing files with
  | nil => rfl
  | cons file passed ih => rw [List.foldl_cons, ih, passFile_key]

namespace FileRun

/-- The files after a call that has returned a descriptor. -/
def opened (files : List OpenedFile) (fd : Option ℤ) : FdCall → List OpenedFile
  | .sysOpen task file => (fd.map fun fd => ⟨fd, file, task, true, 0⟩).toList ++ files
  | .sysClose _ fd => closeFd fd files
  | .sysDelete _ fd => closeFd fd files
  | .exitTask _ => files

/-- The tasks that have exited after a call. -/
def exits (exited : List ℕ) : FdCall → List ℕ
  | .exitTask task => task :: exited
  | _ => exited

/-- One call. -/
def step (r : FileRun) (c : FdCall) : Except FdFault FileRun := do
  let (fd, passed, tables) ← r.tables.call c
  return ⟨tables, (passed.map VfsCall.file).foldl (fun files file => passFile file files)
    (opened r.files fd c), exits r.exited c⟩

/-- The start, with empty tables. -/
def start : FileRun := ⟨⟨[], fun _ => []⟩, [], []⟩

/-- The state after calls. -/
def run (calls : List FdCall) : Except FdFault FileRun := calls.foldlM step start

/-- `vfs_open` returns no address of a file that was passed to neither `vfs_close` nor
`vfs_delete`. -/
def Fresh (r : FileRun) : FdCall → Prop
  | .sysOpen _ file => ∀ o ∈ r.files, o.closes = 0 → o.file ≠ file
  | _ => True

/-- The call closes or deletes an open descriptor. -/
def ClosesOpen (r : FileRun) : FdCall → Prop
  | .sysClose _ fd => ∃ o ∈ r.files, o.isOpen = true ∧ o.fd = fd
  | .sysDelete _ fd => ∃ o ∈ r.files, o.isOpen = true ∧ o.fd = fd
  | _ => False

/-- In one of the states of a run, the call that follows. -/
def Makes (calls : List FdCall) (r : FileRun) (c : FdCall) : Prop :=
  ∃ front back, calls = front ++ c :: back ∧ run front = .ok r

/-- The states of a run. -/
def Reaches (calls : List FdCall) (r : FileRun) : Prop :=
  ∃ front, front <+: calls ∧ run front = .ok r

/-- A run with one more call at its end. -/
lemma run_concat (calls : List FdCall) (c : FdCall) :
    run (calls ++ [c]) = run calls >>= fun r => r.step c := by
  rw [run, List.foldlM_append]
  simp only [List.foldlM_cons, List.foldlM_nil, bind_pure]
  rfl

/-- **The rule of a run**: what holds at the start, and what every call keeps. -/
lemma reaches_rule {calls : List FdCall} {P : FileRun → Prop} (hstart : P start)
    (hstep : ∀ r c r', Makes calls r c → P r → r.step c = .ok r' → P r') {r : FileRun}
    (h : Reaches calls r) : P r := by
  obtain ⟨front, hfront, hrun⟩ := h
  induction front using List.reverseRecOn generalizing r with
  | nil =>
    obtain rfl := Except.ok.inj hrun
    exact hstart
  | append_singleton front c ih =>
    obtain ⟨back, rfl⟩ := hfront
    rw [run_concat, bind_eq_ok] at hrun
    obtain ⟨r₀, hr₀, hrun⟩ := hrun
    have hmakes : Makes (front ++ [c] ++ back) r₀ c := ⟨front, back, by simp, hr₀⟩
    exact hstep r₀ c r hmakes (ih ⟨[c] ++ back, by simp⟩ hr₀) hrun

/-- A run whose calls return. -/
lemma run_rule {calls : List FdCall} {P : FileRun → Prop} (hstart : P start)
    (hstep : ∀ r c, Makes calls r c → P r → ∃ r', r.step c = .ok r' ∧ P r') :
    ∃ r, run calls = .ok r ∧ P r := by
  suffices hrun : ∀ front, front <+: calls → ∃ r, run front = .ok r ∧ P r from
    hrun calls (List.prefix_refl calls)
  intro front hfront
  induction front using List.reverseRecOn with
  | nil => exact ⟨start, rfl, hstart⟩
  | append_singleton front c ih =>
    obtain ⟨back, rfl⟩ := hfront
    obtain ⟨r, hrun, hr⟩ := ih ⟨[c] ++ back, by simp⟩
    obtain ⟨r', hr', hkeep⟩ := hstep r c ⟨front, back, by simp, hrun⟩ hr
    refine ⟨r', ?_, hkeep⟩
    rw [run_concat, hrun, ok_bind, hr']

/-- A property of every call of a run from a state. -/
def Each (P : FileRun → FdCall → Prop) : FileRun → List FdCall → Prop
  | _, [] => True
  | r, c :: calls => P r c ∧ ∀ r', r.step c = .ok r' → Each P r' calls

/-- What holds of each call of a run holds of one that it makes. -/
lemma Each.makes {P : FileRun → FdCall → Prop} {calls : List FdCall}
    (h : Each P start calls) {r : FileRun} {c : FdCall} (hmakes : Makes calls r c) : P r c := by
  suffices hall : ∀ front s back, Each P s (front ++ c :: back) → front.foldlM step s = .ok r →
      P r c by
    obtain ⟨front, back, rfl, hrun⟩ := hmakes
    exact hall front start back h hrun
  intro front
  induction front with
  | nil =>
    intro s back h hrun
    obtain rfl := Except.ok.inj hrun
    exact h.1
  | cons d front ih =>
    intro s back h hrun
    rw [List.foldlM_cons, bind_eq_ok] at hrun
    obtain ⟨s', hs', hrun⟩ := hrun
    exact ih s' back (h.2 s' hs') hrun

/-- A call that returns leads to a state of the run. -/
lemma reaches_of_makes {calls : List FdCall} {r r' : FileRun} {c : FdCall}
    (h : Makes calls r c) (hstep : r.step c = .ok r') : Reaches calls r' := by
  obtain ⟨front, back, rfl, hrun⟩ := h
  refine ⟨front ++ [c], ⟨back, by simp⟩, ?_⟩
  rw [run_concat, hrun, ok_bind, hstep]

/-- A run reaches the state before each call. -/
lemma reaches_before {calls : List FdCall} {r : FileRun} {c : FdCall} (h : Makes calls r c) :
    Reaches calls r := by
  obtain ⟨front, back, rfl, hrun⟩ := h
  exact ⟨front, List.prefix_append front _, hrun⟩

/-! ### One call -/

open FileTables

section Step

variable {r r' : FileRun} {task file : ℕ} {fd : ℤ}

/-- In a table without a free slot, `sys_open` takes the one behind it. -/
lemma step_sysOpen (hfile : file ≠ 0) (htable : 0 ∉ r.tables.fdTable) :
    r.step (.sysOpen task file) =
      .ok ⟨⟨r.tables.fdTable ++ [file], r.tables.register task file⟩,
        ⟨r.tables.fdTable.length + 5, file, task, true, 0⟩ :: r.files, r.exited⟩ := by
  simp [step, call, hfile, fileToFd, htable, Slots.insert, opened, exits]

lemma step_sysOpen_null : r.step (.sysOpen task 0) = .ok r := by
  simp [step, call, opened, exits]

/-- **`sys_close`**, for a descriptor of a file. -/
lemma step_sysClose (hfile : fdToFile r.tables.fdTable fd = .ok file) (hne : file ≠ 0) :
    r.step (.sysClose task fd) =
      .ok ⟨{ r.tables with resources := r.tables.unregister task file },
        passFile file (closeFd fd r.files), r.exited⟩ := by
  simp [step, call, hfile, hne, opened, exits, VfsCall.file]

/-- **`sys_delete`**, for a descriptor of a file. -/
lemma step_sysDelete (hfile : fdToFile r.tables.fdTable fd = .ok file) (hne : file ≠ 0) :
    r.step (.sysDelete task fd) =
      .ok ⟨{ r.tables with resources := r.tables.unregister task file },
        passFile file (closeFd fd r.files), r.exited⟩ := by
  simp [step, call, hfile, hne, opened, exits, VfsCall.file]

/-- **`exit_task`** passes on what is registered. -/
lemma step_exitTask :
    r.step (.exitTask task) =
      .ok ⟨{ r.tables with resources := Function.update r.tables.resources task [] },
        ((r.tables.resources task).filter (· ≠ 0)).foldl (fun files file => passFile file files)
          r.files, task :: r.exited⟩ := by
  have hfiles : (VfsCall.file ∘ VfsCall.close : ℕ → ℕ) = id := rfl
  simp [step, call, opened, exits, hfiles]

/-- A call that is for a descriptor returns if that maps to a file. -/
lemma fdToFile_of_step (h : r.step (.sysClose task fd) = .ok r' ∨
    r.step (.sysDelete task fd) = .ok r') :
    ∃ file, fdToFile r.tables.fdTable fd = .ok file ∧ file ≠ 0 := by
  cases hfd : fdToFile r.tables.fdTable fd with
  | error e => simp [step, call, hfd] at h
  | ok file =>
    refine ⟨file, rfl, ?_⟩
    rintro rfl
    simp [step, call, hfd] at h

end Step

/-! ### Descriptors as a map -/

/-- **The descriptors form a map**: an open one maps to the file that it was returned for, no two
open ones map to the same, and a closed one, unless it was returned again, maps to no file, so that
`file_to_fd` takes its slot. -/
structure FdMap (r : FileRun) : Prop where
  maps : ∀ o ∈ r.files, o.isOpen = true → fdToFile r.tables.fdTable o.fd = .ok o.file
  distinct : r.files.Pairwise fun o o' => o.isOpen = true → o'.isOpen = true → o.file ≠ o'.file
  closed : ∀ o ∈ r.files, (∀ o' ∈ r.files, o'.isOpen = true → o'.fd ≠ o.fd) →
    fdToFile r.tables.fdTable o.fd = .ok 0

/-- The addresses of files are not null. -/
def NonNull (r : FileRun) : Prop := ∀ o ∈ r.files, o.file ≠ 0

/-- While nothing is closed, the table has the files in their order. -/
structure AllOpen (r : FileRun) : Prop where
  isOpen : ∀ o ∈ r.files, o.isOpen = true ∧ o.closes = 0
  table : r.tables.fdTable = r.files.reverse.map OpenedFile.file
  fd : ∀ (i : ℕ) (o : OpenedFile), r.files.reverse[i]? = some o → o.fd = (i : ℤ) + 5
  distinct : r.files.Pairwise fun o o' => o.file ≠ o'.file

/-- A slot of `fd_table`. -/
lemma fdToFile_slot {table : List ℕ} {i file : ℕ} (h : table[i]? = some file) :
    fdToFile table (i + 5) = .ok file := by
  obtain ⟨hi, rfl⟩ := List.getElem?_eq_some_iff.mp h
  rw [fdToFile, if_pos ⟨by omega, by omega⟩]
  simp [hi]

/-- A descriptor that maps to something is that of a slot. -/
lemma slot_of_fdToFile {table : List ℕ} {fd : ℤ} {file : ℕ} (h : fdToFile table fd = .ok file) :
    ∃ i : ℕ, fd = i + 5 ∧ table[i]? = some file := by
  rw [fdToFile] at h
  split_ifs at h with hfd
  have hi : (fd - 5).toNat < table.length := by omega
  refine ⟨(fd - 5).toNat, by omega, ?_⟩
  rw [List.getD_eq_getElem?_getD, List.getElem?_eq_getElem hi, Option.getD_some] at h
  rw [List.getElem?_eq_getElem hi, Except.ok.inj h]

namespace AllOpen

variable {r r' : FileRun} {c : FdCall}

/-- No descriptor is that of no file, while all are open. -/
lemma zero_notMem (h : AllOpen r) (hnull : NonNull r) : 0 ∉ r.tables.fdTable := by
  rw [h.table]
  intro h0
  obtain ⟨o, ho, hfile⟩ := List.mem_map.mp h0
  exact hnull o (List.mem_reverse.mp ho) hfile

/-- The table is a map of the files, while all are open. -/
lemma fdMap (h : AllOpen r) : FdMap r := by
  refine ⟨fun o ho _ => ?_, h.distinct.imp fun hne _ _ => hne, fun o ho hclosed => ?_⟩
  · obtain ⟨i, hi⟩ := List.mem_iff_getElem?.mp (List.mem_reverse.mpr ho)
    rw [h.fd i o hi]
    refine fdToFile_slot ?_
    rw [h.table, List.getElem?_map, hi]
    rfl
  · exact absurd rfl (hclosed o ho (h.isOpen o ho).1)

/-- A call that closes no open descriptor, and no task exits. -/
lemma step (h : AllOpen r) (hnull : NonNull r) (hfresh : r.Fresh c)
    (hexit : ∀ task, c ≠ .exitTask task) (hclose : ¬r.ClosesOpen c) (hstep : r.step c = .ok r') :
    AllOpen r' := by
  have hslot : ∀ fd file, fdToFile r.tables.fdTable fd = .ok file →
      ∃ o ∈ r.files, o.isOpen = true ∧ o.fd = fd := by
    intro fd file hfd
    obtain ⟨i, rfl, hi⟩ := slot_of_fdToFile hfd
    rw [h.table, List.getElem?_map] at hi
    obtain ⟨o, ho, -⟩ := Option.map_eq_some_iff.mp hi
    have hmem : o ∈ r.files := List.mem_reverse.mp (List.mem_of_getElem? ho)
    exact ⟨o, hmem, (h.isOpen o hmem).1, h.fd i o ho⟩
  cases c with
  | sysOpen task file =>
    by_cases hfile : file = 0
    · subst hfile
      rw [step_sysOpen_null] at hstep
      rwa [← Except.ok.inj hstep]
    · rw [step_sysOpen hfile (h.zero_notMem hnull)] at hstep
      obtain rfl := Except.ok.inj hstep
      have htable : r.tables.fdTable.length = r.files.length := by rw [h.table]; simp
      refine ⟨List.forall_mem_cons.mpr ⟨⟨rfl, rfl⟩, h.isOpen⟩, ?_, fun i o ho => ?_,
        List.pairwise_cons.mpr ⟨fun o ho => ?_, h.distinct⟩⟩
      · simp [h.table]
      · rw [List.reverse_cons] at ho
        rcases lt_or_ge i r.files.reverse.length with hi | hi
        · rw [List.getElem?_append_left hi] at ho
          exact h.fd i o ho
        · rw [List.getElem?_append_right hi, List.getElem?_singleton] at ho
          split_ifs at ho with hzero
          rw [← Option.some.inj ho, htable]
          simp at hi hzero
          simp
          omega
      · exact (hfresh o ho (h.isOpen o ho).2).symm
  | sysClose task fd =>
    obtain ⟨file, hfd, -⟩ := fdToFile_of_step (.inl hstep)
    exact absurd (hslot fd file hfd) hclose
  | sysDelete task fd =>
    obtain ⟨file, hfd, -⟩ := fdToFile_of_step (.inr hstep)
    exact absurd (hslot fd file hfd) hclose
  | exitTask task => exact absurd rfl (hexit task)

end AllOpen

/-- No call makes an address null. -/
lemma NonNull.step {r r' : FileRun} {c : FdCall} (h : NonNull r) (hstep : r.step c = .ok r') :
    NonNull r' := by
  have hkeys : ∀ files : List OpenedFile, (∀ k ∈ files.map OpenedFile.key, k.2.1 ≠ 0) ↔
      ∀ o ∈ files, o.file ≠ 0 := fun files => by simp [OpenedFile.key]
  rw [FileRun.step, bind_eq_ok] at hstep
  obtain ⟨⟨fd, passed, tables⟩, hcall, hstep⟩ := hstep
  obtain rfl := Except.ok.inj hstep
  rw [NonNull, ← hkeys, passFiles_key]
  cases c with
  | sysOpen task file =>
    by_cases hfile : file = 0
    · simp only [call, if_pos hfile, Except.ok.injEq, Prod.mk.injEq] at hcall
      rw [opened, ← hcall.1]
      exact (hkeys r.files).mpr h
    · simp only [call, if_neg hfile, Except.ok.injEq, Prod.mk.injEq] at hcall
      rw [opened, ← hcall.1, hkeys]
      exact List.forall_mem_cons.mpr ⟨hfile, h⟩
  | sysClose task fd =>
    rw [opened, closeFd_key, hkeys]
    exact h
  | sysDelete task fd =>
    rw [opened, closeFd_key, hkeys]
    exact h
  | exitTask task => exact (hkeys _).mpr h

/-- A descriptor that is closed and maps to its file still. -/
lemma not_fdMap_of_closeFd {r : FileRun} {files : List OpenedFile} {o : OpenedFile} {fd : ℤ}
    (hr : r.files = passFile o.file (closeFd fd files)) (ho : o ∈ files) (hfd : o.fd = fd)
    (hmaps : fdToFile r.tables.fdTable fd = .ok o.file) (hnull : o.file ≠ 0) : ¬FdMap r := by
  intro h
  have hkey : o.key ∈ r.files.map OpenedFile.key := by
    rw [hr, passFile_key, closeFd_key]
    exact List.mem_map_of_mem ho
  obtain ⟨o₁, ho₁, hkey₁⟩ := List.mem_map.mp hkey
  have hfd₁ : o₁.fd = fd := by rw [← hfd]; exact congrArg Prod.fst hkey₁
  have hclosed : ∀ o' ∈ r.files, o'.isOpen = true → o'.fd ≠ o₁.fd := by
    intro o' ho' hopen hsame
    rw [hr] at ho'
    obtain ⟨o₂, ho₂, hkey₂, hopen₂⟩ := mem_passFile ho'
    obtain ⟨o₃, -, rfl⟩ := List.mem_map.mp ho₂
    have hfd₂ : o'.fd = _ := congrArg Prod.fst hkey₂
    rw [hsame, hfd₁] at hfd₂
    by_cases hfd₃ : o₃.fd = fd
    · rw [if_pos hfd₃, hopen] at hopen₂
      exact Bool.noConfusion hopen₂
    · rw [if_neg hfd₃] at hfd₂
      exact hfd₃ hfd₂.symm
  have hnone := h.closed o₁ ho₁ hclosed
  rw [hfd₁, hmaps] at hnone
  exact hnull (Except.ok.inj hnone)

/-- **The closing call**: the slot keeps the file, and the descriptor maps to it still. -/
lemma FdMap.not_closed {r : FileRun} {c : FdCall} (h : FdMap r) (hnull : NonNull r)
    (hclose : r.ClosesOpen c) : ∃ r', r.step c = .ok r' ∧ ¬FdMap r' := by
  cases c with
  | sysOpen task file => exact hclose.elim
  | sysClose task fd =>
    obtain ⟨o, ho, hopen, hfd⟩ := hclose
    have hmaps : fdToFile r.tables.fdTable fd = .ok o.file := hfd ▸ h.maps o ho hopen
    exact ⟨_, step_sysClose hmaps (hnull o ho),
      not_fdMap_of_closeFd rfl ho hfd hmaps (hnull o ho)⟩
  | sysDelete task fd =>
    obtain ⟨o, ho, hopen, hfd⟩ := hclose
    have hmaps : fdToFile r.tables.fdTable fd = .ok o.file := hfd ▸ h.maps o ho hopen
    exact ⟨_, step_sysDelete hmaps (hnull o ho),
      not_fdMap_of_closeFd rfl ho hfd hmaps (hnull o ho)⟩
  | exitTask task => exact hclose.elim

/-- **When the descriptors form a map.** -/
theorem fdMap_iff {calls : List FdCall}
    (hcalls : ∀ r c, Makes calls r c → r.Fresh c ∧ ∀ task, c ≠ .exitTask task) :
    (∀ r, Reaches calls r → FdMap r) ↔ ∀ r c, Makes calls r c → ¬r.ClosesOpen c := by
  have hnull : ∀ r, Reaches calls r → NonNull r := fun r =>
    reaches_rule (fun o ho => absurd ho List.not_mem_nil) fun r c r' _ h hstep => h.step hstep
  constructor
  · intro h r c hmakes hclose
    obtain ⟨r', hstep, hno⟩ :=
      (h r (reaches_before hmakes)).not_closed (hnull r (reaches_before hmakes)) hclose
    exact hno (h r' (reaches_of_makes hmakes hstep))
  · intro h r hr
    refine AllOpen.fdMap (reaches_rule (P := fun r => AllOpen r) ?_ ?_ hr)
    · exact ⟨fun o ho => absurd ho List.not_mem_nil, rfl, by simp [start], List.Pairwise.nil⟩
    · intro r c r' hmakes hopen hstep
      exact hopen.step (hnull r (reaches_before hmakes)) (hcalls r c hmakes).1
        (hcalls r c hmakes).2 (h r c hmakes) hstep

/-- A run of two tasks that open a file each. -/
def twoOpened : List FdCall := [.sysOpen 1 16, .sysOpen 2 32]

/-- **Two tasks that open a file each.** -/
theorem fdMap_two : ∃ r, Reaches twoOpened r ∧ FdMap r := by
  have hcalls : Each (fun r c => (r.Fresh c ∧ ∀ task, c ≠ .exitTask task) ∧ ¬r.ClosesOpen c) start
      twoOpened := by
    simp [Each, twoOpened, start, FileRun.step, call, fileToFd, Slots.insert, opened, exits, Fresh,
      ClosesOpen]
  have hreach : Reaches twoOpened _ := ⟨twoOpened, List.prefix_refl twoOpened, rfl⟩
  exact ⟨_, hreach, (fdMap_iff fun r c hmakes => (hcalls.makes hmakes).1).mpr
    (fun r c hmakes => (hcalls.makes hmakes).2) _ hreach⟩

/-- A descriptor that is closed: it maps to its file still, and no slot of `fd_table` is free. -/
theorem closed_fd_maps : ∃ r, run [.sysOpen 1 16, .sysClose 1 5] = .ok r ∧
    (∀ o ∈ r.files, o.fd = 5 ∧ o.isOpen = false) ∧ fdToFile r.tables.fdTable 5 = .ok 16 ∧
    0 ∉ r.tables.fdTable ∧ ¬FdMap r := by
  have hopened : ∀ o ∈ (⟨5, 16, 1, false, 1⟩ : OpenedFile) :: [], o.fd = 5 ∧ o.isOpen = false := by
    simp
  have hmaps : fdToFile [16] 5 = .ok 16 := rfl
  have hfull : 0 ∉ [16] := by simp
  refine ⟨_, rfl, hopened, hmaps, hfull, fun h => ?_⟩
  have hnone : fdToFile [16] 5 = .ok 0 :=
    h.closed ⟨5, 16, 1, false, 1⟩ (List.mem_singleton_self _) fun o ho hopen => by
      rw [(hopened o ho).2] at hopen
      exact Bool.noConfusion hopen
  rw [hmaps] at hnone
  exact absurd (Except.ok.inj hnone) (by norm_num)

end FileRun

end MicroOS
