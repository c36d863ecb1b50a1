import MicroOS.Scheduler.Resource
import MicroOS.Syscall.FileDescriptors

/-!
Files that are closed once: runs of `sys_open`, `sys_close` and `exit_task`.

* `FileRun.ClosesOwn`: a task closes what it has opened itself and not closed yet;
* `FileRun.Owned` is the invariant of runs with such calls: the files that are not closed have
  addresses of their own, and each is registered with its task;
* `closed_once`: every file is closed once in them. `sys_close` does not look at the owner, and does
  not clear the descriptor: `closed_twice`.
-/

namespace MicroOS

open Checked

/-! ### The resources of a task -/

namespace TaskResources

/-- `resource_unregister_self`, the free slots apart. -/
lemma filter_unregister (l : List ℕ) (file : ℕ) :
    (l.map fun r => if r = file then 0 else r).filter (· ≠ 0) =
      (l.filter (· ≠ 0)).filter (· ≠ file) := by
  induction l with
  | nil => rfl
  | cons r l ih =>
    rw [List.map_cons, List.filter_cons, ih, List.filter_cons]
    by_cases hr : r = 0
    · simp [hr]
    · by_cases hfile : r = file
      · subst hfile
        simp [hr]
      · simp [hr, hfile]

end TaskResources

/-! ### The calls -/

namespace FileRun

open FileTables

/-- The task that makes a call. -/
def caller : FdCall → ℕ
  | .sysOpen task _ => task
  | .sysClose task _ => task
  | .sysDelete task _ => task
  | .exitTask task => task

/-- A task closes a descriptor that it has opened itself and not closed since. -/
def ClosesOwn (r : FileRun) : FdCall → Prop
  | .sysClose task fd => ∃ o ∈ r.files, o.isOpen = true ∧ o.fd = fd ∧ o.task = task
  | _ => True

/-- A run of `sys_open`, `sys_close` and `exit_task`, where no task calls after its exit. -/
structure Allowed (r : FileRun) (c : FdCall) : Prop where
  fresh : r.Fresh c
  active : caller c ∉ r.exited
  noDelete : ∀ task fd, c ≠ .sysDelete task fd

lemma allowed_iff {r : FileRun} {c : FdCall} :
    r.Allowed c ↔ r.Fresh c ∧ caller c ∉ r.exited ∧ ∀ task fd, c ≠ .sysDelete task fd :=
  ⟨fun h => ⟨h.fresh, h.active, h.noDelete⟩, fun h => ⟨h.1, h.2.1, h.2.2⟩⟩

/-- **The invariant**: the files that are not closed have addresses of their own, and each of them
is registered once, with its task. -/
structure Owned (r : FileRun) : Prop where
  nonNull : NonNull r
  full : 0 ∉ r.tables.fdTable
  table : ∀ o ∈ r.files, fdToFile r.tables.fdTable o.fd = .ok o.file
  fds : (r.files.map OpenedFile.fd).Nodup
  last : r.files.Pairwise fun o o' => o'.closes = 0 → o.file ≠ o'.file
  live : ∀ o ∈ r.files, o.closes = 0 ∧ o.isOpen = true ∧ o.task ∉ r.exited ∨
    o.closes = 1 ∧ (o.isOpen = false ∨ o.task ∈ r.exited)
  distinct : ∀ task, task ∉ r.exited → Slots.Distinct 0 (r.tables.resources task)
  registered : ∀ task, task ∉ r.exited → ∀ file ≠ 0, file ∈ r.tables.resources task ↔
    ∃ o ∈ r.files, o.task = task ∧ o.closes = 0 ∧ o.file = file

end FileRun

/-- A file that is passed to `vfs_close`, if it is not closed. -/
def markPassed (addresses : List ℕ) (o : OpenedFile) : OpenedFile :=
  if o.closes = 0 ∧ o.file ∈ addresses then { o with closes := 1 } else o

/-- Passing an address on changes no key. -/
lemma markPassed_key (addresses : List ℕ) (o : OpenedFile) :
    (markPassed addresses o).key = o.key := by
  rw [markPassed]
  split_ifs <;> rfl

/-- Nor does it change a file. -/
@[simp] lemma markPassed_file (addresses : List ℕ) (o : OpenedFile) :
    (markPassed addresses o).file = o.file := by
  rw [markPassed]
  split_ifs <;> rfl

/-- A file that is not closed after it was not closed before it. -/
lemma closes_of_markPassed {addresses : List ℕ} {o : OpenedFile}
    (h : (markPassed addresses o).closes = 0) : o.closes = 0 := by
  rw [markPassed] at h
  split_ifs at h
  exact h

/-- An address at which a file is not closed: that is the last file there. -/
lemma passFile_eq_map {files : List OpenedFile} {file : ℕ}
    (hlast : files.Pairwise fun o o' => o'.closes = 0 → o.file ≠ o'.file)
    (h : ∃ o ∈ files, o.closes = 0 ∧ o.file = file) :
    passFile file files = files.map (markPassed [file]) := by
  induction files with
  | nil => simp at h
  | cons x files ih =>
    obtain ⟨hx, hlast⟩ := List.pairwise_cons.mp hlast
    rw [passFile, List.map_cons]
    by_cases hfile : x.file = file
    · have hrest : ∀ y ∈ files, markPassed [file] y = y := fun y hy => by
        rw [markPassed, if_neg]
        rintro ⟨hzero, hmem⟩
        exact hx y hy hzero (hfile.trans (List.mem_singleton.mp hmem).symm)
      have hzero : x.closes = 0 := by
        obtain ⟨o, ho, hzero, hofile⟩ := h
        rcases List.mem_cons.mp ho with rfl | ho
        · exact hzero
        · exact absurd (hfile.trans hofile.symm) (hx o ho hzero)
      rw [if_pos hfile, List.map_congr_left hrest, List.map_id', markPassed,
        if_pos ⟨hzero, by simp [hfile]⟩, hzero]
    · have hrest : ∃ o ∈ files, o.closes = 0 ∧ o.file = file := by
        obtain ⟨o, ho, hzero, hofile⟩ := h
        rcases List.mem_cons.mp ho with rfl | ho
        · exact absurd hofile hfile
        · exact ⟨o, ho, hzero, hofile⟩
      rw [if_neg hfile, ih hlast hrest, markPassed, if_neg (by simp [hfile])]

/-- Files that are passed one after the other. -/
lemma passFiles_eq_map {files : List OpenedFile} {addresses : List ℕ} (hnodup : addresses.Nodup)
    (hlast : files.Pairwise fun o o' => o'.closes = 0 → o.file ≠ o'.file)
    (h : ∀ file ∈ addresses, ∃ o ∈ files, o.closes = 0 ∧ o.file = file) :
    addresses.foldl (fun files file => passFile file files) files =
      files.map (markPassed addresses) := by
  induction addresses generalizing files with
  | nil =>
    have hid : ∀ o ∈ files, markPassed [] o = o := fun o _ => by simp [markPassed]
    rw [List.foldl_nil, List.map_congr_left hid, List.map_id']
  | cons file addresses ih =>
    obtain ⟨hfile, hnodup⟩ := List.nodup_cons.mp hnodup
    obtain ⟨hhead, htail⟩ := List.forall_mem_cons.mp h
    rw [List.foldl_cons, passFile_eq_map hlast hhead, ih hnodup]
    · rw [List.map_map]
      refine List.map_congr_left fun o _ => ?_
      by_cases hzero : o.closes = 0
      · by_cases hofile : o.file = file
        · simp [markPassed, hzero, hofile]
        · simp [markPassed, hzero, hofile]
      · simp [markPassed, hzero]
    · refine List.pairwise_map.mpr (hlast.imp fun hne hzero => ?_)
      rw [markPassed_file, markPassed_file]
      exact hne (closes_of_markPassed hzero)
    · intro g hg
      obtain ⟨o, ho, hzero, hofile⟩ := htail g hg
      refine ⟨o, List.mem_map.mpr ⟨o, ho, ?_⟩, hzero, hofile⟩
      rw [markPassed, if_neg]
      rintro ⟨-, hmem⟩
      rw [hofile, List.mem_singleton] at hmem
      exact hfile (hmem ▸ hg)

/-- A file whose descriptor is closed, and that is passed to `vfs_close`. -/
def markClosed (fd : ℤ) (o : OpenedFile) : OpenedFile :=
  if o.fd = fd then { o with isOpen := false, closes := 1 } else o

lemma markClosed_key (fd : ℤ) (o : OpenedFile) : (markClosed fd o).key = o.key := by
  rw [markClosed]
  split_ifs <;> rfl

/-- A file that is not closed after it was not closed before it. -/
lemma closes_of_markClosed {fd : ℤ} {o : OpenedFile} (h : (markClosed fd o).closes = 0) :
    o.closes = 0 := by
  rw [markClosed] at h
  split_ifs at h
  exact h

/-- What is in the table of a task after `resource_unregister_self`. -/
lemma mem_unregister {l : List ℕ} {file g : ℕ} (hg : g ≠ 0) :
    (g ∈ l.map fun r => if r = file then 0 else r) ↔ g ∈ l ∧ g ≠ file := by
  have h : g ∈ (l.map fun r => if r = file then 0 else r).filter (· ≠ 0) ↔
      g ∈ (l.filter (· ≠ 0)).filter (· ≠ file) := by
    rw [TaskResources.filter_unregister]
  simpa only [List.mem_filter, decide_eq_true_eq, hg, ne_eq, not_false_eq_true, and_true] using h

/-- The files that are left are distinct. -/
lemma distinct_unregister {l : List ℕ} (file : ℕ) (h : Slots.Distinct 0 l) :
    Slots.Distinct 0 (l.map fun r => if r = file then 0 else r) := by
  intro g hg hne
  obtain ⟨hmem, hfile⟩ := (mem_unregister hne).mp hg
  have hcount : (fun r => (if r = file then 0 else r) == g) = fun r => r == g := by
    funext r
    split_ifs with hr
    · simp [hne.symm, hr, hfile.symm]
    · rfl
  rw [List.count, List.countP_map, Function.comp_def, hcount]
  exact h g hmem hne

namespace FileRun

open FileTables

namespace Owned

variable {r r' : FileRun} {task file : ℕ} {fd : ℤ}

/-- Two files that are not closed have different addresses. -/
lemma unique (h : Owned r) {o o' : OpenedFile} (ho : o ∈ r.files) (ho' : o' ∈ r.files)
    (hzero : o.closes = 0) (hzero' : o'.closes = 0) (hfile : o.file = o'.file) : o = o' := by
  have hpair : r.files.Pairwise fun o o' => o.closes = 0 → o'.closes = 0 → o.file ≠ o'.file :=
    h.last.imp fun hne _ hzero' => hne hzero'
  have hsymm : Std.Symm fun o o' : OpenedFile =>
      o.closes = 0 → o'.closes = 0 → o.file ≠ o'.file :=
    ⟨fun _ _ h hzero hzero' => (h hzero' hzero).symm⟩
  by_contra hne
  exact hpair.forall ho ho' hne hzero hzero' hfile

lemma eq_of_fd (h : Owned r) {o o' : OpenedFile} (ho : o ∈ r.files) (ho' : o' ∈ r.files)
    (hfd : o.fd = o'.fd) : o = o' :=
  List.inj_on_of_nodup_map h.fds ho ho' hfd

/-- **`sys_open`** keeps the invariant. -/
lemma sysOpen (h : Owned r) (hfresh : r.Fresh (.sysOpen task file)) (hactive : task ∉ r.exited)
    (hstep : r.step (.sysOpen task file) = .ok r') : Owned r' := by
  by_cases hfile : file = 0
  · subst hfile
    rw [step_sysOpen_null] at hstep
    rwa [← Except.ok.inj hstep]
  rw [step_sysOpen hfile h.full] at hstep
  obtain rfl := Except.ok.inj hstep
  have hfds : ∀ o ∈ r.files, o.fd ≠ (r.tables.fdTable.length : ℤ) + 5 := by
    intro o ho hfd
    obtain ⟨i, hi, hget⟩ := slot_of_fdToFile (h.table o ho)
    obtain ⟨hlt, -⟩ := List.getElem?_eq_some_iff.mp hget
    omega
  have hnew : file ∉ r.tables.resources task := by
    intro hmem
    obtain ⟨o, ho, -, hzero, hofile⟩ := (h.registered task hactive file hfile).mp hmem
    exact hfresh o ho hzero hofile
  refine ⟨?_, ?_, ?_, ?_, ?_, ?_, ?_, ?_⟩
  · exact List.forall_mem_cons.mpr ⟨hfile, h.nonNull⟩
  · simp [h.full, Ne.symm hfile]
  · refine List.forall_mem_cons.mpr ⟨fdToFile_slot (by simp), fun o ho => ?_⟩
    obtain ⟨i, hi, hget⟩ := slot_of_fdToFile (h.table o ho)
    obtain ⟨hlt, -⟩ := List.getElem?_eq_some_iff.mp hget
    rw [hi]
    refine fdToFile_slot ?_
    rw [List.getElem?_append_left hlt, hget]
  · refine List.nodup_cons.mpr ⟨fun hmem => ?_, h.fds⟩
    obtain ⟨o, ho, hfd⟩ := List.mem_map.mp hmem
    exact hfds o ho hfd
  · exact List.pairwise_cons.mpr ⟨fun o ho hzero => (hfresh o ho hzero).symm, h.last⟩
  · exact List.forall_mem_cons.mpr ⟨.inl ⟨rfl, rfl, hactive⟩, h.live⟩
  · intro task' hactive'
    by_cases htask : task' = task
    · subst htask
      simpa [FileTables.register] using (h.distinct task' hactive').insert hnew
    · simpa [FileTables.register, htask] using h.distinct task' hactive'
  · intro task' hactive' g hg
    have hold := h.registered task' hactive' g hg
    by_cases htask : task' = task
    · subst htask
      simp [FileTables.register, Slots.mem_insert_iff hg, hold, eq_comm]
    · simp [FileTables.register, htask, hold, Ne.symm htask]

/-- Files that are changed where they stand: what does not depend on the tasks. -/
lemma of_map (h : Owned r) {f : OpenedFile → OpenedFile} {resources : ℕ → List ℕ}
    {files : List OpenedFile} {exited : List ℕ} (hkey : ∀ o, (f o).key = o.key)
    (hzero : ∀ o, (f o).closes = 0 → o.closes = 0) (hfiles : files = r.files.map f)
    (hlive : ∀ o ∈ r.files, (f o).closes = 0 ∧ (f o).isOpen = true ∧ o.task ∉ exited ∨
      (f o).closes = 1 ∧ ((f o).isOpen = false ∨ o.task ∈ exited))
    (hdistinct : ∀ task, task ∉ exited → Slots.Distinct 0 (resources task))
    (hregistered : ∀ task, task ∉ exited → ∀ file ≠ 0, file ∈ resources task ↔
      ∃ o ∈ r.files, o.task = task ∧ (f o).closes = 0 ∧ o.file = file) :
    Owned ⟨⟨r.tables.fdTable, resources⟩, files, exited⟩ := by
  have hfd : ∀ o, (f o).fd = o.fd := fun o => congrArg Prod.fst (hkey o)
  have hfile : ∀ o, (f o).file = o.file := fun o => congrArg (·.2.1) (hkey o)
  have htask : ∀ o, (f o).task = o.task := fun o => congrArg (·.2.2) (hkey o)
  refine ⟨?_, ?_, ?_, ?_, ?_, ?_, hdistinct, ?_⟩
  · rw [NonNull, hfiles, List.forall_mem_map]
    exact fun o ho => (hfile o).trans_ne (h.nonNull o ho)
  · exact h.full
  · rw [hfiles, List.forall_mem_map]
    intro o ho
    rw [hfd, hfile]
    exact h.table o ho
  · have hfds : files.map OpenedFile.fd = r.files.map OpenedFile.fd := by
      rw [hfiles, List.map_map]
      exact List.map_congr_left fun o _ => hfd o
    rw [hfds]
    exact h.fds
  · rw [hfiles, List.pairwise_map]
    refine h.last.imp fun {o o'} hne h0 => ?_
    rw [hfile, hfile]
    exact hne (hzero o' h0)
  · rw [hfiles, List.forall_mem_map]
    intro o ho
    rw [htask]
    exact hlive o ho
  · intro task hactive file hne
    rw [hregistered task hactive file hne, hfiles]
    simp only [List.mem_map, exists_exists_and_eq_and, htask, hfile]

/-- Another file that is not closed has another address. -/
lemma file_ne (h : Owned r) {o x : OpenedFile} (ho : o ∈ r.files) (hzero : o.closes = 0)
    (hx : x ∈ r.files) (hfd : x.fd ≠ o.fd) (hzero' : x.closes = 0) : x.file ≠ o.file :=
  fun hfile => hfd (congrArg OpenedFile.fd (h.unique hx ho hzero' hzero hfile))

/-- A descriptor is closed, and its file is passed to `vfs_close`. -/
lemma passFile_closeFd (h : Owned r) {o : OpenedFile} (ho : o ∈ r.files) (hzero : o.closes = 0) :
    passFile o.file (closeFd o.fd r.files) = r.files.map (markClosed o.fd) := by
  rw [passFile_eq_map, closeFd, List.map_map]
  · refine List.map_congr_left fun x hx => ?_
    rw [Function.comp_apply, markClosed]
    by_cases hfd : x.fd = o.fd
    · obtain rfl := h.eq_of_fd hx ho hfd
      simp [markPassed, hzero]
    · have hnot : ¬(x.closes = 0 ∧ x.file ∈ [o.file]) := fun hpassed =>
        h.file_ne ho hzero hx hfd hpassed.1 (List.mem_singleton.mp hpassed.2)
      rw [if_neg hfd, if_neg hfd, markPassed, if_neg hnot]
  · refine List.pairwise_map.mpr (h.last.imp fun {x y} hne => ?_)
    split_ifs <;> exact hne
  · exact ⟨{ o with isOpen := false }, List.mem_map.mpr ⟨o, ho, if_pos rfl⟩, hzero, rfl⟩

/-- A task closes its own descriptor. -/
lemma sysClose (h : Owned r) (hactive : task ∉ r.exited) (hown : r.ClosesOwn (.sysClose task fd))
    (hstep : r.step (.sysClose task fd) = .ok r') : Owned r' := by
  obtain ⟨o, ho, hopen, rfl, rfl⟩ := hown
  -- the file is open in the table, so it has not been closed yet
  have hzero : o.closes = 0 := by
    rcases h.live o ho with ⟨hzero, -⟩ | ⟨-, hclosed | hexit⟩
    · exact hzero
    · rw [hopen] at hclosed
      exact Bool.noConfusion hclosed
    · exact absurd hexit hactive
  rw [step_sysClose (h.table o ho) (h.nonNull o ho)] at hstep
  obtain rfl := Except.ok.inj hstep
  have hclosed : ∀ x ∈ r.files,
      (markClosed o.fd x).closes = 0 ↔ x.closes = 0 ∧ x.file ≠ o.file := by
    intro x hx
    by_cases hfd : x.fd = o.fd
    · obtain rfl := h.eq_of_fd hx ho hfd
      simp [markClosed]
    · rw [markClosed, if_neg hfd]
      exact ⟨fun hzero' => ⟨hzero', h.file_ne ho hzero hx hfd hzero'⟩, fun h => h.1⟩
  refine h.of_map (markClosed_key o.fd) (fun x => closes_of_markClosed)
    (h.passFile_closeFd ho hzero) ?_ ?_ ?_
  · intro x hx
    by_cases hfd : x.fd = o.fd
    · exact .inr (by simp [markClosed, hfd])
    · simpa [markClosed, hfd] using h.live x hx
  · intro task hactive'
    by_cases htask : task = o.task
    · subst htask
      simpa [FileTables.unregister] using distinct_unregister o.file (h.distinct o.task hactive)
    · simpa [FileTables.unregister, htask] using h.distinct task hactive'
  · intro task hactive' file hfile
    -- the list of the task loses the file, and the list of every other task keeps its files
    have hold := h.registered task hactive' file hfile
    by_cases htask : task = o.task
    · subst htask
      rw [FileTables.unregister, Function.update_self, mem_unregister hfile, hold]
      constructor
      · rintro ⟨⟨x, hx, hxtask, hxzero, rfl⟩, hne⟩
        exact ⟨x, hx, hxtask, (hclosed x hx).mpr ⟨hxzero, hne⟩, rfl⟩
      · rintro ⟨x, hx, hxtask, hxclosed, rfl⟩
        obtain ⟨hxzero, hne⟩ := (hclosed x hx).mp hxclosed
        exact ⟨⟨x, hx, hxtask, hxzero, rfl⟩, hne⟩
    · rw [FileTables.unregister, Function.update_of_ne htask, hold]
      constructor
      · rintro ⟨x, hx, rfl, hxzero, rfl⟩
        refine ⟨x, hx, rfl, (hclosed x hx).mpr ⟨hxzero, fun hsame => ?_⟩, rfl⟩
        exact htask (congrArg OpenedFile.task (h.unique hx ho hxzero hzero hsame))
      · rintro ⟨x, hx, hxtask, hxclosed, rfl⟩
        exact ⟨x, hx, hxtask, ((hclosed x hx).mp hxclosed).1, rfl⟩

/-- A file that is passed to `vfs_close` when a task exits: one that is not closed, if the task has
opened it. -/
lemma markPassed_registered (h : Owned r) (hactive : task ∉ r.exited) {x : OpenedFile}
    (hx : x ∈ r.files) : markPassed ((r.tables.resources task).filter (· ≠ 0)) x =
      if x.closes = 0 ∧ x.task = task then { x with closes := 1 } else x := by
  rw [markPassed]
  refine if_congr (and_congr_right fun hzero => ?_) rfl rfl
  rw [List.mem_filter, h.registered task hactive x.file (h.nonNull x hx)]
  constructor
  · rintro ⟨⟨y, hy, hytask, hyzero, hyfile⟩, -⟩
    rw [← h.unique hy hx hyzero hzero hyfile]
    exact hytask
  · intro hxtask
    exact ⟨⟨x, hx, hxtask, hzero, rfl⟩, by simpa using h.nonNull x hx⟩

/-- A task exits, which closes the files that are registered with it. -/
lemma exitTask (h : Owned r) (hactive : task ∉ r.exited)
    (hstep : r.step (.exitTask task) = .ok r') : Owned r' := by
  obtain rfl := Except.ok.inj (step_exitTask.symm.trans hstep)
  have hnodup := Slots.Distinct.nodup_filter (h.distinct task hactive)
  have hfiles := passFiles_eq_map hnodup h.last fun file hfile => by
    obtain ⟨hmem, hne⟩ := List.mem_filter.mp hfile
    obtain ⟨o, ho, -, hzero, hofile⟩ :=
      (h.registered task hactive file (by simpa using hne)).mp hmem
    exact ⟨o, ho, hzero, hofile⟩
  refine h.of_map (markPassed_key _) (fun x => closes_of_markPassed) hfiles ?_ ?_ ?_
  · intro x hx
    rw [h.markPassed_registered hactive hx]
    rcases h.live x hx with ⟨hzero, hopen, hnot⟩ | ⟨hone, hrest⟩
    · by_cases htask : x.task = task
      · rw [if_pos ⟨hzero, htask⟩]
        exact .inr ⟨rfl, .inr (htask ▸ List.mem_cons_self)⟩
      · rw [if_neg fun hp => htask hp.2]
        exact .inl ⟨hzero, hopen, by simp [htask, hnot]⟩
    · rw [if_neg fun hp => by omega]
      exact .inr ⟨hone, hrest.imp_right (List.mem_cons_of_mem task)⟩
  · intro task' hactive'
    rw [List.mem_cons, not_or] at hactive'
    obtain ⟨htask, hactive'⟩ := hactive'
    rw [Function.update_of_ne htask]
    exact h.distinct task' hactive'
  · intro task' hactive' file hfile
    rw [List.mem_cons, not_or] at hactive'
    obtain ⟨htask, hactive'⟩ := hactive'
    rw [Function.update_of_ne htask, h.registered task' hactive' file hfile]
    constructor
    · rintro ⟨x, hx, rfl, hzero, rfl⟩
      refine ⟨x, hx, rfl, ?_, rfl⟩
      rwa [h.markPassed_registered hactive hx, if_neg fun hp => htask hp.2]
    · rintro ⟨x, hx, hxtask, hzero, rfl⟩
      exact ⟨x, hx, hxtask, closes_of_markPassed hzero, rfl⟩

/-- **What a call keeps.** -/
lemma step {c : FdCall} (h : Owned r) (hallowed : r.Allowed c) (hown : r.ClosesOwn c)
    (hstep : r.step c = .ok r') : Owned r' := by
  cases c with
  | sysOpen task file => exact h.sysOpen hallowed.fresh hallowed.active hstep
  | sysClose task fd => exact h.sysClose hallowed.active hown hstep
  | sysDelete task fd => exact absurd rfl (hallowed.noDelete task fd)
  | exitTask task => exact h.exitTask hallowed.active hstep

/-- Every call returns. -/
lemma returns {c : FdCall} (h : Owned r) (hallowed : r.Allowed c) (hown : r.ClosesOwn c) :
    ∃ r', r.step c = .ok r' := by
  cases c with
  | sysOpen task file =>
    by_cases hfile : file = 0
    · subst hfile
      exact ⟨r, step_sysOpen_null⟩
    · exact ⟨_, step_sysOpen hfile h.full⟩
  | sysClose task fd =>
    obtain ⟨o, ho, -, rfl, -⟩ := hown
    exact ⟨_, step_sysClose (h.table o ho) (h.nonNull o ho)⟩
  | sysDelete task fd => exact absurd rfl (hallowed.noDelete task fd)
  | exitTask task => exact ⟨_, step_exitTask⟩

end Owned

/-- The invariant holds at the start. -/
lemma owned_start : Owned start where
  nonNull := fun o ho => absurd ho List.not_mem_nil
  full := List.not_mem_nil
  table := fun o ho => absurd ho List.not_mem_nil
  fds := List.nodup_nil
  last := List.Pairwise.nil
  live := fun o ho => absurd ho List.not_mem_nil
  distinct := fun _ _ => Slots.distinct_nil 0
  registered := by simp [start]

/-- A run of two tasks. -/
def twoTasks : List FdCall :=
  [.sysOpen 1 16, .sysOpen 2 32, .sysClose 1 5, .exitTask 2, .exitTask 1]

/-- **Every file is closed once**, where a task closes what it has opened itself. -/
theorem closed_once {calls : List FdCall} (hcalls : ∀ r c, Makes calls r c → r.Allowed c)
    (hown : ∀ r c, Makes calls r c → r.ClosesOwn c) :
    (∃ r, run calls = .ok r) ∧ ∀ r, Reaches calls r →
      ∀ o ∈ r.files, o.closes ≤ 1 ∧ (o.task ∈ r.exited → o.closes = 1) := by
  constructor
  · obtain ⟨r, hrun, -⟩ := run_rule owned_start fun r c hmakes h => by
      obtain ⟨r', hr'⟩ := h.returns (hcalls r c hmakes) (hown r c hmakes)
      exact ⟨r', hr', h.step (hcalls r c hmakes) (hown r c hmakes) hr'⟩
    exact ⟨r, hrun⟩
  · intro r hr o ho
    have howned : Owned r := reaches_rule owned_start
      (fun r c r' hmakes h hstep => h.step (hcalls r c hmakes) (hown r c hmakes) hstep) hr
    rcases howned.live o ho with ⟨hzero, -, hactive⟩ | ⟨hone, -⟩
    · exact ⟨by omega, fun hexit => absurd hexit hactive⟩
    · exact ⟨hone.le, fun _ => hone⟩

/-- Two tasks, one of which leaves its file to `exit_task`. -/
theorem closed_once_two :
    (∃ r, run twoTasks = .ok r) ∧ ∀ r, Reaches twoTasks r →
      ∀ o ∈ r.files, o.closes ≤ 1 ∧ (o.task ∈ r.exited → o.closes = 1) := by
  have hallowed : Each Allowed start twoTasks := by
    simp [Each, twoTasks, start, FileRun.step, call, fileToFd, Slots.insert, fdToFile, opened,
      exits, closeFd, passFile, register, unregister, VfsCall.file, allowed_iff, Fresh, caller]
  have hown : Each ClosesOwn start twoTasks := by
    simp [Each, twoTasks, start, FileRun.step, call, fileToFd, Slots.insert, fdToFile, opened,
      exits, closeFd, register, unregister, ClosesOwn]
  exact closed_once (fun r c hmakes => hallowed.makes hmakes) fun r c hmakes => hown.makes hmakes

/-- A descriptor that is closed twice. -/
theorem closed_twice :
    ∃ r, run [.sysOpen 1 16, .sysClose 1 5, .sysClose 1 5] = .ok r ∧
      ∃ o ∈ r.files, o.closes = 2 :=
  ⟨_, rfl, ⟨5, 16, 1, false, 2⟩, List.mem_singleton_self _, rfl⟩

end FileRun

end MicroOS
