import MicroOS.Lib.Records
import MicroOS.Lib.Slots
import MicroOS.Memory.VmmArray

/-!
The resources of a task, of `scheduler/resource.c`, with their table in memory.

* `TaskResources`: the table of a task, with the kernel and the memory that it is in;
* `ResourceRun`: the calls of a task from an empty table on, with the resources that are registered,
  the greatest number of them at a time and the calls for the pages of the table, which
  `Registered.trace` ties to the kernel;
* `ResourceRun.Inv` is the invariant: the slots in use hold the registered resources;
* `resources_released_iff`: `resource_dealloc` calls back for each of them once, and gives back the
  pages of the table unless that number was a positive multiple of 512;
* `table_page_lost`: with 512 resources a page of the table is lost.
-/

namespace MicroOS

open ByteMem Checked Run Ledger Records

/-- `resource_t` in memory, with the address of its function. -/
structure ResourceEntry where
  dealloc : ℕ
  resource : ℕ
  deriving DecidableEq

namespace ResourceEntry

/-- `sizeof(resource_t)`. -/
def size : ℕ := 8

/-- A `resource_t` in memory. -/
def read (bytes : Mem) (a : ℕ) : ResourceEntry := ⟨readWord bytes a, readWord bytes (a + 4)⟩

/-- A `resource_t` is stored. -/
def write (bytes : Mem) (a : ℕ) (r : ResourceEntry) : Mem :=
  writeWord (writeWord bytes a r.dealloc) (a + 4) r.resource

/-- The slot is in use. -/
def taken (r : ResourceEntry) : Bool := r.resource ≠ 0

/-- The resource is unregistered. -/
def cleared (resource : ℕ) (r : ResourceEntry) : ResourceEntry :=
  if r.resource = resource then { r with resource := 0 } else r

end ResourceEntry

/-- The fields of a `task_t` for its resources, with the kernel and the memory. -/
structure TaskResources where
  kernel : Kernel
  bytes : Mem
  resources : ℕ
  numResources : ℕ

namespace TaskResources

/-- The address of `resources[i]`. -/
def slot (t : TaskResources) (i : ℕ) : ℕ := wrap32 (t.resources + ResourceEntry.size * i)

/-- `resources[i]`. -/
def entry (t : TaskResources) (i : ℕ) : ResourceEntry := ResourceEntry.read t.bytes (t.slot i)

/-- The table. -/
def table (t : TaskResources) : List ResourceEntry := (List.range t.numResources).map t.entry

/-- `resource_register_self`. -/
def register (t : TaskResources) (r : ResourceEntry) : Except Halt TaskResources :=
  let i := t.table.findIdx (!·.taken)
  if i < t.table.length then .ok { t with bytes := ResourceEntry.write t.bytes (t.slot i) r }
  else do
    let (kernel, bytes, resources) ← resizeArray t.kernel t.bytes ResourceEntry.size t.numResources
      (t.numResources + 1) t.resources
    let t := { t with kernel, bytes, resources }
    return { t with
      bytes := ResourceEntry.write t.bytes (t.slot t.numResources) r
      numResources := t.numResources + 1 }

/-- A turn of the loop of `resource_unregister_self`. -/
def clear (t : TaskResources) (resource i : ℕ) : TaskResources :=
  if (t.entry i).resource = resource then
    { t with bytes := writeWord t.bytes (t.slot i + 4) 0 }
  else t

/-- `resource_unregister_self`. -/
def unregister (t : TaskResources) (resource : ℕ) : TaskResources :=
  (List.range t.numResources).foldl (fun t i => t.clear resource i) t

/-- What the functions that are called back do, by their address and their argument. -/
abbrev Callback := ℕ → ℕ → Kernel × Mem → Except Halt (Kernel × Mem)

/-- A turn of the loop of `resource_dealloc`, which notes the resource that it calls back for. -/
def callBack (callback : Callback) : TaskResources × List ResourceEntry → ℕ →
    Except Halt (TaskResources × List ResourceEntry)
  | (t, called), i =>
    if (t.entry i).taken then do
      let (kernel, bytes) ← callback (t.entry i).dealloc (t.entry i).resource (t.kernel, t.bytes)
      return ({ t with kernel, bytes }, called ++ [t.entry i])
    else return (t, called)

/-- `resource_dealloc`, with the resources that it calls back for. -/
def dealloc (callback : Callback) (t : TaskResources) :
    Except Halt (TaskResources × List ResourceEntry) := do
  let (t, called) ← (List.range t.numResources).foldlM (callBack callback) (t, [])
  if t.resources ≠ 0 then do
    let kernel ← vmmFree t.kernel t.resources (toPages (ResourceEntry.size * t.numResources))
    return ({ t with kernel, resources := 0 }, called)
  else return (t, called)

/-- The call of `resource_dealloc` for the pages of the table. -/
def deallocCalls (t : TaskResources) : List PageCall :=
  if t.resources ≠ 0 then [.free t.resources (toPages (ResourceEntry.size * t.numResources))]
  else []

/-- The calls of `resource_register_self` for the pages of the table, after which it is `t'`. -/
def registerCalls (t t' : TaskResources) : List PageCall :=
  if t.table.findIdx (!·.taken) < t.table.length then []
  else resizeCalls ResourceEntry.size t.numResources (t.numResources + 1) t.resources t'.resources

end TaskResources

/-! ### Runs -/

/-- The resources of a task: those that are registered, the last one first, the greatest number of
them at a time, and the calls for the pages of the table. -/
structure ResourceRun where
  task : TaskResources
  pending : List ResourceEntry
  peak : ℕ
  calls : List PageCall

/-- The calls of a task, or what the rest of the kernel does. -/
inductive ResourceEvent where
  | register (r : ResourceEntry)
  | unregister (resource : ℕ)
  | other (kernel : Kernel) (bytes : Mem)

namespace ResourceRun

open TaskResources

/-- The frame is one of the table. -/
def Frame (r : ResourceRun) (f : ℕ) : Prop :=
  BufferFrame r.task.resources (ResourceEntry.size * r.task.numResources) f

/-- An event can happen: a resource is not null, and the rest of the kernel keeps its invariant and
leaves the table alone. -/
def Allowed (lo : ℕ) (r : ResourceRun) : ResourceEvent → Prop
  | .register e => e.resource ≠ 0 ∧ e.resource < 2 ^ 32 ∧ e.dealloc < 2 ^ 32
  | .unregister _ => True
  | .other kernel bytes => KernelInv lo kernel ∧ kernel.pmm.Used 0
      ∧ (∀ f, r.Frame f → kernel.pmm.Used f)
      ∧ ∀ x, r.Frame (x / 0x1000) → bytes x = r.task.bytes x

/-- What an event does. -/
def step (r : ResourceRun) : ResourceEvent → Except Halt ResourceRun
  | .register e => do
      let task ← r.task.register e
      return ⟨task, e :: r.pending, max r.peak (r.pending.length + 1),
        r.calls ++ r.task.registerCalls task⟩
  | .unregister resource => .ok { r with
      task := r.task.unregister resource
      pending := r.pending.filter (·.resource ≠ resource) }
  | .other kernel bytes => .ok { r with task := { r.task with kernel, bytes } }

/-- A table that grows finds its pages, and stays below `2 ^ 31` bytes. -/
def Finds (r : ResourceRun) : ResourceEvent → Prop
  | .register _ => (∀ e ∈ r.task.table, e.taken) →
      ResourceEntry.size * (r.task.numResources + 1) < 2 ^ 31
        ∧ HasRoom r.task.kernel (ResourceEntry.size * r.task.numResources)
          (ResourceEntry.size * (r.task.numResources + 1)) r.task.resources
  | .unregister _ | .other .. => True

/-- A step of a run by an event that meets a condition. -/
def StepOf (lo : ℕ) (C : ResourceRun → ResourceEvent → Prop) (r r' : ResourceRun) : Prop :=
  ∃ e, C r e ∧ r.Allowed lo e ∧ r.step e = .ok r'

/-- A task that has registered nothing. -/
structure Empty (lo : ℕ) (r : ResourceRun) : Prop where
  inv : KernelInv lo r.task.kernel
  zero : r.task.kernel.pmm.Used 0
  resources : r.task.resources = 0
  numResources : r.task.numResources = 0
  pending : r.pending = []
  peak : r.peak = 0
  calls : r.calls = []

/-- The functions that are called back leave the table alone. -/
def Leaves (r : ResourceRun) (callback : Callback) : Prop :=
  ∀ e ∈ r.pending, ∀ k bytes k' bytes', callback e.dealloc e.resource (k, bytes) =
    .ok (k', bytes') →
    ∀ x, r.Frame (x / 0x1000) → bytes' x = bytes x

/-- **The table is released**: the callback has run for each registered resource, as often as it is
registered, and as many pages were given back as were handed out. -/
structure Released (r : ResourceRun) (called : List ResourceEntry) : Prop where
  called : called.Perm r.pending
  pages : (given ((r.calls ++ r.task.deallocCalls).map PageCall.entry)).card
    = (taken ((r.calls ++ r.task.deallocCalls).map PageCall.entry)).card

end ResourceRun

/-! ### The table in memory -/

namespace ResourceEntry

variable {bytes bytes' : Mem} {a x : ℕ} {e : ResourceEntry}

/-- An entry depends on its own bytes alone. -/
lemma local_read : Local read size := fun m m' a b h => by
  have hword : readWord m' (a + 4) = readWord m (b + 4) := readWord_eq fun i hi => by
    rw [Nat.add_assoc, Nat.add_assoc]
    exact h (4 + i) (by rw [size]; omega)
  rw [read, read, hword, readWord_eq fun i hi => h i (by rw [size]; omega)]

/-- **An entry is read back.** -/
lemma read_write (bytes : Mem) (a : ℕ) (hr : e.resource < 2 ^ 32) (hd : e.dealloc < 2 ^ 32) :
    read (write bytes a e) a = e := by
  rw [read, write, readWord_writeWord_of_disjoint _ _ (by omega), readWord_writeWord,
    readWord_writeWord, wrap32_of_lt hr, wrap32_of_lt hd]

/-- Writing an entry leaves the bytes around it alone. -/
lemma write_of_disjoint (h : x < a ∨ a + size ≤ x) : write bytes a e x = bytes x := by
  rw [size] at h
  rw [write, writeWord_of_disjoint _ _ (by omega), writeWord_of_disjoint _ _ (by omega)]

/-- Null is stored in the field `resource`. -/
lemma read_clear (bytes : Mem) (a : ℕ) :
    read (writeWord bytes (a + 4) 0) a = { read bytes a with resource := 0 } := by
  rw [read, read, readWord_writeWord_of_disjoint _ _ (by omega), readWord_writeWord, wrap32_zero]

@[simp] lemma taken_eq_true : e.taken = true ↔ e.resource ≠ 0 := by simp [taken]

@[simp] lemma taken_eq_false : e.taken = false ↔ e.resource = 0 := by simp [taken]

/-- What is registered is what is registered without the resource. -/
lemma filter_cleared (l : List ResourceEntry) (resource : ℕ) :
    (l.map (cleared resource)).filter taken
      = (l.filter taken).filter (·.resource ≠ resource) := by
  induction l with
  | nil => rfl
  | cons e l ih =>
    rw [List.map_cons]
    by_cases heq : e.resource = resource
    · have hcleared : (cleared resource e).taken = false := by simp [cleared, heq]
      rw [List.filter_cons_of_neg (by simp [hcleared]), ih, List.filter_cons]
      split_ifs
      · rw [List.filter_cons_of_neg (by simp [heq])]
      · rfl
    · rw [cleared, if_neg heq, List.filter_cons, List.filter_cons, ih]
      split_ifs
      · rw [List.filter_cons_of_pos (by simp [heq])]
      · rfl

end ResourceEntry

/-- No more than the pages of a buffer are given back, so that `vmm_free` returns. -/
lemma Buffer.toPages_returns {lo ptr s : ℕ} {k : Kernel} (h : Buffer lo k ptr s)
    (k₁ : Kernel) : ∃ k', vmmFree k₁ ptr (toPages s) = .ok k' := by
  have hpages : toPages s ≤ pagesOf s := by
    rw [toPages, pagesOf]
    omega
  have hroom : ptr / 0x1000 + toPages s ≤ frameCount :=
    (Nat.add_le_add_left hpages _).trans h.room.le
  have hlt : toPages s < 2 ^ 31 :=
    ((Nat.le_add_left _ _).trans hroom).trans_lt (by norm_num [frameCount])
  obtain ⟨k', hfree⟩ := vmmFree_returns k₁ (f := ptr / 0x1000) (n := toPages s)
    (by rwa [toInt_toNat hlt])
  rw [Nat.div_mul_cancel (Nat.dvd_of_mod_eq_zero h.aligned)] at hfree
  exact ⟨k', hfree⟩

namespace TaskResources

open ResourceEntry

variable {lo i resource : ℕ} {t t' : TaskResources} {e : ResourceEntry}

/-- The buffer of the table is whole. -/
def Held (lo : ℕ) (t : TaskResources) : Prop :=
  Buffer lo t.kernel t.resources (size * t.numResources)

lemma table_eq (t : TaskResources) :
    t.table = records read size t.bytes t.resources t.numResources := rfl

@[simp] lemma length_table (t : TaskResources) : t.table.length = t.numResources :=
  length_records ..

lemma Held.le (h : t.Held lo) : t.resources + size * t.numResources ≤ 2 ^ 32 :=
  (Buffer.end_lt h).le

lemma Held.slot_eq (h : t.Held lo) (hi : i < t.numResources) :
    t.slot i = t.resources + size * i := wrap32_slot (by norm_num [size]) h.le hi

lemma getElem_table (hi : i < t.table.length) : t.table[i] = t.entry i := by
  simp [table]

/-- One slot is written. -/
lemma Held.table_set (h : t.Held lo) (hi : i < t.numResources) (bytes : Mem)
    (hbytes : ∀ x, x < t.slot i ∨ t.slot i + size ≤ x → bytes x = t.bytes x) :
    ({ t with bytes } : TaskResources).table = t.table.set i (read bytes (t.slot i)) := by
  rw [h.slot_eq hi] at hbytes ⊢
  exact records_set local_read (by norm_num [size]) h.le hi hbytes

/-- What a change of the slots leaves alone. -/
structure SameTable (t t' : TaskResources) : Prop where
  kernel : t'.kernel = t.kernel
  resources : t'.resources = t.resources
  numResources : t'.numResources = t.numResources

lemma SameTable.held (h : SameTable t t') (ht : t.Held lo) : t'.Held lo := by
  rw [Held, h.kernel, h.resources, h.numResources]
  exact ht

/-- A turn of the loop of `resource_unregister_self`. -/
lemma Held.clear (resource : ℕ) (h : t.Held lo) (hi : i < t.numResources) :
    SameTable t (t.clear resource i)
      ∧ (t.clear resource i).table = t.table.set i (cleared resource (t.entry i)) := by
  rw [TaskResources.clear, cleared]
  split_ifs with heq
  · refine ⟨⟨rfl, rfl, rfl⟩, ?_⟩
    have hset := h.table_set hi (writeWord t.bytes (t.slot i + 4) 0) fun x hx =>
      writeWord_of_disjoint _ _ (by rw [size] at hx; omega)
    rwa [read_clear] at hset
  · refine ⟨⟨rfl, rfl, rfl⟩, ?_⟩
    rw [← getElem_table (by rwa [length_table]), List.set_getElem_self]

/-- **`resource_unregister_self`** clears every slot of the resource. -/
lemma Held.unregister (h : t.Held lo) (resource : ℕ) :
    SameTable t (t.unregister resource)
      ∧ (t.unregister resource).table = t.table.map (cleared resource) := by
  -- after `k` turns the first `k` slots are done
  have hloop : ∀ k ≤ t.numResources,
      SameTable t ((List.range k).foldl (fun t i => t.clear resource i) t)
        ∧ ((List.range k).foldl (fun t i => t.clear resource i) t).table
          = (t.table.take k).map (cleared resource) ++ t.table.drop k := by
    intro k hk
    induction k with
    | zero => exact ⟨⟨rfl, rfl, rfl⟩, rfl⟩
    | succ k ih =>
      obtain ⟨hsame, htable⟩ := ih (by omega)
      rw [List.range_succ, List.foldl_concat]
      generalize (List.range k).foldl (fun t i => t.clear resource i) t = t₁ at hsame htable ⊢
      have hk₁ : k < t₁.numResources := by
        rw [hsame.numResources]
        omega
      have hk₂ : k < t.table.length := by
        rw [length_table]
        omega
      obtain ⟨hsame', htable'⟩ := (hsame.held h).clear resource hk₁
      refine ⟨⟨hsame'.kernel.trans hsame.kernel, hsame'.resources.trans hsame.resources,
        hsame'.numResources.trans hsame.numResources⟩, ?_⟩
      have hlen : ((t.table.take k).map (cleared resource)).length = k := by
        rw [List.length_map, List.length_take, min_eq_left hk₂.le]
      have hentry : t₁.entry k = t.table[k] := by
        rw [← getElem_table (by rwa [length_table])]
        simp only [htable]
        rw [List.getElem_append_right hlen.le]
        simp only [List.getElem_drop, hlen, Nat.sub_self, Nat.add_zero]
      rw [htable', hentry, htable, List.set_append_right _ _ hlen.le, hlen, Nat.sub_self,
        List.drop_eq_getElem_cons hk₂, List.set_cons_zero, List.take_succ_eq_append_getElem hk₂,
        List.map_append, List.map_singleton, List.append_assoc, List.singleton_append]
  obtain ⟨hsame, htable⟩ := hloop t.numResources le_rfl
  refine ⟨hsame, htable.trans ?_⟩
  rw [← length_table, List.take_length, List.drop_length, List.append_nil]

/-- The table has moved and has one more slot. -/
lemma Held.grown {k : Kernel} {bytes : Mem} {resources : ℕ} (h : t.Held lo)
    (hr : e.resource < 2 ^ 32) (hd : e.dealloc < 2 ^ 32)
    (hres : Resized lo t.kernel t.bytes (size * t.numResources) t.resources k bytes
      (size * (t.numResources + 1)) resources)
    (ht : t' = ⟨k, write bytes (wrap32 (resources + size * t.numResources)) e, resources,
      t.numResources + 1⟩) :
    t'.Held lo ∧ t'.table = t.table ++ [e] := by
  subst ht
  have hend := hres.buffer.end_lt
  refine ⟨hres.buffer, ?_⟩
  rw [wrap32_slot (by norm_num [size]) hend.le (Nat.lt_succ_self _), table_eq, table_eq,
    records_succ (by norm_num [size]) hend.le, read_write _ _ hr hd]
  rw [Nat.mul_succ] at hend
  refine congrArg (· ++ [e]) (records_eq local_read (by norm_num [size]) h.le (by omega) ?_)
  intro x hx
  refine (write_of_disjoint (by omega)).trans (hres.data x hx ?_)
  exact hx.trans_le (Nat.mul_le_mul_left _ (Nat.le_succ _))

/-- **What `resource_register_self` does**: it takes a slot that is free, or the table grows. -/
inductive Registered (lo : ℕ) (t : TaskResources) (e : ResourceEntry) : TaskResources → Prop where
  | slot {t' : TaskResources} (i : ℕ) (lt : i < t.table.length) (free : t.table[i].taken = false)
      (same : SameTable t t') (table : t'.table = t.table.set i e)
      (calls : t.registerCalls t' = []) : Registered lo t e t'
  | grown {t' : TaskResources} (bytes : Mem) (full : ∀ x ∈ t.table, x.taken = true)
      (inv : KernelInv lo t'.kernel) (zero : t'.kernel.pmm.Used 0) (held : t'.Held lo)
      (num : t'.numResources = t.numResources + 1) (table : t'.table = t.table ++ [e])
      (resized : ResizeCase t.kernel t.bytes size t.numResources (t.numResources + 1) t.resources
        t'.kernel bytes t'.resources)
      (calls : t.registerCalls t' = resizeCalls size t.numResources (t.numResources + 1) t.resources
        t'.resources) : Registered lo t e t'

/-- **`resource_register_self`.** -/
lemma Held.register (h : t.Held lo) (hi : KernelInv lo t.kernel) (hzero : t.kernel.pmm.Used 0)
    (hr : e.resource < 2 ^ 32) (hd : e.dealloc < 2 ^ 32)
    (hroom : (∀ x ∈ t.table, x.taken) → size * (t.numResources + 1) < 2 ^ 31
      ∧ HasRoom t.kernel (size * t.numResources) (size * (t.numResources + 1)) t.resources)
    (hreg : t.register e = .ok t') : Registered lo t e t' := by
  rw [TaskResources.register] at hreg
  dsimp only at hreg
  split_ifs at hreg with hfree
  · obtain rfl := Except.ok.inj hreg
    have hlt := hfree
    rw [length_table] at hlt
    have hset := h.table_set hlt (write t.bytes (t.slot _) e) fun x hx => write_of_disjoint hx
    rw [read_write _ _ hr hd] at hset
    refine .slot _ hfree ?_ ⟨rfl, rfl, rfl⟩ hset ?_
    · have hp := List.findIdx_getElem (w := hfree)
      simpa using hp
    · rw [registerCalls, if_pos hfree]
  · have hfull : ∀ x ∈ t.table, x.taken = true := fun x hx => by
      by_contra hx'
      exact hfree (List.findIdx_lt_length_of_exists ⟨x, hx, by simpa using hx'⟩)
    obtain ⟨hsmall, hroom⟩ := hroom hfull
    obtain ⟨⟨k, bytes, resources⟩, hresize, hret⟩ := bind_eq_ok.mp hreg
    have hcase := resizeArray_cases hresize
    rw [resizeArray_eq (by norm_num [size])] at hresize
    have hres := resizeBytes_resized hi hzero h hsmall hroom hresize
    have ht := (Except.ok.inj hret).symm
    obtain ⟨hheld, htable⟩ := h.grown hr hd hres ht
    subst ht
    refine .grown bytes hfull hres.inv ?_ hheld rfl htable hcase ?_
    · exact ArrayRun.Inv.zero_resized h hzero hres
    · rw [registerCalls, if_neg hfree]

/-- **The calls that are noted** for `resource_register_self` are those that the kernel went
through. -/
theorem Registered.trace (h : Registered lo t e t') :
    Trace PageCall.Does t.kernel (t.registerCalls t') t'.kernel := by
  cases h with
  | slot i lt free same table calls =>
    rw [calls, same.kernel]
    exact Trace.nil
  | grown bytes full inv zero held num table resized calls =>
    rw [calls]
    exact resized.calls

/-! ### `resource_dealloc` -/

variable {callback : Callback} {called : List ResourceEntry}

/-- The loop of `resource_dealloc`, as far as it has got. -/
structure CalledBack (t : TaskResources) (i : ℕ) (t' : TaskResources)
    (called : List ResourceEntry) : Prop where
  resources : t'.resources = t.resources
  numResources : t'.numResources = t.numResources
  table : t'.table = t.table
  called : called = (t.table.take i).filter taken

/-- **The frame rule** of the table. -/
lemma Held.records_congr (h : t.Held lo) {m m' : Mem}
    (hbytes : ∀ x, BufferFrame t.resources (size * t.numResources) (x / 0x1000) → m' x = m x) :
    records read size m' t.resources t.numResources
      = records read size m t.resources t.numResources := by
  refine records_eq local_read (by norm_num [size]) h.le h.le fun x hx => hbytes _ ?_
  have hptr : t.resources ≠ 0 := fun h0 => by
    have hsize := Buffer.null h h0
    omega
  exact bufferFrame_byte hptr (Buffer.aligned h) hx

/-- The functions that the table calls back leave it alone. -/
def Leaves (t : TaskResources) (callback : Callback) : Prop :=
  ∀ e ∈ t.table, e.taken → ∀ k bytes k' bytes', callback e.dealloc e.resource (k, bytes)
    = .ok (k', bytes') → ∀ x, BufferFrame t.resources (size * t.numResources) (x / 0x1000) →
      bytes' x = bytes x

lemma CalledBack.start (t : TaskResources) : CalledBack t 0 t [] := ⟨rfl, rfl, rfl, rfl⟩

/-- The entries that were not called back yet are those of the table. -/
lemma CalledBack.entry (h : CalledBack t i t' called) (hi : i < t.table.length) :
    t'.entry i = t.table[i] := by
  rw [← getElem_table (by rw [h.table]; exact hi)]
  simp only [h.table]

/-- **A turn of the loop.** -/
lemma CalledBack.step {s s' : TaskResources × List ResourceEntry} (h : CalledBack t i s.1 s.2)
    (ht : t.Held lo) (hi : i < t.numResources) (hleaves : t.Leaves callback)
    (hstep : callBack callback s i = .ok s') : CalledBack t (i + 1) s'.1 s'.2 := by
  obtain ⟨t', called⟩ := s
  dsimp only at h
  have hlt : i < t.table.length := by rwa [length_table]
  have hmem := List.getElem_mem hlt
  rw [callBack, h.entry hlt] at hstep
  have htake : (t.table.take (i + 1)).filter taken
      = called ++ if t.table[i].taken then [t.table[i]] else [] := by
    rw [List.take_succ_eq_append_getElem hlt, List.filter_append, h.called, List.filter_singleton]
    cases t.table[i].taken <;> rfl
  split_ifs at hstep with htaken
  · obtain ⟨⟨kernel, bytes⟩, hcall, hret⟩ := bind_eq_ok.mp hstep
    obtain rfl := Except.ok.inj hret
    rw [if_pos htaken] at htake
    refine ⟨h.resources, h.numResources, ?_, htake.symm⟩
    have hbytes := ht.records_congr (hleaves _ hmem htaken _ _ _ _ hcall)
    have hold := h.table
    rw [table_eq, h.resources, h.numResources] at hold ⊢
    exact hbytes.trans hold
  · obtain rfl := Except.ok.inj hstep
    rw [if_neg htaken, List.append_nil] at htake
    exact ⟨h.resources, h.numResources, h.table, htake.symm⟩

/-- **`resource_dealloc`** calls back for the slots in use. -/
lemma Held.dealloc (h : t.Held lo) (hleaves : t.Leaves callback)
    (hdealloc : t.dealloc callback = .ok (t', called)) :
    called = t.table.filter taken ∧ ∃ k, Trace PageCall.Does k t.deallocCalls t'.kernel := by
  rw [TaskResources.dealloc, bind_eq_ok] at hdealloc
  obtain ⟨⟨t₁, called₁⟩, hloop, hrest⟩ := hdealloc
  have hback := foldlM_range_rule (fun i s => CalledBack t i s.1 s.2)
    (fun i s s' hi hs hstep => hs.step h hi hleaves hstep) (CalledBack.start t) hloop
  dsimp only at hrest hback
  have hcalled : called₁ = t.table.filter taken := by
    rw [hback.called, ← length_table, List.take_length]
  rw [deallocCalls]
  rw [hback.resources, hback.numResources] at hrest
  split_ifs at hrest ⊢ with hptr
  · obtain ⟨k, hfree, hret⟩ := bind_eq_ok.mp hrest
    obtain ⟨rfl, rfl⟩ := Prod.mk.inj (Except.ok.inj hret)
    exact ⟨hcalled, t₁.kernel, Trace.nil.snoc hfree⟩
  · obtain ⟨rfl, rfl⟩ := Prod.mk.inj (Except.ok.inj hrest)
    exact ⟨hcalled, t₁.kernel, Trace.nil⟩

/-- It returns when the functions do. -/
lemma Held.dealloc_returns (h : t.Held lo) (hleaves : t.Leaves callback)
    (hreturns : ∀ e ∈ t.table, e.taken → ∀ s, ∃ s', callback e.dealloc e.resource s = .ok s') :
    ∃ s, t.dealloc callback = .ok s := by
  obtain ⟨⟨t₁, called₁⟩, hloop, hback⟩ := foldlM_range_ok (s := (t, []))
    (f := callBack callback) (n := t.numResources)
    (fun i s => CalledBack t i s.1 s.2) (fun i s hi hs => by
      have hlt : i < t.table.length := by rwa [length_table]
      suffices hok : ∃ s', callBack callback s i = .ok s' by
        obtain ⟨s', hs'⟩ := hok
        exact ⟨s', hs', hs.step h hi hleaves hs'⟩
      rw [callBack, hs.entry hlt]
      split_ifs with htaken
      · obtain ⟨s', hs'⟩ := hreturns _ (List.getElem_mem hlt) htaken (s.1.kernel, s.1.bytes)
        exact ⟨_, bind_eq_ok.mpr ⟨s', hs', rfl⟩⟩
      · exact ⟨_, rfl⟩) (CalledBack.start t)
  obtain ⟨k, hfree⟩ := Buffer.toPages_returns h t₁.kernel
  rw [TaskResources.dealloc, hloop, ok_bind]
  dsimp only at hback ⊢
  rw [hback.resources, hback.numResources]
  split_ifs with hptr
  · exact ⟨_, bind_eq_ok.mpr ⟨k, hfree, rfl⟩⟩
  · exact ⟨_, rfl⟩

end TaskResources

/-! ### Runs keep the table -/

namespace ResourceRun

open TaskResources ResourceEntry

variable {lo : ℕ} {r r' : ResourceRun} {callback : Callback} {called : List ResourceEntry}

/-- **The invariant**: the slots in use hold the resources that are registered, and there are as
many slots as there ever were resources at a time. -/
structure Inv (lo : ℕ) (r : ResourceRun) : Prop where
  inv : KernelInv lo r.task.kernel
  zero : r.task.kernel.pmm.Used 0
  held : r.task.Held lo
  null : r.task.numResources = 0 → r.task.resources = 0
  pending : (r.task.table.filter taken).Perm r.pending
  peak : r.task.numResources = r.peak
  ledger : Open (r.calls.map PageCall.entry)
    (arrayPages size r.task.numResources r.task.resources)

namespace Inv

/-- The invariant holds of the empty table. -/
lemma of_empty (h : Empty lo r) : Inv lo r := by
  have htable : r.task.table = [] :=
    List.length_eq_zero_iff.mp (by rw [length_table, h.numResources])
  refine ⟨h.inv, h.zero, ?_, fun _ => h.resources, ?_, ?_, ?_⟩
  · rw [Held, h.resources, h.numResources]
    exact buffer_null lo r.task.kernel
  · rw [htable, h.pending]
    exact List.Perm.refl []
  · rw [h.numResources, h.peak]
  · rw [h.calls, arrayPages, if_pos h.resources]
    exact Open.nil

/-- A resource is registered. -/
lemma register {e : ResourceEntry} (h : Inv lo r) (hallowed : r.Allowed lo (.register e))
    (hfinds : r.Finds (.register e)) (hstep : r.step (.register e) = .ok r') : Inv lo r' := by
  obtain ⟨t, hreg, hret⟩ := bind_eq_ok.mp hstep
  obtain rfl := Except.ok.inj hret
  obtain ⟨hne, hr, hd⟩ := hallowed
  have he : e.taken = true := taken_eq_true.mpr hne
  have hlen := h.pending.length_eq
  cases h.held.register h.inv h.zero hr hd hfinds hreg with
  | slot i lt free same table calls =>
    have hfree : (r.task.table.filter taken).length < r.task.table.length :=
      List.length_filter_lt_length_iff_exists.mpr ⟨_, List.getElem_mem lt, by rw [free]; simp⟩
    rw [length_table] at hfree
    refine ⟨by rw [same.kernel]; exact h.inv, by rw [same.kernel]; exact h.zero,
      same.held h.held, ?_, ?_, ?_, ?_⟩
    · dsimp only
      rw [same.numResources, same.resources]
      exact h.null
    · dsimp only
      rw [table]
      exact (Slots.filter_set_perm lt free he).trans (h.pending.cons e)
    · have hpeak := h.peak
      dsimp only
      rw [same.numResources, max_eq_left (by omega), hpeak]
    · dsimp only
      rw [calls, List.append_nil, same.numResources, same.resources]
      exact h.ledger
  | grown bytes full inv zero held num table resized calls =>
    have hfull : r.task.table.filter taken = r.task.table := List.filter_eq_self.mpr full
    have hptr : t.resources ≠ 0 := fun h0 => by
      have hsize := Buffer.null held h0
      rw [num, size] at hsize
      omega
    refine ⟨inv, zero, held, fun h0 => absurd (num.symm.trans h0) (Nat.succ_ne_zero _), ?_, ?_,
      ?_⟩
    · dsimp only
      rw [table, List.filter_append, List.filter_singleton, he]
      exact List.perm_append_singleton e _ |>.trans (h.pending.cons e)
    · have hpeak := h.peak
      rw [hfull, length_table] at hlen
      dsimp only
      rw [num, ← hlen, ← hpeak, max_eq_right (Nat.le_succ _)]
    · dsimp only
      rw [calls, num, List.map_append]
      exact resized.ledger h.ledger fun h0 => absurd h0 hptr

/-- A resource is unregistered. -/
lemma unregister (h : Inv lo r) (resource : ℕ) :
    Inv lo { r with
      task := r.task.unregister resource
      pending := r.pending.filter (·.resource ≠ resource) } := by
  obtain ⟨same, table⟩ := h.held.unregister resource
  refine ⟨by rw [same.kernel]; exact h.inv, by rw [same.kernel]; exact h.zero,
    same.held h.held, ?_, ?_, ?_, ?_⟩
  · dsimp only
    rw [same.numResources, same.resources]
    exact h.null
  · dsimp only
    rw [table, filter_cleared]
    exact h.pending.filter _
  · exact same.numResources.trans h.peak
  · dsimp only
    rw [same.numResources, same.resources]
    exact h.ledger

/-- **The step lemma.** -/
lemma step {e : ResourceEvent} (h : Inv lo r) (hallowed : r.Allowed lo e) (hfinds : r.Finds e)
    (hstep : r.step e = .ok r') : Inv lo r' := by
  cases e with
  | register e => exact h.register hallowed hfinds hstep
  | unregister resource =>
    obtain rfl := Except.ok.inj hstep
    exact h.unregister resource
  | other kernel bytes =>
    obtain rfl := Except.ok.inj hstep
    obtain ⟨hinv, hzero, hused, hbytes⟩ := hallowed
    refine ⟨hinv, hzero, Buffer.of_used h.held hused, h.null, ?_, h.peak, h.ledger⟩
    have htable := h.held.records_congr hbytes
    exact (congrArg (List.filter taken) htable).symm ▸ h.pending

/-- **The run lemma.** -/
lemma of_reachable (h : Reachable (Empty lo) (StepOf lo Finds) r) : Inv lo r :=
  h.invariant (Inv lo) (fun _ => of_empty)
    fun _ _ hr ⟨_, hfinds, hallowed, hstep⟩ => hr.step hallowed hfinds hstep

lemma leaves (h : Inv lo r) (hleaves : r.Leaves callback) : r.task.Leaves callback :=
  fun e he htaken => hleaves e (h.pending.mem_iff.mp (List.mem_filter.mpr ⟨he, htaken⟩))

/-- **The pages of the table** are given back, but for one where the bytes of the table end at the
end of a page. -/
lemma pages_iff (h : Inv lo r) :
    (given ((r.calls ++ r.task.deallocCalls).map PageCall.entry)).card
        = (taken ((r.calls ++ r.task.deallocCalls).map PageCall.entry)).card
      ↔ ¬ (0 < r.peak ∧ 512 ∣ r.peak) := by
  have hholds := h.ledger.holds
  rw [arrayPages] at hholds
  rw [← h.peak, List.map_append, deallocCalls]
  by_cases hptr : r.task.resources = 0
  · have hnum : r.task.numResources = 0 := by
      have hsize := Buffer.null h.held hptr
      rw [size] at hsize
      omega
    rw [if_pos hptr, add_zero] at hholds
    rw [if_neg (not_not.mpr hptr), List.map_nil, List.append_nil, hholds]
    exact iff_of_true rfl fun hpos => hpos.1.ne' hnum
  · have hnum : 0 < r.task.numResources := Nat.pos_of_ne_zero fun h0 => hptr (h.null h0)
    rw [if_neg hptr] at hholds
    rw [if_pos hptr, List.map_singleton, taken_concat, given_concat, hholds]
    simp only [PageCall.entry, Entry.given, Entry.taken, add_zero, Multiset.card_add,
      Nat.add_left_cancel_iff, card_pageFrames]
    rw [toPages, pagesOf, size]
    omega

end Inv

end ResourceRun

open ResourceRun in
/-- **`resource_dealloc` releases the table**, in runs in which a table that grows finds its pages
and the functions that are called back leave it alone: it returns when they do, and calls back for
each registered resource as often as it is registered. As many pages are given back as were handed
out just when the greatest number of resources at a time was not a positive multiple of 512. -/
theorem resources_released_iff {lo : ℕ} {r : ResourceRun} {callback : TaskResources.Callback}
    (h : Reachable (Empty lo) (StepOf lo ResourceRun.Finds) r)
    (hleaves : r.Leaves callback) :
    ((∀ e ∈ r.pending, ∀ s, ∃ s', callback e.dealloc e.resource s = .ok s') →
        ∃ s, r.task.dealloc callback = .ok s)
      ∧ ∀ t called, r.task.dealloc callback = .ok (t, called) → called.Perm r.pending
        ∧ (Released r called ↔ ¬ (0 < r.peak ∧ 512 ∣ r.peak)) := by
  have hinv := Inv.of_reachable h
  refine ⟨fun hreturns => ?_, fun t called hdealloc => ?_⟩
  · exact hinv.held.dealloc_returns (hinv.leaves hleaves) fun e he htaken =>
      hreturns e (hinv.pending.mem_iff.mp (List.mem_filter.mpr ⟨he, htaken⟩))
  · have hcalled : called.Perm r.pending :=
      (hinv.held.dealloc (hinv.leaves hleaves) hdealloc).1 ▸ hinv.pending
    exact ⟨hcalled, fun hreleased => hinv.pages_iff.mp hreleased.pages,
      fun hpeak => ⟨hcalled, hinv.pages_iff.mpr hpeak⟩⟩

/-! ### A machine -/

/-- A kernel that hands out a page, and then two. -/
lemma three_pages : ∃ k k' k'' f g, KernelInv bootLayout.poolFrame k ∧ k.pmm.Used 0
    ∧ (∃ a, k.pmm.FreeRun a 1) ∧ vmmAlloc k 1 = .ok (k', f * 0x1000) ∧ f ≠ 0
    ∧ (∃ a, k'.pmm.FreeRun a 2) ∧ vmmAlloc k' 2 = .ok (k'', g * 0x1000) := by
  obtain ⟨k, h⟩ := machine_handedOut
  obtain ⟨k', f, halloc, -, hnew, h'⟩ := h.next
  have hready : Ready bootLayout.poolFrame {0, 1} 0x440 29 (2 + 60) k' := h'.ready
  obtain ⟨k'', g, halloc', -⟩ := hready.vmmAlloc Nat.two_pos (by norm_num) machine_slots.kernel
    (by decide)
  refine ⟨k, k', k'', f, g, h.inv, h.used 0 h.null, h.room (by decide), halloc, ?_,
    h'.room (by decide), halloc'⟩
  rintro rfl
  exact hnew h.null

namespace ResourceRun

open TaskResources ResourceEntry

/-- A task of a kernel, before it registers anything. -/
def fresh (k : Kernel) : ResourceRun := ⟨⟨k, fun _ => 0, 0, 0⟩, [], 0, []⟩

/-- A resource. -/
def file : ResourceEntry := ⟨0x100000, 0x200000⟩

/-- The functions do nothing. -/
def idle : Callback := fun _ _ s => .ok s

/-- A run that starts and goes on in a memory that has the pages. -/
abbrev Run (r : ResourceRun) : Prop :=
  Reachable (Empty bootLayout.poolFrame) (StepOf bootLayout.poolFrame Finds) r

/-- A resource is registered where no slot is free. -/
lemma exists_next {ptr : ℕ} {r : ResourceRun} {k : Kernel} {bytes : Mem} (h : Run r)
    (hlen : r.pending.length = r.task.numResources) (hfinds : r.Finds (.register file))
    (hresize : resizeArray r.task.kernel r.task.bytes size r.task.numResources
      (r.task.numResources + 1) r.task.resources = .ok (k, bytes, ptr)) :
    ∃ r', Run r' ∧ r'.task.kernel = k ∧ r'.task.resources = ptr
      ∧ r'.task.numResources = r.task.numResources + 1
      ∧ r'.pending.length = r.pending.length + 1 := by
  have hinv := Inv.of_reachable h
  have hfull : r.task.table.filter taken = r.task.table := by
    refine List.filter_sublist.eq_of_length ?_
    rw [hinv.pending.length_eq, hlen, length_table]
  have hidx : ¬ r.task.table.findIdx (!·.taken) < r.task.table.length := fun hlt => by
    obtain ⟨e, he, hfree⟩ := List.findIdx_lt_length.mp hlt
    have htaken := List.filter_eq_self.mp hfull e he
    simp [htaken] at hfree
  have hreg : r.task.register file = .ok ⟨k, write bytes (wrap32 (ptr
      + size * r.task.numResources)) file, ptr, r.task.numResources + 1⟩ := by
    rw [TaskResources.register]
    dsimp only
    rw [if_neg hidx]
    exact bind_eq_ok.mpr ⟨_, hresize, rfl⟩
  have hallowed : r.Allowed bootLayout.poolFrame (.register file) := by simp [Allowed, file]
  exact ⟨_, h.next ⟨_, hfinds, hallowed, bind_eq_ok.mpr ⟨_, hreg, rfl⟩⟩, rfl, rfl, rfl, rfl⟩

/-- The first resources are registered, in one page. -/
lemma filled {k k' : Kernel} {f : ℕ} (hinv : KernelInv bootLayout.poolFrame k)
    (hzero : k.pmm.Used 0) (hpage : ∃ a, k.pmm.FreeRun a 1)
    (halloc : vmmAlloc k 1 = .ok (k', f * 0x1000)) (hne : f ≠ 0) {n : ℕ} (hn : n < 511) :
    ∃ r, Run r ∧ r.task.kernel = k' ∧ r.task.resources = f * 0x1000
      ∧ r.task.numResources = n + 1 ∧ r.pending.length = n + 1 := by
  induction n with
  | zero =>
    have hrun : Run (fresh k) := .start ⟨hinv, hzero, rfl, rfl, rfl, rfl, rfl⟩
    have hone : pagesOf (size * (0 + 1)) = 1 := by decide
    have hfinds : (fresh k).Finds (.register file) := fun _ =>
      ⟨by norm_num [size, fresh], fun _ _ => by rwa [fresh, hone]⟩
    have hresize : resizeArray k (fun _ => 0) size 0 (0 + 1) 0
        = .ok (k', fun _ => 0, f * 0x1000) := bind_eq_ok.mpr ⟨_, halloc, rfl⟩
    exact exists_next hrun rfl hfinds hresize
  | succ n ih =>
    obtain ⟨r, hrun, hk, hptr, hnum, hlen⟩ := ih (Nat.lt_of_succ_lt hn)
    have hne' : r.task.resources ≠ 0 := hptr ▸ Nat.mul_ne_zero hne (by norm_num)
    have hpages : pagesOf (size * (r.task.numResources + 1))
        = pagesOf (size * r.task.numResources) := by
      rw [hnum, pagesOf, pagesOf, size]
      omega
    have hfinds : r.Finds (.register file) := fun _ =>
      ⟨by rw [hnum, size]; omega, fun _ hc => absurd hpages (hc.resolve_left hne')⟩
    have hresize : resizeArray r.task.kernel r.task.bytes size r.task.numResources
        (r.task.numResources + 1) r.task.resources
        = .ok (r.task.kernel, r.task.bytes, r.task.resources) :=
      resizeArray_same hne' (Nat.succ_ne_zero _) hpages
    obtain ⟨r', hrun', hk', hptr', hnum', hlen'⟩ :=
      exists_next hrun (hlen.trans hnum.symm) hfinds hresize
    exact ⟨r', hrun', hk'.trans hk, hptr'.trans hptr, by rw [hnum', hnum], by rw [hlen', hlen]⟩

/-- A callback that does nothing leaves everything. -/
lemma leaves_idle (r : ResourceRun) : r.Leaves idle := by
  rintro e - k bytes k' bytes' hcall x -
  cases hcall
  rfl

end ResourceRun

open ResourceRun in
/-- A resource that was registered is released on a machine. -/
theorem resources_released_machine : ∃ r t called, Run r ∧ r.peak = 1 ∧ r.pending ≠ []
    ∧ r.task.dealloc idle = .ok (t, called) ∧ Released r called := by
  obtain ⟨k, k', k'', f, g, hinv, hzero, hpage, halloc, hne, -⟩ := three_pages
  obtain ⟨r, hrun, -, -, hnum, hlen⟩ := filled hinv hzero hpage halloc hne (n := 0) (by norm_num)
  have hpeak : r.peak = 1 := (Inv.of_reachable hrun).peak.symm.trans hnum
  obtain ⟨hreturns, hreleased⟩ := resources_released_iff hrun (leaves_idle r)
  obtain ⟨⟨t, called⟩, hdealloc⟩ := hreturns fun e _ s => ⟨s, rfl⟩
  refine ⟨r, t, called, hrun, hpeak, fun h => ?_, hdealloc,
    (hreleased t called hdealloc).2.mpr (by rw [hpeak]; norm_num)⟩
  rw [h] at hlen
  cases hlen

open ResourceRun in
/-- With 512 resources a page of the table is lost. -/
theorem table_page_lost : ∃ r t called, Run r ∧ r.pending.length = 512
    ∧ r.task.dealloc idle = .ok (t, called) ∧ ¬ Released r called := by
  obtain ⟨k, k', k'', f, g, hinv, hzero, hpage, halloc, hne, hpages, halloc'⟩ := three_pages
  obtain ⟨r, hrun, hk, hptr, hnum, hlen⟩ :=
    filled hinv hzero hpage halloc hne (n := 510) (by norm_num)
  have hne' : r.task.resources ≠ 0 := hptr ▸ Nat.mul_ne_zero hne (by norm_num)
  have hheld := (Inv.of_reachable hrun).held
  -- the table moves to two pages
  obtain ⟨k₃, hfree⟩ : ∃ k₃, vmmFree k'' r.task.resources 1 = .ok k₃ := by
    have hret := Buffer.toPages_returns hheld k''
    rwa [hnum] at hret
  have hresize : vmmResize r.task.kernel ResourceEntry.size r.task.numResources
      (r.task.numResources + 1) r.task.resources = .ok (k₃, g * 0x1000) := by
    rw [vmmResize, hnum, hk, if_neg hne', if_neg (by norm_num), if_pos (by decide)]
    exact bind_eq_ok.mpr ⟨(k'', g * 0x1000), halloc', bind_eq_ok.mpr ⟨k₃, hfree, rfl⟩⟩
  have hfinds : r.Finds (.register file) := fun _ =>
    ⟨by rw [hnum]; decide, fun _ _ => by rw [hnum, hk]; exact hpages⟩
  obtain ⟨r', hrun', -, -, hnum', hlen'⟩ := exists_next hrun (hlen.trans hnum.symm) hfinds
    (bind_eq_ok.mpr ⟨(k₃, g * 0x1000), hresize, rfl⟩)
  have hinv' := Inv.of_reachable hrun'
  have hpeak : r'.peak = 512 := by rw [← hinv'.peak, hnum', hnum]
  obtain ⟨⟨t, called⟩, hdealloc⟩ := hinv'.held.dealloc_returns (hinv'.leaves (leaves_idle r'))
    fun e _ _ s => ⟨s, rfl⟩
  refine ⟨r', t, called, hrun', by rw [hlen', hlen], hdealloc, fun h => ?_⟩
  exact hinv'.pages_iff.mp h.pages (by rw [hpeak]; norm_num)

end MicroOS
