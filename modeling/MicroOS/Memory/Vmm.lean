import MicroOS.Lib.PageEntry
import MicroOS.Memory.Pmm
import MicroOS.Scheduler.Task

/-!
The virtual memory manager `memory/vmm.c` and what builds on it: creating and ending tasks in
`scheduler/scheduler.c`, and the system calls `sys_mmap` and `sys_mmmap`.

The memory of the model is the pages that the memory managers themselves read and write: contexts,
page directories and page tables, 1024 words each, named by the address of the page. Every such
page comes from the page-table pool, which is mapped to itself in every context. What programs and
drivers keep in their own pages is left out, and so are the control registers and the cache of
translations. `abortf` stops the model.
-/

namespace MicroOS

open ByteMem Checked PageEntry

/-! ### Entries and pages -/

/-- `PTE_PRESENT`. -/
def ptePresent : ℕ := 0x1

/-- `PTE_WRITE`. -/
def pteWrite : ℕ := 0x2

/-- `PTE_USER`. -/
def pteUser : ℕ := 0x4

/-- `USER_SPACE_OFFSET`. -/
def userSpaceOffset : ℕ := 0xC0000000

/-- `entry & PTE_PRESENT`. -/
def Present (e : ℕ) : Prop := e &&& ptePresent ≠ 0

instance (e : ℕ) : Decidable (Present e) := inferInstanceAs (Decidable (_ ≠ _))

/-- The words of the pages of contexts, directories and tables. -/
abbrev PageMem := ℕ → ℕ → ℕ

namespace PageMem

/-- `page[i] = v`. -/
def set (m : PageMem) (page i v : ℕ) : PageMem :=
  Function.update m page (Function.update (m page) i v)

/-- `for (int i = 0; i < 1024; i++) page[i] = 0`. -/
def clear (m : PageMem) (page : ℕ) : PageMem := Function.update m page fun _ => 0

end PageMem

/-- The globals that the memory of tasks depends on. `current_pid` is an `int` that counts the tasks
that were created; there are fewer than `2 ^ 31` of them, so that it does not overflow. -/
structure Kernel where
  pmm : Pmm
  mem : PageMem
  kernelContext : ℕ
  tasks : Tasks
  currentTask : Fin maxTasks
  currentPid : ℤ

namespace Kernel

/-- `context->pagedir`. -/
def pagedir (k : Kernel) (context : ℕ) : ℕ := k.mem context 0

/-- `context->pagedir[i]`. -/
def entry (k : Kernel) (context i : ℕ) : ℕ := k.mem (k.pagedir context) i

/-- `kernel_context->pagedir[i]`. -/
def kernelEntry (k : Kernel) (i : ℕ) : ℕ := k.entry k.kernelContext i

end Kernel

/-! ### Contexts -/

/-- `vmm_create_context`. -/
def vmmCreateContext (k : Kernel) : Except Halt (Kernel × ℕ) := do
  let (pmm, context) ← pmmAllocPagetable k.pmm
  let (pmm, pagedir) ← pmmAllocPagetable pmm
  return ({ k with pmm, mem := (k.mem.set context 0 pagedir).clear pagedir }, context)

/-- The loop of `vmm_map_page` that gives a new kernel entry to the active tasks. -/
def shareEntry (tasks : Tasks) (pdIndex e : ℕ) (m : PageMem) : PageMem :=
  (List.finRange maxTasks).foldl
    (fun m i => if (tasks i).active then m.set (m (tasks i).context 0) pdIndex e else m) m

/-- The part of `vmm_map_page` that finds the page table, or makes one. -/
def pageTableFor (k : Kernel) (context pdIndex flags : ℕ) : Except Halt (Kernel × ℕ) :=
  if Present (k.entry context pdIndex) then return (k, base (k.entry context pdIndex))
  else do
    let (pmm, pageTable) ← pmmAllocPagetable k.pmm
    let e := pageTable ||| ptePresent ||| flags
    let m := k.mem.clear pageTable
    let m := m.set (m context 0) pdIndex e
    let m := if context = k.kernelContext then shareEntry k.tasks pdIndex e m else m
    return ({ k with pmm, mem := m }, pageTable)

/-- `pd_index` of an address, the slot of its page directory. -/
def pdIndexOf (virt : ℕ) : ℕ := virt / 0x1000 / 1024

/-- `pt_index` of an address, its place in the page table. -/
def ptIndexOf (virt : ℕ) : ℕ := virt / 0x1000 % 1024

/-- `vmm_map_page`. -/
def vmmMapPage (k : Kernel) (context virt phys flags : ℕ) : Except Halt (Kernel × ℤ) :=
  let pdIndex := pdIndexOf virt
  let ptIndex := ptIndexOf virt
  if virt % 0x1000 ≠ 0 ∨ phys % 0x1000 ≠ 0 then return (k, -1)
  else if context ≠ k.kernelContext ∧ Present (k.kernelEntry pdIndex) then throw .abort
  else do
    let (k, pageTable) ← pageTableFor k context pdIndex flags
    return ({ k with mem := k.mem.set pageTable ptIndex (phys ||| flags) }, 0)

/-- `vmm_clone_kernel_context`. -/
def vmmCloneKernelContext (k : Kernel) (context : ℕ) : Kernel :=
  { k with
    mem := (List.range 1024).foldl
      (fun m i => if Present (m (m k.kernelContext 0) i) then
        m.set (m context 0) i (m (m k.kernelContext 0) i) else m) k.mem }

/-- The inner loop of `vmm_destroy_context`, over the pages of one table. -/
def destroyTable (k : Kernel) (i pageTable : ℕ) (pmm : Pmm) : Except Halt Pmm :=
  (List.range 1024).foldlM
    (fun pmm j =>
      if Present (k.mem pageTable j) then
        if Present (k.kernelEntry i) ∧ Present (k.mem (base (k.kernelEntry i)) j) then return pmm
        else pmmFree pmm (base (k.mem pageTable j))
      else return pmm) pmm

/-- `vmm_destroy_context`. -/
def vmmDestroyContext (k : Kernel) (context : ℕ) : Except Halt Kernel := do
  let pmm ← (List.range 1024).foldlM
    (fun pmm i =>
      if Present (k.entry context i) then do
        let pageTable := base (k.entry context i)
        let pmm ← destroyTable k i pageTable pmm
        if Present (k.kernelEntry i) then return pmm else pmmFree pmm pageTable
      else return pmm) k.pmm
  let pmm ← pmmFree pmm (k.pagedir context)
  let pmm ← pmmFree pmm context
  return { k with pmm }

/-- `vmm_lookup`. -/
def vmmLookup (k : Kernel) (ptr context : ℕ) : ℕ :=
  let pdIndex := pdIndexOf ptr
  let ptIndex := ptIndexOf ptr
  if Present (k.entry context pdIndex)
      ∧ Present (k.mem (base (k.entry context pdIndex)) ptIndex) then
    base (k.mem (base (k.entry context pdIndex)) ptIndex) + ptr % 0x1000
  else 0

/-! ### Kernel memory -/

/-- A `uint32_t` passed as an `int`. -/
def toInt (n : ℕ) : ℤ := if n < 2 ^ 31 then n else n - 2 ^ 32

/-- `vmm_map_page` where its result is not looked at. -/
def mapPage (k : Kernel) (context virt phys flags : ℕ) : Except Halt Kernel :=
  Prod.fst <$> vmmMapPage k context virt phys flags

/-- `vmm_alloc`. -/
def vmmAlloc (k : Kernel) (numPages : ℕ) : Except Halt (Kernel × ℕ) := do
  let (pmm, ptr) ← pmmAllocRange k.pmm (toInt numPages)
  let k ← (List.range numPages).foldlM
    (fun k i => mapPage k k.kernelContext (wrap32 (ptr + i * 0x1000)) (wrap32 (ptr + i * 0x1000))
      (ptePresent ||| pteWrite)) { k with pmm }
  return (k, ptr)

/-- `vmm_free`. -/
def vmmFree (k : Kernel) (ptr numPages : ℕ) : Except Halt Kernel := do
  return { k with pmm := ← pmmFreeRange k.pmm ptr (toInt numPages) }

/-- `vmm_resize`, without the copy of the contents. -/
def vmmResize (k : Kernel) (dataSize oldSize newSize ptr : ℕ) : Except Halt (Kernel × ℕ) := do
  let newSizeP := dataSize * newSize / 0x1000 + 1
  let oldSizeP := dataSize * oldSize / 0x1000 + 1
  if ptr = 0 then vmmAlloc k newSizeP
  else if newSize = 0 then return (← vmmFree k ptr oldSizeP, 0)
  else if newSizeP ≠ oldSizeP then
    let (k, newPtr) ← vmmAlloc k newSizeP
    return (← vmmFree k ptr oldSizeP, newPtr)
  else return (k, ptr)

/-! ### Tasks -/

/-- `KERNEL_STACK_SIZE_PAGES`. -/
def kernelStackSizePages : ℕ := 4

/-- `USER_STACK_SIZE_PAGES`. -/
def userStackSizePages : ℕ := 4

/-- `sizeof(cpu_registers_t)`. -/
def registersSize : ℕ := 72

/-- The flags of a user page, `PTE_PRESENT | PTE_WRITE | PTE_USER`. -/
def userFlags : ℕ := ptePresent ||| pteWrite ||| pteUser

/-- `init_task` of a task that is not a thread. Without a free slot the assertion fails, which
aborts since the scheduler was stopped at the start of the function. -/
def initTask (k : Kernel) (term : ℤ) : Except Halt (Kernel × Fin maxTasks) := do
  match k.tasks.firstInactive with
  | none => throw .abort
  | some t =>
    let k := { k with tasks := Function.update k.tasks t Task.zero }
    let (k, stack) ← vmmAlloc k kernelStackSizePages
    let (k, userStack) ← vmmAlloc k userStackSizePages
    let (k', context) ← vmmCreateContext k
    let task : Task :=
      { Task.zero with
        registers := sub32 (wrap32 (stack + kernelStackSizePages * 4096)) registersSize
        active := true, stack, userStack, pid := k.currentPid, term, context, parent := -1 }
    let k := { k' with
      tasks := Function.update k'.tasks t task, currentPid := k'.currentPid + 1 }
    let k := vmmCloneKernelContext k context
    let k ← (List.range userStackSizePages).foldlM
      (fun k i => mapPage k context (wrap32 (userStack + i * 4096 + userSpaceOffset))
        (wrap32 (userStack + i * 4096)) userFlags) k
    return (k, t)

/-- `elf_program_header`, the fields that decide what is mapped. -/
structure ElfProgramHeader where
  type : ℕ
  virtAddr : ℕ
  memSize : ℕ
  deriving DecidableEq, Repr

/-- An image: its magic number and its program headers. -/
structure ElfImage where
  magic : ℕ
  programHeaders : List ElfProgramHeader
  deriving DecidableEq, Repr

/-- `ELF_MAGIC`. -/
def elfMagic : ℕ := 0x464C457F

/-- `real_size` of a program header: its pages, and one more when it starts inside a page. -/
def ElfProgramHeader.realSize (ph : ElfProgramHeader) : ℕ :=
  ph.memSize / 4096 + 1 + if ph.virtAddr % 0x1000 ≠ 0 then 1 else 0

/-- The body of the loop of `init_elf` over the program headers, without the copy of the
contents. -/
def loadSegment (context : ℕ) (k : Kernel) (ph : ElfProgramHeader) : Except Halt Kernel :=
  if ph.type ≠ 1 then return k
  else do
    let realDest := base ph.virtAddr
    let (pmm, physLoc) ← pmmAllocRange k.pmm ph.realSize
    (List.range ph.realSize).foldlM
      (fun k j =>
        if vmmLookup k (wrap32 (realDest + j * 4096)) context ≠ 0 then do
          return { k with pmm := ← pmmFree k.pmm (wrap32 (physLoc + j * 4096)) }
        else
          mapPage k context (wrap32 (realDest + j * 4096)) (wrap32 (physLoc + j * 4096)) userFlags)
      { k with pmm }

/-- A page of `init_elf` for arguments: allocated in the kernel and mapped for the task. -/
def argPage (context : ℕ) (k : Kernel) : Except Halt (Kernel × ℕ) := do
  let (k, page) ← vmmAlloc k 1
  return (← mapPage k context (wrap32 (page + userSpaceOffset)) page userFlags, page)

/-- An argument vector of `init_elf` with `n` strings: the page of pointers and one page for each
string. The result is the address of the page of pointers in the task. -/
def argVector (context n : ℕ) (k : Kernel) : Except Halt (Kernel × ℕ) := do
  let (k, page) ← argPage context k
  let k ← (List.range n).foldlM (fun k _ => Prod.fst <$> argPage context k) k
  return (k, wrap32 (page + userSpaceOffset))

/-- `init_elf`, with the numbers of arguments and of environment variables. -/
def initElf (k : Kernel) (term : ℤ) (image : ElfImage) (numArgv numEnvp : ℕ) :
    Except Halt (Kernel × ℤ) :=
  if image.magic ≠ elfMagic then return (k, -1)
  else do
    let (k, t) ← initTask k term
    let context := (k.tasks t).context
    let k ← image.programHeaders.foldlM (loadSegment context) k
    let (k, argv) ← argVector context numArgv k
    let (k, envp) ← argVector context numEnvp k
    return ({ k with tasks := Function.update k.tasks t { k.tasks t with argv, envp } },
      (k.tasks t).pid)

/-- `exit_task` of a task without resources. -/
def exitTask (k : Kernel) (t : Fin maxTasks) : Except Halt Kernel := do
  let k := { k with
    tasks := Function.update k.tasks t { k.tasks t with active := false, pin := false } }
  let k ← if (k.tasks t).parent = -1 then vmmDestroyContext k (k.tasks t).context else pure k
  vmmFree k (k.tasks t).stack kernelStackSizePages

/-- The page at 0 is mapped for the task that runs. -/
def Kernel.NullMapped (k : Kernel) : Prop :=
  Present (k.entry (k.tasks k.currentTask).context 0)
    ∧ Present (k.mem (base (k.entry (k.tasks k.currentTask).context 0)) 0)

instance (k : Kernel) : Decidable k.NullMapped := inferInstanceAs (Decidable (_ ∧ _))

/-- An access through the null pointer of `get_task_by_pid`. The page at 0 is mapped not present,
and `page_fault_killer` ends the task that runs. Where that page has been mapped, since `vmm_alloc`
found no frames for a range, there is no fault, and the code goes on with the bytes that lie
there. -/
def nullTask (k : Kernel) (goOn : Except Halt Kernel) : Except Halt Kernel :=
  if k.NullMapped then goOn else exitTask k k.currentTask

/-- `exit_task` of the null pointer where page 0 is mapped, of a `task_t` without resources:
`active` and `pin` are cleared in page 0, and what its other fields name is given back. -/
def exitNull (k : Kernel) (null : Task) : Except Halt Kernel := do
  let k ← if null.parent = -1 then vmmDestroyContext k null.context else pure k
  vmmFree k null.stack kernelStackSizePages

/-! ### System calls -/

/-- `sys_mmap` at the address in `ebx`. -/
def sysMmap (k : Kernel) (ebx : ℕ) : Except Halt Kernel := do
  let (pmm, phys) ← pmmAlloc k.pmm
  mapPage { k with pmm } (k.tasks k.currentTask).context ebx phys userFlags

/-- `sys_mmmap` at the addresses in `ebx` and `ecx`, the second in the task `edx`; `null` is the
`task_t` that page 0 holds. -/
def sysMmmap (k : Kernel) (null : Task) (ebx ecx : ℕ) (edx : ℤ) : Except Halt Kernel := do
  let (pmm, phys) ← pmmAlloc k.pmm
  let k ← mapPage { k with pmm } (k.tasks k.currentTask).context ebx phys userFlags
  match k.tasks.byPid edx with
  | none => nullTask k (mapPage k null.context ecx phys userFlags)
  | some t => mapPage k (k.tasks t).context ecx phys userFlags

/-! ### Start -/

/-- `vmm_identity_map`. -/
def vmmIdentityMap (fuel start endAddr flags : ℕ) (k : Kernel) : Except Halt Kernel := do
  let r ← repeatWhile (fun s : ℕ × Kernel => decide (s.1 < endAddr))
    (fun s => do return (wrap32 (s.1 + 0x1000), ← mapPage s.2 s.2.kernelContext s.1 s.1 flags))
    .loops fuel (start, k)
  return r.2

/-- `vmm_init`, after `pmm_init` and with the task table empty. -/
def vmmInit (fuel : ℕ) (L : KernelLayout) (mb : MultibootInfo) (pmm : Pmm) :
    Except Halt Kernel := do
  let k : Kernel := ⟨pmm, fun _ _ => 0, 0, fun _ => Task.zero, 0, 0⟩
  let (k, context) ← vmmCreateContext k
  let k := { k with kernelContext := context }
  let k ← vmmIdentityMap fuel KernelLayout.kernelStart L.kernelEnd (ptePresent ||| pteWrite) k
  let k ← vmmIdentityMap fuel L.pagingStart L.pagingEnd (ptePresent ||| pteWrite) k
  -- the text buffer at 0xb8000 is less than a page
  let k ← mapPage k k.kernelContext 0xb8000 0xb8000 (ptePresent ||| pteWrite)
  let pmm ← pmmMarkUsed k.pmm 0xb8000
  let k := { k with pmm }
  let k ← mapPage k k.kernelContext mb.addr.toNat mb.addr.toNat ptePresent
  let k ← mapPage k k.kernelContext mb.modsAddr.toNat mb.modsAddr.toNat ptePresent
  let k ← mb.mods.foldlM
    (fun k m => vmmIdentityMap fuel m.modStart.toNat m.modEnd.toNat ptePresent k) k
  mapPage k k.kernelContext 0 0 0

end MicroOS
