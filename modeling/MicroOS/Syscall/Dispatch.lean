import MicroOS.Memory.VmmResize

/-!
The table of system calls of `syscall/syscalls.c`.

* `Syscalls.registerSyscall`, `Syscalls.syscallHandler`: `register_syscall` and `syscall_handler`;
* `Syscalls.called_of_registered`: once there is a table, a registered number is dispatched to the
  handler registered last for it;
* `dispatch_never_closed`: numbers that were never registered are dispatched as well.

Handlers are named by their addresses. The table is an array of four bytes for each handler, so
that its addresses repeat every `2 ^ 30` numbers.
-/

namespace MicroOS

open ByteMem Checked

/-- The globals of `syscalls.c`, with the kernel and the memory that the table lies in. -/
structure Syscalls where
  kernel : Kernel
  bytes : Mem
  syscallTable : ℕ
  numSyscallHandlers : ℕ

/-- The arguments of a call of `register_syscall`. -/
structure Registration where
  syscallId : UInt8
  handler : UInt32
  deriving DecidableEq

namespace Syscalls

/-- `sizeof(syscall_handler_t)`. -/
def handlerSize : ℕ := 4

/-- Before the first call, with memory of any contents. -/
def initial (kernel : Kernel) (bytes : Mem) : Syscalls := ⟨kernel, bytes, 0, 0⟩

/-- The address of `syscall_table[id]`. -/
def slot (s : Syscalls) (id : ℕ) : ℕ := wrap32 (s.syscallTable + handlerSize * id)

/-- The part of `register_syscall` that makes room. -/
def resize (s : Syscalls) (syscallId : ℕ) : Except Halt Syscalls :=
  if syscallId > s.numSyscallHandlers then do
    let (kernel, bytes, syscallTable) ← resizeArray s.kernel s.bytes handlerSize
      s.numSyscallHandlers (syscallId + 1) s.syscallTable
    return ⟨kernel, bytes, syscallTable, syscallId + 1⟩
  else .ok s

/-- `register_syscall`. -/
def registerSyscall (s : Syscalls) (r : Registration) : Except Halt Syscalls := do
  let s ← s.resize r.syscallId.toNat
  return { s with bytes := writeWord s.bytes (s.slot r.syscallId.toNat) r.handler.toNat }

/-- `syscall_handler`: the address that is called, if there is a call. There is no test of the
number or of the entry, in contrast to `handle_interrupt`, which skips the entries that are null. -/
def syscallHandler (s : Syscalls) (eax : ℕ) : Option ℕ := some (readWord s.bytes (s.slot eax))

/-- A sequence of calls of `register_syscall`. -/
def registerAll (s : Syscalls) (calls : List Registration) : Except Halt Syscalls :=
  calls.foldlM registerSyscall s

/-- The handler is the one registered last for the number. -/
def LastRegistered (calls : List Registration) (r : Registration) : Prop :=
  ∃ front back, calls = front ++ r :: back ∧ ∀ q ∈ back, q.syscallId ≠ r.syscallId

/-- The number was never registered. -/
def Unregistered (calls : List Registration) (eax : ℕ) : Prop :=
  ∀ r ∈ calls, r.syscallId.toNat ≠ eax

/-- **Dispatch is closed**: a registered number is in the table and calls the handler registered
last for it, and any other calls nothing. -/
structure DispatchClosed (calls : List Registration) (s : Syscalls) : Prop where
  inside : ∀ r ∈ calls, r.syscallId.toNat < s.numSyscallHandlers
  registered : ∀ r, LastRegistered calls r →
    s.syscallHandler r.syscallId.toNat = some r.handler.toNat
  others : ∀ eax < 2 ^ 32, Unregistered calls eax → s.syscallHandler eax = none

variable {s t : Syscalls} {r q : Registration} {calls : List Registration} {eax : ℕ}

/-- A number and the one `2 ^ 30` above it have the same place in the table. -/
lemma syscallHandler_add (s : Syscalls) (eax : ℕ) :
    s.syscallHandler (eax + 2 ^ 30) = s.syscallHandler eax := by
  have hslot : s.slot (eax + 2 ^ 30) = s.slot eax := by
    rw [slot, slot, wrap32, wrap32, handlerSize]
    omega
  rw [syscallHandler, syscallHandler, hslot]

/-- A byte is below the numbers that were never registered. -/
lemma unregistered_add (calls : List Registration) (id : UInt8) :
    Unregistered calls (id.toNat + 2 ^ 30) := by
  intro q _
  have hq := q.syscallId.toNat_lt
  omega

/-- What was registered last is called. -/
lemma registerSyscall_called (h : s.registerSyscall r = .ok t) :
    t.syscallHandler r.syscallId.toNat = some r.handler.toNat := by
  rw [registerSyscall, bind_eq_ok] at h
  obtain ⟨u, -, hret⟩ := h
  obtain rfl := Except.ok.inj hret
  refine congrArg some ?_
  change readWord (writeWord u.bytes (u.slot r.syscallId.toNat) r.handler.toNat)
    (u.slot r.syscallId.toNat) = _
  rw [readWord_writeWord, wrap32_of_lt r.handler.toNat_lt]

/-- The handler of the last registration is called. -/
lemma registerAll_called (front : List Registration) (h : s.registerAll (front ++ [r]) = .ok t) :
    t.syscallHandler r.syscallId.toNat = some r.handler.toNat := by
  rw [registerAll, List.foldlM_append, bind_eq_ok] at h
  obtain ⟨u, -, h⟩ := h
  rw [List.foldlM_cons, bind_eq_ok] at h
  obtain ⟨v, hv, hret⟩ := h
  obtain rfl := Except.ok.inj hret
  exact registerSyscall_called hv

/-! ### Registered numbers -/

/-- A table that is there, with room for every number. -/
def HasTable (s : Syscalls) : Prop :=
  s.syscallTable ≠ 0 ∧ s.syscallTable + handlerSize * 256 ≤ 2 ^ 32

/-- A table that is there is large enough and stays where it is. -/
lemma HasTable.resize {id : ℕ} (h : s.HasTable) (hid : id < 256) (hnum : s.numSyscallHandlers ≤ 256)
    (hs : s.resize id = .ok t) :
    t.syscallTable = s.syscallTable ∧ t.bytes = s.bytes ∧ t.numSyscallHandlers ≤ 256 := by
  rw [Syscalls.resize] at hs
  split_ifs at hs with hlt
  · have hpages : pagesOf (handlerSize * (id + 1)) =
      pagesOf (handlerSize * s.numSyscallHandlers) := by
      rw [pagesOf, pagesOf, handlerSize]
      omega
    rw [resizeArray_same h.1 (Nat.succ_ne_zero id) hpages] at hs
    obtain rfl := Except.ok.inj hs
    exact ⟨rfl, rfl, hid⟩
  · obtain rfl := Except.ok.inj hs
    exact ⟨rfl, rfl, hnum⟩

/-- The slot of a number is in the table. -/
lemma HasTable.slot (h : s.HasTable) (r : Registration) :
    s.slot r.syscallId.toNat = s.syscallTable + handlerSize * r.syscallId.toNat := by
  have hid := r.syscallId.toNat_lt
  obtain ⟨-, htop⟩ := h
  rw [handlerSize] at htop
  rw [Syscalls.slot, handlerSize, wrap32_of_lt (by omega)]

/-- A registration keeps the handlers of the other numbers. -/
lemma HasTable.registerSyscall (h : s.HasTable) (hnum : s.numSyscallHandlers ≤ 256)
    (hs : s.registerSyscall r = .ok t) :
    t.HasTable ∧ t.numSyscallHandlers ≤ 256 ∧ ∀ q : Registration, q.syscallId ≠ r.syscallId →
      t.syscallHandler q.syscallId.toNat = s.syscallHandler q.syscallId.toNat := by
  rw [Syscalls.registerSyscall, bind_eq_ok] at hs
  obtain ⟨u, hu, hret⟩ := hs
  obtain rfl := Except.ok.inj hret
  obtain ⟨htable, hbytes, hnum'⟩ := h.resize r.syscallId.toNat_lt hnum hu
  have hhas : u.HasTable := by rw [HasTable, htable]; exact h
  refine ⟨hhas, hnum', fun q hq => ?_⟩
  have hne : q.syscallId.toNat ≠ r.syscallId.toNat := fun heq => hq (UInt8.toNat_inj.mp heq)
  refine congrArg some ?_
  change readWord (writeWord u.bytes (u.slot r.syscallId.toNat) r.handler.toNat)
    (u.slot q.syscallId.toNat) = _
  rw [hhas.slot, hhas.slot, readWord_writeWord_of_disjoint _ _ (by rw [handlerSize]; omega), hbytes,
    htable, h.slot]

/-- Registrations of other numbers keep the handler of a number. -/
lemma HasTable.registerAll (h : s.HasTable) (hnum : s.numSyscallHandlers ≤ 256)
    (hs : s.registerAll calls = .ok t) (hr : ∀ q ∈ calls, q.syscallId ≠ r.syscallId) :
    t.syscallHandler r.syscallId.toNat = s.syscallHandler r.syscallId.toNat := by
  induction calls generalizing s with
  | nil =>
    obtain rfl := Except.ok.inj hs
    rfl
  | cons q calls ih =>
    rw [Syscalls.registerAll, List.foldlM_cons, bind_eq_ok] at hs
    obtain ⟨u, hu, hs⟩ := hs
    obtain ⟨hhas, hnum', hkept⟩ := h.registerSyscall hnum hu
    rw [ih hhas hnum' hs fun p hp => hr p (List.mem_cons_of_mem q hp),
      hkept r (hr q List.mem_cons_self).symm]

/-- **Registered numbers are dispatched** to the handlers registered last for them, in every run
from a state with a table. -/
theorem called_of_registered (h : s.HasTable) (hnum : s.numSyscallHandlers ≤ 256)
    (hs : s.registerAll calls = .ok t) (hr : LastRegistered calls r) :
    t.syscallHandler r.syscallId.toNat = some r.handler.toNat := by
  obtain ⟨front, back, rfl, hback⟩ := hr
  induction front generalizing s with
  | nil =>
    rw [List.nil_append, registerAll, List.foldlM_cons, bind_eq_ok] at hs
    obtain ⟨u, hu, hs⟩ := hs
    obtain ⟨hhas, hnum', -⟩ := h.registerSyscall hnum hu
    rw [hhas.registerAll hnum' hs hback, registerSyscall_called hu]
  | cons q front ih =>
    rw [List.cons_append, registerAll, List.foldlM_cons, bind_eq_ok] at hs
    obtain ⟨u, hu, hs⟩ := hs
    obtain ⟨hhas, hnum', -⟩ := h.registerSyscall hnum hu
    exact ih hhas hnum' hs

end Syscalls

open Syscalls

/-- **Dispatch is never closed**: `syscall_handler` calls what stands at the place of any number,
also of one that was never registered, and such a number has the place of the last one that was, so
that its handler is called. -/
theorem dispatch_never_closed {kernel : Kernel} {bytes : Mem} {calls : List Registration}
    {s : Syscalls} (h : (initial kernel bytes).registerAll calls = .ok s) :
    ¬DispatchClosed calls s ∧ ∀ front r, calls = front ++ [r] →
      ∃ eax < 2 ^ 32, Unregistered calls eax ∧ s.syscallHandler eax = some r.handler.toNat := by
  refine ⟨fun hclosed => ?_, ?_⟩
  · -- no entry can keep the call from being made
    have hnone := hclosed.others (0 + 2 ^ 30) (by norm_num) (unregistered_add calls 0)
    exact nomatch hnone
  · rintro front r rfl
    have hid := r.syscallId.toNat_lt
    refine ⟨r.syscallId.toNat + 2 ^ 30, by omega, unregistered_add _ _, ?_⟩
    rw [syscallHandler_add, registerAll_called front h]

/-- A registration for the number 1 in a kernel of the machine. -/
lemma exists_registered (handler : UInt32) (bytes : Mem) : ∃ kernel s,
    (initial kernel bytes).registerAll [⟨1, handler⟩] = .ok s := by
  obtain ⟨k, hinv, hzero, hready⟩ := machine_kernel
  have hready : Ready bootLayout.poolFrame {0, 1} 0x440 29 (1 + 62) k := hready
  obtain ⟨k', f, halloc, -⟩ := hready.vmmAlloc (by norm_num) (by norm_num) machine_slots.kernel
    (by decide)
  have hresize : (initial k bytes).resize 1 = .ok ⟨k', bytes, f * 0x1000, 2⟩ := by
    rw [resize, if_pos (show 1 > (initial k bytes).numSyscallHandlers from one_pos),
      resizeArray_eq (by decide), resizeBytes, vmmResize_bytes]
    exact bind_eq_ok.mpr ⟨_, bind_eq_ok.mpr ⟨_, halloc, rfl⟩, rfl⟩
  exact ⟨k, _, bind_eq_ok.mpr ⟨_, bind_eq_ok.mpr ⟨_, hresize, rfl⟩, rfl⟩⟩

/-- The system call `2 ^ 30 + 1` calls a handler that was registered for 1. -/
theorem dispatch_never_closed_one : ∃ kernel s,
    (initial kernel fun _ => 0).registerAll [⟨1, 0x10000⟩] = .ok s ∧
      ∃ eax < 2 ^ 32, Unregistered [⟨1, 0x10000⟩] eax ∧
        s.syscallHandler eax = some 0x10000 := by
  obtain ⟨kernel, s, h⟩ := exists_registered 0x10000 fun _ => 0
  exact ⟨kernel, s, h, (dispatch_never_closed h).2 [] _ rfl⟩

/-- One registration for 1 leaves dispatch open: the number `2 ^ 30 + 1`, which was not registered,
calls the handler too. -/
theorem dispatch_open : ∃ kernel s,
    (initial kernel fun _ => 0).registerAll [⟨1, 0x10000⟩] = .ok s ∧
      Unregistered [⟨1, 0x10000⟩] (1 + 2 ^ 30) ∧ s.syscallHandler (1 + 2 ^ 30) = some 0x10000 ∧
      ¬DispatchClosed [⟨1, 0x10000⟩] s := by
  obtain ⟨kernel, s, hs⟩ := exists_registered 0x10000 fun _ => 0
  have hcalled : s.syscallHandler (1 + 2 ^ 30) = some 0x10000 := by
    rw [syscallHandler_add]
    exact registerAll_called [] (r := ⟨1, 0x10000⟩) hs
  refine ⟨kernel, s, hs, unregistered_add _ 1, hcalled, fun hclosed => ?_⟩
  have hnone := hclosed.others (1 + 2 ^ 30) (by norm_num) (unregistered_add _ 1)
  exact nomatch hcalled.symm.trans hnone

end MicroOS
