import Mathlib.Tactic

/-!
The task table of `scheduler/scheduler.h`, shared by the memory, file and scheduling parts of
the model. Pointers are addresses, and null is `0`.
-/

namespace MicroOS

/-- `MAX_TASKS`. -/
def maxTasks : ℕ := 32

instance : NeZero maxTasks := ⟨by decide⟩

/-- The `dealloc` functions that the system calls register. -/
inductive Dealloc where
  | sysOpenDealloc
  | sysSockConnectDealloc
  deriving DecidableEq, Repr

/-- `resource_t`; a slot whose `resource` is null is free. -/
structure Resource where
  dealloc : Dealloc
  resource : ℕ
  deriving DecidableEq, Repr

/-- `task_t`. The array `resources` with its length `num_resources` is a list. -/
structure Task where
  registers : ℕ
  active : Bool
  context : ℕ
  stack : ℕ
  userStack : ℕ
  pid : ℤ
  argv : ℕ
  envp : ℕ
  resources : List Resource
  waitTime : ℤ
  pin : Bool
  parent : ℤ
  term : ℤ
  deriving DecidableEq, Repr

/-- A task slot after `memset(task, 0, sizeof(task_t))`. -/
def Task.zero : Task := ⟨0, false, 0, 0, 0, 0, 0, 0, [], 0, false, 0, 0⟩

/-- The table `tasks`. -/
abbrev Tasks := Fin maxTasks → Task

/-- The first inactive slot, as `init_task` searches it. -/
def Tasks.firstInactive (tasks : Tasks) : Option (Fin maxTasks) :=
  (List.finRange maxTasks).find? fun i => !(tasks i).active

/-- `get_task_by_pid`. -/
def Tasks.byPid (tasks : Tasks) (pid : ℤ) : Option (Fin maxTasks) :=
  (List.finRange maxTasks).find? fun i => (tasks i).active && (tasks i).pid = pid

lemma Tasks.firstInactive_spec {tasks : Tasks} {t : Fin maxTasks}
    (h : tasks.firstInactive = some t) : (tasks t).active = false := by
  simpa using List.find?_some h

/-- The task that is found has the number, and is active. -/
lemma Tasks.byPid_spec {tasks : Tasks} {pid : ℤ} {t : Fin maxTasks}
    (h : tasks.byPid pid = some t) : (tasks t).active = true ∧ (tasks t).pid = pid := by
  simpa using List.find?_some h

end MicroOS
