import MicroOS.Lib.ByteMem
import MicroOS.Lib.Run
import MicroOS.Scheduler.Task

/-!
The scheduler of `scheduler/scheduler.c`: `switch_to_next_task` and `schedule`.

* `Sched`: the task table with the globals of the scheduler;
* `searchSlots_pass`: which slots a pass visits, what it does to them, and which it selects;
* `Call`, `schedule_call`: what a call does, over its passes.
-/

namespace MicroOS

open CInt

/-- The task table, `current_task`, `last_time_ms`, `is_scheduler_running`, and the page directory
that was activated last. -/
structure Sched where
  tasks : Tasks
  currentTask : Fin maxTasks
  lastTimeMs : ℤ
  isSchedulerRunning : Bool
  activeContext : ℕ

/-- What a call of `schedule` reads besides: the core it runs on, the boot processor, the terminal
that is shown, and the timer. -/
structure SchedCall where
  coreId : ℕ
  bspId : ℕ
  currentTerm : ℤ
  timeMs : ℤ

/-- How a call of `schedule` ends. -/
inductive Outcome where
  /-- The interrupted registers are returned. -/
  | same
  /-- The current task is pinned. -/
  | pinned
  /-- A task is selected, by a pass that ignores wait times or by one that does not. -/
  | selected (i : Fin maxTasks) (ignoreWaitTime : Bool)
  /-- `abortf`: no task is active. -/
  | dead
  deriving DecidableEq, Repr

namespace Sched

/-- A task that the passes before the last one leave waiting, or make wait less. -/
def Waiting (task : Task) : Prop := task.active ∧ task.waitTime > 0

instance (task : Task) : Decidable (Waiting task) := inferInstanceAs (Decidable (_ ∧ _))

/-- `tasks[i].wait_time -= diff_ms`. -/
def elapse (s : Sched) (i : Fin maxTasks) (diffMs : ℤ) : Sched :=
  let task := { s.tasks i with waitTime := int ((s.tasks i).waitTime - diffMs) }
  { s with tasks := Function.update s.tasks i task }

/-- `current_task = i`, with the activation of its context. -/
def select (s : Sched) (i : Fin maxTasks) : Sched :=
  { s with currentTask := i, activeContext := (s.tasks i).context }

/-- The loop of `switch_to_next_task`. The registers of an active task lie in its kernel stack, so
the pointer that is returned is null exactly when no task is selected. -/
def searchSlots (diffMs : ℤ) (ignoreWaitTime : Bool) :
    List (Fin maxTasks) → Sched → Sched × Option (Fin maxTasks)
  | [], s => (s, none)
  | i :: is, s =>
    let waits := !ignoreWaitTime ∧ Waiting (s.tasks i)
    let s := if waits then s.elapse i diffMs else s
    if waits ∧ (s.tasks i).waitTime > 0 then
      searchSlots diffMs ignoreWaitTime is s
    else if (s.tasks i).active then
      (s.select i, some i)
    else
      searchSlots diffMs ignoreWaitTime is s

/-- `switch_to_next_task`. -/
def switchToNextTask (startingFrom : ℕ) (diffMs : ℤ) (ignoreWaitTime : Bool) (s : Sched) :
    Sched × Option (Fin maxTasks) :=
  searchSlots diffMs ignoreWaitTime ((List.finRange maxTasks).drop startingFrom) s

/-- `schedule`. -/
def schedule (c : SchedCall) (s : Sched) : Sched × Outcome :=
  if !s.isSchedulerRunning then (s, .same)
  else if c.coreId ≠ c.bspId then (s, .same)
  else if (s.tasks s.currentTask).pin ∧ (s.tasks s.currentTask).term = c.currentTerm then
    (s, .pinned)
  else
    let currTimeMs := int c.timeMs
    let diffMs := int (currTimeMs - s.lastTimeMs)
    let s := { s with lastTimeMs := currTimeMs }
    match s.switchToNextTask (s.currentTask + 1) diffMs false with
    | (s, some i) => (s, .selected i false)
    | (s, none) =>
      match s.switchToNextTask 0 diffMs false with
      | (s, some i) => (s, .selected i false)
      | (s, none) =>
        match s.switchToNextTask 0 diffMs true with
        | (s, some i) => (s, .selected i true)
        | (s, none) => (s, .dead)

/-! ### One pass -/

/-- What a pass that heeds wait times does to a task that it visits. -/
def tick (diffMs : ℤ) (task : Task) : Task :=
  if Waiting task then { task with waitTime := int (task.waitTime - diffMs) } else task

/-- Such a pass selects a task that it visits. -/
def Wakes (diffMs : ℤ) (task : Task) : Prop := task.active ∧ (tick diffMs task).waitTime ≤ 0

instance (diffMs : ℤ) (task : Task) : Decidable (Wakes diffMs task) :=
  inferInstanceAs (Decidable (_ ∧ _))

lemma tick_active (diffMs : ℤ) (task : Task) : (tick diffMs task).active = task.active := by
  rw [tick]
  split_ifs <;> rfl

/-- A ready task is left as it is, and selected. -/
lemma tick_of_ready {task : Task} (diffMs : ℤ) (h : task.waitTime ≤ 0) :
    tick diffMs task = task :=
  if_neg fun hw => absurd hw.2 (by omega)

lemma wakes_of_ready {task : Task} (diffMs : ℤ) (hactive : task.active = true)
    (h : task.waitTime ≤ 0) : Wakes diffMs task :=
  ⟨hactive, by rw [tick_of_ready diffMs h]; exact h⟩

variable {s : Sched} {diffMs : ℤ} {i : Fin maxTasks} {is : List (Fin maxTasks)}

/-- What a pass does to a slot that it visits. -/
def visit (diffMs : ℤ) (i : Fin maxTasks) (s : Sched) : Sched :=
  { s with tasks := Function.update s.tasks i (tick diffMs (s.tasks i)) }

lemma elapse_of_waiting (h : Waiting (s.tasks i)) : s.elapse i diffMs = visit diffMs i s := by
  rw [elapse, visit, tick, if_pos h]

lemma visit_of_not_waiting (h : ¬Waiting (s.tasks i)) : visit diffMs i s = s := by
  rw [visit, tick, if_neg h, Function.update_eq_self]

lemma visit_self : (visit diffMs i s).tasks i = tick diffMs (s.tasks i) :=
  Function.update_self _ _ _

/-- A pass that heeds wait times, at a slot. -/
lemma searchSlots_cons :
    searchSlots diffMs false (i :: is) s
      = if Wakes diffMs (s.tasks i) then ((visit diffMs i s).select i, some i)
        else searchSlots diffMs false is (visit diffMs i s) := by
  rw [searchSlots]
  by_cases hw : Waiting (s.tasks i)
  · have hactive : ((visit diffMs i s).tasks i).active = true := by
      rw [visit_self, tick_active]
      exact hw.1
    by_cases hpos : ((visit diffMs i s).tasks i).waitTime > 0
    · have hn : ¬Wakes diffMs (s.tasks i) := fun h => by
        rw [visit_self] at hpos
        exact absurd h.2 (by omega)
      simp [hw, elapse_of_waiting hw, hpos, hn]
    · have hn : Wakes diffMs (s.tasks i) := by
        rw [visit_self] at hpos
        exact ⟨hw.1, by omega⟩
      simp [hw, elapse_of_waiting hw, hpos, hn, hactive]
  · rw [visit_of_not_waiting hw]
    cases hactive : (s.tasks i).active with
    | true =>
      have hready : (s.tasks i).waitTime ≤ 0 := by
        by_contra hlt
        exact hw ⟨hactive, by omega⟩
      simp [hw, hactive, wakes_of_ready diffMs hactive hready]
    | false =>
      have hn : ¬Wakes diffMs (s.tasks i) := fun h => absurd h.1 (by simp [hactive])
      simp [hw, hactive, hn]

/-- Visits slots one after the other. -/
def visitAll (diffMs : ℤ) (is : List (Fin maxTasks)) (s : Sched) : Sched :=
  { s with tasks := fun j => if j ∈ is then tick diffMs (s.tasks j) else s.tasks j }

/-- A slot is visited before the others. -/
lemma visitAll_cons (h : i ∉ is) :
    visitAll diffMs (i :: is) s = visitAll diffMs is (visit diffMs i s) := by
  have htasks : (visitAll diffMs (i :: is) s).tasks
      = (visitAll diffMs is (visit diffMs i s)).tasks := by
    funext j
    by_cases hj : j = i
    · subst hj
      simp [visitAll, visit, h]
    · simp [visitAll, visit, hj]
  exact congrArg (fun tasks => { s with tasks }) htasks

/-- **A pass.** It visits slots up to the first that wakes, which it selects. -/
inductive Pass (diffMs : ℤ) (is : List (Fin maxTasks)) (s : Sched) :
    Sched × Option (Fin maxTasks) → Prop
  | none (asleep : ∀ j ∈ is, ¬Wakes diffMs (s.tasks j)) :
      Pass diffMs is s (visitAll diffMs is s, none)
  | some {p q : List (Fin maxTasks)} {k : Fin maxTasks} (split : is = p ++ k :: q)
      (asleep : ∀ j ∈ p, ¬Wakes diffMs (s.tasks j)) (wakes : Wakes diffMs (s.tasks k)) :
      Pass diffMs is s ((visitAll diffMs (p ++ [k]) s).select k, some k)

/-- **The search through the slots** is a pass over the tasks. -/
lemma searchSlots_pass (his : is.Nodup) (diffMs : ℤ) (s : Sched) :
    Pass diffMs is s (searchSlots diffMs false is s) := by
  induction is generalizing s with
  | nil =>
    have h : Pass diffMs [] s (visitAll diffMs [] s, none) := .none (by simp)
    simpa [visitAll, searchSlots] using h
  | cons i is ih =>
    obtain ⟨hi, his⟩ := List.nodup_cons.mp his
    have hother : ∀ j ∈ is, (visit diffMs i s).tasks j = s.tasks j := fun j hj =>
      Function.update_of_ne (fun h : j = i => hi (h ▸ hj)) _ _
    rw [searchSlots_cons]
    by_cases hw : Wakes diffMs (s.tasks i)
    · rw [if_pos hw]
      have hone : visitAll diffMs ([] ++ [i]) s = visit diffMs i s := by
        rw [List.nil_append, visitAll_cons (by simp)]
        simp [visitAll]
      have h := Pass.some (p := []) (q := is) (s := s) rfl (by simp) hw
      rw [hone] at h
      exact h
    · rw [if_neg hw]
      have hpass := ih his (visit diffMs i s)
      generalize searchSlots diffMs false is (visit diffMs i s) = r at hpass
      cases hpass with
      | none asleep =>
        rw [← visitAll_cons hi]
        refine .none fun j hj => ?_
        obtain rfl | hj := List.mem_cons.mp hj
        · exact hw
        · rw [← hother j hj]
          exact asleep j hj
      | @some p q k split asleep wakes =>
        subst split
        have hp : i ∉ p ++ [k] := fun h => hi (by
          rw [List.append_cons]
          exact List.mem_append_left q h)
        rw [← visitAll_cons hp]
        refine .some (p := i :: p) rfl (fun j hj => ?_) ?_
        · obtain rfl | hj := List.mem_cons.mp hj
          · exact hw
          · rw [← hother j (List.mem_append_left _ hj)]
            exact asleep j hj
        · rw [← hother k (by simp)]
          exact wakes

/-- The last pass leaves wait times alone. -/
lemma searchSlots_ignoring (diffMs : ℤ) (is : List (Fin maxTasks)) (s : Sched) :
    (searchSlots diffMs true is s).1.tasks = s.tasks
      ∧ (searchSlots diffMs true is s).1.lastTimeMs = s.lastTimeMs := by
  induction is with
  | nil => exact ⟨rfl, rfl⟩
  | cons i is ih =>
    rw [searchSlots]
    cases hactive : (s.tasks i).active with
    | true => simp [hactive, select]
    | false => simpa [hactive] using ih

/-! ### The slots of a pass -/

/-- The slots that `switch_to_next_task` visits. -/
abbrev slotsFrom (n : ℕ) : List (Fin maxTasks) := (List.finRange maxTasks).drop n

/-- The slots from one on. -/
lemma mem_slotsFrom {n : ℕ} : i ∈ slotsFrom n ↔ n ≤ i.val := by
  rw [slotsFrom, List.mem_drop_iff_getElem]
  constructor
  · rintro ⟨j, hj, rfl⟩
    simp
  · intro h
    refine ⟨i.val - n, ?_, ?_⟩
    · rw [List.length_finRange]
      have hi := i.isLt
      omega
    · ext
      simp
      omega

lemma slotsFrom_pairwise (n : ℕ) : (slotsFrom n).Pairwise (· < ·) :=
  (List.pairwise_lt_finRange maxTasks).sublist (List.drop_sublist n _)

lemma slotsFrom_nodup (n : ℕ) : (slotsFrom n).Nodup := (slotsFrom_pairwise n).imp ne_of_lt

/-- The slots before and after the one that a pass selects. -/
lemma lt_of_split {n : ℕ} {p q : List (Fin maxTasks)} {k : Fin maxTasks}
    (h : slotsFrom n = p ++ k :: q) :
    n ≤ k.val ∧ (∀ j ∈ p, j < k) ∧ ∀ j, n ≤ j.val → j ∉ p → k ≤ j := by
  have hsorted := slotsFrom_pairwise n
  have hmem : ∀ j, j ∈ slotsFrom n ↔ n ≤ j.val := fun j => mem_slotsFrom
  rw [h] at hsorted hmem
  rw [List.pairwise_append, List.pairwise_cons] at hsorted
  obtain ⟨-, ⟨hq, -⟩, hp⟩ := hsorted
  refine ⟨(hmem k).mp (by simp), fun j hj => hp j hj k List.mem_cons_self, fun j hj hjp => ?_⟩
  obtain hj | hj := List.mem_append.mp ((hmem j).mpr hj)
  · exact absurd hj hjp
  · obtain rfl | hj := List.mem_cons.mp hj
    · exact le_refl _
    · exact (hq j hj).le

/-! ### One call -/

/-- The call gets to its passes. -/
structure Running (c : SchedCall) (s : Sched) : Prop where
  running : s.isSchedulerRunning = true
  bsp : c.coreId = c.bspId
  notPinned : ¬((s.tasks s.currentTask).pin ∧ (s.tasks s.currentTask).term = c.currentTerm)

/-- The time since the last call that got to its passes. -/
def elapsed (c : SchedCall) (s : Sched) : ℤ := int (int c.timeMs - s.lastTimeMs)

variable {c : SchedCall}

/-- **`schedule`** notes the time and looks for the next task. -/
lemma schedule_eq (h : Running c s) :
    schedule c s =
      match ({ s with lastTimeMs := int c.timeMs } : Sched).switchToNextTask (s.currentTask + 1)
        (elapsed c s) false with
      | (s', some i) => (s', .selected i false)
      | (s', none) =>
        match s'.switchToNextTask 0 (elapsed c s) false with
        | (s', some i) => (s', .selected i false)
        | (s', none) =>
          match s'.switchToNextTask 0 (elapsed c s) true with
          | (s', some i) => (s', .selected i true)
          | (s', none) => (s', .dead) := by
  obtain ⟨hrunning, hbsp, hpin⟩ := h
  rw [schedule, if_neg (by simp [hrunning]), if_neg (by simp [hbsp]), if_neg hpin]
  rfl

/-- A call that does not get to its passes changes nothing. -/
lemma schedule_of_not_running (h : ¬Running c s) :
    (schedule c s).1 = s ∧ ∀ i b, (schedule c s).2 ≠ .selected i b := by
  rw [schedule]
  split_ifs with h1 h2 h3
  · exact ⟨rfl, by simp⟩
  · exact ⟨rfl, by simp⟩
  · exact ⟨rfl, by simp⟩
  · exact absurd ⟨by simpa using h1, by simpa using h2, h3⟩ h

/-- The state after a first pass that selects nothing. -/
def afterFirst (c : SchedCall) (s : Sched) : Sched :=
  visitAll (elapsed c s) (slotsFrom (s.currentTask + 1)) { s with lastTimeMs := int c.timeMs }

/-- A first pass that selects nothing leaves the slots up to the current one alone. -/
lemma afterFirst_of_le (h : i ≤ s.currentTask) : (afterFirst c s).tasks i = s.tasks i :=
  if_neg fun hi => by
    have hlt : s.currentTask < i := mem_slotsFrom.mp hi
    exact absurd h (not_le.mpr hlt)

/-- Behind the first pass the time of the later tasks has gone by. -/
lemma afterFirst_of_lt (h : s.currentTask < i) :
    (afterFirst c s).tasks i = tick (elapsed c s) (s.tasks i) :=
  if_pos (mem_slotsFrom.mpr h)

/-- **A call that gets to its passes**: the first pass selects a task above the current one, or the
second pass selects one, or the last pass goes over what the second left. -/
inductive Call (c : SchedCall) (s : Sched) : Sched × Outcome → Prop
  | first {p q : List (Fin maxTasks)} {k : Fin maxTasks}
      (split : slotsFrom (s.currentTask + 1) = p ++ k :: q)
      (asleep : ∀ j ∈ p, ¬Wakes (elapsed c s) (s.tasks j))
        (wakes : Wakes (elapsed c s) (s.tasks k)) :
      Call c s ((visitAll (elapsed c s) (p ++ [k]) { s with lastTimeMs := int c.timeMs }).select k,
        .selected k false)
  | second {p q : List (Fin maxTasks)} {k : Fin maxTasks}
      (allAsleep : ∀ j, s.currentTask < j → ¬Wakes (elapsed c s) (s.tasks j))
      (split : slotsFrom 0 = p ++ k :: q)
      (asleep : ∀ j ∈ p, ¬Wakes (elapsed c s) ((afterFirst c s).tasks j))
      (wakes : Wakes (elapsed c s) ((afterFirst c s).tasks k)) :
      Call c s ((visitAll (elapsed c s) (p ++ [k]) (afterFirst c s)).select k, .selected k false)
  | last {r : Sched × Outcome}
      (allAsleep : ∀ j, s.currentTask < j → ¬Wakes (elapsed c s) (s.tasks j))
      (asleep : ∀ j, ¬Wakes (elapsed c s) ((afterFirst c s).tasks j))
      (tasks : r.1.tasks = (visitAll (elapsed c s) (slotsFrom 0) (afterFirst c s)).tasks)
      (lastTimeMs : r.1.lastTimeMs = int c.timeMs) (outcome : ∀ i, r.2 ≠ .selected i false) :
      Call c s r

/-- **A call of `schedule`** is one in the sense of `Call`. -/
lemma schedule_call (h : Running c s) : Call c s (schedule c s) := by
  rw [schedule_eq h, switchToNextTask]
  have hfirst := searchSlots_pass (slotsFrom_nodup (s.currentTask + 1)) (elapsed c s)
    { s with lastTimeMs := int c.timeMs }
  generalize searchSlots (elapsed c s) false (slotsFrom (s.currentTask + 1))
    { s with lastTimeMs := int c.timeMs } = r at hfirst
  cases hfirst with
  | some split asleep wakes => exact .first split asleep wakes
  | none allAsleep =>
    have hall : ∀ j, s.currentTask < j → ¬Wakes (elapsed c s) (s.tasks j) := fun j hj =>
      allAsleep j (mem_slotsFrom.mpr hj)
    dsimp only
    rw [← afterFirst, switchToNextTask]
    have hsecond := searchSlots_pass (slotsFrom_nodup 0) (elapsed c s) (afterFirst c s)
    generalize searchSlots (elapsed c s) false (slotsFrom 0) (afterFirst c s) = r at hsecond
    cases hsecond with
    | some split asleep wakes => exact .second hall split asleep wakes
    | none asleep =>
      have hsleep : ∀ j, ¬Wakes (elapsed c s) ((afterFirst c s).tasks j) := fun j =>
        asleep j (mem_slotsFrom.mpr (Nat.zero_le _))
      dsimp only
      rw [switchToNextTask]
      obtain ⟨htasks, htime⟩ := searchSlots_ignoring (elapsed c s) (slotsFrom 0)
        (visitAll (elapsed c s) (slotsFrom 0) (afterFirst c s))
      generalize searchSlots (elapsed c s) true (slotsFrom 0)
        (visitAll (elapsed c s) (slotsFrom 0) (afterFirst c s)) = r at htasks htime
      obtain ⟨s', k⟩ := r
      cases k with
      | none => exact .last hall hsleep htasks htime (by simp)
      | some k => exact .last hall hsleep htasks htime (by simp)

/-- **A call, while a task is ready.** A task is selected that the cyclic search reaches no later
than the ready one, and it does not wait any more. -/
lemma schedule_of_ready (h : Running c s) (hactive : (s.tasks i).active = true)
    (hready : (s.tasks i).waitTime ≤ 0) :
    ∃ k, (schedule c s).2 = .selected k false ∧ (schedule c s).1.currentTask = k
      ∧ ((schedule c s).1.tasks k).waitTime ≤ 0
      ∧ (s.currentTask < k ∧ k ≤ i ∨ i ≤ s.currentTask ∧ (s.currentTask < k ∨ k ≤ i)) := by
  have hwakes : Wakes (elapsed c s) (s.tasks i) := wakes_of_ready _ hactive hready
  have hcall := schedule_call h
  generalize schedule c s = r at hcall
  cases hcall with
  | @first p q k split asleep wakes =>
    obtain ⟨hk, -, hle⟩ := lt_of_split split
    have hck : s.currentTask < k := hk
    refine ⟨k, rfl, rfl, ?_, ?_⟩
    · simpa [visitAll, select] using wakes.2
    · by_cases hci : s.currentTask < i
      · exact .inl ⟨hck, hle i hci fun hp => asleep i hp hwakes⟩
      · exact .inr ⟨not_lt.mp hci, .inl hck⟩
  | @second p q k allAsleep split asleep wakes =>
    have hic : i ≤ s.currentTask := not_lt.mp fun hlt => allAsleep i hlt hwakes
    obtain ⟨-, -, hle⟩ := lt_of_split split
    refine ⟨k, rfl, rfl, ?_, .inr ⟨hic, .inr ?_⟩⟩
    · simpa [visitAll, select] using wakes.2
    · refine hle i (Nat.zero_le _) fun hp => asleep i hp ?_
      rw [afterFirst_of_le hic]
      exact hwakes
  | last allAsleep asleep tasks lastTimeMs outcome =>
    have hic : i ≤ s.currentTask := not_lt.mp fun hlt => allAsleep i hlt hwakes
    exact absurd (afterFirst_of_le hic ▸ hwakes) (asleep i)

/-- The first two passes of a call visit a slot at most once: it is not above the current task, or
some task wakes. -/
def VisitedOnce (c : SchedCall) (i : Fin maxTasks) (s : Sched) : Prop :=
  i ≤ s.currentTask ∨ ∃ k, Wakes (elapsed c s) (s.tasks k)

/-- **A call, seen from one task** that it visits at most once. -/
lemma schedule_of_visitedOnce (h : Running c s) (honce : VisitedOnce c i s) :
    ((schedule c s).1.tasks i = s.tasks i
        ∨ (schedule c s).1.tasks i = tick (elapsed c s) (s.tasks i))
      ∧ ((schedule c s).2 = .selected i false → Wakes (elapsed c s) (s.tasks i)) := by
  have hcall := schedule_call h
  generalize schedule c s = r at hcall
  cases hcall with
  | @first p q k split asleep wakes =>
    refine ⟨?_, fun heq => ?_⟩
    · -- the pass has ticked the slots up to the one that it selects
      by_cases hi : i ∈ p ++ [k]
      · exact .inr (if_pos hi)
      · exact .inl (if_neg hi)
    · obtain rfl : k = i := by simpa using heq
      exact wakes
  | @second p q k allAsleep split asleep wakes =>
    obtain ⟨-, hlt, hle⟩ := lt_of_split split
    by_cases hic : i ≤ s.currentTask
    · have htask : (afterFirst c s).tasks i = s.tasks i := afterFirst_of_le hic
      refine ⟨?_, fun heq => ?_⟩
      · by_cases hi : i ∈ p ++ [k]
        · right
          rw [← htask]
          exact if_pos hi
        · left
          rw [← htask]
          exact if_neg hi
      · obtain rfl : k = i := by simpa using heq
        rw [← htask]
        exact wakes
    · -- some task wakes, and it stands at or below the current one, where this pass ends
      obtain ⟨j, hj⟩ := honce.resolve_left hic
      have hjc : j ≤ s.currentTask := not_lt.mp fun hlt => allAsleep j hlt hj
      have hkj : k ≤ j := hle j (Nat.zero_le _) fun hp => asleep j hp (by
        rw [afterFirst_of_le hjc]
        exact hj)
      have hki : k < i := (hkj.trans hjc).trans_lt (not_le.mp hic)
      have hi : i ∉ p ++ [k] := fun hmem => by
        obtain hmem | hmem := List.mem_append.mp hmem
        · exact absurd (hlt i hmem) (not_lt.mpr hki.le)
        · exact absurd (List.mem_singleton.mp hmem) hki.ne'
      refine ⟨.inr ?_, fun heq => ?_⟩
      · rw [← afterFirst_of_lt (not_le.mp hic)]
        exact if_neg hi
      · exact absurd (by simpa using heq) hki.ne
  | last allAsleep asleep tasks lastTimeMs outcome =>
    -- every task stayed asleep, so the slot was visited in the second pass alone
    have hic : i ≤ s.currentTask := by
      refine honce.resolve_right fun ⟨j, hj⟩ => ?_
      have hjc : j ≤ s.currentTask := not_lt.mp fun hlt => allAsleep j hlt hj
      exact asleep j (by rw [afterFirst_of_le hjc]; exact hj)
    refine ⟨.inr ?_, fun heq => absurd heq (outcome i)⟩
    rw [tasks, ← afterFirst_of_le (c := c) hic]
    exact if_pos (mem_slotsFrom.mpr (Nat.zero_le _))

/-- A call that gets to its passes remembers its time. -/
lemma schedule_lastTimeMs (h : Running c s) : (schedule c s).1.lastTimeMs = int c.timeMs := by
  have hcall := schedule_call h
  generalize schedule c s = r at hcall
  cases hcall with
  | first split asleep wakes => rfl
  | second allAsleep split asleep wakes => rfl
  | last allAsleep asleep tasks lastTimeMs outcome => exact lastTimeMs

/-- A pass that takes no time off a wait time. -/
lemma tick_zero {task : Task} (h : int task.waitTime = task.waitTime) : tick 0 task = task := by
  rw [tick]
  split_ifs
  · rw [sub_zero, h]
  · rfl

/-- A slot after the first pass. -/
lemma afterFirst_of_elapsed_zero (h0 : elapsed c s = 0)
    (h : int (s.tasks i).waitTime = (s.tasks i).waitTime) :
    (afterFirst c s).tasks i = s.tasks i := by
  by_cases hi : i ≤ s.currentTask
  · exact afterFirst_of_le hi
  · rw [afterFirst_of_lt (not_le.mp hi), h0, tick_zero h]

/-- **A call at the time of the last one** leaves the wait times alone, however often it visits a
slot. -/
lemma schedule_of_elapsed_zero (hrun : Running c s) (h0 : elapsed c s = 0)
    (h : int (s.tasks i).waitTime = (s.tasks i).waitTime) :
    (schedule c s).1.tasks i = s.tasks i
      ∧ ((schedule c s).2 = .selected i false → Wakes (elapsed c s) (s.tasks i)) := by
  have hafter := afterFirst_of_elapsed_zero h0 h
  have htick : tick (elapsed c s) (s.tasks i) = s.tasks i := by rw [h0, tick_zero h]
  have hcall := schedule_call hrun
  generalize schedule c s = r at hcall
  cases hcall with
  | @first p q k split asleep wakes =>
    refine ⟨?_, fun heq => ?_⟩
    · simp only [select, visitAll, htick, ite_self]
    · obtain rfl : k = i := by simpa using heq
      exact wakes
  | @second p q k allAsleep split asleep wakes =>
    refine ⟨?_, fun heq => ?_⟩
    · simp only [select, visitAll, hafter, htick, ite_self]
    · obtain rfl : k = i := by simpa using heq
      rw [← hafter]
      exact wakes
  | last allAsleep asleep tasks lastTimeMs outcome =>
    refine ⟨?_, fun heq => absurd heq (outcome i)⟩
    rw [tasks]
    simp only [visitAll, hafter, htick, ite_self]

end Sched

end MicroOS
