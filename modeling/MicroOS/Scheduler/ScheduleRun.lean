import MicroOS.Scheduler.Schedule

/-!
Runs of the scheduler: calls of `schedule`, and what other code does to the task table in between.

* `SchedEvent`, `Sched.run`, `Sched.selections`: a run and the tasks it selects;
* `round_robin`: while a task is ready, no other task is selected twice without it;
* `not_early`: a sleeping task does not wake early when no call reduces its wait time twice;
* `woken_early`: a call that does so wakes it early.
-/

namespace MicroOS

open CInt Run

/-- A call of `schedule`, or a change of the task table by `init_task`, `exit_task` or a system
call; these keep `current_task` and `last_time_ms`. -/
inductive SchedEvent where
  | call (c : SchedCall)
  | change (tasks : Tasks) (isSchedulerRunning : Bool)

namespace Sched

/-- The state after an event. -/
def after (s : Sched) : SchedEvent → Sched
  | .call c => (schedule c s).1
  | .change tasks isSchedulerRunning => { s with tasks, isSchedulerRunning }

/-- The state after a run. -/
def run (s : Sched) (es : List SchedEvent) : Sched := es.foldl after s

/-- The tasks that the calls of a run select, in order. -/
def selections (s : Sched) : List SchedEvent → List (Fin maxTasks)
  | [] => []
  | .call c :: es =>
    match (schedule c s).2 with
    | .selected k _ => k :: (schedule c s).1.selections es
    | _ => (schedule c s).1.selections es
  | .change tasks isSchedulerRunning :: es =>
    ({ s with tasks, isSchedulerRunning } : Sched).selections es

/-- The task is active and does not wait, at a call that gets to its passes. -/
structure Ready (i : Fin maxTasks) (s : Sched) (c : SchedCall) : Prop where
  running : Running c s
  active : (s.tasks i).active = true
  waitTime : (s.tasks i).waitTime ≤ 0

/-- What holds at every call of a run. -/
def AtCalls (P : Sched → SchedCall → Prop) (s : Sched) (es : List SchedEvent) : Prop :=
  ∀ l c r, es = l ++ .call c :: r → P (s.run l) c

variable {s : Sched} {e : SchedEvent} {es : List SchedEvent} {P : Sched → SchedCall → Prop}
  {i j : Fin maxTasks}

lemma AtCalls.head {c : SchedCall} (h : AtCalls P s (.call c :: es)) : P s c := h [] c es rfl

lemma AtCalls.tail (h : AtCalls P s (e :: es)) : AtCalls P (s.after e) es := fun l c r heq =>
  h (e :: l) c r (by rw [heq, List.cons_append])

/-- It holds at a call and at those behind it. -/
lemma AtCalls.call {c : SchedCall} (h : P s c) (htail : AtCalls P (s.after (.call c)) es) :
    AtCalls P s (.call c :: es) := by
  intro l c' r heq
  cases l with
  | nil =>
    obtain ⟨he, -⟩ := List.cons.inj heq
    obtain rfl := SchedEvent.call.inj he
    exact h
  | cons e l =>
    obtain ⟨rfl, htl⟩ := List.cons.inj heq
    exact htail l c' r htl

/-- A change is no call. -/
lemma AtCalls.change {tasks : Tasks} {b : Bool} (h : AtCalls P (s.after (.change tasks b)) es) :
    AtCalls P s (.change tasks b :: es) := by
  intro l c' r heq
  cases l with
  | nil => exact absurd (List.cons.inj heq).1 (by simp)
  | cons e l =>
    obtain ⟨rfl, htl⟩ := List.cons.inj heq
    exact h l c' r htl

lemma AtCalls.nil : AtCalls P s [] := fun l c r heq => absurd heq (by simp)

/-! ### No overtaking -/

/-- How many slots the cyclic search passes from one slot to another. -/
def distance (c i : Fin maxTasks) : ℕ := (i.val + maxTasks - c.val) % maxTasks

/-- What a call selects while a task is ready is nearer to that task. -/
lemma distance_lt {c k : Fin maxTasks} (h : c < k ∧ k ≤ i ∨ i ≤ c ∧ (c < k ∨ k ≤ i)) :
    distance k i < distance c i ∨ c = i := by
  rw [or_iff_not_imp_right]
  intro hne
  have hne : c.val ≠ i.val := fun heq => hne (Fin.ext heq)
  have hc : c.val < 32 := c.isLt
  have hk : k.val < 32 := k.isLt
  have hi : i.val < 32 := i.isLt
  simp only [Fin.lt_def, Fin.le_def] at h
  simp only [distance, maxTasks]
  omega

/-- A ready task, and every call selects. -/
lemma Ready.selects {c : SchedCall} (h : Ready i s c) (es : List SchedEvent) :
    ∃ k, s.selections (.call c :: es) = k :: (s.after (.call c)).selections es
      ∧ (s.after (.call c)).currentTask = k
      ∧ (distance k i < distance s.currentTask i ∨ s.currentTask = i) := by
  obtain ⟨k, hout, hcur, -, hk⟩ := schedule_of_ready h.running h.active h.waitTime
  refine ⟨k, ?_, hcur, distance_lt hk⟩
  rw [selections, hout]
  rfl

/-- The tasks that are selected before a ready one are nearer and nearer to it. -/
lemma distance_selections (h : AtCalls (Ready i) s es) {m r : List (Fin maxTasks)}
    (hsel : s.selections es = m ++ j :: r) (hi : i ∉ m) :
    distance j i < distance s.currentTask i ∨ s.currentTask = i := by
  induction es generalizing s m with
  | nil => exact absurd hsel (by simp [selections])
  | cons e es ih =>
    cases e with
    | change tasks b => exact ih (s := s.after (.change tasks b)) h.tail hsel hi
    | call c =>
      obtain ⟨k, hk, hcur, hdist⟩ := h.head.selects es
      rw [hk] at hsel
      cases m with
      | nil =>
        obtain ⟨rfl, -⟩ := List.cons.inj hsel
        exact hdist
      | cons k' m =>
        obtain ⟨rfl, htail⟩ := List.cons.inj hsel
        rw [List.mem_cons, not_or] at hi
        have hnear := ih h.tail htail hi.2
        rw [hcur] at hnear
        have hlt := hnear.resolve_right (Ne.symm hi.1)
        exact hdist.imp_left hlt.trans

/-- The run from the selection of a task on. -/
lemma exists_selected (h : AtCalls (Ready i) s es) {l t : List (Fin maxTasks)}
    (hsel : s.selections es = l ++ j :: t) :
    ∃ s' es', AtCalls (Ready i) s' es' ∧ s'.currentTask = j ∧ s'.selections es' = t := by
  induction es generalizing s l with
  | nil => exact absurd hsel (by simp [selections])
  | cons e es ih =>
    cases e with
    | change tasks b => exact ih (s := s.after (.change tasks b)) h.tail hsel
    | call c =>
      obtain ⟨k, hk, hcur, -⟩ := h.head.selects es
      rw [hk] at hsel
      cases l with
      | nil =>
        obtain ⟨rfl, htail⟩ := List.cons.inj hsel
        exact ⟨_, es, h.tail, hcur, htail⟩
      | cons k' l =>
        obtain ⟨-, htail⟩ := List.cons.inj hsel
        exact ih h.tail htail

/-- **Round robin without overtaking.** In a run in which a task is ready at every call, between
two selections of another task that task is selected; and no call selects a task that still waits
after the call. -/
theorem round_robin (i : Fin maxTasks) (s : Sched) (es : List SchedEvent)
    (h : AtCalls (Ready i) s es) :
    (∀ j l m r, j ≠ i → s.selections es = l ++ j :: m ++ j :: r → i ∈ m)
      ∧ AtCalls (fun s c => ∃ k, (schedule c s).2 = .selected k false
          ∧ ((schedule c s).1.tasks k).waitTime ≤ 0) s es := by
  constructor
  · intro j l m r hj hsel
    by_contra hi
    rw [List.append_assoc, List.cons_append] at hsel
    obtain ⟨s', es', h', hcur, hsel'⟩ := exists_selected h hsel
    have hnear := distance_selections h' hsel' hi
    rw [hcur] at hnear
    exact hnear.elim (lt_irrefl _) hj
  · intro l c r heq
    obtain ⟨hrunning, hactive, hwait⟩ := h l c r heq
    obtain ⟨k, hout, -, hk, -⟩ := schedule_of_ready hrunning hactive hwait
    exact ⟨k, hout, hk⟩

/-- A table of two tasks with the given wait time; the first is the current one. -/
def twoTasks (waitTime : ℤ) : Sched where
  tasks := fun i => if i.val < 2 then { Task.zero with active := true, waitTime } else .zero
  currentTask := 0
  lastTimeMs := 0
  isSchedulerRunning := true
  activeContext := 0

/-- A call on the boot processor. -/
def bspCall (timeMs : ℤ) : SchedCall := ⟨0, 0, 1, timeMs⟩

/-- Two ready tasks take turns. -/
theorem round_robin_two :
    (twoTasks 0).selections [.call (bspCall 5), .call (bspCall 10), .call (bspCall 15)] = [1, 0, 1]
      ∧ ∀ j l m r, j ≠ 0 →
        (twoTasks 0).selections [.call (bspCall 5), .call (bspCall 10), .call (bspCall 15)]
          = l ++ j :: m ++ j :: r → 0 ∈ m := by
  refine ⟨by decide +kernel, (round_robin 0 _ _ (.call ?_ (.call ?_ (.call ?_ .nil)))).1⟩
  · exact ⟨⟨rfl, rfl, by decide⟩, rfl, by decide⟩
  · exact ⟨⟨by decide +kernel, rfl, by decide +kernel⟩, by decide +kernel, by decide +kernel⟩
  · exact ⟨⟨by decide +kernel, rfl, by decide +kernel⟩, by decide +kernel, by decide +kernel⟩

/-! ### Sleeping -/

/-- The timer readings of a run, in order. -/
def times (es : List SchedEvent) : List ℤ :=
  es.filterMap fun
    | .call c => some c.timeMs
    | .change _ _ => none

/-- The other events of a run leave the wait time of a task alone. -/
def KeepsWaitTime (i : Fin maxTasks) (s : Sched) (es : List SchedEvent) : Prop :=
  ∀ l tasks b r, es = l ++ .change tasks b :: r → (tasks i).waitTime = ((s.run l).tasks i).waitTime

lemma KeepsWaitTime.tail (h : KeepsWaitTime i s (e :: es)) : KeepsWaitTime i (s.after e) es :=
  fun l tasks b r heq => h (e :: l) tasks b r (by rw [heq, List.cons_append])

/-- A task that was set to wait `w` at time `t` still waits as long as it should, when the last call
that got to its passes was at time `T`. -/
structure Asleep (i : Fin maxTasks) (t w T : ℤ) (s : Sched) : Prop where
  lastTimeMs : s.lastTimeMs = int T
  le : t ≤ T
  waits : T < t + w → t + w - T ≤ (s.tasks i).waitTime ∧ (s.tasks i).waitTime ≤ w

variable {t w T : ℤ} {c : SchedCall}

/-- A call that takes time off a wait time at most once before the time is up does not wake the
task. -/
lemma Asleep.call (h : Asleep i t w T s) (hw : w ≤ intMax) (hT : T ≤ c.timeMs)
    (hrunning : Running c s)
    (htask : (schedule c s).1.tasks i = s.tasks i
      ∨ (schedule c s).1.tasks i = tick (elapsed c s) (s.tasks i))
    (hwakes : (schedule c s).2 = .selected i false → Wakes (elapsed c s) (s.tasks i)) :
    Asleep i t w c.timeMs (schedule c s).1
      ∧ (c.timeMs < t + w → (schedule c s).2 ≠ .selected i false) := by
  have hle := h.le
  have hmax : intMax = 2147483647 := rfl
  have helapsed : c.timeMs < t + w → elapsed c s = c.timeMs - T := fun hlt => by
    rw [elapsed, h.lastTimeMs, int_sub_int]
    exact int_of_mem (by omega) (by omega)
  have htick : c.timeMs < t + w →
      t + w - c.timeMs ≤ (tick (elapsed c s) (s.tasks i)).waitTime
        ∧ (tick (elapsed c s) (s.tasks i)).waitTime ≤ w := fun hlt => by
    obtain ⟨hlo, hhi⟩ := h.waits (by omega)
    rw [tick]
    split_ifs with hwaiting
    · dsimp only
      rw [helapsed hlt, int_of_mem (by omega) (by omega)]
      omega
    · omega
  refine ⟨⟨schedule_lastTimeMs hrunning, hle.trans hT, fun hlt => ?_⟩, fun hlt hout => ?_⟩
  · obtain hsame | hticked := htask
    · obtain ⟨hlo, hhi⟩ := h.waits (by omega)
      rw [hsame]
      omega
    · rw [hticked]
      exact htick hlt
  · have hpos := (htick hlt).1
    have hneg := (hwakes hout).2
    omega

/-- No wait time is reduced twice by a call: it visits the slot at most once, or no time has
elapsed. -/
def ReducedOnce (c : SchedCall) (i : Fin maxTasks) (s : Sched) : Prop :=
  elapsed c s = 0 ∨ VisitedOnce c i s

/-- **A call before the time is up** does not wake the task. -/
lemma Asleep.reduced (h : Asleep i t w T s) (hw : w ≤ intMax) (hT : T ≤ c.timeMs)
    (hrunning : Running c s) (honce : ReducedOnce c i s) :
    Asleep i t w c.timeMs (schedule c s).1
      ∧ (c.timeMs < t + w → (schedule c s).2 ≠ .selected i false) := by
  by_cases hTw : T < t + w
  · obtain h0 | honce := honce
    · obtain ⟨hlo, hhi⟩ := h.waits hTw
      have hint : int (s.tasks i).waitTime = (s.tasks i).waitTime :=
        int_of_mem (by omega) (hhi.trans hw)
      obtain ⟨htask, hwakes⟩ := schedule_of_elapsed_zero hrunning h0 hint
      exact h.call hw hT hrunning (.inl htask) hwakes
    · obtain ⟨htask, hwakes⟩ := schedule_of_visitedOnce hrunning honce
      exact h.call hw hT hrunning htask hwakes
  · have hle := h.le
    exact ⟨⟨schedule_lastTimeMs hrunning, hle.trans hT, fun hlt => by omega⟩, fun hlt => by omega⟩

/-- What happens between two calls. -/
lemma Asleep.change {tasks : Tasks} {b : Bool} (h : Asleep i t w T s)
    (hkeep : (tasks i).waitTime = (s.tasks i).waitTime) :
    Asleep i t w T (s.after (.change tasks b)) := by
  refine ⟨h.lastTimeMs, h.le, ?_⟩
  have hsame : ((s.after (.change tasks b)).tasks i).waitTime = (s.tasks i).waitTime := hkeep
  rw [hsame]
  exact h.waits

/-- **The runs of a sleeping task.** -/
lemma Asleep.run (h : Asleep i t w T s) (hw : w ≤ intMax)
    (hmono : (T :: times es).Pairwise (· ≤ ·)) (hkeep : KeepsWaitTime i s es)
    (honce : AtCalls (fun s c => Running c s → ReducedOnce c i s) s es) :
    AtCalls (fun s c => c.timeMs < t + w → (schedule c s).2 ≠ .selected i false) s es := by
  induction es generalizing s T with
  | nil => exact .nil
  | cons e es ih =>
    cases e with
    | change tasks b =>
      exact .change (ih (h.change (hkeep [] tasks b es rfl)) hmono hkeep.tail honce.tail)
    | call c =>
      have htimes : times (.call c :: es) = c.timeMs :: times es := rfl
      rw [htimes, List.pairwise_cons, List.pairwise_cons] at hmono
      obtain ⟨hT, hc, hes⟩ := hmono
      have hTc : T ≤ c.timeMs := hT _ List.mem_cons_self
      by_cases hrunning : Running c s
      · obtain ⟨hnext, hout⟩ := h.reduced hw hTc hrunning (honce.head hrunning)
        exact .call hout (ih hnext (List.pairwise_cons.mpr ⟨hc, hes⟩) hkeep.tail honce.tail)
      · obtain ⟨hsame, hout⟩ := schedule_of_not_running hrunning
        have hnext : Asleep i t w T (s.after (.call c)) := by
          rw [after, hsame]
          exact h
        refine .call (fun _ => hout i false) (ih hnext ?_ hkeep.tail honce.tail)
        exact List.pairwise_cons.mpr ⟨fun x hx => hT x (List.mem_cons_of_mem _ hx), hes⟩

/-- **Sleeping tasks do not wake early** in a run whose calls reduce its wait time at most once: a
task set to wait `w` at time `t` is not selected, by a pass that heeds wait times, before `t
+ w`. -/
theorem not_early (i : Fin maxTasks) (t w : ℤ) (s : Sched) (es : List SchedEvent)
    (hlast : s.lastTimeMs = int t) (hwait : (s.tasks i).waitTime = w) (hw : w ≤ intMax)
    (hmono : (t :: times es).Pairwise (· ≤ ·)) (hkeep : KeepsWaitTime i s es)
    (honce : AtCalls (fun s c => Running c s → ReducedOnce c i s) s es) :
    AtCalls (fun s c => c.timeMs < t + w → (schedule c s).2 ≠ .selected i false) s es := by
  have hasleep : Asleep i t w t s := ⟨hlast, le_refl t, fun _ => by omega⟩
  exact hasleep.run hw hmono hkeep honce

/-- The second of two tasks sleeps while the first is ready. -/
theorem not_early_two :
    AtCalls (fun s c => c.timeMs < 0 + 100 → (schedule c s).2 ≠ .selected 1 false)
      (twoTasks 100) [.change (Function.update (twoTasks 100).tasks 0
        { Task.zero with active := true }) true, .call (bspCall 60)] := by
  refine not_early 1 0 100 _ _ rfl rfl (by decide) (by decide) ?_ (.change (.call ?_ .nil))
  · intro l tasks b r heq
    cases l with
    | nil =>
      obtain ⟨he, -⟩ := List.cons.inj heq
      obtain ⟨rfl, -⟩ := SchedEvent.change.inj he
      rfl
    | cons e l => exact absurd heq (by cases l <;> simp)
  · exact fun _ => .inr (.inr ⟨0, by decide +kernel⟩)

/-- **Two tasks that wait for 100 ms.** After 60 ms the second is woken: the first pass takes 60 ms
off its wait time, and so does the second pass. -/
theorem woken_early :
    (twoTasks 100).lastTimeMs = int 0 ∧ ((twoTasks 100).tasks 1).waitTime = 100
      ∧ (bspCall 60).timeMs < 0 + 100
      ∧ (schedule (bspCall 60) (twoTasks 100)).2 = .selected 1 false := by
  decide +kernel

end Sched

end MicroOS
