import Mikanos.Task.Invariant
import Mikanos.Transition.Run

/-!
# Runs of the scheduler

Every operation of the task manager runs with interrupts disabled, so a run is
a sequence of whole operations.  The idle task has to stay runnable: it is
never put to sleep, moved to another level, or finished.
-/

namespace Mikanos

open Mikanos.Transition

namespace TaskManager

/-- An operation of the manager, with its arguments. -/
inductive Operation
  | newTask
  | sleep (id : Nat)
  | wakeup (id : Nat) (level : Int)
  | sendMessage (id : Nat) (msg : Message)
  | switchTask
  | finish (exitCode : Int)

/-- Perform an operation. -/
def step (m : TaskManager) : Operation → Option TaskManager
  | .newTask => some m.newTask.1
  | .sleep id => (m.sleepId id).map Prod.fst
  | .wakeup id level => (m.wakeupId id level).map Prod.fst
  | .sendMessage id msg => (m.sendMessage id msg).map Prod.fst
  | .switchTask => m.switchTask
  | .finish exitCode => m.finish exitCode

/-- The operations that leave the idle task alone and stay within the levels
that exist. -/
def Allowed (m : TaskManager) : Operation → Prop
  | .sleep id => id ≠ idleTask
  | .wakeup id level =>
      -1 ≤ level ∧ level ≤ kMaxLevel ∧ (id = idleTask → level = -1 ∨ level = 0)
  | .finish _ => m.currentTask ≠ some idleTask
  | _ => True

/-- The operations after which the processor runs a task chosen afresh. -/
def Reschedules (m : TaskManager) : Operation → Prop
  | .sleep id => m.currentTask = some id
  | .switchTask => True
  | .finish _ => True
  | _ => False

/-- The operations that wake up another task. -/
def Wakes (m : TaskManager) : Operation → Prop
  | .wakeup id _ => m.currentTask ≠ some id
  | .sendMessage _ _ => True
  | _ => False

/-- What a scheduler needs from its run queues. -/
structure Consistent (m : TaskManager) : Prop where
  /-- a live task is queued once, at its own level, while it is running -/
  placed : ∀ t ∈ m.tasks, ∀ l,
    (m.running l).count t.id = if t.running = true ∧ t.level = l then 1 else 0
  /-- every queued pointer refers to a live task -/
  owned : ∀ l, ∀ p ∈ m.running l, ∃ t ∈ m.tasks, t.id = p
  /-- pointers tell live tasks apart -/
  distinct : (m.tasks.map Task.id).Nodup
  /-- `CurrentTask()` is defined -/
  current : ∃ t ∈ m.tasks, m.currentTask = some t.id
  /-- no level change is missed -/
  settled : m.levelChanged = false → ∀ l, m.currentLevel < l → m.running l = []

/-- The current task's level is the maximum over all running tasks. -/
def RunsHighest (m : TaskManager) : Prop :=
  ∃ current ∈ m.tasks, m.currentTask = some current.id ∧ current.running = true ∧
    ∀ t ∈ m.tasks, t.running = true → t.level ≤ current.level

theorem Inv.consistent {m : TaskManager} (inv : Inv m) : Consistent m where
  placed := fun _ member l => inv.queues.count_eq member l
  owned := fun _ _ queued => inv.queues.owned queued
  distinct := inv.queues.ids_nodup
  current := by
    obtain ⟨p, current⟩ := inv.currentTask_isSome
    obtain ⟨t, found, -⟩ := inv.task?_current current
    obtain ⟨member, rfl⟩ := task?_some found
    exact ⟨t, member, current⟩
  settled := inv.settled

theorem Inv.runsHighest {m : TaskManager} (inv : Inv m) (top : Top m) : RunsHighest m := by
  obtain ⟨p, current⟩ := inv.currentTask_isSome
  obtain ⟨t, found, running, -⟩ := inv.task?_current current
  obtain ⟨member, idEq⟩ := task?_some found
  refine ⟨t, member, idEq ▸ current, running, ?_⟩
  intro other otherMem otherRunning
  exact inv.level_le_current top current found otherMem otherRunning

/-! ## The constructor -/

theorem task?_new (p : Nat) :
    new.task? p =
      if p = 1 then some { id := 1, msgs := [], level := kMaxLevel, running := true }
      else if p = idleTask then some { id := idleTask, msgs := [], level := 0, running := true }
      else none := by
  have tasks : new.tasks =
      [{ id := 1, msgs := [], level := kMaxLevel, running := true },
        { id := idleTask, msgs := [], level := 0, running := true }] := rfl
  rw [task?, tasks]
  by_cases first : p = 1
  · subst first
    rfl
  · by_cases second : p = idleTask
    · subst second
      rfl
    · simp [first, second, Ne.symm first, Ne.symm second]

theorem running_new (l : Nat) :
    new.running l = if l = kMaxLevel then [1] else if l = 0 then [idleTask] else [] := by
  match l with
  | 0 | 1 | 2 | 3 => rfl
  | l + 4 => simp [kMaxLevel]; rfl

/-- The constructor establishes the invariant. -/
theorem Inv.new : Inv new where
  queues := {
    ids_nodup := by decide
    ids_le := by decide
    level_le := by
      intro p t found
      rw [task?_new] at found
      split at found
      · cases found
        exact le_rfl
      · split at found
        · cases found
          exact Nat.zero_le _
        · cases found
    nodup := by
      intro l
      rw [running_new]
      split
      · exact List.nodup_singleton 1
      · split
        · exact List.nodup_singleton idleTask
        · exact List.nodup_nil
    mem_iff := by
      intro l p
      rw [running_new, task?_new]
      by_cases first : p = 1
      · subst first
        by_cases top : l = kMaxLevel
        · simp [top]
        · simp [top, Ne.symm top, idleTask]
      · by_cases second : p = idleTask
        · subst second
          by_cases bottom : l = 0
          · simp [bottom, kMaxLevel, idleTask]
          · simp [bottom, Ne.symm bottom, idleTask]
        · simp only [first, second, if_false, reduceCtorEq, false_and, exists_false, iff_false]
          split
          · simpa using first
          · split
            · simpa using second
            · exact List.not_mem_nil
    idle := ⟨_, rfl, rfl, rfl⟩ }
  current_le := by decide
  current_ne_nil := by decide
  settled := by
    intro _ l above
    have above : kMaxLevel < l := above
    rw [running_new, if_neg (by omega), if_neg (by omega)]

/-! ## Steps and runs -/

/-- The invariant of runs: besides the queues, nobody waits for a task. -/
structure RunInv (m : TaskManager) : Prop where
  inv : Inv m
  waiters : m.finishWaiter = fun _ => none

theorem withId_of_none {m : TaskManager} {id : Nat} (op : TaskManager → Option TaskManager)
    (absent : m.task? id = none) : m.withId id op = some (m, .noSuchTask) := by
  rw [withId, absent]

theorem withId_of_some {m : TaskManager} {id : Nat} {t : Task}
    (op : TaskManager → Option TaskManager) (found : m.task? id = some t) :
    m.withId id op = (op m).map fun m => (m, .success) := by
  rw [withId, found]

/-- One step: an allowed operation has a result, the result is consistent
again, and the current task is kept or chosen as the operation promises. -/
theorem RunInv.step {m : TaskManager} (inv : RunInv m) {op : Operation} (allowed : Allowed m op) :
    ∃ m', m.step op = some m' ∧ RunInv m' ∧ (Reschedules m op → Top m') ∧
      (Wakes m op → m'.currentTask = m.currentTask) := by
  obtain ⟨inv, waiters⟩ := inv
  cases op with
  | newTask => exact ⟨_, rfl, ⟨inv.newTask, waiters⟩, False.elim, False.elim⟩
  | sleep id =>
      cases lookup : m.task? id with
      | none =>
          refine ⟨m, by simp [TaskManager.step, sleepId, withId_of_none _ lookup], ⟨inv, waiters⟩,
            ?_, False.elim⟩
          intro current
          obtain ⟨t, found, -⟩ := inv.task?_current current
          rw [lookup] at found
          cases found
      | some t =>
          obtain ⟨m', slept, inv', top, -, waiters', -⟩ := inv.sleep lookup allowed
          refine ⟨m', ?_, ⟨inv', waiters'.trans waiters⟩, top, False.elim⟩
          simp [TaskManager.step, sleepId, withId_of_some _ lookup, slept]
  | wakeup id level =>
      obtain ⟨lower, upper, idle⟩ := allowed
      cases lookup : m.task? id with
      | none =>
          exact ⟨m, by simp [TaskManager.step, wakeupId, withId_of_none _ lookup],
            ⟨inv, waiters⟩, False.elim, fun _ => rfl⟩
      | some t =>
          obtain ⟨m', woken, inv', current, -, waiters', -⟩ := inv.wakeup level lookup upper (by
            intro isIdle
            rcases idle isIdle with same | zero
            · exact .inl (by omega)
            · exact .inr zero)
          refine ⟨m', ?_, ⟨inv', waiters'.trans waiters⟩, False.elim,
            fun other => current (.inl other)⟩
          simp [TaskManager.step, wakeupId, withId_of_some _ lookup, woken]
  | sendMessage id msg =>
      cases lookup : m.task? id with
      | none =>
          exact ⟨m, by simp [TaskManager.step, TaskManager.sendMessage, withId_of_none _ lookup],
            ⟨inv, waiters⟩, False.elim, fun _ => rfl⟩
      | some t =>
          obtain ⟨m', sent, inv', current, -, waiters', -⟩ := inv.taskSendMessage msg lookup
          refine ⟨m', ?_, ⟨inv', waiters'.trans waiters⟩, False.elim, fun _ => current⟩
          simp [TaskManager.step, TaskManager.sendMessage, withId_of_some _ lookup, sent]
  | switchTask =>
      obtain ⟨m', switched, inv', top, -, waiters', -⟩ := inv.switchTask
      exact ⟨m', switched, ⟨inv', waiters'.trans waiters⟩, fun _ => top, False.elim⟩
  | finish exitCode =>
      obtain ⟨c, current⟩ := inv.currentTask_isSome
      have noWaiter : m.finishWaiter c = none := by rw [waiters]
      obtain ⟨m', finished, inv', top, -, waiters', -⟩ := inv.finish exitCode current
        (by rintro rfl; exact allowed current)
        (by intro w waiting; rw [noWaiter] at waiting; cases waiting)
      refine ⟨m', finished, ⟨inv', ?_⟩, fun _ => top noWaiter, False.elim⟩
      rw [waiters', Function.update_eq_self_iff.mpr noWaiter.symm, waiters]

theorem RunInv.of_run {ops : List Operation} {m : TaskManager}
    (run : Run (guarded (ofFunction TaskManager.step) Allowed) new ops m) : RunInv m := by
  refine run.invariant ?_ ⟨Inv.new, rfl⟩
  rintro source op target inv ⟨allowed, performed⟩
  obtain ⟨m', result, inv', -⟩ := inv.step allowed
  rw [ofFunction_iff, result] at performed
  cases performed
  exact inv'

/-- The scheduler's contract over whole runs: every state reached from the
constructor is consistent, and every operation allowed there has a result after
which the right task is current. -/
theorem consistent_of_run {ops : List Operation} {m : TaskManager}
    (run : Run (guarded (ofFunction step) Allowed) new ops m) :
    Consistent m ∧ ∀ op, Allowed m op → ∃ m', m.step op = some m' ∧
      (Reschedules m op → RunsHighest m') ∧
      (Wakes m op → m'.currentTask = m.currentTask) := by
  have inv := RunInv.of_run run
  refine ⟨inv.inv.consistent, ?_⟩
  intro op allowed
  obtain ⟨m', performed, inv', top, keeps⟩ := inv.step allowed
  exact ⟨m', performed, fun rescheduled => inv'.inv.runsHighest (top rescheduled), keeps⟩

/-- The contract on the run in which the main task starts a third task and goes
to sleep. -/
theorem consistent_of_run_startTask :
    ∃ m, Run (guarded (ofFunction step) Allowed) new [.newTask, .wakeup 3 (-1), .sleep 1] m ∧
      m.currentTask = some 3 ∧ Consistent m ∧ ∀ op, Allowed m op → ∃ m', m.step op = some m' ∧
        (Reschedules m op → RunsHighest m') ∧
        (Wakes m op → m'.currentTask = m.currentTask) := by
  have run : Run (guarded (ofFunction step) Allowed) new [.newTask, .wakeup 3 (-1), .sleep 1] _ :=
    .cons ⟨trivial, rfl⟩ (.cons ⟨⟨by decide, by decide, by decide⟩, rfl⟩
      (.single ⟨show 1 ≠ idleTask by decide, rfl⟩))
  exact ⟨_, run, rfl, consistent_of_run run⟩

end TaskManager

end Mikanos
