import Mikanos.Error
import Mikanos.Task.Message
import Mathlib.Logic.Function.Basic

/-!
# The task manager

Tasks are owned by `tasks_`; the run queues and the table of waiters hold plain
pointers to them.  A pointer is represented by the id of the task it was made
from, so that it can outlive its task.  An operation that would follow a
pointer to a task that `tasks_` no longer owns, or take the front of an empty
queue, has no result (`none`).

Switching contexts moves the processor to `CurrentTask()` and changes nothing
in the manager; the operations below end where the source switches.
-/

namespace Mikanos

/-- The part of a `Task` that the manager reads and writes. -/
structure Task where
  id : Nat
  msgs : List Message
  level : Nat
  running : Bool

/-- `TaskManager::kMaxLevel`. -/
def kMaxLevel : Nat := 3

/-- `Task::kDefaultLevel`. -/
def Task.kDefaultLevel : Nat := 1

structure TaskManager where
  tasks : List Task
  latestId : Nat
  running : Nat → List Nat
  currentLevel : Nat
  levelChanged : Bool
  finishTasks : Nat → Option Int
  finishWaiter : Nat → Option Nat

namespace TaskManager

/-- `Erase`: remove every occurrence of a value from a queue. -/
def erase (queue : List Nat) (value : Nat) : List Nat :=
  queue.filter (· ≠ value)

/-! ## Tasks and queues -/

/-- The task that a pointer or an id refers to, if it is still owned. -/
def task? (m : TaskManager) (p : Nat) : Option Task :=
  m.tasks.find? (·.id = p)

/-- A task that `tasks_` still owns. -/
def Owns (m : TaskManager) (p : Nat) : Prop :=
  p ∈ m.tasks.map Task.id

/-- Update the task that a pointer refers to. -/
def modify (m : TaskManager) (p : Nat) (f : Task → Task) : TaskManager :=
  { m with tasks := m.tasks.map fun t => if t.id = p then f t else t }

def setRunning (m : TaskManager) (p : Nat) (running : Bool) : TaskManager :=
  m.modify p fun t => { t with running }

def setLevel (m : TaskManager) (p level : Nat) : TaskManager :=
  m.modify p fun t => { t with level }

/-- `running_[level] = queue`. -/
def setQueue (m : TaskManager) (level : Nat) (queue : List Nat) : TaskManager :=
  { m with running := Function.update m.running level queue }

def pushBack (m : TaskManager) (level p : Nat) : TaskManager :=
  m.setQueue level (m.running level ++ [p])

def pushFront (m : TaskManager) (level p : Nat) : TaskManager :=
  m.setQueue level (p :: m.running level)

/-- `CurrentTask()`. -/
def currentTask (m : TaskManager) : Option Nat :=
  (m.running m.currentLevel).head?

/-! ## Operations -/

/-- `NewTask()`; the result is the new task. -/
def newTask (m : TaskManager) : TaskManager × Nat :=
  let id := m.latestId + 1
  ({ m with
      latestId := id
      tasks := m.tasks ++ [{ id, msgs := [], level := Task.kDefaultLevel, running := false }] }, id)

/-- The highest level up to `lv` with a non-empty queue. -/
def highestLevel (running : Nat → List Nat) : Nat → Option Nat
  | 0 => if running 0 = [] then none else some 0
  | lv + 1 => if running (lv + 1) = [] then highestLevel running lv else some (lv + 1)

/-- The end of `RotateCurrentRunQueue`: follow a pending level change. -/
def settle (m : TaskManager) : TaskManager :=
  if m.levelChanged then
    { m with
      levelChanged := false
      currentLevel := (highestLevel m.running kMaxLevel).getD m.currentLevel }
  else m

/-- `RotateCurrentRunQueue`; the result is the task that was current. -/
def rotateCurrentRunQueue (m : TaskManager) (currentSleep : Bool) :
    Option (TaskManager × Nat) :=
  match m.running m.currentLevel with
  | [] => none
  | currentTask :: rest =>
      let queue := if currentSleep then rest else rest ++ [currentTask]
      let m := m.setQueue m.currentLevel queue
      let m := if queue = [] then { m with levelChanged := true } else m
      some (m.settle, currentTask)

/-- `SwitchTask`. -/
def switchTask (m : TaskManager) : Option TaskManager :=
  (m.rotateCurrentRunQueue false).map Prod.fst

/-- `Sleep(Task*)`. -/
def sleep (m : TaskManager) (p : Nat) : Option TaskManager := do
  let task ← m.task? p
  if task.running = false then
    return m
  let m := m.setRunning p false
  let front ← m.currentTask
  if p = front then
    (m.rotateCurrentRunQueue true).map Prod.fst
  else
    return m.setQueue task.level (erase (m.running task.level) p)

/-- `ChangeLevelRunning`. -/
def changeLevelRunning (m : TaskManager) (p : Nat) (level : Int) : Option TaskManager := do
  let task ← m.task? p
  if level < 0 ∨ level = task.level then
    return m
  let level := level.toNat
  let front ← m.currentTask
  if p ≠ front then
    let m := m.setQueue task.level (erase (m.running task.level) p)
    let m := (m.pushBack level p).setLevel p level
    return if m.currentLevel < level then { m with levelChanged := true } else m
  else
    let m := m.setQueue m.currentLevel (m.running m.currentLevel).tail
    let m := (m.pushFront level p).setLevel p level
    return if m.currentLevel ≤ level then { m with currentLevel := level }
      else { m with currentLevel := level, levelChanged := true }

/-- `Wakeup(Task*, int)`. -/
def wakeup (m : TaskManager) (p : Nat) (level : Int) : Option TaskManager := do
  let task ← m.task? p
  if task.running then
    m.changeLevelRunning p level
  else
    let level := if level < 0 then task.level else level.toNat
    let m := ((m.setLevel p level).setRunning p true).pushBack level p
    return if m.currentLevel < level then { m with levelChanged := true } else m

/-- `Task::SendMessage`. -/
def taskSendMessage (m : TaskManager) (p : Nat) (msg : Message) : Option TaskManager := do
  let _ ← m.task? p
  (m.modify p fun t => { t with msgs := t.msgs ++ [msg] }).wakeup p (-1)

/-- `Task::ReceiveMessage`; the result is the message taken, if there was one. -/
def receiveMessage (m : TaskManager) (p : Nat) : Option (TaskManager × Option Message) := do
  let task ← m.task? p
  return (m.modify p fun t => { t with msgs := t.msgs.tail }, task.msgs.head?)

/-- Look a task up by its id before an operation, as the overloads that take
an id do. -/
def withId (m : TaskManager) (id : Nat) (op : TaskManager → Option TaskManager) :
    Option (TaskManager × Error) :=
  match m.task? id with
  | none => some (m, .noSuchTask)
  | some _ => (op m).map fun m => (m, .success)

/-- `Sleep(uint64_t)`. -/
def sleepId (m : TaskManager) (id : Nat) : Option (TaskManager × Error) :=
  m.withId id fun m => m.sleep id

/-- `Wakeup(uint64_t, int)`. -/
def wakeupId (m : TaskManager) (id : Nat) (level : Int) : Option (TaskManager × Error) :=
  m.withId id fun m => m.wakeup id level

/-- `TaskManager::SendMessage`. -/
def sendMessage (m : TaskManager) (id : Nat) (msg : Message) : Option (TaskManager × Error) :=
  m.withId id fun m => m.taskSendMessage id msg

/-- `Finish`. -/
def finish (m : TaskManager) (exitCode : Int) : Option TaskManager := do
  let (m, currentTask) ← m.rotateCurrentRunQueue true
  let _ ← m.task? currentTask
  let m := { m with
    tasks := m.tasks.filter (·.id ≠ currentTask)
    finishTasks := Function.update m.finishTasks currentTask (some exitCode) }
  match m.finishWaiter currentTask with
  | some waiter =>
      let m := { m with finishWaiter := Function.update m.finishWaiter currentTask none }
      m.wakeup waiter (-1)
  | none => return m

/-- One round of the loop of `WaitFinish`, run by the current task: the exit
code once there is one, and otherwise the caller goes to sleep. -/
def waitFinishRound (m : TaskManager) (taskId : Nat) : Option (TaskManager × Option Int) := do
  let currentTask ← m.currentTask
  match m.finishTasks taskId with
  | some exitCode =>
      return ({ m with finishTasks := Function.update m.finishTasks taskId none }, some exitCode)
  | none =>
      let m := { m with finishWaiter := Function.update m.finishWaiter taskId (some currentTask) }
      let m ← m.sleep currentTask
      return (m, none)

/-- A manager before its constructor has run. -/
def blank : TaskManager where
  tasks := []
  latestId := 0
  running := fun _ => []
  currentLevel := kMaxLevel
  levelChanged := false
  finishTasks := fun _ => none
  finishWaiter := fun _ => none

/-- The constructor: the task that is running already, and the idle task. -/
def new : TaskManager :=
  let (m, task) := blank.newTask
  let m := ((m.setLevel task m.currentLevel).setRunning task true).pushBack m.currentLevel task
  let (m, idle) := m.newTask
  ((m.setLevel idle 0).setRunning idle true).pushBack 0 idle

end TaskManager

/-- The idle task's id. -/
def idleTask : Nat := 2

end Mikanos
