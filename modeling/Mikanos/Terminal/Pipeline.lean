import Mikanos.Task.Scheduler
import Mikanos.Terminal.Pipe

/-!
# Pipelines

A terminal that executes `command | subcommand` creates a task for the second
command, hands it the read end of a pipe, and keeps the write end as its own
standard output until `FinishWrite` and `WaitFinish`.  The descriptor holds a
direct reference to the new task.  `noterm` starts a terminal with the whole
descriptor table of the one that runs it, so that references spread further.

A step is one stretch of code that runs with interrupts disabled.  It is a step
of the current task, or an interrupt handler's switch or message.
-/

namespace Mikanos.Terminal

open Mikanos.Memory Mikanos.Transition

/-- Where a terminal is in `ExecuteLine`. -/
inductive Phase
  /-- between two lines -/
  | ready
  /-- the command runs; `original` is the saved standard output, `subtask` the
  other side of a pipeline -/
  | running (original subtask : Option Nat)
  /-- in `WaitFinish(subtask)` -/
  | waiting (original : Option Nat) (subtask : Nat)

/-- All terminals.  Of a descriptor the table records the task that a
`PipeDescriptor` refers to; files and terminals refer to no task. -/
structure Pipeline where
  manager : TaskManager
  phase : Nat → Phase
  files : Nat → Nat → Option Nat

namespace Pipeline

/-- The kernel has just constructed its task manager. -/
def initial : Pipeline where
  manager := .new
  phase := fun _ => .ready
  files := fun _ _ => none

/-- What can happen next. -/
inductive Action
  /-- the main task opens a terminal -/
  | newTerminal
  /-- `ExecuteLine` up to the command, with or without `>` and `|` -/
  | executeLine (redirect piped : Bool)
  /-- `ExecuteLine` returns from a command without a pipe -/
  | lineDone
  /-- the command `noterm` -/
  | noterm
  /-- one round of `Write` on a descriptor -/
  | write (fd : Nat) (data : Mem) (len : Nat)
  /-- one round of the receive loop of `Read` on a descriptor -/
  | read (fd : Nat)
  | finishWrite
  /-- one round of the loop of `WaitFinish` -/
  | waitFinish
  /-- the terminal's task ends -/
  | finish (exitCode : Int)
  /-- the current task goes to sleep until a message arrives -/
  | sleep
  /-- a message to a task that is looked up by its id -/
  | sendMessage (id : Nat) (msg : Message)
  /-- the timer interrupt -/
  | switchTask

variable (s : Pipeline)

def setPhase (c : Nat) (phase : Phase) : Pipeline :=
  { s with phase := Function.update s.phase c phase }

/-- `files_[1] = fd`. -/
def setStdout (c : Nat) (fd : Option Nat) : Pipeline :=
  { s with files := Function.update s.files c (Function.update (s.files c) 1 fd) }

/-- Start a terminal with a given descriptor table; the result is its task. -/
def startTerminal (files : Nat → Nat → Option Nat) : Option (Pipeline × Nat) := do
  let (manager, task) := s.manager.newTask
  let manager ← manager.wakeup task (-1)
  return ({ s with
      manager
      phase := Function.update s.phase task .ready
      files := Function.update s.files task (files task) }, task)

/-- The table of a pipeline's second command: its own pipe, and the output and
error descriptors of the first. -/
def subtaskFiles (c task : Nat) : Nat → Option Nat
  | 0 => some task
  | fd => s.files c fd

/-- `ExecuteLine` up to the command, by the task `c`. -/
def executeLine (c : Nat) (redirect piped : Bool) : Option Pipeline :=
  let original := s.files c 1
  let s := if redirect then s.setStdout c none else s
  if piped then do
    let (s', subtask) ← s.startTerminal (s.subtaskFiles c)
    return (s'.setStdout c (some subtask)).setPhase c (.running original (some subtask))
  else
    some (s.setPhase c (.running original none))

/-- A step of the current task `c`, by the phase it is in. -/
def taskStep (c : Nat) : Phase → Action → Option Pipeline
  | .ready, .executeLine redirect piped => s.executeLine c redirect piped
  | .ready, .finish exitCode => do
      let manager ← s.manager.finish exitCode
      return { s with manager }
  | .ready, .sleep => do
      let manager ← s.manager.sleep c
      return { s with manager }
  | .running _ _, .sleep => do
      let manager ← s.manager.sleep c
      return { s with manager }
  | .running original none, .lineDone => some ((s.setStdout c original).setPhase c .ready)
  | .running _ _, .noterm => do
      let (s, _) ← s.startTerminal fun _ => s.files c
      return s
  | .running _ _, .write fd data len => do
      let task ← s.files c fd
      let manager ← s.manager.taskSendMessage task (.pipe data len)
      return { s with manager }
  | .running _ _, .read fd => do
      let task ← s.files c fd
      let (manager, msg) ← s.manager.receiveMessage task
      match msg with
      | some _ => return { s with manager }
      | none =>
          let manager ← manager.sleep task
          return { s with manager }
  | .running original (some subtask), .finishWrite => do
      let manager ← s.manager.taskSendMessage subtask finishWriteMessage
      return { s with manager }.setPhase c (.waiting original subtask)
  | .waiting original subtask, .waitFinish => do
      let (manager, exitCode) ← s.manager.waitFinishRound subtask
      match exitCode with
      | some _ => return ({ s with manager }.setStdout c original).setPhase c .ready
      | none => return { s with manager }
  | _, _ => none

/-- One step; `none` when the action is not enabled, or when it follows a
reference to a task that has finished.  The idle task does nothing. -/
def next (s : Pipeline) : Action → Option Pipeline
  | .switchTask => do
      let manager ← s.manager.switchTask
      return { s with manager }
  | .sendMessage id msg => do
      let (manager, _) ← s.manager.sendMessage id msg
      return { s with manager }
  | .newTerminal => do
      let (s, _) ← s.startTerminal fun _ _ => none
      return s
  | action => do
      let c ← s.manager.currentTask
      if c = idleTask then none else s.taskStep c (s.phase c) action

/-! ## What must not happen -/

/-- The steps that a task in some phase can take. -/
def EnabledIn (c : Nat) : Phase → Action → Prop
  | .ready, .executeLine _ _ => True
  | .ready, .finish _ => True
  | .ready, .sleep => True
  | .running _ _, .sleep => True
  | .running _ none, .lineDone => True
  | .running _ _, .noterm => True
  | .running _ _, .write fd _ _ => (s.files c fd).isSome
  | .running _ _, .read fd => (s.files c fd).isSome
  | .running _ (some _), .finishWrite => True
  | .waiting _ _, .waitFinish => True
  | _, _ => False

/-- The steps that can happen in a state, whatever becomes of them. -/
def Enabled : Action → Prop
  | .switchTask => True
  | .sendMessage _ _ => True
  | .newTerminal => True
  | action => ∃ c, s.manager.currentTask = some c ∧ c ≠ idleTask ∧
      s.EnabledIn c (s.phase c) action

/-- The task on which a step of the task `c` calls `Task::SendMessage` or
`TaskManager::Wakeup`, apart from tasks that the step itself creates. -/
def target (c : Nat) : Phase → Action → Option Nat
  | .running _ _, .write fd _ _ => s.files c fd
  | .running _ (some subtask), .finishWrite => some subtask
  | .ready, .finish _ => s.manager.finishWaiter c
  | _, _ => none

/-- No finished task is scheduled, and no step is about to touch one. -/
structure NoneDangling : Prop where
  queued : ∀ l, ∀ p ∈ s.manager.running l, s.manager.Owns p
  targets : ∀ action c p, s.Enabled action → s.manager.currentTask = some c →
    s.target c (s.phase c) action = some p → s.manager.Owns p
  defined : ∀ action, s.Enabled action → (s.next action).isSome

/-- `d` can still use a descriptor of the pipe that `r` reads. -/
def Holds (d r : Nat) : Prop :=
  match s.phase d with
  | .ready => ∃ fd, s.files d fd = some r
  | .running original subtask =>
      (∃ fd, s.files d fd = some r) ∨ original = some r ∨ subtask = some r
  | .waiting original _ => original = some r ∨ ∃ fd, fd ≠ 1 ∧ s.files d fd = some r

/-- A task finishes only when no other task can still use a descriptor of its
pipe. -/
def FinishesAlone : Action → Prop
  | .finish _ => ∀ c, s.manager.currentTask = some c →
      ∀ d, d ≠ c → s.manager.Owns d → ¬ s.Holds d c
  | _ => True

end Pipeline

end Mikanos.Terminal
