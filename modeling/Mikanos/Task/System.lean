import Mikanos.Task.Effects
import Mikanos.Transition.Run

/-!
# Tasks that wait, send and receive

The whole operations of the manager, together with the loops that tasks run around
them: the rounds of `WaitFinish`, and the loop in which a task receives its messages
with interrupts disabled.  Beside the manager a state records who is in `WaitFinish`,
which exit codes were passed and returned, and which messages were sent and received.
-/

namespace Mikanos

open Transition

/-- The manager, and what has happened so far. -/
structure Tasks where
  manager : TaskManager
  /-- the task that a task waits for in `WaitFinish` -/
  waiting : Nat → Option Nat
  /-- the exit code that a task has passed to `Finish` -/
  finished : Nat → Option Int
  /-- what `WaitFinish` has returned, and for which task -/
  returned : List (Nat × Int)
  /-- the messages sent to a task -/
  sent : Nat → List Message
  /-- the messages that a task has received -/
  received : Nat → List Message

namespace Tasks

/-- After the constructor of the manager. -/
def initial : Tasks where
  manager := TaskManager.new
  waiting := fun _ => none
  finished := fun _ => none
  returned := []
  sent := fun _ => []
  received := fun _ => []

/-- What can happen next. -/
inductive Action
  | newTask
  | sleep (id : Nat)
  | wakeup (id : Nat) (level : Int)
  /-- `TaskManager::SendMessage`, by a task or an interrupt handler -/
  | sendMessage (id : Nat) (msg : Message)
  /-- the current task receives a message, or goes to sleep if there is none -/
  | receiveOrSleep
  | switchTask
  | finish (exitCode : Int)
  /-- the current task calls `WaitFinish` -/
  | waitFinish (taskId : Nat)
  /-- the current task goes on in `WaitFinish` -/
  | resume

variable (s : Tasks)

/-- One round of `WaitFinish`. -/
def waitRound : Option Tasks := do
  let c ← s.manager.currentTask
  let taskId ← s.waiting c
  let (manager, result) ← s.manager.waitFinishRound taskId
  match result with
  | none => some { s with manager }
  | some exitCode => some { s with
      manager
      waiting := Function.update s.waiting c none
      returned := s.returned ++ [(taskId, exitCode)] }

/-- `SendMessage`, with its result. -/
def sendMessage (id : Nat) (msg : Message) : Option (Tasks × Error) := do
  let (manager, err) ← s.manager.sendMessage id msg
  match err with
  | .success => some ({ s with
      manager, sent := Function.update s.sent id (s.sent id ++ [msg]) }, err)
  | _ => some ({ s with manager }, err)

/-- One round of a receive loop. -/
def receiveOrSleep : Option Tasks := do
  let c ← s.manager.currentTask
  let (manager, msg) ← s.manager.receiveMessage c
  match msg with
  | none => (manager.sleep c).map fun manager => { s with manager }
  | some msg => some { s with
      manager, received := Function.update s.received c (s.received c ++ [msg]) }

/-- One step. -/
def step : Action → Option Tasks
  | .newTask => some { s with manager := s.manager.newTask.1 }
  | .sleep id => (s.manager.sleepId id).map fun result => { s with manager := result.1 }
  | .wakeup id level => (s.manager.wakeupId id level).map fun result => { s with manager := result.1 }
  | .sendMessage id msg => (s.sendMessage id msg).map Prod.fst
  | .receiveOrSleep => s.receiveOrSleep
  | .switchTask => s.manager.switchTask.map fun manager => { s with manager }
  | .finish exitCode => do
      let c ← s.manager.currentTask
      let manager ← s.manager.finish exitCode
      some { s with manager, finished := Function.update s.finished c (some exitCode) }
  | .waitFinish taskId => do
      let c ← s.manager.currentTask
      { s with waiting := Function.update s.waiting c (some taskId) }.waitRound
  | .resume => s.waitRound

/-- The current task is neither the idle task nor in `WaitFinish`. -/
def Free : Prop :=
  ∀ c, s.manager.currentTask = some c → c ≠ idleTask ∧ s.waiting c = none

/-- The steps of the tasks: the idle task does nothing but run, a task in `WaitFinish`
goes to sleep there only, and no two tasks wait for the same one. -/
def Allowed : Action → Prop
  | .sleep id => id ≠ idleTask ∧ s.waiting id = none
  | .wakeup id level => level ≤ kMaxLevel ∧ (id = idleTask → level ≤ 0)
  | .receiveOrSleep => s.Free
  | .finish _ => s.Free
  | .waitFinish taskId => s.Free ∧ ∀ w, s.waiting w ≠ some taskId
  | .resume => ∃ c taskId, s.manager.currentTask = some c ∧ s.waiting c = some taskId
  | _ => True

/-- A step that is allowed. -/
abbrev Next : Step Tasks Action :=
  guarded (ofFunction step) Allowed

end Tasks
end Mikanos
