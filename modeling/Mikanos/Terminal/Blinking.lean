import Mikanos.Syscall.AppEvent
import Mikanos.Terminal.Pipe
import Mikanos.Timer.Firing
import Mikanos.Transition.Run

/-!
# The timer of the cursor

The cursor of a terminal blinks as long as every timeout of its timer makes the main
loop of `TaskTerminal` add the next timer.  The main loop is not the only one that
takes messages out of the queue of the terminal's task: `ReadEvent` does, for the
application that the terminal runs, and so do the descriptors that receive what they
read, for whoever holds them.  These loops drop the timeouts that they do not know,
and the main loop adds a timer for every timeout, also for one of an application.
-/

namespace Mikanos

open Transition Terminal

namespace Message

/-- A timeout of the timer of the cursor. -/
def isBlink : Message → Bool
  | timerTimeout _ value => value = 1
  | _ => false

/-- A timeout of a timer. -/
def isTimeout : Message → Bool
  | timerTimeout _ _ => true
  | _ => false

end Message

/-- A call of `Read` in the loop that waits for a message, on a
`TerminalFileDescriptor` or on a `PipeDescriptor` whose task is the terminal's. -/
inductive Reader
  | terminal
  | pipe (fd : PipeDescriptor) (len : Nat)

/-- One round of the loop: how it goes on, or `none` when `Read` returns. -/
def Reader.receive : Reader → Message → Option Reader
  | .terminal, .keyPush modifier keycode _ press =>
      if press = 0 then some .terminal
      else if modifier &&& controlBitMask ≠ 0 then
        -- Ctrl+D
        if keycode = 7 then none else some .terminal
      else none
  | .terminal, _ => some .terminal
  | .pipe fd len, message =>
      if (fd.receive len message).isSome then none else some (.pipe fd len)

/-- Where the task of a terminal is. -/
inductive TerminalPhase
  /-- the main loop, at `ReceiveMessage` -/
  | receiving
  /-- the main loop, at the call of `add_blink_timer` for a timeout -/
  | timeout (timeout : Nat) (value : Int)
  /-- `InputKey`, and the command and the application that it runs -/
  | inputKey
  /-- the loop of `ReadEvent`, called by that application -/
  | readEvent (len : Nat) (events : List AppEvent)
  /-- `Finish`: the task is gone, and its queue with it -/
  | finished
  deriving DecidableEq

/-- A terminal task with its queue, the calls of `Read` that wait for its messages,
and the timers of all tasks. -/
structure BlinkingTerminal (pq : PriorityQueue Timer Timer.Less) where
  manager : TimerManager pq
  msgs : List Message
  phase : TerminalPhase
  readers : List Reader

namespace BlinkingTerminal

variable {pq : PriorityQueue Timer Timer.Less}

/-- What can happen. -/
inductive Action
  /-- the timer interrupt calls `Tick` -/
  | tick
  /-- a timer is added for another task -/
  | addTimer (timer : Timer)
  /-- a message other than a timeout is sent to the terminal -/
  | send (message : Message)
  /-- the main loop receives a message -/
  | receive
  /-- the main loop calls `add_blink_timer` -/
  | addBlinkTimer
  /-- the application calls `CreateTimer` -/
  | createTimer (arg1 arg2 arg3 : Nat)
  /-- the application calls `ReadEvent` -/
  | readEvent (len : Nat)
  /-- `ReadEvent` receives a message, or returns because there is no more -/
  | receiveEvent
  /-- a descriptor begins to wait for messages -/
  | read (reader : Reader)
  /-- one of the descriptors that wait receives a message -/
  | receiveRead (i : Nat)
  /-- `InputKey` returns -/
  | returns

/-- What the main loop does next, when it has received a message. -/
def dispatch : Message → TerminalPhase
  | .timerTimeout timeout value => .timeout timeout value
  | .keyPush _ _ _ press => if press ≠ 0 then .inputKey else .receiving
  | .windowClose _ => .finished
  | _ => .receiving

/-- The timer of the cursor. -/
def blinkTimer (id t : Nat) : Timer :=
  ⟨(t + kTimerFreq / 2) % 2 ^ 64, 1, id⟩

/-- The messages among those sent by `Tick` that are for a task. -/
def inbox (id : Nat) (sent : List (Nat × Message)) : List Message :=
  (sent.filter fun sending => sending.1 = id).map Prod.snd

/-- One step of the system for the terminal whose task is `id`. -/
def step (id : Nat) (s : BlinkingTerminal pq) : Action → Option (BlinkingTerminal pq)
  | .tick =>
      match s.manager.runTick with
      | .done timers _ sent => some { s with
          manager := { tick := (s.manager.tick + 1) % 2 ^ 64, timers }
          msgs := s.msgs ++ inbox id sent }
      | .emptyTop => none
      | .outOfFuel => none
  | .addTimer timer =>
      if timer.taskId ≠ id then some { s with manager := s.manager.addTimer timer } else none
  | .send message =>
      if message.isTimeout then none else some { s with msgs := s.msgs ++ [message] }
  | .receive =>
      match s.phase, s.msgs with
      | .receiving, message :: rest => some { s with msgs := rest, phase := dispatch message }
      | _, _ => none
  | .addBlinkTimer =>
      match s.phase with
      | .timeout timeout _ => some { s with
          manager := s.manager.addTimer (blinkTimer id timeout)
          phase := .receiving }
      | _ => none
  | .createTimer arg1 arg2 arg3 =>
      match s.phase, Mikanos.createTimer s.manager.tick arg1 arg2 arg3 id with
      | .inputKey, some created => some { s with manager := s.manager.addTimer created.1 }
      | .inputKey, none => some s
      | _, _ => none
  | .readEvent len =>
      match s.phase with
      | .inputKey => some (if len = 0 then s else { s with phase := .readEvent len [] })
      | _ => none
  | .receiveEvent =>
      match s.phase, s.msgs with
      | .readEvent len events, message :: rest =>
          let events := events ++ (AppEvent.ofMessage message).toList
          some { s with
            msgs := rest
            phase := if events.length < len then .readEvent len events else .inputKey }
      | .readEvent _ (_ :: _), [] => some { s with phase := .inputKey }
      | _, _ => none
  | .read reader => some { s with readers := s.readers ++ [reader] }
  | .receiveRead i =>
      match s.phase, s.readers[i]?, s.msgs with
      | .finished, _, _ => none
      | _, some reader, message :: rest => some { s with
          msgs := rest
          readers := s.readers.take i ++ (reader.receive message).toList ++ s.readers.drop (i + 1) }
      | _, _, _ => none
  | .returns =>
      match s.phase with
      | .inputKey => some { s with phase := .receiving }
      | _ => none

/-- A timer of the cursor. -/
def IsBlink (id : Nat) (t : Timer) : Prop :=
  t.value = 1 ∧ t.taskId = id

instance (id : Nat) : DecidablePred (IsBlink id) :=
  fun _ => inferInstanceAs (Decidable (_ ∧ _))

/-- The number of timers of the cursor that the main loop is about to replace. -/
def handled : TerminalPhase → Nat
  | .timeout _ value => if value = 1 then 1 else 0
  | _ => 0

/-- The number of timers of the cursor: those that are pending, those whose timeouts are
in the queue, and the one that is being handled. -/
def blinks (id : Nat) (s : BlinkingTerminal pq) : Nat :=
  (pq.elems s.manager.timers).countP (IsBlink id) + s.msgs.countP Message.isBlink + handled s.phase

/-- A terminal that has not finished has exactly one timer for its cursor. -/
def OneBlink (id : Nat) (s : BlinkingTerminal pq) : Prop :=
  s.phase ≠ .finished → s.blinks id = 1

/-- `add_blink_timer` is called for a timeout of the timer of the cursor, and the other
loops do not take such a timeout out of the queue. -/
def Keeps (s : BlinkingTerminal pq) : Action → Prop
  | .addBlinkTimer => handled s.phase = 1
  | .receiveEvent => ∀ message ∈ s.msgs.head?, message.isBlink = false
  | .receiveRead _ => ∀ message ∈ s.msgs.head?, message.isBlink = false
  | _ => True

instance (s : BlinkingTerminal pq) : ∀ action, Decidable (s.Keeps action)
  | .tick | .addTimer _ | .send _ | .receive | .createTimer _ _ _ | .readEvent _ | .read _
  | .returns => inferInstanceAs (Decidable True)
  | .addBlinkTimer => inferInstanceAs (Decidable (_ = _))
  | .receiveEvent | .receiveRead _ => inferInstanceAs (Decidable (∀ message ∈ _, _ = _))

/-- `TaskTerminal` has called `add_blink_timer` for the first time. -/
structure Starts (id : Nat) (s : BlinkingTerminal pq) : Prop where
  phase : s.phase = .receiving
  added : ∃ (m : TimerManager pq) (t : Nat), s.manager = m.addTimer (blinkTimer id t) ∧
    ∀ timer ∈ pq.elems m.timers, ¬ IsBlink id timer
  msgs : ∀ message ∈ s.msgs, message.isBlink = false

/-! ## What a step does to the timers of the cursor -/

variable {id : Nat} {s s' start : BlinkingTerminal pq}

theorem isBlink_blinkTimer (id t : Nat) : IsBlink id (blinkTimer id t) :=
  ⟨rfl, rfl⟩

theorem countP_addTimer (m : TimerManager pq) (t : Timer) :
    (pq.elems (m.addTimer t).timers).countP (IsBlink id) =
      (pq.elems m.timers).countP (IsBlink id) + if IsBlink id t then 1 else 0 := by
  rw [TimerManager.addTimer, pq.elems_push, Multiset.countP_cons]

theorem countP_inbox (sent : List (Nat × Message)) :
    (inbox id sent).countP Message.isBlink =
      sent.countP fun sending => sending.1 = id ∧ sending.2.isBlink := by
  rw [inbox, List.countP_map, List.countP_filter]
  congr 1
  funext sending
  simp [Bool.and_comm]

/-- A message that is taken out of the queue. -/
theorem countP_cons (message : Message) (rest : List Message) :
    (message :: rest).countP Message.isBlink =
      rest.countP Message.isBlink + if message.isBlink then 1 else 0 :=
  List.countP_cons

/-- `Tick` turns timers of the cursor that are due into timeouts. -/
theorem blinks_tick (step : s.step id .tick = some s') :
    s'.phase = s.phase ∧ s'.blinks id = s.blinks id := by
  rw [BlinkingTerminal.step] at step
  split at step
  · rename_i timers flag sent done
    cases step
    refine ⟨rfl, ?_⟩
    have conserved := TimerManager.tickLoop_countP (IsBlink id)
      (fun sending => sending.1 = id ∧ sending.2.isBlink)
      (fun t => by simp [Timer.message, Message.isBlink, IsBlink, and_comm])
      (fun t blink task => absurd (blink.1.symm.trans task) (by decide)) done
    rw [List.countP_nil] at conserved
    rw [blinks, blinks, List.countP_append, countP_inbox]
    dsimp only
    omega
  · cases step
  · cases step

/-- What the main loop does next accounts for the timeout that it has received. -/
theorem handled_dispatch (message : Message) :
    handled (dispatch message) = if message.isBlink then 1 else 0 := by
  cases message with
  | timerTimeout timeout value => simp [dispatch, handled, Message.isBlink]
  | keyPush modifier keycode ascii press =>
      rw [dispatch]
      split <;> rfl
  | _ => rfl

/-- A step that changes neither the number of timers nor whether the terminal runs. -/
theorem OneBlink.of_eq (one : s.OneBlink id) (running : s'.phase ≠ .finished → s.phase ≠ .finished)
    (same : s'.phase ≠ .finished → s'.blinks id = s.blinks id) : s'.OneBlink id := by
  intro runs
  rw [same runs, one (running runs)]

/-- A loop other than the main loop takes a message out of the queue. -/
theorem oneBlink_drop_iff {message : Message} {rest : List Message} (one : s.OneBlink id)
    (runs : s.phase ≠ .finished) (msgs : s.msgs = message :: rest)
    (runs' : s'.phase ≠ .finished) (manager : s'.manager = s.manager) (rest' : s'.msgs = rest)
    (same : handled s'.phase = handled s.phase) :
    s'.OneBlink id ↔ message.isBlink = false := by
  have count := one runs
  rw [blinks, msgs, countP_cons] at count
  rw [OneBlink, forall_prop_of_true runs', blinks, manager, rest', same]
  cases blink : message.isBlink with
  | false =>
      rw [blink, if_neg Bool.false_ne_true] at count
      exact iff_of_true (by omega) rfl
  | true =>
      rw [blink, if_pos rfl] at count
      exact iff_of_false (by omega) (Bool.noConfusion ·)

/-- A step keeps the terminal at one timer exactly when it meets the condition. -/
theorem oneBlink_step_iff {action : Action} (one : s.OneBlink id)
    (step : s.step id action = some s') : s'.OneBlink id ↔ s.Keeps action := by
  cases action with
  | tick =>
      rcases blinks_tick step with ⟨phase, same⟩
      exact iff_of_true (one.of_eq (fun runs => phase ▸ runs) fun _ => same) trivial
  | addTimer timer =>
      rw [BlinkingTerminal.step] at step
      split at step
      · rename_i other
        cases step
        refine iff_of_true (one.of_eq (fun runs => runs) fun _ => ?_) trivial
        have notBlink : ¬ IsBlink id timer := fun blink => other blink.2
        rw [blinks, blinks, countP_addTimer, if_neg notBlink, add_zero]
      · cases step
  | send message =>
      rw [BlinkingTerminal.step] at step
      split at step
      · cases step
      · rename_i other
        cases step
        refine iff_of_true (one.of_eq (fun runs => runs) fun _ => ?_) trivial
        have notBlink : message.isBlink = false := by
          cases message with
          | timerTimeout timeout value => exact absurd rfl other
          | _ => rfl
        rw [blinks, blinks, List.countP_append, List.countP_singleton, notBlink,
          if_neg Bool.false_ne_true, add_zero]
  | receive =>
      rw [BlinkingTerminal.step] at step
      split at step
      · rename_i message rest phase msgs
        cases step
        refine iff_of_true (one.of_eq (fun _ => by rw [phase]; decide) fun _ => ?_) trivial
        rw [blinks, blinks, handled_dispatch, msgs, countP_cons, phase]
        dsimp only [handled]
        omega
      · cases step
  | addBlinkTimer =>
      rw [BlinkingTerminal.step] at step
      split at step
      · rename_i timeout value phase
        cases step
        have count := one (by rw [phase]; exact TerminalPhase.noConfusion)
        rw [blinks] at count
        rw [OneBlink, forall_prop_of_true (by exact TerminalPhase.noConfusion), blinks,
          countP_addTimer, if_pos (isBlink_blinkTimer id timeout), Keeps]
        dsimp only [handled] at count ⊢
        omega
      · cases step
  | createTimer arg1 arg2 arg3 =>
      rw [BlinkingTerminal.step] at step
      split at step
      · rename_i created phase found
        cases step
        refine iff_of_true (one.of_eq (fun runs => runs) fun _ => ?_) trivial
        have negative := @value_createTimer _ _ _ _ _ created.2 created.1 found
        have notBlink : ¬ IsBlink id created.1 := fun blink => by
          rw [blink.1] at negative
          omega
        rw [blinks, blinks, countP_addTimer, if_neg notBlink, add_zero]
      · cases step
        exact iff_of_true one trivial
      · cases step
  | readEvent len =>
      rw [BlinkingTerminal.step] at step
      split at step
      · rename_i phase
        cases step
        split
        · exact iff_of_true one trivial
        · refine iff_of_true (one.of_eq (fun _ => by rw [phase]; decide) fun _ => ?_) trivial
          rw [blinks, blinks, phase]
          rfl
      · cases step
  | receiveEvent =>
      rw [BlinkingTerminal.step] at step
      split at step
      · rename_i len events message rest phase msgs
        cases step
        have next : ∀ (c : Prop) [Decidable c] (events' : List AppEvent),
            (if c then TerminalPhase.readEvent len events' else .inputKey) ≠ .finished ∧
              handled (if c then .readEvent len events' else .inputKey) = 0 := by
          intro c _ events'
          split
          · exact ⟨TerminalPhase.noConfusion, rfl⟩
          · exact ⟨TerminalPhase.noConfusion, rfl⟩
        refine Iff.trans (oneBlink_drop_iff one (by rw [phase]; exact TerminalPhase.noConfusion) msgs
          (next _ _).1 rfl rfl (by rw [phase]; exact (next _ _).2)) ?_
        rw [Keeps, msgs]
        simp
      · rename_i len event events phase msgs
        cases step
        refine iff_of_true (one.of_eq (fun _ => by rw [phase]; exact TerminalPhase.noConfusion)
          fun _ => ?_) (by rw [Keeps, msgs]; simp)
        rw [blinks, blinks, phase]
        rfl
      · cases step
  | read reader =>
      cases step
      exact iff_of_true one trivial
  | receiveRead i =>
      rw [BlinkingTerminal.step] at step
      split at step
      · cases step
      · rename_i reader message rest found msgs runs
        cases step
        refine Iff.trans (oneBlink_drop_iff one runs msgs runs rfl rfl rfl) ?_
        rw [Keeps, msgs]
        simp
      · cases step
  | returns =>
      rw [BlinkingTerminal.step] at step
      split at step
      · rename_i phase
        cases step
        refine iff_of_true (one.of_eq (fun _ => by rw [phase]; decide) fun _ => ?_) trivial
        rw [blinks, blinks, phase]
        rfl
      · cases step

theorem Starts.oneBlink (starts : Starts id start) : start.OneBlink id := by
  rcases starts.added with ⟨m, t, manager, none⟩
  intro _
  have noMessage : start.msgs.countP Message.isBlink = 0 := by
    rw [List.countP_eq_zero]
    intro message member
    rw [starts.msgs message member]
    exact Bool.false_ne_true
  rw [blinks, manager, countP_addTimer, if_pos (isBlink_blinkTimer id t), noMessage, starts.phase,
    Multiset.countP_eq_zero.mpr none]
  rfl

/-! ## Runs -/

/-- In every state that steps meeting the condition reach there is exactly one timer for the
cursor, and a further step leads to such a state exactly when it meets the condition. -/
theorem oneBlink_of_reachable (starts : Starts id start)
    (reachable : Reachable (guarded (ofFunction (step id)) Keeps) start s) :
    s.OneBlink id ∧
      ∀ action s', s.step id action = some s' → (s'.OneBlink id ↔ s.Keeps action) := by
  have one : s.OneBlink id := reachable.invariant starts.oneBlink
    fun source action target one step => (oneBlink_step_iff one step.2).mpr step.1
  exact ⟨one, fun action s' step => oneBlink_step_iff one step⟩

/-- Shortly before the first timeout of the timer of the cursor. -/
def beforeTimeout : BlinkingTerminal Timers.listQueue where
  manager := TimerManager.addTimer { tick := 48, timers := (TimerManager.new _).timers } (blinkTimer 3 0)
  msgs := []
  phase := .receiving
  readers := []

theorem starts_beforeTimeout : Starts 3 beforeTimeout := by
  refine ⟨rfl, ⟨_, 0, rfl, ?_⟩, fun message member => absurd member List.not_mem_nil⟩
  decide

/-- The application waits for its own timer. -/
def ownTimer : List Action :=
  [.send (.keyPush 0 40 10 1), .receive, .createTimer 1 7 10, .tick, .readEvent 1, .receiveEvent,
    .tick, .returns, .receive, .addBlinkTimer]

theorem oneBlink_ownTimer :
    ∃ s : BlinkingTerminal Timers.listQueue,
      Reachable (guarded (ofFunction (step 3)) Keeps) beforeTimeout s ∧ s.manager.tick = 50 ∧
      s.OneBlink 3 ∧
      ∀ action s', s.step 3 action = some s' → (s'.OneBlink 3 ↔ s.Keeps action) := by
  rcases exists_run_of_execute Keeps (step 3) beforeTimeout ownTimer
    (fun s => s.manager.tick = 50) (by decide) with ⟨s, run, tick⟩
  have reachable : Reachable (guarded (ofFunction (step 3)) Keeps) beforeTimeout s := ⟨_, run⟩
  exact ⟨s, reachable, of_decide_eq_true tick, oneBlink_of_reachable starts_beforeTimeout reachable⟩

/-- The application waits for an event when the cursor should blink. -/
def waits : List Action :=
  [.send (.keyPush 0 40 10 1), .receive, .readEvent 1, .tick, .tick, .receiveEvent]

/-- The application ends before its timer does. -/
def leavesTimer : List Action :=
  [.send (.keyPush 0 40 10 1), .receive, .createTimer 1 7 10, .returns, .tick, .receive,
    .addBlinkTimer]

/-- `ReadEvent` drops the timeout and nobody adds the next timer; or a timeout of the
application makes the main loop add a second one. -/
theorem not_oneBlink_waits_leavesTimer :
    Starts 3 beforeTimeout ∧
    (∃ s, Reachable (ofFunction (step 3)) beforeTimeout s ∧ s.phase ≠ .finished ∧ s.blinks 3 = 0) ∧
    ∃ s, Reachable (ofFunction (step 3)) beforeTimeout s ∧ s.phase ≠ .finished ∧ s.blinks 3 = 2 := by
  have dies : (execute (step 3) beforeTimeout waits).any
      fun s => s.phase ≠ .finished ∧ s.blinks 3 = 0 := by
    decide
  have doubles : (execute (step 3) beforeTimeout leavesTimer).any
      fun s => s.phase ≠ .finished ∧ s.blinks 3 = 2 := by
    decide
  rcases Option.any_eq_true .. |>.mp dies with ⟨s, executed, dead⟩
  rcases Option.any_eq_true .. |>.mp doubles with ⟨s', executed', double⟩
  refine ⟨starts_beforeTimeout, ⟨s, ⟨_, (execute_eq_some_iff ..).mp executed⟩, ?_⟩,
    ⟨s', ⟨_, (execute_eq_some_iff ..).mp executed'⟩, ?_⟩⟩
  · exact of_decide_eq_true dead
  · exact of_decide_eq_true double

end BlinkingTerminal
end Mikanos
