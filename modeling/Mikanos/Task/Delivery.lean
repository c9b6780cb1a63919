import Mikanos.Task.ExitCodes

/-!
# Delivery of messages

A task that only receives in its loop gets every message that is sent to it, in
order, and is asleep only when there is none.  The loop looks at the queue and goes to
sleep with interrupts disabled, so no message arrives in between.
-/

namespace Mikanos

open Transition

namespace TaskManager

/-- The messages that a task has not received yet. -/
def messages (m : TaskManager) (p : Nat) : List Message :=
  (m.task? p).elim [] Task.msgs

variable {m m' : TaskManager}

theorem withId_cases {id : Nat} {op : TaskManager → Option TaskManager} {err : Error}
    (performed : m.withId id op = some (m', err)) :
    m.task? id = none ∧ m' = m ∧ err = .noSuchTask ∨
      (∃ t, m.task? id = some t) ∧ op m = some m' ∧ err = .success := by
  cases found : m.task? id with
  | none =>
      rw [withId_of_none op found] at performed
      cases performed
      exact .inl ⟨rfl, rfl, rfl⟩
  | some t =>
      rw [withId_of_some op found] at performed
      rcases Option.map_eq_some_iff.mp performed with ⟨m₁, result, same⟩
      cases same
      exact .inr ⟨⟨t, rfl⟩, result, rfl⟩

/-- A send to a task that is not there changes nothing. -/
theorem sendMessage_of_not_owns {id : Nat} (absent : ¬ m.Owns id) (msg : Message) :
    m.sendMessage id msg = some (m, .noSuchTask) := by
  apply withId_of_none
  cases found : m.task? id with
  | none => rfl
  | some t => exact absurd (owns_iff.mpr ⟨t, found⟩) absent

end TaskManager

namespace Tasks

variable {s s' : Tasks} {r c : Nat}

/-! ## Inversion of the steps -/

theorem waitRound_cases {id : Nat} (current : s.manager.currentTask = some c)
    (isWaiting : s.waiting c = some id) (waited : s.waitRound = some s') :
    (∃ code, s' = { s with
      manager := { s.manager with finishTasks := Function.update s.manager.finishTasks id none }
      waiting := Function.update s.waiting c none
      returned := s.returned ++ [(id, code)] }) ∨
    ∃ m', s' = { s with manager := m' } ∧ ({ s.manager with
      finishWaiter := Function.update s.manager.finishWaiter id (some c) } : TaskManager).sleep c =
        some m' := by
  cases code : s.manager.finishTasks id with
  | some exitCode =>
      rw [Inv.waitRound_of_code current isWaiting code] at waited
      cases waited
      exact .inl ⟨exitCode, rfl⟩
  | none =>
      right
      simp only [waitRound, TaskManager.waitFinishRound, current, isWaiting, code,
        Option.bind_eq_bind, Option.bind_some] at waited
      cases slept : ({ s.manager with
          finishWaiter := Function.update s.manager.finishWaiter id (some c) } : TaskManager).sleep c with
      | none =>
          rw [slept] at waited
          cases waited
      | some m' =>
          rw [slept] at waited
          cases waited
          exact ⟨m', rfl, rfl⟩

/-- A round of `WaitFinish` does not touch another task. -/
theorem waitRound_other {id : Nat} (current : s.manager.currentTask = some c)
    (isWaiting : s.waiting c = some id) (waited : s.waitRound = some s') (ne : r ≠ c) :
    s'.waiting r = s.waiting r ∧ s'.sent r = s.sent r ∧ s'.received r = s.received r ∧
      s'.manager.task? r = s.manager.task? r := by
  rcases waitRound_cases current isWaiting waited with ⟨code, rfl⟩ | ⟨m', rfl, slept⟩
  · exact ⟨Function.update_of_ne ne .., rfl, rfl, rfl⟩
  · exact ⟨rfl, rfl, rfl, (TaskManager.affects_sleep slept).lookup_other ne⟩

theorem receiveOrSleep_cases (current : s.manager.currentTask = some c)
    (received : s.receiveOrSleep = some s') :
    ∃ m₁ t, s.manager.task? c = some t ∧
      TaskManager.Affects c (fun t => { t with msgs := t.msgs.tail }) s.manager m₁ ∧
      m₁.running = s.manager.running ∧ m₁.currentTask = some c ∧
      ((∃ msg, t.msgs.head? = some msg ∧ s' = { s with
          manager := m₁, received := Function.update s.received c (s.received c ++ [msg]) }) ∨
        t.msgs = [] ∧ ∃ m', m₁.sleep c = some m' ∧ s' = { s with manager := m' }) := by
  simp only [receiveOrSleep, current, Option.bind_eq_bind, Option.bind_some] at received
  rcases Option.bind_eq_some_iff.mp received with ⟨⟨m₁, msg⟩, receives, rest⟩
  rcases TaskManager.affects_receiveMessage receives with
    ⟨affects, running, same, t, found, rfl⟩
  refine ⟨m₁, t, found, affects, running, same.trans current, ?_⟩
  cases head : t.msgs.head? with
  | none =>
      simp only [head] at rest
      rcases Option.map_eq_some_iff.mp rest with ⟨m', slept, rfl⟩
      exact .inr ⟨List.head?_eq_none_iff.mp head, m', slept, rfl⟩
  | some msg =>
      simp only [head] at rest
      cases rest
      exact .inl ⟨msg, rfl, rfl⟩

theorem sendMessage_cases {id : Nat} {msg : Message} {err : Error} (sent : s.sendMessage id msg = some (s', err)) :
    ¬ s.manager.Owns id ∧ s' = s ∧ err = .noSuchTask ∨
    s.manager.Owns id ∧ err = .success ∧ ∃ m', s.manager.taskSendMessage id msg = some m' ∧
      s' = { s with manager := m', sent := Function.update s.sent id (s.sent id ++ [msg]) } := by
  rcases Option.bind_eq_some_iff.mp sent with ⟨⟨m', err'⟩, performed, rest⟩
  rcases TaskManager.withId_cases performed with ⟨absent, rfl, rfl⟩ | ⟨⟨t, found⟩, sends, rfl⟩
  · cases rest
    refine .inl ⟨?_, rfl, rfl⟩
    rw [TaskManager.owns_iff, absent]
    rintro ⟨t, ⟨⟩⟩
  · cases rest
    exact .inr ⟨TaskManager.owns_iff.mpr ⟨t, found⟩, rfl, m', sends, rfl⟩

/-! ## A task that receives -/

/-- A task that goes to sleep only in its receive loop, and does not finish. -/
def OnlyReceives (r : Nat) (s : Tasks) : Action → Prop
  | .sleep id => id ≠ r
  | .finish _ => s.manager.currentTask ≠ some r
  | .waitFinish _ => s.manager.currentTask ≠ some r
  | _ => True

/-- Steps in which one task only receives. -/
def WithReceiver (r : Nat) (s : Tasks) (action : Action) : Prop :=
  s.Allowed action ∧ s.OnlyReceives r action

/-- What was sent is what was received and what is queued, and a task is not asleep
with messages in its queue. -/
structure Receives (r : Nat) (s : Tasks) : Prop where
  inv : Inv none s
  notWaiting : s.waiting r = none
  ordered : s.sent r = s.received r ++ s.manager.messages r
  quiet : ∀ t, s.manager.task? r = some t → t.running = false → t.msgs = []

namespace Receives

variable {f : Task → Task} {p : Nat}

/-- A step that leaves the receiver's messages, and does not send it to sleep. -/
theorem keep (receives : Receives r s) (inv : Inv none s') (waiting : s'.waiting r = s.waiting r)
    (sent : s'.sent r = s.sent r) (received : s'.received r = s.received r)
    (messages : s'.manager.messages r = s.manager.messages r)
    (running : ∀ t', s'.manager.task? r = some t' → t'.running = false →
      t'.msgs = [] ∨ ∃ t, s.manager.task? r = some t ∧ t.running = false ∧ t.msgs = t'.msgs) :
    Receives r s' where
  inv := inv
  notWaiting := waiting.trans receives.notWaiting
  ordered := by rw [sent, received, messages, receives.ordered]
  quiet := by
    intro t' found' asleep'
    rcases running t' found' asleep' with empty | ⟨t, found, asleep, same⟩
    · exact empty
    · rw [← same]
      exact receives.quiet t found asleep

/-- A step that does not look at the receiver. -/
theorem keep_task (receives : Receives r s) (inv : Inv none s') (waiting : s'.waiting r = s.waiting r)
    (sent : s'.sent r = s.sent r) (received : s'.received r = s.received r)
    (task : s'.manager.task? r = s.manager.task? r) : Receives r s' := by
  refine receives.keep inv waiting sent received ?_ ?_
  · rw [TaskManager.messages, task, TaskManager.messages]
  · intro t' found' asleep
    exact .inr ⟨t', task ▸ found', asleep, rfl⟩

/-- A step that changes one task, and neither its messages nor to sleep. -/
theorem keep_affects (receives : Receives r s) (inv : Inv none s') (waiting : s'.waiting r = s.waiting r)
    (sent : s'.sent r = s.sent r) (received : s'.received r = s.received r)
    (affects : TaskManager.Affects p f s.manager s'.manager) (msgs : ∀ t, (f t).msgs = t.msgs)
    (running : ∀ t, p = r → (f t).running = false → t.running = false) : Receives r s' := by
  by_cases isReceiver : r = p
  · refine receives.keep inv waiting sent received ?_ ?_
    · rw [TaskManager.messages, affects.lookup, if_pos isReceiver, TaskManager.messages]
      cases s.manager.task? r with
      | none => rfl
      | some t => exact msgs t
    · intro t' found' asleep
      rw [affects.lookup, if_pos isReceiver] at found'
      rcases Option.map_eq_some_iff.mp found' with ⟨t, found, rfl⟩
      exact .inr ⟨t, found, running t isReceiver.symm asleep, (msgs t).symm⟩
  · exact receives.keep_task inv waiting sent received (affects.lookup_other isReceiver)

/-- One step. -/
theorem next {action : Action} (receives : Receives r s)
    (step : guarded (ofFunction Tasks.step) (WithReceiver r) s action s') : Receives r s' := by
  rcases step with ⟨⟨allowed, only⟩, stepped⟩
  have inv := inv_next receives.inv ⟨allowed, stepped⟩
  rcases receives.inv.manager.currentTask_isSome with ⟨c, current⟩
  have stepped : s.step action = some s' := stepped
  cases action with
  | newTask =>
      cases stepped
      have lookup := s.manager.task?_newTask receives.inv.manager.queues.ids_le r
      by_cases isNew : r = s.manager.latestId + 1
      · rw [if_pos isNew] at lookup
        have absent : s.manager.task? r = none := by
          cases found : s.manager.task? r with
          | none => rfl
          | some t =>
              rcases TaskManager.task?_some found with ⟨member, same⟩
              have := receives.inv.manager.queues.ids_le t member
              omega
        refine receives.keep inv rfl rfl rfl ?_ ?_
        · change s.manager.newTask.1.messages r = _
          rw [TaskManager.messages, lookup, TaskManager.messages, absent]
          rfl
        · intro t' found' _
          rw [show s.manager.newTask.1.task? r = some t' from found'] at lookup
          cases lookup
          exact .inl rfl
      · rw [if_neg isNew] at lookup
        exact receives.keep_task inv rfl rfl rfl lookup
  | sleep id =>
      rcases Option.map_eq_some_iff.mp stepped with ⟨⟨m', err⟩, performed, rfl⟩
      rcases TaskManager.withId_cases performed with ⟨-, rfl, -⟩ | ⟨-, slept, -⟩
      · exact receives
      · have affects := TaskManager.affects_sleep slept
        exact receives.keep_task inv rfl rfl rfl (affects.lookup_other (Ne.symm only))
  | wakeup id level =>
      rcases Option.map_eq_some_iff.mp stepped with ⟨⟨m', err⟩, performed, rfl⟩
      rcases TaskManager.withId_cases performed with ⟨-, rfl, -⟩ | ⟨-, woken, -⟩
      · exact receives
      · rcases (TaskManager.affects_wakeup woken).1 with ⟨lv, affects⟩
        exact receives.keep_affects inv rfl rfl rfl affects (fun _ => rfl) (by rintro t - ⟨⟩)
  | sendMessage id msg =>
      rcases Option.map_eq_some_iff.mp stepped with ⟨⟨s₁, err⟩, sent, rfl⟩
      rcases sendMessage_cases sent with ⟨-, rfl, -⟩ | ⟨owned, -, m', sends, rfl⟩
      · exact receives
      · rcases (TaskManager.affects_taskSendMessage sends).1 with ⟨lv, affects⟩
        by_cases isReceiver : r = id
        · subst isReceiver
          rcases TaskManager.owns_iff.mp owned with ⟨t, found⟩
          have found' := affects.lookup_self found
          refine ⟨inv, receives.notWaiting, ?_, ?_⟩
          · change Function.update s.sent r (s.sent r ++ [msg]) r = s.received r ++ m'.messages r
            rw [Function.update_self, receives.ordered, TaskManager.messages, found,
              TaskManager.messages, found', List.append_assoc]
            rfl
          · intro t' found'' asleep
            rw [show m'.task? r = some t' from found''] at found'
            cases found'
            cases asleep
        · exact receives.keep_task inv rfl (Function.update_of_ne isReceiver ..) rfl
            (affects.lookup_other isReceiver)
  | receiveOrSleep =>
      rcases receiveOrSleep_cases current stepped with ⟨m₁, t, found, affects, -, -, rest⟩
      by_cases isReceiver : r = c
      · subst isReceiver
        have found₁ := affects.lookup_self found
        rcases rest with ⟨msg, head, rfl⟩ | ⟨empty, m', slept, rfl⟩
        · refine ⟨inv, receives.notWaiting, ?_, ?_⟩
          · change s.sent r = Function.update s.received r (s.received r ++ [msg]) r ++ m₁.messages r
            rw [Function.update_self, receives.ordered, TaskManager.messages, found,
              TaskManager.messages, found₁, List.append_assoc]
            change s.received r ++ t.msgs = s.received r ++ ([msg] ++ t.msgs.tail)
            rw [List.singleton_append, List.cons_head?_tail head]
          · intro t' found' asleep
            rw [show m₁.task? r = some t' from found'] at found₁
            cases found₁
            change t.msgs.tail = []
            rw [receives.quiet t found asleep]
            rfl
        · have found' := (TaskManager.affects_sleep slept).lookup_self found₁
          have none' : t.msgs.tail = [] := by rw [empty]; rfl
          refine receives.keep inv rfl rfl rfl ?_ ?_
          · change m'.messages r = s.manager.messages r
            rw [TaskManager.messages, found', TaskManager.messages, found]
            exact none'.trans empty.symm
          · intro t' found'' _
            rw [show m'.task? r = some t' from found''] at found'
            cases found'
            exact .inl none'
      · rcases rest with ⟨msg, head, rfl⟩ | ⟨empty, m', slept, rfl⟩
        · exact receives.keep_task inv rfl rfl (Function.update_of_ne isReceiver ..)
            (affects.lookup_other isReceiver)
        · exact receives.keep_task inv rfl rfl rfl
            (((TaskManager.affects_sleep slept).lookup_other isReceiver).trans
              (affects.lookup_other isReceiver))
  | switchTask =>
      rcases Option.map_eq_some_iff.mp stepped with ⟨m', switched, rfl⟩
      rcases Option.map_eq_some_iff.mp switched with ⟨⟨m₁, front⟩, rotated, rfl⟩
      exact receives.keep_affects inv rfl rfl rfl (TaskManager.affects_rotate rotated)
        (fun _ => rfl) fun _ _ => id
  | finish exitCode =>
      simp only [Tasks.step, current, Option.bind_eq_bind, Option.bind_some] at stepped
      rcases Option.bind_eq_some_iff.mp stepped with ⟨m', finished, rest⟩
      cases rest
      rcases TaskManager.finish_cases finished current with ⟨m₁, removed, -, -, noWaiter, hasWaiter⟩
      have ne : r ≠ c := fun same => only (same ▸ current)
      have kept : m₁.task? r = s.manager.task? r := by rw [removed, if_neg ne]
      cases waiting : s.manager.finishWaiter c with
      | none =>
          rw [noWaiter waiting] at inv ⊢
          exact receives.keep_task inv rfl rfl rfl kept
      | some w =>
          have notReceiver : r ≠ w := by
            rintro rfl
            have isWaiting := receives.inv.registered c r waiting
            rw [receives.notWaiting] at isWaiting
            cases isWaiting
          rcases (TaskManager.affects_wakeup (hasWaiter w waiting)).1 with ⟨lv, affects⟩
          exact receives.keep_task inv rfl rfl rfl ((affects.lookup_other notReceiver).trans kept)
  | waitFinish id =>
      have ne : r ≠ c := fun same => only (same ▸ current)
      simp only [Tasks.step, current, Option.bind_eq_bind, Option.bind_some] at stepped
      rcases waitRound_other (s := { s with waiting := Function.update s.waiting c (some id) })
        current (Function.update_self ..) stepped ne with ⟨waiting, sent, received, task⟩
      exact receives.keep_task inv (waiting.trans (Function.update_of_ne ne ..)) sent received task
  | resume =>
      rcases allowed with ⟨c', id, current', isWaiting⟩
      have ne : r ≠ c' := by
        rintro rfl
        rw [receives.notWaiting] at isWaiting
        cases isWaiting
      rcases waitRound_other current' isWaiting stepped ne with ⟨waiting, sent, received, task⟩
      exact receives.keep_task inv waiting sent received task

end Receives

/-! ## Runs -/

variable {actions : List Action}

theorem receives_initial (r : Nat) : Receives r initial where
  inv := inv_initial
  notWaiting := rfl
  ordered := by
    change [] = [] ++ TaskManager.new.messages r
    rw [TaskManager.messages, TaskManager.task?_new]
    split
    · rfl
    · split <;> rfl
  quiet := by
    intro t found asleep
    rw [show initial.manager.task? r = _ from TaskManager.task?_new r] at found
    split at found
    · cases found
      rfl
    · split at found
      · cases found
        rfl
      · cases found

/-- A task that only receives gets what is sent to it, in order and once, and has no
message in its queue while it is asleep; a send to a task that is not there fails and
changes nothing. -/
theorem received_of_run {r : Nat}
    (run : Run (guarded (ofFunction step) (WithReceiver r)) initial actions s) :
    s.sent r = s.received r ++ s.manager.messages r ∧
      (∀ t, s.manager.task? r = some t → t.running = false →
        t.msgs = [] ∧ s.received r = s.sent r) ∧
      ∀ id msg, ¬ s.manager.Owns id → s.sendMessage id msg = some (s, .noSuchTask) := by
  have preserved ⦃s action s'⦄ (receives : Receives r s)
      (next : guarded (ofFunction step) (WithReceiver r) s action s') : Receives r s' :=
    receives.next next
  have receives := run.invariant preserved (receives_initial r)
  refine ⟨receives.ordered, ?_, ?_⟩
  · intro t found asleep
    have empty := receives.quiet t found asleep
    refine ⟨empty, ?_⟩
    rw [receives.ordered, TaskManager.messages, found]
    change _ = s.received r ++ t.msgs
    rw [empty, List.append_nil]
  · intro id msg absent
    rw [sendMessage, TaskManager.sendMessage_of_not_owns absent]
    rfl

/-- The main task is sent two messages, one of them while it is asleep. -/
def twoMessages : List Action :=
  [.sendMessage 1 .interruptXHCI, .receiveOrSleep, .receiveOrSleep,
    .sendMessage 1 .layerFinish, .switchTask, .receiveOrSleep, .receiveOrSleep]

theorem received_of_run_twoMessages : ∃ s,
    Run (guarded (ofFunction step) (WithReceiver 1)) initial twoMessages s ∧
      s.received 1 = [.interruptXHCI, .layerFinish] ∧
      (s.sent 1 = s.received 1 ++ s.manager.messages 1 ∧
        (∀ t, s.manager.task? 1 = some t → t.running = false →
          t.msgs = [] ∧ s.received 1 = s.sent 1) ∧
        ∀ id msg, ¬ s.manager.Owns id → s.sendMessage id msg = some (s, .noSuchTask)) := by
  have free (s : Tasks) (isMain : s.manager.currentTask = some 1) (notWaiting : s.waiting 1 = none) :
      s.Free := by
    intro c current
    rw [isMain] at current
    cases current
    exact ⟨by decide, notWaiting⟩
  have run : Run (guarded (ofFunction step) (WithReceiver 1)) initial twoMessages _ :=
    .cons ⟨⟨trivial, trivial⟩, rfl⟩ (.cons ⟨⟨free _ rfl rfl, trivial⟩, rfl⟩
      (.cons ⟨⟨free _ rfl rfl, trivial⟩, rfl⟩ (.cons ⟨⟨trivial, trivial⟩, rfl⟩
      (.cons ⟨⟨trivial, trivial⟩, rfl⟩ (.cons ⟨⟨free _ rfl rfl, trivial⟩, rfl⟩
      (.single ⟨⟨free _ rfl rfl, trivial⟩, rfl⟩))))))
  exact ⟨_, run, rfl, received_of_run run⟩

end Tasks
end Mikanos
