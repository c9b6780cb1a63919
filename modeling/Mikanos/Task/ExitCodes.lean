import Mikanos.Task.Scheduler
import Mikanos.Task.System

/-!
# Exit codes

`Finish` leaves the exit code in `finish_tasks_` and wakes the waiter up; `WaitFinish`
registers the caller in `finish_waiter_`, goes to sleep, and looks again whenever it
runs.  The invariant says where the exit code of a task is: not passed yet, in the
table with its waiter running, or returned.
-/

namespace Mikanos.Tasks

open Transition

/-- A task that is running. -/
def IsRunning (m : TaskManager) (p : Nat) : Prop :=
  ∃ t, m.task? p = some t ∧ t.running = true

/-- The invariant; `entering` has called `WaitFinish` and not looked yet. -/
structure Inv (entering : Option Nat) (s : Tasks) : Prop where
  manager : TaskManager.Inv s.manager
  waiter : ∀ w id, s.waiting w = some id → w ≠ idleTask ∧ ∃ t, s.manager.task? w = some t
  alone : ∀ w w' id, s.waiting w = some id → s.waiting w' = some id → w = w'
  registered : ∀ id w, s.manager.finishWaiter id = some w → s.waiting w = some id
  waits : ∀ w id, s.waiting w = some id → s.manager.finishTasks id = none → entering ≠ some w →
    s.manager.finishWaiter id = some w
  awake : ∀ w id, s.waiting w = some id → s.manager.finishTasks id ≠ none → IsRunning s.manager w
  exclusive : ∀ id, s.manager.finishTasks id = none ∨ s.manager.finishWaiter id = none
  passed : ∀ id code, s.manager.finishTasks id = some code → s.finished id = some code
  delivered : ∀ id code, s.finished id = some code →
    s.manager.finishTasks id = some code ∨ (id, code) ∈ s.returned
  returned : ∀ id code, (id, code) ∈ s.returned →
    s.finished id = some code ∧ s.manager.finishTasks id = none
  once : (s.returned.map Prod.fst).Nodup
  gone : ∀ id, s.finished id ≠ none → s.manager.task? id = none ∧ id ≤ s.manager.latestId

namespace Inv

variable {s s' : Tasks} {entering : Option Nat} {m' : TaskManager} {p : Nat} {f : Task → Task}

/-- Steps that leave the tables and the records, and no waiter asleep that was awake. -/
theorem keep (inv : Inv entering s) (manager : TaskManager.Inv s'.manager)
    (waiters : s'.manager.finishWaiter = s.manager.finishWaiter)
    (codes : s'.manager.finishTasks = s.manager.finishTasks)
    (waiting : s'.waiting = s.waiting) (finished : s'.finished = s.finished)
    (returned : s'.returned = s.returned)
    (owned : ∀ w, (∃ t, s.manager.task? w = some t) → ∃ t, s'.manager.task? w = some t)
    (running : ∀ w id, s.waiting w = some id → IsRunning s.manager w → IsRunning s'.manager w)
    (gone : ∀ id, id ≤ s.manager.latestId → s.manager.task? id = none →
      s'.manager.task? id = none ∧ id ≤ s'.manager.latestId) :
    Inv entering s' where
  manager := manager
  waiter := by
    intro w id isWaiting
    rw [waiting] at isWaiting
    exact ⟨(inv.waiter w id isWaiting).1, owned w (inv.waiter w id isWaiting).2⟩
  alone := by
    rw [waiting]
    exact inv.alone
  registered := by
    rw [waiting, waiters]
    exact inv.registered
  waits := by
    rw [waiting, waiters, codes]
    exact inv.waits
  awake := by
    rw [waiting, codes]
    intro w id isWaiting passed
    exact running w id isWaiting (inv.awake w id isWaiting passed)
  exclusive := by
    rw [waiters, codes]
    exact inv.exclusive
  passed := by
    rw [codes, finished]
    exact inv.passed
  delivered := by
    rw [codes, finished, returned]
    exact inv.delivered
  returned := by
    rw [codes, finished, returned]
    exact inv.returned
  once := by
    rw [returned]
    exact inv.once
  gone := by
    rw [finished]
    intro id isFinished
    rcases inv.gone id isFinished with ⟨absent, old⟩
    exact gone id old absent

/-- Operations on one task. -/
theorem keep_affects (inv : Inv entering s) (manager : TaskManager.Inv s'.manager)
    (waiters : s'.manager.finishWaiter = s.manager.finishWaiter)
    (codes : s'.manager.finishTasks = s.manager.finishTasks)
    (waiting : s'.waiting = s.waiting) (finished : s'.finished = s.finished)
    (returned : s'.returned = s.returned) (affects : TaskManager.Affects p f s.manager s'.manager)
    (runs : ∀ id t, s.waiting p = some id → t.running = true → (f t).running = true) :
    Inv entering s' := by
  refine inv.keep manager waiters codes waiting finished returned ?_ ?_ ?_
  · rintro w ⟨t, found⟩
    rw [affects.lookup, found]
    split
    · exact ⟨f t, rfl⟩
    · exact ⟨t, rfl⟩
  · rintro w id isWaiting ⟨t, found, running⟩
    by_cases isTask : w = p
    · subst isTask
      exact ⟨f t, affects.lookup_self found, runs id t isWaiting running⟩
    · exact ⟨t, (affects.lookup_other isTask).trans found, running⟩
  · intro id old absent
    rw [affects.lookup, absent, affects.latestId]
    exact ⟨by split <;> rfl, old⟩

/-! ## The operations -/

theorem newTask (inv : Inv entering s) :
    Inv entering { s with manager := s.manager.newTask.1 } := by
  have lookup := s.manager.task?_newTask inv.manager.queues.ids_le
  have old (w : Nat) (t : Task) (found : s.manager.task? w = some t) :
      s.manager.newTask.1.task? w = some t := by
    rcases TaskManager.task?_some found with ⟨member, rfl⟩
    have := inv.manager.queues.ids_le t member
    rw [lookup, if_neg (by omega), found]
  refine inv.keep inv.manager.newTask rfl rfl rfl rfl rfl ?_ ?_ ?_
  · rintro w ⟨t, found⟩
    exact ⟨t, old w t found⟩
  · rintro w id - ⟨t, found, running⟩
    exact ⟨t, old w t found, running⟩
  · intro id le absent
    change s.manager.newTask.1.task? id = none ∧ id ≤ s.manager.latestId + 1
    rw [lookup, if_neg (by omega)]
    exact ⟨absent, by omega⟩

theorem sleep (inv : Inv entering s) {t : Task} (found : s.manager.task? p = some t)
    (notIdle : p ≠ idleTask) (notWaiting : s.waiting p = none) :
    ∃ m', s.manager.sleep p = some m' ∧ Inv entering { s with manager := m' } := by
  rcases inv.manager.sleep found notIdle with ⟨m', slept, manager, -, -, waiters, codes⟩
  refine ⟨m', slept, inv.keep_affects manager waiters codes rfl rfl rfl
    (TaskManager.affects_sleep slept) ?_⟩
  intro id _ waiting
  rw [notWaiting] at waiting
  cases waiting

theorem wakeup (inv : Inv entering s) {level : Int} {t : Task} (found : s.manager.task? p = some t)
    (level_le : level ≤ kMaxLevel) (idle : p = idleTask → level ≤ 0) :
    ∃ m', s.manager.wakeup p level = some m' ∧ Inv entering { s with manager := m' } := by
  rcases inv.manager.wakeup level found level_le (fun isIdle => by have := idle isIdle; omega) with
    ⟨m', woken, manager, -, -, waiters, codes⟩
  rcases (TaskManager.affects_wakeup woken).1 with ⟨lv, affects⟩
  exact ⟨m', woken, inv.keep_affects manager waiters codes rfl rfl rfl affects fun _ _ _ _ => rfl⟩

theorem taskSendMessage (inv : Inv entering s) (msg : Message) {t : Task}
    (found : s.manager.task? p = some t) (sent : Nat → List Message) :
    ∃ m', s.manager.taskSendMessage p msg = some m' ∧ Inv entering { s with manager := m', sent } := by
  rcases inv.manager.taskSendMessage msg found with ⟨m', sends, manager, -, -, waiters, codes⟩
  rcases (TaskManager.affects_taskSendMessage sends).1 with ⟨lv, affects⟩
  exact ⟨m', sends, inv.keep_affects manager waiters codes rfl rfl rfl affects fun _ _ _ _ => rfl⟩

theorem receiveMessage (inv : Inv entering s) {t : Task} (found : s.manager.task? p = some t)
    (received : Nat → List Message) :
    ∃ m', s.manager.receiveMessage p = some (m', t.msgs.head?) ∧
      Inv entering { s with manager := m', received } := by
  rcases inv.manager.receiveMessage found with ⟨m', receives, manager, -, -, waiters, codes⟩
  have affects := (TaskManager.affects_receiveMessage receives).1
  exact ⟨m', receives, inv.keep_affects manager waiters codes rfl rfl rfl affects fun _ _ _ => id⟩

theorem switchTask (inv : Inv entering s) :
    ∃ m', s.manager.switchTask = some m' ∧ Inv entering { s with manager := m' } := by
  rcases inv.manager.switchTask with ⟨m', switched, manager, -, tasks, waiters, codes⟩
  have affects : ∃ c, TaskManager.Affects c id s.manager m' := by
    rcases Option.map_eq_some_iff.mp switched with ⟨⟨m₁, c⟩, rotated, rfl⟩
    exact ⟨c, TaskManager.affects_rotate rotated⟩
  rcases affects with ⟨c, affects⟩
  exact ⟨m', switched, inv.keep_affects manager waiters codes rfl rfl rfl affects fun _ _ _ => id⟩

/-- `Finish` by a task that is not in `WaitFinish`. -/
theorem finish (inv : Inv none s) (exitCode : Int) {c : Nat} (current : s.manager.currentTask = some c)
    (notIdle : c ≠ idleTask) (notWaiting : s.waiting c = none) :
    ∃ m', s.manager.finish exitCode = some m' ∧ Inv none { s with
      manager := m', finished := Function.update s.finished c (some exitCode) } := by
  rcases inv.manager.task?_current current with ⟨t, found, -⟩
  have other (w id : Nat) (isWaiting : s.waiting w = some id) : w ≠ c := by
    rintro rfl
    rw [notWaiting] at isWaiting
    cases isWaiting
  have notFinished : s.finished c = none := by
    by_contra isFinished
    rw [(inv.gone c isFinished).1] at found
    cases found
  have noCode : s.manager.finishTasks c = none := by
    cases code : s.manager.finishTasks c with
    | none => rfl
    | some exitCode =>
        rw [inv.passed c exitCode code] at notFinished
        cases notFinished
  rcases inv.manager.finish exitCode current notIdle (fun w registered =>
    ⟨other w c (inv.registered c w registered), (inv.waiter w c (inv.registered c w registered)).2⟩)
    with ⟨m', finished, manager, -, -, waiters, codes⟩
  rcases TaskManager.finish_cases finished current with ⟨m₁, removed, latest, -, noWaiter, hasWaiter⟩
  -- what happens to the tasks that stay
  have stays (w : Nat) (ne : w ≠ c) (t : Task) (found : s.manager.task? w = some t) :
      ∃ t', m'.task? w = some t' ∧ (t.running = true → t'.running = true) ∧
        (s.manager.finishWaiter c = some w → t'.running = true) := by
    have found₁ : m₁.task? w = some t := by rw [removed, if_neg ne, found]
    cases waiting : s.manager.finishWaiter c with
    | none =>
        rw [noWaiter waiting]
        exact ⟨t, found₁, id, by rintro ⟨⟩⟩
    | some w' =>
        rcases (TaskManager.affects_wakeup (hasWaiter w' waiting)).1 with ⟨lv, affects⟩
        by_cases isWaiter : w = w'
        · subst isWaiter
          exact ⟨_, affects.lookup_self found₁, fun _ => rfl, fun _ => rfl⟩
        · refine ⟨t, (affects.lookup_other isWaiter).trans found₁, id, ?_⟩
          rintro ⟨⟩
          exact absurd rfl isWaiter
  have latest' : m'.latestId = s.manager.latestId := by
    cases waiting : s.manager.finishWaiter c with
    | none => rw [noWaiter waiting, latest]
    | some w =>
        rcases (TaskManager.affects_wakeup (hasWaiter w waiting)).1 with ⟨lv, affects⟩
        exact affects.latestId.trans latest
  refine ⟨m', finished, ?_⟩
  exact {
    manager
    waiter := by
      intro w id isWaiting
      rcases inv.waiter w id isWaiting with ⟨ne, t, found⟩
      rcases stays w (other w id isWaiting) t found with ⟨t', found', -⟩
      exact ⟨ne, t', found'⟩
    alone := inv.alone
    registered := by
      intro id w registered
      change m'.finishWaiter id = some w at registered
      rw [waiters] at registered
      by_cases isTask : id = c
      · rw [isTask, Function.update_self] at registered
        cases registered
      · rw [Function.update_of_ne isTask] at registered
        exact inv.registered id w registered
    waits := by
      intro w id isWaiting unpassed notEntering
      change m'.finishTasks id = none at unpassed
      change m'.finishWaiter id = some w
      rw [codes] at unpassed
      rw [waiters]
      by_cases isTask : id = c
      · rw [isTask, Function.update_self] at unpassed
        cases unpassed
      · rw [Function.update_of_ne isTask] at unpassed ⊢
        exact inv.waits w id isWaiting unpassed notEntering
    awake := by
      intro w id isWaiting passed
      change m'.finishTasks id ≠ none at passed
      rw [codes] at passed
      rcases inv.waiter w id isWaiting with ⟨-, t, found⟩
      rcases stays w (other w id isWaiting) t found with ⟨t', found', running, woken⟩
      refine ⟨t', found', ?_⟩
      by_cases isTask : id = c
      · exact woken (inv.waits w c (isTask ▸ isWaiting) noCode (by rintro ⟨⟩))
      · rw [Function.update_of_ne isTask] at passed
        rcases inv.awake w id isWaiting passed with ⟨t'', found'', running''⟩
        rw [found] at found''
        cases found''
        exact running running''
    exclusive := by
      intro id
      change m'.finishTasks id = none ∨ m'.finishWaiter id = none
      rw [codes, waiters]
      by_cases isTask : id = c
      · rw [isTask, Function.update_self, Function.update_self]
        exact .inr rfl
      · rw [Function.update_of_ne isTask, Function.update_of_ne isTask]
        exact inv.exclusive id
    passed := by
      intro id code isPassed
      change m'.finishTasks id = some code at isPassed
      change Function.update s.finished c (some exitCode) id = some code
      rw [codes] at isPassed
      by_cases isTask : id = c
      · rw [isTask, Function.update_self] at isPassed ⊢
        exact isPassed
      · rw [Function.update_of_ne isTask] at isPassed ⊢
        exact inv.passed id code isPassed
    delivered := by
      intro id code isFinished
      change Function.update s.finished c (some exitCode) id = some code at isFinished
      change m'.finishTasks id = some code ∨ _
      rw [codes]
      by_cases isTask : id = c
      · rw [isTask, Function.update_self] at isFinished ⊢
        exact .inl isFinished
      · rw [Function.update_of_ne isTask] at isFinished ⊢
        exact inv.delivered id code isFinished
    returned := by
      intro id code isReturned
      rcases inv.returned id code isReturned with ⟨isFinished, unpassed⟩
      have notTask : id ≠ c := by
        rintro rfl
        rw [notFinished] at isFinished
        cases isFinished
      change Function.update s.finished c (some exitCode) id = some code ∧ m'.finishTasks id = none
      rw [codes, Function.update_of_ne notTask, Function.update_of_ne notTask]
      exact ⟨isFinished, unpassed⟩
    once := inv.once
    gone := by
      intro id isFinished
      change Function.update s.finished c (some exitCode) id ≠ none at isFinished
      change m'.task? id = none ∧ id ≤ m'.latestId
      rw [latest']
      by_cases isTask : id = c
      · refine ⟨TaskManager.task?_finish_eq_none finished current (.inl isTask), ?_⟩
        rcases TaskManager.task?_some found with ⟨member, same⟩
        rw [isTask, ← same]
        exact inv.manager.queues.ids_le t member
      · rw [Function.update_of_ne isTask] at isFinished
        rcases inv.gone id isFinished with ⟨notFound, old⟩
        exact ⟨TaskManager.task?_finish_eq_none finished current (.inr notFound), old⟩ }

/-- A round of `WaitFinish` that finds the exit code. -/
theorem returns {c id : Nat} {exitCode : Int} (inv : Inv (some c) s) (isWaiting : s.waiting c = some id)
    (code : s.manager.finishTasks id = some exitCode) :
    Inv none { s with
      manager := { s.manager with finishTasks := Function.update s.manager.finishTasks id none }
      waiting := Function.update s.waiting c none
      returned := s.returned ++ [(id, exitCode)] } := by
  have others (w id' : Nat) (waits : Function.update s.waiting c none w = some id') :
      w ≠ c ∧ s.waiting w = some id' ∧ id' ≠ id := by
    have ne : w ≠ c := by
      rintro rfl
      rw [Function.update_self] at waits
      cases waits
    rw [Function.update_of_ne ne] at waits
    refine ⟨ne, waits, ?_⟩
    rintro rfl
    exact ne (inv.alone w c id' waits isWaiting)
  exact {
    manager := ⟨inv.manager.queues.of_eq rfl rfl rfl, inv.manager.current_le,
      inv.manager.current_ne_nil, inv.manager.settled⟩
    waiter := fun w id' waits => inv.waiter w id' (others w id' waits).2.1
    alone := fun w w' id' waits waits' =>
      inv.alone w w' id' (others w id' waits).2.1 (others w' id' waits').2.1
    registered := by
      intro id' w registered
      have waits := inv.registered id' w registered
      have ne : w ≠ c := by
        rintro rfl
        rw [isWaiting] at waits
        cases waits
        rcases inv.exclusive id with noCode | noWaiter
        · rw [code] at noCode
          cases noCode
        · rw [show s.manager.finishWaiter id = some w from registered] at noWaiter
          cases noWaiter
      change Function.update s.waiting c none w = some id'
      rw [Function.update_of_ne ne, waits]
    waits := by
      intro w id' waits unpassed _
      rcases others w id' waits with ⟨ne, waits, notTask⟩
      change Function.update s.manager.finishTasks id none id' = none at unpassed
      rw [Function.update_of_ne notTask] at unpassed
      exact inv.waits w id' waits unpassed fun same => ne (Option.some.inj same).symm
    awake := by
      intro w id' waits passed
      rcases others w id' waits with ⟨-, waits, notTask⟩
      change Function.update s.manager.finishTasks id none id' ≠ none at passed
      rw [Function.update_of_ne notTask] at passed
      exact inv.awake w id' waits passed
    exclusive := by
      intro id'
      change Function.update s.manager.finishTasks id none id' = none ∨ _
      by_cases isTask : id' = id
      · rw [isTask, Function.update_self]
        exact .inl rfl
      · rw [Function.update_of_ne isTask]
        exact inv.exclusive id'
    passed := by
      intro id' code' isPassed
      change Function.update s.manager.finishTasks id none id' = some code' at isPassed
      by_cases isTask : id' = id
      · rw [isTask, Function.update_self] at isPassed
        cases isPassed
      · rw [Function.update_of_ne isTask] at isPassed
        exact inv.passed id' code' isPassed
    delivered := by
      intro id' code' isFinished
      change Function.update s.manager.finishTasks id none id' = some code' ∨
        (id', code') ∈ s.returned ++ [(id, exitCode)]
      by_cases isTask : id' = id
      · have isFinished : s.finished id' = some code' := isFinished
        rw [isTask, inv.passed id exitCode code] at isFinished
        cases isFinished
        rw [isTask]
        exact .inr (List.mem_append_right _ (List.mem_singleton_self _))
      · rw [Function.update_of_ne isTask]
        exact (inv.delivered id' code' isFinished).imp_right (List.mem_append_left _)
    returned := by
      intro id' code' isReturned
      change s.finished id' = some code' ∧ Function.update s.manager.finishTasks id none id' = none
      rcases List.mem_append.mp isReturned with before | now
      · rcases inv.returned id' code' before with ⟨isFinished, unpassed⟩
        refine ⟨isFinished, ?_⟩
        by_cases isTask : id' = id
        · rw [isTask, Function.update_self]
        · rw [Function.update_of_ne isTask, unpassed]
      · cases List.mem_singleton.mp now
        rw [Function.update_self]
        exact ⟨inv.passed id exitCode code, rfl⟩
    once := by
      change ((s.returned ++ [(id, exitCode)]).map Prod.fst).Nodup
      rw [List.map_append]
      apply TaskManager.nodup_snoc inv.once
      intro before
      rcases List.mem_map.mp before with ⟨⟨id', code'⟩, isReturned, same⟩
      have unpassed := (inv.returned id' code' isReturned).2
      rw [show id' = id from same, code] at unpassed
      cases unpassed
    gone := inv.gone }

/-- A round of `WaitFinish` that registers the current task and sends it to sleep. -/
theorem registers {c id : Nat} (inv : Inv (some c) s) (isWaiting : s.waiting c = some id)
    (noCode : s.manager.finishTasks id = none) :
    ∃ m', ({ s.manager with finishWaiter := Function.update s.manager.finishWaiter id (some c) } :
      TaskManager).sleep c = some m' ∧ Inv none { s with manager := m' } := by
  set m₁ : TaskManager :=
    { s.manager with finishWaiter := Function.update s.manager.finishWaiter id (some c) }
  have inv₁ : TaskManager.Inv m₁ := ⟨inv.manager.queues.of_eq rfl rfl rfl, inv.manager.current_le,
    inv.manager.current_ne_nil, inv.manager.settled⟩
  rcases inv.waiter c id isWaiting with ⟨notIdle, t, found⟩
  rcases inv₁.sleep (show m₁.task? c = some t from found) notIdle with
    ⟨m', slept, manager, -, -, waiters, codes⟩
  have affects := TaskManager.affects_sleep slept
  have codes : m'.finishTasks = s.manager.finishTasks := codes
  have waiters : m'.finishWaiter = Function.update s.manager.finishWaiter id (some c) := waiters
  have lookup (q : Nat) (ne : q ≠ c) : m'.task? q = s.manager.task? q := affects.lookup_other ne
  refine ⟨m', slept, ?_⟩
  exact {
    manager
    waiter := by
      intro w id' waits
      refine ⟨(inv.waiter w id' waits).1, ?_⟩
      by_cases self : w = c
      · rw [self]
        exact ⟨_, affects.lookup_self found⟩
      · change ∃ t, m'.task? w = some t
        rw [lookup w self]
        exact (inv.waiter w id' waits).2
    alone := inv.alone
    registered := by
      intro id' w registered
      change m'.finishWaiter id' = some w at registered
      rw [waiters] at registered
      by_cases isTask : id' = id
      · rw [isTask, Function.update_self] at registered
        cases registered
        rw [isTask]
        exact isWaiting
      · rw [Function.update_of_ne isTask] at registered
        exact inv.registered id' w registered
    waits := by
      intro w id' waits unpassed _
      change m'.finishTasks id' = none at unpassed
      change m'.finishWaiter id' = some w
      rw [codes] at unpassed
      rw [waiters]
      by_cases isTask : id' = id
      · rw [isTask, Function.update_self, inv.alone w c id (isTask ▸ waits) isWaiting]
      · rw [Function.update_of_ne isTask]
        apply inv.waits w id' waits unpassed
        intro same
        cases same
        rw [show s.waiting c = some id' from waits] at isWaiting
        exact isTask (Option.some.inj isWaiting)
    awake := by
      intro w id' waits passed
      change m'.finishTasks id' ≠ none at passed
      rw [codes] at passed
      rcases inv.awake w id' waits passed with ⟨t', found', running⟩
      have ne : w ≠ c := by
        rintro rfl
        rw [show s.waiting w = some id' from waits] at isWaiting
        cases isWaiting
        exact passed noCode
      exact ⟨t', (lookup w ne).trans found', running⟩
    exclusive := by
      intro id'
      change m'.finishTasks id' = none ∨ m'.finishWaiter id' = none
      rw [codes, waiters]
      by_cases isTask : id' = id
      · rw [isTask]
        exact .inl noCode
      · rw [Function.update_of_ne isTask]
        exact inv.exclusive id'
    passed := by
      change ∀ id' code, m'.finishTasks id' = some code → _
      rw [codes]
      exact inv.passed
    delivered := by
      change ∀ id' code, _ → m'.finishTasks id' = some code ∨ _
      rw [codes]
      exact inv.delivered
    returned := by
      change ∀ id' code, _ → _ ∧ m'.finishTasks id' = none
      rw [codes]
      exact inv.returned
    once := inv.once
    gone := by
      intro id' isFinished
      rcases inv.gone id' isFinished with ⟨absent, old⟩
      change m'.task? id' = none ∧ id' ≤ m'.latestId
      rw [affects.lookup, affects.latestId]
      refine ⟨?_, old⟩
      rw [show m₁.task? id' = none from absent]
      split <;> rfl }

/-- What a round of `WaitFinish` that finds the exit code does. -/
theorem waitRound_of_code {c id : Nat} {exitCode : Int} (current : s.manager.currentTask = some c)
    (isWaiting : s.waiting c = some id) (code : s.manager.finishTasks id = some exitCode) :
    s.waitRound = some { s with
      manager := { s.manager with finishTasks := Function.update s.manager.finishTasks id none }
      waiting := Function.update s.waiting c none
      returned := s.returned ++ [(id, exitCode)] } := by
  simp [Tasks.waitRound, TaskManager.waitFinishRound, current, isWaiting, code]

/-- A round of `WaitFinish`, the first one of a call included. -/
theorem waitRound {c id : Nat} (inv : Inv (some c) s) (current : s.manager.currentTask = some c)
    (isWaiting : s.waiting c = some id) : ∃ s', s.waitRound = some s' ∧ Inv none s' := by
  cases code : s.manager.finishTasks id with
  | some exitCode =>
      exact ⟨_, waitRound_of_code current isWaiting code, inv.returns isWaiting code⟩
  | none =>
      rcases inv.registers isWaiting code with ⟨m', slept, inv'⟩
      refine ⟨_, ?_, inv'⟩
      simp [Tasks.waitRound, TaskManager.waitFinishRound, current, isWaiting, code, slept]

/-- The call of `WaitFinish`, before its first round. -/
theorem enter (inv : Inv none s) {c id : Nat} (current : s.manager.currentTask = some c)
    (notIdle : c ≠ idleTask) (notWaiting : s.waiting c = none) (noOther : ∀ w, s.waiting w ≠ some id) :
    Inv (some c) { s with waiting := Function.update s.waiting c (some id) } := by
  rcases inv.manager.task?_current current with ⟨t, found, running, -⟩
  have waitingOf (w id' : Nat) (waits : Function.update s.waiting c (some id) w = some id') :
      w = c ∧ id' = id ∨ w ≠ c ∧ s.waiting w = some id' := by
    by_cases self : w = c
    · rw [self, Function.update_self] at waits
      exact .inl ⟨self, (Option.some.inj waits).symm⟩
    · rw [Function.update_of_ne self] at waits
      exact .inr ⟨self, waits⟩
  exact { inv with
    waiter := by
      intro w id' waits
      rcases waitingOf w id' waits with ⟨rfl, -⟩ | ⟨-, waits⟩
      · exact ⟨notIdle, t, found⟩
      · exact inv.waiter w id' waits
    alone := by
      intro w w' id' waits waits'
      rcases waitingOf w id' waits with ⟨rfl, rfl⟩ | ⟨-, before⟩
      · rcases waitingOf w' id' waits' with ⟨rfl, -⟩ | ⟨-, before'⟩
        · rfl
        · exact (noOther w' before').elim
      · rcases waitingOf w' id' waits' with ⟨rfl, rfl⟩ | ⟨-, before'⟩
        · exact (noOther w before).elim
        · exact inv.alone w w' id' before before'
    registered := by
      intro id' w registered
      have waits := inv.registered id' w registered
      have ne : w ≠ c := by
        rintro rfl
        rw [notWaiting] at waits
        cases waits
      exact (Function.update_of_ne ne ..).trans waits
    waits := by
      intro w id' waits unpassed notEntering
      rcases waitingOf w id' waits with ⟨rfl, -⟩ | ⟨-, waits⟩
      · exact absurd rfl notEntering
      · exact inv.waits w id' waits unpassed (by rintro ⟨⟩)
    awake := by
      intro w id' waits passed
      rcases waitingOf w id' waits with ⟨rfl, -⟩ | ⟨-, waits⟩
      · exact ⟨t, found, running⟩
      · exact inv.awake w id' waits passed }

theorem weaken (inv : Inv none s) : Inv entering s :=
  { inv with waits := fun w id waits unpassed _ => inv.waits w id waits unpassed (by rintro ⟨⟩) }

/-- One step: an allowed step has a result and keeps the invariant. -/
theorem step (inv : Inv none s) {action : Action} (allowed : s.Allowed action) :
    ∃ s', s.step action = some s' ∧ Inv none s' := by
  rcases inv.manager.currentTask_isSome with ⟨c, current⟩
  rcases inv.manager.task?_current current with ⟨task, foundCurrent, -⟩
  cases action with
  | newTask => exact ⟨_, rfl, inv.newTask⟩
  | sleep id =>
      cases found : s.manager.task? id with
      | none =>
          exact ⟨s, by simp [Tasks.step, TaskManager.sleepId, TaskManager.withId_of_none _ found], inv⟩
      | some t =>
          rcases inv.sleep found allowed.1 allowed.2 with ⟨m', slept, inv'⟩
          exact ⟨_, by simp [Tasks.step, TaskManager.sleepId, TaskManager.withId_of_some _ found, slept],
            inv'⟩
  | wakeup id level =>
      cases found : s.manager.task? id with
      | none =>
          exact ⟨s, by simp [Tasks.step, TaskManager.wakeupId, TaskManager.withId_of_none _ found], inv⟩
      | some t =>
          rcases inv.wakeup found allowed.1 allowed.2 with ⟨m', woken, inv'⟩
          exact ⟨_, by simp [Tasks.step, TaskManager.wakeupId, TaskManager.withId_of_some _ found, woken],
            inv'⟩
  | sendMessage id msg =>
      cases found : s.manager.task? id with
      | none =>
          exact ⟨s, by simp [Tasks.step, Tasks.sendMessage, TaskManager.sendMessage,
            TaskManager.withId_of_none _ found], inv⟩
      | some t =>
          rcases inv.taskSendMessage msg found (Function.update s.sent id (s.sent id ++ [msg])) with
            ⟨m', sent, inv'⟩
          exact ⟨_, by simp [Tasks.step, Tasks.sendMessage, TaskManager.sendMessage,
            TaskManager.withId_of_some _ found, sent], inv'⟩
  | receiveOrSleep =>
      rcases allowed c current with ⟨notIdle, notWaiting⟩
      cases msgs : task.msgs.head? with
      | none =>
          rcases inv.receiveMessage foundCurrent s.received with ⟨m', received, inv'⟩
          have found' := (TaskManager.affects_receiveMessage received).1.lookup_self foundCurrent
          rcases inv'.sleep found' notIdle notWaiting with ⟨m'', slept, inv''⟩
          have slept : m'.sleep c = some m'' := slept
          exact ⟨_, by simp [Tasks.step, Tasks.receiveOrSleep, current, received, msgs, slept], inv''⟩
      | some msg =>
          rcases inv.receiveMessage foundCurrent
            (Function.update s.received c (s.received c ++ [msg])) with ⟨m', received, inv'⟩
          exact ⟨_, by simp [Tasks.step, Tasks.receiveOrSleep, current, received, msgs], inv'⟩
  | switchTask =>
      rcases inv.switchTask with ⟨m', switched, inv'⟩
      exact ⟨_, by simp [Tasks.step, switched], inv'⟩
  | finish exitCode =>
      rcases allowed c current with ⟨notIdle, notWaiting⟩
      rcases inv.finish exitCode current notIdle notWaiting with ⟨m', finished, inv'⟩
      exact ⟨_, by simp [Tasks.step, current, finished], inv'⟩
  | waitFinish id =>
      rcases allowed.1 c current with ⟨notIdle, notWaiting⟩
      rcases (inv.enter current notIdle notWaiting allowed.2).waitRound current
        (Function.update_self ..) with ⟨s', waited, inv'⟩
      exact ⟨s', by simp [Tasks.step, current, waited], inv'⟩
  | resume =>
      rcases allowed with ⟨c, id, current, isWaiting⟩
      exact inv.weaken.waitRound current isWaiting

end Inv

/-! ## Runs -/

variable {s s' : Tasks} {actions : List Action}

theorem inv_initial : Inv none initial where
  manager := TaskManager.Inv.new
  waiter := by rintro w id ⟨⟩
  alone := by rintro w w' id ⟨⟩
  registered := by rintro id w ⟨⟩
  waits := by rintro w id ⟨⟩
  awake := by rintro w id ⟨⟩
  exclusive := fun _ => .inl rfl
  passed := by rintro id code ⟨⟩
  delivered := by rintro id code ⟨⟩
  returned := by rintro id code ⟨⟩
  once := List.nodup_nil
  gone := fun _ isFinished => absurd rfl isFinished

theorem inv_next ⦃s : Tasks⦄ ⦃action : Action⦄ ⦃s' : Tasks⦄ (inv : Inv none s) (next : Next s action s') :
    Inv none s' := by
  rcases inv.step next.1 with ⟨s'', stepped, inv'⟩
  have performed : s.step action = some s' := next.2
  rw [stepped] at performed
  cases performed
  exact inv'

theorem inv_of_run (run : Run Next initial actions s) : Inv none s :=
  run.invariant inv_next inv_initial

/-- A step in which the current task looks for the exit code of a task. -/
def LooksFor (s : Tasks) (c id : Nat) (action : Action) : Prop :=
  action = .waitFinish id ∨ action = .resume ∧ s.waiting c = some id

/-- Exit codes are delivered: what `WaitFinish` returns has been passed to `Finish`, and
is returned once; a waiter runs from the time its task has finished, and gets the exit
code when it looks next. -/
structure Delivered (s : Tasks) : Prop where
  returned : ∀ id code, (id, code) ∈ s.returned → s.finished id = some code
  once : (s.returned.map Prod.fst).Nodup
  awake : ∀ w id, s.waiting w = some id → s.finished id ≠ none → id ∉ s.returned.map Prod.fst →
    IsRunning s.manager w
  next : ∀ c id code action, s.manager.currentTask = some c → s.LooksFor c id action →
    s.finished id = some code → id ∉ s.returned.map Prod.fst →
    ∃ s', s.step action = some s' ∧ s'.returned = s.returned ++ [(id, code)] ∧ s'.waiting c = none
  exclusive : ∀ id, s.manager.finishTasks id = none ∨ s.manager.finishWaiter id = none
  owned : ∀ id w, s.manager.finishWaiter id = some w → s.manager.Owns w

theorem Inv.delivered_or_passed (inv : Inv none s) {id : Nat} {code : Int} (isFinished : s.finished id = some code)
    (notReturned : id ∉ s.returned.map Prod.fst) : s.manager.finishTasks id = some code := by
  rcases inv.delivered id code isFinished with passed | isReturned
  · exact passed
  · exact absurd (List.mem_map_of_mem isReturned) notReturned

/-- In every run exit codes are delivered, whichever of `Finish` and `WaitFinish` comes
first. -/
theorem delivered_of_run (run : Run Next initial actions s) : Delivered s := by
  have inv := inv_of_run run
  constructor
  · exact fun id code isReturned => (inv.returned id code isReturned).1
  · exact inv.once
  · intro w id isWaiting isFinished notReturned
    rcases Option.ne_none_iff_exists'.mp isFinished with ⟨code, isFinished⟩
    apply inv.awake w id isWaiting
    rw [inv.delivered_or_passed isFinished notReturned]
    rintro ⟨⟩
  · intro c id code action current looks isFinished notReturned
    have passed := inv.delivered_or_passed isFinished notReturned
    rcases looks with rfl | ⟨rfl, isWaiting⟩
    · have called : s.step (.waitFinish id) =
          { s with waiting := Function.update s.waiting c (some id) }.waitRound := by
        simp [step, current]
      refine ⟨_, called.trans (Inv.waitRound_of_code current ?_ passed), rfl, Function.update_self ..⟩
      exact Function.update_self ..
    · exact ⟨_, Inv.waitRound_of_code current isWaiting passed, rfl, Function.update_self ..⟩
  · exact inv.exclusive
  · intro id w registered
    exact TaskManager.owns_iff.mpr (inv.waiter w id (inv.registered id w registered)).2

/-- The main task waits for a third task, is woken up by a message in between, and gets
the exit code. -/
def waitsForThird : List Action :=
  [.newTask, .wakeup 3 (-1), .waitFinish 3, .sendMessage 1 .interruptXHCI, .switchTask, .resume,
    .finish 7, .switchTask, .resume]

theorem delivered_of_run_waitsForThird : ∃ s, Run Next initial waitsForThird s ∧
    s.returned = [(3, 7)] ∧ Delivered s := by
  have run : Run Next initial waitsForThird _ :=
    .cons ⟨trivial, rfl⟩ (.cons ⟨⟨by decide, by decide⟩, rfl⟩
      (.cons ⟨⟨by rintro c ⟨⟩; exact ⟨by decide, rfl⟩, by rintro w ⟨⟩⟩, rfl⟩
      (.cons ⟨trivial, rfl⟩ (.cons ⟨trivial, rfl⟩ (.cons ⟨⟨1, 3, rfl, rfl⟩, rfl⟩
      (.cons ⟨by rintro c ⟨⟩; exact ⟨by decide, rfl⟩, rfl⟩
      (.cons ⟨trivial, rfl⟩ (.single ⟨⟨1, 3, rfl, rfl⟩, rfl⟩))))))))
  exact ⟨_, run, rfl, delivered_of_run run⟩

end Mikanos.Tasks
