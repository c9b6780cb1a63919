import Mikanos.Task.Invariant

/-!
# Effects of the operations

What the operations of the manager do to tasks and queues, apart from the invariant:
each changes one task, creates none, and leaves the order of all others in every
queue.
-/

namespace Mikanos.TaskManager

variable {m m' m'' : TaskManager} {p c : Nat} {f g : Task → Task}

/-- A transition that changes one task and may move only that task in the queues. -/
structure Affects (p : Nat) (f : Task → Task) (m m' : TaskManager) : Prop where
  lookup : ∀ q, m'.task? q = if q = p then (m.task? q).map f else m.task? q
  latestId : m'.latestId = m.latestId
  order : ∀ keep : Nat → Bool, keep p = false → ∀ l,
    (m'.running l).filter keep = (m.running l).filter keep

namespace Affects

theorem lookup_self (affects : Affects p f m m') {t : Task} (found : m.task? p = some t) :
    m'.task? p = some (f t) := by
  rw [affects.lookup, if_pos rfl, found]
  rfl

theorem lookup_other (affects : Affects p f m m') {q : Nat} (other : q ≠ p) :
    m'.task? q = m.task? q := by
  rw [affects.lookup, if_neg other]

theorem refl (m : TaskManager) : Affects p id m m where
  lookup := by
    intro q
    rw [Option.map_id, id, ite_self]
  latestId := rfl
  order := fun _ _ _ => rfl

theorem trans (first : Affects p f m m') (second : Affects p g m' m'') :
    Affects p (g ∘ f) m m'' where
  lookup := by
    intro q
    rw [second.lookup, first.lookup]
    by_cases isTask : q = p
    · rw [if_pos isTask, if_pos isTask, if_pos isTask, Option.map_map]
    · rw [if_neg isTask, if_neg isTask, if_neg isTask]
  latestId := second.latestId.trans first.latestId
  order := fun keep drops l => (second.order keep drops l).trans (first.order keep drops l)

/-- The current level, the pending change and the exit codes are not looked at. -/
theorem congr (affects : Affects p f m m') (tasks : m''.tasks = m'.tasks)
    (latestId : m''.latestId = m'.latestId) (running : m''.running = m'.running) :
    Affects p f m m'' where
  lookup := by
    intro q
    rw [task?_congr tasks, affects.lookup]
  latestId := latestId.trans affects.latestId
  order := by
    rw [running]
    exact affects.order

/-- A change that the task does not show. -/
theorem of_eq (affects : Affects p f m m') (same : ∀ t, m.task? p = some t → f t = g t) :
    Affects p g m m' where
  lookup := by
    intro q
    rw [affects.lookup]
    by_cases isTask : q = p
    · rw [if_pos isTask, if_pos isTask, isTask]
      cases found : m.task? p with
      | none => rfl
      | some t => exact congrArg some (same t found)
    · rw [if_neg isTask, if_neg isTask]
  latestId := affects.latestId
  order := affects.order

end Affects

/-! ## The parts of the operations -/

theorem affects_modify (m : TaskManager) (keeps : ∀ t, (f t).id = t.id) :
    Affects p f m (m.modify p f) where
  lookup := task?_modify keeps p
  latestId := rfl
  order := fun _ _ _ => rfl

theorem affects_setLevel (m : TaskManager) (p level : Nat) :
    Affects p (fun t => { t with level }) m (m.setLevel p level) :=
  affects_modify m fun _ => rfl

theorem affects_setRunning (m : TaskManager) (p : Nat) (running : Bool) :
    Affects p (fun t => { t with running }) m (m.setRunning p running) :=
  affects_modify m fun _ => rfl

/-- A queue may change in one task. -/
theorem affects_setQueue (m : TaskManager) {level : Nat} {queue : List Nat}
    (order : ∀ keep : Nat → Bool, keep p = false →
      queue.filter keep = (m.running level).filter keep) :
    Affects p id m (m.setQueue level queue) where
  lookup := (Affects.refl m).lookup
  latestId := rfl
  order := by
    intro keep drops l
    rw [running_setQueue]
    by_cases here : l = level
    · rw [here, Function.update_self]
      exact order keep drops
    · rw [Function.update_of_ne here]

theorem filter_erase_queue (queue : List Nat) {keep : Nat → Bool} (drops : keep p = false) :
    (erase queue p).filter keep = queue.filter keep := by
  rw [erase, List.filter_filter]
  apply List.filter_congr
  intro q _
  by_cases isTask : q = p
  · rw [isTask, drops]
    simp
  · simp [isTask]

theorem affects_eraseQueue (m : TaskManager) (level : Nat) :
    Affects p id m (m.setQueue level (erase (m.running level) p)) :=
  affects_setQueue m fun _ drops => filter_erase_queue _ drops

theorem affects_pushBack (m : TaskManager) (level : Nat) : Affects p id m (m.pushBack level p) := by
  apply affects_setQueue m
  intro keep drops
  simp [drops]

theorem affects_pushFront (m : TaskManager) (level : Nat) :
    Affects p id m (m.pushFront level p) := by
  apply affects_setQueue m
  intro keep drops
  simp [drops]

/-- Taking the front of a queue. -/
theorem affects_popFront (m : TaskManager) {level : Nat} {rest : List Nat}
    (front : m.running level = p :: rest) : Affects p id m (m.setQueue level rest) := by
  apply affects_setQueue m
  intro keep drops
  rw [front]
  simp [drops]

/-! ## The operations -/

/-- Rotation moves the current task only. -/
theorem affects_rotate {currentSleep : Bool}
    (rotated : m.rotateCurrentRunQueue currentSleep = some (m', c)) : Affects c id m m' := by
  cases queue : m.running m.currentLevel with
  | nil =>
      rw [rotateCurrentRunQueue, queue] at rotated
      cases rotated
  | cons first rest =>
      simp only [rotateCurrentRunQueue, queue, Option.some.injEq, Prod.mk.injEq] at rotated
      rcases rotated with ⟨rfl, rfl⟩
      generalize nextEq : (if currentSleep = true then rest else rest ++ [first]) = next
      have affects : Affects first id m (m.setQueue m.currentLevel next) := by
        apply affects_setQueue m
        intro keep drops
        rw [queue, ← nextEq]
        split <;> simp [drops]
      split
      · exact affects.congr (by simp) (by simp) (by simp)
      · exact affects.congr (by simp) (by simp) (by simp)

/-- Rotation takes the current task. -/
theorem current_of_rotate {currentSleep : Bool}
    (rotated : m.rotateCurrentRunQueue currentSleep = some (m', c)) : m.currentTask = some c := by
  cases queue : m.running m.currentLevel with
  | nil =>
      rw [rotateCurrentRunQueue, queue] at rotated
      cases rotated
  | cons first rest =>
      simp only [rotateCurrentRunQueue, queue, Option.some.injEq, Prod.mk.injEq] at rotated
      rw [currentTask, queue, ← rotated.2]
      rfl

/-- `SwitchTask` moves the front of the current queue to its end. -/
theorem running_switchTask (switched : m.switchTask = some m') :
    ∃ front rest, m.running m.currentLevel = front :: rest ∧
      m'.running = Function.update m.running m.currentLevel (rest ++ [front]) := by
  rcases Option.map_eq_some_iff.mp switched with ⟨⟨m₁, front⟩, rotated, rfl⟩
  cases queue : m.running m.currentLevel with
  | nil =>
      rw [rotateCurrentRunQueue, queue] at rotated
      cases rotated
  | cons first rest =>
      refine ⟨first, rest, rfl, ?_⟩
      simp only [rotateCurrentRunQueue, queue, Option.some.injEq, Prod.mk.injEq] at rotated
      rw [← rotated.1]
      simp

/-- `Sleep` clears the flag of one task. -/
theorem affects_sleep (slept : m.sleep p = some m') :
    Affects p (fun t => { t with running := false }) m m' := by
  cases found : m.task? p with
  | none =>
      simp only [sleep, found] at slept
      cases slept
  | some t =>
      simp only [sleep, found, Option.bind_eq_bind, Option.bind_some] at slept
      split at slept
      · rename_i asleep
        cases slept
        apply (Affects.refl m).of_eq
        intro t' found'
        rw [found] at found'
        cases found'
        rw [← asleep]
        rfl
      · have cleared := affects_setRunning m p false
        cases current : (m.setRunning p false).currentTask with
        | none =>
            rw [current] at slept
            cases slept
        | some front =>
            rw [current, Option.bind_some] at slept
            split at slept
            · rename_i isFront
              rcases Option.map_eq_some_iff.mp slept with ⟨⟨m₁, c⟩, rotated, rfl⟩
              have same := current_of_rotate rotated
              rw [current, ← isFront] at same
              cases same
              exact cleared.trans (affects_rotate rotated)
            · cases slept
              exact cleared.trans (affects_eraseQueue _ _)

/-- `Sleep` of another task leaves the current one. -/
theorem currentTask_sleep (slept : m.sleep p = some m') (other : m.currentTask ≠ some p) :
    m'.currentTask = m.currentTask := by
  cases found : m.task? p with
  | none =>
      simp only [sleep, found] at slept
      cases slept
  | some t =>
      simp only [sleep, found, Option.bind_eq_bind, Option.bind_some] at slept
      split at slept
      · cases slept
        rfl
      · cases current : (m.setRunning p false).currentTask with
        | none =>
            rw [current] at slept
            cases slept
        | some front =>
            rw [current, Option.bind_some] at slept
            have current : m.currentTask = some front := current
            split at slept
            · rename_i isFront
              exact absurd (isFront ▸ current) other
            · rename_i notFront
              cases slept
              rw [current]
              rw [currentTask] at current
              change (Function.update m.running t.level _ m.currentLevel).head? = _
              by_cases here : m.currentLevel = t.level
              · rw [here, Function.update_self]
                exact head?_erase (here ▸ current) notFront
              · rw [Function.update_of_ne here, current]

/-- A level change changes the level of one task, and the current task stays. -/
theorem changeLevelRunning_cases {level : Int} (changed : m.changeLevelRunning p level = some m')
    {t : Task} (found : m.task? p = some t) :
    m' = m ∨ ∃ lv, lv ≠ t.level ∧ Affects p (fun t => { t with level := lv }) m m' ∧
      m'.currentTask = m.currentTask := by
  simp only [changeLevelRunning, found, Option.bind_eq_bind, Option.bind_some] at changed
  split at changed
  · cases changed
    exact .inl rfl
  · rename_i moves
    have ne : level.toNat ≠ t.level := by omega
    right
    refine ⟨level.toNat, ne, ?_⟩
    cases current : m.currentTask with
    | none =>
        rw [current] at changed
        cases changed
    | some front =>
        rw [current, Option.bind_some] at changed
        have front' : (m.running m.currentLevel).head? = some front := current
        generalize level.toNat = lv at changed ne
        split at changed
        · rename_i notFront
          set moved := (((m.setQueue t.level (erase (m.running t.level) p)).pushBack lv p).setLevel p lv)
            with movedEq
          have affects : Affects p (fun t => { t with level := lv }) m moved :=
            ((affects_eraseQueue m t.level).trans (affects_pushBack _ lv)).trans
              (affects_setLevel _ p lv)
          have head : (moved.running m.currentLevel).head? = some front := by
            have running : moved.running = Function.update
                (Function.update m.running t.level (erase (m.running t.level) p)) lv
                (Function.update m.running t.level (erase (m.running t.level) p) lv ++ [p]) := rfl
            have erased : (Function.update m.running t.level (erase (m.running t.level) p)
                m.currentLevel).head? = some front := by
              by_cases here : m.currentLevel = t.level
              · rw [here, Function.update_self]
                exact head?_erase (here ▸ front') notFront
              · rw [Function.update_of_ne here, front']
            rw [running]
            by_cases here : m.currentLevel = lv
            · rw [here, Function.update_self, List.head?_append, ← here, erased]
              rfl
            · rw [Function.update_of_ne here, erased]
          split at changed
          · cases changed
            exact ⟨affects.congr rfl rfl rfl, head⟩
          · rw [← Option.some.inj changed]
            exact ⟨affects, head⟩
        · rename_i isFront
          have isFront := not_not.mp isFront
          subst isFront
          cases queue : m.running m.currentLevel with
          | nil =>
              rw [queue] at front'
              cases front'
          | cons first rest =>
              rw [queue] at front'
              cases front'
              rw [queue, List.tail_cons] at changed
              set moved := (((m.setQueue m.currentLevel rest).pushFront lv p).setLevel p lv)
                with movedEq
              have affects : Affects p (fun t => { t with level := lv }) m moved :=
                ((affects_popFront m queue).trans (affects_pushFront _ lv)).trans
                  (affects_setLevel _ p lv)
              have head : (moved.running lv).head? = some p := by
                rw [movedEq, running_setLevel, pushFront, running_setQueue, Function.update_self]
                rfl
              split at changed
              · cases changed
                exact ⟨affects.congr rfl rfl rfl, head⟩
              · cases changed
                exact ⟨affects.congr rfl rfl rfl, head⟩

/-- `Wakeup` of a running task changes at most its level. -/
theorem wakeup_running {level : Int} (woken : m.wakeup p level = some m') {t : Task}
    (found : m.task? p = some t) (running : t.running = true) :
    m' = m ∨ ∃ lv, lv ≠ t.level ∧ Affects p (fun t => { t with level := lv }) m m' ∧
      m'.currentTask = m.currentTask := by
  simp only [wakeup, found, Option.bind_eq_bind, Option.bind_some, running, if_true] at woken
  exact changeLevelRunning_cases woken found

/-- `Wakeup` of a running task without a level does nothing. -/
theorem wakeup_of_running {t : Task} (found : m.task? p = some t) (running : t.running = true) :
    m.wakeup p (-1) = some m := by
  simp [wakeup, changeLevelRunning, found, running]

/-- `Wakeup` sets the flag of one task, and the current task stays. -/
theorem affects_wakeup {level : Int} (woken : m.wakeup p level = some m') :
    (∃ lv, Affects p (fun t => { t with level := lv, running := true }) m m') ∧
      ∀ c, m.currentTask = some c → m'.currentTask = some c := by
  cases found : m.task? p with
  | none =>
      simp only [wakeup, found] at woken
      cases woken
  | some t =>
      cases running : t.running with
      | true =>
          rcases wakeup_running woken found running with rfl | ⟨lv, -, affects, same⟩
          · refine ⟨⟨t.level, (Affects.refl m').of_eq ?_⟩, fun _ => id⟩
            intro t' found'
            rw [found] at found'
            cases found'
            rw [← running]
            rfl
          · refine ⟨⟨lv, affects.of_eq ?_⟩, fun _ => same.trans⟩
            intro t' found'
            rw [found] at found'
            cases found'
            rw [← running]
      | false =>
          simp only [wakeup, found, Option.bind_eq_bind, Option.bind_some, running] at woken
          rw [if_neg (by decide)] at woken
          generalize (if level < 0 then t.level else level.toNat) = lv at woken
          set queued := (((m.setLevel p lv).setRunning p true).pushBack lv p) with queuedEq
          have affects : Affects p (fun t => { t with level := lv, running := true }) m queued :=
            ((affects_setLevel m p lv).trans (affects_setRunning _ p true)).trans
              (affects_pushBack _ lv)
          have head (c : Nat) (current : m.currentTask = some c) : queued.currentTask = some c := by
            rw [currentTask] at current
            change (Function.update m.running lv (m.running lv ++ [p]) m.currentLevel).head? = some c
            by_cases here : m.currentLevel = lv
            · rw [here, Function.update_self, List.head?_append, ← here, current]
              rfl
            · rw [Function.update_of_ne here, current]
          split at woken
          · cases woken
            exact ⟨⟨lv, affects.congr rfl rfl rfl⟩, head⟩
          · rw [← Option.some.inj woken]
            exact ⟨⟨lv, affects⟩, head⟩

/-- `Task::SendMessage` appends to the messages of one task and wakes it up. -/
theorem affects_taskSendMessage {msg : Message} (sent : m.taskSendMessage p msg = some m') :
    (∃ lv, Affects p (fun t => { t with msgs := t.msgs ++ [msg], level := lv, running := true })
      m m') ∧ ∀ c, m.currentTask = some c → m'.currentTask = some c := by
  cases found : m.task? p with
  | none =>
      simp only [taskSendMessage, found] at sent
      cases sent
  | some t =>
      simp only [taskSendMessage, found, Option.bind_eq_bind, Option.bind_some] at sent
      rcases affects_wakeup sent with ⟨⟨lv, affects⟩, head⟩
      have appended : Affects p (fun t => { t with msgs := t.msgs ++ [msg] }) m _ :=
        affects_modify m fun _ => rfl
      exact ⟨⟨lv, appended.trans affects⟩, head⟩

/-- `Task::ReceiveMessage` takes the first message of a task. -/
theorem affects_receiveMessage {msg : Option Message} (received : m.receiveMessage p = some (m', msg)) :
    Affects p (fun t => { t with msgs := t.msgs.tail }) m m' ∧ m'.running = m.running ∧
      m'.currentTask = m.currentTask ∧ ∃ t, m.task? p = some t ∧ msg = t.msgs.head? := by
  cases found : m.task? p with
  | none =>
      simp only [receiveMessage, found] at received
      cases received
  | some t =>
      simp only [receiveMessage, found, Option.bind_eq_bind, Option.bind_some] at received
      cases received
      exact ⟨affects_modify m fun _ => rfl, rfl, rfl, t, rfl, rfl⟩

/-- `Finish` removes the current task and wakes its waiter up. -/
theorem finish_cases {exitCode : Int} (finished : m.finish exitCode = some m')
    (current : m.currentTask = some c) :
    ∃ m₁, (∀ q, m₁.task? q = if q = c then none else m.task? q) ∧ m₁.latestId = m.latestId ∧
      (∀ keep : Nat → Bool, keep c = false → ∀ l,
        (m₁.running l).filter keep = (m.running l).filter keep) ∧
      (m.finishWaiter c = none → m' = m₁) ∧
      ∀ w, m.finishWaiter c = some w → m₁.wakeup w (-1) = some m' := by
  rw [finish] at finished
  cases rotated : m.rotateCurrentRunQueue true with
  | none =>
      rw [rotated] at finished
      cases finished
  | some result =>
      rcases result with ⟨m₀, c'⟩
      have same := current_of_rotate rotated
      rw [current] at same
      cases same
      have affects := affects_rotate rotated
      rcases rotate_keeps rotated with ⟨tasks, waiters, -⟩
      have removed (m₁ : TaskManager) (tasks₁ : m₁.tasks = m₀.tasks.filter (·.id ≠ c)) (q : Nat) :
          m₁.task? q = if q = c then none else m.task? q := by
        rw [task?, tasks₁, find?_filter_id, tasks]
        rfl
      cases found : m₀.task? c with
      | none =>
          simp only [rotated, found, Option.bind_eq_bind, Option.bind_some] at finished
          cases finished
      | some t =>
          simp only [rotated, found, Option.bind_eq_bind, Option.bind_some] at finished
          rw [waiters] at finished
          set removed₀ : TaskManager := { m₀ with
            tasks := m₀.tasks.filter (·.id ≠ c)
            finishTasks := Function.update m₀.finishTasks c (some exitCode)
            finishWaiter := m.finishWaiter }
          cases waiting : m.finishWaiter c with
          | none =>
              rw [waiting] at finished
              refine ⟨removed₀, removed _ rfl, affects.latestId, affects.order,
                fun _ => (Option.some.inj finished).symm, ?_⟩
              rintro w ⟨⟩
          | some w =>
              rw [waiting] at finished
              refine ⟨{ removed₀ with finishWaiter := Function.update m.finishWaiter c none },
                removed _ rfl, affects.latestId, affects.order, ?_, ?_⟩
              · rintro ⟨⟩
              · rintro w' ⟨⟩
                exact finished

/-- `Finish` removes the current task, and brings none back. -/
theorem task?_finish_eq_none {exitCode : Int} (finished : m.finish exitCode = some m')
    (current : m.currentTask = some c) {q : Nat} (absent : q = c ∨ m.task? q = none) :
    m'.task? q = none := by
  rcases finish_cases finished current with ⟨m₁, removed, -, -, noWaiter, hasWaiter⟩
  have absent₁ : m₁.task? q = none := by
    rw [removed]
    split
    · rfl
    · rename_i ne
      exact absent.resolve_left ne
  cases waiting : m.finishWaiter c with
  | none => rw [noWaiter waiting, absent₁]
  | some w =>
      rcases (affects_wakeup (hasWaiter w waiting)).1 with ⟨lv, affects⟩
      rw [affects.lookup, absent₁]
      split <;> rfl

end Mikanos.TaskManager
