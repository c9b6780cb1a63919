import Mikanos.Task.Queues

/-!
# The scheduler invariant

The current level always has a task to run, and unless a level change is
pending no queue above it has one.  Each operation of the manager is given one
specification here: from a state that satisfies the invariant it has a result,
the result satisfies the invariant again, and the operation does to
`CurrentTask()` what the source promises.
-/

namespace Mikanos.TaskManager

/-- No task waits at a level above the current one. -/
def Top (m : TaskManager) : Prop :=
  ∀ l, m.currentLevel < l → m.running l = []

/-- The invariant of the manager. -/
structure Inv (m : TaskManager) : Prop where
  queues : Queues m
  current_le : m.currentLevel ≤ kMaxLevel
  current_ne_nil : m.running m.currentLevel ≠ []
  settled : m.levelChanged = false → Top m

namespace Inv

variable {m : TaskManager}

/-- `CurrentTask()` is defined. -/
theorem currentTask_isSome (inv : Inv m) : ∃ p, m.currentTask = some p := by
  rw [currentTask]
  cases queue : m.running m.currentLevel with
  | nil => exact absurd queue inv.current_ne_nil
  | cons p rest => exact ⟨p, rfl⟩

/-- The current task is running at the current level. -/
theorem task?_current (inv : Inv m) {p : Nat} (current : m.currentTask = some p) :
    ∃ t, m.task? p = some t ∧ t.running = true ∧ t.level = m.currentLevel :=
  inv.queues.task?_of_mem_running (List.mem_of_mem_head? current)

/-- With no task above the current level, the current task's level is the
maximum over all running tasks. -/
theorem level_le_current (inv : Inv m) (top : Top m) {p : Nat} {current t : Task}
    (isCurrent : m.currentTask = some p) (found : m.task? p = some current)
    (member : t ∈ m.tasks) (running : t.running = true) : t.level ≤ current.level := by
  obtain ⟨current', found', -, level⟩ := inv.task?_current isCurrent
  rw [found] at found'
  cases found'
  rw [level]
  by_contra above
  have queued : t.id ∈ m.running t.level :=
    (inv.queues.mem_iff _ _).mpr ⟨t, task?_of_mem inv.queues.ids_nodup member, running, rfl⟩
  rw [top t.level (by omega)] at queued
  cases queued

end Inv

/-! ## Rotation -/

theorem highestLevel_spec (running : Nat → List Nat) (k : Nat)
    (someTask : ∃ l ≤ k, running l ≠ []) :
    ∃ lv, highestLevel running k = some lv ∧ lv ≤ k ∧ running lv ≠ [] ∧
      ∀ l, lv < l → l ≤ k → running l = [] := by
  induction k with
  | zero =>
      obtain ⟨l, le, nonempty⟩ := someTask
      obtain rfl : l = 0 := by omega
      exact ⟨0, by rw [highestLevel, if_neg nonempty], le, nonempty, by omega⟩
  | succ k ih =>
      by_cases empty : running (k + 1) = []
      · have below : ∃ l ≤ k, running l ≠ [] := by
          obtain ⟨l, le, nonempty⟩ := someTask
          refine ⟨l, ?_, nonempty⟩
          by_contra above
          obtain rfl : l = k + 1 := by omega
          exact nonempty empty
        obtain ⟨lv, found, le, nonempty, above⟩ := ih below
        refine ⟨lv, by rw [highestLevel, if_pos empty, found], by omega, nonempty, ?_⟩
        intro l lower upper
        by_cases last : l = k + 1
        · rw [last, empty]
        · exact above l lower (by omega)
      · exact ⟨k + 1, by rw [highestLevel, if_neg empty], le_rfl, empty, by omega⟩

@[simp] theorem tasks_settle (m : TaskManager) : m.settle.tasks = m.tasks := by
  rw [settle]; split <;> rfl

@[simp] theorem running_settle (m : TaskManager) : m.settle.running = m.running := by
  rw [settle]; split <;> rfl

@[simp] theorem latestId_settle (m : TaskManager) : m.settle.latestId = m.latestId := by
  rw [settle]; split <;> rfl

@[simp] theorem finishWaiter_settle (m : TaskManager) :
    m.settle.finishWaiter = m.finishWaiter := by
  rw [settle]; split <;> rfl

@[simp] theorem finishTasks_settle (m : TaskManager) :
    m.settle.finishTasks = m.finishTasks := by
  rw [settle]; split <;> rfl

theorem Queues.of_eq {m m' : TaskManager} (queues : Queues m) (tasks : m'.tasks = m.tasks)
    (running : m'.running = m.running) (latestId : m'.latestId = m.latestId) : Queues m' where
  ids_nodup := by rw [tasks]; exact queues.ids_nodup
  ids_le := by rw [tasks, latestId]; exact queues.ids_le
  level_le := by
    intro p
    rw [task?_congr tasks]
    exact queues.level_le p
  nodup := by rw [running]; exact queues.nodup
  mem_iff := by
    intro l p
    rw [task?_congr tasks, running]
    exact queues.mem_iff l p
  idle := by rw [task?_congr tasks]; exact queues.idle

/-- Following a pending level change establishes the whole invariant. -/
theorem Queues.settle {m : TaskManager} (queues : Queues m)
    (current_le : m.currentLevel ≤ kMaxLevel)
    (settled : m.levelChanged = false → m.running m.currentLevel ≠ [] ∧ Top m) :
    Inv m.settle ∧ Top m.settle := by
  have queues' : Queues m.settle := queues.of_eq (by simp) (by simp) (by simp)
  cases changed : m.levelChanged with
  | false =>
      have same : m.settle = m := by rw [TaskManager.settle, if_neg (by simp [changed])]
      rw [same]
      obtain ⟨nonempty, top⟩ := settled changed
      exact ⟨⟨queues, current_le, nonempty, fun _ => top⟩, top⟩
  | true =>
      obtain ⟨lv, found, le, nonempty, above⟩ := highestLevel_spec m.running kMaxLevel
        ⟨0, Nat.zero_le _, queues.running_zero_ne_nil⟩
      have level : m.settle.currentLevel = lv := by
        rw [TaskManager.settle, if_pos changed]
        simp [found]
      have top : Top m.settle := by
        intro l lower
        rw [level] at lower
        rw [running_settle]
        by_cases upper : l ≤ kMaxLevel
        · exact above l lower upper
        · exact queues.running_eq_nil (by omega)
      refine ⟨⟨queues', by rw [level]; exact le, ?_, fun _ => top⟩, top⟩
      rw [level, running_settle]
      exact nonempty

/-- Rotation changes the current queue and level only. -/
theorem rotate_keeps {m m' : TaskManager} {currentSleep : Bool} {c : Nat}
    (rotated : m.rotateCurrentRunQueue currentSleep = some (m', c)) :
    m'.tasks = m.tasks ∧ m'.finishWaiter = m.finishWaiter ∧ m'.finishTasks = m.finishTasks := by
  cases queue : m.running m.currentLevel with
  | nil => simp [rotateCurrentRunQueue, queue] at rotated
  | cons first rest =>
      simp only [rotateCurrentRunQueue, queue, Option.some.injEq, Prod.mk.injEq] at rotated
      obtain ⟨rfl, rfl⟩ := rotated
      generalize (if currentSleep = true then rest else rest ++ [first]) = next
      split <;> simp [setQueue]

/-- Rotation, for the task at the front of the current queue. -/
theorem rotate_spec {m : TaskManager} (currentSleep : Bool) {c : Nat} {rest : List Nat}
    (front : m.running m.currentLevel = c :: rest)
    (queues : Queues (m.setQueue m.currentLevel (if currentSleep then rest else rest ++ [c])))
    (current_le : m.currentLevel ≤ kMaxLevel) (settled : m.levelChanged = false → Top m) :
    ∃ m', m.rotateCurrentRunQueue currentSleep = some (m', c) ∧ Inv m' ∧ Top m' := by
  set queue := if currentSleep then rest else rest ++ [c] with queueEq
  set m₁ := m.setQueue m.currentLevel queue with m₁Eq
  have rotated : m.rotateCurrentRunQueue currentSleep =
      some ((if queue = [] then { m₁ with levelChanged := true } else m₁).settle, c) := by
    rw [rotateCurrentRunQueue, front]
  by_cases empty : queue = []
  · rw [if_pos empty] at rotated
    obtain ⟨inv, top⟩ := Queues.settle (m := { m₁ with levelChanged := true })
      (queues.of_eq rfl rfl rfl) current_le (by intro changed; cases changed)
    exact ⟨_, rotated, inv, top⟩
  · rw [if_neg empty] at rotated
    obtain ⟨inv, top⟩ := Queues.settle (m := m₁) queues current_le (by
      intro unchanged
      refine ⟨by simpa [m₁Eq] using empty, ?_⟩
      intro l above
      have above : m.currentLevel < l := above
      rw [m₁Eq, running_setQueue, Function.update_of_ne (by omega)]
      exact settled unchanged l above)
    exact ⟨_, rotated, inv, top⟩

theorem Inv.front (m : TaskManager) (inv : Inv m) :
    ∃ c rest, m.running m.currentLevel = c :: rest ∧ m.currentTask = some c := by
  cases queue : m.running m.currentLevel with
  | nil => exact absurd queue inv.current_ne_nil
  | cons c rest => exact ⟨c, rest, rfl, by rw [currentTask, queue]; rfl⟩

/-- Moving the current task to the end of its queue keeps the queues. -/
theorem Inv.queues_requeue {m : TaskManager} (inv : Inv m) {c : Nat} {rest : List Nat}
    (front : m.running m.currentLevel = c :: rest) :
    Queues (m.setQueue m.currentLevel (rest ++ [c])) := by
  obtain ⟨t, found, running, level⟩ := inv.queues.task?_of_mem_running
    (show c ∈ m.running m.currentLevel by rw [front]; exact List.mem_cons_self)
  have nodup := inv.queues.nodup m.currentLevel
  rw [front, List.nodup_cons] at nodup
  have sameMem : ∀ l q, q ∈ (m.setQueue m.currentLevel (rest ++ [c])).running l ↔
      q ∈ m.running l := by
    intro l q
    by_cases h : l = m.currentLevel
    · subst h
      simp [front, or_comm]
    · simp [Function.update_of_ne h]
  exact {
    ids_nodup := inv.queues.ids_nodup
    ids_le := inv.queues.ids_le
    level_le := inv.queues.level_le
    nodup := by
      intro l
      by_cases h : l = m.currentLevel
      · subst h
        simp [List.nodup_append, nodup.2]
        intro a member same
        exact nodup.1 (same ▸ member)
      · simpa [Function.update_of_ne h] using inv.queues.nodup l
    mem_iff := fun l q => (sameMem l q).trans (inv.queues.mem_iff l q)
    idle := inv.queues.idle }

/-- `SwitchTask` always has a result, and it follows every pending level
change. -/
theorem Inv.switchTask {m : TaskManager} (inv : Inv m) :
    ∃ m', m.switchTask = some m' ∧ Inv m' ∧ Top m' ∧ m'.tasks = m.tasks ∧
      m'.finishWaiter = m.finishWaiter ∧ m'.finishTasks = m.finishTasks := by
  obtain ⟨c, rest, front, -⟩ := inv.front
  obtain ⟨m', rotated, inv', top⟩ :=
    rotate_spec false front (inv.queues_requeue front) inv.current_le inv.settled
  exact ⟨m', by rw [TaskManager.switchTask, rotated]; rfl, inv', top, rotate_keeps rotated⟩

/-! ## Sleeping -/

/-- Taking the current task out of its queue, with its `running_` flag cleared. -/
theorem Inv.queues_sleepCurrent {m : TaskManager} (inv : Inv m) {p : Nat} {rest : List Nat}
    (front : m.running m.currentLevel = p :: rest) (notIdle : p ≠ idleTask) :
    Queues ((m.setRunning p false).setQueue m.currentLevel rest) := by
  obtain ⟨t, found, -, level⟩ := inv.queues.task?_of_mem_running
    (show p ∈ m.running m.currentLevel by rw [front]; exact List.mem_cons_self)
  have nodup := inv.queues.nodup m.currentLevel
  rw [front, List.nodup_cons] at nodup
  have absent : ∀ l, l ≠ m.currentLevel → p ∉ m.running l := by
    intro l ne queued
    obtain ⟨t', found', -, level'⟩ := inv.queues.task?_of_mem_running queued
    rw [found] at found'
    cases found'
    exact ne (level'.symm.trans level)
  refine inv.queues.update (p := p) { t with running := false }
    (map_id_setRunning m p false) rfl ?_ (inv.queues.level_le p t found) ?_ ?_ ?_
    (fun idle => absurd idle notIdle)
  · intro q
    rw [task?_setQueue, task?_setRunning]
    by_cases h : q = p
    · subst h
      simp [found]
    · simp [h]
  · intro l
    by_cases h : l = m.currentLevel
    · subst h
      simpa using nodup.2
    · simpa [Function.update_of_ne h] using inv.queues.nodup l
  · intro l
    by_cases h : l = m.currentLevel
    · subst h
      simp [nodup.1]
    · simp [Function.update_of_ne h, absent l h]
  · intro l q ne
    by_cases h : l = m.currentLevel
    · subst h
      simp [front, ne]
    · simp [Function.update_of_ne h]

/-- Taking another task out of its queue, with its `running_` flag cleared. -/
theorem Inv.queues_sleepOther {m : TaskManager} (inv : Inv m) {p : Nat} {t : Task}
    (found : m.task? p = some t) (notIdle : p ≠ idleTask) :
    Queues ((m.setRunning p false).setQueue t.level (erase (m.running t.level) p)) := by
  have absent : ∀ l, l ≠ t.level → p ∉ m.running l := by
    intro l ne queued
    obtain ⟨t', found', -, level'⟩ := inv.queues.task?_of_mem_running queued
    rw [found] at found'
    cases found'
    exact ne level'.symm
  refine inv.queues.update (p := p) { t with running := false }
    (map_id_setRunning m p false) rfl ?_ (inv.queues.level_le p t found) ?_ ?_ ?_
    (fun idle => absurd idle notIdle)
  · intro q
    rw [task?_setQueue, task?_setRunning]
    by_cases h : q = p
    · subst h
      simp [found]
    · simp [h]
  · intro l
    by_cases h : l = t.level
    · subst h
      simpa using nodup_erase p (inv.queues.nodup t.level)
    · simpa [Function.update_of_ne h] using inv.queues.nodup l
  · intro l
    by_cases h : l = t.level
    · subst h
      simp
    · simp [Function.update_of_ne h, absent l h]
  · intro l q ne
    by_cases h : l = t.level
    · subst h
      simp [ne]
    · simp [Function.update_of_ne h]

/-- `Sleep` of a live task other than the idle task. -/
theorem Inv.sleep {m : TaskManager} (inv : Inv m) {p : Nat} {t : Task}
    (found : m.task? p = some t) (notIdle : p ≠ idleTask) :
    ∃ m', m.sleep p = some m' ∧ Inv m' ∧ (m.currentTask = some p → Top m') ∧
      m'.tasks.map Task.id = m.tasks.map Task.id ∧ m'.finishWaiter = m.finishWaiter ∧
      m'.finishTasks = m.finishTasks := by
  obtain ⟨c, rest, front, current⟩ := inv.front
  cases running : t.running with
  | false =>
      refine ⟨m, by simp [TaskManager.sleep, found, running], inv, ?_, rfl, rfl, rfl⟩
      intro isCurrent
      obtain ⟨t', found', running', -⟩ := inv.task?_current isCurrent
      rw [found] at found'
      cases found'
      rw [running] at running'
      cases running'
  | true =>
      have current' : (m.setRunning p false).currentTask = some c := current
      by_cases self : p = c
      · subst self
        obtain ⟨m', rotated, inv', top⟩ :=
          rotate_spec (m := m.setRunning p false) true front
            (inv.queues_sleepCurrent front notIdle) inv.current_le inv.settled
        obtain ⟨tasks, waiter, finished⟩ := rotate_keeps rotated
        refine ⟨m', ?_, inv', fun _ => top, ?_, waiter, finished⟩
        · simp [TaskManager.sleep, found, running, current', rotated]
        · rw [tasks]
          exact map_id_setRunning m p false
      · have keepsFront : ∀ l, l = m.currentLevel →
            (Function.update m.running t.level (erase (m.running t.level) p) l).head? =
              some c := by
          rintro l rfl
          by_cases h : m.currentLevel = t.level
          · rw [h, Function.update_self]
            rw [currentTask, h] at current
            exact head?_erase current self
          · rw [Function.update_of_ne h]
            exact current
        refine ⟨_, by simp [TaskManager.sleep, found, running, current', self],
          ⟨inv.queues_sleepOther found notIdle, inv.current_le, ?_, ?_⟩, ?_,
          map_id_setRunning m p false, rfl, rfl⟩
        · intro empty
          have head := keepsFront _ rfl
          rw [show Function.update m.running t.level (erase (m.running t.level) p)
            m.currentLevel = [] from empty] at head
          cases head
        · intro unchanged l above
          have before := inv.settled unchanged l above
          by_cases h : l = t.level
          · subst h
            simpa using erase_eq_nil p before
          · simpa [Function.update_of_ne h] using before
        · intro isCurrent
          rw [current] at isCurrent
          exact absurd (Option.some.inj isCurrent).symm self

/-! ## Waking up and changing levels -/

/-- A task that is not running is in no queue, and one that is running is in no
queue of another level. -/
theorem Inv.not_mem_running {m : TaskManager} (inv : Inv m) {p l : Nat} {t : Task}
    (found : m.task? p = some t) (elsewhere : t.running = true → t.level ≠ l) :
    p ∉ m.running l := by
  intro queued
  obtain ⟨t', found', running, level⟩ := inv.queues.task?_of_mem_running queued
  rw [found] at found'
  cases found'
  exact elsewhere running level

theorem nodup_snoc {queue : List Nat} {p : Nat} (nodup : queue.Nodup) (absent : p ∉ queue) :
    (queue ++ [p]).Nodup := by
  rw [List.nodup_append]
  refine ⟨nodup, List.nodup_singleton p, ?_⟩
  intro a member b single
  rw [List.mem_singleton.mp single]
  exact fun same => absent (same ▸ member)

/-- Queueing a sleeping task at a level keeps the queues. -/
theorem Inv.queues_wakeup {m : TaskManager} (inv : Inv m) {p lv : Nat} {t : Task}
    (found : m.task? p = some t) (asleep : t.running = false) (lv_le : lv ≤ kMaxLevel) :
    Queues (((m.setLevel p lv).setRunning p true).pushBack lv p) := by
  have absent : ∀ l, p ∉ m.running l := by
    intro l
    apply inv.not_mem_running found
    intro running
    rw [asleep] at running
    cases running
  have notIdle : p ≠ idleTask := by
    rintro rfl
    obtain ⟨t', found', running, -⟩ := inv.queues.idle
    rw [found] at found'
    cases found'
    rw [asleep] at running
    cases running
  refine inv.queues.update (p := p) { t with level := lv, running := true }
    (by simp [pushBack]) rfl ?_ lv_le ?_ ?_ ?_ (fun idle => absurd idle notIdle)
  · intro q
    rw [pushBack, task?_setQueue, task?_setRunning, task?_setLevel]
    by_cases h : q = p
    · subst h
      simp [found]
    · simp [h]
  · intro l
    by_cases h : l = lv
    · subst h
      simpa [pushBack] using nodup_snoc (inv.queues.nodup l) (absent l)
    · simpa [pushBack, Function.update_of_ne h] using inv.queues.nodup l
  · intro l
    by_cases h : l = lv
    · subst h
      simp [pushBack]
    · simp [pushBack, Function.update_of_ne h, absent l, Ne.symm h]
  · intro l q ne
    by_cases h : l = lv
    · subst h
      simp [pushBack, ne]
    · simp [pushBack, Function.update_of_ne h]

/-- Requeueing a running task at another level keeps the queues, whichever end
of the new queue it is put at. -/
theorem Inv.queues_changeLevel {m m' : TaskManager} (inv : Inv m) {p lv : Nat} {t : Task}
    (found : m.task? p = some t) (awake : t.running = true) (notIdle : p ≠ idleTask)
    (lv_le : lv ≤ kMaxLevel) (ne : lv ≠ t.level)
    (ids : m'.tasks.map Task.id = m.tasks.map Task.id) (latest : m'.latestId = m.latestId)
    (lookup : ∀ q, m'.task? q = if q = p then some { t with level := lv } else m.task? q)
    (old : m'.running t.level = erase (m.running t.level) p)
    (new : m'.running lv = m.running lv ++ [p] ∨ m'.running lv = p :: m.running lv)
    (rest : ∀ l, l ≠ t.level → l ≠ lv → m'.running l = m.running l) : Queues m' := by
  have absent : ∀ l, l ≠ t.level → p ∉ m.running l := by
    intro l elsewhere
    exact inv.not_mem_running found fun _ => Ne.symm elsewhere
  have newMem : ∀ q, q ∈ m'.running lv ↔ q ∈ m.running lv ∨ q = p := by
    intro q
    rcases new with new | new <;> simp [new, or_comm]
  refine inv.queues.update { t with level := lv } ids latest lookup lv_le ?_ ?_ ?_ (fun idle => absurd idle notIdle)
  · intro l
    by_cases isOld : l = t.level
    · rw [isOld, old]
      exact nodup_erase p (inv.queues.nodup t.level)
    · by_cases isNew : l = lv
      · rw [isNew]
        rcases new with new | new <;> rw [new]
        · exact nodup_snoc (inv.queues.nodup lv) (absent lv ne)
        · exact List.nodup_cons.mpr ⟨absent lv ne, inv.queues.nodup lv⟩
      · rw [rest l isOld isNew]
        exact inv.queues.nodup l
  · intro l
    by_cases isOld : l = t.level
    · rw [isOld, old]
      simp [ne]
    · by_cases isNew : l = lv
      · rw [isNew, newMem]
        simp [awake]
      · rw [rest l isOld isNew]
        simp [absent l isOld, Ne.symm isNew]
  · intro l q other
    by_cases isOld : l = t.level
    · rw [isOld, old]
      simp [other]
    · by_cases isNew : l = lv
      · rw [isNew, newMem]
        simp [other]
      · rw [rest l isOld isNew]

/-- Raising the flag of a pending level change when a level above the current
one was filled. -/
def flagAbove (m : TaskManager) (lv : Nat) : TaskManager :=
  if m.currentLevel < lv then { m with levelChanged := true } else m

section FlagAbove

variable (m : TaskManager) (lv : Nat)

@[simp] theorem tasks_flagAbove : (m.flagAbove lv).tasks = m.tasks := by
  rw [flagAbove]; split <;> rfl

@[simp] theorem running_flagAbove : (m.flagAbove lv).running = m.running := by
  rw [flagAbove]; split <;> rfl

@[simp] theorem latestId_flagAbove : (m.flagAbove lv).latestId = m.latestId := by
  rw [flagAbove]; split <;> rfl

@[simp] theorem currentLevel_flagAbove : (m.flagAbove lv).currentLevel = m.currentLevel := by
  rw [flagAbove]; split <;> rfl

@[simp] theorem finishWaiter_flagAbove : (m.flagAbove lv).finishWaiter = m.finishWaiter := by
  rw [flagAbove]; split <;> rfl

@[simp] theorem finishTasks_flagAbove : (m.flagAbove lv).finishTasks = m.finishTasks := by
  rw [flagAbove]; split <;> rfl

end FlagAbove

/-- The invariant after a change that leaves the current task at the front of
its queue and fills at most one level. -/
theorem Inv.of_filled {m m' : TaskManager} (inv : Inv m) (lv : Nat) {c : Nat} (queues : Queues m')
    (level : m'.currentLevel = m.currentLevel) (changed : m'.levelChanged = m.levelChanged)
    (front : (m'.running m.currentLevel).head? = some c)
    (rest : ∀ l, l ≠ lv → m.running l = [] → m'.running l = []) : Inv (m'.flagAbove lv) where
  queues := queues.of_eq (by simp) (by simp) (by simp)
  current_le := by
    rw [currentLevel_flagAbove, level]
    exact inv.current_le
  current_ne_nil := by
    rw [currentLevel_flagAbove, running_flagAbove, level]
    intro empty
    rw [empty] at front
    cases front
  settled := by
    intro unchanged l above
    rw [currentLevel_flagAbove, level] at above
    rw [running_flagAbove]
    by_cases below : m'.currentLevel < lv
    · rw [flagAbove, if_pos below] at unchanged
      cases unchanged
    · rw [flagAbove, if_neg below, changed] at unchanged
      exact rest l (by omega) (inv.settled unchanged l above)

/-- `ChangeLevelRunning` of a running task. -/
theorem Inv.changeLevelRunning {m : TaskManager} (inv : Inv m) {p : Nat} {t : Task} {level : Int}
    (found : m.task? p = some t) (awake : t.running = true) (level_le : level ≤ kMaxLevel)
    (idle : p = idleTask → level < 0 ∨ level = 0) :
    ∃ m', m.changeLevelRunning p level = some m' ∧ Inv m' ∧
      (m.currentTask ≠ some p ∨ level < 0 → m'.currentTask = m.currentTask) ∧
      m'.tasks.map Task.id = m.tasks.map Task.id ∧ m'.finishWaiter = m.finishWaiter ∧
      m'.finishTasks = m.finishTasks := by
  obtain ⟨c, tail, frontEq, current⟩ := inv.front
  by_cases keep : level < 0 ∨ level = t.level
  · exact ⟨m, by simp [TaskManager.changeLevelRunning, found, keep], inv, fun _ => rfl, rfl, rfl,
      rfl⟩
  obtain ⟨lv, rfl⟩ : ∃ lv : Nat, level = lv := ⟨level.toNat, by omega⟩
  have ne : lv ≠ t.level := by omega
  have lv_le : lv ≤ kMaxLevel := by omega
  have notIdle : p ≠ idleTask := by
    rintro rfl
    obtain ⟨t', found', -, level'⟩ := inv.queues.idle
    rw [found] at found'
    cases found'
    have := idle rfl
    omega
  by_cases self : p = c
  · subst self
    obtain ⟨t', found', -, levelEq⟩ := inv.task?_current current
    rw [found] at found'
    cases found'
    have erased : erase (m.running t.level) p = tail := by
      have nodup := inv.queues.nodup t.level
      rw [levelEq, frontEq, List.nodup_cons] at nodup
      rw [levelEq, frontEq, erase]
      simp only [ne_eq, decide_not, decide_true, Bool.not_true, Bool.false_eq_true,
        not_false_eq_true, List.filter_cons_of_neg, List.filter_eq_self]
      intro q member
      have : q ≠ p := fun same => nodup.1 (same ▸ member)
      simpa using this
    set moved := (((m.setQueue m.currentLevel tail).pushFront lv p).setLevel p lv) with movedEq
    have runningEq : moved.running = Function.update (Function.update m.running m.currentLevel tail)
        lv (p :: m.running lv) := by
      rw [movedEq, running_setLevel, pushFront, running_setQueue, running_setQueue,
        Function.update_of_ne (levelEq ▸ ne)]
    have queues : ∀ m' : TaskManager, m'.tasks = moved.tasks → m'.running = moved.running →
        m'.latestId = m.latestId → Queues m' := by
      intro m' tasks running latest
      refine inv.queues_changeLevel found awake notIdle lv_le ne ?_ latest ?_ ?_ (.inr ?_) ?_
      · rw [tasks, movedEq, map_id_setLevel]
        rfl
      · intro q
        rw [task?_congr tasks, movedEq, task?_setLevel]
        by_cases h : q = p
        · subst h
          simp [pushFront, found]
        · simp [pushFront, h]
      · rw [running, runningEq, erased, Function.update_of_ne (Ne.symm ne), levelEq,
          Function.update_self]
      · rw [running, runningEq, Function.update_self]
      · intro l notOld notNew
        rw [running, runningEq, Function.update_of_ne notNew,
          Function.update_of_ne (levelEq ▸ notOld)]
    have result : m.changeLevelRunning p lv = some (if m.currentLevel ≤ lv
        then { moved with currentLevel := lv }
        else { moved with currentLevel := lv, levelChanged := true }) := by
      have keep' : ¬ ((lv : Int) < 0 ∨ (lv : Int) = t.level) := keep
      simp only [TaskManager.changeLevelRunning, found, current, frontEq, movedEq,
        Option.bind_eq_bind, Option.bind_some]
      rw [if_neg keep', if_neg (not_not_intro rfl), Int.toNat_natCast]
      rfl
    refine ⟨_, result, ?_, ?_, ?_, ?_, ?_⟩
    · split
      · rename_i upward
        refine ⟨queues _ rfl rfl rfl, lv_le, ?_, ?_⟩
        · simp [runningEq]
        · intro unchanged l above
          have above : lv < l := above
          change moved.running l = []
          rw [runningEq, Function.update_of_ne (by omega), Function.update_of_ne (by omega)]
          exact inv.settled unchanged l (by omega)
      · refine ⟨queues _ rfl rfl rfl, lv_le, ?_, ?_⟩
        · simp [runningEq]
        · intro changed
          cases changed
    · rintro (other | negative)
      · exact absurd current other
      · omega
    · split <;> simp [movedEq, pushFront]
    · split <;> rfl
    · split <;> rfl
  · set moved := ((m.setQueue t.level (erase (m.running t.level) p)).pushBack lv p).setLevel p lv
      with movedEq
    have runningEq : moved.running = Function.update
        (Function.update m.running t.level (erase (m.running t.level) p))
        lv (m.running lv ++ [p]) := by
      rw [movedEq, running_setLevel, pushBack, running_setQueue, running_setQueue,
        Function.update_of_ne ne]
    have queues : Queues moved := by
      refine inv.queues_changeLevel found awake notIdle lv_le ne ?_ rfl ?_ ?_ (.inl ?_) ?_
      · simp [movedEq, pushBack]
      · intro q
        rw [movedEq, task?_setLevel]
        by_cases h : q = p
        · subst h
          simp [pushBack, found]
        · simp [pushBack, h]
      · rw [runningEq, Function.update_of_ne (Ne.symm ne), Function.update_self]
      · rw [runningEq, Function.update_self]
      · intro l notOld notNew
        rw [runningEq, Function.update_of_ne notNew, Function.update_of_ne notOld]
    have front : (moved.running m.currentLevel).head? = some c := by
      rw [runningEq]
      rw [currentTask] at current
      by_cases isNew : m.currentLevel = lv
      · rw [isNew, Function.update_self, ← isNew, List.head?_append, current]
        rfl
      · rw [Function.update_of_ne isNew]
        by_cases isOld : m.currentLevel = t.level
        · rw [isOld, Function.update_self]
          exact head?_erase (isOld ▸ current) self
        · rw [Function.update_of_ne isOld, current]
    have result : m.changeLevelRunning p lv = some (moved.flagAbove lv) := by
      have keep' : ¬ ((lv : Int) < 0 ∨ (lv : Int) = t.level) := keep
      simp only [TaskManager.changeLevelRunning, found, current, movedEq,
        Option.bind_eq_bind, Option.bind_some]
      rw [if_neg keep', if_pos self, Int.toNat_natCast]
      rfl
    have inv' := inv.of_filled lv queues rfl rfl front (by
      intro l notNew empty
      rw [runningEq, Function.update_of_ne notNew]
      by_cases isOld : l = t.level
      · subst isOld
        rw [Function.update_self]
        exact erase_eq_nil p empty
      · rw [Function.update_of_ne isOld, empty])
    refine ⟨_, result, inv', fun _ => ?_, ?_, by simp; rfl, by simp; rfl⟩
    · rw [current, currentTask, running_flagAbove, currentLevel_flagAbove]
      exact front
    · simp [movedEq, pushBack]

/-- `Wakeup` of a live task. -/
theorem Inv.wakeup {m : TaskManager} (inv : Inv m) {p : Nat} {t : Task} (level : Int)
    (found : m.task? p = some t) (level_le : level ≤ kMaxLevel)
    (idle : p = idleTask → level < 0 ∨ level = 0) :
    ∃ m', m.wakeup p level = some m' ∧ Inv m' ∧
      (m.currentTask ≠ some p ∨ level < 0 → m'.currentTask = m.currentTask) ∧
      m'.tasks.map Task.id = m.tasks.map Task.id ∧ m'.finishWaiter = m.finishWaiter ∧
      m'.finishTasks = m.finishTasks := by
  cases awake : t.running with
  | true =>
      obtain ⟨m', changed, rest⟩ := inv.changeLevelRunning found awake level_le idle
      exact ⟨m', by simp [TaskManager.wakeup, found, awake, changed], rest⟩
  | false =>
      obtain ⟨c, tail, frontEq, current⟩ := inv.front
      set lv := if level < 0 then t.level else level.toNat with lvEq
      have lv_le : lv ≤ kMaxLevel := by
        rw [lvEq]
        split
        · exact inv.queues.level_le p t found
        · omega
      set woken := (((m.setLevel p lv).setRunning p true).pushBack lv p) with wokenEq
      have runningEq : woken.running = Function.update m.running lv (m.running lv ++ [p]) := rfl
      have front : (woken.running m.currentLevel).head? = some c := by
        rw [runningEq]
        rw [currentTask] at current
        by_cases isNew : m.currentLevel = lv
        · rw [isNew, Function.update_self, ← isNew, List.head?_append, current]
          rfl
        · rw [Function.update_of_ne isNew, current]
      have result : m.wakeup p level = some (woken.flagAbove lv) := by
        simp [TaskManager.wakeup, found, awake, flagAbove, ← lvEq, ← wokenEq]
      have inv' := inv.of_filled lv (inv.queues_wakeup found awake lv_le) rfl rfl front (by
        intro l notNew empty
        change woken.running l = []
        rw [runningEq, Function.update_of_ne notNew, empty])
      refine ⟨_, result, inv', fun _ => ?_, ?_, by simp; rfl, by simp; rfl⟩
      · rw [current, currentTask, running_flagAbove, currentLevel_flagAbove]
        exact front
      · simp [wokenEq, pushBack]

/-- The scheduler does not look at message queues. -/
theorem Inv.mapMsgs {m : TaskManager} (inv : Inv m) (p : Nat)
    (f : List Message → List Message) :
    Inv (m.modify p fun t => { t with msgs := f t.msgs }) := by
  set sent := m.modify p fun t => { t with msgs := f t.msgs } with sentEq
  have lookup : ∀ q, sent.task? q =
      if q = p then (m.task? q).map fun t => { t with msgs := f t.msgs }
      else m.task? q := by
    intro q
    rw [sentEq, task?_modify]
    exact fun _ => rfl
  have ids : sent.tasks.map Task.id = m.tasks.map Task.id := by
    rw [sentEq, map_id_modify]
    exact fun _ => rfl
  have sameFields : ∀ q (P : Bool → Nat → Prop),
      (∃ t, sent.task? q = some t ∧ P t.running t.level) ↔
        ∃ t, m.task? q = some t ∧ P t.running t.level := by
    intro q P
    rw [lookup]
    split
    · simp
    · rfl
  have queues : Queues sent := {
    ids_nodup := by
      rw [ids]
      exact inv.queues.ids_nodup
    ids_le := inv.queues.ids_le_of_eq ids
    level_le := by
      intro q t found
      obtain ⟨old, foundOld, le⟩ := (sameFields q fun _ l => l = t.level).mp ⟨t, found, rfl⟩
      rw [← le]
      exact inv.queues.level_le q old foundOld
    nodup := inv.queues.nodup
    mem_iff := fun l q =>
      (inv.queues.mem_iff l q).trans (sameFields q fun running level =>
        running = true ∧ level = l).symm
    idle := (sameFields idleTask fun running level => running = true ∧ level = 0).mpr
      inv.queues.idle }
  exact ⟨queues, inv.current_le, inv.current_ne_nil, inv.settled⟩

/-- `Task::SendMessage` to a live task. -/
theorem Inv.taskSendMessage {m : TaskManager} (inv : Inv m) {p : Nat} {t : Task} (msg : Message)
    (found : m.task? p = some t) :
    ∃ m', m.taskSendMessage p msg = some m' ∧ Inv m' ∧ m'.currentTask = m.currentTask ∧
      m'.tasks.map Task.id = m.tasks.map Task.id ∧ m'.finishWaiter = m.finishWaiter ∧
      m'.finishTasks = m.finishTasks := by
  have found' : (m.modify p fun t => { t with msgs := t.msgs ++ [msg] }).task? p =
      some { t with msgs := t.msgs ++ [msg] } := by
    rw [task?_modify, if_pos rfl, found]
    · rfl
    · exact fun _ => rfl
  obtain ⟨m', woken, inv', current, ids, waiter, finished⟩ :=
    (inv.mapMsgs p fun msgs => msgs ++ [msg]).wakeup (-1) found' (by decide) (fun _ => .inl (by decide))
  refine ⟨m', by simp [TaskManager.taskSendMessage, found, woken], inv', ?_, ?_, waiter, finished⟩
  · exact current (.inr (by decide))
  · rw [ids, map_id_modify]
    exact fun _ => rfl

/-- `Task::ReceiveMessage` on a live task. -/
theorem Inv.receiveMessage {m : TaskManager} (inv : Inv m) {p : Nat} {t : Task}
    (found : m.task? p = some t) :
    ∃ m', m.receiveMessage p = some (m', t.msgs.head?) ∧ Inv m' ∧
      m'.currentTask = m.currentTask ∧ m'.tasks.map Task.id = m.tasks.map Task.id ∧
      m'.finishWaiter = m.finishWaiter ∧ m'.finishTasks = m.finishTasks := by
  refine ⟨_, by simp [TaskManager.receiveMessage, found], inv.mapMsgs p List.tail, rfl, ?_,
    rfl, rfl⟩
  rw [map_id_modify]
  exact fun _ => rfl

/-! ## Creating and finishing tasks -/

theorem Inv.newTask {m : TaskManager} (inv : Inv m) : Inv m.newTask.1 :=
  ⟨inv.queues.newTask, inv.current_le, inv.current_ne_nil, inv.settled⟩

/-- Erasing the current task, which is no longer queued. -/
theorem Inv.queues_finish {m : TaskManager} (inv : Inv m) {c : Nat} {rest : List Nat}
    (front : m.running m.currentLevel = c :: rest) (notIdle : c ≠ idleTask) {m' : TaskManager}
    (tasks : m'.tasks = m.tasks.filter (·.id ≠ c)) (latest : m'.latestId = m.latestId)
    (running : m'.running = Function.update m.running m.currentLevel rest) : Queues m' := by
  have lookup : ∀ q, m'.task? q = if q = c then none else m.task? q := by
    intro q
    rw [task?, tasks, find?_filter_id]
    rfl
  have nodup := inv.queues.nodup m.currentLevel
  rw [front, List.nodup_cons] at nodup
  obtain ⟨t, found, -, level⟩ := inv.queues.task?_of_mem_running
    (show c ∈ m.running m.currentLevel by rw [front]; exact List.mem_cons_self)
  exact {
    ids_nodup := by
      rw [tasks]
      exact inv.queues.ids_nodup.sublist (List.filter_sublist.map Task.id)
    ids_le := by
      intro t member
      rw [tasks] at member
      rw [latest]
      exact inv.queues.ids_le t (List.mem_of_mem_filter member)
    level_le := by
      intro q t found
      rw [lookup] at found
      split at found
      · cases found
      · exact inv.queues.level_le q t found
    nodup := by
      intro l
      rw [running]
      by_cases h : l = m.currentLevel
      · rw [h, Function.update_self]
        exact nodup.2
      · rw [Function.update_of_ne h]
        exact inv.queues.nodup l
    mem_iff := by
      intro l q
      rw [running, lookup]
      by_cases self : q = c
      · rw [if_pos self, self]
        simp only [reduceCtorEq, false_and, exists_false, iff_false]
        by_cases h : l = m.currentLevel
        · rw [h, Function.update_self]
          exact nodup.1
        · rw [Function.update_of_ne h]
          exact inv.not_mem_running found fun _ same => h (same.symm.trans level)
      · rw [if_neg self, ← inv.queues.mem_iff]
        by_cases h : l = m.currentLevel
        · rw [h, Function.update_self, front]
          simp [self]
        · rw [Function.update_of_ne h]
    idle := by
      rw [lookup, if_neg (Ne.symm notIdle)]
      exact inv.queues.idle }

theorem settle_withTasks (m : TaskManager) (tasks : List Task) (finished : Nat → Option Int) :
    ({ m with tasks, finishTasks := finished } : TaskManager).settle =
      { m.settle with tasks, finishTasks := finished } := by
  cases changed : m.levelChanged <;> simp [settle, changed]

/-- Rotation does not look at the tasks or the exit codes. -/
theorem rotate_withTasks (m : TaskManager) (currentSleep : Bool) (tasks : List Task)
    (finished : Nat → Option Int) :
    ({ m with tasks, finishTasks := finished } : TaskManager).rotateCurrentRunQueue currentSleep =
      (m.rotateCurrentRunQueue currentSleep).map fun result =>
        ({ result.1 with tasks, finishTasks := finished }, result.2) := by
  cases queue : m.running m.currentLevel with
  | nil => simp [rotateCurrentRunQueue, queue]
  | cons c rest =>
      simp only [rotateCurrentRunQueue, queue, Option.map_some, setQueue]
      generalize (if currentSleep = true then rest else rest ++ [c]) = next
      rw [← settle_withTasks]
      split <;> rfl

/-- `Finish` by a task other than the idle task, when the waiter, if there is
one, is another live task. -/
theorem Inv.finish {m : TaskManager} (inv : Inv m) {c : Nat} (exitCode : Int)
    (current : m.currentTask = some c) (notIdle : c ≠ idleTask)
    (waiter : ∀ w, m.finishWaiter c = some w → w ≠ c ∧ ∃ t, m.task? w = some t) :
    ∃ m', m.finish exitCode = some m' ∧ Inv m' ∧ (m.finishWaiter c = none → Top m') ∧
      m'.tasks.map Task.id = (m.tasks.filter (·.id ≠ c)).map Task.id ∧
      m'.finishWaiter = Function.update m.finishWaiter c none ∧
      m'.finishTasks = Function.update m.finishTasks c (some exitCode) := by
  obtain ⟨c', rest, front, current'⟩ := inv.front
  rw [current] at current'
  cases current'
  obtain ⟨t, found, -⟩ := inv.task?_current current
  set erased : TaskManager := { m with
    tasks := m.tasks.filter (·.id ≠ c)
    finishTasks := Function.update m.finishTasks c (some exitCode) } with erasedEq
  obtain ⟨m₁, rotated, inv₁, top⟩ :=
    rotate_spec (m := erased) true front
      (inv.queues_finish front notIdle rfl rfl rfl) inv.current_le inv.settled
  obtain ⟨tasks, waiters, finished⟩ := rotate_keeps rotated
  rw [erasedEq, rotate_withTasks] at rotated
  obtain ⟨⟨m₀, c₀⟩, rotated₀, resultEq⟩ := Option.map_eq_some_iff.mp rotated
  simp only [Prod.mk.injEq] at resultEq
  obtain ⟨m₁Eq, rfl⟩ := resultEq
  obtain ⟨tasks₀, waiter₀, finished₀⟩ := rotate_keeps rotated₀
  have found₀ : m₀.task? c₀ = some t := by rw [task?_congr tasks₀, found]
  have stepEq : m.finish exitCode = (m.finishWaiter c₀).elim (some m₁) fun w =>
      { m₁ with finishWaiter := Function.update m.finishWaiter c₀ none }.wakeup w (-1) := by
    rw [← m₁Eq]
    cases waiting : m.finishWaiter c₀ <;>
      simp [TaskManager.finish, rotated₀, found₀, waiter₀, tasks₀, finished₀, waiting]
  have ids₁ : m₁.tasks.map Task.id = (m.tasks.filter (·.id ≠ c₀)).map Task.id := by rw [tasks]
  cases waiting : m.finishWaiter c₀ with
  | none =>
      rw [waiting] at stepEq
      refine ⟨m₁, stepEq, inv₁, fun _ => top, ids₁, ?_, finished⟩
      rw [waiters]
      exact (Function.update_eq_self_iff.mpr waiting.symm).symm
  | some w =>
      rw [waiting] at stepEq
      obtain ⟨ne, tw, foundW⟩ := waiter w waiting
      set woken : TaskManager :=
        { m₁ with finishWaiter := Function.update m.finishWaiter c₀ none } with wokenEq
      have invW : Inv woken :=
        ⟨inv₁.queues.of_eq rfl rfl rfl, inv₁.current_le, inv₁.current_ne_nil, inv₁.settled⟩
      have foundW' : woken.task? w = some tw := by
        rw [task?, show woken.tasks = m.tasks.filter (·.id ≠ c₀) from tasks, find?_filter_id,
          if_neg ne]
        exact foundW
      obtain ⟨m', result, inv', -, ids, waiter', finished'⟩ :=
        invW.wakeup (-1) foundW' (by decide) (fun _ => .inl (by decide))
      exact ⟨m', stepEq.trans result, inv', (by intro h; cases h), ids.trans ids₁, waiter',
        finished'.trans finished⟩

end Mikanos.TaskManager
