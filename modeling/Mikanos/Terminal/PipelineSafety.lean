import Mikanos.Terminal.Pipeline

/-!
# Finished tasks and pipelines

As long as every task finishes alone, with nobody left who can use its pipe, no
reference to a finished task is ever followed.  A task that finishes earlier
leaves a dangling reference behind, and the next `Write` or `FinishWrite`
queues the finished task again.
-/

namespace Mikanos.Terminal

open Mikanos.Memory Mikanos.Transition

namespace Pipeline

/-- The other side of a pipeline. -/
def subtask? : Phase → Option Nat
  | .ready => none
  | .running _ subtask => subtask
  | .waiting _ subtask => some subtask

/-- The invariant: references that can still be used lead to live tasks, and a
registered waiter is a live task in `WaitFinish`. -/
structure Safe (s : Pipeline) : Prop where
  inv : s.manager.Inv
  held : ∀ d r, s.manager.Owns d → s.Holds d r → s.manager.Owns r ∧ r ≠ idleTask
  apart : ∀ d r, s.manager.Owns d → subtask? (s.phase d) = some r → r ≠ d
  waiter : ∀ r w, s.manager.finishWaiter r = some w →
    s.manager.Owns w ∧ ∃ original, s.phase w = .waiting original r
  finished : ∀ r e, s.manager.finishTasks r = some e → s.manager.finishWaiter r = none

namespace Safe

variable {s : Pipeline}

theorem owns_congr {m m' : TaskManager} (ids : m'.tasks.map Task.id = m.tasks.map Task.id)
    (p : Nat) : m'.Owns p ↔ m.Owns p := by
  rw [TaskManager.Owns, TaskManager.Owns, ids]

/-- Steps of the manager alone, on the tasks it has. -/
theorem withManager (safe : Safe s) {m : TaskManager} (inv : m.Inv)
    (ids : m.tasks.map Task.id = s.manager.tasks.map Task.id)
    (waiter : m.finishWaiter = s.manager.finishWaiter)
    (finished : ∀ r e, m.finishTasks r = some e → s.manager.finishTasks r = some e) :
    Safe { s with manager := m } where
  inv := inv
  held := by
    intro d r owned holds
    rw [owns_congr ids] at owned ⊢
    exact safe.held d r owned holds
  apart := by
    intro d r owned
    rw [owns_congr ids] at owned
    exact safe.apart d r owned
  waiter := by
    intro r w waiting
    rw [owns_congr ids]
    exact safe.waiter r w (waiter ▸ waiting)
  finished := by
    intro r e found
    change m.finishWaiter r = none
    rw [waiter]
    exact safe.finished r e (finished r e found)

/-- The current task is live. -/
theorem owns_current (safe : Safe s) {c : Nat} (current : s.manager.currentTask = some c) :
    s.manager.Owns c := by
  rcases safe.inv.task?_current current with ⟨t, found, -⟩
  exact TaskManager.owns_iff.mpr ⟨t, found⟩

/-- A task outside `WaitFinish` is nobody's waiter. -/
theorem not_waiter (safe : Safe s) {c : Nat}
    (outside : ∀ original r, s.phase c ≠ .waiting original r) (r : Nat) :
    s.manager.finishWaiter r ≠ some c := by
  intro waiting
  rcases safe.waiter r c waiting with ⟨-, original, phase⟩
  exact outside original r phase

/-- One terminal moves on, with the descriptors that it has then. -/
theorem setTask (safe : Safe s) (c : Nat) (phase : Phase) (files : Nat → Option Nat)
    (outside : ∀ r, s.manager.finishWaiter r ≠ some c)
    (held : ∀ r, Holds { s with
        phase := Function.update s.phase c phase
        files := Function.update s.files c files } c r → s.manager.Owns r ∧ r ≠ idleTask)
    (apart : ∀ r, subtask? phase = some r → r ≠ c) :
    Safe { s with
      phase := Function.update s.phase c phase
      files := Function.update s.files c files } where
  inv := safe.inv
  held := by
    intro d r owned holds
    by_cases self : d = c
    · subst self
      exact held r holds
    · apply safe.held d r owned
      simpa [Holds, Function.update_of_ne self] using holds
  apart := by
    intro d r owned subtask
    by_cases self : d = c
    · subst self
      apply apart r
      simpa using subtask
    · apply safe.apart d r owned
      simpa [Function.update_of_ne self] using subtask
  waiter := by
    intro r w waiting
    rcases safe.waiter r w waiting with ⟨owned, original, waits⟩
    have other : w ≠ c := by
      rintro rfl
      exact outside r waiting
    exact ⟨owned, original, by simpa [Function.update_of_ne other] using waits⟩
  finished := safe.finished

/-- What `startTerminal` does, for a table without dangling references. -/
theorem startTerminal (safe : Safe s) (files : Nat → Nat → Option Nat)
    (live : ∀ task fd r, task = s.manager.latestId + 1 → files task fd = some r →
      (s.manager.Owns r ∧ r ≠ idleTask) ∨ r = task) :
    ∃ s' task, s.startTerminal files = some (s', task) ∧ Safe s' ∧
      ¬ s.manager.Owns task ∧ task ≠ idleTask ∧
      (∀ p, s'.manager.Owns p ↔ s.manager.Owns p ∨ p = task) ∧
      s'.manager.currentTask = s.manager.currentTask ∧
      s'.phase = Function.update s.phase task .ready ∧
      s'.files = Function.update s.files task (files task) ∧
      s'.manager.finishWaiter = s.manager.finishWaiter := by
  have bounded := safe.inv.queues.ids_le
  have fresh : ∀ p, s.manager.Owns p → p ≠ s.manager.latestId + 1 := by
    intro p owned
    rcases List.mem_map.mp owned with ⟨t, member, rfl⟩
    have := bounded t member
    omega
  have notIdle : s.manager.latestId + 1 ≠ idleTask := by
    rcases safe.inv.queues.idle with ⟨t, found, -⟩
    exact Ne.symm (fresh idleTask (TaskManager.owns_iff.mpr ⟨t, found⟩))
  have created := s.manager.task?_newTask bounded (s.manager.latestId + 1)
  rw [if_pos rfl] at created
  rcases safe.inv.newTask.wakeup (-1) created (by decide) (fun _ => .inl (by decide)) with
    ⟨m, woken, inv, current, ids, waiter, finished⟩
  have owns : ∀ p, m.Owns p ↔ s.manager.Owns p ∨ p = s.manager.latestId + 1 := by
    intro p
    rw [owns_congr ids, TaskManager.owns_newTask]
  refine ⟨{ s with
      manager := m
      phase := Function.update s.phase (s.manager.latestId + 1) .ready
      files := Function.update s.files (s.manager.latestId + 1)
        (files (s.manager.latestId + 1)) },
    s.manager.latestId + 1, ?_, ?_, fun owned => fresh _ owned rfl, notIdle, owns,
    current (.inr (by decide)), rfl, rfl, waiter⟩
  · change (s.manager.newTask.1.wakeup (s.manager.latestId + 1) (-1) >>= _) = _
    rw [woken]
    rfl
  · constructor
    · exact inv
    · intro d r owned holds
      rw [owns] at owned ⊢
      by_cases new : d = s.manager.latestId + 1
      · subst new
        have listed : ∃ fd, files (s.manager.latestId + 1) fd = some r := by
          simpa [Holds] using holds
        rcases listed with ⟨fd, found⟩
        rcases live _ fd r rfl found with ⟨ownsR, ne⟩ | rfl
        · exact ⟨.inl ownsR, ne⟩
        · exact ⟨.inr rfl, notIdle⟩
      · have holds' : s.Holds d r := by
          simpa [Holds, Function.update_of_ne new] using holds
        rcases safe.held d r (owned.resolve_right new) holds' with ⟨ownsR, ne⟩
        exact ⟨.inl ownsR, ne⟩
    · intro d r owned subtask
      rw [owns] at owned
      by_cases new : d = s.manager.latestId + 1
      · subst new
        simp [subtask?] at subtask
      · apply safe.apart d r (owned.resolve_right new)
        simpa [Function.update_of_ne new] using subtask
    · intro r w waiting
      have waiting' : s.manager.finishWaiter r = some w := waiter ▸ waiting
      rcases safe.waiter r w waiting' with ⟨owned, original, phase⟩
      have other : w ≠ s.manager.latestId + 1 := fresh w owned
      constructor
      · rw [owns]
        exact .inl owned
      · exact ⟨original, by simpa [Function.update_of_ne other] using phase⟩
    · intro r e found
      have found' : s.manager.finishTasks r = some e := finished ▸ found
      change m.finishWaiter r = none
      rw [waiter]
      exact safe.finished r e found'

/-! ## One step -/

variable {c : Nat}

theorem switchTask_next (safe : Safe s) : ∃ s', s.next .switchTask = some s' ∧ Safe s' := by
  rcases safe.inv.switchTask with ⟨m, switched, inv, -, tasks, waiter, finished⟩
  exact ⟨{ s with manager := m }, by simp [next, switched],
    safe.withManager inv (by rw [tasks]) waiter (by simp [finished])⟩

theorem sendMessage_next (safe : Safe s) (id : Nat) (msg : Message) :
    ∃ s', s.next (.sendMessage id msg) = some s' ∧ Safe s' := by
  cases lookup : s.manager.task? id with
  | none =>
      refine ⟨s, ?_, safe⟩
      simp [next, TaskManager.sendMessage, TaskManager.withId_of_none _ lookup]
  | some t =>
      rcases safe.inv.taskSendMessage msg lookup with ⟨m, sent, inv, -, ids, waiter, finished⟩
      refine ⟨{ s with manager := m }, ?_, safe.withManager inv ids waiter (by simp [finished])⟩
      simp [next, TaskManager.sendMessage, TaskManager.withId_of_some _ lookup, sent]

theorem newTerminal_next (safe : Safe s) : ∃ s', s.next .newTerminal = some s' ∧ Safe s' := by
  rcases safe.startTerminal (fun _ _ => none) (by intro _ _ _ _ found; cases found) with
    ⟨s', task, started, safe', -⟩
  exact ⟨s', by simp [next, started], safe'⟩

/-- A message to a task that is live. -/
theorem send_step (safe : Safe s) {p : Nat} (msg : Message) (owned : s.manager.Owns p) :
    ∃ m, s.manager.taskSendMessage p msg = some m ∧ Safe { s with manager := m } ∧
      ∀ q, m.Owns q ↔ s.manager.Owns q := by
  rcases TaskManager.owns_iff.mp owned with ⟨t, found⟩
  rcases safe.inv.taskSendMessage msg found with ⟨m, sent, inv, -, ids, waiter, finished⟩
  exact ⟨m, sent, safe.withManager inv ids waiter (by simp [finished]), owns_congr ids⟩

/-- A live task other than the idle task goes to sleep. -/
theorem sleep_step (safe : Safe s) {p : Nat} (owned : s.manager.Owns p) (notIdle : p ≠ idleTask) :
    ∃ m, s.manager.sleep p = some m ∧ Safe { s with manager := m } := by
  rcases TaskManager.owns_iff.mp owned with ⟨t, found⟩
  rcases safe.inv.sleep found notIdle with ⟨m, slept, inv, -, ids, waiter, finished⟩
  exact ⟨m, slept, safe.withManager inv ids waiter (by simp [finished])⟩

/-- Outside `WaitFinish` every entry of the descriptor table can be used. -/
theorem files_live (safe : Safe s) (owned : s.manager.Owns c)
    (outside : ∀ original r, s.phase c ≠ .waiting original r) {fd r : Nat}
    (listed : s.files c fd = some r) : s.manager.Owns r ∧ r ≠ idleTask := by
  apply safe.held c r owned
  cases phase : s.phase c with
  | ready =>
      rw [Holds, phase]
      exact ⟨fd, listed⟩
  | running original subtask =>
      rw [Holds, phase]
      exact .inl ⟨fd, listed⟩
  | waiting original subtask => exact absurd phase (outside original subtask)

/-- The redirection of `ExecuteLine`. -/
theorem redirect_step (safe : Safe s) (owned : s.manager.Owns c) (phase : s.phase c = .ready)
    (redirect : Bool) :
    ∃ s', (if redirect then s.setStdout c none else s) = s' ∧ Safe s' ∧
      s'.manager = s.manager ∧ s'.phase = s.phase ∧
      ∀ fd r, s'.files c fd = some r → s.files c fd = some r := by
  have outside : ∀ original r, s.phase c ≠ .waiting original r := by
    intro original r waits
    rw [phase] at waits
    cases waits
  cases redirect with
  | false => exact ⟨s, rfl, safe, rfl, rfl, fun _ _ listed => listed⟩
  | true =>
      have fewer : ∀ fd r, Function.update (s.files c) 1 none fd = some r →
          s.files c fd = some r := by
        intro fd r listed
        by_cases stdout : fd = 1
        · subst stdout
          simp at listed
        · simpa [Function.update_of_ne stdout] using listed
      have safe' := safe.setTask c .ready (Function.update (s.files c) 1 none)
        (safe.not_waiter outside)
        (by
          intro r holds
          have listed : ∃ fd, Function.update (s.files c) 1 none fd = some r := by
            simpa [Holds] using holds
          rcases listed with ⟨fd, listed⟩
          exact safe.files_live owned outside (fewer fd r listed))
        (by intro r subtask; cases subtask)
      rw [Function.update_eq_self_iff.mpr phase.symm] at safe'
      refine ⟨_, rfl, safe', rfl, rfl, ?_⟩
      intro fd r listed
      apply fewer fd r
      simpa [setStdout] using listed

theorem executeLine_step (safe : Safe s) (owned : s.manager.Owns c)
    (phase : s.phase c = .ready) (redirect piped : Bool) :
    ∃ s', s.executeLine c redirect piped = some s' ∧ Safe s' := by
  have outside : ∀ original r, s.phase c ≠ .waiting original r := by
    intro original r waits
    rw [phase] at waits
    cases waits
  rcases safe.redirect_step owned phase redirect with
    ⟨s₁, redirected, safe₁, manager₁, phase₁, fewer⟩
  have live : ∀ fd r, s₁.files c fd = some r → s.manager.Owns r ∧ r ≠ idleTask := by
    intro fd r listed
    exact safe.files_live owned outside (fewer fd r listed)
  have outside₁ : ∀ original r, s₁.phase c ≠ .waiting original r := by
    rw [phase₁]
    exact outside
  cases piped with
  | false =>
      have safe' := safe₁.setTask c (.running (s.files c 1) none) (s₁.files c)
        (safe₁.not_waiter outside₁)
        (by
          intro r holds
          have cases : (∃ fd, s₁.files c fd = some r) ∨ s.files c 1 = some r := by
            simpa [Holds] using holds
          rw [manager₁]
          rcases cases with ⟨fd, listed⟩ | original
          · exact live fd r listed
          · exact safe.files_live owned outside original)
        (by intro r subtask; cases subtask)
      rw [Function.update_eq_self] at safe'
      refine ⟨_, ?_, safe'⟩
      simp only [executeLine, redirected]
      rfl
  | true =>
      rcases safe₁.startTerminal (s₁.subtaskFiles c) (by
        intro task fd r _ listed
        cases fd with
        | zero =>
            cases listed
            exact .inr rfl
        | succ fd =>
            rw [manager₁]
            exact .inl (live (fd + 1) r listed)) with
        ⟨s₂, task, started, safe₂, fresh, notIdle, owns, -, phase₂, files₂, waiter₂⟩
      rw [manager₁] at fresh owns waiter₂
      have other : c ≠ task := by
        rintro rfl
        exact fresh owned
      have files : s₂.files c = s₁.files c := by rw [files₂, Function.update_of_ne other]
      have safe' := safe₂.setTask c (.running (s.files c 1) (some task))
        (Function.update (s₂.files c) 1 (some task))
        (by
          intro r
          rw [waiter₂]
          exact safe.not_waiter outside r)
        (by
          intro r holds
          have cases : (∃ fd, Function.update (s₁.files c) 1 (some task) fd = some r) ∨
              s.files c 1 = some r ∨ task = r := by
            simpa [Holds, files] using holds
          rw [owns]
          rcases cases with ⟨fd, listed⟩ | original | rfl
          · by_cases stdout : fd = 1
            · subst stdout
              rw [Function.update_self] at listed
              cases listed
              exact ⟨.inr rfl, notIdle⟩
            · rw [Function.update_of_ne stdout] at listed
              rcases live fd r listed with ⟨ownsR, ne⟩
              exact ⟨.inl ownsR, ne⟩
          · rcases safe.files_live owned outside original with ⟨ownsR, ne⟩
            exact ⟨.inl ownsR, ne⟩
          · exact ⟨.inr rfl, notIdle⟩)
        (by
          intro r subtask
          cases subtask
          exact Ne.symm other)
      refine ⟨_, ?_, safe'⟩
      simp only [executeLine, redirected, started, if_true]
      rfl

/-- What a terminal has in its files when the standard output is restored. -/
theorem restored_cases {files : Nat → Option Nat} {original : Option Nat} {r : Nat}
    (listed : ∃ fd, Function.update files 1 original fd = some r) :
    original = some r ∨ ∃ fd, fd ≠ 1 ∧ files fd = some r := by
  rcases listed with ⟨fd, listed⟩
  by_cases stdout : fd = 1
  · subst stdout
    rw [Function.update_self] at listed
    exact .inl listed
  · rw [Function.update_of_ne stdout] at listed
    exact .inr ⟨fd, stdout, listed⟩

theorem lineDone_step (safe : Safe s) (owned : s.manager.Owns c) {original : Option Nat}
    (phase : s.phase c = .running original none) :
    Safe ((s.setStdout c original).setPhase c .ready) := by
  have held : ∀ r, s.Holds c r → s.manager.Owns r ∧ r ≠ idleTask :=
    fun r => safe.held c r owned
  simp only [Holds, phase] at held
  apply safe.setTask c .ready (Function.update (s.files c) 1 original)
  · apply safe.not_waiter
    simp [phase]
  · intro r holds
    have listed : ∃ fd, Function.update (s.files c) 1 original fd = some r := by
      simpa [Holds] using holds
    rcases restored_cases listed with wasStdout | ⟨fd, -, listed⟩
    · exact held r (.inr (.inl wasStdout))
    · exact held r (.inl ⟨fd, listed⟩)
  · intro r subtask
    cases subtask

theorem finishWrite_step (safe : Safe s) (owned : s.manager.Owns c) {original : Option Nat}
    {subtask : Nat} (phase : s.phase c = .running original (some subtask)) :
    ∃ s', s.taskStep c (.running original (some subtask)) .finishWrite = some s' ∧ Safe s' := by
  have held : ∀ r, s.Holds c r → s.manager.Owns r ∧ r ≠ idleTask :=
    fun r => safe.held c r owned
  simp only [Holds, phase] at held
  rcases safe.send_step finishWriteMessage (held subtask (.inr (.inr rfl))).1 with
    ⟨m, sent, safe', owns⟩
  refine ⟨_, by simp only [taskStep, sent]; rfl, ?_⟩
  have moved := safe'.setTask c (.waiting original subtask) (s.files c)
    (by
      apply safe'.not_waiter
      simp [phase])
    (by
      intro r holds
      have cases : original = some r ∨ ∃ fd, fd ≠ 1 ∧ s.files c fd = some r := by
        simpa [Holds] using holds
      change m.Owns r ∧ _
      rw [owns]
      apply held r
      rcases cases with isOriginal | ⟨fd, -, listed⟩
      · exact .inr (.inl isOriginal)
      · exact .inl ⟨fd, listed⟩)
    (by
      intro r isSubtask
      cases isSubtask
      apply safe.apart c subtask owned
      rw [phase]
      rfl)
  rw [Function.update_eq_self] at moved
  exact moved

/-- A round of `WaitFinish`: it either takes the exit code and restores the
standard output, or registers the caller and puts it to sleep. -/
theorem waitFinish_step (safe : Safe s) (current : s.manager.currentTask = some c)
    (notIdle : c ≠ idleTask) {original : Option Nat} {subtask : Nat}
    (phase : s.phase c = .waiting original subtask) :
    ∃ s', s.taskStep c (.waiting original subtask) .waitFinish = some s' ∧ Safe s' := by
  have owned := safe.owns_current current
  cases done : s.manager.finishTasks subtask with
  | some exitCode =>
      set m : TaskManager := { s.manager with
        finishTasks := Function.update s.manager.finishTasks subtask none } with mEq
      have round : s.manager.waitFinishRound subtask = some (m, some exitCode) := by
        simp [TaskManager.waitFinishRound, current, done, mEq]
      have inv : m.Inv :=
        ⟨safe.inv.queues.of_eq rfl rfl rfl, safe.inv.current_le, safe.inv.current_ne_nil,
          safe.inv.settled⟩
      have safe' := safe.withManager inv rfl rfl (by
        intro r e found
        by_cases same : r = subtask
        · subst same
          simp [mEq] at found
        · simpa [mEq, Function.update_of_ne same] using found)
      have held : ∀ r, s.Holds c r → s.manager.Owns r ∧ r ≠ idleTask :=
        fun r => safe.held c r owned
      simp only [Holds, phase] at held
      refine ⟨_, by simp only [taskStep, round]; rfl, ?_⟩
      apply safe'.setTask c .ready (Function.update (s.files c) 1 original)
      · intro r waiting
        rcases safe.waiter r c waiting with ⟨-, original', waits⟩
        rw [phase] at waits
        cases waits
        have none := safe.finished subtask exitCode done
        rw [show s.manager.finishWaiter subtask = some c from waiting] at none
        cases none
      · intro r holds
        have listed : ∃ fd, Function.update (s.files c) 1 original fd = some r := by
          simpa [Holds] using holds
        exact held r (restored_cases listed)
      · intro r isSubtask
        cases isSubtask
  | none =>
      set m₁ : TaskManager := { s.manager with
        finishWaiter := Function.update s.manager.finishWaiter subtask (some c) } with m₁Eq
      have inv₁ : m₁.Inv :=
        ⟨safe.inv.queues.of_eq rfl rfl rfl, safe.inv.current_le, safe.inv.current_ne_nil,
          safe.inv.settled⟩
      rcases safe.inv.task?_current current with ⟨t, found, -⟩
      rcases inv₁.sleep (show m₁.task? c = some t from found) notIdle with
        ⟨m, slept, inv, -, ids, waiter, finished⟩
      have round : s.manager.waitFinishRound subtask = some (m, none) := by
        simp [TaskManager.waitFinishRound, current, done, ← m₁Eq, slept]
      refine ⟨{ s with manager := m }, by simp only [taskStep, round]; rfl, ?_⟩
      have owns := owns_congr (show m.tasks.map Task.id = s.manager.tasks.map Task.id from ids)
      have registered : m.finishWaiter =
          Function.update s.manager.finishWaiter subtask (some c) := waiter
      constructor
      · exact inv
      · intro d r ownedD holds
        change m.Owns r ∧ _
        rw [owns]
        exact safe.held d r ((owns d).mp ownedD) holds
      · intro d r ownedD isSubtask
        exact safe.apart d r ((owns d).mp ownedD) isSubtask
      · intro r w waiting
        change m.finishWaiter r = some w at waiting
        change m.Owns w ∧ _
        rw [registered] at waiting
        rw [owns]
        by_cases same : r = subtask
        · subst same
          rw [Function.update_self] at waiting
          cases waiting
          exact ⟨owned, original, phase⟩
        · rw [Function.update_of_ne same] at waiting
          exact safe.waiter r w waiting
      · intro r e isDone
        change m.finishTasks r = some e at isDone
        change m.finishWaiter r = none
        rw [finished] at isDone
        have other : r ≠ subtask := by
          rintro rfl
          rw [show m₁.finishTasks r = none from done] at isDone
          cases isDone
        rw [registered, Function.update_of_ne other]
        exact safe.finished r e isDone

/-- `Finish` always has a result.  It is safe when nobody else can use the
finished task's pipe. -/
theorem finish_step (safe : Safe s) (current : s.manager.currentTask = some c)
    (notIdle : c ≠ idleTask) (phase : s.phase c = .ready) (exitCode : Int) :
    ∃ m, s.manager.finish exitCode = some m ∧
      (∀ p, m.Owns p ↔ s.manager.Owns p ∧ p ≠ c) ∧
      ((∀ d, d ≠ c → s.manager.Owns d → ¬ s.Holds d c) → Safe { s with manager := m }) := by
  have waiterLive : ∀ w, s.manager.finishWaiter c = some w →
      w ≠ c ∧ ∃ t, s.manager.task? w = some t := by
    intro w waiting
    rcases safe.waiter c w waiting with ⟨owned, original, waits⟩
    constructor
    · rintro rfl
      rw [phase] at waits
      cases waits
    · exact TaskManager.owns_iff.mp owned
  rcases safe.inv.finish exitCode current notIdle waiterLive with
    ⟨m, result, inv, -, ids, waiter, finished⟩
  have owns : ∀ p, m.Owns p ↔ s.manager.Owns p ∧ p ≠ c := by
    intro p
    rw [TaskManager.Owns, ids]
    constructor
    · intro member
      rcases List.mem_map.mp member with ⟨t, kept, rfl⟩
      rcases List.mem_filter.mp kept with ⟨inTasks, other⟩
      exact ⟨List.mem_map_of_mem inTasks, by simpa using other⟩
    · rintro ⟨owned, other⟩
      rcases List.mem_map.mp owned with ⟨t, inTasks, rfl⟩
      exact List.mem_map_of_mem (List.mem_filter.mpr ⟨inTasks, by simpa using other⟩)
  refine ⟨m, result, owns, ?_⟩
  intro alone
  constructor
  · exact inv
  · intro d r owned holds
    change m.Owns r ∧ _
    rcases (owns d).mp owned with ⟨ownedD, other⟩
    rcases safe.held d r ownedD holds with ⟨ownedR, ne⟩
    refine ⟨(owns r).mpr ⟨ownedR, ?_⟩, ne⟩
    rintro rfl
    exact alone d other ownedD holds
  · intro d r owned isSubtask
    exact safe.apart d r ((owns d).mp owned).1 isSubtask
  · intro r w waiting
    change m.finishWaiter r = some w at waiting
    rw [waiter] at waiting
    have other : r ≠ c := by
      rintro rfl
      rw [Function.update_self] at waiting
      cases waiting
    rw [Function.update_of_ne other] at waiting
    rcases safe.waiter r w waiting with ⟨owned, original, waits⟩
    refine ⟨(owns w).mpr ⟨owned, ?_⟩, original, waits⟩
    rintro rfl
    rw [phase] at waits
    cases waits
  · intro r e isDone
    change m.finishTasks r = some e at isDone
    change m.finishWaiter r = none
    rw [waiter]
    by_cases self : r = c
    · rw [self, Function.update_self]
    · rw [finished, Function.update_of_ne self] at isDone
      rw [Function.update_of_ne self]
      exact safe.finished r e isDone

/-- A step of the current task. -/
theorem taskStep_next (safe : Safe s) (current : s.manager.currentTask = some c)
    (notIdle : c ≠ idleTask) {action : Action} (enabled : s.EnabledIn c (s.phase c) action) :
    ∃ s', s.taskStep c (s.phase c) action = some s' ∧
      ((∀ e, action = .finish e → ∀ d, d ≠ c → s.manager.Owns d → ¬ s.Holds d c) → Safe s') := by
  have owned := safe.owns_current current
  cases phase : s.phase c with
  | ready =>
      rw [phase] at enabled
      cases action with
      | executeLine redirect piped =>
          rcases safe.executeLine_step owned phase redirect piped with ⟨s', result, safe'⟩
          exact ⟨s', result, fun _ => safe'⟩
      | finish exitCode =>
          rcases safe.finish_step current notIdle phase exitCode with ⟨m, finished, -, safe'⟩
          refine ⟨{ s with manager := m }, by simp [taskStep, finished], ?_⟩
          intro alone
          exact safe' (alone exitCode rfl)
      | sleep =>
          rcases safe.sleep_step owned notIdle with ⟨m, slept, safe'⟩
          exact ⟨{ s with manager := m }, by simp [taskStep, slept], fun _ => safe'⟩
      | _ => exact absurd enabled id
  | running original subtask =>
      have outside : ∀ original r, s.phase c ≠ .waiting original r := by simp [phase]
      rw [phase] at enabled
      cases action with
      | sleep =>
          rcases safe.sleep_step owned notIdle with ⟨m, slept, safe'⟩
          exact ⟨{ s with manager := m }, by simp [taskStep, slept], fun _ => safe'⟩
      | lineDone =>
          cases subtask with
          | none => exact ⟨_, rfl, fun _ => safe.lineDone_step owned phase⟩
          | some subtask => exact absurd enabled id
      | noterm =>
          rcases safe.startTerminal (fun _ => s.files c)
            (fun _ _ _ _ listed => .inl (safe.files_live owned outside listed)) with
            ⟨s', task, started, safe', -⟩
          exact ⟨s', by simp [taskStep, started], fun _ => safe'⟩
      | write fd data len =>
          rcases Option.isSome_iff_exists.mp enabled with ⟨task, listed⟩
          rcases safe.send_step (.pipe data len) (safe.files_live owned outside listed).1 with
            ⟨m, sent, safe', -⟩
          exact ⟨{ s with manager := m }, by simp [taskStep, listed, sent], fun _ => safe'⟩
      | read fd =>
          rcases Option.isSome_iff_exists.mp enabled with ⟨task, listed⟩
          rcases safe.files_live owned outside listed with ⟨ownedTask, taskNotIdle⟩
          rcases TaskManager.owns_iff.mp ownedTask with ⟨t, found⟩
          rcases safe.inv.receiveMessage found with
            ⟨m, received, inv, -, ids, waiter, finished⟩
          have safe₁ := safe.withManager inv ids waiter (by simp [finished])
          cases first : t.msgs.head? with
          | some msg =>
              rw [first] at received
              exact ⟨{ s with manager := m }, by simp [taskStep, listed, received], fun _ => safe₁⟩
          | none =>
              rw [first] at received
              rcases safe₁.sleep_step ((owns_congr ids task).mpr ownedTask) taskNotIdle with
                ⟨m', slept, safe'⟩
              refine ⟨{ s with manager := m' }, ?_, fun _ => safe'⟩
              change m.sleep task = some m' at slept
              simp [taskStep, listed, received, slept]
      | finishWrite =>
          cases subtask with
          | none => exact absurd enabled id
          | some subtask =>
              rcases safe.finishWrite_step owned phase with ⟨s', result, safe'⟩
              exact ⟨s', result, fun _ => safe'⟩
      | _ => cases subtask <;> exact absurd enabled id
  | waiting original subtask =>
      rw [phase] at enabled
      cases action with
      | waitFinish =>
          rcases safe.waitFinish_step current notIdle phase with ⟨s', result, safe'⟩
          exact ⟨s', result, fun _ => safe'⟩
      | _ => exact absurd enabled id

/-- Every enabled step has a result, and the result is safe again unless a task
finished too early. -/
theorem next_step (safe : Safe s) {action : Action} (enabled : s.Enabled action) :
    ∃ s', s.next action = some s' ∧ (s.FinishesAlone action → Safe s') := by
  have task : ∀ {action}, (∃ c, s.manager.currentTask = some c ∧ c ≠ idleTask ∧
        s.EnabledIn c (s.phase c) action) →
      ∃ s', (s.manager.currentTask.bind fun c =>
          if c = idleTask then none else s.taskStep c (s.phase c) action) = some s' ∧
        (s.FinishesAlone action → Safe s') := by
    rintro action ⟨c, current, notIdle, enabledIn⟩
    rcases safe.taskStep_next current notIdle enabledIn with ⟨s', result, safe'⟩
    refine ⟨s', by simp [current, notIdle, result], ?_⟩
    intro alone
    apply safe'
    rintro exitCode rfl
    exact alone c current
  cases action with
  | switchTask =>
      rcases safe.switchTask_next with ⟨s', result, safe'⟩
      exact ⟨s', result, fun _ => safe'⟩
  | sendMessage id msg =>
      rcases safe.sendMessage_next id msg with ⟨s', result, safe'⟩
      exact ⟨s', result, fun _ => safe'⟩
  | newTerminal =>
      rcases safe.newTerminal_next with ⟨s', result, safe'⟩
      exact ⟨s', result, fun _ => safe'⟩
  | _ => exact task enabled

end Safe

/-! ## Runs -/

/-- Only enabled actions have a result. -/
theorem enabledIn_of_taskStep {s s' : Pipeline} {c : Nat} {phase : Phase} {action : Action}
    (result : s.taskStep c phase action = some s') : s.EnabledIn c phase action := by
  cases phase with
  | ready => cases action <;> trivial
  | running original subtask =>
      cases action with
      | write fd data len | read fd =>
          cases listed : s.files c fd with
          | none => simp [taskStep, listed] at result
          | some task => simp [EnabledIn, listed]
      | _ => cases subtask <;> trivial
  | waiting original subtask => cases action <;> trivial

theorem enabled_of_next {s s' : Pipeline} {action : Action}
    (result : s.next action = some s') : s.Enabled action := by
  have task : ∀ {action}, (s.manager.currentTask.bind fun c =>
        if c = idleTask then none else s.taskStep c (s.phase c) action) = some s' →
      ∃ c, s.manager.currentTask = some c ∧ c ≠ idleTask ∧
        s.EnabledIn c (s.phase c) action := by
    intro action result
    rcases Option.bind_eq_some_iff.mp result with ⟨c, current, stepped⟩
    by_cases idle : c = idleTask
    · rw [if_pos idle] at stepped
      cases stepped
    · rw [if_neg idle] at stepped
      exact ⟨c, current, idle, enabledIn_of_taskStep stepped⟩
  cases action with
  | switchTask | sendMessage | newTerminal => trivial
  | _ => exact task result

theorem safe_initial : Safe initial where
  inv := TaskManager.Inv.new
  held := by
    intro d r _ holds
    rcases holds with ⟨fd, listed⟩
    cases listed
  apart := by
    intro d r _ subtask
    cases subtask
  waiter := by
    intro r w waiting
    cases waiting
  finished := fun _ _ _ => rfl

/-- In a safe state no reference to a finished task can be followed. -/
theorem Safe.noneDangling {s : Pipeline} (safe : Safe s) : s.NoneDangling where
  queued := by
    intro l p queued
    rcases safe.inv.queues.task?_of_mem_running queued with ⟨t, found, -⟩
    exact TaskManager.owns_iff.mpr ⟨t, found⟩
  targets := by
    intro action c p enabled current isTarget
    have owned := safe.owns_current current
    have held := fun r => safe.held c r owned
    simp only [Holds] at held
    cases phase : s.phase c with
    | ready =>
        rw [phase] at isTarget
        cases action with
        | finish exitCode => exact (safe.waiter c p isTarget).1
        | _ => cases isTarget
    | running original subtask =>
        rw [phase] at isTarget
        simp only [phase] at held
        cases action with
        | write fd data len => exact (held p (.inl ⟨fd, isTarget⟩)).1
        | finishWrite =>
            cases subtask with
            | none => cases isTarget
            | some subtask =>
                cases isTarget
                exact (held _ (.inr (.inr rfl))).1
        | _ => cases subtask <;> cases isTarget
    | waiting original subtask =>
        rw [phase] at isTarget
        cases action <;> cases isTarget
  defined := by
    intro action enabled
    rcases safe.next_step enabled with ⟨s', result, -⟩
    rw [result]
    rfl

/-- No finished task is scheduled again in any run in which every task finishes
alone. -/
theorem noneDangling_of_run {actions : List Action} {s : Pipeline}
    (run : Run (guarded (ofFunction next) FinishesAlone) initial actions s) :
    s.NoneDangling := by
  have safe : Safe s := by
    apply run.invariant _ safe_initial
    rintro source action target safe ⟨alone, result⟩
    rcases safe.next_step (enabled_of_next result) with ⟨s', result', safe'⟩
    rw [ofFunction_iff, result'] at result
    cases result
    exact safe' alone
  exact safe.noneDangling

/-- A pipeline whose second command ends after the first has written its output
and gone to sleep in `WaitFinish`. -/
theorem noneDangling_of_run_pipeline :
    ∃ s, Run (guarded (ofFunction next) FinishesAlone) initial
        [.newTerminal, .sleep, .executeLine false true, .write 1 (fun _ => 0) 1, .finishWrite,
          .waitFinish, .finish 0, .switchTask, .waitFinish] s ∧ s.NoneDangling := by
  apply Exists.intro
  apply (and_iff_left_of_imp noneDangling_of_run).mpr
  refine .cons ⟨trivial, rfl⟩ <| .cons ⟨trivial, rfl⟩ <| .cons ⟨trivial, rfl⟩ <|
    .cons ⟨trivial, rfl⟩ <| .cons ⟨trivial, rfl⟩ <| .cons ⟨trivial, rfl⟩ <|
    .cons ⟨?_, rfl⟩ <| .cons ⟨trivial, rfl⟩ <| .single ⟨trivial, rfl⟩
  intro c current d other owned holds
  cases current
  have cases : d = 1 ∨ d = 2 ∨ d = 3 ∨ d = 4 := by
    simpa using (show d ∈ [1, 2, 3, 4] from owned)
  rcases cases with rfl | rfl | rfl | rfl
  · rcases holds with ⟨fd, listed⟩
    cases listed
  · rcases holds with ⟨fd, listed⟩
    cases listed
  · rcases holds with original | ⟨fd, notStdout, listed⟩
    · cases original
    · have rest : Function.update (fun _ => none) 1 (some 4) fd = some 4 := listed
      rw [Function.update_of_ne notStdout] at rest
      cases rest
  · exact other rfl

/-- The second command ends while the first is still writing: the next `Write`
is to a task that has finished. -/
theorem not_noneDangling_of_run :
    ¬ ∀ actions s, Run (ofFunction next) initial actions s → s.NoneDangling := by
  intro always
  have run : Run (ofFunction next) initial
      [.newTerminal, .sleep, .executeLine false true, .switchTask, .finish 0] _ :=
    .cons rfl <| .cons rfl <| .cons rfl <| .cons rfl <| .single rfl
  have owned := (always _ _ run).targets (.write 1 (fun _ => 0) 1) 3 4
    ⟨3, rfl, by decide, rfl⟩ rfl rfl
  have absent : 4 ∉ [1, 2, 3] := by decide
  exact absent owned

/-- A task that does not finish alone leaves a live task behind that can still
use the pipe of the finished one. -/
theorem dangling_of_finish {s s' : Pipeline} (safe : Safe s) {exitCode : Int}
    (result : s.next (.finish exitCode) = some s') (notAlone : ¬ s.FinishesAlone (.finish exitCode)) :
    ∃ d c, s'.manager.Owns d ∧ s'.Holds d c ∧ ¬ s'.manager.Owns c := by
  rcases enabled_of_next result with ⟨c, current, notIdle, enabled⟩
  have phase : s.phase c = .ready := by
    cases phase : s.phase c with
    | ready => rfl
    | running original subtask =>
        rw [phase] at enabled
        cases subtask <;> exact absurd enabled id
    | waiting original subtask =>
        rw [phase] at enabled
        exact absurd enabled id
  rcases safe.finish_step current notIdle phase exitCode with ⟨m, finished, owns, -⟩
  have resultEq : s.next (.finish exitCode) = some { s with manager := m } := by
    simp [next, current, notIdle, phase, taskStep, finished]
  rw [resultEq] at result
  cases result
  simp only [FinishesAlone, current, Option.some.injEq, not_forall, not_not] at notAlone
  rcases notAlone with ⟨_, rfl, d, other, owned, holds⟩
  exact ⟨d, _, (owns d).mpr ⟨owned, other⟩, holds, fun live => ((owns _).mp live).2 rfl⟩

end Pipeline

end Mikanos.Terminal
