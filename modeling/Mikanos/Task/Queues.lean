import Mikanos.Task.Manager
import Mathlib.Data.List.Nodup
import Mathlib.Tactic.ByContra

/-!
# Run queues

`Queues` is the part of the scheduler's invariant that does not mention the
current level: a task is queued exactly at its own level while it is running,
and nowhere otherwise.  Every operation changes one task and the places where
it is queued, so one update rule serves them all.
-/

namespace Mikanos

namespace TaskManager

@[simp]
theorem mem_erase {queue : List Nat} {p value : Nat} :
    p ∈ erase queue value ↔ p ∈ queue ∧ p ≠ value := by
  simp [erase]

theorem erase_eq_nil {queue : List Nat} (value : Nat) (empty : queue = []) :
    erase queue value = [] := by
  rw [empty]
  rfl

theorem nodup_erase {queue : List Nat} (value : Nat) (nodup : queue.Nodup) :
    (erase queue value).Nodup :=
  nodup.filter _

theorem head?_erase {queue : List Nat} {front value : Nat} (head : queue.head? = some front)
    (ne : value ≠ front) : (erase queue value).head? = some front := by
  cases queue with
  | nil => cases head
  | cons first rest =>
      cases head
      simp [erase, Ne.symm ne]

/-! ## Projections of the updates -/

section Projections

variable (m : TaskManager) (p level : Nat) (queue : List Nat) (f : Task → Task) (running : Bool)

@[simp] theorem running_modify : (m.modify p f).running = m.running := rfl
@[simp] theorem currentLevel_modify : (m.modify p f).currentLevel = m.currentLevel := rfl
@[simp] theorem levelChanged_modify : (m.modify p f).levelChanged = m.levelChanged := rfl
@[simp] theorem latestId_modify : (m.modify p f).latestId = m.latestId := rfl
@[simp] theorem finishWaiter_modify : (m.modify p f).finishWaiter = m.finishWaiter := rfl
@[simp] theorem finishTasks_modify : (m.modify p f).finishTasks = m.finishTasks := rfl
@[simp] theorem running_setRunning : (m.setRunning p running).running = m.running := rfl
@[simp] theorem running_setLevel : (m.setLevel p level).running = m.running := rfl
@[simp] theorem running_setQueue :
    (m.setQueue level queue).running = Function.update m.running level queue := rfl
@[simp] theorem tasks_setQueue : (m.setQueue level queue).tasks = m.tasks := rfl
@[simp] theorem currentLevel_setQueue :
    (m.setQueue level queue).currentLevel = m.currentLevel := rfl
@[simp] theorem levelChanged_setQueue :
    (m.setQueue level queue).levelChanged = m.levelChanged := rfl
@[simp] theorem latestId_setQueue : (m.setQueue level queue).latestId = m.latestId := rfl
@[simp] theorem finishWaiter_setQueue :
    (m.setQueue level queue).finishWaiter = m.finishWaiter := rfl
@[simp] theorem task?_setQueue (q : Nat) : (m.setQueue level queue).task? q = m.task? q := rfl

end Projections

/-! ## Looking tasks up -/

theorem task?_some {m : TaskManager} {p : Nat} {t : Task} (found : m.task? p = some t) :
    t ∈ m.tasks ∧ t.id = p :=
  ⟨List.mem_of_find?_eq_some found, by simpa using List.find?_some found⟩

theorem task?_congr {m m' : TaskManager} (tasks : m'.tasks = m.tasks) (p : Nat) :
    m'.task? p = m.task? p := by
  rw [task?, task?, tasks]

theorem task?_of_mem {m : TaskManager} {t : Task} (nodup : (m.tasks.map Task.id).Nodup)
    (member : t ∈ m.tasks) : m.task? t.id = some t := by
  have isSome : (m.task? t.id).isSome := by
    rw [task?, List.find?_isSome]
    exact ⟨t, member, by simp⟩
  obtain ⟨other, found⟩ := Option.isSome_iff_exists.mp isSome
  obtain ⟨otherMem, idEq⟩ := task?_some found
  rw [found, List.inj_on_of_nodup_map nodup otherMem member idEq]

theorem owns_iff {m : TaskManager} {p : Nat} : m.Owns p ↔ ∃ t, m.task? p = some t := by
  constructor
  · intro owned
    rcases List.mem_map.mp owned with ⟨t, member, rfl⟩
    apply Option.isSome_iff_exists.mp
    rw [task?, List.find?_isSome]
    exact ⟨t, member, by simp⟩
  · rintro ⟨t, found⟩
    rcases task?_some found with ⟨member, rfl⟩
    exact List.mem_map_of_mem member

/-- Looking up after an update that keeps ids. -/
theorem task?_modify {m : TaskManager} {f : Task → Task} (keeps : ∀ t, (f t).id = t.id)
    (p q : Nat) :
    (m.modify p f).task? q = if q = p then (m.task? q).map f else m.task? q := by
  have same : ((fun t : Task => decide (t.id = q)) ∘ fun t => if t.id = p then f t else t) =
      fun t => decide (t.id = q) := by
    funext t
    by_cases h : t.id = p <;> simp [h, keeps]
  rw [task?, modify, List.find?_map, same]
  change Option.map _ (m.task? q) = _
  cases found : m.task? q with
  | none => simp
  | some t =>
      obtain ⟨-, rfl⟩ := task?_some found
      by_cases h : t.id = p <;> simp [h]

theorem map_id_modify {m : TaskManager} {f : Task → Task} (keeps : ∀ t, (f t).id = t.id)
    (p : Nat) : (m.modify p f).tasks.map Task.id = m.tasks.map Task.id := by
  rw [modify, List.map_map]
  apply List.map_congr_left
  intro t _
  by_cases h : t.id = p <;> simp [h, keeps]

@[simp]
theorem task?_setRunning (m : TaskManager) (p q : Nat) (running : Bool) :
    (m.setRunning p running).task? q =
      if q = p then (m.task? q).map fun t => { t with running } else m.task? q := by
  rw [setRunning, task?_modify]
  exact fun _ => rfl

@[simp]
theorem task?_setLevel (m : TaskManager) (p q level : Nat) :
    (m.setLevel p level).task? q =
      if q = p then (m.task? q).map fun t => { t with level } else m.task? q := by
  rw [setLevel, task?_modify]
  exact fun _ => rfl

@[simp]
theorem map_id_setRunning (m : TaskManager) (p : Nat) (running : Bool) :
    (m.setRunning p running).tasks.map Task.id = m.tasks.map Task.id := by
  rw [setRunning, map_id_modify]
  exact fun _ => rfl

@[simp]
theorem map_id_setLevel (m : TaskManager) (p level : Nat) :
    (m.setLevel p level).tasks.map Task.id = m.tasks.map Task.id := by
  rw [setLevel, map_id_modify]
  exact fun _ => rfl

/-- Looking up after `tasks_.erase`. -/
theorem find?_filter_id (tasks : List Task) (p q : Nat) :
    (tasks.filter (·.id ≠ p)).find? (·.id = q) =
      if q = p then none else tasks.find? (·.id = q) := by
  rw [List.find?_filter]
  by_cases h : q = p
  · rw [if_pos h, List.find?_eq_none]
    intro t _
    simp [h]
  · rw [if_neg h]
    congr 1
    funext t
    by_cases same : t.id = q <;> simp [same, h]

/-- Looking up after `NewTask`. -/
theorem task?_newTask (m : TaskManager) (bounded : ∀ t ∈ m.tasks, t.id ≤ m.latestId) (q : Nat) :
    m.newTask.1.task? q =
      if q = m.latestId + 1 then
        some { id := m.latestId + 1, msgs := [], level := Task.kDefaultLevel, running := false }
      else m.task? q := by
  rw [task?, newTask, List.find?_append]
  change (m.task? q).or _ = _
  by_cases h : q = m.latestId + 1
  · have absent : m.task? q = none := by
      rw [task?, List.find?_eq_none]
      intro t member
      have := bounded t member
      simp only [decide_eq_true_eq]
      omega
    rw [absent, Option.none_or, if_pos h, h]
    simp
  · simp [h, Ne.symm h]

theorem owns_newTask (m : TaskManager) (p : Nat) :
    m.newTask.1.Owns p ↔ m.Owns p ∨ p = m.latestId + 1 := by
  simp [Owns, newTask]

/-! ## The invariant of the queues -/

/-- Queues and tasks agree, and the idle task is running at level zero. -/
structure Queues (m : TaskManager) : Prop where
  ids_nodup : (m.tasks.map Task.id).Nodup
  ids_le : ∀ t ∈ m.tasks, t.id ≤ m.latestId
  level_le : ∀ p t, m.task? p = some t → t.level ≤ kMaxLevel
  nodup : ∀ l, (m.running l).Nodup
  mem_iff : ∀ l p, p ∈ m.running l ↔ ∃ t, m.task? p = some t ∧ t.running = true ∧ t.level = l
  idle : ∃ t, m.task? idleTask = some t ∧ t.running = true ∧ t.level = 0

namespace Queues

variable {m m' : TaskManager}

theorem running_eq_nil (queues : Queues m) {l : Nat} (above : kMaxLevel < l) :
    m.running l = [] := by
  rw [List.eq_nil_iff_forall_not_mem]
  intro p member
  obtain ⟨t, found, -, level⟩ := (queues.mem_iff l p).mp member
  have := queues.level_le p t found
  omega

theorem running_zero_ne_nil (queues : Queues m) : m.running 0 ≠ [] := by
  obtain ⟨t, found, running, level⟩ := queues.idle
  exact List.ne_nil_of_mem ((queues.mem_iff 0 idleTask).mpr ⟨t, found, running, level⟩)

/-- A task is queued once at its own level while it runs, and nowhere else. -/
theorem count_eq (queues : Queues m) {t : Task} (member : t ∈ m.tasks) (l : Nat) :
    (m.running l).count t.id = if t.running = true ∧ t.level = l then 1 else 0 := by
  have found := task?_of_mem queues.ids_nodup member
  split
  · rename_i placed
    exact List.count_eq_one_of_mem (queues.nodup l)
      ((queues.mem_iff l t.id).mpr ⟨t, found, placed⟩)
  · rename_i elsewhere
    rw [List.count_eq_zero]
    intro queued
    obtain ⟨t', found', placed⟩ := (queues.mem_iff l t.id).mp queued
    rw [found] at found'
    cases found'
    exact elsewhere placed

theorem owned (queues : Queues m) {l p : Nat} (queued : p ∈ m.running l) :
    ∃ t ∈ m.tasks, t.id = p := by
  obtain ⟨t, found, -⟩ := (queues.mem_iff l p).mp queued
  exact ⟨t, task?_some found⟩

/-- The ids of the tasks are given out, also after a change that keeps them. -/
theorem ids_le_of_eq (queues : Queues m) (ids : m'.tasks.map Task.id = m.tasks.map Task.id) :
    ∀ t ∈ m'.tasks, t.id ≤ m.latestId := by
  intro t member
  have inMap : t.id ∈ m.tasks.map Task.id := by
    rw [← ids]
    exact List.mem_map_of_mem member
  obtain ⟨old, oldMem, idEq⟩ := List.mem_map.mp inMap
  rw [← idEq]
  exact queues.ids_le old oldMem

/-- The update rule: one task changes, together with the places where it is
queued. -/
theorem update (queues : Queues m) {p : Nat} (t' : Task)
    (ids : m'.tasks.map Task.id = m.tasks.map Task.id) (latest : m'.latestId = m.latestId)
    (lookup : ∀ q, m'.task? q = if q = p then some t' else m.task? q)
    (level_le : t'.level ≤ kMaxLevel) (nodup : ∀ l, (m'.running l).Nodup)
    (self : ∀ l, p ∈ m'.running l ↔ t'.running = true ∧ t'.level = l)
    (others : ∀ l q, q ≠ p → (q ∈ m'.running l ↔ q ∈ m.running l))
    (idle : p = idleTask → t'.running = true ∧ t'.level = 0) : Queues m' where
  ids_nodup := by
    rw [ids]
    exact queues.ids_nodup
  ids_le := by
    rw [latest]
    exact queues.ids_le_of_eq ids
  level_le := by
    intro q t found
    rw [lookup] at found
    split at found
    · cases found
      exact level_le
    · exact queues.level_le q t found
  nodup := nodup
  mem_iff := by
    intro l q
    rw [lookup]
    by_cases h : q = p
    · subst h
      rw [if_pos rfl, self]
      simp
    · rw [if_neg h, others l q h, queues.mem_iff]
  idle := by
    rw [lookup]
    by_cases h : idleTask = p
    · rw [if_pos h]
      exact ⟨t', rfl, idle h.symm⟩
    · rw [if_neg h]
      exact queues.idle

/-- Pointers in a queue refer to running tasks of its level. -/
theorem task?_of_mem_running (queues : Queues m) {l p : Nat} (queued : p ∈ m.running l) :
    ∃ t, m.task? p = some t ∧ t.running = true ∧ t.level = l :=
  (queues.mem_iff l p).mp queued

theorem newTask (queues : Queues m) : Queues m.newTask.1 := by
  have fresh : ∀ p t, m.task? p = some t → p ≠ m.latestId + 1 := by
    intro p t found
    obtain ⟨member, idEq⟩ := task?_some found
    have := queues.ids_le t member
    omega
  have lookup := m.task?_newTask queues.ids_le
  exact {
    ids_nodup := by
      change ((m.tasks ++ [_]).map Task.id).Nodup
      rw [List.map_append, List.nodup_append]
      refine ⟨queues.ids_nodup, by simp, ?_⟩
      intro a aMem b bMem
      obtain ⟨t, member, rfl⟩ := List.mem_map.mp aMem
      simp only [List.map_cons, List.map_nil, List.mem_singleton] at bMem
      have := queues.ids_le t member
      omega
    ids_le := by
      intro t member
      change t.id ≤ m.latestId + 1
      rcases List.mem_append.mp member with old | new
      · have := queues.ids_le t old
        omega
      · rw [List.mem_singleton.mp new]
    level_le := by
      intro p t found
      rw [lookup] at found
      split at found
      · cases found
        exact (by decide : Task.kDefaultLevel ≤ kMaxLevel)
      · exact queues.level_le p t found
    nodup := queues.nodup
    mem_iff := by
      intro l p
      change p ∈ m.running l ↔ _
      rw [lookup, queues.mem_iff]
      by_cases h : p = m.latestId + 1
      · rw [if_pos h]
        constructor
        · rintro ⟨t, found, -⟩
          exact absurd h (fresh p t found)
        · rintro ⟨t, found, running, -⟩
          cases found
          cases running
      · rw [if_neg h]
    idle := by
      obtain ⟨t, found, placed⟩ := queues.idle
      rw [lookup, if_neg (fresh _ t found)]
      exact ⟨t, found, placed⟩ }

end Queues

end TaskManager

end Mikanos
