import Mikanos.Timer.Manager
import Mikanos.Transition.Run

/-!
# When timers fire

A system of `TimerManager` and those who add timers to it, over any implementation
of the priority queue.  A timer fires at the first tick after its insertion that is
not before its timeout.
-/

namespace Mikanos

open Transition

/-- A timer manager together with the tick of `InitializeTask`, the timers added
with the ticks at which they were, the messages sent with the ticks at which they
were, and what `Tick` has returned. -/
structure Timers (pq : PriorityQueue Timer Timer.Less) where
  manager : TimerManager pq
  installed : Option Nat
  added : List (Nat × Timer)
  sent : List (Nat × Nat × Message)
  returned : List Bool

namespace Timers

variable {pq : PriorityQueue Timer Timer.Less}

variable (pq) in
/-- The manager has just been constructed. -/
def initial : Timers pq where
  manager := .new pq
  installed := none
  added := []
  sent := []
  returned := []

/-- What can happen. -/
inductive Action
  /-- `InitializeTask` adds the task timer -/
  | initializeTask
  /-- `KernelMainNewStack` or `TaskTerminal` adds a cursor timer -/
  | addTimer (timeout taskId : Nat)
  /-- an application calls `CreateTimer` -/
  | createTimer (arg1 arg2 arg3 taskId : Nat)
  /-- the timer interrupt calls `Tick` -/
  | tick

/-- Add a timer other than the task timer. -/
def add (s : Timers pq) (timer : Timer) : Timers pq :=
  { s with
    manager := s.manager.addTimer timer
    added := s.added ++ [(s.manager.tick, timer)] }

/-- One step. -/
def step (s : Timers pq) : Action → Option (Timers pq)
  | .initializeTask =>
      if s.installed = none then some { s with
        manager := s.manager.addTimer (.task s.manager.tick)
        installed := some s.manager.tick }
      else none
  | .addTimer timeout taskId => some (s.add ⟨timeout, 1, taskId⟩)
  | .createTimer arg1 arg2 arg3 taskId =>
      match Mikanos.createTimer s.manager.tick arg1 arg2 arg3 taskId with
      | none => some s
      | some created => some (s.add created.1)
  | .tick =>
      match s.manager.runTick with
      | .done timers taskTimerTimeout messages => some { s with
          manager := { tick := (s.manager.tick + 1) % 2 ^ 64, timers }
          sent := s.sent ++ messages.map ((s.manager.tick + 1) % 2 ^ 64, ·)
          returned := s.returned ++ [taskTimerTimeout] }
      | .emptyTop => none
      | .outOfFuel => none

/-- Timeouts are finite, and neither the tick counter nor a timeout that is computed
from it wraps. -/
def InRange (s : Timers pq) : Action → Prop
  | .initializeTask => True
  | .addTimer timeout _ => timeout < 2 ^ 64 - 1
  | .createTimer arg1 arg2 arg3 taskId =>
      ∀ created ∈ Mikanos.createTimer s.manager.tick arg1 arg2 arg3 taskId,
        created.1.timeout < 2 ^ 64 - 1
  | .tick => s.manager.tick + 1 + kTaskTimerPeriod < 2 ^ 64

instance (s : Timers pq) : ∀ action, Decidable (InRange s action)
  | .initializeTask => inferInstanceAs (Decidable True)
  | .addTimer timeout _ => inferInstanceAs (Decidable (timeout < 2 ^ 64 - 1))
  | .createTimer arg1 arg2 arg3 taskId => inferInstanceAs (Decidable
      (∀ created ∈ Mikanos.createTimer s.manager.tick arg1 arg2 arg3 taskId,
        created.1.timeout < 2 ^ 64 - 1))
  | .tick => inferInstanceAs (Decidable (_ < _))

/-- The first tick after the insertion that is not before the timeout. -/
def due (inserted : Nat × Timer) : Nat :=
  max (inserted.1 + 1) inserted.2.timeout

/-- The ticks at which tasks are switched: every `kTaskTimerPeriod`-th one after
`InitializeTask`. -/
def switches (installed : Option Nat) (tick : Nat) : Bool :=
  installed.any fun start => start < tick ∧ (tick - start) % kTaskTimerPeriod = 0

/-- The messages sent are those of the timers whose tick has come, each once, at that
tick, and with its own task, timeout and value; within a tick earlier timeouts come
first. -/
def Fired (added : List (Nat × Timer)) (sent : List (Nat × Nat × Message)) (tick : Nat) : Prop :=
  ∃ ts : List (Nat × Timer),
    sent = ts.map (fun fired => (fired.1, fired.2.message)) ∧
    ts.Perm ((added.map fun inserted => (due inserted, inserted.2)).filter fun fired =>
      fired.1 ≤ tick) ∧
    ts.Pairwise fun fired fired' =>
      fired.1 < fired'.1 ∨ fired.1 = fired'.1 ∧ fired.2.timeout ≤ fired'.2.timeout

/-- Every timer is sent exactly once and in time; `Tick` has returned true exactly
when tasks are switched; and the loop of the next call of `Tick` ends, however much
fuel is left over, without having called `top` on an empty queue. -/
structure OnTime (s : Timers pq) : Prop where
  sent : Fired s.added s.sent s.manager.tick
  returned : s.returned = (List.range s.manager.tick).map fun i => switches s.installed (i + 1)
  ends : s.InRange .tick → ∃ fuel timers flag messages, ∀ more,
    TimerManager.tickLoop pq ((s.manager.tick + 1) % 2 ^ 64) (fuel + more) s.manager.timers false [] =
      .done timers flag messages

/-! ## The invariant -/

/-- The task timer in the queue. -/
def taskTimers (installed : Option Nat) (tick : Nat) : Multiset Timer :=
  installed.elim 0 fun start =>
    {⟨tick + kTaskTimerPeriod - (tick - start) % kTaskTimerPeriod, kTaskTimerValue, 1⟩}

/-- The other timers in the queue. -/
def pending (added : List (Nat × Timer)) (tick : Nat) : Multiset Timer :=
  Multiset.map Prod.snd (Multiset.filter (fun inserted => tick < due inserted) added)

/-- The invariant. -/
structure Inv (s : Timers pq) : Prop where
  range : s.manager.tick + kTaskTimerPeriod < 2 ^ 64
  elems : pq.elems s.manager.timers =
    .sentinel ::ₘ (taskTimers s.installed s.manager.tick + pending s.added s.manager.tick)
  inserted_le : ∀ inserted ∈ s.added, inserted.1 ≤ s.manager.tick
  plain : ∀ inserted ∈ s.added,
    inserted.2.value ≠ kTaskTimerValue ∧ inserted.2.timeout < 2 ^ 64 - 1
  installed_le : ∀ start ∈ s.installed, start ≤ s.manager.tick
  sent : Fired s.added s.sent s.manager.tick
  returned : s.returned = (List.range s.manager.tick).map fun i => switches s.installed (i + 1)

variable {s s' : Timers pq}

theorem inv_initial : Inv (initial pq) where
  range := by
    change 0 + 2 < 2 ^ 64
    decide
  elems := by
    change pq.elems (pq.push pq.empty .sentinel) = _
    rw [pq.elems_push, pq.elems_empty]
    rfl
  inserted_le := by rintro inserted ⟨⟩
  plain := by rintro inserted ⟨⟩
  installed_le := by rintro start ⟨⟩
  sent := ⟨[], rfl, .refl _, .nil⟩
  returned := rfl

/-! ## Adding timers -/

theorem lt_due (inserted : Nat × Timer) : inserted.1 < due inserted :=
  Nat.lt_of_lt_of_le (Nat.lt_succ_self _) (Nat.le_max_left _ _)

theorem Fired.add {added : List (Nat × Timer)} {sent : List (Nat × Nat × Message)} {tick : Nat}
    (fired : Fired added sent tick) (timer : Timer) :
    Fired (added ++ [(tick, timer)]) sent tick := by
  rcases fired with ⟨ts, messages, perm, sorted⟩
  refine ⟨ts, messages, ?_, sorted⟩
  have later : ¬ due (tick, timer) ≤ tick := Nat.not_le_of_lt (lt_due (tick, timer))
  rw [List.map_append, List.filter_append, List.map_singleton, List.filter_cons_of_neg, List.filter_nil,
    List.append_nil]
  · exact perm
  · simpa using later

/-- Adding a timer other than the task timer. -/
theorem Inv.add (inv : Inv s) {timer : Timer} (plain : timer.value ≠ kTaskTimerValue)
    (finite : timer.timeout < 2 ^ 64 - 1) : Inv (s.add timer) where
  range := inv.range
  elems := by
    change pq.elems (pq.push s.manager.timers timer) = .sentinel ::ₘ
      (taskTimers s.installed s.manager.tick +
        pending (s.added ++ [(s.manager.tick, timer)]) s.manager.tick)
    have pushed : pending (s.added ++ [(s.manager.tick, timer)]) s.manager.tick =
        timer ::ₘ pending s.added s.manager.tick := by
      have kept := Multiset.filter_cons_of_pos (p := fun inserted => s.manager.tick < due inserted)
        s.added (lt_due (s.manager.tick, timer))
      rw [pending, ← Multiset.coe_add, add_comm, Multiset.coe_singleton, Multiset.singleton_add, kept,
        Multiset.map_cons]
      rfl
    rw [pq.elems_push, inv.elems, pushed, Multiset.add_cons, Multiset.cons_swap]
  inserted_le := by
    intro inserted member
    rcases List.mem_append.mp member with old | new
    · exact inv.inserted_le inserted old
    · rw [List.mem_singleton.mp new]
      exact Nat.le_refl _
  plain := by
    intro inserted member
    rcases List.mem_append.mp member with old | new
    · exact inv.plain inserted old
    · rw [List.mem_singleton.mp new]
      exact ⟨plain, finite⟩
  installed_le := inv.installed_le
  sent := inv.sent.add timer
  returned := inv.returned

/-- `InitializeTask` adds the task timer. -/
theorem Inv.initializeTask (inv : Inv s) (notInstalled : s.installed = none) :
    Inv { s with
      manager := s.manager.addTimer (.task s.manager.tick)
      installed := some s.manager.tick } where
  range := inv.range
  elems := by
    have task : Timer.task s.manager.tick =
        ⟨s.manager.tick + kTaskTimerPeriod - (s.manager.tick - s.manager.tick) % kTaskTimerPeriod,
          kTaskTimerValue, 1⟩ := by
      rw [Timer.task, Nat.mod_eq_of_lt inv.range, Nat.sub_self, Nat.zero_mod, Nat.sub_zero]
    change pq.elems (pq.push s.manager.timers (.task s.manager.tick)) = .sentinel ::ₘ
      (taskTimers (some s.manager.tick) s.manager.tick + pending s.added s.manager.tick)
    have before : taskTimers none s.manager.tick = 0 := rfl
    have after : taskTimers (some s.manager.tick) s.manager.tick = {.task s.manager.tick} := by
      rw [task]
      rfl
    rw [pq.elems_push, inv.elems, notInstalled, before, after, zero_add, Multiset.singleton_add,
      Multiset.cons_swap]
  inserted_le := inv.inserted_le
  plain := inv.plain
  installed_le := by
    rintro start ⟨⟩
    exact Nat.le_refl _
  sent := inv.sent
  returned := by
    rw [inv.returned, notInstalled]
    apply List.map_congr_left
    intro i below
    have notYet : ¬(s.manager.tick < i + 1 ∧
        (i + 1 - s.manager.tick) % kTaskTimerPeriod = 0) :=
      fun both => absurd both.1 (Nat.not_lt.mpr (List.mem_range.mp below))
    exact (decide_eq_false notYet).symm

/-! ## One tick -/

/-- What the next tick finds among the timers of applications and terminals. -/
theorem pending_tick {added : List (Nat × Timer)} {tick : Nat}
    (inserted_le : ∀ inserted ∈ added, inserted.1 ≤ tick)
    (plain : ∀ inserted ∈ added, inserted.2.value ≠ kTaskTimerValue) :
    TimerManager.dueTasks (tick + 1) (pending added tick) = 0 ∧
      TimerManager.dueOthers (tick + 1) (pending added tick) =
        Multiset.map Prod.snd (Multiset.filter (fun inserted => due inserted = tick + 1) added) ∧
      TimerManager.later (tick + 1) (pending added tick) = pending added (tick + 1) := by
  have timeout (inserted : Nat × Timer) (member : inserted ∈ added) :
      inserted.2.timeout ≤ tick + 1 ↔ due inserted ≤ tick + 1 := by
    have := inserted_le inserted member
    rw [due]
    omega
  refine ⟨?_, ?_, ?_⟩
  · rw [TimerManager.dueTasks, Multiset.filter_eq_nil]
    rintro t member ⟨-, task⟩
    rcases Multiset.mem_map.mp member with ⟨inserted, among, same⟩
    exact plain inserted (Multiset.mem_of_mem_filter among) (same ▸ task)
  · rw [TimerManager.dueOthers, pending, Multiset.filter_map, Multiset.filter_filter]
    congr 1
    apply Multiset.filter_congr
    intro inserted member
    have here := timeout inserted member
    have other := plain inserted member
    simp only [Function.comp_apply, here, other, ne_eq, not_false_eq_true, and_true]
    omega
  · rw [TimerManager.later, pending, Multiset.filter_map, Multiset.filter_filter, pending]
    congr 1
    apply Multiset.filter_congr
    intro inserted member
    have here := timeout inserted member
    simp only [Function.comp_apply]
    omega

/-- What the next tick does to the task timer. -/
theorem taskTimers_tick {installed : Option Nat} {tick : Nat}
    (installed_le : ∀ start ∈ installed, start ≤ tick)
    (range : tick + 1 + kTaskTimerPeriod < 2 ^ 64) :
    (decide (TimerManager.dueTasks (tick + 1) (taskTimers installed tick) ≠ 0) =
        switches installed (tick + 1)) ∧
      TimerManager.dueOthers (tick + 1) (taskTimers installed tick) = 0 ∧
      TimerManager.later (tick + 1) (taskTimers installed tick) + Multiset.replicate
          (Multiset.card (TimerManager.dueTasks (tick + 1) (taskTimers installed tick)))
          (.task (tick + 1)) =
        taskTimers installed (tick + 1) := by
  cases installed with
  | none => exact ⟨rfl, rfl, rfl⟩
  | some start =>
      have start_le := installed_le start rfl
      have only : taskTimers (some start) tick =
          ⟨tick + kTaskTimerPeriod - (tick - start) % kTaskTimerPeriod, kTaskTimerValue, 1⟩ ::ₘ 0 := rfl
      have after : taskTimers (some start) (tick + 1) =
          {⟨tick + 1 + kTaskTimerPeriod - (tick + 1 - start) % kTaskTimerPeriod,
            kTaskTimerValue, 1⟩} := rfl
      have switched : switches (some start) (tick + 1) =
        decide (start < tick + 1 ∧ (tick + 1 - start) % kTaskTimerPeriod = 0) := rfl
      have period : kTaskTimerPeriod = 2 := rfl
      have elapsed : (tick - start) % kTaskTimerPeriod = (tick - start) % 2 := rfl
      have elapsed' : (tick + 1 - start) % kTaskTimerPeriod = (tick + 1 - start) % 2 := rfl
      rw [only, after, switched, elapsed, elapsed']
      by_cases now : (tick - start) % 2 = 1
      · -- it is due, and is put back
        have isDue : tick + kTaskTimerPeriod - (tick - start) % 2 ≤ tick + 1 := by omega
        have switch : start < tick + 1 ∧ (tick + 1 - start) % 2 = 0 := by omega
        rcases TimerManager.cons_task
          (t := ⟨tick + kTaskTimerPeriod - (tick - start) % 2, kTaskTimerValue, 1⟩) 0 isDue rfl with
          ⟨tasks, others, notDue⟩
        refine ⟨?_, others, ?_⟩
        · rw [tasks, decide_eq_true switch, decide_eq_true (Multiset.cons_ne_zero)]
        · rw [tasks, notDue, Multiset.card_cons, switch.2, Nat.sub_zero, Timer.task,
            Nat.mod_eq_of_lt range]
          rfl
      · -- it stays for the tick after
        have notDue : tick + 1 < tick + kTaskTimerPeriod - (tick - start) % 2 := by omega
        have noSwitch : ¬(start < tick + 1 ∧ (tick + 1 - start) % 2 = 0) := by omega
        have same : tick + kTaskTimerPeriod - (tick - start) % 2 =
            tick + 1 + kTaskTimerPeriod - (tick + 1 - start) % 2 := by omega
        rcases TimerManager.cons_later
          (t := ⟨tick + kTaskTimerPeriod - (tick - start) % 2, kTaskTimerValue, 1⟩) 0 notDue with
          ⟨tasks, others, later⟩
        refine ⟨?_, others, ?_⟩
        · rw [tasks, decide_eq_false noSwitch]
          rfl
        · rw [tasks, later, same]
          rfl

/-- What `Tick` does in a state of the invariant. -/
theorem Inv.runTick (inv : Inv s) (range : s.InRange .tick) :
    ∃ (timers : pq.Carrier) (ts : List Timer),
      s.manager.runTick = .done timers (switches s.installed (s.manager.tick + 1))
        (ts.map Timer.message) ∧
      (ts : Multiset Timer) = Multiset.map Prod.snd
        (Multiset.filter (fun inserted => due inserted = s.manager.tick + 1) s.added) ∧
      ts.Pairwise (fun t t' => t.timeout ≤ t'.timeout) ∧
      pq.elems timers = .sentinel ::ₘ (taskTimers s.installed (s.manager.tick + 1) +
        pending s.added (s.manager.tick + 1)) := by
  have inRange : s.manager.tick + 1 + kTaskTimerPeriod < 2 ^ 64 := range
  have period : kTaskTimerPeriod = 2 := rfl
  have wrap : (s.manager.tick + 1) % 2 ^ 64 = s.manager.tick + 1 := Nat.mod_eq_of_lt (by omega)
  have sentinelLater : s.manager.tick + 1 < Timer.sentinel.timeout := by
    change s.manager.tick + 1 < 2 ^ 64 - 1
    omega
  rcases pending_tick inv.inserted_le fun inserted member => (inv.plain inserted member).1 with
    ⟨pendingTasks, pendingOthers, pendingLater⟩
  rcases taskTimers_tick inv.installed_le inRange with ⟨taskTasks, taskOthers, taskLater⟩
  rcases TimerManager.cons_later (taskTimers s.installed s.manager.tick +
    pending s.added s.manager.tick) sentinelLater with ⟨tasks, others, later⟩
  have allTasks : TimerManager.dueTasks (s.manager.tick + 1) (pq.elems s.manager.timers) =
      TimerManager.dueTasks (s.manager.tick + 1) (taskTimers s.installed s.manager.tick) := by
    rw [inv.elems, tasks, TimerManager.dueTasks, Multiset.filter_add]
    change _ + TimerManager.dueTasks (s.manager.tick + 1) (pending s.added s.manager.tick) = _
    rw [pendingTasks, add_zero]
    rfl
  have allOthers : TimerManager.dueOthers (s.manager.tick + 1) (pq.elems s.manager.timers) =
      TimerManager.dueOthers (s.manager.tick + 1) (pending s.added s.manager.tick) := by
    rw [inv.elems, others, TimerManager.dueOthers, Multiset.filter_add]
    change TimerManager.dueOthers (s.manager.tick + 1) (taskTimers s.installed s.manager.tick) + _ = _
    rw [taskOthers, zero_add]
    rfl
  have allLater : TimerManager.later (s.manager.tick + 1) (pq.elems s.manager.timers) =
      .sentinel ::ₘ (TimerManager.later (s.manager.tick + 1)
        (taskTimers s.installed s.manager.tick) + pending s.added (s.manager.tick + 1)) := by
    rw [inv.elems, later, TimerManager.later, Multiset.filter_add]
    change .sentinel ::ₘ (_ + TimerManager.later (s.manager.tick + 1)
      (pending s.added s.manager.tick)) = _
    rw [pendingLater]
    rfl
  have parts := congrArg Multiset.card
    (TimerManager.due_add_later (s.manager.tick + 1) (pq.elems s.manager.timers))
  rw [Multiset.card_add, Multiset.card_add] at parts
  rcases TimerManager.tickLoop_spec inRange false []
    ⟨.sentinel, inv.elems ▸ Multiset.mem_cons_self _ _, sentinelLater⟩
    (show _ < Multiset.card (pq.elems s.manager.timers) + 1 by omega) with
    ⟨timers, ts, done, all, sorted, rest⟩
  refine ⟨timers, ts, ?_, ?_, sorted, ?_⟩
  · rw [TimerManager.runTick, wrap, done, allTasks, taskTasks, Bool.false_or, List.nil_append]
  · rw [all, allOthers, pendingOthers]
  · rw [rest, allLater, allTasks, Multiset.cons_add, add_right_comm, taskLater]

theorem Fired.tick {added : List (Nat × Timer)} {sent : List (Nat × Nat × Message)} {tick : Nat}
    (fired : Fired added sent tick) {ts : List Timer}
    (now : (ts : Multiset Timer) = Multiset.map Prod.snd
      (Multiset.filter (fun inserted => due inserted = tick + 1) added))
    (sorted : ts.Pairwise fun t t' => t.timeout ≤ t'.timeout) :
    Fired added (sent ++ (ts.map Timer.message).map (tick + 1, ·)) (tick + 1) := by
  rcases fired with ⟨old, messages, perm, oldSorted⟩
  set all := added.map fun inserted => (due inserted, inserted.2) with allEq
  have new : (ts.map (tick + 1, ·)).Perm (all.filter fun fired => fired.1 = tick + 1) := by
    have perm' : ts.Perm ((added.filter fun inserted => due inserted = tick + 1).map Prod.snd) := by
      rw [Multiset.filter_coe, Multiset.map_coe] at now
      exact Multiset.coe_eq_coe.mp now
    refine (perm'.map (tick + 1, ·)).trans (.of_eq ?_)
    rw [List.map_map, allEq, List.filter_map]
    apply List.map_congr_left
    intro inserted member
    have here : due inserted = tick + 1 := by simpa using List.of_mem_filter member
    rw [Function.comp_apply, here]
  have split : (all.filter (fun fired => fired.1 ≤ tick) ++
      all.filter fun fired => fired.1 = tick + 1).Perm
      (all.filter fun fired => fired.1 ≤ tick + 1) := by
    have parts := List.filter_append_perm (fun fired : Nat × Timer => decide (fired.1 ≤ tick))
      (all.filter fun fired => fired.1 ≤ tick + 1)
    rw [List.filter_filter, List.filter_filter] at parts
    refine (List.Perm.of_eq ?_).trans parts
    congr 1
    · apply List.filter_congr
      intro fired _
      rw [← Bool.decide_and]
      exact decide_eq_decide.mpr (by omega)
    · apply List.filter_congr
      intro fired _
      rw [← decide_not, ← Bool.decide_and]
      exact decide_eq_decide.mpr (by omega)
  refine ⟨old ++ ts.map (tick + 1, ·), ?_, (perm.append new).trans split, ?_⟩
  · rw [messages, List.map_append, List.map_map, List.map_map]
    rfl
  · rw [List.pairwise_append]
    refine ⟨oldSorted, ?_, ?_⟩
    · rw [List.pairwise_map]
      exact sorted.imp fun le => .inr ⟨rfl, le⟩
    · intro fired member fired' member'
      have before := List.of_mem_filter (perm.mem_iff.mp member)
      rcases List.mem_map.mp member' with ⟨t, -, same⟩
      rw [← same]
      exact .inl (Nat.lt_succ_of_le (of_decide_eq_true before))

theorem Inv.tick (inv : Inv s) (range : s.InRange .tick) :
    ∃ s', s.step .tick = some s' ∧ Inv s' := by
  have inRange : s.manager.tick + 1 + kTaskTimerPeriod < 2 ^ 64 := range
  have wrap : (s.manager.tick + 1) % 2 ^ 64 = s.manager.tick + 1 := Nat.mod_eq_of_lt (by omega)
  rcases inv.runTick range with ⟨timers, ts, done, now, sorted, elems⟩
  refine ⟨_, by rw [step, done], ?_⟩
  exact
    { range := by
        rw [wrap]
        exact inRange
      elems := by
        rw [wrap]
        exact elems
      inserted_le := by
        intro inserted member
        rw [wrap]
        exact Nat.le_succ_of_le (inv.inserted_le inserted member)
      plain := inv.plain
      installed_le := by
        intro start member
        rw [wrap]
        exact Nat.le_succ_of_le (inv.installed_le start member)
      sent := by
        rw [wrap]
        exact inv.sent.tick now sorted
      returned := by
        rw [wrap, List.range_succ, List.map_append, inv.returned]
        rfl }

theorem Inv.step (inv : Inv s) {action : Action} (range : s.InRange action)
    (stepped : s.step action = some s') : Inv s' := by
  cases action with
  | initializeTask =>
      rw [Timers.step] at stepped
      split at stepped
      · rename_i notInstalled
        cases stepped
        exact inv.initializeTask notInstalled
      · cases stepped
  | addTimer timeout taskId =>
      cases stepped
      exact inv.add (show (1 : Int) ≠ kTaskTimerValue by decide) range
  | createTimer arg1 arg2 arg3 taskId =>
      rw [Timers.step] at stepped
      cases created : Mikanos.createTimer s.manager.tick arg1 arg2 arg3 taskId with
      | none =>
          rw [created] at stepped
          cases stepped
          exact inv
      | some timer =>
          rw [created] at stepped
          cases stepped
          have negative := value_createTimer created
          refine inv.add ?_ (range timer created)
          intro task
          rw [task] at negative
          exact absurd negative (by decide)
  | tick =>
      rcases inv.tick range with ⟨s'', stepped', inv'⟩
      rw [stepped'] at stepped
      cases stepped
      exact inv'

/-- In every run, timers fire exactly once, on time and in order. -/
theorem onTime_of_run {actions : List Action}
    (run : Run (guarded (ofFunction step) InRange) (initial pq) actions s) : OnTime s := by
  have inv : Inv s := run.invariant (fun _ _ _ inv stepped => inv.step stepped.1 stepped.2) inv_initial
  refine ⟨inv.sent, inv.returned, ?_⟩
  intro range
  rcases inv.runTick range with ⟨timers, ts, done, -⟩
  exact ⟨_, timers, _, _, TimerManager.tickLoop_mono done⟩

/-- A queue that puts the timer with the earliest timeout at the top. -/
def listQueue : PriorityQueue Timer Timer.Less :=
  .ofKey Timer.timeout

/-- Timers with equal, past and future timeouts. -/
def mixture : List Action :=
  [.addTimer 50 1, .initializeTask, .tick, .createTimer 1 5 30 2, .addTimer 0 2, .createTimer 0 7 20 3,
    .tick, .tick, .tick, .createTimer 0 0 0 3, .tick]

theorem onTime_mixture : ∃ s : Timers listQueue,
    Run (guarded (ofFunction step) InRange) (initial listQueue) mixture s ∧ OnTime s := by
  rcases exists_run_of_execute InRange step (initial listQueue) mixture
    (fun s => s.manager.tick = 5) (by decide) with ⟨s, run, -⟩
  exact ⟨s, run, onTime_of_run run⟩

end Timers
end Mikanos
