import Mikanos.Task.Message
import Mikanos.Timer.PriorityQueue

/-!
# Timers

`TimerManager` keeps its timers in a priority queue in which the earliest timeout
is at the top.  `Tick` takes out all timers that are due; the task timer is known by
its value, and is put back with the timeout of the next task switch.  A timer that
is never due stays at the bottom of the queue, so that the loop finds an end.
-/

namespace Mikanos

/-- `kTimerFreq`. -/
def kTimerFreq : Nat := 100

/-- `kTaskTimerPeriod`: `kTimerFreq * 0.02`. -/
def kTaskTimerPeriod : Nat := 2

/-- `kTaskTimerValue`: the greatest `int`. -/
def kTaskTimerValue : Int := 2 ^ 31 - 1

/-- `Timer`. -/
structure Timer where
  timeout : Nat
  value : Int
  taskId : Nat
  deriving DecidableEq

namespace Timer

/-- `operator<`: a timer whose timeout is farther away has a lower priority. -/
def Less (lhs rhs : Timer) : Prop :=
  rhs.timeout < lhs.timeout

/-- The message that `Tick` sends for a timer, and the task that it is sent to. -/
def message (t : Timer) : Nat × Message :=
  (t.taskId, .timerTimeout t.timeout t.value)

/-- The timer that the constructor of `TimerManager` puts into the queue. -/
def sentinel : Timer :=
  ⟨2 ^ 64 - 1, 0, 0⟩

/-- The task timer, as `InitializeTask` and `Tick` put it into the queue. -/
def task (tick : Nat) : Timer :=
  ⟨(tick + kTaskTimerPeriod) % 2 ^ 64, kTaskTimerValue, 1⟩

end Timer

/-- The arguments of the `CreateTimer` system call, and the timer it creates together
with the value it returns; `none` is `EINVAL`. -/
def createTimer (currentTick arg1 arg2 arg3 taskId : Nat) : Option (Timer × Nat) :=
  let mode := arg1 % 2 ^ 32
  let timerValue := (BitVec.ofNat 32 arg2).toInt
  if timerValue ≤ 0 then none
  else
    let timeout := arg3 * kTimerFreq % 2 ^ 64 / 1000
    let timeout := if mode % 2 = 1 then (timeout + currentTick) % 2 ^ 64 else timeout
    some (⟨timeout, -timerValue, taskId⟩, timeout * 1000 % 2 ^ 64 / kTimerFreq)

/-- Timers of applications have a negative value. -/
theorem value_createTimer {currentTick arg1 arg2 arg3 taskId result : Nat} {t : Timer}
    (created : createTimer currentTick arg1 arg2 arg3 taskId = some (t, result)) : t.value < 0 := by
  rw [createTimer] at created
  dsimp only at created
  split at created
  · cases created
  · cases created
    change -_ < (0 : Int)
    omega

/-- `TimerManager`, over some implementation of `std::priority_queue`. -/
structure TimerManager (pq : PriorityQueue Timer Timer.Less) where
  tick : Nat
  timers : pq.Carrier

namespace TimerManager

variable (pq : PriorityQueue Timer Timer.Less)

/-- The constructor. -/
def new : TimerManager pq where
  tick := 0
  timers := pq.push pq.empty .sentinel

/-- How the loop of `Tick` ends: with the queue, `task_timer_timeout` and the messages
sent, with a call of `top` on an empty queue, or not at all. -/
inductive TickResult
  | done (timers : pq.Carrier) (taskTimerTimeout : Bool) (sent : List (Nat × Message))
  | emptyTop
  | outOfFuel

/-- The loop of `Tick`. -/
def tickLoop (tick : Nat) :
    Nat → pq.Carrier → Bool → List (Nat × Message) → TickResult pq
  | 0, _, _, _ => .outOfFuel
  | fuel + 1, timers, taskTimerTimeout, sent =>
      match pq.top timers with
      | none => .emptyTop
      | some t =>
          if tick < t.timeout then .done timers taskTimerTimeout sent
          else if t.value = kTaskTimerValue then
            tickLoop tick fuel (pq.push (pq.pop timers) (.task tick)) true sent
          else
            tickLoop tick fuel (pq.pop timers) taskTimerTimeout (sent ++ [t.message])

variable {pq}

/-- `AddTimer`. -/
def addTimer (m : TimerManager pq) (timer : Timer) : TimerManager pq :=
  { m with timers := pq.push m.timers timer }

/-- The loop of a call of `Tick`, with fuel for every timer in the queue. -/
def runTick (m : TimerManager pq) : TickResult pq :=
  tickLoop pq ((m.tick + 1) % 2 ^ 64) (Multiset.card (pq.elems m.timers) + 1) m.timers false []

/-! ## The loop -/

/-- The task timers that are due. -/
def dueTasks (tick : Nat) (ts : Multiset Timer) : Multiset Timer :=
  ts.filter fun t => t.timeout ≤ tick ∧ t.value = kTaskTimerValue

/-- The other timers that are due. -/
def dueOthers (tick : Nat) (ts : Multiset Timer) : Multiset Timer :=
  ts.filter fun t => t.timeout ≤ tick ∧ t.value ≠ kTaskTimerValue

/-- The timers that are not due. -/
def later (tick : Nat) (ts : Multiset Timer) : Multiset Timer :=
  ts.filter fun t => tick < t.timeout

section Cons

variable {tick : Nat} {t : Timer} (ts : Multiset Timer)

theorem cons_task (due : t.timeout ≤ tick) (task : t.value = kTaskTimerValue) :
    dueTasks tick (t ::ₘ ts) = t ::ₘ dueTasks tick ts ∧
      dueOthers tick (t ::ₘ ts) = dueOthers tick ts ∧ later tick (t ::ₘ ts) = later tick ts :=
  ⟨Multiset.filter_cons_of_pos _ ⟨due, task⟩,
    Multiset.filter_cons_of_neg _ fun both => both.2 task,
    Multiset.filter_cons_of_neg _ (Nat.not_lt.mpr due)⟩

theorem cons_other (due : t.timeout ≤ tick) (other : t.value ≠ kTaskTimerValue) :
    dueTasks tick (t ::ₘ ts) = dueTasks tick ts ∧
      dueOthers tick (t ::ₘ ts) = t ::ₘ dueOthers tick ts ∧ later tick (t ::ₘ ts) = later tick ts :=
  ⟨Multiset.filter_cons_of_neg _ fun both => other both.2,
    Multiset.filter_cons_of_pos _ ⟨due, other⟩,
    Multiset.filter_cons_of_neg _ (Nat.not_lt.mpr due)⟩

theorem cons_later (late : tick < t.timeout) :
    dueTasks tick (t ::ₘ ts) = dueTasks tick ts ∧
      dueOthers tick (t ::ₘ ts) = dueOthers tick ts ∧ later tick (t ::ₘ ts) = t ::ₘ later tick ts :=
  ⟨Multiset.filter_cons_of_neg _ fun both => absurd late (Nat.not_lt.mpr both.1),
    Multiset.filter_cons_of_neg _ fun both => absurd late (Nat.not_lt.mpr both.1),
    Multiset.filter_cons_of_pos _ late⟩

end Cons

/-- Nothing is due when the earliest timer is not. -/
theorem nothing_due {tick : Nat} {ts : Multiset Timer} (none : ∀ t ∈ ts, tick < t.timeout) :
    dueTasks tick ts = 0 ∧ dueOthers tick ts = 0 ∧ later tick ts = ts := by
  refine ⟨?_, ?_, Multiset.filter_eq_self.mpr none⟩
  · exact Multiset.filter_eq_nil.mpr fun t member both => absurd (none t member) (Nat.not_lt.mpr both.1)
  · exact Multiset.filter_eq_nil.mpr fun t member both => absurd (none t member) (Nat.not_lt.mpr both.1)

/-- Every timer is in one of the three bags. -/
theorem due_add_later (tick : Nat) (ts : Multiset Timer) :
    dueTasks tick ts + dueOthers tick ts + later tick ts = ts := by
  induction ts using Multiset.induction_on with
  | empty => rfl
  | cons t ts ih =>
      by_cases late : tick < t.timeout
      · rcases cons_later ts late with ⟨tasks, others, notDue⟩
        rw [tasks, others, notDue, Multiset.add_cons, ih]
      · have due : t.timeout ≤ tick := Nat.le_of_not_lt late
        by_cases task : t.value = kTaskTimerValue
        · rcases cons_task ts due task with ⟨tasks, others, notDue⟩
          rw [tasks, others, notDue, Multiset.cons_add, Multiset.cons_add, ih]
        · rcases cons_other ts due task with ⟨tasks, others, notDue⟩
          rw [tasks, others, notDue, Multiset.add_cons, Multiset.cons_add, ih]

/-- The loop takes out the timers that are due, the earliest first, and puts a new
task timer back for every one it takes out.  It ends when it has fuel for all timers
that are due and some timer is not. -/
theorem tickLoop_spec {tick : Nat} (noWrap : tick + kTaskTimerPeriod < 2 ^ 64) {fuel : Nat}
    {timers : pq.Carrier} (flag : Bool) (sent : List (Nat × Message))
    (guard : ∃ t ∈ pq.elems timers, tick < t.timeout)
    (enough : Multiset.card (dueTasks tick (pq.elems timers)) +
      Multiset.card (dueOthers tick (pq.elems timers)) < fuel) :
    ∃ (timers' : pq.Carrier) (ts : List Timer),
      tickLoop pq tick fuel timers flag sent = .done timers'
        (flag || decide (dueTasks tick (pq.elems timers) ≠ 0)) (sent ++ ts.map Timer.message) ∧
      (ts : Multiset Timer) = dueOthers tick (pq.elems timers) ∧
      ts.Pairwise (fun t t' => t.timeout ≤ t'.timeout) ∧
      pq.elems timers' = later tick (pq.elems timers) +
        Multiset.replicate (Multiset.card (dueTasks tick (pq.elems timers))) (.task tick) := by
  induction fuel generalizing timers flag sent with
  | zero => exact absurd enough (Nat.not_lt_zero _)
  | succ fuel ih =>
      rcases guard with ⟨last, lastMember, lastLate⟩
      rcases pq.exists_top lastMember with ⟨t, isTop⟩
      have elems := pq.elems_of_top_some timers t isTop
      have least : ∀ u ∈ pq.elems timers, t.timeout ≤ u.timeout :=
        fun u member => Nat.le_of_not_lt (pq.not_less_of_top timers t isTop u member)
      rw [tickLoop, isTop]
      dsimp only
      by_cases late : tick < t.timeout
      · -- nothing is due any more
        rcases nothing_due fun u member => Nat.lt_of_lt_of_le late (least u member) with
          ⟨tasks, others, all⟩
        refine ⟨timers, [], ?_, others.symm, List.Pairwise.nil, ?_⟩
        · rw [if_pos late, tasks, List.map_nil, List.append_nil]
          simp
        · rw [all, tasks, Multiset.card_zero, Multiset.replicate_zero, add_zero]
      · have due : t.timeout ≤ tick := Nat.le_of_not_lt late
        have lastMember' : last ∈ pq.elems (pq.pop timers) := by
          rw [elems] at lastMember
          rcases Multiset.mem_cons.mp lastMember with same | member
          · rw [same] at lastLate
            exact absurd lastLate late
          · exact member
        rw [if_neg late]
        by_cases task : t.value = kTaskTimerValue
        · -- the task timer is put back
          have next : tick < (Timer.task tick).timeout := by
            change tick < (tick + kTaskTimerPeriod) % 2 ^ 64
            rw [Nat.mod_eq_of_lt noWrap]
            exact Nat.lt_add_of_pos_right (by decide)
          rcases cons_task (pq.elems (pq.pop timers)) due task with ⟨tasks, others, notDue⟩
          rcases cons_later (pq.elems (pq.pop timers)) next with ⟨tasks', others', notDue'⟩
          rw [elems, tasks, others, notDue]
          rw [elems, tasks, others, Multiset.card_cons] at enough
          have pushed := pq.elems_push (pq.pop timers) (.task tick)
          rcases ih true sent ⟨last, pushed ▸ Multiset.mem_cons_of_mem lastMember', lastLate⟩
            (by rw [pushed, tasks', others']; omega) with ⟨timers', ts, done, all, sorted, rest⟩
          rw [pushed] at done all rest
          rw [tasks'] at done rest
          rw [others'] at all
          rw [notDue'] at rest
          refine ⟨timers', ts, ?_, all, sorted, ?_⟩
          · rw [if_pos task, done]
            simp
          · rw [rest, Multiset.card_cons, Multiset.replicate_succ, Multiset.add_cons,
              Multiset.cons_add]
        · rcases cons_other (pq.elems (pq.pop timers)) due task with ⟨tasks, others, notDue⟩
          rw [elems, tasks, others, notDue]
          rw [elems, tasks, others, Multiset.card_cons] at enough
          rcases ih flag (sent ++ [t.message]) ⟨last, lastMember', lastLate⟩ (by omega) with
            ⟨timers', ts, done, all, sorted, rest⟩
          refine ⟨timers', t :: ts, ?_, ?_, ?_, rest⟩
          · rw [if_neg task, done, List.append_assoc]
            rfl
          · rw [← Multiset.cons_coe, all]
          · refine List.Pairwise.cons ?_ sorted
            intro u member
            have among : u ∈ dueOthers tick (pq.elems (pq.pop timers)) := all ▸ Multiset.mem_coe.mpr member
            exact least u (elems ▸ Multiset.mem_cons_of_mem (Multiset.mem_of_mem_filter among))

/-- With more fuel the loop ends in the same way. -/
theorem tickLoop_mono {tick fuel : Nat} {timers timers' : pq.Carrier} {flag flag' : Bool}
    {sent sent' : List (Nat × Message)}
    (done : tickLoop pq tick fuel timers flag sent = .done timers' flag' sent') (more : Nat) :
    tickLoop pq tick (fuel + more) timers flag sent = .done timers' flag' sent' := by
  induction fuel generalizing timers flag sent with
  | zero => cases done
  | succ fuel ih =>
      rw [Nat.succ_add]
      rw [tickLoop] at done ⊢
      split at done
      · cases done
      · split at done
        · rename_i found late
          rw [if_pos late]
          exact done
        · rename_i found notLate
          rw [if_neg notLate]
          split at done
          · rename_i task
            rw [if_pos task]
            exact ih done
          · rename_i other
            rw [if_neg other]
            exact ih done

/-- A timer that is not the task timer is either still in the queue or has been sent. -/
theorem tickLoop_countP (p : Timer → Prop) [DecidablePred p] (q : Nat × Message → Bool)
    (sends : ∀ t, q t.message = decide (p t)) (noTask : ∀ t, p t → t.value ≠ kTaskTimerValue)
    {tick fuel : Nat} {timers timers' : pq.Carrier} {flag flag' : Bool}
    {sent sent' : List (Nat × Message)}
    (done : tickLoop pq tick fuel timers flag sent = .done timers' flag' sent') :
    (pq.elems timers').countP p + sent'.countP q = (pq.elems timers).countP p + sent.countP q := by
  induction fuel generalizing timers flag sent with
  | zero => cases done
  | succ fuel ih =>
      rw [tickLoop] at done
      split at done
      · cases done
      · rename_i t isTop
        rw [pq.elems_of_top_some _ t isTop]
        split at done
        · cases done
          rw [pq.elems_of_top_some _ t isTop]
        · split at done
          · -- the task timer is put back
            rename_i task
            have old : ¬ p t := fun holds => noTask t holds task
            have new : ¬ p (.task tick) := fun holds => noTask _ holds rfl
            rw [ih done, pq.elems_push, Multiset.countP_cons_of_neg _ new,
              Multiset.countP_cons_of_neg _ old]
          · rw [ih done, List.countP_append, List.countP_singleton, sends t]
            by_cases holds : p t
            · rw [Multiset.countP_cons_of_pos _ holds, if_pos (decide_eq_true holds)]
              omega
            · rw [Multiset.countP_cons_of_neg _ holds, if_neg (by simpa using holds)]
              omega

end TimerManager
end Mikanos
