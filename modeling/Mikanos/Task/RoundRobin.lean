import Mikanos.Task.Delivery

/-!
# Round-robin order

Every operation leaves the order of the tasks that stay running at a level, except that
`SwitchTask` puts the front of the current queue behind all others.  So two tasks that
stay at a level take turns, whatever happens at other levels meanwhile.
-/

namespace Mikanos.Tasks

open Transition

/-- A task is running at a level. -/
def RunsAt (s : Tasks) (p level : Nat) : Prop :=
  ∃ t, s.manager.task? p = some t ∧ t.running = true ∧ t.level = level

/-- A task becomes `CurrentTask()`. -/
def Enters (p : Nat) (s s' : Tasks) : Prop :=
  s.manager.currentTask ≠ some p ∧ s'.manager.currentTask = some p

instance (p : Nat) (s s' : Tasks) : Decidable (Enters p s s') :=
  inferInstanceAs (Decidable (_ ∧ _))

/-- How often a task becomes `CurrentTask()` along the states of a run. -/
def entries (p : Nat) : List Tasks → Nat
  | s :: s' :: states => (if Enters p s s' then 1 else 0) + entries p (s' :: states)
  | _ => 0

/-- The states of a run, one after the other. -/
def Path (states : List Tasks) : Prop :=
  states.IsChain fun s s' => ∃ action, Next s action s'

variable {s s' : Tasks} {level a b c p : Nat}

/-! ## One step -/

/-- The tasks to look at, in the order of a queue. -/
def order (s : Tasks) (level : Nat) (keep : Nat → Bool) : List Nat :=
  (s.manager.running level).filter keep

/-- The order stays, or the current task goes from the front to the end. -/
def Turns (level : Nat) (keep : Nat → Bool) (s s' : Tasks) : Prop :=
  s'.manager.currentTask = s.manager.currentTask ∧ s'.order level keep = s.order level keep ∨
    ∃ c, s.manager.currentTask = some c ∧ s'.order level keep =
      if keep c then (s.order level keep).tail ++ [c] else s.order level keep

/-- A task that does not run any more is none of those to look at. -/
theorem drops_of_asleep {keep : Nat → Bool} (stays : ∀ q, keep q = true → s'.RunsAt q level)
    (asleep : ∀ t, s'.manager.task? p = some t → t.running = false) : keep p = false := by
  rw [Bool.eq_false_iff]
  intro kept
  rcases stays p kept with ⟨t, found, running, -⟩
  rw [asleep t found] at running
  cases running

theorem drops_of_sleep {keep : Nat → Bool} {m : TaskManager} (slept : m.sleep p = some s'.manager)
    (stays : ∀ q, keep q = true → s'.RunsAt q level) : keep p = false := by
  apply drops_of_asleep stays
  intro t found
  rw [(TaskManager.affects_sleep slept).lookup, if_pos rfl] at found
  rcases Option.map_eq_some_iff.mp found with ⟨t', -, rfl⟩
  rfl

/-- The current task goes to sleep. -/
theorem turns_of_sleep {keep : Nat → Bool} {m : TaskManager} (slept : m.sleep c = some s'.manager)
    (running : m.running = s.manager.running) (current : s.manager.currentTask = some c)
    (stays : ∀ q, keep q = true → s'.RunsAt q level) : Turns level keep s s' := by
  have drops := drops_of_sleep slept stays
  refine .inr ⟨c, current, ?_⟩
  rw [drops, order, (TaskManager.affects_sleep slept).order keep drops, running]
  rfl

/-- A round of `WaitFinish`. -/
theorem turns_of_waitRound {keep : Nat → Bool} {id : Nat} (current : s.manager.currentTask = some c)
    (isWaiting : s.waiting c = some id) (waited : s.waitRound = some s')
    (stays : ∀ q, keep q = true → s'.RunsAt q level) : Turns level keep s s' := by
  rcases waitRound_cases current isWaiting waited with ⟨code, rfl⟩ | ⟨m', rfl, slept⟩
  · exact .inl ⟨rfl, rfl⟩
  · exact turns_of_sleep slept rfl current stays

/-- `Wakeup` of a task that stays at its level does nothing. -/
theorem eq_of_wakeup {m m' : TaskManager} {lv : Int} {t t' : Task} (woken : m.wakeup p lv = some m')
    (found : m.task? p = some t) (running : t.running = true) (found' : m'.task? p = some t')
    (same : t'.level = t.level) : m' = m := by
  rcases TaskManager.wakeup_running woken found running with same | ⟨lv, ne, affects, -⟩
  · exact same
  · rw [affects.lookup_self found] at found'
    cases found'
    exact absurd same ne

/-- `Wakeup` leaves the order of the tasks that stay. -/
theorem turns_of_wakeup {keep : Nat → Bool} {m : TaskManager} {lv : Int}
    (woken : m.wakeup p lv = some s'.manager) (running : m.running = s.manager.running)
    (currentLevel : m.currentLevel = s.manager.currentLevel)
    (tasks : ∀ q t, s.manager.task? q = some t →
      ∃ t', m.task? q = some t' ∧ t'.running = t.running ∧ t'.level = t.level)
    (current : s.manager.currentTask = some c)
    (stays : ∀ q, keep q = true → s.RunsAt q level) (stays' : ∀ q, keep q = true → s'.RunsAt q level) :
    Turns level keep s s' := by
  have current' : m.currentTask = some c := by
    rw [TaskManager.currentTask, running, currentLevel]
    exact current
  left
  cases kept : keep p with
  | true =>
      rcases stays p kept with ⟨t, found, isRunning, atLevel⟩
      rcases tasks p t found with ⟨t₁, found₁, isRunning₁, atLevel₁⟩
      rcases stays' p kept with ⟨t', found', -, atLevel'⟩
      have same := eq_of_wakeup woken found₁ (isRunning₁.trans isRunning) found'
        (atLevel'.trans (atLevel₁.trans atLevel).symm)
      rw [order, same, running]
      exact ⟨current'.trans current.symm, rfl⟩
  | false =>
      rcases TaskManager.affects_wakeup woken with ⟨⟨lv, affects⟩, head⟩
      rw [order, affects.order keep kept, running]
      exact ⟨(head c current').trans current.symm, rfl⟩

/-- Every step keeps the order of the tasks that stay at a level, or lets them take
turns. -/
theorem turns_of_next {keep : Nat → Bool} {action : Action} (inv : Inv none s) (next : Next s action s')
    (stays : ∀ q, keep q = true → s.RunsAt q level) (stays' : ∀ q, keep q = true → s'.RunsAt q level) :
    Turns level keep s s' := by
  rcases inv.manager.currentTask_isSome with ⟨c, current⟩
  rcases next with ⟨allowed, stepped⟩
  have stepped : s.step action = some s' := stepped
  cases action with
  | newTask =>
      cases stepped
      exact .inl ⟨rfl, rfl⟩
  | sleep id =>
      rcases Option.map_eq_some_iff.mp stepped with ⟨⟨m', err⟩, performed, rfl⟩
      rcases TaskManager.withId_cases performed with ⟨-, rfl, -⟩ | ⟨-, slept, -⟩
      · exact .inl ⟨rfl, rfl⟩
      · by_cases isCurrent : s.manager.currentTask = some id
        · exact turns_of_sleep slept rfl isCurrent stays'
        · exact .inl ⟨TaskManager.currentTask_sleep slept isCurrent,
            (TaskManager.affects_sleep slept).order keep (drops_of_sleep slept stays') level⟩
  | wakeup id lv =>
      rcases Option.map_eq_some_iff.mp stepped with ⟨⟨m', err⟩, performed, rfl⟩
      rcases TaskManager.withId_cases performed with ⟨-, rfl, -⟩ | ⟨-, woken, -⟩
      · exact .inl ⟨rfl, rfl⟩
      · exact turns_of_wakeup woken rfl rfl (fun _ t found => ⟨t, found, rfl, rfl⟩) current stays stays'
  | sendMessage id msg =>
      rcases Option.map_eq_some_iff.mp stepped with ⟨⟨s₁, err⟩, sent, rfl⟩
      rcases sendMessage_cases sent with ⟨-, rfl, -⟩ | ⟨owned, -, m', sends, rfl⟩
      · exact .inl ⟨rfl, rfl⟩
      · rcases TaskManager.owns_iff.mp owned with ⟨t, found⟩
        simp only [TaskManager.taskSendMessage, found, Option.bind_eq_bind, Option.bind_some] at sends
        refine turns_of_wakeup sends rfl rfl ?_ current stays stays'
        intro q t found
        rw [TaskManager.task?_modify]
        · split
          · rw [found]
            exact ⟨_, rfl, rfl, rfl⟩
          · exact ⟨t, found, rfl, rfl⟩
        · exact fun _ => rfl
  | receiveOrSleep =>
      rcases receiveOrSleep_cases current stepped with ⟨m₁, t, -, -, running, current₁, rest⟩
      rcases rest with ⟨msg, -, rfl⟩ | ⟨-, m', slept, rfl⟩
      · refine .inl ⟨current₁.trans current.symm, ?_⟩
        change (m₁.running level).filter keep = _
        rw [running]
        rfl
      · exact turns_of_sleep slept running current stays'
  | switchTask =>
      rcases Option.map_eq_some_iff.mp stepped with ⟨m', switched, rfl⟩
      rcases TaskManager.running_switchTask switched with ⟨front, rest, queue, running⟩
      have isFront : s.manager.currentTask = some front := by
        rw [TaskManager.currentTask, queue]
        rfl
      refine .inr ⟨front, isFront, ?_⟩
      change (m'.running level).filter keep = _
      rw [running]
      by_cases here : level = s.manager.currentLevel
      · rw [order, here, Function.update_self, queue]
        cases kept : keep front <;> simp [kept]
      · have drops : keep front = false := by
          rw [Bool.eq_false_iff]
          intro kept
          rcases stays front kept with ⟨t, found, -, atLevel⟩
          rcases inv.manager.task?_current isFront with ⟨t', found', -, atCurrent⟩
          rw [found] at found'
          cases found'
          exact here (atLevel.symm.trans atCurrent)
        rw [Function.update_of_ne here, drops]
        rfl
  | finish exitCode =>
      simp only [Tasks.step, current, Option.bind_eq_bind, Option.bind_some] at stepped
      rcases Option.bind_eq_some_iff.mp stepped with ⟨m', finished, rest⟩
      cases rest
      rcases TaskManager.finish_cases finished current with
        ⟨m₁, removed, -, sameOrder, noWaiter, hasWaiter⟩
      have drops : keep c = false := by
        apply drops_of_asleep stays'
        intro t found
        rw [show m'.task? c = none from
          TaskManager.task?_finish_eq_none finished current (.inl rfl)] at found
        cases found
      refine .inr ⟨c, current, ?_⟩
      rw [drops]
      change (m'.running level).filter keep = (s.manager.running level).filter keep
      rw [← sameOrder keep drops level]
      cases waiting : s.manager.finishWaiter c with
      | none => rw [noWaiter waiting]
      | some w =>
          have woken := hasWaiter w waiting
          cases kept : keep w with
          | false =>
              rcases (TaskManager.affects_wakeup woken).1 with ⟨lv, affects⟩
              exact affects.order keep kept level
          | true =>
              -- a waiter that is running already stays where it is
              rcases stays w kept with ⟨t, found, running, -⟩
              have ne : w ≠ c := by
                rintro rfl
                rw [drops] at kept
                cases kept
              have found₁ : m₁.task? w = some t := by rw [removed, if_neg ne, found]
              rw [TaskManager.wakeup_of_running found₁ running] at woken
              rw [Option.some.inj woken]
  | waitFinish id =>
      simp only [Tasks.step, current, Option.bind_eq_bind, Option.bind_some] at stepped
      have turns : Turns level keep { s with waiting := Function.update s.waiting c (some id) } s' :=
        turns_of_waitRound current (Function.update_self ..) stepped stays'
      exact turns
  | resume =>
      rcases allowed with ⟨c', id, current', isWaiting⟩
      exact turns_of_waitRound current' isWaiting stepped stays'

/-! ## Two tasks -/

/-- Either of two tasks. -/
def either (a b : Nat) (q : Nat) : Bool :=
  q = a || q = b

@[simp]
theorem either_iff (q : Nat) : either a b q = true ↔ q = a ∨ q = b := by
  simp [either]

theorem stays_either (first : s.RunsAt a level) (second : s.RunsAt b level) :
    ∀ q, either a b q = true → s.RunsAt q level := by
  intro q among
  rcases (either_iff q).mp among with rfl | rfl
  · exact first
  · exact second

theorem mem_running (inv : Inv none s) (runs : s.RunsAt p level) : p ∈ s.manager.running level :=
  (inv.manager.queues.mem_iff level p).mpr runs

theorem mem_order (inv : Inv none s) (first : s.RunsAt a level) (second : s.RunsAt b level) (q : Nat) :
    q ∈ s.order level (either a b) ↔ q = a ∨ q = b := by
  rw [order, List.mem_filter, either_iff]
  constructor
  · exact And.right
  · rintro (rfl | rfl)
    · exact ⟨mem_running inv first, .inl rfl⟩
    · exact ⟨mem_running inv second, .inr rfl⟩

/-- The current task, if it is at the level, is the first one in the order. -/
theorem head_order (inv : Inv none s) (runs : s.RunsAt p level) {keep : Nat → Bool} (kept : keep p = true)
    (current : s.manager.currentTask = some p) : (s.order level keep).head? = some p := by
  rcases runs with ⟨t, found, -, atLevel⟩
  rcases inv.manager.task?_current current with ⟨t', found', -, atCurrent⟩
  rw [found] at found'
  cases found'
  have front : (s.manager.running level).head? = some p := by
    rw [← atLevel, atCurrent]
    exact current
  rw [order]
  cases queue : s.manager.running level with
  | nil =>
      rw [queue] at front
      cases front
  | cons first rest =>
      rw [queue] at front
      cases front
      rw [List.filter_cons_of_pos kept]
      rfl

theorem order_cases (inv : Inv none s) (first : s.RunsAt a level) (second : s.RunsAt b level) (ne : a ≠ b) :
    s.order level (either a b) = [a, b] ∨ s.order level (either a b) = [b, a] := by
  have members := mem_order inv first second
  have nodup : (s.order level (either a b)).Nodup := (inv.manager.queues.nodup level).filter _
  have perm : (s.order level (either a b)).Perm [a, b] := by
    rw [List.perm_ext_iff_of_nodup nodup (by simpa using ne)]
    intro q
    rw [members]
    simp
  rcases List.length_eq_two.mp perm.length_eq with ⟨x, y, pair⟩
  rw [pair] at members ⊢
  rcases List.mem_pair.mp ((members a).mpr (.inl rfl)) with rfl | rfl
  · rcases List.mem_pair.mp ((members b).mpr (.inr rfl)) with same | rfl
    · exact absurd same.symm ne
    · exact .inl rfl
  · rcases List.mem_pair.mp ((members b).mpr (.inr rfl)) with rfl | same
    · exact .inr rfl
    · exact absurd same.symm ne

/-- Where two tasks are in their turns, after `n` entries of the second since the first
one has become current. -/
inductive Phase (a b level : Nat) (s : Tasks) : Nat → Prop
  /-- the first one is current -/
  | first : s.order level (either a b) = [a, b] → s.manager.currentTask = some a → Phase a b level s 0
  /-- the second one comes next -/
  | next : s.order level (either a b) = [b, a] → s.manager.currentTask ≠ some b → Phase a b level s 0
  /-- the second one is current -/
  | second : s.order level (either a b) = [b, a] → s.manager.currentTask = some b → Phase a b level s 1
  /-- the first one comes next -/
  | back : s.order level (either a b) = [a, b] → s.manager.currentTask ≠ some a → Phase a b level s 1

/-- One step: when the first task becomes current again, the second one has been so
once. -/
theorem phase_of_next {action : Action} {n : Nat} (inv : Inv none s) (next : Next s action s') (ne : a ≠ b)
    (first : s.RunsAt a level) (second : s.RunsAt b level)
    (first' : s'.RunsAt a level) (second' : s'.RunsAt b level) (phase : Phase a b level s n) :
    (Enters a s s' → n + (if Enters b s s' then 1 else 0) = 1) ∧
      (¬ Enters a s s' → Phase a b level s' (n + if Enters b s s' then 1 else 0)) := by
  have inv' := inv_next inv next
  have atFront (isCurrent : s.manager.currentTask = some a) :
      (s.order level (either a b)).head? = some a := head_order inv first (by simp) isCurrent
  have atFront₂ (isCurrent : s.manager.currentTask = some b) :
      (s.order level (either a b)).head? = some b := head_order inv second (by simp) isCurrent
  have atFront' (isCurrent : s'.manager.currentTask = some a) :
      (s'.order level (either a b)).head? = some a := head_order inv' first' (by simp) isCurrent
  have atFront₂' (isCurrent : s'.manager.currentTask = some b) :
      (s'.order level (either a b)).head? = some b := head_order inv' second' (by simp) isCurrent
  rcases turns_of_next inv next (stays_either first second) (stays_either first' second') with
    ⟨sameCurrent, sameOrder⟩ | ⟨c, current, turned⟩
  · have notEnters (p : Nat) : ¬ Enters p s s' := by
      rintro ⟨before, after⟩
      exact before (sameCurrent ▸ after)
    rw [if_neg (notEnters b)]
    refine ⟨fun enters => absurd enters (notEnters a), fun _ => ?_⟩
    cases phase with
    | first isOrder isCurrent => exact .first (sameOrder.trans isOrder) (sameCurrent.trans isCurrent)
    | next isOrder notCurrent => exact .next (sameOrder.trans isOrder) (sameCurrent ▸ notCurrent)
    | second isOrder isCurrent => exact .second (sameOrder.trans isOrder) (sameCurrent.trans isCurrent)
    | back isOrder notCurrent => exact .back (sameOrder.trans isOrder) (sameCurrent ▸ notCurrent)
  · cases phase with
    | first isOrder isCurrent =>
        rw [current] at isCurrent
        cases isCurrent
        have isOrder' : s'.order level (either a b) = [b, a] := by
          rw [turned, isOrder, if_pos (by simp)]
          rfl
        have notEnters : ¬ Enters a s s' := fun enters => enters.1 current
        refine ⟨fun enters => absurd enters notEnters, fun _ => ?_⟩
        by_cases isCurrent' : s'.manager.currentTask = some b
        · have enters : Enters b s s' := ⟨by rw [current]; simpa using ne, isCurrent'⟩
          rw [if_pos enters]
          exact .second isOrder' isCurrent'
        · rw [if_neg fun enters => isCurrent' enters.2]
          exact .next isOrder' isCurrent'
    | next isOrder notCurrent =>
        have notFirst : s.manager.currentTask ≠ some a := by
          intro isCurrent
          have head := atFront isCurrent
          rw [isOrder] at head
          exact ne (Option.some.inj head).symm
        have isOrder' : s'.order level (either a b) = [b, a] := by
          rw [turned, isOrder, if_neg]
          rw [either_iff]
          rintro (rfl | rfl)
          · exact notFirst current
          · exact notCurrent current
        have notFirst' : s'.manager.currentTask ≠ some a := by
          intro isCurrent
          have head := atFront' isCurrent
          rw [isOrder'] at head
          exact ne (Option.some.inj head).symm
        refine ⟨fun enters => absurd enters.2 notFirst', fun _ => ?_⟩
        by_cases isCurrent' : s'.manager.currentTask = some b
        · rw [if_pos ⟨notCurrent, isCurrent'⟩]
          exact .second isOrder' isCurrent'
        · rw [if_neg fun enters => isCurrent' enters.2]
          exact .next isOrder' isCurrent'
    | second isOrder isCurrent =>
        rw [current] at isCurrent
        cases isCurrent
        have isOrder' : s'.order level (either a b) = [a, b] := by
          rw [turned, isOrder, if_pos (by simp)]
          rfl
        rw [if_neg fun enters => enters.1 current]
        refine ⟨fun _ => rfl, fun notEnters => .back isOrder' fun isCurrent' => notEnters ⟨?_, isCurrent'⟩⟩
        rw [current]
        simpa using ne.symm
    | back isOrder notCurrent =>
        have notSecond : s.manager.currentTask ≠ some b := by
          intro isCurrent
          have head := atFront₂ isCurrent
          rw [isOrder] at head
          exact ne (Option.some.inj head)
        have isOrder' : s'.order level (either a b) = [a, b] := by
          rw [turned, isOrder, if_neg]
          rw [either_iff]
          rintro (rfl | rfl)
          · exact notCurrent current
          · exact notSecond current
        have notSecond' : s'.manager.currentTask ≠ some b := by
          intro isCurrent
          have head := atFront₂' isCurrent
          rw [isOrder'] at head
          exact ne (Option.some.inj head)
        rw [if_neg fun enters => notSecond' enters.2]
        exact ⟨fun _ => rfl, fun notEnters => .back isOrder' fun isCurrent' =>
          notEnters ⟨notCurrent, isCurrent'⟩⟩

/-! ## Whole runs -/

/-- The rest of the way until the first task becomes current again. -/
theorem entries_of_phase {middle : List Tasks} {last : Tasks} {n : Nat} (inv : Inv none s) (ne : a ≠ b)
    (path : Path (s :: (middle ++ [last]))) (none' : entries a (s :: middle) = 0)
    (again : Enters a ((s :: middle).getLast (List.cons_ne_nil _ _)) last)
    (stays : ∀ s' ∈ s :: (middle ++ [last]), s'.RunsAt a level ∧ s'.RunsAt b level)
    (phase : Phase a b level s n) : n + entries b (s :: (middle ++ [last])) = 1 := by
  induction middle generalizing s n with
  | nil =>
      rcases List.isChain_cons_cons.mp path with ⟨⟨action, next⟩, -⟩
      have here := stays s List.mem_cons_self
      have there := stays last (List.mem_cons_of_mem _ (List.mem_singleton_self _))
      exact (phase_of_next inv next ne here.1 here.2 there.1 there.2 phase).1 again
  | cons s' middle ih =>
      rcases List.isChain_cons_cons.mp path with ⟨⟨action, next⟩, rest⟩
      have here := stays s List.mem_cons_self
      have there := stays s' (List.mem_cons_of_mem _ List.mem_cons_self)
      have counts : (if Enters a s s' then 1 else 0) + entries a (s' :: middle) = 0 := none'
      have notEnters : ¬ Enters a s s' := by
        intro enters
        rw [if_pos enters] at counts
        omega
      have phase' := (phase_of_next inv next ne here.1 here.2 there.1 there.2 phase).2 notEnters
      have rest := ih (inv_next inv next) rest (by omega) again
        (fun s'' member => stays s'' (List.mem_cons_of_mem _ member)) phase'
      change n + ((if Enters b s s' then 1 else 0) + entries b (s' :: (middle ++ [last]))) = 1
      omega

/-- Between two consecutive moments at which a task becomes current, every other task
that runs at its level all the time becomes current exactly once. -/
theorem entries_of_path {actions : List Action} {s₀ first last : Tasks} {middle : List Tasks}
    (run : Run Next initial actions s₀) (path : Path (s₀ :: first :: (middle ++ [last])))
    (enters : Enters a s₀ first) (consecutive : entries a (first :: middle) = 0)
    (again : Enters a ((first :: middle).getLast (List.cons_ne_nil _ _)) last)
    (stays : ∀ s ∈ first :: (middle ++ [last]), s.RunsAt a level) :
    ∀ b, b ≠ a → (∀ s ∈ first :: (middle ++ [last]), s.RunsAt b level) →
      entries b (first :: (middle ++ [last])) = 1 := by
  intro b ne staysToo
  rcases List.isChain_cons_cons.mp path with ⟨⟨action, next⟩, rest⟩
  have inv := inv_next (inv_of_run run) next
  have runs := stays first List.mem_cons_self
  have runsToo := staysToo first List.mem_cons_self
  have isOrder : first.order level (either a b) = [a, b] := by
    have head : (first.order level (either a b)).head? = some a :=
      head_order inv runs (by simp) enters.2
    rcases order_cases inv runs runsToo ne.symm with order | order
    · exact order
    · rw [order] at head
      exact absurd (Option.some.inj head) ne
  have counted := entries_of_phase inv ne.symm rest consecutive again
    (fun s member => ⟨stays s member, staysToo s member⟩) (.first isOrder enters.2)
  omega

/-- The state after some steps. -/
def after (s : Tasks) (actions : List Action) : Tasks :=
  actions.foldl (fun s action => (s.step action).getD s) s

/-- The main task has started two tasks. -/
def twoStarted : Tasks :=
  initial.after [.newTask, .newTask, .wakeup 3 (-1), .wakeup 4 (-1)]

/-- The main task goes to sleep, preempts the third task, and sleeps again. -/
def preempting (n : Nat) : Tasks :=
  twoStarted.after ([.sleep 1, .sendMessage 1 .layerFinish, .switchTask, .sleep 1, .switchTask].take n)

theorem entries_of_path_preempting : entries 4 (preempting 1 ::
    ([preempting 2, preempting 3, preempting 4] ++ [preempting 5])) = 1 := by
  have run : Run Next initial [.newTask, .newTask, .wakeup 3 (-1), .wakeup 4 (-1)] twoStarted :=
    .cons ⟨trivial, rfl⟩ (.cons ⟨trivial, rfl⟩ (.cons ⟨⟨by decide, by decide⟩, rfl⟩
      (.single ⟨⟨by decide, by decide⟩, rfl⟩)))
  have path : Path (twoStarted :: preempting 1 ::
      ([preempting 2, preempting 3, preempting 4] ++ [preempting 5])) := by
    refine .cons_cons ⟨.sleep 1, ⟨by decide, rfl⟩, rfl⟩
      (.cons_cons ⟨.sendMessage 1 .layerFinish, trivial, rfl⟩
      (.cons_cons ⟨.switchTask, trivial, rfl⟩ (.cons_cons ⟨.sleep 1, ⟨by decide, rfl⟩, rfl⟩
      (.cons_cons ⟨.switchTask, trivial, rfl⟩ (.singleton _)))))
  have atOne (p : Nat) (two : p = 3 ∨ p = 4) : ∀ s ∈ preempting 1 ::
      ([preempting 2, preempting 3, preempting 4] ++ [preempting 5]), s.RunsAt p 1 := by
    simp only [List.cons_append, List.nil_append, List.forall_mem_cons]
    rcases two with rfl | rfl
    · exact ⟨⟨_, rfl, rfl, rfl⟩, ⟨_, rfl, rfl, rfl⟩, ⟨_, rfl, rfl, rfl⟩, ⟨_, rfl, rfl, rfl⟩,
        ⟨_, rfl, rfl, rfl⟩, by simp⟩
    · exact ⟨⟨_, rfl, rfl, rfl⟩, ⟨_, rfl, rfl, rfl⟩, ⟨_, rfl, rfl, rfl⟩, ⟨_, rfl, rfl, rfl⟩,
        ⟨_, rfl, rfl, rfl⟩, by simp⟩
  exact entries_of_path run path (by decide) (by decide) (by decide) (atOne 3 (.inl rfl)) 4 (by decide)
    (atOne 4 (.inr rfl))

end Mikanos.Tasks
