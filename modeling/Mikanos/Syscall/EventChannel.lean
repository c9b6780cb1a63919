import Mikanos.Terminal.Blinking

/-!
# What an application learns

Events reach an application in three steps: `SendMessage` appends a message to the queue of its
task, `ReadEvent` takes messages out and writes events for them, and returns at the latest when
the array of the caller is full.  Nothing is lost on the way, nothing arrives twice, and every
timer that the application creates comes back once, with the value that it was given.
-/

namespace Mikanos

open Transition

/-- An application that calls `ReadEvent`, with the queue of its task and the timers of all
tasks; and, to speak of them, the messages sent and received, the results of the calls with the
lengths asked for, and the timers created with the ticks at which they were. -/
structure Listener (pq : PriorityQueue Timer Timer.Less) where
  manager : TimerManager pq
  msgs : List Message
  /-- inside of `ReadEvent`: the length of the array, and what has been written to it -/
  reading : Option (Nat × List AppEvent)
  sent : List Message
  received : List Message
  returned : List (Nat × List AppEvent)
  created : List (Nat × Timer)

namespace Listener

variable {pq : PriorityQueue Timer Timer.Less}

variable (pq) in
/-- The application starts with an empty queue. -/
def initial : Listener pq where
  manager := .new pq
  msgs := []
  reading := none
  sent := []
  received := []
  returned := []
  created := []

/-- What can happen. -/
inductive Action
  /-- the timer interrupt calls `Tick` -/
  | tick
  /-- a timer is added that is not one of the application -/
  | addTimer (timer : Timer)
  /-- a message other than a timeout is sent to the task -/
  | send (message : Message)
  /-- the application calls `CreateTimer` -/
  | createTimer (arg1 arg2 arg3 : Nat)
  /-- the application calls `ReadEvent` -/
  | readEvent (arg1 len : Nat)
  /-- `ReadEvent` receives a message, or finds that there is none -/
  | receiveEvent

/-- A timer of the application whose task is `id`. -/
def Own (id : Nat) (t : Timer) : Prop :=
  t.taskId = id ∧ t.value < 0

instance (id : Nat) : DecidablePred (Own id) :=
  fun _ => inferInstanceAs (Decidable (_ ∧ _))

/-- The loop of `ReadEvent` goes on, or the call returns. -/
def proceed (s : Listener pq) (len : Nat) (events : List AppEvent) : Listener pq :=
  if events.length < len then { s with reading := some (len, events) }
  else { s with reading := none, returned := s.returned ++ [(len, events)] }

/-- One step of the system for the application whose task is `id`. -/
def step (id : Nat) (s : Listener pq) : Action → Option (Listener pq)
  | .tick =>
      match s.manager.runTick with
      | .done timers _ sent => some { s with
          manager := { tick := (s.manager.tick + 1) % 2 ^ 64, timers }
          msgs := s.msgs ++ BlinkingTerminal.inbox id sent
          sent := s.sent ++ BlinkingTerminal.inbox id sent }
      | .emptyTop => none
      | .outOfFuel => none
  | .addTimer timer =>
      if Own id timer then none else some { s with manager := s.manager.addTimer timer }
  | .send message =>
      if message.isTimeout then none
      else some { s with msgs := s.msgs ++ [message], sent := s.sent ++ [message] }
  | .createTimer arg1 arg2 arg3 =>
      match s.reading, Mikanos.createTimer s.manager.tick arg1 arg2 arg3 id with
      | none, some created => some { s with
          manager := s.manager.addTimer created.1
          created := s.created ++ [(s.manager.tick, created.1)] }
      | none, none => some s
      | some _, _ => none
  | .readEvent arg1 len =>
      match s.reading with
      | none => some (if arg1 < 0x8000000000000000 then s else s.proceed len [])
      | some _ => none
  | .receiveEvent =>
      match s.reading, s.msgs with
      | some (len, events), message :: rest => some (
          { s with msgs := rest, received := s.received ++ [message] }.proceed len
            (events ++ (AppEvent.ofMessage message).toList))
      | some (len, events), [] =>
          -- with nothing written yet, the task sleeps
          if events = [] then some s
          else some { s with reading := none, returned := s.returned ++ [(len, events)] }
      | none, _ => none

/-- Neither the tick counter nor the timeout of the next task switch wraps. -/
def InRange (s : Listener pq) : Action → Prop
  | .tick => s.manager.tick + 1 + kTaskTimerPeriod < 2 ^ 64
  | _ => True

instance (s : Listener pq) : ∀ action, Decidable (s.InRange action)
  | .tick => inferInstanceAs (Decidable (_ < _))
  | .addTimer _ | .send _ | .createTimer _ _ _ | .readEvent _ _ | .receiveEvent =>
      inferInstanceAs (Decidable True)

/-- The events that the calls have written up to now. -/
def events (s : Listener pq) : List AppEvent :=
  s.returned.flatMap Prod.snd ++ (s.reading.elim [] Prod.snd)

/-- A timeout that stands for a timer of the application, with a timeout and a value. -/
def isTimer (timeout : Nat) (value : Int) : Message → Bool
  | .timerTimeout timeout' value' => timeout' = timeout ∧ value' = -value
  | _ => false

/-- The timer that the application has created with a timeout and a value. -/
def timerOf (id timeout : Nat) (value : Int) : Timer :=
  ⟨timeout, -value, id⟩

/-- What the application learns, and what it does not have to fear. -/
structure Learns (id : Nat) (s : Listener pq) : Prop where
  fifo : s.sent = s.received ++ s.msgs
  events : s.events = s.received.filterMap AppEvent.ofMessage
  sizes : ∀ call ∈ s.returned, call.2.length ≤ call.1 ∧ (0 < call.1 → call.2 ≠ [])
  once : ∀ timeout value, 0 < value →
    (s.created.map Prod.snd).count (timerOf id timeout value) =
      (pq.elems s.manager.timers).count (timerOf id timeout value) +
        s.msgs.countP (isTimer timeout value) + s.events.count (.timerTimeout timeout value)
  inTime : ∀ t ∈ pq.elems s.manager.timers, Own id t → s.manager.tick < t.timeout ∨
    (s.manager.tick, t) ∈ s.created
  notEarly : ∀ timeout value, .timerTimeout timeout value ∈ s.events → timeout ≤ s.manager.tick

/-! ## What a step keeps -/

/-- What every step keeps, apart from the call of `ReadEvent` that is going on. -/
structure Base (id : Nat) (s : Listener pq) : Prop where
  fifo : s.sent = s.received ++ s.msgs
  sizes : ∀ call ∈ s.returned, call.2.length ≤ call.1 ∧ (0 < call.1 → call.2 ≠ [])
  once : ∀ timeout value, 0 < value →
    (s.created.map Prod.snd).count (timerOf id timeout value) =
      (pq.elems s.manager.timers).count (timerOf id timeout value) + s.sent.countP (isTimer timeout value)
  inTime : ∀ t ∈ pq.elems s.manager.timers, Own id t → s.manager.tick < t.timeout ∨
    (s.manager.tick, t) ∈ s.created
  notEarly : ∀ timeout value, .timerTimeout timeout value ∈ s.sent → timeout ≤ s.manager.tick
  sentinel : .sentinel ∈ pq.elems s.manager.timers
  tick : s.manager.tick + kTaskTimerPeriod < 2 ^ 64

/-- What every step keeps. -/
structure Inv (id : Nat) (s : Listener pq) : Prop extends Base id s where
  events : s.events = s.received.filterMap AppEvent.ofMessage
  room : ∀ len events, s.reading = some (len, events) → events.length < len

variable {id : Nat} {s s' : Listener pq}

theorem inv_initial : Inv id (initial pq) where
  fifo := rfl
  sizes := by rintro call ⟨⟩
  events := rfl
  room := by rintro len events ⟨⟩
  once := by
    intro timeout value positive
    have notSentinel : timerOf id timeout value ≠ .sentinel := by
      intro same
      have zero : -value = 0 := congrArg Timer.value same
      omega
    change 0 = (pq.elems (pq.push pq.empty .sentinel)).count _ + 0
    rw [pq.elems_push, pq.elems_empty, Multiset.count_cons_of_ne notSentinel, Multiset.count_zero]
  inTime := by
    intro t member own
    change t ∈ pq.elems (pq.push pq.empty .sentinel) at member
    rw [pq.elems_push, pq.elems_empty, Multiset.mem_cons] at member
    rcases member with rfl | none
    · exact absurd own.2 (by decide)
    · exact absurd none (Multiset.notMem_zero t)
  notEarly := by rintro timeout value ⟨⟩
  sentinel := by
    change _ ∈ pq.elems (pq.push pq.empty .sentinel)
    rw [pq.elems_push]
    exact Multiset.mem_cons_self ..
  tick := by
    change 0 + kTaskTimerPeriod < 2 ^ 64
    decide

/-- An event for a timeout stands for a timer of the application. -/
theorem count_ofMessage (timeout : Nat) {value : Int} (positive : 0 < value) (message : Message) :
    (AppEvent.ofMessage message).toList.count (.timerTimeout timeout value) =
      if isTimer timeout value message then 1 else 0 := by
  cases message with
  | timerTimeout timeout' value' =>
      rw [AppEvent.ofMessage, isTimer]
      by_cases negative : value' < 0
      · rw [if_pos negative, Option.toList_some, List.count_singleton]
        congr 1
        simp only [decide_eq_true_eq, beq_iff_eq, AppEvent.timerTimeout.injEq, eq_iff_iff]
        omega
      · rw [if_neg negative, if_neg]
        · rfl
        · rw [decide_eq_true_eq]
          omega
  | keyPush modifier keycode ascii press =>
      rw [AppEvent.ofMessage]
      split <;> rfl
  | _ => rfl

theorem count_filterMap (timeout : Nat) {value : Int} (positive : 0 < value) (msgs : List Message) :
    (msgs.filterMap AppEvent.ofMessage).count (.timerTimeout timeout value) =
      msgs.countP (isTimer timeout value) := by
  induction msgs with
  | nil => rfl
  | cons message rest ih =>
      have first := count_ofMessage timeout positive message
      rw [List.filterMap_cons, List.countP_cons, ← ih, ← first]
      cases AppEvent.ofMessage message with
      | none => rfl
      | some event =>
          rw [Option.toList_some, List.count_cons, List.count_singleton]

/-- An event for a timeout comes from a message for it. -/
theorem mem_of_event {timeout : Nat} {value : Int} {msgs : List Message}
    (member : .timerTimeout timeout value ∈ msgs.filterMap AppEvent.ofMessage) :
    .timerTimeout timeout (-value) ∈ msgs := by
  rcases List.mem_filterMap.mp member with ⟨message, member, made⟩
  cases message with
  | timerTimeout timeout' value' =>
      rw [AppEvent.ofMessage] at made
      split at made
      · cases made
        rwa [neg_neg]
      · cases made
  | keyPush modifier keycode ascii press =>
      rw [AppEvent.ofMessage] at made
      split at made <;> cases made
  | _ => cases made

theorem countP_inbox (timeout : Nat) (value : Int) (sent : List (Nat × Message)) :
    (BlinkingTerminal.inbox id sent).countP (isTimer timeout value) =
      sent.countP fun sending => sending.1 = id ∧ isTimer timeout value sending.2 := by
  rw [BlinkingTerminal.inbox, List.countP_map, List.countP_filter]
  congr 1
  funext sending
  simp [Bool.and_comm]

theorem isTimer_eq_false {message : Message} (other : message.isTimeout = false) (timeout : Nat)
    (value : Int) : isTimer timeout value message = false := by
  cases message with
  | timerTimeout => cases other
  | _ => rfl

/-- The call goes on with what it has written, or returns it. -/
theorem events_proceed (s : Listener pq) (len : Nat) (events : List AppEvent) :
    (s.proceed len events).events = s.returned.flatMap Prod.snd ++ events := by
  rw [proceed]
  split
  · rfl
  · change List.flatMap _ (_ ++ _) ++ [] = _
    rw [List.append_nil, List.flatMap_append, List.flatMap_singleton]

theorem own_timerOf (id timeout : Nat) {value : Int} (positive : 0 < value) :
    Own id (timerOf id timeout value) :=
  ⟨rfl, neg_neg_of_pos positive⟩

/-- The call goes on, or returns what it has written. -/
theorem Base.proceed {len : Nat} {events : List AppEvent} (base : Base id s)
    (written : s.returned.flatMap Prod.snd ++ events = s.received.filterMap AppEvent.ofMessage)
    (fits : events.length ≤ len) (some_ : events ≠ [] ∨ events.length < len ∨ len = 0) :
    Inv id (s.proceed len events) := by
  have fields : (s.proceed len events).manager = s.manager ∧ (s.proceed len events).msgs = s.msgs ∧
      (s.proceed len events).sent = s.sent ∧ (s.proceed len events).received = s.received ∧
      (s.proceed len events).created = s.created := by
    rw [Listener.proceed]
    split <;> exact ⟨rfl, rfl, rfl, rfl, rfl⟩
  rcases fields with ⟨manager, msgs, sent, received, created⟩
  refine ⟨⟨?_, ?_, ?_, ?_, ?_, ?_, ?_⟩, ?_, ?_⟩
  · rw [msgs, sent, received]
    exact base.fifo
  · intro call member
    rw [Listener.proceed] at member
    split at member
    · exact base.sizes call member
    · rename_i full
      rcases List.mem_append.mp member with old | new
      · exact base.sizes call old
      · rw [List.mem_singleton.mp new]
        refine ⟨fits, fun positive => ?_⟩
        rcases some_ with nonempty | more | zero
        · exact nonempty
        · exact absurd more full
        · exact absurd positive (by omega)
  · rw [manager, sent, created]
    exact base.once
  · rw [manager, created]
    exact base.inTime
  · rw [manager, sent]
    exact base.notEarly
  · rw [manager]
    exact base.sentinel
  · rw [manager]
    exact base.tick
  · rw [events_proceed, received]
    exact written
  · intro len' events' reading
    rw [Listener.proceed] at reading
    split at reading
    · cases reading
      assumption
    · cases reading

/-- The message of a timer of the application, and of no other. -/
theorem sends_timerOf (timeout : Nat) (value : Int) (t : Timer) :
    decide (t.message.1 = id ∧ isTimer timeout value t.message.2) =
      decide (timerOf id timeout value = t) := by
  rcases t with ⟨timeout', value', taskId⟩
  rw [decide_eq_decide, timerOf, Timer.mk.injEq]
  change (taskId = id ∧ decide (timeout' = timeout ∧ value' = -value) = true) ↔ _
  rw [decide_eq_true_eq]
  constructor
  · rintro ⟨rfl, rfl, rfl⟩
    exact ⟨rfl, rfl, rfl⟩
  · rintro ⟨rfl, rfl, rfl⟩
    exact ⟨rfl, rfl, rfl⟩

/-- `Tick` sends the timers that are due, and leaves the others. -/
theorem Inv.ticked (inv : Inv id s) (range : s.InRange .tick) (stepped : s.step id .tick = some s') :
    Inv id s' := by
  have inRange : s.manager.tick + 1 + kTaskTimerPeriod < 2 ^ 64 := range
  have period : kTaskTimerPeriod = 2 := rfl
  have wrap : (s.manager.tick + 1) % 2 ^ 64 = s.manager.tick + 1 := Nat.mod_eq_of_lt (by omega)
  have sentinelLater : s.manager.tick + 1 < Timer.sentinel.timeout := by
    change s.manager.tick + 1 < 2 ^ 64 - 1
    omega
  have parts := congrArg Multiset.card
    (TimerManager.due_add_later (s.manager.tick + 1) (pq.elems s.manager.timers))
  rw [Multiset.card_add, Multiset.card_add] at parts
  rcases TimerManager.tickLoop_spec inRange false [] ⟨.sentinel, inv.sentinel, sentinelLater⟩
    (show _ < Multiset.card (pq.elems s.manager.timers) + 1 by omega) with
    ⟨timers, ts, done, all, -, rest⟩
  have conserved (timeout : Nat) {value : Int} (positive : 0 < value) :=
    TimerManager.tickLoop_countP (timerOf id timeout value = ·)
      (fun sending => sending.1 = id ∧ isTimer timeout value sending.2)
      (sends_timerOf timeout value)
      (fun t same task => by
        rw [← same] at task
        exact absurd ((own_timerOf id timeout positive).2) (by rw [task]; decide)) done
  rw [step, TimerManager.runTick, wrap, done] at stepped
  cases stepped
  refine ⟨⟨?_, inv.sizes, ?_, ?_, ?_, ?_, inRange⟩, inv.events, inv.room⟩
  · rw [inv.fifo, List.append_assoc]
  · intro timeout value positive
    have count := conserved timeout positive
    rw [List.countP_nil, add_zero] at count
    rw [inv.once timeout value positive, List.countP_append, countP_inbox]
    change (pq.elems s.manager.timers).countP _ + _ = (pq.elems timers).countP _ + _
    omega
  · intro t member own
    left
    change s.manager.tick + 1 < t.timeout
    rw [rest] at member
    rcases Multiset.mem_add.mp member with late | task
    · exact (Multiset.mem_filter.mp late).2
    · rw [Multiset.eq_of_mem_replicate task] at own
      exact absurd own.2 (show ¬ kTaskTimerValue < 0 by decide)
  · intro timeout value member
    change timeout ≤ s.manager.tick + 1
    rcases List.mem_append.mp member with old | new
    · exact (inv.notEarly timeout value old).trans (Nat.le_succ _)
    · rcases List.mem_map.mp new with ⟨sending, sends, same⟩
      rcases List.mem_map.mp (List.mem_filter.mp sends).1 with ⟨t, sent, rfl⟩
      cases same
      have due : t ∈ TimerManager.dueOthers (s.manager.tick + 1) (pq.elems s.manager.timers) :=
        all ▸ Multiset.mem_coe.mpr sent
      exact (Multiset.mem_filter.mp due).2.1
  · rw [rest]
    exact Multiset.mem_add.mpr (.inl (Multiset.mem_filter.mpr ⟨inv.sentinel, sentinelLater⟩))

theorem Inv.addTimer {timer : Timer} (inv : Inv id s) (stepped : s.step id (.addTimer timer) = some s') :
    Inv id s' := by
  rw [step] at stepped
  split at stepped
  · cases stepped
  · rename_i notOwn
    cases stepped
    have elems : pq.elems (s.manager.addTimer timer).timers = timer ::ₘ pq.elems s.manager.timers :=
      pq.elems_push ..
    refine { inv with once := ?_, inTime := ?_, sentinel := ?_ }
    · intro timeout value positive
      have other : timerOf id timeout value ≠ timer := by
        rintro rfl
        exact notOwn (own_timerOf id timeout positive)
      rw [inv.once timeout value positive, elems, Multiset.count_cons_of_ne other]
    · intro t member own
      rw [elems, Multiset.mem_cons] at member
      rcases member with rfl | old
      · exact absurd own notOwn
      · exact inv.inTime t old own
    · rw [elems]
      exact Multiset.mem_cons_of_mem inv.sentinel

theorem Inv.send {message : Message} (inv : Inv id s) (stepped : s.step id (.send message) = some s') :
    Inv id s' := by
  rw [step] at stepped
  split at stepped
  · cases stepped
  · rename_i other
    cases stepped
    refine { inv with fifo := ?_, once := ?_, notEarly := ?_ }
    · rw [inv.fifo, List.append_assoc]
    · intro timeout value positive
      rw [inv.once timeout value positive, List.countP_append, List.countP_singleton,
        isTimer_eq_false (Bool.eq_false_iff.mpr other), if_neg Bool.false_ne_true, add_zero]
    · intro timeout value member
      rcases List.mem_append.mp member with old | new
      · exact inv.notEarly timeout value old
      · rw [← List.mem_singleton.mp new] at other
        exact absurd rfl other

/-- The application creates a timer of its own. -/
theorem Inv.createTimer {arg1 arg2 arg3 : Nat} (inv : Inv id s)
    (stepped : s.step id (.createTimer arg1 arg2 arg3) = some s') : Inv id s' := by
  rw [step] at stepped
  split at stepped
  · rename_i created reading made
    rcases created with ⟨t, result⟩
    cases stepped
    have elems : pq.elems (s.manager.addTimer t).timers = t ::ₘ pq.elems s.manager.timers :=
      pq.elems_push ..
    refine { inv with once := ?_, inTime := ?_, sentinel := ?_ }
    · intro timeout value positive
      rw [List.map_append, List.count_append, inv.once timeout value positive, elems,
        Multiset.count_cons,
        List.map_singleton, List.count_singleton]
      by_cases same : timerOf id timeout value = t
      · rw [if_pos same, if_pos (beq_iff_eq.mpr same.symm), Nat.add_right_comm]
      · rw [if_neg same, if_neg (mt beq_iff_eq.mp (Ne.symm same)), Nat.add_zero, Nat.add_zero]
    · intro u member own
      rw [elems, Multiset.mem_cons] at member
      rcases member with rfl | old
      · exact .inr (List.mem_append_right _ (List.mem_singleton_self _))
      · exact (inv.inTime u old own).imp_right (List.mem_append_left _)
    · rw [elems]
      exact Multiset.mem_cons_of_mem inv.sentinel
  · cases stepped
    exact inv
  · cases stepped

/-- `ReadEvent` is called. -/
theorem Inv.readEvent {arg1 len : Nat} (inv : Inv id s)
    (stepped : s.step id (.readEvent arg1 len) = some s') : Inv id s' := by
  rw [step] at stepped
  split at stepped
  · rename_i reading
    cases stepped
    split
    · exact inv
    · refine inv.toBase.proceed ?_ (Nat.zero_le len) ?_
      · have events := inv.events
        rw [Listener.events, reading] at events
        exact events
      · right
        rw [List.length_nil]
        omega
  · cases stepped

/-- `ReadEvent` receives a message, or finds none. -/
theorem Inv.receiveEvent (inv : Inv id s) (stepped : s.step id .receiveEvent = some s') :
    Inv id s' := by
  rw [step] at stepped
  split at stepped
  · rename_i len events message rest reading msgs
    cases stepped
    have written := inv.events
    rw [Listener.events, reading] at written
    have room := inv.room len events reading
    have few : (AppEvent.ofMessage message).toList.length ≤ 1 := by
      cases AppEvent.ofMessage message with
      | none => exact Nat.zero_le 1
      | some event => exact le_rfl
    have base : Base id { s with msgs := rest, received := s.received ++ [message] } :=
      { inv.toBase with
        fifo := by
          rw [inv.fifo, msgs, List.append_assoc]
          rfl }
    refine base.proceed ?_ ?_ ?_
    · change s.returned.flatMap Prod.snd ++ (events ++ _) = _
      rw [← List.append_assoc, List.filterMap_append]
      change (s.returned.flatMap Prod.snd ++ events = _) at written
      rw [written]
      rfl
    · rw [List.length_append]
      omega
    · cases AppEvent.ofMessage message with
      | none =>
          rw [Option.toList_none, List.append_nil]
          exact .inr (.inl room)
      | some event => exact .inl (List.append_ne_nil_of_right_ne_nil _ (List.cons_ne_nil event []))
  · rename_i len events reading msgs
    have written := inv.events
    rw [Listener.events, reading] at written
    split at stepped
    · cases stepped
      exact inv
    · rename_i nonempty
      cases stepped
      refine ⟨{ inv.toBase with sizes := ?_ }, ?_, ?_⟩
      rotate_left
      · change List.flatMap _ (_ ++ _) ++ [] = _
        rw [List.append_nil, List.flatMap_append, List.flatMap_singleton]
        exact written
      · rintro len' events' ⟨⟩
      · intro call member
        rcases List.mem_append.mp member with old | new
        · exact inv.sizes call old
        · rw [List.mem_singleton.mp new]
          exact ⟨(inv.room len events reading).le, fun _ => nonempty⟩
  · cases stepped

theorem Inv.step {action : Action} (inv : Inv id s) (range : s.InRange action)
    (stepped : s.step id action = some s') : Inv id s' := by
  cases action with
  | tick => exact inv.ticked range stepped
  | addTimer timer => exact inv.addTimer stepped
  | send message => exact inv.send stepped
  | createTimer arg1 arg2 arg3 => exact inv.createTimer stepped
  | readEvent arg1 len => exact inv.readEvent stepped
  | receiveEvent => exact inv.receiveEvent stepped

theorem Inv.learns (inv : Inv id s) : Learns id s where
  fifo := inv.fifo
  events := inv.events
  sizes := inv.sizes
  once := by
    intro timeout value positive
    rw [inv.once timeout value positive, inv.fifo, List.countP_append, inv.events,
      count_filterMap timeout positive]
    omega
  inTime := inv.inTime
  notEarly := by
    intro timeout value member
    rw [inv.events] at member
    apply inv.notEarly timeout (-value)
    rw [inv.fifo]
    exact List.mem_append_left _ (mem_of_event member)

/-- Whatever is sent, ticked and read, the application learns of all that it has to. -/
theorem learns_of_run {actions : List Action}
    (run : Run (guarded (ofFunction (step id)) InRange) (initial pq) actions s) : Learns id s :=
  (run.invariant (fun _ _ _ inv stepped => inv.step stepped.1 stepped.2) inv_initial).learns

/-- An application waits for keys and for two equal timers. -/
def keysAndTimers : List Action :=
  [.createTimer 1 7 10, .createTimer 1 7 10, .send (.keyPush 0 40 10 1), .send (.windowActive 1),
    .readEvent (2 ^ 63) 2, .receiveEvent, .receiveEvent, .receiveEvent, .tick, .tick,
    .readEvent (2 ^ 63) 1, .receiveEvent]

theorem learns_of_run_keysAndTimers : ∃ s : Listener Timers.listQueue,
    Run (guarded (ofFunction (step 2)) InRange) (initial Timers.listQueue) keysAndTimers s ∧
      Learns 2 s := by
  rcases exists_run_of_execute InRange (step 2) (initial Timers.listQueue) keysAndTimers
    (fun s => s.events.length = 2 ∧ s.msgs.length = 1) (by decide) with ⟨s, run, -⟩
  exact ⟨s, run, learns_of_run run⟩

end Listener
end Mikanos
