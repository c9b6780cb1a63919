import Mikanos.Error
import Mikanos.Xhci.RingCorrectness

/-!
# The event ring

The host controller writes events into a segment of blocks, and `ProcessEvents`
takes them out again.  The two parties share no counter: the driver tells an event
from a stale block by its cycle bit alone, and the host controller learns from the
dequeue pointer register how far the driver is.  Events are numbered from 0; event
`k` goes into slot `k % n` on lap `k / n`, with the cycle bit of that lap.
-/

namespace Mikanos.Xhci

open Transition

/-! ## `EventRing` -/

/-- `EventRing`, after `Initialize` has succeeded, with the block it shares with the
host controller, the entry of its segment table and the register of its dequeue
pointer. -/
structure EventRing where
  region : Region
  buf : Slots
  cycleBit : Bool
  /-- `ring_segment_size`, a field of 16 bits -/
  ringSegmentSize : Nat
  /-- `event_ring_dequeue_pointer`, without the four lowest bits -/
  eventRingDequeuePointer : Nat

namespace EventRing

/-- `WriteDequeuePointer`. -/
def writeDequeuePointer (ring : EventRing) (p : Nat) : EventRing :=
  { ring with eventRingDequeuePointer := p / 16 }

/-- `ReadDequeuePointer`. -/
def readDequeuePointer (ring : EventRing) : Nat :=
  ring.eventRingDequeuePointer * 16

/-- `Initialize`, given the array it allocates. -/
def initializeRing (region : Region) : EventRing :=
  writeDequeuePointer
    { region
      buf := fun _ _ => 0
      cycleBit := true
      ringSegmentSize := region.size % 2 ^ 16
      eventRingDequeuePointer := 0 }
    region.base

/-- The slot that an address names. -/
def slotOf (ring : EventRing) (p : Nat) : Nat :=
  (p - ring.region.base) / 16

/-- `Front`, and what it points to. -/
def front (ring : EventRing) : TRB :=
  ring.buf (ring.slotOf ring.readDequeuePointer)

/-- `HasFront`. -/
def hasFront (ring : EventRing) : Bool :=
  ring.front.cycleBit == ring.cycleBit

/-- `Pop`. -/
def pop (ring : EventRing) : EventRing :=
  let p := ring.readDequeuePointer + 16
  let segmentBegin := ring.region.base
  let segmentEnd := segmentBegin + 16 * ring.ringSegmentSize
  if p = segmentEnd then
    { ring with cycleBit := !ring.cycleBit }.writeDequeuePointer segmentBegin
  else
    ring.writeDequeuePointer p

end EventRing

namespace TRB

/-- `TransferEventTRB::Type`. -/
def transferEventType : BitVec 6 := 32#6

/-- `CommandCompletionEventTRB::Type`. -/
def commandCompletionEventType : BitVec 6 := 33#6

/-- `PortStatusChangeEventTRB::Type`. -/
def portStatusChangeEventType : BitVec 6 := 34#6

/-- There is an `OnEvent` for blocks of this type. -/
def HasHandler (trb : TRB) : Prop :=
  trb.trbType = transferEventType ∨ trb.trbType = portStatusChangeEventType ∨
    trb.trbType = commandCompletionEventType

instance (trb : TRB) : Decidable trb.HasHandler :=
  inferInstanceAs (Decidable (_ ∨ _ ∨ _))

end TRB

/-! ## Driver and host controller together -/

/-- Where the driver is. -/
inductive EventPhase
  /-- outside of `ProcessEvents` -/
  | outside
  /-- at the loop condition of `ProcessEvents` -/
  | processEvents
  /-- at the first line of `ProcessEvent` -/
  | processEvent
  /-- `ProcessEvent` has seen an event -/
  | dispatch
  /-- at the call of `Pop` -/
  | pop
  deriving DecidableEq

/-- The driver and the host controller.  The host controller is writing `event` as
long as `stores` are left; `produced` are the events that it has written, `handed`
the blocks passed to `OnEvent`, `processed` all blocks that `ProcessEvent` has looked
at with the errors it returns, and `popped` counts the calls of `Pop`. -/
structure EventLoop where
  ring : EventRing
  phase : EventPhase
  slot : Nat
  cycleState : Bool
  event : TRB
  stores : List Store
  produced : List TRB
  handed : List TRB
  processed : List (TRB × Error)
  popped : Nat

namespace EventLoop

/-- Right after `Initialize`. -/
def initial (region : Region) : EventLoop where
  ring := .initializeRing region
  phase := .outside
  slot := 0
  cycleState := true
  event := fun _ => 0
  stores := []
  produced := []
  handed := []
  processed := []
  popped := 0

/-- The slot after a slot of the segment. -/
def nextSlot (s : EventLoop) : Nat :=
  if s.slot + 1 = s.ring.ringSegmentSize then 0 else s.slot + 1

/-- What can happen. -/
inductive Action
  /-- the host controller begins to write an event -/
  | produce (event : TRB)
  /-- the next word of the event is stored -/
  | store
  /-- `ProcessEvents` is called -/
  | processEvents
  /-- the driver goes on; `err` is what `OnEvent` returns if it is called -/
  | proceed (err : Error)

/-- One step.  The host controller does not begin to write when the slot after its
own is the one of the dequeue pointer. -/
def step (s : EventLoop) : Action → Option EventLoop
  | .produce event =>
      match s.stores with
      | [] =>
          if s.nextSlot = s.ring.slotOf s.ring.readDequeuePointer then none
          else some { s with event, stores := copyStores s.slot event s.cycleState }
      | _ :: _ => none
  | .store =>
      match s.stores with
      | [] => none
      | [store] => some { s with
          ring := { s.ring with buf := store.apply s.ring.buf }
          stores := []
          produced := s.produced ++ [s.event]
          slot := s.nextSlot
          cycleState := s.cycleState ^^ decide (s.slot + 1 = s.ring.ringSegmentSize) }
      | store :: stores => some { s with
          ring := { s.ring with buf := store.apply s.ring.buf }, stores }
  | .processEvents =>
      if s.phase = .outside then some { s with phase := .processEvents } else none
  | .proceed err =>
      match s.phase with
      | .outside => none
      | .processEvents =>
          some { s with phase := if s.ring.hasFront then .processEvent else .outside }
      | .processEvent =>
          some { s with phase := if s.ring.hasFront then .dispatch else .processEvents }
      | .dispatch =>
          let eventTrb := s.ring.front
          if eventTrb.HasHandler then
            some { s with
              phase := .pop
              handed := s.handed ++ [eventTrb]
              processed := s.processed ++ [(eventTrb, err)] }
          else
            some { s with
              phase := .pop
              processed := s.processed ++ [(eventTrb, .notImplemented)] }
      | .pop => some { s with
          ring := s.ring.pop
          phase := .processEvents
          popped := s.popped + 1 }

/-! ## The invariant -/

/-- The events that `ProcessEvent` has looked at. -/
def inPop (s : EventLoop) : Nat :=
  if s.phase = .pop then 1 else 0

/-- The invariant.  There is no link block: `Published` counts none, and the slot
after the segment is never written. -/
structure Inv (region : Region) (n : Nat) (s : EventLoop) : Prop where
  sameRegion : s.ring.region = region
  size : s.ring.ringSegmentSize = n
  pointer : s.ring.readDequeuePointer =
    region.base + 16 * (s.popped % n)
  cycleBit : s.ring.cycleBit = Xhci.phase (s.popped / n)
  slot : s.slot = s.produced.length % n
  cycleState : s.cycleState = Xhci.phase (s.produced.length / n)
  popped_le : s.popped ≤ s.produced.length
  window : s.produced.length + (if s.stores = [] then 0 else 1) ≤
    s.popped + (n - 1)
  slots : Published n region.base s.ring.buf s.produced s.popped 0
    s.produced.length 0
  writing : s.stores = [] ∨ Publishing s.ring.buf s.slot (s.event.stamp s.cycleState) s.stores
  dispatch : s.phase = .dispatch ∨ s.phase = .pop → s.popped < s.produced.length
  count : s.processed.length = s.popped + s.inPop
  processed : s.processed.map (TRB.payload ∘ Prod.fst) =
    (s.produced.take s.processed.length).map TRB.payload
  handed : s.handed = (s.processed.map Prod.fst).filter fun trb => trb.HasHandler
  others : ∀ entry ∈ s.processed, ¬ entry.1.HasHandler → entry.2 = .notImplemented

variable {region : Region} {n : Nat} {s s' : EventLoop}

theorem slotOf_address (ring : EventRing) (k : Nat) :
    ring.slotOf (ring.region.base + 16 * k) = k := by
  rw [EventRing.slotOf, Nat.add_sub_cancel_left, Nat.mul_div_cancel_left _ (by decide)]

theorem read_write (ring : EventRing) {p : Nat} (aligned : p % 16 = 0) :
    (ring.writeDequeuePointer p).readDequeuePointer = p :=
  Nat.div_mul_cancel (Nat.dvd_of_mod_eq_zero aligned)

theorem inv_initial (region : Region) : Inv region (region.size % 2 ^ 16) (initial region) where
  sameRegion := rfl
  size := rfl
  pointer := by
    have aligned := region.aligned
    rw [initial, Nat.zero_mod, Nat.mul_zero, Nat.add_zero]
    exact read_write _ (by omega)
  cycleBit := by
    rw [initial, Nat.zero_div]
    rfl
  slot := (Nat.zero_mod _).symm
  cycleState := by
    rw [initial, List.length_nil, Nat.zero_div]
    rfl
  popped_le := Nat.le_refl 0
  window := Nat.zero_le _
  slots :=
    { live := fun k trb _ below => absurd below (Nat.not_lt_zero k)
      stale := by
        intro k _ below
        have below : k < region.size % 2 ^ 16 := by simpa [initial] using below
        rw [Nat.div_eq_of_lt below]
        exact Shared.stale_zero
      taken_le := Nat.le_refl 0
      le_taken := Nat.zero_le 1
      link := by
        rintro ⟨⟩
      staleLink := fun _ => Shared.stale_zero }
  writing := .inl rfl
  dispatch := by rintro (⟨⟨⟩⟩ | ⟨⟨⟩⟩)
  count := rfl
  processed := rfl
  handed := rfl
  others := by rintro entry ⟨⟩

/-- The block at the dequeue pointer. -/
theorem Inv.front_eq (inv : Inv region n s) :
    s.ring.front = s.ring.buf (s.popped % n) := by
  rw [EventRing.front, inv.pointer, ← inv.sameRegion, slotOf_address]

/-- The next event that has not been removed is the one at the dequeue pointer. -/
theorem Inv.front_payload (inv : Inv region n s) (ready : s.popped < s.produced.length) :
    ∃ event cycle, s.produced[s.popped]? = some event ∧ s.ring.front = event.stamp cycle := by
  have found := List.getElem?_eq_getElem ready
  refine ⟨_, Xhci.phase (s.popped / n), found, ?_⟩
  rw [inv.front_eq]
  exact inv.slots.live s.popped _ (Nat.le_refl _) ready found

/-- `HasFront` is true exactly when an event is there. -/
theorem Inv.hasFront_iff (inv : Inv region n s) (two_le : 2 ≤ n) :
    s.ring.hasFront = true ↔ s.popped < s.produced.length := by
  rw [EventRing.hasFront, beq_iff_eq, inv.front_eq, inv.cycleBit]
  constructor
  · intro same
    by_contra none
    have all : s.popped = s.produced.length := by
      have := inv.popped_le
      omega
    exact inv.slots.stale s.popped (by omega) (by omega) same
  · intro ready
    have found := List.getElem?_eq_getElem ready
    rw [inv.slots.live s.popped _ (Nat.le_refl _) ready found, TRB.cycleBit_stamp]

/-- The slot after the one that is written next. -/
theorem Inv.nextSlot_eq (inv : Inv region n s) (two_le : 2 ≤ n) :
    s.nextSlot = (s.produced.length + 1) % n ∧
      (s.cycleState ^^ decide (s.slot + 1 = s.ring.ringSegmentSize)) =
        Xhci.phase ((s.produced.length + 1) / n) := by
  rw [nextSlot, inv.slot, inv.size, inv.cycleState]
  by_cases last : s.produced.length % n + 1 = n
  · rcases lap_of_last last with ⟨wrapped, next⟩
    rw [if_pos last, wrapped, next, phase_succ, decide_eq_true last, Bool.xor_true]
    exact ⟨rfl, rfl⟩
  · rcases lap_of_inner (by omega) last with ⟨succ, same⟩
    rw [if_neg last, succ, same, decide_eq_false last, Bool.xor_false]
    exact ⟨rfl, rfl⟩

theorem Inv.produce (inv : Inv region n s) (two_le : 2 ≤ n) {event : TRB}
    (stepped : s.step (.produce event) = some s') : Inv region n s' := by
  rw [step] at stepped
  cases idle : s.stores with
  | cons store stores =>
      rw [idle] at stepped
      cases stepped
  | nil =>
      simp only [idle] at stepped
      split at stepped
      · cases stepped
      · rename_i room
        cases stepped
        have window := inv.window
        have popped_le := inv.popped_le
        rw [if_pos idle] at window
        rw [(inv.nextSlot_eq two_le).1, inv.pointer, ← inv.sameRegion, slotOf_address] at room
        have notFull : s.produced.length ≠ s.popped + (n - 1) := by
          intro full
          apply room
          have lap : s.produced.length + 1 = s.popped + n := by omega
          rw [lap, Nat.add_mod_right]
        exact
          { inv with
            window := by
              change s.produced.length + (if copyStores _ _ _ = [] then 0 else 1) ≤ _
              rw [if_neg (by rw [copyStores]; exact List.cons_ne_nil _ _)]
              change s.produced.length + 1 ≤ s.popped + (n - 1)
              omega
            writing := .inr (copyStores_eq .. ▸ Publishing.start ..) }

theorem Inv.store (inv : Inv region n s) (two_le : 2 ≤ n) (stepped : s.step .store = some s') :
    Inv region n s' := by
  have pos : 0 < n := by omega
  have window := inv.window
  have popped_le := inv.popped_le
  rcases inv.writing with idle | publishing
  · rw [step, idle] at stepped
    cases stepped
  · rcases publishing.next with ⟨store, rest, split, slot, progress⟩
    rw [if_neg publishing.ne_nil] at window
    have other (k : Nat) (ne : k ≠ s.produced.length % n) : store.apply s.ring.buf k = s.ring.buf k := by
      apply Store.apply_of_ne
      rw [slot, inv.slot]
      exact ne
    rcases progress with ⟨publishing', sameBit⟩ | ⟨last, complete⟩
    · -- words are still missing
      rw [step, split] at stepped
      cases rest with
      | nil => exact absurd rfl publishing'.ne_nil
      | cons store' rest' =>
          cases stepped
          rw [inv.slot] at sameBit
          have keep : Published n region.base (store.apply s.ring.buf) s.produced s.popped 0
              s.produced.length 0 :=
            inv.slots.keep other sameBit (fun k lower upper => mod_ne_of_lt upper (by omega))
              (by rintro ⟨⟩)
          exact
            { inv with
              window := window
              slots := keep
              writing := .inr publishing' }
    · -- the last word makes it an event
      subst last
      rw [step, split] at stepped
      cases stepped
      rcases inv.nextSlot_eq two_le with ⟨nextSlot, cycleState⟩
      have found : (s.produced ++ [s.event])[s.produced.length]? = some s.event :=
        List.getElem?_concat_length
      have old (k : Nat) (below : k < s.produced.length) :
          (s.produced ++ [s.event])[k]? = s.produced[k]? :=
        List.getElem?_append_left below
      have slots' : Published n region.base s.ring.buf (s.produced ++ [s.event]) s.popped 0
          s.produced.length 0 :=
        { inv.slots with
          live := by
            intro k trb lower upper at'
            rw [old k upper] at at'
            exact inv.slots.live k trb lower upper at' }
      rw [inv.slot, inv.cycleState] at complete
      have publish := slots'.publish pos popped_le (by omega) found other complete
      have processed_le : s.processed.length ≤ s.produced.length := by
        have lengths := congrArg List.length inv.processed
        rw [List.length_map, List.length_map, List.length_take] at lengths
        omega
      have length : (s.produced ++ [s.event]).length = s.produced.length + 1 := List.length_append
      exact
        { sameRegion := inv.sameRegion
          size := inv.size
          pointer := inv.pointer
          cycleBit := inv.cycleBit
          slot := by
            rw [length]
            exact nextSlot
          cycleState := by
            rw [length]
            exact cycleState
          popped_le := by
            rw [length]
            exact Nat.le_succ_of_le popped_le
          window := by
            rw [length]
            exact window
          slots := by
            rw [length]
            exact publish
          writing := .inl rfl
          dispatch := by
            intro busy
            rw [length]
            exact Nat.lt_succ_of_lt (inv.dispatch busy)
          count := inv.count
          processed := by
            rw [List.take_append_of_le_length processed_le]
            exact inv.processed
          handed := inv.handed
          others := inv.others }

/-- The driver looks at the event. -/
theorem Inv.dispatched (inv : Inv region n s) (atDispatch : s.phase = .dispatch) (err : Error)
    (handed : List TRB)
    (handed_eq : handed = s.handed ++ if s.ring.front.HasHandler then [s.ring.front] else [])
    (err_eq : ¬ s.ring.front.HasHandler → err = .notImplemented) :
    Inv region n { s with
      phase := .pop, handed, processed := s.processed ++ [(s.ring.front, err)] } := by
  have ready := inv.dispatch (.inl atDispatch)
  have count : s.processed.length = s.popped := by
    rw [inv.count, inPop, atDispatch]
    rfl
  rcases inv.front_payload ready with ⟨event, cycle, found, front⟩
  exact
    { inv with
      dispatch := fun _ => ready
      count := by
        rw [List.length_append, count]
        rfl
      processed := by
        rw [List.map_append, List.length_append, List.length_singleton, count,
          List.take_add_one, List.map_append, inv.processed, count, found]
        simp [front]
      handed := by
        rw [List.map_append, List.filter_append, ← inv.handed, handed_eq]
        simp [List.filter_cons]
      others := by
        intro entry member
        rcases List.mem_append.mp member with old | new
        · exact inv.others entry old
        · rw [List.mem_singleton.mp new]
          exact err_eq }

/-- `Pop` moves on by one event. -/
theorem Inv.pop_eq (inv : Inv region n s) (two_le : 2 ≤ n) :
    s.ring.pop.region = region ∧ s.ring.pop.buf = s.ring.buf ∧ s.ring.pop.ringSegmentSize = n ∧
      s.ring.pop.readDequeuePointer = region.base + 16 * ((s.popped + 1) % n) ∧
      s.ring.pop.cycleBit = Xhci.phase ((s.popped + 1) / n) := by
  have aligned := region.aligned
  have next : s.ring.readDequeuePointer + 16 = region.base + 16 * (s.popped % n + 1) := by
    rw [inv.pointer]
    omega
  rw [EventRing.pop, next, inv.sameRegion, inv.size]
  by_cases last : s.popped % n + 1 = n
  · rcases lap_of_last last with ⟨wrapped, lap⟩
    rw [if_pos (by rw [last])]
    refine ⟨rfl, rfl, rfl, ?_, ?_⟩
    · rw [read_write _ (by omega), wrapped, Nat.mul_zero, Nat.add_zero]
    · rw [lap, phase_succ, ← inv.cycleBit]
      rfl
  · rcases lap_of_inner (by omega) last with ⟨succ, lap⟩
    rw [if_neg (by omega)]
    refine ⟨inv.sameRegion, rfl, inv.size, ?_, ?_⟩
    · rw [read_write _ (by omega), succ]
    · rw [lap, ← inv.cycleBit]
      rfl

/-- The driver removes the event, whatever `OnEvent` has returned. -/
theorem Inv.removed (inv : Inv region n s) (two_le : 2 ≤ n) (atPop : s.phase = .pop) :
    Inv region n { s with
      ring := s.ring.pop, phase := .processEvents, popped := s.popped + 1 } := by
  have ready := inv.dispatch (.inr atPop)
  have window := inv.window
  rcases inv.pop_eq two_le with ⟨sameRegion, buf, size, pointer, cycleBit⟩
  exact
    { inv with
      sameRegion
      size
      pointer
      cycleBit
      popped_le := ready
      window := by
        change s.produced.length + (if s.stores = [] then 0 else 1) ≤ s.popped + 1 + (n - 1)
        omega
      slots := by
        rw [buf]
        exact inv.slots.take (by omega) ready (List.getElem?_eq_getElem ready)
      writing := by
        rw [buf]
        exact inv.writing
      dispatch := by rintro (⟨⟨⟩⟩ | ⟨⟨⟩⟩)
      count := by
        change s.processed.length = s.popped + 1
        rw [inv.count, inPop, if_pos atPop] }

/-- Moving on between two calls leaves everything else alone. -/
theorem Inv.movedOn (inv : Inv region n s) {phase : EventPhase} (before : s.phase ≠ .pop)
    (after : phase ≠ .pop) (ready : phase = .dispatch → s.popped < s.produced.length) :
    Inv region n { s with phase } :=
  { inv with
    dispatch := by
      rintro (atDispatch | atPop)
      · exact ready atDispatch
      · exact absurd atPop after
    count := by
      rw [inv.count, inPop, if_neg before, inPop, if_neg after] }

theorem Inv.step (inv : Inv region n s) (two_le : 2 ≤ n) {action : Action}
    (stepped : s.step action = some s') : Inv region n s' := by
  cases action with
  | produce event => exact inv.produce two_le stepped
  | store => exact inv.store two_le stepped
  | processEvents =>
      rw [EventLoop.step] at stepped
      split at stepped
      · rename_i outside
        cases stepped
        exact inv.movedOn (by rw [outside]; decide) (by decide) (by rintro ⟨⟩)
      · cases stepped
  | proceed err =>
      rw [EventLoop.step] at stepped
      cases atPhase : s.phase with
      | outside =>
          rw [atPhase] at stepped
          cases stepped
      | processEvents =>
          simp only [atPhase] at stepped
          cases stepped
          apply inv.movedOn (by rw [atPhase]; decide)
          · split <;> decide
          · split <;> rintro ⟨⟩
      | processEvent =>
          simp only [atPhase] at stepped
          cases stepped
          apply inv.movedOn (by rw [atPhase]; decide)
          · split <;> decide
          · split
            · rename_i hasFront
              exact fun _ => (inv.hasFront_iff two_le).mp hasFront
            · rintro ⟨⟩
      | dispatch =>
          simp only [atPhase] at stepped
          split at stepped
          · rename_i handler
            cases stepped
            exact inv.dispatched atPhase err _ (by rw [if_pos handler]) (absurd handler)
          · rename_i noHandler
            cases stepped
            exact inv.dispatched atPhase .notImplemented _ (by rw [if_neg noHandler, List.append_nil])
              fun _ => rfl
      | pop =>
          simp only [atPhase] at stepped
          cases stepped
          exact inv.removed two_le atPhase

theorem inv_of_run (two_le : 2 ≤ region.size % 2 ^ 16) {actions : List Action}
    (run : Run (ofFunction step) (initial region) actions s) :
    Inv region (region.size % 2 ^ 16) s :=
  run.invariant (fun _ _ _ inv stepped => inv.step two_le stepped) (inv_initial region)

/-! ## Every event exactly once -/

/-- `HasFront` tells whether there is an event that has not been removed.
`ProcessEvent` looks at the events in the order in which they were produced, hands
those with a handler to `OnEvent`, and removes each of them, whatever the error. -/
structure ExactlyOnce (s : EventLoop) : Prop where
  hasFront_iff : s.ring.hasFront = true ↔ s.popped < s.produced.length
  processed : (s.processed.map Prod.fst).map TRB.payload =
    (s.produced.take s.processed.length).map TRB.payload
  handed : s.handed.map TRB.payload =
    ((s.produced.take s.processed.length).filter fun trb => trb.HasHandler).map TRB.payload
  removed : s.processed.length = s.popped + s.inPop
  others : ∀ entry ∈ s.processed, ¬ entry.1.HasHandler → entry.2 = .notImplemented

theorem hasHandler_payload (trb : TRB) : trb.payload.HasHandler ↔ trb.HasHandler := by
  rw [TRB.HasHandler, TRB.HasHandler, TRB.payload, TRB.trbType_stamp]

theorem filter_map_payload (trbs : List TRB) :
    (trbs.map TRB.payload).filter (fun trb => trb.HasHandler) =
      (trbs.filter fun trb => trb.HasHandler).map TRB.payload := by
  rw [List.filter_map]
  congr 1
  apply List.filter_congr
  intro trb _
  exact decide_eq_decide.mpr (hasHandler_payload trb)

/-- In every run, every event is processed exactly once. -/
theorem exactlyOnce_of_run (two_le : 2 ≤ region.size % 2 ^ 16) {actions : List Action}
    (run : Run (ofFunction step) (initial region) actions s) : ExactlyOnce s := by
  have inv := inv_of_run two_le run
  have processed : (s.processed.map Prod.fst).map TRB.payload =
      (s.produced.take s.processed.length).map TRB.payload := by
    rw [List.map_map]
    exact inv.processed
  refine ⟨inv.hasFront_iff two_le, processed, ?_, inv.count, inv.others⟩
  rw [inv.handed, ← filter_map_payload, processed, filter_map_payload]

/-! ## Runs -/

/-- A segment of two blocks. -/
def twoBlocks : Region :=
  ⟨64, 2, by decide, by decide⟩

/-- An event of a type. -/
def eventOf (type : BitVec 6) : TRB :=
  ![0, 0, 0, type.setWidth 32 <<< 10]

/-- An event is produced and processed. -/
def produceAndProcess (type : BitVec 6) (err : Error) : List Action :=
  [.produce (eventOf type), .store, .store, .processEvents, .store, .store] ++
    List.replicate 5 (.proceed err)

/-- Three laps, with a handler that fails. -/
def threeLaps : List Action :=
  (List.replicate 6 (produceAndProcess TRB.transferEventType .transferFailed)).flatten

theorem exactlyOnce_threeLaps : ∃ s,
    Run (ofFunction step) (initial twoBlocks) threeLaps s ∧ ExactlyOnce s := by
  have isSome : (execute step (initial twoBlocks) threeLaps).isSome = true := by decide
  rcases Option.isSome_iff_exists.mp isSome with ⟨s, executed⟩
  have run := (execute_eq_some_iff step (initial twoBlocks) threeLaps s).mp executed
  exact ⟨s, run, exactlyOnce_of_run (by decide) run⟩

/-- An event of another type (here of a device notification) is removed without
having been handed to `OnEvent`. -/
theorem not_handed_deviceNotification : ∃ s,
    Run (ofFunction step) (initial twoBlocks) (produceAndProcess 38 .success) s ∧
    s.produced = [eventOf 38] ∧ s.popped = 1 ∧
    ¬ s.handed.map TRB.payload = (s.produced.take s.popped).map TRB.payload := by
  have executed : (execute step (initial twoBlocks) (produceAndProcess 38 .success)).any (fun s =>
      s.produced = [eventOf 38] ∧ s.popped = 1 ∧ s.handed = []) = true := by
    decide
  rcases (Option.any_eq_true ..).mp executed with ⟨s, found, holds⟩
  rcases of_decide_eq_true holds with ⟨produced, popped, handed⟩
  refine ⟨s, (execute_eq_some_iff step _ _ s).mp found, produced, popped, ?_⟩
  rw [handed, produced, popped]
  rintro ⟨⟩

end EventLoop
end Mikanos.Xhci
