import Mikanos.Transition.Run
import Mikanos.Xhci.PortConfig

/-!
# Serialised port configuration

What one event can do to the phases and to the lock is said once, by `Moves`.
From it follow that the ports between reset and address assignment are exactly
the owner of the lock, that phases only move forward, and that no port is left
waiting as long as every release of the lock finds the first waiting port
connected.
-/

namespace Mikanos.Xhci.PortConfig

open Transition

/-- The completion of an `AddressDevice` command releases the lock. -/
def Releases (c : PortConfig) (slot : Nat) (port : PortNum) : Prop :=
  c.findBySlot slot = true ∧ port = c.addressingPort ∧ c.phase port = .addressingDevice

/-- What one event can do to the phases and to `addressing_port`. -/
inductive Moves (c : PortConfig) (event : Event) (c' : PortConfig) : Prop
  | stay (phase : c'.phase = c.phase) (lock : c'.addressingPort = c.addressingPort)
  /-- a port takes the free lock -/
  | lock (port : PortNum) (valid : port ≠ 0) (free : c.addressingPort = 0)
      (fresh : c.phase port = .notConnected)
      (phase : c'.phase = Function.update c.phase port .resettingPort)
      (lock : c'.addressingPort = port)
  /-- a port begins to wait for the lock -/
  | wait (port : PortNum) (valid : port ≠ 0) (taken : c.addressingPort ≠ 0)
      (fresh : c.phase port = .notConnected)
      (phase : c'.phase = Function.update c.phase port .waitingAddressed)
      (lock : c'.addressingPort = c.addressingPort)
  /-- a port advances with the lock, or without it -/
  | advance (port : PortNum) (new : ConfigPhase) (started : c.phase port ≠ .notConnected)
      (forward : (c.phase port).rank < new.rank)
      (same : new.Exclusive ↔ (c.phase port).Exclusive) (busy : new ≠ .waitingAddressed)
      (phase : c'.phase = Function.update c.phase port new)
      (lock : c'.addressingPort = c.addressingPort)
  /-- the owner releases the lock and no port takes it -/
  | release (slot : Nat) (owner : PortNum)
      (completion : event = .commandCompletion .addressDevice slot owner)
      (releases : c.Releases slot owner)
      (left : ∀ port, c.firstWaiting = some port → c.isConnected port = false)
      (phase : c'.phase = Function.update c.phase owner .initializingDevice)
      (lock : c'.addressingPort = 0)
  /-- the owner hands the lock over to a waiting port -/
  | handOver (owner port : PortNum) (owns : c.addressingPort = owner)
      (addressing : c.phase owner = .addressingDevice) (first : c.firstWaiting = some port)
      (phase : c'.phase = Function.update (Function.update c.phase port .resettingPort) owner
        .initializingDevice)
      (lock : c'.addressingPort = port)

/-- The ports of an event are numbered from 1. -/
def Event.Valid : Event → Prop
  | .scanPort port => port ≠ 0
  | .portStatusChange port => port ≠ 0
  | _ => True

variable {c c' : PortConfig} {event : Event}

theorem moves_resetPort {port : PortNum} (valid : port ≠ 0) (fresh : c.phase port = .notConnected) :
    Moves c event (c.resetPort port).1 := by
  rw [resetPort]
  split
  · exact .stay rfl rfl
  · split
    · rename_i taken
      exact .wait port valid taken fresh rfl rfl
    · rename_i free
      rw [if_neg (by simp [fresh])]
      exact .lock port valid (not_not.mp free) fresh rfl rfl

theorem moves_enableSlot {port : PortNum} (resetting : c.phase port = .resettingPort) :
    Moves c event (c.enableSlot port).1 := by
  rw [enableSlot]
  split
  · refine .advance port .enablingSlot ?_ ?_ ?_ (by decide) rfl rfl
    · rw [resetting]
      decide
    · rw [resetting]
      decide
    · simp [resetting, ConfigPhase.Exclusive]
  · exact .stay rfl rfl

theorem moves_addressDevice {slot : Nat} (enabling : c.phase c.addressingPort = .enablingSlot) :
    Moves c event (c.addressDevice c.addressingPort slot).1 := by
  have alloc : (c.allocDevice slot).1.phase = c.phase ∧
      (c.allocDevice slot).1.addressingPort = c.addressingPort := by
    rw [allocDevice]
    split
    · exact ⟨rfl, rfl⟩
    · split
      · exact ⟨rfl, rfl⟩
      · exact ⟨rfl, rfl⟩
  rw [addressDevice]
  split
  · refine .advance c.addressingPort .addressingDevice ?_ ?_ ?_ (by decide) ?_ alloc.2
    · rw [enabling]
      decide
    · rw [enabling]
      decide
    · simp [enabling, ConfigPhase.Exclusive]
    · rw [← alloc.1]
      rfl
  · exact .stay alloc.1 alloc.2

theorem moves_configureEndpoints {port : PortNum}
    (initializing : c.phase port = .initializingDevice) :
    Moves c event (c.configureEndpoints port).1 := by
  rw [configureEndpoints]
  split
  · exact .stay rfl rfl
  · refine .advance port .configuringEndpoints ?_ ?_ ?_ (by decide) rfl rfl
    · rw [initializing]
      decide
    · rw [initializing]
      decide
    · simp [initializing, ConfigPhase.Exclusive]

theorem moves_completeConfiguration {port : PortNum} {slot : Nat}
    (configuring : c.phase port = .configuringEndpoints) :
    Moves c event (c.completeConfiguration port slot).1 := by
  rw [completeConfiguration]
  split
  · refine .advance port .configured ?_ ?_ ?_ (by decide) rfl rfl
    · rw [configuring]
      decide
    · rw [configuring]
      decide
    · simp [configuring, ConfigPhase.Exclusive]
  · exact .stay rfl rfl

theorem phase_of_firstWaiting {port : PortNum} (first : c.firstWaiting = some port) :
    c.phase port = .waitingAddressed :=
  of_decide_eq_true (List.find?_some first :)

theorem firstWaiting_eq_none (none : c.firstWaiting = none) (port : PortNum) :
    c.phase port ≠ .waitingAddressed := by
  intro waiting
  have := List.find?_eq_none.mp none port (List.mem_finRange port)
  exact this (decide_eq_true waiting)

/-- The loop that hands the lock over never fails: it gives the lock to the first
waiting port if that port is connected, and otherwise does nothing. -/
theorem handOver_eq (free : c.addressingPort = 0) :
    c.handOver = (match c.firstWaiting with
      | some port => if c.isConnected port then
          { c with addressingPort := port }.setPhase port .resettingPort else c
      | none => c, .success) := by
  rw [handOver]
  cases first : c.firstWaiting with
  | none => rfl
  | some port =>
      have waiting := phase_of_firstWaiting first
      cases connected : c.isConnected port with
      | false => simp [resetPort, connected]
      | true => simp [resetPort, connected, free, waiting]

theorem onCommandCompletion_of_releases {slot : Nat} {port : PortNum}
    (releases : c.Releases slot port) :
    c.onCommandCompletion .addressDevice slot port =
      ((match c.firstWaiting with
        | some port => if c.isConnected port then
            { c with addressingPort := port }.setPhase port .resettingPort
          else { c with addressingPort := 0 }
        | none => { c with addressingPort := 0 }).setPhase port .initializingDevice, .success) := by
  rcases releases with ⟨found, owns, addressing⟩
  rw [onCommandCompletion, if_neg (by simp [found]), if_neg (not_not_intro owns), if_neg (not_not_intro addressing),
    handOver_eq rfl]
  have same : { c with addressingPort := 0 }.firstWaiting = c.firstWaiting := rfl
  rw [same]
  cases c.firstWaiting with
  | none => exact if_pos found
  | some waiting =>
      cases connected : c.isConnected waiting with
      | false =>
          have connected' : { c with addressingPort := 0 }.isConnected waiting = false := connected
          simp only [connected, connected', Bool.false_eq_true, if_false]
          exact if_pos found
      | true =>
          have connected' : { c with addressingPort := 0 }.isConnected waiting = true := connected
          simp only [connected, connected', if_true]
          exact if_pos found

theorem onCommandCompletion_of_not_releases {slot : Nat} {port : PortNum}
    (notReleases : ¬ c.Releases slot port) :
    (c.onCommandCompletion .addressDevice slot port).1 = c := by
  rw [onCommandCompletion]
  split
  · rfl
  · rename_i found
    split
    · rfl
    · rename_i owns
      split
      · rfl
      · rename_i addressing
        exact absurd ⟨by simpa using found, not_not.mp owns, not_not.mp addressing⟩ notReleases

theorem moves_addressDeviceCompletion (slot : Nat) (port : PortNum) :
    Moves c (.commandCompletion .addressDevice slot port)
      (c.onCommandCompletion .addressDevice slot port).1 := by
  by_cases releases : c.Releases slot port
  · rw [onCommandCompletion_of_releases releases]
    rcases id releases with ⟨-, owns, addressing⟩
    cases first : c.firstWaiting with
    | none =>
        refine .release slot port rfl releases ?_ rfl rfl
        rw [first]
        rintro _ ⟨⟩
    | some waiting =>
        cases connected : c.isConnected waiting with
        | false =>
            simp only [connected, Bool.false_eq_true, if_false]
            refine .release slot port rfl releases ?_ rfl rfl
            rw [first]
            rintro _ ⟨⟩
            exact connected
        | true =>
            simp only [connected, if_true]
            exact .handOver port waiting owns.symm addressing first rfl rfl
  · rw [onCommandCompletion_of_not_releases releases]
    exact .stay rfl rfl

theorem moves_onCommandCompletion (issuer : Command) (slot : Nat) (port : PortNum) :
    Moves c (.commandCompletion issuer slot port) (c.onCommandCompletion issuer slot port).1 := by
  cases issuer with
  | enableSlot =>
      rw [onCommandCompletion]
      split
      · exact .stay rfl rfl
      · rename_i enabling
        exact moves_addressDevice (not_not.mp enabling)
  | addressDevice => exact moves_addressDeviceCompletion slot port
  | configureEndpoint =>
      rw [onCommandCompletion]
      split
      · exact .stay rfl rfl
      · split
        · exact .stay rfl rfl
        · rename_i configuring
          exact moves_completeConfiguration (not_not.mp configuring)
  | other => exact .stay rfl rfl

/-- Every event makes one of the moves. -/
theorem moves_handle (c : PortConfig) {event : Event} (valid : event.Valid) : Moves c event (c.handle event).1 := by
  cases event with
  | scanPort port =>
      rw [handle, scanPort]
      split
      · rw [configurePort]
        split
        · rename_i fresh
          exact moves_resetPort valid fresh
        · exact .stay rfl rfl
      · exact .stay rfl rfl
  | portStatusChange port =>
      rw [handle, onPortStatusChange]
      split
      · rename_i fresh
        exact moves_resetPort valid fresh
      · rename_i resetting
        exact moves_enableSlot resetting
      · exact .stay rfl rfl
  | transfer slot received isInitialized port =>
      rw [handle, onTransferEvent]
      split
      · exact .stay rfl rfl
      · split
        · exact .stay rfl rfl
        · split
          · rename_i ready
            exact moves_configureEndpoints ready.2
          · exact .stay rfl rfl
  | commandCompletion issuer slot port => exact moves_onCommandCompletion issuer slot port
  | registers port portsc => exact .stay rfl rfl

/-! ## Exclusion and order -/

/-- The ports between reset and address assignment are exactly the owner of the
lock. -/
structure Inv (c : PortConfig) : Prop where
  zero : c.phase 0 = .notConnected
  owner : ∀ port, (c.phase port).Exclusive ↔ port = c.addressingPort ∧ port ≠ 0

theorem inv_initial (maxSlots : Nat) (portsc : PortNum → PortSC) :
    Inv (initial maxSlots portsc) where
  zero := rfl
  owner := by
    intro port
    simp [initial, ConfigPhase.Exclusive]

theorem inv_of_moves (inv : Inv c) (moves : Moves c event c') : Inv c' := by
  have ne_of_started {port : PortNum} (started : c.phase port ≠ .notConnected) : port ≠ 0 := by
    rintro rfl
    exact started inv.zero
  cases moves with
  | stay phase lock =>
      constructor
      · rw [phase, inv.zero]
      · rw [phase, lock]
        exact inv.owner
  | lock port valid free fresh phase lock =>
      constructor
      · rw [phase, Function.update_of_ne (Ne.symm valid), inv.zero]
      · intro other
        rw [phase, lock]
        by_cases same : other = port
        · subst same
          simp [ConfigPhase.Exclusive, valid]
        · rw [Function.update_of_ne same, inv.owner, free]
          simp [same]
  | wait port valid taken fresh phase lock =>
      constructor
      · rw [phase, Function.update_of_ne (Ne.symm valid), inv.zero]
      · intro other
        rw [phase, lock]
        by_cases same : other = port
        · subst same
          rw [Function.update_self, ← inv.owner, fresh]
          simp [ConfigPhase.Exclusive]
        · rw [Function.update_of_ne same, inv.owner]
  | advance port new started forward exclusive busy phase lock =>
      constructor
      · rw [phase, Function.update_of_ne (Ne.symm (ne_of_started started)), inv.zero]
      · intro other
        rw [phase, lock]
        by_cases same : other = port
        · subst same
          rw [Function.update_self, ← inv.owner, exclusive]
        · rw [Function.update_of_ne same, inv.owner]
  | release slot owner completion releases left phase lock =>
      rcases releases with ⟨-, owns, addressing⟩
      have valid : owner ≠ 0 := ne_of_started (by simp [addressing])
      constructor
      · rw [phase, Function.update_of_ne (Ne.symm valid), inv.zero]
      · intro other
        rw [phase, lock]
        by_cases same : other = owner
        · subst same
          simp [ConfigPhase.Exclusive, valid]
        · rw [Function.update_of_ne same, inv.owner, ← owns]
          simp [same]
  | handOver owner port owns addressing first phase lock =>
      have waiting := phase_of_firstWaiting first
      have valid : owner ≠ 0 := ne_of_started (by simp [addressing])
      have valid' : port ≠ 0 := ne_of_started (by simp [waiting])
      have ne : port ≠ owner := by
        rintro rfl
        simp [addressing] at waiting
      constructor
      · rw [phase, Function.update_of_ne (Ne.symm valid), Function.update_of_ne (Ne.symm valid'),
          inv.zero]
      · intro other
        rw [phase, lock]
        by_cases same : other = owner
        · subst same
          simp [ConfigPhase.Exclusive, Ne.symm ne]
        · rw [Function.update_of_ne same]
          by_cases taker : other = port
          · subst taker
            simp [ConfigPhase.Exclusive, valid']
          · rw [Function.update_of_ne taker, inv.owner, owns]
            simp [same, taker]

/-- Setting a later phase takes no port back. -/
theorem rank_le_update {phase : PortNum → ConfigPhase} {port : PortNum} {new : ConfigPhase}
    (forward : (phase port).rank ≤ new.rank) (other : PortNum) :
    (phase other).rank ≤ (Function.update phase port new other).rank := by
  by_cases same : other = port
  · subst same
    rwa [Function.update_self]
  · rw [Function.update_of_ne same]

/-- No move takes a port back. -/
theorem rank_le_of_moves (moves : Moves c event c') (other : PortNum) :
    (c.phase other).rank ≤ (c'.phase other).rank := by
  cases moves with
  | stay phase lock => rw [phase]
  | lock port valid free fresh phase lock =>
      rw [phase]
      exact rank_le_update (by simp [fresh, ConfigPhase.rank]) other
  | wait port valid taken fresh phase lock =>
      rw [phase]
      exact rank_le_update (by simp [fresh, ConfigPhase.rank]) other
  | advance port new started forward same busy phase lock =>
      rw [phase]
      exact rank_le_update forward.le other
  | release slot owner completion releases left phase lock =>
      rw [phase]
      exact rank_le_update (by simp [releases.2.2, ConfigPhase.rank]) other
  | handOver owner port owns addressing first phase lock =>
      have waiting := phase_of_firstWaiting first
      have ne : owner ≠ port := by
        rintro rfl
        simp [addressing] at waiting
      rw [phase]
      calc
        (c.phase other).rank ≤ (Function.update c.phase port .resettingPort other).rank :=
          rank_le_update (by simp [waiting, ConfigPhase.rank]) other
        _ ≤ _ := by
          refine rank_le_update ?_ other
          rw [Function.update_of_ne ne, addressing]
          decide

/-- The events with valid port numbers, as steps. -/
abbrev Steps : Step PortConfig Event :=
  guarded (ofFunction next) fun _ event => event.Valid

theorem moves_of_steps (step : Steps c event c') : Moves c event c' := by
  rcases step with ⟨valid, step⟩
  cases step
  exact moves_handle c valid

theorem inv_of_run {maxSlots : Nat} {portsc : PortNum → PortSC} {events : List Event}
    (run : Run Steps (initial maxSlots portsc) events c) : Inv c :=
  run.invariant (fun _ _ _ inv step => inv_of_moves inv (moves_of_steps step))
    (inv_initial maxSlots portsc)

theorem rank_le_of_run {events : List Event} (run : Run Steps c events c') (port : PortNum) :
    (c.phase port).rank ≤ (c'.phase port).rank := by
  induction run with
  | nil => exact Nat.le_refl _
  | cons head _ ih => exact (rank_le_of_moves (moves_of_steps head) port).trans ih

/-- Port configuration is serialised.  In every state that a run reaches, the
ports between reset and address assignment are the owner of the lock and no
other, the lock is taken exactly when there is such a port, and from any state
of the run to any later one no port goes back. -/
theorem configuration_serialised (maxSlots : Nat) (portsc : PortNum → PortSC)
    (earlier later : List Event) (middle c : PortConfig)
    (first : Run Steps (initial maxSlots portsc) earlier middle) (rest : Run Steps middle later c) :
    (∀ port, (c.phase port).Exclusive → port = c.addressingPort) ∧
      (c.addressingPort ≠ 0 ↔ ∃ port, (c.phase port).Exclusive) ∧
      ∀ port, (middle.phase port).rank ≤ (c.phase port).rank := by
  have inv : Inv c := inv_of_run (first.append rest)
  refine ⟨fun port exclusive => ((inv.owner port).mp exclusive).1, ?_, rank_le_of_run rest⟩
  constructor
  · intro taken
    exact ⟨c.addressingPort, (inv.owner _).mpr ⟨rfl, taken⟩⟩
  · rintro ⟨port, exclusive⟩
    rcases (inv.owner port).mp exclusive with ⟨rfl, valid⟩
    exact valid

/-! ## Waiting ports -/

/-- The lock is free although a connected port waits for it. -/
def Stranded (c : PortConfig) : Prop :=
  c.addressingPort = 0 ∧ ∃ port, c.isConnected port = true ∧ c.phase port = .waitingAddressed

/-- If the event releases the lock, the first waiting port, if there is one, is
connected at that moment. -/
def PicksUp (c : PortConfig) : Event → Prop
  | .commandCompletion .addressDevice slot port =>
      c.Releases slot port → ∀ waiting, c.firstWaiting = some waiting →
        c.isConnected waiting = true
  | _ => True

/-- While the lock is free no port waits. -/
def NoneWaiting (c : PortConfig) : Prop :=
  c.addressingPort = 0 → ∀ port, c.phase port ≠ .waitingAddressed

theorem noneWaiting_of_moves (inv : Inv c) (none : c.NoneWaiting) (picksUp : c.PicksUp event)
    (moves : Moves c event c') : c'.NoneWaiting := by
  intro free other
  cases moves with
  | stay phase lock =>
      rw [phase]
      exact none (lock ▸ free) other
  | lock port valid _ fresh phase lock => exact absurd (lock ▸ free) valid
  | wait port valid taken fresh phase lock => exact absurd (lock ▸ free) taken
  | advance port new started forward same busy phase lock =>
      rw [phase]
      by_cases moved : other = port
      · subst moved
        rwa [Function.update_self]
      · rw [Function.update_of_ne moved]
        exact none (lock ▸ free) other
  | release slot owner completion releases left phase lock =>
      subst completion
      have nobody : c.firstWaiting = Option.none := by
        rw [Option.eq_none_iff_forall_ne_some]
        intro port first
        have connected := picksUp releases port first
        rw [left port first] at connected
        cases connected
      rw [phase]
      by_cases moved : other = owner
      · subst moved
        rw [Function.update_self]
        decide
      · rw [Function.update_of_ne moved]
        exact firstWaiting_eq_none nobody other
  | handOver owner port owns addressing first phase lock =>
      have waiting := phase_of_firstWaiting first
      rw [show port = 0 from lock ▸ free, inv.zero] at waiting
      cases waiting

theorem noneWaiting_of_run {events : List Event} (run : Run (guarded Steps PicksUp) c events c')
    (inv : Inv c) (none : c.NoneWaiting) : c'.NoneWaiting := by
  induction run with
  | nil => exact none
  | cons head _ ih =>
      have moves := moves_of_steps head.2
      exact ih (inv_of_moves inv moves) (noneWaiting_of_moves inv none head.1 moves)

/-- No waiting port is stranded, as long as every release of the lock finds the
first waiting port connected. -/
theorem not_stranded (maxSlots : Nat) (portsc : PortNum → PortSC) (events : List Event)
    (c : PortConfig) (run : Run (guarded Steps PicksUp) (initial maxSlots portsc) events c) :
    ¬ c.Stranded := by
  rintro ⟨free, port, -, waiting⟩
  refine noneWaiting_of_run run (inv_initial maxSlots portsc) (fun _ port => ?_) free port waiting
  simp [initial]

/-- A release that finds the first waiting port disconnected strands that port
as soon as it is connected again. -/
theorem stranded_of_release {slot : Nat} {owner port : PortNum} {portsc : PortSC}
    (releases : c.Releases slot owner) (first : c.firstWaiting = some port)
    (left : c.isConnected port = false) (back : portsc.currentConnectStatus = true) :
    ((c.handle (.commandCompletion .addressDevice slot owner)).1.handle
      (.registers port portsc)).1.Stranded := by
  have waiting := phase_of_firstWaiting first
  have ne : port ≠ owner := by
    rintro rfl
    rw [releases.2.2] at waiting
    cases waiting
  rw [handle, onCommandCompletion_of_releases releases, first]
  simp only [left, Bool.false_eq_true, if_false]
  refine ⟨rfl, port, ?_, ?_⟩
  · simp [handle, isConnected, setPhase, back]
  · simp [handle, setPhase, Function.update_of_ne ne, waiting]

/-! ## Three ports -/

/-- A connected port after its reset. -/
def connectedPort : PortSC :=
  { currentConnectStatus := true, portEnabledDisabled := true, portResetChange := true
    portSpeed := 3 }

/-- An empty port. -/
def emptyPort : PortSC :=
  { currentConnectStatus := false, portEnabledDisabled := false, portResetChange := false
    portSpeed := 0 }

/-- Ports 1, 2 and 3 are scanned, and port 1 gets its address. -/
def threePorts : List Event :=
  [.scanPort 1, .scanPort 2, .scanPort 3, .portStatusChange 1,
    .commandCompletion .enableSlot 1 0]

theorem configuration_serialised_threePorts : ∃ c,
    Run Steps (initial 8 fun _ => connectedPort) threePorts c ∧
    (c.addressingPort ≠ 0 ↔ ∃ port, (c.phase port).Exclusive) := by
  have run : ∃ c, Run Steps (initial 8 fun _ => connectedPort) threePorts c :=
    ⟨_, .cons ⟨show (1 : PortNum) ≠ 0 by decide, rfl⟩ <| .cons ⟨show (2 : PortNum) ≠ 0 by decide, rfl⟩ <|
      .cons ⟨show (3 : PortNum) ≠ 0 by decide, rfl⟩ <| .cons ⟨show (1 : PortNum) ≠ 0 by decide, rfl⟩ <|
      .cons ⟨trivial, rfl⟩ <| .nil _⟩
  rcases run with ⟨c, run⟩
  exact ⟨c, run, (configuration_serialised 8 _ _ _ _ c (.nil _) run).2.1⟩

theorem not_stranded_threePorts : ∃ c,
    Run (guarded Steps PicksUp) (initial 8 fun _ => connectedPort)
      (threePorts ++ [.commandCompletion .addressDevice 1 1]) c ∧ ¬ c.Stranded := by
  have run : ∃ c, Run (guarded Steps PicksUp) (initial 8 fun _ => connectedPort)
      (threePorts ++ [.commandCompletion .addressDevice 1 1]) c := by
    refine ⟨_, .cons ⟨trivial, show (1 : PortNum) ≠ 0 by decide, rfl⟩ <|
      .cons ⟨trivial, show (2 : PortNum) ≠ 0 by decide, rfl⟩ <| .cons ⟨trivial, show (3 : PortNum) ≠ 0 by decide, rfl⟩ <|
      .cons ⟨trivial, show (1 : PortNum) ≠ 0 by decide, rfl⟩ <| .cons ⟨trivial, trivial, rfl⟩ <|
      .cons ⟨?_, trivial, rfl⟩ <| .nil _⟩
    intro _ waiting first
    have second : waiting = 2 := Option.some.inj (first.symm.trans rfl)
    rw [second]
    rfl
  rcases run with ⟨c, run⟩
  exact ⟨c, run, not_stranded 8 _ _ c run⟩

/-- Port 2 is disconnected when port 1 releases the lock, and port 3, which is
connected, goes on waiting. -/
theorem stranded_threePorts : ∃ c,
    Run Steps (initial 8 fun _ => connectedPort)
      (threePorts ++ [.registers 2 emptyPort, .commandCompletion .addressDevice 1 1]) c ∧
    c.Stranded := by
  refine ⟨_, .cons ⟨show (1 : PortNum) ≠ 0 by decide, rfl⟩ <| .cons ⟨show (2 : PortNum) ≠ 0 by decide, rfl⟩ <|
      .cons ⟨show (3 : PortNum) ≠ 0 by decide, rfl⟩ <| .cons ⟨show (1 : PortNum) ≠ 0 by decide, rfl⟩ <|
      .cons ⟨trivial, rfl⟩ <| .cons ⟨trivial, rfl⟩ <| .cons ⟨trivial, rfl⟩ <| .nil _, ?_⟩
  exact ⟨rfl, 3, rfl, rfl⟩

end Mikanos.Xhci.PortConfig
