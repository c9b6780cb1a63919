import Mikanos.Xhci.PortSafety

/-!
# Failed commands

The handlers of command completions read the type of the command that completed
and the slot, but not the completion code.  `Driver` is the configuration state
together with what else these handlers write: the array of device contexts and
the command ring.
-/

namespace Mikanos.Xhci

/-- An entry of the array of device contexts. -/
inductive ContextPointer
  | null
  | scratchpad
  | device (slot : Nat)
  deriving DecidableEq

/-- A command in the command ring. -/
inductive QueuedCommand
  | enableSlot
  | addressDevice (slot : Nat)
  | configureEndpoint (slot : Nat)
  deriving DecidableEq

/-- What the handlers of command completions write. -/
structure Driver where
  config : PortConfig
  /-- `device_context_pointers_` -/
  contexts : Nat → ContextPointer
  /-- the commands pushed so far -/
  commandRing : List QueuedCommand

/-- `CommandCompletionEventTRB`, with the type of the command that it points to
and the port in the device context of its slot. -/
structure CommandCompletion where
  issuer : Command
  completionCode : Fin 256
  slotId : Fin 256
  port : PortNum

namespace Driver

/-- The completion code of a command that succeeded. -/
def successCode : Fin 256 := 1

/-- `DeviceManager::LoadDCBAA`. -/
def loadDCBAA (d : Driver) (slot : Nat) : Driver × Error :=
  if d.config.maxSlots < slot then
    (d, .invalidSlotID)
  else
    ({ d with contexts := Function.update d.contexts slot (.device slot) }, .success)

/-- `AddressDevice`; what `AllocDevice` and `LoadDCBAA` return is not used. -/
def addressDevice (d : Driver) (port : PortNum) (slot : Nat) : Driver × Error :=
  let d := { d with config := (d.config.allocDevice slot).1 }
  if d.config.findBySlot slot then
    let d := (d.loadDCBAA slot).1
    ({ d with
        config := d.config.setPhase port .addressingDevice
        commandRing := d.commandRing ++ [.addressDevice slot] }, .success)
  else
    (d, .invalidSlotID)

/-- `OnEvent(CommandCompletionEventTRB)`. -/
def onCommandCompletion (d : Driver) (e : CommandCompletion) : Driver × Error :=
  if e.issuer = .enableSlot then
    if d.config.phase d.config.addressingPort ≠ .enablingSlot then
      (d, .invalidPhase)
    else
      d.addressDevice d.config.addressingPort e.slotId
  else
    let (config, err) := d.config.onCommandCompletion e.issuer e.slotId e.port
    ({ d with config }, err)

/-- Handling an event has not advanced the configuration. -/
structure NotAdvanced (d d' : Driver) : Prop where
  phases : ∀ port, (d'.config.phase port).rank ≤ (d.config.phase port).rank
  devices : d'.config.devices = d.config.devices
  contexts : d'.contexts = d.contexts
  commandRing : d'.commandRing = d.commandRing

/-- `AllocDevice` is called, and returns an error. -/
def AllocFails (d : Driver) (e : CommandCompletion) : Prop :=
  e.issuer = .enableSlot ∧ d.config.phase d.config.addressingPort = .enablingSlot ∧
    (d.config.allocDevice e.slotId).2 ≠ .success

/-- A command that failed does not advance the configuration, and neither does an
`AllocDevice` that failed. -/
structure RespectsFailure (d : Driver) (e : CommandCompletion) : Prop where
  command : e.completionCode ≠ successCode → d.NotAdvanced (d.onCommandCompletion e).1
  alloc : d.AllocFails e → (d.onCommandCompletion e).2 = (d.config.allocDevice e.slotId).2 ∧
    d.NotAdvanced (d.onCommandCompletion e).1

/-- A port is waiting for the command to complete with this slot. -/
def Awaited (d : Driver) (e : CommandCompletion) : Prop :=
  match e.issuer with
  | .enableSlot =>
      d.config.phase d.config.addressingPort = .enablingSlot ∧ e.slotId ≤ d.config.maxSlots
  | .addressDevice => d.config.Releases e.slotId e.port
  | .configureEndpoint =>
      d.config.findBySlot e.slotId = true ∧ d.config.phase e.port = .configuringEndpoints
  | .other => False

section

variable {d : Driver} {e : CommandCompletion}

theorem NotAdvanced.refl (d : Driver) : d.NotAdvanced d :=
  ⟨fun _ => le_rfl, rfl, rfl, rfl⟩

/-- The phases move as `PortConfig` says. -/
theorem config_onCommandCompletion (d : Driver) (e : CommandCompletion) :
    (d.onCommandCompletion e).1.config =
      (d.config.onCommandCompletion e.issuer e.slotId e.port).1 := by
  rw [onCommandCompletion]
  split
  · rename_i enable
    rw [enable, PortConfig.onCommandCompletion]
    split
    · rfl
    · rw [addressDevice, PortConfig.addressDevice]
      split
      · rw [loadDCBAA]
        split <;> rfl
      · rfl
  · rfl

/-- What `AllocDevice` makes of a slot that exists. -/
theorem findBySlot_allocDevice {c : PortConfig} {slot : Nat} (exists_ : slot ≤ c.maxSlots) :
    (c.allocDevice slot).1.findBySlot slot = true := by
  rw [PortConfig.allocDevice, if_neg (by omega)]
  split
  · rename_i taken
    simp [PortConfig.findBySlot, exists_, taken]
  · simp [PortConfig.findBySlot, exists_]

/-- A completion that is awaited advances a port, whatever its code. -/
theorem advances_of_awaited (awaited : d.Awaited e) :
    ∃ port, (d.config.phase port).rank < ((d.onCommandCompletion e).1.config.phase port).rank := by
  rw [config_onCommandCompletion]
  rw [Awaited] at awaited
  cases issuer : e.issuer with
  | enableSlot =>
      rw [issuer] at awaited
      rcases awaited with ⟨enabling, exists_⟩
      refine ⟨d.config.addressingPort, ?_⟩
      have found := findBySlot_allocDevice exists_
      simp only [PortConfig.onCommandCompletion, PortConfig.addressDevice, enabling, found,
        ne_eq, not_true_eq_false, if_false, if_true, PortConfig.setPhase, Function.update_self]
      decide
  | addressDevice =>
      rw [issuer] at awaited
      refine ⟨e.port, ?_⟩
      rw [PortConfig.onCommandCompletion_of_releases awaited, awaited.2.2]
      simp only [PortConfig.setPhase, Function.update_self]
      decide
  | configureEndpoint =>
      rw [issuer] at awaited
      rcases awaited with ⟨found, configuring⟩
      refine ⟨e.port, ?_⟩
      simp only [PortConfig.onCommandCompletion, PortConfig.completeConfiguration, found, configuring,
        ne_eq, not_true_eq_false, Bool.true_eq_false, if_false, if_true, PortConfig.setPhase,
        Function.update_self]
      decide
  | other =>
      rw [issuer] at awaited
      exact awaited.elim

/-- A completion that is not awaited changes nothing. -/
theorem unchanged_of_not_awaited (unexpected : ¬ d.Awaited e) : (d.onCommandCompletion e).1 = d := by
  rw [Awaited] at unexpected
  rw [onCommandCompletion]
  cases issuer : e.issuer with
  | enableSlot =>
      rw [issuer] at unexpected
      rw [if_pos rfl]
      split
      · rfl
      · rename_i enabling
        have beyond : d.config.maxSlots < e.slotId := by
          by_contra exists_
          exact unexpected ⟨not_not.mp enabling, not_lt.mp exists_⟩
        have missing : d.config.findBySlot e.slotId = false := by
          simp [PortConfig.findBySlot, beyond]
        simp [addressDevice, PortConfig.allocDevice, beyond, missing]
  | addressDevice =>
      rw [issuer] at unexpected
      simp only [reduceCtorEq, if_false, PortConfig.onCommandCompletion_of_not_releases unexpected]
  | configureEndpoint =>
      rw [issuer] at unexpected
      simp only [reduceCtorEq, if_false, PortConfig.onCommandCompletion]
      by_cases found : d.config.findBySlot e.slotId = true
      · have elsewhere : d.config.phase e.port ≠ .configuringEndpoints :=
          fun configuring => unexpected ⟨found, configuring⟩
        simp [found, elsewhere]
      · simp [found]
  | other => rfl

/-- `AllocDevice` fails for a slot that does not exist, and for one that has a
device. -/
theorem allocFails_iff : d.AllocFails e ↔ e.issuer = .enableSlot ∧
    d.config.phase d.config.addressingPort = .enablingSlot ∧
      (d.config.maxSlots < e.slotId ∨ d.config.devices e.slotId = true) := by
  rw [AllocFails, PortConfig.allocDevice]
  by_cases beyond : d.config.maxSlots < e.slotId
  · simp [beyond]
  · cases taken : d.config.devices e.slotId with
    | true => simp [beyond]
    | false => simp [beyond]

/-- A failed allocation is reported exactly when the slot does not exist. -/
theorem result_of_allocFails (fails : d.AllocFails e) :
    (d.onCommandCompletion e).2 = (d.config.allocDevice e.slotId).2 ↔ ¬ d.Awaited e := by
  rcases allocFails_iff.mp fails with ⟨issuer, enabling, reason⟩
  rw [Awaited, issuer, onCommandCompletion, if_pos issuer, if_neg (not_not_intro enabling),
    addressDevice]
  by_cases beyond : d.config.maxSlots < e.slotId
  · have missing : d.config.findBySlot e.slotId = false := by
      simp [PortConfig.findBySlot, beyond]
    simp [PortConfig.allocDevice, beyond, missing]
  · have taken := reason.resolve_left beyond
    have found := findBySlot_allocDevice (not_lt.mp beyond)
    rw [if_pos found]
    simp [PortConfig.allocDevice, beyond, taken, enabling]

/-- Failures are respected exactly when the completion of a failed command is one
that no port is waiting for, and no slot is enabled twice. -/
theorem respectsFailure_iff (d : Driver) (e : CommandCompletion) :
    d.RespectsFailure e ↔ ¬ (d.Awaited e ∧ (e.completionCode ≠ successCode ∨
      e.issuer = .enableSlot ∧ d.config.devices e.slotId = true)) := by
  constructor
  · rintro ⟨command, alloc⟩ ⟨awaited, failed | ⟨issuer, taken⟩⟩
    · rcases advances_of_awaited awaited with ⟨port, later⟩
      exact absurd ((command failed).phases port) (not_le.mpr later)
    · have enabling : d.config.phase d.config.addressingPort = .enablingSlot := by
        rw [Awaited, issuer] at awaited
        exact awaited.1
      have fails := allocFails_iff.mpr ⟨issuer, enabling, .inr taken⟩
      exact (result_of_allocFails fails).mp (alloc fails).1 awaited
  · intro accepts
    constructor
    · intro failed
      rw [unchanged_of_not_awaited fun awaited => accepts ⟨awaited, .inl failed⟩]
      exact .refl d
    · intro fails
      have unexpected : ¬ d.Awaited e := by
        intro awaited
        rcases allocFails_iff.mp fails with ⟨issuer, -, beyond | taken⟩
        · rw [Awaited, issuer] at awaited
          exact absurd awaited.2 (not_le.mpr beyond)
        · exact accepts ⟨awaited, .inr ⟨issuer, taken⟩⟩
      rw [result_of_allocFails fails, unchanged_of_not_awaited unexpected]
      exact ⟨unexpected, .refl d⟩

end

/-- The driver right after its initialisation, on a controller that uses
scratchpad buffers. -/
def initial (maxSlots : Nat) (portsc : PortNum → PortSC) : Driver where
  config := .initial maxSlots portsc
  contexts := Function.update (fun _ => .null) 0 .scratchpad
  commandRing := []

/-- Port 1 has been reset, and its `EnableSlot` command has been issued. -/
def enablingDriver : Driver where
  config := ((PortConfig.initial 8 fun _ => PortConfig.connectedPort).handle
    (.scanPort 1)).1.handle (.portStatusChange 1) |>.1
  contexts := (initial 8 fun _ => PortConfig.connectedPort).contexts
  commandRing := [.enableSlot]

/-- The `EnableSlot` command fails: no slots are available. -/
def noSlots : CommandCompletion where
  issuer := .enableSlot
  completionCode := 9
  slotId := 0
  port := 0

/-- The failed command allocates a device for slot 0, replaces the scratchpad
array and issues the next command. -/
theorem not_respectsFailure_noSlots :
    noSlots.completionCode ≠ successCode ∧ ¬ enablingDriver.RespectsFailure noSlots ∧
      (enablingDriver.onCommandCompletion noSlots).1.config.phase 1 = .addressingDevice ∧
      (enablingDriver.onCommandCompletion noSlots).1.config.devices 0 = true ∧
      enablingDriver.contexts 0 = .scratchpad ∧
      (enablingDriver.onCommandCompletion noSlots).1.contexts 0 = .device 0 ∧
      (enablingDriver.onCommandCompletion noSlots).1.commandRing = [.enableSlot, .addressDevice 0] := by
  refine ⟨by decide, ?_, rfl, rfl, rfl, rfl, rfl⟩
  rintro ⟨command, -⟩
  have later := (command (by decide)).phases 1
  exact absurd later (by decide)

end Driver
end Mikanos.Xhci
