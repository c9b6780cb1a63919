import Mathlib.Data.Fin.Basic
import Mathlib.Data.List.FinRange
import Mathlib.Logic.Function.Basic
import Mikanos.Error
import Mikanos.Xhci.Ring

/-!
# Root hub port configuration

The driver configures a root hub port in phases.  From its reset until its
device has an address a port must be the only one in these phases; the other
ports wait, and `addressing_port` is the lock.  Each handler below takes the
state to the state after it and the error it returns.  The port registers and
the contents of the device contexts belong to the host controller: the registers
change by events of their own, and the fields of a device context that a handler
reads come with its event.
-/

namespace Mikanos.Xhci

/-- `ConfigPhase`. -/
inductive ConfigPhase
  | notConnected
  | waitingAddressed
  | resettingPort
  | enablingSlot
  | addressingDevice
  | initializingDevice
  | configuringEndpoints
  | configured
  deriving DecidableEq, Repr

/-- The place of a phase in the order of `ConfigPhase`. -/
def ConfigPhase.rank : ConfigPhase → Nat
  | .notConnected => 0
  | .waitingAddressed => 1
  | .resettingPort => 2
  | .enablingSlot => 3
  | .addressingDevice => 4
  | .initializingDevice => 5
  | .configuringEndpoints => 6
  | .configured => 7

/-- The phases from reset to address assignment. -/
def ConfigPhase.Exclusive (phase : ConfigPhase) : Prop :=
  phase = .resettingPort ∨ phase = .enablingSlot ∨ phase = .addressingDevice

/-- A port number, a `uint8_t`; 0 stands for no port. -/
abbrev PortNum := Fin 256

/-- The bits of `PORTSC` that the driver reads. -/
structure PortSC where
  currentConnectStatus : Bool
  portEnabledDisabled : Bool
  portResetChange : Bool
  portSpeed : Fin 16

/-- The `trb_type` of the commands that the driver issues. -/
inductive Command
  | enableSlot
  | addressDevice
  | configureEndpoint
  | other
  deriving DecidableEq

/-- The driver's configuration state and the port registers. -/
structure PortConfig where
  phase : PortNum → ConfigPhase
  addressingPort : PortNum
  maxSlots : Nat
  /-- the slots for which `DeviceManager` holds a device -/
  devices : Nat → Bool
  portsc : PortNum → PortSC

namespace PortConfig

/-- The state after `Controller::Initialize`. -/
def initial (maxSlots : Nat) (portsc : PortNum → PortSC) : PortConfig :=
  { phase := fun _ => .notConnected, addressingPort := 0, maxSlots, devices := fun _ => false,
    portsc }

def setPhase (c : PortConfig) (port : PortNum) (phase : ConfigPhase) : PortConfig :=
  { c with phase := Function.update c.phase port phase }

/-- `Port::IsConnected`. -/
def isConnected (c : PortConfig) (port : PortNum) : Bool :=
  (c.portsc port).currentConnectStatus

/-- `Port::ClearPortResetChange`. -/
def clearPortResetChange (c : PortConfig) (port : PortNum) : PortConfig :=
  { c with portsc := Function.update c.portsc port { c.portsc port with portResetChange := false } }

/-- `DeviceManager::FindBySlot` finds a device. -/
def findBySlot (c : PortConfig) (slot : Nat) : Bool :=
  decide (slot ≤ c.maxSlots) && c.devices slot

/-- `DeviceManager::AllocDevice`. -/
def allocDevice (c : PortConfig) (slot : Nat) : PortConfig × Error :=
  if c.maxSlots < slot then
    (c, .invalidSlotID)
  else if c.devices slot then
    (c, .alreadyAllocated)
  else
    ({ c with devices := Function.update c.devices slot true }, .success)

/-- `ResetPort`. -/
def resetPort (c : PortConfig) (port : PortNum) : PortConfig × Error :=
  if c.isConnected port = false then
    (c, .success)
  else if c.addressingPort ≠ 0 then
    (c.setPhase port .waitingAddressed, .success)
  else if c.phase port ≠ .notConnected ∧ c.phase port ≠ .waitingAddressed then
    (c, .invalidPhase)
  else
    ({ c with addressingPort := port }.setPhase port .resettingPort, .success)

/-- `EnableSlot`. -/
def enableSlot (c : PortConfig) (port : PortNum) : PortConfig × Error :=
  if (c.portsc port).portEnabledDisabled ∧ (c.portsc port).portResetChange then
    ((c.clearPortResetChange port).setPhase port .enablingSlot, .success)
  else
    (c, .success)

/-- `AddressDevice`. -/
def addressDevice (c : PortConfig) (port : PortNum) (slot : Nat) : PortConfig × Error :=
  let c := (c.allocDevice slot).1
  if c.findBySlot slot then
    (c.setPhase port .addressingDevice, .success)
  else
    (c, .invalidSlotID)

/-- `InitializeDevice`. -/
def initializeDevice (c : PortConfig) (port : PortNum) (slot : Nat) : PortConfig × Error :=
  if c.findBySlot slot then
    (c.setPhase port .initializingDevice, .success)
  else
    (c, .invalidSlotID)

/-- `CompleteConfiguration`. -/
def completeConfiguration (c : PortConfig) (port : PortNum) (slot : Nat) : PortConfig × Error :=
  if c.findBySlot slot then
    (c.setPhase port .configured, .success)
  else
    (c, .invalidSlotID)

/-- `kSuperSpeedPlus`. -/
def kSuperSpeedPlus : Nat := 5

/-- `ConfigureEndpoints` for a device on `port`. -/
def configureEndpoints (c : PortConfig) (port : PortNum) : PortConfig × Error :=
  let portSpeed := ((c.portsc port).portSpeed : Nat)
  if portSpeed = 0 ∨ kSuperSpeedPlus < portSpeed then
    (c, .unknownXHCISpeedID)
  else
    (c.setPhase port .configuringEndpoints, .success)

/-- `ConfigurePort`. -/
def configurePort (c : PortConfig) (port : PortNum) : PortConfig × Error :=
  if c.phase port = .notConnected then c.resetPort port else (c, .success)

/-- One round of the loop over the ports in `Initialize`. -/
def scanPort (c : PortConfig) (port : PortNum) : PortConfig × Error :=
  if c.isConnected port then c.configurePort port else (c, .success)

/-- `OnEvent(PortStatusChangeEventTRB)`. -/
def onPortStatusChange (c : PortConfig) (port : PortNum) : PortConfig × Error :=
  match c.phase port with
  | .notConnected => c.resetPort port
  | .resettingPort => c.enableSlot port
  | _ => (c, .invalidPhase)

/-- `OnEvent(TransferEventTRB)`.  `received` is what `OnTransferEventReceived`
returns, `port` the port in the device context. -/
def onTransferEvent (c : PortConfig) (slot : Nat) (received : Error) (isInitialized : Bool)
    (port : PortNum) : PortConfig × Error :=
  if c.findBySlot slot = false then
    (c, .invalidSlotID)
  else if received ≠ .success then
    (c, received)
  else if isInitialized ∧ c.phase port = .initializingDevice then
    c.configureEndpoints port
  else
    (c, .success)

/-- The first port in `kWaitingAddressed`. -/
def firstWaiting (c : PortConfig) : Option PortNum :=
  (List.finRange 256).find? fun port => decide (c.phase port = .waitingAddressed)

/-- The loop that hands the lock over. -/
def handOver (c : PortConfig) : PortConfig × Error :=
  match c.firstWaiting with
  | none => (c, .success)
  | some port => c.resetPort port

/-- `OnEvent(CommandCompletionEventTRB)`; `port` is the port in the device
context of the slot. -/
def onCommandCompletion (c : PortConfig) (issuer : Command) (slot : Nat) (port : PortNum) :
    PortConfig × Error :=
  match issuer with
  | .enableSlot =>
      if c.phase c.addressingPort ≠ .enablingSlot then
        (c, .invalidPhase)
      else
        c.addressDevice c.addressingPort slot
  | .addressDevice =>
      if c.findBySlot slot = false then
        (c, .invalidSlotID)
      else if port ≠ c.addressingPort then
        (c, .invalidPhase)
      else if c.phase port ≠ .addressingDevice then
        (c, .invalidPhase)
      else
        match { c with addressingPort := 0 }.handOver with
        | (c, .success) => c.initializeDevice port slot
        | (c, err) => (c, err)
  | .configureEndpoint =>
      if c.findBySlot slot = false then
        (c, .invalidSlotID)
      else if c.phase port ≠ .configuringEndpoints then
        (c, .invalidPhase)
      else
        c.completeConfiguration port slot
  | .other => (c, .invalidPhase)

/-- What can happen to the driver. -/
inductive Event
  /-- the initial scan comes to a port -/
  | scanPort (port : PortNum)
  | portStatusChange (port : PortNum)
  | transfer (slot : Nat) (received : Error) (isInitialized : Bool) (port : PortNum)
  | commandCompletion (issuer : Command) (slot : Nat) (port : PortNum)
  /-- a port register changes -/
  | registers (port : PortNum) (portsc : PortSC)

/-- An event is handled. -/
def handle (c : PortConfig) : Event → PortConfig × Error
  | .scanPort port => c.scanPort port
  | .portStatusChange port => c.onPortStatusChange port
  | .transfer slot received isInitialized port =>
      c.onTransferEvent slot received isInitialized port
  | .commandCompletion issuer slot port => c.onCommandCompletion issuer slot port
  | .registers port portsc => ({ c with portsc := Function.update c.portsc port portsc }, .success)

/-- The state after an event. -/
def next (c : PortConfig) (event : Event) : Option PortConfig :=
  some (c.handle event).1

end PortConfig
end Mikanos.Xhci
