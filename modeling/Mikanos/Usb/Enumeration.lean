import Mikanos.Usb.InterfaceSelection
import Mikanos.Usb.Keyboard
import Mikanos.Xhci.PortConfig

/-!
# From the first descriptor to the reports

A new device is asked for its descriptor and for its configuration, the configuration is set,
the endpoints are configured, the protocol of its class driver is set, and then the driver waits
for reports.  All this is done by handlers of events: each answer has the next request issued.

What C++ leaves undefined has no result here: the faults of the parser, a driver that is not
there, and a transfer ring at index -1.
-/

namespace Mikanos.Usb

open Memory Transition

def DeviceDescriptor.kType : UInt8 := 1

/-! ## Class drivers -/

/-- What the observer of a driver is told. -/
inductive Notification
  | keyPush (push : KeyPush)
  | mouseMove (buttons : UInt8) (displacementX displacementY : Int8)
  deriving DecidableEq

namespace DriverKind

/-- `in_packet_size_`. -/
def inPacketSize : DriverKind → Nat
  | .keyboard => 8
  | .mouse => 3

/-- `OnDataReceived`. -/
def onDataReceived (kind : DriverKind) (buffers : HIDBaseDriver) : List Notification :=
  match kind with
  | .keyboard => buffers.onDataReceived.map .keyPush
  | .mouse => [.mouseMove (buffers.buf 0) (buffers.buf 1).toInt8 (buffers.buf 2).toInt8]

end DriverKind

/-- A `HIDKeyboardDriver` or `HIDMouseDriver`, and what its observer has been told. -/
structure BootDriver where
  kind : DriverKind
  epInterruptIn : EndpointID
  epInterruptOut : EndpointID
  initializePhase : Nat
  buffers : HIDBaseDriver
  told : List Notification

namespace BootDriver

/-- A new driver. -/
def new (kind : DriverKind) : BootDriver where
  kind
  epInterruptIn := ⟨0⟩
  epInterruptOut := ⟨0⟩
  initializePhase := 0
  buffers := .initial
  told := []

/-- `SetEndpoint`. -/
def setEndpoint (d : BootDriver) (config : EndpointConfig) : BootDriver :=
  if config.epType = .interrupt ∧ config.epId.isIn then { d with epInterruptIn := config.epId }
  else if config.epType = .interrupt ∧ ¬ config.epId.isIn then { d with epInterruptOut := config.epId }
  else d

end BootDriver

/-- An interrupt transfer on the ring of its endpoint; it goes to the buffer of a driver. -/
structure InterruptTransfer where
  epId : EndpointID
  buf : ClassDriver
  len : Nat
  deriving DecidableEq

/-- A device with its port, and the class drivers at their addresses. -/
structure Connection where
  base : Device
  device : InitDevice
  numConfigurations : UInt8
  configIndex : UInt8
  drivers : ClassDriver → BootDriver
  /-- whether a device context index has a transfer ring -/
  transferRings : Nat → Bool
  interrupts : List InterruptTransfer
  portPhase : Xhci.ConfigPhase

/-- The request of `GetDescriptor`, into `buf_`. -/
def getDescriptorData (descType descIndex : UInt8) : SetupData where
  requestType := 0x80
  request := 6
  value := BitVec.ofNat 16 (descType.toNat * 256 + descIndex.toNat)
  index := 0
  length := 256

/-- The request of `OnEndpointsConfigured`. -/
def setProtocolData (interfaceIndex : UInt8) : SetupData where
  requestType := 0x21
  request := 11
  value := 0
  index := BitVec.ofNat 16 interfaceIndex.toNat
  length := 0

namespace Connection

/-! ## Requests -/

/-- `ControlIn` on the default control pipe, whose ring is there since the device has an address. -/
def controlIn (c : Connection) (setupData : SetupData) (issuer : Option ClassDriver) : Connection :=
  { c with
    base := (c.base.controlIn setupData issuer).1
    device := { c.device with requests := c.device.requests ++ [setupData] } }

/-- `ControlOut` on the default control pipe. -/
def controlOut (c : Connection) (setupData : SetupData) (issuer : Option ClassDriver) : Connection :=
  { c with
    base := (c.base.controlOut setupData issuer).1
    device := { c.device with requests := c.device.requests ++ [setupData] } }

/-- `InterruptIn`; the endpoint with address 0 would have its ring at index -1. -/
def interruptIn (c : Connection) (epId : EndpointID) (buf : ClassDriver) (len : Nat) :
    Option (Connection × Error) :=
  if epId.addr = 0 then none
  else if c.transferRings epId.addr then
    some ({ c with interrupts := c.interrupts ++ [⟨epId, buf, len⟩] }, .success)
  else some (c, .transferRingNotSet)

/-! ## Initialisation -/

/-- `StartInitialize`. -/
def startInitialize (c : Connection) : Connection :=
  { c with
    base := { c.base with isInitialized := false }
    device := { c.device with initializePhase := 1 } }.controlIn
      (getDescriptorData DeviceDescriptor.kType 0) none

/-- `InitializePhase1`. -/
def initializePhase1 (c : Connection) (b : DescriptorBuffer) : Connection × Error :=
  ({ c with
    numConfigurations := b.bytes 17
    configIndex := 0
    device := { c.device with initializePhase := 2 } }.controlIn
      (getDescriptorData ConfigurationDescriptor.kType 0) none, .success)

/-- A driver that has been entered into `class_drivers_` at an index is new. -/
def newDriver (device : InitDevice) (drivers : ClassDriver → BootDriver) (n : Nat) :
    ClassDriver → BootDriver :=
  match device.classDrivers n with
  | some driver => Function.update drivers driver.address (.new driver.kind)
  | none => drivers

/-- The drivers that have been entered into `class_drivers_` are new. -/
def newDrivers (device : InitDevice) (drivers : ClassDriver → BootDriver) : ClassDriver → BootDriver :=
  (List.range 16).foldl (newDriver device) drivers

/-- `InitializePhase2`. -/
def initializePhase2 (heap : DriverHeap) (rounds : Nat) (c : Connection) (b : DescriptorBuffer) :
    Option (Connection × Error) := do
  let (device, err) ← Reading.returned (b.initializePhase2 heap rounds c.device)
  return ({ c with device, drivers := newDrivers device c.drivers }, err)

/-- One round of the loop of `InitializePhase3`. -/
def setEndpoint (device : InitDevice) (drivers : ClassDriver → BootDriver) (i : Nat) :
    Option (ClassDriver → BootDriver) := do
  let driver ← device.classDrivers (device.epConfigs i).epId.number
  return Function.update drivers driver.address
    ((drivers driver.address).setEndpoint (device.epConfigs i))

/-- `InitializePhase3`. -/
def initializePhase3 (c : Connection) : Option (Connection × Error) := do
  let drivers ← (List.range c.device.numEpConfigs).foldlM (setEndpoint c.device) c.drivers
  return ({ c with
    drivers
    device := { c.device with initializePhase := 4 }
    base := { c.base with isInitialized := true } }, .success)

/-- What `OnControlCompleted` does for a device that is not initialised. -/
def onInitializing (heap : DriverHeap) (rounds : Nat) (c : Connection) (setupData : SetupData)
    (b : DescriptorBuffer) : Option (Connection × Error) :=
  if c.device.initializePhase = 1 then
    if setupData.request = 6 ∧ b.bytes 1 = DeviceDescriptor.kType then some (c.initializePhase1 b)
    else some (c, .invalidPhase)
  else if c.device.initializePhase = 2 then
    if setupData.request = 6 ∧ b.bytes 1 = ConfigurationDescriptor.kType then
      c.initializePhase2 heap rounds b
    else some (c, .invalidPhase)
  else if c.device.initializePhase = 3 then
    if setupData.request = 9 then c.initializePhase3 else some (c, .invalidPhase)
  else some (c, .notImplemented)

/-! ## Class drivers at work -/

/-- `HIDBaseDriver::OnEndpointsConfigured`. -/
def driverEndpointsConfigured (c : Connection) (driver : HIDDriver) : Connection :=
  { c with
    drivers := Function.update c.drivers driver.address
      { c.drivers driver.address with initializePhase := 1 } }.controlOut
    (setProtocolData driver.interfaceIndex) (some driver.address)

/-- `HIDBaseDriver::OnControlCompleted`. -/
def driverControlCompleted (c : Connection) (w : ClassDriver) : Option (Connection × Error) :=
  if (c.drivers w).initializePhase = 1 then
    { c with
      drivers := Function.update c.drivers w { c.drivers w with initializePhase := 2 } }.interruptIn
      (c.drivers w).epInterruptIn w (c.drivers w).kind.inPacketSize
  else some (c, .notImplemented)

/-- `HIDBaseDriver::OnInterruptCompleted`. -/
def driverInterruptCompleted (c : Connection) (w : ClassDriver) (epId : EndpointID) (len : Nat) :
    Option (Connection × Error) :=
  if epId.isIn then
    let d := c.drivers w
    { c with
      drivers := Function.update c.drivers w { d with
        told := d.told ++ d.kind.onDataReceived d.buffers
        buffers := (d.buffers.onInterruptCompleted len).1 } }.interruptIn
      d.epInterruptIn w d.kind.inPacketSize
  else some (c, .notImplemented)

/-! ## Events -/

/-- One round of the loop of `OnEndpointsConfigured`. -/
def endpointConfigured (c : Connection) (n : Nat) : Connection :=
  match c.device.classDrivers n with
  | some driver => c.driverEndpointsConfigured driver
  | none => c

/-- `OnEndpointsConfigured`. -/
def onEndpointsConfigured (c : Connection) : Connection :=
  (List.range 16).foldl endpointConfigured c

/-- `OnControlCompleted`. -/
def onControlCompleted (heap : DriverHeap) (rounds : Nat) (c : Connection) (setupData : SetupData)
    (b : DescriptorBuffer) : Option (Connection × Error) :=
  match c.base.onControlCompleted setupData with
  | .classDriver w => c.driverControlCompleted w
  | .error e => some (c, e)
  | .initializePhase => c.onInitializing heap rounds setupData b

/-- `OnInterruptCompleted`. -/
def onInterruptCompleted (c : Connection) (epId : EndpointID) (len : Nat) :
    Option (Connection × Error) :=
  match c.device.classDrivers epId.number with
  | some driver => c.driverInterruptCompleted driver.address epId len
  | none => some (c, .noWaiter)

theorem driverInterruptCompleted_of_some {c : Connection} {epId : EndpointID} {driver : HIDDriver}
    {len : Nat} {result : Option (Connection × Error)}
    (completed : c.onInterruptCompleted epId len = result)
    (found : c.device.classDrivers epId.number = some driver) :
    c.driverInterruptCompleted driver.address epId len = result := by
  rw [← completed, onInterruptCompleted, found]

/-- `ConfigureEndpoints`, on a port with a speed; the endpoint with address 0 would have its
ring at index -1. -/
def configureEndpoints (c : Connection) (portSpeed : Nat) : Option (Connection × Error) :=
  if portSpeed = 0 ∨ Xhci.PortConfig.kSuperSpeedPlus < portSpeed then some (c, .unknownXHCISpeedID)
  else if ∃ i < c.device.numEpConfigs, (c.device.epConfigs i).epId.addr = 0 then none
  else some ({ c with
    transferRings := fun dci => c.transferRings dci ||
      decide (∃ i < c.device.numEpConfigs, (c.device.epConfigs i).epId.addr = dci)
    portPhase := .configuringEndpoints }, .success)

/-- `OnEvent` for a transfer event, after `OnTransferEventReceived`. -/
def onTransferEvent (portSpeed : Nat) (received : Connection × Error) : Option (Connection × Error) :=
  if received.2 ≠ .success then some received
  else if received.1.base.isInitialized ∧ received.1.portPhase = .initializingDevice then
    received.1.configureEndpoints portSpeed
  else some (received.1, .success)

/-- `OnEvent` for the completion of the command to configure the endpoints. -/
def onCommandCompletion (c : Connection) : Connection × Error :=
  if c.portPhase ≠ .configuringEndpoints then (c, .invalidPhase)
  else ({ c.onEndpointsConfigured with portPhase := .configured }, .success)

/-- `InitializeDevice`, for a device that has just got its address. -/
def start (allocPtr : Nat) : Connection :=
  startInitialize {
    base := { isInitialized := false, eventWaiters := .empty _ _ _ }
    device := { InitDevice.configuring allocPtr with initializePhase := 0 }
    numConfigurations := 0
    configIndex := 0
    drivers := fun _ => .new .keyboard
    transferRings := fun dci => dci = 1
    interrupts := []
    portPhase := .initializingDevice }

end Connection

/-! ## The device on the bus -/

/-- A connection, with what has become of its control requests, which are named by their
position, the reports received, how many got lost, and what `OnEvent` returned. -/
structure Bus where
  connection : Connection
  answered : List Nat
  failed : List Nat
  reports : List Report
  lost : Nat
  results : List Error

namespace Bus

/-- The device is plugged in. -/
def plugged (allocPtr : Nat) : Bus where
  connection := .start allocPtr
  answered := []
  failed := []
  reports := []
  lost := 0
  results := []

/-- What can happen to a device. -/
inductive Event
  /-- a control request completes, with this in `buf_`, on a port with a speed -/
  | answer (i : Nat) (b : DescriptorBuffer) (portSpeed : Nat)
  /-- a control request fails -/
  | fail (i : Nat)
  /-- an interrupt transfer completes with a report -/
  | report (i : Nat) (report : Report) (portSpeed : Nat)
  /-- an interrupt transfer fails -/
  | lose (i : Nat)
  /-- the endpoints have been configured -/
  | configured

/-- A request that has neither been answered nor failed. -/
def Outstanding (s : Bus) (i : Nat) : Prop :=
  i < s.connection.device.requests.length ∧ i ∉ s.answered ∧ i ∉ s.failed

instance (s : Bus) (i : Nat) : Decidable (s.Outstanding i) :=
  inferInstanceAs (Decidable (_ ∧ _ ∧ _))

/-- The report is written to the buffer of the transfer. -/
def written (c : Connection) (t : InterruptTransfer) (report : Report) : Connection :=
  { c with
    drivers := Function.update c.drivers t.buf
      { c.drivers t.buf with buffers := (c.drivers t.buf).buffers.transfer report } }

/-- An event is handled. -/
def handled (s : Bus) (result : Connection × Error) : Bus :=
  { s with connection := result.1, results := s.results ++ [result.2] }

def step (heap : DriverHeap) (rounds : Nat) (s : Bus) : Event → Option Bus
  | .answer i b portSpeed => do
      let setupData ← s.connection.device.requests[i]?
      guard (s.Outstanding i)
      let received ← s.connection.onControlCompleted heap rounds setupData b
      let result ← Connection.onTransferEvent portSpeed received
      return { s with answered := s.answered ++ [i] }.handled result
  | .fail i => do
      guard (s.Outstanding i)
      return { s with failed := s.failed ++ [i] }.handled (s.connection, .transferFailed)
  | .report i report portSpeed => do
      let t ← s.connection.interrupts[i]?
      guard (report.bytes.length ≤ t.len)
      let c := written { s.connection with interrupts := s.connection.interrupts.eraseIdx i } t report
      let received ← c.onInterruptCompleted t.epId report.bytes.length
      let result ← Connection.onTransferEvent portSpeed received
      return { s with reports := s.reports ++ [report] }.handled result
  | .lose i => do
      guard (i < s.connection.interrupts.length)
      let c := { s.connection with interrupts := s.connection.interrupts.eraseIdx i }
      return { s with lost := s.lost + 1 }.handled (c, .transferFailed)
  | .configured => return s.handled s.connection.onCommandCompletion

variable {heap : DriverHeap} {rounds : Nat} {s s' : Bus}

theorem step_answer {i portSpeed : Nat} {b : DescriptorBuffer}
    (stepped : s.step heap rounds (.answer i b portSpeed) = some s') :
    ∃ setupData received result, s.connection.device.requests[i]? = some setupData ∧ s.Outstanding i ∧
      s.connection.onControlCompleted heap rounds setupData b = some received ∧
      Connection.onTransferEvent portSpeed received = some result ∧
      s' = { s with answered := s.answered ++ [i] }.handled result := by
  simp only [step, Option.bind_eq_bind, Option.bind_eq_some_iff, Option.guard_eq_some', Option.pure_def,
    Option.some_inj, exists_and_left, exists_const] at stepped
  rcases stepped with ⟨setupData, found, outstanding, received, completed, result, handled, rfl⟩
  exact ⟨setupData, received, result, found, outstanding, completed, handled, rfl⟩

theorem step_fail {i : Nat} (stepped : s.step heap rounds (.fail i) = some s') :
    s.Outstanding i ∧
      s' = { s with failed := s.failed ++ [i] }.handled (s.connection, .transferFailed) := by
  simp only [step, Option.bind_eq_bind, Option.bind_eq_some_iff, Option.guard_eq_some', Option.pure_def,
    Option.some_inj, exists_and_left, exists_const] at stepped
  exact ⟨stepped.1, stepped.2.symm⟩

theorem step_report {i portSpeed : Nat} {report : Report}
    (stepped : s.step heap rounds (.report i report portSpeed) = some s') :
    ∃ t received result, s.connection.interrupts[i]? = some t ∧ report.bytes.length ≤ t.len ∧
      (written { s.connection with interrupts := s.connection.interrupts.eraseIdx i } t
        report).onInterruptCompleted t.epId report.bytes.length = some received ∧
      Connection.onTransferEvent portSpeed received = some result ∧
      s' = { s with reports := s.reports ++ [report] }.handled result := by
  simp only [step, Option.bind_eq_bind, Option.bind_eq_some_iff, Option.guard_eq_some', Option.pure_def,
    Option.some_inj, exists_and_left, exists_const] at stepped
  rcases stepped with ⟨t, found, short, received, completed, result, handled, rfl⟩
  exact ⟨t, received, result, found, short, completed, handled, rfl⟩

theorem step_lose {i : Nat} (stepped : s.step heap rounds (.lose i) = some s') :
    i < s.connection.interrupts.length ∧
      s' = { s with lost := s.lost + 1 }.handled
        ({ s.connection with interrupts := s.connection.interrupts.eraseIdx i }, .transferFailed) := by
  simp only [step, Option.bind_eq_bind, Option.bind_eq_some_iff, Option.guard_eq_some', Option.pure_def,
    Option.some_inj, exists_and_left, exists_const] at stepped
  exact ⟨stepped.1, stepped.2.symm⟩

end Bus
end Mikanos.Usb
