import Mikanos.Usb.Handlers

/-!
# A device from its first descriptor to its last report

Whatever the device answers, in whatever order events come, and however long they go on: a device
passes through its stages in one direction, the requests that have been issued tell the stage,
and a driver that works waits for one report at a time.
-/

namespace Mikanos.Usb

open Transition

namespace DriverKind

/-- A report is received: what is in the buffers, and what the observer has been told. -/
def receive (kind : DriverKind) (state : HIDBaseDriver × List Notification) (report : Report) :
    HIDBaseDriver × List Notification :=
  let buffers := state.1.transfer report
  ((buffers.onInterruptCompleted report.bytes.length).1, state.2 ++ kind.onDataReceived buffers)

def run (kind : DriverKind) (reports : List Report) : HIDBaseDriver × List Notification :=
  reports.foldl kind.receive (.initial, [])

theorem run_concat (kind : DriverKind) (reports : List Report) (report : Report) :
    kind.run (reports ++ [report]) = kind.receive (kind.run reports) report := by
  rw [run, List.foldl_append]
  rfl

/-- A keyboard tells of the keys of its reports. -/
theorem run_keyboard_eq (reports : List Report) :
    keyboard.run reports =
      ((Keyboard.run reports).driver, (Keyboard.run reports).notified.map .keyPush) := by
  induction reports using List.reverseRecOn with
  | nil => rfl
  | append_singleton reports report ih =>
      rw [run_concat, ih, Keyboard.run_concat]
      change (_, _ ++ _) = (_, List.map _ (_ ++ _))
      rw [List.map_append]
      rfl

/-- The move that a report of three bytes stands for. -/
def moveOf (report : Report) : Notification :=
  .mouseMove (report.bytes.getD 0 0) (report.bytes.getD 1 0).toInt8 (report.bytes.getD 2 0).toInt8

/-- A mouse tells of one move for each report. -/
theorem run_mouse_eq (reports : List Report) (full : ∀ report ∈ reports, report.bytes.length = 3) :
    (mouse.run reports).2 = reports.map moveOf := by
  induction reports using List.reverseRecOn with
  | nil => rfl
  | append_singleton reports report ih =>
      have whole := full report (List.mem_append_right _ (List.mem_singleton_self report))
      have before := ih fun report member => full report (List.mem_append_left _ member)
      rw [run_concat, List.map_append, ← before]
      have inRange (i : Nat) (lt : i < 3) (other : UInt8) :
          report.bytes.getD i other = report.bytes.getD i 0 := by
        rw [List.getD_eq_getElem _ _ (whole ▸ lt), List.getD_eq_getElem _ _ (whole ▸ lt)]
      change _ ++ [Notification.mouseMove (report.bytes.getD 0 _) (report.bytes.getD 1 _).toInt8
        (report.bytes.getD 2 _).toInt8] = _
      rw [inRange 0 (by decide), inRange 1 (by decide), inRange 2 (by decide)]
      rfl

end DriverKind

/-- The requests up to the one that sets the configuration. -/
def enumeration (configValue : UInt8) : List SetupData :=
  [getDescriptorData DeviceDescriptor.kType 0, getDescriptorData ConfigurationDescriptor.kType 0,
    DescriptorBuffer.setConfigurationData configValue]

/-- A request of a class driver has been answered. -/
def Started (answered : List Nat) : Prop :=
  ∃ i ∈ answered, 3 ≤ i

instance (answered : List Nat) : Decidable (Started answered) :=
  inferInstanceAs (Decidable (∃ i ∈ answered, 3 ≤ i))

/-! ## Stages -/

/-- No class driver has issued anything. -/
structure Quiet (c : Connection) (reports : List Report) (lost : Nat) : Prop where
  waiters : c.base.eventWaiters.HoldsFirst []
  interrupts : c.interrupts = []
  reports : reports = []
  lost : lost = 0

/-- The device is asked for a descriptor: its own, or that of its configuration. -/
structure Asking (n : Nat) (c : Connection) (answered : List Nat) : Prop where
  initializePhase : c.device.initializePhase = n
  bounds : n = 1 ∨ n = 2
  requests : c.device.requests = (enumeration 0).take n
  first : n = 2 → 0 ∈ answered
  isInitialized : c.base.isInitialized = false
  classDrivers : c.device.classDrivers = fun _ => none
  portPhase : c.portPhase = .initializingDevice

/-- A configuration is being set for a driver. -/
structure Selected (configValue : UInt8) (driver : HIDDriver) (c : Connection) (answered : List Nat) :
    Prop where
  initializePhase : c.device.initializePhase = 3
  requests : c.device.requests = enumeration configValue
  before : ∀ i < 2, i ∈ answered
  open_ : 2 ∉ answered
  isInitialized : c.base.isInitialized = false
  entered : Entered c.device driver
  new : Used c.device driver → c.drivers driver.address = .new driver.kind
  portPhase : c.portPhase = .initializingDevice

/-- All endpoints of the interface have a transfer ring. -/
def HasRings (c : Connection) : Prop :=
  ∀ i < c.device.numEpConfigs, (c.device.epConfigs i).epId.addr ≠ 0 ∧
    c.transferRings (c.device.epConfigs i).epId.addr = true

/-- The device is initialised, and its endpoints are to be configured. -/
structure Ready (configValue : UInt8) (driver : HIDDriver) (c : Connection) (answered : List Nat) :
    Prop where
  requests : c.device.requests = enumeration configValue
  before : ∀ i < 3, i ∈ answered
  isInitialized : c.base.isInitialized = true
  entered : Entered c.device driver
  endpoints : Used c.device driver → Connection.Endpoints c.device driver (c.drivers driver.address)
  portPhase : c.portPhase = .initializingDevice ∨ c.portPhase = .configuringEndpoints ∧ HasRings c

/-- What a driver that is used does. -/
structure Working (driver : HIDDriver) (c : Connection) (answered : List Nat) (reports : List Report) :
    Prop where
  kind : (c.drivers driver.address).kind = driver.kind
  epInterruptIn : (c.drivers driver.address).epInterruptIn.addr = 0 ∧ ¬ Started answered ∨
    ∃ i < c.device.numEpConfigs, (c.device.epConfigs i).epType = .interrupt ∧
      (c.device.epConfigs i).epId.isIn = true ∧
      (c.drivers driver.address).epInterruptIn = (c.device.epConfigs i).epId
  initializePhase : (c.drivers driver.address).initializePhase = if Started answered then 2 else 1
  state : ((c.drivers driver.address).buffers, (c.drivers driver.address).told) = driver.kind.run reports

/-- The transfers on the rings for interrupts. -/
def expected (driver : HIDDriver) (c : Connection) (answered : List Nat) (lost : Nat) :
    List InterruptTransfer :=
  if Started answered ∧ lost = 0 then
    [⟨(c.drivers driver.address).epInterruptIn, driver.address, driver.kind.inPacketSize⟩]
  else []

/-- The endpoints are configured, and the driver is at work. -/
structure Configured (configValue : UInt8) (driver : HIDDriver) (c : Connection) (answered : List Nat)
    (reports : List Report) (lost : Nat) : Prop where
  requests : c.device.requests = enumeration configValue ++
    List.replicate (Connection.uses c.device) (setProtocolData driver.interfaceIndex)
  before : ∀ i < 3, i ∈ answered
  isInitialized : c.base.isInitialized = true
  entered : Entered c.device driver
  rings : HasRings c
  portPhase : c.portPhase = .configured
  waiters : c.base.eventWaiters.HoldsFirst (List.replicate (Connection.uses c.device)
    (setProtocolData driver.interfaceIndex, driver.address))
  working : Used c.device driver → Working driver c answered reports
  unheard : ¬ Started answered → reports = [] ∧ lost = 0
  interrupts : c.interrupts = expected driver c answered lost

/-- The stages of a device. -/
inductive Stage (c : Connection) (answered : List Nat) (reports : List Report) (lost : Nat) : Prop
  | asking {n : Nat} : Quiet c reports lost → Asking n c answered → Stage c answered reports lost
  | selected {configValue : UInt8} {driver : HIDDriver} : Quiet c reports lost →
      Selected configValue driver c answered → Stage c answered reports lost
  | ready {configValue : UInt8} {driver : HIDDriver} : Quiet c reports lost →
      Ready configValue driver c answered → Stage c answered reports lost
  | configured {configValue : UInt8} {driver : HIDDriver} :
      Configured configValue driver c answered reports lost → Stage c answered reports lost

/-- What `OnEvent` may return. -/
def Foreseen (e : Error) : Prop :=
  e = .success ∨ e = .invalidPhase ∨ e = .transferFailed ∨ e = .unknownXHCISpeedID ∨ e = .notImplemented

/-- What holds of a device at any time. -/
structure Coherent (s : Bus) : Prop where
  bounded : ∀ i ∈ s.answered, i < s.connection.device.requests.length
  results : ∀ e ∈ s.results, Foreseen e
  stage : Stage s.connection s.answered s.reports s.lost

theorem coherent_plugged (allocPtr : Nat) : Coherent (.plugged allocPtr) where
  bounded := fun _ member => absurd member List.not_mem_nil
  results := fun _ member => absurd member List.not_mem_nil
  stage := @Stage.asking _ _ _ _ 1 ⟨ArrayMap.holdsFirst_empty, rfl, rfl, rfl⟩
    ⟨rfl, .inl rfl, rfl, fun two => absurd two (by decide), rfl, rfl, rfl⟩

/-- The requests of a device are issued in order, each after the one before has been answered. -/
structure InOrder (s : Bus) : Prop where
  requests : ∃ configValue interfaceIndex, s.connection.device.requests <+:
    enumeration configValue ++ List.replicate 16 (setProtocolData interfaceIndex)
  oneByOne : ∀ i < 3, i + 1 < s.connection.device.requests.length → i ∈ s.answered
  isInitialized : s.connection.base.isInitialized = true ↔ 2 ∈ s.answered
  portPhase : 3 < s.connection.device.requests.length → s.connection.portPhase = .configured

/-- A driver waits for one report at a time, and passes on what it has received. -/
structure Polls (s : Bus) (driver : HIDDriver) : Prop where
  only : ∀ n driver', s.connection.device.classDrivers n = some driver' → driver' = driver
  interrupts : s.connection.interrupts = expected driver s.connection s.answered s.lost
  endpoint : Started s.answered → ∃ i < s.connection.device.numEpConfigs,
    (s.connection.device.epConfigs i).epType = .interrupt ∧
    (s.connection.device.epConfigs i).epId.isIn = true ∧
    (s.connection.drivers driver.address).epInterruptIn = (s.connection.device.epConfigs i).epId
  silent : ¬ Started s.answered → s.reports = []
  keyboard : Started s.answered → driver.kind = .keyboard →
    (s.connection.drivers driver.address).told = (Keyboard.run s.reports).notified.map .keyPush ∧
      (Keyboard.run s.reports).Reconstructs
  mouse : Started s.answered → driver.kind = .mouse → (∀ report ∈ s.reports, report.bytes.length = 3) →
    (s.connection.drivers driver.address).told = s.reports.map DriverKind.moveOf
  results : ∀ e ∈ s.results, e ≠ .noWaiter ∧ e ≠ .transferRingNotSet

/-! ## One event -/

/-- An event leads to a stage. -/
structure Leads (c : Connection) (result : Connection × Error) (answered : List Nat)
    (reports : List Report) (lost : Nat) : Prop where
  stage : Stage result.1 answered reports lost
  foreseen : Foreseen result.2
  grows : c.device.requests.length ≤ result.1.device.requests.length

section

variable {heap : DriverHeap} {rounds portSpeed i : Nat} {b : DescriptorBuffer} {c : Connection}
  {setupData : SetupData} {answered : List Nat} {reports : List Report} {lost : Nat}
  {received result : Connection × Error} {configValue : UInt8} {driver : HIDDriver}

/-- Only a device that has just been initialised has its endpoints configured. -/
theorem onTransferEvent_of_not
    (no : ¬ (received.1.base.isInitialized ∧ received.1.portPhase = .initializingDevice))
    (event : Connection.onTransferEvent portSpeed received = some result) : result = received := by
  rw [Connection.onTransferEvent] at event
  by_cases success : received.2 = .success
  · rw [if_neg (not_not.mpr success), if_neg no, ← success] at event
    cases event
    rfl
  · rw [if_pos success] at event
    cases event
    rfl

theorem onTransferEvent_of_initializing (initializing : received.1.base.isInitialized = false)
    (event : Connection.onTransferEvent portSpeed received = some result) : result = received :=
  onTransferEvent_of_not (fun done => absurd done.1 (by rw [initializing]; decide)) event

theorem configureEndpoints_cases (configured : c.configureEndpoints portSpeed = some result) :
    result = (c, .unknownXHCISpeedID) ∨ ∃ transferRings,
      result = ({ c with transferRings, portPhase := .configuringEndpoints }, .success) ∧
      HasRings { c with transferRings, portPhase := .configuringEndpoints } := by
  rw [Connection.configureEndpoints] at configured
  split at configured
  · cases configured
    exact .inl rfl
  · split at configured
    · cases configured
    · rename_i nonzero
      cases configured
      refine .inr ⟨_, rfl, fun i inRange => ⟨fun zero => nonzero ⟨i, inRange, zero⟩, ?_⟩⟩
      rw [Bool.or_eq_true]
      exact .inr (decide_eq_true ⟨i, inRange, rfl⟩)

theorem onControlCompleted_of_initializing (initializing : c.base.isInitialized = false) :
    c.onControlCompleted heap rounds setupData b = c.onInitializing heap rounds setupData b := by
  rw [Connection.onControlCompleted, Device.onControlCompleted, initializing, if_neg Bool.false_ne_true]

/-- Of the requests for descriptors, the last is outstanding. -/
theorem Asking.last {n : Nat} (asking : Asking n c answered) (open_ : i ∉ answered)
    (found : c.device.requests[i]? = some setupData) :
    i + 1 = n ∧ setupData.request = 6 := by
  rw [asking.requests] at found
  rcases asking.bounds with rfl | rfl
  · match i, found with
    | 0, found =>
        cases found
        exact ⟨rfl, rfl⟩
  · match i, found with
    | 0, found => exact absurd (asking.first rfl) open_
    | 1, found =>
        cases found
        exact ⟨rfl, rfl⟩

/-- The fields that class drivers have to do with stay as they are. -/
theorem Quiet.with {device : InitDevice} {numConfigurations configIndex : UInt8}
    {drivers : ClassDriver → BootDriver} {portPhase : Xhci.ConfigPhase} {transferRings : Nat → Bool}
    {isInitialized : Bool} (quiet : Quiet c reports lost) :
    Quiet { c with
      base := { c.base with isInitialized }
      device, numConfigurations, configIndex, drivers, portPhase, transferRings } reports lost :=
  ⟨quiet.waiters, quiet.interrupts, quiet.reports, quiet.lost⟩

theorem Asking.more {n : Nat} (asking : Asking n c answered) (i : Nat) :
    Asking n c (answered ++ [i]) :=
  { asking with first := fun two => List.mem_append_left _ (asking.first two) }

/-- A driver has been entered, and the configuration is being set. -/
theorem Asking.selects {d' : InitDevice} (asking : Asking 2 c answered) (first : 0 ∈ answered)
    (second : i = 1) (bounded : ∀ i ∈ answered, i < 2) (entered : Entered d' driver)
    (b : DescriptorBuffer) :
    Selected (b.bytes 5) driver { c with
      device := { d' with
        initializePhase := 3
        requests := c.device.requests ++ [DescriptorBuffer.setConfigurationData (b.bytes 5)] }
      drivers := Connection.newDrivers { d' with
        initializePhase := 3
        requests := c.device.requests ++ [DescriptorBuffer.setConfigurationData (b.bytes 5)] } c.drivers }
      (answered ++ [i]) where
  initializePhase := rfl
  requests := by
    change c.device.requests ++ _ = _
    rw [asking.requests]
    rfl
  before := by
    intro j small
    rw [List.mem_append, List.mem_singleton]
    rcases Nat.le_one_iff_eq_zero_or_eq_one.mp (Nat.le_of_lt_succ small) with rfl | rfl
    · exact .inl first
    · exact .inr second.symm
  open_ := by
    intro member
    rcases List.mem_append.mp member with old | new
    · exact absurd (bounded 2 old) (by decide)
    · rw [second, List.mem_singleton] at new
      exact absurd new (by decide)
  isInitialized := asking.isInitialized
  entered := ⟨entered.only, entered.configs⟩
  new := fun used => Connection.newDrivers_of_entered ⟨entered.only, entered.configs⟩ used c.drivers
  portPhase := asking.portPhase

/-- A descriptor is answered. -/
theorem Asking.answer {n : Nat} (quiet : Quiet c reports lost) (asking : Asking n c answered)
    (bounded : ∀ i ∈ answered, i < c.device.requests.length) (open_ : i ∉ answered)
    (found : c.device.requests[i]? = some setupData)
    (completed : c.onControlCompleted heap rounds setupData b = some received)
    (event : Connection.onTransferEvent portSpeed received = some result) :
    Leads c result (answered ++ [i]) reports lost := by
  rcases asking.last open_ found with ⟨last, request⟩
  rw [onControlCompleted_of_initializing asking.isInitialized, Connection.onInitializing,
    asking.initializePhase] at completed
  have refused (is : received = (c, .invalidPhase)) : Leads c result (answered ++ [i]) reports lost := by
    cases is
    rw [onTransferEvent_of_initializing asking.isInitialized event]
    exact ⟨.asking quiet (asking.more i), .inr (.inl rfl), le_rfl⟩
  rcases asking.bounds with rfl | rfl
  · rw [if_pos rfl] at completed
    split at completed
    · cases completed
      rw [onTransferEvent_of_initializing asking.isInitialized event]
      have requests : (c.initializePhase1 b).1.device.requests = (enumeration 0).take 2 := by
        change c.device.requests ++ _ = _
        rw [asking.requests]
        rfl
      refine ⟨@Stage.asking _ _ _ _ 2 quiet.with ⟨rfl, .inr rfl, requests, fun _ => ?_,
        asking.isInitialized, asking.classDrivers, asking.portPhase⟩, .inl rfl, ?_⟩
      · rw [Nat.succ_injective last]
        exact List.mem_append_right _ (List.mem_singleton_self 0)
      · rw [requests, asking.requests]
        decide
    · cases completed
      exact refused rfl
  · rw [if_neg (by decide), if_pos rfl] at completed
    split at completed
    · rename_i isConfiguration
      rcases Option.bind_eq_some_iff.mp completed with ⟨selected, parsed, made⟩
      cases made
      rcases DescriptorBuffer.entered_initializePhase2 asking.classDrivers isConfiguration.2 parsed with
        rfl | ⟨d', driver, rfl, entered⟩
      · rw [onTransferEvent_of_initializing asking.isInitialized event]
        have more := asking.more i
        exact ⟨@Stage.asking _ _ _ _ 2 quiet.with ⟨more.initializePhase, more.bounds, more.requests,
          more.first, more.isInitialized, more.classDrivers, more.portPhase⟩, .inl rfl, le_rfl⟩
      · rw [onTransferEvent_of_initializing asking.isInitialized event]
        rw [asking.requests] at bounded
        have selected := asking.selects (asking.first rfl) (Nat.succ_injective last) bounded entered b
        refine ⟨.selected quiet.with selected, .inl rfl, ?_⟩
        rw [selected.requests, asking.requests]
        exact Nat.le_succ 2
    · cases completed
      exact refused rfl

/-- The configuration has been set. -/
theorem Selected.answer (quiet : Quiet c reports lost)
    (selected : Selected configValue driver c answered)
    (open_ : i ∉ answered) (found : c.device.requests[i]? = some setupData)
    (completed : c.onControlCompleted heap rounds setupData b = some received)
    (event : Connection.onTransferEvent portSpeed received = some result) :
    Leads c result (answered ++ [i]) reports lost := by
  have last : i = 2 ∧ setupData = DescriptorBuffer.setConfigurationData configValue := by
    rw [selected.requests] at found
    match i, found with
    | 0, found => exact absurd (selected.before 0 (by decide)) open_
    | 1, found => exact absurd (selected.before 1 (by decide)) open_
    | 2, found =>
        cases found
        exact ⟨rfl, rfl⟩
  rcases last with ⟨rfl, rfl⟩
  have request : (DescriptorBuffer.setConfigurationData configValue).request = 9 := rfl
  rw [onControlCompleted_of_initializing selected.isInitialized, Connection.onInitializing,
    selected.initializePhase, if_neg (by decide), if_neg (by decide), if_pos rfl,
    if_pos request] at completed
  rcases Option.bind_eq_some_iff.mp completed with ⟨drivers, set, made⟩
  cases made
  have before : ∀ j < 3, j ∈ answered ++ [2] := by
    intro j small
    rw [List.mem_append, List.mem_singleton]
    rcases Nat.lt_succ_iff_lt_or_eq.mp small with lt | eq
    · exact .inl (selected.before j lt)
    · exact .inr eq
  have endpoints (used : Used c.device driver) :
      Connection.Endpoints c.device driver (drivers driver.address) := by
    refine Connection.endpoints_of_setEndpoints selected.entered
      (fun i member => List.mem_range.mp member) ?_ set
    rw [selected.new used]
    exact ⟨rfl, rfl, rfl, .inl rfl⟩
  have entered : Entered { c.device with initializePhase := 4 } driver :=
    ⟨selected.entered.only, selected.entered.configs⟩
  have endpoints' (used : Used { c.device with initializePhase := 4 } driver) :
      Connection.Endpoints { c.device with initializePhase := 4 } driver (drivers driver.address) := by
    have own := endpoints used
    exact ⟨own.kind, own.buffers, own.told, own.epInterruptIn⟩
  rw [Connection.onTransferEvent, if_neg (not_not.mpr rfl), if_pos ⟨rfl, selected.portPhase⟩] at event
  rcases configureEndpoints_cases event with rfl | ⟨transferRings, rfl, rings⟩
  · exact ⟨.ready quiet.with
      ⟨selected.requests, before, rfl, entered, endpoints', .inl selected.portPhase⟩,
      .inr (.inr (.inr (.inl rfl))), le_rfl⟩
  · exact ⟨.ready quiet.with ⟨selected.requests, before, rfl, entered, endpoints', .inr ⟨rfl, rings⟩⟩,
      .inl rfl, le_rfl⟩

/-! ## The driver at work -/

/-- The ring of the driver is there. -/
theorem interruptIn_of_rings {buf : ClassDriver} {len : Nat} {epId : EndpointID} (rings : HasRings c)
    (endpoint : epId.addr = 0 ∨ ∃ i < c.device.numEpConfigs, (c.device.epConfigs i).epType = .interrupt ∧
      (c.device.epConfigs i).epId.isIn = true ∧ epId = (c.device.epConfigs i).epId)
    (issued : c.interruptIn epId buf len = some result) :
    (∃ i < c.device.numEpConfigs, (c.device.epConfigs i).epType = .interrupt ∧
      (c.device.epConfigs i).epId.isIn = true ∧ epId = (c.device.epConfigs i).epId) ∧
    result = ({ c with interrupts := c.interrupts ++ [⟨epId, buf, len⟩] }, .success) := by
  rw [Connection.interruptIn] at issued
  split at issued
  · cases issued
  · rename_i nonzero
    rcases endpoint with zero | ⟨i, inRange, isInterrupt, isIn, rfl⟩
    · exact absurd zero nonzero
    · rw [if_pos (rings i inRange).2] at issued
      cases issued
      exact ⟨⟨i, inRange, isInterrupt, isIn, rfl⟩, rfl⟩

theorem started_append (answered : List Nat) {i : Nat} (le : 3 ≤ i) : Started (answered ++ [i]) :=
  ⟨i, List.mem_append_right _ (List.mem_singleton_self i), le⟩

/-- The endpoints have been configured. -/
theorem Ready.configure (quiet : Quiet c reports lost) (ready : Ready configValue driver c answered)
    (bounded : ∀ i ∈ answered, i < c.device.requests.length) (rings : HasRings c) :
    Configured configValue driver { c.onEndpointsConfigured with portPhase := .configured } answered
      reports lost := by
  have protocolled := Connection.protocolled_onEndpointsConfigured ready.entered quiet.waiters
  have uses : Connection.uses c.onEndpointsConfigured.device = Connection.uses c.device := by
    rw [protocolled.device]
    rfl
  have notStarted : ¬ Started answered := by
    rintro ⟨i, member, le⟩
    have small := bounded i member
    rw [ready.requests] at small
    exact absurd small (Nat.not_lt.mpr le)
  constructor
  · change c.onEndpointsConfigured.device.requests = _
    rw [uses, protocolled.device, ready.requests]
  · exact ready.before
  · exact protocolled.isInitialized.trans ready.isInitialized
  · change Entered c.onEndpointsConfigured.device driver
    rw [protocolled.device]
    exact ⟨ready.entered.only, ready.entered.configs⟩
  · intro i inRange
    change (c.onEndpointsConfigured.device.epConfigs i).epId.addr ≠ 0 ∧
      c.onEndpointsConfigured.transferRings (c.onEndpointsConfigured.device.epConfigs i).epId.addr = true
    change i < c.onEndpointsConfigured.device.numEpConfigs at inRange
    rw [protocolled.device] at inRange
    rw [protocolled.device, protocolled.transferRings]
    exact rings i inRange
  · rfl
  · change c.onEndpointsConfigured.base.eventWaiters.HoldsFirst
      (List.replicate (Connection.uses c.onEndpointsConfigured.device) _)
    rw [uses]
    exact protocolled.waiters
  · intro used
    have used' : Used c.device driver := by
      change Used c.onEndpointsConfigured.device driver at used
      rw [protocolled.device] at used
      exact used
    have endpoints := ready.endpoints used'
    have driverEq := protocolled.driver
    rw [if_neg (Nat.pos_iff_ne_zero.mp (Connection.uses_pos ready.entered used'))] at driverEq
    constructor
    · change (c.onEndpointsConfigured.drivers driver.address).kind = _
      rw [driverEq]
      exact endpoints.kind
    · change (c.onEndpointsConfigured.drivers driver.address).epInterruptIn.addr = 0 ∧ _ ∨
        ∃ i < c.onEndpointsConfigured.device.numEpConfigs,
          (c.onEndpointsConfigured.device.epConfigs i).epType = .interrupt ∧
          (c.onEndpointsConfigured.device.epConfigs i).epId.isIn = true ∧
          (c.onEndpointsConfigured.drivers driver.address).epInterruptIn =
            (c.onEndpointsConfigured.device.epConfigs i).epId
      rw [driverEq, protocolled.device]
      exact endpoints.epInterruptIn.imp_left fun zero => ⟨zero, notStarted⟩
    · change (c.onEndpointsConfigured.drivers driver.address).initializePhase = _
      rw [driverEq, if_neg notStarted]
    · change ((c.onEndpointsConfigured.drivers driver.address).buffers,
        (c.onEndpointsConfigured.drivers driver.address).told) = _
      rw [driverEq, quiet.reports]
      change ((c.drivers driver.address).buffers, (c.drivers driver.address).told) = _
      rw [endpoints.buffers, endpoints.told]
      rfl
  · exact fun _ => ⟨quiet.reports, quiet.lost⟩
  · rw [expected, if_neg fun both => notStarted both.1]
    exact protocolled.interrupts.trans quiet.interrupts

/-- Only requests of the driver are outstanding. -/
theorem Configured.last (configured : Configured configValue driver c answered reports lost)
    (open_ : i ∉ answered) (found : c.device.requests[i]? = some setupData) :
    3 ≤ i ∧ 0 < Connection.uses c.device ∧ setupData = setProtocolData driver.interfaceIndex := by
  have le : 3 ≤ i := by
    by_contra lt
    exact open_ (configured.before i (Nat.lt_of_not_le lt))
  rw [configured.requests, List.getElem?_append_right le, List.getElem?_replicate] at found
  split at found
  · cases found
    exact ⟨le, Nat.zero_lt_of_lt (by assumption), rfl⟩
  · cases found

/-- The driver is the waiter for its request, however often it is entered. -/
theorem Configured.waiter (configured : Configured configValue driver c answered reports lost)
    (uses_pos : 0 < Connection.uses c.device) :
    c.base.onControlCompleted (setProtocolData driver.interfaceIndex) = .classDriver driver.address := by
  rw [Device.onControlCompleted, configured.isInitialized, if_pos rfl, configured.waiters.get]
  rcases Nat.exists_eq_add_of_le' uses_pos with ⟨more, same⟩
  rw [same, List.replicate_succ, List.take_succ_cons, List.find?_cons_of_pos (by simp)]
  rfl

/-- A driver that has started is used. -/
theorem Configured.used (configured : Configured configValue driver c answered reports lost)
    (bounded : ∀ i ∈ answered, i < c.device.requests.length) (started : Started answered) :
    Used c.device driver := by
  rcases started with ⟨i, member, le⟩
  have inRange := bounded i member
  rw [configured.requests, List.length_append, List.length_replicate] at inRange
  exact Connection.used_of_uses configured.entered
    (Nat.pos_of_lt_add_right (Nat.lt_of_le_of_lt le inRange))

/-- The driver waits for the next report. -/
theorem Configured.again {answered' : List Nat} {reports' : List Report}
    (configured : Configured configValue driver c answered reports lost)
    (drivers : ClassDriver → BootDriver) (used : Used c.device driver)
    (started : Started answered') (before : ∀ j < 3, j ∈ answered')
    (kind : (drivers driver.address).kind = driver.kind)
    (same : (drivers driver.address).epInterruptIn = (c.drivers driver.address).epInterruptIn)
    (initializePhase : (drivers driver.address).initializePhase = 2)
    (state : ((drivers driver.address).buffers, (drivers driver.address).told) = driver.kind.run reports')
    (none_lost : lost = 0)
    (issued : Connection.interruptIn { c with interrupts := [], drivers }
      (c.drivers driver.address).epInterruptIn driver.address driver.kind.inPacketSize = some received)
    (event : Connection.onTransferEvent portSpeed received = some result) :
    Leads c result answered' reports' lost := by
  have working := configured.working used
  rcases interruptIn_of_rings (c := { c with interrupts := [], drivers }) configured.rings
    (working.epInterruptIn.imp_left And.left) issued with ⟨endpoint, rfl⟩
  rw [onTransferEvent_of_not (fun done => by
    have portPhase := configured.portPhase.symm.trans done.2
    cases portPhase) event]
  refine ⟨@Stage.configured _ _ _ _ configValue driver ⟨configured.requests, before,
    configured.isInitialized, configured.entered, configured.rings, configured.portPhase,
    configured.waiters, fun _ => ⟨kind, ?_, ?_, state⟩, fun not => absurd started not, ?_⟩,
    .inl rfl, le_rfl⟩
  · right
    change ∃ i < c.device.numEpConfigs, _ ∧ _ ∧ (drivers driver.address).epInterruptIn = _
    rw [same]
    exact endpoint
  · rw [if_pos started]
    exact initializePhase
  · rw [expected, if_pos ⟨started, none_lost⟩]
    change [_] = [InterruptTransfer.mk (drivers driver.address).epInterruptIn _ _]
    rw [same]

/-- The protocol has been set. -/
theorem Configured.answer (configured : Configured configValue driver c answered reports lost)
    (open_ : i ∉ answered) (found : c.device.requests[i]? = some setupData)
    (completed : c.onControlCompleted heap rounds setupData b = some received)
    (event : Connection.onTransferEvent portSpeed received = some result) :
    Leads c result (answered ++ [i]) reports lost := by
  rcases configured.last open_ found with ⟨le, uses_pos, rfl⟩
  have used := Connection.used_of_uses configured.entered uses_pos
  have working := configured.working used
  have started := started_append answered le
  have before : ∀ j < 3, j ∈ answered ++ [i] := fun j small =>
    List.mem_append_left _ (configured.before j small)
  rw [Connection.onControlCompleted, configured.waiter uses_pos] at completed
  change c.driverControlCompleted driver.address = some received at completed
  rw [Connection.driverControlCompleted, working.initializePhase] at completed
  by_cases already : Started answered
  · rw [if_pos already, if_neg (by decide)] at completed
    cases completed
    rw [onTransferEvent_of_not (fun done => by
      have portPhase := configured.portPhase.symm.trans done.2
      cases portPhase) event]
    refine ⟨@Stage.configured _ _ _ _ configValue driver
      { configured with
        before
        working := fun _ => ?_
        unheard := fun not => absurd started not
        interrupts := ?_ }, ?_, le_rfl⟩
    · refine { working with epInterruptIn := ?_, initializePhase := ?_ }
      · exact .inr (working.epInterruptIn.resolve_left fun none => none.2 already)
      · rw [working.initializePhase, if_pos already, if_pos started]
    · rw [configured.interrupts, expected, expected]
      simp only [already, started]
    · exact .inr (.inr (.inr (.inr rfl)))
  · rw [if_neg already, if_pos rfl, working.kind] at completed
    have noInterrupts : c.interrupts = [] := by
      rw [configured.interrupts, expected, if_neg fun both => already both.1]
    refine configured.again (Function.update c.drivers driver.address
      { c.drivers driver.address with initializePhase := 2 }) used started before ?_ ?_ ?_ ?_
      (configured.unheard already).2 (noInterrupts ▸ completed) event
    · rw [Function.update_self]
      exact working.kind
    · rw [Function.update_self]
    · rw [Function.update_self]
    · rw [Function.update_self]
      exact working.state

/-- The transfer on the rings is the one that the driver waits for. -/
theorem Configured.transfer {t : InterruptTransfer}
    (configured : Configured configValue driver c answered reports lost)
    (found : c.interrupts[i]? = some t) :
    Started answered ∧ lost = 0 ∧ c.interrupts.eraseIdx i = [] ∧
      t = ⟨(c.drivers driver.address).epInterruptIn, driver.address, driver.kind.inPacketSize⟩ := by
  rw [configured.interrupts, expected] at found ⊢
  split at found
  · rename_i both
    rw [if_pos both]
    match i, found with
    | 0, found =>
        cases found
        exact ⟨both.1, both.2, rfl, rfl⟩
  · cases found

/-- A report has been received. -/
theorem Configured.report {t : InterruptTransfer} {report : Report}
    (configured : Configured configValue driver c answered reports lost)
    (bounded : ∀ i ∈ answered, i < c.device.requests.length) (found : c.interrupts[i]? = some t)
    (completed : (Bus.written { c with interrupts := c.interrupts.eraseIdx i } t
      report).onInterruptCompleted t.epId report.bytes.length = some received)
    (event : Connection.onTransferEvent portSpeed received = some result) :
    Leads c result answered (reports ++ [report]) lost := by
  rcases configured.transfer found with ⟨started, none_lost, noInterrupts, rfl⟩
  have used := configured.used bounded started
  have working := configured.working used
  rcases working.epInterruptIn with none | ⟨j, inRange, isInterrupt, isIn, endpoint⟩
  · exact absurd started none.2
  have entry : c.device.classDrivers (c.drivers driver.address).epInterruptIn.number = some driver := by
    rw [endpoint]
    exact configured.entered.configs j inRange
  have dirIn : (c.drivers driver.address).epInterruptIn.isIn = true := by rw [endpoint, isIn]
  have written : (Bus.written { c with interrupts := c.interrupts.eraseIdx i }
      ⟨(c.drivers driver.address).epInterruptIn, driver.address, driver.kind.inPacketSize⟩
      report).drivers
        driver.address =
      { c.drivers driver.address with
        buffers := (c.drivers driver.address).buffers.transfer report } :=
    Function.update_self ..
  have buffers : (c.drivers driver.address).buffers = (driver.kind.run reports).1 :=
    congrArg Prod.fst working.state
  have told : (c.drivers driver.address).told = (driver.kind.run reports).2 :=
    congrArg Prod.snd working.state
  replace completed := Connection.driverInterruptCompleted_of_some completed entry
  rw [Connection.driverInterruptCompleted, if_pos dirIn, written, noInterrupts] at completed
  change Connection.interruptIn _ (c.drivers driver.address).epInterruptIn _
    (c.drivers driver.address).kind.inPacketSize = _ at completed
  rw [working.kind] at completed
  refine configured.again _ used started configured.before ?_ ?_ ?_ ?_ none_lost completed event
  · rw [Function.update_self]
  · rw [Function.update_self]
  · rw [Function.update_self]
    exact working.initializePhase.trans (if_pos started)
  · rw [Function.update_self, DriverKind.run_concat, DriverKind.receive]
    change (_, (c.drivers driver.address).told ++ _) = _
    rw [told, ← buffers]

/-- A transfer has failed, and the driver does not wait any more. -/
theorem Configured.lose (configured : Configured configValue driver c answered reports lost)
    (inRange : i < c.interrupts.length) :
    Stage { c with interrupts := c.interrupts.eraseIdx i } answered reports (lost + 1) := by
  rcases configured.transfer (List.getElem?_eq_getElem inRange) with ⟨started, -, noInterrupts, -⟩
  refine @Stage.configured _ _ _ _ configValue driver ⟨configured.requests,
    configured.before, configured.isInitialized, configured.entered, configured.rings,
    configured.portPhase, configured.waiters, fun used => ?_, fun not => absurd started not, ?_⟩
  · have working := configured.working used
    exact ⟨working.kind, working.epInterruptIn, working.initializePhase, working.state⟩
  · rw [expected, if_neg fun both => Nat.succ_ne_zero lost both.2]
    exact noInterrupts

/-- The command to configure the endpoints completes, or one that nobody waits for. -/
theorem Stage.command (stage : Stage c answered reports lost)
    (bounded : ∀ i ∈ answered, i < c.device.requests.length) :
    Leads c c.onCommandCompletion answered reports lost := by
  have refused (other : c.portPhase ≠ .configuringEndpoints) :
      Leads c c.onCommandCompletion answered reports lost := by
    rw [Connection.onCommandCompletion, if_pos other]
    exact ⟨stage, .inr (.inl rfl), le_rfl⟩
  cases stage with
  | asking quiet asking => exact refused (by rw [asking.portPhase]; decide)
  | selected quiet selected => exact refused (by rw [selected.portPhase]; decide)
  | configured configured => exact refused (by rw [configured.portPhase]; decide)
  | @ready configValue driver quiet ready =>
      rcases ready.portPhase with init | ⟨configuring, rings⟩
      · exact refused (by rw [init]; decide)
      · have configured := ready.configure quiet bounded rings
        rw [Connection.onCommandCompletion, if_neg (not_not.mpr configuring)]
        refine ⟨.configured configured, .inl rfl, ?_⟩
        rw [configured.requests, ready.requests, List.length_append]
        exact Nat.le_add_right ..

/-- A control request is answered. -/
theorem Stage.answer (stage : Stage c answered reports lost)
    (bounded : ∀ i ∈ answered, i < c.device.requests.length) (open_ : i ∉ answered)
    (found : c.device.requests[i]? = some setupData)
    (completed : c.onControlCompleted heap rounds setupData b = some received)
    (event : Connection.onTransferEvent portSpeed received = some result) :
    Leads c result (answered ++ [i]) reports lost := by
  cases stage with
  | asking quiet asking => exact asking.answer quiet bounded open_ found completed event
  | selected quiet selected => exact selected.answer quiet open_ found completed event
  | ready quiet ready =>
      have inRange := (List.getElem?_eq_some_iff.mp found).1
      rw [ready.requests] at inRange
      exact absurd (ready.before i inRange) open_
  | configured configured => exact configured.answer open_ found completed event

/-- Before the driver is at work there are no transfers for it. -/
theorem Stage.transferring (stage : Stage c answered reports lost) (inRange : i < c.interrupts.length) :
    ∃ configValue driver, Configured configValue driver c answered reports lost := by
  have busy (quiet : Quiet c reports lost) : False := by
    rw [quiet.interrupts] at inRange
    exact absurd inRange (Nat.not_lt_zero i)
  cases stage with
  | asking quiet => exact (busy quiet).elim
  | selected quiet => exact (busy quiet).elim
  | ready quiet => exact (busy quiet).elim
  | configured configured => exact ⟨_, _, configured⟩

end

/-! ## Whole runs -/

section

variable {heap : DriverHeap} {rounds : Nat} {s s' : Bus}

/-- A handled event keeps what holds at any time. -/
theorem Leads.coherent {result : Connection × Error}
    (coherent : Coherent s) (leads : Leads s.connection result s'.answered s'.reports s'.lost)
    (results : s'.results = s.results)
    (bounded : ∀ i ∈ s'.answered, i < s.connection.device.requests.length) :
    Coherent (s'.handled result) where
  bounded := fun i member => Nat.lt_of_lt_of_le (bounded i member) leads.grows
  results := by
    intro e member
    change e ∈ s'.results ++ [result.2] at member
    rw [results] at member
    rcases List.mem_append.mp member with old | new
    · exact coherent.results e old
    · rw [List.mem_singleton.mp new]
      exact leads.foreseen
  stage := leads.stage

theorem Coherent.step {event : Bus.Event} (coherent : Coherent s)
    (stepped : s.step heap rounds event = some s') : Coherent s' := by
  cases event with
  | answer i b portSpeed =>
      rcases Bus.step_answer stepped with
        ⟨setupData, received, result, found, outstanding, completed, handled, rfl⟩
      refine Leads.coherent coherent (coherent.stage.answer coherent.bounded outstanding.2.1 found
        completed
        handled) rfl fun j member => ?_
      rcases List.mem_append.mp member with old | new
      · exact coherent.bounded j old
      · rw [List.mem_singleton.mp new]
        exact outstanding.1
  | fail i =>
      rcases Bus.step_fail stepped with ⟨-, rfl⟩
      have leads : Leads s.connection (s.connection, .transferFailed) s.answered s.reports s.lost :=
        ⟨coherent.stage, .inr (.inr (.inl rfl)), le_rfl⟩
      exact @Leads.coherent s _ _ coherent leads rfl coherent.bounded
  | report i report portSpeed =>
      rcases Bus.step_report stepped with ⟨t, received, result, found, -, completed, handled, rfl⟩
      rcases coherent.stage.transferring (List.getElem?_eq_some_iff.mp found).1 with
        ⟨configValue, driver, configured⟩
      exact Leads.coherent coherent (configured.report coherent.bounded found completed handled) rfl
        coherent.bounded
  | lose i =>
      rcases Bus.step_lose stepped with ⟨inRange, rfl⟩
      rcases coherent.stage.transferring inRange with ⟨configValue, driver, configured⟩
      have leads : Leads s.connection
          ({ s.connection with interrupts := s.connection.interrupts.eraseIdx i }, .transferFailed)
          s.answered s.reports (s.lost + 1) :=
        ⟨configured.lose inRange, .inr (.inr (.inl rfl)), le_rfl⟩
      exact @Leads.coherent s { s with lost := s.lost + 1 } _ coherent leads rfl coherent.bounded
  | configured =>
      cases stepped
      exact Leads.coherent coherent (coherent.stage.command coherent.bounded) rfl coherent.bounded

theorem coherent_of_run {allocPtr : Nat} {events : List Bus.Event}
    (run : Run (ofFunction (Bus.step heap rounds)) (.plugged allocPtr) events s) : Coherent s :=
  run.invariant (fun _ _ _ coherent stepped => coherent.step stepped) (coherent_plugged allocPtr)

theorem two_mem {answered : List Nat} (before : ∀ i < 3, i ∈ answered) : 2 ∈ answered :=
  before 2 (by decide)

/-- At any time the requests issued are a beginning of the same sequence. -/
theorem Coherent.inOrder (coherent : Coherent s) : InOrder s := by
  have bounded := coherent.bounded
  cases coherent.stage with
  | @asking n quiet asking =>
      rw [asking.requests] at bounded
      have few : ((enumeration 0).take n).length = n := by rcases asking.bounds with rfl | rfl <;> rfl
      have le : n ≤ 2 := by rcases asking.bounds with rfl | rfl <;> decide
      constructor
      · rw [asking.requests]
        exact ⟨0, 0, (List.take_prefix n _).trans (List.prefix_append ..)⟩
      · intro i _ issued
        rw [asking.requests, few] at issued
        rcases asking.bounds with rfl | rfl
        · exact absurd issued (by omega)
        · rw [Nat.lt_one_iff.mp (Nat.lt_of_succ_lt_succ issued)]
          exact asking.first rfl
      · rw [asking.isInitialized]
        constructor
        · rintro ⟨⟩
        · intro member
          have small := bounded 2 member
          rw [few] at small
          exact absurd small (Nat.not_lt.mpr le)
      · intro many
        rw [asking.requests, few] at many
        exact absurd many (by omega)
  | @selected configValue driver quiet selected =>
      constructor
      · rw [selected.requests]
        exact ⟨configValue, 0, List.prefix_append ..⟩
      · intro i _ issued
        rw [selected.requests] at issued
        exact selected.before i (Nat.lt_of_succ_lt_succ issued)
      · rw [selected.isInitialized]
        exact ⟨fun no => absurd no (by decide), fun member => absurd member selected.open_⟩
      · intro many
        rw [selected.requests] at many
        exact absurd many (Nat.lt_irrefl 3)
  | @ready configValue driver quiet ready =>
      constructor
      · rw [ready.requests]
        exact ⟨configValue, 0, List.prefix_append ..⟩
      · exact fun i small _ => ready.before i small
      · exact iff_of_true ready.isInitialized (two_mem ready.before)
      · intro many
        rw [ready.requests] at many
        exact absurd many (Nat.lt_irrefl 3)
  | @configured configValue driver configured =>
      constructor
      · refine ⟨configValue, driver.interfaceIndex, ?_⟩
        rw [configured.requests, List.prefix_append_right_inj, List.prefix_replicate_iff]
        refine ⟨?_, ?_⟩
        · rw [List.length_replicate]
          exact (List.length_filter_le ..).trans (List.length_range ..).le
        · rw [List.length_replicate]
      · exact fun i small _ => configured.before i small
      · exact iff_of_true configured.isInitialized (two_mem configured.before)
      · exact fun _ => configured.portPhase

/-- Whatever a device answers, its requests are issued in order. -/
theorem inOrder_of_run {allocPtr : Nat} {events : List Bus.Event}
    (run : Run (ofFunction (Bus.step heap rounds)) (.plugged allocPtr) events s) : InOrder s :=
  (coherent_of_run run).inOrder

/-- The descriptor of a device with one configuration. -/
def deviceDescriptor : DescriptorBuffer where
  bytes := fun i => [18, 1, 0, 2, 0, 0, 0, 64, 0, 0, 0, 0, 0, 0, 0, 0, 0, 1].getD i 0
  len := 18

/-- A keyboard is plugged in, and a key is pressed. -/
def keyPressed : List Bus.Event :=
  [.answer 0 deviceDescriptor 3, .answer 1 DescriptorBuffer.keyboardConfiguration 3,
    .answer 2 deviceDescriptor 3, .configured, .answer 3 deviceDescriptor 3,
    .report 0 ⟨[0, 0, 4, 0, 0, 0, 0, 0], by decide⟩ 3]

theorem inOrder_of_run_keyPressed : ∃ s,
    Run (ofFunction (Bus.step DescriptorBuffer.plainHeap 5)) (.plugged 0x100000) keyPressed s ∧
      InOrder s := by
  have isSome : (execute (Bus.step DescriptorBuffer.plainHeap 5) (.plugged 0x100000)
      keyPressed).isSome = true := by
    decide
  rcases Option.isSome_iff_exists.mp isSome with ⟨s, executed⟩
  have run := (execute_eq_some_iff _ _ _ s).mp executed
  exact ⟨s, run, inOrder_of_run run⟩

theorem Foreseen.delivered {e : Error} (foreseen : Foreseen e) :
    e ≠ .noWaiter ∧ e ≠ .transferRingNotSet := by
  rcases foreseen with rfl | rfl | rfl | rfl | rfl <;> exact ⟨by decide, by decide⟩

/-- Before the driver has started there is nothing to say of it. -/
theorem polls_of_quiet {driver : HIDDriver} (coherent : Coherent s)
    (quiet : Quiet s.connection s.reports s.lost) (notStarted : ¬ Started s.answered)
    (only : ∀ n driver', s.connection.device.classDrivers n = some driver' → driver' = driver) :
    Polls s driver where
  only := only
  interrupts := by
    rw [quiet.interrupts, expected, if_neg fun both => notStarted both.1]
  endpoint := fun started => absurd started notStarted
  silent := fun _ => quiet.reports
  keyboard := fun started => absurd started notStarted
  mouse := fun started => absurd started notStarted
  results := fun e member => (coherent.results e member).delivered

theorem Coherent.notStarted (coherent : Coherent s) (few : s.connection.device.requests.length ≤ 3) :
    ¬ Started s.answered := by
  rintro ⟨i, member, le⟩
  exact absurd (coherent.bounded i member) (Nat.not_lt.mpr (few.trans le))

/-- Whatever happens on the bus, at most one driver is at work, and it waits for one report at a
time until a transfer fails. -/
theorem polls_of_run {allocPtr : Nat} {events : List Bus.Event}
    (run : Run (ofFunction (Bus.step heap rounds)) (.plugged allocPtr) events s) :
    ∃ driver, Polls s driver := by
  have coherent := coherent_of_run run
  cases coherent.stage with
  | @asking n quiet asking =>
      have few : s.connection.device.requests.length ≤ 3 := by
        rw [asking.requests]
        exact (List.length_take_le' ..)
      refine ⟨⟨0, .keyboard, 0⟩, polls_of_quiet coherent quiet (coherent.notStarted few) ?_⟩
      intro k driver' found
      rw [asking.classDrivers] at found
      cases found
  | @selected configValue driver quiet selected =>
      exact ⟨driver, polls_of_quiet coherent quiet
        (coherent.notStarted (by rw [selected.requests]; exact le_rfl))
        fun n driver' found => (selected.entered.only n driver' found).1⟩
  | @ready configValue driver quiet ready =>
      exact ⟨driver, polls_of_quiet coherent quiet
        (coherent.notStarted (by rw [ready.requests]; exact le_rfl))
        fun n driver' found => (ready.entered.only n driver' found).1⟩
  | @configured configValue driver configured =>
      have working (started : Started s.answered) :=
        configured.working (configured.used coherent.bounded started)
      have told (started : Started s.answered) :
          (s.connection.drivers driver.address).told = (driver.kind.run s.reports).2 :=
        congrArg Prod.snd (working started).state
      refine ⟨driver, fun n driver' found => (configured.entered.only n driver' found).1,
        configured.interrupts, ?_, fun not => (configured.unheard not).1, ?_, ?_,
        fun e member => (coherent.results e member).delivered⟩
      · exact fun started => (working started).epInterruptIn.resolve_left fun none => none.2 started
      · intro started keyboard
        rw [told started, keyboard, DriverKind.run_keyboard_eq]
        exact ⟨rfl, Keyboard.reconstructs_run s.reports⟩
      · intro started mouse full
        rw [told started, mouse, DriverKind.run_mouse_eq s.reports full]

theorem polls_of_run_keyPressed : ∃ s driver,
    Run (ofFunction (Bus.step DescriptorBuffer.plainHeap 5)) (.plugged 0x100000) keyPressed s ∧
      s.connection.interrupts.length = 1 ∧ s.reports.length = 1 ∧ Polls s driver := by
  have polled : (execute (Bus.step DescriptorBuffer.plainHeap 5) (.plugged 0x100000) keyPressed).any
      (fun s => s.connection.interrupts.length = 1 ∧ s.reports.length = 1) = true := by
    decide
  rcases (Option.any_eq_true ..).mp polled with ⟨s, executed, holds⟩
  have run := (execute_eq_some_iff _ _ _ s).mp executed
  rcases of_decide_eq_true holds with ⟨interrupts, reports⟩
  rcases polls_of_run run with ⟨driver, polls⟩
  exact ⟨s, driver, run, interrupts, reports, polls⟩

end

end Mikanos.Usb
