import Mikanos.Usb.Polling

/-!
# Every well-formed device is polled

A device with a boot interface that has an endpoint for interrupts in gets there: after it has
answered four requests, and its endpoints have been configured, its driver waits for a report.
-/

namespace Mikanos.Usb

open Memory Transition

namespace DescriptorBuffer

variable (b : DescriptorBuffer)

/-- The endpoint is one for interrupts in. -/
def IsInterruptIn (epDesc : Nat) : Prop :=
  (b.endpointConfig epDesc).epType = .interrupt ∧ (b.endpointConfig epDesc).epId.isIn = true

/-- Every supported interface has an endpoint for interrupts in, and none at address 0. -/
def Pollable (descs : List Nat) : Prop :=
  ∀ before ifDesc behind, descs = before ++ ifDesc :: behind → b.Supported ifDesc →
    (∃ epDesc ∈ b.endpointsIn behind, b.IsInterruptIn epDesc) ∧
      ∀ epDesc ∈ b.endpointsIn behind, (b.endpointConfig epDesc).epId.addr ≠ 0

variable {b} {driver : HIDDriver} {d : InitDevice}

theorem entered_addEndpoints (entered : Entered d driver) (endpoints : List Nat) :
    Entered (addEndpoints b driver d endpoints) driver := by
  induction endpoints generalizing d with
  | nil => exact entered
  | cons epDesc endpoints ih => exact ih (entered_addEndpoint entered epDesc)

end DescriptorBuffer

namespace BootDriver

theorem setEndpoint_of_interruptIn {bootDriver : BootDriver} {config : EndpointConfig}
    (isInterrupt : config.epType = .interrupt) (isIn : config.epId.isIn = true) :
    (bootDriver.setEndpoint config).epInterruptIn = config.epId := by
  rw [BootDriver.setEndpoint, if_pos ⟨isInterrupt, isIn⟩]

/-- An endpoint for interrupts in is not at address 0. -/
theorem addr_of_isIn {epId : EndpointID} (isIn : epId.isIn = true) : epId.addr ≠ 0 := by
  intro zero
  rw [EndpointID.isIn, zero] at isIn
  exact absurd isIn (by decide)

/-- Once a driver has an endpoint for interrupts in, it keeps one. -/
theorem setEndpoint_of_some {bootDriver : BootDriver} (config : EndpointConfig)
    (already : bootDriver.epInterruptIn.addr ≠ 0) :
    (bootDriver.setEndpoint config).epInterruptIn.addr ≠ 0 := by
  rw [BootDriver.setEndpoint]
  split
  · rename_i isInterruptIn
    exact addr_of_isIn isInterruptIn.2
  · split
    · exact already
    · exact already

end BootDriver

namespace Connection

variable {d : InitDevice} {driver : HIDDriver} {drivers : ClassDriver → BootDriver} {c : Connection}

/-- The loop of `InitializePhase3` ends, and finds the endpoint for interrupts in. -/
theorem exists_setEndpoints (entered : Entered d driver) {indices : List Nat}
    (inRange : ∀ i ∈ indices, i < d.numEpConfigs)
    (some_ : (drivers driver.address).epInterruptIn.addr ≠ 0 ∨ ∃ i ∈ indices,
      (d.epConfigs i).epType = .interrupt ∧ (d.epConfigs i).epId.isIn = true) :
    ∃ drivers', indices.foldlM (setEndpoint d) drivers = some drivers' ∧
      (drivers' driver.address).epInterruptIn.addr ≠ 0 := by
  induction indices generalizing drivers with
  | nil =>
      rcases some_ with already | ⟨i, member, -⟩
      · exact ⟨drivers, rfl, already⟩
      · exact absurd member List.not_mem_nil
  | cons i indices ih =>
      rcases List.forall_mem_cons.mp inRange with ⟨first, rest⟩
      rw [List.foldlM_cons, setEndpoint, entered.configs i first]
      refine ih rest ?_
      rw [Function.update_self]
      rcases some_ with already | ⟨j, member, isInterrupt, isIn⟩
      · exact .inl (BootDriver.setEndpoint_of_some _ already)
      · rcases List.mem_cons.mp member with rfl | later
        · left
          rw [BootDriver.setEndpoint_of_interruptIn isInterrupt isIn]
          exact BootDriver.addr_of_isIn isIn
        · exact .inr ⟨j, later, isInterrupt, isIn⟩

end Connection

section

variable {heap : DriverHeap} {rounds portSpeed allocPtr : Nat} {b : DescriptorBuffer} {s : Bus}
  {driver : HIDDriver}

/-- A request is answered. -/
theorem Bus.exists_answer {i : Nat} {setupData : SetupData} {received result : Connection × Error}
    (found : s.connection.device.requests[i]? = some setupData) (open_ : i ∉ s.answered)
    (open' : i ∉ s.failed)
    (completed : s.connection.onControlCompleted heap rounds setupData b = some received)
    (event : Connection.onTransferEvent portSpeed received = some result) :
    ∃ s', s.step heap rounds (.answer i b portSpeed) = some s' ∧ s'.connection = result.1 ∧
      s'.answered = s.answered ++ [i] ∧ s'.failed = s.failed := by
  have outstanding : s.Outstanding i := ⟨(List.getElem?_eq_some_iff.mp found).1, open_, open'⟩
  refine ⟨{ s with answered := s.answered ++ [i] }.handled result, ?_, rfl, rfl, rfl⟩
  rw [Bus.step, found]
  change (do
    guard (s.Outstanding i)
    let received ← s.connection.onControlCompleted heap rounds setupData b
    let result ← Connection.onTransferEvent portSpeed received
    return { s with answered := s.answered ++ [i] }.handled result) = _
  rw [guard, if_pos outstanding, completed]
  change (do
    let result ← Connection.onTransferEvent portSpeed received
    return { s with answered := s.answered ++ [i] }.handled result) = _
  rw [event]
  rfl

theorem onTransferEvent_self (portSpeed : Nat) {c : Connection}
    (no : ¬ (c.base.isInitialized ∧ c.portPhase = .initializingDevice)) :
    Connection.onTransferEvent portSpeed (c, .success) = some (c, .success) := by
  rw [Connection.onTransferEvent, if_neg (not_not.mpr rfl), if_neg no]

/-- The device has got its own descriptor. -/
structure Described (s : Bus) (allocPtr : Nat) : Prop where
  device : s.connection.device =
    { InitDevice.configuring allocPtr with requests := (enumeration 0).take 2 }
  isInitialized : s.connection.base.isInitialized = false
  portPhase : s.connection.portPhase = .initializingDevice
  waiters : s.connection.base.eventWaiters.HoldsFirst []
  answered : s.answered = [0]
  failed : s.failed = []

/-- A device that is not initialised yet is asked for the next thing. -/
theorem onTransferEvent_of_false (portSpeed : Nat) {c : Connection}
    (initializing : c.base.isInitialized = false) :
    Connection.onTransferEvent portSpeed (c, .success) = some (c, .success) :=
  onTransferEvent_self portSpeed fun done => absurd (initializing.symm.trans done.1) Bool.false_ne_true

theorem exists_described (isDevice : b.bytes 1 = DeviceDescriptor.kType) :
    ∃ s, (Bus.plugged allocPtr).step heap rounds (.answer 0 b portSpeed) = some s ∧
      Described s allocPtr := by
  have asking : (Connection.start allocPtr).device.initializePhase = 1 := rfl
  have request : (getDescriptorData DeviceDescriptor.kType 0).request = 6 := rfl
  have completed : (Connection.start allocPtr).onControlCompleted heap rounds
      (getDescriptorData DeviceDescriptor.kType 0) b =
      some ((Connection.start allocPtr).initializePhase1 b) := by
    rw [onControlCompleted_of_initializing rfl, Connection.onInitializing, if_pos asking,
      if_pos ⟨request, isDevice⟩]
  rcases @Bus.exists_answer heap rounds portSpeed b (.plugged allocPtr) 0 _ _ _ rfl List.not_mem_nil
    List.not_mem_nil completed (onTransferEvent_of_false portSpeed rfl) with
    ⟨s, stepped, connection, answered, failed⟩
  refine ⟨s, stepped, ?_, ?_, ?_, ?_, answered, failed⟩
  · rw [connection]
    rfl
  · rw [connection]
    rfl
  · rw [connection]
    rfl
  · rw [connection]
    exact ArrayMap.holdsFirst_empty

/-- The endpoints of an interface have been entered. -/
def EntersInterface (b : DescriptorBuffer) (descs : List Nat) (d : InitDevice) : Prop :=
  ∃ before ifDesc behind, descs = before ++ ifDesc :: behind ∧ b.Supported ifDesc ∧
    d.numEpConfigs = (b.endpointsIn behind).length ∧
    ∀ i epDesc, (b.endpointsIn behind)[i]? = some epDesc → d.epConfigs i = b.endpointConfig epDesc

/-- What is entered comes from an endpoint descriptor. -/
theorem EntersInterface.configs {descs : List Nat} {d : InitDevice} (enters : EntersInterface b descs d)
    (pollable : b.Pollable descs) :
    (∃ i < d.numEpConfigs, (d.epConfigs i).epType = .interrupt ∧ (d.epConfigs i).epId.isIn = true) ∧
      ∀ i < d.numEpConfigs, (d.epConfigs i).epId.addr ≠ 0 := by
  rcases enters with ⟨before, ifDesc, behind, split, supported, count, configs⟩
  rcases pollable before ifDesc behind split supported with ⟨⟨epDesc, member, isInterruptIn⟩, numbered⟩
  constructor
  · rcases List.mem_iff_getElem?.mp member with ⟨i, found⟩
    refine ⟨i, ?_, ?_⟩
    · rw [count]
      exact (List.getElem?_eq_some_iff.mp found).1
    · rw [configs i epDesc found]
      exact isInterruptIn
  · intro i inRange
    rw [count] at inRange
    have found := List.getElem?_eq_getElem inRange
    rw [configs i _ found]
    exact numbered _ (List.mem_of_getElem? found)

/-- A supported interface has been entered. -/
structure Chosen (b : DescriptorBuffer) (descs : List Nat) (s : Bus) (driver : HIDDriver) : Prop where
  selected : Selected (b.bytes 5) driver s.connection s.answered
  answered : s.answered = [0, 1]
  failed : s.failed = []
  enters : EntersInterface b descs s.connection.device
  waiters : s.connection.base.eventWaiters.HoldsFirst []

theorem Described.asking (described : Described s allocPtr) : Asking 2 s.connection s.answered where
  initializePhase := by rw [described.device]; rfl
  bounds := .inr rfl
  requests := by rw [described.device]
  first := by
    intro _
    rw [described.answered]
    exact List.mem_singleton_self 0
  isInitialized := described.isInitialized
  classDrivers := by rw [described.device]; rfl
  portPhase := described.portPhase

/-- The configuration is parsed. -/
theorem onControlCompleted_of_parsed {c : Connection} {answered : List Nat} {device : InitDevice}
    {err : Error} (asking : Asking 2 c answered)
    (isConfiguration : b.bytes 1 = ConfigurationDescriptor.kType)
    (parsed : Reading.returned (b.initializePhase2 heap rounds c.device) = some (device, err)) :
    c.onControlCompleted heap rounds (getDescriptorData ConfigurationDescriptor.kType 0) b =
      some ({ c with device, drivers := Connection.newDrivers device c.drivers }, err) := by
  have request : (getDescriptorData ConfigurationDescriptor.kType 0).request = 6 := rfl
  rw [onControlCompleted_of_initializing asking.isInitialized, Connection.onInitializing,
    asking.initializePhase, if_neg (by decide), if_pos rfl, if_pos ⟨request, isConfiguration⟩,
    Connection.initializePhase2, parsed]
  rfl

theorem exists_chosen {descs : List Nat} (described : Described s allocPtr)
    (wellFormed : b.WellFormed descs)
    (room : heap.HasRoom allocPtr) (supported : ∃ desc ∈ descs, b.Supported desc)
    (enough : descs.length < rounds) :
    ∃ s' driver, s.step heap rounds (.answer 1 b portSpeed) = some s' ∧ Chosen b descs s' driver := by
  have room' : heap.HasRoom s.connection.device.allocPtr := by
    rw [described.device]
    exact room
  rcases DescriptorBuffer.searchInterface_of_laid wellFormed.laid room' wellFormed.counted
    enough enough with
    ⟨result, search, selects⟩
  cases selects with
  | nothing none =>
      rcases supported with ⟨desc, member, is⟩
      exact absurd is (none desc member)
  | @interface before behind ifDesc allocPtr' address kind split absent interface supported allocated =>
      have added := @DescriptorBuffer.added_addEndpoints b ⟨address, kind, b.bytes (ifDesc + 2)⟩
        { s.connection.device with allocPtr := allocPtr', numEpConfigs := 0 } (b.endpointsIn behind)
      have asking := described.asking
      have entered : Entered (DescriptorBuffer.addEndpoints b ⟨address, kind, b.bytes (ifDesc + 2)⟩
          { s.connection.device with allocPtr := allocPtr', numEpConfigs := 0 } (b.endpointsIn behind))
          ⟨address, kind, b.bytes (ifDesc + 2)⟩ := by
        apply DescriptorBuffer.entered_addEndpoints
        constructor
        · intro n driver' found
          change s.connection.device.classDrivers n = _ at found
          rw [asking.classDrivers] at found
          cases found
        · exact fun i inRange => absurd inRange (Nat.not_lt_zero i)
      have parsed := Reading.returned_eq_some.mpr
        (DescriptorBuffer.yields_initializePhase2_of_some trivial
        wellFormed.isConfiguration search trivial)
      rw [added.requests] at parsed
      have bounded : ∀ i ∈ s.answered, i < 2 := by
        intro i member
        rw [described.answered, List.mem_singleton] at member
        rw [member]
        decide
      have first : 0 ∈ s.answered := by
        rw [described.answered]
        exact List.mem_singleton_self 0
      have selected := asking.selects first (i := 1) rfl bounded entered b
      have completed := onControlCompleted_of_parsed asking wellFormed.isConfiguration parsed
      have found : s.connection.device.requests[1]? =
          some (getDescriptorData ConfigurationDescriptor.kType 0) := by
        rw [asking.requests]
        rfl
      have open_ : 1 ∉ s.answered := by
        rw [described.answered]
        decide
      have open' : 1 ∉ s.failed := by
        rw [described.failed]
        exact List.not_mem_nil
      rcases Bus.exists_answer found open_ open' completed
        (onTransferEvent_of_false portSpeed asking.isInitialized) with
        ⟨s', stepped, connection, answered, failed⟩
      refine ⟨s', ⟨address, kind, b.bytes (ifDesc + 2)⟩, stepped, ?_, ?_, ?_,
        ⟨before, ifDesc, behind, split, ⟨interface, by rw [supported]; rfl⟩, ?_, ?_⟩, ?_⟩
      · rw [connection, answered]
        exact selected
      · rw [answered, described.answered]
        rfl
      · rw [failed, described.failed]
      · rw [connection]
        exact added.numEpConfigs.trans (Nat.zero_add _)
      · intro i epDesc member
        have entry := added.epConfigs i epDesc member
        rw [Nat.zero_add] at entry
        rw [connection]
        exact entry
      · rw [connection]
        exact described.waiters

/-- The driver has its endpoint, and the endpoints are being configured. -/
structure Prepared (b : DescriptorBuffer) (descs : List Nat) (s : Bus) (driver : HIDDriver) : Prop where
  portPhase : s.connection.portPhase = .configuringEndpoints
  entered : Entered s.connection.device driver
  enters : EntersInterface b descs s.connection.device
  epInterruptIn : (s.connection.drivers driver.address).epInterruptIn.addr ≠ 0
  waiters : s.connection.base.eventWaiters.HoldsFirst []
  answered : s.answered = [0, 1, 2]
  failed : s.failed = []

/-- A connection after `InitializePhase3`. -/
def initialized (c : Connection) (drivers : ClassDriver → BootDriver) : Connection :=
  { c with
    drivers
    device := { c.device with initializePhase := 4 }
    base := { c.base with isInitialized := true } }

theorem exists_configureEndpoints {c : Connection}
    (numbered : ∀ i < c.device.numEpConfigs, (c.device.epConfigs i).epId.addr ≠ 0)
    (known : portSpeed ≠ 0)
    (known' : portSpeed ≤ Xhci.PortConfig.kSuperSpeedPlus) :
    ∃ transferRings, c.configureEndpoints portSpeed =
      some ({ c with transferRings, portPhase := .configuringEndpoints }, .success) := by
  refine ⟨fun dci => c.transferRings dci ||
    decide (∃ i < c.device.numEpConfigs, (c.device.epConfigs i).epId.addr = dci), ?_⟩
  rw [Connection.configureEndpoints, if_neg, if_neg]
  · rintro ⟨i, inRange, zero⟩
    exact numbered i inRange zero
  · rintro (zero | fast)
    · exact known zero
    · exact absurd known' (Nat.not_le.mpr fast)

theorem exists_prepared {descs : List Nat} {b' : DescriptorBuffer} (chosen : Chosen b descs s driver)
    (pollable : b.Pollable descs) (known : portSpeed ≠ 0)
    (known' : portSpeed ≤ Xhci.PortConfig.kSuperSpeedPlus) :
    ∃ s', s.step heap rounds (.answer 2 b' portSpeed) = some s' ∧ Prepared b descs s' driver := by
  have selected := chosen.selected
  rcases chosen.enters.configs pollable with ⟨⟨i, inRange, isInterruptIn⟩, numbered⟩
  rcases @Connection.exists_setEndpoints _ _ s.connection.drivers selected.entered _
    (fun i member => List.mem_range.mp member) (.inr ⟨i, List.mem_range.mpr inRange, isInterruptIn⟩) with
    ⟨drivers, set, epInterruptIn⟩
  have found : s.connection.device.requests[2]? =
      some (DescriptorBuffer.setConfigurationData (b.bytes 5)) := by
    rw [selected.requests]
    rfl
  have request : (DescriptorBuffer.setConfigurationData (b.bytes 5)).request = 9 := rfl
  have completed : s.connection.onControlCompleted heap rounds
      (DescriptorBuffer.setConfigurationData (b.bytes 5)) b' =
        some (initialized s.connection drivers, .success) := by
    rw [onControlCompleted_of_initializing selected.isInitialized, Connection.onInitializing,
      selected.initializePhase, if_neg (by decide), if_neg (by decide), if_pos rfl, if_pos request,
      Connection.initializePhase3, set]
    rfl
  rcases exists_configureEndpoints (c := initialized s.connection drivers) numbered known known' with
    ⟨transferRings, configured⟩
  have event : Connection.onTransferEvent portSpeed (initialized s.connection drivers, .success) =
      some ({ initialized s.connection drivers with
        transferRings, portPhase := .configuringEndpoints }, .success) := by
    rw [Connection.onTransferEvent, if_neg (not_not.mpr rfl), if_pos ⟨rfl, selected.portPhase⟩]
    exact configured
  have open' : 2 ∉ s.failed := by
    rw [chosen.failed]
    exact List.not_mem_nil
  rcases Bus.exists_answer found selected.open_ open' completed event with
    ⟨s', stepped, connection, answered, failed⟩
  refine ⟨s', stepped, ?_, ?_, ?_, ?_, ?_, ?_, ?_⟩
  · rw [connection]
  · rw [connection]
    exact ⟨selected.entered.only, selected.entered.configs⟩
  · rw [connection]
    exact chosen.enters
  · rw [connection]
    exact epInterruptIn
  · rw [connection]
    exact chosen.waiters
  · rw [answered, chosen.answered]
    rfl
  · rw [failed, chosen.failed]

/-- The endpoints have been configured. -/
structure ProtocolIssued (b : DescriptorBuffer) (descs : List Nat) (s : Bus) (driver : HIDDriver) : Prop where
  portPhase : s.connection.portPhase = .configured
  entered : Entered s.connection.device driver
  enters : EntersInterface b descs s.connection.device
  epInterruptIn : (s.connection.drivers driver.address).epInterruptIn.addr ≠ 0
  answered : s.answered = [0, 1, 2]
  failed : s.failed = []

theorem exists_protocolIssued {descs : List Nat} (prepared : Prepared b descs s driver) :
    ∃ s', s.step heap rounds .configured = some s' ∧ ProtocolIssued b descs s' driver := by
  have protocolled := Connection.protocolled_onEndpointsConfigured prepared.entered prepared.waiters
  have handled : s.connection.onCommandCompletion =
      ({ s.connection.onEndpointsConfigured with portPhase := .configured }, .success) := by
    rw [Connection.onCommandCompletion, if_neg (not_not.mpr prepared.portPhase)]
  refine ⟨s.handled s.connection.onCommandCompletion, rfl, ?_⟩
  rw [handled]
  refine ⟨rfl, ?_, ?_, ?_, prepared.answered, prepared.failed⟩
  · change Entered s.connection.onEndpointsConfigured.device driver
    rw [protocolled.device]
    exact ⟨prepared.entered.only, prepared.entered.configs⟩
  · change EntersInterface b descs s.connection.onEndpointsConfigured.device
    rw [protocolled.device]
    exact prepared.enters
  · change (s.connection.onEndpointsConfigured.drivers driver.address).epInterruptIn.addr ≠ 0
    rw [protocolled.driver]
    split
    · exact prepared.epInterruptIn
    · exact prepared.epInterruptIn

/-- A device whose port is configured is at that stage. -/
theorem Coherent.configured (coherent : Coherent s) (portPhase : s.connection.portPhase = .configured) :
    ∃ configValue driver, Configured configValue driver s.connection s.answered s.reports s.lost := by
  cases coherent.stage with
  | asking quiet asking =>
      rw [asking.portPhase] at portPhase
      cases portPhase
  | selected quiet selected =>
      rw [selected.portPhase] at portPhase
      cases portPhase
  | ready quiet ready =>
      rcases ready.portPhase with init | ⟨configuring, -⟩
      · rw [init] at portPhase
        cases portPhase
      · rw [configuring] at portPhase
        cases portPhase
  | configured configured => exact ⟨_, _, configured⟩

/-- The protocol has been set, and the driver waits for a report. -/
theorem exists_polled {descs : List Nat} {b' : DescriptorBuffer} (coherent : Coherent s)
    (issued : ProtocolIssued b descs s driver) (pollable : b.Pollable descs) :
    ∃ s', s.step heap rounds (.answer 3 b' portSpeed) = some s' ∧
      ∃ i < s.connection.device.numEpConfigs, (s.connection.device.epConfigs i).epType = .interrupt ∧
        (s.connection.device.epConfigs i).epId.isIn = true ∧
        s'.connection.interrupts =
          [⟨(s.connection.device.epConfigs i).epId, driver.address, driver.kind.inPacketSize⟩] := by
  rcases coherent.configured issued.portPhase with ⟨configValue, driver', configured⟩
  rcases (issued.enters.configs pollable).1 with ⟨j, inRange, -⟩
  have used : Used s.connection.device driver := ⟨_, issued.entered.configs j inRange⟩
  have same : driver = driver' := (configured.entered.only _ _ (issued.entered.configs j inRange)).1
  subst same
  have working := configured.working used
  have notStarted : ¬ Started s.answered := by
    rw [issued.answered]
    decide
  have uses_pos := Connection.uses_pos issued.entered used
  have found : s.connection.device.requests[3]? = some (setProtocolData driver.interfaceIndex) := by
    rw [configured.requests, List.getElem?_append_right (Nat.le_refl 3), List.getElem?_replicate]
    exact if_pos uses_pos
  rcases working.epInterruptIn with none | ⟨i, small, isInterrupt, isIn, endpoint⟩
  · exact absurd none.1 issued.epInterruptIn
  have completed : s.connection.onControlCompleted heap rounds
      (setProtocolData driver.interfaceIndex) b' = some ({ s.connection with
        drivers := Function.update s.connection.drivers driver.address
          { s.connection.drivers driver.address with initializePhase := 2 }
        interrupts := s.connection.interrupts ++ [⟨(s.connection.device.epConfigs i).epId, driver.address,
          driver.kind.inPacketSize⟩] }, .success) := by
    rw [Connection.onControlCompleted, configured.waiter uses_pos]
    change s.connection.driverControlCompleted driver.address = _
    rw [Connection.driverControlCompleted, working.initializePhase, if_neg notStarted, if_pos rfl,
      Connection.interruptIn, if_neg issued.epInterruptIn, endpoint, if_pos (configured.rings i small).2,
      working.kind]
  have interrupts : s.connection.interrupts = [] := by
    rw [configured.interrupts, expected, if_neg fun both => notStarted both.1]
  rcases Bus.exists_answer found (by rw [issued.answered]; decide) (by rw [issued.failed]; decide)
    completed
    (onTransferEvent_self portSpeed fun done => by
      have portPhase := configured.portPhase.symm.trans done.2
      cases portPhase) with ⟨s', stepped, connection, -, -⟩
  refine ⟨s', stepped, i, small, isInterrupt, isIn, ?_⟩
  rw [connection, interrupts]
  rfl

/-- A device answers with its descriptor and a configuration, and to two more requests. -/
def answers (descriptor configuration : DescriptorBuffer) (portSpeed : Nat) : List Bus.Event :=
  [.answer 0 descriptor portSpeed, .answer 1 configuration portSpeed, .answer 2 configuration portSpeed,
    .configured, .answer 3 configuration portSpeed]

theorem pollable_keyboardConfiguration :
    DescriptorBuffer.keyboardConfiguration.Pollable [9, 18, 27] := by
  rintro before ifDesc behind split supported
  match before, split with
  | [], split =>
      cases split
      exact ⟨⟨27, by decide, by decide, by decide⟩, by decide⟩
  | [_], split =>
      cases split
      exact absurd supported.1 (by decide)
  | [_, _], split =>
      cases split
      exact absurd supported.1 (by decide)
  | _ :: _ :: _ :: _, split => simp at split

end

end Mikanos.Usb
