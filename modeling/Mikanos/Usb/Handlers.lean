import Mikanos.Usb.Enumeration

/-!
# What the handlers of a connection do

One lemma for each handler: what `InitializePhase2` enters into `class_drivers_` and
`ep_configs_`, which endpoint `InitializePhase3` leaves a driver, and which requests
`OnEndpointsConfigured` issues.
-/

namespace Mikanos.Usb

open Memory

/-! ## The driver that is entered -/

/-- One driver is entered in `class_drivers_`, and for all endpoints of `ep_configs_`. -/
structure Entered (d : InitDevice) (driver : HIDDriver) : Prop where
  only : ∀ n driver', d.classDrivers n = some driver' → driver' = driver ∧ n < 16
  configs : ∀ i < d.numEpConfigs, d.classDrivers (d.epConfigs i).epId.number = some driver

/-- The driver is entered somewhere. -/
def Used (d : InitDevice) (driver : HIDDriver) : Prop :=
  ∃ n, d.classDrivers n = some driver

namespace DescriptorBuffer

variable {b : DescriptorBuffer} {heap : DriverHeap} {rounds left p : Nat} {d d' : InitDevice}
  {driver : HIDDriver}

theorem entered_addEndpoint (entered : Entered d driver) (epDesc : Nat) :
    Entered (addEndpoint d driver (b.endpointConfig epDesc)) driver where
  only := by
    intro n driver' found
    change Function.update d.classDrivers _ _ n = _ at found
    by_cases same : n = (b.endpointConfig epDesc).epId.number
    · rw [same, Function.update_self] at found
      cases found
      refine ⟨rfl, ?_⟩
      rw [same, number_endpointConfig]
      exact Nat.mod_lt _ (by decide)
    · rw [Function.update_of_ne same] at found
      exact entered.only n driver' found
  configs := by
    intro i inRange
    change Function.update d.classDrivers _ _ (Function.update d.epConfigs _ _ i).epId.number = _
    rw [addEndpoint_numEpConfigs] at inRange
    by_cases last : i = d.numEpConfigs
    · rw [last, Function.update_self, Function.update_self]
    · rw [Function.update_of_ne last]
      by_cases same : (d.epConfigs i).epId.number = (b.endpointConfig epDesc).epId.number
      · rw [same, Function.update_self]
      · rw [Function.update_of_ne same]
        exact entered.configs i (by omega)

/-- The inner loop enters endpoints for its driver only. -/
theorem entered_collectEndpoints {ifDesc : Nat} (entered : Entered d driver)
    (collected : (b.collectEndpoints driver ifDesc rounds p d).Yields (fun _ => True) d') :
    Entered d' driver ∧ d'.requests = d.requests := by
  induction rounds generalizing p d with
  | zero => exact absurd collected Reading.not_yields_pending
  | succ rounds ih =>
      rcases (yields_collectEndpoints_succ trivial).mp collected with
        ⟨-, rfl⟩ | ⟨-, -, -, -, ⟨-, -, -, rest⟩ | ⟨-, -, rest⟩⟩
      · exact ⟨entered, rfl⟩
      · have others := ih (entered_addEndpoint entered _) rest
        exact others
      · exact ih entered rest

/-- The outer loop leaves the device as it is, or enters one driver. -/
theorem entered_searchInterface {result : InitDevice × Option HIDDriver}
    (fresh : d.classDrivers = fun _ => none)
    (search : (b.searchInterface heap rounds left p d).Yields (fun _ => True) result) :
    result = (d, none) ∨ ∃ d' driver, result = (d', some driver) ∧ Entered d' driver ∧
      d'.requests = d.requests := by
  induction left generalizing p with
  | zero => exact absurd search Reading.not_yields_pending
  | succ left ih =>
      rcases yields_searchInterface_succ.mp search with
        ⟨n, -, ⟨-, rfl⟩ | ⟨ifDesc, -, -, visits⟩⟩
      · exact .inl rfl
      · cases visits with
        | unsupported _ rest => exact ih rest
        | @selected kind allocPtr address d' _ _ _ collected selects =>
            have noneEntered : Entered { d with allocPtr, numEpConfigs := 0 }
                ⟨address, kind, b.bytes (ifDesc + 2)⟩ := by
              constructor
              · intro n driver' found
                change d.classDrivers n = _ at found
                rw [fresh] at found
                cases found
              · intro i inRange
                exact absurd inRange (Nat.not_lt_zero i)
            have all := entered_collectEndpoints noneEntered collected
            exact .inr ⟨_, _, selects, all⟩

/-- `InitializePhase2` leaves the device as it is, or enters one driver and sets the
configuration. -/
theorem entered_initializePhase2 {result : InitDevice × Error} (fresh : d.classDrivers = fun _ => none)
    (isConfiguration : b.bytes 1 = ConfigurationDescriptor.kType)
    (ends : Reading.returned (b.initializePhase2 heap rounds d) = some result) :
    result = (d, .success) ∨ ∃ d' driver, result = ({ d' with
        initializePhase := 3
        requests := d.requests ++ [setConfigurationData (b.bytes 5)] }, .success) ∧
      Entered d' driver := by
  have yields := Reading.returned_eq_some.mp ends
  rw [initializePhase2] at yields
  rcases (Reading.yields_bind_of fun _ => yields_dynamicCast).mp yields with ⟨-, yields⟩
  rw [if_pos (decide_eq_true isConfiguration)] at yields
  rcases Reading.yields_bind.mp yields with ⟨selected, search, rest⟩
  rcases entered_searchInterface fresh search with rfl | ⟨d', driver, rfl, entered, requests⟩
  · exact .inl (Reading.yields_pure.mp rest)
  · rcases (Reading.yields_bind_of fun _ => yields_byte).mp rest with ⟨-, rest⟩
    refine .inr ⟨d', driver, ?_, entered⟩
    rw [← requests]
    exact Reading.yields_pure.mp rest

end DescriptorBuffer

namespace Connection

variable {d : InitDevice} {driver : HIDDriver} {drivers drivers' : ClassDriver → BootDriver}

/-- A driver that is entered is new. -/
theorem newDrivers_of_entered (entered : Entered d driver) (used : Used d driver)
    (drivers : ClassDriver → BootDriver) :
    newDrivers d drivers driver.address = .new driver.kind := by
  rcases used with ⟨n, found⟩
  have reached (last : List Nat) (drivers : ClassDriver → BootDriver)
      (there : n ∈ last ∨ drivers driver.address = .new driver.kind) :
      last.foldl (newDriver d) drivers driver.address = .new driver.kind := by
    induction last generalizing drivers with
    | nil => exact there.resolve_left List.not_mem_nil
    | cons m last ih =>
        rw [List.foldl_cons]
        apply ih
        rcases there with member | already
        · rcases List.mem_cons.mp member with rfl | later
          · rw [newDriver, found]
            exact .inr (Function.update_self ..)
          · exact .inl later
        · right
          rw [newDriver]
          cases entry : d.classDrivers m with
          | none => exact already
          | some driver' =>
              dsimp only
              rw [(entered.only m driver' entry).1]
              exact Function.update_self ..
  exact reached _ drivers (.inl (List.mem_range.mpr (entered.only n driver found).2))

/-- What `SetEndpoint` leaves of a new driver: an endpoint for interrupts in, if there is any. -/
structure Endpoints (d : InitDevice) (driver : HIDDriver) (bootDriver : BootDriver) : Prop where
  kind : bootDriver.kind = driver.kind
  buffers : bootDriver.buffers = .initial
  told : bootDriver.told = []
  epInterruptIn : bootDriver.epInterruptIn.addr = 0 ∨
    ∃ i < d.numEpConfigs, (d.epConfigs i).epType = .interrupt ∧ (d.epConfigs i).epId.isIn = true ∧
      bootDriver.epInterruptIn = (d.epConfigs i).epId

theorem Endpoints.setEndpoint {bootDriver : BootDriver} (endpoints : Endpoints d driver bootDriver)
    {i : Nat} (inRange : i < d.numEpConfigs) :
    Endpoints d driver (bootDriver.setEndpoint (d.epConfigs i)) := by
  rw [BootDriver.setEndpoint]
  split
  · rename_i isInterrupt
    exact ⟨endpoints.kind, endpoints.buffers, endpoints.told,
      .inr ⟨i, inRange, isInterrupt.1, isInterrupt.2, rfl⟩⟩
  · split
    · exact ⟨endpoints.kind, endpoints.buffers, endpoints.told, endpoints.epInterruptIn⟩
    · exact endpoints

/-- The loop of `InitializePhase3`. -/
theorem endpoints_of_setEndpoints (entered : Entered d driver) {indices : List Nat}
    (inRange : ∀ i ∈ indices, i < d.numEpConfigs) (start : Endpoints d driver (drivers driver.address))
    (result : indices.foldlM (setEndpoint d) drivers = some drivers') :
    Endpoints d driver (drivers' driver.address) := by
  induction indices generalizing drivers with
  | nil =>
      cases result
      exact start
  | cons i indices ih =>
      rcases List.forall_mem_cons.mp inRange with ⟨first, rest⟩
      rw [List.foldlM_cons, setEndpoint, entered.configs i first] at result
      refine ih rest ?_ result
      rw [Function.update_self]
      exact start.setEndpoint first

/-! ## `OnEndpointsConfigured` -/

/-- How many endpoint numbers a driver is entered for. -/
def uses (d : InitDevice) : Nat :=
  ((List.range 16).filter fun n => (d.classDrivers n).isSome).length

theorem uses_pos (entered : Entered d driver) (used : Used d driver) : 0 < uses d := by
  rcases used with ⟨n, found⟩
  refine List.length_pos_of_mem (a := n) (List.mem_filter.mpr ⟨?_, ?_⟩)
  · exact List.mem_range.mpr (entered.only n driver found).2
  · rw [found]
    rfl

theorem used_of_uses (entered : Entered d driver) (uses_pos : 0 < uses d) : Used d driver := by
  rcases List.exists_mem_of_length_pos uses_pos with ⟨n, member⟩
  rcases Option.isSome_iff_exists.mp (List.mem_filter.mp member).2 with ⟨driver', found⟩
  exact ⟨n, (entered.only n driver' found).1 ▸ found⟩

/-- The protocol has been set a number of times. -/
structure Protocolled (c c' : Connection) (driver : HIDDriver) (count : Nat) : Prop where
  isInitialized : c'.base.isInitialized = c.base.isInitialized
  waiters : c'.base.eventWaiters.HoldsFirst
    (List.replicate count (setProtocolData driver.interfaceIndex, driver.address))
  device : c'.device =
    { c.device with
      requests := c.device.requests ++ List.replicate count (setProtocolData driver.interfaceIndex) }
  driver : c'.drivers driver.address =
    if count = 0 then c.drivers driver.address
    else { c.drivers driver.address with initializePhase := 1 }
  transferRings : c'.transferRings = c.transferRings
  interrupts : c'.interrupts = c.interrupts

theorem Protocolled.again {c c' : Connection} {count : Nat}
    (protocolled : Protocolled c c' driver count) :
    Protocolled c (c'.driverEndpointsConfigured driver) driver (count + 1) where
  isInitialized := protocolled.isInitialized
  waiters := by
    rw [List.replicate_succ']
    exact protocolled.waiters.put _ _
  device := by
    change ({ c'.device with
      requests := c'.device.requests ++ [setProtocolData driver.interfaceIndex] } : InitDevice) = _
    rw [protocolled.device, List.replicate_succ', List.append_assoc]
  driver := by
    rw [if_neg (Nat.succ_ne_zero count)]
    change Function.update c'.drivers driver.address _ driver.address = _
    rw [Function.update_self, protocolled.driver]
    split <;> rfl
  transferRings := protocolled.transferRings
  interrupts := protocolled.interrupts

/-- The loop of `OnEndpointsConfigured`. -/
theorem protocolled_onEndpointsConfigured {c : Connection} (entered : Entered c.device driver)
    (noWaiters : c.base.eventWaiters.HoldsFirst []) :
    Protocolled c c.onEndpointsConfigured driver (uses c.device) := by
  have reached (last : List Nat) (c' : Connection) (count : Nat)
      (protocolled : Protocolled c c' driver count) :
      Protocolled c (last.foldl endpointConfigured c') driver
        (count + (last.filter fun n => (c.device.classDrivers n).isSome).length) := by
    induction last generalizing c' count with
    | nil => exact protocolled
    | cons n last ih =>
        have same : c'.device.classDrivers n = c.device.classDrivers n := by rw [protocolled.device]
        rw [List.foldl_cons, List.filter_cons, endpointConfigured, same]
        cases entry : c.device.classDrivers n with
        | none => exact ih c' count protocolled
        | some driver' =>
            rw [(entered.only n driver' entry).1, Option.isSome_some, if_pos rfl, List.length_cons,
              Nat.add_comm _ 1, ← Nat.add_assoc]
            exact ih _ _ protocolled.again
  have all := reached (List.range 16) c 0 ⟨rfl, noWaiters, by rw [List.replicate_zero, List.append_nil],
    (if_pos rfl).symm, rfl, rfl⟩
  rwa [Nat.zero_add] at all

end Connection
end Mikanos.Usb
