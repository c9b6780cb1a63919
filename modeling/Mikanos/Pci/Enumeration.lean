import Mathlib.Tactic
import Mikanos.Pci.Scan
import Mikanos.Transition.Forest

/-!
# The functions that the scan lists

The functions that can be reached from the buses at which `ScanAllBus` begins
form a graph whose edges are the bridges.  The scan takes the preorder of that
graph, down to any depth, until the array is full: each bridge is recorded before
its bus is scanned, so the free space bounds the depth.  Where the graph is a
forest of at most 32 functions, the scan lists each of them once.
-/

namespace Mikanos.Pci

open Transition Scan

/-- A function of a device on a bus. -/
structure Location where
  bus : BitVec 8
  device : BitVec 5
  function : BitVec 3
  deriving DecidableEq

section Registers

variable (space : ConfigSpace)

/-- A register of a function. -/
def register (l : Location) (reg : BitVec 6) : BitVec 32 :=
  space l.bus l.device l.function reg

/-- The vendor is not the one that is read where there is nothing. -/
def Present (l : Location) : Prop :=
  (register space l 0).extractLsb' 0 16 ≠ 0xffff

instance (l : Location) : Decidable (Present space l) :=
  inferInstanceAs (Decidable (_ ≠ _))

def headerType (l : Location) : BitVec 8 :=
  (register space l 3).extractLsb' 16 8

def classCode (l : Location) : ClassCode :=
  { base := (register space l 2).extractLsb' 24 8
    sub := (register space l 2).extractLsb' 16 8
    interface := (register space l 2).extractLsb' 8 8 }

/-- A standard PCI-PCI bridge. -/
def IsBridge (l : Location) : Prop :=
  (classCode space l).base = 0x06 ∧ (classCode space l).sub = 0x04

instance (l : Location) : Decidable (IsBridge space l) :=
  inferInstanceAs (Decidable (_ ∧ _))

/-- The bus behind a bridge. -/
def secondaryBus (l : Location) : BitVec 8 :=
  (register space l 6).extractLsb' 8 8

/-- The entry of `devices` for a function. -/
def deviceAt (l : Location) : Device :=
  ⟨l.bus, l.device.setWidth 8, l.function.setWidth 8, headerType space l, classCode space l⟩

/-- Function 0 of the same device. -/
def Location.first (l : Location) : Location :=
  { l with function := 0 }

/-- The function is there to be found on its bus: function 0 is present, and
another function if function 0 says that the device has several. -/
def Visible (l : Location) : Prop :=
  Present space l.first ∧
    (l.function = 0 ∨ (headerType space l.first).getLsbD 7 = true ∧ Present space l)

/-- The buses at which the scan begins: bus 0 or, if device 0 on it has several
functions, the buses with the numbers of those. -/
def IsRootBus (bus : BitVec 8) : Prop :=
  if (headerType space ⟨0, 0, 0⟩).getLsbD 7 then
    ∃ function : BitVec 3, bus = function.setWidth 8 ∧ Present space ⟨0, 0, function⟩
  else
    bus = 0

/-- The functions on the first buses and behind bridges that are reached. -/
inductive Reachable : Location → Prop
  | root {l : Location} : IsRootBus space l.bus → Visible space l → Reachable l
  | behind {bridge l : Location} : Reachable bridge → IsBridge space bridge →
      l.bus = secondaryBus space bridge → Visible space l → Reachable l

/-- Every bus is reached from at most one bridge. -/
def OneBridge : Prop :=
  ∀ l l', Reachable space l → Reachable space l' → IsBridge space l → IsBridge space l' →
    secondaryBus space l = secondaryBus space l' → l = l'

/-- No bridge leads to a bus at which the scan begins. -/
def NoWayBack : Prop :=
  ∀ l, Reachable space l → IsBridge space l → ¬ IsRootBus space (secondaryBus space l)

variable {space}

theorem Visible.present {l : Location} (visible : Visible space l) : Present space l := by
  rcases visible with ⟨first, zero | ⟨-, present⟩⟩
  · obtain ⟨bus, device, function⟩ := l
    subst zero
    exact first
  · exact present

theorem Reachable.visible {l : Location} (reachable : Reachable space l) : Visible space l := by
  cases reachable with
  | root _ visible => exact visible
  | behind _ _ _ visible => exact visible

end Registers

/-! ## What the code reads -/

section Reads

variable (space : ConfigSpace) (l : Location)

/-- The fields of an address come back, and the enable bit is set. -/
theorem readData_makeAddress (regAddr : BitVec 8) :
    readData space (makeAddress l.bus (l.device.setWidth 8) (l.function.setWidth 8) regAddr) =
      register space l (regAddr.extractLsb' 2 6) := by
  set address := makeAddress l.bus (l.device.setWidth 8) (l.function.setWidth 8) regAddr
    with isAddress
  have enabled : address.getLsbD 31 = true := by simp [isAddress, makeAddress]
  have bus : address.extractLsb' 16 8 = l.bus := by
    ext i inside
    simp only [isAddress, makeAddress]
    interval_cases i <;> simp
  have device : address.extractLsb' 11 5 = l.device := by
    ext i inside
    simp only [isAddress, makeAddress]
    interval_cases i <;> simp
  have function : address.extractLsb' 8 3 = l.function := by
    ext i inside
    simp only [isAddress, makeAddress]
    interval_cases i <;> simp
  have reg : address.extractLsb' 2 6 = regAddr.extractLsb' 2 6 := by
    ext i inside
    simp only [isAddress, makeAddress]
    interval_cases i <;> simp
  rw [readData, if_pos enabled, bus, device, function, reg, register]

/-- A byte of a register, as the code takes it out. -/
theorem byte_of_register (value : BitVec 32) (shift : Nat) :
    ((value >>> shift) &&& 0xff).setWidth 8 = value.extractLsb' shift 8 := by
  ext i inside
  interval_cases i <;> simp

theorem readVendorId_eq :
    readVendorId space l.bus (l.device.setWidth 8) (l.function.setWidth 8) =
      (register space l 0).extractLsb' 0 16 := by
  rw [readVendorId, readData_makeAddress]
  ext i inside
  interval_cases i <;> simp

theorem readVendorId_eq_iff :
    readVendorId space l.bus (l.device.setWidth 8) (l.function.setWidth 8) = 0xffff ↔
      ¬ Present space l := by
  rw [readVendorId_eq, Present, not_not]

theorem readHeaderType_eq :
    readHeaderType space l.bus (l.device.setWidth 8) (l.function.setWidth 8) =
      headerType space l := by
  rw [readHeaderType, readData_makeAddress, byte_of_register]
  rfl

theorem readClassCode_eq :
    readClassCode space l.bus (l.device.setWidth 8) (l.function.setWidth 8) =
      classCode space l := by
  simp only [readClassCode, readData_makeAddress, byte_of_register]
  rfl

theorem secondaryBus_eq :
    ((readBusNumbers space l.bus (l.device.setWidth 8) (l.function.setWidth 8) >>> 8) &&&
      0xff).setWidth 8 = secondaryBus space l := by
  rw [readBusNumbers, readData_makeAddress, byte_of_register]
  rfl

theorem isMatch_iff : (classCode space l).isMatch 0x06 0x04 = true ↔ IsBridge space l := by
  rw [ClassCode.isMatch, Bool.and_eq_true, beq_iff_eq, beq_iff_eq, eq_comm, IsBridge,
    @eq_comm _ (0x04 : BitVec 8)]

theorem isSingleFunctionDevice_eq (header : BitVec 8) :
    isSingleFunctionDevice header = !header.getLsbD 7 := by
  decide +revert

theorem ite_isSingleFunctionDevice {α : Type} (header : BitVec 8) (single several : α) :
    (if isSingleFunctionDevice header then single else several) =
      if header.getLsbD 7 then several else single := by
  rw [isSingleFunctionDevice_eq]
  cases header.getLsbD 7 with
  | true => rfl
  | false => rfl

end Reads

/-! ## The scan as a walk -/

section Lists

variable (space : ConfigSpace)

def deviceNumbers : List (BitVec 5) :=
  (List.range 32).map (BitVec.ofNat 5)

/-- The functions above 0. -/
def functionNumbers : List (BitVec 3) :=
  (List.range' 1 7).map (BitVec.ofNat 3)

/-- The functions that are found of a device whose function 0 is present. -/
def functionsOf (bus : BitVec 8) (device : BitVec 5) : List Location :=
  ⟨bus, device, 0⟩ ::
    if (headerType space ⟨bus, device, 0⟩).getLsbD 7 then
      (functionNumbers.map fun function => ⟨bus, device, function⟩).filter (Present space ·)
    else
      []

def visibleOn (bus : BitVec 8) : List Location :=
  (deviceNumbers.filter fun device => Present space ⟨bus, device, 0⟩).flatMap
    (functionsOf space bus)

def rootBuses : List (BitVec 8) :=
  if (headerType space ⟨0, 0, 0⟩).getLsbD 7 then
    ((0 :: functionNumbers).filter fun function => Present space ⟨0, 0, function⟩).map
      (BitVec.setWidth 8)
  else
    [0]

/-- The functions behind a bridge. -/
def behind (l : Location) : List Location :=
  if IsBridge space l then visibleOn space (secondaryBus space l) else []

def roots : List Location :=
  (rootBuses space).flatMap (visibleOn space)

/-- To add the entries of functions to `devices`. -/
def recordAll : List Location → Scan :=
  forEach fun l => addDevice (deviceAt space l)

/-- `ScanFunction` at a function. -/
def visit (scan : BitVec 8 → Scan) (l : Location) : Scan :=
  scanFunction space scan l.bus (l.device.setWidth 8) (l.function.setWidth 8)

theorem mem_functionNumbers_iff (function : BitVec 3) :
    function ∈ functionNumbers ↔ function ≠ 0 := by
  decide +revert

theorem mem_deviceNumbers (device : BitVec 5) : device ∈ deviceNumbers := by
  decide +revert

theorem functionNumbers_nodup : functionNumbers.Nodup := by
  decide

theorem deviceNumbers_nodup : deviceNumbers.Nodup := by
  decide

theorem counting_devices : counting 0 32 = deviceNumbers.map (BitVec.setWidth 8) :=
  rfl

theorem counting_functions : counting 1 8 = functionNumbers.map (BitVec.setWidth 8) :=
  rfl

theorem counting_allFunctions :
    counting 0 8 = (0 :: functionNumbers).map (BitVec.setWidth 8) :=
  rfl

theorem mem_functionsOf_iff {l : Location} {bus : BitVec 8} {device : BitVec 5} :
    l ∈ functionsOf space bus device ↔ l.bus = bus ∧ l.device = device ∧
      (l.function = 0 ∨ (headerType space l.first).getLsbD 7 = true ∧ Present space l) := by
  obtain ⟨bus', device', function⟩ := l
  simp only [functionsOf, List.mem_cons, Location.mk.injEq, Location.first]
  constructor
  · rintro (⟨rfl, rfl, rfl⟩ | above)
    · exact ⟨rfl, rfl, .inl rfl⟩
    · split at above
      case isTrue several =>
        obtain ⟨member, present⟩ := List.mem_filter.mp above
        obtain ⟨function', -, same⟩ := List.mem_map.mp member
        cases same
        exact ⟨rfl, rfl, .inr ⟨several, of_decide_eq_true present⟩⟩
      case isFalse => exact absurd above List.not_mem_nil
  · rintro ⟨rfl, rfl, rfl | ⟨several, present⟩⟩
    · exact .inl ⟨rfl, rfl, rfl⟩
    · by_cases zero : function = 0
      · exact .inl ⟨rfl, rfl, zero⟩
      · refine .inr ?_
        rw [if_pos several]
        have number := (mem_functionNumbers_iff function).mpr zero
        exact List.mem_filter.mpr ⟨List.mem_map_of_mem number, decide_eq_true present⟩

theorem mem_visibleOn_iff {l : Location} {bus : BitVec 8} :
    l ∈ visibleOn space bus ↔ l.bus = bus ∧ Visible space l := by
  simp only [visibleOn, List.mem_flatMap, List.mem_filter, decide_eq_true_eq,
    mem_functionsOf_iff]
  constructor
  · rintro ⟨device, ⟨-, present⟩, rfl, rfl, found⟩
    exact ⟨rfl, present, found⟩
  · rintro ⟨rfl, present, found⟩
    exact ⟨l.device, ⟨mem_deviceNumbers l.device, present⟩, rfl, rfl, found⟩

theorem functionsOf_nodup (bus : BitVec 8) (device : BitVec 5) :
    (functionsOf space bus device).Nodup := by
  have above : ((functionNumbers.map fun function => (⟨bus, device, function⟩ : Location)).filter
      (Present space ·)).Nodup :=
    (functionNumbers_nodup.map fun f f' same => congrArg Location.function same).filter _
  rw [functionsOf, List.nodup_cons]
  split
  · refine ⟨fun member => ?_, above⟩
    obtain ⟨function, number, same⟩ := List.mem_map.mp (List.mem_of_mem_filter member)
    exact (mem_functionNumbers_iff function).mp number (congrArg Location.function same)
  · exact ⟨List.not_mem_nil, List.nodup_nil⟩

theorem visibleOn_nodup (bus : BitVec 8) : (visibleOn space bus).Nodup := by
  refine List.nodup_flatMap.mpr ⟨fun device _ => functionsOf_nodup space bus device, ?_⟩
  refine (deviceNumbers_nodup.filter _).imp fun {device device'} differ l member member' => ?_
  obtain ⟨-, same, -⟩ := (mem_functionsOf_iff space).mp member
  obtain ⟨-, same', -⟩ := (mem_functionsOf_iff space).mp member'
  exact differ (same.symm.trans same')

theorem mem_rootBuses_iff {bus : BitVec 8} : bus ∈ rootBuses space ↔ IsRootBus space bus := by
  unfold rootBuses IsRootBus
  split
  · simp only [List.mem_map, List.mem_filter, decide_eq_true_eq]
    constructor
    · rintro ⟨function, ⟨-, present⟩, rfl⟩
      exact ⟨function, rfl, present⟩
    · rintro ⟨function, rfl, present⟩
      refine ⟨function, ⟨?_, present⟩, rfl⟩
      rw [List.mem_cons, mem_functionNumbers_iff]
      exact em _
  · exact List.mem_singleton

theorem rootBuses_nodup : (rootBuses space).Nodup := by
  unfold rootBuses
  split
  · refine List.Nodup.map (fun f f' same => ?_) (List.Nodup.filter _ (by decide))
    decide +revert
  · exact List.nodup_singleton 0

theorem mem_roots_iff {l : Location} :
    l ∈ roots space ↔ IsRootBus space l.bus ∧ Visible space l := by
  simp only [roots, List.mem_flatMap, mem_rootBuses_iff, mem_visibleOn_iff]
  constructor
  · rintro ⟨bus, isRoot, rfl, visible⟩
    exact ⟨isRoot, visible⟩
  · rintro ⟨isRoot, visible⟩
    exact ⟨l.bus, isRoot, rfl, visible⟩

theorem roots_nodup : (roots space).Nodup := by
  refine List.nodup_flatMap.mpr ⟨fun bus _ => visibleOn_nodup space bus, ?_⟩
  refine (rootBuses_nodup space).imp fun {bus bus'} differ l member member' => ?_
  obtain ⟨same, -⟩ := (mem_visibleOn_iff space).mp member
  obtain ⟨same', -⟩ := (mem_visibleOn_iff space).mp member'
  exact differ (same.symm.trans same')

theorem mem_behind_iff {bridge l : Location} : l ∈ behind space bridge ↔
    IsBridge space bridge ∧ l.bus = secondaryBus space bridge ∧ Visible space l := by
  unfold behind
  split
  case isTrue isBridge => simp only [mem_visibleOn_iff, isBridge, true_and]
  case isFalse isNot => simp only [List.not_mem_nil, isNot, false_and]

theorem reached_iff_reachable {l : Location} :
    Reached (behind space) (roots space) l ↔ Reachable space l := by
  constructor
  · intro reached
    induction reached with
    | root member =>
        obtain ⟨isRoot, visible⟩ := (mem_roots_iff space).mp member
        exact .root isRoot visible
    | child _ member ih =>
        obtain ⟨isBridge, bus, visible⟩ := (mem_behind_iff space).mp member
        exact .behind ih isBridge bus visible
  · intro reachable
    induction reachable with
    | root isRoot visible => exact .root ((mem_roots_iff space).mpr ⟨isRoot, visible⟩)
    | behind _ isBridge bus visible ih =>
        exact .child ih ((mem_behind_iff space).mpr ⟨isBridge, bus, visible⟩)

/-- Buses reached in one way make a forest. -/
theorem isForest (oneBridge : OneBridge space) (noWayBack : NoWayBack space) :
    IsForest (behind space) (roots space) where
  roots_nodup := roots_nodup space
  children_nodup l _ := by
    unfold behind
    split
    · exact visibleOn_nodup space _
    · exact List.nodup_nil
  parent_unique l l' reached reached' x member member' := by
    obtain ⟨isBridge, bus, -⟩ := (mem_behind_iff space).mp member
    obtain ⟨isBridge', bus', -⟩ := (mem_behind_iff space).mp member'
    exact oneBridge l l' ((reached_iff_reachable space).mp reached)
      ((reached_iff_reachable space).mp reached') isBridge isBridge' (bus.symm.trans bus')
  root_parentless l reached x member isRoot := by
    obtain ⟨isBridge, bus, -⟩ := (mem_behind_iff space).mp member
    refine noWayBack l ((reached_iff_reachable space).mp reached) isBridge ?_
    rw [← bus]
    exact ((mem_roots_iff space).mp isRoot).1

end Lists

section Walks

variable {space : ConfigSpace} {scan : BitVec 8 → Scan} {devices : List Device}

theorem visit_eq (l : Location) : visit space scan l =
    andThen (addDevice (deviceAt space l))
      (if IsBridge space l then scan (secondaryBus space l) else done) := by
  simp only [visit, scanFunction, readClassCode_eq, readHeaderType_eq, secondaryBus_eq,
    isMatch_iff]
  rfl

/-- `continue` where there is nothing. -/
theorem continue_eq {absent present : Prop} [Decidable absent] [Decidable present]
    (opposite : absent ↔ ¬ present) (body : Scan) :
    (if absent then done else body) = if decide present = true then body else done := by
  by_cases isPresent : present
  · rw [if_neg (fun isAbsent => opposite.mp isAbsent isPresent), if_pos (decide_eq_true isPresent)]
  · rw [if_pos (opposite.mpr isPresent), if_neg (fun yes => isPresent (of_decide_eq_true yes))]

/-- What `ScanDevice` finds of a device. -/
theorem scanDevice_eq (bus : BitVec 8) (device : BitVec 5) :
    scanDevice space scan bus (device.setWidth 8) =
      forEach (visit space scan) (functionsOf space bus device) := by
  rw [scanDevice, functionsOf, forEach]
  refine congrArg (andThen (visit space scan ⟨bus, device, 0⟩)) ?_
  have header : readHeaderType space bus (device.setWidth 8) 0 =
      headerType space ⟨bus, device, 0⟩ := readHeaderType_eq space ⟨bus, device, 0⟩
  rw [header, ite_isSingleFunctionDevice]
  by_cases several : (headerType space ⟨bus, device, 0⟩).getLsbD 7 = true
  · rw [if_pos several, if_pos several, counting_functions, forEach_map, forEach_filter,
      forEach_map]
    exact congrArg (forEach · functionNumbers) (funext fun function =>
      continue_eq (readVendorId_eq_iff space ⟨bus, device, function⟩) _)
  · rw [if_neg several, if_neg several]
    rfl

/-- What `ScanBus` finds on a bus. -/
theorem scanBus_succ (fuel : Nat) (bus : BitVec 8) :
    scanBus space (fuel + 1) bus =
      forEach (visit space (scanBus space fuel)) (visibleOn space bus) := by
  rw [scanBus, counting_devices, forEach_map, visibleOn, forEach_flatMap, forEach_filter]
  simp only [scanDevice_eq]
  exact congrArg (forEach · deviceNumbers) (funext fun device =>
    continue_eq (readVendorId_eq_iff space ⟨bus, device, 0⟩) _)

theorem scanAllBus_eq (fuel : Nat) :
    scanAllBus space fuel = forEach (scanBus space fuel) (rootBuses space) [] := by
  have header : readHeaderType space 0 0 0 = headerType space ⟨0, 0, 0⟩ :=
    readHeaderType_eq space ⟨0, 0, 0⟩
  rw [scanAllBus, rootBuses, header, ite_isSingleFunctionDevice]
  by_cases several : (headerType space ⟨0, 0, 0⟩).getLsbD 7 = true
  · rw [if_pos several, if_pos several, forEach_map, forEach_filter, counting_allFunctions,
      forEach_map]
    exact congrArg (forEach · _ []) (funext fun function =>
      continue_eq (readVendorId_eq_iff space ⟨0, 0, function⟩) _)
  · rw [if_neg several, if_neg several, forEach, forEach, andThen_done]

/-- Adding entries ends when the array is full. -/
theorem recordAll_eq (ls : List Location) (fits : devices.length ≤ maxDevices) :
    recordAll space ls devices =
      some ((devices ++ ls.map (deviceAt space)).take maxDevices,
        if devices.length + ls.length ≤ maxDevices then .success else .full) := by
  induction ls generalizing devices with
  | nil => simp [recordAll, forEach, done, fits, List.take_of_length_le fits]
  | cons l ls ih =>
      rw [recordAll, forEach]
      by_cases full : devices.length = maxDevices
      · rw [addDevice_andThen_of_full full, List.take_left' full, if_neg]
        rw [List.length_cons]
        omega
      · have room : (devices ++ [deviceAt space l]).length ≤ maxDevices := by
          rw [List.length_append, List.length_singleton]
          omega
        rw [addDevice_andThen_of_room full]
        refine (ih room).trans ?_
        simp only [List.append_assoc, List.singleton_append, List.map_cons, List.length_append,
          List.length_cons, List.length_nil, Nat.add_assoc, Nat.add_comm 1, Nat.zero_add]

/-- `devices` while there is fuel for its free space. -/
def Provided (fuel : Nat) (devices : List Device) : Prop :=
  devices.length ≤ maxDevices ∧ maxDevices < devices.length + fuel

theorem Provided.recordAll {fuel : Nat} {ls : List Location} {devices' : List Device}
    {err : Error} (provided : Provided fuel devices)
    (result : recordAll space ls devices = some (devices', err)) : Provided fuel devices' := by
  rw [recordAll_eq ls provided.1] at result
  cases result
  unfold Provided at provided ⊢
  rw [List.length_take, List.length_append]
  omega

/-- The scan of a bus records the walk from it. -/
theorem scanBus_eq {fuel : Nat} (bus : BitVec 8) (provided : Provided fuel devices) :
    scanBus space fuel bus devices =
      recordAll space (walk (behind space) fuel (visibleOn space bus)) devices := by
  induction fuel generalizing bus devices with
  | zero =>
      obtain ⟨most, less⟩ := provided
      omega
  | succ fuel ih =>
      rw [scanBus_succ, walk, recordAll, forEach_flatMap]
      refine forEach_congr (Provided (fuel + 1)) (fun l _ devices provided => ?_)
        (fun l _ devices devices' err provided result => provided.recordAll result) provided
      change visit space _ l devices = forEach _ (l :: walk (behind space) fuel _) devices
      rw [visit_eq, forEach]
      by_cases full : devices.length = maxDevices
      · rw [addDevice_andThen_of_full full, addDevice_andThen_of_full full]
      · rw [addDevice_andThen_of_room full, addDevice_andThen_of_room full]
        have provided' : Provided fuel (devices ++ [deviceAt space l]) := by
          unfold Provided at provided ⊢
          rw [List.length_append, List.length_singleton]
          omega
        unfold behind
        split
        · exact ih _ provided'
        · rw [walk_nil]
          rfl

/-- `ScanAllBus` records the walk from the roots. -/
theorem scanAllBus_walk (space : ConfigSpace) {fuel : Nat} (enough : maxDevices < fuel) :
    scanAllBus space fuel =
      some (((walk (behind space) fuel (roots space)).map (deviceAt space)).take maxDevices,
        if (walk (behind space) fuel (roots space)).length ≤ maxDevices then .success
        else .full) := by
  have provided : Provided fuel [] := ⟨Nat.zero_le _, by simpa using enough⟩
  rw [scanAllBus_eq, forEach_congr (Provided fuel) (fun bus _ _ => scanBus_eq bus)
    (fun bus _ _ _ _ provided result => provided.recordAll result) provided]
  unfold recordAll
  rw [← forEach_flatMap, ← walk_flatMap]
  refine (recordAll_eq _ (Nat.zero_le _)).trans ?_
  rw [List.nil_append, List.length_nil, Nat.zero_add, roots]

end Walks

/-! ## Enumeration -/

/-- The scan ends with at most 32 entries, each of a function that is present and
reached.  If every bus is reached in one way and there are at most 32 functions,
it lists each of them once. -/
theorem scanAllBus_exact (space : ConfigSpace) : ∃ devices err,
    (∀ fuel, maxDevices < fuel → scanAllBus space fuel = some (devices, err)) ∧
      devices.length ≤ maxDevices ∧
      (∀ dev ∈ devices, ∃ l, dev = deviceAt space l ∧ Present space l ∧ Reachable space l) ∧
      (OneBridge space → NoWayBack space → {l | Reachable space l}.encard ≤ maxDevices →
        err = .success ∧ ∃ ls : List Location, ls.Nodup ∧ (∀ l, l ∈ ls ↔ Reachable space l) ∧
          devices = ls.map (deviceAt space)) := by
  have ends := scanAllBus_walk space (Nat.lt_succ_self maxDevices)
  refine ⟨_, _, fun fuel enough => scanAllBus_mono ends enough, ?_, ?_, ?_⟩
  · exact List.length_take_le maxDevices _
  · intro dev member
    obtain ⟨l, listed, rfl⟩ := List.mem_map.mp (List.mem_of_mem_take member)
    have reachable := (reached_iff_reachable space).mp (mem_walk_reached listed)
    exact ⟨l, rfl, reachable.visible.present, reachable⟩
  · intro oneBridge noWayBack few
    have forest := isForest space oneBridge noWayBack
    have few' : {l | Reached (behind space) (roots space) l}.encard ≤ maxDevices := by
      simpa only [reached_iff_reachable] using few
    have short := forest.length_walk_le few' (maxDevices + 1)
    refine ⟨if_pos short, walk (behind space) (maxDevices + 1) (roots space),
      forest.walk_nodup _, fun l => ?_, ?_⟩
    · rw [forest.mem_walk_iff_reached few' (Nat.le_succ _), reached_iff_reachable]
    · rw [List.take_of_length_le]
      rwa [List.length_map]

/-- A configuration space of single functions, with the registers of their class
codes and bus numbers. -/
def configured (entries : List (Location × BitVec 32 × BitVec 32)) : ConfigSpace :=
  fun bus device function reg =>
    match entries.lookup ⟨bus, device, function⟩ with
    | none => 0xffffffff
    | some (code, numbers) =>
        if reg = 0 then 0x1237_8086 else if reg = 2 then code else if reg = 6 then numbers else 0

theorem present_configured {entries : List (Location × BitVec 32 × BitVec 32)} {l : Location}
    (present : Present (configured entries) l) : l ∈ entries.map Prod.fst := by
  by_contra absent
  have missing : entries.lookup l = none := by
    refine List.lookup_eq_none_iff.mpr fun entry member => ?_
    exact bne_iff_ne.mpr fun same => absent (same ▸ List.mem_map_of_mem member)
  refine present ?_
  simp only [register, configured, missing]
  rfl

theorem reachable_configured_encard (entries : List (Location × BitVec 32 × BitVec 32)) :
    {l | Reachable (configured entries) l}.encard ≤ entries.length := by
  classical
  have listed : {l | Reachable (configured entries) l} ⊆
      ((entries.map Prod.fst).toFinset : Set Location) := fun l reachable =>
    List.mem_toFinset.mpr (present_configured (Reachable.visible reachable).present)
  refine (Set.encard_le_encard listed).trans ?_
  have short : (entries.map Prod.fst).toFinset.card ≤ entries.length :=
    (List.toFinset_card_le _).trans (List.length_map Prod.fst).le
  rw [Set.encard_coe_eq_coe_finsetCard]
  exact_mod_cast short

/-- Device 1 on bus 0 is a bridge to bus 1, on which there is a function. -/
def oneBridge : ConfigSpace :=
  configured [(⟨0, 0, 0⟩, 0x06000000, 0), (⟨0, 1, 0⟩, 0x06040000, 0x00010100),
    (⟨1, 0, 0⟩, 0x0c033000, 0)]

theorem scanAllBus_exact_oneBridge : ∃ ls : List Location, ls.Nodup ∧
    (∀ l, l ∈ ls ↔ Reachable oneBridge l) ∧
    scanAllBus oneBridge 33 = some (ls.map (deviceAt oneBridge), .success) := by
  obtain ⟨devices, err, ends, -, -, lists⟩ := scanAllBus_exact oneBridge
  have only {l : Location} (reachable : Reachable oneBridge l) (isBridge : IsBridge oneBridge l) :
      l = ⟨0, 1, 0⟩ := by
    have bridges : ∀ l ∈ [(⟨0, 0, 0⟩ : Location), ⟨0, 1, 0⟩, ⟨1, 0, 0⟩],
        IsBridge oneBridge l → l = ⟨0, 1, 0⟩ := by decide
    exact bridges l (present_configured reachable.visible.present) isBridge
  have forward : NoWayBack oneBridge := by
    intro l reachable isBridge
    rw [only reachable isBridge, ← mem_rootBuses_iff]
    decide
  obtain ⟨rfl, ls, nodup, listed, rfl⟩ := lists
    (fun l l' reachable reachable' isBridge isBridge' _ =>
      (only reachable isBridge).trans (only reachable' isBridge').symm)
    forward ((reachable_configured_encard _).trans (by decide))
  exact ⟨ls, nodup, listed, ends 33 (by decide)⟩

/-- The only function is a bridge back to its own bus. -/
def loop : ConfigSpace :=
  configured [(⟨0, 0, 0⟩, 0x06040000, 0)]

/-- Behind the bridge is the bridge, until the array is full. -/
theorem not_exact_loop : OneBridge loop ∧ {l | Reachable loop l}.encard ≤ maxDevices ∧
    ∀ fuel, maxDevices < fuel →
      scanAllBus loop fuel = some (List.replicate 32 (deviceAt loop ⟨0, 0, 0⟩), .full) := by
  have only {l : Location} (reachable : Reachable loop l) : l = ⟨0, 0, 0⟩ :=
    List.mem_singleton.mp (present_configured reachable.visible.present)
  refine ⟨fun l l' reachable reachable' _ _ _ => (only reachable).trans (only reachable').symm,
    (reachable_configured_encard _).trans (by decide), fun fuel enough => ?_⟩
  have isRoot : roots loop = [⟨0, 0, 0⟩] := by decide
  have again : behind loop ⟨0, 0, 0⟩ = [⟨0, 0, 0⟩] := by decide
  have walked (depth : Nat) :
      walk (behind loop) depth [⟨0, 0, 0⟩] = List.replicate depth ⟨0, 0, 0⟩ := by
    induction depth with
    | zero => rfl
    | succ depth ih => rw [walk, List.flatMap_singleton, again, ih, List.replicate_succ]
  rw [scanAllBus_walk loop enough, isRoot, walked, List.map_replicate, List.take_replicate,
    List.length_replicate, if_neg (by omega), Nat.min_eq_left enough.le]
  rfl

end Mikanos.Pci
