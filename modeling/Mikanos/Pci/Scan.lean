import Mathlib.Tactic
import Mikanos.Error

/-!
# Scanning the PCI buses

`ScanAllBus` fills the array `devices` with the functions that it finds on bus 0
and, through the bridges among them, on the buses behind.  Configuration space
is an arbitrary function from bus, device, function and register to 32 bits; it
is read through the two ports that hold an address and the data at it.  The
recursion follows the bus numbers that the bridges hold, so it gets fuel here.
-/

namespace Mikanos.Pci

/-- What configuration space holds at a bus, a device, a function and a register
of 32 bits. -/
abbrev ConfigSpace := BitVec 8 → BitVec 5 → BitVec 3 → BitVec 6 → BitVec 32

/-! ## Registers -/

/-- `MakeAddress`. -/
def makeAddress (bus device function regAddr : BitVec 8) : BitVec 32 :=
  let shl := fun (x : BitVec 32) (bits : Nat) => x <<< bits
  shl 1 31  -- enable bit
    ||| shl (bus.setWidth 32) 16
    ||| shl (device.setWidth 32) 11
    ||| shl (function.setWidth 32) 8
    ||| (regAddr.setWidth 32 &&& 0xfc)

/-- `WriteAddress` followed by `ReadData`: without the enable bit, the second port
is not routed to configuration space. -/
def readData (space : ConfigSpace) (address : BitVec 32) : BitVec 32 :=
  if address.getLsbD 31 then
    space (address.extractLsb' 16 8) (address.extractLsb' 11 5) (address.extractLsb' 8 3)
      (address.extractLsb' 2 6)
  else
    0xffffffff

/-- `ReadVendorId`. -/
def readVendorId (space : ConfigSpace) (bus device function : BitVec 8) : BitVec 16 :=
  (readData space (makeAddress bus device function 0x00) &&& 0xffff).setWidth 16

/-- `ReadHeaderType`. -/
def readHeaderType (space : ConfigSpace) (bus device function : BitVec 8) : BitVec 8 :=
  ((readData space (makeAddress bus device function 0x0c) >>> 16) &&& 0xff).setWidth 8

/-- `ClassCode`. -/
structure ClassCode where
  base : BitVec 8
  sub : BitVec 8
  interface : BitVec 8
  deriving DecidableEq

/-- `ClassCode::Match` of two numbers. -/
def ClassCode.isMatch (classCode : ClassCode) (b s : BitVec 8) : Bool :=
  b == classCode.base && s == classCode.sub

/-- `ReadClassCode`. -/
def readClassCode (space : ConfigSpace) (bus device function : BitVec 8) : ClassCode :=
  let reg := readData space (makeAddress bus device function 0x08)
  { base := ((reg >>> 24) &&& 0xff).setWidth 8
    sub := ((reg >>> 16) &&& 0xff).setWidth 8
    interface := ((reg >>> 8) &&& 0xff).setWidth 8 }

/-- `ReadBusNumbers`. -/
def readBusNumbers (space : ConfigSpace) (bus device function : BitVec 8) : BitVec 32 :=
  readData space (makeAddress bus device function 0x18)

/-- `IsSingleFunctionDevice`. -/
def isSingleFunctionDevice (headerType : BitVec 8) : Bool :=
  headerType &&& 0x80 == 0

/-- `Device`. -/
structure Device where
  bus : BitVec 8
  device : BitVec 8
  function : BitVec 8
  headerType : BitVec 8
  classCode : ClassCode
  deriving DecidableEq

/-! ## Scans -/

/-- The number of elements of the array `devices`. -/
def maxDevices : Nat := 32

/-- A function that adds to `devices[0..num_device)` and returns an `Error`;
`none` when it is out of fuel. -/
abbrev Scan := List Device → Option (List Device × Error)

namespace Scan

/-- To return success at once. -/
def done : Scan := fun devices => some (devices, .success)

/-- `if (auto err = first) return err;` before what comes next. -/
def andThen (first next : Scan) : Scan := fun devices =>
  (first devices).bind fun (devices, err) =>
    if err = .success then next devices else some (devices, err)

/-- A loop whose body returns from it with an error. -/
def forEach {α : Type} (body : α → Scan) : List α → Scan
  | [] => done
  | x :: rest => andThen (body x) (forEach body rest)

end Scan

open Scan

/-- The values of a counter of 8 bits in a loop. -/
def counting (first last : Nat) : List (BitVec 8) :=
  (List.range' first (last - first)).map (BitVec.ofNat 8)

/-- `AddDevice`. -/
def addDevice (dev : Device) : Scan := fun devices =>
  if devices.length = maxDevices then some (devices, .full)
  else some (devices ++ [dev], .success)

/-- `ScanFunction`. -/
def scanFunction (space : ConfigSpace) (scanBus : BitVec 8 → Scan)
    (bus device function : BitVec 8) : Scan :=
  let classCode := readClassCode space bus device function
  let headerType := readHeaderType space bus device function
  andThen (addDevice ⟨bus, device, function, headerType, classCode⟩) <|
    if classCode.isMatch 0x06 0x04 then
      -- standard PCI-PCI bridge
      scanBus (((readBusNumbers space bus device function >>> 8) &&& 0xff).setWidth 8)
    else
      done

/-- `ScanDevice`. -/
def scanDevice (space : ConfigSpace) (scanBus : BitVec 8 → Scan) (bus device : BitVec 8) : Scan :=
  andThen (scanFunction space scanBus bus device 0) <|
    if isSingleFunctionDevice (readHeaderType space bus device 0) then
      done
    else
      forEach (fun function =>
        if readVendorId space bus device function = 0xffff then done
        else scanFunction space scanBus bus device function) (counting 1 8)

/-- `ScanBus`. -/
def scanBus (space : ConfigSpace) : Nat → BitVec 8 → Scan
  | 0, _ => fun _ => none
  | fuel + 1, bus =>
      forEach (fun device =>
        if readVendorId space bus device 0 = 0xffff then done
        else scanDevice space (scanBus space fuel) bus device) (counting 0 32)

/-- `ScanAllBus`. -/
def scanAllBus (space : ConfigSpace) (fuel : Nat) : Option (List Device × Error) :=
  let scan :=
    if isSingleFunctionDevice (readHeaderType space 0 0 0) then
      scanBus space fuel 0
    else
      forEach (fun function =>
        if readVendorId space 0 0 function = 0xffff then done
        else scanBus space fuel function) (counting 0 8)
  scan []

/-! ## Laws of scans -/

namespace Scan

variable {α β : Type}

@[simp]
theorem done_andThen (next : Scan) : andThen done next = next :=
  rfl

@[simp]
theorem andThen_done (first : Scan) : andThen first done = first := by
  funext devices
  unfold andThen
  cases result : first devices with
  | none => rfl
  | some pair =>
      obtain ⟨devices, err⟩ := pair
      by_cases success : err = .success
      · simp [success, done]
      · simp [success]

theorem andThen_assoc (first second third : Scan) :
    andThen (andThen first second) third = andThen first (andThen second third) := by
  funext devices
  unfold andThen
  cases first devices with
  | none => rfl
  | some pair =>
      obtain ⟨devices, err⟩ := pair
      by_cases success : err = .success
      · simp [success]
      · simp [success]

theorem forEach_append (body : α → Scan) (xs ys : List α) :
    forEach body (xs ++ ys) = andThen (forEach body xs) (forEach body ys) := by
  induction xs with
  | nil => rfl
  | cons x xs ih => rw [List.cons_append, forEach, ih, forEach, andThen_assoc]

theorem forEach_flatMap (body : α → Scan) (f : β → List α) (xs : List β) :
    forEach body (xs.flatMap f) = forEach (fun x => forEach body (f x)) xs := by
  induction xs with
  | nil => rfl
  | cons x xs ih => rw [List.flatMap_cons, forEach_append, ih, forEach]

theorem forEach_map (body : α → Scan) (f : β → α) (xs : List β) :
    forEach body (xs.map f) = forEach (fun x => body (f x)) xs := by
  induction xs with
  | nil => rfl
  | cons x xs ih => rw [List.map_cons, forEach, ih, forEach]

/-- A loop that passes over some of the elements. -/
theorem forEach_filter (body : α → Scan) (keep : α → Bool) (xs : List α) :
    forEach body (xs.filter keep) = forEach (fun x => if keep x then body x else done) xs := by
  induction xs with
  | nil => rfl
  | cons x xs ih =>
      rw [List.filter_cons, forEach]
      split <;> simp [forEach, ih]

/-- Loops whose bodies agree where an invariant holds agree there. -/
theorem forEach_congr (Inv : List Device → Prop) {body body' : α → Scan} {xs : List α}
    (agree : ∀ x ∈ xs, ∀ devices, Inv devices → body x devices = body' x devices)
    (kept : ∀ x ∈ xs, ∀ devices devices' err, Inv devices →
      body' x devices = some (devices', err) → Inv devices')
    {devices : List Device} (holds : Inv devices) :
    forEach body xs devices = forEach body' xs devices := by
  induction xs generalizing devices with
  | nil => rfl
  | cons x xs ih =>
      rw [forEach, forEach, andThen, andThen, agree x List.mem_cons_self devices holds]
      cases result : body' x devices with
      | none => rfl
      | some pair =>
          obtain ⟨middle, err⟩ := pair
          have holds' := kept x List.mem_cons_self devices middle err holds result
          have rest := ih (fun y member => agree y (List.mem_cons_of_mem x member))
            (fun y member => kept y (List.mem_cons_of_mem x member)) holds'
          simp only [Option.bind_some, rest]

theorem addDevice_andThen_of_full {devices : List Device} (full : devices.length = maxDevices)
    (dev : Device) (next : Scan) :
    andThen (addDevice dev) next devices = some (devices, .full) := by
  simp [andThen, addDevice, full]

theorem addDevice_andThen_of_room {devices : List Device} (room : devices.length ≠ maxDevices)
    (dev : Device) (next : Scan) :
    andThen (addDevice dev) next devices = next (devices ++ [dev]) := by
  simp [andThen, addDevice, room]

/-- What `first` returns, `second` returns too. -/
def Extends (first second : Scan) : Prop :=
  ∀ devices result, first devices = some result → second devices = some result

theorem Extends.refl (scan : Scan) : Extends scan scan :=
  fun _ _ returns => returns

theorem Extends.andThen {first first' next next' : Scan} (head : Extends first first')
    (tail : Extends next next') : Extends (first.andThen next) (first'.andThen next') := by
  intro devices result returns
  obtain ⟨⟨middle, err⟩, before, after⟩ := Option.bind_eq_some_iff.mp returns
  refine Option.bind_eq_some_iff.mpr ⟨(middle, err), head _ _ before, ?_⟩
  by_cases success : err = .success
  · simp only [success, if_true] at after ⊢
    exact tail _ _ after
  · simp only [success, if_false] at after ⊢
    exact after

theorem Extends.forEach {body body' : α → Scan} (bodies : ∀ x, Extends (body x) (body' x))
    (xs : List α) : Extends (forEach body xs) (forEach body' xs) := by
  induction xs with
  | nil => exact .refl done
  | cons x xs ih => exact (bodies x).andThen ih

end Scan

/-! ## Fuel -/

section Fuel

variable {space : ConfigSpace} {scan scan' : BitVec 8 → Scan}

theorem scanFunction_extends (scans : ∀ bus, Extends (scan bus) (scan' bus))
    (bus device function : BitVec 8) :
    Extends (scanFunction space scan bus device function)
      (scanFunction space scan' bus device function) := by
  refine .andThen (.refl _) ?_
  split
  · exact scans _
  · exact .refl done

theorem scanDevice_extends (scans : ∀ bus, Extends (scan bus) (scan' bus))
    (bus device : BitVec 8) :
    Extends (scanDevice space scan bus device) (scanDevice space scan' bus device) := by
  refine .andThen (scanFunction_extends scans bus device 0) ?_
  split
  · exact .refl done
  · refine .forEach (fun function => ?_) _
    split
    · exact .refl done
    · exact scanFunction_extends scans bus device function

/-- More fuel changes no result. -/
theorem scanBus_extends (space : ConfigSpace) (fuel : Nat) (bus : BitVec 8) :
    Extends (scanBus space fuel bus) (scanBus space (fuel + 1) bus) := by
  induction fuel generalizing bus with
  | zero =>
      intro devices result returns
      cases returns
  | succ fuel ih =>
      refine .forEach (fun device => ?_) _
      split
      · exact .refl done
      · exact scanDevice_extends ih bus device

theorem scanAllBus_succ {fuel : Nat} {result : List Device × Error}
    (returns : scanAllBus space fuel = some result) :
    scanAllBus space (fuel + 1) = some result := by
  unfold scanAllBus at returns ⊢
  revert returns
  split
  · exact scanBus_extends space fuel 0 _ _
  · refine Extends.forEach (fun function => ?_) _ _ _
    split
    · exact .refl done
    · exact scanBus_extends space fuel function

theorem scanAllBus_mono {fuel fuel' : Nat} {result : List Device × Error}
    (returns : scanAllBus space fuel = some result) (more : fuel ≤ fuel') :
    scanAllBus space fuel' = some result := by
  induction more with
  | refl => exact returns
  | step _ ih => exact scanAllBus_succ ih

end Fuel

end Mikanos.Pci
