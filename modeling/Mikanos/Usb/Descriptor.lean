import Mikanos.Memory.Reading
import Mikanos.Usb.Pool
import Mikanos.Usb.Waiters

/-!
# Descriptors

`InitializePhase2` reads a configuration descriptor and what follows it in the buffer of the
device.  A descriptor is named by its offset in the buffer.  The bytes are those of the memory
from the buffer on: nothing keeps the parser from reading past the length that it is given.
-/

namespace Mikanos.Usb

open Memory

def ConfigurationDescriptor.kType : UInt8 := 2

def InterfaceDescriptor.kType : UInt8 := 4

def EndpointDescriptor.kType : UInt8 := 5

def HIDDescriptor.kType : UInt8 := 33

/-- `EndpointID`. -/
structure EndpointID where
  addr : Nat
  deriving DecidableEq

/-- The ID of an endpoint number and a direction. -/
def EndpointID.ofNumber (epNum : Nat) (dirIn : Bool) : EndpointID :=
  ⟨2 * epNum + dirIn.toNat⟩

def EndpointID.number (epId : EndpointID) : Nat :=
  epId.addr / 2

def EndpointID.isIn (epId : EndpointID) : Bool :=
  epId.addr % 2 = 1

inductive EndpointType
  | control
  | isochronous
  | bulk
  | interrupt
  deriving DecidableEq

/-- The type that two bits stand for. -/
def EndpointType.ofBits (bits : Nat) : EndpointType :=
  match bits % 4 with
  | 0 => .control
  | 1 => .isochronous
  | 2 => .bulk
  | _ => .interrupt

structure EndpointConfig where
  epId : EndpointID
  epType : EndpointType
  maxPacketSize : Nat
  interval : Nat
  deriving DecidableEq

/-- The kinds of class drivers that there are. -/
inductive DriverKind
  | keyboard
  | mouse
  deriving DecidableEq

/-- `HIDKeyboardDriver` or `HIDMouseDriver`, at an address. -/
structure HIDDriver where
  address : Nat
  kind : DriverKind
  interfaceIndex : UInt8
  deriving DecidableEq

/-- Where class drivers are allocated, and how large they are. -/
structure DriverHeap where
  memoryPool : Nat
  size : DriverKind → Nat

/-- The pool has room for a driver of either kind. -/
def DriverHeap.HasRoom (heap : DriverHeap) (allocPtr : Nat) : Prop :=
  ∀ kind, (allocMem heap.memoryPool allocPtr ⟨heap.size kind, 0, 0⟩).2.isSome

/-- `usb::Device`, as far as `InitializePhase2` is concerned, with `alloc_ptr` and the control
requests issued. -/
structure InitDevice where
  classDrivers : Nat → Option HIDDriver
  epConfigs : Nat → EndpointConfig
  numEpConfigs : Nat
  initializePhase : Nat
  allocPtr : Nat
  requests : List SetupData

/-- A device that has got its device descriptor. -/
def InitDevice.configuring (allocPtr : Nat) : InitDevice where
  classDrivers := fun _ => none
  epConfigs := fun _ => ⟨⟨0⟩, .control, 0, 0⟩
  numEpConfigs := 0
  initializePhase := 2
  allocPtr
  requests := []

/-- What must not happen. -/
inductive Fault
  /-- a null pointer is taken for a descriptor -/
  | nullDescriptor
  /-- an element of `ep_configs_` is used that it does not have -/
  | epConfigs
  /-- the constructor of a driver is run on a null pointer -/
  | nullDriver
  deriving DecidableEq

/-- The memory from `buf` on, and `len`. -/
structure DescriptorBuffer where
  bytes : Nat → UInt8
  len : Int

namespace DescriptorBuffer

variable (b : DescriptorBuffer)

abbrev Parse (α : Type) : Type :=
  Reading Nat Fault α

def byte (i : Nat) : Parse UInt8 :=
  Reading.read b.bytes i

/-- `DescriptorDynamicCast`: whether the descriptor has the type. -/
def dynamicCast (kType : UInt8) (desc : Nat) : Parse Bool := do
  let type ← b.byte (desc + 1)
  return type = kType

/-! ## `ConfigurationDescriptorReader` -/

/-- `Next`. -/
def next (p : Nat) : Parse (Option Nat) := do
  let length ← b.byte p
  let p := p + length.toNat
  return if (p : Int) < b.len then some p else none

/-- `Next<T>`. -/
def nextOf (kType : UInt8) : Nat → Nat → Parse (Option Nat)
  | 0, _ => .pending
  | rounds + 1, p => do
      match ← b.next p with
      | none => return none
      | some n =>
          if ← b.dynamicCast kType n then return some n
          else nextOf kType rounds n

/-! ## What is made of a descriptor -/

/-- `MakeEPConfig`. -/
def makeEPConfig (epDesc : Nat) : Parse EndpointConfig := do
  let address ← b.byte (epDesc + 2)
  let attributes ← b.byte (epDesc + 3)
  let low ← b.byte (epDesc + 4)
  let high ← b.byte (epDesc + 5)
  let interval ← b.byte (epDesc + 6)
  return {
    epId := .ofNumber (address.toNat % 16) (128 ≤ address.toNat)
    epType := .ofBits attributes.toNat
    maxPacketSize := low.toNat + 256 * high.toNat
    interval := interval.toNat }

/-- `new` for a class driver. -/
def newDriver (heap : DriverHeap) (d : InitDevice) (kind : DriverKind) (ifDesc : Nat) :
    Parse (InitDevice × Option HIDDriver) :=
  match allocMem heap.memoryPool d.allocPtr ⟨heap.size kind, 0, 0⟩ with
  | (_, none) => .fail .nullDriver
  | (allocPtr, some address) => do
      let interfaceNumber ← b.byte (ifDesc + 2)
      return ({ d with allocPtr }, some ⟨address, kind, interfaceNumber⟩)

/-- `NewClassDriver`. -/
def newClassDriver (heap : DriverHeap) (d : InitDevice) (ifDesc : Nat) :
    Parse (InitDevice × Option HIDDriver) := do
  let interfaceClass ← b.byte (ifDesc + 5)
  if interfaceClass = 3 then
    let interfaceSubClass ← b.byte (ifDesc + 6)
    if interfaceSubClass = 1 then
      let interfaceProtocol ← b.byte (ifDesc + 7)
      if interfaceProtocol = 1 then b.newDriver heap d .keyboard ifDesc
      else if interfaceProtocol = 2 then b.newDriver heap d .mouse ifDesc
      else return (d, none)
    else return (d, none)
  else return (d, none)

/-- What is logged of an interface descriptor. -/
def logInterface (ifDesc : Nat) : Parse Unit := do
  let _ ← b.byte (ifDesc + 5)
  let _ ← b.byte (ifDesc + 6)
  let _ ← b.byte (ifDesc + 7)

/-- The descriptors that a HID descriptor lists are logged, beginning with one of them. -/
def logClassDescriptors (hidDesc : Nat) : Nat → Nat → Parse Unit
  | 0, _ => return ()
  | count + 1, i => do
      let _ ← b.byte (hidDesc + 5)
      let _ ← b.byte (hidDesc + 6 + 3 * i)
      let _ ← b.byte (hidDesc + 6 + 3 * i + 1)
      let _ ← b.byte (hidDesc + 6 + 3 * i + 2)
      logClassDescriptors hidDesc count (i + 1)

/-- What is logged of a HID descriptor. -/
def logHID (hidDesc : Nat) : Parse Unit := do
  let _ ← b.byte (hidDesc + 2)
  let _ ← b.byte (hidDesc + 3)
  let numDescriptors ← b.byte (hidDesc + 5)
  b.logClassDescriptors hidDesc numDescriptors.toNat 0

/-! ## `InitializePhase2` -/

/-- An endpoint is entered into `ep_configs_` and `class_drivers_`. -/
def addEndpoint (d : InitDevice) (driver : HIDDriver) (conf : EndpointConfig) : InitDevice :=
  { d with
    epConfigs := Function.update d.epConfigs d.numEpConfigs conf
    numEpConfigs := d.numEpConfigs + 1
    classDrivers := Function.update d.classDrivers conf.epId.number (some driver) }

/-- The inner loop, for the endpoints of an interface. -/
def collectEndpoints (driver : HIDDriver) (ifDesc : Nat) : Nat → Nat → InitDevice → Parse InitDevice
  | 0, _, _ => .pending
  | rounds + 1, p, d => do
      let numEndpoints ← b.byte (ifDesc + 4)
      if d.numEpConfigs < numEndpoints.toNat then
        match ← b.next p with
        | none => .fail .nullDescriptor
        | some desc =>
            if ← b.dynamicCast EndpointDescriptor.kType desc then
              let conf ← b.makeEPConfig desc
              if d.numEpConfigs < 16 then
                collectEndpoints driver ifDesc rounds desc (addEndpoint d driver conf)
              else .fail .epConfigs
            else
              if ← b.dynamicCast HIDDescriptor.kType desc then
                b.logHID desc
              collectEndpoints driver ifDesc rounds desc d
      else return d

/-- The outer loop; the result is the driver, if there is one. -/
def searchInterface (heap : DriverHeap) (rounds : Nat) :
    Nat → Nat → InitDevice → Parse (InitDevice × Option HIDDriver)
  | 0, _, _ => .pending
  | left + 1, p, d => do
      match ← b.nextOf InterfaceDescriptor.kType rounds p with
      | none => return (d, none)
      | some ifDesc =>
          b.logInterface ifDesc
          match ← b.newClassDriver heap d ifDesc with
          | (d, none) => searchInterface heap rounds left ifDesc d
          | (d, some driver) =>
              let d ← b.collectEndpoints driver ifDesc rounds ifDesc { d with numEpConfigs := 0 }
              return (d, some driver)

/-- The request of `SetConfiguration`. -/
def setConfigurationData (configValue : UInt8) : SetupData where
  requestType := 0
  request := 9
  value := BitVec.ofNat 16 configValue.toNat
  index := 0
  length := 0

/-- `InitializePhase2`; each of its loops is cut after some rounds. -/
def initializePhase2 (heap : DriverHeap) (rounds : Nat) (d : InitDevice) :
    Parse (InitDevice × Error) := do
  if ← b.dynamicCast ConfigurationDescriptor.kType 0 then
    match ← b.searchInterface heap rounds rounds 0 d with
    | (d, none) => return (d, .success)
    | (d, some _) =>
        let configurationValue ← b.byte 5
        return ({ d with
          initializePhase := 3
          requests := d.requests ++ [setConfigurationData configurationValue] }, .success)
  else return (d, .invalidDescriptor)

end DescriptorBuffer

end Mikanos.Usb
