import Mikanos.Usb.Waiters
import Mikanos.Xhci.Ring

/-!
# Control transfers

`xhci::Device` turns a control request into the blocks of a setup stage, an
optional data stage and a status stage, and remembers in `setup_stage_map_` which
setup stage belongs to the block whose completion is reported.  When the event
arrives, the request is read back from the blocks in the transfer ring.
-/

namespace Mikanos.Xhci

open Mikanos.Usb

/-! ## The blocks of a control transfer -/

namespace TRB

/-- The last word of a block: the bits below `trb_type`, `trb_type`, and the bits
above it. -/
def lastWord (control : BitVec 16) (type : BitVec 6) (flags : BitVec 10) : BitVec 32 :=
  control ++ type ++ flags

/-- `NormalTRB::Type`. -/
def normalType : BitVec 6 := 1#6

/-- `SetupStageTRB::Type`. -/
def setupStageType : BitVec 6 := 2#6

/-- `DataStageTRB::Type`. -/
def dataStageType : BitVec 6 := 3#6

/-- `StatusStageTRB::Type`. -/
def statusStageType : BitVec 6 := 4#6

/-- `interrupt_on_completion`. -/
def ioc : BitVec 10 := 1#10 <<< 5

/-- `immediate_data`. -/
def immediateData : BitVec 10 := 1#10 <<< 6

/-- `SetupStageTRB::kNoDataStage`, `kOutDataStage` and `kInDataStage`. -/
inductive TransferType
  | noDataStage
  | outDataStage
  | inDataStage

def TransferType.bits : TransferType → BitVec 16
  | .noDataStage => 0
  | .outDataStage => 2
  | .inDataStage => 3

/-- `MakeSetupStageTRB`. -/
def makeSetupStage (s : SetupData) (transferType : TransferType) : TRB :=
  ![s.value ++ s.request ++ s.requestType, s.length ++ s.index, 8,
    lastWord transferType.bits setupStageType immediateData]

/-- `MakeDataStageTRB`, with `interrupt_on_completion` set as its callers do. -/
def makeDataStage (buf : BitVec 64) (len : Int) (dirIn : Bool) : TRB :=
  ![buf.extractLsb' 0 32, buf.extractLsb' 32 32, (BitVec.ofInt 17 len).setWidth 32,
    lastWord ((BitVec.ofBool dirIn).setWidth 16) dataStageType ioc]

/-- `StatusStageTRB`, with its direction and `interrupt_on_completion`. -/
def makeStatusStage (direction interrupts : Bool) : TRB :=
  ![0, 0, 0, lastWord ((BitVec.ofBool direction).setWidth 16) statusStageType
    (if interrupts then ioc else 0)]

/-- The fields that `OnTransferEventReceived` reads from a setup stage. -/
def setupData (trb : TRB) : SetupData where
  requestType := (trb 0).extractLsb' 0 8
  request := (trb 0).extractLsb' 8 8
  value := (trb 0).extractLsb' 16 16
  index := (trb 1).extractLsb' 0 16
  length := (trb 1).extractLsb' 16 16

/-- `data_buffer_pointer`. -/
def dataBufferPointer (trb : TRB) : BitVec 64 :=
  trb 1 ++ trb 0

/-- `trb_transfer_length` of a normal block or a data stage. -/
def transferLength (trb : TRB) : BitVec 17 :=
  (trb 2).extractLsb' 0 17

end TRB

/-! ## The device -/

/-- `TransferEventTRB`. -/
structure TransferEvent where
  trbPointer : Nat
  trbTransferLength : BitVec 24
  completionCode : Fin 256
  endpointId : Fin 32

/-- An endpoint's address. -/
abbrev EndpointID := Int

/-- `EndpointID::Number`. -/
def EndpointID.number (ep : EndpointID) : Int :=
  ep / 2

/-- `xhci::Device`, as far as transfers are concerned.  `transfer_rings_` is
indexed by the device context index, which counts from 1. -/
structure Device where
  usb : Usb.Device
  transferRings : Nat → Option Ring
  setupStageMap : ArrayMap Nat Nat 16

/-- What `OnTransferEventReceived` calls, or the error that it returns. -/
inductive Received
  | error (e : Error)
  /-- `OnControlCompleted` -/
  | controlCompleted (ep : Fin 32) (setupData : SetupData) (buf : BitVec 64) (len : Int)
  /-- `OnInterruptCompleted` -/
  | interruptCompleted (ep : Fin 32) (buf : BitVec 64) (len : Int)
  deriving DecidableEq

/-- The value of an unsigned difference that is stored in an `int`. -/
def intDifference (a : BitVec 17) (b : BitVec 24) : Int :=
  (a.setWidth 32 - b.setWidth 32).toInt

namespace Device

/-- The ring that holds an address, if any. -/
def ringAt (d : Device) (addr : Nat) : Option Ring :=
  ((List.range 32).filterMap d.transferRings).find? fun r =>
    r.region.base ≤ addr ∧ addr < r.region.base + 16 * r.region.size

/-- The block at an address; outside of the transfer rings there is none. -/
def trbAt (d : Device) (addr : Nat) : TRB :=
  match d.ringAt addr with
  | some r => r.buf ((addr - r.region.base) / 16)
  | none => fun _ => 0

/-- Push the blocks of a transfer and register the block whose completion is
reported, the second one, together with the setup stage, the first one. -/
def pushStages (d : Device) (dci : Nat) (ring : Ring) (setup reported : TRB) (rest : List TRB) :
    Device :=
  let (ring, setupPosition) := ring.push setup
  let (ring, reportedPosition) := ring.push reported
  let ring := rest.foldl (fun ring trb => (ring.push trb).1) ring
  { d with
    transferRings := Function.update d.transferRings dci (some ring)
    setupStageMap := d.setupStageMap.put reportedPosition setupPosition }

/-- `ControlIn`; a null pointer as `buf` is 0. -/
def controlIn (d : Device) (ep : EndpointID) (setupData : SetupData) (buf : BitVec 64) (len : Int)
    (issuer : Option ClassDriver) : Device × Error :=
  let d := { d with usb := (d.usb.controlIn setupData issuer).1 }
  if ep.number < 0 ∨ 15 < ep.number then
    (d, .invalidEndpointNumber)
  else
    match d.transferRings ep.toNat with
    | none => (d, .transferRingNotSet)
    | some tr =>
        if buf ≠ 0 then
          (d.pushStages ep.toNat tr (.makeSetupStage setupData .inDataStage)
            (.makeDataStage buf len true) [.makeStatusStage false false], .success)
        else
          (d.pushStages ep.toNat tr (.makeSetupStage setupData .noDataStage)
            (.makeStatusStage true true) [], .success)

/-- `ControlOut`. -/
def controlOut (d : Device) (ep : EndpointID) (setupData : SetupData) (buf : BitVec 64) (len : Int)
    (issuer : Option ClassDriver) : Device × Error :=
  let d := { d with usb := (d.usb.controlOut setupData issuer).1 }
  if ep.number < 0 ∨ 15 < ep.number then
    (d, .invalidEndpointNumber)
  else
    match d.transferRings ep.toNat with
    | none => (d, .transferRingNotSet)
    | some tr =>
        if buf ≠ 0 then
          (d.pushStages ep.toNat tr (.makeSetupStage setupData .outDataStage)
            (.makeDataStage buf len false) [.makeStatusStage true false], .success)
        else
          (d.pushStages ep.toNat tr (.makeSetupStage setupData .noDataStage)
            (.makeStatusStage true true) [], .success)

/-- The end of `OnTransferEventReceived`, for an issuer that is in
`setup_stage_map_`. -/
def completeControl (d : Device) (e : TransferEvent) (setupPosition : Nat) : Received :=
  let issuer := d.trbAt e.trbPointer
  let setupData := (d.trbAt setupPosition).setupData
  if issuer.trbType = TRB.dataStageType then
    .controlCompleted e.endpointId setupData issuer.dataBufferPointer
      (intDifference issuer.transferLength e.trbTransferLength)
  else if issuer.trbType = TRB.statusStageType then
    .controlCompleted e.endpointId setupData 0 0
  else
    .error .notImplemented

/-- `OnTransferEventReceived`. -/
def onTransferEventReceived (d : Device) (e : TransferEvent) : Device × Received :=
  if e.completionCode ≠ 1 ∧ e.completionCode ≠ 13 then
    (d, .error .transferFailed)
  else
    let issuer := d.trbAt e.trbPointer
    if issuer.trbType = TRB.normalType then
      (d, .interruptCompleted e.endpointId issuer.dataBufferPointer
        (intDifference issuer.transferLength e.trbTransferLength))
    else
      match d.setupStageMap.get e.trbPointer with
      | none => (d, .error .noCorrespondingSetupStage)
      | some setupPosition =>
          ({ d with setupStageMap := d.setupStageMap.delete e.trbPointer },
            d.completeControl e setupPosition)

end Device

/-! ## Reading the blocks back -/

namespace TRB

variable (s : SetupData) (buf : BitVec 64) (len : Int) (dirIn direction interrupts : Bool)
  (transferType : TransferType)

theorem trbType_lastWord (control : BitVec 16) (type : BitVec 6) (flags : BitVec 10) :
    (lastWord control type flags).extractLsb' 10 6 = type := by
  apply BitVec.eq_of_getLsbD_eq
  intro i inside
  rw [BitVec.getLsbD_extractLsb', lastWord, BitVec.getLsbD_append, if_neg (by omega),
    BitVec.getLsbD_append, if_pos (by omega), Nat.add_sub_cancel_left]
  simp [inside]

theorem trbType_makeSetupStage : (makeSetupStage s transferType).trbType = setupStageType :=
  trbType_lastWord ..

theorem trbType_makeDataStage : (makeDataStage buf len dirIn).trbType = dataStageType :=
  trbType_lastWord ..

theorem trbType_makeStatusStage :
    (makeStatusStage direction interrupts).trbType = statusStageType :=
  trbType_lastWord ..

/-- All five fields of a request survive in its setup stage. -/
theorem setupData_makeSetupStage : (makeSetupStage s transferType).setupData = s := by
  have requestType : (s.value ++ s.request ++ s.requestType).extractLsb' 0 8 = s.requestType :=
    BitVec.extractLsb'_append_eq_right
  have request : (s.value ++ s.request ++ s.requestType).extractLsb' 8 8 = s.request :=
    (BitVec.extractLsb'_append_eq_of_le le_rfl).trans BitVec.extractLsb'_append_eq_right
  have value : (s.value ++ s.request ++ s.requestType).extractLsb' 16 16 = s.value :=
    (BitVec.extractLsb'_append_eq_of_le (by decide)).trans BitVec.extractLsb'_append_eq_left
  have index : (s.length ++ s.index).extractLsb' 0 16 = s.index :=
    BitVec.extractLsb'_append_eq_right
  have length : (s.length ++ s.index).extractLsb' 16 16 = s.length :=
    BitVec.extractLsb'_append_eq_left
  have first : makeSetupStage s transferType 0 = s.value ++ s.request ++ s.requestType := rfl
  have second : makeSetupStage s transferType 1 = s.length ++ s.index := rfl
  rw [setupData, first, second]
  congr 1

/-- The data stage holds the buffer. -/
theorem dataBufferPointer_makeDataStage :
    (makeDataStage buf len dirIn).dataBufferPointer = buf := by
  have first : makeDataStage buf len dirIn 0 = buf.extractLsb' 0 32 := rfl
  have second : makeDataStage buf len dirIn 1 = buf.extractLsb' 32 32 := rfl
  rw [dataBufferPointer, first, second]
  exact BitVec.extractLsb'_append_extractLsb'

/-- The data stage holds the length of the buffer. -/
theorem transferLength_makeDataStage :
    (makeDataStage buf len dirIn).transferLength = BitVec.ofInt 17 len := by
  have third : makeDataStage buf len dirIn 2 = (BitVec.ofInt 17 len).setWidth 32 := rfl
  rw [transferLength, third]
  apply BitVec.eq_of_getLsbD_eq
  intro i inside
  rw [BitVec.getLsbD_extractLsb', BitVec.getLsbD_setWidth, Nat.zero_add]
  simp [inside, show i < 32 by omega]

section Stamp

variable (trb : TRB) (cycle : Bool)

theorem setupData_stamp : (trb.stamp cycle).setupData = trb.setupData := by
  rw [setupData, setupData, stamp_of_ne _ _ (by decide), stamp_of_ne _ _ (by decide)]

theorem dataBufferPointer_stamp : (trb.stamp cycle).dataBufferPointer = trb.dataBufferPointer := by
  rw [dataBufferPointer, dataBufferPointer, stamp_of_ne _ _ (by decide), stamp_of_ne _ _ (by decide)]

theorem transferLength_stamp : (trb.stamp cycle).transferLength = trb.transferLength := by
  rw [transferLength, transferLength, stamp_of_ne _ _ (by decide)]

end Stamp

end TRB

/-- The length that is reported: what was requested less what is left over. -/
theorem intDifference_eq {len : Int} (nonneg : 0 ≤ len) (small : len < 2 ^ 17) (residual : BitVec 24) :
    intDifference (BitVec.ofInt 17 len) residual = len - residual.toNat := by
  have residual_lt := residual.isLt
  have request : (BitVec.ofInt 17 len).toNat = len.toNat := by
    rw [BitVec.toNat_ofInt]
    omega
  have sub : ((BitVec.ofInt 17 len).setWidth 32 - residual.setWidth 32).toNat =
      (2 ^ 32 - residual.toNat + len.toNat) % 2 ^ 32 := by
    rw [BitVec.toNat_sub, BitVec.toNat_setWidth, BitVec.toNat_setWidth, request,
      Nat.mod_eq_of_lt (by omega : residual.toNat < 2 ^ 32),
      Nat.mod_eq_of_lt (by omega : len.toNat < 2 ^ 32)]
  rw [intDifference, BitVec.toInt_eq_toNat_cond, sub]
  omega

end Mikanos.Xhci
