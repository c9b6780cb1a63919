import Mikanos.Xhci.Control
import Mikanos.Xhci.RingCorrectness

/-!
# The blocks that a control transfer leaves in its ring

A ring keeps the blocks of the last lap.  A call of `ControlIn` or `ControlOut`
pushes two or three blocks, or it fails and pushes none.
-/

namespace Mikanos.Xhci

open Mikanos.Usb

/-! ## What a ring holds -/

theorem writeAll_copyStores (buf : Slots) (slot : Nat) (data : TRB) (cycle : Bool) :
    buf.writeAll (copyStores slot data cycle) = Function.update buf slot (data.stamp cycle) := by
  funext other
  rw [copyStores_eq]
  by_cases same : other = slot
  · subst same
    rw [Function.update_self]
    funext word
    simp only [wordStores, Slots.writeAll, List.foldl_cons, List.foldl_nil, Store.apply,
      Function.update_self]
    fin_cases word <;> rfl
  · simp [wordStores, Slots.writeAll, Store.apply, same]

namespace Ring

/-- The ring after some blocks have been pushed: those of the last lap are still
in it. -/
structure Holds (ring : Ring) (region : Region) (history : List TRB) : Prop where
  sameRegion : ring.region = region
  writeIndex : ring.writeIndex = history.length % (region.size - 1)
  kept : ∀ q trb, history[q]? = some trb → history.length ≤ q + (region.size - 1) →
    ∃ cycle, ring.buf (q % (region.size - 1)) = trb.stamp cycle

/-- No block is a normal one. -/
def NoNormal (ring : Ring) : Prop :=
  ∀ slot, (ring.buf slot).trbType ≠ TRB.normalType

variable {ring : Ring} {region : Region} {history : List TRB}

theorem holds_initializeRing (region : Region) : (initializeRing region).Holds region [] where
  sameRegion := rfl
  writeIndex := (Nat.zero_mod _).symm
  kept := by rintro q trb ⟨⟩

theorem noNormal_initializeRing (region : Region) : (initializeRing region).NoNormal := by
  intro slot
  change TRB.trbType (fun _ => 0) ≠ TRB.normalType
  decide

/-- A push writes the block to the next slot and, at the end of a lap, the link
block to the last slot. -/
theorem push_cases (ring : Ring) (data : TRB) :
    (ring.push data).1.region = ring.region ∧
      (ring.push data).2 = ring.region.base + 16 * ring.writeIndex ∧
      ((ring.writeIndex + 1 = ring.region.size - 1 ∧ (ring.push data).1.writeIndex = 0 ∧
          (ring.push data).1.buf = Function.update
            (Function.update ring.buf ring.writeIndex (data.stamp ring.cycleBit))
            (ring.writeIndex + 1) ((TRB.link ring.region.base true).stamp ring.cycleBit)) ∨
        ring.writeIndex + 1 ≠ ring.region.size - 1 ∧
          (ring.push data).1.writeIndex = ring.writeIndex + 1 ∧
          (ring.push data).1.buf =
            Function.update ring.buf ring.writeIndex (data.stamp ring.cycleBit)) := by
  by_cases last : ring.writeIndex + 1 = ring.region.size - 1
  · have pushed := push_of_last data (show _ = ring.bufSize - 1 from last)
    refine ⟨by rw [pushed], by rw [pushed], .inl ⟨last, by rw [pushed], ?_⟩⟩
    rw [buf_push, pushStores, if_pos (show _ = ring.bufSize - 1 from last), Slots.writeAll,
      List.foldl_append]
    change Slots.writeAll (Slots.writeAll _ _) _ = _
    rw [writeAll_copyStores, writeAll_copyStores]
  · have pushed := push_of_not_last data (show _ ≠ ring.bufSize - 1 from last)
    refine ⟨by rw [pushed], by rw [pushed], .inr ⟨last, by rw [pushed], ?_⟩⟩
    rw [buf_push, pushStores, if_neg (show ¬ _ = ring.bufSize - 1 from last), List.append_nil,
      writeAll_copyStores]

theorem Holds.push (holds : ring.Holds region history) (two_le : 2 ≤ region.size) (data : TRB) :
    (ring.push data).1.Holds region (history ++ [data]) ∧
      (ring.push data).2 = region.base + 16 * (history.length % (region.size - 1)) := by
  rcases ring.push_cases data with ⟨sameRegion, address, cases⟩
  rw [holds.sameRegion, holds.writeIndex] at address cases
  have pos : 0 < region.size - 1 := by omega
  have slot_lt := Nat.mod_lt history.length pos
  -- every block of the last lap but the oldest keeps its slot
  have other (buf : Slots) (cycle : Bool) (same : ∀ slot, slot < region.size - 1 →
      slot ≠ history.length % (region.size - 1) → buf slot = ring.buf slot)
      (self : buf (history.length % (region.size - 1)) = data.stamp cycle) :
      ∀ q trb, (history ++ [data])[q]? = some trb →
        (history ++ [data]).length ≤ q + (region.size - 1) →
        ∃ cycle, buf (q % (region.size - 1)) = trb.stamp cycle := by
    intro q trb found recent
    rw [List.length_append, List.length_singleton] at recent
    by_cases old : q < history.length
    · rw [List.getElem?_append_left old] at found
      rcases holds.kept q trb found (by omega) with ⟨cycle', kept⟩
      refine ⟨cycle', ?_⟩
      rw [same _ (Nat.mod_lt q pos) (mod_ne_of_lt old (by omega)), kept]
    · have below := (List.getElem?_eq_some_iff.mp found).1
      rw [List.length_append, List.length_singleton] at below
      obtain rfl : q = history.length := by omega
      rw [List.getElem?_append_right le_rfl, Nat.sub_self] at found
      cases found
      exact ⟨cycle, self⟩
  refine ⟨⟨sameRegion.trans holds.sameRegion, ?_, ?_⟩, address⟩
  · rw [List.length_append, List.length_singleton]
    rcases cases with ⟨last, index, -⟩ | ⟨inner, index, -⟩
    · rw [index, (lap_of_last last).1]
    · rw [index, (lap_of_inner pos inner).1]
  · rcases cases with ⟨last, -, buf⟩ | ⟨-, -, buf⟩
    · rw [buf]
      apply other _ ring.cycleBit
      · intro slot below ne
        rw [Function.update_of_ne (by omega), Function.update_of_ne ne]
      · rw [Function.update_of_ne (by omega), Function.update_self]
    · rw [buf]
      apply other _ ring.cycleBit
      · intro slot _ ne
        rw [Function.update_of_ne ne]
      · rw [Function.update_self]

theorem NoNormal.push (noNormal : ring.NoNormal) {data : TRB} (ok : data.trbType ≠ TRB.normalType) :
    (ring.push data).1.NoNormal := by
  rcases ring.push_cases data with ⟨-, -, cases⟩
  have stamped : ∀ slot, (Function.update ring.buf ring.writeIndex
      (data.stamp ring.cycleBit) slot).trbType ≠ TRB.normalType := by
    intro slot
    by_cases same : slot = ring.writeIndex
    · rw [same, Function.update_self, TRB.trbType_stamp]
      exact ok
    · rw [Function.update_of_ne same]
      exact noNormal slot
  rcases cases with ⟨-, -, buf⟩ | ⟨-, -, buf⟩
  · intro slot
    rw [buf]
    by_cases same : slot = ring.writeIndex + 1
    · rw [same, Function.update_self, TRB.trbType_stamp, TRB.trbType_link]
      decide
    · rw [Function.update_of_ne same]
      exact stamped slot
  · intro slot
    rw [buf]
    exact stamped slot

/-- Pushing blocks one after another. -/
theorem Holds.pushAll (holds : ring.Holds region history) (two_le : 2 ≤ region.size)
    (blocks : List TRB) :
    (blocks.foldl (fun ring trb => (ring.push trb).1) ring).Holds region (history ++ blocks) := by
  induction blocks generalizing ring history with
  | nil =>
      rw [List.append_nil]
      exact holds
  | cons trb rest ih =>
      rw [List.append_cons]
      exact ih (holds.push two_le trb).1

theorem NoNormal.pushAll (noNormal : ring.NoNormal) {blocks : List TRB}
    (ok : ∀ trb ∈ blocks, trb.trbType ≠ TRB.normalType) :
    (blocks.foldl (fun ring trb => (ring.push trb).1) ring).NoNormal := by
  induction blocks generalizing ring with
  | nil => exact noNormal
  | cons trb rest ih =>
      exact ih (noNormal.push (ok trb (.head rest))) fun trb' member => ok trb' (.tail trb member)

end Ring

/-! ## Calls and transfers -/

/-- A call of `ControlIn` or `ControlOut`. -/
structure Call where
  dirIn : Bool
  ep : EndpointID
  setupData : SetupData
  buf : BitVec 64
  len : Int
  issuer : Option ClassDriver
  deriving DecidableEq

namespace Call

/-- The setup stage. -/
def setupBlock (c : Call) : TRB :=
  .makeSetupStage c.setupData
    (if c.buf = 0 then .noDataStage else if c.dirIn then .inDataStage else .outDataStage)

/-- The block whose completion is reported: the data stage or, without one, the
status stage. -/
def reportedBlock (c : Call) : TRB :=
  if c.buf = 0 then .makeStatusStage true true else .makeDataStage c.buf c.len c.dirIn

/-- The status stage after a data stage. -/
def restBlocks (c : Call) : List TRB :=
  if c.buf = 0 then [] else [.makeStatusStage (!c.dirIn) false]

/-- All blocks of the transfer. -/
def blocks (c : Call) : List TRB :=
  c.setupBlock :: c.reportedBlock :: c.restBlocks

theorem trbType_blocks (c : Call) : ∀ trb ∈ c.blocks, trb.trbType ≠ TRB.normalType := by
  have reported : c.reportedBlock.trbType ≠ TRB.normalType := by
    rw [reportedBlock]
    split
    · rw [TRB.trbType_makeStatusStage]
      decide
    · rw [TRB.trbType_makeDataStage]
      decide
  have rest : ∀ trb ∈ c.restBlocks, trb.trbType ≠ TRB.normalType := by
    intro trb member
    rw [restBlocks] at member
    split at member
    · cases member
    · rw [List.mem_singleton.mp member, TRB.trbType_makeStatusStage]
      decide
  intro trb member
  rcases List.mem_cons.mp member with same | later
  · rw [same, setupBlock, TRB.trbType_makeSetupStage]
    decide
  · rcases List.mem_cons.mp later with same | later
    · rw [same]
      exact reported
    · exact rest trb later

end Call

namespace Device

/-- The call is made. -/
def control (d : Device) (c : Call) : Device × Error :=
  if c.dirIn then d.controlIn c.ep c.setupData c.buf c.len c.issuer
  else d.controlOut c.ep c.setupData c.buf c.len c.issuer

/-- The ring that a call pushes its blocks to; there is none if the call fails. -/
def ringOf (d : Device) (c : Call) : Option Ring :=
  if c.ep.number < 0 ∨ 15 < c.ep.number then none else d.transferRings c.ep.toNat

theorem ringOf_some {d : Device} {c : Call} {ring : Ring} (found : d.ringOf c = some ring) :
    d.transferRings c.ep.toNat = some ring ∧ c.ep.toNat < 32 := by
  rw [ringOf] at found
  split at found
  · cases found
  · rename_i valid
    rw [EndpointID.number] at valid
    exact ⟨found, by omega⟩

/-- What a call does to the rings and to `setup_stage_map_`. -/
theorem control_cases (d : Device) (c : Call) :
    (d.ringOf c = none ∧ (d.control c).1.transferRings = d.transferRings ∧
        (d.control c).1.setupStageMap = d.setupStageMap) ∨
      ∃ ring usb, d.ringOf c = some ring ∧
        d.control c = (pushStages { d with usb } c.ep.toNat ring c.setupBlock c.reportedBlock
          c.restBlocks, .success) := by
  rw [control, ringOf]
  by_cases invalid : c.ep.number < 0 ∨ 15 < c.ep.number
  · left
    rw [if_pos invalid]
    cases c.dirIn with
    | false =>
        rw [if_neg Bool.false_ne_true, controlOut, if_pos invalid]
        exact ⟨rfl, rfl, rfl⟩
    | true =>
        rw [if_pos rfl, controlIn, if_pos invalid]
        exact ⟨rfl, rfl, rfl⟩
  · rw [if_neg invalid]
    cases found : d.transferRings c.ep.toNat with
    | none =>
        left
        cases c.dirIn with
        | false =>
            rw [if_neg Bool.false_ne_true, controlOut, if_neg invalid]
            simp [found]
        | true =>
            rw [if_pos rfl, controlIn, if_neg invalid]
            simp [found]
    | some ring =>
        right
        rw [Call.setupBlock, Call.reportedBlock, Call.restBlocks]
        cases c.dirIn with
        | false =>
            refine ⟨ring, (d.usb.controlOut c.setupData c.issuer).1, rfl, ?_⟩
            rw [if_neg Bool.false_ne_true, controlOut, if_neg invalid]
            simp only [found]
            by_cases null : c.buf = 0
            · rw [if_neg (not_not.mpr null), if_pos null, if_pos null, if_pos null]
            · rw [if_pos null, if_neg null, if_neg null, if_neg null]
              rfl
        | true =>
            refine ⟨ring, (d.usb.controlIn c.setupData c.issuer).1, rfl, ?_⟩
            rw [if_pos rfl, controlIn, if_neg invalid]
            simp only [found]
            by_cases null : c.buf = 0
            · rw [if_neg (not_not.mpr null), if_pos null, if_pos null, if_pos null]
            · rw [if_pos null, if_neg null, if_neg null, if_neg null]
              rfl

end Device
end Mikanos.Xhci
