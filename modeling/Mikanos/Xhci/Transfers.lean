import Mikanos.Transition.Run
import Mikanos.Xhci.Calls

/-!
# Outstanding control transfers

A system of a device, the blocks pushed to each of its transfer rings, and the
control transfers that have not completed.  `setup_stage_map_` holds exactly the
outstanding transfers as long as no event reports one of them as failed, because
`OnTransferEventReceived` returns before it deletes the entry of a failed
transfer.
-/

namespace Mikanos.Xhci

open Mikanos.Transition Mikanos.Usb

/-- The transfer rings of a device; they do not overlap. -/
structure RingTable where
  region : Nat → Option Region
  two_le : ∀ dci r, region dci = some r → 2 ≤ r.size
  separate : ∀ dci dci' r r', region dci = some r → region dci' = some r' → dci ≠ dci' →
    r.base + 16 * r.size ≤ r'.base ∨ r'.base + 16 * r'.size ≤ r.base

/-- The address of the block that is pushed after `q` others. -/
def Region.address (region : Region) (q : Nat) : Nat :=
  region.base + 16 * (q % (region.size - 1))

/-- A control transfer: the call, its ring, and how many blocks had been pushed to
the ring before. -/
structure Transfer where
  call : Call
  region : Region
  position : Nat

namespace Transfer

def dci (t : Transfer) : Nat :=
  t.call.ep.toNat

/-- The address of the setup stage. -/
def setup (t : Transfer) : Nat :=
  t.region.address t.position

/-- The address of the block whose completion is reported. -/
def reported (t : Transfer) : Nat :=
  t.region.address (t.position + 1)

/-- The addresses of all blocks. -/
def addresses (t : Transfer) : List Nat :=
  (List.range t.call.blocks.length).map fun i => t.region.address (t.position + i)

/-- The entry of `setup_stage_map_`. -/
def entry (t : Transfer) : Nat × Nat :=
  (t.reported, t.setup)

end Transfer

namespace TransferEvent

/-- Success or short packet. -/
def Succeeded (e : TransferEvent) : Prop :=
  e.completionCode = 1 ∨ e.completionCode = 13

instance (e : TransferEvent) : Decidable e.Succeeded :=
  inferInstanceAs (Decidable (_ ∨ _))

/-- The event tells that a transfer has completed: with success it names the block
whose completion is reported, and with an error the block at which it occurred. -/
def Completes (e : TransferEvent) (t : Transfer) : Prop :=
  if e.Succeeded then e.trbPointer = t.reported else e.trbPointer ∈ t.addresses

instance (e : TransferEvent) (t : Transfer) : Decidable (e.Completes t) :=
  inferInstanceAs
    (Decidable (if e.Succeeded then e.trbPointer = t.reported else e.trbPointer ∈ t.addresses))

theorem completes_of_succeeded {t : Transfer} (e : TransferEvent) (succeeded : e.Succeeded) :
    e.Completes t ↔ e.trbPointer = t.reported := by
  rw [Completes, if_pos succeeded]

end TransferEvent

/-- A device with the blocks pushed to its rings, and its control transfers. -/
structure Transfers where
  device : Device
  history : Nat → List TRB
  outstanding : List Transfer
  completed : List Transfer

namespace Transfers

/-- No transfer has been issued. -/
def initial (rings : RingTable) (usb : Usb.Device) : Transfers where
  device := {
    usb
    transferRings := fun dci => (rings.region dci).map Ring.initializeRing
    setupStageMap := .empty _ _ _ }
  history := fun _ => []
  outstanding := []
  completed := []

/-- What can happen to a device. -/
inductive Action
  /-- `ControlIn` or `ControlOut` is called -/
  | control (c : Call)
  /-- `OnTransferEventReceived` is called -/
  | event (e : TransferEvent)

/-- The transfer that a call issues, unless it fails. -/
def issue (s : Transfers) (c : Call) : Option Transfer :=
  (s.device.ringOf c).map fun ring => ⟨c, ring.region, (s.history c.ep.toNat).length⟩

/-- One step. -/
def step (s : Transfers) : Action → Option Transfers
  | .control c =>
      let device := (s.device.control c).1
      match s.issue c with
      | none => some { s with device }
      | some t => some { s with
          device
          history := Function.update s.history t.dci (s.history t.dci ++ c.blocks)
          outstanding := s.outstanding ++ [t] }
  | .event e => some { s with
      device := (s.device.onTransferEventReceived e).1
      outstanding := s.outstanding.filter fun t => ¬ e.Completes t
      completed := s.completed ++ s.outstanding.filter fun t => e.Completes t }

/-! ## The ledger

What the rings hold and where the blocks of every transfer are, in every run. -/

variable {rings : RingTable} {s s' : Transfers}

/-- A transfer has its own place in the history of its ring. -/
structure Issued (rings : RingTable) (s : Transfers) (t : Transfer) : Prop where
  dci_lt : t.dci < 32
  region : rings.region t.dci = some t.region
  blocks : ∀ i trb, t.call.blocks[i]? = some trb → (s.history t.dci)[t.position + i]? = some trb

/-- What is true of every state. -/
structure Ledger (rings : RingTable) (s : Transfers) : Prop where
  region : ∀ dci, (s.device.transferRings dci).map Ring.region = rings.region dci
  holds : ∀ dci ring, s.device.transferRings dci = some ring →
    ring.Holds ring.region (s.history dci)
  noNormal : ∀ dci ring, s.device.transferRings dci = some ring → ring.NoNormal
  issued : ∀ t ∈ s.outstanding ++ s.completed, Issued rings s t
  fresh : ((s.outstanding ++ s.completed).map fun t => (t.dci, t.position)).Nodup

theorem ledger_initial (rings : RingTable) (usb : Usb.Device) :
    Ledger rings (initial rings usb) where
  region := by
    intro dci
    change ((rings.region dci).map Ring.initializeRing).map Ring.region = _
    rw [Option.map_map]
    exact Option.map_id'
  holds := by
    intro dci ring found
    rcases Option.map_eq_some_iff.mp found with ⟨region, -, same⟩
    rw [← same]
    exact Ring.holds_initializeRing region
  noNormal := by
    intro dci ring found
    rcases Option.map_eq_some_iff.mp found with ⟨region, -, same⟩
    rw [← same]
    exact Ring.noNormal_initializeRing region
  issued := by rintro t ⟨⟩
  fresh := List.nodup_nil

/-- The positions of a transfer's blocks are positions of its ring's history. -/
theorem Issued.position_lt {t : Transfer} (issued : Issued rings s t) :
    t.position + 1 < (s.history t.dci).length :=
  (List.getElem?_eq_some_iff.mp (issued.blocks 1 _ rfl)).1

theorem Ledger.ring (ledger : Ledger rings s) {dci : Nat} {region : Region}
    (found : rings.region dci = some region) :
    ∃ ring, s.device.transferRings dci = some ring ∧ ring.region = region := by
  rw [← ledger.region] at found
  exact Option.map_eq_some_iff.mp found

theorem Ledger.two_le (ledger : Ledger rings s) {dci : Nat} {ring : Ring}
    (found : s.device.transferRings dci = some ring) : 2 ≤ ring.region.size := by
  apply rings.two_le dci
  rw [← ledger.region, found]
  rfl

/-- What an event does to the device. -/
theorem onTransferEventReceived_device (d : Device) (e : TransferEvent) :
    (d.onTransferEventReceived e).1.transferRings = d.transferRings ∧
      ((d.onTransferEventReceived e).1.setupStageMap = d.setupStageMap ∨
        (d.onTransferEventReceived e).1.setupStageMap = d.setupStageMap.delete e.trbPointer) := by
  rw [Device.onTransferEventReceived]
  split
  · exact ⟨rfl, .inl rfl⟩
  · dsimp only
    split
    · exact ⟨rfl, .inl rfl⟩
    · split
      · exact ⟨rfl, .inl rfl⟩
      · exact ⟨rfl, .inr rfl⟩

/-- What pushing the blocks of a call does to a ring and to `setup_stage_map_`. -/
theorem pushStages_spec (d : Device) {ring : Ring} {history : List TRB}
    (holds : ring.Holds ring.region history) (noNormal : ring.NoNormal)
    (two_le : 2 ≤ ring.region.size) (dci : Nat) (c : Call) :
    ∃ ring' : Ring, ring'.Holds ring.region (history ++ c.blocks) ∧ ring'.NoNormal ∧
      (d.pushStages dci ring c.setupBlock c.reportedBlock c.restBlocks).transferRings =
        Function.update d.transferRings dci (some ring') ∧
      (d.pushStages dci ring c.setupBlock c.reportedBlock c.restBlocks).setupStageMap =
        d.setupStageMap.put (ring.region.address (history.length + 1))
          (ring.region.address history.length) := by
  have setup := holds.push two_le c.setupBlock
  have reported := setup.1.push two_le c.reportedBlock
  have all := holds.pushAll two_le c.blocks
  refine ⟨_, all, noNormal.pushAll c.trbType_blocks, rfl, ?_⟩
  rw [Device.pushStages]
  dsimp only
  rw [setup.2, reported.2, List.length_append, List.length_singleton, Region.address,
    Region.address]

theorem issue_none {c : Call} (failed : s.issue c = none) : s.device.ringOf c = none :=
  Option.map_eq_none_iff.mp failed

theorem issue_some {c : Call} {t : Transfer} (issued : s.issue c = some t) :
    ∃ ring, s.device.ringOf c = some ring ∧
      t = ⟨c, ring.region, (s.history c.ep.toNat).length⟩ := by
  rcases Option.map_eq_some_iff.mp issued with ⟨ring, found, same⟩
  exact ⟨ring, found, same.symm⟩

/-- The two kinds of calls: a failed one leaves the transfers alone, and every other
one adds a transfer, its blocks and its entry. -/
theorem control_step (ledger : Ledger rings s) {c : Call}
    (stepped : s.step (.control c) = some s') :
    (s.issue c = none ∧ s'.device.transferRings = s.device.transferRings ∧
        s'.device.setupStageMap = s.device.setupStageMap ∧ s'.history = s.history ∧
        s'.outstanding = s.outstanding ∧ s'.completed = s.completed) ∨
      ∃ t ring ring', s.issue c = some t ∧ t.call = c ∧
        s.device.transferRings t.dci = some ring ∧ ring.region = t.region ∧ t.dci < 32 ∧
        t.position = (s.history t.dci).length ∧
        ring'.Holds t.region (s.history t.dci ++ c.blocks) ∧ ring'.NoNormal ∧
        s'.device.transferRings = Function.update s.device.transferRings t.dci (some ring') ∧
        s'.device.setupStageMap = s.device.setupStageMap.put t.reported t.setup ∧
        s'.history = Function.update s.history t.dci (s.history t.dci ++ c.blocks) ∧
        s'.outstanding = s.outstanding ++ [t] ∧ s'.completed = s.completed := by
  rw [step] at stepped
  cases issued : s.issue c with
  | none =>
      left
      simp only [issued] at stepped
      cases stepped
      rcases s.device.control_cases c with ⟨-, sameRings, sameMap⟩ | ⟨ring, usb, found, -⟩
      · exact ⟨rfl, sameRings, sameMap, rfl, rfl, rfl⟩
      · rw [issue_none issued] at found
        cases found
  | some t =>
      right
      simp only [issued] at stepped
      cases stepped
      rcases issue_some issued with ⟨ring, found, same⟩
      rcases Device.ringOf_some found with ⟨atDci, dci_lt⟩
      rcases s.device.control_cases c with ⟨notFound, -⟩ | ⟨ring', usb, found', pushed⟩
      · rw [found] at notFound
        cases notFound
      · rw [found] at found'
        cases found'
        rcases pushStages_spec { s.device with usb } (ledger.holds _ _ atDci)
          (ledger.noNormal _ _ atDci) (ledger.two_le atDci) c.ep.toNat c with
          ⟨ring', holds, noNormal, transferRings, setupStageMap⟩
        subst same
        refine ⟨_, ring, ring', rfl, rfl, atDci, rfl, dci_lt, rfl, holds, noNormal, ?_, ?_, rfl, rfl,
          rfl⟩
        · rw [pushed]
          exact transferRings
        · rw [pushed]
          exact setupStageMap

/-- An event moves the transfers that it completes. -/
theorem perm_event (outstanding completed : List Transfer) (e : TransferEvent) :
    (outstanding.filter (fun t => ¬ e.Completes t) ++
        (completed ++ outstanding.filter fun t => e.Completes t)).Perm (outstanding ++ completed) := by
  have parts := List.filter_append_perm (fun t => decide (e.Completes t)) outstanding
  have swapped : (outstanding.filter (fun t => ¬ e.Completes t) ++
      outstanding.filter fun t => e.Completes t).Perm outstanding := by
    refine List.perm_append_comm.trans ?_
    simpa using parts
  exact ((List.perm_append_comm.append_left _).trans
    (List.append_assoc .. ▸ List.Perm.refl _)).trans (swapped.append_right completed)

theorem Ledger.step (ledger : Ledger rings s) {action : Action}
    (stepped : s.step action = some s') : Ledger rings s' := by
  cases action with
  | control c =>
      rcases control_step ledger stepped with
        ⟨-, sameRings, -, sameHistory, sameOutstanding, sameCompleted⟩ |
        ⟨t, ring, ring', -, call, found, region, dci_lt, position, holds, noNormal, transferRings, -,
          history, outstanding, completed⟩
      · refine ⟨?_, ?_, ?_, ?_, ?_⟩
        · intro dci
          rw [← ledger.region, sameRings]
        · intro dci ring found
          rw [sameRings] at found
          rw [sameHistory]
          exact ledger.holds dci ring found
        · intro dci ring found
          rw [sameRings] at found
          exact ledger.noNormal dci ring found
        · intro t member
          rw [sameOutstanding, sameCompleted] at member
          rcases ledger.issued t member with ⟨dci_lt, region, blocks⟩
          rw [← sameHistory] at blocks
          exact ⟨dci_lt, region, blocks⟩
        · rw [sameOutstanding, sameCompleted]
          exact ledger.fresh
      · have atRegion : rings.region t.dci = some t.region := by
          rw [← ledger.region, found, ← region]
          rfl
        have sameRegion : ring'.region = t.region := holds.sameRegion
        have perm : (s'.outstanding ++ s'.completed).Perm (t :: (s.outstanding ++ s.completed)) := by
          rw [outstanding, completed, List.append_assoc]
          exact List.perm_middle
        refine ⟨?_, ?_, ?_, ?_, ?_⟩
        · intro dci
          rw [transferRings]
          by_cases same : dci = t.dci
          · rw [same, Function.update_self, atRegion, ← sameRegion]
            rfl
          · rw [Function.update_of_ne same, ledger.region]
        · intro dci other foundOther
          rw [transferRings] at foundOther
          rw [history]
          by_cases same : dci = t.dci
          · rw [same, Function.update_self] at foundOther
            cases foundOther
            rw [same, Function.update_self, sameRegion]
            exact holds
          · rw [Function.update_of_ne same] at foundOther ⊢
            exact ledger.holds dci other foundOther
        · intro dci other foundOther
          rw [transferRings] at foundOther
          by_cases same : dci = t.dci
          · rw [same, Function.update_self] at foundOther
            cases foundOther
            exact noNormal
          · rw [Function.update_of_ne same] at foundOther
            exact ledger.noNormal dci other foundOther
        · intro old member
          rcases List.mem_cons.mp (perm.mem_iff.mp member) with new | old'
          · subst new
            refine ⟨dci_lt, atRegion, ?_⟩
            intro i trb block
            rw [history, Function.update_self, position, ← call,
              List.getElem?_append_right (Nat.le_add_right _ _), Nat.add_sub_cancel_left]
            exact block
          · rcases ledger.issued old old' with ⟨old_lt, oldRegion, blocks⟩
            refine ⟨old_lt, oldRegion, ?_⟩
            intro i trb block
            have before := blocks i trb block
            rw [history]
            by_cases same : old.dci = t.dci
            · rw [same, Function.update_self,
                List.getElem?_append_left (same ▸ (List.getElem?_eq_some_iff.mp before).1), ← same]
              exact before
            · rw [Function.update_of_ne same]
              exact before
        · rw [(perm.map _).nodup_iff, List.map_cons, List.nodup_cons]
          refine ⟨?_, ledger.fresh⟩
          intro taken
          rcases List.mem_map.mp taken with ⟨old, member, same⟩
          rcases Prod.mk.inj same with ⟨sameDci, samePosition⟩
          have before := (ledger.issued old member).position_lt
          rw [sameDci, samePosition, position] at before
          omega
  | event e =>
      cases stepped
      rcases onTransferEventReceived_device s.device e with ⟨sameRings, -⟩
      have perm := perm_event s.outstanding s.completed e
      refine ⟨?_, ?_, ?_, ?_, ?_⟩
      · intro dci
        rw [← ledger.region, sameRings]
      · intro dci ring found
        rw [sameRings] at found
        exact ledger.holds dci ring found
      · intro dci ring found
        rw [sameRings] at found
        exact ledger.noNormal dci ring found
      · intro t member
        rcases ledger.issued t (perm.mem_iff.mp member) with ⟨dci_lt, region, blocks⟩
        exact ⟨dci_lt, region, blocks⟩
      · exact (perm.map _).nodup_iff.mpr ledger.fresh

theorem ledger_of_run {usb : Usb.Device} {actions : List Action}
    (run : Run (ofFunction step) (initial rings usb) actions s) : Ledger rings s :=
  run.invariant (fun _ _ _ ledger stepped => ledger.step stepped) (ledger_initial rings usb)

/-! ## Bookkeeping -/

/-- `setup_stage_map_` contains exactly one entry for every outstanding transfer. -/
structure Tracked (s : Transfers) : Prop where
  entries : s.device.setupStageMap.entries.Perm (s.outstanding.map Transfer.entry)
  keys : (s.outstanding.map Transfer.reported).Nodup

/-- Fewer than 16 transfers are outstanding when another one is issued, and its
blocks do not take the place of one whose completion is still to be reported; no
event tells that an outstanding transfer has failed. -/
def NoneFails (s : Transfers) : Action → Prop
  | .control c => ∀ t ∈ s.issue c,
      s.outstanding.length < 16 ∧ t.reported ∉ s.outstanding.map Transfer.reported
  | .event e => ∀ t ∈ s.outstanding, e.Completes t → e.Succeeded

instance (s : Transfers) : ∀ action, Decidable (NoneFails s action)
  | .control c => inferInstanceAs (Decidable (∀ t ∈ s.issue c,
      s.outstanding.length < 16 ∧ t.reported ∉ s.outstanding.map Transfer.reported))
  | .event e => inferInstanceAs (Decidable (∀ t ∈ s.outstanding, e.Completes t → e.Succeeded))

theorem tracked_initial (rings : RingTable) (usb : Usb.Device) : Tracked (initial rings usb) where
  entries := by
    change (ArrayMap.empty Nat Nat 16).entries.Perm []
    rw [ArrayMap.entries_empty]
  keys := List.nodup_nil

theorem Tracked.entryKeys (tracked : Tracked s) :
    (s.device.setupStageMap.entries.map Prod.fst).Nodup := by
  rw [(tracked.entries.map Prod.fst).nodup_iff, List.map_map]
  exact tracked.keys

/-- The entry of every outstanding transfer is found. -/
theorem Tracked.get (tracked : Tracked s) {t : Transfer} (member : t ∈ s.outstanding) :
    s.device.setupStageMap.get t.reported = some t.setup :=
  ArrayMap.get_of_mem tracked.entryKeys
    (tracked.entries.mem_iff.mpr (List.mem_map_of_mem member))

/-- There is no entry for any other address. -/
theorem Tracked.get_none (tracked : Tracked s) {addr : Nat}
    (absent : addr ∉ s.outstanding.map Transfer.reported) :
    s.device.setupStageMap.get addr = none := by
  apply ArrayMap.get_of_notMem
  rw [(tracked.entries.map Prod.fst).mem_iff, List.map_map]
  exact absent

/-- No block in memory is a normal one. -/
theorem Ledger.trbType_trbAt (ledger : Ledger rings s) (addr : Nat) :
    (s.device.trbAt addr).trbType ≠ TRB.normalType := by
  rw [Device.trbAt]
  cases found : s.device.ringAt addr with
  | none =>
      change TRB.trbType (fun _ => 0) ≠ TRB.normalType
      decide
  | some ring =>
      rcases List.mem_filterMap.mp (List.mem_of_find?_eq_some found) with ⟨dci, -, atDci⟩
      exact ledger.noNormal dci ring atDci _

/-- A successful event for an address in `setup_stage_map_`. -/
theorem received_of_some (ledger : Ledger rings s) {e : TransferEvent} (succeeded : e.Succeeded)
    {setupPosition : Nat} (found : s.device.setupStageMap.get e.trbPointer = some setupPosition) :
    s.device.onTransferEventReceived e =
      ({ s.device with setupStageMap := s.device.setupStageMap.delete e.trbPointer },
        s.device.completeControl e setupPosition) := by
  have proceeds : ¬(e.completionCode ≠ 1 ∧ e.completionCode ≠ 13) := by
    rw [← not_or, not_not]
    exact succeeded
  rw [Device.onTransferEventReceived, if_neg proceeds]
  dsimp only
  rw [if_neg (ledger.trbType_trbAt e.trbPointer), found]

/-- A successful event for any other address. -/
theorem received_of_none (ledger : Ledger rings s) {e : TransferEvent} (succeeded : e.Succeeded)
    (notFound : s.device.setupStageMap.get e.trbPointer = none) :
    s.device.onTransferEventReceived e = (s.device, .error .noCorrespondingSetupStage) := by
  have proceeds : ¬(e.completionCode ≠ 1 ∧ e.completionCode ≠ 13) := by
    rw [← not_or, not_not]
    exact succeeded
  rw [Device.onTransferEventReceived, if_neg proceeds]
  dsimp only
  rw [if_neg (ledger.trbType_trbAt e.trbPointer), notFound]

/-- What a successful event does to `setup_stage_map_`. -/
theorem entries_of_succeeded (ledger : Ledger rings s) (tracked : Tracked s) {e : TransferEvent}
    (succeeded : e.Succeeded) :
    (s.device.onTransferEventReceived e).1.setupStageMap.entries =
      s.device.setupStageMap.entries.filter fun entry => entry.1 ≠ e.trbPointer := by
  cases found : s.device.setupStageMap.get e.trbPointer with
  | none =>
      rw [received_of_none ledger succeeded found, eq_comm, List.filter_eq_self]
      intro entry member
      have ne : entry.1 ≠ e.trbPointer := by
        intro same
        rw [← same, ArrayMap.get_of_mem tracked.entryKeys member] at found
        cases found
      simpa using ne
  | some setupPosition =>
      rw [received_of_some ledger succeeded found]
      exact ArrayMap.entries_delete_of_nodup tracked.entryKeys e.trbPointer

/-- Nothing happens to the device when a transfer has failed. -/
theorem onTransferEventReceived_of_failed (d : Device) {e : TransferEvent} (failed : ¬ e.Succeeded) :
    d.onTransferEventReceived e = (d, .error .transferFailed) := by
  rw [TransferEvent.Succeeded, not_or] at failed
  rw [Device.onTransferEventReceived, if_pos failed]

theorem Tracked.step (ledger : Ledger rings s) (tracked : Tracked s) {action : Action}
    (guard : NoneFails s action) (stepped : s.step action = some s') : Tracked s' := by
  cases action with
  | control c =>
      rcases control_step ledger stepped with
        ⟨-, -, sameMap, -, sameOutstanding, -⟩ |
        ⟨t, -, -, issued, -, -, -, -, -, -, -, -, setupStageMap, -, outstanding, -⟩
      · refine ⟨?_, ?_⟩
        · rw [sameMap, sameOutstanding]
          exact tracked.entries
        · rw [sameOutstanding]
          exact tracked.keys
      · rcases guard t issued with ⟨room, new⟩
        have count : s.device.setupStageMap.entries.length = s.outstanding.length := by
          rw [tracked.entries.length_eq, List.length_map]
        have put := ArrayMap.entries_put s.device.setupStageMap t.reported t.setup (by omega)
        refine ⟨?_, ?_⟩
        · rw [setupStageMap, outstanding, List.map_append]
          exact (put.trans (tracked.entries.cons _)).trans (List.perm_append_singleton _ _).symm
        · rw [outstanding, List.map_append, List.nodup_append_comm]
          exact List.nodup_cons.mpr ⟨new, tracked.keys⟩
  | event e =>
      cases stepped
      by_cases succeeded : e.Succeeded
      · refine ⟨?_, ?_⟩
        · change List.Perm _ ((s.outstanding.filter _).map _)
          rw [entries_of_succeeded ledger tracked succeeded]
          refine (tracked.entries.filter _).trans ?_
          rw [List.filter_map]
          apply List.Perm.of_eq
          congr 1
          apply List.filter_congr
          intro t _
          apply decide_eq_decide.mpr
          rw [e.completes_of_succeeded succeeded]
          exact ⟨Ne.symm, Ne.symm⟩
        · exact tracked.keys.sublist (List.filter_sublist.map _)
      · have same : (s.outstanding.filter fun t => ¬ e.Completes t) = s.outstanding := by
          rw [List.filter_eq_self]
          intro t member
          have other : ¬ e.Completes t := fun completes => succeeded (guard t member completes)
          simpa using other
        refine ⟨?_, ?_⟩
        · change List.Perm _ ((s.outstanding.filter _).map _)
          rw [same, onTransferEventReceived_of_failed _ succeeded]
          exact tracked.entries
        · change ((s.outstanding.filter _).map _).Nodup
          rw [same]
          exact tracked.keys

theorem tracked_of_run {usb : Usb.Device} {actions : List Action}
    (run : Run (guarded (ofFunction step) NoneFails) (initial rings usb) actions s) : Tracked s := by
  have preserved : ∀ ⦃s action s'⦄, Ledger rings s ∧ Tracked s →
      guarded (ofFunction step) NoneFails s action s' → Ledger rings s' ∧ Tracked s' := by
    rintro s action s' ⟨ledger, tracked⟩ ⟨guard, stepped⟩
    exact ⟨ledger.step stepped, tracked.step ledger guard stepped⟩
  exact (run.invariant preserved ⟨ledger_initial rings usb, tracked_initial rings usb⟩).2

/-- As long as no event reports an outstanding transfer as failed,
`setup_stage_map_` contains exactly one entry for every outstanding transfer, and
each of them can be matched. -/
theorem tracked_of_noneFails {usb : Usb.Device} {actions : List Action}
    (run : Run (guarded (ofFunction step) NoneFails) (initial rings usb) actions s) :
    Tracked s ∧ ∀ t ∈ s.outstanding, s.device.setupStageMap.get t.reported = some t.setup := by
  have tracked := tracked_of_run run
  exact ⟨tracked, fun t member => tracked.get member⟩

/-! ## A failed transfer -/

/-- One transfer ring, that of the default control pipe. -/
def defaultPipe : RingTable where
  region := fun dci => if dci = 1 then some ⟨4096, 32, by decide, by decide⟩ else none
  two_le := by
    intro dci r found
    rw [Option.ite_none_right_eq_some] at found
    rw [← Option.some_inj.mp found.2]
    decide
  separate := by
    intro dci dci' r r' found found' ne
    rw [Option.ite_none_right_eq_some] at found found'
    exact absurd (found.1.trans found'.1.symm) ne

/-- `GET_DESCRIPTOR` without a data stage. -/
def withoutData : Call :=
  ⟨true, 1, ⟨0x80, 6, 0x100, 0, 0⟩, 0, 0, none⟩

/-- `GET_DESCRIPTOR` with a data stage. -/
def withData : Call :=
  ⟨true, 1, ⟨0x80, 6, 0x100, 0, 18⟩, 0x8000, 18, none⟩

/-- An event for the block in a slot of this ring. -/
def eventAt (slot : Nat) (completionCode : Fin 256) : TransferEvent :=
  ⟨4096 + 16 * slot, 2, completionCode, 1⟩

/-- Two transfers that complete in the other order. -/
def bothSucceed : List Action :=
  [.control withData, .control withoutData, .event (eventAt 4 1), .event (eventAt 1 13)]

theorem tracked_of_noneFails_bothSucceed : ∃ s,
    Run (guarded (ofFunction step) NoneFails) (initial defaultPipe .initialized) bothSucceed s ∧
      (Tracked s ∧
        ∀ t ∈ s.outstanding, s.device.setupStageMap.get t.reported = some t.setup) := by
  rcases exists_run_of_execute NoneFails step (initial defaultPipe .initialized) bothSucceed
    (fun _ => true) (by decide) with ⟨s, run, -⟩
  exact ⟨s, run, tracked_of_noneFails run⟩

/-- The entry of a failed transfer stays. -/
theorem not_tracked_failed : ∃ s,
    Run (ofFunction step) (initial defaultPipe .initialized)
      [.control withoutData, .event (eventAt 1 4)] s ∧
    s.outstanding = [] ∧ s.device.setupStageMap.entries = [(4096 + 16, 4096)] ∧ ¬ Tracked s := by
  have executed : (execute step (initial defaultPipe .initialized)
      [.control withoutData, .event (eventAt 1 4)]).any (fun s =>
        s.outstanding.isEmpty ∧ s.device.setupStageMap.entries = [(4096 + 16, 4096)]) = true := by
    decide
  rcases (Option.any_eq_true ..).mp executed with ⟨s, found, holds⟩
  rcases of_decide_eq_true holds with ⟨isEmpty, entries⟩
  have outstanding := List.isEmpty_iff.mp isEmpty
  refine ⟨s, (execute_eq_some_iff step _ _ s).mp found, outstanding, entries, ?_⟩
  intro tracked
  have same := tracked.entries.length_eq
  rw [entries, outstanding] at same
  cases same

end Transfers
end Mikanos.Xhci
