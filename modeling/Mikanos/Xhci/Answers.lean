import Mikanos.Xhci.Transfers

/-!
# Control transfers are answered with their own request

The request of a transfer is read back from its ring when its event arrives, so it
is the right one as long as the ring has not come round to its blocks.  The driver
does not keep track of that: the limit is on the blocks that have been pushed since
the oldest outstanding transfer, and not on the blocks of the outstanding transfers
alone.
-/

namespace Mikanos.Xhci

open Mikanos.Transition Mikanos.Usb

namespace Transfers

variable {rings : RingTable} {s s' : Transfers}

/-! ## Addresses -/

theorem address_bounds {region : Region} (two_le : 2 ≤ region.size) (q : Nat) :
    region.base ≤ region.address q ∧ region.address q < region.base + 16 * region.size := by
  have slot_lt := Nat.mod_lt q (show 0 < region.size - 1 by omega)
  rw [Region.address]
  omega

/-- An address tells its ring and its slot. -/
theorem address_inj {dci dci' : Nat} {region region' : Region} {q q' : Nat}
    (found : rings.region dci = some region) (found' : rings.region dci' = some region')
    (same : region.address q = region'.address q') :
    dci = dci' ∧ region = region' ∧ q % (region.size - 1) = q' % (region.size - 1) := by
  have bounds := address_bounds (rings.two_le dci region found) q
  have bounds' := address_bounds (rings.two_le dci' region' found') q'
  by_cases sameDci : dci = dci'
  · subst sameDci
    rw [found] at found'
    cases found'
    rw [Region.address, Region.address] at same
    exact ⟨rfl, rfl, by omega⟩
  · rcases rings.separate dci dci' region region' found found' sameDci with below | above <;> omega

/-- The ring at an address in it. -/
theorem ringAt_address (ledger : Ledger rings s) {dci : Nat} {ring : Ring} (dci_lt : dci < 32)
    (found : s.device.transferRings dci = some ring) (q : Nat) :
    s.device.ringAt (ring.region.address q) = some ring := by
  have atRegion : rings.region dci = some ring.region := by
    rw [← ledger.region, found]
    rfl
  have bounds := address_bounds (rings.two_le dci ring.region atRegion) q
  rw [Device.ringAt]
  have member : ring ∈ (List.range 32).filterMap s.device.transferRings :=
    List.mem_filterMap.mpr ⟨dci, List.mem_range.mpr dci_lt, found⟩
  cases result : List.find? _ ((List.range 32).filterMap s.device.transferRings) with
  | none =>
      have outside := List.find?_eq_none.mp result ring member
      exact absurd (decide_eq_true bounds) outside
  | some other =>
      have inside : other.region.base ≤ ring.region.address q ∧
          ring.region.address q < other.region.base + 16 * other.region.size := by
        simpa using List.find?_some result
      rcases List.mem_filterMap.mp (List.mem_of_find?_eq_some result) with ⟨dci', -, found'⟩
      have atRegion' : rings.region dci' = some other.region := by
        rw [← ledger.region, found']
        rfl
      by_cases same : dci' = dci
      · rw [same, found] at found'
        exact found'.symm
      · rcases rings.separate dci' dci _ _ atRegion' atRegion same with below | above <;> omega

/-- A block of the last lap is still at its address. -/
theorem trbAt_address (ledger : Ledger rings s) {dci : Nat} {region : Region} (dci_lt : dci < 32)
    (atRegion : rings.region dci = some region) {q : Nat} {trb : TRB}
    (pushed : (s.history dci)[q]? = some trb)
    (recent : (s.history dci).length ≤ q + (region.size - 1)) :
    ∃ cycle, s.device.trbAt (region.address q) = trb.stamp cycle := by
  rcases ledger.ring atRegion with ⟨ring, found, rfl⟩
  rcases (ledger.holds dci ring found).kept q trb pushed recent with ⟨cycle, kept⟩
  refine ⟨cycle, ?_⟩
  rw [Device.trbAt, ringAt_address ledger dci_lt found q, ← kept]
  change ring.buf ((ring.region.base + 16 * (q % (ring.region.size - 1)) - ring.region.base) / 16) =
    ring.buf (q % (ring.region.size - 1))
  rw [Nat.add_sub_cancel_left, Nat.mul_div_cancel_left _ (by decide)]

/-! ## Transfers whose blocks are still there -/

/-- The blocks pushed from the oldest outstanding transfer of the ring on fit into
the ring, at most 16 transfers are outstanding, and all events are successes or
short packets. -/
def WithinLimits (s : Transfers) : Action → Prop
  | .control c => ∀ t ∈ s.issue c,
      s.outstanding.length < 16 ∧ (c.buf ≠ 0 → 0 ≤ c.len ∧ c.len < 2 ^ 17) ∧
        ∀ old ∈ t :: s.outstanding, old.dci = t.dci →
          (s.history t.dci).length + c.blocks.length ≤ old.position + (old.region.size - 2)
  | .event e => e.Succeeded

instance (s : Transfers) : ∀ action, Decidable (WithinLimits s action)
  | .control c => inferInstanceAs (Decidable (∀ t ∈ s.issue c,
      s.outstanding.length < 16 ∧ (c.buf ≠ 0 → 0 ≤ c.len ∧ c.len < 2 ^ 17) ∧
        ∀ old ∈ t :: s.outstanding, old.dci = t.dci →
          (s.history t.dci).length + c.blocks.length ≤ old.position + (old.region.size - 2)))
  | .event e => inferInstanceAs (Decidable e.Succeeded)

/-- The ring has not come round to an outstanding transfer. -/
structure Recent (s : Transfers) : Prop where
  window : ∀ t ∈ s.outstanding,
    (s.history t.dci).length ≤ t.position + (t.region.size - 2)
  length : ∀ t ∈ s.outstanding, t.call.buf ≠ 0 → 0 ≤ t.call.len ∧ t.call.len < 2 ^ 17

theorem recent_initial (rings : RingTable) (usb : Usb.Device) : Recent (initial rings usb) where
  window := by rintro t ⟨⟩
  length := by rintro t ⟨⟩

/-- A call within the limits does not take the slot of an outstanding transfer. -/
theorem noneFails_of_withinLimits (ledger : Ledger rings s) {action : Action}
    (limits : WithinLimits s action) : NoneFails s action := by
  cases action with
  | control c =>
      intro t issued
      rcases limits t issued with ⟨room, -, window⟩
      refine ⟨room, ?_⟩
      intro taken
      rcases List.mem_map.mp taken with ⟨old, member, same⟩
      rcases issue_some issued with ⟨ring, found, rfl⟩
      have atRegion : rings.region c.ep.toNat = some ring.region := by
        rw [← ledger.region, (Device.ringOf_some found).1]
        rfl
      have oldIssued := ledger.issued old (List.mem_append_left _ member)
      rcases address_inj oldIssued.region atRegion same with ⟨sameDci, sameRegion, sameSlot⟩
      have recent := window old (.tail _ member) sameDci
      have before := oldIssued.position_lt
      rw [sameDci] at before
      have blocks : 2 ≤ c.blocks.length := Nat.le_add_left 2 _
      have history : (s.history (Transfer.dci ⟨c, ring.region, (s.history c.ep.toNat).length⟩)).length =
        (s.history c.ep.toNat).length := rfl
      rw [history, sameRegion] at recent
      rw [sameRegion] at sameSlot
      refine mod_ne_of_lt (a := old.position + 1) (b := (s.history c.ep.toNat).length + 1) ?_ ?_ sameSlot
      · omega
      · omega
  | event e =>
      intro t _ _
      exact limits

theorem Recent.step (ledger : Ledger rings s) (recent : Recent s) {action : Action}
    (limits : WithinLimits s action) (stepped : s.step action = some s') : Recent s' := by
  cases action with
  | control c =>
      rcases control_step ledger stepped with
        ⟨-, -, -, sameHistory, sameOutstanding, -⟩ |
        ⟨t, -, -, issued, call, -, -, -, -, -, -, -, -, history, outstanding, -⟩
      · refine ⟨?_, ?_⟩
        · rw [sameOutstanding, sameHistory]
          exact recent.window
        · rw [sameOutstanding]
          exact recent.length
      · rcases limits t issued with ⟨-, length, window⟩
        refine ⟨?_, ?_⟩
        · intro old member
          rw [outstanding] at member
          have member' := List.perm_append_singleton .. |>.mem_iff.mp member
          rw [history]
          by_cases same : old.dci = t.dci
          · rw [same, Function.update_self, List.length_append]
            exact window old member' same
          · rw [Function.update_of_ne same]
            rcases List.mem_cons.mp member' with new | old'
            · exact absurd (congrArg Transfer.dci new) same
            · exact recent.window old old'
        · intro old member
          rw [outstanding] at member
          rcases List.mem_append.mp member with old' | new
          · exact recent.length old old'
          · rw [List.mem_singleton.mp new, call]
            exact length
  | event e =>
      cases stepped
      refine ⟨?_, ?_⟩
      · intro t member
        exact recent.window t (List.mem_of_mem_filter member)
      · intro t member
        exact recent.length t (List.mem_of_mem_filter member)

/-! ## Answers -/

/-- What an event for a transfer makes the device call. -/
def answer (t : Transfer) (e : TransferEvent) : Received :=
  .controlCompleted e.endpointId t.call.setupData t.call.buf
    (if t.call.buf = 0 then 0 else t.call.len - e.trbTransferLength.toNat)

/-- Each event for an outstanding transfer runs `OnControlCompleted` with the
request of that transfer, and a second event is an error. -/
structure Answers (s : Transfers) : Prop where
  distinct : (s.outstanding.map Transfer.reported).Nodup
  own : ∀ t ∈ s.outstanding, ∀ e : TransferEvent, e.Succeeded → e.trbPointer = t.reported →
    (s.device.onTransferEventReceived e).2 = answer t e
  again : ∀ t ∈ s.completed,
    (s.history t.dci).length ≤ t.position + 1 + (t.region.size - 1) →
    ∀ e : TransferEvent, e.Succeeded → e.trbPointer = t.reported →
      s.device.onTransferEventReceived e = (s.device, .error .noCorrespondingSetupStage)

theorem own_of_recent (ledger : Ledger rings s) (tracked : Tracked s) (recent : Recent s)
    {t : Transfer} (member : t ∈ s.outstanding) {e : TransferEvent} (succeeded : e.Succeeded)
    (pointer : e.trbPointer = t.reported) :
    (s.device.onTransferEventReceived e).2 = answer t e := by
  have issued := ledger.issued t (List.mem_append_left _ member)
  have window := recent.window t member
  have before := issued.position_lt
  rcases trbAt_address ledger issued.dci_lt issued.region (issued.blocks 0 _ rfl) (by omega) with
    ⟨setupCycle, setup⟩
  rcases trbAt_address ledger issued.dci_lt issued.region (issued.blocks 1 _ rfl) (by omega) with
    ⟨cycle, reported⟩
  rw [received_of_some ledger succeeded (pointer ▸ tracked.get member)]
  have atSetup : s.device.trbAt t.setup = t.call.setupBlock.stamp setupCycle := setup
  have atReported : s.device.trbAt t.reported = t.call.reportedBlock.stamp cycle := reported
  rw [Device.completeControl, pointer, atSetup, atReported, answer, TRB.setupData_stamp,
    Call.setupBlock, TRB.setupData_makeSetupStage, TRB.trbType_stamp, TRB.dataBufferPointer_stamp, TRB.transferLength_stamp, Call.reportedBlock]
  by_cases null : t.call.buf = 0
  · rw [if_pos null, if_pos null, TRB.trbType_makeStatusStage, if_neg (by decide), if_pos rfl, null]
  · rcases recent.length t member null with ⟨nonneg, small⟩
    rw [if_neg null, if_neg null, TRB.trbType_makeDataStage, if_pos rfl,
      TRB.dataBufferPointer_makeDataStage, TRB.transferLength_makeDataStage,
      intDifference_eq nonneg small]

/-- A completed transfer has no entry until its slot is written again. -/
theorem again_of_recent (ledger : Ledger rings s) (tracked : Tracked s) (recent : Recent s)
    {t : Transfer} (member : t ∈ s.completed)
    (kept : (s.history t.dci).length ≤ t.position + 1 + (t.region.size - 1))
    {e : TransferEvent} (succeeded : e.Succeeded) (pointer : e.trbPointer = t.reported) :
    s.device.onTransferEventReceived e = (s.device, .error .noCorrespondingSetupStage) := by
  apply received_of_none ledger succeeded
  apply tracked.get_none
  intro taken
  rcases List.mem_map.mp taken with ⟨old, oldMember, same⟩
  have issued := ledger.issued t (List.mem_append_right _ member)
  have oldIssued := ledger.issued old (List.mem_append_left _ oldMember)
  rcases address_inj oldIssued.region issued.region (same.trans pointer) with
    ⟨sameDci, sameRegion, sameSlot⟩
  have window := recent.window old oldMember
  have before := issued.position_lt
  have oldBefore := oldIssued.position_lt
  rw [sameDci, sameRegion] at window
  rw [sameDci] at oldBefore
  rw [sameRegion] at sameSlot
  -- both positions are among the last lap, so the slots are the same only if they are
  rcases Nat.lt_trichotomy old.position t.position with lower | equal | upper
  · exact mod_ne_of_lt (Nat.succ_lt_succ lower) (by omega) sameSlot
  · have disjoint := List.disjoint_of_nodup_append (List.map_append ▸ ledger.fresh)
    exact disjoint (List.mem_map_of_mem oldMember)
      (List.mem_map.mpr ⟨t, member, by rw [sameDci, equal]⟩)
  · exact mod_ne_of_lt (Nat.succ_lt_succ upper) (by omega) sameSlot.symm

/-- Within the limits of a ring, control transfers are answered with their own
request. -/
theorem answers_of_withinLimits {usb : Usb.Device} {actions : List Action}
    (run : Run (guarded (ofFunction step) WithinLimits) (initial rings usb) actions s) :
    Answers s := by
  have preserved : ∀ ⦃s action s'⦄, Ledger rings s ∧ Tracked s ∧ Recent s →
      guarded (ofFunction step) WithinLimits s action s' →
      Ledger rings s' ∧ Tracked s' ∧ Recent s' := by
    rintro s action s' ⟨ledger, tracked, recent⟩ ⟨limits, stepped⟩
    exact ⟨ledger.step stepped,
      tracked.step ledger (noneFails_of_withinLimits ledger limits) stepped,
      recent.step ledger limits stepped⟩
  rcases run.invariant preserved ⟨ledger_initial rings usb, tracked_initial rings usb,
    recent_initial rings usb⟩ with ⟨ledger, tracked, recent⟩
  refine ⟨tracked.keys, ?_, ?_⟩
  · intro t member e succeeded pointer
    exact own_of_recent ledger tracked recent member succeeded pointer
  · intro t member kept e succeeded pointer
    exact again_of_recent ledger tracked recent member kept succeeded pointer

theorem answers_of_withinLimits_bothSucceed : ∃ s,
    Run (guarded (ofFunction step) WithinLimits) (initial defaultPipe .initialized) bothSucceed s ∧
      Answers s := by
  rcases exists_run_of_execute WithinLimits step (initial defaultPipe .initialized) bothSucceed
    (fun _ => true) (by decide) with ⟨s, run, -⟩
  exact ⟨s, run, answers_of_withinLimits run⟩

/-! ## A transfer that waits for a lap -/

/-- Few transfers and few blocks are outstanding, wherever in the ring they are. -/
def FewOutstanding (s : Transfers) : Action → Prop
  | .control c => ∀ t ∈ s.issue c,
      s.outstanding.length < 16 ∧ (c.buf ≠ 0 → 0 ≤ c.len ∧ c.len < 2 ^ 17) ∧
        ((t :: s.outstanding).map fun t => t.call.blocks.length).sum ≤ t.region.size - 2
  | .event e => e.Succeeded

instance (s : Transfers) : ∀ action, Decidable (FewOutstanding s action)
  | .control c => inferInstanceAs (Decidable (∀ t ∈ s.issue c,
      s.outstanding.length < 16 ∧ (c.buf ≠ 0 → 0 ≤ c.len ∧ c.len < 2 ^ 17) ∧
        ((t :: s.outstanding).map fun t => t.call.blocks.length).sum ≤ t.region.size - 2))
  | .event e => inferInstanceAs (Decidable e.Succeeded)

/-- While the first transfer is outstanding, fifteen others complete one after
another, and the last one takes the slot of its setup stage. -/
def lap : List Action :=
  .control withoutData :: (List.range 15).flatMap fun i =>
    [.control withoutData, .event (eventAt ((2 * i + 3) % 31) 1)]

/-- The first transfer is answered with a request that was never made. -/
theorem not_answers_lap : ∃ s,
    Run (guarded (ofFunction step) FewOutstanding) (initial defaultPipe .initialized) lap s ∧
    (∃ t, s.outstanding = [t] ∧ t.call = withoutData ∧ t.reported = (eventAt 1 1).trbPointer) ∧
    (s.device.onTransferEventReceived (eventAt 1 1)).2 =
      .controlCompleted 1 ⟨0, 0, 0, 0, 0⟩ 0 0 ∧ ¬ Answers s := by
  rcases exists_run_of_execute FewOutstanding step (initial defaultPipe .initialized) lap
    (fun s => (s.outstanding.map fun t => (t.call, t.reported)) = [(withoutData, 4096 + 16)] ∧
      (s.device.onTransferEventReceived (eventAt 1 1)).2 = .controlCompleted 1 ⟨0, 0, 0, 0, 0⟩ 0 0)
    (by decide +kernel) with ⟨s, run, holds⟩
  rcases of_decide_eq_true holds with ⟨outstanding, answered⟩
  rcases List.map_eq_singleton_iff.mp outstanding with ⟨t, only, same⟩
  rcases Prod.mk.inj same with ⟨call, reported⟩
  refine ⟨s, run, ⟨t, only, call, reported⟩, answered, ?_⟩
  intro answers
  have own := answers.own t (only ▸ List.mem_singleton_self t) (eventAt 1 1) (by decide) reported.symm
  rw [answered, answer, call] at own
  cases own

end Transfers
end Mikanos.Xhci
