import Mikanos.Error
import Mikanos.Transition.Run
import Mikanos.Usb.ArrayMap

/-!
# Who is told that a request has completed

A device remembers in `event_waiters_` which class driver issued a request, by
the content of the request.  Nothing is ever deleted from this map, so it holds
the first four requests for good.  This file says exactly which completions
reach the driver that issued the request.
-/

namespace Mikanos.Usb

open Mikanos.Transition

/-- `SetupData`. -/
structure SetupData where
  requestType : BitVec 8
  request : BitVec 8
  value : BitVec 16
  index : BitVec 16
  length : BitVec 16
  deriving DecidableEq

/-- A class driver, named by its address. -/
abbrev ClassDriver := Nat

/-- `usb::Device`, as far as control requests are concerned. -/
structure Device where
  isInitialized : Bool
  eventWaiters : ArrayMap SetupData ClassDriver 4

/-- What `OnControlCompleted` does with a completed request. -/
inductive Completion
  /-- the request belongs to the initialisation of the device -/
  | initializePhase
  /-- `OnControlCompleted` of a class driver is called -/
  | classDriver (driver : ClassDriver)
  | error (e : Error)
  deriving DecidableEq

namespace Device

/-- Register the issuer of a request, if there is one. -/
def register (d : Device) (setupData : SetupData) (issuer : Option ClassDriver) : Device :=
  match issuer with
  | some issuer => { d with eventWaiters := d.eventWaiters.put setupData issuer }
  | none => d

/-- `ControlIn`. -/
def controlIn (d : Device) (setupData : SetupData) (issuer : Option ClassDriver) :
    Device × Error :=
  (d.register setupData issuer, .success)

/-- `ControlOut`. -/
def controlOut (d : Device) (setupData : SetupData) (issuer : Option ClassDriver) :
    Device × Error :=
  (d.register setupData issuer, .success)

/-- `OnControlCompleted`. -/
def onControlCompleted (d : Device) (setupData : SetupData) : Completion :=
  if d.isInitialized then
    match d.eventWaiters.get setupData with
    | some w => .classDriver w
    | none => .error .noWaiter
  else
    .initializePhase

/-- A device right after its initialisation; the requests that it issues itself
have no issuer. -/
def initialized : Device where
  isInitialized := true
  eventWaiters := .empty _ _ _

end Device

/-- A control request of a class driver. -/
structure Request where
  setupData : SetupData
  issuer : ClassDriver
  deriving DecidableEq

/-- A device together with the requests issued so far, and what became of those
that have completed: a request is named by its position. -/
structure Requests where
  device : Device
  issued : List Request
  completed : List (Nat × Completion)

namespace Requests

/-- No request has been issued. -/
def initial : Requests :=
  { device := .initialized, issued := [], completed := [] }

/-- What can happen to a device. -/
inductive Action
  | controlIn (request : Request)
  | controlOut (request : Request)
  /-- a request completes -/
  | complete (i : Nat)

/-- One step; a request completes once, after it has been issued. -/
def step (s : Requests) : Action → Option Requests
  | .controlIn request => some { s with
      device := (s.device.controlIn request.setupData (some request.issuer)).1
      issued := s.issued ++ [request] }
  | .controlOut request => some { s with
      device := (s.device.controlOut request.setupData (some request.issuer)).1
      issued := s.issued ++ [request] }
  | .complete i =>
      match s.issued[i]? with
      | none => none
      | some request =>
          if i ∈ s.completed.map Prod.fst then none
          else some { s with
            completed := s.completed ++ [(i, s.device.onControlCompleted request.setupData)] }

/-- Every completed request has reached the driver that issued it. -/
def Delivered (s : Requests) : Prop :=
  ∀ c ∈ s.completed, ∀ request, s.issued[c.1]? = some request →
    c.2 = .classDriver request.issuer

/-- Among the first four requests, the first one with the content of a completed
request is of the same driver. -/
def AmongFirst (s : Requests) : Prop :=
  ∀ c ∈ s.completed, ∀ request, s.issued[c.1]? = some request →
    ((s.issued.take 4).find? (·.setupData = request.setupData)).map Request.issuer =
      some request.issuer

/-! ## What the map holds -/

/-- The entry of `event_waiters_` for a request. -/
def entry (r : Request) : SetupData × ClassDriver :=
  (r.setupData, r.issuer)

/-- The driver that the first four requests name for a content. -/
def firstIssuer (issued : List Request) (setupData : SetupData) : Option ClassDriver :=
  ((issued.take 4).find? (·.setupData = setupData)).map Request.issuer

/-- What becomes of a completed request. -/
def outcome (issued : List Request) (setupData : SetupData) : Completion :=
  (firstIssuer issued setupData).elim (.error .noWaiter) .classDriver

/-- A later request changes nothing for one that has been issued. -/
theorem firstIssuer_append {issued : List Request} {request : Request} (member : request ∈ issued)
    (later : Request) :
    firstIssuer (issued ++ [later]) request.setupData = firstIssuer issued request.setupData := by
  rw [firstIssuer, firstIssuer]
  by_cases full : 4 ≤ issued.length
  · rw [List.take_append_of_le_length full]
  · have found : (issued.find? (·.setupData = request.setupData)).isSome := by
      rw [List.find?_isSome]
      exact ⟨request, member, by simp⟩
    rw [List.take_of_length_le (l := issued) (by omega), List.take_of_length_le, List.find?_append,
      Option.or_of_isSome found]
    rw [List.length_append, List.length_singleton]
    omega

/-- The map holds the first four requests, and every completion went where they
say. -/
structure Inv (s : Requests) : Prop where
  isInitialized : s.device.isInitialized = true
  waiters : s.device.eventWaiters.HoldsFirst (s.issued.map entry)
  completed : ∀ c ∈ s.completed, ∃ request, s.issued[c.1]? = some request ∧
    c.2 = outcome s.issued request.setupData

theorem inv_initial : Inv initial where
  isInitialized := rfl
  waiters := ArrayMap.holdsFirst_empty
  completed := by rintro c ⟨⟩

theorem onControlCompleted_eq {s : Requests} (inv : Inv s) (setupData : SetupData) :
    s.device.onControlCompleted setupData = outcome s.issued setupData := by
  have found : s.device.eventWaiters.get setupData = firstIssuer s.issued setupData := by
    rw [inv.waiters.get, firstIssuer, ← List.map_take, List.find?_map, Option.map_map]
    rfl
  rw [Device.onControlCompleted, inv.isInitialized, if_pos rfl, found, outcome]
  cases firstIssuer s.issued setupData <;> rfl

/-- Issuing one more request. -/
theorem Inv.issue {s s' : Requests} (inv : Inv s) (request : Request)
    (device : s'.device = s.device.register request.setupData (some request.issuer))
    (issued : s'.issued = s.issued ++ [request]) (completed : s'.completed = s.completed) :
    Inv s' where
  isInitialized := by
    rw [device]
    exact inv.isInitialized
  waiters := by
    rw [device, issued, List.map_append]
    exact inv.waiters.put request.setupData request.issuer
  completed := by
    intro c member
    rw [completed] at member
    rcases inv.completed c member with ⟨old, found, result⟩
    refine ⟨old, ?_, ?_⟩
    · rw [issued, List.getElem?_append_left (List.getElem?_eq_some_iff.mp found).1, found]
    · rw [result, outcome, outcome, issued, firstIssuer_append (List.mem_of_getElem? found)]

theorem Inv.step {s s' : Requests} {action : Action} (inv : Inv s)
    (stepped : s.step action = some s') : Inv s' := by
  cases action with
  | controlIn request =>
      cases stepped
      exact inv.issue request rfl rfl rfl
  | controlOut request =>
      cases stepped
      exact inv.issue request rfl rfl rfl
  | complete i =>
      rw [Requests.step] at stepped
      cases issued : s.issued[i]? with
      | none =>
          rw [issued] at stepped
          cases stepped
      | some request =>
          simp only [issued] at stepped
          split at stepped
          · cases stepped
          · cases stepped
            refine ⟨inv.isInitialized, inv.waiters, ?_⟩
            intro c member
            rcases List.mem_append.mp member with old | new
            · exact inv.completed c old
            · rw [List.mem_singleton.mp new]
              exact ⟨request, issued, onControlCompleted_eq inv _⟩

theorem inv_of_run {actions : List Action} {s : Requests}
    (run : Run (ofFunction step) initial actions s) : Inv s :=
  run.invariant (fun _ _ _ inv stepped => inv.step stepped) inv_initial

/-- Every completion reaches the driver that issued the request exactly when it is
the driver that the first four requests name for its content. -/
theorem delivered_iff {actions : List Action} {s : Requests}
    (run : Run (ofFunction step) initial actions s) : s.Delivered ↔ s.AmongFirst := by
  have inv := inv_of_run run
  have same : ∀ c ∈ s.completed, ∀ request, s.issued[c.1]? = some request →
      (c.2 = .classDriver request.issuer ↔
        firstIssuer s.issued request.setupData = some request.issuer) := by
    intro c member request found
    rcases inv.completed c member with ⟨request', found', result⟩
    rw [found] at found'
    cases found'
    rw [result, outcome]
    cases firstIssuer s.issued request.setupData with
    | none => simp
    | some w => simp
  constructor
  · intro delivered c member request found
    exact (same c member request found).mp (delivered c member request found)
  · intro first c member request found
    exact (same c member request found).mpr (first c member request found)

/-! ## Five requests -/

/-- A request that differs from the others in its value. -/
def numbered (value : BitVec 16) (issuer : ClassDriver) : Request :=
  ⟨⟨0x21, 11, value, 0, 0⟩, issuer⟩

/-- Two requests complete in the other order. -/
def twoRequests : List Action :=
  [.controlOut (numbered 0 1), .controlOut (numbered 1 2), .complete 1, .complete 0]

/-- Five different requests complete one after another. -/
def fiveRequests : List Action :=
  (List.range 5).flatMap fun i => [.controlOut (numbered (BitVec.ofNat 16 i) 1), .complete i]

theorem delivered_iff_twoRequests : ∃ s, Run (ofFunction step) initial twoRequests s ∧
    (s.Delivered ↔ s.AmongFirst) := by
  have isSome : (execute step initial twoRequests).isSome = true := by decide
  rcases Option.isSome_iff_exists.mp isSome with ⟨s, executed⟩
  have run := (execute_eq_some_iff step initial twoRequests s).mp executed
  exact ⟨s, run, delivered_iff run⟩

/-- The fifth request completes without a waiter. -/
theorem not_delivered_fiveRequests : ∃ s, Run (ofFunction step) initial fiveRequests s ∧
    s.completed[4]? = some (4, .error .noWaiter) ∧ ¬ s.Delivered := by
  have fifth : (execute step initial fiveRequests).any (fun s =>
      s.completed[4]? = some (4, .error .noWaiter) ∧ s.issued[4]? = some (numbered 4 1)) = true := by
    decide
  rcases (Option.any_eq_true ..).mp fifth with ⟨s, executed, holds⟩
  rcases of_decide_eq_true holds with ⟨completed, issued⟩
  refine ⟨s, (execute_eq_some_iff step initial fiveRequests s).mp executed, completed, ?_⟩
  intro delivered
  cases delivered _ (List.mem_of_getElem? completed) _ issued

end Requests
end Mikanos.Usb
