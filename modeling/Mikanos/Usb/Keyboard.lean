import Mathlib.Data.List.GetD
import Mathlib.Tactic

/-!
# Keys that are pressed

`HIDKeyboardDriver` compares the keys of a report with those of the one before, and notifies of
the keys that have changed.  Only the bytes that were received are copied to the previous
buffer, but the others have not changed either, so that the two buffers are the same between
reports.  So the notifications tell at any time which keys are pressed.
-/

namespace Mikanos.Usb

/-- The arguments of `NotifyKeyPush`. -/
structure KeyPush where
  modifier : UInt8
  keycode : Nat
  press : Bool
  deriving DecidableEq

/-- `std::bitset<256>`, for keys. -/
abbrev KeySet := Nat → Bool

/-- `HIDBaseDriver`, as far as it receives reports. -/
structure HIDBaseDriver where
  buf : Nat → UInt8
  previousBuf : Nat → UInt8

/-- What the device sends: at most the 8 bytes of a boot report. -/
structure Report where
  bytes : List UInt8
  short : bytes.length ≤ 8

namespace HIDBaseDriver

def initial : HIDBaseDriver where
  buf := fun _ => 0
  previousBuf := fun _ => 0

/-- The keys in a buffer, with 0 for none. -/
def keys (buffer : Nat → UInt8) : KeySet :=
  (List.range' 2 6).foldl (fun keys i => Function.update keys (buffer i).toNat true) fun _ => false

/-- `HIDKeyboardDriver::OnDataReceived`. -/
def onDataReceived (d : HIDBaseDriver) : List KeyPush :=
  let prev := keys d.previousBuf
  let current := keys d.buf
  let changed := fun key => xor (prev key) (current key)
  let pressed := fun key => changed key && current key
  (List.range' 1 255).filterMap fun key =>
    if changed key then some ⟨d.buf 0, key, pressed key⟩ else none

/-- `OnInterruptCompleted`, for an endpoint in. -/
def onInterruptCompleted (d : HIDBaseDriver) (len : Nat) : HIDBaseDriver × List KeyPush :=
  ({ d with previousBuf := fun i => if i < len then d.buf i else d.previousBuf i }, d.onDataReceived)

/-- A report arrives in the buffer. -/
def transfer (d : HIDBaseDriver) (report : Report) : HIDBaseDriver :=
  { d with buf := fun i => report.bytes.getD i (d.buf i) }

end HIDBaseDriver

/-- The driver, and all its notifications. -/
structure Keyboard where
  driver : HIDBaseDriver
  notified : List KeyPush

namespace Keyboard

def initial : Keyboard where
  driver := .initial
  notified := []

/-- A report is received. -/
def receive (s : Keyboard) (report : Report) : Keyboard :=
  let (driver, pushes) := (s.driver.transfer report).onInterruptCompleted report.bytes.length
  ⟨driver, s.notified ++ pushes⟩

def run (reports : List Report) : Keyboard :=
  reports.foldl receive initial

/-! ## What notifications say -/

/-- The notifications of one key. -/
def pushesOf (notified : List KeyPush) (key : Nat) : List Bool :=
  (notified.filter fun push => push.keycode = key).map KeyPush.press

/-- Presses and releases take turns, and the first is a press. -/
def Alternate (presses : List Bool) : Prop :=
  ∀ i press, presses[i]? = some press → press = decide (i % 2 = 0)

/-- The last notification of the key was a press. -/
def Held (notified : List KeyPush) (key : Nat) : Prop :=
  (pushesOf notified key).getLast? = some true

/-- The key is in one of the bytes 2 to 7. -/
def InBuffer (s : Keyboard) (key : Nat) : Prop :=
  ∃ i, 2 ≤ i ∧ i < 8 ∧ (s.driver.buf i).toNat = key

/-- The notifications up to now tell which keys are pressed. -/
structure Reconstructs (s : Keyboard) : Prop where
  alternate : ∀ key, Alternate (pushesOf s.notified key)
  held : ∀ key, Held s.notified key ↔ key ≠ 0 ∧ s.InBuffer key

/-- The notifications of a report: one for each key that has changed. -/
structure Notifies (s s' : Keyboard) (pushes : List KeyPush) : Prop where
  notified : s'.notified = s.notified ++ pushes
  once : (pushes.map KeyPush.keycode).Nodup
  changed : ∀ key, key ∈ pushes.map KeyPush.keycode ↔ key ≠ 0 ∧ ¬ (s.InBuffer key ↔ s'.InBuffer key)
  modifier : ∀ push ∈ pushes, push.modifier = s'.driver.buf 0
  press : ∀ push ∈ pushes, push.press = true ↔ s'.InBuffer push.keycode

/-! ## Alternating lists -/

/-- Of presses and releases that take turns, the last is a press if there are an odd number. -/
theorem Alternate.getLast? {presses : List Bool} (alternate : Alternate presses) :
    presses.getLast? = some true ↔ presses.length % 2 = 1 := by
  rw [List.getLast?_eq_getElem?]
  cases last : presses[presses.length - 1]? with
  | none =>
      rw [List.getElem?_eq_none_iff] at last
      have empty : presses.length = 0 := by omega
      rw [empty]
      exact iff_of_false (by rintro ⟨⟩) (by decide)
  | some press =>
      have parity := alternate _ press last
      have inRange := (List.getElem?_eq_some_iff.mp last).1
      rw [parity, Option.some_inj, decide_eq_true_eq]
      omega

theorem Alternate.append {presses : List Bool} {press : Bool} (alternate : Alternate presses)
    (turn : press = true ↔ presses.getLast? ≠ some true) : Alternate (presses ++ [press]) := by
  intro i press' member
  rw [Ne, alternate.getLast?] at turn
  by_cases old : i < presses.length
  · rw [List.getElem?_append_left old] at member
    exact alternate i press' member
  · have inRange := (List.getElem?_eq_some_iff.mp member).1
    rw [List.length_append, List.length_singleton] at inRange
    have last : i = presses.length := by omega
    rw [last, List.getElem?_concat_length] at member
    cases member
    rw [Bool.eq_iff_iff, turn, decide_eq_true_eq]
    omega

/-! ## One report -/

open HIDBaseDriver (keys)

theorem keys_iff (buffer : Nat → UInt8) (key : Nat) :
    keys buffer key = true ↔ ∃ i, 2 ≤ i ∧ i < 8 ∧ (buffer i).toNat = key := by
  have folded (indices : List Nat) (start : KeySet) :
      indices.foldl (fun keys i => Function.update keys (buffer i).toNat true) start key = true ↔
        start key = true ∨ ∃ i ∈ indices, (buffer i).toNat = key := by
    induction indices generalizing start with
    | nil => simp
    | cons i indices ih =>
        rw [List.foldl_cons, ih, Function.update_apply]
        by_cases here : key = (buffer i).toNat
        · simp [here]
        · simp [here, Ne.symm here]
  rw [keys, folded]
  simp only [Bool.false_eq_true, false_or, List.mem_range'_1]
  constructor
  · rintro ⟨i, range, same⟩
    exact ⟨i, range.1, by omega, same⟩
  · rintro ⟨i, lower, upper, same⟩
    exact ⟨i, ⟨lower, by omega⟩, same⟩

theorem mem_onDataReceived (d : HIDBaseDriver) (push : KeyPush) :
    push ∈ d.onDataReceived ↔
      (1 ≤ push.keycode ∧ push.keycode < 256) ∧
        keys d.previousBuf push.keycode ≠ keys d.buf push.keycode ∧
        push.modifier = d.buf 0 ∧ push.press = keys d.buf push.keycode := by
  rw [HIDBaseDriver.onDataReceived, List.mem_filterMap]
  constructor
  · rintro ⟨key, range, notified⟩
    rw [List.mem_range'_1] at range
    split at notified
    · rename_i changed
      cases notified
      rw [bne_iff_ne] at changed
      have upper : key < 256 := by omega
      exact ⟨⟨range.1, upper⟩, changed, rfl, by simp [changed]⟩
    · cases notified
  · rintro ⟨range, changed, modifier, press⟩
    refine ⟨push.keycode, List.mem_range'_1.mpr ⟨range.1, by omega⟩, ?_⟩
    have flips : xor (keys d.previousBuf push.keycode) (keys d.buf push.keycode) = true := by
      rw [← Bool.bne_eq_xor, bne_iff_ne]
      exact changed
    simp only [flips, if_true, Bool.true_and]
    rw [← modifier, ← press]

/-- The keys are notified of in ascending order. -/
theorem nodup_onDataReceived (d : HIDBaseDriver) : (d.onDataReceived.map KeyPush.keycode).Nodup := by
  have keycodes : d.onDataReceived.map KeyPush.keycode = (List.range' 1 255).filter fun key =>
      xor (keys d.previousBuf key) (keys d.buf key) := by
    rw [HIDBaseDriver.onDataReceived, List.map_filterMap, ← List.filterMap_eq_filter]
    congr 1
    funext key
    rw [Option.guard]
    split <;> rfl
  rw [keycodes]
  exact List.Nodup.filter _ List.nodup_range'

/-- The keys of both buffers are the same between reports. -/
theorem receive_previousBuf (s : Keyboard) (report : Report)
    (same : s.driver.previousBuf = s.driver.buf) :
    (s.receive report).driver.previousBuf = (s.receive report).driver.buf := by
  funext i
  by_cases received : i < report.bytes.length
  · simp only [receive, HIDBaseDriver.onInterruptCompleted, if_pos received]
  · have unchanged : (s.driver.transfer report).buf i = s.driver.buf i := by
      rw [HIDBaseDriver.transfer]
      exact List.getD_eq_default _ _ (by omega)
    simp only [receive, HIDBaseDriver.onInterruptCompleted, if_neg received]
    rw [unchanged]
    exact congrFun same i

theorem run_concat (reports : List Report) (report : Report) :
    run (reports ++ [report]) = (run reports).receive report := by
  rw [run, List.foldl_append]
  rfl

theorem run_previousBuf (reports : List Report) :
    (run reports).driver.previousBuf = (run reports).driver.buf := by
  induction reports using List.reverseRecOn with
  | nil => rfl
  | append_singleton reports report ih =>
      rw [run_concat]
      exact receive_previousBuf _ _ ih

/-- A key in the buffer is a byte. -/
theorem InBuffer.lt {s : Keyboard} {key : Nat} (pressed : s.InBuffer key) : key < 256 := by
  rcases pressed with ⟨i, -, -, rfl⟩
  exact UInt8.toNat_lt _

/-- What a report notifies of, when the buffers were the same before. -/
theorem receive_notifies (s : Keyboard) (report : Report)
    (same : s.driver.previousBuf = s.driver.buf) :
    Notifies s (s.receive report) (s.driver.transfer report).onDataReceived := by
  have before (key : Nat) : keys (s.driver.transfer report).previousBuf key = true ↔ s.InBuffer key := by
    rw [keys_iff]
    change (∃ i, 2 ≤ i ∧ i < 8 ∧ (s.driver.previousBuf i).toNat = key) ↔ _
    rw [same]
    rfl
  have after (key : Nat) :
      keys (s.driver.transfer report).buf key = true ↔ (s.receive report).InBuffer key := by
    rw [keys_iff]
    rfl
  constructor
  · rfl
  · exact nodup_onDataReceived _
  · intro key
    rw [List.mem_map]
    constructor
    · rintro ⟨push, member, rfl⟩
      rcases (mem_onDataReceived _ _).mp member with ⟨range, changed, -⟩
      rw [Ne, Bool.eq_iff_iff, before, after] at changed
      exact ⟨by omega, changed⟩
    · rintro ⟨nonzero, changed⟩
      have upper : key < 256 := by
        by_contra large
        exact changed ⟨fun old => absurd old.lt large, fun new => absurd new.lt large⟩
      rw [← before, ← after, ← Bool.eq_iff_iff] at changed
      have lower : 1 ≤ key := by omega
      let d := s.driver.transfer report
      refine ⟨⟨d.buf 0, key, keys d.buf key⟩, ?_, rfl⟩
      exact (mem_onDataReceived _ _).mpr ⟨⟨lower, upper⟩, changed, rfl, rfl⟩
  · intro push member
    exact ((mem_onDataReceived _ _).mp member).2.2.1
  · intro push member
    rw [((mem_onDataReceived _ _).mp member).2.2.2]
    exact after _

/-! ## All reports -/

theorem pushesOf_append (notified pushes : List KeyPush) (key : Nat) :
    pushesOf (notified ++ pushes) key = pushesOf notified key ++ pushesOf pushes key := by
  rw [pushesOf, List.filter_append, List.map_append]
  rfl

/-- Among the notifications of one report there is none of a key, or just one. -/
theorem pushesOf_of_not_mem {pushes : List KeyPush} {key : Nat}
    (other : key ∉ pushes.map KeyPush.keycode) : pushesOf pushes key = [] := by
  rw [pushesOf, List.map_eq_nil_iff, List.filter_eq_nil_iff]
  intro push member same
  exact other (List.mem_map.mpr ⟨push, member, of_decide_eq_true same⟩)

theorem pushesOf_of_mem {pushes : List KeyPush} {push : KeyPush} (member : push ∈ pushes)
    (once : (pushes.map KeyPush.keycode).Nodup) : pushesOf pushes push.keycode = [push.press] := by
  induction pushes with
  | nil => cases member
  | cons first pushes ih =>
      rw [List.map_cons, List.nodup_cons] at once
      have split : pushesOf (first :: pushes) push.keycode =
          pushesOf [first] push.keycode ++ pushesOf pushes push.keycode :=
        pushesOf_append [first] pushes push.keycode
      rcases List.mem_cons.mp member with rfl | later
      · rw [split, pushesOf_of_not_mem once.1]
        simp [pushesOf]
      · have different : push.keycode ∉ [first].map KeyPush.keycode := by
          intro same
          rw [List.map_singleton, List.mem_singleton] at same
          exact once.1 (same ▸ List.mem_map.mpr ⟨push, later, rfl⟩)
        rw [split, pushesOf_of_not_mem different, ih later once.2, List.nil_append]

/-- A report that notifies of all changes keeps the notifications in accordance with the keys. -/
theorem Reconstructs.step {s s' : Keyboard} {pushes : List KeyPush} (old : s.Reconstructs)
    (notifies : Notifies s s' pushes) : s'.Reconstructs := by
  have parts (key : Nat) :
      pushesOf s'.notified key = pushesOf s.notified key ++ pushesOf pushes key := by
    rw [notifies.notified, pushesOf_append]
  -- Each key is either notified of once, or not at all and has not changed.
  have eachKey (key : Nat) :
      (∃ press, pushesOf s'.notified key = pushesOf s.notified key ++ [press] ∧ key ≠ 0 ∧
        ¬ (s.InBuffer key ↔ s'.InBuffer key) ∧ (press = true ↔ s'.InBuffer key)) ∨
      (pushesOf s'.notified key = pushesOf s.notified key ∧
        (key ≠ 0 → (s.InBuffer key ↔ s'.InBuffer key))) := by
    by_cases member : key ∈ pushes.map KeyPush.keycode
    · left
      rcases (notifies.changed key).mp member with ⟨nonzero, changed⟩
      rcases List.mem_map.mp member with ⟨push, notified, rfl⟩
      refine ⟨push.press, ?_, nonzero, changed, notifies.press push notified⟩
      rw [parts, pushesOf_of_mem notified notifies.once]
    · right
      rw [parts, pushesOf_of_not_mem member, List.append_nil]
      refine ⟨rfl, fun nonzero => ?_⟩
      by_contra changed
      exact member ((notifies.changed key).mpr ⟨nonzero, changed⟩)
  constructor
  · intro key
    rcases eachKey key with ⟨press, once, nonzero, changed, pressed⟩ | ⟨unchanged, -⟩
    · rw [once]
      apply (old.alternate key).append
      have wasHeld : (pushesOf s.notified key).getLast? = some true ↔ key ≠ 0 ∧ s.InBuffer key :=
        old.held key
      rw [Ne, wasHeld, pressed]
      tauto
    · rw [unchanged]
      exact old.alternate key
  · intro key
    rw [Held]
    rcases eachKey key with ⟨press, once, nonzero, changed, pressed⟩ | ⟨unchanged, same⟩
    · rw [once, List.getLast?_concat, Option.some_inj, pressed]
      exact (and_iff_right nonzero).symm
    · rw [unchanged]
      exact (old.held key).trans (and_congr_right same)

/-- Whatever the reports are, the notifications tell which keys are pressed. -/
theorem reconstructs_run (reports : List Report) : (run reports).Reconstructs := by
  induction reports using List.reverseRecOn with
  | nil =>
      constructor
      · intro key i press member
        cases member
      · intro key
        constructor
        · rintro ⟨⟩
        · rintro ⟨nonzero, i, -, -, same⟩
          exact absurd same.symm nonzero
  | append_singleton reports report ih =>
      rw [run_concat]
      exact ih.step (receive_notifies _ _ (run_previousBuf reports))

/-- After all reports the notifications up to now tell which keys are pressed, and the next
report notifies once of each key that it changes. -/
theorem run_keyboard (reports : List Report) (report : Report) :
    (run reports).Reconstructs ∧
      Notifies (run reports) (run (reports ++ [report]))
        ((run reports).driver.transfer report).onDataReceived := by
  constructor
  · exact reconstructs_run reports
  · rw [run_concat]
    exact receive_notifies _ _ (run_previousBuf reports)

end Keyboard

end Mikanos.Usb
