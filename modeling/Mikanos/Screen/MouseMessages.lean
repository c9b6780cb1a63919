import Mikanos.Screen.MouseReports

/-!
# What the reports of the mouse say

The messages about the mouse say where the cursor is, how it has moved and which buttons have gone
up or down.  They say so as long as no report is lost that matters, and as long as the position that
is sent, which is not clamped to the left and at the top, is on the screen.
-/

namespace Mikanos.Screen

open Transition

namespace Session

/-- A report of the mouse. -/
def reportStep (s : Session) (r : MouseReport) : Option Session :=
  s.onInterrupt r.buttons r.displacement

/-! ## Positions -/

/-- The position in a message about the mouse. -/
def mouseAt : Message → Option Vector2D
  | .mouseMove x y _ _ _ => some ⟨x, y⟩
  | .mouseButton x y _ _ => some ⟨x, y⟩
  | _ => none

/-- `dx` and `dy` of a message `kMouseMove`. -/
def moveOf : Message → Vector2D
  | .mouseMove _ _ dx dy _ => ⟨dx, dy⟩
  | _ => ⟨0, 0⟩

/-- Their sums. -/
def totalMove (messages : List (Nat × Message)) : Vector2D :=
  ⟨(messages.map fun sent => (moveOf sent.2).x).sum,
    (messages.map fun sent => (moveOf sent.2).y).sum⟩

variable (s : Session) (r : MouseReport)

/-- The cursor is on the screen. -/
def OnScreen : Prop :=
  (0 ≤ s.mouse.position.x ∧ s.mouse.position.x < s.desktop.manager.screen.size.x) ∧
    0 ≤ s.mouse.position.y ∧ s.mouse.position.y < s.desktop.manager.screen.size.y

/-- Nothing moves along an axis of `size` pixels: there is no displacement, or the cursor is at the
edge that it is pushed to. -/
def Stays (size position displacement : Int) : Prop :=
  displacement = 0 ∨ displacement < 0 ∧ position = 0 ∨ 0 < displacement ∧ position = size - 1

/-- The report does not move the cursor. -/
def Stuck : Prop :=
  Stays s.desktop.manager.screen.size.x s.mouse.position.x r.displacement.x ∧
    Stays s.desktop.manager.screen.size.y s.mouse.position.y r.displacement.y

/-- If the report is not sent to a task, it does not move the cursor; and if it is, it does not go
beyond the left or the upper edge of the screen, or there is nothing to be sent. -/
def Real : Prop :=
  match s.receiver r with
  | none => s.Stuck r
  | some _ =>
      (0 ≤ (s.mouse.position + r.displacement).x ∧ 0 ≤ (s.mouse.position + r.displacement).y) ∨
        s.Stuck r ∧ r.buttons = s.mouse.previousButtons

instance (size position displacement : Int) : Decidable (Stays size position displacement) :=
  inferInstanceAs (Decidable (_ ∨ _))

instance : Decidable (s.Stuck r) :=
  inferInstanceAs (Decidable (_ ∧ _))

instance : Decidable (s.Real r) :=
  match found : s.receiver r with
  | none => decidable_of_iff (s.Stuck r) (by rw [Real, found])
  | some _ =>
      decidable_of_iff
        ((0 ≤ (s.mouse.position + r.displacement).x ∧ 0 ≤ (s.mouse.position + r.displacement).y) ∨
          s.Stuck r ∧ r.buttons = s.mouse.previousButtons)
        (by rw [Real, found])

/-- A report has been told as it was: the cursor is on the screen, the moves that have been sent are
those of the cursor, and every message about the mouse goes to the task of the active layer and has
the position of the cursor in it. -/
structure Faithful (s s' : Session) : Prop where
  onScreen : s'.OnScreen
  sent : ∃ new, s'.desktop.messages = s.desktop.messages ++ new ∧
    totalMove new = s'.mouse.position - s.mouse.position ∧
    ∀ sent ∈ new, ∀ pos, mouseAt sent.2 = some pos →
      s'.desktop.layerTaskMap s'.desktop.activeLayer = some sent.1 ∧
        ∃ layer, s'.desktop.manager.findLayer s'.desktop.activeLayer = some layer ∧
          pos = s'.mouse.position - layer.pos

variable {s r} {s' : Session}

theorem totalMove_append (first last : List (Nat × Message)) :
    totalMove (first ++ last) = totalMove first + totalMove last := by
  rw [totalMove, List.map_append, List.map_append, List.sum_append, List.sum_append]
  rfl

theorem totalMove_eq_zero {messages : List (Nat × Message)}
    (zero : ∀ sent ∈ messages, moveOf sent.2 = ⟨0, 0⟩) : totalMove messages = ⟨0, 0⟩ := by
  refine congrArg₂ Vector2D.mk (List.sum_eq_zero fun x member => ?_)
    (List.sum_eq_zero fun y member => ?_)
  · obtain ⟨sent, sent_mem, rfl⟩ := List.mem_map.mp member
    rw [zero sent sent_mem]
  · obtain ⟨sent, sent_mem, rfl⟩ := List.mem_map.mp member
    rw [zero sent sent_mem]

/-- Other messages say nothing of the mouse. -/
theorem moveOf_others {msg : Message} (noMouse : isMouseMessage msg = false) :
    moveOf msg = ⟨0, 0⟩ ∧ mouseAt msg = none := by
  cases msg <;> first | exact ⟨rfl, rfl⟩ | cases noMouse

/-- The message about a button. -/
theorem of_buttonMessage {task i : Nat} {relpos : Vector2D} {buttons previousButtons : UInt8}
    {sent : Nat × Message}
    (found : buttonMessage task relpos buttons previousButtons i = some sent) :
    sent.1 = task ∧ mouseAt sent.2 = some relpos ∧ moveOf sent.2 = ⟨0, 0⟩ := by
  rw [buttonMessage] at found
  split at found
  · cases found
    exact ⟨rfl, rfl, rfl⟩
  · cases found

/-- The messages of one report all say where the cursor is. -/
theorem of_mem_mouseMessages {task : Nat} {relpos posdiff : Vector2D}
    {buttons previousButtons : UInt8} {sent : Nat × Message}
    (member : sent ∈ mouseMessages task relpos posdiff buttons previousButtons) :
    sent.1 = task ∧ mouseAt sent.2 = some relpos := by
  rcases List.mem_append.mp member with move | button
  · rw [moveMessages] at move
    split at move
    · rw [List.mem_singleton.mp move]
      exact ⟨rfl, rfl⟩
    · cases move
  · obtain ⟨i, -, found⟩ := List.mem_filterMap.mp button
    have told := of_buttonMessage found
    exact ⟨told.1, told.2.1⟩

/-- The move of one report. -/
theorem totalMove_mouseMessages (task : Nat) (relpos posdiff : Vector2D)
    (buttons previousButtons : UInt8) :
    totalMove (mouseMessages task relpos posdiff buttons previousButtons) = posdiff := by
  have still : totalMove ((List.range 8).filterMap
      (buttonMessage task relpos buttons previousButtons)) = ⟨0, 0⟩ := by
    refine totalMove_eq_zero fun sent button => ?_
    obtain ⟨i, -, found⟩ := List.mem_filterMap.mp button
    exact (of_buttonMessage found).2.2
  rw [mouseMessages, totalMove_append, still, moveMessages]
  split
  · exact congrArg₂ Vector2D.mk (by simp [totalMove, moveOf]) (by simp [totalMove, moveOf])
  · rename_i none
    rw [not_or, not_not, not_not] at none
    exact congrArg₂ Vector2D.mk (by simp [totalMove, none.1]) (by simp [totalMove, none.2])

/-- Something is sent if the cursor moves or a button changes. -/
theorem exists_mem_mouseMessages (task : Nat) (relpos : Vector2D) {posdiff : Vector2D}
    {buttons previousButtons : UInt8}
    (changed : ¬ (posdiff = ⟨0, 0⟩ ∧ buttons = previousButtons)) :
    ∃ sent, sent ∈ mouseMessages task relpos posdiff buttons previousButtons := by
  by_cases moves : posdiff.x ≠ 0 ∨ posdiff.y ≠ 0
  · refine ⟨(task, .mouseMove relpos.x relpos.y posdiff.x posdiff.y buttons),
      List.mem_append_left _ ?_⟩
    rw [moveMessages, if_pos moves]
    exact List.mem_singleton_self _
  · rw [not_or, not_not, not_not] at moves
    have other : buttons ≠ previousButtons :=
      fun same => changed ⟨congrArg₂ Vector2D.mk moves.1 moves.2, same⟩
    have diff : (previousButtons ^^^ buttons).toNat ≠ 0 := by
      intro zero
      exact other (UInt8.xor_eq_zero_iff.mp (UInt8.toNat_inj.mp zero)).symm
    obtain ⟨i, bit⟩ := Nat.exists_testBit_of_ne_zero diff
    have small : i < 8 := by
      by_contra large
      have bound : (previousButtons ^^^ buttons).toNat < 2 ^ i :=
        (UInt8.toNat_lt _).trans_le (Nat.pow_le_pow_right (by decide) (Nat.le_of_not_lt large))
      rw [Nat.testBit_lt_two_pow bound] at bit
      cases bit
    exact ⟨_, List.mem_append_right _
      (List.mem_filterMap.mpr ⟨i, List.mem_range.mpr small, if_pos bit⟩)⟩

/-- Otherwise nothing is. -/
theorem mouseMessages_eq_nil (task : Nat) (relpos : Vector2D) (buttons : UInt8) :
    mouseMessages task relpos ⟨0, 0⟩ buttons buttons = [] := by
  rw [mouseMessages, moveMessages, if_neg (by simp), List.nil_append, List.filterMap_eq_nil_iff]
  intro i _
  rw [buttonMessage, UInt8.xor_self]
  simp

/-! ## One report -/

theorem newpos_x : (s.newpos r).x =
    min (s.mouse.position.x + r.displacement.x) (s.desktop.manager.screen.size.x + -1) := rfl

theorem newpos_y : (s.newpos r).y =
    min (s.mouse.position.y + r.displacement.y) (s.desktop.manager.screen.size.y + -1) := rfl

theorem clamped_x : (s.clamped r).x = max (s.newpos r).x 0 := rfl

theorem clamped_y : (s.clamped r).y = max (s.newpos r).y 0 := rfl

/-- The cursor stays on the screen. -/
theorem OnScreen.clamped (onScreen : s.OnScreen) :
    (0 ≤ (s.clamped r).x ∧ (s.clamped r).x < s.desktop.manager.screen.size.x) ∧
      0 ≤ (s.clamped r).y ∧ (s.clamped r).y < s.desktop.manager.screen.size.y := by
  rw [OnScreen] at onScreen
  rw [clamped_x, clamped_y, newpos_x, newpos_y]
  omega

theorem Vector2D.eq_iff {p q : Vector2D} : p = q ↔ p.x = q.x ∧ p.y = q.y :=
  ⟨fun same => by rw [same]; exact ⟨rfl, rfl⟩, fun same => congrArg₂ Vector2D.mk same.1 same.2⟩

theorem OnScreen.stuck_iff (onScreen : s.OnScreen) :
    s.Stuck r ↔ s.clamped r = s.mouse.position := by
  rw [OnScreen] at onScreen
  rw [Vector2D.eq_iff, Stuck, Stays, Stays, clamped_x, clamped_y, newpos_x, newpos_y]
  omega

/-- The position that is sent is that of the cursor where nothing is cut off. -/
theorem OnScreen.newpos_eq_iff (onScreen : s.OnScreen) :
    s.newpos r = s.clamped r ↔ 0 ≤ (s.mouse.position + r.displacement).x ∧
      0 ≤ (s.mouse.position + r.displacement).y := by
  rw [OnScreen] at onScreen
  rw [Vector2D.eq_iff, clamped_x, clamped_y, newpos_x, newpos_y, Vector2D.add_x, Vector2D.add_y]
  omega

theorem layerTaskMap_of_receiver {task : Nat} (owned : s.receiver r = some task) :
    s.desktop.layerTaskMap (s.activeAfter r) = some task := by
  rw [receiver] at owned
  split at owned
  · exact owned
  · cases owned

theorem sub_eq_zero_iff {p q : Vector2D} : p - q = ⟨0, 0⟩ ↔ p = q := by
  rw [Vector2D.eq_iff, Vector2D.eq_iff, Vector2D.sub_x, Vector2D.sub_y, sub_eq_zero, sub_eq_zero]

theorem position_reported (reported : Reported s r s') : s'.mouse.position = s.clamped r := by
  rw [reported.mouse]

theorem OnScreen.reported (onScreen : s.OnScreen) (reported : Reported s r s') : s'.OnScreen := by
  rw [OnScreen, position_reported reported, reported.screenSize]
  exact onScreen.clamped

/-- A report that nobody is told of. -/
theorem faithful_iff_of_silent (onScreen : s.OnScreen) (reported : Reported s r s')
    (nobody : s.receiver r = none) : Faithful s s' ↔ s.clamped r = s.mouse.position := by
  have messages := reported.messages
  have position := position_reported reported
  rw [nobody] at messages
  rcases messages with ⟨others, messages, noMouse⟩
  have none := totalMove_eq_zero fun sent member => (moveOf_others (noMouse sent member)).1
  constructor
  · rintro ⟨-, new, messages', moved, -⟩
    rw [← List.append_cancel_left (messages.symm.trans messages'), none, position] at moved
    exact sub_eq_zero_iff.mp moved.symm
  · intro stays
    refine ⟨onScreen.reported reported, others, messages, ?_, fun sent member pos at_pos => ?_⟩
    · rw [none, position]
      exact (sub_eq_zero_iff.mpr stays).symm
    · rw [(moveOf_others (noMouse sent member)).2] at at_pos
      cases at_pos

/-- A report that a task is told of: what is sent is the position of the cursor, or nothing. -/
theorem faithful_iff_of_sent (onScreen : s.OnScreen) (reported : Reported s r s') {task : Nat}
    (owned : s.receiver r = some task) : Faithful s s' ↔ s.newpos r = s.clamped r ∨
      s.clamped r = s.mouse.position ∧ r.buttons = s.mouse.previousButtons := by
  have messages := reported.messages
  have position := position_reported reported
  rw [owned] at messages
  rcases messages with ⟨layer, others, found, noMouse, messages⟩
  rw [List.append_assoc] at messages
  have task_of_active : s'.desktop.layerTaskMap s'.desktop.activeLayer = some task := by
    rw [reported.layerTaskMap, reported.activeLayer, layerTaskMap_of_receiver owned]
  rw [← reported.activeLayer] at found
  constructor
  · rintro ⟨-, new, messages', -, told⟩
    by_cases changed : s.clamped r - s.mouse.position = ⟨0, 0⟩ ∧
        r.buttons = s.mouse.previousButtons
    · exact .inr ⟨sub_eq_zero_iff.mp changed.1, changed.2⟩
    · left
      obtain ⟨sent, member⟩ :=
        exists_mem_mouseMessages task (s.newpos r - layer.pos) changed
      have told' := told sent (List.append_cancel_left (messages.symm.trans messages') ▸
        List.mem_append_right _ member) _ (of_mem_mouseMessages member).2
      rcases told'.2 with ⟨layer', found', same⟩
      cases found.symm.trans found'
      rw [position, Vector2D.eq_iff] at same
      simp only [Vector2D.sub_x, Vector2D.sub_y, sub_left_inj] at same
      exact Vector2D.eq_iff.mpr same
  · intro condition
    refine ⟨onScreen.reported reported, _, messages, ?_, fun sent member pos at_pos => ?_⟩
    · rw [totalMove_append, totalMove_mouseMessages, position,
        totalMove_eq_zero fun sent member => (moveOf_others (noMouse sent member)).1]
      rw [Vector2D.eq_iff]
      simp
    · rcases List.mem_append.mp member with other | mouse
      · rw [(moveOf_others (noMouse sent other)).2] at at_pos
        cases at_pos
      · have told := of_mem_mouseMessages mouse
        rw [told.2] at at_pos
        cases at_pos
        rw [told.1]
        refine ⟨task_of_active, layer, found, ?_⟩
        rcases condition with same | ⟨stays, unchanged⟩
        · rw [position, same]
        · rw [sub_eq_zero_iff.mpr stays, unchanged, mouseMessages_eq_nil] at mouse
          cases mouse

/-- One report. -/
theorem faithful_iff_real (inv : s.Inv) (onScreen : s.OnScreen)
    (result : s.reportStep r = some s') : Faithful s s' ↔ s.Real r := by
  rcases onInterrupt_reported inv r with ⟨_, result', -, reported⟩
  cases result.symm.trans result'
  rw [Real, onScreen.stuck_iff]
  split
  · rename_i nobody
    exact faithful_iff_of_silent onScreen reported nobody
  · rename_i task owned
    rw [← onScreen.newpos_eq_iff]
    exact faithful_iff_of_sent onScreen reported owned

/-! ## Sequences of reports -/

/-- In every sequence of such reports the messages have told what the mouse has done. -/
theorem faithful_of_run (inv : s.Inv) (onScreen : s.OnScreen) {reports : List MouseReport}
    (run : Run (guarded (ofFunction reportStep) Real) s reports s') :
    Run (fun before r after => before.reportStep r = some after ∧ Faithful before after)
        s reports s' ∧
      s'.OnScreen ∧
      ∃ new, s'.desktop.messages = s.desktop.messages ++ new ∧
        totalMove new = s'.mouse.position - s.mouse.position := by
  induction run with
  | nil s =>
      refine ⟨.nil s, onScreen, [], (List.append_nil _).symm, ?_⟩
      exact (sub_eq_zero_iff.mpr rfl).symm
  | @cons s s₁ s' r reports first _ ih =>
      rcases first with ⟨real, result⟩
      have faithful := (faithful_iff_real inv onScreen result).mpr real
      rcases onInterrupt_reported inv r with ⟨_, result', inv₁, -⟩
      cases Option.some_inj.mp (result.symm.trans result')
      rcases faithful.sent with ⟨new, messages, moved, -⟩
      rcases ih inv₁ faithful.onScreen with ⟨run, onScreen', new', messages', moved'⟩
      refine ⟨.cons ⟨result, faithful⟩ run, onScreen', new ++ new', ?_, ?_⟩
      · rw [messages', messages, List.append_assoc]
      · rw [totalMove_append, moved, moved', Vector2D.eq_iff]
        simp

/-- The window of an application is active, and its messages go to task 3. -/
def appSession : Session where
  desktop := { Desktop.initial Desktop.plainWindows with
    manager := { (Desktop.initial Desktop.plainWindows).manager with
      layers := (Desktop.initial Desktop.plainWindows).manager.layers ++
        [⟨5, 6, ⟨100, 100⟩, Desktop.plainWindow, true⟩]
      layerStack := [0, 1, 2, 3, 5, 4]
      latestId := 6
      nextAddress := 6 }
    activeLayer := 6
    layerTaskMap := fun id => if id = 6 then some 3 else none }
  mouse := ⟨5, ⟨200, 200⟩, 0, 0⟩
  requests := []
  draws := []

/-- The keys of its layers. -/
def appKeys : List Key :=
  Desktop.kernelKeys ++ [⟨5, 6, true⟩]

theorem inv_appSession : appSession.Inv where
  orderly := {
    nodup := by
      change [0, 1, 2, 3, 5, 4].Nodup
      decide
    owned := by
      change ∀ address ∈ [0, 1, 2, 3, 5, 4], ∃ key ∈ appKeys, key.address = address
      decide
    active := .inr ⟨⟨5, 6, true⟩, by change _ ∈ appKeys; decide, rfl,
      by change 5 ∈ [0, 1, 2, 3, 5, 4]; decide⟩
    ids := by
      change (appKeys.map Key.id).Nodup
      decide
    addresses := by
      change (appKeys.map Key.address).Nodup
      decide
    id_range := by
      change ∀ key ∈ appKeys, 0 < key.id ∧ key.id ≤ 6
      decide
    address_lt := by
      change ∀ key ∈ appKeys, key.address < 6
      decide }
  mouseLayer := rfl
  shown := by
    rintro id (_ | nonzero | member | member)
    · refine ⟨⟨4, 5, false⟩, ?_, rfl, ?_⟩
      · change _ ∈ appKeys
        decide
      · change 4 ∈ [0, 1, 2, 3, 5, 4]
        decide
    · exact absurd rfl nonzero
    · cases member
    · cases member

theorem onScreen_appSession : appSession.OnScreen :=
  ⟨⟨by decide, by decide⟩, by decide, by decide⟩

/-- The cursor is moved into the window, and the left button pressed. -/
def click : MouseReport :=
  ⟨1, -20, -70⟩

theorem faithful_of_run_click : ∃ s',
    Run (guarded (ofFunction reportStep) Real) appSession [click] s' ∧
      Run (fun before r after => before.reportStep r = some after ∧ Faithful before after)
        appSession [click] s' ∧
      s'.OnScreen ∧
      ∃ new, s'.desktop.messages = appSession.desktop.messages ++ new ∧
        totalMove new = s'.mouse.position - appSession.mouse.position := by
  rcases onInterrupt_reported inv_appSession click with ⟨s', result, -⟩
  have real : appSession.Real click := by decide
  have run : Run (guarded (ofFunction reportStep) Real) appSession [click] s' :=
    .single ⟨real, result⟩
  exact ⟨s', run, faithful_of_run inv_appSession onScreen_appSession run⟩

/-- The mouse is moved to the left. -/
def toTheLeft : MouseReport :=
  ⟨0, -128, 0⟩

/-- Moved twice to the left, the cursor is at the edge of the screen, 100 pixels to the left of the
window, and the message says that it is 156 pixels to the left. -/
theorem not_faithful_leftEdge : ∃ s s', appSession.Inv ∧ appSession.OnScreen ∧
    Run (ofFunction reportStep) appSession [toTheLeft] s ∧ s.reportStep toTheLeft = some s' ∧
    s'.desktop.activeLayer = 6 ∧
    (s'.desktop.manager.findLayer 6).map Layer.pos = some ⟨100, 100⟩ ∧
    s'.mouse.position = ⟨0, 200⟩ ∧
    s'.desktop.messages.getLast?.bind (fun sent => mouseAt sent.2) = some ⟨-156, 100⟩ ∧
    ¬ Faithful s s' := by
  have executed : (appSession.reportStep toTheLeft).any (fun s =>
      !decide (s.Real toTheLeft) && (s.reportStep toTheLeft).any fun s' =>
        decide (s'.desktop.activeLayer = 6 ∧
          (s'.desktop.manager.findLayer 6).map Layer.pos = some ⟨100, 100⟩ ∧
          s'.mouse.position = ⟨0, 200⟩ ∧
          s'.desktop.messages.getLast?.bind (fun sent => mouseAt sent.2) =
            some ⟨-156, 100⟩)) = true := by
    decide
  obtain ⟨s, first, both⟩ := (Option.any_eq_true _ _).mp executed
  rw [Bool.and_eq_true, Bool.not_eq_true', decide_eq_false_iff_not] at both
  obtain ⟨s', last, facts⟩ := (Option.any_eq_true _ _).mp both.2
  rcases of_decide_eq_true facts with ⟨active, layer, position, told⟩
  refine ⟨s, s', inv_appSession, onScreen_appSession, .single first, last, active, layer, position,
    told, fun faithful => both.1 ?_⟩
  rcases onInterrupt_reported inv_appSession toTheLeft with ⟨_, first', inv, reported⟩
  cases Option.some_inj.mp (first.symm.trans first')
  exact (faithful_iff_real inv (onScreen_appSession.reported reported) last).mp faithful

end Session
end Mikanos.Screen
