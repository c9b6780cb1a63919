import Mikanos.Screen.LiveLayers

/-!
# Reports of the mouse

What one report does, said from the state before it: where the cursor goes, which layer becomes
active, what is dragged, and to which task the report is sent.  Everything that is said about the
messages of a sequence of reports follows from this.
-/

namespace Mikanos.Screen

open Transition LayerManager

/-- A message about the mouse. -/
def isMouseMessage : Message → Bool
  | .mouseMove .. => true
  | .mouseButton .. => true
  | _ => false

/-! ## Drawing changes only pictures -/

namespace LayerManager

variable {m m' : LayerManager} {id : Nat}

/-- Only what is shown has changed. -/
structure SameLayers (m m' : LayerManager) : Prop where
  layers : m'.layers = m.layers
  layerStack : m'.layerStack = m.layerStack
  screenSize : m'.screen.size = m.screen.size

theorem sameLayers_drawLayer {area : Rectangle} (drawn : m.drawLayer id area = some m') :
    SameLayers m m' := by
  rw [drawLayer] at drawn
  split at drawn
  · cases drawn
  · cases drawn
    exact ⟨rfl, rfl, rfl⟩

/-- A layer has been moved, and everything drawn. -/
theorem sameLayers_move {newPos : Vector2D} (moved : m.move id newPos = some m') :
    ∃ layer, m.findLayer id = some layer ∧ SameLayers (m.set { layer with pos := newPos }) m' := by
  rw [move] at moved
  obtain ⟨layer, found, drawn⟩ := Option.bind_eq_some_iff.mp moved
  have same := sameLayers_drawLayer drawn
  exact ⟨layer, found, same.layers, same.layerStack, same.screenSize⟩

theorem screenSize_moveRelative {posDiff : Vector2D} (moved : m.moveRelative id posDiff = some m') :
    m'.screen.size = m.screen.size := by
  rw [moveRelative] at moved
  obtain ⟨layer, -, drawn⟩ := Option.bind_eq_some_iff.mp moved
  exact (sameLayers_drawLayer drawn).screenSize

theorem screenSize_upDown {height : Int} (raised : m.upDown id height = some m') :
    m'.screen.size = m.screen.size := by
  rw [upDown] at raised
  split at raised
  · cases raised
    rw [hide]
    split <;> rfl
  · dsimp only at raised
    split at raised
    · cases raised
    · split at raised <;> cases raised <;> rfl

end LayerManager

/-! ## Activation sends no message about the mouse -/

/-- Messages have been sent, but none about the mouse. -/
def Desktop.SentOthers (d d' : Desktop) : Prop :=
  ∃ others, d'.messages = d.messages ++ others ∧ ∀ sent ∈ others, isMouseMessage sent.2 = false

namespace Desktop

variable {d d' : Desktop}

theorem SentOthers.refl (d : Desktop) : SentOthers d d :=
  ⟨[], (List.append_nil _).symm, fun _ member => absurd member List.not_mem_nil⟩

theorem SentOthers.trans {d'' : Desktop} (first : SentOthers d d') (last : SentOthers d' d'') :
    SentOthers d d'' := by
  rcases first with ⟨others, messages, noMouse⟩
  rcases last with ⟨others', messages', noMouse'⟩
  refine ⟨others ++ others', by rw [messages', messages, List.append_assoc], ?_⟩
  intro sent member
  exact (List.mem_append.mp member).elim (noMouse sent) (noMouse' sent)

/-- Neither the tasks of the layers nor the size of the screen have changed, and no message about
the mouse has been sent. -/
structure Quiet (d d' : Desktop) : Prop where
  layerTaskMap : d'.layerTaskMap = d.layerTaskMap
  screenSize : d'.manager.screen.size = d.manager.screen.size
  sent : SentOthers d d'

theorem Quiet.refl (d : Desktop) : Quiet d d :=
  ⟨rfl, rfl, .refl d⟩

theorem Quiet.trans {d'' : Desktop} (first : Quiet d d') (last : Quiet d' d'') : Quiet d d'' :=
  ⟨last.layerTaskMap.trans first.layerTaskMap, last.screenSize.trans first.screenSize,
    first.sent.trans last.sent⟩

theorem quiet_manager {manager : LayerManager} (size : manager.screen.size = d.manager.screen.size) :
    Quiet d { d with manager } :=
  ⟨rfl, size, [], (List.append_nil _).symm, fun _ member => absurd member List.not_mem_nil⟩

theorem quiet_sendWindowActiveMessage (d : Desktop) (layerId : Nat) (activate : Int) :
    Quiet d (d.sendWindowActiveMessage layerId activate) := by
  rw [sendWindowActiveMessage]
  split
  · exact .refl d
  · refine ⟨rfl, rfl, _, rfl, fun sent member => ?_⟩
    rw [List.mem_singleton.mp member]
    rfl

theorem quiet_sendCloseMessage (d : Desktop) : Quiet d d.sendCloseMessage := by
  rw [sendCloseMessage]
  split
  · exact .refl d
  · split
    · split
      · exact .refl d
      · refine ⟨rfl, rfl, _, rfl, fun sent member => ?_⟩
        rw [List.mem_singleton.mp member]
        rfl
    · exact .refl d

theorem quiet_deactivate (deactivated : d.deactivate = some d') : Quiet d d' := by
  rw [deactivate] at deactivated
  split at deactivated
  · obtain ⟨layer, -, rest⟩ := Option.bind_eq_some_iff.mp deactivated
    obtain ⟨manager, drawn, last⟩ := Option.bind_eq_some_iff.mp rest
    cases last
    exact (quiet_manager (sameLayers_drawLayer drawn).screenSize).trans
      (quiet_sendWindowActiveMessage _ _ _)
  · cases deactivated
    exact .refl d

/-- The layer becomes active. -/
theorem quiet_raise {layerId : Nat} (raised : d.raise layerId = some d') :
    Quiet d d' ∧ d'.activeLayer = layerId := by
  have selected : Quiet d { d with activeLayer := layerId } :=
    ⟨rfl, rfl, .refl d⟩
  rw [raise] at raised
  dsimp only at raised
  split at raised
  · obtain ⟨layer, -, rest⟩ := Option.bind_eq_some_iff.mp raised
    obtain ⟨bottom, toBottom, rest⟩ := Option.bind_eq_some_iff.mp rest
    obtain ⟨top, toTop, rest⟩ := Option.bind_eq_some_iff.mp rest
    obtain ⟨manager, drawn, last⟩ := Option.bind_eq_some_iff.mp rest
    cases last
    have bottomSize := screenSize_upDown toBottom
    have size : manager.screen.size = d.manager.screen.size :=
      (sameLayers_drawLayer drawn).screenSize.trans ((screenSize_upDown toTop).trans bottomSize)
    refine ⟨(selected.trans (quiet_manager size)).trans (quiet_sendWindowActiveMessage _ _ _), ?_⟩
    rw [sendWindowActiveMessage]
    split <;> rfl
  · cases raised
    exact ⟨selected, rfl⟩

theorem quiet_activate {layerId : Nat} (activated : d.activate layerId = some d') :
    Quiet d d' ∧ d'.activeLayer = layerId := by
  rw [activate] at activated
  split at activated
  · rename_i already
    cases activated
    exact ⟨.refl d, already⟩
  · obtain ⟨d₁, deactivated, raised⟩ := Option.bind_eq_some_iff.mp activated
    have last := quiet_raise raised
    exact ⟨(quiet_deactivate deactivated).trans last.1, last.2⟩

end Desktop

/-! ## A report, from the state before it -/

/-- What the mouse sends. -/
structure MouseReport where
  buttons : UInt8
  displacementX : Int8
  displacementY : Int8

def MouseReport.displacement (r : MouseReport) : Vector2D :=
  ⟨r.displacementX.toInt, r.displacementY.toInt⟩

namespace Session

section

variable (s : Session) (r : MouseReport)

/-- `newpos`, which may be to the left of the screen or above it. -/
def newpos : Vector2D :=
  (s.mouse.position + r.displacement).elementMin (s.desktop.manager.screen.size + ⟨-1, -1⟩)

/-- Where the cursor goes. -/
def clamped : Vector2D :=
  (s.newpos r).elementMax ⟨0, 0⟩

/-- The left button goes down. -/
def Presses : Prop :=
  ¬ s.mouse.previousButtons &&& 1 ≠ 0 ∧ r.buttons &&& 1 ≠ 0

/-- The left button goes up. -/
def Releases : Prop :=
  s.mouse.previousButtons &&& 1 ≠ 0 ∧ ¬ r.buttons &&& 1 ≠ 0

instance : Decidable (s.Presses r) :=
  inferInstanceAs (Decidable (_ ∧ _))

instance : Decidable (s.Releases r) :=
  inferInstanceAs (Decidable (_ ∧ _))

/-- The layer under the cursor, if it can be dragged. -/
def hit : Option Layer :=
  (s.desktop.manager.findLayerByPosition (s.clamped r) s.mouse.layerId).filter Layer.draggable

/-- The part of its window that the cursor is in. -/
def hitRegion : Option WindowRegion :=
  (s.hit r).map fun layer => layer.window.getWindowRegion (s.clamped r - layer.pos)

/-- The active layer after the report. -/
def activeAfter : Nat :=
  if s.Presses r then ((s.hit r).map Layer.id).getD 0 else s.desktop.activeLayer

/-- The layer that is dragged after the report. -/
def dragAfter : Nat :=
  if s.Presses r then
    if s.hitRegion r = some .titleBar then ((s.hit r).map Layer.id).getD 0 else s.mouse.dragLayerId
  else if s.Releases r then 0
  else s.mouse.dragLayerId

/-- The close button is clicked. -/
def Closes : Prop :=
  s.Presses r ∧ s.hitRegion r = some .closeButton

instance : Decidable (s.Closes r) :=
  inferInstanceAs (Decidable (_ ∧ _))

/-- The task that the report is sent to. -/
def receiver : Option Nat :=
  if s.dragAfter r = 0 ∧ ¬ s.Closes r ∧ s.activeAfter r ≠ 0 then
    s.desktop.layerTaskMap (s.activeAfter r)
  else none

end

/-- The message that the cursor has moved. -/
def moveMessages (task : Nat) (relpos posdiff : Vector2D) (buttons : UInt8) :
    List (Nat × Message) :=
  if posdiff.x ≠ 0 ∨ posdiff.y ≠ 0 then
    [(task, .mouseMove relpos.x relpos.y posdiff.x posdiff.y buttons)]
  else []

/-- The message that a button has gone up or down. -/
def buttonMessage (task : Nat) (relpos : Vector2D) (buttons previousButtons : UInt8) (i : Nat) :
    Option (Nat × Message) :=
  if (previousButtons ^^^ buttons).toNat.testBit i then
    some (task, .mouseButton relpos.x relpos.y (if buttons.toNat.testBit i then 1 else 0) i)
  else none

/-- The messages of `SendMouseMessage`. -/
def mouseMessages (task : Nat) (relpos posdiff : Vector2D) (buttons previousButtons : UInt8) :
    List (Nat × Message) :=
  moveMessages task relpos posdiff buttons ++
    (List.range 8).filterMap (buttonMessage task relpos buttons previousButtons)

/-- What a report has done. -/
structure Reported (s : Session) (r : MouseReport) (s' : Session) : Prop where
  mouse : s'.mouse = ⟨s.mouse.layerId, s.clamped r, s.dragAfter r, r.buttons⟩
  activeLayer : s'.desktop.activeLayer = s.activeAfter r
  layerTaskMap : s'.desktop.layerTaskMap = s.desktop.layerTaskMap
  screenSize : s'.desktop.manager.screen.size = s.desktop.manager.screen.size
  messages : match s.receiver r with
    | none => s.desktop.SentOthers s'.desktop
    | some task => ∃ layer others, s'.desktop.manager.findLayer (s.activeAfter r) = some layer ∧
        (∀ sent ∈ others, isMouseMessage sent.2 = false) ∧
        s'.desktop.messages = s.desktop.messages ++ others ++
          mouseMessages task (s.newpos r - layer.pos) (s.clamped r - s.mouse.position) r.buttons
            s.mouse.previousButtons

variable {s s' s₁ s₂ : Session} {r : MouseReport}

/-! ## The parts of `OnInterrupt` -/

theorem moveCursor_eq {newpos posdiff : Vector2D}
    (result : s.moveCursor r.displacement = some (s₁, newpos, posdiff)) :
    newpos = s.newpos r ∧ posdiff = s.clamped r - s.mouse.position ∧
      ∃ manager, s.desktop.manager.move s.mouse.layerId (s.clamped r) = some manager ∧
        s₁ = { s with
          desktop := { s.desktop with manager }
          mouse := { s.mouse with position := s.clamped r } } := by
  obtain ⟨manager, moved, rest⟩ := Option.bind_eq_some_iff.mp result
  cases rest
  exact ⟨rfl, rfl, manager, moved, rfl⟩

/-- What is changed in a list of layers is not looked for. -/
theorem find?_map_of_hidden {layers : List Layer} {g : Layer → Layer} {p : Layer → Bool}
    (hidden : ∀ layer ∈ layers, g layer = layer ∨ p layer = false ∧ p (g layer) = false) :
    (layers.map g).find? p = layers.find? p := by
  induction layers with
  | nil => rfl
  | cons layer layers ih =>
      rw [List.forall_mem_cons] at hidden
      rw [List.map_cons, List.find?_cons, List.find?_cons, ih hidden.2]
      rcases hidden.1 with same | ⟨before, after⟩
      · rw [same]
      · rw [before, after]

/-- The cursor is not under itself. -/
theorem findLayerByPosition_move {m m' : LayerManager} {id : Nat} {p : Vector2D}
    (addresses : (m.keys.map Key.address).Nodup) (moved : m.move id p = some m') (pos : Vector2D) :
    m'.findLayerByPosition pos id = m.findLayerByPosition pos id := by
  rcases sameLayers_move moved with ⟨cursor, found, same⟩
  have cursorId : cursor.id = id := by simpa using List.find?_some found
  let g : Layer → Layer := fun l =>
    if l.address = cursor.address then { cursor with pos := p } else l
  have address : ∀ l, (g l).address = l.address := by
    intro l
    by_cases isCursor : l.address = cursor.address
    · exact (congrArg Layer.address (if_pos isCursor)).trans isCursor.symm
    · exact congrArg Layer.address (if_neg isCursor)
  have shown : m'.shown = m.shown.map g := by
    have layerAt : ∀ a, m'.layerAt a = (m.layerAt a).map g := by
      intro a
      rw [LayerManager.layerAt, same.layers, LayerManager.layerAt]
      refine List.find?_map.trans (congrArg (Option.map g) (congrArg (List.find? · m.layers) ?_))
      funext l
      exact congrArg (fun a' => decide (a' = a)) (address l)
    rw [LayerManager.shown, LayerManager.shown, same.layerStack, List.map_filterMap]
    exact List.filterMap_congr fun a _ => layerAt a
  rw [LayerManager.findLayerByPosition, LayerManager.findLayerByPosition, shown,
    ← List.map_reverse]
  refine find?_map_of_hidden fun l member => ?_
  by_cases isCursor : l.address = cursor.address
  · right
    rw [List.mem_reverse, LayerManager.shown, List.mem_filterMap] at member
    rcases member with ⟨a, -, at_a⟩
    have keyEq : l.key = cursor.key :=
      List.inj_on_of_nodup_map addresses (List.mem_map_of_mem (List.mem_of_find?_eq_some at_a))
        (List.mem_map_of_mem (List.mem_of_find?_eq_some found)) isCursor
    have lId : l.id = id := (congrArg Key.id keyEq).trans cursorId
    have gId : (g l).id = id := (congrArg Layer.id (if_pos isCursor)).trans cursorId
    constructor
    · simp [lId]
    · simp [gId]
  · exact .inl (if_neg isCursor)

/-- What pressing the button does, for the layer under the cursor that can be dragged. -/
structure Pressed (s : Session) (hit : Option Layer) (s' : Session) (closeLayerId : Nat) :
    Prop where
  quiet : s.desktop.Quiet s'.desktop
  activeLayer : s'.desktop.activeLayer = (hit.map Layer.id).getD 0
  mouse : s'.mouse = { s.mouse with
    dragLayerId :=
      if (hit.map fun layer => layer.window.getWindowRegion (s.mouse.position - layer.pos)) =
          some .titleBar then (hit.map Layer.id).getD 0
      else s.mouse.dragLayerId }
  close : closeLayerId = 0 ↔
    (hit.map fun layer => layer.window.getWindowRegion (s.mouse.position - layer.pos)) ≠
      some .closeButton

theorem pressed_of_press {closeLayerId : Nat}
    (nonzero : ∀ layer, s.desktop.manager.findLayerByPosition s.mouse.position s.mouse.layerId =
      some layer → layer.id ≠ 0)
    (result : s.press = some (s', closeLayerId)) :
    Pressed s ((s.desktop.manager.findLayerByPosition s.mouse.position s.mouse.layerId).filter
      Layer.draggable) s' closeLayerId := by
  rw [press] at result
  split at result
  · rename_i none
    obtain ⟨desktop, activated, last⟩ := Option.bind_eq_some_iff.mp result
    cases last
    rw [none]
    have effect := Desktop.quiet_activate activated
    exact ⟨effect.1, effect.2, rfl, by simp⟩
  · rename_i layer found
    have positive := nonzero layer found
    rw [found]
    split at result
    · rename_i draggable
      obtain ⟨desktop, activated, last⟩ := Option.bind_eq_some_iff.mp result
      cases last
      have effect := Desktop.quiet_activate activated
      rw [Option.filter_some_pos draggable]
      refine ⟨effect.1, effect.2, ?_, ?_⟩
      · simp only [Option.map_some, Option.some.injEq, Option.getD_some]
        split <;> rfl
      · simp only [Option.map_some, ne_eq, Option.some.injEq]
        split
        · rename_i closes
          exact ⟨fun zero => absurd zero positive, fun other => absurd closes other⟩
        · rename_i other
          exact ⟨fun _ => other, fun _ => rfl⟩
    · rename_i fixed
      obtain ⟨desktop, activated, last⟩ := Option.bind_eq_some_iff.mp result
      cases last
      have effect := Desktop.quiet_activate activated
      rw [Option.filter_some_neg (Bool.eq_false_of_not_eq_true fixed)]
      exact ⟨effect.1, effect.2, rfl, by simp⟩

/-- The cursor has moved and the button has been handled. -/
structure Handled (s : Session) (r : MouseReport) (s' : Session) (closeLayerId : Nat) : Prop where
  quiet : s.desktop.Quiet s'.desktop
  activeLayer : s'.desktop.activeLayer = s.activeAfter r
  mouse : s'.mouse = ⟨s.mouse.layerId, s.clamped r, s.dragAfter r, s.mouse.previousButtons⟩
  close : closeLayerId = 0 ↔ ¬ s.Closes r

/-- The button does not go down. -/
theorem handled_of_noPress (notPressed : ¬ s.Presses r) (quiet : s.desktop.Quiet s₂.desktop)
    (activeLayer : s₂.desktop.activeLayer = s.desktop.activeLayer)
    (mouse : s₂.mouse = ⟨s.mouse.layerId, s.clamped r,
      if s.Releases r then 0 else s.mouse.dragLayerId, s.mouse.previousButtons⟩) :
    Handled s r s₂ 0 where
  quiet := quiet
  activeLayer := activeLayer.trans (if_neg notPressed).symm
  mouse := by rw [mouse, dragAfter, if_neg notPressed]
  close := ⟨fun _ closes => notPressed closes.1, fun _ => rfl⟩

/-- The button goes down, where the cursor is now. -/
theorem handled_of_press (inv : s.Inv) {manager : LayerManager} {closeLayerId : Nat}
    (presses : s.Presses r) (quiet : s.desktop.Quiet { s.desktop with manager })
    (cursor : s.desktop.manager.move s.mouse.layerId (s.clamped r) = some manager)
    (inv₁ : Session.Inv { s with
      desktop := { s.desktop with manager }
      mouse := { s.mouse with position := s.clamped r } })
    (result : Session.press { s with
      desktop := { s.desktop with manager }
      mouse := { s.mouse with position := s.clamped r } } = some (s₂, closeLayerId)) :
    Handled s r s₂ closeLayerId := by
  have same := findLayerByPosition_move inv.orderly.addresses cursor (s.clamped r)
  have nonzero : ∀ layer, manager.findLayerByPosition (s.clamped r) s.mouse.layerId = some layer →
      layer.id ≠ 0 := by
    intro layer found
    have member := (of_findLayerByPosition (d := { s.desktop with manager }) found).1
    exact (inv₁.orderly.id_range _ member).1.ne'
  have pressed := pressed_of_press nonzero result
  dsimp only at pressed
  rw [same] at pressed
  refine ⟨quiet.trans pressed.quiet, pressed.activeLayer.trans (if_pos presses).symm,
    pressed.mouse.trans ?_, pressed.close.trans ?_⟩
  · have drag : s.dragAfter r = if s.hitRegion r = some .titleBar then
        ((s.hit r).map Layer.id).getD 0 else s.mouse.dragLayerId := if_pos presses
    rw [drag]
    rfl
  · rw [Closes, not_and]
    exact ⟨fun other _ => other, fun other => other presses⟩

theorem handled_of_handleButton (inv : s.Inv) {newpos posdiff : Vector2D} {closeLayerId : Nat}
    (moved : s.moveCursor r.displacement = some (s₁, newpos, posdiff))
    (result : s₁.handleButton posdiff r.buttons = some (s₂, closeLayerId)) :
    Handled s r s₂ closeLayerId := by
  rcases inv.moveCursor r.displacement with ⟨_, _, _, moved', inv₁⟩
  cases moved.symm.trans moved'
  obtain ⟨rfl, rfl, manager, cursor, rfl⟩ := moveCursor_eq moved
  have quiet : s.desktop.Quiet { s.desktop with manager } := by
    rcases sameLayers_move cursor with ⟨layer, -, same⟩
    exact Desktop.quiet_manager same.screenSize
  rw [handleButton] at result
  dsimp only at result
  split at result
  · rename_i goesDown
    exact handled_of_press inv goesDown quiet cursor inv₁ result
  · rename_i notDown
    split at result
    · rename_i holds
      have notReleased : ¬ s.Releases r := fun releases => releases.2 holds.2
      split at result
      · obtain ⟨dragged, moved, last⟩ := Option.bind_eq_some_iff.mp result
        cases last
        refine handled_of_noPress notDown
          (quiet.trans (Desktop.quiet_manager (screenSize_moveRelative moved))) rfl ?_
        rw [if_neg notReleased]
      · cases result
        refine handled_of_noPress notDown quiet rfl ?_
        rw [if_neg notReleased]
    · split at result
      · rename_i goesUp
        have releases : s.Releases r := goesUp
        cases result
        refine handled_of_noPress notDown quiet rfl ?_
        rw [if_pos releases]
      · rename_i notUp
        have notReleased : ¬ s.Releases r := notUp
        cases result
        refine handled_of_noPress notDown quiet rfl ?_
        rw [if_neg notReleased]

theorem sendMouseMessage_cases {d d' : Desktop} {newpos posdiff : Vector2D}
    {buttons previousButtons : UInt8}
    (result : d.sendMouseMessage newpos posdiff buttons previousButtons = some d') :
    (d.activeLayer = 0 ∨ d.layerTaskMap d.activeLayer = none) ∧ d' = d ∨
      d.activeLayer ≠ 0 ∧ ∃ task layer, d.layerTaskMap d.activeLayer = some task ∧
        d.manager.findLayer d.activeLayer = some layer ∧
        d' = { d with
          messages := d.messages ++
            mouseMessages task (newpos - layer.pos) posdiff buttons previousButtons } := by
  rw [Desktop.sendMouseMessage] at result
  split at result
  · rename_i inactive
    cases result
    exact .inl ⟨.inl inactive, rfl⟩
  · rename_i active
    split at result
    · rename_i noTask
      cases result
      exact .inl ⟨.inr noTask, rfl⟩
    · rename_i task owned
      obtain ⟨layer, found, last⟩ := Option.bind_eq_some_iff.mp result
      cases last
      refine .inr ⟨active, task, layer, owned, found, ?_⟩
      rw [mouseMessages, ← List.append_assoc]
      rfl

/-- What `OnInterrupt` does. -/
theorem onInterrupt_reported (inv : s.Inv) (r : MouseReport) :
    ∃ s', s.onInterrupt r.buttons r.displacement = some s' ∧ s'.Inv ∧ Reported s r s' := by
  rcases inv.onInterrupt r.buttons r.displacement with ⟨s', result, inv'⟩
  refine ⟨s', result, inv', ?_⟩
  obtain ⟨⟨s₁, newpos, posdiff⟩, moved, rest⟩ := Option.bind_eq_some_iff.mp result
  obtain ⟨⟨s₂, closeLayerId⟩, handled, rest⟩ := Option.bind_eq_some_iff.mp rest
  obtain ⟨s₃, reported, last⟩ := Option.bind_eq_some_iff.mp rest
  cases last
  have effect := handled_of_handleButton inv moved handled
  obtain ⟨rfl, rfl, -⟩ := moveCursor_eq moved
  have quiet := effect.quiet
  have drag : s₂.mouse.dragLayerId = s.dragAfter r := by rw [effect.mouse]
  have silent : s.receiver r = none → s₂.desktop.Quiet s₃.desktop → s₃.mouse = s₂.mouse →
      s₃.desktop.activeLayer = s₂.desktop.activeLayer →
      Reported s r { s₃ with mouse.previousButtons := r.buttons } := by
    intro nobody later mouse active
    refine ⟨?_, active.trans effect.activeLayer, (quiet.trans later).layerTaskMap,
      (quiet.trans later).screenSize, ?_⟩
    · dsimp only
      rw [mouse, effect.mouse]
    · rw [nobody]
      exact (quiet.trans later).sent
  rw [report] at reported
  split at reported
  · rename_i free
    split at reported
    · rename_i open'
      obtain ⟨desktop, sent, last⟩ := Option.bind_eq_some_iff.mp reported
      cases last
      have sends : s.receiver r = if s.activeAfter r ≠ 0 then
          s.desktop.layerTaskMap (s.activeAfter r) else none := by
        rw [receiver]
        refine if_congr ?_ rfl rfl
        exact ⟨fun all => all.2.2, fun active => ⟨drag ▸ free, effect.close.mp open', active⟩⟩
      rcases sendMouseMessage_cases sent with ⟨nobody, rfl⟩ | ⟨active, task, layer, owned, found, rfl⟩
      · rw [effect.activeLayer, quiet.layerTaskMap] at nobody
        refine silent ?_ (.refl _) rfl rfl
        rw [sends]
        split
        · exact nobody.resolve_left ‹_›
        · rfl
      · rw [effect.activeLayer] at active owned found
        rw [quiet.layerTaskMap] at owned
        rcases quiet.sent with ⟨others, messages, noMouse⟩
        refine ⟨?_, effect.activeLayer, quiet.layerTaskMap, quiet.screenSize, ?_⟩
        · dsimp only
          rw [effect.mouse]
        · rw [sends, if_pos active, owned]
          refine ⟨layer, others, found, noMouse, ?_⟩
          rw [← messages, effect.mouse]
    · rename_i closes
      cases reported
      have nobody : s.receiver r = none :=
        if_neg fun all => closes (effect.close.mpr all.2.1)
      have sent := Desktop.quiet_sendCloseMessage s₂.desktop
      exact silent nobody sent rfl (sameDesk_sendCloseMessage s₂.desktop).activeLayer
  · rename_i dragging
    cases reported
    exact silent (if_neg fun all => dragging (drag.trans all.1)) (.refl _) rfl rfl

end Session
end Mikanos.Screen
