import Mikanos.Screen.Stacking

/-!
# Layers that are still there

Ids of layers are remembered: by the mouse while it drags a window, in `kLayer` messages that
wait in the queue of the main task, and by tasks that are about to draw.  Nobody is told when
a window is closed in the meantime.  As long as no layer is closed that is remembered, and
layers are shown before they are moved or drawn, every operation finds its layer.
-/

namespace Mikanos.Screen

open Transition LayerManager

/-! ## The mouse -/

inductive WindowRegion
  | titleBar
  | closeButton
  | border
  | other
  deriving DecidableEq

/-- `ToplevelWindow::GetWindowRegion`; the window of a layer that can be dragged is one. -/
def Window.getWindowRegion (w : Window) (pos : Vector2D) : WindowRegion :=
  if pos.x < 2 ∨ w.size.x - 2 ≤ pos.x ∨ pos.y < 2 ∨ w.size.y - 2 ≤ pos.y then .border
  else if pos.y < 24 then
    if w.size.x - 5 - 16 ≤ pos.x ∧ pos.x < w.size.x - 5 ∧ 5 ≤ pos.y ∧ pos.y < 5 + 14 then
      .closeButton
    else .titleBar
  else .other

/-- `FindLayerByPosition`. -/
def LayerManager.findLayerByPosition (m : LayerManager) (pos : Vector2D) (excludeId : Nat) :
    Option Layer :=
  m.shown.reverse.find? fun layer =>
    layer.id ≠ excludeId ∧
      layer.pos.x ≤ pos.x ∧ pos.x < (layer.pos + layer.window.size).x ∧
      layer.pos.y ≤ pos.y ∧ pos.y < (layer.pos + layer.window.size).y

/-- `ElementMax`. -/
def Vector2D.elementMax (lhs rhs : Vector2D) : Vector2D :=
  ⟨max lhs.x rhs.x, max lhs.y rhs.y⟩

/-- `ElementMin`. -/
def Vector2D.elementMin (lhs rhs : Vector2D) : Vector2D :=
  ⟨min lhs.x rhs.x, min lhs.y rhs.y⟩

structure Mouse where
  layerId : Nat
  position : Vector2D
  dragLayerId : Nat
  previousButtons : UInt8

namespace Desktop

/-- `SendMouseMessage`; `none` if a null pointer is dereferenced. -/
def sendMouseMessage (d : Desktop) (newpos posdiff : Vector2D) (buttons previousButtons : UInt8) :
    Option Desktop :=
  if d.activeLayer = 0 then some d
  else
    match d.layerTaskMap d.activeLayer with
    | none => some d
    | some task => do
        let layer ← d.manager.findLayer d.activeLayer
        let relpos := newpos - layer.pos
        let moves := if posdiff.x ≠ 0 ∨ posdiff.y ≠ 0 then
            [(task, Message.mouseMove relpos.x relpos.y posdiff.x posdiff.y buttons)]
          else []
        let diff := previousButtons ^^^ buttons
        let presses := (List.range 8).filterMap fun i =>
          if diff.toNat.testBit i then
            some (task, Message.mouseButton relpos.x relpos.y
              (if buttons.toNat.testBit i then 1 else 0) i)
          else none
        some { d with messages := d.messages ++ moves ++ presses }

/-- `SendCloseMessage`. -/
def sendCloseMessage (d : Desktop) : Desktop :=
  if d.activeLayer = 0 then d
  else
    match d.manager.findLayer d.activeLayer, d.layerTaskMap d.activeLayer with
    | some layer, some task =>
        if task = 0 then d
        else { d with messages := d.messages ++ [(task, .windowClose layer.id)] }
    | _, _ => d

end Desktop

/-! ## Sessions -/

/-- A message `kLayer`, in the queue of the main task. -/
structure LayerRequest where
  op : LayerOperation
  layerId : Nat
  area : Rectangle

/-- `ProcessLayerMessage`. -/
def LayerManager.processLayerMessage (m : LayerManager) (msg : LayerRequest) : Option LayerManager :=
  match msg.op with
  | .move => m.move msg.layerId msg.area.pos
  | .moveRelative => m.moveRelative msg.layerId msg.area.pos
  | .draw => m.drawWindow msg.layerId
  | .drawArea => m.drawLayer msg.layerId msg.area

/-- The desktop, the mouse, the messages that wait, and the calls of `Draw(id, area)` that tasks
will make for layers that they know. -/
structure Session where
  desktop : Desktop
  mouse : Mouse
  requests : List LayerRequest
  draws : List (Nat × Rectangle)

namespace Session

/-- The first part of `OnInterrupt` moves the cursor; the results are `newpos` and `posdiff`. -/
def moveCursor (s : Session) (displacement : Vector2D) : Option (Session × Vector2D × Vector2D) := do
  let oldpos := s.mouse.position
  let newpos := (oldpos + displacement).elementMin (s.desktop.manager.screen.size + ⟨-1, -1⟩)
  let position := newpos.elementMax ⟨0, 0⟩
  let manager ← s.desktop.manager.move s.mouse.layerId position
  some ({ s with desktop := { s.desktop with manager }, mouse := { s.mouse with position } },
    newpos, position - oldpos)

/-- The button goes down; the result is `close_layer_id`. -/
def press (s : Session) : Option (Session × Nat) :=
  match s.desktop.manager.findLayerByPosition s.mouse.position s.mouse.layerId with
  | none => do
      let desktop ← s.desktop.activate 0
      some ({ s with desktop }, 0)
  | some layer =>
      if layer.draggable then do
        let region := layer.window.getWindowRegion (s.mouse.position - layer.pos)
        let mouse := if region = .titleBar then { s.mouse with dragLayerId := layer.id } else s.mouse
        let desktop ← s.desktop.activate layer.id
        some ({ s with desktop, mouse }, if region = .closeButton then layer.id else 0)
      else do
        let desktop ← s.desktop.activate 0
        some ({ s with desktop }, 0)

/-- The second part of `OnInterrupt`. -/
def handleButton (s : Session) (posdiff : Vector2D) (buttons : UInt8) : Option (Session × Nat) :=
  let previousLeftPressed := s.mouse.previousButtons &&& 1 ≠ 0
  let leftPressed := buttons &&& 1 ≠ 0
  if ¬ previousLeftPressed ∧ leftPressed then s.press
  else if previousLeftPressed ∧ leftPressed then
    if 0 < s.mouse.dragLayerId then do
      let manager ← s.desktop.manager.moveRelative s.mouse.dragLayerId posdiff
      some ({ s with desktop := { s.desktop with manager } }, 0)
    else some (s, 0)
  else if previousLeftPressed ∧ ¬ leftPressed then
    some ({ s with mouse := { s.mouse with dragLayerId := 0 } }, 0)
  else some (s, 0)

/-- The third part of `OnInterrupt`. -/
def report (s : Session) (newpos posdiff : Vector2D) (buttons : UInt8) (closeLayerId : Nat) :
    Option Session :=
  if s.mouse.dragLayerId = 0 then
    if closeLayerId = 0 then do
      let desktop ← s.desktop.sendMouseMessage newpos posdiff buttons s.mouse.previousButtons
      some { s with desktop }
    else some { s with desktop := s.desktop.sendCloseMessage }
  else some s

/-- `Mouse::OnInterrupt`. -/
def onInterrupt (s : Session) (buttons : UInt8) (displacement : Vector2D) : Option Session := do
  let (s, newpos, posdiff) ← s.moveCursor displacement
  let (s, closeLayerId) ← s.handleButton posdiff buttons
  let s ← s.report newpos posdiff buttons closeLayerId
  some { s with mouse := { s.mouse with previousButtons := buttons } }

/-- What can happen to layers. -/
inductive Event
  /-- `NewLayer`, with `SetWindow`, `SetDraggable` and `Layer::Move` -/
  | newLayer (window : Window) (draggable : Bool) (pos : Vector2D)
  /-- `UpDown` with a height that is not negative -/
  | upDown (id height : Nat)
  | activate (id : Nat)
  | move (id : Nat) (newPos : Vector2D)
  | moveRelative (id : Nat) (posDiff : Vector2D)
  /-- `CloseLayer` or the `CloseWindow` system call -/
  | closeLayer (id : Nat)
  | onInterrupt (buttons : UInt8) (displacement : Vector2D)
  /-- a task sends a message to the main task -/
  | send (msg : LayerRequest)
  /-- the main task takes a message from its queue -/
  | process
  /-- a task has looked a layer up, and will draw it -/
  | lookUp (id : Nat) (area : Rectangle)
  /-- one of these tasks draws -/
  | draw (task : Nat)
  /-- and one no longer will -/
  | forget (task : Nat)

/-- One step; `none` if a null pointer is dereferenced, or `window_area` is used without having
been set. -/
def step (s : Session) : Event → Option Session
  | .newLayer window draggable pos =>
      some { s with desktop.manager := (s.desktop.manager.newLayer window draggable pos).1 }
  | .upDown id height => do
      let manager ← s.desktop.manager.upDown id height
      some { s with desktop.manager := manager }
  | .activate id => do
      let desktop ← s.desktop.activate id
      some { s with desktop }
  | .move id newPos => do
      let manager ← s.desktop.manager.move id newPos
      some { s with desktop.manager := manager }
  | .moveRelative id posDiff => do
      let manager ← s.desktop.manager.moveRelative id posDiff
      some { s with desktop.manager := manager }
  | .closeLayer id => do
      let (desktop, _) ← s.desktop.closeLayer id
      some { s with desktop }
  | .onInterrupt buttons displacement => s.onInterrupt buttons displacement
  | .send msg => some { s with requests := s.requests ++ [msg] }
  | .process =>
      match s.requests with
      | [] => some s
      | msg :: requests => do
          let manager ← s.desktop.manager.processLayerMessage msg
          some { s with desktop.manager := manager, requests }
  | .lookUp id area => some { s with draws := s.draws ++ [(id, area)] }
  | .draw task =>
      match s.draws[task]? with
      | none => some s
      | some (id, area) => do
          let manager ← s.desktop.manager.drawLayer id area
          some { s with desktop.manager := manager }
  | .forget task => some { s with draws := s.draws.eraseIdx task }

/-! ## What is remembered -/

/-- The ids that are used later without another look. -/
inductive Remembers (s : Session) : Nat → Prop
  | cursor : Remembers s s.mouse.layerId
  | drag : s.mouse.dragLayerId ≠ 0 → Remembers s s.mouse.dragLayerId
  | request {msg : LayerRequest} : msg ∈ s.requests → Remembers s msg.layerId
  | draw {id : Nat} {area : Rectangle} : (id, area) ∈ s.draws → Remembers s id

/-- Layers are shown before they are used, and not closed while somebody remembers them; their
ids do not wrap. -/
def Admits (s : Session) : Event → Prop
  | .newLayer _ _ _ => s.desktop.manager.latestId + 1 < 2 ^ 32
  | .upDown id _ => ∃ key ∈ s.desktop.manager.keys, key.id = id
  | .activate id => id = 0 ∨ id ≠ s.mouse.layerId ∧ ∃ key ∈ s.desktop.manager.keys, key.id = id
  | .move id _ => s.desktop.Shown id
  | .moveRelative id _ => s.desktop.Shown id
  | .closeLayer id => ¬ s.Remembers id
  | .send msg => s.desktop.Shown msg.layerId
  | .lookUp id _ => s.desktop.Shown id
  | _ => True

/-- What is remembered is shown. -/
structure Inv (s : Session) : Prop where
  orderly : Orderly s.desktop
  mouseLayer : s.desktop.mouseLayer = s.mouse.layerId
  shown : ∀ {id}, s.Remembers id → s.desktop.Shown id

variable {s s' : Session} {d d' : Desktop}

/-! ## Operations -/

theorem Remembers.of_same {id : Nat} (remembered : s'.Remembers id)
    (layerId : s'.mouse.layerId = s.mouse.layerId)
    (drag : s'.mouse.dragLayerId = 0 ∨ s'.mouse.dragLayerId = s.mouse.dragLayerId)
    (requests : ∀ msg ∈ s'.requests, msg ∈ s.requests) (draws : ∀ call ∈ s'.draws, call ∈ s.draws) :
    s.Remembers id := by
  cases remembered with
  | cursor => exact layerId ▸ .cursor
  | drag nonzero =>
      have same := drag.resolve_left nonzero
      rw [same] at nonzero ⊢
      exact .drag nonzero
  | request member => exact .request (requests _ member)
  | draw member => exact .draw (draws _ member)

/-- What was shown still is, and nothing else is remembered. -/
theorem Inv.next (inv : s.Inv) (orderly : Orderly s'.desktop)
    (mouseLayer : s'.desktop.mouseLayer = s.desktop.mouseLayer)
    (layerId : s'.mouse.layerId = s.mouse.layerId)
    (keeps : ∀ {id}, s.desktop.Shown id → s'.desktop.Shown id)
    (remembers : ∀ {id}, s'.Remembers id → s.Remembers id ∨ s'.desktop.Shown id) : s'.Inv where
  orderly := orderly
  mouseLayer := mouseLayer.trans (inv.mouseLayer.trans layerId.symm)
  shown := by
    intro id remembered
    rcases remembers remembered with before | shown
    · exact keeps (inv.shown before)
    · exact shown

/-- Something has happened to the desktop alone. -/
theorem Inv.withDesktop (inv : s.Inv) {desktop : Desktop} (orderly : Orderly desktop)
    (mouseLayer : desktop.mouseLayer = s.desktop.mouseLayer)
    (keeps : ∀ {id}, s.desktop.Shown id → desktop.Shown id) : Inv { s with desktop } := by
  refine inv.next orderly mouseLayer rfl keeps ?_
  intro id remembered
  exact .inl (remembered.of_same rfl (.inr rfl) (fun _ member => member) fun _ member => member)

/-- Layers have changed their looks. -/
theorem Inv.sameDesk (inv : s.Inv) {desktop : Desktop} (same : SameDesk s.desktop desktop) :
    Inv { s with desktop } :=
  inv.withDesktop (inv.orderly.sameDesk same) same.mouseLayer fun {id} shown =>
    (same.shown_iff id).mpr shown

/-- A layer that is shown changes its place. -/
theorem exists_reposition (orderly : Orderly d) {id : Nat} (shown : d.Shown id)
    (place : Vector2D → Vector2D) :
    ∃ layer manager, d.manager.findLayer id = some layer ∧
      ((d.manager.set { layer with pos := place layer.pos }).draw
        ⟨layer.pos, layer.window.size⟩).drawWindow id = some manager ∧
      SameKeys d.manager manager := by
  have exists' := shown
  rcases exists' with ⟨key, member, id', -⟩
  rcases orderly.findLayer member with ⟨layer, found, -⟩
  rw [id'] at found
  have set : SameKeys d.manager (d.manager.set { layer with pos := place layer.pos }) :=
    sameKeys_set orderly.addresses (List.mem_of_find?_eq_some found) rfl
  rcases orderly.drawLayer shown (set.trans (sameKeys_draw _ _)) ⟨⟨0, 0⟩, ⟨-1, -1⟩⟩ with
    ⟨manager, drawn, same⟩
  exact ⟨layer, manager, found, drawn, same⟩

/-- `Move`. -/
theorem exists_move (orderly : Orderly d) {id : Nat} (shown : d.Shown id) (newPos : Vector2D) :
    ∃ manager, d.manager.move id newPos = some manager ∧ SameKeys d.manager manager := by
  rcases exists_reposition orderly shown fun _ => newPos with ⟨layer, manager, found, drawn, same⟩
  refine ⟨manager, ?_, same⟩
  rw [LayerManager.move, found]
  exact drawn

/-- `MoveRelative`. -/
theorem exists_moveRelative (orderly : Orderly d) {id : Nat} (shown : d.Shown id) (diff : Vector2D) :
    ∃ manager, d.manager.moveRelative id diff = some manager ∧ SameKeys d.manager manager := by
  rcases exists_reposition orderly shown (· + diff) with ⟨layer, manager, found, drawn, same⟩
  refine ⟨manager, ?_, same⟩
  rw [LayerManager.moveRelative, found]
  exact drawn

/-- `ProcessLayerMessage`. -/
theorem exists_processLayerMessage (orderly : Orderly d) {msg : LayerRequest}
    (shown : d.Shown msg.layerId) :
    ∃ manager, d.manager.processLayerMessage msg = some manager ∧ SameKeys d.manager manager := by
  rw [processLayerMessage]
  cases msg.op with
  | move => exact exists_move orderly shown _
  | moveRelative => exact exists_moveRelative orderly shown _
  | draw => exact orderly.drawLayer shown (.refl _) _
  | drawArea => exact orderly.drawLayer shown (.refl _) _

/-- `Activate(0)`. -/
theorem Inv.activate_zero (inv : s.Inv) :
    ∃ desktop, s.desktop.activate 0 = some desktop ∧ Inv { s with desktop } := by
  rcases inv.orderly.activate_zero with ⟨desktop, activated, same⟩
  refine ⟨desktop, activated, ?_⟩
  have orderly : Orderly { s.desktop with activeLayer := 0 } :=
    { inv.orderly with active := .inl rfl }
  have inactive : Inv { s with desktop.activeLayer := 0 } :=
    inv.withDesktop orderly rfl fun shown => shown
  exact inactive.sameDesk same

/-- `Activate(id)` shows the layer. -/
theorem Inv.activate (inv : s.Inv) {key : Key} (member : key ∈ s.desktop.manager.keys)
    (notMouse : key.id ≠ s.mouse.layerId) :
    ∃ desktop, s.desktop.activate key.id = some desktop ∧ Inv { s with desktop } ∧
      desktop.Shown key.id := by
  rcases inv.orderly.activate (inv.mouseLayer ▸ inv.shown .cursor) member
    (inv.mouseLayer.symm ▸ notMouse) with
    ⟨desktop, activated, keys, stack, orderly, -, -, mouseLayer, -⟩
  refine ⟨desktop, activated, ?_, ⟨key, keys ▸ member, rfl, (stack _).mpr (.inl rfl)⟩⟩
  apply inv.withDesktop orderly mouseLayer
  rintro id ⟨key', member', same, inStack⟩
  exact ⟨key', keys ▸ member', same, (stack _).mpr (.inr inStack)⟩

/-! ## The mouse -/

theorem of_findLayerByPosition {pos : Vector2D} {excludeId : Nat} {layer : Layer}
    (found : d.manager.findLayerByPosition pos excludeId = some layer) :
    layer.key ∈ d.manager.keys ∧ layer.id ≠ excludeId := by
  have member := List.mem_of_find?_eq_some found
  have inside := List.find?_some found
  rw [List.mem_reverse, LayerManager.shown, List.mem_filterMap] at member
  rcases member with ⟨address, -, at'⟩
  simp only [ne_eq, Bool.decide_and, Bool.and_eq_true, decide_eq_true_eq] at inside
  exact ⟨List.mem_map_of_mem (List.mem_of_find?_eq_some at'), inside.1⟩

/-- The mouse may be somewhere else, and let go of what it drags. -/
theorem Inv.sameLayer (inv : s.Inv) {mouse : Mouse} (layerId : mouse.layerId = s.mouse.layerId)
    (drag : mouse.dragLayerId = 0 ∨ mouse.dragLayerId = s.mouse.dragLayerId) :
    Inv { s with mouse } := by
  refine inv.next inv.orderly rfl layerId (fun shown => shown) ?_
  intro id remembered
  exact .inl (remembered.of_same layerId drag (fun _ member => member) fun _ member => member)

theorem Inv.moveCursor (inv : s.Inv) (displacement : Vector2D) :
    ∃ s' newpos posdiff, s.moveCursor displacement = some (s', newpos, posdiff) ∧ s'.Inv := by
  rw [Session.moveCursor]
  generalize ((s.mouse.position + displacement).elementMin _).elementMax ⟨0, 0⟩ = position
  rcases exists_move inv.orderly (inv.shown .cursor) position with ⟨manager, moved, same⟩
  refine ⟨_, _, _, congrArg (fun found => Option.bind found _) moved, ?_⟩
  have moved : Inv { s with desktop := { s.desktop with manager } } :=
    inv.sameDesk ⟨same, rfl, rfl, rfl⟩
  exact moved.sameLayer rfl (.inr rfl)

/-- The mouse begins to drag a layer that is shown. -/
theorem Inv.drag (inv : s.Inv) {id : Nat} (shown : s.desktop.Shown id) :
    Inv { s with mouse.dragLayerId := id } := by
  refine inv.next inv.orderly rfl rfl (fun shown => shown) ?_
  rintro id (_ | _ | member | member)
  · exact .inl .cursor
  · exact .inr shown
  · exact .inl (.request member)
  · exact .inl (.draw member)

theorem Inv.press (inv : s.Inv) :
    ∃ s' closeLayerId, s.press = some (s', closeLayerId) ∧ s'.Inv := by
  rcases inv.activate_zero with ⟨desktop, inactive, inv'⟩
  rw [Session.press]
  split
  · exact ⟨_, _, congrArg (fun found => Option.bind found _) inactive, inv'⟩
  · rename_i layer found
    by_cases draggable : layer.draggable = true
    · rw [if_pos draggable]
      rcases of_findLayerByPosition found with ⟨member, notMouse⟩
      rcases inv.activate member notMouse with ⟨desktop', activated, inv'', shown⟩
      refine ⟨_, _, congrArg (fun found => Option.bind found _) activated, ?_⟩
      by_cases title : layer.window.getWindowRegion (s.mouse.position - layer.pos) = .titleBar
      · simp only [if_pos title]
        exact inv''.drag shown
      · simp only [if_neg title]
        exact inv''
    · rw [if_neg draggable]
      exact ⟨_, _, congrArg (fun found => Option.bind found _) inactive, inv'⟩

theorem Inv.handleButton (inv : s.Inv) (posdiff : Vector2D) (buttons : UInt8) :
    ∃ s' closeLayerId, s.handleButton posdiff buttons = some (s', closeLayerId) ∧ s'.Inv := by
  rw [Session.handleButton]
  split
  · exact inv.press
  · split
    · split
      · rename_i dragging
        rcases exists_moveRelative inv.orderly (inv.shown (.drag dragging.ne')) posdiff with
          ⟨manager, moved, same⟩
        exact ⟨_, _, congrArg (fun found => Option.bind found _) moved,
          inv.sameDesk ⟨same, rfl, rfl, rfl⟩⟩
      · exact ⟨_, _, rfl, inv⟩
    · split
      · exact ⟨_, _, rfl, inv.sameLayer rfl (.inl rfl)⟩
      · exact ⟨_, _, rfl, inv⟩

/-- `SendMouseMessage` finds the active layer. -/
theorem exists_sendMouseMessage (orderly : Orderly d) (newpos posdiff : Vector2D)
    (buttons previousButtons : UInt8) :
    ∃ d', d.sendMouseMessage newpos posdiff buttons previousButtons = some d' ∧ SameDesk d d' := by
  have same : SameDesk d d := ⟨.refl _, rfl, rfl, rfl⟩
  rw [Desktop.sendMouseMessage]
  split
  · exact ⟨d, rfl, same⟩
  · rename_i active
    split
    · exact ⟨d, rfl, same⟩
    · rcases orderly.active.resolve_left active with ⟨key, member, id, -⟩
      rcases orderly.findLayer member with ⟨layer, found, -⟩
      rw [id] at found
      exact ⟨_, congrArg (fun found => Option.bind found _) found, same.manager, rfl, rfl, rfl⟩

theorem sameDesk_sendCloseMessage (d : Desktop) : SameDesk d d.sendCloseMessage := by
  have same : SameDesk d d := ⟨.refl _, rfl, rfl, rfl⟩
  rw [Desktop.sendCloseMessage]
  split
  · exact same
  · split
    · split
      · exact same
      · exact ⟨.refl _, rfl, rfl, rfl⟩
    · exact same

theorem Inv.report (inv : s.Inv) (newpos posdiff : Vector2D) (buttons : UInt8) (closeLayerId : Nat) :
    ∃ s', s.report newpos posdiff buttons closeLayerId = some s' ∧ s'.Inv := by
  rw [Session.report]
  split
  · split
    · rcases exists_sendMouseMessage inv.orderly newpos posdiff buttons s.mouse.previousButtons with
        ⟨desktop, sent, same⟩
      exact ⟨_, congrArg (fun found => Option.bind found _) sent, inv.sameDesk same⟩
    · exact ⟨_, rfl, inv.sameDesk (sameDesk_sendCloseMessage _)⟩
  · exact ⟨_, rfl, inv⟩

/-- `Mouse::OnInterrupt` finds every layer it uses. -/
theorem Inv.onInterrupt (inv : s.Inv) (buttons : UInt8) (displacement : Vector2D) :
    ∃ s', s.onInterrupt buttons displacement = some s' ∧ s'.Inv := by
  rcases inv.moveCursor displacement with ⟨s₁, newpos, posdiff, moved, inv₁⟩
  rcases inv₁.handleButton posdiff buttons with ⟨s₂, closeLayerId, handled, inv₂⟩
  rcases inv₂.report newpos posdiff buttons closeLayerId with ⟨s₃, reported, inv₃⟩
  refine ⟨{ s₃ with mouse.previousButtons := buttons }, ?_, inv₃.sameLayer rfl (.inr rfl)⟩
  rw [Session.onInterrupt, moved]
  change Option.bind (s₁.handleButton posdiff buttons) _ = _
  rw [handled]
  change Option.bind (s₂.report newpos posdiff buttons closeLayerId) _ = _
  rw [reported]
  rfl

/-- A layer is closed that nobody remembers. -/
theorem Inv.closeLayer (inv : s.Inv) {id : Nat} (forgotten : ¬ s.Remembers id) :
    ∃ s', s.step (.closeLayer id) = some s' ∧ s'.Inv := by
  by_cases isKey : ∃ key ∈ s.desktop.manager.keys, key.id = id
  · rcases isKey with ⟨key, member, rfl⟩
    rcases inv.orderly.closeLayer member with
      ⟨desktop, closed, keys, stack, latestId, nextAddress, active, mouseLayer, -⟩
    rcases inv.orderly.of_closeLayer member keys stack latestId nextAddress active with
      ⟨orderly, keeps⟩
    refine ⟨{ s with desktop }, congrArg (fun found => Option.bind found _) closed, orderly,
      mouseLayer.trans inv.mouseLayer, ?_⟩
    intro id remembered
    have before : s.Remembers id :=
      remembered.of_same rfl (.inr rfl) (fun _ member => member) fun _ member => member
    exact keeps id (fun same => forgotten (same ▸ before)) (inv.shown before)
  · have absent : s.desktop.manager.findLayer id = none := by
      rw [← Option.map_eq_none_iff, key_findLayer, List.find?_eq_none]
      intro key member
      simpa using fun same => isKey ⟨key, member, same⟩
    refine ⟨s, ?_, inv⟩
    have closed : s.desktop.closeLayer id = some (s.desktop, .noSuchEntry) := by
      rw [Desktop.closeLayer, absent]
    exact congrArg (fun found => Option.bind found _) closed

/-! ## Runs -/

/-- One step: the operation finds its layers, and what is remembered stays shown. -/
theorem exists_step (inv : s.Inv) {event : Event} (admits : s.Admits event) :
    ∃ s', s.step event = some s' ∧ s'.Inv := by
  cases event with
  | newLayer window draggable pos =>
      refine ⟨_, rfl, inv.withDesktop (inv.orderly.newLayer admits window draggable pos) rfl ?_⟩
      rintro id ⟨key, member, same, inStack⟩
      refine ⟨key, ?_, same, inStack⟩
      change key ∈ (s.desktop.manager.newLayer window draggable pos).1.keys
      rw [keys_newLayer]
      exact List.mem_append_left _ member
  | upDown id height =>
      rcases admits with ⟨key, member, rfl⟩
      have placed := upDown_eq (find_key inv.orderly.ids member) height
      have orderly : Orderly { s.desktop with manager := { s.desktop.manager with
          layerStack := place s.desktop.manager.layerStack key.address height } } :=
        inv.orderly.reorder rfl rfl rfl (nodup_place inv.orderly.nodup _ _) member
          (fun _ => mem_place) (.inr rfl)
      refine ⟨_, congrArg (fun found => Option.bind found _) placed, inv.withDesktop orderly rfl ?_⟩
      rintro id ⟨key', member', same, inStack⟩
      exact ⟨key', member', same, mem_place.mpr (.inr inStack)⟩
  | activate id =>
      rcases admits with rfl | ⟨notMouse, key, member, rfl⟩
      · rcases inv.activate_zero with ⟨desktop, activated, inv'⟩
        exact ⟨_, congrArg (fun found => Option.bind found _) activated, inv'⟩
      · rcases inv.activate member notMouse with ⟨desktop, activated, inv', -⟩
        exact ⟨_, congrArg (fun found => Option.bind found _) activated, inv'⟩
  | move id newPos =>
      rcases exists_move inv.orderly admits newPos with ⟨manager, moved, same⟩
      exact ⟨_, congrArg (fun found => Option.bind found _) moved,
        inv.sameDesk ⟨same, rfl, rfl, rfl⟩⟩
  | moveRelative id posDiff =>
      rcases exists_moveRelative inv.orderly admits posDiff with ⟨manager, moved, same⟩
      exact ⟨_, congrArg (fun found => Option.bind found _) moved,
        inv.sameDesk ⟨same, rfl, rfl, rfl⟩⟩
  | closeLayer id => exact inv.closeLayer admits
  | onInterrupt buttons displacement => exact inv.onInterrupt buttons displacement
  | send msg =>
      refine ⟨_, rfl, inv.next inv.orderly rfl rfl (fun shown => shown) ?_⟩
      rintro id (_ | nonzero | member | member)
      · exact .inl .cursor
      · exact .inl (.drag nonzero)
      · rcases List.mem_append.mp member with old | new
        · exact .inl (.request old)
        · rw [List.mem_singleton.mp new]
          exact .inr admits
      · exact .inl (.draw member)
  | process =>
      rcases s with ⟨desktop, mouse, _ | ⟨msg, requests⟩, draws⟩
      · exact ⟨_, rfl, inv⟩
      · rcases exists_processLayerMessage inv.orderly (inv.shown (.request List.mem_cons_self)) with
          ⟨manager, processed, same⟩
        refine ⟨_, congrArg (fun found => Option.bind found _) processed, ?_⟩
        have moved : Inv ⟨{ desktop with manager }, mouse, msg :: requests, draws⟩ :=
          inv.sameDesk ⟨same, rfl, rfl, rfl⟩
        refine moved.next moved.orderly rfl rfl (fun shown => shown) ?_
        intro id remembered
        exact .inl (remembered.of_same rfl (.inr rfl) (fun _ member => List.mem_cons_of_mem _ member)
          fun _ member => member)
  | lookUp id area =>
      refine ⟨_, rfl, inv.next inv.orderly rfl rfl (fun shown => shown) ?_⟩
      rintro id' (_ | nonzero | member | member)
      · exact .inl .cursor
      · exact .inl (.drag nonzero)
      · exact .inl (.request member)
      · rcases List.mem_append.mp member with old | new
        · exact .inl (.draw old)
        · cases List.mem_singleton.mp new
          exact .inr admits
  | draw task =>
      rw [step]
      split
      · exact ⟨s, rfl, inv⟩
      · rename_i id area call
        rcases inv.orderly.drawLayer (inv.shown (.draw (List.mem_of_getElem? call))) (.refl _) area with
          ⟨manager, drawn, same⟩
        exact ⟨_, congrArg (fun found => Option.bind found _) drawn,
          inv.sameDesk ⟨same, rfl, rfl, rfl⟩⟩
  | forget task =>
      refine ⟨_, rfl, inv.next inv.orderly rfl rfl (fun shown => shown) ?_⟩
      intro id remembered
      exact .inl (remembered.of_same rfl (.inr rfl) (fun _ member => member)
        fun _ member => List.mem_of_mem_eraseIdx member)

/-- The area of `Draw(id)`. -/
def wholeWindow : Rectangle :=
  ⟨⟨0, 0⟩, ⟨-1, -1⟩⟩

/-- The session after `InitializeMouse`.  The console, the main window and the text window are
drawn by the kernel. -/
def initial (k : Desktop.KernelWindows) : Session where
  desktop := .initial k
  mouse := ⟨5, ⟨200, 200⟩, 0, 0⟩
  requests := []
  draws := [(2, wholeWindow), (3, wholeWindow), (4, wholeWindow)]

theorem inv_initial (k : Desktop.KernelWindows) : (initial k).Inv where
  orderly := (Desktop.inv_initial k).orderly
  mouseLayer := rfl
  shown := by
    have all : ∀ id ∈ [2, 3, 4, 5], ∃ key ∈ Desktop.kernelKeys, key.id = id ∧
        key.address ∈ [0, 1, 2, 3, 4] := by
      decide
    rintro id (_ | nonzero | member | member)
    · exact all 5 (by decide)
    · exact absurd rfl nonzero
    · cases member
    · rcases List.mem_cons.mp member with same | member
      · cases same
        exact all 2 (by decide)
      · rcases List.mem_pair.mp member with same | same
        · cases same
          exact all 3 (by decide)
        · cases same
          exact all 4 (by decide)

/-- In every run in which layers are shown before they are used, and not closed while they are
remembered, every operation finds the layers it uses. -/
theorem layers_live_of_run {k : Desktop.KernelWindows} {events : List Event}
    (run : Run (guarded (ofFunction step) Admits) (initial k) events s) :
    (∀ id, s.Remembers id → s.desktop.Shown id) ∧
      ∀ event, s.Admits event → ∃ s', s.step event = some s' := by
  have preserved : ∀ ⦃s event s'⦄, Inv s → guarded (ofFunction step) Admits s event s' → Inv s' := by
    rintro s event s' inv ⟨admits, stepped⟩
    rcases exists_step inv admits with ⟨s'', stepped', inv'⟩
    rw [ofFunction_iff, stepped'] at stepped
    cases stepped
    exact inv'
  have inv := run.invariant preserved (inv_initial k)
  constructor
  · exact fun id => inv.shown
  · intro event admits
    rcases exists_step inv admits with ⟨s', stepped, -⟩
    exact ⟨s', stepped⟩

theorem layers_live_of_run_moves : ∃ s,
    Run (guarded (ofFunction step) Admits) (initial Desktop.plainWindows) [.onInterrupt 0 ⟨1, 0⟩] s ∧
      (∀ id, s.Remembers id → s.desktop.Shown id) ∧
      ∀ event, s.Admits event → ∃ s', s.step event = some s' := by
  have admits : (initial Desktop.plainWindows).Admits (.onInterrupt 0 ⟨1, 0⟩) := trivial
  rcases exists_step (inv_initial Desktop.plainWindows) admits with ⟨s, stepped, -⟩
  have run : Run (guarded (ofFunction step) Admits) (initial Desktop.plainWindows)
      [.onInterrupt 0 ⟨1, 0⟩] s :=
    .single ⟨admits, stepped⟩
  exact ⟨s, run, layers_live_of_run run⟩

/-- An application opens a window, and closes it while the mouse drags it. -/
def dragged : List Event :=
  [.newLayer Desktop.plainWindow true ⟨100, 100⟩, .activate 6, .onInterrupt 0 ⟨-90, -90⟩,
    .onInterrupt 1 ⟨0, 0⟩, .closeLayer 6]

/-- A terminal gets its window. -/
def startsTerminal : List Event :=
  [.newLayer Desktop.plainWindow true ⟨0, 0⟩]

/-- The mouse drags a layer that is gone; and `TaskTerminal` moves a layer that is not shown
yet. -/
theorem not_layers_live :
    (∃ s, Run (ofFunction step) (initial Desktop.plainWindows) dragged s ∧
      s.step (.onInterrupt 1 ⟨1, 0⟩) = none) ∧
    ∃ s, Run (ofFunction step) (initial Desktop.plainWindows) startsTerminal s ∧
      s.step (.move 6 ⟨100, 200⟩) = none := by
  have fails {events : List Event} {event : Event}
      (executed : (execute step (initial Desktop.plainWindows) events).any
        (fun s => (s.step event).isNone) = true) :
      ∃ s, Run (ofFunction step) (initial Desktop.plainWindows) events s ∧ s.step event = none := by
    rcases Option.any_eq_true_iff_get .. |>.mp executed with ⟨isSome, none⟩
    exact ⟨_, (execute_eq_some_iff ..).mp (Option.some_get isSome).symm, Option.isNone_iff_eq_none.mp none⟩
  exact ⟨fails (by decide), fails (by decide)⟩

end Session

end Mikanos.Screen
