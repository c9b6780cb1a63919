import Mikanos.Error
import Mikanos.Screen.Window
import Mikanos.Task.Message

/-!
# Layers

`LayerManager` owns the layers, keeps the stack of those that are shown, and draws
them; `ActiveLayer` raises the layer of the active window to just below the mouse
cursor.  Layers are found by their ids, but the stack holds pointers.
-/

namespace Mikanos.Screen

/-- `Layer`, at an address. -/
structure Layer where
  address : Nat
  id : Nat
  pos : Vector2D
  window : Window
  draggable : Bool

/-- `Layer::DrawTo`. -/
def Layer.drawTo (l : Layer) (screen : FrameBuffer) (area : Rectangle) : FrameBuffer :=
  l.window.drawTo screen l.pos area

/-- `LayerManager`; `nextAddress` is where the next layer is allocated. -/
structure LayerManager where
  screen : FrameBuffer
  backBuffer : FrameBuffer
  layers : List Layer
  layerStack : List Nat
  latestId : Nat
  nextAddress : Nat

namespace LayerManager

/-- `NewLayer`, followed by `SetWindow`, `SetDraggable` and `Move`; the result is the
id. -/
def newLayer (m : LayerManager) (window : Window) (draggable : Bool) (pos : Vector2D) :
    LayerManager × Nat :=
  let latestId := (m.latestId + 1) % 2 ^ 32
  ({ m with
    layers := m.layers ++ [⟨m.nextAddress, latestId, pos, window, draggable⟩]
    latestId
    nextAddress := m.nextAddress + 1 }, latestId)

/-- `FindLayer`. -/
def findLayer (m : LayerManager) (id : Nat) : Option Layer :=
  m.layers.find? fun l => l.id = id

/-- The layer that a pointer points to. -/
def layerAt (m : LayerManager) (address : Nat) : Option Layer :=
  m.layers.find? fun l => l.address = address

/-- The layers in the stack, from the bottom to the top. -/
def shown (m : LayerManager) : List Layer :=
  m.layerStack.filterMap m.layerAt

/-- Assign to a layer. -/
def set (m : LayerManager) (layer : Layer) : LayerManager :=
  { m with layers := m.layers.map fun l => if l.address = layer.address then layer else l }

/-- `Hide`. -/
def hide (m : LayerManager) (id : Nat) : LayerManager :=
  match m.findLayer id with
  | none => m
  | some layer => { m with layerStack := m.layerStack.erase layer.address }

/-- `RemoveLayer`. -/
def removeLayer (m : LayerManager) (id : Nat) : LayerManager :=
  let m := m.hide id
  { m with layers := m.layers.filter fun l => l.id ≠ id }

/-- `GetHeight`. -/
def getHeight (m : LayerManager) (id : Nat) : Int :=
  match m.layerStack.findIdx? fun address => (m.layerAt address).any fun l => l.id = id with
  | some h => h
  | none => -1

/-- `UpDown`; `none` if there is no such layer, and a null pointer would enter the
stack. -/
def upDown (m : LayerManager) (id : Nat) (newHeight : Int) : Option LayerManager :=
  if newHeight < 0 then some (m.hide id)
  else
    let newPos := min newHeight.toNat m.layerStack.length
    match m.findLayer id with
    | none => none
    | some layer =>
        if layer.address ∈ m.layerStack then
          let newPos := if newPos = m.layerStack.length then newPos - 1 else newPos
          some { m with
            layerStack := (m.layerStack.erase layer.address).insertIdx newPos layer.address }
        else
          some { m with layerStack := m.layerStack.insertIdx newPos layer.address }

/-! ## Drawing -/

/-- `Draw(area)`. -/
def draw (m : LayerManager) (area : Rectangle) : LayerManager :=
  let backBuffer := m.shown.foldl (fun buffer layer => layer.drawTo buffer area) m.backBuffer
  { m with backBuffer, screen := m.screen.copy area.pos backBuffer area }

/-- The part of a layer's window that `Draw(id, area)` draws. -/
def windowArea (layer : Layer) (area : Rectangle) : Rectangle :=
  let windowArea : Rectangle := ⟨layer.pos, layer.window.size⟩
  if 0 ≤ area.size.x ∨ 0 ≤ area.size.y then
    windowArea.inter ⟨area.pos + windowArea.pos, area.size⟩
  else windowArea

/-- One round of the loop of `Draw(id, area)`: `window_area` is set as soon as the
layer has been met, and from then on everything is drawn. -/
def drawRound (id : Nat) (state : Rectangle × Option Rectangle × FrameBuffer) (layer : Layer) :
    Rectangle × Option Rectangle × FrameBuffer :=
  let (area, drawn, buffer) := state
  let (area, drawn) := if layer.id = id then
      (if 0 ≤ area.size.x ∨ 0 ≤ area.size.y then ⟨area.pos + layer.pos, area.size⟩ else area,
        some (windowArea layer area))
    else (area, drawn)
  match drawn with
  | none => (area, none, buffer)
  | some rectangle => (area, some rectangle, layer.drawTo buffer rectangle)

/-- `Draw(id, area)`; `none` if the layer is not shown, and `window_area` is used
without having been set. -/
def drawLayer (m : LayerManager) (id : Nat) (area : Rectangle) : Option LayerManager :=
  match m.shown.foldl (drawRound id) (area, none, m.backBuffer) with
  | (_, none, _) => none
  | (_, some drawn, backBuffer) => some { m with
      backBuffer, screen := m.screen.copy drawn.pos backBuffer drawn }

/-- `Draw(id)`. -/
def drawWindow (m : LayerManager) (id : Nat) : Option LayerManager :=
  m.drawLayer id ⟨⟨0, 0⟩, ⟨-1, -1⟩⟩

/-- `Move`; `none` if there is no such layer or it is not shown. -/
def move (m : LayerManager) (id : Nat) (newPos : Vector2D) : Option LayerManager := do
  let layer ← m.findLayer id
  let m := (m.set { layer with pos := newPos }).draw ⟨layer.pos, layer.window.size⟩
  m.drawWindow id

/-- `MoveRelative`. -/
def moveRelative (m : LayerManager) (id : Nat) (posDiff : Vector2D) : Option LayerManager := do
  let layer ← m.findLayer id
  let m := (m.set { layer with pos := layer.pos + posDiff }).draw ⟨layer.pos, layer.window.size⟩
  m.drawWindow id

end LayerManager

/-! ## The active layer -/

/-- `layer_manager`, `active_layer` and `layer_task_map`, with the messages sent. -/
structure Desktop where
  manager : LayerManager
  activeLayer : Nat
  mouseLayer : Nat
  layerTaskMap : Nat → Option Nat
  messages : List (Nat × Message)

namespace Desktop

/-- `SendWindowActiveMessage`. -/
def sendWindowActiveMessage (d : Desktop) (layerId : Nat) (activate : Int) : Desktop :=
  match d.layerTaskMap layerId with
  | none => d
  | some task => { d with messages := d.messages ++ [(task, .windowActive activate)] }

/-- The first half of `Activate`: the window that was active no longer is. -/
def deactivate (d : Desktop) : Option Desktop :=
  if 0 < d.activeLayer then do
    let layer ← d.manager.findLayer d.activeLayer
    let manager := d.manager.set { layer with window := layer.window.deactivate }
    let manager ← manager.drawWindow d.activeLayer
    some ({ d with manager }.sendWindowActiveMessage d.activeLayer 0)
  else
    some d

/-- The second half of `Activate`: the layer is raised to just below the mouse
cursor. -/
def raise (d : Desktop) (layerId : Nat) : Option Desktop :=
  let d := { d with activeLayer := layerId }
  if 0 < layerId then do
    let layer ← d.manager.findLayer layerId
    let manager := d.manager.set { layer with window := layer.window.activate }
    let manager ← manager.upDown layerId 0
    let manager ← manager.upDown layerId (manager.getHeight d.mouseLayer - 1)
    let manager ← manager.drawWindow layerId
    some ({ d with manager }.sendWindowActiveMessage layerId 1)
  else
    some d

/-- `ActiveLayer::Activate`; `none` if a null pointer is dereferenced. -/
def activate (d : Desktop) (layerId : Nat) : Option Desktop :=
  if d.activeLayer = layerId then some d
  else do
    let d ← d.deactivate
    d.raise layerId

/-- `CloseLayer`; the `CloseWindow` system call does the same. -/
def closeLayer (d : Desktop) (layerId : Nat) : Option (Desktop × Error) :=
  match d.manager.findLayer layerId with
  | none => some (d, .noSuchEntry)
  | some layer => do
      let d ← d.activate 0
      let manager := (d.manager.removeLayer layerId).draw ⟨layer.pos, layer.window.size⟩
      some ({ d with manager, layerTaskMap := Function.update d.layerTaskMap layerId none }, .success)

end Desktop
end Mikanos.Screen
