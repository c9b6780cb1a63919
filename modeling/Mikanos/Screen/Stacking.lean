import Mikanos.Screen.Keys

/-!
# The stack of windows

The invariant of the stack is that the background is at the bottom, the mouse cursor at the
top, and the active window just below the cursor.
-/

namespace Mikanos.Screen

open Transition

/-! ## The invariant -/

/-- The background is at the bottom of the stack, the mouse cursor at the top, and
the active layer, if there is one, just below the cursor. -/
structure Stacked (background mouse : Nat) (d : Desktop) : Prop where
  nodup : d.manager.layerStack.Nodup
  owned : ∀ address ∈ d.manager.layerStack, ∃ key ∈ d.manager.keys, key.address = address
  ends : ∃ middle, d.manager.layerStack = background :: (middle ++ [mouse])
  active : d.activeLayer = 0 ∨ ∃ key ∈ d.manager.keys, key.id = d.activeLayer ∧
    key.draggable = true ∧ ∃ lower, d.manager.layerStack = lower ++ [key.address, mouse]

/-- The invariant: layers are told apart by their ids as well as by their addresses,
and neither the background nor the cursor can be dragged. -/
structure Inv (background mouse : Nat) (d : Desktop) : Prop extends Stacked background mouse d where
  ids : (d.manager.keys.map Key.id).Nodup
  addresses : (d.manager.keys.map Key.address).Nodup
  id_range : ∀ key ∈ d.manager.keys, 0 < key.id ∧ key.id ≤ d.manager.latestId
  address_lt : ∀ key ∈ d.manager.keys, key.address < d.manager.nextAddress
  cursor : ⟨mouse, d.mouseLayer, false⟩ ∈ d.manager.keys
  bottom : ∃ id, ⟨background, id, false⟩ ∈ d.manager.keys

namespace Inv

open LayerManager

variable {background mouse : Nat} {d d' : Desktop}

/-- Layers may change their looks. -/
theorem sameKeys (inv : Inv background mouse d) (same : SameKeys d.manager d'.manager)
    (activeLayer : d'.activeLayer = d.activeLayer) (mouseLayer : d'.mouseLayer = d.mouseLayer) :
    Inv background mouse d' := by
  rcases inv with ⟨⟨nodup, owned, ends, active⟩, ids, addresses, id_range, address_lt, cursor, bottom⟩
  rw [← same.layerStack] at nodup owned ends active
  rw [← same.keys] at owned active ids addresses id_range address_lt cursor bottom
  rw [← same.latestId] at id_range
  rw [← same.nextAddress] at address_lt
  rw [← activeLayer] at active
  rw [← mouseLayer] at cursor
  exact ⟨⟨nodup, owned, ends, active⟩, ids, addresses, id_range, address_lt, cursor, bottom⟩

/-- The stack of the invariant is orderly. -/
theorem orderly (inv : Inv background mouse d) : Orderly d where
  nodup := inv.nodup
  owned := inv.owned
  active := by
    rcases inv.active with zero | ⟨key, member, id, -, lower, stack⟩
    · exact .inl zero
    · refine .inr ⟨key, member, id, ?_⟩
      rw [stack]
      simp
  ids := inv.ids
  addresses := inv.addresses
  id_range := inv.id_range
  address_lt := inv.address_lt

/-- The stack after a layer other than the background and the cursor has been moved to
just below the cursor. -/
theorem raised (middle : List Nat) {address : Nat} (notBackground : address ≠ background)
    (notMouse : address ≠ mouse) :
    place (background :: (middle ++ [mouse])) address 0 =
        address :: ((background :: middle.erase address) ++ [mouse]) ∧
      place (address :: ((background :: middle.erase address) ++ [mouse])) address
          (background :: middle.erase address).length =
        background :: (middle.erase address ++ [address, mouse]) := by
  constructor
  · rw [place_zero (List.cons_ne_nil _ _), List.erase_cons_tail (by simpa using notBackground.symm)]
    by_cases inMiddle : address ∈ middle
    · rw [List.erase_append_left _ inMiddle]
      rfl
    · rw [List.erase_append_right _ inMiddle, List.erase_of_not_mem inMiddle,
        List.erase_of_not_mem (by simpa using notMouse)]
      rfl
  · exact place_below_top ..

/-- A layer that can be dragged is neither the background nor the cursor. -/
theorem ne_of_draggable (inv : Inv background mouse d) {key : Key} (member : key ∈ d.manager.keys)
    (draggable : key.draggable = true) : key.address ≠ background ∧ key.address ≠ mouse := by
  have other (key' : Key) (member' : key' ∈ d.manager.keys) (fixed : key'.draggable = false) :
      key.address ≠ key'.address := by
    intro same
    rw [List.inj_on_of_nodup_map inv.addresses member member' same, fixed] at draggable
    cases draggable
  rcases inv.bottom with ⟨id, bottom⟩
  exact ⟨other _ bottom rfl, other _ inv.cursor rfl⟩

/-- A layer that can be dragged is raised to just below the cursor. -/
theorem raise (inv : Inv background mouse d) {key : Key} (member : key ∈ d.manager.keys)
    (draggable : key.draggable = true) {middle : List Nat}
    (stack : d.manager.layerStack = background :: (middle ++ [mouse])) :
    ∃ d', d.raise key.id = some d' ∧ d'.manager.keys = d.manager.keys ∧
      d'.manager.layerStack = background :: (middle.erase key.address ++ [key.address, mouse]) ∧
      d'.manager.latestId = d.manager.latestId ∧ d'.manager.nextAddress = d.manager.nextAddress ∧
      d'.activeLayer = key.id ∧ d'.mouseLayer = d.mouseLayer := by
  rcases inv.ne_of_draggable member draggable with ⟨notBackground, notMouse⟩
  rcases raised middle notBackground notMouse with ⟨toBottom, toTop⟩
  have height (m : LayerManager) (keys : m.keys = d.manager.keys)
      (atBottom : m.layerStack = place d.manager.layerStack key.address 0) :
      m.getHeight d.mouseLayer =
        ((background :: middle.erase key.address).length + 1 : Nat) := by
    rw [stack, toBottom] at atBottom
    have cursor : m.keys.find? (fun k => k.address = mouse) = some ⟨mouse, d.mouseLayer, false⟩ :=
      keys.symm ▸ find_key (f := Key.address) inv.addresses inv.cursor
    rcases layerAt_of_key cursor with ⟨top, foundTop, topKey⟩
    refine getHeight_top (key.address :: background :: middle.erase key.address) atBottom ?_ foundTop
      (congrArg Key.id topKey)
    intro address lower other foundOther id
    have isCursor : other.key = ⟨mouse, d.mouseLayer, false⟩ :=
      List.inj_on_of_nodup_map inv.ids
        (keys ▸ List.mem_map_of_mem (List.mem_of_find?_eq_some foundOther)) inv.cursor id
    have here : other.address = address := by simpa using List.find?_some foundOther
    have atMouse : other.address = mouse := congrArg Key.address isCursor
    have mouseLower : mouse ∈ key.address :: background :: middle.erase key.address := by
      rw [← atMouse, here]
      exact lower
    have nodup := inv.nodup
    rw [stack, List.nodup_cons] at nodup
    rcases List.mem_cons.mp mouseLower with same | later
    · exact notMouse same.symm
    · rcases List.mem_cons.mp later with same | inner
      · exact nodup.1 (same ▸ List.mem_append_right _ (List.mem_singleton_self _))
      · exact List.disjoint_of_nodup_append nodup.2 (List.mem_of_mem_erase inner)
          (List.mem_singleton_self _)
  rcases Orderly.raise_of_height inv.addresses (find_key inv.ids member)
    (inv.id_range key member).1 height (by rw [stack, toBottom, toTop]; simp) with
    ⟨d', raised, keys, stack', latestId, nextAddress, active, mouseLayer, -⟩
  rw [stack, toBottom, toTop] at stack'
  exact ⟨d', raised, keys, stack', latestId, nextAddress, active, mouseLayer⟩

/-! ## The operations -/

/-- `Activate(id)` for another layer than the active one. -/
theorem activate_layer (inv : Inv background mouse d) {key : Key} (member : key ∈ d.manager.keys)
    (draggable : key.draggable = true) (other : d.activeLayer ≠ key.id) {middle : List Nat}
    (stack : d.manager.layerStack = background :: (middle ++ [mouse])) :
    ∃ d', d.activate key.id = some d' ∧ d'.manager.keys = d.manager.keys ∧
      d'.manager.layerStack = background :: (middle.erase key.address ++ [key.address, mouse]) ∧
      d'.manager.latestId = d.manager.latestId ∧ d'.manager.nextAddress = d.manager.nextAddress ∧
      d'.activeLayer = key.id ∧ d'.mouseLayer = d.mouseLayer := by
  rcases inv.orderly.deactivate with ⟨d₁, deactivated, same⟩
  have inv₁ := inv.sameKeys same.manager same.activeLayer same.mouseLayer
  rcases inv₁.raise (same.manager.keys.symm ▸ member) draggable
    (same.manager.layerStack.trans stack) with
    ⟨d', raised, keys, stack', latestId, nextAddress, active, mouse'⟩
  refine ⟨d', ?_, keys.trans same.manager.keys, stack', latestId.trans same.manager.latestId,
    nextAddress.trans same.manager.nextAddress, active, mouse'.trans same.mouseLayer⟩
  rw [Desktop.activate, if_neg other, deactivated]
  exact raised

/-- Raising a layer duplicates none. -/
theorem nodup_raised {middle : List Nat} {address : Nat}
    (nodup : (background :: (middle ++ [mouse])).Nodup) (notBackground : address ≠ background)
    (notMouse : address ≠ mouse) :
    (background :: (middle.erase address ++ [address, mouse])).Nodup := by
  rcases List.nodup_cons.mp nodup with ⟨notAgain, nodup'⟩
  rcases List.nodup_append.mp nodup' with ⟨middleNodup, -, disjoint⟩
  rw [List.nodup_cons, List.nodup_append]
  refine ⟨?_, middleNodup.erase address, ?_, ?_⟩
  · intro member
    rcases List.mem_append.mp member with inner | outer
    · exact notAgain (List.mem_append_left _ (List.mem_of_mem_erase inner))
    · rcases List.mem_cons.mp outer with same | top
      · exact notBackground same.symm
      · exact notAgain (List.mem_append_right _ top)
  · simpa using notMouse
  · intro other inner top member same
    subst same
    rcases List.mem_cons.mp member with same | atTop
    · rw [same] at inner
      exact middleNodup.not_mem_erase inner
    · exact disjoint other (List.mem_of_mem_erase inner) other atTop rfl

/-- Taking a layer out of the stack leaves the order of the others. -/
theorem filter_erase (stack : List Nat) (address : Nat) :
    (stack.erase address).filter (· ≠ address) = stack.filter (· ≠ address) := by
  induction stack with
  | nil => rfl
  | cons other rest ih =>
      by_cases same : other = address
      · rw [same, List.erase_cons_head, List.filter_cons_of_neg (by simp)]
      · rw [List.erase_cons_tail (by simpa using same), List.filter_cons_of_pos (by simpa using same),
          List.filter_cons_of_pos (by simpa using same), ih]

/-- Raising a layer leaves the order of the others. -/
theorem filter_raised (middle : List Nat) (address : Nat) :
    (background :: (middle.erase address ++ [address, mouse])).filter (· ≠ address) =
      (background :: (middle ++ [mouse])).filter (· ≠ address) := by
  have inner := filter_erase middle address
  have top : [address, mouse].filter (· ≠ address) = [mouse].filter (· ≠ address) :=
    List.filter_cons_of_neg (by simp)
  rw [List.filter_cons, List.filter_cons, List.filter_append, List.filter_append, inner, top]

/-- `Activate(id)` keeps the invariant. -/
theorem of_activate_layer (inv : Inv background mouse d) {key : Key} (member : key ∈ d.manager.keys)
    (draggable : key.draggable = true) {middle : List Nat}
    (stack : d.manager.layerStack = background :: (middle ++ [mouse]))
    (keys : d'.manager.keys = d.manager.keys)
    (stack' : d'.manager.layerStack =
      background :: (middle.erase key.address ++ [key.address, mouse]))
    (latestId : d'.manager.latestId = d.manager.latestId)
    (nextAddress : d'.manager.nextAddress = d.manager.nextAddress)
    (active : d'.activeLayer = key.id) (mouseLayer : d'.mouseLayer = d.mouseLayer) :
    Inv background mouse d' := by
  rcases inv.ne_of_draggable member draggable with ⟨notBackground, notMouse⟩
  have nodup := inv.nodup
  rw [stack] at nodup
  refine ⟨⟨?_, ?_, ⟨middle.erase key.address ++ [key.address], ?_⟩, .inr ⟨key, ?_⟩⟩, ?_, ?_, ?_, ?_, ?_, ?_⟩
  · rw [stack']
    exact nodup_raised nodup notBackground notMouse
  · intro address inStack
    rw [keys]
    by_cases same : address = key.address
    · exact ⟨key, member, same.symm⟩
    · apply inv.owned
      have kept : address ∈ d'.manager.layerStack.filter (· ≠ key.address) :=
        List.mem_filter.mpr ⟨inStack, by simpa using same⟩
      rw [stack', filter_raised, ← stack] at kept
      exact (List.mem_filter.mp kept).1
  · rw [stack', List.append_assoc]
    rfl
  · rw [keys]
    exact ⟨member, active.symm, draggable, background :: middle.erase key.address, stack'⟩
  · rw [keys]
    exact inv.ids
  · rw [keys]
    exact inv.addresses
  · rw [keys, latestId]
    exact inv.id_range
  · rw [keys, nextAddress]
    exact inv.address_lt
  · rw [keys, mouseLayer]
    exact inv.cursor
  · rw [keys]
    exact inv.bottom

/-- A new layer is not shown yet. -/
theorem newLayer (inv : Inv background mouse d) (room : d.manager.latestId + 1 < 2 ^ 32)
    (window : Window) (pos : Vector2D) :
    Inv background mouse { d with manager := (d.manager.newLayer window true pos).1 } := by
  have orderly := inv.orderly.newLayer room window true pos
  have old {key : Key} (member : key ∈ d.manager.keys) :
      key ∈ (d.manager.newLayer window true pos).1.keys := by
    rw [keys_newLayer]
    exact List.mem_append_left _ member
  refine ⟨⟨inv.nodup, orderly.owned, inv.ends, ?_⟩, orderly.ids, orderly.addresses, orderly.id_range,
    orderly.address_lt, old inv.cursor, ?_⟩
  · rcases inv.active with zero | ⟨key, member, rest⟩
    · exact .inl zero
    · exact .inr ⟨key, old member, rest⟩
  · rcases inv.bottom with ⟨id, member⟩
    exact ⟨id, old member⟩

/-- The stack without a layer that is neither the background nor the cursor. -/
theorem erase_stack {middle : List Nat} {address : Nat} (notBackground : address ≠ background)
    (notMouse : address ≠ mouse) :
    (background :: (middle ++ [mouse])).erase address =
      background :: (middle.erase address ++ [mouse]) := by
  rw [List.erase_cons_tail (by simpa using notBackground.symm)]
  by_cases inMiddle : address ∈ middle
  · rw [List.erase_append_left _ inMiddle]
  · rw [List.erase_append_right _ inMiddle, List.erase_of_not_mem inMiddle,
      List.erase_of_not_mem (by simpa using notMouse)]

/-- `CloseLayer` keeps the invariant. -/
theorem of_closeLayer (inv : Inv background mouse d) {key : Key} (member : key ∈ d.manager.keys)
    (draggable : key.draggable = true)
    (keys : d'.manager.keys = d.manager.keys.filter fun k => k.id ≠ key.id)
    (stack' : d'.manager.layerStack = d.manager.layerStack.erase key.address)
    (latestId : d'.manager.latestId = d.manager.latestId)
    (nextAddress : d'.manager.nextAddress = d.manager.nextAddress)
    (active : d'.activeLayer = 0) (mouseLayer : d'.mouseLayer = d.mouseLayer) :
    Inv background mouse d' := by
  rcases inv.ne_of_draggable member draggable with ⟨notBackground, notMouse⟩
  rcases inv.ends with ⟨middle, stack⟩
  have orderly := (inv.orderly.of_closeLayer member keys stack' latestId nextAddress active).1
  have kept {key' : Key} (member' : key' ∈ d.manager.keys) (other : key'.address ≠ key.address) :
      key' ∈ d'.manager.keys := by
    rw [keys]
    refine List.mem_filter.mpr ⟨member', ?_⟩
    have ne : key'.id ≠ key.id := by
      intro same
      exact other (congrArg Key.address (List.inj_on_of_nodup_map inv.ids member' member same))
    simpa using ne
  refine ⟨⟨orderly.nodup, orderly.owned, ⟨middle.erase key.address, ?_⟩, .inl active⟩, orderly.ids,
    orderly.addresses, orderly.id_range, orderly.address_lt, ?_, ?_⟩
  · rw [stack', stack, erase_stack notBackground notMouse]
  · rw [mouseLayer]
    exact kept inv.cursor notMouse.symm
  · rcases inv.bottom with ⟨id, member'⟩
    exact ⟨id, kept member' notBackground.symm⟩

end Inv

/-! ## Runs -/

namespace Desktop

/-- What can happen to the windows. -/
inductive Action
  /-- a window gets a layer -/
  | newLayer (window : Window) (pos : Vector2D)
  /-- `ActiveLayer::Activate` -/
  | activate (id : Nat)
  /-- `CloseLayer` or the `CloseWindow` system call -/
  | closeLayer (id : Nat)

/-- One step. -/
def step (d : Desktop) : Action → Option Desktop
  | .newLayer window pos => some { d with manager := (d.manager.newLayer window true pos).1 }
  | .activate id => d.activate id
  | .closeLayer id => (d.closeLayer id).map Prod.fst

/-- The address of the layer that an action is about. -/
def about (d : Desktop) : Action → Option Nat
  | .newLayer _ _ => some d.manager.nextAddress
  | .activate id => (d.manager.findLayer id).map Layer.address
  | .closeLayer id => (d.manager.findLayer id).map Layer.address

/-- The layers that an action is not about are in the same order. -/
def SameOrder (d d' : Desktop) (address : Option Nat) : Prop :=
  d'.manager.layerStack.filter (fun a => some a ≠ address) =
    d.manager.layerStack.filter fun a => some a ≠ address

/-- There is a layer with this id that can be dragged. -/
def Draggable (d : Desktop) (id : Nat) : Prop :=
  ∃ key ∈ d.manager.keys, key.id = id ∧ key.draggable = true

/-- Windows are activated and closed if they can be dragged. -/
def OfWindows (d : Desktop) : Action → Prop
  | .newLayer _ _ => True
  | .activate id => id = 0 ∨ d.Draggable id
  | .closeLayer id => d.Draggable id

/-- The ids of layers do not wrap, in addition. -/
def WithNewIds (d : Desktop) (action : Action) : Prop :=
  d.OfWindows action ∧ ∀ window pos, action = .newLayer window pos → d.manager.latestId + 1 < 2 ^ 32

/-- The windows of the kernel. -/
structure KernelWindows where
  screen : FrameBuffer
  bgwindow : Window
  consoleWindow : Window
  mainWindow : Window
  textWindow : Window
  mouseWindow : Window

/-- The layers after `InitializeLayer`, `InitializeMainWindow`, `InitializeTextWindow`
and `InitializeMouse`. -/
def initial (k : KernelWindows) : Desktop where
  manager := {
    screen := k.screen
    backBuffer := k.screen
    layers := [⟨0, 1, ⟨0, 0⟩, k.bgwindow, false⟩, ⟨1, 2, ⟨0, 0⟩, k.consoleWindow, false⟩,
      ⟨2, 3, ⟨300, 100⟩, k.mainWindow, true⟩, ⟨3, 4, ⟨500, 100⟩, k.textWindow, true⟩,
      ⟨4, 5, ⟨200, 200⟩, k.mouseWindow, false⟩]
    layerStack := [0, 1, 2, 3, 4]
    latestId := 5
    nextAddress := 5 }
  activeLayer := 0
  mouseLayer := 5
  layerTaskMap := fun _ => none
  messages := []

variable {d d' : Desktop} {k : KernelWindows}

theorem inv_initial (k : KernelWindows) : Inv 0 4 (initial k) where
  nodup := by
    change [0, 1, 2, 3, 4].Nodup
    decide
  owned := by
    change ∀ address ∈ [0, 1, 2, 3, 4], ∃ key ∈ ([⟨0, 1, false⟩, ⟨1, 2, false⟩, ⟨2, 3, true⟩,
      ⟨3, 4, true⟩, ⟨4, 5, false⟩] : List Key), key.address = address
    decide
  ends := ⟨[1, 2, 3], rfl⟩
  active := .inl rfl
  ids := by
    change [1, 2, 3, 4, 5].Nodup
    decide
  addresses := by
    change [0, 1, 2, 3, 4].Nodup
    decide
  id_range := by
    change ∀ key ∈ ([⟨0, 1, false⟩, ⟨1, 2, false⟩, ⟨2, 3, true⟩, ⟨3, 4, true⟩, ⟨4, 5, false⟩] :
      List Key), 0 < key.id ∧ key.id ≤ 5
    decide
  address_lt := by
    change ∀ key ∈ ([⟨0, 1, false⟩, ⟨1, 2, false⟩, ⟨2, 3, true⟩, ⟨3, 4, true⟩, ⟨4, 5, false⟩] :
      List Key), key.address < 5
    decide
  cursor := by
    change (⟨4, 5, false⟩ : Key) ∈ ([⟨0, 1, false⟩, ⟨1, 2, false⟩, ⟨2, 3, true⟩, ⟨3, 4, true⟩,
      ⟨4, 5, false⟩] : List Key)
    decide
  bottom := ⟨1, List.mem_cons_self⟩

/-- The address of the layer with a key. -/
theorem address_findLayer {background mouse : Nat} (inv : Inv background mouse d) {key : Key}
    (member : key ∈ d.manager.keys) :
    (d.manager.findLayer key.id).map Layer.address = some key.address := by
  rcases inv.orderly.findLayer member with ⟨layer, found, same⟩
  rw [found]
  exact congrArg some (congrArg Key.address same)

/-- The order of the layers other than one. -/
theorem sameOrder_some {address : Nat} (same : d'.manager.layerStack.filter (· ≠ address) =
    d.manager.layerStack.filter (· ≠ address)) : SameOrder d d' (some address) := by
  rw [SameOrder]
  simp only [ne_eq, Option.some.injEq]
  exact same

/-- One step: the operation succeeds, keeps the invariant, and leaves the order of the
other layers. -/
theorem exists_step {background mouse : Nat} (inv : Inv background mouse d) {action : Action}
    (allowed : d.WithNewIds action) :
    ∃ d', d.step action = some d' ∧ Inv background mouse d' ∧ SameOrder d d' (d.about action) := by
  rcases allowed with ⟨ofWindows, newIds⟩
  rcases inv.ends with ⟨middle, stack⟩
  cases action with
  | newLayer window pos => exact ⟨_, rfl, inv.newLayer (newIds window pos rfl) window pos, rfl⟩
  | activate id =>
      rcases ofWindows with rfl | ⟨key, member, rfl, draggable⟩
      · rcases inv.orderly.activate_zero with ⟨d', activated, same⟩
        have inv' : Inv background mouse d' := by
          have bare : Inv background mouse { d with activeLayer := 0 } :=
            { inv with active := .inl rfl }
          exact bare.sameKeys same.manager same.activeLayer same.mouseLayer
        refine ⟨d', activated, inv', ?_⟩
        rw [SameOrder, same.manager.layerStack]
      · by_cases already : d.activeLayer = key.id
        · exact ⟨d, if_pos already, inv, rfl⟩
        · rcases inv.activate_layer member draggable already stack with
            ⟨d', activated, keys, stack', latestId, nextAddress, active, mouseLayer⟩
          refine ⟨d', activated, inv.of_activate_layer member draggable stack keys stack' latestId
            nextAddress active mouseLayer, ?_⟩
          rw [about, address_findLayer inv member]
          apply sameOrder_some
          rw [stack', stack, Inv.filter_raised]
  | closeLayer id =>
      rcases ofWindows with ⟨key, member, rfl, draggable⟩
      rcases inv.orderly.closeLayer member with
        ⟨d', closed, keys, stack', latestId, nextAddress, active, mouseLayer, -⟩
      refine ⟨d', ?_, inv.of_closeLayer member draggable keys stack' latestId nextAddress active
        mouseLayer, ?_⟩
      · rw [Desktop.step, closed]
        rfl
      · rw [about, address_findLayer inv member]
        apply sameOrder_some
        rw [stack', Inv.filter_erase]

/-- As long as the ids of layers do not wrap, the background stays at the bottom, the
cursor at the top and the active window below it; every operation succeeds and leaves
the order of the layers that it is not about. -/
theorem stacked_of_run {actions : List Action}
    (run : Run (guarded (ofFunction step) WithNewIds) (initial k) actions d) :
    Stacked 0 4 d ∧ ∀ action, d.WithNewIds action →
      ∃ d', d.step action = some d' ∧ SameOrder d d' (d.about action) := by
  have preserved : ∀ ⦃d action d'⦄, Inv 0 4 d → guarded (ofFunction step) WithNewIds d action d' →
      Inv 0 4 d' := by
    rintro d action d' inv ⟨allowed, stepped⟩
    rcases exists_step inv allowed with ⟨d'', stepped', inv', -⟩
    rw [ofFunction_iff, stepped'] at stepped
    cases stepped
    exact inv'
  have inv := run.invariant preserved (inv_initial k)
  refine ⟨inv.toStacked, ?_⟩
  intro action allowed
  rcases exists_step inv allowed with ⟨d', stepped, -, order⟩
  exact ⟨d', stepped, order⟩

/-- Windows of one size and colour. -/
def plainWindow : Window :=
  ⟨⟨160, 52⟩, fun _ _ => ⟨0, 0, 0⟩, none, fun _ _ _ => none⟩

def plainWindows : KernelWindows :=
  ⟨⟨⟨800, 600⟩, fun _ _ => ⟨0, 0, 0⟩⟩, plainWindow, plainWindow, plainWindow, plainWindow, plainWindow⟩

theorem stacked_of_run_mainWindow : ∃ d,
    Run (guarded (ofFunction step) WithNewIds) (initial plainWindows) [.activate 3] d ∧
      (Stacked 0 4 d ∧ ∀ action, d.WithNewIds action →
        ∃ d', d.step action = some d' ∧ SameOrder d d' (d.about action)) := by
  have allowed : (initial plainWindows).WithNewIds (.activate 3) := by
    refine ⟨.inr ⟨⟨2, 3, true⟩, ?_, rfl, rfl⟩, ?_⟩
    · exact .tail _ (.tail _ (.head _))
    · rintro window pos ⟨⟩
  rcases exists_step (inv_initial plainWindows) allowed with ⟨d, stepped, -⟩
  have run : Run (guarded (ofFunction step) WithNewIds) (initial plainWindows) [.activate 3] d :=
    .single ⟨allowed, stepped⟩
  exact ⟨d, run, stacked_of_run run⟩

/-! ## Four billion windows -/

/-- The keys of the kernel's layers. -/
def kernelKeys : List Key :=
  [⟨0, 1, false⟩, ⟨1, 2, false⟩, ⟨2, 3, true⟩, ⟨3, 4, true⟩, ⟨4, 5, false⟩]

/-- Only the kernel's windows are there, and some number of others has been. -/
structure OnlyKernel (d : Desktop) (latestId : Nat) : Prop where
  inv : Inv 0 4 d
  keys : d.manager.keys = kernelKeys
  stack : d.manager.layerStack = [0, 1, 2, 3, 4]
  latestId : d.manager.latestId = latestId
  active : d.activeLayer = 0
  mouse : d.mouseLayer = 5

/-- A window is opened and closed again. -/
theorem OnlyKernel.next {latestId : Nat} (only : OnlyKernel d latestId) (kernel : 5 ≤ latestId)
    (room : latestId + 1 < 2 ^ 32) (window : Window) (pos : Vector2D) :
    ∃ d', Run (guarded (ofFunction step) OfWindows) d
        [.newLayer window pos, .closeLayer (latestId + 1)] d' ∧ OnlyKernel d' (latestId + 1) := by
  have room' : d.manager.latestId + 1 < 2 ^ 32 := only.latestId.symm ▸ room
  have inv := only.inv.newLayer room' window pos
  have keys : (d.manager.newLayer window true pos).1.keys =
      kernelKeys ++ [⟨d.manager.nextAddress, latestId + 1, true⟩] := by
    rw [LayerManager.keys_newLayer, only.keys, only.latestId, Nat.mod_eq_of_lt room]
  have member : (⟨d.manager.nextAddress, latestId + 1, true⟩ : Key) ∈
      (d.manager.newLayer window true pos).1.keys :=
    keys ▸ List.mem_append_right _ (List.mem_singleton_self _)
  rcases inv.orderly.closeLayer member with
    ⟨d', closed, keys', stack', latest', nextAddress', active', mouse', -⟩
  have old : ∀ key ∈ kernelKeys, key.id ≠ latestId + 1 := by
    intro key among
    have : key.id ≤ 5 := (by decide : ∀ key ∈ kernelKeys, key.id ≤ 5) key among
    omega
  have notShown : d.manager.nextAddress ∉ d.manager.layerStack := by
    intro inStack
    rcases only.inv.owned _ inStack with ⟨key, among, same⟩
    exact absurd (only.inv.address_lt key among) (same ▸ Nat.lt_irrefl _)
  refine ⟨d', .cons ⟨trivial, rfl⟩ (.single ⟨⟨_, member, rfl, rfl⟩, ?_⟩), ⟨?_, ?_, ?_, ?_, active', ?_⟩⟩
  · rw [ofFunction_iff, step, closed]
    rfl
  · exact inv.of_closeLayer member rfl keys' stack' latest' nextAddress' active' mouse'
  · rw [keys']
    change List.filter _ (d.manager.newLayer window true pos).1.keys = _
    rw [keys, List.filter_append, List.filter_eq_self.mpr (by simpa using old)]
    simp
  · rw [stack']
    change d.manager.layerStack.erase d.manager.nextAddress = _
    rw [List.erase_of_not_mem notShown, only.stack]
  · rw [latest']
    change (d.manager.latestId + 1) % 2 ^ 32 = _
    rw [only.latestId, Nat.mod_eq_of_lt room]
  · rw [mouse']
    exact only.mouse

/-- All ids but the last one are used up. -/
theorem exists_onlyKernel (k : KernelWindows) (n : Nat) (room : n + 5 < 2 ^ 32) :
    ∃ actions d, Run (guarded (ofFunction step) OfWindows) (initial k) actions d ∧
      OnlyKernel d (n + 5) := by
  induction n with
  | zero => exact ⟨[], _, .nil _, inv_initial k, rfl, rfl, rfl, rfl, rfl⟩
  | succ n ih =>
      rcases ih (by omega) with ⟨actions, d, run, only⟩
      rcases only.next (by omega) (by omega) plainWindow ⟨0, 0⟩ with ⟨d', run', only'⟩
      have same : n + 5 + 1 = n + 1 + 5 := by omega
      rw [same] at only'
      exact ⟨_, d', run.append run', only'⟩

/-- The second window after that gets the id of the background, which is raised in its
place. -/
theorem not_stacked_fourBillionWindows : ∃ actions d,
    Run (guarded (ofFunction step) OfWindows) (initial plainWindows) actions d ∧
      d.manager.layerStack = [1, 2, 3, 0, 4] ∧ ¬ Stacked 0 4 d := by
  rcases exists_onlyKernel plainWindows (2 ^ 32 - 6) (by decide) with ⟨actions, d, run, only⟩
  have latestId : d.manager.latestId = 2 ^ 32 - 1 := only.latestId
  -- two more windows
  generalize d₁Eq : (d.manager.newLayer plainWindow true ⟨0, 0⟩).1 = m₁
  generalize d₂Eq : (m₁.newLayer plainWindow true ⟨0, 0⟩).1 = m₂
  have latestId₁ : m₁.latestId = 0 := by
    rw [← d₁Eq]
    change (d.manager.latestId + 1) % 2 ^ 32 = 0
    rw [latestId]
    rfl
  have keys₁ : m₁.keys = kernelKeys ++ [⟨d.manager.nextAddress, 0, true⟩] := by
    rw [← d₁Eq, LayerManager.keys_newLayer, only.keys, latestId]
    rfl
  have keys₂ : m₂.keys = kernelKeys ++ [⟨d.manager.nextAddress, 0, true⟩] ++
      [⟨m₁.nextAddress, 1, true⟩] := by
    rw [← d₂Eq, LayerManager.keys_newLayer, keys₁, latestId₁]
    rfl
  have stack₂ : m₂.layerStack = [0, 1, 2, 3, 4] := by
    rw [← d₂Eq, ← d₁Eq]
    exact only.stack
  have next₁ : m₁.nextAddress = d.manager.nextAddress + 1 := by
    rw [← d₁Eq]
    rfl
  have addresses : (m₂.keys.map Key.address).Nodup := by
    have above := only.inv.address_lt ⟨4, 5, false⟩ (only.keys ▸ by decide)
    change 4 < d.manager.nextAddress at above
    rw [keys₂, next₁]
    change [0, 1, 2, 3, 4, d.manager.nextAddress, d.manager.nextAddress + 1].Nodup
    simp
    omega
  have found : m₂.keys.find? (fun k => k.id = 1) = some ⟨0, 1, false⟩ := by
    rw [keys₂]
    rfl
  -- the cursor is where it was
  have height (m : LayerManager) (keys : m.keys = m₂.keys)
      (stack : m.layerStack = LayerManager.place m₂.layerStack 0 0) :
      m.getHeight 5 = (3 + 1 : Nat) := by
    rw [stack₂] at stack
    rw [keys₂] at keys
    have idAt (address : Nat) (key : Key)
        (atAddress : m.keys.find? (fun k => k.address = address) = some key) :
        ∃ layer, m.layerAt address = some layer ∧ layer.id = key.id := by
      rcases LayerManager.layerAt_of_key atAddress with ⟨layer, found, same⟩
      exact ⟨layer, found, congrArg Key.id same⟩
    rcases idAt 4 ⟨4, 5, false⟩ (by rw [keys]; rfl) with ⟨top, foundTop, topId⟩
    refine LayerManager.getHeight_top [0, 1, 2, 3] stack ?_ foundTop topId
    have kernel (key : Key) (low : key.id < 5)
        (atAddress : m.keys.find? (fun k => k.address = key.address) = some key) :
        ∀ layer, m.layerAt key.address = some layer → layer.id ≠ 5 := by
      intro layer foundLayer
      rcases idAt key.address key atAddress with ⟨layer', foundLayer', sameId⟩
      rw [foundLayer'] at foundLayer
      cases foundLayer
      omega
    simp only [List.forall_mem_cons]
    exact ⟨kernel ⟨0, 1, false⟩ (by decide) (by rw [keys]; rfl),
      kernel ⟨1, 2, false⟩ (by decide) (by rw [keys]; rfl),
      kernel ⟨2, 3, true⟩ (by decide) (by rw [keys]; rfl),
      kernel ⟨3, 4, true⟩ (by decide) (by rw [keys]; rfl), by simp⟩
  rcases Orderly.raise_of_height (d := { d with manager := m₂ }) (h := 3) addresses found (by decide)
    (only.mouse ▸ height) (by rw [stack₂]; decide) with ⟨d', raised, -, stack', -⟩
  rw [stack₂] at stack'
  have draggable : ({ d with manager := m₂ } : Desktop).Draggable 1 :=
    ⟨⟨m₁.nextAddress, 1, true⟩, by rw [keys₂]; simp, rfl, rfl⟩
  have activated : ({ d with manager := m₂ } : Desktop).activate 1 = some d' := by
    rw [activate, if_neg (by rw [only.active]; decide), deactivate, if_neg (by rw [only.active]; decide)]
    exact raised
  have first : guarded (ofFunction step) OfWindows d (.newLayer plainWindow ⟨0, 0⟩)
      { d with manager := m₁ } := by
    rw [← d₁Eq]
    exact ⟨trivial, rfl⟩
  have second : guarded (ofFunction step) OfWindows { d with manager := m₁ }
      (.newLayer plainWindow ⟨0, 0⟩) { d with manager := m₂ } := by
    rw [← d₂Eq]
    exact ⟨trivial, rfl⟩
  have third : guarded (ofFunction step) OfWindows { d with manager := m₂ } (.activate 1) d' :=
    ⟨.inr draggable, activated⟩
  refine ⟨_, d', run.append (.cons first (.cons second (.single third))), stack', ?_⟩
  intro stacked
  rcases stacked.ends with ⟨middle, ends⟩
  rw [stack'] at ends
  cases (List.cons.inj ends).1

end Desktop
end Mikanos.Screen
