import Mikanos.Screen.Layers
import Mikanos.Transition.Run

/-!
# The keys of layers

What `LayerManager` does to its stack depends on the keys of the layers alone: their
addresses, their ids, and whether they can be dragged.  As long as layers are told apart by
their ids, and the stack points to layers that exist, the operations on layers that are
shown succeed.
-/

namespace Mikanos.Screen

open Transition

/-! ## Keys -/

/-- Where a layer is, what its id is, and whether it can be dragged. -/
structure Key where
  address : Nat
  id : Nat
  draggable : Bool
  deriving DecidableEq

def Layer.key (l : Layer) : Key :=
  ⟨l.address, l.id, l.draggable⟩

namespace LayerManager

def keys (m : LayerManager) : List Key :=
  m.layers.map Layer.key

/-- Two managers differ only in what their layers look like. -/
structure SameKeys (m m' : LayerManager) : Prop where
  keys : m'.keys = m.keys
  layerStack : m'.layerStack = m.layerStack
  latestId : m'.latestId = m.latestId
  nextAddress : m'.nextAddress = m.nextAddress

variable {m m' m'' : LayerManager}

theorem SameKeys.refl (m : LayerManager) : SameKeys m m :=
  ⟨rfl, rfl, rfl, rfl⟩

theorem SameKeys.trans (first : SameKeys m m') (last : SameKeys m' m'') : SameKeys m m'' :=
  ⟨last.keys.trans first.keys, last.layerStack.trans first.layerStack,
    last.latestId.trans first.latestId, last.nextAddress.trans first.nextAddress⟩

theorem key_findLayer (m : LayerManager) (id : Nat) :
    (m.findLayer id).map Layer.key = m.keys.find? fun k => k.id = id := by
  rw [findLayer, keys, List.find?_map]
  rfl

theorem key_layerAt (m : LayerManager) (address : Nat) :
    (m.layerAt address).map Layer.key = m.keys.find? fun k => k.address = address := by
  rw [layerAt, keys, List.find?_map]
  rfl

/-- A layer is found by its key. -/
theorem findLayer_of_key {id : Nat} {key : Key} (found : m.keys.find? (fun k => k.id = id) = some key) :
    ∃ layer, m.findLayer id = some layer ∧ layer.key = key := by
  rw [← key_findLayer] at found
  exact Option.map_eq_some_iff.mp found

theorem layerAt_of_key {address : Nat} {key : Key}
    (found : m.keys.find? (fun k => k.address = address) = some key) :
    ∃ layer, m.layerAt address = some layer ∧ layer.key = key := by
  rw [← key_layerAt] at found
  exact Option.map_eq_some_iff.mp found

/-- In a list of keys with distinct ids, and likewise addresses, each is found. -/
theorem find_key {α β : Type} [DecidableEq β] {f : α → β} {keys : List α} (distinct : (keys.map f).Nodup)
    {key : α} (member : key ∈ keys) : keys.find? (fun k => f k = f key) = some key := by
  cases found : keys.find? (fun k => f k = f key) with
  | none =>
      have absent := List.find?_eq_none.mp found key member
      simp at absent
  | some other =>
      have same : f other = f key := by simpa using List.find?_some found
      rw [List.inj_on_of_nodup_map distinct (List.mem_of_find?_eq_some found) member same]

theorem sameKeys_draw (m : LayerManager) (area : Rectangle) : SameKeys m (m.draw area) :=
  ⟨rfl, rfl, rfl, rfl⟩

theorem sameKeys_drawLayer {id : Nat} {area : Rectangle} (drawn : m.drawLayer id area = some m') :
    SameKeys m m' := by
  rw [drawLayer] at drawn
  split at drawn
  · cases drawn
  · cases drawn
    exact ⟨rfl, rfl, rfl, rfl⟩

/-- Assigning to a layer without changing its key. -/
theorem sameKeys_set (distinct : (m.keys.map Key.address).Nodup) {layer layer' : Layer}
    (member : layer ∈ m.layers) (key : layer'.key = layer.key) : SameKeys m (m.set layer') := by
  refine ⟨?_, rfl, rfl, rfl⟩
  rw [keys, keys, set, List.map_map]
  apply List.map_congr_left
  intro other otherMember
  rw [Function.comp_apply]
  split
  · rename_i same
    have address : layer'.address = layer.address := congrArg Key.address key
    rw [key]
    have distinct' : (m.layers.map Layer.address).Nodup := by
      rw [keys, List.map_map] at distinct
      exact distinct
    exact congrArg _ (List.inj_on_of_nodup_map distinct' member otherMember
      (same.trans address).symm)
  · rfl

/-- Once `window_area` is set it stays so. -/
theorem drawRound_isSome (id : Nat) (layers : List Layer)
    (state : Rectangle × Option Rectangle × FrameBuffer)
    (found : state.2.1.isSome ∨ ∃ layer ∈ layers, layer.id = id) :
    (layers.foldl (drawRound id) state).2.1.isSome := by
  induction layers generalizing state with
  | nil =>
      rcases found with set | ⟨layer, member, -⟩
      · exact set
      · cases member
  | cons layer rest ih =>
      rcases state with ⟨area, drawn, buffer⟩
      apply ih
      rw [drawRound]
      by_cases here : layer.id = id
      · left
        rw [if_pos here]
        rfl
      · rw [if_neg here]
        rcases found with set | ⟨other, member, same⟩
        · left
          rcases Option.isSome_iff_exists.mp set with ⟨rectangle, rfl⟩
          rfl
        · right
          rcases List.mem_cons.mp member with first | later
          · exact absurd (first ▸ same) here
          · exact ⟨other, later, same⟩

/-- `Draw(id)` draws a layer that is shown. -/
theorem exists_drawLayer {id : Nat} (area : Rectangle) (shown : ∃ layer ∈ m.shown, layer.id = id) :
    ∃ m', m.drawLayer id area = some m' ∧ SameKeys m m' := by
  have isSome := drawRound_isSome id m.shown (area, none, m.backBuffer) (.inr shown)
  cases drawn : m.drawLayer id area with
  | some m' => exact ⟨m', rfl, sameKeys_drawLayer drawn⟩
  | none =>
      rw [drawLayer] at drawn
      split at drawn
      · rename_i equal
        rw [equal] at isSome
        cases isSome
      · cases drawn

/-- `NewLayer`. -/
theorem keys_newLayer (m : LayerManager) (window : Window) (draggable : Bool) (pos : Vector2D) :
    (m.newLayer window draggable pos).1.keys =
      m.keys ++ [⟨m.nextAddress, (m.latestId + 1) % 2 ^ 32, draggable⟩] := by
  rw [newLayer, keys, keys, List.map_append]
  rfl

/-- `RemoveLayer`. -/
theorem removeLayer_eq {id : Nat} {key : Key} (found : m.keys.find? (fun k => k.id = id) = some key) :
    (m.removeLayer id).keys = m.keys.filter (fun k => k.id ≠ id) ∧
      (m.removeLayer id).layerStack = m.layerStack.erase key.address ∧
      (m.removeLayer id).latestId = m.latestId ∧ (m.removeLayer id).nextAddress = m.nextAddress := by
  rcases findLayer_of_key found with ⟨layer, found', rfl⟩
  have hidden : m.hide id = { m with layerStack := m.layerStack.erase layer.address } := by
    rw [hide, found']
  rw [removeLayer, hidden]
  refine ⟨?_, rfl, rfl, rfl⟩
  rw [keys, keys, List.filter_map]
  rfl

/-! ## Moving in the stack -/

/-- The stack after `UpDown` with a height that is not negative. -/
def place (stack : List Nat) (address height : Nat) : List Nat :=
  let newPos := min height stack.length
  if address ∈ stack then
    (stack.erase address).insertIdx (if newPos = stack.length then newPos - 1 else newPos) address
  else
    stack.insertIdx newPos address

theorem upDown_eq {id : Nat} {key : Key} (found : m.keys.find? (fun k => k.id = id) = some key)
    (height : Nat) :
    m.upDown id height = some { m with layerStack := place m.layerStack key.address height } := by
  rcases findLayer_of_key found with ⟨layer, found', rfl⟩
  change _ = some { m with layerStack := place m.layerStack layer.address height }
  rw [upDown, if_neg (by omega), found', Int.toNat_natCast, place]
  by_cases member : layer.address ∈ m.layerStack
  · simp only [if_pos member]
  · simp only [if_neg member]

/-- `UpDown(id, 0)`. -/
theorem place_zero {stack : List Nat} (nonempty : stack ≠ []) (address : Nat) :
    place stack address 0 = address :: stack.erase address := by
  have length := List.length_pos_iff.mpr nonempty
  rw [place, Nat.zero_min]
  split
  · rw [if_neg length.ne]
    rfl
  · rename_i absent
    rw [List.erase_of_not_mem absent]
    rfl

/-- `UpDown` puts the layer somewhere and keeps the others. -/
theorem place_perm (stack : List Nat) (address height : Nat) :
    (place stack address height).Perm (address :: stack.erase address) := by
  have le := Nat.min_le_right height stack.length
  rw [place]
  by_cases member : address ∈ stack
  · rw [if_pos member]
    apply List.perm_insertIdx
    have length := List.length_erase_of_mem member
    have := List.length_pos_of_mem member
    split <;> omega
  · rw [if_neg member, List.erase_of_not_mem member]
    exact List.perm_insertIdx _ _ le

theorem mem_place {stack : List Nat} {address height other : Nat} :
    other ∈ place stack address height ↔ other = address ∨ other ∈ stack := by
  rw [(place_perm stack address height).mem_iff, List.mem_cons]
  by_cases same : other = address
  · simp [same]
  · simp [same, List.mem_erase_of_ne same]

theorem nodup_place {stack : List Nat} (nodup : stack.Nodup) (address height : Nat) :
    (place stack address height).Nodup := by
  rw [(place_perm stack address height).nodup_iff]
  exact List.nodup_cons.mpr ⟨nodup.not_mem_erase, nodup.erase address⟩

theorem insertIdx_append {α : Type} (left right : List α) (a : α) :
    (left ++ right).insertIdx left.length a = left ++ a :: right := by
  induction left with
  | nil => rfl
  | cons b left ih =>
      rw [List.length_cons, List.cons_append, List.insertIdx_succ_cons, ih, List.cons_append]

/-- A layer at the bottom is put just below the top. -/
theorem place_below_top (address mouse : Nat) (stack : List Nat) :
    place (address :: (stack ++ [mouse])) address stack.length = stack ++ [address, mouse] := by
  have inner : min stack.length (address :: (stack ++ [mouse])).length = stack.length := by
    simp
    omega
  have notLast : stack.length ≠ (address :: (stack ++ [mouse])).length := by
    simp
    omega
  rw [place, inner, if_pos List.mem_cons_self, if_neg notLast, List.erase_cons_head, insertIdx_append]

/-- The height of the topmost layer. -/
theorem getHeight_top {id mouse : Nat} (lower : List Nat) (stack : m.layerStack = lower ++ [mouse])
    (others : ∀ address ∈ lower, ∀ layer, m.layerAt address = some layer → layer.id ≠ id)
    {top : Layer} (found : m.layerAt mouse = some top) (topId : top.id = id) :
    m.getHeight id = lower.length := by
  have notLower : (lower.findIdx? fun address => (m.layerAt address).any fun l => l.id = id) = none := by
    rw [List.findIdx?_eq_none_iff]
    intro address member
    cases at' : m.layerAt address with
    | none => rfl
    | some layer => simpa using others address member layer at'
  have atTop : ([mouse].findIdx? fun address => (m.layerAt address).any fun l => l.id = id) = some 0 := by
    simp [found, topId]
  rw [getHeight, stack, List.findIdx?_append, notLower, atTop]
  simp

/-- The height is a matter of the keys. -/
theorem getHeight_congr (keys : m'.keys = m.keys) (stack : m'.layerStack = m.layerStack) (id : Nat) :
    m'.getHeight id = m.getHeight id := by
  have same (address : Nat) :
      (m'.layerAt address).any (fun l => l.id = id) = (m.layerAt address).any fun l => l.id = id := by
    have byKey (n : LayerManager) : (n.layerAt address).any (fun l => l.id = id) =
        (n.keys.find? fun k => k.address = address).any fun k => k.id = id := by
      rw [← key_layerAt]
      cases n.layerAt address <;> rfl
    rw [byKey, byKey, keys]
  rw [getHeight, getHeight, stack]
  simp only [same]

/-- A layer that is not at the bottom of the stack. -/
theorem exists_getHeight {id bottom : Nat} {rest : List Nat} (stack : m.layerStack = bottom :: rest)
    (other : ∀ layer, m.layerAt bottom = some layer → layer.id ≠ id) {address : Nat} {layer : Layer}
    (member : address ∈ rest) (found : m.layerAt address = some layer) (same : layer.id = id) :
    ∃ h : Nat, m.getHeight id = (h + 1 : Nat) := by
  have notBottom : (m.layerAt bottom).any (fun l => l.id = id) = false := by
    cases at' : m.layerAt bottom with
    | none => rfl
    | some l => simpa using other l at'
  have above : ∃ i, rest.findIdx? (fun a => (m.layerAt a).any fun l => l.id = id) = some i := by
    rw [← Option.isSome_iff_exists, List.findIdx?_isSome, List.any_eq_true]
    exact ⟨address, member, by simp [found, same]⟩
  rcases above with ⟨i, above⟩
  refine ⟨i, ?_⟩
  rw [getHeight, stack, List.findIdx?_cons, notBottom, above]
  rfl

end LayerManager

/-! ## An orderly desktop -/

/-- The layer exists and is in the stack. -/
def Desktop.Shown (d : Desktop) (id : Nat) : Prop :=
  ∃ key ∈ d.manager.keys, key.id = id ∧ key.address ∈ d.manager.layerStack

/-- Two desktops differ only in what their layers look like, and in the messages sent. -/
structure SameDesk (d d' : Desktop) : Prop where
  manager : LayerManager.SameKeys d.manager d'.manager
  activeLayer : d'.activeLayer = d.activeLayer
  mouseLayer : d'.mouseLayer = d.mouseLayer
  layerTaskMap : d'.layerTaskMap = d.layerTaskMap

theorem SameDesk.shown_iff {d d' : Desktop} (same : SameDesk d d') (id : Nat) :
    d'.Shown id ↔ d.Shown id := by
  rw [Desktop.Shown, same.manager.keys, same.manager.layerStack, Desktop.Shown]

/-- Layers are told apart by their ids as well as by their addresses; the stack points to
layers that exist, and the active layer is in it. -/
structure Orderly (d : Desktop) : Prop where
  nodup : d.manager.layerStack.Nodup
  owned : ∀ address ∈ d.manager.layerStack, ∃ key ∈ d.manager.keys, key.address = address
  active : d.activeLayer = 0 ∨ d.Shown d.activeLayer
  ids : (d.manager.keys.map Key.id).Nodup
  addresses : (d.manager.keys.map Key.address).Nodup
  id_range : ∀ key ∈ d.manager.keys, 0 < key.id ∧ key.id ≤ d.manager.latestId
  address_lt : ∀ key ∈ d.manager.keys, key.address < d.manager.nextAddress

theorem sendWindowActiveMessage_eq (d : Desktop) (layerId : Nat) (activate : Int) :
    ∃ messages, d.sendWindowActiveMessage layerId activate = { d with messages } := by
  rw [Desktop.sendWindowActiveMessage]
  split
  · exact ⟨d.messages, rfl⟩
  · exact ⟨_, rfl⟩

namespace Orderly

open LayerManager

variable {d d' : Desktop}

/-- Layers may change their looks. -/
theorem sameDesk (orderly : Orderly d) (same : SameDesk d d') : Orderly d' := by
  rcases orderly with ⟨nodup, owned, active, ids, addresses, id_range, address_lt⟩
  rw [← same.shown_iff] at active
  rw [← same.manager.layerStack] at nodup owned
  rw [← same.manager.keys] at owned ids addresses id_range address_lt
  rw [← same.manager.latestId] at id_range
  rw [← same.manager.nextAddress] at address_lt
  rw [← same.activeLayer] at active
  exact ⟨nodup, owned, active, ids, addresses, id_range, address_lt⟩

/-- A layer and its key. -/
theorem findLayer (orderly : Orderly d) {key : Key} (member : key ∈ d.manager.keys) :
    ∃ layer, d.manager.findLayer key.id = some layer ∧ layer.key = key :=
  findLayer_of_key (find_key orderly.ids member)

theorem layerAt (orderly : Orderly d) {key : Key} (member : key ∈ d.manager.keys) :
    ∃ layer, d.manager.layerAt key.address = some layer ∧ layer.key = key :=
  layerAt_of_key (find_key orderly.addresses member)

/-- A layer in the stack is drawn. -/
theorem exists_shown (orderly : Orderly d) {id : Nat} (shown : d.Shown id) :
    ∃ layer ∈ d.manager.shown, layer.id = id := by
  rcases shown with ⟨key, member, rfl, inStack⟩
  rcases orderly.layerAt member with ⟨layer, found, same⟩
  exact ⟨layer, List.mem_filterMap.mpr ⟨_, inStack, found⟩, congrArg Key.id same⟩

/-- `Draw(id, area)` of a layer that is shown, after layers have changed their looks. -/
theorem drawLayer (orderly : Orderly d) {id : Nat} (shown : d.Shown id) {m : LayerManager}
    (same : SameKeys d.manager m) (area : Rectangle) :
    ∃ manager, m.drawLayer id area = some manager ∧ SameKeys d.manager manager := by
  have desk : SameDesk d { d with manager := m } := ⟨same, rfl, rfl, rfl⟩
  rcases exists_drawLayer area ((orderly.sameDesk desk).exists_shown ((desk.shown_iff id).mpr shown))
    with ⟨manager, drawn, same'⟩
  exact ⟨manager, drawn, same.trans same'⟩

/-- A layer that is shown changes its window and is drawn. -/
theorem repaint (orderly : Orderly d) {id : Nat} (shown : d.Shown id) {layer : Layer}
    (found : d.manager.findLayer id = some layer) (window : Window) :
    ∃ manager, (d.manager.set { layer with window }).drawWindow id = some manager ∧
      SameKeys d.manager manager := by
  have set : SameKeys d.manager (d.manager.set { layer with window }) :=
    sameKeys_set orderly.addresses (List.mem_of_find?_eq_some found) rfl
  exact orderly.drawLayer shown set ⟨⟨0, 0⟩, ⟨-1, -1⟩⟩

/-- The window that was active no longer is. -/
theorem deactivate (orderly : Orderly d) :
    ∃ d', d.deactivate = some d' ∧ SameDesk d d' := by
  rw [Desktop.deactivate]
  by_cases isActive : 0 < d.activeLayer
  · rw [if_pos isActive]
    have shown := orderly.active.resolve_left isActive.ne'
    have exists' := shown
    rcases exists' with ⟨key, member, id, -⟩
    rcases orderly.findLayer member with ⟨layer, found, -⟩
    rw [id] at found
    rcases orderly.repaint shown found layer.window.deactivate with ⟨manager, drawn, same⟩
    rcases sendWindowActiveMessage_eq { d with manager } d.activeLayer 0 with ⟨messages, sent⟩
    refine ⟨{ d with manager, messages }, ?_, same, rfl, rfl, rfl⟩
    rw [found]
    change Option.bind ((d.manager.set _).drawWindow d.activeLayer) _ = _
    rw [drawn]
    exact congrArg some sent
  · rw [if_neg isActive]
    exact ⟨d, rfl, ⟨rfl, rfl, rfl, rfl⟩, rfl, rfl, rfl⟩

/-- `Activate(0)`. -/
theorem activate_zero (orderly : Orderly d) :
    ∃ d', d.activate 0 = some d' ∧ SameDesk { d with activeLayer := 0 } d' := by
  rw [Desktop.activate]
  by_cases already : d.activeLayer = 0
  · rw [if_pos already]
    exact ⟨d, rfl, ⟨rfl, rfl, rfl, rfl⟩, already, rfl, rfl⟩
  · rw [if_neg already]
    rcases orderly.deactivate with ⟨d', deactivated, same⟩
    refine ⟨{ d' with activeLayer := 0 }, ?_, same.manager, rfl, same.mouseLayer, same.layerTaskMap⟩
    rw [deactivated]
    rfl

/-- What `Activate` does to the stack: the layer goes to the bottom, and from there to
one below the height that the cursor then has. -/
theorem raise_of_height (addresses : (d.manager.keys.map Key.address).Nodup) {id : Nat} {key : Key}
    (found : d.manager.keys.find? (fun k => k.id = id) = some key) (pos : 0 < id) {h : Nat}
    (height : ∀ m : LayerManager, m.keys = d.manager.keys →
      m.layerStack = place d.manager.layerStack key.address 0 →
      m.getHeight d.mouseLayer = (h + 1 : Nat))
    (shown : key.address ∈ place (place d.manager.layerStack key.address 0) key.address h) :
    ∃ d', d.raise id = some d' ∧ d'.manager.keys = d.manager.keys ∧
      d'.manager.layerStack = place (place d.manager.layerStack key.address 0) key.address h ∧
      d'.manager.latestId = d.manager.latestId ∧ d'.manager.nextAddress = d.manager.nextAddress ∧
      d'.activeLayer = id ∧ d'.mouseLayer = d.mouseLayer ∧ d'.layerTaskMap = d.layerTaskMap := by
  rcases findLayer_of_key found with ⟨layer, foundLayer, layerKey⟩
  have keyId : key.id = id := by simpa using List.find?_some found
  have atAddress : d.manager.keys.find? (fun k => k.address = key.address) = some key :=
    find_key addresses (List.mem_of_find?_eq_some found)
  -- the manager whose windows look as they will
  generalize m₀Eq : d.manager.set { layer with window := layer.window.activate } = m₀
  have same₀ : SameKeys d.manager m₀ :=
    m₀Eq ▸ sameKeys_set addresses (List.mem_of_find?_eq_some foundLayer) rfl
  -- the layer goes to the bottom
  have up₁ := upDown_eq (m := m₀) (same₀.keys.symm ▸ found) 0
  rw [same₀.layerStack] at up₁
  generalize m₁Eq : { m₀ with layerStack := place d.manager.layerStack key.address 0 } = m₁ at up₁
  have keys₁ : m₁.keys = d.manager.keys := m₁Eq ▸ same₀.keys
  have stack₁ : m₁.layerStack = place d.manager.layerStack key.address 0 := m₁Eq ▸ rfl
  -- from there to below the cursor
  have up₂ := upDown_eq (m := m₁) (keys₁.symm ▸ found) h
  have below : m₁.getHeight d.mouseLayer - 1 = h := by
    rw [height m₁ keys₁ stack₁]
    omega
  rw [stack₁, ← below] at up₂
  generalize m₂Eq : { m₁ with
    layerStack := place (place d.manager.layerStack key.address 0) key.address h } = m₂ at up₂
  have keys₂ : m₂.keys = d.manager.keys := m₂Eq ▸ keys₁
  have stack₂ : m₂.layerStack = place (place d.manager.layerStack key.address 0) key.address h :=
    m₂Eq ▸ rfl
  -- and is drawn there
  rcases layerAt_of_key (m := m₂) (keys₂.symm ▸ atAddress) with ⟨layer₂, found₂, key₂⟩
  have isShown : ∃ layer ∈ m₂.shown, layer.id = id :=
    ⟨layer₂, List.mem_filterMap.mpr ⟨key.address, stack₂ ▸ shown, found₂⟩,
      (congrArg Key.id key₂).trans keyId⟩
  rcases exists_drawLayer ⟨⟨0, 0⟩, ⟨-1, -1⟩⟩ isShown with ⟨m₃, drawn, same₃⟩
  rcases sendWindowActiveMessage_eq { d with activeLayer := id, manager := m₃ } id 1 with
    ⟨messages, sent⟩
  refine ⟨{ d with activeLayer := id, manager := m₃, messages }, ?_, same₃.keys.trans keys₂,
    same₃.layerStack.trans stack₂, ?_, ?_, rfl, rfl, rfl⟩
  · rw [Desktop.raise]
    dsimp only
    rw [if_pos pos, foundLayer]
    change Option.bind ((d.manager.set _).upDown id 0) _ = _
    rw [m₀Eq, show m₀.upDown id 0 = some m₁ from up₁]
    change Option.bind (m₁.upDown id (m₁.getHeight d.mouseLayer - 1)) _ = _
    rw [up₂]
    change Option.bind (m₂.drawWindow id) _ = _
    rw [show m₂.drawWindow id = some m₃ from drawn]
    exact congrArg some sent
  · rw [same₃.latestId, ← m₂Eq, ← m₁Eq]
    exact same₀.latestId
  · rw [same₃.nextAddress, ← m₂Eq, ← m₁Eq]
    exact same₀.nextAddress

/-- `CloseLayer` of a layer that exists. -/
theorem closeLayer (orderly : Orderly d) {key : Key} (member : key ∈ d.manager.keys) :
    ∃ d', d.closeLayer key.id = some (d', .success) ∧
      d'.manager.keys = d.manager.keys.filter (fun k => k.id ≠ key.id) ∧
      d'.manager.layerStack = d.manager.layerStack.erase key.address ∧
      d'.manager.latestId = d.manager.latestId ∧ d'.manager.nextAddress = d.manager.nextAddress ∧
      d'.activeLayer = 0 ∧ d'.mouseLayer = d.mouseLayer ∧
      d'.layerTaskMap = Function.update d.layerTaskMap key.id none := by
  rcases orderly.findLayer member with ⟨layer, found, -⟩
  rcases orderly.activate_zero with ⟨d₁, activated, same⟩
  have keyFound : d₁.manager.keys.find? (fun k => k.id = key.id) = some key :=
    same.manager.keys.symm ▸ find_key orderly.ids member
  rcases removeLayer_eq keyFound with ⟨keys, layerStack, latestId, nextAddress⟩
  refine ⟨{ d₁ with
      manager := (d₁.manager.removeLayer key.id).draw ⟨layer.pos, layer.window.size⟩
      layerTaskMap := Function.update d₁.layerTaskMap key.id none }, ?_,
    keys.trans (by rw [same.manager.keys]), layerStack.trans (by rw [same.manager.layerStack]),
    latestId.trans same.manager.latestId, nextAddress.trans same.manager.nextAddress,
    same.activeLayer, same.mouseLayer, ?_⟩
  · rw [Desktop.closeLayer, found]
    change Option.bind (d.activate 0) _ = _
    rw [activated]
    rfl
  · change Function.update d₁.layerTaskMap key.id none = _
    rw [same.layerTaskMap]

/-! ## What keeps a desktop orderly -/

/-- The stack may be put in another order, and another layer that exists may become active. -/
theorem reorder (orderly : Orderly d) (keys : d'.manager.keys = d.manager.keys)
    (latestId : d'.manager.latestId = d.manager.latestId)
    (nextAddress : d'.manager.nextAddress = d.manager.nextAddress)
    (nodup : d'.manager.layerStack.Nodup) {key : Key} (member : key ∈ d.manager.keys)
    (stack : ∀ a, a ∈ d'.manager.layerStack ↔ a = key.address ∨ a ∈ d.manager.layerStack)
    (active : d'.activeLayer = key.id ∨ d'.activeLayer = d.activeLayer) : Orderly d' where
  nodup := nodup
  owned := by
    intro a inStack
    rw [keys]
    rcases (stack a).mp inStack with rfl | old
    · exact ⟨key, member, rfl⟩
    · exact orderly.owned a old
  active := by
    rcases active with isKey | same
    · rw [isKey]
      exact .inr ⟨key, keys ▸ member, rfl, (stack _).mpr (.inl rfl)⟩
    · rw [same]
      rcases orderly.active with zero | ⟨key', member', id, inStack⟩
      · exact .inl zero
      · exact .inr ⟨key', keys ▸ member', id, (stack _).mpr (.inr inStack)⟩
  ids := keys.symm ▸ orderly.ids
  addresses := keys.symm ▸ orderly.addresses
  id_range := by
    rw [keys, latestId]
    exact orderly.id_range
  address_lt := by
    rw [keys, nextAddress]
    exact orderly.address_lt

/-- A new layer is not shown yet. -/
theorem newLayer (orderly : Orderly d) (room : d.manager.latestId + 1 < 2 ^ 32) (window : Window)
    (draggable : Bool) (pos : Vector2D) :
    Orderly { d with manager := (d.manager.newLayer window draggable pos).1 } := by
  have keys : (d.manager.newLayer window draggable pos).1.keys =
      d.manager.keys ++ [⟨d.manager.nextAddress, d.manager.latestId + 1, draggable⟩] := by
    rw [keys_newLayer, Nat.mod_eq_of_lt room]
  have latestId : (d.manager.newLayer window draggable pos).1.latestId = d.manager.latestId + 1 :=
    Nat.mod_eq_of_lt room
  have old {key : Key} (member : key ∈ d.manager.keys) :
      key ∈ (d.manager.newLayer window draggable pos).1.keys := keys ▸ List.mem_append_left _ member
  refine ⟨orderly.nodup, ?_, ?_, ?_, ?_, ?_, ?_⟩
  · intro address inStack
    rcases orderly.owned address inStack with ⟨key, member, same⟩
    exact ⟨key, old member, same⟩
  · rcases orderly.active with zero | ⟨key, member, rest⟩
    · exact .inl zero
    · exact .inr ⟨key, old member, rest⟩
  · change ((d.manager.newLayer window draggable pos).1.keys.map Key.id).Nodup
    rw [keys, List.map_append, List.nodup_append_comm]
    refine List.nodup_cons.mpr ⟨?_, orderly.ids⟩
    intro taken
    rcases List.mem_map.mp taken with ⟨key, member, same⟩
    exact absurd (same ▸ (orderly.id_range key member).2) (Nat.not_succ_le_self _)
  · change ((d.manager.newLayer window draggable pos).1.keys.map Key.address).Nodup
    rw [keys, List.map_append, List.nodup_append_comm]
    refine List.nodup_cons.mpr ⟨?_, orderly.addresses⟩
    intro taken
    rcases List.mem_map.mp taken with ⟨key, member, same⟩
    exact absurd (same ▸ orderly.address_lt key member) (Nat.lt_irrefl _)
  · intro key member
    change key ∈ (d.manager.newLayer window draggable pos).1.keys at member
    change 0 < key.id ∧ key.id ≤ (d.manager.newLayer window draggable pos).1.latestId
    rw [keys] at member
    rw [latestId]
    rcases List.mem_append.mp member with before | new
    · have := orderly.id_range key before
      omega
    · rw [List.mem_singleton.mp new]
      exact ⟨Nat.succ_pos _, Nat.le_refl _⟩
  · intro key member
    change key ∈ (d.manager.newLayer window draggable pos).1.keys at member
    change key.address < d.manager.nextAddress + 1
    rw [keys] at member
    rcases List.mem_append.mp member with before | new
    · exact Nat.lt_succ_of_lt (orderly.address_lt key before)
    · rw [List.mem_singleton.mp new]
      exact Nat.lt_succ_self _

/-- `CloseLayer` keeps the other layers. -/
theorem of_closeLayer (orderly : Orderly d) {key : Key} (member : key ∈ d.manager.keys)
    (keys : d'.manager.keys = d.manager.keys.filter fun k => k.id ≠ key.id)
    (stack : d'.manager.layerStack = d.manager.layerStack.erase key.address)
    (latestId : d'.manager.latestId = d.manager.latestId)
    (nextAddress : d'.manager.nextAddress = d.manager.nextAddress) (active : d'.activeLayer = 0) :
    Orderly d' ∧ ∀ id, id ≠ key.id → d.Shown id → d'.Shown id := by
  have old {key' : Key} (member' : key' ∈ d'.manager.keys) : key' ∈ d.manager.keys :=
    List.mem_of_mem_filter (keys ▸ member')
  have kept {key' : Key} (member' : key' ∈ d.manager.keys) (other : key'.id ≠ key.id) :
      key' ∈ d'.manager.keys := by
    rw [keys]
    exact List.mem_filter.mpr ⟨member', by simpa using other⟩
  refine ⟨⟨?_, ?_, .inl active, ?_, ?_, ?_, ?_⟩, ?_⟩
  · rw [stack]
    exact orderly.nodup.erase _
  · intro address inStack
    rw [stack] at inStack
    rcases orderly.owned address (List.mem_of_mem_erase inStack) with ⟨key', member', same⟩
    refine ⟨key', kept member' ?_, same⟩
    intro equal
    rw [← same, List.inj_on_of_nodup_map orderly.ids member' member equal] at inStack
    exact orderly.nodup.not_mem_erase inStack
  · rw [keys]
    exact orderly.ids.sublist (List.filter_sublist.map _)
  · rw [keys]
    exact orderly.addresses.sublist (List.filter_sublist.map _)
  · intro key' member'
    rw [latestId]
    exact orderly.id_range key' (old member')
  · intro key' member'
    rw [nextAddress]
    exact orderly.address_lt key' (old member')
  · rintro id other ⟨key', member', rfl, inStack⟩
    refine ⟨key', kept member' other, rfl, ?_⟩
    rw [stack]
    refine (List.mem_erase_of_ne ?_).mpr inStack
    intro same
    exact other (congrArg Key.id (List.inj_on_of_nodup_map orderly.addresses member' member same))

/-- `Activate(id)` of a layer that exists, other than the cursor. -/
theorem activate (orderly : Orderly d) (cursor : d.Shown d.mouseLayer) {key : Key}
    (member : key ∈ d.manager.keys) (notMouse : key.id ≠ d.mouseLayer) :
    ∃ d', d.activate key.id = some d' ∧ d'.manager.keys = d.manager.keys ∧
      (∀ a, a ∈ d'.manager.layerStack ↔ a = key.address ∨ a ∈ d.manager.layerStack) ∧
      Orderly d' ∧ d'.manager.latestId = d.manager.latestId ∧ d'.activeLayer = key.id ∧
      d'.mouseLayer = d.mouseLayer ∧ d'.layerTaskMap = d.layerTaskMap := by
  have positive := (orderly.id_range key member).1
  rw [Desktop.activate]
  by_cases already : d.activeLayer = key.id
  · rw [if_pos already]
    refine ⟨d, rfl, rfl, ?_, orderly, rfl, already, rfl, rfl⟩
    intro a
    rcases orderly.active.resolve_left (by omega) with ⟨key', member', id, inStack⟩
    rw [List.inj_on_of_nodup_map orderly.ids member' member (id.trans already)] at inStack
    constructor
    · exact .inr
    · rintro (rfl | old)
      · exact inStack
      · exact old
  · rw [if_neg already]
    rcases orderly.deactivate with ⟨d₁, deactivated, same⟩
    have orderly₁ := orderly.sameDesk same
    have member₁ : key ∈ d₁.manager.keys := same.manager.keys.symm ▸ member
    have cursor₁ : d₁.Shown d₁.mouseLayer := by
      rw [same.mouseLayer, same.shown_iff]
      exact cursor
    have notMouse₁ : key.id ≠ d₁.mouseLayer := same.mouseLayer.symm ▸ notMouse
    rcases cursor₁ with ⟨mouse, mouseMember, mouseId, inStack⟩
    have ne : mouse.address ≠ key.address := by
      intro equal
      rw [List.inj_on_of_nodup_map orderly₁.addresses mouseMember member₁ equal] at mouseId
      exact notMouse₁ mouseId
    -- once the layer is at the bottom, the cursor is above it
    have bottom : place d₁.manager.layerStack key.address 0 =
        key.address :: d₁.manager.layerStack.erase key.address :=
      place_zero (List.ne_nil_of_mem inStack) _
    generalize lowered : { d₁.manager with
      layerStack := place d₁.manager.layerStack key.address 0 } = m₀
    have keys₀ : m₀.keys = d₁.manager.keys := lowered ▸ rfl
    have stack₀ : m₀.layerStack = place d₁.manager.layerStack key.address 0 := lowered ▸ rfl
    have height : ∃ h : Nat, m₀.getHeight d₁.mouseLayer = (h + 1 : Nat) := by
      have atMouse : m₀.keys.find? (fun k => k.address = mouse.address) = some mouse :=
        keys₀.symm ▸ find_key orderly₁.addresses mouseMember
      rcases layerAt_of_key atMouse with ⟨layer, found, layerKey⟩
      refine exists_getHeight (stack₀.trans bottom) ?_ ((List.mem_erase_of_ne ne).mpr inStack) found
        ((congrArg Key.id layerKey).trans mouseId)
      intro other foundOther
      have atKey : m₀.keys.find? (fun k => k.address = key.address) = some key :=
        keys₀.symm ▸ find_key orderly₁.addresses member₁
      rw [← key_layerAt, foundOther] at atKey
      rw [show other.id = key.id from congrArg Key.id (Option.some.inj atKey)]
      exact notMouse₁
    rcases height with ⟨h, height⟩
    rcases raise_of_height (h := h) orderly₁.addresses (find_key orderly₁.ids member₁) positive
      (fun m keys stack => (getHeight_congr (keys.trans keys₀.symm) (stack.trans stack₀.symm) _).trans
        height) (mem_place.mpr (.inl rfl)) with
      ⟨d', raised, keys, stack, latestId, nextAddress, active, mouseLayer, layerTaskMap⟩
    have members : ∀ a, a ∈ d'.manager.layerStack ↔ a = key.address ∨ a ∈ d₁.manager.layerStack := by
      intro a
      rw [stack, mem_place, mem_place]
      tauto
    refine ⟨d', ?_, keys.trans same.manager.keys, ?_, ?_, latestId.trans same.manager.latestId,
      active, mouseLayer.trans same.mouseLayer, layerTaskMap.trans same.layerTaskMap⟩
    · rw [deactivated]
      exact raised
    · rw [← same.manager.layerStack]
      exact members
    · refine orderly₁.reorder keys latestId nextAddress ?_ member₁ members (.inl active)
      rw [stack]
      exact nodup_place (nodup_place orderly₁.nodup _ _) _ _

end Orderly

end Mikanos.Screen
