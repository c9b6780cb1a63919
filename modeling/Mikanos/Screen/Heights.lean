import Mikanos.Screen.Stacking

/-!
# Heights of layers

`UpDown` computes where a layer goes before the layer is taken out of the stack.  What was
above it moves down in between, and only the end of the stack needs a correction: a layer
that is shown can get no higher than the topmost one is.
-/

namespace Mikanos.Screen

namespace LayerManager

/-- The stack points to layers that exist, to each at most once, and layers are told apart by
their addresses and by their ids. -/
structure Sound (m : LayerManager) : Prop where
  nodup : m.layerStack.Nodup
  owned : ∀ address ∈ m.layerStack, ∃ key ∈ m.keys, key.address = address
  ids : (m.keys.map Key.id).Nodup
  addresses : (m.keys.map Key.address).Nodup

/-- The height that a layer gets. -/
def newIndex (m : LayerManager) (layer : Layer) (newHeight : Nat) : Nat :=
  if layer.address ∈ m.layerStack then min newHeight (m.layerStack.length - 1)
  else min newHeight m.layerStack.length

/-- The layers below and above a layer, from the bottom to the top. -/
def others (m : LayerManager) (layer : Layer) : List Nat :=
  m.layerStack.filter (· ≠ layer.address)

/-- The layer has been moved to the height `h`, and all other layers are as before. -/
structure MovedTo (m m' : LayerManager) (layer : Layer) (h : Nat) : Prop where
  onlyStack : m' = { m with layerStack := m'.layerStack }
  nodup : m'.layerStack.Nodup
  size : m'.layerStack.length =
    if layer.address ∈ m.layerStack then m.layerStack.length else m.layerStack.length + 1
  at_height : m'.layerStack[h]? = some layer.address
  others : m'.others layer = m.others layer
  getHeight : m'.getHeight layer.id = h

/-- The layer has been taken out of the stack. -/
structure Removed (m m' : LayerManager) (layer : Layer) : Prop where
  onlyStack : m' = { m with layerStack := m'.layerStack }
  others : m'.layerStack = m.others layer

variable {m m' : LayerManager} {layer : Layer}

/-! ## Positions in the stack -/

theorem length_place (stack : List Nat) (address height : Nat) :
    (place stack address height).length =
      if address ∈ stack then stack.length else stack.length + 1 := by
  rw [(place_perm stack address height).length_eq, List.length_cons]
  by_cases member : address ∈ stack
  · have positive := List.length_pos_of_mem member
    rw [if_pos member, List.length_erase_of_mem member]
    omega
  · rw [if_neg member, List.erase_of_not_mem member]

theorem filter_insertIdx (stack : List Nat) (address i : Nat) :
    (stack.insertIdx i address).filter (· ≠ address) = stack.filter (· ≠ address) := by
  induction stack generalizing i with
  | nil =>
      cases i with
      | zero => simp
      | succ i => rfl
  | cons other stack ih =>
      cases i with
      | zero => simp
      | succ i =>
          rw [List.insertIdx_succ_cons, List.filter_cons, List.filter_cons, ih]

theorem filter_erase_self (stack : List Nat) (address : Nat) :
    (stack.erase address).filter (· ≠ address) = stack.filter (· ≠ address) := by
  induction stack with
  | nil => rfl
  | cons other stack ih =>
      by_cases same : other = address
      · subst same
        simp
      · rw [List.erase_cons_tail (by simpa using same), List.filter_cons, List.filter_cons, ih]

/-- The order of the others does not change. -/
theorem filter_place (stack : List Nat) (address height : Nat) :
    (place stack address height).filter (· ≠ address) = stack.filter (· ≠ address) := by
  rw [place]
  split
  · rw [filter_insertIdx, filter_erase_self]
  · rw [filter_insertIdx]

/-- The layer is where it is put. -/
theorem getElem?_place (stack : List Nat) (address height : Nat) :
    (place stack address height)[if address ∈ stack then min height (stack.length - 1)
      else min height stack.length]? = some address := by
  rw [place]
  by_cases member : address ∈ stack
  · have positive := List.length_pos_of_mem member
    have length := List.length_erase_of_mem member
    have index : (if min height stack.length = stack.length then min height stack.length - 1
        else min height stack.length) = min height (stack.length - 1) := by
      split <;> omega
    simp only [if_pos member, index, List.getElem?_insertIdx_self]
    rw [if_pos (by omega)]
  · simp only [if_neg member, List.getElem?_insertIdx_self]
    rw [if_pos (Nat.min_le_right _ _)]

/-! ## The height that is found again -/

/-- A pointer in the stack leads to a layer with a certain id only if it is the pointer to
the layer with this id. -/
theorem Sound.pointsTo_iff (sound : m.Sound) {id : Nat} (found : m.findLayer id = some layer)
    {address : Nat} (owned : ∃ key ∈ m.keys, key.address = address) :
    (m.layerAt address).any (fun l => l.id = id) = true ↔ address = layer.address := by
  rcases owned with ⟨key, member, rfl⟩
  rcases layerAt_of_key (find_key sound.addresses member) with ⟨other, at', rfl⟩
  have isLayer : layer.key ∈ m.keys := List.mem_map_of_mem (List.mem_of_find?_eq_some found)
  have layerId : layer.id = id := by simpa using List.find?_some found
  have byKey : (m.layerAt other.key.address).any (fun l => l.id = id) = decide (other.id = id) := by
    rw [at', Option.any_some]
  rw [byKey, decide_eq_true_eq, ← layerId]
  constructor
  · intro same
    exact congrArg Key.address (List.inj_on_of_nodup_map sound.ids member isLayer same)
  · intro same
    exact congrArg Key.id (List.inj_on_of_nodup_map sound.addresses member isLayer same)

theorem owned_of_found {id : Nat} (found : m.findLayer id = some layer) :
    ∃ key ∈ m.keys, key.address = layer.address :=
  ⟨layer.key, List.mem_map_of_mem (List.mem_of_find?_eq_some found), rfl⟩

/-- `GetHeight` returns where the pointer to the layer is. -/
theorem Sound.getHeight_eq (sound : m.Sound) {id : Nat} (found : m.findLayer id = some layer) {h : Nat}
    (here : m.layerStack[h]? = some layer.address) : m.getHeight id = h := by
  rcases List.getElem?_eq_some_iff.mp here with ⟨inStack, here⟩
  have first : (m.layerStack.findIdx? fun address => (m.layerAt address).any fun l => l.id = id) =
      some h := by
    rw [List.findIdx?_eq_some_iff_getElem]
    refine ⟨inStack, ?_, ?_⟩
    · rw [sound.pointsTo_iff found (sound.owned _ (List.getElem_mem inStack))]
      exact here
    · intro j before
      rw [sound.pointsTo_iff found (sound.owned _ (List.getElem_mem (before.trans inStack))), ← here]
      exact fun same => before.ne ((sound.nodup.getElem_inj_iff).mp same)
  rw [getHeight, first]

/-! ## Moving a layer -/

/-- A layer that is put into the stack. -/
theorem Sound.place (sound : m.Sound) {id : Nat} (found : m.findLayer id = some layer) (height : Nat) :
    Sound { m with layerStack := LayerManager.place m.layerStack layer.address height } where
  nodup := nodup_place sound.nodup _ _
  owned := by
    intro address member
    rcases mem_place.mp member with rfl | old
    · exact owned_of_found found
    · exact sound.owned address old
  ids := sound.ids
  addresses := sound.addresses

/-- `UpDown` is a rotation: a layer that is shown is moved to its new height, a layer that is
hidden is put there, and a negative height takes the layer out of the stack. -/
theorem upDown_rotates (sound : m.Sound) {id : Nat} (found : m.findLayer id = some layer) :
    (∀ newHeight : Nat, ∃ m', m.upDown id newHeight = some m' ∧
      MovedTo m m' layer (m.newIndex layer newHeight)) ∧
    ∀ newHeight < 0, ∃ m', m.upDown id newHeight = some m' ∧ Removed m m' layer := by
  have isKey : m.keys.find? (fun k => k.id = id) = some layer.key := by
    rw [← key_findLayer, found, Option.map_some]
  have layerId : layer.id = id := by simpa using List.find?_some found
  constructor
  · intro newHeight
    have here := getElem?_place m.layerStack layer.address newHeight
    refine ⟨_, upDown_eq isKey newHeight, rfl, nodup_place sound.nodup _ _, length_place .., here,
      filter_place .., ?_⟩
    rw [layerId]
    exact (sound.place found newHeight).getHeight_eq found here
  · intro newHeight negative
    refine ⟨{ m with layerStack := m.layerStack.erase layer.address }, ?_, rfl, ?_⟩
    · rw [upDown, if_pos negative, hide, found]
    · refine (sound.nodup.erase_eq_filter layer.address).trans (List.filter_congr fun other _ => ?_)
      exact (decide_not ..).symm

/-- The layer manager of an orderly desktop. -/
theorem sound_of_orderly {d : Desktop} (orderly : Orderly d) : d.manager.Sound :=
  ⟨orderly.nodup, orderly.owned, orderly.ids, orderly.addresses⟩

/-- The main window of the kernel. -/
def mainLayer : Layer :=
  ⟨2, 3, ⟨300, 100⟩, Desktop.plainWindow, true⟩

theorem upDown_rotates_mainLayer :
    let m := (Desktop.initial Desktop.plainWindows).manager
    (∀ newHeight : Nat, ∃ m', m.upDown 3 newHeight = some m' ∧
      MovedTo m m' mainLayer (m.newIndex mainLayer newHeight)) ∧
    ∀ newHeight < 0, ∃ m', m.upDown 3 newHeight = some m' ∧ Removed m m' mainLayer :=
  upDown_rotates (sound_of_orderly (Desktop.inv_initial _).orderly) rfl

end LayerManager

end Mikanos.Screen
