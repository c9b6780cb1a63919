import Mikanos.Screen.LiveLayers
import Mikanos.Screen.Repainting

/-!
# What the screen shows

A desktop is drawn once, and from then on only repainted where something changes.  Pixels are stale
from when a task writes to them in its window until they are drawn again; all others show the
topmost layer there, over all runs.  What is found by its position is therefore what is seen there.
-/

namespace Mikanos.Screen

open Painting Transition LayerManager

/-- The part of the screen that a layer with this id takes up. -/
def Desktop.areas (d : Desktop) (id : Nat) : List Rectangle :=
  ((d.manager.findLayer id).map Layer.area).toList

/-- The pixel is in one of the rectangles. -/
def Among (areas : List Rectangle) (p : Int × Int) : Prop :=
  ∃ area ∈ areas, area.Contains p.1 p.2

/-- All pixels that were right still are, and those in the rectangles are right now. -/
structure Redrawn (d : Desktop) (areas : List Rectangle) (d' : Desktop) : Prop where
  size : d'.manager.screen.size = d.manager.screen.size
  shows : ∀ p, d.manager.OnScreen p → Among areas p ∨ d.manager.ShowsAt p → d'.manager.ShowsAt p

namespace Redrawn

variable {d d' d'' : Desktop} {areas areas' : List Rectangle}

theorem refl (d : Desktop) : Redrawn d [] d where
  size := rfl
  shows := by
    rintro p - (⟨area, none, -⟩ | shows)
    · cases none
    · exact shows

theorem onScreen_iff (redrawn : Redrawn d areas d') (p : Int × Int) :
    d'.manager.OnScreen p ↔ d.manager.OnScreen p := by
  rw [OnScreen, OnScreen, FrameBuffer.outline, FrameBuffer.outline, redrawn.size]

theorem trans (first : Redrawn d areas d') (last : Redrawn d' areas' d'') :
    Redrawn d (areas ++ areas') d'' where
  size := last.size.trans first.size
  shows := by
    intro p on case
    refine last.shows p ((first.onScreen_iff p).mpr on) ?_
    rcases case with ⟨area, member, inside⟩ | shows
    · rcases List.mem_append.mp member with early | late
      · exact .inr (first.shows p on (.inl ⟨area, early, inside⟩))
      · exact .inl ⟨area, late, inside⟩
    · exact .inr (first.shows p on (.inr shows))

end Redrawn

/-! ## Activating windows -/

namespace LayerManager

variable {m m' : LayerManager}

theorem SameKeys.symm (same : SameKeys m m') : SameKeys m' m :=
  ⟨same.keys.symm, same.layerStack.symm, same.latestId.symm, same.nextAddress.symm⟩

/-- `UpDown` changes only the stack. -/
theorem upDown_only_stack {id : Nat} {height : Int} (moved : m.upDown id height = some m') :
    ∃ layerStack, m' = { m with layerStack } := by
  rw [upDown] at moved
  split at moved
  · cases moved
    rw [hide]
    split
    · exact ⟨_, rfl⟩
    · exact ⟨_, rfl⟩
  · dsimp only at moved
    split at moved
    · cases moved
    · split at moved <;> cases moved <;> exact ⟨_, rfl⟩

end LayerManager

@[simp]
theorem Desktop.manager_sendWindowActiveMessage (d : Desktop) (layerId : Nat) (activate : Int) :
    (d.sendWindowActiveMessage layerId activate).manager = d.manager := by
  rw [sendWindowActiveMessage]
  split <;> rfl

/-- `Activate` draws the layer once it is at its place in the stack. -/
theorem Desktop.raise_drawn {d d' : Desktop} {id : Nat} (pos : 0 < id)
    (raised : d.raise id = some d') :
    ∃ layer layerStack, d.manager.findLayer id = some layer ∧
      ({ d.manager.set { layer with window := layer.window.activate } with
        layerStack } : LayerManager).drawWindow id = some d'.manager := by
  rw [raise] at raised
  dsimp only at raised
  rw [if_pos pos] at raised
  obtain ⟨layer, found, rest⟩ := Option.bind_eq_some_iff.mp raised
  obtain ⟨m₁, down, rest₁⟩ := Option.bind_eq_some_iff.mp rest
  obtain ⟨m₂, up, rest₂⟩ := Option.bind_eq_some_iff.mp rest₁
  obtain ⟨m₃, drawn, sent⟩ := Option.bind_eq_some_iff.mp rest₂
  obtain ⟨stack₁, rfl⟩ := upDown_only_stack down
  obtain ⟨stack₂, rfl⟩ := upDown_only_stack up
  refine ⟨layer, stack₂, found, ?_⟩
  rw [← Option.some.inj sent, manager_sendWindowActiveMessage]
  exact drawn

/-- And draws the layer that was active. -/
theorem Desktop.deactivate_drawn {d d' : Desktop} (pos : 0 < d.activeLayer)
    (deactivated : d.deactivate = some d') :
    ∃ layer, d.manager.findLayer d.activeLayer = some layer ∧
      (d.manager.set { layer with window := layer.window.deactivate }).drawWindow d.activeLayer =
        some d'.manager := by
  rw [deactivate, if_pos pos] at deactivated
  obtain ⟨layer, found, rest⟩ := Option.bind_eq_some_iff.mp deactivated
  obtain ⟨m₁, drawn, sent⟩ := Option.bind_eq_some_iff.mp rest
  refine ⟨layer, found, ?_⟩
  rw [← Option.some.inj sent, manager_sendWindowActiveMessage]
  exact drawn

namespace Inv

variable {background mouse : Nat} {d d' : Desktop}

theorem areas_eq {id : Nat} {l : Layer} (found : d.manager.findLayer id = some l) :
    d.areas id = [l.area] := by
  rw [Desktop.areas, found]
  rfl

/-- No layer has the id 0. -/
theorem areas_zero (inv : Inv background mouse d) : d.areas 0 = [] := by
  rw [Desktop.areas]
  cases found : d.manager.findLayer 0 with
  | none => rfl
  | some l =>
      have zero : l.id = 0 := by simpa using List.find?_some found
      have range := inv.id_range l.key (List.mem_map_of_mem (List.mem_of_find?_eq_some found))
      exact absurd range.1 (by rw [show l.key.id = l.id from rfl, zero]; exact lt_irrefl 0)

/-- A layer that can be dragged is solid. -/
theorem solid_of_draggable (inv : Inv background mouse d)
    (looks : Looks background mouse d.manager) {l : Layer} (member : l ∈ d.manager.layers)
    (draggable : l.draggable = true) : l.Solid :=
  looks.solid l member (inv.ne_of_draggable (List.mem_map_of_mem member) draggable).2

/-- The window that was active is drawn. -/
theorem deactivate_redrawn (inv : Inv background mouse d) (looks : Looks background mouse d.manager) :
    ∃ d', d.deactivate = some d' ∧ SameDesk d d' ∧ Looks background mouse d'.manager ∧
      Redrawn d (d.areas d.activeLayer) d' := by
  obtain ⟨d', deactivated, same⟩ := inv.orderly.deactivate
  refine ⟨d', deactivated, same, ?_⟩
  rcases Nat.eq_zero_or_pos d.activeLayer with zero | pos
  · rw [Desktop.deactivate, if_neg (by omega)] at deactivated
    cases deactivated
    rw [zero, inv.areas_zero]
    exact ⟨looks, Redrawn.refl d⟩
  · obtain ⟨l, found, drawn⟩ := Desktop.deactivate_drawn pos deactivated
    have isFound := List.mem_of_find?_eq_some found
    have draggable : l.draggable = true := by
      obtain ⟨key, member, id, draggable, -⟩ := inv.active.resolve_left pos.ne'
      have here : l.id = d.activeLayer := by simpa using List.find?_some found
      have isKey : l.key = key :=
        List.inj_on_of_nodup_map inv.ids (List.mem_map_of_mem isFound) member (here.trans id.symm)
      exact (congrArg Key.draggable isKey).trans draggable
    have set : SameKeys d.manager (d.manager.set { l with window := l.window.deactivate }) :=
      sameKeys_set inv.addresses isFound rfl
    have inv₁ : Inv background mouse
        { d with manager := d.manager.set { l with window := l.window.deactivate } } :=
      inv.sameKeys set rfl rfl
    have shown₁ : ({ d with manager := d.manager.set { l with window := l.window.deactivate } } :
        Desktop).Shown d.activeLayer := by
      rw [Desktop.Shown, set.keys, set.layerStack]
      exact inv.orderly.active.resolve_left pos.ne'
    have solid : l.Solid := inv.solid_of_draggable looks isFound draggable
    obtain ⟨m', drawn', looks', size, shows⟩ := inv.redrawn looks inv₁ shown₁ found
      { l with window := l.window.deactivate } rfl rfl solid rfl rfl
    rw [drawn] at drawn'
    cases drawn'
    refine ⟨looks', size, fun p on case => shows p on (case.imp_left ?_)⟩
    rw [areas_eq found]
    rintro ⟨area, member, inside⟩
    rwa [List.mem_singleton.mp member] at inside

/-- The window that becomes active is drawn. -/
theorem raise_redrawn (inv : Inv background mouse d) (looks : Looks background mouse d.manager)
    {key : Key} (member : key ∈ d.manager.keys) (draggable : key.draggable = true) :
    ∃ d', d.raise key.id = some d' ∧ Inv background mouse d' ∧ Looks background mouse d'.manager ∧
      Redrawn d (d.areas key.id) d' := by
  obtain ⟨middle, stack⟩ := inv.ends
  obtain ⟨d', raised, keys', stack', latestId, nextAddress, active, mouseLayer⟩ :=
    inv.raise member draggable stack
  have inv' : Inv background mouse d' := inv.of_activate_layer member draggable stack keys' stack'
    latestId nextAddress active mouseLayer
  refine ⟨d', raised, inv', ?_⟩
  obtain ⟨l, order, found, drawn⟩ := Desktop.raise_drawn (inv.id_range key member).1 raised
  have isFound := List.mem_of_find?_eq_some found
  have isKey : l.key = key := by
    have here : l.id = key.id := by simpa using List.find?_some found
    exact List.inj_on_of_nodup_map inv.ids (List.mem_map_of_mem isFound) member here
  -- the stack is the one that `Activate` leaves
  have same := (sameKeys_drawLayer drawn).symm
  have orderEq : order = d'.manager.layerStack := same.layerStack
  generalize manager : ({ d.manager.set { l with window := l.window.activate } with
    layerStack := order } : LayerManager) = m₁ at drawn same
  have inv₁ : Inv background mouse { d' with manager := m₁ } := inv'.sameKeys same rfl rfl
  have shown₁ : ({ d' with manager := m₁ } : Desktop).Shown key.id := by
    refine ⟨key, ?_, rfl, ?_⟩
    · rw [same.keys, keys']
      exact member
    · rw [same.layerStack, stack']
      exact List.mem_cons_of_mem _ (List.mem_append_right _ List.mem_cons_self)
  have others : order.filter (· ≠ l.address) =
      d.manager.layerStack.filter (· ≠ l.address) := by
    have address : l.address = key.address := congrArg Key.address isKey
    rw [orderEq, stack', stack, address, filter_raised]
  have solid : l.Solid :=
    inv.solid_of_draggable looks isFound ((congrArg Key.draggable isKey).trans draggable)
  obtain ⟨m', drawn', looks', size, shows⟩ := inv.redrawn looks inv₁ shown₁ found
    { l with window := l.window.activate } rfl rfl solid others manager.symm
  rw [show m₁.drawWindow key.id = some d'.manager from drawn] at drawn'
  cases drawn'
  refine ⟨looks', size, fun p on case => shows p on (case.imp_left ?_)⟩
  rw [areas_eq found]
  rintro ⟨area, among, inside⟩
  rwa [List.mem_singleton.mp among] at inside

/-! ## The operations -/

/-- A layer that changes its pixels takes up the same part of the screen. -/
theorem areas_set (inv : Inv background mouse d) {i : Nat} {l : Layer}
    (found : d.manager.findLayer i = some l) (l' : Layer) (key : l'.key = l.key)
    (area : l'.area = l.area)
    (manager : d'.manager.layers = (d.manager.set l').layers) (id : Nat) :
    d'.areas id = d.areas id := by
  have address : l'.address = l.address := congrArg Key.address key
  have distinct := inv.addresses
  rw [keys, List.map_map] at distinct
  have isSame {o : Layer} (member : o ∈ d.manager.layers) (here : o.address = l'.address) : o = l :=
    List.inj_on_of_nodup_map distinct member (List.mem_of_find?_eq_some found) (here.trans address)
  rw [Desktop.areas, Desktop.areas, findLayer, findLayer, manager, LayerManager.set, List.find?_map]
  have tests : d.manager.layers.find? ((fun l : Layer => decide (l.id = id)) ∘
      fun o => if o.address = l'.address then l' else o) =
        d.manager.layers.find? fun l => decide (l.id = id) := by
    apply List.find?_congr
    intro o member
    rw [Function.comp_apply]
    split
    · rename_i here
      rw [isSame member here, show l'.id = l.id from congrArg Key.id key]
    · rfl
  rw [tests]
  cases first : d.manager.layers.find? fun l => decide (l.id = id) with
  | none => rfl
  | some o =>
      rw [Option.map_some, Option.map_some, Option.map_some]
      split
      · rename_i here
        rw [area, isSame (List.mem_of_find?_eq_some first) here]
      · rfl

theorem layers_drawLayer {m m' : LayerManager} {id : Nat} {area : Rectangle}
    (drawn : m.drawLayer id area = some m') : m'.layers = m.layers := by
  rw [drawLayer] at drawn
  split at drawn
  · cases drawn
  · cases drawn
    rfl

theorem areas_deactivate (inv : Inv background mouse d) (deactivated : d.deactivate = some d')
    (id : Nat) : d'.areas id = d.areas id := by
  rcases Nat.eq_zero_or_pos d.activeLayer with zero | pos
  · rw [Desktop.deactivate, if_neg (by omega)] at deactivated
    cases deactivated
    rfl
  · obtain ⟨l, found, drawn⟩ := Desktop.deactivate_drawn pos deactivated
    exact inv.areas_set found { l with window := l.window.deactivate } rfl rfl
      (layers_drawLayer drawn) id

/-- `Activate(0)`. -/
theorem activate_zero_redrawn (inv : Inv background mouse d)
    (looks : Looks background mouse d.manager) :
    ∃ d', d.activate 0 = some d' ∧ Inv background mouse d' ∧ Looks background mouse d'.manager ∧
      SameDesk { d with activeLayer := 0 } d' ∧ Redrawn d (d.areas d.activeLayer) d' ∧
      ∀ id, d'.areas id = d.areas id := by
  obtain ⟨d₁, deactivated, same, looks₁, redrawn⟩ := inv.deactivate_redrawn looks
  have bare : Inv background mouse { d with activeLayer := 0 } := { inv with active := .inl rfl }
  have inv₁ : Inv background mouse { d₁ with activeLayer := 0 } :=
    bare.sameKeys same.manager rfl same.mouseLayer
  by_cases already : d.activeLayer = 0
  · refine ⟨d, if_pos already, inv, looks, ⟨.refl _, already, rfl, rfl⟩, ?_, fun _ => rfl⟩
    rw [already, inv.areas_zero]
    exact .refl d
  · refine ⟨{ d₁ with activeLayer := 0 }, ?_, inv₁, looks₁,
      ⟨same.manager, rfl, same.mouseLayer, same.layerTaskMap⟩, ⟨redrawn.size, redrawn.shows⟩,
      fun id => inv.areas_deactivate deactivated id⟩
    rw [Desktop.activate, if_neg already, deactivated]
    rfl

/-- `Activate(id)`. -/
theorem activate_redrawn (inv : Inv background mouse d) (looks : Looks background mouse d.manager)
    {key : Key} (member : key ∈ d.manager.keys) (draggable : key.draggable = true)
    (other : d.activeLayer ≠ key.id) :
    ∃ d', d.activate key.id = some d' ∧ Inv background mouse d' ∧
      Looks background mouse d'.manager ∧
      Redrawn d (d.areas d.activeLayer ++ d.areas key.id) d' := by
  obtain ⟨d₁, deactivated, same, looks₁, redrawn₁⟩ := inv.deactivate_redrawn looks
  have inv₁ := inv.sameKeys same.manager same.activeLayer same.mouseLayer
  obtain ⟨d', raised, inv', looks', redrawn'⟩ :=
    inv₁.raise_redrawn looks₁ (same.manager.keys.symm ▸ member) draggable
  rw [inv.areas_deactivate deactivated] at redrawn'
  refine ⟨d', ?_, inv', looks', redrawn₁.trans redrawn'⟩
  rw [Desktop.activate, if_neg other, deactivated]
  exact raised

/-- Without a layer the picture is the same where it had no ink. -/
theorem picture_removeLayer (inv : Inv background mouse d) {key : Key}
    (member : key ∈ d.manager.keys) {l : Layer} (found : d.manager.findLayer key.id = some l)
    {p : Int × Int} (blank : l.ink p = none) :
    (d.manager.removeLayer key.id).picture p = d.manager.picture p := by
  have address : l.address = key.address := by
    obtain ⟨l', found', same⟩ := inv.orderly.findLayer member
    rw [found] at found'
    cases found'
    exact congrArg Key.address same
  obtain ⟨-, stack, -, -⟩ := removeLayer_eq (find_key inv.ids member)
  have layers : (d.manager.removeLayer key.id).layers =
      d.manager.layers.filter fun o => o.id ≠ key.id := by
    rw [removeLayer, hide, found]
  have isGone {a : Nat} {o : Layer} (here : (d.manager.removeLayer key.id).layerAt a = some o) :
      o ∈ d.manager.layers ∧ o.id ≠ key.id := by
    rw [layerAt, layers] at here
    simpa using List.mem_of_find?_eq_some here
  have distinct := inv.addresses
  rw [keys, List.map_map] at distinct
  have isFound := List.mem_of_find?_eq_some found
  have hasId : l.id = key.id := by simpa using List.find?_some found
  refine picture_congr key.address ?_ ?_ ?_ ?_
  · intro o among same
    rw [eq_of_shown (inv.layerAt_of_findLayer found) among (same.trans address.symm)]
    exact blank
  · intro o among same
    obtain ⟨a, -, here⟩ := List.mem_filterMap.mp among
    obtain ⟨isLayer, otherId⟩ := isGone here
    have isSame : o = l :=
      List.inj_on_of_nodup_map distinct isLayer isFound (same.trans address.symm)
    exact absurd (isSame ▸ hasId) otherId
  · rw [stack, filter_erase]
  · intro a _ other
    rw [layerAt, layerAt, layers, List.find?_filter]
    apply List.find?_congr
    intro o among
    by_cases here : o.address = a
    · have otherId : o.id ≠ key.id := by
        intro sameId
        have ids := inv.ids
        rw [keys, List.map_map] at ids
        have isSame : o = l :=
          List.inj_on_of_nodup_map ids among isFound (sameId.trans hasId.symm)
        exact other (here.symm.trans ((congrArg Layer.address isSame).trans address))
      simp [here, otherId]
    · simp [here]

/-- `CloseLayer`. -/
theorem closeLayer_redrawn (inv : Inv background mouse d) (looks : Looks background mouse d.manager)
    {key : Key} (member : key ∈ d.manager.keys) (draggable : key.draggable = true) :
    ∃ d', d.closeLayer key.id = some (d', .success) ∧ Inv background mouse d' ∧
      Looks background mouse d'.manager ∧
      Redrawn d (d.areas d.activeLayer ++ d.areas key.id) d' := by
  obtain ⟨d', closed, keys', stack', latestId, nextAddress, active, mouseLayer, -⟩ :=
    inv.orderly.closeLayer member
  have inv' := inv.of_closeLayer member draggable keys' stack' latestId nextAddress active mouseLayer
  obtain ⟨d₁, activated, inv₁, looks₁, same, redrawn, areas⟩ := inv.activate_zero_redrawn looks
  obtain ⟨l, found, -⟩ := inv.orderly.findLayer member
  have member₁ : key ∈ d₁.manager.keys := same.manager.keys.symm ▸ member
  obtain ⟨l₁, found₁, -⟩ := inv₁.orderly.findLayer member₁
  have area : l₁.area = l.area := by
    have both := areas key.id
    rw [areas_eq found, areas_eq found₁] at both
    exact (List.cons.inj both).1
  have manager : d'.manager = (d₁.manager.removeLayer key.id).draw l.area := by
    rw [Desktop.closeLayer, found] at closed
    change Option.bind (d.activate 0) _ = _ at closed
    rw [activated] at closed
    cases closed
    rfl
  have drawn : SameKeys d'.manager (d₁.manager.removeLayer key.id) := by
    rw [manager]
    exact (sameKeys_draw _ _).symm
  have inv₂ : Inv background mouse { d' with manager := d₁.manager.removeLayer key.id } :=
    inv'.sameKeys drawn rfl rfl
  have removed : d₁.manager.removeLayer key.id =
      { d₁.manager with
        layers := d₁.manager.layers.filter fun o => o.id ≠ key.id
        layerStack := d₁.manager.layerStack.erase l₁.address } := by
    rw [removeLayer, hide, found₁]
  have looks₂ : Looks background mouse (d₁.manager.removeLayer key.id) := by
    rw [removed]
    refine ⟨looks₁.sizes, fun o among => looks₁.solid o (List.mem_filter.mp among).1,
      fun o among => looks₁.covers o (List.mem_filter.mp among).1⟩
  have screen : (d₁.manager.removeLayer key.id).screen = d₁.manager.screen := by rw [removed]
  have last : Redrawn d₁ (d₁.areas key.id) d' := by
    refine ⟨by rw [manager, ← screen]; rfl, ?_⟩
    intro p on case
    have on₂ : (d₁.manager.removeLayer key.id).OnScreen p := by
      rw [OnScreen, screen]
      exact on
    have shows := inv₂.draw_shows looks₂ l.area on₂
    rw [manager]
    by_cases inside : l₁.area.Contains p.1 p.2
    · exact shows.2 (area ▸ inside)
    · refine shows.1 (showsAt_congr (m := d₁.manager) ?_ screen (by rw [removed]) (case.resolve_left ?_))
      · exact inv₁.picture_removeLayer member₁ found₁ (Layer.ink_outside inside)
      · rw [areas_eq found₁]
        rintro ⟨area', among, inside'⟩
        rw [List.mem_singleton.mp among] at inside'
        exact inside inside'
  refine ⟨d', closed, inv', ?_, ?_⟩
  · rw [manager]
    exact looks₂.repaint _ _
  · rw [← areas key.id]
    exact redrawn.trans last

end Inv
end Mikanos.Screen
