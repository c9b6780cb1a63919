import Mikanos.Screen.MissingWindows
import Mikanos.Screen.Picture
import Mikanos.Screen.Stacking

/-!
# Incremental repainting

Windows are opened, closed, raised, moved and written to, and after each of these the layer manager
paints only the areas that it takes to have changed, and often only the layers from some height on.
The screen nevertheless shows the picture wherever nothing has been written without being drawn
since: the back buffer holds the picture there too, although the cursor is painted into it outside
of the areas.
-/

namespace Mikanos.Screen

open Painting Transition LayerManager

/-! ## Layers and their addresses -/

namespace LayerManager

variable {m m' : LayerManager} {p : Int × Int}

theorem address_layerAt {address : Nat} {l : Layer} (found : m.layerAt address = some l) :
    l.address = address := by
  simpa using List.find?_some found

/-- The stack without a layer. -/
theorem shown_filter (m : LayerManager) (address : Nat) :
    m.shown.filter (fun l => l.address ≠ address) =
      (m.layerStack.filter (· ≠ address)).filterMap m.layerAt := by
  rw [shown]
  induction m.layerStack with
  | nil => rfl
  | cons first rest ih =>
      rw [List.filterMap_cons]
      cases found : m.layerAt first with
      | none =>
          rw [ih]
          by_cases here : first = address
          · rw [List.filter_cons_of_neg (by simp [here])]
          · rw [List.filter_cons_of_pos (by simp [here]), List.filterMap_cons, found]
      | some l =>
          have atFirst := address_layerAt found
          by_cases here : first = address
          · rw [List.filter_cons_of_neg (by simp [atFirst, here]),
              List.filter_cons_of_neg (by simp [here]), ih]
          · rw [List.filter_cons_of_pos (by simp [atFirst, here]),
              List.filter_cons_of_pos (by simp [here]), List.filterMap_cons, found, ih]

/-- Where a layer has no ink, it does not matter whether it is there, and where in the stack. -/
theorem picture_without {address : Nat} (blank : ∀ l ∈ m.shown, l.address = address → l.ink p = none) :
    m.picture p =
      visible (((m.layerStack.filter (· ≠ address)).filterMap m.layerAt).map Layer.ink) p := by
  rw [picture, ← shown_filter, visible_map_filter]
  intro l member gone
  exact blank l member (by simpa using gone)

/-- Two stacks that differ in the place of a layer without ink. -/
theorem picture_congr (address : Nat)
    (blank : ∀ l ∈ m.shown, l.address = address → l.ink p = none)
    (blank' : ∀ l ∈ m'.shown, l.address = address → l.ink p = none)
    (stack : m'.layerStack.filter (· ≠ address) = m.layerStack.filter (· ≠ address))
    (layers : ∀ a ∈ m.layerStack, a ≠ address → m'.layerAt a = m.layerAt a) :
    m'.picture p = m.picture p := by
  rw [picture_without blank, picture_without blank', stack]
  congr 2
  apply List.filterMap_congr
  intro a member
  rw [List.mem_filter] at member
  exact layers a member.1 (by simpa using member.2)

theorem layerAt_set {l' : Layer} {a : Nat} (other : a ≠ l'.address) :
    (m.set l').layerAt a = m.layerAt a := by
  rw [layerAt, layerAt, set, List.find?_map]
  have same : (fun l : Layer => decide (l.address = a)) ∘
      (fun l => if l.address = l'.address then l' else l) = fun l => decide (l.address = a) := by
    funext l
    rw [Function.comp_apply]
    split
    · rename_i here
      rw [here]
    · rfl
  rw [same]
  cases found : m.layers.find? fun l => decide (l.address = a) with
  | none => rfl
  | some l =>
      have here : l.address = a := by simpa using List.find?_some found
      exact congrArg some (if_neg (here ▸ other))

theorem layerAt_set_self {l l' : Layer} {a : Nat} (found : m.layerAt a = some l)
    (same : l'.address = a) : (m.set l').layerAt a = some l' := by
  have here := address_layerAt found
  rw [layerAt] at found
  rw [layerAt, set, List.find?_map]
  have pred : (fun l : Layer => decide (l.address = a)) ∘
      (fun l => if l.address = l'.address then l' else l) = fun l => decide (l.address = a) := by
    funext l
    rw [Function.comp_apply]
    split
    · rename_i atSame
      rw [atSame]
    · rfl
  rw [pred, found]
  exact congrArg some (if_pos (here.trans same.symm))

/-- The layers in the stack are different ones. -/
theorem nodup_shown (nodup : m.layerStack.Nodup) : (m.shown.map Layer.address).Nodup := by
  rw [shown, List.map_filterMap]
  refine nodup.filterMap fun a b address left right => ?_
  obtain ⟨l, found, rfl⟩ := Option.map_eq_some_iff.mp left
  obtain ⟨l', found', same⟩ := Option.map_eq_some_iff.mp right
  rw [← address_layerAt found, ← same, address_layerAt found']

/-- They are told apart by their ids. -/
theorem nodup_shown_ids (nodup : m.layerStack.Nodup) (ids : (m.keys.map Key.id).Nodup) :
    (m.shown.map Layer.id).Nodup := by
  refine (nodup_shown nodup).of_map.map_on ?_
  intro l member l' member' same
  have among {l : Layer} (member : l ∈ m.shown) : l ∈ m.layers := by
    obtain ⟨a, -, found⟩ := List.mem_filterMap.mp member
    exact List.mem_of_find?_eq_some found
  rw [keys, List.map_map] at ids
  exact List.inj_on_of_nodup_map ids (among member) (among member') same

theorem mem_layers_of_shown {l : Layer} (member : l ∈ m.shown) : l ∈ m.layers := by
  obtain ⟨a, -, found⟩ := List.mem_filterMap.mp member
  exact List.mem_of_find?_eq_some found

/-- A layer in the stack with an address is the one at that address. -/
theorem eq_of_shown {l l' : Layer} {a : Nat} (found : m.layerAt a = some l)
    (member : l' ∈ m.shown) (same : l'.address = a) : l' = l := by
  obtain ⟨b, -, found'⟩ := List.mem_filterMap.mp member
  rw [← address_layerAt found', same, found] at found'
  exact (Option.some.inj found').symm

/-- A pixel that is right stays right when the picture does not change there. -/
theorem showsAt_congr (picture : m'.picture p = m.picture p)
    (screen : m'.screen = m.screen) (backBuffer : m'.backBuffer = m.backBuffer)
    (shows : m.ShowsAt p) : m'.ShowsAt p := by
  rw [ShowsAt, HoldsAt, picture, screen, backBuffer]
  exact shows

end LayerManager

/-! ## How the layers look -/

/-- Only the cursor may have a transparent colour, and the background covers the screen. -/
structure Looks (background mouse : Nat) (m : LayerManager) : Prop where
  sizes : m.backBuffer.size = m.screen.size
  solid : ∀ l ∈ m.layers, l.address ≠ mouse → l.Solid
  covers : ∀ l ∈ m.layers, l.address = background → ∀ p, m.OnScreen p → l.area.Contains p.1 p.2

namespace Looks

variable {background mouse : Nat} {m : LayerManager}

theorem repaint (looks : Looks background mouse m) (layers : List Layer) (area : Rectangle) :
    Looks background mouse (m.repaint layers area) where
  sizes := by
    change (List.foldl _ m.backBuffer layers).size = _
    rw [foldl_drawTo]
    exact looks.sizes
  solid := looks.solid
  covers := looks.covers

/-- A layer other than the cursor may change, and the background if it goes on covering the
screen. -/
theorem set (looks : Looks background mouse m) {l' : Layer}
    (solid : l'.address ≠ mouse → l'.Solid)
    (covers : l'.address = background → ∀ p, m.OnScreen p → l'.area.Contains p.1 p.2) :
    Looks background mouse (m.set l') where
  sizes := looks.sizes
  solid := by
    rw [LayerManager.set, List.forall_mem_map]
    intro l member other
    split at other
    · rename_i here
      rw [if_pos here]
      exact solid other
    · rename_i elsewhere
      rw [if_neg elsewhere]
      exact looks.solid l member other
  covers := by
    rw [LayerManager.set, List.forall_mem_map]
    intro l member atBottom p on
    split at atBottom
    · rename_i here
      rw [if_pos here]
      exact covers atBottom p on
    · rename_i elsewhere
      rw [if_neg elsewhere]
      exact looks.covers l member atBottom p on

theorem withStack (looks : Looks background mouse m) (layerStack : List Nat) :
    Looks background mouse { m with layerStack } :=
  ⟨looks.sizes, looks.solid, looks.covers⟩

end Looks

namespace Inv

variable {background mouse : Nat} {d : Desktop} {p : Int × Int}

/-- The layers in the stack, with the cursor at the top. -/
theorem topped (inv : Inv background mouse d) (looks : Looks background mouse d.manager) :
    ∃ lower cursor, d.manager.Topped lower cursor ∧ cursor.address = mouse ∧
      ∀ l ∈ lower, l.address ≠ mouse := by
  obtain ⟨middle, stack⟩ := inv.ends
  obtain ⟨cursor, found, key⟩ := inv.orderly.layerAt inv.cursor
  have shown : d.manager.shown =
      (background :: middle).filterMap d.manager.layerAt ++ [cursor] := by
    rw [LayerManager.shown, stack, ← List.cons_append, List.filterMap_append]
    exact congrArg _ (by rw [List.filterMap_cons, found]; rfl)
  have atMouse : cursor.address = mouse := congrArg Key.address key
  have below : ∀ l ∈ (background :: middle).filterMap d.manager.layerAt, l.address ≠ mouse := by
    intro l member same
    obtain ⟨a, lower, foundLower⟩ := List.mem_filterMap.mp member
    have nodup := inv.nodup
    rw [stack, ← List.cons_append] at nodup
    rw [← address_layerAt foundLower, same] at lower
    exact List.disjoint_of_nodup_append nodup lower (List.mem_singleton_self _)
  refine ⟨_, cursor, ⟨shown, ?_, looks.sizes⟩, atMouse, below⟩
  intro l member
  refine looks.solid l (mem_layers_of_shown ?_) (below l member)
  rw [shown]
  exact List.mem_append_left _ member

/-- Every pixel of the screen belongs to the picture. -/
theorem picture_isSome (inv : Inv background mouse d) (looks : Looks background mouse d.manager)
    (on : d.manager.OnScreen p) : ∃ c, d.manager.picture p = some c := by
  obtain ⟨id, bottom⟩ := inv.bottom
  obtain ⟨l, found, key⟩ := inv.orderly.layerAt bottom
  have atBottom : l.address = background := congrArg Key.address key
  obtain ⟨middle, stack⟩ := inv.ends
  have member : l ∈ d.manager.shown := by
    refine List.mem_filterMap.mpr ⟨background, ?_, found⟩
    rw [stack]
    exact List.mem_cons_self
  have notMouse : l.address ≠ mouse := by
    intro same
    have nodup := inv.nodup
    rw [stack, List.nodup_cons] at nodup
    exact nodup.1 (List.mem_append_right _ (by rw [← atBottom, same]; exact List.mem_singleton_self _))
  have among := mem_layers_of_shown member
  have ink := (looks.solid l among notMouse).ink_eq (looks.covers l among atBottom p on)
  rw [← Option.isSome_iff_exists, Option.isSome_iff_ne_none]
  intro nothing
  have blank := visible_eq_none_iff.mp nothing l.ink (List.mem_map_of_mem member)
  rw [ink] at blank
  cases blank

/-- `Draw(id, area)` paints the layer and those above it. -/
theorem drawLayer_repainted (inv : Inv background mouse d) (looks : Looks background mouse d.manager)
    {id : Nat} (shown : d.Shown id) (area : Rectangle) :
    ∃ l m' upper cursor, d.manager.findLayer id = some l ∧ d.manager.drawLayer id area = some m' ∧
      d.manager.Repainted (windowArea l area) m' upper cursor ∧ l ∈ upper ++ [cursor] ∧
      (l.address = mouse → l = cursor ∧ upper = []) := by
  obtain ⟨l, member, here⟩ := inv.orderly.exists_shown shown
  obtain ⟨lower, rest, split⟩ := List.append_of_mem member
  have ids := nodup_shown_ids inv.nodup inv.ids
  have others : ∀ o ∈ lower ++ rest, o.id ≠ id := by
    rw [split, List.map_append, List.map_cons, List.nodup_middle, List.nodup_cons] at ids
    intro o among same
    refine ids.1 ?_
    rw [← List.map_append, here, ← same]
    exact List.mem_map_of_mem among
  have found : d.manager.findLayer id = some l := by
    have distinct := inv.ids
    rw [keys, List.map_map] at distinct
    have first := find_key (f := Layer.id) distinct (mem_layers_of_shown member)
    rw [here] at first
    exact first
  obtain ⟨below, cursor, topped, atMouse, notMouse⟩ := inv.topped looks
  -- the cursor is the last of the layers that are drawn
  have last : ∃ upper, l :: rest = upper ++ [cursor] ∧ below = lower ++ upper := by
    have whole := split.symm.trans topped.shown
    rcases List.eq_nil_or_concat (l :: rest) with none | ⟨upper, final, same⟩
    · cases none
    · rw [List.concat_eq_append] at same
      rw [same, ← List.append_assoc] at whole
      obtain ⟨front, back⟩ := List.append_inj' whole rfl
      refine ⟨upper, ?_, front.symm⟩
      rw [same, back]
  obtain ⟨upper, drawn, front⟩ := last
  refine ⟨l, _, upper, cursor, found, drawLayer_eq_repaint split here others, ⟨?_, lower, ?_⟩, ?_, ?_⟩
  · rw [drawn]
  · rw [← front]
    exact topped
  · rw [← drawn]
    exact List.mem_cons_self
  · intro isMouse
    cases upper with
    | nil => exact ⟨(List.cons.inj drawn).1, rfl⟩
    | cons first upper =>
        refine absurd isMouse (notMouse l ?_)
        rw [front, (List.cons.inj drawn).1]
        exact List.mem_append_right _ List.mem_cons_self

/-- `Draw(id, area)` keeps what is shown, and shows its area unless it draws only the cursor. -/
theorem drawLayer_shows (inv : Inv background mouse d) (looks : Looks background mouse d.manager)
    {id : Nat} (shown : d.Shown id) (area : Rectangle) :
    ∃ l m', d.manager.findLayer id = some l ∧ d.manager.drawLayer id area = some m' ∧
      Looks background mouse m' ∧ ∀ p, d.manager.OnScreen p →
        (d.manager.ShowsAt p → m'.ShowsAt p) ∧
        ((windowArea l area).Contains p.1 p.2 → l.Solid ∨ d.manager.HoldsAt p → m'.ShowsAt p) := by
  obtain ⟨l, m', upper, cursor, found, drawn, repainted, member, -⟩ :=
    inv.drawLayer_repainted looks shown area
  refine ⟨l, m', found, drawn, ?_, ?_⟩
  · rw [repainted.eq]
    exact looks.repaint _ _
  · intro p on
    refine ⟨repainted.shows on, ?_⟩
    rintro inside (solid | holds)
    · have ink := solid.ink_eq (windowArea_contains inside)
      refine repainted.shows_of_ink on inside ?_
      rw [Option.isSome_iff_ne_none]
      intro nothing
      have blank := visible_eq_none_iff.mp nothing l.ink (List.mem_map_of_mem member)
      rw [ink] at blank
      cases blank
    · exact repainted.shows_of_holds on inside holds

/-- `Draw(area)` shows its area, and keeps what is shown elsewhere. -/
theorem draw_repainted (inv : Inv background mouse d) (looks : Looks background mouse d.manager)
    (area : Rectangle) :
    ∃ lower cursor, d.manager.Topped lower cursor ∧ cursor.address = mouse ∧
      (∀ l ∈ lower, l.address ≠ mouse) ∧
      d.manager.Repainted area (d.manager.draw area) lower cursor := by
  obtain ⟨lower, cursor, topped, atMouse, notMouse⟩ := inv.topped looks
  refine ⟨lower, cursor, topped, atMouse, notMouse, ?_, [], topped⟩
  rw [draw_eq_repaint, topped.shown]

theorem draw_shows (inv : Inv background mouse d) (looks : Looks background mouse d.manager)
    (area : Rectangle) (on : d.manager.OnScreen p) :
    (d.manager.ShowsAt p → (d.manager.draw area).ShowsAt p) ∧
      (area.Contains p.1 p.2 → (d.manager.draw area).ShowsAt p) := by
  obtain ⟨lower, cursor, topped, -, -, repainted⟩ := inv.draw_repainted looks area
  refine ⟨repainted.shows on, fun inside => repainted.shows_of_ink on inside ?_⟩
  obtain ⟨c, seen⟩ := inv.picture_isSome looks on
  rw [picture, topped.shown] at seen
  rw [seen]
  rfl

theorem draw_looks (looks : Looks background mouse d.manager) (area : Rectangle) :
    Looks background mouse (d.manager.draw area) :=
  looks.repaint _ _

/-- The layer that is found by its id is at its address. -/
theorem layerAt_of_findLayer (inv : Inv background mouse d) {id : Nat} {l : Layer}
    (found : d.manager.findLayer id = some l) : d.manager.layerAt l.address = some l := by
  have distinct := inv.addresses
  rw [keys, List.map_map] at distinct
  exact find_key (f := Layer.address) distinct (List.mem_of_find?_eq_some found)

/-- A layer changes its looks or its place, on the screen or in the stack: elsewhere, the picture
stays the same. -/
theorem picture_changed (inv : Inv background mouse d) {id : Nat} {l l' : Layer}
    (found : d.manager.findLayer id = some l) (key : l'.key = l.key) {stack : List Nat}
    (order : stack.filter (· ≠ l.address) = d.manager.layerStack.filter (· ≠ l.address))
    (blank : l.ink p = none) (blank' : l'.ink p = none) :
    ({ d.manager.set l' with layerStack := stack } : LayerManager).picture p =
      d.manager.picture p := by
  have address : l'.address = l.address := congrArg Key.address key
  have here := inv.layerAt_of_findLayer found
  refine picture_congr l.address ?_ ?_ order ?_
  · intro o member same
    rw [eq_of_shown here member same]
    exact blank
  · intro o member same
    have there : ({ d.manager.set l' with layerStack := stack } : LayerManager).layerAt l.address =
        some l' := layerAt_set_self here address
    rw [eq_of_shown there member same]
    exact blank'
  · intro a _ other
    exact layerAt_set (address ▸ other)

/-- A window changes its pixels, is put elsewhere in the stack and is drawn. -/
theorem redrawn (inv : Inv background mouse d) (looks : Looks background mouse d.manager)
    {d' : Desktop} (inv' : Inv background mouse d') {id : Nat} (shown : d'.Shown id) {l : Layer}
    (found : d.manager.findLayer id = some l) (l' : Layer) (key : l'.key = l.key)
    (area : l'.area = l.area) (solid : l'.Solid) {stack : List Nat}
    (order : stack.filter (· ≠ l.address) = d.manager.layerStack.filter (· ≠ l.address))
    (manager : d'.manager = { d.manager.set l' with layerStack := stack }) :
    ∃ m', d'.manager.drawWindow id = some m' ∧ Looks background mouse m' ∧
      m'.screen.size = d.manager.screen.size ∧
      ∀ p, d.manager.OnScreen p → l.area.Contains p.1 p.2 ∨ d.manager.ShowsAt p → m'.ShowsAt p := by
  have address : l'.address = l.address := congrArg Key.address key
  have looks' : Looks background mouse d'.manager := by
    rw [manager]
    refine (looks.set (fun _ => solid) ?_).withStack stack
    rw [address, area]
    exact looks.covers l (List.mem_of_find?_eq_some found)
  have screen : d'.manager.screen = d.manager.screen := by
    rw [manager]
    rfl
  obtain ⟨found', m', isFound, drawn, looks'', shows⟩ :=
    inv'.drawLayer_shows looks' shown ⟨⟨0, 0⟩, ⟨-1, -1⟩⟩
  -- it is the changed layer that is drawn
  have isChanged : found' = l' := by
    have there : d'.manager.layerAt l.address = some l' := by
      rw [manager]
      exact layerAt_set_self (inv.layerAt_of_findLayer found) address
    have foundId : l'.id = id := by
      have here : l.id = id := by simpa using List.find?_some found
      rw [← here]
      exact congrArg Key.id key
    have distinct := inv'.ids
    rw [keys, List.map_map] at distinct
    have isId : found'.id = id := by simpa using List.find?_some isFound
    exact List.inj_on_of_nodup_map distinct (List.mem_of_find?_eq_some isFound)
      (List.mem_of_find?_eq_some there) (isId.trans foundId.symm)
  subst isChanged
  refine ⟨m', drawn, looks'', ?_, ?_⟩
  · rw [drawLayer] at drawn
    split at drawn
    · cases drawn
    · cases drawn
      change d'.manager.screen.size = d.manager.screen.size
      rw [screen]
  · intro p on case
    have on' : d'.manager.OnScreen p := by
      rw [OnScreen, screen]
      exact on
    by_cases inside : l.area.Contains p.1 p.2
    · refine (shows p on').2 ?_ (.inl solid)
      rw [windowArea_whole, area]
      exact inside
    · refine (shows p on').1 ?_
      have same : d'.manager.picture p = d.manager.picture p := by
        rw [manager]
        exact inv.picture_changed found key order (Layer.ink_outside inside)
          (Layer.ink_outside (area ▸ inside))
      refine showsAt_congr same screen ?_ (case.resolve_left inside)
      rw [manager]
      rfl

/-- Without the cursor, the picture is that of the layers below it. -/
theorem lower_eq {lower : List Layer} {cursor : Layer} {m : LayerManager}
    (topped : m.Topped lower cursor) (atMouse : cursor.address = mouse)
    (notMouse : ∀ l ∈ lower, l.address ≠ mouse) :
    lower = (m.layerStack.filter (· ≠ mouse)).filterMap m.layerAt := by
  have kept : lower.filter (fun l => l.address ≠ mouse) = lower :=
    List.filter_eq_self.mpr fun l member => by simpa using notMouse l member
  rw [← shown_filter, topped.shown, List.filter_append, kept,
    List.filter_cons_of_neg (by simp [atMouse]), List.filter_nil, List.append_nil]

/-- `Move` and `MoveRelative`: where the layer was and where it comes to is shown, unless it is the
cursor that comes to pixels that were not right. -/
theorem moved (inv : Inv background mouse d) (looks : Looks background mouse d.manager) {id : Nat}
    (shown : d.Shown id) {l : Layer} (found : d.manager.findLayer id = some l)
    (notBackground : l.address ≠ background) (newPos : Vector2D) :
    ∃ m', ((d.manager.set { l with pos := newPos }).draw l.area).drawWindow id = some m' ∧
      LayerManager.SameKeys d.manager m' ∧ Looks background mouse m' ∧
      m'.screen.size = d.manager.screen.size ∧
      ∀ p, d.manager.OnScreen p →
        l.area.Contains p.1 p.2 ∨ d.manager.ShowsAt p ∨
          l.Solid ∧ (⟨newPos, l.window.size⟩ : Rectangle).Contains p.1 p.2 → m'.ShowsAt p := by
  generalize changed : ({ l with pos := newPos } : Layer) = l'
  have key : l'.key = l.key := changed ▸ rfl
  have address : l'.address = l.address := congrArg Key.address key
  have solid_iff : l'.Solid ↔ l.Solid := changed ▸ Iff.rfl
  have area' : l'.area = ⟨newPos, l.window.size⟩ := changed ▸ rfl
  have isFound := List.mem_of_find?_eq_some found
  -- the layer has moved, and nothing has been drawn
  have same₀ : SameKeys d.manager (d.manager.set l') := sameKeys_set inv.addresses isFound key
  have inv₀ : Inv background mouse { d with manager := d.manager.set l' } :=
    inv.sameKeys same₀ rfl rfl
  have looks₀ : Looks background mouse (d.manager.set l') := by
    refine looks.set (fun other => solid_iff.mpr (looks.solid l isFound (address ▸ other))) ?_
    intro atBottom
    exact absurd (address ▸ atBottom) notBackground
  -- its old place has been drawn
  have same₁ : SameKeys d.manager ((d.manager.set l').draw l.area) := same₀.trans (sameKeys_draw _ _)
  have inv₁ : Inv background mouse { d with manager := (d.manager.set l').draw l.area } :=
    inv.sameKeys same₁ rfl rfl
  have looks₁ := looks₀.repaint (d.manager.set l').shown l.area
  rw [← draw_eq_repaint] at looks₁
  have shown₁ : ({ d with manager := (d.manager.set l').draw l.area } : Desktop).Shown id := by
    rw [Desktop.Shown, same₁.keys, same₁.layerStack]
    exact shown
  obtain ⟨found', m', isFound', drawn, looks', shows⟩ :=
    inv₁.drawLayer_shows looks₁ shown₁ ⟨⟨0, 0⟩, ⟨-1, -1⟩⟩
  have isChanged : found' = l' := by
    have there : (d.manager.set l').layerAt l.address = some l' :=
      layerAt_set_self (inv.layerAt_of_findLayer found) address
    have here : l.id = id := by simpa using List.find?_some found
    have isId : found'.id = id := by simpa using List.find?_some isFound'
    have distinct := inv₁.ids
    rw [keys, List.map_map] at distinct
    exact List.inj_on_of_nodup_map distinct (List.mem_of_find?_eq_some isFound')
      (List.mem_of_find?_eq_some there)
      (isId.trans (here.symm.trans (congrArg Key.id key).symm))
  subst isChanged
  refine ⟨m', drawn, same₁.trans (sameKeys_drawLayer drawn), looks', ?_, ?_⟩
  · rw [drawLayer] at drawn
    split at drawn
    · cases drawn
    · cases drawn
      rfl
  · intro p on case
    by_cases before : l.area.Contains p.1 p.2
    · exact (shows p on).1 ((inv₀.draw_shows looks₀ l.area on).2 before)
    · have case := case.resolve_left before
      by_cases after : found'.area.Contains p.1 p.2
      · refine (shows p on).2 after ?_
        by_cases solid : l.Solid
        · exact .inl (solid_iff.mpr solid)
        · -- the cursor has been painted at its new place already
          right
          have isMouse : l.address = mouse := by
            by_contra other
            exact solid (looks.solid l isFound other)
          have shows₀ := case.resolve_right fun both => solid both.1
          obtain ⟨lower, cursor, topped, atMouse, notMouse, repainted⟩ :=
            inv₀.draw_repainted looks₀ l.area
          have isCursor : cursor = found' := by
            have there := layerAt_set_self (inv.layerAt_of_findLayer found) address
            refine eq_of_shown there ?_ (atMouse.trans isMouse.symm)
            rw [topped.shown]
            exact List.mem_append_right _ (List.mem_singleton_self _)
          refine repainted.holds_of_lower on before (isCursor ▸ mt solid_iff.mp solid) topped ?_
          have blank : ∀ o ∈ d.manager.shown, o.address = mouse → o.ink p = none := by
            intro o member same
            rw [eq_of_shown (inv.layerAt_of_findLayer found) member (same.trans isMouse.symm)]
            exact Layer.ink_outside before
          have held := shows₀.2
          rw [HoldsAt, picture_without blank] at held
          rw [lower_eq topped atMouse notMouse]
          change visible (((d.manager.layerStack.filter (· ≠ mouse)).filterMap
            (d.manager.set found').layerAt).map Layer.ink) p = some (d.manager.backBuffer.pixel p.1 p.2)
          rw [← held]
          congr 2
          apply List.filterMap_congr
          intro a member
          rw [List.mem_filter] at member
          refine layerAt_set ?_
          rw [address, isMouse]
          simpa using member.2
      · have shows₀ := case.resolve_right fun both => after (area' ▸ both.2)
        refine (shows p on).1 ((inv₀.draw_shows looks₀ l.area on).1 ?_)
        have same := inv.picture_changed found key rfl (Layer.ink_outside before)
          (Layer.ink_outside after)
        exact showsAt_congr (m := d.manager) same rfl rfl shows₀

end Inv
end Mikanos.Screen
