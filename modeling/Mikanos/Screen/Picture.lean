import Mikanos.Painting.Sheets
import Mikanos.Screen.Keys
import Mikanos.Screen.RasterCopy

/-!
# The picture that the layers make

At every pixel one should see the topmost layer that is not transparent there.  The layers are
painted into the back buffer, clipped to an area, and the area is copied to the screen; but a
window with a transparent colour is painted as a whole, wherever the area is.
-/

namespace Mikanos.Screen

open Painting

/-! ## Layers as sheets -/

namespace Layer

/-- The rectangle of the layer's window on the screen. -/
def area (l : Layer) : Rectangle :=
  ⟨l.pos, l.window.size⟩

/-- What the layer shows, where it is not transparent. -/
def ink (l : Layer) : Sheet (Int × Int) PixelColor := fun p =>
  if l.area.Contains p.1 p.2 then
    let c := l.window.pixel (p.1 - l.pos.x) (p.2 - l.pos.y)
    if l.window.transparentColor = some c then none else some c
  else none

/-- The window has no transparent colour. -/
def Solid (l : Layer) : Prop :=
  l.window.transparentColor = none

/-- What is painted of the layer into a buffer of the given size. -/
def clipped (size : Vector2D) (area : Rectangle) (l : Layer) : Sheet (Int × Int) PixelColor :=
  fun p =>
    if (⟨⟨0, 0⟩, size⟩ : Rectangle).Contains p.1 p.2 ∧
        (l.window.transparentColor.isSome = true ∨ area.Contains p.1 p.2) then l.ink p
    else none

variable {l : Layer} {p : Int × Int}

theorem ink_outside (outside : ¬ l.area.Contains p.1 p.2) : l.ink p = none :=
  if_neg outside

theorem Solid.ink_eq (solid : l.Solid) (inside : l.area.Contains p.1 p.2) :
    l.ink p = some (l.window.pixel (p.1 - l.pos.x) (p.2 - l.pos.y)) := by
  have noColor : l.window.transparentColor = none := solid
  rw [ink, if_pos inside, noColor]
  rfl

/-- `DrawTo` paints the layer. -/
theorem drawTo_eq (l : Layer) (buffer : FrameBuffer) (area : Rectangle) :
    l.drawTo buffer area =
      ⟨buffer.size, fun x y => (l.clipped buffer.size area (x, y)).getD (buffer.pixel x y)⟩ := by
  rw [drawTo, Window.drawTo]
  cases colour : l.window.transparentColor with
  | none =>
      simp only [FrameBuffer.copy, Window.shadowBuffer, FrameBuffer.outline]
      apply congrArg (FrameBuffer.mk buffer.size)
      funext x y
      simp only [Rectangle.inter_contains_iff, clipped, ink, Layer.area, colour, Option.isSome_none,
        Bool.false_eq_true, false_or, reduceCtorEq, if_false]
      have origin (q : Vector2D) : q - (q - l.pos) = l.pos :=
        Vector2D.eq_of_coordinates (sub_sub_cancel _ _) (sub_sub_cancel _ _)
      rw [origin]
      have shape : (⟨(area.inter ⟨l.pos, l.window.size⟩).pos,
          (area.inter ⟨l.pos, l.window.size⟩).size⟩ : Rectangle).Contains x y ↔
            area.Contains x y ∧ (⟨l.pos, l.window.size⟩ : Rectangle).Contains x y :=
        Rectangle.inter_contains_iff
      simp only [shape]
      split_ifs <;> first | rfl | (exfalso; tauto)
  | some tc =>
      apply congrArg (FrameBuffer.mk buffer.size)
      funext x y
      simp only [clipped, ink, Layer.area, Rectangle.Contains, colour, Option.isSome_some, true_or,
        and_true, Option.some.injEq]
      by_cases inside : (0 ≤ x ∧ x < 0 + buffer.size.x ∧ 0 ≤ y ∧ y < 0 + buffer.size.y) ∧
          l.pos.x ≤ x ∧ x < l.pos.x + l.window.size.x ∧ l.pos.y ≤ y ∧ y < l.pos.y + l.window.size.y
      · rw [if_pos inside.1, if_pos inside.2]
        by_cases clear : l.window.pixel (x - l.pos.x) (y - l.pos.y) = tc
        · rw [if_neg (by tauto), if_pos clear.symm]
          rfl
        · rw [if_pos ⟨by omega, by omega, by omega, by omega, by omega, by omega, by omega, by omega,
            clear⟩, if_neg (Ne.symm clear)]
          rfl
      · rw [if_neg (by omega)]
        split_ifs <;> first | rfl | (exfalso; tauto)

end Layer

/-- Layers are painted one over another. -/
theorem foldl_drawTo (layers : List Layer) (buffer : FrameBuffer) (area : Rectangle) :
    layers.foldl (fun buffer layer => layer.drawTo buffer area) buffer =
      ⟨buffer.size, fun x y =>
        (visible (layers.map (Layer.clipped buffer.size area)) (x, y)).getD (buffer.pixel x y)⟩ := by
  induction layers generalizing buffer with
  | nil => rfl
  | cons l upper ih =>
      rw [List.foldl_cons, ih, l.drawTo_eq]
      simp only [List.map_cons, visible_cons, Option.getD_or]

/-- A copy to the same place. -/
theorem FrameBuffer.copy_same_pixel (dst src : FrameBuffer) (area : Rectangle) (x y : Int) :
    (dst.copy area.pos src area).pixel x y =
      if (dst.outline.Contains x y ∧ src.outline.Contains x y) ∧ area.Contains x y then
        src.pixel x y
      else dst.pixel x y := by
  have origin : area.pos - area.pos = ⟨0, 0⟩ :=
    Vector2D.eq_of_coordinates (sub_self _) (sub_self _)
  simp only [FrameBuffer.copy, Rectangle.inter_contains_iff, origin, sub_zero]
  rfl

/-! ## The screen and the back buffer -/

namespace LayerManager

variable {m : LayerManager} {p : Int × Int}

/-- What one should see. -/
def picture (m : LayerManager) : Sheet (Int × Int) PixelColor :=
  visible (m.shown.map Layer.ink)

/-- The pixel is one of the screen's. -/
def OnScreen (m : LayerManager) (p : Int × Int) : Prop :=
  m.screen.outline.Contains p.1 p.2

/-- The back buffer holds the picture at a pixel. -/
def HoldsAt (m : LayerManager) (p : Int × Int) : Prop :=
  m.picture p = some (m.backBuffer.pixel p.1 p.2)

/-- The screen shows the picture at a pixel, and the back buffer holds it. -/
def ShowsAt (m : LayerManager) (p : Int × Int) : Prop :=
  m.picture p = some (m.screen.pixel p.1 p.2) ∧ m.HoldsAt p

/-- The stack has one layer above all others, and only that one may have a transparent colour. -/
structure Topped (m : LayerManager) (lower : List Layer) (cursor : Layer) : Prop where
  shown : m.shown = lower ++ [cursor]
  solid : ∀ l ∈ lower, l.Solid
  sizes : m.backBuffer.size = m.screen.size

/-- Inside of the area, everything is painted. -/
theorem visible_clipped {size : Vector2D} {area : Rectangle} (layers : List Layer)
    (inside : (⟨⟨0, 0⟩, size⟩ : Rectangle).Contains p.1 p.2) (inArea : area.Contains p.1 p.2) :
    visible (layers.map (Layer.clipped size area)) p = visible (layers.map Layer.ink) p :=
  visible_map_congr fun _ _ => if_pos ⟨inside, .inr inArea⟩

/-- Outside of it, nothing is but the topmost layer. -/
theorem visible_clipped_outside {size : Vector2D} {area : Rectangle} {lower : List Layer}
    (solid : ∀ l ∈ lower, l.Solid) (cursor : Layer) (outside : ¬ area.Contains p.1 p.2) :
    visible ((lower ++ [cursor]).map (Layer.clipped size area)) p = cursor.clipped size area p := by
  have blank : visible (lower.map (Layer.clipped size area)) p = none := by
    rw [visible_eq_none_iff, List.forall_mem_map]
    intro l member
    have noColor : l.window.transparentColor = none := solid l member
    apply if_neg
    rw [noColor]
    rintro ⟨-, transparent | inArea⟩
    · cases transparent
    · exact outside inArea
  rw [List.map_append, visible_append, blank, Option.or_none]
  rfl

namespace Topped

variable {lower : List Layer} {cursor : Layer}

/-- The picture ends with the topmost layer. -/
theorem picture_eq (topped : m.Topped lower cursor) :
    m.picture p = (cursor.ink p).or (visible (lower.map Layer.ink) p) := by
  rw [picture, topped.shown, List.map_append, visible_append]
  rfl

/-- Where layers have been painted, without the area, the back buffer changes only to the ink of
the topmost one. -/
theorem painted_outside {layers : List Layer} {area : Rectangle} (solid : ∀ l ∈ layers, l.Solid)
    (cursor : Layer) (buffer : FrameBuffer) (outside : ¬ area.Contains p.1 p.2) :
    let painted := (layers ++ [cursor]).foldl (fun buffer layer => layer.drawTo buffer area) buffer
    painted.pixel p.1 p.2 = buffer.pixel p.1 p.2 ∨
      cursor.ink p = some (painted.pixel p.1 p.2) := by
  intro painted
  have pixel : painted.pixel p.1 p.2 =
      (cursor.clipped buffer.size area p).getD (buffer.pixel p.1 p.2) := by
    change ((layers ++ [cursor]).foldl _ buffer).pixel p.1 p.2 = _
    rw [foldl_drawTo]
    exact congrArg (Option.getD · _) (visible_clipped_outside solid cursor outside)
  rw [pixel, Layer.clipped]
  split
  · cases cursor.ink p with
    | none => exact .inl rfl
    | some c => exact .inr rfl
  · exact .inl rfl

end Topped

/-! ## Painting again -/

/-- Paint some layers into an area of the back buffer, and copy the area to the screen. -/
def repaint (m : LayerManager) (layers : List Layer) (area : Rectangle) : LayerManager :=
  let backBuffer := layers.foldl (fun buffer layer => layer.drawTo buffer area) m.backBuffer
  { m with backBuffer, screen := m.screen.copy area.pos backBuffer area }

theorem draw_eq_repaint (m : LayerManager) (area : Rectangle) :
    m.draw area = m.repaint m.shown area :=
  rfl

@[simp]
theorem picture_repaint (m : LayerManager) (layers : List Layer) (area : Rectangle) :
    (m.repaint layers area).picture = m.picture :=
  rfl

theorem onScreen_repaint (layers : List Layer) (area : Rectangle) :
    (m.repaint layers area).OnScreen p ↔ m.OnScreen p :=
  Iff.rfl

/-- The layers from some height on are painted again. -/
structure Repainted (m : LayerManager) (area : Rectangle) (m' : LayerManager) (upper : List Layer)
    (cursor : Layer) : Prop where
  eq : m' = m.repaint (upper ++ [cursor]) area
  stack : ∃ lower, m.Topped (lower ++ upper) cursor

namespace Repainted

variable {m' : LayerManager} {area : Rectangle} {upper : List Layer} {cursor : Layer}

theorem upper_solid (repainted : m.Repainted area m' upper cursor) : ∀ l ∈ upper, l.Solid := by
  obtain ⟨lower, topped⟩ := repainted.stack
  exact fun l member => topped.solid l (List.mem_append_right _ member)

theorem sizes (repainted : m.Repainted area m' upper cursor) : m.backBuffer.size = m.screen.size := by
  obtain ⟨lower, topped⟩ := repainted.stack
  exact topped.sizes

theorem picture (repainted : m.Repainted area m' upper cursor) : m'.picture = m.picture := by
  rw [repainted.eq, picture_repaint]

/-- The back buffer in the area. -/
theorem backBuffer_inside (repainted : m.Repainted area m' upper cursor) (on : m.OnScreen p)
    (inside : area.Contains p.1 p.2) :
    m'.backBuffer.pixel p.1 p.2 =
      (visible ((upper ++ [cursor]).map Layer.ink) p).getD (m.backBuffer.pixel p.1 p.2) := by
  have inBuffer : (⟨⟨0, 0⟩, m.backBuffer.size⟩ : Rectangle).Contains p.1 p.2 := by
    rw [repainted.sizes]
    exact on
  rw [repainted.eq]
  change (List.foldl _ m.backBuffer (upper ++ [cursor])).pixel p.1 p.2 = _
  rw [foldl_drawTo]
  exact congrArg (Option.getD · _) (visible_clipped _ inBuffer inside)

/-- The screen is what is in the back buffer, in the area. -/
theorem screen_inside (repainted : m.Repainted area m' upper cursor) (on : m.OnScreen p)
    (inside : area.Contains p.1 p.2) :
    m'.screen.pixel p.1 p.2 = m'.backBuffer.pixel p.1 p.2 := by
  rw [repainted.eq]
  have inBuffer : (m.repaint (upper ++ [cursor]) area).backBuffer.outline.Contains p.1 p.2 := by
    change (⟨⟨0, 0⟩, (List.foldl _ m.backBuffer (upper ++ [cursor])).size⟩ : Rectangle).Contains _ _
    rw [foldl_drawTo]
    change (⟨⟨0, 0⟩, m.backBuffer.size⟩ : Rectangle).Contains _ _
    rw [repainted.sizes]
    exact on
  exact (FrameBuffer.copy_same_pixel _ _ _ _ _).trans (if_pos ⟨⟨on, inBuffer⟩, inside⟩)

/-- Nothing changes on the screen outside of the area. -/
theorem screen_outside (repainted : m.Repainted area m' upper cursor)
    (outside : ¬ area.Contains p.1 p.2) : m'.screen.pixel p.1 p.2 = m.screen.pixel p.1 p.2 := by
  rw [repainted.eq]
  exact (FrameBuffer.copy_same_pixel _ _ _ _ _).trans (if_neg fun both => outside both.2)

theorem backBuffer_outside (repainted : m.Repainted area m' upper cursor)
    (outside : ¬ area.Contains p.1 p.2) :
    m'.backBuffer.pixel p.1 p.2 = m.backBuffer.pixel p.1 p.2 ∨
      cursor.ink p = some (m'.backBuffer.pixel p.1 p.2) := by
  rw [repainted.eq]
  exact Topped.painted_outside repainted.upper_solid cursor m.backBuffer outside

/-- The picture is what is seen of the layers that are painted, where they have ink. -/
theorem picture_of_ink (repainted : m.Repainted area m' upper cursor) {c : PixelColor}
    (ink : visible ((upper ++ [cursor]).map Layer.ink) p = some c) : m.picture p = some c := by
  obtain ⟨lower, topped⟩ := repainted.stack
  rw [LayerManager.picture, topped.shown, List.append_assoc, List.map_append, visible_append, ink]
  rfl

/-- The picture in the area is painted where the layers have ink. -/
theorem shows_of_ink (repainted : m.Repainted area m' upper cursor) (on : m.OnScreen p)
    (inside : area.Contains p.1 p.2)
    (ink : (visible ((upper ++ [cursor]).map Layer.ink) p).isSome) : m'.ShowsAt p := by
  obtain ⟨c, ink⟩ := Option.isSome_iff_exists.mp ink
  have holds : m'.HoldsAt p := by
    rw [HoldsAt, repainted.picture, repainted.picture_of_ink ink,
      repainted.backBuffer_inside on inside, ink]
    rfl
  exact ⟨by rw [repainted.screen_inside on inside]; exact holds, holds⟩

/-- What the back buffer holds it goes on holding. -/
theorem holds (repainted : m.Repainted area m' upper cursor) (on : m.OnScreen p)
    (holds : m.HoldsAt p) : m'.HoldsAt p := by
  obtain ⟨lower, topped⟩ := repainted.stack
  rw [HoldsAt, repainted.picture]
  by_cases inside : area.Contains p.1 p.2
  · rw [repainted.backBuffer_inside on inside]
    cases ink : visible ((upper ++ [cursor]).map Layer.ink) p with
    | none => exact holds
    | some c => exact repainted.picture_of_ink ink
  · rcases repainted.backBuffer_outside inside with same | ink
    · rw [same]
      exact holds
    · rw [topped.picture_eq, ink]
      rfl

/-- In the area, the screen shows the picture if the back buffer holds it. -/
theorem shows_of_holds (repainted : m.Repainted area m' upper cursor) (on : m.OnScreen p)
    (inside : area.Contains p.1 p.2) (held : m.HoldsAt p) : m'.ShowsAt p := by
  refine ⟨?_, repainted.holds on held⟩
  rw [repainted.screen_inside on inside]
  exact repainted.holds on held

/-- What the screen shows it goes on showing. -/
theorem shows (repainted : m.Repainted area m' upper cursor) (on : m.OnScreen p)
    (shown : m.ShowsAt p) : m'.ShowsAt p := by
  by_cases inside : area.Contains p.1 p.2
  · exact repainted.shows_of_holds on inside shown.2
  · refine ⟨?_, repainted.holds on shown.2⟩
    rw [repainted.picture, repainted.screen_outside inside]
    exact shown.1

/-- A topmost layer with a transparent colour is painted everywhere. -/
theorem holds_of_lower (repainted : m.Repainted area m' upper cursor) (on : m.OnScreen p)
    (outside : ¬ area.Contains p.1 p.2) (transparent : ¬ cursor.Solid) {lower : List Layer}
    (topped : m.Topped lower cursor)
    (under : visible (lower.map Layer.ink) p = some (m.backBuffer.pixel p.1 p.2)) :
    m'.HoldsAt p := by
  have inBuffer : (⟨⟨0, 0⟩, m.backBuffer.size⟩ : Rectangle).Contains p.1 p.2 := by
    rw [repainted.sizes]
    exact on
  have colour : cursor.window.transparentColor.isSome = true :=
    Option.isSome_iff_ne_none.mpr transparent
  have painted : m'.backBuffer.pixel p.1 p.2 =
      (cursor.ink p).getD (m.backBuffer.pixel p.1 p.2) := by
    rw [repainted.eq]
    change (List.foldl _ m.backBuffer (upper ++ [cursor])).pixel p.1 p.2 = _
    rw [foldl_drawTo]
    refine congrArg (Option.getD · _) ((visible_clipped_outside repainted.upper_solid cursor
      outside).trans (if_pos ⟨inBuffer, .inl colour⟩))
  rw [HoldsAt, repainted.picture, topped.picture_eq, painted, under]
  cases cursor.ink p <;> rfl

end Repainted

/-! ## `Draw(id, area)` -/

section

variable {id : Nat} {area : Rectangle}

/-- Layers below the one that is asked for are passed over. -/
theorem drawRound_lower {lower : List Layer} (others : ∀ l ∈ lower, l.id ≠ id)
    (buffer : FrameBuffer) :
    lower.foldl (drawRound id) (area, none, buffer) = (area, none, buffer) := by
  induction lower with
  | nil => rfl
  | cons l rest ih =>
      rw [List.foldl_cons, drawRound, if_neg (others l List.mem_cons_self)]
      exact ih fun l member => others l (List.mem_cons_of_mem _ member)

/-- Layers above it are drawn. -/
theorem drawRound_upper {upper : List Layer} (others : ∀ l ∈ upper, l.id ≠ id)
    (drawn : Rectangle) (buffer : FrameBuffer) :
    upper.foldl (drawRound id) (area, some drawn, buffer) =
      (area, some drawn, upper.foldl (fun buffer layer => layer.drawTo buffer drawn) buffer) := by
  induction upper generalizing buffer with
  | nil => rfl
  | cons l rest ih =>
      rw [List.foldl_cons, drawRound, if_neg (others l List.mem_cons_self)]
      exact ih (fun l member => others l (List.mem_cons_of_mem _ member)) _

/-- The layer and those above it are painted again, in the part of its window. -/
theorem drawLayer_eq_repaint {lower upper : List Layer} {l : Layer}
    (shown : m.shown = lower ++ l :: upper) (here : l.id = id)
    (others : ∀ l ∈ lower ++ upper, l.id ≠ id) :
    m.drawLayer id area = some (m.repaint (l :: upper) (windowArea l area)) := by
  rw [drawLayer, shown, List.foldl_append,
    drawRound_lower fun l member => others l (List.mem_append_left _ member), List.foldl_cons,
    drawRound, if_pos here]
  dsimp only
  rw [drawRound_upper fun l member => others l (List.mem_append_right _ member)]
  rfl

/-- The part of the window that is drawn again. -/
theorem windowArea_contains {l : Layer} (inside : (windowArea l area).Contains p.1 p.2) :
    l.area.Contains p.1 p.2 := by
  rw [windowArea] at inside
  split at inside
  · exact (Rectangle.inter_contains_iff.mp inside).1
  · exact inside

/-- Without an area, it is the whole window. -/
theorem windowArea_whole (l : Layer) : windowArea l ⟨⟨0, 0⟩, ⟨-1, -1⟩⟩ = l.area :=
  rfl

end

/-! ## Layers that change -/

/-- The layers in the stack after one has changed. -/
theorem shown_set {l' : Layer} :
    (m.set l').shown = m.shown.map fun l => if l.address = l'.address then l' else l := by
  rw [shown, shown, set, List.map_filterMap]
  congr 1
  funext address
  rw [layerAt, layerAt, List.find?_map]
  congr 2
  funext l
  rw [Function.comp_apply]
  split
  · rename_i same
    rw [same]
  · rfl

/-- The picture stays the same where the layer looks the same. -/
theorem picture_set {l' : Layer} (same : ∀ l ∈ m.shown, l.address = l'.address → l.ink p = l'.ink p) :
    (m.set l').picture p = m.picture p := by
  rw [picture, shown_set, List.map_map, picture]
  apply visible_map_congr
  intro l member
  rw [Function.comp_apply]
  split
  · rename_i here
    exact (same l member here).symm
  · rfl

end LayerManager
end Mikanos.Screen
