import Mikanos.Screen.Drawing
import Mikanos.Screen.WindowStores

/-!
# What is seen of a window

A window without a transparent colour is drawn from its shadow buffer.  As long as the calls stay inside
of the window, its pixels change as those of a picture do.
-/

namespace Mikanos.Screen.WindowStores

open Transition

/-- The colour of a pixel of the shadow buffer. -/
def seen (w : WindowStores) (p : Vector2D) : PixelColor :=
  w.shadowBuffer.colorAt p.x p.y

/-- Calls inside of the window, one after the other. -/
abbrev Calls : WindowStores → List WindowCall → WindowStores → Prop :=
  Run (guarded (ofFunction next) InBounds)

/-- The calls succeed, and the window shows the picture afterwards. -/
def Becomes (w : WindowStores) (calls : List WindowCall) (picture : Vector2D → PixelColor) : Prop :=
  ∃ w', w.Calls calls w' ∧ w'.config = w.config ∧
    ∀ p, w.config.HasPixel p.x p.y → w'.seen p = picture p

variable {w : WindowStores} {pos p : Vector2D}

/-- The same colour for each pixel of a list. -/
def strokes (c : PixelColor) (points : List Vector2D) : List WindowCall :=
  points.map fun p => .write p c

theorem seen_write (inside : w.config.HasPixel pos.x pos.y) (c : PixelColor)
    (pixel : w.config.HasPixel p.x p.y) :
    (w.write pos c).seen p = if p = pos then c else w.seen p := by
  have shown := Raster.colorAt_write (r := w.shadowBuffer) inside (offset_lt inside) pixel c
  rw [seen, shadowBuffer_write, shown]
  by_cases same : p = pos
  · rw [if_pos same, same, if_pos ⟨rfl, rfl⟩]
  · rw [if_neg same, if_neg fun equal => same (Vector2D.eq_of_coordinates equal.1 equal.2)]
    rfl

/-- Pixels of a list are coloured, and the others are as before. -/
theorem becomes_strokes (c : PixelColor) {points : List Vector2D}
    (inside : ∀ p ∈ points, w.config.HasPixel p.x p.y) :
    w.Becomes (strokes c points) fun p => if p ∈ points then c else w.seen p := by
  induction points generalizing w with
  | nil => exact ⟨w, .nil w, rfl, fun p _ => (if_neg List.not_mem_nil).symm⟩
  | cons first rest ih =>
      have here := inside first List.mem_cons_self
      rcases @ih (w.write first c) fun p member => inside p (List.mem_cons_of_mem _ member) with
        ⟨w', calls, config, shown⟩
      refine ⟨w', .cons ⟨here, rfl⟩ calls, config, fun p pixel => ?_⟩
      rw [shown p pixel]
      dsimp only
      rw [seen_write here c pixel]
      by_cases same : p = first
      · rw [if_pos same, ite_self, if_pos (List.mem_cons.mpr (.inl same))]
      · rw [if_neg same]
        by_cases later : p ∈ rest
        · rw [if_pos later, if_pos (List.mem_cons_of_mem _ later)]
        · rw [if_neg later, if_neg fun member => (List.mem_cons.mp member).elim same later]

/-- Rows that are moved up or down. -/
theorem becomes_move {dstPos : Vector2D} {src : Rectangle} (inBounds : w.InBounds (.move dstPos src))
    (vertical : dstPos.y ≠ src.pos.y) :
    w.Becomes [.move dstPos src] fun p =>
      if Rectangle.Contains ⟨dstPos, src.size⟩ p.x p.y then
        w.seen ⟨src.pos.x + (p.x - dstPos.x), src.pos.y + (p.y - dstPos.y)⟩
      else w.seen p := by
  rcases inBounds with ⟨nonneg, hasSrc, hasDst⟩
  have request : MoveRequest w.config.toFrameBufferConfig dstPos src :=
    ⟨nonneg, hasSrc, hasDst, .inl vertical⟩
  rcases (request.movesPicture_of_movable (movable hasSrc hasDst)).pixel w.shadow with
    ⟨after, moved, shown⟩
  have step : w.next (.move dstPos src) = some { w with shadow := after } := by
    rw [next, move, shadowBuffer, moved]
    rfl
  refine ⟨_, .single ⟨⟨nonneg, hasSrc, hasDst⟩, step⟩, rfl, fun p pixel => ?_⟩
  have bytes := shown p.x p.y pixel
  dsimp only
  by_cases contains : Rectangle.Contains ⟨dstPos, src.size⟩ p.x p.y
  · rw [if_pos contains]
    refine Raster.colorAt_congr (r := ⟨w.config.toFrameBufferConfig, after⟩) (s := w.shadowBuffer) rfl
      fun i byte => ?_
    exact (bytes i byte).trans (if_pos contains)
  · rw [if_neg contains]
    refine Raster.colorAt_congr (r := ⟨w.config.toFrameBufferConfig, after⟩) (s := w.shadowBuffer) rfl
      fun i byte => ?_
    exact (bytes i byte).trans (if_neg contains)

/-- A rectangle that is filled. -/
theorem becomes_fillRectangle (c : PixelColor) {pos size : Vector2D}
    (inside : w.config.HasRectangle ⟨pos, size⟩) :
    w.Becomes (strokes c (fillRectangle pos size)) fun p =>
      if (⟨pos, size⟩ : Rectangle).Contains p.x p.y then c else w.seen p := by
  rcases inside with ⟨⟨left, right⟩, top, bottom⟩
  dsimp only at left right top bottom
  have pixels : ∀ p ∈ fillRectangle pos size, w.config.HasPixel p.x p.y := by
    intro p member
    rcases mem_fillRectangle.mp member with ⟨p_left, p_right, p_top, p_bottom⟩
    dsimp only at p_left p_right p_top p_bottom
    exact ⟨⟨by omega, by omega⟩, by omega, by omega⟩
  rcases becomes_strokes c pixels with ⟨w', calls, config, shown⟩
  refine ⟨w', calls, config, fun p pixel => ?_⟩
  rw [shown p pixel]
  simp only [mem_fillRectangle]

end Mikanos.Screen.WindowStores
