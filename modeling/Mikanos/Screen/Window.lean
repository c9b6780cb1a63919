import Mathlib.Tactic

/-!
# Windows and frame buffers

Rectangles, the pixel arrays of windows and frame buffers, and how a window is drawn
into a frame buffer.  A window without a transparent colour is copied as a
rectangle; the others are drawn pixel by pixel, wherever the area is that is to be
drawn.
-/

namespace Mikanos.Screen

/-- `Vector2D<int>`. -/
structure Vector2D where
  x : Int
  y : Int
  deriving DecidableEq

instance : Add Vector2D :=
  ⟨fun lhs rhs => ⟨lhs.x + rhs.x, lhs.y + rhs.y⟩⟩

instance : Sub Vector2D :=
  ⟨fun lhs rhs => ⟨lhs.x - rhs.x, lhs.y - rhs.y⟩⟩

namespace Vector2D

variable (lhs rhs : Vector2D)

@[simp]
theorem add_x : (lhs + rhs).x = lhs.x + rhs.x := rfl

@[simp]
theorem add_y : (lhs + rhs).y = lhs.y + rhs.y := rfl

@[simp]
theorem sub_x : (lhs - rhs).x = lhs.x - rhs.x := rfl

@[simp]
theorem sub_y : (lhs - rhs).y = lhs.y - rhs.y := rfl

end Vector2D

/-- `Rectangle<int>`. -/
structure Rectangle where
  pos : Vector2D
  size : Vector2D
  deriving DecidableEq

namespace Rectangle

/-- `operator&`. -/
def inter (lhs rhs : Rectangle) : Rectangle :=
  let lhsEnd := lhs.pos + lhs.size
  let rhsEnd := rhs.pos + rhs.size
  if lhsEnd.x < rhs.pos.x ∨ lhsEnd.y < rhs.pos.y ∨ rhsEnd.x < lhs.pos.x ∨ rhsEnd.y < lhs.pos.y then
    ⟨⟨0, 0⟩, ⟨0, 0⟩⟩
  else
    let newPos : Vector2D := ⟨max lhs.pos.x rhs.pos.x, max lhs.pos.y rhs.pos.y⟩
    ⟨newPos, ⟨min lhsEnd.x rhsEnd.x, min lhsEnd.y rhsEnd.y⟩ - newPos⟩

/-- The pixel is one of the rectangle's. -/
def Contains (r : Rectangle) (x y : Int) : Prop :=
  r.pos.x ≤ x ∧ x < r.pos.x + r.size.x ∧ r.pos.y ≤ y ∧ y < r.pos.y + r.size.y

instance (r : Rectangle) (x y : Int) : Decidable (r.Contains x y) :=
  inferInstanceAs (Decidable (_ ∧ _ ∧ _ ∧ _))

end Rectangle

/-- `PixelColor`. -/
structure PixelColor where
  r : BitVec 8
  g : BitVec 8
  b : BitVec 8
  deriving DecidableEq

/-- `FrameBuffer`; all of them have the pixel format of the screen. -/
structure FrameBuffer where
  size : Vector2D
  pixel : Int → Int → PixelColor

namespace FrameBuffer

/-- The rectangle of all pixels. -/
def outline (f : FrameBuffer) : Rectangle :=
  ⟨⟨0, 0⟩, f.size⟩

/-- `Copy`. -/
def copy (dst : FrameBuffer) (dstPos : Vector2D) (src : FrameBuffer) (srcArea : Rectangle) :
    FrameBuffer :=
  let srcAreaShifted : Rectangle := ⟨dstPos, srcArea.size⟩
  let srcOutline : Rectangle := ⟨dstPos - srcArea.pos, src.size⟩
  let copyArea := (dst.outline.inter srcOutline).inter srcAreaShifted
  { dst with
    pixel := fun x y =>
      if copyArea.Contains x y then
        src.pixel (x - (dstPos - srcArea.pos).x) (y - (dstPos - srcArea.pos).y)
      else dst.pixel x y }

end FrameBuffer

/-- `Window`.  `data_` and `shadow_buffer_` have the same pixels; `title` are the
pixels that `DrawWindowTitle` writes for an inactive and for an active window, and a
window that is not a `ToplevelWindow` has none. -/
structure Window where
  size : Vector2D
  pixel : Int → Int → PixelColor
  transparentColor : Option PixelColor
  title : Bool → Int → Int → Option PixelColor

namespace Window

/-- `shadow_buffer_`. -/
def shadowBuffer (w : Window) : FrameBuffer :=
  ⟨w.size, w.pixel⟩

/-- `DrawTo`. -/
def drawTo (w : Window) (dst : FrameBuffer) (pos : Vector2D) (area : Rectangle) : FrameBuffer :=
  match w.transparentColor with
  | none =>
      let intersection := area.inter ⟨pos, w.size⟩
      dst.copy intersection.pos w.shadowBuffer ⟨intersection.pos - pos, intersection.size⟩
  | some tc => { dst with
      pixel := fun x y =>
        if 0 ≤ x - pos.x ∧ x - pos.x < w.size.x ∧ 0 ≤ x ∧ x < dst.size.x ∧
            0 ≤ y - pos.y ∧ y - pos.y < w.size.y ∧ 0 ≤ y ∧ y < dst.size.y ∧
            w.pixel (x - pos.x) (y - pos.y) ≠ tc then
          w.pixel (x - pos.x) (y - pos.y)
        else dst.pixel x y }

/-- `DrawWindowTitle` writes the title. -/
def drawTitle (w : Window) (active : Bool) : Window :=
  { w with pixel := fun x y => (w.title active x y).getD (w.pixel x y) }

/-- `Activate`. -/
def activate (w : Window) : Window :=
  w.drawTitle true

/-- `Deactivate`. -/
def deactivate (w : Window) : Window :=
  w.drawTitle false

end Window
end Mikanos.Screen
