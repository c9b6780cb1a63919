import Mikanos.Screen.Font
import Mikanos.Screen.Layers
import Mikanos.Screen.Line

/-!
# Drawing in a window

The system calls that write to the pixels of a window.  `Window::Write` does not check
its coordinates, and the drawing functions do not clip, so that a call stays inside the
window exactly if what it is asked to draw lies inside.  Coordinates are integers here:
where the program would exceed `int`, it is already outside of every window.
-/

namespace Mikanos.Screen

open Mikanos.Memory

theorem Vector2D.zero_add (p : Vector2D) : (⟨0, 0⟩ : Vector2D) + p = p := by
  cases p
  exact congrArg₂ Vector2D.mk (Int.zero_add _) (Int.zero_add _)

theorem Vector2D.add_assoc (p q r : Vector2D) : p + q + r = p + (q + r) := by
  exact congrArg₂ Vector2D.mk (Int.add_assoc _ _ _) (Int.add_assoc _ _ _)

/-! ## Rectangles -/

namespace Rectangle

/-- The rectangle is a part of another one. -/
def Within (inner outer : Rectangle) : Prop :=
  outer.pos.x ≤ inner.pos.x ∧ inner.pos.x + inner.size.x ≤ outer.pos.x + outer.size.x ∧
    outer.pos.y ≤ inner.pos.y ∧ inner.pos.y + inner.size.y ≤ outer.pos.y + outer.size.y

instance (inner outer : Rectangle) : Decidable (inner.Within outer) :=
  inferInstanceAs (Decidable (_ ∧ _ ∧ _ ∧ _))

/-- The smallest rectangle with a pixel and another rectangle. -/
def cover (p : Vector2D) (r : Rectangle) : Rectangle where
  pos := ⟨min p.x r.pos.x, min p.y r.pos.y⟩
  size := ⟨max (p.x + 1) (r.pos.x + r.size.x) - min p.x r.pos.x,
    max (p.y + 1) (r.pos.y + r.size.y) - min p.y r.pos.y⟩

theorem within_cover (p : Vector2D) (r outer : Rectangle) :
    (cover p r).Within outer ↔ outer.Contains p.x p.y ∧ r.Within outer := by
  rw [Within, Within, Contains, cover]
  dsimp only
  omega

/-- The smallest rectangle with all of the given pixels, if there are any. -/
def inkBox : List Vector2D → Option Rectangle
  | [] => none
  | p :: rest =>
      match inkBox rest with
      | none => some ⟨p, ⟨1, 1⟩⟩
      | some box => some (cover p box)

/-- Pixels lie in a rectangle exactly if the smallest rectangle with them does. -/
theorem forall_contains_iff (outer : Rectangle) (pixels : List Vector2D) :
    (∀ p ∈ pixels, outer.Contains p.x p.y) ↔ ∀ box ∈ inkBox pixels, box.Within outer := by
  induction pixels with
  | nil => simp [inkBox]
  | cons p rest ih =>
      rw [List.forall_mem_cons, ih, inkBox]
      cases rested : inkBox rest with
      | none =>
          simp only [Option.mem_def, reduceCtorEq, false_imp_iff, implies_true, and_true,
            Option.some.injEq, forall_eq']
          rw [Contains, Within]
          dsimp only
          omega
      | some box =>
          simp only [Option.mem_def, Option.some.injEq, forall_eq']
          exact (within_cover p box outer).symm

/-- The rectangle, moved. -/
def shift (pos : Vector2D) (r : Rectangle) : Rectangle :=
  ⟨pos + r.pos, r.size⟩

theorem inkBox_map (pos : Vector2D) (pixels : List Vector2D) :
    inkBox (pixels.map (pos + ·)) = (inkBox pixels).map (shift pos) := by
  induction pixels with
  | nil => rfl
  | cons p rest ih =>
      rw [List.map_cons, inkBox, ih, inkBox]
      cases inkBox rest with
      | none => rfl
      | some box =>
          simp only [Option.map_some, Option.some.injEq]
          simp only [shift, cover, Vector2D.add_x, Vector2D.add_y, mk.injEq]
          constructor
          · exact congrArg₂ Vector2D.mk (min_add_add_left _ _ _) (min_add_add_left _ _ _)
          · congr 1 <;> omega

end Rectangle

/-! ## Characters -/

namespace Font

variable (font : Font)

/-- Drawing a character elsewhere. -/
theorem writeAscii_eq (pos : Vector2D) (c : Nat) :
    font.writeAscii pos c = (font.writeAscii ⟨0, 0⟩ c).map (pos + ·) := by
  rw [writeAscii, writeAscii]
  cases font.getFont c with
  | none => rfl
  | some start =>
      simp only [List.map_flatMap, List.map_filterMap]
      congr
      funext dy
      congr
      funext dx
      split_ifs
      · rw [Option.map_some, Vector2D.zero_add]
      · rfl

theorem writeMissing_eq (pos : Vector2D) :
    font.writeMissing pos = (font.writeMissing ⟨0, 0⟩).map (pos + ·) := by
  rw [writeMissing, writeMissing, font.writeAscii_eq pos, font.writeAscii_eq (pos + _),
    font.writeAscii_eq (⟨0, 0⟩ + _), List.map_append, List.map_map]
  congr 2
  funext p
  rw [Function.comp_apply, Vector2D.zero_add, Vector2D.add_assoc]

theorem writeBitmap_eq (pos : Vector2D) (bitmap : Bitmap) :
    writeBitmap pos bitmap = (writeBitmap ⟨0, 0⟩ bitmap).map (pos + ·) := by
  rw [writeBitmap, writeBitmap]
  simp only [List.map_flatMap, List.map_filterMap]
  congr
  funext dy
  congr
  funext dx
  split_ifs
  · rw [Option.map_some, Vector2D.zero_add]
  · rfl

/-- The pixels of a character, relative to its position. -/
def glyph (c : Nat) : List Vector2D :=
  font.writeUnicode ⟨0, 0⟩ c

theorem writeUnicode_eq (pos : Vector2D) (c : Nat) :
    font.writeUnicode pos c = (font.glyph c).map (pos + ·) := by
  rw [glyph, writeUnicode, writeUnicode]
  split_ifs
  · exact font.writeAscii_eq pos c
  · split
    · exact font.writeMissing_eq pos
    · split
      · exact font.writeMissing_eq pos
      · rw [writeBitmap_eq, writeBitmap_eq (⟨0, 0⟩ + _), List.map_map]
        congr 1
        funext p
        rw [Function.comp_apply, Vector2D.zero_add, Vector2D.add_assoc]

/-- The ink of a character lies in a rectangle exactly if the smallest rectangle with it
does. -/
theorem writeUnicode_inside_iff (outer : Rectangle) (pos : Vector2D) (c : Nat) :
    (∀ p ∈ font.writeUnicode pos c, outer.Contains p.x p.y) ↔
      ∀ box ∈ Rectangle.inkBox (font.glyph c), (box.shift pos).Within outer := by
  rw [Rectangle.forall_contains_iff, writeUnicode_eq, Rectangle.inkBox_map]
  cases Rectangle.inkBox (font.glyph c) with
  | none => simp
  | some box => simp

/-! ## Strings -/

/-- The columns and characters of the first rounds of the loop of `WriteString`. -/
def cells (mem : Mem) : Nat → (s x : Nat) → List (Nat × Nat)
  | 0, _, _ => []
  | rounds + 1, s, x =>
      if charAt mem s 0 = 0 then []
      else
        let (u32, bytes) := convertUTF8To32 mem s
        (x, u32) :: cells mem rounds (s + bytes) (x + if isHankaku u32 then 1 else 2)

theorem writeString_eq (mem : Mem) (pos : Vector2D) (rounds s x : Nat) :
    font.writeString mem pos rounds s x =
      (cells mem rounds s x).flatMap fun cell =>
        font.writeUnicode (pos + ⟨8 * cell.1, 0⟩) cell.2 := by
  induction rounds generalizing s x with
  | zero => rfl
  | succ rounds ih =>
      rw [writeString, cells]
      by_cases ended : charAt mem s 0 = 0
      · rw [if_pos ended, if_pos ended]
        rfl
      · rw [if_neg ended, if_neg ended]
        simp only [ih, List.flatMap_cons]

end Font

/-! ## Filled rectangles -/

/-- `FillRectangle`. -/
def fillRectangle (pos size : Vector2D) : List Vector2D :=
  (List.range size.y.toNat).flatMap fun (dy : Nat) =>
    (List.range size.x.toNat).map fun (dx : Nat) => pos + ⟨dx, dy⟩

theorem mem_fillRectangle {pos size p : Vector2D} :
    p ∈ fillRectangle pos size ↔ (⟨pos, size⟩ : Rectangle).Contains p.x p.y := by
  rcases p with ⟨x, y⟩
  rw [fillRectangle, List.mem_flatMap, Rectangle.Contains]
  constructor
  · rintro ⟨dy, memberY, inRow⟩
    rcases List.mem_map.mp inRow with ⟨dx, memberX, pixel⟩
    rw [List.mem_range] at memberX memberY
    cases pixel
    dsimp only [Vector2D.add_x, Vector2D.add_y]
    omega
  · rintro ⟨left, right, top, bottom⟩
    dsimp only at left right top bottom
    refine ⟨(y - pos.y).toNat, ?_, List.mem_map.mpr ⟨(x - pos.x).toNat, ?_, ?_⟩⟩
    · rw [List.mem_range]
      omega
    · rw [List.mem_range]
      omega
    · apply congrArg₂ Vector2D.mk
      · show pos.x + ((x - pos.x).toNat : Int) = x
        omega
      · show pos.y + ((y - pos.y).toNat : Int) = y
        omega

/-- A rectangle without pixels can be filled anywhere. -/
theorem fillRectangle_inside_iff (pos size : Vector2D) (outer : Rectangle) :
    (∀ p ∈ fillRectangle pos size, outer.Contains p.x p.y) ↔
      size.x ≤ 0 ∨ size.y ≤ 0 ∨ (⟨pos, size⟩ : Rectangle).Within outer := by
  constructor
  · intro inside
    by_cases flat : size.x ≤ 0 ∨ size.y ≤ 0
    · tauto
    · right
      right
      have first := inside pos (mem_fillRectangle.mpr (by rw [Rectangle.Contains]; dsimp only; omega))
      have last := inside ⟨pos.x + size.x - 1, pos.y + size.y - 1⟩
        (mem_fillRectangle.mpr (by rw [Rectangle.Contains]; dsimp only; omega))
      rw [Rectangle.Contains] at first last
      rw [Rectangle.Within]
      dsimp only at last ⊢
      omega
  · intro condition p member
    have pixel := mem_fillRectangle.mp member
    rw [Rectangle.Contains] at pixel ⊢
    rw [Rectangle.Within] at condition
    dsimp only at pixel condition
    omega

/-! ## System calls -/

/-- `static_cast<int>` of an argument. -/
def toInt (arg : UInt64) : Int :=
  (arg.toNat : Int).bmod (2 ^ 32)

theorem isInt_bmod {x : Int} {m : Nat} (width : m = 2 ^ 32) : IsInt (x.bmod m) := by
  have lower := Int.le_bmod (x := x) (m := m) (by omega)
  have upper := Int.bmod_lt (x := x) (m := m) (by omega)
  rw [IsInt]
  omega

theorem isInt_toInt (arg : UInt64) : IsInt (toInt arg) :=
  isInt_bmod rfl

/-- `ToColor` of the low half of an argument. -/
def toColor (arg : UInt64) : PixelColor where
  r := BitVec.ofNat 8 (arg.toNat / 2 ^ 16)
  g := BitVec.ofNat 8 (arg.toNat / 2 ^ 8)
  b := BitVec.ofNat 8 arg.toNat

/-- The system calls that draw, with their arguments. -/
inductive DrawCall
  | winWriteString (layerIdFlags x y color s : UInt64)
  | winFillRectangle (layerIdFlags x y w h color : UInt64)
  | winDrawLine (layerIdFlags x0 y0 x1 y1 color : UInt64)

namespace DrawCall

/-- The layer id that `DoWinFunc` looks for. -/
def layerId : DrawCall → Nat
  | winWriteString layerIdFlags _ _ _ _ => layerIdFlags.toNat % 2 ^ 32
  | winFillRectangle layerIdFlags _ _ _ _ _ => layerIdFlags.toNat % 2 ^ 32
  | winDrawLine layerIdFlags _ _ _ _ _ => layerIdFlags.toNat % 2 ^ 32

/-- The calls of `Window::Write` that the first rounds of the outermost loop make. -/
def writes (font : Font) (mem : Mem) (rounds : Nat) : DrawCall → List (Vector2D × PixelColor)
  | winWriteString _ x y color s =>
      (font.writeString mem ⟨toInt x, toInt y⟩ rounds s.toNat 0).map (·, toColor color)
  | winFillRectangle _ x y w h color =>
      (fillRectangle ⟨toInt x, toInt y⟩ ⟨toInt w, toInt h⟩).map (·, toColor color)
  | winDrawLine _ x0 y0 x1 y1 color =>
      (drawLine (toInt x0) (toInt y0) (toInt x1) (toInt y1)).map (·, toColor color)

/-- What is to be drawn lies in a window of the given size. -/
def Admits (font : Font) (mem : Mem) (size : Vector2D) : DrawCall → Prop
  | winWriteString _ x y _ s =>
      ∀ rounds, ∀ cell ∈ Font.cells mem rounds s.toNat 0,
        ∀ box ∈ Rectangle.inkBox (font.glyph cell.2),
          (box.shift (⟨toInt x, toInt y⟩ + ⟨8 * cell.1, 0⟩)).Within (outline size)
  | winFillRectangle _ x y w h _ =>
      toInt w ≤ 0 ∨ toInt h ≤ 0 ∨
        (⟨⟨toInt x, toInt y⟩, ⟨toInt w, toInt h⟩⟩ : Rectangle).Within (outline size)
  | winDrawLine _ x0 y0 x1 y1 _ =>
      (outline size).Contains (toInt x0) (toInt y0) ∧ (outline size).Contains (toInt x1) (toInt y1)

/-- Every pixel that is written is one of the window's. -/
def DrawsInside (font : Font) (mem : Mem) (m : LayerManager) (call : DrawCall) : Prop :=
  ∀ layer ∈ m.findLayer call.layerId, ∀ rounds, ∀ write ∈ call.writes font mem rounds,
    (outline layer.window.size).Contains write.1.x write.1.y

theorem writes_inside_iff (font : Font) (mem : Mem) {size : Vector2D} (allocated : Allocated size)
    (call : DrawCall) :
    (∀ rounds, ∀ write ∈ call.writes font mem rounds, (outline size).Contains write.1.x write.1.y) ↔
      call.Admits font mem size := by
  cases call with
  | winWriteString layerIdFlags x y color s =>
      apply forall_congr'
      intro rounds
      rw [writes, List.forall_mem_map, Font.writeString_eq, List.forall_mem_flatMap]
      apply forall₂_congr
      intro cell _
      exact font.writeUnicode_inside_iff _ _ _
  | winFillRectangle layerIdFlags x y w h color =>
      simp only [writes, List.forall_mem_map, forall_const, Admits]
      generalize toInt w = w, toInt h = h
      exact fillRectangle_inside_iff _ _ _
  | winDrawLine layerIdFlags x0 y0 x1 y1 color =>
      simp only [writes, List.forall_mem_map, forall_const, Admits]
      exact drawLine_inside_iff allocated (isInt_toInt x0) (isInt_toInt y0) (isInt_toInt x1)
        (isInt_toInt y1)

/-- A call stays inside the window exactly if what it is to draw lies in the window. -/
theorem drawsInside_iff (font : Font) (mem : Mem) {m : LayerManager}
    (allocated : ∀ layer ∈ m.layers, Allocated layer.window.size) (call : DrawCall) :
    DrawsInside font mem m call ↔
      ∀ layer ∈ m.findLayer call.layerId, call.Admits font mem layer.window.size := by
  apply forall₂_congr
  intro layer found
  exact writes_inside_iff font mem (allocated layer (List.mem_of_find?_eq_some found)) call

/-! ## A pixel beside the window -/

/-- A window of ten pixels by ten. -/
def smallManager : LayerManager where
  screen := ⟨⟨10, 10⟩, fun _ _ => ⟨0, 0, 0⟩⟩
  backBuffer := ⟨⟨10, 10⟩, fun _ _ => ⟨0, 0, 0⟩⟩
  layers := [⟨0, 1, ⟨0, 0⟩, ⟨⟨10, 10⟩, fun _ _ => ⟨0, 0, 0⟩, none, fun _ _ _ => none⟩, true⟩]
  layerStack := [0]
  latestId := 1
  nextAddress := 1

/-- No font at all. -/
def noFont : Font where
  hankaku := []
  newFTFace := none

theorem drawsInside_iff_diagonal :
    DrawsInside noFont (fun _ => 0) smallManager (winDrawLine 1 0 0 9 9 0) ↔
      ∀ layer ∈ smallManager.findLayer (winDrawLine 1 0 0 9 9 0).layerId,
        (winDrawLine 1 0 0 9 9 0).Admits noFont (fun _ => 0) layer.window.size := by
  apply drawsInside_iff
  intro layer member
  rw [List.mem_singleton.mp member]
  constructor <;> decide

theorem not_drawsInside_leftOfWindow :
    (∀ layer ∈ smallManager.layers, Allocated layer.window.size) ∧
      ¬ DrawsInside noFont (fun _ => 0) smallManager
        (winFillRectangle 1 0xffffffffffffffff 0 1 1 0) := by
  constructor
  · intro layer member
    rw [List.mem_singleton.mp member]
    constructor <;> decide
  · intro inside
    have pixel := inside _ rfl 0 (⟨-1, 0⟩, toColor 0) (by decide)
    exact absurd pixel.1 (by decide)

end DrawCall

end Mikanos.Screen
