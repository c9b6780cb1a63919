import Mikanos.Screen.RasterMove
import Mikanos.Transition.Run

/-!
# The two stores of a window

A window keeps its pixels in `data_` and in the frame buffer `shadow_buffer_`, and is drawn from the
first if it has a transparent colour and from the second otherwise.  `Write` changes both of them,
but `Move` only the second, so that they agree as long as what is moved looks the same afterwards.
-/

namespace Mikanos.Screen

open Memory FrameBufferConfig

/-! ## The code -/

/-- The three bytes that a pixel writer stores. -/
def poke (byte : Int → UInt8) (p : Int) (a b c : UInt8) : Int → UInt8 :=
  Function.update (Function.update (Function.update byte p a) (p + 1) b) (p + 2) c

section

variable (byte : Int → UInt8) (p : Int) (a b c : UInt8)

theorem poke_zero : poke byte p a b c p = a := by
  rw [poke, Function.update_of_ne (by omega), Function.update_of_ne (by omega),
    Function.update_self]

theorem poke_one : poke byte p a b c (p + 1) = b := by
  rw [poke, Function.update_of_ne (by omega), Function.update_self]

theorem poke_two : poke byte p a b c (p + 2) = c :=
  Function.update_self ..

variable {byte p} in
theorem poke_of_ne {q : Int} (first : q ≠ p) (second : q ≠ p + 1) (third : q ≠ p + 2) :
    poke byte p a b c q = byte q := by
  rw [poke, Function.update_of_ne third, Function.update_of_ne second, Function.update_of_ne first]

end

/-- `Write` of the pixel writer for the format. -/
def Raster.write (r : Raster) (pos : Vector2D) (c : PixelColor) : Raster :=
  let p := 4 * (r.config.pixelsPerScanLine * pos.y + pos.x) % 2 ^ 32
  match r.config.pixelFormat with
  | .rgbResv8BitPerColor =>
      { r with byte := poke r.byte p (.ofBitVec c.r) (.ofBitVec c.g) (.ofBitVec c.b) }
  | .bgrResv8BitPerColor =>
      { r with byte := poke r.byte p (.ofBitVec c.b) (.ofBitVec c.g) (.ofBitVec c.r) }

/-- The shadow buffer of a window: its scan lines are the rows, and there is room in the heap, which
has 64 * 512 frames, for the colours in `data_`. -/
structure WindowConfig extends FrameBufferConfig where
  scanLine_eq : pixelsPerScanLine = horizontalResolution
  allocated : 3 * (horizontalResolution * verticalResolution) ≤ 64 * 512 * 4096

/-- `Window`, with its stores. -/
structure WindowStores where
  config : WindowConfig
  data : Int → Int → PixelColor
  shadow : Int → UInt8

/-- A call that changes pixels. -/
inductive WindowCall
  | write (pos : Vector2D) (c : PixelColor)
  | move (dstPos : Vector2D) (src : Rectangle)

namespace WindowStores

/-- A new window. -/
def new (config : WindowConfig) : WindowStores where
  config := config
  data := fun _ _ => ⟨0, 0, 0⟩
  shadow := fun _ => 0

variable (w : WindowStores)

/-- `shadow_buffer_`. -/
def shadowBuffer : Raster :=
  ⟨w.config.toFrameBufferConfig, w.shadow⟩

/-- `At`. -/
def atPos (pos : Vector2D) : PixelColor :=
  w.data pos.x pos.y

/-- `Write`. -/
def write (pos : Vector2D) (c : PixelColor) : WindowStores :=
  { w with
    data := fun x y => if x = pos.x ∧ y = pos.y then c else w.data x y
    shadow := (w.shadowBuffer.write pos c).byte }

/-- `Move`. -/
def move (dstPos : Vector2D) (src : Rectangle) : Option WindowStores := do
  let shadow ← w.shadowBuffer.move dstPos src
  some { w with shadow := shadow.byte }

def next : WindowCall → Option WindowStores
  | .write pos c => some (w.write pos c)
  | .move dstPos src => w.move dstPos src

/-! ## What the calls do to the stores -/

/-- The call stays inside of the window. -/
def InBounds : WindowCall → Prop
  | .write pos _ => w.config.HasPixel pos.x pos.y
  | .move dstPos src =>
      (0 ≤ src.size.x ∧ 0 ≤ src.size.y) ∧ w.config.HasRectangle src ∧
        w.config.HasRectangle ⟨dstPos, src.size⟩

/-- Nothing is to be seen of the call in `data_`: what is moved looks like what it is moved to. -/
def Invisible : WindowCall → Prop
  | .write _ _ => True
  | .move dstPos src =>
      (dstPos.y ≠ src.pos.y ∨ Rectangle.Disjoint src ⟨dstPos, src.size⟩) ∧
        ∀ x y, Rectangle.Contains ⟨dstPos, src.size⟩ x y →
          w.data x y = w.data (src.pos.x + (x - dstPos.x)) (src.pos.y + (y - dstPos.y))

/-- The stores agree. -/
def Agree : Prop :=
  ∀ pos : Vector2D, w.config.HasPixel pos.x pos.y → w.atPos pos = w.shadowBuffer.colorAt pos.x pos.y

theorem agree_new (config : WindowConfig) : (new config).Agree := by
  intro pos _
  rw [shadowBuffer, Raster.colorAt]
  cases (new config).config.pixelFormat <;> rfl

end WindowStores

/-- A pixel that is in all three rectangles is copied. -/
theorem FrameBuffer.copy_pixel {dst src : FrameBuffer} {dstPos : Vector2D} {srcArea : Rectangle}
    {x y : Int} (in_dst : dst.outline.Contains x y)
    (in_src : Rectangle.Contains ⟨dstPos - srcArea.pos, src.size⟩ x y)
    (in_area : Rectangle.Contains ⟨dstPos, srcArea.size⟩ x y) :
    (dst.copy dstPos src srcArea).pixel x y =
      src.pixel (x - (dstPos - srcArea.pos).x) (y - (dstPos - srcArea.pos).y) :=
  if_pos (Rectangle.inter_contains_iff.mpr
    ⟨Rectangle.inter_contains_iff.mpr ⟨in_dst, in_src⟩, in_area⟩)

namespace Raster

variable {r : Raster} {pos : Vector2D} {x y : Int}

theorem config_write (c : PixelColor) : (r.write pos c).config = r.config := by
  rw [write]
  cases r.config.pixelFormat <;> rfl

/-- A pixel that is written, as long as its address has no more than 32 bits, and the others. -/
theorem colorAt_write (inside : r.config.HasPixel pos.x pos.y)
    (small : r.config.offset pos.x pos.y < 2 ^ 32) (pixel : r.config.HasPixel x y) (c : PixelColor) :
    (r.write pos c).colorAt x y = if x = pos.x ∧ y = pos.y then c else r.colorAt x y := by
  have address : 4 * (r.config.pixelsPerScanLine * pos.y + pos.x) % 2 ^ 32 =
      r.config.offset pos.x pos.y :=
    Int.emod_eq_of_lt (offset_nonneg inside.1.1 inside.2.1) small
  have write_eq : (r.write pos c).colorAt x y = match r.config.pixelFormat with
      | .rgbResv8BitPerColor => colorAt ⟨r.config, poke r.byte (r.config.offset pos.x pos.y)
          (.ofBitVec c.r) (.ofBitVec c.g) (.ofBitVec c.b)⟩ x y
      | .bgrResv8BitPerColor => colorAt ⟨r.config, poke r.byte (r.config.offset pos.x pos.y)
          (.ofBitVec c.b) (.ofBitVec c.g) (.ofBitVec c.r)⟩ x y := by
    rw [write, address]
    cases r.config.pixelFormat <;> rfl
  rw [write_eq]
  split_ifs with same
  · obtain ⟨rfl, rfl⟩ := same
    cases format : r.config.pixelFormat <;> simp only [colorAt, format, poke_zero, poke_one, poke_two]
  · have other : ∀ i j : Int, 0 ≤ i ∧ i < 4 → 0 ≤ j ∧ j < 4 →
        r.config.offset x y + i ≠ r.config.offset pos.x pos.y + j :=
      fun i j byte byte' equal => same (offset_inj pixel inside byte byte' equal)
    have kept : ∀ a b c i, 0 ≤ i ∧ i < 4 →
        poke r.byte (r.config.offset pos.x pos.y) a b c (r.config.offset x y + i) =
          r.byte (r.config.offset x y + i) := by
      intro a b c i byte
      refine poke_of_ne a b c ?_ (other i 1 byte (by decide)) (other i 2 byte (by decide))
      have first := other i 0 byte (by decide)
      rwa [add_zero] at first
    have unseen : ∀ a b c, colorAt ⟨r.config, poke r.byte (r.config.offset pos.x pos.y) a b c⟩ x y =
        r.colorAt x y := fun a b c =>
      colorAt_congr (r := ⟨r.config, poke r.byte (r.config.offset pos.x pos.y) a b c⟩) (s := r) rfl
        (kept a b c)
    cases r.config.pixelFormat <;> exact unseen _ _ _

end Raster

namespace WindowStores

variable {w w' : WindowStores}

/-- A window is small enough for the addresses of its pixels. -/
theorem offset_lt {x y : Int} (pixel : w.config.HasPixel x y) : w.config.offset x y < 2 ^ 32 := by
  rcases pixel with ⟨⟨-, x_lt⟩, -, y_lt⟩
  have rows : (w.config.horizontalResolution : Int) * (y + 1) ≤
      w.config.horizontalResolution * w.config.verticalResolution :=
    mul_le_mul_of_nonneg_left y_lt (Int.natCast_nonneg _)
  have allocated := w.config.allocated
  zify at allocated
  rw [mul_add, mul_one] at rows
  rw [offset, w.config.scanLine_eq]
  omega

/-- And for the number of bytes of its scan lines. -/
theorem scanLine_lt {x y : Int} (pixel : w.config.HasPixel x y) :
    4 * w.config.pixelsPerScanLine < 2 ^ 31 := by
  rcases pixel with ⟨-, y_nonneg, y_lt⟩
  have row : w.config.horizontalResolution * 1 ≤
      w.config.horizontalResolution * w.config.verticalResolution :=
    Nat.mul_le_mul_left _ (by omega)
  have allocated := w.config.allocated
  rw [w.config.scanLine_eq]
  omega

/-- Rectangles of a window can be moved. -/
theorem movable {dstPos : Vector2D} {src : Rectangle} (hasSrc : w.config.HasRectangle src)
    (hasDst : w.config.HasRectangle ⟨dstPos, src.size⟩) :
    Movable w.config.toFrameBufferConfig dstPos src := by
  intro pixels
  rcases hasSrc with ⟨⟨srcLeft, srcRight⟩, srcTop, srcBottom⟩
  rcases hasDst with ⟨⟨dstLeft, dstRight⟩, dstTop, dstBottom⟩
  dsimp only at dstLeft dstRight dstTop dstBottom
  have inside : ∀ x y : Int, 0 ≤ x → x + src.size.x ≤ w.config.horizontalResolution → 0 ≤ y →
      y < w.config.verticalResolution → w.config.HasPixel x y :=
    fun x y left right top bottom => ⟨⟨left, by omega⟩, top, bottom⟩
  have line := scanLine_lt (inside _ _ srcLeft srcRight srcTop (by omega))
  have wide := w.config.scanLine_eq
  refine ⟨by omega, ?_⟩
  split
  · exact ⟨⟨offset_lt (inside _ _ dstLeft dstRight dstTop (by omega)), .inr line⟩,
      ⟨offset_lt (inside _ _ srcLeft srcRight srcTop (by omega)), .inr line⟩⟩
  · refine .inl ⟨⟨offset_lt (inside _ _ ?_ ?_ ?_ ?_), .inr line⟩,
      ⟨offset_lt (inside _ _ ?_ ?_ ?_ ?_), .inr line⟩⟩
    all_goals simp only [Vector2D.add_x, Vector2D.add_y]
    all_goals omega

/-! ## Steps and runs -/

theorem shadowBuffer_write (w : WindowStores) (pos : Vector2D) (c : PixelColor) :
    (w.write pos c).shadowBuffer = w.shadowBuffer.write pos c := by
  have config_eq : (w.shadowBuffer.write pos c).config = w.config.toFrameBufferConfig :=
    Raster.config_write c
  exact congrArg (Raster.mk · (w.shadowBuffer.write pos c).byte) config_eq.symm

theorem Agree.write (agree : w.Agree) {pos : Vector2D} (inside : w.config.HasPixel pos.x pos.y)
    (c : PixelColor) : (w.write pos c).Agree := by
  intro seen pixel
  have shown := Raster.colorAt_write (r := w.shadowBuffer) inside (offset_lt inside) pixel c
  rw [shadowBuffer_write, shown, ← agree seen pixel]
  rfl

/-- After a move the stores agree exactly if nothing of it was to be seen. -/
theorem Agree.move_iff (agree : w.Agree) {dstPos : Vector2D} {src : Rectangle}
    (inBounds : w.InBounds (.move dstPos src))
    (vertical : dstPos.y ≠ src.pos.y ∨ Rectangle.Disjoint src ⟨dstPos, src.size⟩) :
    ∃ w', w.move dstPos src = some w' ∧ (w'.Agree ↔ w.Invisible (.move dstPos src)) := by
  rcases inBounds with ⟨nonneg, hasSrc, hasDst⟩
  have request : MoveRequest w.config.toFrameBufferConfig dstPos src :=
    ⟨nonneg, hasSrc, hasDst, vertical⟩
  rcases (request.movesPicture_of_movable (movable hasSrc hasDst)).pixel w.shadow with
    ⟨after, moved, pixel⟩
  refine ⟨{ w with shadow := after }, by rw [move, shadowBuffer, moved]; rfl, ?_⟩
  have inside : ∀ x y, Rectangle.Contains ⟨dstPos, src.size⟩ x y → w.config.HasPixel x y ∧
      w.config.HasPixel (src.pos.x + (x - dstPos.x)) (src.pos.y + (y - dstPos.y)) := by
    rintro x y ⟨left, right, top, bottom⟩
    rcases hasSrc with ⟨⟨srcLeft, srcRight⟩, srcTop, srcBottom⟩
    rcases hasDst with ⟨⟨dstLeft, dstRight⟩, dstTop, dstBottom⟩
    dsimp only at left right top bottom dstLeft dstRight dstTop dstBottom
    exact ⟨⟨⟨by omega, by omega⟩, by omega, by omega⟩, ⟨by omega, by omega⟩, by omega, by omega⟩
  have fromSrc : ∀ x y, Rectangle.Contains ⟨dstPos, src.size⟩ x y →
      ({ w with shadow := after } : WindowStores).shadowBuffer.colorAt x y =
        w.data (src.pos.x + (x - dstPos.x)) (src.pos.y + (y - dstPos.y)) := by
    intro x y contains
    have source := agree ⟨_, _⟩ (inside x y contains).2
    refine Eq.trans ?_ source.symm
    exact Raster.colorAt_congr (r := ⟨w.config.toFrameBufferConfig, after⟩) (s := w.shadowBuffer)
      rfl fun i byte =>
      (pixel x y (inside x y contains).1 i byte).trans (if_pos contains)
  constructor
  · intro agree'
    refine ⟨vertical, fun x y contains => ?_⟩
    exact (agree' ⟨x, y⟩ (inside x y contains).1).trans (fromSrc x y contains)
  · rintro ⟨-, unseen⟩ seen at_pixel
    by_cases contains : Rectangle.Contains ⟨dstPos, src.size⟩ seen.x seen.y
    · exact (unseen _ _ contains).trans (fromSrc _ _ contains).symm
    · refine (agree seen at_pixel).trans ?_
      exact Raster.colorAt_congr (r := w.shadowBuffer) (s := ⟨w.config.toFrameBufferConfig, after⟩)
        rfl fun i byte => ((pixel _ _ at_pixel i byte).trans (if_neg contains)).symm

theorem Agree.next {call : WindowCall} (agree : w.Agree) (inBounds : w.InBounds call)
    (invisible : w.Invisible call) (step : w.next call = some w') : w'.Agree := by
  cases call with
  | write pos c =>
      cases step
      exact agree.write inBounds c
  | move dstPos src =>
      rcases agree.move_iff inBounds invisible.1 with ⟨after, moved, iff⟩
      cases moved.symm.trans step
      exact iff.mpr invisible

/-! ## Drawing -/

variable (w) in
/-- The window as `DrawTo` reads it. -/
def shown (transparentColor : Option PixelColor) : Window where
  size := w.config.frameBufferSize
  pixel := match transparentColor with
    | none => w.shadowBuffer.colorAt
    | some _ => w.data
  transparentColor := transparentColor
  title := fun _ _ _ => none

/-- If the stores agree, what is drawn in the area is the same with and without a transparent colour,
but for the pixels of that colour. -/
theorem Agree.drawTo_eq (agree : w.Agree) (tc : PixelColor) (dst : FrameBuffer) (pos : Vector2D)
    (area : Rectangle) {x y : Int} (in_area : area.Contains x y)
    (in_dst : (0 ≤ x ∧ x < dst.size.x) ∧ 0 ≤ y ∧ y < dst.size.y)
    (in_window : w.config.HasPixel (x - pos.x) (y - pos.y))
    (other : w.atPos ⟨x - pos.x, y - pos.y⟩ ≠ tc) :
    ((w.shown none).drawTo dst pos area).pixel x y =
      ((w.shown (some tc)).drawTo dst pos area).pixel x y := by
  have same := agree ⟨x - pos.x, y - pos.y⟩ in_window
  have fromData : ((w.shown (some tc)).drawTo dst pos area).pixel x y =
      w.data (x - pos.x) (y - pos.y) :=
    if_pos ⟨in_window.1.1, in_window.1.2, in_dst.1.1, in_dst.1.2, in_window.2.1, in_window.2.2,
      in_dst.2.1, in_dst.2.2, other⟩
  have in_both : (area.inter ⟨pos, w.config.frameBufferSize⟩).Contains x y := by
    rw [Rectangle.inter_contains_iff]
    rcases in_window with ⟨⟨left, right⟩, top, bottom⟩
    refine ⟨in_area, ?_, ?_, ?_, ?_⟩ <;> simp only [frameBufferSize] <;> omega
  have fromShadow : ((w.shown none).drawTo dst pos area).pixel x y =
      w.shadowBuffer.colorAt (x - pos.x) (y - pos.y) := by
    let intersection := area.inter ⟨pos, w.config.frameBufferSize⟩
    have start : intersection.pos - (intersection.pos - pos) = pos :=
      Vector2D.eq_of_coordinates (sub_sub_self _ _) (sub_sub_self _ _)
    have in_outline : dst.outline.Contains x y := by
      refine ⟨in_dst.1.1, ?_, in_dst.2.1, ?_⟩ <;> simp only [FrameBuffer.outline] <;> omega
    have in_window' : Rectangle.Contains ⟨intersection.pos - (intersection.pos - pos),
        w.config.frameBufferSize⟩ x y := by
      rw [start]
      exact (Rectangle.inter_contains_iff.mp in_both).2
    have copied := @FrameBuffer.copy_pixel dst (w.shown none).shadowBuffer intersection.pos
      ⟨intersection.pos - pos, intersection.size⟩ x y in_outline in_window' in_both
    rw [start] at copied
    exact copied
  rw [fromShadow, fromData]
  exact same.symm

/-- In every run of calls inside of the window of which the moves are not to be seen, the stores
agree, and `DrawTo` draws the same from both. -/
theorem agree_of_run {config : WindowConfig} {calls : List WindowCall}
    (run : Transition.Run (Transition.guarded (Transition.ofFunction next)
      fun w call => w.InBounds call ∧ w.Invisible call) (new config) calls w) :
    w.Agree ∧ ∀ tc dst pos area x y, area.Contains x y →
      (0 ≤ x ∧ x < dst.size.x) ∧ 0 ≤ y ∧ y < dst.size.y →
      w.config.HasPixel (x - pos.x) (y - pos.y) → w.atPos ⟨x - pos.x, y - pos.y⟩ ≠ tc →
        ((w.shown none).drawTo dst pos area).pixel x y =
          ((w.shown (some tc)).drawTo dst pos area).pixel x y := by
  have agree : w.Agree := by
    refine run.invariant ?_ (agree_new config)
    rintro source call target agree ⟨⟨inBounds, invisible⟩, step⟩
    exact agree.next inBounds invisible step
  exact ⟨agree, fun tc dst pos area x y => agree.drawTo_eq tc dst pos area⟩

/-- A window with three pixels. -/
def column : WindowConfig where
  pixelsPerScanLine := 1
  horizontalResolution := 1
  verticalResolution := 3
  pixelFormat := .rgbResv8BitPerColor
  scanLine_lt := by decide
  horizontal_lt := FrameBufferConfig.one_column_lt
  vertical_lt := by decide
  horizontal_le := le_rfl
  scanLine_eq := rfl
  allocated := by decide

/-- The moves of a pixel in it. -/
theorem inBounds_column {w : WindowStores} (config : w.config = column) {y y' : Int}
    (bounds : (0 ≤ y ∧ y < 3) ∧ 0 ≤ y' ∧ y' < 3) :
    w.InBounds (.move ⟨0, y⟩ ⟨⟨0, y'⟩, ⟨1, 1⟩⟩) := by
  have sizes : w.config.horizontalResolution = 1 ∧ w.config.verticalResolution = 3 := by
    rw [config]
    exact ⟨rfl, rfl⟩
  simp only [InBounds, HasRectangle]
  omega

/-- The window after its middle pixel has become red. -/
def redMiddle : WindowStores :=
  (new column).write ⟨0, 1⟩ ⟨255, 0, 0⟩

theorem agree_redMiddle : redMiddle.Agree :=
  (agree_new column).write ⟨by decide, by decide⟩ _

/-- Black is moved over black. -/
theorem agree_of_run_column : ∃ w,
    Transition.Run (Transition.guarded (Transition.ofFunction next)
      fun w call => w.InBounds call ∧ w.Invisible call) (new column)
      [.write ⟨0, 1⟩ ⟨255, 0, 0⟩, .move ⟨0, 0⟩ ⟨⟨0, 2⟩, ⟨1, 1⟩⟩] w ∧
    w.Agree ∧ ∀ tc dst pos area x y, area.Contains x y →
      (0 ≤ x ∧ x < dst.size.x) ∧ 0 ≤ y ∧ y < dst.size.y →
      w.config.HasPixel (x - pos.x) (y - pos.y) → w.atPos ⟨x - pos.x, y - pos.y⟩ ≠ tc →
        ((w.shown none).drawTo dst pos area).pixel x y =
          ((w.shown (some tc)).drawTo dst pos area).pixel x y := by
  have inBounds : redMiddle.InBounds (.move ⟨0, 0⟩ ⟨⟨0, 2⟩, ⟨1, 1⟩⟩) :=
    inBounds_column rfl (by decide)
  have invisible : redMiddle.Invisible (.move ⟨0, 0⟩ ⟨⟨0, 2⟩, ⟨1, 1⟩⟩) := by
    refine ⟨.inl (by decide), ?_⟩
    rintro x y ⟨left, right, top, bottom⟩
    obtain rfl : x = 0 := by
      dsimp only at left right
      omega
    obtain rfl : y = 0 := by
      dsimp only at top bottom
      omega
    rfl
  rcases agree_redMiddle.move_iff inBounds invisible.1 with ⟨w, moved, -⟩
  have run : Transition.Run (Transition.guarded (Transition.ofFunction next)
      fun w call => w.InBounds call ∧ w.Invisible call) (new column)
      [.write ⟨0, 1⟩ ⟨255, 0, 0⟩, .move ⟨0, 0⟩ ⟨⟨0, 2⟩, ⟨1, 1⟩⟩] w :=
    .cons ⟨⟨⟨by decide, by decide⟩, trivial⟩, rfl⟩ (.single ⟨⟨inBounds, invisible⟩, moved⟩)
  exact ⟨w, run, agree_of_run run⟩

/-- The red pixel is moved up: it is drawn there only without a transparent colour. -/
theorem not_agree_column : ∃ w,
    Transition.Run (Transition.guarded (Transition.ofFunction next) InBounds) (new column)
      [.write ⟨0, 1⟩ ⟨255, 0, 0⟩, .move ⟨0, 0⟩ ⟨⟨0, 1⟩, ⟨1, 1⟩⟩] w ∧ ¬ w.Agree := by
  have inBounds : redMiddle.InBounds (.move ⟨0, 0⟩ ⟨⟨0, 1⟩, ⟨1, 1⟩⟩) :=
    inBounds_column rfl (by decide)
  rcases agree_redMiddle.move_iff inBounds (.inl (by decide)) with ⟨w, moved, iff⟩
  refine ⟨w, .cons ⟨⟨by decide, by decide⟩, rfl⟩ (.single ⟨inBounds, moved⟩), ?_⟩
  rw [iff]
  intro invisible
  have pixel := invisible.2 0 0 ⟨by decide, by decide, by decide, by decide⟩
  revert pixel
  decide

end WindowStores
end Mikanos.Screen
