import Mikanos.Error
import Mikanos.Memory.Copying
import Mikanos.Screen.Window

/-!
# The bytes of frame buffers

A frame buffer is an array of scan lines, which may be longer than the rows of pixels.  The address
of a pixel is computed with numbers of 32 bits: the products of `FrameAddrAt` and
`BytesPerScanLine` have no sign, and the second is then taken for an `int`.
-/

namespace Mikanos.Screen

open Memory

theorem Vector2D.eq_of_coordinates {p q : Vector2D} (x_eq : p.x = q.x) (y_eq : p.y = q.y) :
    p = q := by
  rcases p with ⟨x, y⟩
  rcases q with ⟨x', y'⟩
  exact congrArg₂ Vector2D.mk x_eq y_eq

/-- `PixelFormat`. -/
inductive PixelFormat
  | rgbResv8BitPerColor
  | bgrResv8BitPerColor
  deriving DecidableEq

/-- `BytesPerPixel`. -/
def bytesPerPixel : PixelFormat → Int
  | .rgbResv8BitPerColor => 4
  | .bgrResv8BitPerColor => 4

@[simp]
theorem bytesPerPixel_eq (format : PixelFormat) : bytesPerPixel format = 4 := by
  cases format <;> rfl

/-- `FrameBufferConfig`.  The coordinates of pixels are numbers of the type `int`, and a scan line
has room for a row. -/
structure FrameBufferConfig where
  pixelsPerScanLine : Nat
  horizontalResolution : Nat
  verticalResolution : Nat
  pixelFormat : PixelFormat
  scanLine_lt : pixelsPerScanLine < 2 ^ 32
  horizontal_lt : horizontalResolution < 2 ^ 31
  vertical_lt : verticalResolution < 2 ^ 31
  horizontal_le : horizontalResolution ≤ pixelsPerScanLine

namespace FrameBufferConfig

/-- One column is not too many. -/
theorem one_column_lt : 1 < 2 ^ 31 := by
  decide

variable (config : FrameBufferConfig)

/-- `FrameAddrAt`, from the beginning of the frame buffer. -/
def frameAddrAt (pos : Vector2D) : Int :=
  bytesPerPixel config.pixelFormat * (config.pixelsPerScanLine * pos.y + pos.x) % 2 ^ 32

/-- `BytesPerScanLine`. -/
def bytesPerScanLine : Int :=
  (bytesPerPixel config.pixelFormat * config.pixelsPerScanLine).bmod (2 ^ 32)

/-- `FrameBufferSize`. -/
def frameBufferSize : Vector2D :=
  ⟨config.horizontalResolution, config.verticalResolution⟩

/-- Where a pixel is. -/
def offset (x y : Int) : Int :=
  4 * (config.pixelsPerScanLine * y + x)

/-- There is such a pixel. -/
def HasPixel (x y : Int) : Prop :=
  (0 ≤ x ∧ x < config.horizontalResolution) ∧ 0 ≤ y ∧ y < config.verticalResolution

instance (x y : Int) : Decidable (config.HasPixel x y) :=
  inferInstanceAs (Decidable ((_ ∧ _) ∧ _ ∧ _))

/-- The byte belongs to a pixel. -/
def HasByte (b : Int) : Prop :=
  ∃ x y, config.HasPixel x y ∧ config.offset x y ≤ b ∧ b < config.offset x y + 4

/-- All pixels of the rectangle are there. -/
def HasRectangle (r : Rectangle) : Prop :=
  (0 ≤ r.pos.x ∧ r.pos.x + r.size.x ≤ config.horizontalResolution) ∧
    0 ≤ r.pos.y ∧ r.pos.y + r.size.y ≤ config.verticalResolution

/-- The last byte of a rectangle. -/
def lastByte (r : Rectangle) : Int :=
  config.offset r.pos.x (r.pos.y + (r.size.y - 1)) + (4 * r.size.x - 1)

variable {config}

theorem offset_eq (x y k : Int) :
    config.offset x (y + k) = config.offset x y + 4 * config.pixelsPerScanLine * k := by
  rw [offset, offset]
  ring

theorem offset_add (x y k : Int) : config.offset (x + k) y = config.offset x y + 4 * k := by
  rw [offset, offset]
  ring

theorem offset_nonneg {x y : Int} (x_nonneg : 0 ≤ x) (y_nonneg : 0 ≤ y) :
    0 ≤ config.offset x y := by
  have line : 0 ≤ (config.pixelsPerScanLine : Int) * y := mul_nonneg (Int.natCast_nonneg _) y_nonneg
  rw [offset]
  omega

/-- The bytes of a part of a row are those of the pixels in it. -/
theorem in_row_iff {left width x y y' i : Int} (pixel : config.HasPixel x y) (byte : 0 ≤ i ∧ i < 4)
    (left_nonneg : 0 ≤ left) (right_le : left + width ≤ config.horizontalResolution) :
    config.offset left y' ≤ config.offset x y + i ∧
        config.offset x y + i < config.offset left y' + 4 * width ↔
      y = y' ∧ left ≤ x ∧ x < left + width := by
  have wide : (config.horizontalResolution : Int) ≤ config.pixelsPerScanLine :=
    Int.ofNat_le.mpr config.horizontal_le
  rcases pixel with ⟨⟨x_nonneg, x_lt⟩, -, -⟩
  rw [offset, offset]
  rcases lt_trichotomy y y' with before | rfl | after
  · have line : (config.pixelsPerScanLine : Int) * (y + 1) ≤ config.pixelsPerScanLine * y' :=
      mul_le_mul_of_nonneg_left before (Int.natCast_nonneg _)
    rw [mul_add, mul_one] at line
    constructor
    · rintro ⟨ge, -⟩
      omega
    · rintro ⟨rfl, -⟩
      omega
  · constructor
    · rintro ⟨ge, lt⟩
      exact ⟨rfl, by omega, by omega⟩
    · rintro ⟨-, ge, lt⟩
      constructor <;> omega
  · have line : (config.pixelsPerScanLine : Int) * (y' + 1) ≤ config.pixelsPerScanLine * y :=
      mul_le_mul_of_nonneg_left after (Int.natCast_nonneg _)
    rw [mul_add, mul_one] at line
    constructor
    · rintro ⟨-, lt⟩
      omega
    · rintro ⟨rfl, -⟩
      omega

/-- A byte belongs to one pixel only. -/
theorem offset_inj {x y x' y' i j : Int} (pixel : config.HasPixel x y)
    (pixel' : config.HasPixel x' y') (byte : 0 ≤ i ∧ i < 4) (byte' : 0 ≤ j ∧ j < 4)
    (same : config.offset x y + i = config.offset x' y' + j) : x = x' ∧ y = y' := by
  have right : x' + 1 ≤ config.horizontalResolution := pixel'.1.2
  have in_row := (@in_row_iff config x' 1 x y y' i pixel byte pixel'.1.1 right).mp (by omega)
  exact ⟨by omega, in_row.1⟩

/-- A byte in a part of a row belongs to a pixel in it. -/
theorem exists_pixel_of_in_row {left width y b : Int}
    (in_row : config.offset left y ≤ b ∧ b < config.offset left y + 4 * width) :
    ∃ x i, (left ≤ x ∧ x < left + width) ∧ (0 ≤ i ∧ i < 4) ∧ b = config.offset x y + i := by
  refine ⟨left + (b - config.offset left y) / 4, (b - config.offset left y) % 4, ?_, ?_, ?_⟩
  · omega
  · omega
  · rw [offset_add]
    omega

theorem hasByte_of_in_row {left width y b : Int} (left_nonneg : 0 ≤ left)
    (right_le : left + width ≤ config.horizontalResolution)
    (row : 0 ≤ y ∧ y < config.verticalResolution)
    (in_row : config.offset left y ≤ b ∧ b < config.offset left y + 4 * width) :
    config.HasByte b := by
  rcases exists_pixel_of_in_row in_row with ⟨x, i, column, byte, rfl⟩
  exact ⟨x, y, ⟨⟨by omega, by omega⟩, row⟩, by omega, by omega⟩

/-! ## Addresses -/

variable (config) in
/-- The addresses of some rows are computed right if the first of them begins at the position. -/
def Addressable (pos : Vector2D) (rows : Int) : Prop :=
  config.offset pos.x pos.y < 2 ^ 32 ∧ (rows = 1 ∨ 4 * config.pixelsPerScanLine < 2 ^ 31)

theorem frameAddrAt_eq (pos : Vector2D) :
    config.frameAddrAt pos = config.offset pos.x pos.y % 2 ^ 32 := by
  rw [frameAddrAt, bytesPerPixel_eq, offset]

theorem bytesPerScanLine_eq :
    config.bytesPerScanLine = (4 * config.pixelsPerScanLine : Int).bmod (2 ^ 32) := by
  rw [bytesPerScanLine, bytesPerPixel_eq]

theorem bytesPerScanLine_of_lt (small : 4 * config.pixelsPerScanLine < 2 ^ 31) :
    config.bytesPerScanLine = 4 * config.pixelsPerScanLine := by
  rw [bytesPerScanLine_eq, Int.bmod_def]
  omega

theorem bytesPerScanLine_lt_of_le (large : 2 ^ 31 ≤ 4 * config.pixelsPerScanLine) :
    config.bytesPerScanLine < 4 * config.pixelsPerScanLine := by
  rw [bytesPerScanLine_eq, Int.bmod_def]
  omega

/-- Scan lines of 2³¹ bytes. -/
theorem bytesPerScanLine_of_eq (line : 4 * config.pixelsPerScanLine = 2 ^ 31) :
    config.bytesPerScanLine = -2 ^ 31 := by
  have exact_line : 4 * (config.pixelsPerScanLine : Int) = 2 ^ 31 := by omega
  rw [bytesPerScanLine_eq, exact_line]
  decide

theorem frameAddrAt_of_lt {pos : Vector2D} (x_nonneg : 0 ≤ pos.x) (y_nonneg : 0 ≤ pos.y)
    (small : config.offset pos.x pos.y < 2 ^ 32) :
    config.frameAddrAt pos = config.offset pos.x pos.y := by
  rw [frameAddrAt_eq, Int.emod_eq_of_lt (offset_nonneg x_nonneg y_nonneg) small]

/-- From such a position on, up or down, the rows are where they should be. -/
theorem Addressable.row_eq {pos : Vector2D} {rows : Int} (addressable : config.Addressable pos rows)
    (x_nonneg : 0 ≤ pos.x) (y_nonneg : 0 ≤ pos.y) {y : Int} (only : rows = 1 → y = 0) :
    config.frameAddrAt pos + config.bytesPerScanLine * y = config.offset pos.x (pos.y + y) := by
  rw [frameAddrAt_of_lt x_nonneg y_nonneg addressable.1, offset_eq]
  rcases addressable.2 with one | small
  · rw [only one, mul_zero, mul_zero]
  · rw [bytesPerScanLine_of_lt small]

/-- From any other position, no row is where the last one should be, or behind it. -/
theorem row_lt_of_not_addressable {pos : Vector2D} {rows : Int}
    (wrong : ¬ config.Addressable pos rows) (line : 0 < config.pixelsPerScanLine)
    (x_nonneg : 0 ≤ pos.x) (y_nonneg : 0 ≤ pos.y) {y : Int} (y_bounds : 0 ≤ y ∧ y < rows) :
    config.frameAddrAt pos + config.bytesPerScanLine * y <
      config.offset pos.x (pos.y + (rows - 1)) := by
  have start : 0 ≤ config.offset pos.x pos.y := offset_nonneg x_nonneg y_nonneg
  have first_le : config.frameAddrAt pos ≤ config.offset pos.x pos.y := by
    rw [frameAddrAt_eq]
    omega
  have step_le : config.bytesPerScanLine ≤ 4 * config.pixelsPerScanLine := by
    rw [bytesPerScanLine_eq, Int.bmod_def]
    omega
  have line_pos : (0 : Int) < 4 * config.pixelsPerScanLine := by omega
  have steps_le : config.bytesPerScanLine * y ≤ 4 * config.pixelsPerScanLine * y :=
    mul_le_mul_of_nonneg_right step_le y_bounds.1
  have rows_le : 4 * (config.pixelsPerScanLine : Int) * y ≤
      4 * config.pixelsPerScanLine * (rows - 1) :=
    mul_le_mul_of_nonneg_left (by omega) line_pos.le
  rw [offset_eq]
  rw [Addressable, not_and_or, not_or, not_lt, not_lt] at wrong
  rcases wrong with large | ⟨more, large⟩
  · have smaller : config.frameAddrAt pos < config.offset pos.x pos.y := by
      rw [frameAddrAt_eq]
      omega
    omega
  · have shorter := bytesPerScanLine_lt_of_le large
    rcases Int.lt_or_eq_of_le y_bounds.1 with later | first
    · have steps_lt : config.bytesPerScanLine * y < 4 * config.pixelsPerScanLine * y :=
        mul_lt_mul_of_pos_right shorter later
      omega
    · have last_pos : 0 < 4 * (config.pixelsPerScanLine : Int) * (rows - 1) :=
        mul_pos line_pos (by omega)
      rw [← first, mul_zero]
      omega

/-- Pointers that begin at the last of some rows and go up come to the last and to the first of them
only if the addresses are right, or if they go round with scan lines of 2³¹ bytes. -/
theorem addressable_or_round {pos : Vector2D} {rows y y' : Int} (x_nonneg : 0 ≤ pos.x)
    (y_nonneg : 0 ≤ pos.y) (y_bounds : 0 ≤ y ∧ y < rows) (y'_bounds : 0 ≤ y' ∧ y' < rows)
    (last : config.offset pos.x (pos.y + (rows - 1)) ≤
      config.frameAddrAt (pos + ⟨0, rows - 1⟩) + -config.bytesPerScanLine * y)
    (first : config.frameAddrAt (pos + ⟨0, rows - 1⟩) + -config.bytesPerScanLine * y' ≤
      config.offset pos.x pos.y) :
    config.Addressable (pos + ⟨0, rows - 1⟩) rows ∨
      4 * config.pixelsPerScanLine = 2 ^ 31 ∧ rows % 2 = 1 ∧ config.offset pos.x pos.y < 2 ^ 32 := by
  have start : 0 ≤ config.offset pos.x pos.y := offset_nonneg x_nonneg y_nonneg
  rw [frameAddrAt_eq] at last first
  simp only [Addressable, Vector2D.add_x, Vector2D.add_y, add_zero] at last first ⊢
  rw [offset_eq] at last first ⊢
  have line_nonneg : (0 : Int) ≤ 4 * config.pixelsPerScanLine := by omega
  have rows_nonneg : 0 ≤ 4 * (config.pixelsPerScanLine : Int) * (rows - 1) :=
    mul_nonneg line_nonneg (by omega)
  generalize config.offset pos.x pos.y = o at *
  rcases lt_or_ge (4 * config.pixelsPerScanLine) (2 ^ 31) with small | large
  · have back : 0 ≤ 4 * (config.pixelsPerScanLine : Int) * y := mul_nonneg line_nonneg y_bounds.1
    rw [bytesPerScanLine_of_lt small, neg_mul] at last
    exact .inl ⟨by omega, .inr small⟩
  · have less := bytesPerScanLine_lt_of_le large
    have least : -2 ^ 31 ≤ config.bytesPerScanLine := by
      rw [bytesPerScanLine_eq]
      exact (Int.le_bmod (by decide)).trans' (by decide)
    generalize config.bytesPerScanLine = step at *
    rcases eq_or_ne rows 1 with one | more
    · have atStart : y = 0 := by omega
      rw [atStart, mul_zero] at last
      exact .inl ⟨by omega, .inl one⟩
    · rw [neg_mul] at last first
      rcases lt_or_ge step 0 with back | forth
      · have up : step * y' ≤ 0 := mul_nonpos_of_nonpos_of_nonneg back.le y'_bounds.1
        have steps_le : step * (rows - 1) ≤ step * y :=
          mul_le_mul_of_nonpos_left (by omega) back.le
        have lines_le : 4 * (config.pixelsPerScanLine : Int) ≤ -step := by
          by_contra shorter
          have steps_lt : -step * (rows - 1) < 4 * config.pixelsPerScanLine * (rows - 1) :=
            mul_lt_mul_of_pos_right (not_le.mp shorter) (by omega)
          rw [neg_mul] at steps_lt
          omega
        have line : 4 * (config.pixelsPerScanLine : Int) = 2 ^ 31 := by omega
        have stepEq : step = -2 ^ 31 := by omega
        rw [line] at last first
        rw [stepEq] at last first
        exact .inr ⟨by omega, by omega, by omega⟩
      · have up : 0 ≤ step * y := mul_nonneg forth y_bounds.1
        have steps_le : step * y' ≤ step * (rows - 1) :=
          mul_le_mul_of_nonneg_left (by omega) forth
        have steps_lt : step * (rows - 1) < 4 * config.pixelsPerScanLine * (rows - 1) :=
          mul_lt_mul_of_pos_right less (by omega)
        omega

end FrameBufferConfig

/-! ## Rows -/

/-- The number of bytes of a row, as `memcpy` is given it; `none` if the product overflows. -/
def rowLength (format : PixelFormat) (width : Int) : Option Nat :=
  let bytes := bytesPerPixel format * width
  if -2 ^ 31 ≤ bytes ∧ bytes < 2 ^ 31 then some (bytes % 2 ^ 64).toNat else none

theorem rowLength_of_lt {format : PixelFormat} {width : Int} (nonneg : 0 ≤ width)
    (small : 4 * width < 2 ^ 31) : rowLength format width = some (4 * width).toNat := by
  rw [rowLength, bytesPerPixel_eq]
  exact (if_pos (by omega)).trans (by rw [Int.emod_eq_of_lt (by omega) (by omega)])

theorem rowLength_of_le {format : PixelFormat} {width : Int} (large : 2 ^ 31 ≤ 4 * width) :
    rowLength format width = none := by
  rw [rowLength, bytesPerPixel_eq]
  exact if_neg (by omega)

/-- The loop over the rows, for what is added to the pointers and where they begin. -/
def copyLoop (format : PixelFormat) (size : Vector2D) (dstStep srcStep dstBuf srcBuf : Int) :
    Option (List Memcpy) :=
  if 0 < size.y then do
    let n ← rowLength format size.x
    some (rowLoop n dstStep srcStep size.y.toNat dstBuf srcBuf)
  else some []

/-- The copy of a part of a row, with its number counted from the first one. -/
def rowCall (dst src : FrameBufferConfig) (dstPos srcPos : Vector2D) (width y : Int) : Memcpy where
  dst := dst.offset dstPos.x (dstPos.y + y)
  src := src.offset srcPos.x (srcPos.y + y)
  n := (4 * width).toNat

section

variable {α : Type} {dst src : FrameBufferConfig} {dstPos srcPos : Vector2D} {width : Int}

/-- The rows of rectangles consist of bytes of pixels. -/
theorem rowCall_inside {size : Vector2D} (inDst : dst.HasRectangle ⟨dstPos, size⟩)
    (inSrc : src.HasRectangle ⟨srcPos, size⟩) {y : Int} (bounds : 0 ≤ y ∧ y < size.y) :
    (∀ b, (rowCall dst src dstPos srcPos size.x y).Writes b → dst.HasByte b) ∧
      ∀ b, (rowCall dst src dstPos srcPos size.x y).Reads b → src.HasByte b := by
  dsimp only [FrameBufferConfig.HasRectangle] at inDst inSrc
  rcases inDst with ⟨⟨dstLeft, dstRight⟩, dstTop, dstBottom⟩
  rcases inSrc with ⟨⟨srcLeft, srcRight⟩, srcTop, srcBottom⟩
  constructor
  · rintro b ⟨ge, lt⟩
    simp only [rowCall] at ge lt
    exact FrameBufferConfig.hasByte_of_in_row dstLeft dstRight ⟨by omega, by omega⟩
      ⟨ge, by omega⟩
  · rintro b ⟨ge, lt⟩
    simp only [rowCall] at ge lt
    exact FrameBufferConfig.hasByte_of_in_row srcLeft srcRight ⟨by omega, by omega⟩
      ⟨ge, by omega⟩

/-- The rows of a rectangle, from the first one on. -/
def rowsDown (height : Int) : List Int :=
  (List.range height.toNat).map Int.ofNat

theorem mem_rowsDown {height y : Int} : y ∈ rowsDown height ↔ 0 ≤ y ∧ y < height := by
  rw [rowsDown, List.mem_map]
  constructor
  · rintro ⟨k, member, rfl⟩
    have lt := List.mem_range.mp member
    simp only [Int.ofNat_eq_natCast]
    omega
  · rintro ⟨nonneg, lt⟩
    exact ⟨y.toNat, List.mem_range.mpr (by omega), Int.toNat_of_nonneg nonneg⟩

theorem rowsDown_eq_cons {height : Int} (some : 0 < height) :
    ∃ rest, rowsDown height = 0 :: rest := by
  rw [rowsDown, show height.toNat = height.toNat - 1 + 1 by omega, List.range_succ_eq_map]
  exact ⟨_, rfl⟩

theorem pairwise_rowsDown (height : Int) : (rowsDown height).Pairwise (· < ·) := by
  rw [rowsDown, List.pairwise_map]
  exact List.pairwise_lt_range.imp fun lt => Int.ofNat_lt.mpr lt

theorem nodup_rowsDown (height : Int) : (rowsDown height).Nodup :=
  (pairwise_rowsDown height).imp fun lt => lt.ne

/-- The rows of a rectangle, from the last one on. -/
def rowsUp (height : Int) : List Int :=
  (rowsDown height).map (height - 1 - ·)

theorem mem_rowsUp {height y : Int} : y ∈ rowsUp height ↔ 0 ≤ y ∧ y < height := by
  rw [rowsUp, List.mem_map]
  constructor
  · rintro ⟨k, member, rfl⟩
    have bounds := mem_rowsDown.mp member
    omega
  · intro bounds
    exact ⟨height - 1 - y, mem_rowsDown.mpr (by omega), by omega⟩

theorem pairwise_rowsUp (height : Int) : (rowsUp height).Pairwise (· > ·) := by
  rw [rowsUp, List.pairwise_map]
  exact (pairwise_rowsDown height).imp fun lt => by omega

theorem nodup_rowsUp (height : Int) : (rowsUp height).Nodup :=
  (pairwise_rowsUp height).imp fun gt => gt.ne'

section

variable {format : PixelFormat} {size : Vector2D} {dstStep srcStep dstBuf srcBuf : Int}

theorem copyLoop_eq (pixels : 0 < size.x ∧ 0 < size.y) (small : 4 * size.x < 2 ^ 31) :
    copyLoop format size dstStep srcStep dstBuf srcBuf = some ((rowsDown size.y).map fun y =>
      ⟨dstBuf + dstStep * y, srcBuf + srcStep * y, (4 * size.x).toNat⟩) := by
  rw [copyLoop, if_pos pixels.2, rowLength_of_lt pixels.1.le small]
  refine congrArg some ((rowLoop_eq_map _ _ _ _ _ _).trans ?_)
  rw [rowsDown, List.map_map]
  rfl

theorem copyLoop_overflow (rows : 0 < size.y) (large : 2 ^ 31 ≤ 4 * size.x) :
    copyLoop format size dstStep srcStep dstBuf srcBuf = none := by
  rw [copyLoop, if_pos rows, rowLength_of_le large]
  rfl

/-- Without pixels, nothing is written or read. -/
theorem copyLoop_empty (empty : size.x = 0 ∨ size.y ≤ 0) :
    ∃ calls, copyLoop format size dstStep srcStep dstBuf srcBuf = some calls ∧
      ∀ c ∈ calls, ∀ b, ¬ c.Writes b ∧ ¬ c.Reads b := by
  rw [copyLoop]
  rcases Decidable.em (0 < size.y) with rows | noRows
  · rw [if_pos rows, empty.resolve_right (by omega), rowLength_of_lt le_rfl (by decide)]
    refine ⟨_, rfl, fun c member b => ?_⟩
    rw [rowLoop_eq_map, List.mem_map] at member
    obtain ⟨y, -, rfl⟩ := member
    simp only [Memcpy.Writes, Memcpy.Reads]
    omega
  · rw [if_neg noRows]
    exact ⟨[], rfl, fun c member => absurd member List.not_mem_nil⟩

end

theorem rowCall_disjoint (width_le : width ≤ dst.horizontalResolution) {y y' : Int} (ne : y ≠ y')
    (i : Int) (writes : (rowCall dst src dstPos srcPos width y).Writes i) :
    ¬ (rowCall dst src dstPos srcPos width y').Writes i := by
  have wide : (dst.horizontalResolution : Int) ≤ dst.pixelsPerScanLine :=
    Int.ofNat_le.mpr dst.horizontal_le
  rintro ⟨ge', lt'⟩
  rcases writes with ⟨ge, lt⟩
  simp only [rowCall, FrameBufferConfig.offset_eq] at ge lt ge' lt'
  rcases Int.lt_or_gt_of_ne ne with before | after
  · have line : (dst.pixelsPerScanLine : Int) * (y + 1) ≤ dst.pixelsPerScanLine * y' :=
      mul_le_mul_of_nonneg_left before (Int.natCast_nonneg _)
    rw [mul_add, mul_one] at line
    rw [mul_assoc] at ge lt ge' lt'
    omega
  · have line : (dst.pixelsPerScanLine : Int) * (y' + 1) ≤ dst.pixelsPerScanLine * y :=
      mul_le_mul_of_nonneg_left after (Int.natCast_nonneg _)
    rw [mul_add, mul_one] at line
    rw [mul_assoc] at ge lt ge' lt'
    omega

/-- Rows that are copied, in whatever order. -/
theorem copyAll_rows {rows : List Int} (nodup : rows.Nodup) (left : 0 ≤ dstPos.x)
    (right : dstPos.x + width ≤ dst.horizontalResolution) (srcByte mem : Int → α) {x y i : Int}
    (pixel : dst.HasPixel x y) (byte : 0 ≤ i ∧ i < 4) :
    copyAll srcByte (rows.map (rowCall dst src dstPos srcPos width)) mem (dst.offset x y + i) =
      if (dstPos.x ≤ x ∧ x < dstPos.x + width) ∧ y - dstPos.y ∈ rows then
        srcByte (src.offset (srcPos.x + (x - dstPos.x)) (srcPos.y + (y - dstPos.y)) + i)
      else mem (dst.offset x y + i) := by
  have writes_iff : ∀ row, (rowCall dst src dstPos srcPos width row).Writes (dst.offset x y + i) ↔
      y = dstPos.y + row ∧ dstPos.x ≤ x ∧ x < dstPos.x + width := by
    intro row
    rw [← FrameBufferConfig.in_row_iff pixel byte left right]
    simp only [rowCall, Memcpy.Writes]
    constructor <;> rintro ⟨ge, lt⟩ <;> constructor <;> omega
  split
  · rename_i in_rows
    have written := (writes_iff (y - dstPos.y)).mpr ⟨by omega, in_rows.1⟩
    have disjoint : (rows.map (rowCall dst src dstPos srcPos width)).Pairwise
        fun a b => ∀ i, a.Writes i → ¬ b.Writes i := by
      rw [List.pairwise_map]
      exact nodup.imp fun ne => rowCall_disjoint (by omega) ne
    rw [copyAll_written disjoint (List.mem_map_of_mem in_rows.2) written]
    congr 1
    rw [rowCall, FrameBufferConfig.offset_add, FrameBufferConfig.offset,
      FrameBufferConfig.offset, FrameBufferConfig.offset]
    simp only [add_sub_cancel]
    ring
  · rename_i not_in_rows
    refine copyAll_kept (fun c member written => not_in_rows ?_) mem
    obtain ⟨row, row_mem, rfl⟩ := List.mem_map.mp member
    obtain ⟨rfl, in_row⟩ := (writes_iff row).mp written
    exact ⟨in_row, by rwa [add_sub_cancel_left]⟩

end
end Mikanos.Screen
