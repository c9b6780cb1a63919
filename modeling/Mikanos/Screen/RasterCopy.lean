import Mikanos.Screen.Raster

/-!
# Copies between frame buffers

`FrameBuffer::Copy` copies the pixels that are in both frame buffers and in the area that is asked
for.  It adds up the addresses of the rows from that of the first one, which is computed with 32
bits, so that it copies all pixels only if they are not too far into the frame buffers.
-/

namespace Mikanos.Screen

open Memory FrameBufferConfig

/-! ## Rectangles -/

namespace Rectangle

variable {r s : Rectangle}

theorem inter_contains_iff {x y : Int} :
    (r.inter s).Contains x y ↔ r.Contains x y ∧ s.Contains x y := by
  rw [inter]
  simp only [Vector2D.add_x, Vector2D.add_y]
  split
  · simp only [Contains]
    omega
  · simp only [Contains, Vector2D.sub_x, Vector2D.sub_y]
    omega

theorem inter_size_nonneg (r_nonneg : 0 ≤ r.size.x ∧ 0 ≤ r.size.y)
    (s_nonneg : 0 ≤ s.size.x ∧ 0 ≤ s.size.y) :
    0 ≤ (r.inter s).size.x ∧ 0 ≤ (r.inter s).size.y := by
  rw [inter]
  simp only [Vector2D.add_x, Vector2D.add_y]
  split
  · exact ⟨le_rfl, le_rfl⟩
  · simp only [Vector2D.sub_x, Vector2D.sub_y]
    omega

/-- A rectangle with pixels is determined by them. -/
theorem eq_of_contains_iff (some : 0 < r.size.x ∧ 0 < r.size.y)
    (same : ∀ x y, r.Contains x y ↔ s.Contains x y) : r = s := by
  have first := (same r.pos.x r.pos.y).mp (by rw [Contains]; omega)
  have last := (same (r.pos.x + r.size.x - 1) (r.pos.y + r.size.y - 1)).mp (by rw [Contains]; omega)
  rw [Contains] at first last
  have first' := (same s.pos.x s.pos.y).mpr (by rw [Contains]; omega)
  have last' := (same (s.pos.x + s.size.x - 1) (s.pos.y + s.size.y - 1)).mpr
    (by rw [Contains]; omega)
  rw [Contains] at first' last'
  have x_eq : r.pos.x = s.pos.x := by omega
  have y_eq : r.pos.y = s.pos.y := by omega
  have width_eq : r.size.x = s.size.x := by omega
  have height_eq : r.size.y = s.size.y := by omega
  rcases r with ⟨pos, size⟩
  rcases s with ⟨pos', size'⟩
  exact congrArg₂ Rectangle.mk (Vector2D.eq_of_coordinates x_eq y_eq)
    (Vector2D.eq_of_coordinates width_eq height_eq)

end Rectangle

/-- `FrameBuffer`, with its bytes. -/
structure Raster where
  config : FrameBufferConfig
  byte : Int → UInt8

namespace Raster

/-- The colour of a pixel, as the pixel writers store it. -/
def colorAt (r : Raster) (x y : Int) : PixelColor :=
  let p := r.config.offset x y
  match r.config.pixelFormat with
  | .rgbResv8BitPerColor =>
      ⟨(r.byte p).toBitVec, (r.byte (p + 1)).toBitVec, (r.byte (p + 2)).toBitVec⟩
  | .bgrResv8BitPerColor =>
      ⟨(r.byte (p + 2)).toBitVec, (r.byte (p + 1)).toBitVec, (r.byte p).toBitVec⟩

/-- What a frame buffer shows. -/
def view (r : Raster) : FrameBuffer :=
  ⟨r.config.frameBufferSize, r.colorAt⟩

/-- The colour is that of the bytes of the pixel. -/
theorem colorAt_congr {r s : Raster} (format : r.config.pixelFormat = s.config.pixelFormat)
    {x y x' y' : Int}
    (same : ∀ i, 0 ≤ i ∧ i < 4 → r.byte (r.config.offset x y + i) = s.byte (s.config.offset x' y' + i)) :
    r.colorAt x y = s.colorAt x' y' := by
  have first := same 0 (by decide)
  rw [Int.add_zero, Int.add_zero] at first
  rw [colorAt, colorAt, format, first, same 1 (by decide), same 2 (by decide)]

end Raster

/-! ## The code -/

section

variable (dst src : FrameBufferConfig) (dstPos : Vector2D) (srcArea : Rectangle)

/-- `copy_area` in `Copy`. -/
def copyArea : Rectangle :=
  let srcAreaShifted : Rectangle := ⟨dstPos, srcArea.size⟩
  let srcOutline : Rectangle := ⟨dstPos - srcArea.pos, src.frameBufferSize⟩
  let dstOutline : Rectangle := ⟨⟨0, 0⟩, dst.frameBufferSize⟩
  (dstOutline.inter srcOutline).inter srcAreaShifted

/-- The calls of `memcpy` in `Copy`; `none` if the number of bytes overflows. -/
def copyCalls : Option (List Memcpy) :=
  let area := copyArea dst src dstPos srcArea
  let srcStartPos := area.pos - (dstPos - srcArea.pos)
  copyLoop dst.pixelFormat area.size dst.bytesPerScanLine src.bytesPerScanLine
    (dst.frameAddrAt area.pos) (src.frameAddrAt srcStartPos)

end

/-- `Copy`. -/
def Raster.copy (dst : Raster) (dstPos : Vector2D) (src : Raster) (srcArea : Rectangle) :
    Option (Error × Raster) :=
  if dst.config.pixelFormat ≠ src.config.pixelFormat then some (.unknownPixelFormat, dst)
  else do
    let calls ← copyCalls dst.config src.config dstPos srcArea
    some (.success, { dst with byte := copyAll src.byte calls dst.byte })

/-! ## The pixels that are to be copied -/

section

variable (dst src : FrameBufferConfig) (dstPos : Vector2D) (srcArea : Rectangle)

/-- The destination pixels for which there is a source pixel in the area. -/
def clipped : Rectangle :=
  let shift := dstPos - srcArea.pos
  let left := max (max 0 shift.x) dstPos.x
  let top := max (max 0 shift.y) dstPos.y
  let right := min (min (dst.horizontalResolution : Int) (shift.x + src.horizontalResolution))
    (dstPos.x + srcArea.size.x)
  let bottom := min (min (dst.verticalResolution : Int) (shift.y + src.verticalResolution))
    (dstPos.y + srcArea.size.y)
  ⟨⟨left, top⟩, ⟨right - left, bottom - top⟩⟩

/-- The source pixel of the first of them. -/
def clippedStart : Vector2D :=
  (clipped dst src dstPos srcArea).pos - (dstPos - srcArea.pos)

variable {dst src dstPos srcArea}

theorem clipped_contains_iff {x y : Int} :
    (clipped dst src dstPos srcArea).Contains x y ↔
      dst.HasPixel x y ∧
        srcArea.Contains (x - dstPos.x + srcArea.pos.x) (y - dstPos.y + srcArea.pos.y) ∧
        src.HasPixel (x - dstPos.x + srcArea.pos.x) (y - dstPos.y + srcArea.pos.y) := by
  simp only [clipped, Rectangle.Contains, HasPixel, Vector2D.sub_x, Vector2D.sub_y, max_le_iff,
    add_sub_cancel, lt_min_iff]
  constructor
  · rintro ⟨⟨⟨_, _⟩, _⟩, ⟨⟨_, _⟩, _⟩, ⟨⟨_, _⟩, _⟩, ⟨_, _⟩, _⟩
    refine ⟨⟨⟨?_, ?_⟩, ?_, ?_⟩, ⟨?_, ?_, ?_, ?_⟩, ⟨?_, ?_⟩, ?_, ?_⟩ <;> omega
  · rintro ⟨⟨⟨_, _⟩, _, _⟩, ⟨_, _, _, _⟩, ⟨_, _⟩, _, _⟩
    refine ⟨⟨⟨?_, ?_⟩, ?_⟩, ⟨⟨?_, ?_⟩, ?_⟩, ⟨⟨?_, ?_⟩, ?_⟩, ⟨?_, ?_⟩, ?_⟩ <;> omega

theorem copyArea_contains_iff {x y : Int} :
    (copyArea dst src dstPos srcArea).Contains x y ↔
      (clipped dst src dstPos srcArea).Contains x y := by
  rw [copyArea, Rectangle.inter_contains_iff, Rectangle.inter_contains_iff, clipped_contains_iff]
  simp only [Rectangle.Contains, HasPixel, frameBufferSize, Vector2D.sub_x, Vector2D.sub_y]
  omega

/-- If there are such pixels, the area of the code is the same rectangle. -/
theorem copyArea_eq (some : 0 < (clipped dst src dstPos srcArea).size.x ∧
      0 < (clipped dst src dstPos srcArea).size.y) :
    copyArea dst src dstPos srcArea = clipped dst src dstPos srcArea :=
  (Rectangle.eq_of_contains_iff some fun _ _ => copyArea_contains_iff.symm).symm

/-- If there are none, it is empty. -/
theorem copyArea_empty (nonneg : 0 ≤ srcArea.size.x ∧ 0 ≤ srcArea.size.y)
    (none : ¬ (0 < (clipped dst src dstPos srcArea).size.x ∧
      0 < (clipped dst src dstPos srcArea).size.y)) :
    (copyArea dst src dstPos srcArea).size.x = 0 ∨ (copyArea dst src dstPos srcArea).size.y = 0 := by
  have size : 0 ≤ (copyArea dst src dstPos srcArea).size.x ∧
      0 ≤ (copyArea dst src dstPos srcArea).size.y := by
    refine Rectangle.inter_size_nonneg (Rectangle.inter_size_nonneg ?_ ?_) nonneg
    · exact ⟨Int.natCast_nonneg _, Int.natCast_nonneg _⟩
    · exact ⟨Int.natCast_nonneg _, Int.natCast_nonneg _⟩
  have first := @copyArea_contains_iff dst src dstPos srcArea
    (copyArea dst src dstPos srcArea).pos.x (copyArea dst src dstPos srcArea).pos.y
  simp only [Rectangle.Contains] at first
  omega

variable (dst src dstPos srcArea) in
theorem hasRectangle_clipped : dst.HasRectangle (clipped dst src dstPos srcArea) := by
  simp only [HasRectangle, clipped, Vector2D.sub_x, Vector2D.sub_y]
  omega

variable (dst src dstPos srcArea) in
theorem hasRectangle_clippedStart :
    src.HasRectangle ⟨clippedStart dst src dstPos srcArea, (clipped dst src dstPos srcArea).size⟩ := by
  simp only [HasRectangle, clippedStart, clipped, Vector2D.sub_x, Vector2D.sub_y]
  omega

variable (dst src dstPos srcArea) in
/-- There are no such pixels, or a row of them has less than 2³¹ bytes and the first row lies within
the first 2³² bytes of both frame buffers; if there are more rows, the scan lines of both have less
than 2³¹ bytes. -/
def Copyable : Prop :=
  let area := clipped dst src dstPos srcArea
  0 < area.size.x ∧ 0 < area.size.y →
    4 * area.size.x < 2 ^ 31 ∧ dst.Addressable area.pos area.size.y ∧
      src.Addressable (clippedStart dst src dstPos srcArea) area.size.y

/-! ## The calls -/

/-- If there are such pixels, these are the calls for their rows. -/
theorem copyCalls_eq (some : 0 < (clipped dst src dstPos srcArea).size.x ∧
      0 < (clipped dst src dstPos srcArea).size.y)
    (small : 4 * (clipped dst src dstPos srcArea).size.x < 2 ^ 31) :
    copyCalls dst src dstPos srcArea =
      .some ((rowsDown (clipped dst src dstPos srcArea).size.y).map fun y =>
        ⟨dst.frameAddrAt (clipped dst src dstPos srcArea).pos + dst.bytesPerScanLine * y,
          src.frameAddrAt (clippedStart dst src dstPos srcArea) + src.bytesPerScanLine * y,
          (4 * (clipped dst src dstPos srcArea).size.x).toNat⟩) := by
  rw [copyCalls, copyArea_eq some]
  exact copyLoop_eq some small

theorem copyCalls_overflow (some : 0 < (clipped dst src dstPos srcArea).size.x ∧
      0 < (clipped dst src dstPos srcArea).size.y)
    (large : 2 ^ 31 ≤ 4 * (clipped dst src dstPos srcArea).size.x) :
    copyCalls dst src dstPos srcArea = none := by
  rw [copyCalls, copyArea_eq some]
  exact copyLoop_overflow some.2 large

end

/-! ## When the pixels are copied -/

/-- Whatever two frame buffers of the same format show, the destination pixels change for which
there is a source pixel in the area; and no bytes are written or read but those of pixels. -/
structure CopiesClipped (dst src : FrameBufferConfig) (dstPos : Vector2D) (srcArea : Rectangle) :
    Prop where
  inside : ∃ calls, copyCalls dst src dstPos srcArea = some calls ∧
    ∀ c ∈ calls, (∀ b, c.Writes b → dst.HasByte b) ∧ ∀ b, c.Reads b → src.HasByte b
  pixel : ∀ dstByte srcByte, ∃ after,
    Raster.copy ⟨dst, dstByte⟩ dstPos ⟨src, srcByte⟩ srcArea = some (.success, ⟨dst, after⟩) ∧
      ∀ x y, dst.HasPixel x y → ∀ i, 0 ≤ i ∧ i < 4 →
        let x' := x - dstPos.x + srcArea.pos.x
        let y' := y - dstPos.y + srcArea.pos.y
        after (dst.offset x y + i) =
          if srcArea.Contains x' y' ∧ src.HasPixel x' y' then srcByte (src.offset x' y' + i)
          else dstByte (dst.offset x y + i)

section

variable {dst src : FrameBufferConfig} {dstPos : Vector2D} {srcArea : Rectangle}

theorem Raster.copy_eq (same : dst.pixelFormat = src.pixelFormat) {calls : List Memcpy}
    (result : copyCalls dst src dstPos srcArea = some calls) (dstByte srcByte : Int → UInt8) :
    Raster.copy ⟨dst, dstByte⟩ dstPos ⟨src, srcByte⟩ srcArea =
      some (.success, ⟨dst, copyAll srcByte calls dstByte⟩) := by
  rw [Raster.copy, if_neg (not_not.mpr same), result]
  rfl

theorem copiesClipped_of_copyable (same : dst.pixelFormat = src.pixelFormat)
    (nonneg : 0 ≤ srcArea.size.x ∧ 0 ≤ srcArea.size.y)
    (copyable : Copyable dst src dstPos srcArea) : CopiesClipped dst src dstPos srcArea := by
  by_cases pixels : 0 < (clipped dst src dstPos srcArea).size.x ∧
      0 < (clipped dst src dstPos srcArea).size.y
  · rcases copyable pixels with ⟨small, dstRows, srcRows⟩
    have calls := copyCalls_eq pixels small
    have contains := @clipped_contains_iff dst src dstPos srcArea
    have inDst := hasRectangle_clipped dst src dstPos srcArea
    have inSrc := hasRectangle_clippedStart dst src dstPos srcArea
    have start : clippedStart dst src dstPos srcArea =
      (clipped dst src dstPos srcArea).pos - (dstPos - srcArea.pos) := rfl
    generalize clipped dst src dstPos srcArea = area at *
    generalize clippedStart dst src dstPos srcArea = srcPos at *
    have rows : (rowsDown area.size.y).map (fun y => (⟨dst.frameAddrAt area.pos +
        dst.bytesPerScanLine * y, src.frameAddrAt srcPos + src.bytesPerScanLine * y,
        (4 * area.size.x).toNat⟩ : Memcpy)) =
        (rowsDown area.size.y).map (rowCall dst src area.pos srcPos area.size.x) := by
      refine List.map_congr_left fun y member => ?_
      have bounds := mem_rowsDown.mp member
      rw [dstRows.row_eq inDst.1.1 inDst.2.1 (by omega),
        srcRows.row_eq inSrc.1.1 inSrc.2.1 (by omega)]
      rfl
    rw [rows] at calls
    constructor
    · refine ⟨_, calls, fun c member => ?_⟩
      obtain ⟨y, y_mem, rfl⟩ := List.mem_map.mp member
      have bounds := mem_rowsDown.mp y_mem
      exact rowCall_inside inDst inSrc bounds
    · intro dstByte srcByte
      refine ⟨_, Raster.copy_eq same calls dstByte srcByte, fun x y pixel i byte => ?_⟩
      rw [copyAll_rows (nodup_rowsDown _) inDst.1.1 inDst.1.2 srcByte dstByte pixel byte]
      have column : srcPos.x + (x - area.pos.x) = x - dstPos.x + srcArea.pos.x := by
        rw [start, Vector2D.sub_x, Vector2D.sub_x]
        ring
      have row : srcPos.y + (y - area.pos.y) = y - dstPos.y + srcArea.pos.y := by
        rw [start, Vector2D.sub_y, Vector2D.sub_y]
        ring
      rw [column, row]
      refine if_congr ?_ rfl rfl
      have region := @contains x y
      rw [and_iff_right pixel] at region
      rw [← region, mem_rowsDown, Rectangle.Contains]
      omega
  · have noPixels := (copyArea_empty nonneg pixels).imp_right le_of_eq
    obtain ⟨calls, result, nothing⟩ : ∃ calls, copyCalls dst src dstPos srcArea = some calls ∧
        ∀ c ∈ calls, ∀ b, ¬ c.Writes b ∧ ¬ c.Reads b := copyLoop_empty noPixels
    constructor
    · exact ⟨calls, result, fun c member =>
        ⟨fun b writes => absurd writes (nothing c member b).1,
          fun b reads => absurd reads (nothing c member b).2⟩⟩
    · intro dstByte srcByte
      refine ⟨_, Raster.copy_eq same result dstByte srcByte, fun x y pixel i byte => ?_⟩
      rw [copyAll_kept fun c member => (nothing c member _).1]
      refine (if_neg fun region => ?_).symm
      have contained := clipped_contains_iff.mpr ⟨pixel, region⟩
      simp only [Rectangle.Contains] at contained
      omega

/-- The last byte that should be copied. -/
theorem CopiesClipped.lastByte_eq (same : dst.pixelFormat = src.pixelFormat)
    (copies : CopiesClipped dst src dstPos srcArea)
    (pixels : 0 < (clipped dst src dstPos srcArea).size.x ∧
      0 < (clipped dst src dstPos srcArea).size.y) {calls : List Memcpy}
    (result : copyCalls dst src dstPos srcArea = some calls) (dstByte srcByte : Int → UInt8) :
    copyAll srcByte calls dstByte (dst.lastByte (clipped dst src dstPos srcArea)) =
      srcByte (src.lastByte
        ⟨clippedStart dst src dstPos srcArea, (clipped dst src dstPos srcArea).size⟩) := by
  rcases copies.pixel dstByte srcByte with ⟨after, copied, pixel⟩
  rw [Raster.copy_eq same result] at copied
  cases copied
  have contains := @clipped_contains_iff dst src dstPos srcArea
  have start : clippedStart dst src dstPos srcArea =
    (clipped dst src dstPos srcArea).pos - (dstPos - srcArea.pos) := rfl
  generalize clipped dst src dstPos srcArea = area at *
  generalize clippedStart dst src dstPos srcArea = srcPos at *
  have region := (@contains (area.pos.x + (area.size.x - 1)) (area.pos.y + (area.size.y - 1))).mp
    (by rw [Rectangle.Contains]; omega)
  have value := (pixel _ _ region.1 3 (by decide)).trans (if_pos region.2)
  rw [offset_add] at value
  have source : area.pos.x + (area.size.x - 1) - dstPos.x + srcArea.pos.x =
        srcPos.x + (area.size.x - 1) ∧
      area.pos.y + (area.size.y - 1) - dstPos.y + srcArea.pos.y =
        srcPos.y + (area.size.y - 1) := by
    rw [start, Vector2D.sub_x, Vector2D.sub_x, Vector2D.sub_y, Vector2D.sub_y]
    omega
  rw [source.1, source.2, offset_add] at value
  rw [lastByte, lastByte]
  convert value using 2 <;> ring

/-- If the addresses are not right, then the last byte that should be copied is not written, or is
not read. -/
theorem copyable_of_copiesClipped (same : dst.pixelFormat = src.pixelFormat)
    (copies : CopiesClipped dst src dstPos srcArea) : Copyable dst src dstPos srcArea := by
  intro pixels
  rcases copies.inside with ⟨calls, result, -⟩
  have small : 4 * (clipped dst src dstPos srcArea).size.x < 2 ^ 31 := by
    by_contra large
    rw [copyCalls_overflow pixels (not_lt.mp large)] at result
    cases result
  have calls_eq := result.symm.trans (copyCalls_eq pixels small)
  have last := copies.lastByte_eq same pixels result
  have inDst := hasRectangle_clipped dst src dstPos srcArea
  have inSrc := hasRectangle_clippedStart dst src dstPos srcArea
  generalize clipped dst src dstPos srcArea = area at *
  generalize clippedStart dst src dstPos srcArea = srcPos at *
  have widths : (0 : Int) < dst.pixelsPerScanLine ∧ (0 : Int) < src.pixelsPerScanLine := by
    have dstWide : (dst.horizontalResolution : Int) ≤ dst.pixelsPerScanLine :=
      Int.ofNat_le.mpr dst.horizontal_le
    have srcWide : (src.horizontalResolution : Int) ≤ src.pixelsPerScanLine :=
      Int.ofNat_le.mpr src.horizontal_le
    have dstRow := inDst.1
    have srcRow := inSrc.1
    dsimp only at srcRow
    omega
  rw [Option.some.injEq] at calls_eq
  refine ⟨small, ?_, ?_⟩
  · by_contra wrong
    have unwritten : ∀ c ∈ calls, ¬ c.Writes (dst.lastByte area) := by
      rw [calls_eq]
      intro c member writes
      obtain ⟨y, y_mem, rfl⟩ := List.mem_map.mp member
      have before := row_lt_of_not_addressable wrong (Int.ofNat_lt.mp widths.1) inDst.1.1 inDst.2.1
        (mem_rowsDown.mp y_mem)
      have lt := writes.2
      dsimp only [lastByte] at lt
      omega
    have value := last (fun _ => 0) (fun _ => 1)
    rw [copyAll_kept unwritten] at value
    exact absurd value (by decide)
  · by_contra wrong
    have value := last (fun _ => 0) fun b => if b = src.lastByte ⟨srcPos, area.size⟩ then 1 else 0
    rw [if_pos rfl, copyAll_const (z := 0) ?_ rfl] at value
    · exact absurd value (by decide)
    · rw [calls_eq]
      intro c member b reads
      obtain ⟨y, y_mem, rfl⟩ := List.mem_map.mp member
      have before := row_lt_of_not_addressable wrong (Int.ofNat_lt.mp widths.2) inSrc.1.1 inSrc.2.1
        (mem_rowsDown.mp y_mem)
      have lt := reads.2
      dsimp only at lt
      refine if_neg fun same => ?_
      dsimp only [lastByte] at same
      omega

/-- `Copy` composes the pictures, clipped, exactly if the pixels that are to be copied are not too far
into the frame buffers for its numbers. -/
theorem copiesClipped_iff_copyable (same : dst.pixelFormat = src.pixelFormat)
    (nonneg : 0 ≤ srcArea.size.x ∧ 0 ≤ srcArea.size.y) :
    CopiesClipped dst src dstPos srcArea ↔ Copyable dst src dstPos srcArea :=
  ⟨copyable_of_copiesClipped same, copiesClipped_of_copyable same nonneg⟩

end

/-- What is then shown is the copy of the pictures. -/
theorem Raster.view_copy {dst src : Raster} (same : dst.config.pixelFormat = src.config.pixelFormat)
    {dstPos : Vector2D} {srcArea : Rectangle} (nonneg : 0 ≤ srcArea.size.x ∧ 0 ≤ srcArea.size.y)
    (copyable : Copyable dst.config src.config dstPos srcArea) :
    ∃ after, dst.copy dstPos src srcArea = some (.success, after) ∧
      after.view.size = (dst.view.copy dstPos src.view srcArea).size ∧
        ∀ x y, dst.config.HasPixel x y →
          after.view.pixel x y = (dst.view.copy dstPos src.view srcArea).pixel x y := by
  rcases (copiesClipped_of_copyable same nonneg copyable).pixel dst.byte src.byte with
    ⟨after, copied, pixel⟩
  refine ⟨⟨dst.config, after⟩, copied, rfl, fun x y inside => ?_⟩
  have region : (copyArea dst.config src.config dstPos srcArea).Contains x y ↔ _ :=
    copyArea_contains_iff.trans clipped_contains_iff
  rw [and_iff_right inside] at region
  show Raster.colorAt ⟨dst.config, after⟩ x y =
    if (copyArea dst.config src.config dstPos srcArea).Contains x y then
      src.colorAt (x - (dstPos - srcArea.pos).x) (y - (dstPos - srcArea.pos).y)
    else dst.colorAt x y
  by_cases copies : (copyArea dst.config src.config dstPos srcArea).Contains x y
  · rw [if_pos copies, Vector2D.sub_x, Vector2D.sub_y, sub_sub_eq_add_sub, sub_sub_eq_add_sub,
      add_sub_right_comm, add_sub_right_comm]
    exact colorAt_congr (r := ⟨dst.config, after⟩) (s := src) same fun i byte =>
      (pixel x y inside i byte).trans (if_pos (region.mp copies))
  · rw [if_neg copies]
    exact colorAt_congr (r := ⟨dst.config, after⟩) (s := dst) rfl fun i byte =>
      (pixel x y inside i byte).trans (if_neg fun there => copies (region.mpr there))

/-- A frame buffer with a scan line of 640 pixels. -/
def vga : FrameBufferConfig where
  pixelsPerScanLine := 640
  horizontalResolution := 640
  verticalResolution := 480
  pixelFormat := .rgbResv8BitPerColor
  scanLine_lt := by decide
  horizontal_lt := by decide
  vertical_lt := by decide
  horizontal_le := le_rfl

/-- A window that is partly outside. -/
theorem copiesClipped_iff_copyable_vga :
    CopiesClipped vga vga ⟨600, -10⟩ ⟨⟨0, 0⟩, ⟨100, 50⟩⟩ ↔
      Copyable vga vga ⟨600, -10⟩ ⟨⟨0, 0⟩, ⟨100, 50⟩⟩ :=
  copiesClipped_iff_copyable rfl ⟨by decide, by decide⟩

/-- A frame buffer with one pixel in each of two scan lines of 2³² bytes. -/
def longLines : FrameBufferConfig where
  pixelsPerScanLine := 2 ^ 30
  horizontalResolution := 1
  verticalResolution := 2
  pixelFormat := .rgbResv8BitPerColor
  scanLine_lt := by decide
  horizontal_lt := FrameBufferConfig.one_column_lt
  vertical_lt := by decide
  horizontal_le := by decide

/-- Both rows are copied to the first one. -/
theorem not_copiesClipped_longLines :
    ¬ CopiesClipped longLines longLines ⟨0, 0⟩ ⟨⟨0, 0⟩, ⟨1, 2⟩⟩ := by
  intro copies
  have rows := (copyable_of_copiesClipped rfl copies ⟨by decide, by decide⟩).2.1.2
  revert rows
  decide

end Mikanos.Screen
