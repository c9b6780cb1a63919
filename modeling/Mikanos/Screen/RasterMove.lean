import Mikanos.Screen.RasterCopy

/-!
# Moving a part of a frame buffer

`FrameBuffer::Move` copies the rows of a rectangle to another place of the same frame buffer, upwards
from the first one and otherwise from the last one, so that no row is overwritten before it has been
read.  Where the addresses are right, this is also what happens.
-/

namespace Mikanos.Screen

open Memory FrameBufferConfig

/-! ## The code -/

section

variable (config : FrameBufferConfig)

/-- The calls of `memcpy` in `Move`; `none` if the number of bytes overflows. -/
def moveCalls (dstPos : Vector2D) (src : Rectangle) : Option (List Memcpy) :=
  if dstPos.y < src.pos.y then
    copyLoop config.pixelFormat src.size config.bytesPerScanLine config.bytesPerScanLine
      (config.frameAddrAt dstPos) (config.frameAddrAt src.pos)
  else
    copyLoop config.pixelFormat src.size (-config.bytesPerScanLine) (-config.bytesPerScanLine)
      (config.frameAddrAt (dstPos + ⟨0, src.size.y - 1⟩))
      (config.frameAddrAt (src.pos + ⟨0, src.size.y - 1⟩))

end

/-- `Move`. -/
def Raster.move (r : Raster) (dstPos : Vector2D) (src : Rectangle) : Option Raster := do
  let calls ← moveCalls r.config dstPos src
  some { r with byte := moveAll calls r.byte }

/-! ## When the picture moves -/

/-- No pixel is in both rectangles. -/
def Rectangle.Disjoint (r s : Rectangle) : Prop :=
  ∀ x y, r.Contains x y → ¬ s.Contains x y

/-- Whatever the frame buffer shows, the pixels of the destination become those of the source, and
the others are as before; and no call of `memcpy` is given places that overlap. -/
structure MovesPicture (config : FrameBufferConfig) (dstPos : Vector2D) (src : Rectangle) :
    Prop where
  apart : ∃ calls, moveCalls config dstPos src = some calls ∧
    ∀ c ∈ calls, ∀ b, c.Writes b → ¬ c.Reads b
  pixel : ∀ byte, ∃ after, Raster.move ⟨config, byte⟩ dstPos src = some ⟨config, after⟩ ∧
    ∀ x y, config.HasPixel x y → ∀ i, 0 ≤ i ∧ i < 4 →
      after (config.offset x y + i) =
        if Rectangle.Contains ⟨dstPos, src.size⟩ x y then
          byte (config.offset (src.pos.x + (x - dstPos.x)) (src.pos.y + (y - dstPos.y)) + i)
        else byte (config.offset x y + i)

/-- What is promised to `Move`. -/
structure MoveRequest (config : FrameBufferConfig) (dstPos : Vector2D) (src : Rectangle) :
    Prop where
  nonneg : 0 ≤ src.size.x ∧ 0 ≤ src.size.y
  hasSrc : config.HasRectangle src
  hasDst : config.HasRectangle ⟨dstPos, src.size⟩
  vertical : dstPos.y ≠ src.pos.y ∨ Rectangle.Disjoint src ⟨dstPos, src.size⟩

/-- Scan lines of 2³¹ bytes, which the code takes for -2³¹ bytes.  If the number of rows is odd, the
pointers that begin at the last row are those of the first one. -/
def WrapsAround (config : FrameBufferConfig) (dstPos : Vector2D) (src : Rectangle) : Prop :=
  4 * config.pixelsPerScanLine = 2 ^ 31 ∧ src.size.y % 2 = 1 ∧
    config.offset dstPos.x dstPos.y < 2 ^ 32 ∧ config.offset src.pos.x src.pos.y < 2 ^ 32

/-- The rectangle is empty, or a row of it has less than 2³¹ bytes, and the row at which the loop
begins lies within the first 2³² bytes, in both places; if there are more rows, a scan line has less
than 2³¹ bytes.  Apart from that, going down, the pointers may go round if the rectangles are
disjoint. -/
def Movable (config : FrameBufferConfig) (dstPos : Vector2D) (src : Rectangle) : Prop :=
  0 < src.size.x ∧ 0 < src.size.y →
    4 * src.size.x < 2 ^ 31 ∧
      if dstPos.y < src.pos.y then
        config.Addressable dstPos src.size.y ∧ config.Addressable src.pos src.size.y
      else
        config.Addressable (dstPos + ⟨0, src.size.y - 1⟩) src.size.y ∧
            config.Addressable (src.pos + ⟨0, src.size.y - 1⟩) src.size.y ∨
          WrapsAround config dstPos src ∧ Rectangle.Disjoint src ⟨dstPos, src.size⟩

section

variable {config : FrameBufferConfig} {dstPos : Vector2D} {src : Rectangle}

theorem Raster.move_eq {calls : List Memcpy} (result : moveCalls config dstPos src = some calls)
    (byte : Int → UInt8) :
    Raster.move ⟨config, byte⟩ dstPos src = some ⟨config, moveAll calls byte⟩ := by
  rw [Raster.move, result]
  rfl

/-- Where a row of the destination meets a row of the source, they are the same row, and a pixel is in
both. -/
theorem MoveRequest.meet (request : MoveRequest config dstPos src) {y y' b : Int}
    (bounds : 0 ≤ y ∧ y < src.size.y)
    (writes : (rowCall config config dstPos src.pos src.size.x y).Writes b)
    (reads : (rowCall config config dstPos src.pos src.size.x y').Reads b) :
    dstPos.y + y = src.pos.y + y' ∧
      ∃ x, (dstPos.x ≤ x ∧ x < dstPos.x + src.size.x) ∧ src.pos.x ≤ x ∧ x < src.pos.x + src.size.x := by
  rcases request with ⟨⟨width, -⟩, ⟨⟨srcLeft, srcRight⟩, -⟩, ⟨⟨dstLeft, dstRight⟩, dstTop, dstBottom⟩, -⟩
  simp only [rowCall, Memcpy.Writes, Memcpy.Reads] at writes reads dstLeft dstRight dstTop dstBottom
  rw [Int.toNat_of_nonneg (by omega)] at writes reads
  rcases exists_pixel_of_in_row writes with ⟨x, i, column, byte, rfl⟩
  have pixel : config.HasPixel x (dstPos.y + y) := ⟨⟨by omega, by omega⟩, by omega, by omega⟩
  rcases (in_row_iff pixel byte srcLeft srcRight).mp reads with ⟨same, column'⟩
  exact ⟨same, x, column, column'⟩

/-- The rows may be copied in any order in which no row is overwritten before it is read. -/
theorem MoveRequest.movesPicture (request : MoveRequest config dstPos src) {order : List Int}
    (nodup : order.Nodup) (mem_order : ∀ y, y ∈ order ↔ 0 ≤ y ∧ y < src.size.y)
    (result : moveCalls config dstPos src =
      some (order.map (rowCall config config dstPos src.pos src.size.x)))
    (ahead : (dstPos.y < src.pos.y ∧ order.Pairwise (· < ·)) ∨
      (src.pos.y ≤ dstPos.y ∧ order.Pairwise (· > ·)) ∨
      Rectangle.Disjoint src ⟨dstPos, src.size⟩) :
    MovesPicture config dstPos src := by
  have disjoint : ∀ {y y' b : Int}, Rectangle.Disjoint src ⟨dstPos, src.size⟩ →
      0 ≤ y ∧ y < src.size.y → 0 ≤ y' ∧ y' < src.size.y →
      (rowCall config config dstPos src.pos src.size.x y).Writes b →
      ¬ (rowCall config config dstPos src.pos src.size.x y').Reads b := by
    intro y y' b disjoint bounds bounds' writes reads
    rcases request.meet bounds writes reads with ⟨same, x, column, column'⟩
    refine disjoint x (dstPos.y + y) ⟨column'.1, column'.2, by omega, by omega⟩
      ⟨column.1, column.2, ?_⟩
    dsimp only
    omega
  constructor
  · refine ⟨_, result, fun c member b writes reads => ?_⟩
    obtain ⟨y, y_mem, rfl⟩ := List.mem_map.mp member
    have bounds := (mem_order y).mp y_mem
    rcases request.vertical with ne | apart
    · have same := (request.meet bounds writes reads).1
      omega
    · exact disjoint apart bounds bounds writes reads
  · intro byte
    refine ⟨_, Raster.move_eq result byte, fun x y pixel i in_pixel => ?_⟩
    have unread : (order.map (rowCall config config dstPos src.pos src.size.x)).Pairwise
        fun a b => ∀ i, a.Writes i → ¬ b.Reads i := by
      rw [List.pairwise_map]
      rcases ahead with ⟨up, ascending⟩ | ⟨down, descending⟩ | apart
      · refine ascending.imp_of_mem fun {y y'} y_mem y'_mem lt b writes reads => ?_
        have same := (request.meet ((mem_order y).mp y_mem) writes reads).1
        omega
      · refine descending.imp_of_mem fun {y y'} y_mem y'_mem gt b writes reads => ?_
        have same := (request.meet ((mem_order y).mp y_mem) writes reads).1
        omega
      · exact nodup.imp_of_mem fun {y y'} y_mem y'_mem _ b writes =>
          disjoint apart ((mem_order y).mp y_mem) ((mem_order y').mp y'_mem) writes
    rw [moveAll_eq_copyAll unread fun c member j reads => rfl,
      copyAll_rows nodup request.hasDst.1.1 request.hasDst.1.2 byte byte pixel in_pixel]
    refine if_congr ?_ rfl rfl
    rw [mem_order, Rectangle.Contains]
    dsimp only
    omega

/-! ## The directions -/

theorem MoveRequest.moves_up (request : MoveRequest config dstPos src)
    (pixels : 0 < src.size.x ∧ 0 < src.size.y) (small : 4 * src.size.x < 2 ^ 31)
    (up : dstPos.y < src.pos.y) (dstRows : config.Addressable dstPos src.size.y)
    (srcRows : config.Addressable src.pos src.size.y) : MovesPicture config dstPos src := by
  refine request.movesPicture (nodup_rowsDown _) (fun _ => mem_rowsDown) ?_
    (.inl ⟨up, pairwise_rowsDown _⟩)
  rw [moveCalls, if_pos up, copyLoop_eq pixels small]
  refine congrArg some (List.map_congr_left fun y member => ?_)
  have bounds := mem_rowsDown.mp member
  rw [dstRows.row_eq request.hasDst.1.1 request.hasDst.2.1 (by omega),
    srcRows.row_eq request.hasSrc.1.1 request.hasSrc.2.1 (by omega)]
  rfl

theorem MoveRequest.moves_down (request : MoveRequest config dstPos src)
    (pixels : 0 < src.size.x ∧ 0 < src.size.y) (small : 4 * src.size.x < 2 ^ 31)
    (down : ¬ dstPos.y < src.pos.y)
    (dstRows : config.Addressable (dstPos + ⟨0, src.size.y - 1⟩) src.size.y)
    (srcRows : config.Addressable (src.pos + ⟨0, src.size.y - 1⟩) src.size.y) :
    MovesPicture config dstPos src := by
  refine request.movesPicture (nodup_rowsUp _) (fun _ => mem_rowsUp) ?_
    (.inr (.inl ⟨not_lt.mp down, pairwise_rowsUp _⟩))
  rw [moveCalls, if_neg down, copyLoop_eq pixels small, rowsUp, List.map_map]
  refine congrArg some (List.map_congr_left fun y member => ?_)
  have bounds := mem_rowsDown.mp member
  have dstRow := dstRows.row_eq (y := -y) (by simpa using request.hasDst.1.1)
    (by simpa using add_nonneg request.hasDst.2.1 (by omega)) (by omega)
  have srcRow := srcRows.row_eq (y := -y) (by simpa using request.hasSrc.1.1)
    (by simpa using add_nonneg request.hasSrc.2.1 (by omega)) (by omega)
  rw [mul_neg, ← neg_mul] at dstRow srcRow
  rw [dstRow, srcRow, Function.comp_apply, rowCall]
  simp only [Vector2D.add_x, Vector2D.add_y, add_zero]
  congr 2 <;> ring

/-- If the pointers go round, the rows are copied from the first one on. -/
theorem MoveRequest.moveCalls_wrapsAround (request : MoveRequest config dstPos src)
    (pixels : 0 < src.size.x ∧ 0 < src.size.y) (small : 4 * src.size.x < 2 ^ 31)
    (down : ¬ dstPos.y < src.pos.y) (wraps : WrapsAround config dstPos src) :
    moveCalls config dstPos src =
      some ((rowsDown src.size.y).map (rowCall config config dstPos src.pos src.size.x)) := by
  rcases wraps with ⟨line, odd, dst_lt, src_lt⟩
  have start : ∀ pos : Vector2D, 0 ≤ pos.x → 0 ≤ pos.y → config.offset pos.x pos.y < 2 ^ 32 →
      config.frameAddrAt (pos + ⟨0, src.size.y - 1⟩) = config.offset pos.x pos.y := by
    intro pos x_nonneg y_nonneg lt
    have nonneg : 0 ≤ config.offset pos.x pos.y := offset_nonneg x_nonneg y_nonneg
    rw [frameAddrAt_eq]
    simp only [Vector2D.add_x, Vector2D.add_y, add_zero]
    rw [offset_eq, show 4 * (config.pixelsPerScanLine : Int) = 2 ^ 31 by omega]
    omega
  rw [moveCalls, if_neg down, copyLoop_eq pixels small, bytesPerScanLine_of_eq line, neg_neg,
    start _ request.hasDst.1.1 request.hasDst.2.1 dst_lt,
    start _ request.hasSrc.1.1 request.hasSrc.2.1 src_lt]
  refine congrArg some (List.map_congr_left fun y _ => ?_)
  rw [rowCall, offset_eq, offset_eq, show 4 * (config.pixelsPerScanLine : Int) = 2 ^ 31 by omega]

theorem MoveRequest.movesPicture_of_movable (request : MoveRequest config dstPos src)
    (movable : Movable config dstPos src) : MovesPicture config dstPos src := by
  by_cases pixels : 0 < src.size.x ∧ 0 < src.size.y
  · rcases movable pixels with ⟨small, addresses⟩
    by_cases up : dstPos.y < src.pos.y
    · rw [if_pos up] at addresses
      exact request.moves_up pixels small up addresses.1 addresses.2
    · rw [if_neg up] at addresses
      rcases addresses with ⟨dstRows, srcRows⟩ | ⟨wraps, disjoint⟩
      · exact request.moves_down pixels small up dstRows srcRows
      · exact request.movesPicture (nodup_rowsDown _) (fun _ => mem_rowsDown)
          (request.moveCalls_wrapsAround pixels small up wraps) (.inr (.inr disjoint))
  · have noPixels : src.size.x = 0 ∨ src.size.y ≤ 0 := by
      have nonneg := request.nonneg
      omega
    obtain ⟨calls, result, nothing⟩ : ∃ calls, moveCalls config dstPos src = some calls ∧
        ∀ c ∈ calls, ∀ b, ¬ c.Writes b ∧ ¬ c.Reads b := by
      rw [moveCalls]
      split <;> exact copyLoop_empty noPixels
    constructor
    · exact ⟨calls, result, fun c member b writes => absurd writes (nothing c member b).1⟩
    · intro byte
      refine ⟨_, Raster.move_eq result byte, fun x y _ i _ => ?_⟩
      rw [moveAll_kept fun c member => (nothing c member _).1]
      refine (if_neg fun inside => ?_).symm
      rw [Rectangle.Contains] at inside
      dsimp only at inside
      omega

/-! ## What has to be written and read -/

/-- One byte is set. -/
def mark (q : Int) : Int → UInt8 :=
  fun b => if b = q then 1 else 0

theorem mark_self (q : Int) : mark q q = 1 :=
  if_pos rfl

theorem mark_of_ne {q b : Int} (ne : b ≠ q) : mark q b = 0 :=
  if_neg ne

/-- The places differ. -/
theorem MoveRequest.pos_ne (request : MoveRequest config dstPos src)
    (pixels : 0 < src.size.x ∧ 0 < src.size.y) : dstPos ≠ src.pos := by
  rintro rfl
  rcases request.vertical with ne | disjoint
  · exact ne rfl
  · have first : src.Contains src.pos.x src.pos.y := by
      rw [Rectangle.Contains]
      omega
    exact disjoint _ _ first first

/-- The bytes of a pixel of the destination and of its source. -/
structure MoveRequest.Bytes (config : FrameBufferConfig) (dstPos : Vector2D) (src : Rectangle)
    (m q : Int) : Prop where
  ne : m ≠ q
  move : MovesPicture config dstPos src → ∀ calls, moveCalls config dstPos src = some calls →
    moveAll calls (mark q) m = 1

theorem MoveRequest.bytes (request : MoveRequest config dstPos src) {x y i : Int}
    (inside : (0 ≤ x ∧ x < src.size.x) ∧ 0 ≤ y ∧ y < src.size.y) (byte : 0 ≤ i ∧ i < 4) :
    MoveRequest.Bytes config dstPos src (config.offset (dstPos.x + x) (dstPos.y + y) + i)
      (config.offset (src.pos.x + x) (src.pos.y + y) + i) := by
  have ne := request.pos_ne ⟨by omega, by omega⟩
  rcases request with ⟨-, ⟨⟨srcLeft, srcRight⟩, srcTop, srcBottom⟩,
    ⟨⟨dstLeft, dstRight⟩, dstTop, dstBottom⟩, -⟩
  dsimp only at dstLeft dstRight dstTop dstBottom
  have dstPixel : config.HasPixel (dstPos.x + x) (dstPos.y + y) :=
    ⟨⟨by omega, by omega⟩, by omega, by omega⟩
  have srcPixel : config.HasPixel (src.pos.x + x) (src.pos.y + y) :=
    ⟨⟨by omega, by omega⟩, by omega, by omega⟩
  constructor
  · intro same
    rcases offset_inj dstPixel srcPixel byte byte same with ⟨column, row⟩
    exact ne (Vector2D.eq_of_coordinates (by omega) (by omega))
  · intro moves calls result
    rcases moves.pixel (mark (config.offset (src.pos.x + x) (src.pos.y + y) + i)) with
      ⟨after, moved, pixel⟩
    rw [Raster.move_eq result] at moved
    cases moved
    have contains : Rectangle.Contains ⟨dstPos, src.size⟩ (dstPos.x + x) (dstPos.y + y) :=
      ⟨by dsimp only; omega, by dsimp only; omega, by dsimp only; omega, by dsimp only; omega⟩
    have value := (pixel _ _ dstPixel i byte).trans (if_pos contains)
    rw [add_sub_cancel_left, add_sub_cancel_left, mark_self] at value
    exact value

variable {m q : Int} {calls : List Memcpy}

/-- A byte of the destination is written. -/
theorem MoveRequest.Bytes.written (bytes : MoveRequest.Bytes config dstPos src m q)
    (moves : MovesPicture config dstPos src) (result : moveCalls config dstPos src = some calls) :
    ∃ c ∈ calls, c.Writes m := by
  by_contra unwritten
  push Not at unwritten
  have value := bytes.move moves calls result
  rw [moveAll_kept unwritten, mark_of_ne bytes.ne] at value
  exact absurd value (by decide)

/-- A byte of the source is read. -/
theorem MoveRequest.Bytes.read (bytes : MoveRequest.Bytes config dstPos src m q)
    (moves : MovesPicture config dstPos src) (result : moveCalls config dstPos src = some calls) :
    ∃ c ∈ calls, c.Reads q := by
  by_contra unread
  push Not at unread
  have reads : ∀ c ∈ calls, ∀ j, c.Reads j → mark q j = 0 := by
    intro c member j reads
    refine mark_of_ne ?_
    rintro rfl
    exact unread c member reads
  have value := bytes.move moves calls result
  rw [moveAll_const reads (mark_of_ne bytes.ne)] at value
  exact absurd value (by decide)

/-- Going up, the last rows are written and read. -/
theorem MoveRequest.addressable_up (request : MoveRequest config dstPos src)
    (pixels : 0 < src.size.x ∧ 0 < src.size.y) (small : 4 * src.size.x < 2 ^ 31)
    (up : dstPos.y < src.pos.y) (moves : MovesPicture config dstPos src) :
    config.Addressable dstPos src.size.y ∧ config.Addressable src.pos src.size.y := by
  have result : moveCalls config dstPos src = _ := (if_pos up).trans (copyLoop_eq pixels small)
  have bytes := request.bytes (x := src.size.x - 1) (y := src.size.y - 1) (i := 3)
    ⟨by omega, by omega⟩ (by decide)
  have line : 0 < config.pixelsPerScanLine := by
    have wide := config.horizontal_le
    have fits := request.hasSrc.1
    omega
  constructor
  · by_contra wrong
    rcases bytes.written moves result with ⟨c, member, -, lt⟩
    obtain ⟨y, y_mem, rfl⟩ := List.mem_map.mp member
    have before := row_lt_of_not_addressable wrong line request.hasDst.1.1 request.hasDst.2.1
      (mem_rowsDown.mp y_mem)
    rw [offset_add] at lt
    dsimp only at lt
    omega
  · by_contra wrong
    rcases bytes.read moves result with ⟨c, member, -, lt⟩
    obtain ⟨y, y_mem, rfl⟩ := List.mem_map.mp member
    have before := row_lt_of_not_addressable wrong line request.hasSrc.1.1 request.hasSrc.2.1
      (mem_rowsDown.mp y_mem)
    rw [offset_add] at lt
    dsimp only at lt
    omega

/-- Going down, the last and the first rows are written, and the last row is read. -/
theorem MoveRequest.addressable_down (request : MoveRequest config dstPos src)
    (pixels : 0 < src.size.x ∧ 0 < src.size.y) (small : 4 * src.size.x < 2 ^ 31)
    (down : ¬ dstPos.y < src.pos.y) (moves : MovesPicture config dstPos src) :
    config.Addressable (dstPos + ⟨0, src.size.y - 1⟩) src.size.y ∧
        config.Addressable (src.pos + ⟨0, src.size.y - 1⟩) src.size.y ∨
      WrapsAround config dstPos src := by
  have result : moveCalls config dstPos src = _ := (if_neg down).trans (copyLoop_eq pixels small)
  have lastBytes := request.bytes (x := src.size.x - 1) (y := src.size.y - 1) (i := 3)
    ⟨by omega, by omega⟩ (by decide)
  have firstBytes := request.bytes (x := 0) (y := 0) (i := 0) ⟨by omega, by omega⟩ (by decide)
  rcases lastBytes.written moves result with ⟨c, member, -, lt⟩
  obtain ⟨y, y_mem, rfl⟩ := List.mem_map.mp member
  rcases firstBytes.written moves result with ⟨c, member', ge, -⟩
  obtain ⟨y', y'_mem, rfl⟩ := List.mem_map.mp member'
  rcases lastBytes.read moves result with ⟨c, member'', -, read⟩
  obtain ⟨y'', y''_mem, rfl⟩ := List.mem_map.mp member''
  have bounds := mem_rowsDown.mp y_mem
  have bounds' := mem_rowsDown.mp y'_mem
  have bounds'' := mem_rowsDown.mp y''_mem
  rw [offset_add] at lt read
  rw [add_zero, add_zero, add_zero] at ge
  dsimp only at lt ge read
  have left : 0 ≤ dstPos.x := request.hasDst.1.1
  have top : 0 ≤ dstPos.y := request.hasDst.2.1
  rcases addressable_or_round left top bounds bounds' (by omega) ge with
    dstRows | ⟨line, odd, dst_lt⟩
  · refine .inl ⟨dstRows, ?_, dstRows.2⟩
    have steps : 0 ≤ config.bytesPerScanLine * y'' := by
      rcases dstRows.2 with one | short
      · have first : y'' = 0 := by omega
        rw [first, mul_zero]
      · rw [bytesPerScanLine_of_lt short]
        exact mul_nonneg (by omega) bounds''.1
    rw [frameAddrAt_eq, neg_mul] at read
    simp only [Vector2D.add_x, Vector2D.add_y, add_zero] at read ⊢
    omega
  · refine .inr ⟨line, odd, dst_lt, ?_⟩
    have nonneg : 0 ≤ config.offset src.pos.x src.pos.y :=
      offset_nonneg request.hasSrc.1.1 request.hasSrc.2.1
    rw [frameAddrAt_eq, bytesPerScanLine_of_eq line, neg_neg] at read
    simp only [Vector2D.add_x, Vector2D.add_y, add_zero] at read
    rw [offset_eq, show 4 * (config.pixelsPerScanLine : Int) = 2 ^ 31 by omega] at read
    generalize config.offset src.pos.x src.pos.y = o at *
    clear line lt ge
    omega

/-- If the pointers go round, a row of the source that is also one of the destination is lost. -/
theorem MoveRequest.disjoint_of_wrapsAround (request : MoveRequest config dstPos src)
    (pixels : 0 < src.size.x ∧ 0 < src.size.y) (small : 4 * src.size.x < 2 ^ 31)
    (down : ¬ dstPos.y < src.pos.y) (moves : MovesPicture config dstPos src)
    (wraps : WrapsAround config dstPos src) : Rectangle.Disjoint src ⟨dstPos, src.size⟩ := by
  rcases request.vertical with ne | disjoint
  · intro x y inSrc inDst
    rw [Rectangle.Contains] at inSrc inDst
    dsimp only at inDst
    have result := request.moveCalls_wrapsAround pixels small down wraps
    -- a byte in the first row of the destination, and where it should go
    have bytes := request.bytes (x := x - src.pos.x) (y := dstPos.y - src.pos.y) (i := 0)
      ⟨by omega, by omega⟩ (by decide)
    rw [add_sub_cancel, add_sub_cancel, add_zero, add_zero] at bytes
    generalize qEq : config.offset x dstPos.y = q at bytes
    have writes : (rowCall config config dstPos src.pos src.size.x 0).Writes q := by
      have column := @offset_add config dstPos.x dstPos.y (x - dstPos.x)
      rw [add_sub_cancel, qEq] at column
      simp only [rowCall, Memcpy.Writes, add_zero]
      omega
    have unread : ¬ (rowCall config config dstPos src.pos src.size.x 0).Reads q := by
      intro reads
      have same := (request.meet ⟨le_rfl, pixels.2⟩ writes reads).1
      omega
    have lost : ∀ t, (rowCall config config dstPos src.pos src.size.x 0).apply (mark q) (mark q) t =
        0 := by
      intro t
      by_cases written : (rowCall config config dstPos src.pos src.size.x 0).Writes t
      · rw [Memcpy.apply_of_writes _ written]
        refine mark_of_ne fun same => unread ?_
        exact same ▸ Memcpy.reads_of_writes _ written
      · rw [Memcpy.apply_of_not_writes _ written]
        refine mark_of_ne ?_
        rintro rfl
        exact written writes
    rcases rowsDown_eq_cons pixels.2 with ⟨rest, rows⟩
    have value := bytes.move moves _ result
    rw [rows, List.map_cons] at value
    have later : ∀ t, moveAll (rest.map (rowCall config config dstPos src.pos src.size.x))
        ((rowCall config config dstPos src.pos src.size.x 0).apply (mark q) (mark q)) t = 0 :=
      fun t => moveAll_const (fun _ _ j _ => lost j) (lost t)
    exact absurd ((later _).symm.trans value) (by decide)
  · exact disjoint

theorem MoveRequest.movable_of_movesPicture (request : MoveRequest config dstPos src)
    (moves : MovesPicture config dstPos src) : Movable config dstPos src := by
  intro pixels
  have small : 4 * src.size.x < 2 ^ 31 := by
    by_contra large
    rcases moves.apart with ⟨calls, result, -⟩
    have overflow : moveCalls config dstPos src = none := by
      rw [moveCalls]
      split <;> exact copyLoop_overflow pixels.2 (not_lt.mp large)
    rw [overflow] at result
    cases result
  refine ⟨small, ?_⟩
  split
  · rename_i up
    exact request.addressable_up pixels small up moves
  · rename_i down
    refine (request.addressable_down pixels small down moves).imp_right fun wraps => ⟨wraps, ?_⟩
    exact request.disjoint_of_wrapsAround pixels small down moves wraps

/-- `Move` moves the old picture exactly if its numbers hold the addresses. -/
theorem MoveRequest.movesPicture_iff_movable (request : MoveRequest config dstPos src) :
    MovesPicture config dstPos src ↔ Movable config dstPos src :=
  ⟨request.movable_of_movesPicture, request.movesPicture_of_movable⟩

end

/-- A terminal of 80 columns scrolls by one line. -/
theorem moveRequest_scroll : MoveRequest vga ⟨4, 24⟩ ⟨⟨4, 40⟩, ⟨632, 224⟩⟩ where
  nonneg := by decide
  hasSrc := ⟨by decide, by decide⟩
  hasDst := ⟨by decide, by decide⟩
  vertical := .inl (by decide)

theorem movesPicture_iff_movable_scroll :
    MovesPicture vga ⟨4, 24⟩ ⟨⟨4, 40⟩, ⟨632, 224⟩⟩ ↔ Movable vga ⟨4, 24⟩ ⟨⟨4, 40⟩, ⟨632, 224⟩⟩ :=
  moveRequest_scroll.movesPicture_iff_movable

/-- A frame buffer with one pixel in each of four scan lines of 2³² bytes. -/
def longerLines : FrameBufferConfig :=
  { longLines with
    verticalResolution := 4
    vertical_lt := by decide }

/-- The last pixel does not move. -/
theorem not_movesPicture_longerLines :
    MoveRequest longerLines ⟨0, 0⟩ ⟨⟨0, 1⟩, ⟨1, 3⟩⟩ ∧
      ¬ MovesPicture longerLines ⟨0, 0⟩ ⟨⟨0, 1⟩, ⟨1, 3⟩⟩ := by
  have request : MoveRequest longerLines ⟨0, 0⟩ ⟨⟨0, 1⟩, ⟨1, 3⟩⟩ :=
    ⟨by decide, ⟨by decide, by decide⟩, ⟨by decide, by decide⟩, .inl (by decide)⟩
  refine ⟨request, fun moves => ?_⟩
  have rows := (request.movable_of_movesPicture moves ⟨by decide, by decide⟩).2
  rw [if_pos (by decide)] at rows
  have line := rows.1.2
  revert line
  decide

end Mikanos.Screen
