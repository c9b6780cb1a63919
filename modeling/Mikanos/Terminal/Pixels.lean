import Mikanos.Screen.Strokes
import Mikanos.Terminal.Paper

/-!
# The pixels of a terminal

All that a terminal draws goes to the shadow buffer of its window: glyphs, filled rectangles, and the
rows that `Scroll1` moves.  As long as the glyphs stay in their cells, the pixels of the text area are
those of the glyphs in its cells.
-/

namespace Mikanos.Terminal

open Screen Transition WindowStores

def white : PixelColor :=
  ⟨255, 255, 255⟩

def black : PixelColor :=
  ⟨0, 0, 0⟩

/-! ## The code -/

/-- The calls for a drawing; `InnerWriter` adds the margin. -/
def Drawing.calls (font : Font) : Drawing → List WindowCall
  | .writeUnicode cursor c => strokes white (font.writeUnicode (calcCursorPos cursor) c)
  | .move dst src => [.move dst src]
  | .fillRectangle pos size =>
      strokes black ((Screen.fillRectangle pos size).map (· + kTopLeftMargin))

/-- `DrawCursor`. -/
def cursorCalls (cursor : Vector2D) (visible : Bool) : List WindowCall :=
  strokes (if visible then white else black) (fillRectangle (calcCursorPos cursor) ⟨7, 15⟩)

/-- `WriteString`, of ASCII characters. -/
def stringCalls (font : Font) : (x y : Int) → List UInt8 → List WindowCall
  | _, _, [] => []
  | x, y, c :: text =>
      strokes white (font.writeUnicode (calcCursorPos ⟨x, y⟩) c.toNat) ++ stringCalls font (x + 1) y text

namespace TextArea

variable (font : Font)

/-- The new line, in `Print` as well as in `InputKey`. -/
def newlineCalls (a : TextArea) : List WindowCall :=
  (Terminal.newline a.cursor).2.flatMap (Drawing.calls font)

/-- `Print`, for one character. -/
def charCalls (a : TextArea) (c : Nat) : List WindowCall :=
  (Terminal.printChar a.cursor c).2.flatMap (Drawing.calls font)

/-- The loop of `Print`. -/
def textCalls : TextArea → List Nat → List WindowCall
  | _, [] => []
  | a, c :: text => a.charCalls font c ++ textCalls (a.printChar c) text

/-- `Print`, for a string. -/
def printCalls (a : TextArea) (text : List Nat) : List WindowCall :=
  cursorCalls a.cursor false ++ (a.drawCursor false).textCalls font text ++
    cursorCalls (a.print text).cursor true

/-- What a command draws. -/
def outputCalls (a : TextArea) : CommandOutput → List WindowCall
  | .print text => a.printCalls font text
  | .clear =>
      strokes black ((fillRectangle ⟨4, 4⟩ ⟨8 * kColumns, 16 * kRows⟩).map (· + kTopLeftMargin))

def outputsCalls : TextArea → List CommandOutput → List WindowCall
  | _, [] => []
  | a, output :: outputs => a.outputCalls font output ++ outputsCalls (a.output output) outputs

end TextArea

namespace WindowedTerminal

variable (font : Font) (t : WindowedTerminal)

/-- `HistoryUpDown`. -/
def historyCalls (direction : Int) : List WindowCall :=
  strokes black
      (fillRectangle (calcCursorPos ⟨1, t.editor.cursor.y⟩) ⟨8 * (kColumns - 1), 16⟩) ++
    stringCalls font 1 t.editor.cursor.y (t.editor.history direction)

/-- `InputKey`, between the calls of `DrawCursor`. -/
def editCalls (keycode ascii : UInt8) (outputs : List CommandOutput) : List WindowCall :=
  let s := t.editor
  let a := t.area.drawCursor false
  if ascii = 0x0a then
    a.newlineCalls font ++ a.newline.outputsCalls font outputs ++
      (outputs.foldl TextArea.output a.newline).printCalls font [0x3e]
  else if ascii = 0x08 then
    if s.cursor.x > 1 then
      strokes black (fillRectangle (calcCursorPos ⟨s.cursor.x - 1, s.cursor.y⟩) ⟨8, 16⟩)
    else []
  else if ascii ≠ 0 then
    if s.cursor.x < kColumns - 1 ∧ s.linebufIndex < kLineMax - 1 then
      strokes white (font.writeAscii (calcCursorPos s.cursor) ascii.toNat)
    else []
  else if keycode = 0x51 then t.historyCalls font (-1)
  else if keycode = 0x52 then t.historyCalls font 1
  else []

/-- `InputKey`. -/
def inputKeyCalls (keycode ascii : UInt8) (cuts : List Nat) (outputs : List CommandOutput) :
    List WindowCall :=
  cursorCalls t.editor.cursor false ++ t.editCalls font keycode ascii outputs ++
    cursorCalls (t.edit keycode ascii cuts outputs).editor.cursor true

end WindowedTerminal

/-- What is drawn when something happens. -/
def WrittenTerminal.calls (font : Font) (s : WrittenTerminal) : WrittenEvent → List WindowCall
  | .key keycode ascii cuts outputs => s.terminal.inputKeyCalls font keycode ascii cuts outputs
  | .print text => s.terminal.area.printCalls font text
  | .blinkCursor => cursorCalls s.terminal.editor.cursor !s.cursorVisible

/-- The calls of a run. -/
def WrittenTerminal.drawn (font : Font) : WrittenTerminal → List WrittenEvent → List WindowCall
  | _, [] => []
  | s, event :: events => s.calls font event ++ drawn font (s.step event) events

/-! ## Cells and pixels -/

/-- A glyph covers a pixel of its cell. -/
def Glyph.covers (font : Font) : Glyph → (x y : Int) → Bool
  | .char c, x, y => ⟨x, y⟩ ∈ font.glyph c
  | .rightHalf c, x, y => ⟨x + 8, y⟩ ∈ font.glyph c
  | .cursor, x, y => x < 7 ∧ y < 15

/-- The colour of a pixel of a cell with some glyphs. -/
def cellColor (font : Font) (glyphs : List Glyph) (x y : Int) : PixelColor :=
  if glyphs.any (·.covers font x y) then white else black

/-- A pixel of a cell. -/
def cellPixel (i j x y : Int) : Vector2D :=
  calcCursorPos ⟨i, j⟩ + ⟨x, y⟩

/-- A cell of the text area, and a pixel of it. -/
structure InCell (i j x y : Int) : Prop where
  column : 0 ≤ i ∧ i < kColumns
  row : 0 ≤ j ∧ j < kRows
  x : 0 ≤ x ∧ x < 8
  y : 0 ≤ y ∧ y < 16

/-- The window of a terminal shows the glyphs of the cells. -/
structure Renders (font : Font) (cells : Cells) (w : WindowStores) : Prop where
  width : (w.config.horizontalResolution : Int) = kColumns * 8 + 8 + 8
  height : (w.config.verticalResolution : Int) = kRows * 16 + 8 + 28
  seen : ∀ i j x y, InCell i j x y → w.seen (cellPixel i j x y) = cellColor font (cells i j) x y

/-- The calls stay in the window, and change what is shown from some cells to others. -/
def Paints (font : Font) (cells : Cells) (calls : List WindowCall) (cells' : Cells) : Prop :=
  ∀ w, Renders font cells w → ∃ w', w.Calls calls w' ∧ Renders font cells' w'

/-- The ink of a character is in its cells. -/
def Boxed (font : Font) (c : Nat) : Prop :=
  ∀ p ∈ font.glyph c, (0 ≤ p.x ∧ p.x < 8 * (cellsOf c).length) ∧ 0 ≤ p.y ∧ p.y < 16

section

variable {font : Font} {cells cells' cells'' : Cells} {calls calls' : List WindowCall}
  {i j x y : Int}

theorem cellPixel_x (i j x y : Int) : (cellPixel i j x y).x = 8 + 8 * i + x := by
  change 4 + (4 + 8 * i) + x = _
  omega

theorem cellPixel_y (i j x y : Int) : (cellPixel i j x y).y = 28 + 16 * j + y := by
  change 24 + (4 + 16 * j) + y = _
  omega

theorem calcCursorPos_eq (i j : Int) : calcCursorPos ⟨i, j⟩ = ⟨8 + 8 * i, 28 + 16 * j⟩ := by
  refine Vector2D.eq_of_coordinates ?_ ?_
  · change 4 + (4 + 8 * i) = 8 + 8 * i
    omega
  · change 24 + (4 + 16 * j) = 28 + 16 * j
    omega

theorem Paints.nil (font : Font) (cells : Cells) : Paints font cells [] cells :=
  fun w renders => ⟨w, .nil w, renders⟩

theorem Paints.trans (first : Paints font cells calls cells')
    (second : Paints font cells' calls' cells'') : Paints font cells (calls ++ calls') cells'' := by
  intro w renders
  rcases first w renders with ⟨w', run, renders'⟩
  rcases second w' renders' with ⟨w'', run', renders''⟩
  exact ⟨w'', run.append run', renders''⟩

/-- Cells of the text area have their pixels in the window. -/
theorem Renders.hasPixel {w : WindowStores} (renders : Renders font cells w)
    (inCell : InCell i j x y) :
    w.config.HasPixel (cellPixel i j x y).x (cellPixel i j x y).y := by
  rcases inCell with ⟨⟨left, right⟩, ⟨top, bottom⟩, ⟨x_nonneg, x_lt⟩, y_nonneg, y_lt⟩
  have columns : kColumns = 60 := rfl
  have rows : kRows = 15 := rfl
  have width := renders.width
  have height := renders.height
  rw [cellPixel_x, cellPixel_y]
  exact ⟨⟨by omega, by omega⟩, by omega, by omega⟩

/-- The cells are repainted when the pixels of each of them become those of its glyphs. -/
theorem paints_of_becomes {picture : WindowStores → Vector2D → PixelColor}
    (becomes : ∀ w, Renders font cells w → w.Becomes calls (picture w))
    (shown : ∀ w, Renders font cells w → ∀ i j x y, InCell i j x y →
      picture w (cellPixel i j x y) = cellColor font (cells' i j) x y) :
    Paints font cells calls cells' := by
  intro w renders
  rcases becomes w renders with ⟨w', run, config, seen⟩
  refine ⟨w', run, ⟨config ▸ renders.width, config ▸ renders.height, fun i j x y inCell => ?_⟩⟩
  rw [seen _ (renders.hasPixel inCell), shown w renders i j x y inCell]

/-! ## Rectangles -/

/-- Whole cells are blackened. -/
theorem paints_clear {width height : Int} (column : 0 ≤ x ∧ 0 ≤ width ∧ x + width ≤ kColumns)
    (row : 0 ≤ y ∧ 0 ≤ height ∧ y + height ≤ kRows) :
    Paints font cells
      (strokes black (fillRectangle (calcCursorPos ⟨x, y⟩) ⟨8 * width, 16 * height⟩))
      (cells.clear x y width height) := by
  have columns : kColumns = 60 := rfl
  have rows : kRows = 15 := rfl
  rw [calcCursorPos_eq]
  refine paints_of_becomes (fun w renders => becomes_fillRectangle black ?_) ?_
  · have w_width := renders.width
    have w_height := renders.height
    exact ⟨⟨by dsimp only; omega, by dsimp only; omega⟩, by dsimp only; omega, by dsimp only; omega⟩
  · intro w renders i j x' y' inCell
    have old := renders.seen i j x' y' inCell
    rcases inCell with ⟨-, -, ⟨x_nonneg, x_lt⟩, y_nonneg, y_lt⟩
    simp only [Rectangle.Contains, cellPixel_x, cellPixel_y]
    by_cases inside : x ≤ i ∧ i < x + width ∧ y ≤ j ∧ j < y + height
    · rw [if_pos (by omega), Cells.clear_inside inside]
      rfl
    · rw [if_neg (by omega), Cells.clear_outside inside]
      exact old

/-- The inner writer has the margin for its origin. -/
theorem map_fillRectangle (pos size margin : Vector2D) :
    (fillRectangle pos size).map (· + margin) = fillRectangle (margin + pos) size := by
  simp only [fillRectangle, List.map_flatMap, List.map_map]
  congr 1
  funext dy
  congr 1
  funext dx
  refine Vector2D.eq_of_coordinates ?_ ?_
  · change pos.x + dx + margin.x = margin.x + pos.x + dx
    omega
  · change pos.y + dy + margin.y = margin.y + pos.y + dy
    omega

/-- The cell of the cursor has no ink but that of the box. -/
def Free (a : TextArea) : Prop :=
  a.cells a.cursor.x a.cursor.y = [] ∨ a.cells a.cursor.x a.cursor.y = [.cursor]

theorem Displays.inTextArea {p : Paper} {box : Bool} {a : TextArea} (displays : Displays p box a) :
    InTextArea a.cursor := by
  have rows : kRows = 15 := rfl
  have column := displays.column
  have row := displays.row
  have narrow := displays.narrow
  exact ⟨by omega, by omega, by omega, by omega⟩

theorem Displays.free {p : Paper} {box : Bool} {a : TextArea} (displays : Displays p box a)
    (inside : a.cursor.x < kColumns) : Free a := by
  rcases displays.inTextArea with ⟨left, -, top, bottom⟩
  have here := displays.cells _ _ left inside top bottom
  rw [Free, here, sub_self, Paper.cell_behind left displays.column.ge]
  cases box with
  | false => exact .inl (if_neg fun shown => Bool.false_ne_true shown.1)
  | true => exact .inr (if_pos ⟨rfl, rfl, rfl⟩)

/-- The box of the cursor is drawn, or blackened. -/
theorem paints_cursor {a : TextArea} (inArea : InTextArea a.cursor)
    (free : a.cursor.x < kColumns → Free a) (visible : Bool) :
    Paints font a.cells (cursorCalls a.cursor visible) (a.drawCursor visible).cells := by
  have columns : kColumns = 60 := rfl
  have rows : kRows = 15 := rfl
  rcases a with ⟨⟨column, row⟩, cells⟩
  rcases inArea with ⟨left, right, top, bottom⟩
  dsimp only at left right top bottom free ⊢
  rw [cursorCalls, calcCursorPos_eq]
  refine paints_of_becomes (fun w renders => becomes_fillRectangle _ ?_) ?_
  · have w_width := renders.width
    have w_height := renders.height
    exact ⟨⟨by dsimp only; omega, by dsimp only; omega⟩, by dsimp only; omega, by dsimp only; omega⟩
  · intro w renders i j x y inCell
    have old := renders.seen i j x y inCell
    rcases inCell with ⟨⟨i_nonneg, i_lt⟩, -, ⟨x_nonneg, x_lt⟩, y_nonneg, y_lt⟩
    simp only [Rectangle.Contains, cellPixel_x, cellPixel_y, TextArea.drawCursor]
    by_cases here : i = column ∧ j = row
    · rcases here with ⟨rfl, rfl⟩
      rw [Cells.set_self]
      by_cases inside : x < 7 ∧ y < 15
      · rw [if_pos (by omega)]
        cases visible with
        | false => rfl
        | true =>
            rw [if_pos rfl, if_pos rfl, cellColor, if_pos]
            simpa [Glyph.covers] using inside
      · have uncovered : Glyph.covers font .cursor x y = false := by
          simpa [Glyph.covers] using inside
        have blank : ∀ glyphs, glyphs = [] ∨ glyphs = [Glyph.cursor] →
            cellColor font glyphs x y = black := by
          rintro glyphs (rfl | rfl)
          · rfl
          · rw [cellColor, List.any_cons, uncovered]
            rfl
        rw [if_neg (by omega), old, blank _ (free i_lt)]
        cases visible with
        | false => rfl
        | true => exact (blank _ (.inr rfl)).symm
    · rw [if_neg (by omega), Cells.set_other (by omega), old]

/-! ## Glyphs -/

theorem cellColor_append (glyphs : List Glyph) (glyph : Glyph) (x y : Int) :
    cellColor font (glyphs ++ [glyph]) x y =
      if glyph.covers font x y then white else cellColor font glyphs x y := by
  rw [cellColor, cellColor, List.any_append, List.any_cons, List.any_nil, Bool.or_false]
  cases glyph.covers font x y with
  | false => rw [Bool.or_false, if_neg Bool.false_ne_true]
  | true => rw [Bool.or_true, if_pos rfl, if_pos rfl]

/-- The pixel of a cell is one of a glyph that is drawn at another one. -/
theorem cellPixel_mem {c : Nat} {column row : Int} :
    cellPixel i j x y ∈ font.writeUnicode (calcCursorPos ⟨column, row⟩) c ↔
      (⟨8 * (i - column) + x, 16 * (j - row) + y⟩ : Vector2D) ∈ font.glyph c := by
  rw [font.writeUnicode_eq, List.mem_map, calcCursorPos_eq]
  constructor
  · rintro ⟨p, member, equal⟩
    have coordinates : 8 + 8 * column + p.x = (cellPixel i j x y).x ∧
        28 + 16 * row + p.y = (cellPixel i j x y).y := by
      rw [← equal]
      exact ⟨rfl, rfl⟩
    rw [cellPixel_x, cellPixel_y] at coordinates
    have same : p = ⟨8 * (i - column) + x, 16 * (j - row) + y⟩ :=
      Vector2D.eq_of_coordinates (by dsimp only; omega) (by dsimp only; omega)
    rwa [← same]
  · intro member
    refine ⟨_, member, Vector2D.eq_of_coordinates ?_ ?_⟩
    · rw [cellPixel_x]
      dsimp only [Vector2D.add_x]
      omega
    · rw [cellPixel_y]
      dsimp only [Vector2D.add_y]
      omega

/-- A character is drawn over its cells. -/
theorem paints_glyph {c : Nat} (boxed : Boxed font c) {column row : Int}
    (columns : 0 ≤ column ∧ column + (cellsOf c).length ≤ kColumns) (rows : 0 ≤ row ∧ row < kRows)
    (own : ∀ i j x y, InCell i j x y → cellColor font (cells' i j) x y =
      if (⟨8 * (i - column) + x, 16 * (j - row) + y⟩ : Vector2D) ∈ font.glyph c then white
      else cellColor font (cells i j) x y) :
    Paints font cells (strokes white (font.writeUnicode (calcCursorPos ⟨column, row⟩) c)) cells' := by
  have sixty : kColumns = 60 := rfl
  have fifteen : kRows = 15 := rfl
  refine paints_of_becomes (fun w renders => becomes_strokes white fun p member => ?_) ?_
  · rw [font.writeUnicode_eq, calcCursorPos_eq] at member
    rcases List.mem_map.mp member with ⟨q, inGlyph, rfl⟩
    rcases boxed q inGlyph with ⟨⟨left, right⟩, top, bottom⟩
    have width := renders.width
    have height := renders.height
    dsimp only [Vector2D.add_x, Vector2D.add_y]
    exact ⟨⟨by omega, by omega⟩, by omega, by omega⟩
  · intro w renders i j x y inCell
    rw [renders.seen i j x y inCell, own i j x y inCell]
    simp only [cellPixel_mem]

theorem boxed_of_hankaku {c : Nat} (hankaku : isHankaku c) : Boxed font c := by
  intro p member
  have ascii : c ≤ 0x7f := by simpa [isHankaku] using hankaku
  rw [Paper.length_cellsOf, if_pos hankaku]
  rw [Font.glyph, Font.writeUnicode, if_pos ascii, Font.writeAscii] at member
  split at member
  · cases member
  · rcases List.mem_flatMap.mp member with ⟨dy, inRows, inRow⟩
    rcases List.mem_filterMap.mp inRow with ⟨dx, inColumns, drawn⟩
    rw [List.mem_range] at inRows inColumns
    split at drawn
    · cases drawn
      dsimp only [Vector2D.add_x, Vector2D.add_y]
      omega
    · cases drawn

/-- A half-width character is drawn in a cell. -/
theorem paints_char {c : Nat} (hankaku : isHankaku c) {column row : Int}
    (columns : 0 ≤ column ∧ column < kColumns) (rows : 0 ≤ row ∧ row < kRows) :
    Paints font cells (strokes white (font.writeUnicode (calcCursorPos ⟨column, row⟩) c))
      (cells.add column row (.char c)) := by
  have boxed : Boxed font c := boxed_of_hankaku hankaku
  have one : (cellsOf c).length = 1 := by rw [Paper.length_cellsOf, if_pos hankaku]
  refine paints_glyph boxed (by omega) rows fun i j x y inCell => ?_
  rcases inCell with ⟨-, -, ⟨x_nonneg, x_lt⟩, y_nonneg, y_lt⟩
  by_cases here : i = column ∧ j = row
  · rcases here with ⟨rfl, rfl⟩
    rw [Cells.add, Cells.set_self, cellColor_append]
    simp [Glyph.covers]
  · rw [Cells.add_other (by omega), if_neg]
    intro member
    have inside := boxed _ member
    rw [one] at inside
    dsimp only at inside
    omega

/-- A character is drawn at the cursor. -/
theorem paints_write {c : Nat} (boxed : Boxed font c) {a : TextArea} (inArea : InTextArea a.cursor)
    (room : a.cursor.x + (cellsOf c).length ≤ kColumns) :
    Paints font a.cells (Drawing.calls font (.writeUnicode a.cursor c)) (a.write c).cells := by
  rcases a with ⟨⟨column, row⟩, cells⟩
  rcases inArea with ⟨left, -, top, bottom⟩
  dsimp only at left top bottom room ⊢
  rw [TextArea.write]
  by_cases hankaku : isHankaku c
  · have one : (cellsOf c).length = 1 := by rw [Paper.length_cellsOf, if_pos hankaku]
    rw [if_pos hankaku]
    exact paints_char hankaku ⟨left, by omega⟩ ⟨top, bottom⟩
  · have two : (cellsOf c).length = 2 := by rw [Paper.length_cellsOf, if_neg hankaku]
    rw [if_neg hankaku]
    refine paints_glyph boxed ⟨left, room⟩ ⟨top, bottom⟩ fun i j x y inCell => ?_
    rcases inCell with ⟨-, -, ⟨x_nonneg, x_lt⟩, y_nonneg, y_lt⟩
    dsimp only
    by_cases first : i = column ∧ j = row
    · rw [first.1, first.2, Cells.add_other (by omega), Cells.add, Cells.set_self, cellColor_append]
      simp [Glyph.covers]
    by_cases second : i = column + 1 ∧ j = row
    · rw [second.1, second.2, Cells.add, Cells.set_self, Cells.add_other (by omega),
        cellColor_append]
      have offset : 8 * (column + 1 - column) + x = x + 8 := by omega
      rw [offset, sub_self]
      simp [Glyph.covers]
    · rw [Cells.add_other (by omega), Cells.add_other (by omega), if_neg]
      intro member
      have inside := boxed _ member
      rw [two] at inside
      dsimp only at inside
      omega

/-! ## Output -/

/-- All rows but the last one are moved up, and the last one is blackened. -/
theorem paints_scroll1 (font : Font) (cells : Cells) :
    Paints font cells ((scroll1 ⟨0, kRows - 1⟩).flatMap (Drawing.calls font)) cells.scroll1 := by
  have columns : kColumns = 60 := rfl
  have rows : kRows = 15 := rfl
  let moved : Cells := fun i j =>
    if 0 ≤ i ∧ i < kColumns ∧ 0 ≤ j ∧ j < kRows - 1 then cells i (j + 1) else cells i j
  have first : Paints font cells [.move ⟨8, 28⟩ ⟨⟨8, 44⟩, ⟨480, 224⟩⟩] moved := by
    refine paints_of_becomes (fun w renders => becomes_move ?_ (by decide)) ?_
    · have width := renders.width
      have height := renders.height
      refine ⟨by decide, ⟨⟨by decide, ?_⟩, by decide, ?_⟩, ⟨by decide, ?_⟩, by decide, ?_⟩
      all_goals dsimp only; omega
    · intro w renders i j x y inCell
      have old := renders.seen i j x y inCell
      rcases inCell with ⟨⟨left, right⟩, ⟨top, bottom⟩, ⟨x_nonneg, x_lt⟩, y_nonneg, y_lt⟩
      simp only [Rectangle.Contains, cellPixel_x, cellPixel_y]
      by_cases inside : j < kRows - 1
      · have below := renders.seen i (j + 1) x y
          ⟨⟨left, right⟩, ⟨by omega, by omega⟩, ⟨x_nonneg, x_lt⟩, y_nonneg, y_lt⟩
        have source : (⟨8 + (8 + 8 * i + x - 8), 44 + (28 + 16 * j + y - 28)⟩ : Vector2D) =
            cellPixel i (j + 1) x y := by
          refine Vector2D.eq_of_coordinates ?_ ?_
          · rw [cellPixel_x]
            dsimp only
            omega
          · rw [cellPixel_y]
            dsimp only
            omega
        rw [if_pos (by omega), source, below]
        exact congrArg (cellColor font · x y) (if_pos ⟨left, right, top, inside⟩).symm
      · rw [if_neg (by omega), old]
        exact congrArg (cellColor font · x y) (if_neg fun within => inside within.2.2.2).symm
  have second : Paints font moved
      (strokes black (fillRectangle (calcCursorPos ⟨0, 14⟩) ⟨8 * 60, 16 * 1⟩))
      (moved.clear 0 14 60 1) :=
    paints_clear (by decide) (by decide)
  have calls : (scroll1 ⟨0, kRows - 1⟩).flatMap (Drawing.calls font) =
      [.move ⟨8, 28⟩ ⟨⟨8, 44⟩, ⟨480, 224⟩⟩] ++
        strokes black (fillRectangle (calcCursorPos ⟨0, 14⟩) ⟨8 * 60, 16 * 1⟩) := by
    rw [scroll1, List.flatMap_cons, List.flatMap_cons, List.flatMap_nil, List.append_nil, Drawing.calls,
      Drawing.calls, map_fillRectangle]
    rfl
  rw [calls]
  exact first.trans second

theorem TextArea.cursor_newline (a : TextArea) : a.newline.cursor = (Terminal.newline a.cursor).1 := by
  rw [TextArea.newline, Terminal.newline]
  split <;> rfl

theorem paints_newline (font : Font) {a : TextArea} (inArea : InTextArea a.cursor) :
    Paints font a.cells (a.newlineCalls font) a.newline.cells := by
  rcases a with ⟨⟨column, row⟩, cells⟩
  rcases inArea with ⟨-, -, top, bottom⟩
  rw [TextArea.newlineCalls, TextArea.newline, Terminal.newline]
  dsimp only at top bottom ⊢
  by_cases room : row < kRows - 1
  · rw [if_pos room, if_pos room]
    exact Paints.nil font cells
  · have last : row = kRows - 1 := by omega
    rw [if_neg room, if_neg room, last]
    exact paints_scroll1 font cells

/-- One character is printed. -/
theorem paints_printChar {c : Nat} (boxed : Boxed font c) {a : TextArea} (inArea : InTextArea a.cursor)
    (inTime : a.cursor.x = kColumns → isHankaku c) :
    Paints font a.cells (a.charCalls font c) (a.printChar c).cells := by
  have columns : kColumns = 60 := rfl
  have length := Paper.length_cellsOf c
  have upper := inArea.2.1
  have wrapped (due : Bool) (column : Int) (isDue : due = true ↔ a.cursor.x = column)
      (room : due = false → a.cursor.x + (cellsOf c).length ≤ kColumns) :
      Paints font a.cells
        (((wrap due a.cursor).2 ++ [Drawing.writeUnicode (wrap due a.cursor).1 c]).flatMap
          (Drawing.calls font))
        ((if a.cursor.x = column then a.newline else a).write c).cells := by
    rw [List.flatMap_append, List.flatMap_singleton]
    cases due with
    | false =>
        rw [if_neg fun equal => Bool.false_ne_true (isDue.mpr equal)]
        exact (Paints.nil font a.cells).trans (paints_write boxed inArea (room rfl))
    | true =>
        rw [if_pos (isDue.mp rfl)]
        have inArea' := newline_inTextArea inArea
        have start := newline_x a.cursor
        rw [← TextArea.cursor_newline] at inArea' start
        have written : Paints font a.newline.cells
            (Drawing.calls font (.writeUnicode a.newline.cursor c)) (a.newline.write c).cells := by
          refine paints_write boxed inArea' ?_
          rw [start]
          split at length <;> omega
        rw [TextArea.cursor_newline] at written
        exact (paints_newline font inArea).trans written
  rw [TextArea.charCalls, Terminal.printChar, TextArea.printChar]
  by_cases isNewline : c = 0x0a
  · rw [if_pos isNewline, if_pos isNewline]
    exact paints_newline font inArea
  rw [if_neg isNewline, if_neg isNewline]
  by_cases hankaku : isHankaku c
  · rw [if_pos hankaku] at length ⊢
    rw [if_pos hankaku]
    refine wrapped _ kColumns decide_eq_true_iff fun notDue => ?_
    rw [decide_eq_false_iff_not] at notDue
    omega
  · rw [if_neg hankaku] at length ⊢
    rw [if_neg hankaku]
    have notFull : a.cursor.x ≠ kColumns := fun full => hankaku (inTime full)
    refine wrapped _ (kColumns - 1) decide_eq_true_iff fun notDue => ?_
    rw [decide_eq_false_iff_not] at notDue
    omega

/-- The characters of a text have their ink in their cells. -/
def TextBoxed (font : Font) (text : List Nat) : Prop :=
  ∀ c ∈ text, Boxed font c

variable {p : Paper} {box : Bool} {a : TextArea}

theorem Displays.paints_text (displays : Displays p false a) {text : List Nat} (inTime : p.InTime text)
    (boxed : TextBoxed font text) :
    Paints font a.cells (a.textCalls font text) (text.foldl TextArea.printChar a).cells := by
  induction text generalizing p a with
  | nil => exact Paints.nil font a.cells
  | cons c text ih =>
      have first : Paints font a.cells (a.charCalls font c) (a.printChar c).cells := by
        refine paints_printChar (boxed c List.mem_cons_self) displays.inTextArea fun full => ?_
        rw [displays.column] at full
        exact inTime.1 full
      exact first.trans (ih (displays.printChar inTime.1) inTime.2
        fun d member => boxed d (List.mem_cons_of_mem _ member))

/-- The box of the cursor, wherever it is drawn. -/
theorem Displays.paints_cursor (displays : Displays p box a) (visible : Bool) :
    Paints font a.cells (cursorCalls a.cursor visible) (a.drawCursor visible).cells :=
  Terminal.paints_cursor displays.inTextArea displays.free visible

/-- A string is printed. -/
theorem Displays.paints_print (displays : Displays p box a) {text : List Nat} (inTime : p.InTime text)
    (boxed : TextBoxed font text) :
    Paints font a.cells (a.printCalls font text) (a.print text).cells := by
  have printed := displays.hide.foldl_printChar inTime
  exact ((displays.paints_cursor false).trans (displays.hide.paints_text inTime boxed)).trans
    (printed.paints_cursor true)

theorem paints_clearAll (font : Font) (a : TextArea) :
    Paints font a.cells (a.outputCalls font .clear) (a.output .clear).cells := by
  rw [TextArea.outputCalls, map_fillRectangle]
  exact paints_clear (x := 0) (y := 0) (by decide) (by decide)

/-- What the commands print has its ink in its cells. -/
def OutputsBoxed (font : Font) (outputs : List CommandOutput) : Prop :=
  ∀ text, .print text ∈ outputs → TextBoxed font text

theorem Displays.paints_outputs (displays : Displays p box a) {outputs : List CommandOutput}
    (inTime : p.OutputsInTime outputs) (boxed : OutputsBoxed font outputs) :
    Paints font a.cells (a.outputsCalls font outputs) (outputs.foldl TextArea.output a).cells := by
  induction outputs generalizing p box a with
  | nil => exact Paints.nil font a.cells
  | cons output outputs ih =>
      have rest : OutputsBoxed font outputs :=
        fun text member => boxed text (List.mem_cons_of_mem _ member)
      cases output with
      | print text =>
          exact (displays.paints_print inTime.1 (boxed text List.mem_cons_self)).trans
            (ih (displays.print inTime.1) inTime.2 rest)
      | clear => exact (paints_clearAll font a).trans (ih displays.clear inTime rest)

/-! ## Keys -/

/-- Characters of a key or of the history. -/
def IsAsciiText (text : List UInt8) : Prop :=
  ∀ c ∈ text, c < 0x80

theorem isHankaku_of_ascii {c : UInt8} (ascii : c < 0x80) : isHankaku c.toNat := by
  rw [UInt8.lt_iff_toNat_lt] at ascii
  simp only [isHankaku, decide_eq_true_eq]
  exact Nat.le_of_lt_succ ascii

theorem paints_string {text : List UInt8} (ascii : IsAsciiText text) {column row : Int}
    (columns : 0 ≤ column ∧ column + text.length ≤ kColumns) (rows : 0 ≤ row ∧ row < kRows) :
    Paints font cells (stringCalls font column row text) (cells.writeString column row text) := by
  induction text generalizing cells column with
  | nil => exact Paints.nil font cells
  | cons c text ih =>
      rw [List.length_cons] at columns
      have first : Paints font cells
          (strokes white (font.writeUnicode (calcCursorPos ⟨column, row⟩) c.toNat))
          (cells.add column row (.char c.toNat)) :=
        paints_char (isHankaku_of_ascii (ascii c List.mem_cons_self)) (by omega) rows
      exact first.trans (ih (fun d member => ascii d (List.mem_cons_of_mem _ member)) (by omega))

theorem Cells.set_blank_eq_clear (cells : Cells) (x y : Int) :
    cells.set x y [] = cells.clear x y 1 1 := by
  funext i j
  by_cases here : i = x ∧ j = y
  · rw [here.1, here.2, Cells.set_self, Cells.clear_inside (by omega)]
  · rw [Cells.set_other (by omega), Cells.clear_outside (by omega)]

variable {t : WindowedTerminal}

/-- A line of the history is shown. -/
theorem paints_history (row : 0 ≤ t.editor.cursor.y ∧ t.editor.cursor.y < kRows) {direction : Int}
    (short : (t.editor.history direction).length < kColumns)
    (ascii : IsAsciiText (t.editor.history direction)) :
    Paints font cells (t.historyCalls font direction)
      ((cells.clear 1 t.editor.cursor.y (kColumns - 1) 1).writeString 1 t.editor.cursor.y
        (t.editor.history direction)) := by
  have cleared : Paints font cells
      (strokes black (fillRectangle (calcCursorPos ⟨1, t.editor.cursor.y⟩) ⟨8 * (kColumns - 1), 16 * 1⟩))
      (cells.clear 1 t.editor.cursor.y (kColumns - 1) 1) :=
    paints_clear (by decide) ⟨row.1, by decide, by omega⟩
  exact cleared.trans (paints_string ascii ⟨by decide, by omega⟩ row)

/-- A key, between the calls of `DrawCursor`. -/
theorem Displays.paints_edit (displays : Displays p box t.area) {keycode ascii : UInt8}
    {outputs : List CommandOutput} (fits : p.KeyFits t.editor keycode ascii outputs)
    (boxed : OutputsBoxed font outputs) (isAscii : ascii < 0x80)
    (history : ∀ direction, IsAsciiText (t.editor.history direction)) (cuts : List Nat) :
    Paints font (t.area.drawCursor false).cells (t.editCalls font keycode ascii outputs)
      (t.edit keycode ascii cuts outputs).cells := by
  have hidden := displays.hide
  have inArea : InTextArea t.editor.cursor := displays.inTextArea
  have column : t.editor.cursor.x = p.line.length := displays.column
  rw [WindowedTerminal.editCalls, WindowedTerminal.edit]
  by_cases isEnter : ascii = 0x0a
  · rw [if_pos isEnter, if_pos isEnter]
    have inTime := fits.outputs isEnter
    rcases hidden.newline.outputs inTime with ⟨box', printed⟩
    have prompt : (outputs.foldl Paper.output p.newline).InTime [0x3e] := ⟨fun _ => rfl, trivial⟩
    have promptBoxed : TextBoxed font [0x3e] := by
      intro c member
      rw [List.mem_singleton.mp member]
      exact boxed_of_hankaku rfl
    exact ((paints_newline font hidden.inTextArea).trans
      (hidden.newline.paints_outputs inTime boxed)).trans (printed.paints_print prompt promptBoxed)
  rw [if_neg isEnter, if_neg isEnter]
  by_cases isBackspace : ascii = 0x08
  · rw [if_pos isBackspace, if_pos isBackspace]
    dsimp only
    by_cases some : t.editor.cursor.x > 1
    · have upper := inArea.2.1
      have rows := inArea.2.2
      have cleared : Paints font (t.area.drawCursor false).cells
          (strokes black (fillRectangle
            (calcCursorPos ⟨t.editor.cursor.x - 1, t.editor.cursor.y⟩) ⟨8 * 1, 16 * 1⟩))
          ((t.area.drawCursor false).cells.clear (t.editor.cursor.x - 1) t.editor.cursor.y 1 1) :=
        paints_clear (by omega) (by omega)
      rw [if_pos some, if_pos some, Cells.set_blank_eq_clear]
      exact cleared
    · rw [if_neg some, if_neg some]
      exact Paints.nil font _
  rw [if_neg isBackspace, if_neg isBackspace]
  by_cases notNul : ascii ≠ 0
  · rw [if_pos notNul, if_pos notNul]
    dsimp only
    by_cases room : t.editor.cursor.x < kColumns - 1 ∧ t.editor.linebufIndex < kLineMax - 1
    · have hankaku := isHankaku_of_ascii isAscii
      have small : ascii.toNat ≤ 0x7f := by simpa [isHankaku] using hankaku
      have drawn : font.writeAscii (calcCursorPos t.editor.cursor) ascii.toNat =
          font.writeUnicode (calcCursorPos t.editor.cursor) ascii.toNat :=
        (if_pos small).symm
      have inside : t.editor.cursor.x < kColumns := by omega
      rw [if_pos room, if_pos room, drawn]
      exact paints_char hankaku ⟨inArea.1, inside⟩ inArea.2.2
    · rw [if_neg room, if_neg room]
      exact Paints.nil font _
  rw [if_neg notNul, if_neg notNul]
  have nul : ascii = 0 := not_not.mp notNul
  by_cases isDown : keycode = 0x51
  · rw [if_pos isDown, if_pos isDown]
    exact paints_history inArea.2.2 (fits.down nul isDown) (history _)
  rw [if_neg isDown, if_neg isDown]
  by_cases isUp : keycode = 0x52
  · rw [if_pos isUp, if_pos isUp]
    exact paints_history inArea.2.2 (fits.up nul isUp) (history _)
  · rw [if_neg isUp, if_neg isUp]
    exact Paints.nil font _

theorem Displays.paints_inputKey (displays : Displays p box t.area) {keycode ascii : UInt8}
    {outputs : List CommandOutput} (fits : p.KeyFits t.editor keycode ascii outputs)
    (boxed : OutputsBoxed font outputs) (isAscii : ascii < 0x80)
    (history : ∀ direction, IsAsciiText (t.editor.history direction)) (cuts : List Nat) :
    Paints font t.cells (t.inputKeyCalls font keycode ascii cuts outputs)
      (t.inputKey keycode ascii cuts outputs).cells := by
  rcases displays.edit fits cuts with ⟨box', edited⟩
  exact ((displays.paints_cursor false).trans
    (displays.paints_edit fits boxed isAscii history cuts)).trans (edited.paints_cursor true)

end

/-! ## Characters of the editor -/

/-- All characters that are kept are ASCII. -/
structure LineEditor.IsAscii (s : LineEditor) : Prop where
  linebuf : IsAsciiText s.linebuf
  entries : ∀ line ∈ s.cmdHistory, IsAsciiText line

namespace LineEditor

variable {s : LineEditor}

theorem IsAscii.history (isAscii : s.IsAscii) (direction : Int) :
    IsAsciiText (s.history direction) := by
  rw [LineEditor.history]
  split
  · intro c member
    have kept := (List.takeWhile_prefix _).subset member
    rw [List.getD_eq_getElem?_getD] at kept
    cases found : s.cmdHistory[(s.historyIndex direction).toNat]? with
    | none =>
        rw [found] at kept
        cases kept
    | some line =>
        rw [found] at kept
        exact isAscii.entries line (List.mem_of_getElem? found) c kept
  · intro c member
    cases member

theorem isAsciiText_set {text : List UInt8} (ascii : IsAsciiText text) (i : Nat) {c : UInt8}
    (isAscii : c < 0x80) : IsAsciiText (text.set i c) := by
  intro d member
  rcases List.mem_or_eq_of_mem_set member with old | rfl
  · exact ascii d old
  · exact isAscii

theorem isAsciiText_writeNuls {text : List UInt8} (ascii : IsAsciiText text) (cuts : List Nat) :
    IsAsciiText (writeNuls cuts text) := by
  induction cuts generalizing text with
  | nil => exact ascii
  | cons i cuts ih => exact ih (isAsciiText_set ascii i (by decide))

/-- Keys give ASCII characters. -/
theorem IsAscii.step (isAscii : s.IsAscii) {keycode ascii : UInt8} (key : ascii < 0x80)
    (execution : Execution) : (s.step (.key keycode ascii execution)).editor.IsAscii := by
  have stored : IsAsciiText (s.store 0) := isAsciiText_set isAscii.linebuf _ (by decide)
  have recalled (direction : Int) : (s.historyUpDown direction).editor.IsAscii := by
    refine ⟨?_, isAscii.entries⟩
    intro c member
    rcases List.mem_append.mp member with inHistory | behind
    · exact isAscii.history direction c inHistory
    · rcases List.mem_cons.mp behind with rfl | rest
      · decide
      · exact isAscii.linebuf c (List.mem_of_mem_drop rest)
  rw [LineEditor.step]
  split_ifs
  · refine ⟨isAsciiText_writeNuls stored _, fun line member => ?_⟩
    simp only [LineEditor.enter] at member
    split at member
    · rcases List.mem_cons.mp member with rfl | old
      · exact stored
      · exact isAscii.entries line (List.mem_of_mem_dropLast old)
    · exact isAscii.entries line member
  · rw [LineEditor.backspace]
    split <;> exact ⟨isAscii.linebuf, isAscii.entries⟩
  · rw [LineEditor.type]
    split
    · exact ⟨isAsciiText_set isAscii.linebuf _ key, isAscii.entries⟩
    · exact isAscii
  · exact recalled (-1)
  · exact recalled 1
  · exact isAscii

end LineEditor

/-! ## Runs -/

/-- `DrawTerminal`, by way of the inner writer of the window. -/
def drawTerminalCalls : List WindowCall :=
  let size : Vector2D := ⟨kColumns * 8 + 8, kRows * 16 + 8⟩
  let fillRect (pos size : Vector2D) (c : PixelColor) : List WindowCall :=
    strokes c ((fillRectangle pos size).map (· + kTopLeftMargin))
  fillRect ⟨1, 1⟩ (size - ⟨2, 2⟩) black ++ fillRect ⟨0, 0⟩ ⟨size.x, 1⟩ ⟨0x84, 0x84, 0x84⟩ ++
    fillRect ⟨0, 0⟩ ⟨1, size.y⟩ ⟨0x84, 0x84, 0x84⟩ ++
    fillRect ⟨0, size.y⟩ ⟨size.x, 1⟩ ⟨0xc6, 0xc6, 0xc6⟩ ++
    fillRect ⟨size.x, 0⟩ ⟨1, size.y⟩ ⟨0xc6, 0xc6, 0xc6⟩

section

variable {font : Font}

/-- A rectangle beside the text area is filled. -/
theorem paints_beside {cells : Cells} {pos size : Vector2D} (c : PixelColor)
    (inside : (0 ≤ pos.x ∧ pos.x + size.x ≤ 496) ∧ 0 ≤ pos.y ∧ pos.y + size.y ≤ 276)
    (beside : pos.x + size.x ≤ 8 ∨ 488 ≤ pos.x ∨ pos.y + size.y ≤ 28 ∨ 268 ≤ pos.y) :
    Paints font cells (strokes c (fillRectangle pos size)) cells := by
  have columns : kColumns = 60 := rfl
  have rows : kRows = 15 := rfl
  refine paints_of_becomes (fun w renders => becomes_fillRectangle c ?_) ?_
  · have width := renders.width
    have height := renders.height
    exact ⟨⟨inside.1.1, by dsimp only; omega⟩, inside.2.1, by dsimp only; omega⟩
  · intro w renders i j x y inCell
    rw [← renders.seen i j x y inCell]
    rcases inCell with ⟨⟨left, right⟩, ⟨top, bottom⟩, ⟨x_nonneg, x_lt⟩, y_nonneg, y_lt⟩
    refine if_neg ?_
    rw [Rectangle.Contains, cellPixel_x, cellPixel_y]
    dsimp only
    omega

end

/-- The window of a terminal as `DrawTerminal` leaves it. -/
theorem renders_drawTerminal (font : Font) {w : WindowStores}
    (width : (w.config.horizontalResolution : Int) = kColumns * 8 + 8 + 8)
    (height : (w.config.verticalResolution : Int) = kRows * 16 + 8 + 28) :
    ∃ w', w.Calls drawTerminalCalls w' ∧ Renders font (fun _ _ => []) w' := by
  have columns : kColumns = 60 := rfl
  have rows : kRows = 15 := rfl
  have box : w.config.HasRectangle ⟨⟨5, 25⟩, ⟨486, 246⟩⟩ :=
    ⟨⟨by decide, by dsimp only; omega⟩, by decide, by dsimp only; omega⟩
  rcases becomes_fillRectangle black box with ⟨w₁, first, config, seen⟩
  have blank : Renders font (fun _ _ => []) w₁ := by
    refine ⟨config ▸ width, config ▸ height, ?_⟩
    rintro i j x y ⟨⟨left, right⟩, ⟨top, bottom⟩, ⟨x_nonneg, x_lt⟩, y_nonneg, y_lt⟩
    have pixel : w.config.HasPixel (cellPixel i j x y).x (cellPixel i j x y).y := by
      rw [cellPixel_x, cellPixel_y]
      exact ⟨⟨by omega, by omega⟩, by omega, by omega⟩
    rw [seen _ pixel]
    refine if_pos ?_
    rw [Rectangle.Contains, cellPixel_x, cellPixel_y]
    dsimp only
    omega
  have border (pos size : Vector2D) (c : PixelColor)
      (inside : (0 ≤ pos.x ∧ pos.x + size.x ≤ 496) ∧ 0 ≤ pos.y ∧ pos.y + size.y ≤ 276)
      (beside : pos.x + size.x ≤ 8 ∨ 488 ≤ pos.x ∨ pos.y + size.y ≤ 28 ∨ 268 ≤ pos.y) :
      Paints font (fun _ _ => []) (strokes c (fillRectangle pos size)) fun _ _ => [] :=
    paints_beside c inside beside
  have borders := (((border ⟨4, 24⟩ ⟨488, 1⟩ ⟨0x84, 0x84, 0x84⟩ (by decide) (by decide)).trans
    (border ⟨4, 24⟩ ⟨1, 248⟩ ⟨0x84, 0x84, 0x84⟩ (by decide) (by decide))).trans
    (border ⟨4, 272⟩ ⟨488, 1⟩ ⟨0xc6, 0xc6, 0xc6⟩ (by decide) (by decide))).trans
    (border ⟨492, 24⟩ ⟨1, 248⟩ ⟨0xc6, 0xc6, 0xc6⟩ (by decide) (by decide))
  rcases borders w₁ blank with ⟨w₂, rest, renders⟩
  have calls : drawTerminalCalls = strokes black (fillRectangle ⟨5, 25⟩ ⟨486, 246⟩) ++
      (((strokes ⟨0x84, 0x84, 0x84⟩ (fillRectangle ⟨4, 24⟩ ⟨488, 1⟩) ++
        strokes ⟨0x84, 0x84, 0x84⟩ (fillRectangle ⟨4, 24⟩ ⟨1, 248⟩)) ++
        strokes ⟨0xc6, 0xc6, 0xc6⟩ (fillRectangle ⟨4, 272⟩ ⟨488, 1⟩)) ++
        strokes ⟨0xc6, 0xc6, 0xc6⟩ (fillRectangle ⟨492, 24⟩ ⟨1, 248⟩)) := by
    simp only [drawTerminalCalls, map_fillRectangle, List.append_assoc]
    rfl
  rw [calls]
  exact ⟨w₂, first.append rest, renders⟩

namespace WrittenTerminal

/-- Keys give ASCII characters, and all other characters that are printed have their ink in their
cells. -/
def Draws (font : Font) : WrittenEvent → Prop
  | .key _ ascii _ outputs => ascii < 0x80 ∧ OutputsBoxed font outputs
  | .print text => TextBoxed font text
  | .blinkCursor => True

variable {font : Font} {s s' : WrittenTerminal}

theorem paints_step (displayed : s.Displayed) (isAscii : s.terminal.editor.IsAscii)
    {event : WrittenEvent} (admits : s.Admits event) (draws : Draws font event) :
    Paints font s.terminal.cells (s.calls font event) (s.step event).terminal.cells := by
  rcases displayed with ⟨box, displays⟩
  cases event with
  | key keycode ascii cuts outputs =>
      exact displays.paints_inputKey admits draws.2 draws.1 isAscii.history cuts
  | print text => exact displays.paints_print admits draws
  | blinkCursor => exact displays.paints_cursor _

theorem isAscii_step (isAscii : s.terminal.editor.IsAscii) {event : WrittenEvent}
    (draws : Draws font event) : (s.step event).terminal.editor.IsAscii := by
  cases event with
  | key keycode ascii cuts outputs =>
      change (s.terminal.inputKey keycode ascii cuts outputs).editor.IsAscii
      rw [WindowedTerminal.editor_inputKey]
      exact isAscii.step draws.1 _
  | print text => exact ⟨isAscii.linebuf, isAscii.entries⟩
  | blinkCursor => exact isAscii

/-- The window follows the cells through a run. -/
theorem paints_run {events : List WrittenEvent}
    (run : Run (guarded (fun s event s' => s' = s.step event)
      fun s event => s.Admits event ∧ Draws font event) s events s')
    (displayed : s.Displayed) (isAscii : s.terminal.editor.IsAscii) :
    Paints font s.terminal.cells (s.drawn font events) s'.terminal.cells ∧ s'.Displayed := by
  induction run with
  | nil s => exact ⟨Paints.nil font _, displayed⟩
  | cons head _ ih =>
      rcases head with ⟨⟨admits, draws⟩, rfl⟩
      have displayed' : (WrittenTerminal.step _ _).Displayed :=
        displayed.elim fun _ displays => displays_step displays admits
      rcases ih displayed' (isAscii_step isAscii draws) with ⟨paints, last⟩
      exact ⟨(paints_step displayed isAscii admits draws).trans paints, last⟩

end WrittenTerminal

/-- The cursor behind the last line. -/
def Paper.cursor (p : Paper) : Vector2D :=
  ⟨p.line.length, min (p.above.length : Int) (kRows - 1)⟩

/-- What is in a cell of the window when the last lines of the sheet are shown. -/
def Paper.shown (p : Paper) (box : Bool) (i j : Int) : List Glyph :=
  if box ∧ i = p.cursor.x ∧ j = p.cursor.y then [.cursor] else p.cell (p.cursor.y - j) i

namespace WrittenTerminal

variable {font : Font} {s : WrittenTerminal}

/-- All drawing stays in the window, and its pixels are those of the last fifteen lines of what has
been written, with the box of the cursor behind them or without. -/
theorem seen_of_run {events : List WrittenEvent}
    (run : Run (guarded (fun s event s' => s' = s.step event)
      fun s event => s.Admits event ∧ Draws font event) initial events s)
    {w : WindowStores} (width : (w.config.horizontalResolution : Int) = kColumns * 8 + 8 + 8)
    (height : (w.config.verticalResolution : Int) = kRows * 16 + 8 + 28) :
    ∃ w' box, w.Calls (drawTerminalCalls ++
        TextArea.printCalls font ⟨⟨0, 0⟩, fun _ _ => []⟩ [0x3e] ++ initial.drawn font events) w' ∧
      ∀ i j x y, InCell i j x y →
        w'.seen (cellPixel i j x y) = cellColor font (s.paper.shown box i j) x y := by
  rcases renders_drawTerminal font width height with ⟨w₁, first, blank⟩
  have prompted : Paints font (fun _ _ => [])
      (TextArea.printCalls font ⟨⟨0, 0⟩, fun _ _ => []⟩ [0x3e]) initial.terminal.cells := by
    have displays : Displays .blank false ⟨⟨0, 0⟩, fun _ _ => []⟩ := displays_blank
    refine displays.paints_print ⟨fun _ => rfl, trivial⟩ fun c member => ?_
    rw [List.mem_singleton.mp member]
    exact boxed_of_hankaku rfl
  have isAscii : initial.terminal.editor.IsAscii := by
    constructor
    · intro c member
      rw [List.eq_of_mem_replicate member]
      decide
    · intro line member c inLine
      rw [List.eq_of_mem_replicate member] at inLine
      rw [List.eq_of_mem_replicate inLine]
      decide
  rcases paints_run run displayed_initial isAscii with ⟨paints, box, displays⟩
  rcases prompted.trans paints w₁ blank with ⟨w', rest, renders⟩
  rw [List.append_assoc]
  refine ⟨w', box, first.append rest, fun i j x y inCell => ?_⟩
  have cursor : s.terminal.area.cursor = s.paper.cursor :=
    Vector2D.eq_of_coordinates displays.column displays.row
  have cell := displays.cells i j inCell.column.1 inCell.column.2 inCell.row.1 inCell.row.2
  rw [cursor] at cell
  rw [renders.seen i j x y inCell]
  exact congrArg (cellColor font · x y) cell

/-- The window of a terminal, on a screen with one of the pixel formats. -/
def windowConfig : WindowConfig where
  pixelsPerScanLine := 496
  horizontalResolution := 496
  verticalResolution := 276
  pixelFormat := .rgbResv8BitPerColor
  scanLine_lt := by decide
  horizontal_lt := by decide
  vertical_lt := by decide
  horizontal_le := le_rfl
  scanLine_eq := rfl
  allocated := by decide

/-- A font whose characters are boxes. -/
def boxFont : Font :=
  ⟨List.replicate 4096 0xff, none⟩

theorem seen_of_run_typed : ∃ w' box, (WindowStores.new windowConfig).Calls (drawTerminalCalls ++
      TextArea.printCalls boxFont ⟨⟨0, 0⟩, fun _ _ => []⟩ [0x3e] ++
      initial.drawn boxFont [.key 4 0x61 [] [], .print [0x62, 0x0a, 0x63]]) w' ∧
    ∀ i j x y, InCell i j x y → w'.seen (cellPixel i j x y) =
      cellColor boxFont (Paper.shown ⟨[[[.char 0x3e], [.char 0x61], [.char 0x62]]], [[.char 0x63]]⟩ box i j)
        x y := by
  have typed : initial.Admits (.key 4 0x61 [] []) :=
    ⟨fun isEnter => absurd isEnter (by decide), fun isNul => absurd isNul (by decide),
      fun isNul => absurd isNul (by decide)⟩
  have printed : (initial.step (.key 4 0x61 [] [])).Admits (.print [0x62, 0x0a, 0x63]) := by
    change Paper.InTime ⟨[], [[.char 0x3e], [.char 0x61]]⟩ [0x62, 0x0a, 0x63]
    decide
  have boxed : TextBoxed boxFont [0x62, 0x0a, 0x63] := by
    intro c member
    refine boxed_of_hankaku ?_
    fin_cases member <;> rfl
  have quiet : OutputsBoxed boxFont [] := fun _ member => absurd member List.not_mem_nil
  exact seen_of_run (.cons ⟨⟨typed, by decide, quiet⟩, rfl⟩ (.single ⟨⟨printed, boxed⟩, rfl⟩)) rfl rfl

end WrittenTerminal

end Mikanos.Terminal
