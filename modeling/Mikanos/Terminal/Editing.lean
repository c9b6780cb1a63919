import Mikanos.Terminal.LineEditor

/-!
# Editing behind the prompt

What is edited is shown behind the prompt, wherever the last output has left it.  Backspace looks at
the column of the cursor, and the history writes at the second column, so that both take the prompt
to be at the first one.
-/

namespace Mikanos.Terminal

open Memory Screen Transition

/-! ## The text area -/

/-- What is drawn in a cell. -/
inductive Glyph
  | char (c : Nat)
  /-- the right half of a full-width character -/
  | rightHalf (c : Nat)
  /-- the white box of `DrawCursor` -/
  | cursor
  deriving DecidableEq

/-- The glyphs that are drawn over each other, by column and row. -/
abbrev Cells :=
  Int → Int → List Glyph

namespace Cells

variable (cells : Cells)

/-- A cell is filled, or filled with something else. -/
def set (x y : Int) (glyphs : List Glyph) : Cells :=
  fun i j => if i = x ∧ j = y then glyphs else cells i j

/-- A glyph is drawn over a cell. -/
def add (x y : Int) (glyph : Glyph) : Cells :=
  cells.set x y (cells x y ++ [glyph])

/-- A rectangle is filled. -/
def clear (x y width height : Int) : Cells :=
  fun i j => if x ≤ i ∧ i < x + width ∧ y ≤ j ∧ j < y + height then [] else cells i j

/-- `Scroll1`. -/
def scroll1 : Cells :=
  let moved : Cells := fun i j =>
    if 0 ≤ i ∧ i < kColumns ∧ 0 ≤ j ∧ j < kRows - 1 then cells i (j + 1) else cells i j
  moved.clear 0 (kRows - 1) kColumns 1

end Cells

/-- `WriteString`, of ASCII characters. -/
def Cells.writeString : Cells → (x y : Int) → List UInt8 → Cells
  | cells, _, _, [] => cells
  | cells, x, y, c :: s => writeString (cells.add x y (.char c.toNat)) (x + 1) y s

/-- The text area of a terminal with a window. -/
structure TextArea where
  cursor : Vector2D
  cells : Cells

namespace TextArea

variable (a : TextArea)

/-- `DrawCursor`. -/
def drawCursor (visible : Bool) : TextArea :=
  { a with cells := a.cells.set a.cursor.x a.cursor.y (if visible then [.cursor] else []) }

/-- A new line, in `Print` as well as in `InputKey`. -/
def newline : TextArea :=
  if a.cursor.y < kRows - 1 then ⟨⟨0, a.cursor.y + 1⟩, a.cells⟩
  else ⟨⟨0, a.cursor.y⟩, a.cells.scroll1⟩

/-- A character at the cursor. -/
def write (c : Nat) : TextArea :=
  let cells := a.cells.add a.cursor.x a.cursor.y (.char c)
  if isHankaku c then ⟨⟨a.cursor.x + 1, a.cursor.y⟩, cells⟩
  else ⟨⟨a.cursor.x + 2, a.cursor.y⟩, cells.add (a.cursor.x + 1) a.cursor.y (.rightHalf c)⟩

/-- `Print`, for one character. -/
def printChar (c : Nat) : TextArea :=
  if c = 0x0a then a.newline
  else if isHankaku c then
    (if a.cursor.x = kColumns then a.newline else a).write c
  else (if a.cursor.x = kColumns - 1 then a.newline else a).write c

/-- `Print`, for a string. -/
def print (text : List Nat) : TextArea :=
  (text.foldl printChar (a.drawCursor false)).drawCursor true

end TextArea

/-- What a command does to the terminal that it is started from. -/
inductive CommandOutput
  | print (text : List Nat)
  /-- the command `clear` -/
  | clear

def TextArea.output (a : TextArea) : CommandOutput → TextArea
  | .print text => a.print text
  | .clear => ⟨⟨a.cursor.x, 0⟩, a.cells.clear 0 0 kColumns kRows⟩

/-- A terminal with a window. -/
structure WindowedTerminal where
  editor : LineEditor
  cells : Cells

namespace WindowedTerminal

variable (t : WindowedTerminal)

def area : TextArea :=
  ⟨t.editor.cursor, t.cells⟩

/-- The terminal after its constructor. -/
def initial : WindowedTerminal where
  editor := .initial
  cells := (TextArea.print ⟨⟨0, 0⟩, fun _ _ => []⟩ [0x3e]).cells

/-- The new line in `InputKey`, up to the second prompt. -/
def execute (outputs : List CommandOutput) : TextArea :=
  (outputs.foldl TextArea.output (t.area.drawCursor false).newline).print [0x3e]

/-- `InputKey`, before it draws the cursor again. -/
def edit (keycode ascii : UInt8) (cuts : List Nat) (outputs : List CommandOutput) :
    WindowedTerminal :=
  let s := t.editor
  let cells := (t.area.drawCursor false).cells
  if ascii = 0x0a then ⟨(s.enter ⟨cuts, (t.execute outputs).cursor⟩).editor, (t.execute outputs).cells⟩
  else if ascii = 0x08 then
    ⟨s.backspace, if s.cursor.x > 1 then cells.set (s.cursor.x - 1) s.cursor.y [] else cells⟩
  else if ascii ≠ 0 then
    ⟨(s.type ascii).editor,
      if s.cursor.x < kColumns - 1 ∧ s.linebufIndex < kLineMax - 1 then
        cells.add s.cursor.x s.cursor.y (.char ascii.toNat)
      else cells⟩
  else if keycode = 0x51 then
    ⟨(s.historyUpDown (-1)).editor,
      (cells.clear 1 s.cursor.y (kColumns - 1) 1).writeString 1 s.cursor.y (s.history (-1))⟩
  else if keycode = 0x52 then
    ⟨(s.historyUpDown 1).editor,
      (cells.clear 1 s.cursor.y (kColumns - 1) 1).writeString 1 s.cursor.y (s.history 1)⟩
  else ⟨s, cells⟩

/-- `InputKey`; when the key is Enter, with the NULs that are written to the line, and the output of
the command. -/
def inputKey (keycode ascii : UInt8) (cuts : List Nat) (outputs : List CommandOutput) :
    WindowedTerminal :=
  let t := t.edit keycode ascii cuts outputs
  { t with cells := (t.area.drawCursor true).cells }

/-- Something is printed. -/
def print (text : List Nat) : WindowedTerminal where
  editor := { t.editor with cursor := (t.area.print text).cursor }
  cells := (t.area.print text).cells

end WindowedTerminal

/-- The members that are used to edit lines change as `LineEditor.step` has it. -/
theorem WindowedTerminal.editor_inputKey (t : WindowedTerminal) (keycode ascii : UInt8)
    (cuts : List Nat) (outputs : List CommandOutput) :
    (t.inputKey keycode ascii cuts outputs).editor =
      (t.editor.step (.key keycode ascii ⟨cuts, (t.execute outputs).cursor⟩)).editor := by
  rw [inputKey, edit, LineEditor.step]
  split_ifs <;> rfl

/-- The cursor moves as it does in `printChar` of the drawings. -/
theorem TextArea.cursor_printChar (a : TextArea) (c : Nat) :
    (a.printChar c).cursor = (Terminal.printChar a.cursor c).1 := by
  have newline : a.newline.cursor = (Terminal.newline a.cursor).1 := by
    rw [TextArea.newline, Terminal.newline]
    split <;> rfl
  have wrapped (column : Int) : (if a.cursor.x = column then a.newline else a).cursor =
      (wrap (a.cursor.x = column) a.cursor).1 := by
    by_cases due : a.cursor.x = column
    · rw [if_pos due, newline, wrap, if_pos (decide_eq_true due)]
    · rw [if_neg due, wrap, if_neg (by simpa using due)]
  rw [printChar, Terminal.printChar]
  split
  · exact newline
  split
  · rename_i hankaku
    rw [write, if_pos hankaku, wrapped]
  · rename_i zenkaku
    rw [write, if_neg zenkaku, wrapped]

/-! ## Prompts -/

/-- A terminal, and its text area when the prompt was printed. -/
structure Prompted where
  terminal : WindowedTerminal
  prompt : TextArea

/-- What happens at a terminal. -/
inductive EditEvent
  | key (keycode ascii : UInt8) (cuts : List Nat) (outputs : List CommandOutput)
  /-- something is printed before Enter -/
  | print (text : List Nat)

namespace Prompted

def initial : Prompted :=
  ⟨.initial, WindowedTerminal.initial.area⟩

variable (p : Prompted)

def step : EditEvent → Prompted
  | .key keycode ascii cuts outputs =>
      let terminal := p.terminal.inputKey keycode ascii cuts outputs
      ⟨terminal, if ascii = 0x0a then terminal.area else p.prompt⟩
  | .print text => ⟨p.terminal.print text, p.prompt⟩

/-- Keys give ASCII characters, and NULs are written to the line that is executed only. -/
def Admits : EditEvent → Prop
  | .key _ ascii cuts _ =>
      ascii < 0x80 ∧
        (ascii = 0x0a → ∀ i ∈ cuts, i ≤ (cstring (p.terminal.editor.store 0)).length)
  | .print _ => True

/-- Backspace is pressed only when there is something to take away, the history is used only when the
prompt is at the left, and nothing is printed before Enter. -/
def Careful : EditEvent → Prop
  | .key keycode ascii _ _ =>
      (ascii = 0x08 → 0 < p.terminal.editor.linebufIndex ∨ p.terminal.editor.cursor.x ≤ 1) ∧
        (ascii = 0 ∧ (keycode = 0x51 ∨ keycode = 0x52) → p.prompt.cursor.x = 1)
  | .print text => text = []

end Prompted

/-- The cell is before the end of the prompt. -/
def TextArea.Before (prompt : TextArea) (i j : Int) : Prop :=
  j < prompt.cursor.y ∨ j = prompt.cursor.y ∧ i < prompt.cursor.x

/-- What is edited is shown behind the prompt; what was there before is as it was, and nothing is
behind, from a column on. -/
structure Shows (prompt : TextArea) (s : LineEditor) (cells : Cells) (column : Int) : Prop where
  row : s.cursor.y = prompt.cursor.y
  offset : s.cursor.x - prompt.cursor.x = s.linebufIndex
  kept : ∀ i j, prompt.Before i j → cells i j = prompt.cells i j
  edited : ∀ (k : Nat) (c : UInt8), s.editBuffer[k]? = some c →
    cells (prompt.cursor.x + k) prompt.cursor.y = [.char c.toNat]
  blank : ∀ i j, 0 ≤ i → i < kColumns →
    j = prompt.cursor.y ∧ column ≤ i ∨ prompt.cursor.y < j ∧ j < kRows → cells i j = []

/-- What holds between keys. -/
structure Prompted.Inv (p : Prompted) : Prop where
  editor : p.terminal.editor.Inv
  shows : Shows p.prompt p.terminal.editor p.terminal.cells (p.terminal.editor.cursor.x + 1)
  cursor : p.terminal.cells p.terminal.editor.cursor.x p.terminal.editor.cursor.y = [.cursor]
  left : 1 ≤ p.prompt.cursor.x
  row : 0 ≤ p.prompt.cursor.y ∧ p.prompt.cursor.y < kRows
  short : p.terminal.editor.linebufIndex ≤ 58
  history : ∀ line ∈ p.terminal.editor.cmdHistory, (cstring line).length ≤ 58

/-! ## Cells -/

namespace Cells

variable {cells : Cells} {x y i j : Int} {glyphs : List Glyph}

@[simp]
theorem set_self : cells.set x y glyphs x y = glyphs :=
  if_pos ⟨rfl, rfl⟩

theorem set_other (other : i ≠ x ∨ j ≠ y) : cells.set x y glyphs i j = cells i j :=
  if_neg fun same => other.elim (· same.1) (· same.2)

theorem add_other {glyph : Glyph} (other : i ≠ x ∨ j ≠ y) : cells.add x y glyph i j = cells i j :=
  set_other other

theorem clear_inside {width height : Int}
    (inside : x ≤ i ∧ i < x + width ∧ y ≤ j ∧ j < y + height) :
    cells.clear x y width height i j = [] :=
  if_pos inside

theorem clear_outside {width height : Int}
    (outside : ¬ (x ≤ i ∧ i < x + width ∧ y ≤ j ∧ j < y + height)) :
    cells.clear x y width height i j = cells i j :=
  if_neg outside

theorem scroll1_last (left : 0 ≤ i) (right : i < kColumns) (last : j = kRows - 1) :
    cells.scroll1 i j = [] := by
  have inside : 0 ≤ i ∧ i < 0 + kColumns ∧ kRows - 1 ≤ j ∧ j < kRows - 1 + 1 := by omega
  exact if_pos inside

/-- A cell that is blank or made so. -/
theorem set_blank (blank : i ≠ x ∨ j ≠ y → cells i j = []) : cells.set x y [] i j = [] := by
  by_cases other : i ≠ x ∨ j ≠ y
  · rw [set_other other, blank other]
  · rw [not_or, not_not, not_not] at other
    rw [other.1, other.2, set_self]

/-- A string is drawn over the cells of a row. -/
theorem writeString_eq (s : List UInt8) : cells.writeString x y s i j =
    if j = y ∧ x ≤ i ∧ i < x + s.length then
      cells i j ++ (s[(i - x).toNat]?.map fun c => Glyph.char c.toNat).toList
    else cells i j := by
  induction s generalizing cells x with
  | nil =>
      rw [writeString, if_neg]
      simp
  | cons c s ih =>
      rw [writeString, ih, List.length_cons]
      by_cases first : i = x ∧ j = y
      · rw [first.1, first.2, if_neg (by omega), if_pos (by omega), add, set_self, sub_self]
        rfl
      · have other : i ≠ x ∨ j ≠ y := by omega
        rw [add, set_other other]
        by_cases inside : j = y ∧ x + 1 ≤ i ∧ i < x + 1 + s.length
        · have next : (i - x).toNat = (i - (x + 1)).toNat + 1 := by omega
          rw [if_pos inside, if_pos (by omega), next, List.getElem?_cons_succ]
        · rw [if_neg inside, if_neg (by omega)]

end Cells

/-! ## Output -/

namespace TextArea

variable {a : TextArea}

/-- Nothing is drawn from a column of the cursor's row on, or below. -/
structure BlankFrom (a : TextArea) (column : Int) : Prop where
  left : 0 ≤ a.cursor.x
  row : 0 ≤ a.cursor.y ∧ a.cursor.y < kRows
  blank : ∀ i j, 0 ≤ i → i < kColumns →
    j = a.cursor.y ∧ column ≤ i ∨ a.cursor.y < j ∧ j < kRows → a.cells i j = []

/-- The cursor is not shown, or it is. -/
def Hidden (a : TextArea) : Prop := a.BlankFrom a.cursor.x
def Shown (a : TextArea) : Prop := a.BlankFrom (a.cursor.x + 1)

theorem Hidden.shown (hidden : a.Hidden) : a.Shown where
  left := hidden.left
  row := hidden.row
  blank := fun i j left right later => hidden.blank i j left right (by omega)

theorem Shown.hide (shown : a.Shown) : (a.drawCursor false).Hidden where
  left := shown.left
  row := shown.row
  blank := by
    intro i j left right later
    refine Cells.set_blank fun other => shown.blank i j left right ?_
    simp only [drawCursor] at later
    omega

theorem Hidden.show (hidden : a.Hidden) : (a.drawCursor true).Shown where
  left := hidden.left
  row := hidden.row
  blank := by
    intro i j left right later
    simp only [drawCursor] at later
    exact (Cells.set_other (by omega)).trans (hidden.blank i j left right (by omega))

theorem Hidden.newline (hidden : a.Hidden) : a.newline.Hidden := by
  have rows : kRows = 15 := rfl
  rcases hidden with ⟨left, row, blank⟩
  rw [TextArea.newline]
  split
  · refine ⟨le_rfl, ⟨by simp only; omega, by simp only; omega⟩, fun i j left right later => ?_⟩
    simp only at later
    exact blank i j left right (by omega)
  · refine ⟨le_rfl, row, fun i j left right later => ?_⟩
    simp only at later
    exact Cells.scroll1_last left right (by omega)

/-- A character is written in blank cells. -/
theorem Hidden.write (hidden : a.Hidden) (c : Nat) : (a.write c).Hidden := by
  rcases hidden with ⟨left, row, blank⟩
  rw [TextArea.write]
  split
  · refine ⟨by simp only; omega, row, fun i j left right later => ?_⟩
    simp only at later
    exact (Cells.add_other (by omega)).trans (blank i j left right (by omega))
  · refine ⟨by simp only; omega, row, fun i j left right later => ?_⟩
    simp only at later
    have first : a.cells.add a.cursor.x a.cursor.y (.char c) i j = a.cells i j :=
      Cells.add_other (by omega)
    exact (Cells.add_other (by omega)).trans (first.trans (blank i j left right (by omega)))

theorem Hidden.printChar (hidden : a.Hidden) (c : Nat) : (a.printChar c).Hidden := by
  rw [TextArea.printChar]
  split_ifs
  · exact hidden.newline
  · exact hidden.newline.write c
  · exact hidden.write c
  · exact hidden.newline.write c
  · exact hidden.write c

theorem Hidden.foldl_printChar (hidden : a.Hidden) (text : List Nat) :
    (text.foldl TextArea.printChar a).Hidden := by
  induction text generalizing a with
  | nil => exact hidden
  | cons c text ih => exact ih (hidden.printChar c)

theorem Shown.print (shown : a.Shown) (text : List Nat) : (a.print text).Shown :=
  (shown.hide.foldl_printChar text).show

theorem Shown.output (shown : a.Shown) (output : CommandOutput) : (a.output output).Shown := by
  cases output with
  | print text => exact shown.print text
  | clear =>
      have rows : (0 : Int) < kRows := by decide
      refine ⟨shown.left, ⟨le_rfl, rows⟩, fun i j left right later => ?_⟩
      simp only [TextArea.output] at later
      change Cells.clear _ 0 0 kColumns kRows i j = []
      exact Cells.clear_inside (by omega)

theorem Shown.foldl_output (shown : a.Shown) (outputs : List CommandOutput) :
    (outputs.foldl TextArea.output a).Shown := by
  induction outputs generalizing a with
  | nil => exact shown
  | cons output outputs ih => exact ih (shown.output output)

/-- The prompt is followed by the cursor. -/
theorem Shown.prompt (shown : a.Shown) : 1 ≤ (a.print [0x3e]).cursor.x ∧
    (a.print [0x3e]).cells (a.print [0x3e]).cursor.x (a.print [0x3e]).cursor.y = [.cursor] := by
  refine ⟨?_, Cells.set_self⟩
  change 1 ≤ ((a.drawCursor false).printChar 0x3e).cursor.x
  have left := shown.left
  rw [TextArea.printChar, if_neg (by decide), if_pos (by decide)]
  split
  · have start : ((a.drawCursor false).newline).cursor.x = 0 := by
      rw [TextArea.newline]
      split <;> rfl
    rw [TextArea.write, if_pos (by decide)]
    change 1 ≤ ((a.drawCursor false).newline).cursor.x + 1
    omega
  · rw [TextArea.write, if_pos (by decide)]
    change 1 ≤ a.cursor.x + 1
    omega

end TextArea

/-! ## Keys -/

namespace Shows

variable {prompt : TextArea} {s : LineEditor} {cells : Cells}

/-- Something is drawn in the cell of the cursor. -/
theorem setCursor {column column' : Int} {glyphs : List Glyph} (shows : Shows prompt s cells column)
    (inv : s.Inv) (blank : ∀ i j, 0 ≤ i → i < kColumns →
      j = prompt.cursor.y ∧ column' ≤ i ∨ prompt.cursor.y < j ∧ j < kRows →
      cells.set s.cursor.x s.cursor.y glyphs i j = []) :
    Shows prompt s (cells.set s.cursor.x s.cursor.y glyphs) column' := by
  rcases shows with ⟨row, offset, kept, edited, -⟩
  have index := inv.index
  refine ⟨row, offset, fun i j before => ?_, fun k c found => ?_, blank⟩
  · rw [TextArea.Before] at before
    rw [Cells.set_other (by omega)]
    exact kept i j before
  · have short := (List.getElem?_eq_some_iff.mp found).1
    rw [inv.length_editBuffer] at short
    rw [Cells.set_other (by omega)]
    exact edited k c found

theorem hide (shows : Shows prompt s cells (s.cursor.x + 1)) (inv : s.Inv) :
    Shows prompt s (cells.set s.cursor.x s.cursor.y []) s.cursor.x := by
  refine shows.setCursor inv fun i j left right later => Cells.set_blank fun other => ?_
  have row := shows.row
  exact shows.blank i j left right (by omega)

theorem reveal (shows : Shows prompt s cells s.cursor.x) (inv : s.Inv) :
    Shows prompt s (cells.set s.cursor.x s.cursor.y [.cursor]) (s.cursor.x + 1) := by
  refine shows.setCursor inv fun i j left right later => ?_
  have row := shows.row
  rw [Cells.set_other (by omega)]
  exact shows.blank i j left right (by omega)

/-- A character is typed. -/
theorem type (shows : Shows prompt s cells s.cursor.x) (inv : s.Inv) (left : 1 ≤ prompt.cursor.x)
    (room : s.cursor.x < kColumns - 1 ∧ s.linebufIndex < kLineMax - 1) (ascii : UInt8) :
    Shows prompt (s.type ascii).editor (cells.add s.cursor.x s.cursor.y (.char ascii.toNat))
      (s.cursor.x + 1) := by
  rcases shows with ⟨row, offset, kept, edited, blank⟩
  have index := inv.index
  have typed := inv.take_store room.2 ascii
  have here : cells s.cursor.x s.cursor.y = [] :=
    blank _ _ (by omega) (by omega) (.inl ⟨row, le_rfl⟩)
  rw [LineEditor.type, if_pos room]
  refine ⟨row, by simp only; omega, fun i j before => ?_, fun k c found => ?_,
    fun i j left right later => ?_⟩
  · rw [TextArea.Before] at before
    rw [Cells.add_other (by omega)]
    exact kept i j before
  · have length := inv.length_editBuffer
    have found' : (s.editBuffer ++ [ascii])[k]? = some c := typed ▸ found
    rcases Nat.lt_trichotomy k s.editBuffer.length with old | last | behind
    · rw [List.getElem?_append_left old] at found'
      rw [Cells.add_other (by omega)]
      exact edited k c found'
    · rw [last, List.getElem?_concat_length, Option.some_inj] at found'
      have column : prompt.cursor.x + k = s.cursor.x := by omega
      rw [column, ← row, Cells.add, Cells.set_self, here, ← found']
      rfl
    · rw [List.getElem?_eq_none (by simpa using behind)] at found'
      cases found'
  · rw [Cells.add_other (by omega)]
    exact blank i j left right (by omega)

/-- A character is taken away. -/
theorem backspace (shows : Shows prompt s cells s.cursor.x)
    (some : 1 < s.cursor.x) (positive : 0 < s.linebufIndex) :
    Shows prompt s.backspace (cells.set (s.cursor.x - 1) s.cursor.y []) (s.cursor.x - 1) := by
  rcases shows with ⟨row, offset, kept, edited, blank⟩
  have before : (s.linebufIndex - 1).toNat ≤ s.linebufIndex.toNat := by omega
  rw [LineEditor.backspace, if_pos some, if_pos positive]
  refine ⟨row, by simp only; omega, fun i j before => ?_, fun k c found => ?_,
    fun i j left right later => ?_⟩
  · rw [TextArea.Before] at before
    rw [Cells.set_other (by omega)]
    exact kept i j before
  · have found' : (s.linebuf.take (s.linebufIndex - 1).toNat)[k]? = Option.some c := found
    have short : k < (s.linebufIndex - 1).toNat := by
      have inside := (List.getElem?_eq_some_iff.mp found').1
      rw [List.length_take] at inside
      omega
    rw [List.getElem?_take_of_lt short] at found'
    rw [Cells.set_other (by omega)]
    refine edited k c ?_
    rw [LineEditor.editBuffer, List.getElem?_take_of_lt (by omega)]
    exact found'
  · refine Cells.set_blank fun other => blank i j left right ?_
    omega

theorem editBuffer_historyUpDown (s : LineEditor) (direction : Int) :
    (s.historyUpDown direction).editor.editBuffer = s.history direction := by
  simp only [LineEditor.historyUpDown, LineEditor.editBuffer, Int.toNat_natCast]
  exact List.take_left

/-- A line of the history is shown in place of the line that is edited. -/
theorem historyUpDown (shows : Shows prompt s cells s.cursor.x) (direction : Int)
    (first : prompt.cursor.x = 1) (short : (s.history direction).length ≤ 58) :
    Shows prompt (s.historyUpDown direction).editor
      ((cells.clear 1 s.cursor.y (kColumns - 1) 1).writeString 1 s.cursor.y (s.history direction))
      (s.historyUpDown direction).editor.cursor.x := by
  rcases shows with ⟨row, offset, kept, edited, blank⟩
  have columns : kColumns = 60 := rfl
  have column : (s.historyUpDown direction).editor.cursor.x = (s.history direction).length + 1 := rfl
  have index : (s.historyUpDown direction).editor.linebufIndex = (s.history direction).length := rfl
  refine ⟨row, by omega, fun i j before => ?_, fun k c found => ?_, fun i j left right later => ?_⟩
  · rw [TextArea.Before] at before
    rw [Cells.writeString_eq, if_neg (by omega), Cells.clear_outside (by omega)]
    exact kept i j before
  · rw [editBuffer_historyUpDown] at found
    have inside := (List.getElem?_eq_some_iff.mp found).1
    have position : (prompt.cursor.x + k - 1).toNat = k := by omega
    rw [Cells.writeString_eq, if_pos (by omega), position, found, Cells.clear_inside (by omega)]
    rfl
  · rw [column] at later
    rw [Cells.writeString_eq, if_neg (by omega)]
    by_cases cleared : j = s.cursor.y
    · exact Cells.clear_inside (by omega)
    · rw [Cells.clear_outside (by omega)]
      exact blank i j left right (by omega)

end Shows

/-! ## Runs -/

namespace Prompted

variable {p : Prompted}

/-- What holds while a key is handled, with the cursor hidden. -/
structure Edits (prompt : TextArea) (t : WindowedTerminal) : Prop where
  editor : t.editor.Inv
  shows : Shows prompt t.editor t.cells t.editor.cursor.x
  short : t.editor.linebufIndex ≤ 58
  history : ∀ line ∈ t.editor.cmdHistory, (cstring line).length ≤ 58

/-- Lines of the history are no longer than those that can be typed. -/
theorem short_history {s : LineEditor} (inv : s.Inv)
    (history : ∀ line ∈ s.cmdHistory, (cstring line).length ≤ 58) (direction : Int) :
    (s.history direction).length ≤ 58 := by
  have range := inv.historyIndex_range direction
  rw [LineEditor.history]
  split
  · have inHistory : (s.historyIndex direction).toNat < s.cmdHistory.length := by omega
    rw [List.getD_eq_getElem _ _ inHistory]
    exact history _ (List.getElem_mem inHistory)
  · exact Nat.zero_le _

namespace Edits

variable {prompt : TextArea} {s : LineEditor} {cells : Cells}

theorem backspace (edits : Edits prompt ⟨s, cells⟩)
    (careful : 0 < s.linebufIndex ∨ s.cursor.x ≤ 1) : Edits prompt ⟨s.backspace,
      if s.cursor.x > 1 then cells.set (s.cursor.x - 1) s.cursor.y [] else cells⟩ := by
  rcases edits with ⟨inv, shows, short, history⟩
  have kept := inv.backspace
  by_cases some : 1 < s.cursor.x
  · have positive : 0 < s.linebufIndex := careful.resolve_right some.not_ge
    have shows' := shows.backspace some positive
    rw [LineEditor.backspace, if_pos some, if_pos positive] at kept shows' ⊢
    rw [if_pos some]
    refine ⟨kept, shows', ?_, history⟩
    change s.linebufIndex - 1 ≤ 58
    change s.linebufIndex ≤ 58 at short
    omega
  · rw [LineEditor.backspace, if_neg some, if_neg some]
    exact ⟨inv, shows, short, history⟩

theorem type (edits : Edits prompt ⟨s, cells⟩) (left : 1 ≤ prompt.cursor.x) {ascii : UInt8}
    (notNul : ascii ≠ 0) : Edits prompt ⟨(s.type ascii).editor,
      if s.cursor.x < kColumns - 1 ∧ s.linebufIndex < kLineMax - 1 then
        cells.add s.cursor.x s.cursor.y (.char ascii.toNat)
      else cells⟩ := by
  rcases edits with ⟨inv, shows, short, history⟩
  have kept := (inv.type notNul).1
  by_cases room : s.cursor.x < kColumns - 1 ∧ s.linebufIndex < kLineMax - 1
  · have shows' := shows.type inv left room ascii
    have columns : kColumns = 60 := rfl
    have offset := shows.offset
    rw [LineEditor.type, if_pos room] at kept shows' ⊢
    rw [if_pos room]
    refine ⟨kept, shows', ?_, history⟩
    change s.linebufIndex + 1 ≤ 58
    change s.cursor.x - prompt.cursor.x = s.linebufIndex at offset
    omega
  · rw [LineEditor.type, if_neg room, if_neg room]
    exact ⟨inv, shows, short, history⟩

theorem historyUpDown (edits : Edits prompt ⟨s, cells⟩) (direction : Int)
    (first : prompt.cursor.x = 1) : Edits prompt ⟨(s.historyUpDown direction).editor,
      (cells.clear 1 s.cursor.y (kColumns - 1) 1).writeString 1 s.cursor.y
        (s.history direction)⟩ := by
  rcases edits with ⟨inv, shows, short, history⟩
  have recalled : (s.history direction).length ≤ 58 := short_history inv history direction
  refine ⟨(inv.historyUpDown direction).1, shows.historyUpDown direction first recalled, ?_, history⟩
  change ((s.history direction).length : Int) ≤ 58
  omega

/-- The cursor is shown again. -/
theorem reveal {t : WindowedTerminal} (edits : Edits prompt t) (left : 1 ≤ prompt.cursor.x)
    (row : 0 ≤ prompt.cursor.y ∧ prompt.cursor.y < kRows) :
    Inv ⟨{ t with cells := (t.area.drawCursor true).cells }, prompt⟩ :=
  ⟨edits.editor, edits.shows.reveal edits.editor, Cells.set_self, left, row, edits.short,
    edits.history⟩

end Edits

/-- The cursor is hidden. -/
theorem Inv.hide (inv : p.Inv) :
    Edits p.prompt ⟨p.terminal.editor, (p.terminal.area.drawCursor false).cells⟩ :=
  ⟨inv.editor, inv.shows.hide inv.editor, inv.short, inv.history⟩

/-- A key other than Enter. -/
theorem Inv.edit (inv : p.Inv) {keycode ascii : UInt8} {cuts : List Nat}
    {outputs : List CommandOutput} (other : ascii ≠ 0x0a)
    (careful : p.Careful (.key keycode ascii cuts outputs)) :
    Edits p.prompt (p.terminal.edit keycode ascii cuts outputs) := by
  have edits := inv.hide
  rw [WindowedTerminal.edit, if_neg other]
  split
  · rename_i isBackspace
    exact edits.backspace (careful.1 isBackspace)
  split
  · rename_i notNul
    exact edits.type inv.left notNul
  rename_i isNul
  have nul : ascii = 0 := by simpa using isNul
  split
  · rename_i down
    exact edits.historyUpDown (-1) (careful.2 ⟨nul, .inl down⟩)
  split
  · rename_i up
    exact edits.historyUpDown 1 (careful.2 ⟨nul, .inr up⟩)
  · exact edits

/-- Nothing is drawn behind the cursor. -/
theorem Inv.shown (inv : p.Inv) : p.terminal.area.Shown where
  left := by
    have offset := inv.shows.offset
    have left := inv.left
    have index := inv.editor.index
    change 0 ≤ p.terminal.editor.cursor.x
    omega
  row := by
    change 0 ≤ p.terminal.editor.cursor.y ∧ p.terminal.editor.cursor.y < kRows
    rw [inv.shows.row]
    exact inv.row
  blank := by
    change ∀ i j, 0 ≤ i → i < kColumns → j = p.terminal.editor.cursor.y ∧
      p.terminal.editor.cursor.x + 1 ≤ i ∨ p.terminal.editor.cursor.y < j ∧ j < kRows →
      p.terminal.cells i j = []
    rw [inv.shows.row]
    exact inv.shows.blank

/-- The line that is entered can be recalled. -/
theorem Inv.entries (inv : p.Inv) (execution : Execution) :
    ∀ line ∈ (p.terminal.editor.enter execution).editor.cmdHistory, (cstring line).length ≤ 58 := by
  rcases inv with ⟨inv, -, -, -, -, short, history⟩
  have index := inv.index
  intro line member
  simp only [LineEditor.enter] at member
  split at member
  · rcases List.mem_cons.mp member with rfl | old
    · have entered : cstring (p.terminal.editor.store 0) = p.terminal.editor.editBuffer :=
        inv.stringAt_store.cstring_drop
      rw [entered, inv.length_editBuffer]
      omega
    · exact history line (List.mem_of_mem_dropLast old)
  · exact history line member

/-- Enter, up to the next prompt. -/
theorem Inv.enter (inv : p.Inv) {keycode : UInt8} {cuts : List Nat} {outputs : List CommandOutput}
    (inLine : ∀ i ∈ cuts, i ≤ (cstring (p.terminal.editor.store 0)).length) :
    (p.step (.key keycode 0x0a cuts outputs)).Inv := by
  have printed := inv.shown.hide.newline.shown.foldl_output outputs
  have shown := printed.print [0x3e]
  have entered : (p.terminal.editor.enter ⟨cuts, (p.terminal.execute outputs).cursor⟩).editor.Inv :=
    (inv.editor.enter inLine).1
  have row : 0 ≤ (p.terminal.execute outputs).cursor.y ∧
      (p.terminal.execute outputs).cursor.y < kRows := shown.row
  refine ⟨entered, ⟨rfl, sub_self _, fun _ _ _ => rfl, fun k c found => ?_, ?_⟩, Cells.set_self,
    printed.prompt.1, row, (by decide : (0 : Int) ≤ 58), inv.entries _⟩
  · have nothing : ([] : List UInt8)[k]? = some c := found
    cases nothing
  · intro i j left right later
    have later' : j = (p.terminal.execute outputs).cursor.y ∧
        (p.terminal.execute outputs).cursor.x + 1 ≤ i ∨
        (p.terminal.execute outputs).cursor.y < j ∧ j < kRows := later
    have blank : (p.terminal.execute outputs).cells i j = [] := shown.blank i j left right later'
    have other : i ≠ (p.terminal.execute outputs).cursor.x ∨
        j ≠ (p.terminal.execute outputs).cursor.y := by omega
    rw [← blank]
    exact Cells.set_other other

theorem Inv.step (inv : p.Inv) {event : EditEvent} (admits : p.Admits event)
    (careful : p.Careful event) : (p.step event).Inv := by
  cases event with
  | key keycode ascii cuts outputs =>
      by_cases isEnter : ascii = 0x0a
      · rw [isEnter] at admits ⊢
        exact inv.enter (admits.2 rfl)
      · rw [Prompted.step, if_neg isEnter]
        exact (inv.edit isEnter careful).reveal inv.left inv.row
  | print text =>
      change text = [] at careful
      rw [careful]
      exact inv.hide.reveal inv.left inv.row

theorem inv_initial : initial.Inv := by
  have blank : TextArea.Shown ⟨⟨0, 0⟩, fun _ _ => []⟩ :=
    ⟨le_rfl, ⟨le_rfl, by decide⟩, fun _ _ _ _ _ => rfl⟩
  have shown := blank.print [0x3e]
  refine ⟨LineEditor.inv_initial, ⟨rfl, rfl, fun _ _ _ => rfl, fun k c found => ?_, shown.blank⟩,
    blank.prompt.2, le_rfl, shown.row, by decide, fun line member => ?_⟩
  · have nothing : ([] : List UInt8)[k]? = some c := found
    cases nothing
  · rw [List.eq_of_mem_replicate member]
    decide

/-- In every run of such keys and outputs, what is edited is shown behind the prompt, all before it
stays as it is, and Enter executes what is shown. -/
theorem shows_of_run {events : List EditEvent}
    (run : Run (guarded (fun p event p' => p' = p.step event)
      fun p event => p.Admits event ∧ p.Careful event) initial events p) :
    Shows p.prompt p.terminal.editor p.terminal.cells (p.terminal.editor.cursor.x + 1) ∧
      p.terminal.cells p.terminal.editor.cursor.x p.terminal.editor.cursor.y = [.cursor] ∧
      ∀ keycode execution, (p.terminal.editor.step (.key keycode 0x0a execution)).executed =
        some p.terminal.editor.editBuffer := by
  have preserved : ∀ ⦃p event p'⦄, Inv p → guarded (fun p event p' => p' = p.step event)
      (fun p event => p.Admits event ∧ p.Careful event) p event p' → Inv p' := by
    rintro p event p' inv ⟨⟨admits, careful⟩, rfl⟩
    exact inv.step admits careful
  have inv := run.invariant preserved inv_initial
  refine ⟨inv.shows, inv.cursor, fun keycode execution => ?_⟩
  exact congrArg some inv.editor.stringAt_store.cstring_drop

theorem shows_of_run_typed :
    let p := initial.step (.key 4 0x61 [] [])
    Shows p.prompt p.terminal.editor p.terminal.cells (p.terminal.editor.cursor.x + 1) ∧
      p.terminal.cells p.terminal.editor.cursor.x p.terminal.editor.cursor.y = [.cursor] ∧
      ∀ keycode execution, (p.terminal.editor.step (.key keycode 0x0a execution)).executed =
        some p.terminal.editor.editBuffer := by
  intro p
  have admits : initial.Admits (.key 4 0x61 [] []) :=
    ⟨by decide, fun isEnter => absurd isEnter (by decide)⟩
  have careful : initial.Careful (.key 4 0x61 [] []) :=
    ⟨fun isBackspace => absurd isBackspace (by decide), fun isNul => absurd isNul.1 (by decide)⟩
  exact shows_of_run (.single ⟨⟨admits, careful⟩, rfl⟩)

/-- `no such command: x`, which has no new line at its end. -/
def noSuchCommand : List Nat :=
  [0x6e, 0x6f, 0x20, 0x73, 0x75, 0x63, 0x68, 0x20, 0x63, 0x6f, 0x6d, 0x6d, 0x61, 0x6e, 0x64, 0x3a,
    0x20, 0x78]

/-- A command that does not exist, and Backspace. -/
def backspaceAfter : List EditEvent :=
  [.key 27 0x78 [] [], .key 40 0x0a [] [.print noSuchCommand], .key 42 0x08 [] []]

set_option maxRecDepth 4000 in
/-- Backspace takes the prompt away that is behind the output of the command. -/
theorem not_shows_backspace : ∃ p,
    Run (guarded (fun p event p' => p' = p.step event) Admits) initial backspaceAfter p ∧
      p.prompt.cursor = ⟨19, 1⟩ ∧ p.prompt.cells 18 1 = [.char 0x3e] ∧
      p.terminal.cells 18 1 = [.cursor] ∧ p.terminal.editor.linebufIndex = 0 ∧
      p.terminal.editor.cursor.x - p.prompt.cursor.x = -1 := by
  have admits {p : Prompted} {keycode ascii : UInt8} {outputs : List CommandOutput}
      (isAscii : ascii < 0x80) : p.Admits (.key keycode ascii [] outputs) :=
    ⟨isAscii, fun _ i member => absurd member List.not_mem_nil⟩
  refine ⟨_, .cons ⟨admits (by decide), rfl⟩ (.cons ⟨admits (by decide), rfl⟩
    (.cons ⟨admits (by decide), rfl⟩ (.nil _))), ?_⟩
  decide

end Prompted

end Mikanos.Terminal
