import Mikanos.Terminal.Editing

/-!
# Endless paper

What is printed at a terminal, typed, taken away or recalled is written to the last line of a sheet of
paper without end.  The window shows the last lines of the sheet, and the cursor behind them.
-/

namespace Mikanos.Terminal

open Screen Transition

/-- The cells of a line. -/
abbrev Line :=
  List (List Glyph)

/-- The cells that a character takes. -/
def cellsOf (c : Nat) : Line :=
  if isHankaku c then [[.char c]] else [[.char c], [.rightHalf c]]

/-- The last line of the sheet, and those above it, the nearest one first. -/
structure Paper where
  above : List Line
  line : Line
  deriving DecidableEq

namespace Paper

def blank : Paper :=
  ⟨[], []⟩

variable (p : Paper)

def newline : Paper :=
  ⟨p.line :: p.above, []⟩

/-- A character is put behind the line, or on a line of its own if there is no room for it. -/
def put (c : Nat) : Paper :=
  if c = 0x0a then p.newline
  else if kColumns < p.line.length + (cellsOf c).length then ⟨p.line :: p.above, cellsOf c⟩
  else ⟨p.above, p.line ++ cellsOf c⟩

def write (text : List Nat) : Paper :=
  text.foldl put p

/-- The command `clear` keeps the column. -/
def output : CommandOutput → Paper
  | .print text => p.write text
  | .clear => ⟨[], List.replicate p.line.length []⟩

/-- The line is replaced from the second column on. -/
def fetch (text : List UInt8) : Paper :=
  ⟨p.above, (p.line ++ [[]]).take 1 ++ text.map fun c => [.char c.toNat]⟩

/-- What a key does, with the editor before it and the output of the command. -/
def key (s : LineEditor) (keycode ascii : UInt8) (outputs : List CommandOutput) : Paper :=
  if ascii = 0x0a then (outputs.foldl output p.newline).put 0x3e
  else if ascii = 0x08 then if 1 < p.line.length then ⟨p.above, p.line.dropLast⟩ else p
  else if ascii ≠ 0 then
    if p.line.length < kColumns - 1 ∧ s.linebufIndex < kLineMax - 1 then
      ⟨p.above, p.line ++ [[.char ascii.toNat]]⟩
    else p
  else if keycode = 0x51 then p.fetch (s.history (-1))
  else if keycode = 0x52 then p.fetch (s.history 1)
  else p

/-- No full-width character comes when the last line is full. -/
def InTime : Paper → List Nat → Prop
  | _, [] => True
  | p, c :: text => (p.line.length = kColumns → isHankaku c) ∧ InTime (p.put c) text

/-- Whether a text is in time. -/
def decidableInTime : ∀ (p : Paper) (text : List Nat), Decidable (p.InTime text)
  | _, [] => isTrue trivial
  | p, c :: text =>
      have := decidableInTime (p.put c) text
      inferInstanceAs (Decidable ((p.line.length = kColumns → isHankaku c) ∧ (p.put c).InTime text))

instance (p : Paper) (text : List Nat) : Decidable (p.InTime text) :=
  decidableInTime p text

def OutputsInTime : Paper → List CommandOutput → Prop
  | _, [] => True
  | p, .print text :: outputs => p.InTime text ∧ OutputsInTime (p.output (.print text)) outputs
  | p, .clear :: outputs => OutputsInTime (p.output .clear) outputs

/-- The cell in a column, some lines above the last one; below it, there is none. -/
def cell (up column : Int) : List Glyph :=
  if up < 0 then [] else (((p.line :: p.above).getD up.toNat []).getD column.toNat [])

end Paper

/-- The text area shows the last lines of a sheet, with the box of the cursor or without. -/
structure Displays (p : Paper) (box : Bool) (a : TextArea) : Prop where
  column : a.cursor.x = p.line.length
  row : a.cursor.y = min (p.above.length : Int) (kRows - 1)
  narrow : p.line.length ≤ kColumns
  cells : ∀ i j, 0 ≤ i → i < kColumns → 0 ≤ j → j < kRows →
    a.cells i j =
      if box ∧ i = a.cursor.x ∧ j = a.cursor.y then [.cursor] else p.cell (a.cursor.y - j) i

/-! ## Cells of a sheet -/

namespace Paper

variable {p : Paper} {up column : Int}

theorem cell_below (below : up < 0) : p.cell up column = [] :=
  if_pos below

theorem cell_last (column : Int) : p.cell 0 column = p.line.getD column.toNat [] :=
  rfl

/-- Nothing is in the last line from its end on. -/
theorem cell_behind (nonneg : 0 ≤ column) (behind : p.line.length ≤ column) : p.cell 0 column = [] := by
  rw [cell_last]
  apply List.getD_eq_default
  omega

/-- On a new line, the others are one more above. -/
theorem cell_succ (above : List Line) (line line' : Line) (up column : Int) (nonneg : 0 ≤ up) :
    Paper.cell ⟨line :: above, line'⟩ (up + 1) column = Paper.cell ⟨above, line⟩ up column := by
  have next : (up + 1).toNat = up.toNat + 1 := by omega
  rw [cell, cell, if_neg (by omega), if_neg (by omega), next, List.getD_cons_succ]

/-- The lines above do not depend on the last one. -/
theorem cell_above (above : List Line) (line line' : Line) (other : up ≠ 0) (column : Int) :
    Paper.cell ⟨above, line⟩ up column = Paper.cell ⟨above, line'⟩ up column := by
  rw [cell, cell]
  split
  · rfl
  · have next : up.toNat = (up - 1).toNat + 1 := by omega
    rw [next, List.getD_cons_succ, List.getD_cons_succ]

theorem length_cellsOf (c : Nat) : (cellsOf c).length = if isHankaku c then 1 else 2 := by
  rw [cellsOf]
  split <;> rfl

end Paper

/-! ## The text area -/

namespace Displays

variable {p : Paper} {box : Bool} {a : TextArea}

theorem hide (displays : Displays p box a) : Displays p false (a.drawCursor false) where
  column := displays.column
  row := displays.row
  narrow := displays.narrow
  cells := by
    intro i j left right top bottom
    simp only [TextArea.drawCursor, Bool.false_eq_true, if_false, false_and]
    by_cases here : i = a.cursor.x ∧ j = a.cursor.y
    · rw [here.1, here.2, Cells.set_self, sub_self,
        Paper.cell_behind (by omega) (by rw [displays.column])]
    · rw [Cells.set_other (by omega), displays.cells i j left right top bottom, if_neg (by tauto)]

theorem reveal (displays : Displays p box a) : Displays p true (a.drawCursor true) where
  column := displays.column
  row := displays.row
  narrow := displays.narrow
  cells := by
    intro i j left right top bottom
    simp only [TextArea.drawCursor, if_true, true_and]
    by_cases here : i = a.cursor.x ∧ j = a.cursor.y
    · rw [here.1, here.2, Cells.set_self, if_pos ⟨rfl, rfl⟩]
    · rw [Cells.set_other (by omega), displays.cells i j left right top bottom, if_neg here,
        if_neg fun shown => here shown.2]

/-- The cells without the box of the cursor. -/
theorem cell (displays : Displays p false a) {i j : Int} (left : 0 ≤ i) (right : i < kColumns)
    (top : 0 ≤ j) (bottom : j < kRows) : a.cells i j = p.cell (a.cursor.y - j) i :=
  (displays.cells i j left right top bottom).trans
    (if_neg fun shown => absurd shown.1 Bool.false_ne_true)

/-- The text area when the cells are those of the sheet. -/
theorem of_cells (column : a.cursor.x = p.line.length)
    (row : a.cursor.y = min (p.above.length : Int) (kRows - 1)) (narrow : p.line.length ≤ kColumns)
    (cells : ∀ i j, 0 ≤ i → i < kColumns → 0 ≤ j → j < kRows →
      a.cells i j = p.cell (a.cursor.y - j) i) : Displays p false a where
  column := column
  row := row
  narrow := narrow
  cells := fun i j left right top bottom =>
    (cells i j left right top bottom).trans
      (if_neg fun shown => absurd shown.1 Bool.false_ne_true).symm

/-- Rows move up when there is a line for each of them. -/
theorem newline (displays : Displays p false a) : Displays p.newline false a.newline := by
  have rows : kRows = 15 := rfl
  have row := displays.row
  have next (up column : Int) : p.newline.cell (up + 1) column = p.cell up column := by
    by_cases nonneg : 0 ≤ up
    · exact Paper.cell_succ p.above p.line [] up column nonneg
    · have below : p.cell up column = [] := Paper.cell_below (by omega)
      rw [below]
      by_cases last : up + 1 = 0
      · rw [last]
        rfl
      · exact Paper.cell_below (by omega)
  have narrow : ((p.newline.line.length : Nat) : Int) ≤ kColumns := (by decide : (0 : Int) ≤ kColumns)
  rw [TextArea.newline]
  split
  · refine of_cells rfl ?_ narrow ?_
    · simp only [Paper.newline, List.length_cons]
      omega
    · intro i j left right top bottom
      rw [displays.cell left right top bottom, ← next]
      congr 1
      dsimp only
      omega
  · refine of_cells rfl ?_ narrow ?_
    · simp only [Paper.newline, List.length_cons]
      omega
    · intro i j left right top bottom
      dsimp only
      by_cases last : j = kRows - 1
      · rw [Cells.scroll1_last left right last, last]
        have above : a.cursor.y - (kRows - 1) = 0 := by omega
        rw [above, Paper.cell_last]
        rfl
      · have moved : a.cells.scroll1 i j = a.cells i (j + 1) := by
          rw [Cells.scroll1, Cells.clear_outside (by omega)]
          exact if_pos ⟨left, right, top, by omega⟩
        rw [moved, displays.cell left right (by omega) (by omega), ← next]
        congr 1
        omega

/-- Cells are filled behind the last line. -/
theorem append (displays : Displays p false a) (more : Line)
    (room : p.line.length + more.length ≤ kColumns) {cells : Cells}
    (added : ∀ i j, cells i j =
      if j = a.cursor.y ∧ a.cursor.x ≤ i ∧ i < a.cursor.x + more.length then
        a.cells i j ++ more.getD (i - a.cursor.x).toNat []
      else a.cells i j) :
    Displays ⟨p.above, p.line ++ more⟩ false ⟨⟨a.cursor.x + more.length, a.cursor.y⟩, cells⟩ := by
  have column := displays.column
  refine of_cells ?_ displays.row ?_ ?_
  · simp only [List.length_append]
    omega
  · simp only [List.length_append]
    omega
  intro i j left right top bottom
  dsimp only
  rw [added]
  by_cases inRow : j = a.cursor.y
  · rw [inRow, sub_self, Paper.cell_last]
    have old := displays.cell left right (inRow ▸ top) (inRow ▸ bottom)
    rw [sub_self, Paper.cell_last] at old
    dsimp only
    rcases lt_or_ge i a.cursor.x with before | behind
    · rw [if_neg (by omega), old, List.getD_append _ _ _ _ (by omega)]
    · have empty : a.cells i a.cursor.y = [] := by
        rw [old]
        exact List.getD_eq_default _ _ (by omega)
      have position : i.toNat - p.line.length = (i - a.cursor.x).toNat := by omega
      rw [List.getD_append_right _ _ _ _ (by omega), position]
      split
      · rw [empty, List.nil_append]
      · rw [empty]
        exact (List.getD_eq_default _ _ (by omega)).symm
  · rw [if_neg (by tauto), displays.cell left right top bottom]
    exact Paper.cell_above p.above p.line _ (by omega) i

/-- A character is drawn in the cells behind the last line. -/
theorem write (displays : Displays p false a) {c : Nat}
    (room : p.line.length + (cellsOf c).length ≤ kColumns) :
    Displays ⟨p.above, p.line ++ cellsOf c⟩ false (a.write c) := by
  by_cases hankaku : isHankaku c
  · have one : cellsOf c = [[.char c]] := if_pos hankaku
    rw [TextArea.write, if_pos hankaku]
    rw [one] at room ⊢
    refine displays.append _ room fun i j => ?_
    rw [List.length_singleton]
    by_cases here : i = a.cursor.x ∧ j = a.cursor.y
    · rw [here.1, here.2, if_pos (by omega), Cells.add, Cells.set_self, sub_self]
      rfl
    · rw [if_neg (by omega), Cells.add_other (by omega)]
  · have two : cellsOf c = [[.char c], [.rightHalf c]] := if_neg hankaku
    rw [TextArea.write, if_neg hankaku]
    rw [two] at room ⊢
    refine displays.append _ room fun i j => ?_
    simp only [List.length_cons, List.length_nil]
    by_cases first : i = a.cursor.x ∧ j = a.cursor.y
    · rw [first.1, first.2, if_pos (by omega), Cells.add_other (by omega), Cells.add, Cells.set_self,
        sub_self]
      rfl
    by_cases second : i = a.cursor.x + 1 ∧ j = a.cursor.y
    · have offset : a.cursor.x + 1 - a.cursor.x = 1 := by omega
      rw [second.1, second.2, if_pos (by omega), Cells.add, Cells.set_self, Cells.add_other (by omega),
        offset]
      rfl
    · rw [if_neg (by omega), Cells.add_other (by omega), Cells.add_other (by omega)]

/-- One character is printed. -/
theorem printChar (displays : Displays p false a) {c : Nat}
    (inTime : p.line.length = kColumns → isHankaku c) :
    Displays (p.put c) false (a.printChar c) := by
  have columns : kColumns = 60 := rfl
  have column := displays.column
  have narrow := displays.narrow
  have length := Paper.length_cellsOf c
  have wrapped : Displays ⟨p.line :: p.above, cellsOf c⟩ false (a.newline.write c) := by
    refine displays.newline.write ?_
    simp only [Paper.newline, List.length_nil]
    split at length <;> omega
  rw [Paper.put, TextArea.printChar]
  by_cases isNewline : c = 0x0a
  · rw [if_pos isNewline, if_pos isNewline]
    exact displays.newline
  rw [if_neg isNewline, if_neg isNewline]
  by_cases hankaku : isHankaku c
  · rw [if_pos hankaku] at length ⊢
    by_cases full : a.cursor.x = kColumns
    · rw [if_pos full, if_pos (by omega)]
      exact wrapped
    · rw [if_neg full, if_neg (by omega)]
      exact displays.write (by omega)
  · rw [if_neg hankaku] at length ⊢
    have notFull : (p.line.length : Int) ≠ kColumns := fun full => hankaku (inTime full)
    by_cases last : a.cursor.x = kColumns - 1
    · rw [if_pos last, if_pos (by omega)]
      exact wrapped
    · rw [if_neg last, if_neg (by omega)]
      exact displays.write (by omega)

theorem foldl_printChar (displays : Displays p false a) {text : List Nat} (inTime : p.InTime text) :
    Displays (p.write text) false (text.foldl TextArea.printChar a) := by
  induction text generalizing p a with
  | nil => exact displays
  | cons c text ih => exact ih (displays.printChar inTime.1) inTime.2

/-- A string is printed. -/
theorem print (displays : Displays p box a) {text : List Nat} (inTime : p.InTime text) :
    Displays (p.write text) true (a.print text) :=
  (displays.hide.foldl_printChar inTime).reveal

/-- The window is cleared. -/
theorem clear (displays : Displays p box a) :
    Displays (p.output .clear) false (a.output .clear) := by
  refine of_cells ?_ rfl ?_ ?_
  · rw [Paper.output, List.length_replicate]
    exact displays.column
  · rw [Paper.output, List.length_replicate]
    exact displays.narrow
  intro i j left right top bottom
  have cleared : (a.output .clear).cells i j = [] := Cells.clear_inside (by omega)
  rw [cleared]
  change [] = Paper.cell ⟨[], List.replicate p.line.length []⟩ (0 - j) i
  by_cases first : j = 0
  · rw [first, sub_self, Paper.cell_last, List.getD_eq_getElem?_getD, List.getElem?_replicate]
    split <;> rfl
  · exact (Paper.cell_below (by omega)).symm

theorem outputs (displays : Displays p box a) {outputs : List CommandOutput}
    (inTime : p.OutputsInTime outputs) :
    ∃ box', Displays (outputs.foldl Paper.output p) box' (outputs.foldl TextArea.output a) := by
  induction outputs generalizing p box a with
  | nil => exact ⟨box, displays⟩
  | cons output outputs ih =>
      cases output with
      | print text => exact ih (displays.print inTime.1) inTime.2
      | clear => exact ih displays.clear inTime

/-! ## Keys -/

/-- The last cell is taken away. -/
theorem backspace (displays : Displays p false a) (some : 1 < p.line.length) :
    Displays ⟨p.above, p.line.dropLast⟩ false
      ⟨⟨a.cursor.x - 1, a.cursor.y⟩, a.cells.set (a.cursor.x - 1) a.cursor.y []⟩ := by
  have column := displays.column
  have narrow := displays.narrow
  have length : p.line.dropLast.length = p.line.length - 1 := List.length_dropLast
  refine of_cells ?_ displays.row ?_ ?_
  · dsimp only
    omega
  · dsimp only
    omega
  intro i j left right top bottom
  dsimp only
  by_cases inRow : j = a.cursor.y
  · rw [inRow, sub_self, Paper.cell_last]
    dsimp only
    rcases lt_trichotomy i (a.cursor.x - 1) with before | last | behind
    · have old := displays.cell left right (inRow ▸ top) (inRow ▸ bottom)
      rw [sub_self, Paper.cell_last] at old
      rw [Cells.set_other (by omega), old, List.getD_eq_getElem?_getD, List.getD_eq_getElem?_getD,
        List.getElem?_dropLast, if_pos (by omega)]
    · rw [last, Cells.set_self]
      exact (List.getD_eq_default _ _ (by omega)).symm
    · rw [Cells.set_other (by omega), displays.cell left right (inRow ▸ top) (inRow ▸ bottom), sub_self,
        Paper.cell_behind left (by omega)]
      exact (List.getD_eq_default _ _ (by omega)).symm
  · rw [Cells.set_other (by omega), displays.cell left right top bottom]
    exact Paper.cell_above p.above p.line _ (by omega) i

/-- A character is typed. -/
theorem type (displays : Displays p false a) (room : p.line.length < kColumns - 1) (ascii : UInt8) :
    Displays ⟨p.above, p.line ++ [[.char ascii.toNat]]⟩ false
      ⟨⟨a.cursor.x + 1, a.cursor.y⟩, a.cells.add a.cursor.x a.cursor.y (.char ascii.toNat)⟩ := by
  refine displays.append [[.char ascii.toNat]] ?_ fun i j => ?_
  · rw [List.length_singleton]
    omega
  · rw [List.length_singleton]
    by_cases here : i = a.cursor.x ∧ j = a.cursor.y
    · rw [here.1, here.2, if_pos (by omega), Cells.add, Cells.set_self, sub_self]
      rfl
    · rw [if_neg (by omega), Cells.add_other (by omega)]

/-- A line of the history is shown from the second column on. -/
theorem fetch (displays : Displays p false a) {text : List UInt8} (short : text.length < kColumns) :
    Displays (p.fetch text) false ⟨⟨text.length + 1, a.cursor.y⟩,
      (a.cells.clear 1 a.cursor.y (kColumns - 1) 1).writeString 1 a.cursor.y text⟩ := by
  have first : ((p.line ++ [[]]).take 1).length = 1 := by
    rw [List.length_take, List.length_append, List.length_singleton]
    omega
  refine of_cells ?_ displays.row ?_ ?_
  · rw [Paper.fetch, List.length_append, first, List.length_map]
    dsimp only
    omega
  · rw [Paper.fetch, List.length_append, first, List.length_map]
    omega
  intro i j left right top bottom
  dsimp only
  rw [Cells.writeString_eq]
  by_cases inRow : j = a.cursor.y
  · have old := displays.cell left right (inRow ▸ top) (inRow ▸ bottom)
    rw [inRow, sub_self] at *
    rw [Paper.cell_last] at old ⊢
    rw [Paper.fetch]
    dsimp only
    by_cases column : i = 0
    · rw [if_neg (by omega), Cells.clear_outside (by omega), old, column]
      cases p.line with
      | nil => rfl
      | cons => rfl
    have position : i.toNat - ((p.line ++ [[]]).take 1).length = (i - 1).toNat := by omega
    rw [List.getD_append_right _ _ _ _ (by omega), position, Cells.clear_inside (by omega),
      List.nil_append, List.getD_eq_getElem?_getD, List.getElem?_map]
    split
    · rename_i inside
      have short : (i - 1).toNat < text.length := by omega
      rw [List.getElem?_eq_getElem short]
      rfl
    · rw [List.getElem?_eq_none (by omega)]
      rfl
  · rw [if_neg (by tauto), Cells.clear_outside (by omega), displays.cell left right top bottom]
    exact Paper.cell_above p.above p.line _ (by omega) i

end Displays

/-- What is printed in answer to a key is in time, and what is recalled is no longer than a row. -/
structure Paper.KeyFits (p : Paper) (s : LineEditor) (keycode ascii : UInt8)
    (outputs : List CommandOutput) : Prop where
  outputs : ascii = 0x0a → p.newline.OutputsInTime outputs
  down : ascii = 0 → keycode = 0x51 → (s.history (-1)).length < kColumns
  up : ascii = 0 → keycode = 0x52 → (s.history 1).length < kColumns

/-- Before the cursor is drawn again. -/
theorem Displays.edit {p : Paper} {box : Bool} {t : WindowedTerminal} (displays : Displays p box t.area)
    {keycode ascii : UInt8} {outputs : List CommandOutput}
    (fits : p.KeyFits t.editor keycode ascii outputs) (cuts : List Nat) :
    ∃ box', Displays (p.key t.editor keycode ascii outputs) box'
      (t.edit keycode ascii cuts outputs).area := by
  have hidden := displays.hide
  have column : t.editor.cursor.x = p.line.length := displays.column
  rw [Paper.key, WindowedTerminal.edit]
  by_cases isEnter : ascii = 0x0a
  · rw [if_pos isEnter, if_pos isEnter]
    rcases hidden.newline.outputs (fits.outputs isEnter) with ⟨box', printed⟩
    have inTime : (outputs.foldl Paper.output p.newline).InTime [0x3e] := ⟨fun _ => rfl, trivial⟩
    exact ⟨true, printed.print inTime⟩
  rw [if_neg isEnter, if_neg isEnter]
  refine ⟨false, ?_⟩
  by_cases isBackspace : ascii = 0x08
  · rw [if_pos isBackspace, if_pos isBackspace, LineEditor.backspace]
    by_cases some : 1 < p.line.length
    · have notFirst : t.editor.cursor.x > 1 := by omega
      rw [if_pos some, if_pos notFirst, if_pos notFirst]
      exact hidden.backspace some
    · have first : ¬ t.editor.cursor.x > 1 := by omega
      rw [if_neg some, if_neg first, if_neg first]
      exact hidden
  rw [if_neg isBackspace, if_neg isBackspace]
  by_cases notNul : ascii ≠ 0
  · rw [if_pos notNul, if_pos notNul, LineEditor.type, column]
    by_cases room : p.line.length < kColumns - 1 ∧ t.editor.linebufIndex < kLineMax - 1
    · rw [if_pos room, if_pos room, if_pos room, ← column]
      exact hidden.type room.1 ascii
    · rw [if_neg room, if_neg room, if_neg room]
      exact hidden
  rw [if_neg notNul, if_neg notNul]
  have nul : ascii = 0 := not_not.mp notNul
  by_cases isDown : keycode = 0x51
  · rw [if_pos isDown, if_pos isDown]
    exact hidden.fetch (fits.down nul isDown)
  rw [if_neg isDown, if_neg isDown]
  by_cases isUp : keycode = 0x52
  · rw [if_pos isUp, if_pos isUp]
    exact hidden.fetch (fits.up nul isUp)
  · rw [if_neg isUp, if_neg isUp]
    exact hidden

/-! ## Runs -/

/-- A terminal with a window, `cursor_visible_`, and the sheet of what has been written. -/
structure WrittenTerminal where
  terminal : WindowedTerminal
  cursorVisible : Bool
  paper : Paper

/-- What happens at a terminal. -/
inductive WrittenEvent
  | key (keycode ascii : UInt8) (cuts : List Nat) (outputs : List CommandOutput)
  | print (text : List Nat)
  | blinkCursor

namespace WrittenTerminal

def initial : WrittenTerminal :=
  ⟨.initial, false, ⟨[], [[.char 0x3e]]⟩⟩

variable (s : WrittenTerminal)

/-- `InputKey`, `Print` or `BlinkCursor`. -/
def step : WrittenEvent → WrittenTerminal
  | .key keycode ascii cuts outputs =>
      { s with
        terminal := s.terminal.inputKey keycode ascii cuts outputs
        paper := s.paper.key s.terminal.editor keycode ascii outputs }
  | .print text => { s with terminal := s.terminal.print text, paper := s.paper.write text }
  | .blinkCursor =>
      { s with
        terminal.cells := (s.terminal.area.drawCursor !s.cursorVisible).cells
        cursorVisible := !s.cursorVisible }

/-- Nothing is printed that comes late, or recalled that is too long. -/
def Admits : WrittenEvent → Prop
  | .key keycode ascii _ outputs => s.paper.KeyFits s.terminal.editor keycode ascii outputs
  | .print text => s.paper.InTime text
  | .blinkCursor => True

variable {s}

theorem displays_step {box : Bool} (displays : Displays s.paper box s.terminal.area)
    {event : WrittenEvent} (admits : s.Admits event) :
    ∃ box', Displays (s.step event).paper box' (s.step event).terminal.area := by
  cases event with
  | key keycode ascii cuts outputs =>
      rcases displays.edit admits cuts with ⟨box', edited⟩
      exact ⟨true, edited.reveal⟩
  | print text => exact ⟨true, displays.print admits⟩
  | blinkCursor =>
      cases visible : s.cursorVisible with
      | false =>
          refine ⟨true, ?_⟩
          rw [step, visible]
          exact displays.reveal
      | true =>
          refine ⟨false, ?_⟩
          rw [step, visible]
          exact displays.hide

/-- The window shows the last lines of the sheet. -/
def Displayed (s : WrittenTerminal) : Prop :=
  ∃ box, Displays s.paper box s.terminal.area

theorem displays_blank : Displays .blank false ⟨⟨0, 0⟩, fun _ _ => []⟩ := by
  refine Displays.of_cells rfl rfl (by decide) fun i j left right top bottom => ?_
  change [] = Paper.cell .blank (0 - j) i
  by_cases first : j = 0
  · rw [first]
    have behind : (Paper.blank.line.length : Int) ≤ i := left
    exact (Paper.cell_behind left behind).symm
  · exact (Paper.cell_below (by omega)).symm

theorem displayed_initial : initial.Displayed := by
  have inTime : Paper.blank.InTime [0x3e] := ⟨fun _ => rfl, trivial⟩
  exact ⟨true, displays_blank.print inTime⟩

/-- The window shows the last fifteen lines of all that has been written, and the cursor is behind the
last one. -/
theorem displays_of_run {events : List WrittenEvent}
    (run : Run (guarded (fun s event s' => s' = s.step event) Admits) initial events s) :
    ∃ box, Displays s.paper box s.terminal.area := by
  have preserved : ∀ ⦃s : WrittenTerminal⦄ ⦃event s'⦄, s.Displayed →
      guarded (fun s event s' => s' = s.step event) Admits s event s' → s'.Displayed := by
    rintro s event s' ⟨box, displays⟩ ⟨admits, rfl⟩
    exact displays_step displays admits
  have displayed : s.Displayed := run.invariant preserved displayed_initial
  exact displayed

/-- Lines with a letter of its own each, more than there are rows, and a character of two columns. -/
def alphabet : List Nat :=
  ((List.range 26).flatMap fun k => [0x61 + k, 0x0a]) ++ [0x3042]

set_option maxRecDepth 4000 in
theorem displays_of_run_alphabet : ∃ box,
    Displays (initial.step (.print alphabet)).paper box
      (initial.step (.print alphabet)).terminal.area := by
  have inTime : initial.Admits (.print alphabet) := by
    change initial.paper.InTime alphabet
    decide
  exact displays_of_run (.single ⟨inTime, rfl⟩)

end WrittenTerminal

end Mikanos.Terminal
