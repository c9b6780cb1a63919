import Mikanos.Memory.CString
import Mikanos.Transition.Run

/-!
# The console

The console draws text on the screen, or later in a window, and keeps the lines in a buffer from
which it can draw them again.  When the text scrolls on the screen, the lines of the buffer are moved
and drawn; when it scrolls in a window, the pixels of the window are moved.  Then the buffer stays as
it is, and what is drawn from it later is no longer the text.
-/

namespace Mikanos.Screen

open Transition Memory

abbrev kRows : Nat := 25
abbrev kColumns : Nat := 80

/-- What the console draws: writers and windows are numbered, and rows are those of characters. -/
inductive Drawing
  /-- `FillRectangle` with the background colour -/
  | fill (writer row rows : Nat)
  | writeAscii (writer row column : Nat) (c : UInt8)
  | writeString (writer row : Nat) (s : List UInt8)
  /-- `Window::Move` of all rows but the first one, to the top -/
  | move (window : Nat)
  deriving DecidableEq

structure Console where
  writer : Option Nat
  window : Option Nat
  buffer : List (List UInt8)
  cursorRow : Nat
  cursorColumn : Nat
  drawings : List Drawing

/-- A row of the buffer with nothing in it. -/
def blankRow : List UInt8 :=
  List.replicate (kColumns + 1) 0

namespace Console

variable (c : Console)

/-- `buffer_[row]`. -/
def row (row : Nat) : List UInt8 :=
  c.buffer.getD row blankRow

def draw (drawings : List Drawing) : Console :=
  { c with drawings := c.drawings ++ drawings }

/-- `Refresh`; `none` if a null pointer is dereferenced. -/
def refresh : Option Console := do
  let writer ← c.writer
  some (c.draw (.fill writer 0 kRows ::
    (List.range kRows).map fun row => .writeString writer row (cstring (c.row row))))

/-- One round of the loop in `Newline`. -/
def moveUp (writer : Nat) (row : Nat) : Console :=
  let c := { c with buffer := c.buffer.set row (c.row (row + 1)) }
  c.draw [.writeString writer row (cstring (c.row row))]

/-- `Newline` in the last row. -/
def scroll : Option Console := do
  let writer ← c.writer
  match c.window with
  | some window => some (c.draw [.move window, .fill writer (kRows - 1) 1])
  | none =>
      let c := (List.range (kRows - 1)).foldl (fun c row => c.moveUp writer row)
        (c.draw [.fill writer 0 kRows])
      some { c with buffer := c.buffer.set (kRows - 1) blankRow }

def newline : Option Console :=
  let c := { c with cursorColumn := 0 }
  if c.cursorRow < kRows - 1 then some { c with cursorRow := c.cursorRow + 1 }
  else c.scroll

/-- One round of the loop in `PutString`. -/
def put (s : UInt8) : Option Console :=
  if s = 10 then c.newline
  else if c.cursorColumn < kColumns - 1 then do
    let writer ← c.writer
    let c := c.draw [.writeAscii writer c.cursorRow c.cursorColumn s]
    some { c with
      buffer := c.buffer.modify c.cursorRow (·.set c.cursorColumn s)
      cursorColumn := c.cursorColumn + 1 }
  else some c

/-- `PutString`; drawing the layer changes nothing here. -/
def putString (s : List UInt8) : Option Console :=
  (cstring s).foldlM put c

def setWriter (writer : Option Nat) : Option Console :=
  if writer = c.writer then some c else refresh { c with writer, window := none }

/-- `SetWindow`, where `writerOf` is `Window::Writer`. -/
def setWindow (writerOf : Nat → Nat) (window : Option Nat) : Option Console :=
  if window = c.window then some c
  else do
    let target ← window
    refresh { c with window, writer := some (writerOf target) }

end Console

/-- The console after `InitializeConsole`. -/
def initializeConsole (screenWriter : Nat) : Option Console :=
  Console.setWriter ⟨none, none, List.replicate kRows blankRow, 0, 0, []⟩ (some screenWriter)

/-! ## The text -/

/-- The lines of a text; the last one is not complete. -/
def lines (text : List UInt8) : List (List UInt8) :=
  text.splitOn 10

/-- The last lines, each as far as it can be seen. -/
def lastLines (text : List UInt8) : List (List UInt8) :=
  ((lines text).drop ((lines text).length - kRows)).map (List.take (kColumns - 1))

/-- A line in a row of the buffer, with NULs behind it. -/
def padded (line : List UInt8) : List UInt8 :=
  line ++ List.replicate (kColumns + 1 - line.length) 0

/-- The rows of the buffer that the text belongs in. -/
def rows (text : List UInt8) : List (List UInt8) :=
  (lastLines text).map padded ++ List.replicate (kRows - (lastLines text).length) blankRow

/-! ## Lines -/

theorem lines_append_newline (text : List UInt8) : lines (text ++ [10]) = lines text ++ [[]] :=
  List.splitOn_append_cons_self text []

theorem lines_cons (first : UInt8) (text : List UInt8) : lines (first :: text) =
    if first == 10 then [] :: lines text else (lines text).modifyHead (List.cons first) :=
  List.splitOn_cons_eq_if_modifyHead first text

theorem mem_of_mem_lines {text line : List UInt8} {c : UInt8} (of_lines : line ∈ lines text)
    (member : c ∈ line) : c ∈ text := by
  induction text generalizing line with
  | nil =>
      rw [List.mem_singleton.mp of_lines] at member
      cases member
  | cons first text ih =>
      rw [lines_cons] at of_lines
      split at of_lines
      · rcases List.mem_cons.mp of_lines with rfl | later
        · cases member
        · exact List.mem_cons_of_mem _ (ih later member)
      · cases all : lines text with
        | nil => exact absurd all (List.splitOn_ne_nil 10 text)
        | cons head tail =>
            rw [all] at of_lines ih
            rcases List.mem_cons.mp of_lines with rfl | later
            · rcases List.mem_cons.mp member with rfl | member
              · exact List.mem_cons_self
              · exact List.mem_cons_of_mem _ (ih List.mem_cons_self member)
            · exact List.mem_cons_of_mem _ (ih (List.mem_cons_of_mem _ later) member)

/-- The last line is the one that grows. -/
theorem exists_lines (text : List UInt8) : ∃ done line, lines text = done ++ [line] ∧
    ∀ c, c ≠ 10 → lines (text ++ [c]) = done ++ [line ++ [c]] := by
  induction text with
  | nil =>
      refine ⟨[], [], rfl, fun c other => ?_⟩
      exact List.splitOn_eq_singleton (by simpa using other.symm)
  | cons first text ih =>
      rcases ih with ⟨done, line, before, after⟩
      by_cases newline : first == 10
      · refine ⟨[] :: done, line, ?_, fun c other => ?_⟩
        · rw [lines_cons, if_pos newline, before]
          rfl
        · rw [List.cons_append, lines_cons, if_pos newline, after c other]
          rfl
      · cases done with
        | nil =>
            refine ⟨[], first :: line, ?_, fun c other => ?_⟩
            · rw [lines_cons, if_neg newline, before]
              rfl
            · rw [List.cons_append, lines_cons, if_neg newline, after c other]
              rfl
        | cons old done =>
            refine ⟨(first :: old) :: done, line, ?_, fun c other => ?_⟩
            · rw [lines_cons, if_neg newline, before]
              rfl
            · rw [List.cons_append, lines_cons, if_neg newline, after c other]
              rfl

/-- A line in its row. -/
def shownRow (line : List UInt8) : List UInt8 :=
  padded (line.take (kColumns - 1))

/-- The rows, by the lines that are complete and the one that is not. -/
theorem rows_eq {text : List UInt8} {done : List (List UInt8)} {line : List UInt8}
    (last : lines text = done ++ [line]) :
    rows text = (done.drop (done.length - (kRows - 1))).map shownRow ++
      shownRow line :: List.replicate (kRows - 1 - done.length) blankRow := by
  have shown : lastLines text =
      (done.drop (done.length - (kRows - 1)) ++ [line]).map (List.take (kColumns - 1)) := by
    rw [lastLines, last, List.length_append, List.drop_append_of_le_length (by simp)]
    congr 3
  have length : kRows - (lastLines text).length = kRows - 1 - done.length := by
    rw [shown, List.length_map, List.length_append, List.length_drop, List.length_singleton]
    have positive : kRows = 25 := rfl
    omega
  rw [rows, length, shown, List.map_map, List.map_append, List.append_assoc]
  rfl

theorem length_rows (text : List UInt8) : (rows text).length = kRows := by
  rcases exists_lines text with ⟨done, line, last, -⟩
  have bound : kRows = 25 := rfl
  rw [rows_eq last, List.length_append, List.length_map, List.length_drop, List.length_cons,
    List.length_replicate]
  omega

/-- A row has a NUL at its end. -/
theorem cstring_padded {line : List UInt8} (noNul : 0 ∉ line) (short : line.length ≤ kColumns) :
    cstring (padded line) = line := by
  have nuls : kColumns + 1 - line.length = kColumns - line.length + 1 := by omega
  rw [padded, nuls, List.replicate_succ]
  exact cstring_append_nul noNul _

theorem getD_rows (text : List UInt8) (row : Nat) :
    (rows text).getD row blankRow = padded ((lastLines text).getD row []) := by
  have map : ((lastLines text).map padded).getD row blankRow =
      padded ((lastLines text).getD row []) :=
    List.getD_map (lastLines text) [] padded
  rw [rows, ← map]
  rcases Nat.lt_or_ge row ((lastLines text).map padded).length with inside | behind
  · exact List.getD_append _ _ _ _ inside
  · rw [List.getD_append_right _ _ _ _ behind, List.getD_eq_default _ _ behind,
      List.getD_eq_getElem?_getD, List.getElem?_replicate]
    split <;> rfl

/-- The strings in the rows are the lines. -/
theorem cstring_rows {text : List UInt8} (noNul : 0 ∉ text) (row : Nat) :
    cstring ((rows text).getD row blankRow) = (lastLines text).getD row [] := by
  have line : 0 ∉ (lastLines text).getD row [] ∧
      ((lastLines text).getD row []).length ≤ kColumns := by
    rcases Nat.lt_or_ge row (lastLines text).length with inside | behind
    · rw [List.getD_eq_getElem _ _ inside]
      obtain ⟨line, member, same⟩ := List.mem_map.mp (List.getElem_mem inside)
      rw [← same]
      constructor
      · intro nul
        exact noNul (mem_of_mem_lines (List.mem_of_mem_drop member) (List.mem_of_mem_take nul))
      · exact (List.length_take_le _ _).trans (Nat.le_succ _)
    · rw [List.getD_eq_default _ _ behind]
      exact ⟨List.not_mem_nil, Nat.zero_le _⟩
  rw [getD_rows]
  exact cstring_padded line.1 line.2

/-- A character that can still be seen. -/
theorem set_shownRow {line : List UInt8} (short : line.length < kColumns - 1) (c : UInt8) :
    (shownRow line).set line.length c = shownRow (line ++ [c]) := by
  have nuls : kColumns + 1 - line.length = kColumns - line.length + 1 := by omega
  have longer : (line ++ [c]).length ≤ kColumns - 1 := by
    rw [List.length_append]
    exact short
  rw [shownRow, List.take_of_length_le short.le, padded, nuls, List.replicate_succ,
    List.set_append_right _ _ le_rfl, Nat.sub_self, List.set_cons_zero, shownRow,
    List.take_of_length_le longer, padded, List.append_assoc]
  congr 3
  simp

/-- One that cannot. -/
theorem shownRow_append {line : List UInt8} (long : kColumns - 1 ≤ line.length) (c : UInt8) :
    shownRow (line ++ [c]) = shownRow line := by
  rw [shownRow, List.take_append_of_le_length long, shownRow]

/-! ## Scrolling -/

/-- Moving the entries of a list down by one, from the first on. -/
theorem foldl_set_next {α : Type} (l : List α) (d : α) {n : Nat} (inside : n < l.length) :
    (List.range n).foldl (fun l i => l.set i (l.getD (i + 1) d)) l =
      (l.drop 1).take n ++ l.drop n := by
  induction n with
  | zero => rfl
  | succ n ih =>
      have length : ((l.drop 1).take n).length = n := by
        rw [List.length_take, List.length_drop]
        omega
      have next : ((l.drop 1).take n ++ l.drop n).getD (n + 1) d = l[n + 1] := by
        rw [List.getD_append_right _ _ _ _ (by omega), length, List.getD_eq_getElem _ _ (by simp; omega),
          List.getElem_drop]
        congr 1
        omega
      have rest : (l.drop n).set 0 l[n + 1] = l[n + 1] :: l.drop (n + 1) := by
        rw [List.drop_eq_getElem_cons (by omega : n < l.length)]
        rfl
      have taken : (l.drop 1).take (n + 1) = (l.drop 1).take n ++ [l[n + 1]] := by
        rw [List.take_add_one, List.getElem?_drop, Nat.add_comm 1 n, List.getElem?_eq_getElem inside]
        rfl
      rw [List.range_succ, List.foldl_append, ih (by omega), List.foldl_cons, List.foldl_nil, next,
        List.set_append_right _ _ length.le, length, Nat.sub_self, rest, taken, List.append_assoc]
      rfl

namespace Console

variable {c c' : Console} {text : List UInt8}

/-- What the loop in `Newline` changes. -/
theorem foldl_moveUp (c : Console) (writer n : Nat) : ∃ drawings,
    (List.range n).foldl (fun c row => c.moveUp writer row) c =
      { c with
        buffer := (List.range n).foldl (fun l i => l.set i (l.getD (i + 1) blankRow)) c.buffer
        drawings } := by
  induction n with
  | zero => exact ⟨c.drawings, rfl⟩
  | succ n ih =>
      rcases ih with ⟨drawings, same⟩
      rw [List.range_succ, List.foldl_append, same, List.foldl_append]
      exact ⟨_, rfl⟩

/-- Either the pixels of the window are moved, or the rows of the buffer. -/
structure Scrolled (c c' : Console) : Prop where
  writer : c'.writer = c.writer
  window : c'.window = c.window
  cursorRow : c'.cursorRow = c.cursorRow
  cursorColumn : c'.cursorColumn = c.cursorColumn
  buffer : c'.buffer = if c.window = none then c.buffer.drop 1 ++ [blankRow] else c.buffer

theorem scrolled_of_scroll (length : c.buffer.length = kRows) (result : c.scroll = some c') :
    Scrolled c c' := by
  obtain ⟨writer, -, result⟩ := Option.bind_eq_some_iff.mp result
  split at result
  · rename_i window inWindow
    cases result
    refine ⟨rfl, rfl, rfl, rfl, ?_⟩
    rw [if_neg (by rw [inWindow]; exact Option.some_ne_none window)]
    rfl
  · rename_i direct
    rcases foldl_moveUp (c.draw [.fill writer 0 kRows]) writer (kRows - 1) with ⟨drawings, moved⟩
    rw [moved] at result
    cases result
    refine ⟨rfl, rfl, rfl, rfl, ?_⟩
    have shifted := foldl_set_next c.buffer blankRow (n := kRows - 1)
      (by rw [length]; exact Nat.lt_succ_self _)
    have behind : (c.buffer.drop (kRows - 1)).length = 1 := by
      rw [List.length_drop, length]
      rfl
    have front : (c.buffer.drop 1).length = kRows - 1 := by
      rw [List.length_drop, length]
    obtain ⟨row, single⟩ := List.length_eq_one_iff.mp behind
    have buffers : ((List.range (kRows - 1)).foldl (fun l i => l.set i (l.getD (i + 1) blankRow))
        c.buffer).set (kRows - 1) blankRow = c.buffer.drop 1 ++ [blankRow] := by
      rw [shifted, single, List.take_of_length_le front.le, List.set_append_right _ _ front.le,
        front, Nat.sub_self]
      rfl
    dsimp only [draw]
    rw [buffers, if_pos direct]

/-- What `Newline` changes. -/
theorem of_newline (length : c.buffer.length = kRows) (result : c.newline = some c') :
    c.cursorRow < kRows - 1 ∧
        c' = { c with cursorRow := c.cursorRow + 1, cursorColumn := 0 } ∨
      ¬ c.cursorRow < kRows - 1 ∧ Scrolled { c with cursorColumn := 0 } c' := by
  rw [newline] at result
  dsimp only at result
  split at result
  · rename_i above
    cases result
    exact .inl ⟨above, rfl⟩
  · rename_i below
    exact .inr ⟨below, scrolled_of_scroll (c := { c with cursorColumn := 0 }) length result⟩

/-- The buffer and the cursor are those of the text. -/
structure Shows (c : Console) (text : List UInt8) : Prop where
  buffer : c.buffer = rows text
  cursor : ∃ done line, lines text = done ++ [line] ∧
    c.cursorRow = min done.length (kRows - 1) ∧ c.cursorColumn = min line.length (kColumns - 1)

theorem Shows.length (shows : Shows c text) : c.buffer.length = kRows := by
  rw [shows.buffer, length_rows]

/-- A new line below the last one. -/
theorem Shows.newline (shows : Shows c text)
    (unscrolled : c.window = none ∨ c.cursorRow < kRows - 1) (result : c.newline = some c') :
    Shows c' (text ++ [10]) := by
  rcases shows.cursor with ⟨done, line, last, row, column⟩
  have last' : lines (text ++ [10]) = (done ++ [line]) ++ [[]] := by
    rw [lines_append_newline, last]
  have length : (done ++ [line]).length = done.length + 1 := List.length_append
  have bound : kRows = 25 := rfl
  rcases of_newline shows.length result with ⟨above, rfl⟩ | ⟨below, scrolled⟩
  · have few : done.length < kRows - 1 := by omega
    have blank : kRows - 1 - done.length = kRows - 1 - (done ++ [line]).length + 1 := by omega
    have all : done.length - (kRows - 1) = 0 := by omega
    have all' : (done ++ [line]).length - (kRows - 1) = 0 := by omega
    refine ⟨?_, done ++ [line], [], last', ?_, rfl⟩
    · rw [shows.buffer, rows_eq last, rows_eq last', all, all', blank, List.replicate_succ,
        List.drop_zero, List.drop_zero, List.map_append, List.append_assoc]
      rfl
    · rw [length]
      change c.cursorRow + 1 = _
      omega
  · have many : kRows - 1 ≤ done.length := by omega
    have full : kRows - 1 - done.length = 0 := by omega
    have full' : kRows - 1 - (done ++ [line]).length = 0 := by omega
    have first : (done ++ [line]).length - (kRows - 1) = done.length - (kRows - 1) + 1 := by omega
    have shift : ((done.drop (done.length - (kRows - 1))).map shownRow ++ [shownRow line]).drop 1 =
        ((done ++ [line]).drop (done.length - (kRows - 1) + 1)).map shownRow := by
      rw [← List.drop_drop, List.drop_append_of_le_length (Nat.sub_le _ _), ← List.map_singleton,
        ← List.map_append, List.map_drop]
    refine ⟨?_, done ++ [line], [], last', ?_, scrolled.cursorColumn⟩
    · rw [scrolled.buffer, if_pos (unscrolled.resolve_right below), shows.buffer, rows_eq last,
        rows_eq last', full, full', first, List.replicate_zero, shift]
      rfl
    · rw [length, scrolled.cursorRow]
      change c.cursorRow = _
      omega

/-! ## Characters -/

/-- An entry in the middle of a list. -/
theorem modify_middle {α : Type} (before after : List α) (a : α) (f : α → α) :
    (before ++ a :: after).modify before.length f = before ++ f a :: after := by
  induction before with
  | nil => rfl
  | cons b before ih => exact congrArg (List.cons b) ih

/-- A character at the end of the last line. -/
theorem Shows.other (shows : Shows c text) {s : UInt8} (other : s ≠ 10)
    (result : c.put s = some c') :
    Shows c' (text ++ [s]) ∧ c'.window = c.window ∧ c'.cursorRow = c.cursorRow := by
  rcases shows.cursor with ⟨done, line, last, row, column⟩
  rcases exists_lines text with ⟨done', line', last', longer⟩
  obtain ⟨rfl, same⟩ := List.append_inj' (last.symm.trans last') rfl
  cases same
  have last' := longer s other
  have length : (line ++ [s]).length = line.length + 1 := List.length_append
  have bound : kColumns = 80 := rfl
  rw [put, if_neg other] at result
  split at result
  · rename_i inside
    obtain ⟨writer, -, result⟩ := Option.bind_eq_some_iff.mp result
    cases result
    have short : line.length < kColumns - 1 := by omega
    have position : c.cursorColumn = line.length := by omega
    refine ⟨⟨?_, done, line ++ [s], last', row, ?_⟩, rfl, rfl⟩
    · have above : ((done.drop (done.length - (kRows - 1))).map shownRow).length = c.cursorRow := by
        rw [row, List.length_map, List.length_drop]
        omega
      dsimp only [draw]
      rw [shows.buffer, rows_eq last, rows_eq last', ← above, modify_middle, position,
        set_shownRow short]
    · rw [length]
      change c.cursorColumn + 1 = _
      omega
  · rename_i beyond
    cases result
    have long : kColumns - 1 ≤ line.length := by omega
    refine ⟨⟨?_, done, line ++ [s], last', row, ?_⟩, rfl, rfl⟩
    · rw [shows.buffer, rows_eq last, rows_eq last', shownRow_append long]
    · rw [length]
      omega

/-- Any character, if it does not scroll a window. -/
theorem Shows.put (shows : Shows c text) {s : UInt8}
    (unscrolled : c.window = none ∨ c.cursorRow + [s].count 10 ≤ kRows - 1)
    (result : c.put s = some c') :
    Shows c' (text ++ [s]) ∧ c'.window = c.window ∧
      (c'.window = none ∨ c'.cursorRow = c.cursorRow + [s].count 10) := by
  by_cases newline : s = 10
  · rw [newline, Console.put, if_pos rfl] at result
    rw [newline] at unscrolled ⊢
    have single : List.count 10 [(10 : UInt8)] = 1 := rfl
    rw [single] at unscrolled ⊢
    refine ⟨shows.newline (unscrolled.imp_right Nat.lt_of_succ_le) result, ?_⟩
    rcases of_newline shows.length result with ⟨-, rfl⟩ | ⟨below, scrolled⟩
    · exact ⟨rfl, .inr rfl⟩
    · refine ⟨scrolled.window, .inl ?_⟩
      rw [scrolled.window]
      exact unscrolled.resolve_right fun above => below above
  · rcases shows.other newline result with ⟨shows', window, row⟩
    refine ⟨shows', window, .inr ?_⟩
    rw [row, List.count_singleton, if_neg (by simpa using newline)]
    rfl

/-- A string that does not scroll a window. -/
theorem Shows.putString (shows : Shows c text) {s : List UInt8}
    (unscrolled : c.window = none ∨ c.cursorRow + s.count 10 ≤ kRows - 1)
    (result : s.foldlM Console.put c = some c') : Shows c' (text ++ s) := by
  induction s generalizing c text with
  | nil =>
      cases result
      rw [List.append_nil]
      exact shows
  | cons first s ih =>
      obtain ⟨middle, one, rest⟩ := Option.bind_eq_some_iff.mp result
      have count : (first :: s).count 10 = [first].count 10 + s.count 10 := by
        rw [← List.count_append]
        rfl
      rcases shows.put (unscrolled.imp_right fun few => by omega) one with ⟨shows', window, row⟩
      have all := ih shows' ?_ rest
      · rwa [List.append_assoc] at all
      · rw [window] at row ⊢
        rcases unscrolled with direct | few
        · exact .inl direct
        · exact row.imp_right fun row => by omega

/-! ## Runs -/

/-- What is done with the console. -/
inductive Event
  | putString (s : List UInt8)
  | setWriter (writer : Option Nat)
  | setWindow (window : Option Nat)

def step (writerOf : Nat → Nat) (c : Console) : Event → Option Console
  | .putString s => c.putString s
  | .setWriter writer => c.setWriter writer
  | .setWindow window => c.setWindow writerOf window

/-- The text that is put. -/
def textOf (events : List Event) : List UInt8 :=
  events.flatMap fun
    | .putString s => cstring s
    | _ => []

/-- The text does not scroll in a window. -/
def Unscrolled (c : Console) : Event → Prop
  | .putString s => c.window = none ∨ c.cursorRow + (cstring s).count 10 ≤ kRows - 1
  | _ => True

/-- Something can be drawn. -/
theorem exists_put {writer : Nat} (target : c.writer = some writer) (s : UInt8) :
    ∃ c', c.put s = some c' ∧ c'.writer = some writer := by
  rw [put]
  split
  · rw [Console.newline]
    dsimp only
    split
    · exact ⟨_, rfl, target⟩
    · rw [scroll]
      dsimp only
      rw [target, Option.bind_eq_bind, Option.bind_some]
      split
      · exact ⟨_, rfl, rfl⟩
      · rcases foldl_moveUp _ writer (kRows - 1) with ⟨drawings, moved⟩
        rw [moved]
        exact ⟨_, rfl, rfl⟩
  · split
    · rw [target]
      exact ⟨_, rfl, target⟩
    · exact ⟨c, rfl, target⟩

theorem exists_putString {writer : Nat} (target : c.writer = some writer) (s : List UInt8) :
    ∃ c', s.foldlM put c = some c' ∧ c'.writer = some writer := by
  induction s generalizing c with
  | nil => exact ⟨c, rfl, target⟩
  | cons first s ih =>
      rcases exists_put target first with ⟨middle, one, target'⟩
      rcases ih target' with ⟨c', rest, target''⟩
      refine ⟨c', ?_, target''⟩
      rw [List.foldlM_cons, one]
      exact rest

theorem refresh_eq {writer : Nat} (target : c.writer = some writer) :
    c.refresh = some (c.draw (.fill writer 0 kRows ::
      (List.range kRows).map fun row => .writeString writer row (cstring (c.row row)))) := by
  rw [refresh, target]
  rfl

/-- What `Refresh` draws. -/
theorem of_refresh (result : c.refresh = some c') : ∃ writer, c.writer = some writer ∧
    c' = c.draw (.fill writer 0 kRows ::
      (List.range kRows).map fun row => .writeString writer row (cstring (c.row row))) := by
  obtain ⟨writer, target, result⟩ := Option.bind_eq_some_iff.mp result
  cases result
  exact ⟨writer, target, rfl⟩

/-- What is kept. -/
structure Inv (c : Console) (text : List UInt8) : Prop where
  shows : Shows c text
  noNul : 0 ∉ text
  writer : ∃ writer, c.writer = some writer

theorem inv_initializeConsole {screenWriter : Nat} (result : initializeConsole screenWriter = some c) :
    Inv c [] := by
  rw [initializeConsole, setWriter, if_neg (Option.some_ne_none _)] at result
  rcases of_refresh result with ⟨writer, target, rfl⟩
  exact ⟨⟨rfl, [], [], rfl, rfl, rfl⟩, List.not_mem_nil, writer, target⟩

/-- One call. -/
theorem Inv.next (inv : Inv c text) {writerOf : Nat → Nat} {event : Event}
    (unscrolled : c.Unscrolled event) (result : c.step writerOf event = some c') :
    Inv c' (text ++ textOf [event]) := by
  rcases inv with ⟨shows, noNul, writer, target⟩
  cases event with
  | putString s =>
      rcases exists_putString target (cstring s) with ⟨c'', result', target'⟩
      cases Option.some_inj.mp (result.symm.trans result')
      have text' : textOf [.putString s] = cstring s := List.append_nil _
      rw [text']
      refine ⟨shows.putString unscrolled result', ?_, writer, target'⟩
      exact List.not_mem_append noNul (noNul_cstring s)
  | setWriter writer' =>
      rw [step, setWriter] at result
      have text' : text ++ textOf [.setWriter writer'] = text := List.append_nil _
      rw [text']
      split at result
      · cases result
        exact ⟨shows, noNul, writer, target⟩
      · rcases of_refresh result with ⟨writer'', target', rfl⟩
        exact ⟨⟨shows.buffer, shows.cursor⟩, noNul, writer'', target'⟩
  | setWindow window =>
      rw [step, setWindow] at result
      have text' : text ++ textOf [.setWindow window] = text := List.append_nil _
      rw [text']
      split at result
      · cases result
        exact ⟨shows, noNul, writer, target⟩
      · obtain ⟨shown, -, result⟩ := Option.bind_eq_some_iff.mp result
        rcases of_refresh result with ⟨writer'', target', rfl⟩
        exact ⟨⟨shows.buffer, shows.cursor⟩, noNul, writer'', target'⟩

theorem Inv.run (inv : Inv c text) {writerOf : Nat → Nat} {events : List Event}
    (run : Run (guarded (ofFunction (step writerOf)) Unscrolled) c events c') :
    Inv c' (text ++ textOf events) := by
  induction run generalizing text with
  | nil =>
      rw [textOf, List.flatMap_nil, List.append_nil]
      exact inv
  | @cons c middle c' event events first _ ih =>
      have all := ih (inv.next first.1 first.2)
      have texts : textOf (event :: events) = textOf [event] ++ textOf events := by
        rw [textOf, textOf, textOf, ← List.flatMap_append]
        rfl
      rwa [List.append_assoc, ← texts] at all

instance (event : Event) : Decidable (c.Unscrolled event) :=
  match event with
  | .putString s =>
      inferInstanceAs (Decidable (c.window = none ∨ c.cursorRow + (cstring s).count 10 ≤ kRows - 1))
  | .setWriter _ => isTrue trivial
  | .setWindow _ => isTrue trivial

/-- A line on the screen, and one in the window of the console. -/
def twoLines : List Event :=
  [.putString [104, 105, 10], .setWindow (some 0), .putString [97]]

/-- The text is scrolled in the window by one line. -/
def scrollsWindow : List Event :=
  [.setWindow (some 0), .putString (97 :: List.replicate kRows 10)]

end Console
end Mikanos.Screen
