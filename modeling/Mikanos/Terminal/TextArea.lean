import Mikanos.Screen.Font

/-!
# The text area

A terminal prints characters of one or two columns, and wraps when it gets to the next one:
before a half-width character if the cursor is behind the last column, before a full-width
character if the cursor is at the last column.  A full-width character that comes when the cursor
is behind the last column is not wrapped, so that it and all that follows is outside of the area.
-/

namespace Mikanos.Terminal

open Screen

def kRows : Int := 15

def kColumns : Int := 60

/-- `ToplevelWindow::kTopLeftMargin`. -/
def kTopLeftMargin : Vector2D := ⟨4, 24⟩

/-- `CalcCursorPos`. -/
def calcCursorPos (cursor : Vector2D) : Vector2D :=
  kTopLeftMargin + ⟨4 + 8 * cursor.x, 4 + 16 * cursor.y⟩

/-- What is drawn to the window. -/
inductive Drawing
  /-- `WriteUnicode`, at `CalcCursorPos` -/
  | writeUnicode (cursor : Vector2D) (c : Nat)
  | move (dst : Vector2D) (src : Rectangle)
  | fillRectangle (pos size : Vector2D)
  deriving DecidableEq

/-- `Scroll1`. -/
def scroll1 (cursor : Vector2D) : List Drawing :=
  [.move (kTopLeftMargin + ⟨4, 4⟩)
      ⟨kTopLeftMargin + ⟨4, 4 + 16⟩, ⟨8 * kColumns, 16 * (kRows - 1)⟩⟩,
    .fillRectangle ⟨4, 4 + 16 * cursor.y⟩ ⟨8 * kColumns, 16⟩]

/-- The new line in `Terminal::Print`. -/
def newline (cursor : Vector2D) : Vector2D × List Drawing :=
  if cursor.y < kRows - 1 then (⟨0, cursor.y + 1⟩, []) else (⟨0, cursor.y⟩, scroll1 ⟨0, cursor.y⟩)

/-- The new line that is due before a character. -/
def wrap (due : Bool) (cursor : Vector2D) : Vector2D × List Drawing :=
  if due then newline cursor else (cursor, [])

/-- `Terminal::Print`, for one character, with a window. -/
def printChar (cursor : Vector2D) (c : Nat) : Vector2D × List Drawing :=
  if c = 0x0a then newline cursor
  else if isHankaku c then
    let (cursor, drawn) := wrap (cursor.x = kColumns) cursor
    (⟨cursor.x + 1, cursor.y⟩, drawn ++ [.writeUnicode cursor c])
  else
    let (cursor, drawn) := wrap (cursor.x = kColumns - 1) cursor
    (⟨cursor.x + 2, cursor.y⟩, drawn ++ [.writeUnicode cursor c])

/-- The cursor after some characters. -/
def cursorAfter (cursor : Vector2D) (cs : List Nat) : Vector2D :=
  cs.foldl (fun cursor c => (printChar cursor c).1) cursor

/-- The columns that a character takes. -/
def width (c : Nat) : Int :=
  if isHankaku c then 1 else 2

/-- The cursor is in the area, or behind the last column. -/
def InTextArea (cursor : Vector2D) : Prop :=
  0 ≤ cursor.x ∧ cursor.x ≤ kColumns ∧ 0 ≤ cursor.y ∧ cursor.y < kRows

instance (cursor : Vector2D) : Decidable (InTextArea cursor) :=
  inferInstanceAs (Decidable (_ ∧ _ ∧ _ ∧ _))

/-- Glyphs are drawn in the columns of the area. -/
def Fits (drawn : List Drawing) : Prop :=
  ∀ cursor c, .writeUnicode cursor c ∈ drawn → cursor.x + width c ≤ kColumns

/-- While the characters are printed, the cursor stays in the area, and all glyphs. -/
structure StaysInside (cursor : Vector2D) (cs : List Nat) : Prop where
  area : ∀ done rest, cs = done ++ rest → InTextArea (cursorAfter cursor done)
  fits : ∀ done c rest, cs = done ++ c :: rest → Fits (printChar (cursorAfter cursor done) c).2

/-- No full-width character comes when the cursor is behind the last column. -/
def NeverLate (cursor : Vector2D) (cs : List Nat) : Prop :=
  ∀ done c rest, cs = done ++ c :: rest →
    (cursorAfter cursor done).x = kColumns → isHankaku c

/-! ## One character -/

theorem newline_inTextArea {cursor : Vector2D} (inArea : InTextArea cursor) :
    InTextArea (newline cursor).1 := by
  rw [newline]
  split
  · simp only [InTextArea, kColumns, kRows] at *
    omega
  · simp only [InTextArea, kColumns, kRows] at *
    omega

theorem newline_x (cursor : Vector2D) : (newline cursor).1.x = 0 := by
  rw [newline]
  split <;> rfl

theorem newline_fits (cursor : Vector2D) : Fits (newline cursor).2 := by
  intro at' c drawn
  rw [newline] at drawn
  split at drawn
  · cases drawn
  · simp [scroll1] at drawn

/-- Before a character that is drawn, the cursor is in the area, and at column 0 if a new
line was due. -/
theorem wrap_inTextArea {due : Bool} {cursor : Vector2D} (inArea : InTextArea cursor) :
    InTextArea (wrap due cursor).1 ∧
      (wrap due cursor).1.x = if due then 0 else cursor.x := by
  cases due with
  | false => exact ⟨inArea, rfl⟩
  | true => exact ⟨newline_inTextArea inArea, newline_x cursor⟩

theorem wrap_fits (due : Bool) (cursor : Vector2D) : Fits (wrap due cursor).2 := by
  cases due with
  | false => exact fun _ _ drawn => absurd drawn List.not_mem_nil
  | true => exact newline_fits cursor

theorem fits_concat {drawn : List Drawing} {cursor : Vector2D} {c : Nat} :
    Fits (drawn ++ [.writeUnicode cursor c]) ↔ Fits drawn ∧ cursor.x + width c ≤ kColumns := by
  constructor
  · intro fits
    exact ⟨fun at' c' member => fits at' c' (List.mem_append_left _ member),
      fits cursor c (List.mem_append_right _ (List.mem_singleton_self _))⟩
  · rintro ⟨fits, last⟩ at' c' member
    rcases List.mem_append.mp member with member | member
    · exact fits at' c' member
    · cases List.mem_singleton.mp member
      exact last

/-- What is drawn when there is room for the character. -/
theorem advance_inside {cursor : Vector2D} {drawn : List Drawing} {c : Nat}
    (inArea : InTextArea cursor) (room : cursor.x + width c ≤ kColumns) (fits : Fits drawn) :
    InTextArea ⟨cursor.x + width c, cursor.y⟩ ∧ Fits (drawn ++ [.writeUnicode cursor c]) := by
  rcases inArea with ⟨left, -, top, bottom⟩
  have positive : 0 ≤ width c := by
    rw [width]
    split <;> decide
  exact ⟨⟨Int.add_nonneg left positive, room, top, bottom⟩, fits_concat.mpr ⟨fits, room⟩⟩

/-- A character stays in the area, unless it is a full-width character that comes late. -/
theorem printChar_inside {cursor : Vector2D} {c : Nat} (inArea : InTextArea cursor)
    (inTime : cursor.x = kColumns → isHankaku c) :
    InTextArea (printChar cursor c).1 ∧ Fits (printChar cursor c).2 := by
  rw [printChar]
  split
  · exact ⟨newline_inTextArea inArea, newline_fits cursor⟩
  have upper := inArea.2.1
  split
  · rename_i hankaku
    have oneColumn : width c = 1 := if_pos hankaku
    rcases @wrap_inTextArea (cursor.x = kColumns) cursor inArea with ⟨inArea', column⟩
    have room : (wrap (cursor.x = kColumns) cursor).1.x + width c ≤ kColumns := by
      rw [column, oneColumn]
      split
      · decide
      · rename_i notDue
        rw [decide_eq_true_eq] at notDue
        omega
    have inside := advance_inside inArea' room (wrap_fits (cursor.x = kColumns) cursor)
    rw [oneColumn] at inside
    exact inside
  · rename_i zenkaku
    have twoColumns : width c = 2 := if_neg zenkaku
    have notAtEdge : cursor.x ≠ kColumns := fun atEdge => zenkaku (inTime atEdge)
    rcases @wrap_inTextArea (cursor.x = kColumns - 1) cursor inArea with ⟨inArea', column⟩
    have room : (wrap (cursor.x = kColumns - 1) cursor).1.x + width c ≤ kColumns := by
      rw [column, twoColumns]
      split
      · decide
      · rename_i notDue
        rw [decide_eq_true_eq] at notDue
        omega
    have inside := advance_inside inArea' room (wrap_fits (cursor.x = kColumns - 1) cursor)
    rw [twoColumns] at inside
    exact inside

/-- A full-width character that comes late is drawn outside of the area. -/
theorem printChar_late {cursor : Vector2D} {c : Nat} (atEdge : cursor.x = kColumns)
    (zenkaku : ¬ isHankaku c) : ¬ Fits (printChar cursor c).2 := by
  have notNewline : c ≠ 0x0a := by
    rintro rfl
    exact zenkaku rfl
  have notDue : decide (cursor.x = kColumns - 1) = false := by
    rw [atEdge]
    rfl
  rw [printChar, if_neg notNewline, if_neg zenkaku, notDue]
  intro fits
  have last : cursor.x + width c ≤ kColumns := (fits_concat.mp fits).2
  rw [width, if_neg zenkaku] at last
  omega

/-- A glyph that fits is drawn inside of the margins of the window. -/
theorem calcCursorPos_inside {cursor : Vector2D} {c : Nat} (inArea : InTextArea cursor)
    (fits : cursor.x + width c ≤ kColumns) :
    (kTopLeftMargin.x + 4 ≤ (calcCursorPos cursor).x ∧
      (calcCursorPos cursor).x + 8 * width c ≤ kTopLeftMargin.x + 4 + 8 * kColumns) ∧
      kTopLeftMargin.y + 4 ≤ (calcCursorPos cursor).y ∧
        (calcCursorPos cursor).y + 16 ≤ kTopLeftMargin.y + 4 + 16 * kRows := by
  have column : (calcCursorPos cursor).x = kTopLeftMargin.x + (4 + 8 * cursor.x) := rfl
  have row : (calcCursorPos cursor).y = kTopLeftMargin.y + (4 + 16 * cursor.y) := rfl
  rcases inArea with ⟨left, -, top, bottom⟩
  rw [column, row]
  omega

/-! ## Runs -/

theorem cursorAfter_concat (cursor : Vector2D) (done : List Nat) (c : Nat) :
    cursorAfter cursor (done ++ [c]) = (printChar (cursorAfter cursor done) c).1 := by
  rw [cursorAfter, List.foldl_append]
  rfl

/-- As long as no full-width character comes late, the cursor stays in the area. -/
theorem cursorAfter_inTextArea {cursor : Vector2D} {cs : List Nat} (inArea : InTextArea cursor)
    (neverLate : NeverLate cursor cs) {done : List Nat} (isPrefix : done <+: cs) :
    InTextArea (cursorAfter cursor done) := by
  induction done using List.reverseRecOn with
  | nil => exact inArea
  | append_singleton done c ih =>
      rcases isPrefix with ⟨rest, all⟩
      rw [List.append_assoc, List.singleton_append] at all
      rw [cursorAfter_concat]
      exact (printChar_inside (ih ⟨_, all⟩) (neverLate done c rest all.symm)).1

/-- Terminal output stays in the text area exactly if no full-width character comes when the
cursor is behind the last column. -/
theorem staysInside_iff {cursor : Vector2D} (inArea : InTextArea cursor) (cs : List Nat) :
    StaysInside cursor cs ↔ NeverLate cursor cs := by
  constructor
  · intro stays done c rest all atEdge
    by_contra zenkaku
    exact printChar_late atEdge zenkaku (stays.fits done c rest all)
  · intro neverLate
    constructor
    · intro done rest all
      exact cursorAfter_inTextArea inArea neverLate ⟨rest, all.symm⟩
    · intro done c rest all
      have before := cursorAfter_inTextArea inArea neverLate ⟨c :: rest, all.symm⟩
      exact (printChar_inside before (neverLate done c rest all)).2

/-- Half-width characters alone never come late. -/
theorem staysInside_prompt : StaysInside ⟨0, 0⟩ [0x3e] := by
  refine (staysInside_iff (by decide) _).mpr ?_
  intro done c rest all _
  have member : c ∈ [0x3e] := all ▸ List.mem_append_right _ List.mem_cons_self
  rw [List.mem_singleton.mp member]
  rfl

/-- A full-width character behind a full row. -/
theorem not_staysInside_fullRow :
    ¬ StaysInside ⟨0, 0⟩ (List.replicate 60 0x61 ++ [0x3042]) := by
  intro stays
  have atEdge : (cursorAfter ⟨0, 0⟩ (List.replicate 60 0x61)).x = kColumns := by decide +kernel
  exact printChar_late atEdge (by decide) (stays.fits _ _ [] rfl)

end Mikanos.Terminal
