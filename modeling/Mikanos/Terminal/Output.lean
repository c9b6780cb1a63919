import Mikanos.Memory.Reading
import Mikanos.Screen.Font
import Mathlib.Data.List.GetD

/-!
# Text output

`Terminal::Print` and `WriteString` go through a string by the lengths that the first bytes of
its characters announce.  What they have to do with one character does not look at the string, so
that the result of the loops are the characters.  They come to an end inside of the string exactly
if its bytes divide into sequences as announced, and `Terminal::Print` looks at the byte behind the
last character before it compares its index with the length.
-/

namespace Mikanos.Terminal

open Memory Screen

/-- A character that is read from a string. -/
abbrev TextReading :=
  Reading Nat Empty

section

variable (char : Nat → UInt8)

/-- The character `u8[i]`. -/
def byteAt (i : Nat) : TextReading UInt8 :=
  Reading.read char i

/-- The bits of a byte that does not begin a character. -/
def following (c : UInt8) : Nat :=
  c.toNat % 2 ^ 6

/-- `ConvertUTF8To32`, at an index: the code point, and the number of bytes. -/
def convertUTF8To32 (i : Nat) : TextReading (Nat × Nat) := do
  let u8 ← byteAt char i
  match countUTF8Size u8 with
  | 1 => return (u8.toNat, 1)
  | 2 =>
      let u8₁ ← byteAt char (i + 1)
      return (u8.toNat % 2 ^ 5 * 2 ^ 6 + following u8₁, 2)
  | 3 =>
      let u8₁ ← byteAt char (i + 1)
      let u8₂ ← byteAt char (i + 2)
      return (u8.toNat % 2 ^ 4 * 2 ^ 12 + following u8₁ * 2 ^ 6 + following u8₂, 3)
  | 4 =>
      let u8₁ ← byteAt char (i + 1)
      let u8₂ ← byteAt char (i + 2)
      let u8₃ ← byteAt char (i + 3)
      return (u8.toNat % 2 ^ 3 * 2 ^ 18 + following u8₁ * 2 ^ 12 + following u8₂ * 2 ^ 6 +
        following u8₃, 4)
  | _ => return (0, 0)

/-- The loop of `Terminal::Print`, from an index on: the characters that it prints. -/
def printLoop (len : Option Nat) : (rounds i : Nat) → TextReading (List Nat)
  | 0, _ => Reading.pending
  | rounds + 1, i => do
      let c ← byteAt char i
      if c = 0 ∨ ¬ len.all (i < ·) then return []
      let (u32, bytes) ← convertUTF8To32 char i
      let printed ← printLoop len rounds (i + bytes)
      return u32 :: printed

/-- `Terminal::Print`, for a string and the length that is given. -/
def print (len : Option Nat) (rounds : Nat) : TextReading (List Nat) :=
  printLoop char len rounds 0

/-- The loop of `WriteString`: the characters, and the columns at which it draws them. -/
def writeStringLoop : (rounds s x : Nat) → TextReading (List (Nat × Nat))
  | 0, _, _ => Reading.pending
  | rounds + 1, s, x => do
      let c ← byteAt char s
      if c = 0 then return []
      let (u32, bytes) ← convertUTF8To32 char s
      let drawn ← writeStringLoop rounds (s + bytes) (x + if isHankaku u32 then 1 else 2)
      return (u32, x) :: drawn

/-- `WriteString`. -/
def writeString (rounds : Nat) : TextReading (List (Nat × Nat)) :=
  writeStringLoop char rounds 0 0

end

/-! ## Strings -/

/-- A string, and the NUL behind it. -/
structure TextAt (char : Nat → UInt8) (text : List UInt8) : Prop where
  chars : ∀ i (inText : i < text.length), char i = text[i]
  ends : char text.length = 0
  noNul : 0 ∉ text

/-- The bytes divide into sequences as their first bytes announce. -/
inductive Divides : List UInt8 → Prop
  | nil : Divides []
  | sequence (lead : UInt8) (follow rest : List UInt8) :
      countUTF8Size lead = follow.length + 1 → Divides rest → Divides (lead :: follow ++ rest)

/-- What may be read: the string with its NUL, and nothing beyond the length. -/
def Readable (text : List UInt8) (len : Option Nat) (i : Nat) : Prop :=
  i ≤ text.length ∧ ∀ l ∈ len, i < l

/-- The computation ends, and reads only what it may. -/
def FinishesInside {α : Type} (text : List UInt8) (len : Option Nat)
    (loop : Nat → TextReading α) : Prop :=
  ∃ enough result, ∀ rounds, enough ≤ rounds → (loop rounds).Yields (Readable text len) result

/-- Both functions end, and read only what they may. -/
def PrintsInside (char : Nat → UInt8) (text : List UInt8) (len : Option Nat) : Prop :=
  FinishesInside text len (print char len) ∧ FinishesInside text none (writeString char)

/-! ## Reading one character -/

section

variable {char : Nat → UInt8} {readable : Nat → Prop}

@[simp]
theorem yields_byteAt {i : Nat} {c : UInt8} :
    (byteAt char i).Yields readable c ↔ readable i ∧ c = char i :=
  Reading.yields_read

/-- How many bytes `ConvertUTF8To32` looks at. -/
def lookedAt (lead : UInt8) : Nat :=
  max 1 (countUTF8Size lead)

/-- The code point that `ConvertUTF8To32` returns. -/
def codePoint (char : Nat → UInt8) (i : Nat) : Nat :=
  (Screen.convertUTF8To32 (fun j => char (i + j)) 0).1

theorem countUTF8Size_le (c : UInt8) : countUTF8Size c ≤ 4 := by
  rw [countUTF8Size]
  split_ifs <;> decide

theorem yields_convertUTF8To32 {i : Nat} {r : Nat × Nat} :
    (convertUTF8To32 char i).Yields readable r ↔
      (∀ j < lookedAt (char i), readable (i + j)) ∧ r = (codePoint char i, countUTF8Size (char i)) := by
  have bytes (j : Nat) (small : j < 4) : charAt (fun j => char (i + j)) 0 j = char (i + j) := by
    rw [charAt, Nat.zero_add, Nat.mod_eq_of_lt (by omega)]
  have bound := countUTF8Size_le (char i)
  rw [convertUTF8To32, Reading.yields_bind_of fun _ => yields_byteAt, lookedAt, codePoint,
    Screen.convertUTF8To32]
  simp only [bytes 0 (by decide), bytes 1 (by decide), bytes 2 (by decide), bytes 3 (by decide),
    Nat.add_zero]
  generalize countUTF8Size (char i) = size at bound ⊢
  have all (n : Nat) : (∀ j < n + 1, readable (i + j)) ↔ (∀ j < n, readable (i + j)) ∧ readable (i + n) :=
    Nat.forall_lt_succ_right
  have two : (∀ j ≤ 1, readable (i + j)) ↔ readable i ∧ readable (i + 1) := by
    simpa [Nat.lt_succ_iff] using all 1
  have sizes : size = 0 ∨ size = 1 ∨ size = 2 ∨ size = 3 ∨ size = 4 := by omega
  rcases sizes with rfl | rfl | rfl | rfl | rfl
  all_goals simp [all, two, following, and_assoc]

end

/-! ## One round -/

section

variable {char : Nat → UInt8} {readable : Nat → Prop}

/-- One round of the loop of `Terminal::Print`. -/
theorem yields_printLoop_succ {len : Option Nat} {rounds i : Nat} {printed : List Nat} :
    (printLoop char len (rounds + 1) i).Yields readable printed ↔
      readable i ∧
        ((char i = 0 ∨ ¬ len.all (i < ·)) ∧ printed = [] ∨
          ¬ (char i = 0 ∨ ¬ len.all (i < ·)) ∧ (∀ j < lookedAt (char i), readable (i + j)) ∧
            ∃ rest, (printLoop char len rounds (i + countUTF8Size (char i))).Yields readable rest ∧
              printed = codePoint char i :: rest) := by
  rw [printLoop, Reading.yields_bind_of fun _ => yields_byteAt]
  refine and_congr_right fun _ => ?_
  split
  · rename_i stops
    rw [Reading.yields_pure]
    exact ⟨fun nothing => Or.inl ⟨stops, nothing⟩,
      fun cases => cases.elim And.right fun goesOn => absurd stops goesOn.1⟩
  · rename_i goesOn
    rw [Reading.yields_bind_of fun _ => yields_convertUTF8To32]
    simp only [goesOn, Reading.yields_bind, Reading.yields_pure, not_false_eq_true, true_and,
      false_and, false_or]

/-- One round of the loop of `WriteString`. -/
theorem yields_writeStringLoop_succ {rounds s x : Nat} {drawn : List (Nat × Nat)} :
    (writeStringLoop char (rounds + 1) s x).Yields readable drawn ↔
      readable s ∧
        (char s = 0 ∧ drawn = [] ∨
          char s ≠ 0 ∧ (∀ j < lookedAt (char s), readable (s + j)) ∧
            ∃ rest, (writeStringLoop char rounds (s + countUTF8Size (char s))
                (x + if isHankaku (codePoint char s) then 1 else 2)).Yields readable rest ∧
              drawn = (codePoint char s, x) :: rest) := by
  rw [writeStringLoop, Reading.yields_bind_of fun _ => yields_byteAt]
  refine and_congr_right fun _ => ?_
  split
  · rename_i stops
    simp [stops]
  · rename_i goesOn
    rw [Reading.yields_bind_of fun _ => yields_convertUTF8To32]
    simp [goesOn]

/-- The columns at which characters are drawn, one behind the other. -/
def columns : (x : Nat) → List Nat → List (Nat × Nat)
  | _, [] => []
  | x, u32 :: rest => (u32, x) :: columns (x + if isHankaku u32 then 1 else 2) rest

/-- `WriteString` reads what `Terminal::Print` reads when there is no length. -/
theorem yields_writeStringLoop {rounds s x : Nat} {drawn : List (Nat × Nat)} :
    (writeStringLoop char rounds s x).Yields readable drawn ↔
      ∃ printed, (printLoop char none rounds s).Yields readable printed ∧
        drawn = columns x printed := by
  induction rounds generalizing s x drawn with
  | zero => simp [writeStringLoop, printLoop]
  | succ rounds ih =>
      rw [yields_writeStringLoop_succ]
      simp only [yields_printLoop_succ, ih]
      constructor
      · rintro ⟨allowed, ⟨atEnd, rfl⟩ | ⟨goesOn, looked, _, ⟨rest, later, rfl⟩, rfl⟩⟩
        · exact ⟨[], ⟨allowed, Or.inl ⟨Or.inl atEnd, rfl⟩⟩, rfl⟩
        · refine ⟨_ :: rest, ⟨allowed, Or.inr ⟨?_, looked, rest, later, rfl⟩⟩, rfl⟩
          simp [goesOn]
      · rintro ⟨printed, ⟨allowed, ⟨stops, rfl⟩ | ⟨goesOn, looked, rest, later, rfl⟩⟩, rfl⟩
        · have atEnd : char s = 0 := by simpa using stops
          exact ⟨allowed, Or.inl ⟨atEnd, rfl⟩⟩
        · have notAtEnd : char s ≠ 0 := fun atEnd => goesOn (Or.inl atEnd)
          exact ⟨allowed, Or.inr ⟨notAtEnd, looked, _, ⟨rest, later, rfl⟩, rfl⟩⟩

end

/-! ## Whole strings -/

section

variable {char : Nat → UInt8} {text : List UInt8} {len : Option Nat}

theorem TextAt.eq_zero_iff (textAt : TextAt char text) {i : Nat} (inside : i ≤ text.length) :
    char i = 0 ↔ i = text.length := by
  constructor
  · intro zero
    by_contra notEnd
    have inText : i < text.length := by omega
    rw [textAt.chars i inText] at zero
    exact textAt.noNul (zero ▸ List.getElem_mem inText)
  · rintro rfl
    exact textAt.ends

theorem take_append_drop_behind (text : List UInt8) (i : Nat) {size : Nat} (positive : 0 < size) :
    (text.drop (i + 1)).take (size - 1) ++ text.drop (i + size) = text.drop (i + 1) := by
  have later : text.drop (i + size) = (text.drop (i + 1)).drop (size - 1) := by
    rw [List.drop_drop]
    congr 1
    omega
  rw [later, List.take_append_drop]

/-- From what is read follows that the bytes divide into sequences. -/
theorem divides_of_yields (textAt : TextAt char text) {rounds i : Nat} {printed : List Nat}
    (yields : (printLoop char len rounds i).Yields (Readable text len) printed) :
    i ≤ text.length ∧ Divides (text.drop i) ∧ ∀ l ∈ len, text.length < l := by
  induction rounds generalizing i printed with
  | zero => exact absurd yields Reading.not_yields_pending
  | succ rounds ih =>
      rcases yields_printLoop_succ.mp yields with
        ⟨⟨inside, below⟩, ⟨stops, -⟩ | ⟨goesOn, -, rest, later, -⟩⟩
      · have fits : len.all (i < ·) = true := by
          rw [Option.all_eq_true]
          exact fun l member => decide_eq_true (below l member)
        have atEnd : i = text.length := by
          rw [← textAt.eq_zero_iff inside]
          exact stops.resolve_right (not_not.mpr fits)
        subst atEnd
        rw [List.drop_length]
        exact ⟨le_rfl, Divides.nil, below⟩
      · rcases ih later with ⟨inside', divides, bounded⟩
        refine ⟨inside, ?_, bounded⟩
        by_cases noBytes : countUTF8Size (char i) = 0
        · rwa [noBytes] at divides
        · have inText : i < text.length := by omega
          have follow : ((text.drop (i + 1)).take (countUTF8Size (char i) - 1)).length + 1 =
              countUTF8Size (char i) := by
            rw [List.length_take, List.length_drop]
            omega
          have sequence := Divides.sequence (char i) _ _ follow.symm divides
          rw [List.cons_append, take_append_drop_behind text i (by omega)] at sequence
          rwa [List.drop_eq_getElem_cons inText, ← textAt.chars i inText]

/-- A string whose bytes divide into sequences is read, and nothing else. -/
theorem yields_of_divides (textAt : TextAt char text) {i : Nat} (inside : i ≤ text.length)
    {rest : List UInt8} (divides : Divides rest) (isRest : text.drop i = rest)
    (bounded : ∀ l ∈ len, text.length < l) :
    ∃ enough printed, ∀ rounds, enough ≤ rounds →
      (printLoop char len rounds i).Yields (Readable text len) printed := by
  have readable (j : Nat) (le : j ≤ text.length) : Readable text len j :=
    ⟨le, fun l member => le.trans_lt (bounded l member)⟩
  induction divides generalizing i with
  | nil =>
      have atEnd : i = text.length := le_antisymm inside (List.drop_eq_nil_iff.mp isRest)
      have zero : char i = 0 := (textAt.eq_zero_iff inside).mpr atEnd
      refine ⟨1, [], fun rounds positive => ?_⟩
      rcases Nat.exists_eq_add_of_le' positive with ⟨rounds, rfl⟩
      exact yields_printLoop_succ.mpr ⟨readable i inside, Or.inl ⟨Or.inl zero, rfl⟩⟩
  | sequence lead follow rest size divides ih =>
      have count := congrArg List.length isRest
      rw [List.length_drop, List.length_append, List.length_cons] at count
      have inText : i < text.length := by omega
      rw [List.drop_eq_getElem_cons inText, ← textAt.chars i inText, List.cons_append] at isRest
      rcases List.cons_eq_cons.mp isRest with ⟨isLead, isFollow⟩
      have later : text.drop (i + countUTF8Size (char i)) = rest := by
        rw [isLead, size, Nat.add_comm follow.length, ← Nat.add_assoc, ← List.drop_drop, isFollow,
          List.drop_left]
      rw [← isLead] at size
      rcases ih (by omega) later with ⟨enough, printed, ends⟩
      refine ⟨enough + 1, codePoint char i :: printed, fun rounds le => ?_⟩
      rcases Nat.exists_eq_add_of_le' (Nat.le_of_add_left_le le) with ⟨rounds, rfl⟩
      have goesOn : ¬ (char i = 0 ∨ ¬ len.all (i < ·) = true) := by
        rw [textAt.eq_zero_iff inside, not_or, not_not, Option.all_eq_true]
        exact ⟨by omega, fun l member => decide_eq_true (inText.trans (bounded l member))⟩
      refine yields_printLoop_succ.mpr ⟨readable i inside, Or.inr ⟨goesOn, ?_, printed, ?_, rfl⟩⟩
      · intro j looked
        rw [lookedAt, size] at looked
        exact readable (i + j) (by omega)
      · exact ends rounds (by omega)

/-- `Terminal::Print` ends inside of the string exactly if its bytes divide into sequences, and
the length is beyond the NUL. -/
theorem print_finishesInside_iff (textAt : TextAt char text) (len : Option Nat) :
    FinishesInside text len (print char len) ↔ Divides text ∧ ∀ l ∈ len, text.length < l := by
  constructor
  · rintro ⟨enough, printed, ends⟩
    exact (divides_of_yields textAt (ends enough le_rfl)).2
  · rintro ⟨divides, bounded⟩
    exact yields_of_divides textAt (Nat.zero_le _) divides rfl bounded

theorem writeString_finishesInside_iff (textAt : TextAt char text) :
    FinishesInside text none (writeString char) ↔ Divides text := by
  have same : FinishesInside text none (writeString char) ↔
      FinishesInside text none (print char none) := by
    constructor
    · rintro ⟨enough, drawn, ends⟩
      rcases yields_writeStringLoop.mp (ends enough le_rfl) with ⟨printed, yields, -⟩
      have divides := (divides_of_yields textAt yields).2
      exact (print_finishesInside_iff textAt none).mpr divides
    · rintro ⟨enough, printed, ends⟩
      exact ⟨enough, columns 0 printed, fun rounds le =>
        yields_writeStringLoop.mpr ⟨printed, ends rounds le, rfl⟩⟩
  rw [same, print_finishesInside_iff textAt]
  simp

/-- Text output ends inside of its string exactly if the bytes of the string divide into sequences,
and the length, if there is one, is beyond the NUL. -/
theorem printsInside_iff (textAt : TextAt char text) (len : Option Nat) :
    PrintsInside char text len ↔ Divides text ∧ ∀ l ∈ len, text.length < l := by
  rw [PrintsInside, print_finishesInside_iff textAt, writeString_finishesInside_iff textAt]
  tauto

end

theorem textAt_getD {text : List UInt8} (noNul : 0 ∉ text) : TextAt (text.getD · 0) text where
  chars _ inText := List.getD_eq_getElem _ _ inText
  ends := List.getD_eq_default _ _ le_rfl
  noNul := noNul

/-- A hiragana letter, with a length that is beyond the NUL. -/
theorem printsInside_hiragana :
    PrintsInside ([0xe3, 0x81, 0x82].getD · 0) [0xe3, 0x81, 0x82] (some 4) := by
  have divides : Divides [0xe3, 0x81, 0x82] :=
    Divides.sequence 0xe3 [0x81, 0x82] [] (by decide) Divides.nil
  exact (printsInside_iff (textAt_getD (by decide)) (some 4)).mpr ⟨divides, by decide⟩

theorem Divides.countUTF8Size_ne_zero {lead : UInt8} {rest : List UInt8}
    (divides : Divides (lead :: rest)) : countUTF8Size lead ≠ 0 := by
  generalize isText : lead :: rest = text at divides
  cases divides with
  | nil => cases isText
  | sequence lead' follow rest' size _ =>
      cases isText
      rw [size]
      exact Nat.succ_ne_zero _

/-- A byte that continues a character, without the first byte of one, is printed for ever. -/
theorem not_printsInside_continuation :
    TextAt ([0x80].getD · 0) [0x80] ∧ ¬ PrintsInside ([0x80].getD · 0) [0x80] none := by
  have textAt : TextAt ([0x80].getD · 0) [0x80] := textAt_getD (by decide)
  refine ⟨textAt, fun inside => ?_⟩
  have divides := ((print_finishesInside_iff textAt none).mp inside.1).1
  exact divides.countUTF8Size_ne_zero (by decide)

end Mikanos.Terminal
