import Mikanos.Terminal.ArgVector
import Mikanos.Terminal.CommandPointers
import Mikanos.Terminal.TextArea
import Mikanos.Transition.Run

/-!
# The line editor

`InputKey` edits a line in `linebuf_`, up to `linebuf_index_`, and keeps the last lines in
`cmd_history_`.  Terminal output moves the cursor, on which it depends whether a key has an effect.
All that the editor reads of its arrays ends with a NUL, and the part that is edited has none.
-/

namespace Mikanos.Terminal

open Memory Screen

def kLineMax : Nat := 128

/-- The members of a `Terminal` that are used to edit lines. -/
structure LineEditor where
  cursor : Vector2D
  linebufIndex : Int
  linebuf : List UInt8
  cmdHistory : List (List UInt8)
  cmdHistoryIndex : Int

/-- What `ExecuteLine` does to the members: it writes NULs to the line buffer, and moves the cursor by
what is printed. -/
structure Execution where
  cuts : List Nat
  cursor : Vector2D

/-- What happens at a terminal. -/
inductive TerminalInput
  /-- `InputKey`; the execution is that of the line, if there is one -/
  | key (keycode ascii : UInt8) (execution : Execution)
  /-- something is printed -/
  | output (cursor : Vector2D)

/-- The terminal afterwards, the indices of `linebuf_` that have been written to, and the line that
has been executed. -/
structure InputResult where
  editor : LineEditor
  writes : List Int
  executed : Option (List UInt8)

namespace LineEditor

/-- A terminal after its constructor. -/
def initial : LineEditor where
  cursor := ⟨1, 0⟩
  linebufIndex := 0
  linebuf := List.replicate kLineMax 0
  cmdHistory := List.replicate 8 (List.replicate kLineMax 0)
  cmdHistoryIndex := -1

variable (s : LineEditor)

/-- `linebuf_[linebuf_index_] = c`. -/
def store (c : UInt8) : List UInt8 :=
  s.linebuf.set s.linebufIndex.toNat c

/-- The new line in `InputKey`: the line is kept in the history and executed. -/
def enter (execution : Execution) : InputResult :=
  let linebuf := s.store 0
  { editor :=
      { cursor := execution.cursor
        linebufIndex := 0
        linebuf := writeNuls execution.cuts linebuf
        cmdHistory := if s.linebufIndex > 0 then linebuf :: s.cmdHistory.dropLast else s.cmdHistory
        cmdHistoryIndex := -1 }
    writes := s.linebufIndex :: execution.cuts.map Int.ofNat
    executed := some (cstring linebuf) }

/-- The backspace in `InputKey`. -/
def backspace : LineEditor :=
  if s.cursor.x > 1 then
    { s with
      cursor := ⟨s.cursor.x - 1, s.cursor.y⟩
      linebufIndex := if s.linebufIndex > 0 then s.linebufIndex - 1 else s.linebufIndex }
  else s

/-- The other characters in `InputKey`. -/
def type (ascii : UInt8) : InputResult :=
  if s.cursor.x < kColumns - 1 ∧ s.linebufIndex < kLineMax - 1 then
    { editor :=
        { s with
          linebuf := s.store ascii
          linebufIndex := s.linebufIndex + 1
          cursor := ⟨s.cursor.x + 1, s.cursor.y⟩ }
      writes := [s.linebufIndex]
      executed := none }
  else ⟨s, [], none⟩

/-- The index that `HistoryUpDown` goes to.  It is compared with a size, so that it is taken for
an unsigned number. -/
def historyIndex (direction : Int) : Int :=
  if direction = -1 ∧ s.cmdHistoryIndex ≥ 0 then s.cmdHistoryIndex - 1
  else if direction = 1 ∧ (s.cmdHistoryIndex + 1) % 2 ^ 64 < s.cmdHistory.length then
    s.cmdHistoryIndex + 1
  else s.cmdHistoryIndex

/-- The line that `HistoryUpDown` shows. -/
def history (direction : Int) : List UInt8 :=
  let index := s.historyIndex direction
  if index ≥ 0 then cstring (s.cmdHistory.getD index.toNat []) else []

/-- `HistoryUpDown`. -/
def historyUpDown (direction : Int) : InputResult :=
  let history := s.history direction
  { editor :=
      { s with
        cmdHistoryIndex := s.historyIndex direction
        linebuf := history ++ 0 :: s.linebuf.drop (history.length + 1)
        linebufIndex := history.length
        cursor := ⟨history.length + 1, s.cursor.y⟩ }
    writes := (List.range (history.length + 1)).map Int.ofNat
    executed := none }

/-- `InputKey`, or output. -/
def step : TerminalInput → InputResult
  | .output cursor => ⟨{ s with cursor }, [], none⟩
  | .key keycode ascii execution =>
      if ascii = 0x0a then s.enter execution
      else if ascii = 0x08 then ⟨s.backspace, [], none⟩
      else if ascii ≠ 0 then s.type ascii
      else if keycode = 0x51 then s.historyUpDown (-1)
      else if keycode = 0x52 then s.historyUpDown 1
      else ⟨s, [], none⟩

/-! ## What holds between keys -/

/-- The part of the buffer that is edited. -/
def editBuffer : List UInt8 :=
  s.linebuf.take s.linebufIndex.toNat

/-- An array with a string in it. -/
def IsLine (line : List UInt8) : Prop :=
  line.length = kLineMax ∧ 0 ∈ line

/-- The indices are in range, and the arrays hold strings. -/
structure Inv : Prop where
  index : 0 ≤ s.linebufIndex ∧ s.linebufIndex ≤ kLineMax - 1
  historyIndex : -1 ≤ s.cmdHistoryIndex ∧ s.cmdHistoryIndex < s.cmdHistory.length
  size : s.linebuf.length = kLineMax
  entries : s.cmdHistory.length = 8 ∧ ∀ line ∈ s.cmdHistory, IsLine line
  noNul : 0 ∉ s.editBuffer

/-- What can happen: NULs are only written to the line that is executed. -/
def Allows : TerminalInput → Prop
  | .output _ => True
  | .key _ ascii execution =>
      ascii = 0x0a → ∀ i ∈ execution.cuts, i ≤ (cstring (s.store 0)).length

/-- The steps of a terminal. -/
def Steps : Transition.Step LineEditor TerminalInput :=
  Transition.guarded (fun s input s' => s' = (s.step input).editor) Allows

/-- The writes to `linebuf_` are in range, and what is executed is what has been edited. -/
structure Behaves (result : InputResult) : Prop where
  writes : ∀ i ∈ result.writes, 0 ≤ i ∧ i < kLineMax
  executed : ∀ line ∈ result.executed, line = s.editBuffer

variable {s}

/-! ## One key -/

/-- Where a NUL is stored, the edited part ends. -/
theorem Inv.stringAt_store (inv : s.Inv) : StringAt (s.store 0) 0 s.editBuffer := by
  have inRange : s.linebufIndex.toNat < s.linebuf.length := by
    have index := inv.index
    rw [inv.size]
    omega
  refine ⟨⟨s.linebuf.drop (s.linebufIndex.toNat + 1), ?_⟩, inv.noNul⟩
  rw [store, List.set_eq_take_append_cons_drop, if_pos inRange, editBuffer, List.drop_zero]

theorem Inv.length_editBuffer (inv : s.Inv) : s.editBuffer.length = s.linebufIndex.toNat := by
  have index := inv.index
  rw [editBuffer, List.length_take, inv.size]
  omega

theorem length_writeNuls (cuts : List Nat) (linebuf : List UInt8) :
    (writeNuls cuts linebuf).length = linebuf.length := by
  induction cuts generalizing linebuf with
  | nil => rfl
  | cons i cuts ih => rw [writeNuls, List.foldl_cons, ← writeNuls, ih, List.length_set]

theorem Inv.isLine_store (inv : s.Inv) : IsLine (s.store 0) := by
  constructor
  · rw [store, List.length_set, inv.size]
  · rcases inv.stringAt_store.located with ⟨rest, located⟩
    rw [List.drop_zero] at located
    rw [located]
    exact List.mem_append_right _ List.mem_cons_self

/-- The history when a line has been entered. -/
theorem Inv.entries_enter (inv : s.Inv) (execution : Execution) :
    (s.enter execution).editor.cmdHistory.length = 8 ∧
      ∀ line ∈ (s.enter execution).editor.cmdHistory, IsLine line := by
  rcases inv.entries with ⟨size, allLines⟩
  simp only [LineEditor.enter]
  split
  · rw [List.length_cons, List.length_dropLast, size]
    refine ⟨rfl, fun line member => ?_⟩
    rcases List.mem_cons.mp member with rfl | member
    · exact inv.isLine_store
    · exact allLines line (List.mem_of_mem_dropLast member)
  · exact ⟨size, allLines⟩

theorem Inv.enter (inv : s.Inv) {execution : Execution}
    (inLine : ∀ i ∈ execution.cuts, i ≤ (cstring (s.store 0)).length) :
    (s.enter execution).editor.Inv ∧ s.Behaves (s.enter execution) := by
  have isEdited : cstring (s.store 0) = s.editBuffer := inv.stringAt_store.cstring_drop
  have index := inv.index
  have entries := inv.entries_enter execution
  rw [isEdited, inv.length_editBuffer] at inLine
  constructor
  · refine ⟨⟨le_rfl, Int.le_of_lt (by decide : (0 : Int) < kLineMax - 1)⟩, ⟨le_rfl, ?_⟩, ?_, entries,
      List.not_mem_nil⟩
    · rw [entries.1]
      exact (by decide : (-1 : Int) < 8)
    · rw [LineEditor.enter, length_writeNuls, store, List.length_set, inv.size]
  · constructor
    · intro i member
      rcases List.mem_cons.mp member with rfl | member
      · omega
      · rcases List.mem_map.mp member with ⟨j, isCut, rfl⟩
        have le := inLine j isCut
        rw [Int.ofNat_eq_natCast]
        omega
    · rintro line ⟨⟩
      exact isEdited

theorem Inv.backspace (inv : s.Inv) : s.backspace.Inv := by
  have index := inv.index
  rw [LineEditor.backspace]
  split
  · have shorter (n : Int) (le : n ≤ s.linebufIndex) : 0 ∉ s.linebuf.take n.toNat := by
      intro zero
      exact inv.noNul (List.take_subset_take_left _ (by omega) zero)
    have bounds : 0 ≤ (if s.linebufIndex > 0 then s.linebufIndex - 1 else s.linebufIndex) ∧
        (if s.linebufIndex > 0 then s.linebufIndex - 1 else s.linebufIndex) ≤ s.linebufIndex := by
      split <;> omega
    exact ⟨⟨bounds.1, bounds.2.trans index.2⟩, inv.historyIndex, inv.size, inv.entries,
      shorter _ bounds.2⟩
  · exact inv

/-- A character at the end of the edited part. -/
theorem Inv.take_store (inv : s.Inv) (room : s.linebufIndex < kLineMax - 1) (ascii : UInt8) :
    (s.store ascii).take (s.linebufIndex + 1).toNat = s.editBuffer ++ [ascii] := by
  have index := inv.index
  have inRange : s.linebufIndex.toNat < s.linebuf.length := by
    rw [inv.size]
    omega
  have next : (s.linebufIndex + 1).toNat = s.linebufIndex.toNat + 1 := by omega
  have short : s.editBuffer.length = s.linebufIndex.toNat := inv.length_editBuffer
  rw [store, List.set_eq_take_append_cons_drop, if_pos inRange, next, List.append_cons]
  exact List.take_left' ((List.length_append).trans (congrArg (· + 1) short))

theorem Inv.type (inv : s.Inv) {ascii : UInt8} (notNul : ascii ≠ 0) :
    (s.type ascii).editor.Inv ∧ s.Behaves (s.type ascii) := by
  have index := inv.index
  rw [LineEditor.type]
  split
  · rename_i room
    have typed := inv.take_store room.2 ascii
    refine ⟨⟨⟨by simp only; omega, by simp only; omega⟩, inv.historyIndex, ?_, inv.entries, ?_⟩, ?_⟩
    · simp only [store, List.length_set]
      exact inv.size
    · rw [editBuffer, typed]
      intro zero
      rcases List.mem_append.mp zero with zero | zero
      · exact inv.noNul zero
      · exact notNul (List.mem_singleton.mp zero).symm
    · constructor
      · intro i member
        rw [List.mem_singleton.mp member]
        omega
      · exact nofun
  · exact ⟨inv, nofun, nofun⟩

theorem Inv.historyIndex_range (inv : s.Inv) (direction : Int) :
    -1 ≤ s.historyIndex direction ∧ s.historyIndex direction < s.cmdHistory.length := by
  have range := inv.historyIndex
  have size := inv.entries.1
  rw [LineEditor.historyIndex]
  split
  · omega
  split
  · omega
  · exact range

/-- A line of the history is a string that is shorter than the line buffer. -/
theorem Inv.history (inv : s.Inv) (direction : Int) :
    0 ∉ s.history direction ∧ (s.history direction).length < kLineMax := by
  have range := inv.historyIndex_range direction
  rw [LineEditor.history]
  split
  · have inHistory : (s.historyIndex direction).toNat < s.cmdHistory.length := by omega
    rw [List.getD_eq_getElem _ _ inHistory]
    rcases inv.entries.2 _ (List.getElem_mem inHistory) with ⟨size, terminated⟩
    have shorter := (stringAt_cstring terminated).lt_length
    exact ⟨noNul_cstring _, by omega⟩
  · exact ⟨List.not_mem_nil, by decide⟩

theorem Inv.historyUpDown (inv : s.Inv) (direction : Int) :
    (s.historyUpDown direction).editor.Inv ∧ s.Behaves (s.historyUpDown direction) := by
  rcases inv.history direction with ⟨noNul, short⟩
  rw [LineEditor.historyUpDown]
  generalize s.history direction = history at noNul short
  refine ⟨⟨⟨by simp only; omega, by simp only; omega⟩, inv.historyIndex_range direction, ?_,
    inv.entries, ?_⟩, ?_⟩
  · simp only [List.length_append, List.length_cons, List.length_drop, inv.size]
    omega
  · rw [editBuffer]
    simp only [Int.toNat_natCast, List.take_left]
    exact noNul
  · constructor
    · intro i member
      rcases List.mem_map.mp member with ⟨j, inRange, rfl⟩
      rw [List.mem_range] at inRange
      rw [Int.ofNat_eq_natCast]
      omega
    · exact nofun

/-- The invariant is kept by all that happens at a terminal. -/
theorem Inv.step (inv : s.Inv) {input : TerminalInput} (allowed : s.Allows input) :
    (s.step input).editor.Inv ∧ s.Behaves (s.step input) := by
  have unchanged : s.Inv ∧ s.Behaves ⟨s, [], none⟩ := ⟨inv, nofun, nofun⟩
  cases input with
  | output cursor => exact ⟨⟨inv.index, inv.historyIndex, inv.size, inv.entries, inv.noNul⟩, nofun, nofun⟩
  | key keycode ascii execution =>
      rw [LineEditor.step]
      split
      · rename_i isEnter
        exact inv.enter (allowed isEnter)
      split
      · exact ⟨inv.backspace, nofun, nofun⟩
      split
      · rename_i notNul
        exact inv.type notNul
      split
      · exact inv.historyUpDown (-1)
      split
      · exact inv.historyUpDown 1
      · exact unchanged

theorem inv_initial : initial.Inv := by
  have zeros : IsLine (List.replicate kLineMax 0) :=
    ⟨List.length_replicate, List.mem_replicate.mpr ⟨by decide, rfl⟩⟩
  refine ⟨⟨le_rfl, (by decide : (0 : Int) ≤ kLineMax - 1)⟩, ⟨le_rfl, ?_⟩, zeros.1,
    ⟨List.length_replicate, fun line member => ?_⟩, List.not_mem_nil⟩
  · exact (by decide : (-1 : Int) < 8)
  · rw [List.eq_of_mem_replicate member]
    exact zeros

/-- Whatever is typed and printed, the indices stay in range, all writes are in the line buffer, and
on Enter the edited line is executed. -/
theorem safe_of_run {inputs : List TerminalInput} {s : LineEditor}
    (run : Transition.Run Steps initial inputs s) :
    s.Inv ∧ ∀ input, s.Allows input → s.Behaves (s.step input) := by
  have inv : s.Inv := by
    refine run.invariant ?_ inv_initial
    rintro source input target inv ⟨allowed, rfl⟩
    exact (inv.step allowed).1
  exact ⟨inv, fun input allowed => (inv.step allowed).2⟩

/-- A key, and then Enter. -/
theorem safe_of_run_oneKey :
    let s := (initial.step (.key 4 0x61 ⟨[], ⟨0, 0⟩⟩)).editor
    s.Inv ∧ s.Behaves (s.step (.key 40 0x0a ⟨[], ⟨1, 2⟩⟩)) := by
  intro s
  have run : Transition.Run Steps initial [.key 4 0x61 ⟨[], ⟨0, 0⟩⟩] s :=
    Transition.Run.single ⟨fun isEnter => absurd isEnter (by decide), rfl⟩
  have safe := safe_of_run run
  exact ⟨safe.1, safe.2 _ fun _ i member => absurd member List.not_mem_nil⟩

end LineEditor

/-! ## The line that is executed -/

namespace LineBuffer

variable (b : LineBuffer)

/-- Where `ExecuteLine` writes NULs before the command. -/
def cuts : List Nat :=
  b.space.toList ++ b.redirChar.toList ++ b.pipeChar.toList

theorem cut₃_eq_writeNuls : b.cut₃ = writeNuls b.cuts b.bytes := by
  rw [cut₃, cut₂, cut₁, cuts, writeNuls, List.foldl_append, List.foldl_append]
  cases b.space <;> cases b.redirChar <;> cases b.pipeChar <;> rfl

variable {b} in
theorem le_of_mem_cuts {i : Nat} (isCut : i ∈ b.cuts) : i ≤ b.line.length := by
  have inLine {c : UInt8} (there : i ∈ (b.line.idxOf? c).toList) : i ≤ b.line.length :=
    (lt_of_idxOf? (Option.mem_toList.mp there)).le
  rw [cuts, List.mem_append, List.mem_append] at isCut
  rcases isCut with (there | there) | there
  · exact inLine there
  · exact inLine there
  · exact inLine there

/-- What `ExecuteFile` calls `MakeArgVector` with. -/
def argStrings (size : b.bytes.length = 128) : ArgStrings where
  linebuf := b.cut₃
  size := by rw [cut₃_eq_writeNuls, LineEditor.length_writeNuls, size]
  command := 0
  commandText := cstring b.cut₃
  commandAt := by
    have cutAt := stringAt_cut (stringAt_cut (stringAt_cut (stringAt_cstring b.terminated) b.space)
      b.redirChar) b.pipeChar
    rw [command_eq]
    exact cutAt
  firstArg := (behind b.bytes b.space).map fun p => (p, cstring (b.cut₃.drop p))
  firstArgAt := by
    intro arg isArg
    rcases Option.map_eq_some_iff.mp isArg with ⟨p, isBehind, rfl⟩
    rcases argument_inLine isBehind with ⟨text, stringAt, -⟩
    simp only [stringAt.cstring_drop]
    exact stringAt

end LineBuffer

/-- `ExecuteLine`, together with `MakeArgVector` for the arguments of an application, writes NULs to
the line only, as the step of the editor assumes. -/
theorem LineEditor.Inv.allows_execution {s : LineEditor} (inv : s.Inv) (keycode : UInt8)
    (cursor : Vector2D) (argvLen argbufLen : Nat) (argv₀ : Nat → Option Nat)
    (argbuf₀ : Nat → UInt8) :
    let b : LineBuffer := ⟨s.store 0, inv.isLine_store.2⟩
    ∃ cuts v err, s.Allows (.key keycode 0x0a ⟨cuts, cursor⟩) ∧
      makeArgVector argvLen argbufLen b.cut₃ 0 (behind b.bytes b.space) argv₀ argbuf₀ =
        some ((s.enter ⟨cuts, cursor⟩).editor.linebuf, v, err) := by
  intro b
  have size : b.bytes.length = 128 := inv.isLine_store.1
  rcases (b.argStrings size).makeArgVector_eq argvLen argbufLen argv₀ argbuf₀ with
    ⟨cuts, inArg, returned⟩
  refine ⟨b.cuts ++ cuts, (pushAll argvLen argbufLen (b.argStrings size).strs
    ⟨0, 0, argv₀, argbuf₀⟩).1, (pushAll argvLen argbufLen (b.argStrings size).strs
    ⟨0, 0, argv₀, argbuf₀⟩).2, ?_, ?_⟩
  · intro _ i isCut
    change i ≤ b.line.length
    rcases List.mem_append.mp isCut with isCut | isCut
    · exact LineBuffer.le_of_mem_cuts isCut
    · rcases inArg i isCut with ⟨arg, isArg, le⟩
      rcases Option.map_eq_some_iff.mp isArg with ⟨p, isBehind, rfl⟩
      rcases LineBuffer.argument_inLine isBehind with ⟨text, stringAt, inLine⟩
      rw [stringAt.cstring_drop] at le
      exact le.trans inLine
  · have result : (s.enter ⟨b.cuts ++ cuts, cursor⟩).editor.linebuf = writeNuls cuts b.cut₃ := by
      rw [b.cut₃_eq_writeNuls, writeNuls, writeNuls, ← List.foldl_append]
      rfl
    have isArg : (b.argStrings size).firstArg.map Prod.fst = behind b.bytes b.space := by
      rw [LineBuffer.argStrings, Option.map_map]
      exact Option.map_id'
    rw [isArg] at returned
    rw [result]
    exact returned

end Mikanos.Terminal
