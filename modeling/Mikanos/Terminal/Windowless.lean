import Mikanos.Terminal.LineEditor

/-!
# Terminals without a window

A pipeline and `noterm` start terminals that have no window, feed them a command line, and a new
line.  What draws to the window looks first whether there is one, except after the new line: there
the window is scrolled, the prompt is printed, and the area of the window is looked up.  A pipeline
in the command line uses `layer_id_`, which has never been set.
-/

namespace Mikanos.Terminal

open Memory Screen

/-- How a terminal uses its window. -/
inductive WindowUse
  /-- `window_` is dereferenced -/
  | window
  /-- `layer_id_` is sent in a message -/
  | layerMessage
  /-- `layer_id_` is a key of `layer_task_map` -/
  | layerTask
  deriving DecidableEq

/-- A call of `ExecuteLine`: what the functions return that it calls, the NULs that are written to the
line, and whether the command comes to an end. -/
structure LineCall where
  answers : Answers
  cuts : List Nat
  finishes : Bool

namespace LineEditor

/-- A terminal without a window, after its constructor. -/
def windowless : LineEditor :=
  { initial with cursor := ⟨0, 0⟩ }

section

variable (s : LineEditor) (call : LineCall)

/-- What is executed for the line. -/
def outcome : Option LineOutcome :=
  match executeLine call.answers (s.store 0) with
  | some (_, .ok o) => some o
  | _ => none

/-- The row after the new line, and what is used to scroll. -/
def nextRow : Int × List WindowUse :=
  if s.cursor.y < kRows - 1 then (s.cursor.y + 1, []) else (s.cursor.y, [.window, .window])

/-- `clear` goes to the first row. -/
def clears (o : LineOutcome) : Bool :=
  o.executed.any fun executed => executed.effects.any fun
    | .clear => true
    | _ => false

/-- The new line in `InputKey`, without a window: what is used, and the terminal if `ExecuteLine`
returns. -/
def enterWindowless : List WindowUse × Option LineEditor :=
  let (row, scrolled) := s.nextRow
  match s.outcome call with
  | none => (scrolled, none)
  | some o =>
      let pipe : List WindowUse := if o.subcommand.isSome then [.layerTask] else []
      if o.refused.isSome ∨ call.finishes then
        let row := if clears o then 0 else row
        -- `Print(">")` does nothing but send the area, and `InputKey` returns it
        (scrolled ++ pipe ++ pipe ++ [.window, .layerMessage] ++ [.window],
          some (s.enter ⟨call.cuts, ⟨0, row⟩⟩).editor)
      else (scrolled ++ pipe, none)

/-- `InputKey`, without a window. -/
def inputKeyWindowless (keycode ascii : UInt8) : List WindowUse × Option LineEditor :=
  if ascii = 0x0a then s.enterWindowless call
  else if ascii = 0x08 then ([], some s.backspace)
  else if ascii ≠ 0 then ([], some (s.type ascii).editor)
  -- `HistoryUpDown` clears the line and writes the other one
  else if keycode = 0x51 then ([.window, .window], some (s.historyUpDown (-1)).editor)
  else if keycode = 0x52 then ([.window, .window], some (s.historyUpDown 1).editor)
  else ([], some s)

end

/-- Characters are fed to the terminal, with the calls of `ExecuteLine` that they lead to. -/
def feed : LineEditor → List (UInt8 × LineCall) → List WindowUse
  | _, [] => []
  | s, (ascii, call) :: keys =>
      let (uses, next) := s.inputKeyWindowless call 0 ascii
      match next with
      | none => uses
      | some s => uses ++ feed s keys

end LineEditor

open LineEditor

/-- `TaskTerminal`, for a descriptor without a window: what is used while its command line is fed to
the terminal, with a new line at the end. -/
def taskTerminal (commandLine : List (UInt8 × LineCall)) (last : LineCall) : List WindowUse :=
  if commandLine = [] then [] else windowless.feed (commandLine ++ [(0x0a, last)])

/-! ## The first line -/

/-- A character at the end of a line: it is dropped if the line is too long, and the first character
is never taken away. -/
def editLine (line : List UInt8) (ascii : UInt8) : List UInt8 :=
  if ascii = 0x08 then if 1 < line.length then line.dropLast else line
  else if ascii ≠ 0 ∧ line.length < 59 then line ++ [ascii]
  else line

/-- The first line of a command line. -/
def firstLine (commandLine : List (UInt8 × LineCall)) : List UInt8 :=
  ((commandLine.takeWhile (·.1 ≠ 0x0a)).map Prod.fst).foldl editLine []

/-- The call of `ExecuteLine` for it. -/
def firstCall (commandLine : List (UInt8 × LineCall)) (last : LineCall) : LineCall :=
  ((commandLine.find? (·.1 = 0x0a)).map Prod.snd).getD last

/-- The first command never ends, and has no pipe behind it. -/
def Hangs (commandLine : List (UInt8 × LineCall)) (last : LineCall) : Prop :=
  let line := firstLine commandLine
  let call := firstCall commandLine last
  call.finishes = false ∧ ¬ (0x3e ∈ line ∧ call.answers.refusal.isSome) ∧ 0x7c ∉ line

namespace LineEditor

variable {s s' : LineEditor}

/-- The cursor is behind the edited part of the line. -/
structure Follows (s : LineEditor) : Prop where
  inv : s.Inv
  cursor : s.cursor.x = s.linebufIndex
  row : s.cursor.y < kRows - 1

theorem follows_windowless : windowless.Follows where
  inv := ⟨inv_initial.index, inv_initial.historyIndex, inv_initial.size, inv_initial.entries,
    inv_initial.noNul⟩
  cursor := rfl
  row := by decide

/-- Without a new line, characters use nothing, and edit the line. -/
theorem Follows.inputKey (follows : s.Follows) (call : LineCall) {ascii : UInt8}
    (other : ascii ≠ 0x0a) : ∃ s', s.inputKeyWindowless call 0 ascii = ([], some s') ∧
      s'.Follows ∧ s'.editBuffer = editLine s.editBuffer ascii := by
  rcases follows with ⟨inv, cursor, row⟩
  have index := inv.index
  have length := inv.length_editBuffer
  rw [inputKeyWindowless, if_neg other, editLine]
  split
  · refine ⟨_, rfl, ?_⟩
    have kept := inv.backspace
    rw [backspace] at kept ⊢
    by_cases some : 1 < s.cursor.x
    · have positive : 0 < s.linebufIndex := by omega
      rw [if_pos some, if_pos positive] at kept ⊢
      refine ⟨⟨kept, ?_, row⟩, ?_⟩
      · change s.cursor.x - 1 = s.linebufIndex - 1
        rw [cursor]
      · have before : (s.linebufIndex - 1).toNat ≤ s.linebufIndex.toNat := by omega
        have shorter : s.editBuffer.length - 1 = (s.linebufIndex - 1).toNat := by omega
        rw [if_pos (by omega), List.dropLast_eq_take, shorter, editBuffer, editBuffer,
          List.take_take, min_eq_left before]
    · rw [if_neg some, if_neg (by omega)]
      exact ⟨⟨inv, cursor, row⟩, rfl⟩
  · have columns : kColumns = 60 := rfl
    have lineMax : kLineMax = 128 := rfl
    split
    · rename_i notNul
      refine ⟨_, rfl, ?_⟩
      have kept := (inv.type notNul).1
      rw [type] at kept ⊢
      by_cases room : s.cursor.x < kColumns - 1 ∧ s.linebufIndex < kLineMax - 1
      · rw [if_pos room] at kept ⊢
        refine ⟨⟨kept, ?_, row⟩, ?_⟩
        · change s.cursor.x + 1 = s.linebufIndex + 1
          rw [cursor]
        · rw [if_pos ⟨notNul, by omega⟩]
          exact inv.take_store room.2 ascii
      · rw [if_neg room, if_neg fun both => room (by omega)]
        exact ⟨⟨inv, cursor, row⟩, rfl⟩
    · rename_i nul
      rw [if_neg (by decide), if_neg (by decide), if_neg fun both => nul both.1]
      exact ⟨s, rfl, ⟨inv, cursor, row⟩, rfl⟩

/-- What becomes of the line. -/
theorem Inv.exists_outcome (inv : s.Inv) (call : LineCall) : ∃ o, s.outcome call = some o ∧
    (o.refused.isSome ↔ 0x3e ∈ s.editBuffer ∧ call.answers.refusal.isSome) ∧
    (o.subcommand.isSome ↔ 0x7c ∈ s.editBuffer ∧
      ¬ (0x3e ∈ s.editBuffer ∧ call.answers.refusal.isSome)) := by
  let b : LineBuffer := ⟨s.store 0, inv.isLine_store.2⟩
  have line : b.line = s.editBuffer := inv.stringAt_store.cstring_drop
  have redirects : b.redirChar.isSome ↔ 0x3e ∈ s.editBuffer := by
    rw [LineBuffer.redirChar, List.isSome_idxOf?, line]
  have pipes : b.pipeChar.isSome ↔ 0x7c ∈ s.editBuffer := by
    rw [LineBuffer.pipeChar, List.isSome_idxOf?, line]
  have anywhere : ∀ (linebuf : List UInt8) (op : Option Nat),
      Passes (fun _ => True) linebuf op := fun _ _ _ _ _ _ _ => trivial
  have returns : ∃ o, (executeLine call.answers b.bytes).Yields (fun _ => True) o :=
    LineBuffer.exists_yields_executeLine trivial (anywhere _ _) (anywhere _ _)
      fun _ => ⟨anywhere _ _, exists_yields_runCommand trivial
        (fun _ _ => ⟨trivial, fun _ => trivial⟩) fun _ _ => trivial⟩
  rcases returns with ⟨o, yields⟩
  have cases := (LineBuffer.yields_executeLine.mp yields).2.2.2
  rcases yields with ⟨reads, returned, -⟩
  refine ⟨o, ?_, ?_⟩
  · rw [outcome]
    change (match executeLine call.answers b.bytes with | some (_, .ok o) => some o | _ => none) = _
    rw [returned]
  · rw [← redirects, ← pipes]
    split at cases
    · rename_i refused
      rw [cases]
      exact ⟨iff_of_true refused.2 refused, by simp [refused]⟩
    · rename_i accepted
      rcases cases with ⟨-, result, -, same⟩
      rw [same]
      exact ⟨by simp [accepted], by simp [accepted, isSome_operand]⟩

/-- When `ExecuteLine` returns, the window is used. -/
theorem enterWindowless_eq (s : LineEditor) (call : LineCall) :
    (s.enterWindowless call).2 = none ∨ (s.enterWindowless call).1 ≠ [] := by
  rw [enterWindowless]
  dsimp only
  split
  · exact .inl rfl
  · split
    · exact .inr (by simp)
    · exact .inl rfl

/-- A new line uses nothing only if the command never ends, and has no pipe behind it. -/
theorem Follows.enter (follows : s.Follows) (call : LineCall) :
    (s.enterWindowless call).1 = [] ↔ call.finishes = false ∧
      ¬ (0x3e ∈ s.editBuffer ∧ call.answers.refusal.isSome) ∧ 0x7c ∉ s.editBuffer := by
  rcases follows.inv.exists_outcome call with ⟨o, outcome, refused, pipes⟩
  rw [enterWindowless, nextRow, if_pos follows.row, outcome, ← refused]
  dsimp only
  split
  · rename_i returns
    refine iff_of_false (by simp) ?_
    rintro ⟨running, accepted, -⟩
    rcases returns with refused | finishes
    · exact accepted refused
    · rw [running] at finishes
      cases finishes
  · rename_i stays
    rw [not_or, Bool.not_eq_true call.finishes] at stays
    rw [and_iff_right stays.2, and_iff_right stays.1]
    by_cases piped : 0x7c ∈ s.editBuffer
    · rw [if_pos (pipes.mpr ⟨piped, refused.not.mp stays.1⟩)]
      simp [piped]
    · rw [if_neg fun some => piped (pipes.mp some).1]
      simp [piped]

theorem feed_newline (s : LineEditor) (call : LineCall) (rest : List (UInt8 × LineCall)) :
    s.feed ((0x0a, call) :: rest) = [] ↔ (s.enterWindowless call).1 = [] := by
  rw [feed, inputKeyWindowless, if_pos rfl]
  dsimp only
  rcases s.enterWindowless_eq call with stays | uses
  · rw [stays]
  · split
    · rfl
    · rw [List.append_eq_nil_iff, and_iff_left_iff_imp]
      exact fun none => absurd none uses

/-- What is fed to a terminal with a row to go to. -/
theorem Follows.feed (follows : s.Follows) (commandLine : List (UInt8 × LineCall)) (last : LineCall) :
    s.feed (commandLine ++ [(0x0a, last)]) = [] ↔
      let line := ((commandLine.takeWhile (·.1 ≠ 0x0a)).map Prod.fst).foldl editLine s.editBuffer
      let call := firstCall commandLine last
      call.finishes = false ∧ ¬ (0x3e ∈ line ∧ call.answers.refusal.isSome) ∧ 0x7c ∉ line := by
  induction commandLine generalizing s with
  | nil =>
      rw [List.nil_append, feed_newline, follows.enter]
      rfl
  | cons key commandLine ih =>
      rcases key with ⟨ascii, call⟩
      by_cases newline : ascii = 0x0a
      · rw [newline, List.cons_append, feed_newline, follows.enter]
        rfl
      · rcases follows.inputKey call newline with ⟨s', result, follows', edited⟩
        have first : firstCall ((ascii, call) :: commandLine) last = firstCall commandLine last := by
          rw [firstCall, List.find?_cons_of_neg (by simpa using newline), firstCall]
        rw [List.cons_append, LineEditor.feed, result]
        dsimp only
        rw [List.nil_append, ih follows', first, edited,
          List.takeWhile_cons_of_pos (by simpa using newline)]
        rfl

end LineEditor

/-- A terminal without a window uses none only if nothing is fed to it, or if its first command
never ends and has no pipe behind it. -/
theorem taskTerminal_eq_nil_iff (commandLine : List (UInt8 × LineCall)) (last : LineCall) :
    taskTerminal commandLine last = [] ↔ commandLine = [] ∨ Hangs commandLine last := by
  rw [taskTerminal]
  split
  · rename_i empty
    exact iff_of_true rfl (.inl empty)
  · rename_i nonempty
    rw [or_iff_right nonempty]
    exact follows_windowless.feed commandLine last

/-- Calls that all succeed. -/
def succeeds : LineCall :=
  ⟨⟨none, .success, none, true, (0, .success), 0⟩, [], true⟩

set_option maxRecDepth 20000 in
/-- The terminal that a pipeline of three commands starts is fed the other two. -/
theorem not_taskTerminal_pipeline :
    taskTerminal [(0x61, succeeds), (0x7c, succeeds), (0x62, succeeds)] succeeds =
        [.layerTask, .layerTask, .window, .layerMessage, .window] ∧
      taskTerminal [(0x61, succeeds), (0x7c, succeeds), (0x62, succeeds)] succeeds ≠ [] := by
  decide

end Mikanos.Terminal
