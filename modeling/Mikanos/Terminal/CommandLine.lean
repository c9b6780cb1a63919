import Mikanos.Loader.Launch
import Mikanos.Memory.CString
import Mikanos.Memory.Reading

/-!
# Command lines

`ExecuteLine` looks for the first space, the first `>` and the first `|` of a line, and then
writes NULs over them, one after the other.  All its strings are pointers into the line buffer.
The model keeps the pointers that are dereferenced or passed on as strings, and of what the rest
of the kernel does with the command only what it returns.
-/

namespace Mikanos.Terminal

open Memory
open Loader.Launcher (isspace)

/-- A `char*`: null, or a position in `linebuf_`. -/
abbrev CharPtr :=
  Option Nat

/-- Code that uses such pointers. -/
abbrev PtrReading :=
  Reading CharPtr Empty

section

variable (linebuf : List UInt8)

/-- `*p`. -/
def deref (p : CharPtr) : PtrReading UInt8 :=
  Reading.read (fun p => p.elim 0 (linebuf.getD · 0)) p

/-- `*p = 0`; the result is the buffer after it. -/
def storeNul (p : CharPtr) : PtrReading (List UInt8) :=
  Reading.read (fun p => p.elim linebuf (linebuf.set · 0)) p

/-- The pointer is passed on as a string. -/
def passString (p : CharPtr) : PtrReading (List UInt8) :=
  Reading.read (fun p => p.elim [] fun i => cstring (linebuf.drop i)) p

/-- The loops that skip white space. -/
def skipSpaces : (rounds p : Nat) → PtrReading Nat
  | 0, _ => Reading.pending
  | rounds + 1, p => do
      let c ← deref linebuf (some p)
      if isspace c then skipSpaces rounds (p + 1) else return p

/-- Cut the line at a character, and go to what follows behind it. -/
def cutAt (i : Nat) : PtrReading (List UInt8 × Nat) := do
  let linebuf ← storeNul linebuf (some i)
  let p ← skipSpaces linebuf (linebuf.length + 1) (i + 1)
  return (linebuf, p)

/-- Cut the line at its first space. -/
def cutFirstArg : Option Nat → PtrReading (List UInt8 × CharPtr)
  | none => return (linebuf, none)
  | some i => do
      let (linebuf, firstArg) ← cutAt linebuf i
      return (linebuf, some firstArg)

/-- Cut the line at an operator, and pass its operand on. -/
def cutOperand : Option Nat → PtrReading (List UInt8 × Option (List UInt8))
  | none => return (linebuf, none)
  | some i => do
      let (linebuf, p) ← cutAt linebuf i
      let operand ← passString linebuf (some p)
      return (linebuf, some operand)

end

/-! ## Commands -/

/-- The result of `FindFile`, and what `FormatName` makes of its entry. -/
structure FoundFile where
  directory : Bool
  postSlash : Bool
  name : List UInt8

/-- What the functions return that `ExecuteLine` calls. -/
structure Answers where
  /-- `FindFile` of the redirect destination -/
  redirFile : Option FoundFile
  createFile : Error
  /-- `FindFile` of the argument of `ls` or `cat` -/
  argFile : Option FoundFile
  /-- whether `FindCommand` finds a file -/
  findCommand : Bool
  executeFile : Int × Error
  /-- `WaitFinish` -/
  waitFinish : Int

/-- What is done with the terminal's files, and otherwise. -/
inductive Effect
  | print (fd : Nat) (format : String) (arg : List UInt8)
  | printError (fd : Nat) (format : String) (err : Error)
  | printExitCode (fd : Nat)
  | clear
  | lspci
  | memstat
  /-- `ListAllEntries`, of the root directory or of the one that was found -/
  | listAllEntries (fd : Nat) (found : Bool)
  /-- the loop of `cat`, over the input or the file that was found -/
  | copy (found : Bool)
  /-- `TaskTerminal` is started with a command line -/
  | newTerminal (commandLine : List UInt8)

section

variable (answers : Answers) (linebuf : List UInt8) (firstArg : CharPtr)

/-- What `echo` prints before the new line. -/
def echoArg : PtrReading (List Effect) :=
  match firstArg with
  | none => return []
  | some p => do
      let c ← deref linebuf (some p)
      if c = 0x24 then
        let rest ← passString linebuf (some (p + 1))
        return if rest = [0x3f] then [.printExitCode 1] else []
      else
        let s ← passString linebuf (some p)
        return [.print 1 "%s" s]

def echo : PtrReading (List Effect × Int) := do
  let printed ← echoArg linebuf firstArg
  return (printed ++ [.print 1 "\n" []], 0)

def ls : PtrReading (List Effect × Int) := do
  let c ← deref linebuf firstArg
  if c = 0 then return ([.listAllEntries 1 false], 0)
  let path ← passString linebuf firstArg
  match answers.argFile with
  | none => return ([.print 2 "No such file or directory: %s\n" path], 1)
  | some dir =>
      if dir.directory then return ([.listAllEntries 1 true], 0)
      else if dir.postSlash then return ([.print 2 "%s is not a directory\n" dir.name], 1)
      else return ([.print 1 "%s\n" dir.name], 0)

/-- The argument of `cat`, if it is not empty. -/
def catArg : PtrReading (Option (List UInt8)) :=
  match firstArg with
  | none => return none
  | some p => do
      let c ← deref linebuf (some p)
      if c = 0 then return none
      let path ← passString linebuf (some p)
      return some path

def cat : PtrReading (List Effect × Int) := do
  match ← catArg linebuf firstArg with
  | none => return ([.copy false], 0)
  | some path =>
      match answers.argFile with
      | none => return ([.print 2 "no such file: %s\n" path], 1)
      | some entry =>
          if ¬ entry.directory ∧ entry.postSlash then
            return ([.print 2 "%s is not a directory\n" entry.name], 1)
          else return ([.copy true], 0)

def noterm : PtrReading (List Effect × Int) := do
  let commandLine ← passString linebuf firstArg
  return ([.newTerminal commandLine], 0)

/-- `ExecuteFile`.  `MakeArgVector` takes a null pointer for no arguments. -/
def executeFile : PtrReading (List Effect × Int) := do
  let _ ← passString linebuf (some 0)
  let _ ← (match firstArg with
    | none => return []
    | some p => passString linebuf (some p))
  let (ec, err) := answers.executeFile
  if err = .success then return ([], ec)
  else return ([.printError 2 "failed to exec file: %s\n" err], -ec)

/-- A command that is not built in. -/
def external : PtrReading (List Effect × Int) := do
  let c ← deref linebuf (some 0)
  if c = 0 then return ([], 0)
  let command ← passString linebuf (some 0)
  if answers.findCommand then executeFile answers linebuf firstArg
  else return ([.print 2 "no such command: %s" command], 1)

/-- `"echo"`, `"clear"` and so on. -/
def echoName : List UInt8 := [0x65, 0x63, 0x68, 0x6f]
def clearName : List UInt8 := [0x63, 0x6c, 0x65, 0x61, 0x72]
def lspciName : List UInt8 := [0x6c, 0x73, 0x70, 0x63, 0x69]
def lsName : List UInt8 := [0x6c, 0x73]
def catName : List UInt8 := [0x63, 0x61, 0x74]
def notermName : List UInt8 := [0x6e, 0x6f, 0x74, 0x65, 0x72, 0x6d]
def memstatName : List UInt8 := [0x6d, 0x65, 0x6d, 0x73, 0x74, 0x61, 0x74]

/-- The command of a line that has been cut. -/
def runCommand : PtrReading (List Effect × Int) := do
  let command ← passString linebuf (some 0)
  if command = echoName then echo linebuf firstArg
  else if command = clearName then return ([.clear], 0)
  else if command = lspciName then return ([.lspci], 0)
  else if command = lsName then ls answers linebuf firstArg
  else if command = catName then cat answers linebuf firstArg
  else if command = notermName then noterm linebuf firstArg
  else if command = memstatName then return ([.memstat], 0)
  else external answers linebuf firstArg

end

/-! ## Lines -/

/-- The command, when it is executed. -/
structure Executed where
  linebuf : List UInt8
  firstArg : CharPtr
  effects : List Effect
  exitCode : Int

/-- What `ExecuteLine` has done. -/
structure LineOutcome where
  /-- what `FindFile` and `CreateFile` are called with -/
  redirDest : Option (List UInt8)
  /-- the command line of the terminal that reads from the pipe -/
  subcommand : Option (List UInt8)
  executed : Option Executed
  /-- what is printed when the line cannot be redirected -/
  refused : Option Effect

/-- What is printed if the output cannot be redirected. -/
def Answers.refusal (answers : Answers) : Option Effect :=
  match answers.redirFile with
  | none =>
      if answers.createFile = .success then none
      else some (.printError 2 "failed to create a redirect file: %s\n" answers.createFile)
  | some file =>
      if file.directory ∨ file.postSlash then some (.print 2 "cannot redirect to a directory\n" [])
      else none

/-- `ExecuteLine`. -/
def executeLine (answers : Answers) (linebuf : List UInt8) : PtrReading LineOutcome := do
  let line ← passString linebuf (some 0)
  let redirChar := strchr line 0x3e
  let pipeChar := strchr line 0x7c
  let (linebuf, firstArg) ← cutFirstArg linebuf (strchr line 0x20)
  let (linebuf, redirDest) ← cutOperand linebuf redirChar
  if redirDest.isSome ∧ answers.refusal.isSome then
    return ⟨redirDest, none, none, answers.refusal⟩
  let (linebuf, subcommand) ← cutOperand linebuf pipeChar
  let (effects, exitCode) ← runCommand answers linebuf firstArg
  let exitCode := if subcommand.isSome then answers.waitFinish else exitCode
  return ⟨redirDest, subcommand, some ⟨linebuf, firstArg, effects, exitCode⟩, none⟩

/-! ## What cutting yields -/

section

variable {linebuf : List UInt8} {readable : CharPtr → Prop}

@[simp]
theorem yields_deref {p : CharPtr} {c : UInt8} :
    (deref linebuf p).Yields readable c ↔ readable p ∧ c = p.elim 0 (linebuf.getD · 0) :=
  Reading.yields_read

@[simp]
theorem yields_storeNul {p : CharPtr} {linebuf' : List UInt8} :
    (storeNul linebuf p).Yields readable linebuf' ↔
      readable p ∧ linebuf' = p.elim linebuf (linebuf.set · 0) :=
  Reading.yields_read

@[simp]
theorem yields_passString {p : CharPtr} {s : List UInt8} :
    (passString linebuf p).Yields readable s ↔
      readable p ∧ s = p.elim [] fun i => cstring (linebuf.drop i) :=
  Reading.yields_read

@[simp]
theorem isspace_zero : isspace 0 = false :=
  rfl

/-- White space is skipped with enough rounds, and the character behind it is looked at. -/
theorem yields_skipSpaces {rounds p p' : Nat} (enough : skip isspace linebuf p < p + rounds) :
    (skipSpaces linebuf rounds p).Yields readable p' ↔
      (∀ j, p ≤ j → j ≤ skip isspace linebuf p → readable (some j)) ∧
        p' = skip isspace linebuf p := by
  induction rounds generalizing p with
  | zero => exact absurd (le_skip isspace linebuf p) (by omega)
  | succ rounds ih =>
      rw [skipSpaces, Reading.yields_bind_of fun _ => yields_deref]
      have step := skip_eq_ite isspace_zero linebuf p
      have here : (some p : CharPtr).elim 0 (linebuf.getD · 0) = linebuf.getD p 0 := rfl
      rw [here]
      split
      · rename_i space
        rw [if_pos space] at step
        rw [ih (by omega), step, ← and_assoc]
        refine and_congr_left fun _ => ?_
        constructor
        · rintro ⟨first, later⟩ j lower upper
          rcases Nat.lt_or_eq_of_le lower with lower | rfl
          · exact later j lower upper
          · exact first
        · intro all
          have le := le_skip isspace linebuf (p + 1)
          exact ⟨all p le_rfl (by omega), fun j lower => all j (by omega)⟩
      · rename_i other
        rw [if_neg other] at step
        rw [step, Reading.yields_pure]
        refine and_congr_left fun _ => ?_
        constructor
        · intro first j lower upper
          rwa [le_antisymm upper lower]
        · exact fun all => all p le_rfl le_rfl

theorem skip_lt_length (i : Nat) : skip isspace linebuf i < i + (linebuf.length + 1) := by
  have prefixLength := (List.takeWhile_prefix (l := linebuf.drop i) isspace).length_le
  rw [List.length_drop] at prefixLength
  rw [skip]
  omega

/-- The buffer with a character cut off. -/
def cut (linebuf : List UInt8) (op : Option Nat) : List UInt8 :=
  op.elim linebuf (linebuf.set · 0)

/-- Where the text begins that follows behind the character. -/
def behind (linebuf : List UInt8) (op : Option Nat) : Option Nat :=
  op.map fun i => skip isspace (linebuf.set i 0) (i + 1)

/-- The pointers that are used to get there. -/
def Passes (readable : CharPtr → Prop) (linebuf : List UInt8) (op : Option Nat) : Prop :=
  ∀ i ∈ op, ∀ j, i ≤ j → j ≤ skip isspace (linebuf.set i 0) (i + 1) → readable (some j)

theorem yields_cutAt {i : Nat} {result : List UInt8 × Nat} :
    (cutAt linebuf i).Yields readable result ↔
      Passes readable linebuf (some i) ∧
        result = (linebuf.set i 0, skip isspace (linebuf.set i 0) (i + 1)) := by
  rw [cutAt, Reading.yields_bind_of fun _ => yields_storeNul,
    Reading.yields_bind_of fun _ => yields_skipSpaces (skip_lt_length (i + 1)),
    Reading.yields_pure, ← and_assoc]
  refine and_congr_left fun _ => ?_
  constructor
  · rintro ⟨stored, skipped⟩ _ ⟨⟩ j lower upper
    rcases Nat.lt_or_eq_of_le lower with lower | rfl
    · exact skipped j lower upper
    · exact stored
  · intro passes
    have le := le_skip isspace (linebuf.set i 0) (i + 1)
    exact ⟨passes i rfl i le_rfl (by omega), fun j lower => passes i rfl j (by omega)⟩

theorem yields_cutFirstArg {op : Option Nat} {result : List UInt8 × CharPtr} :
    (cutFirstArg linebuf op).Yields readable result ↔
      Passes readable linebuf op ∧ result = (cut linebuf op, behind linebuf op) := by
  cases op with
  | none =>
      rw [cutFirstArg, Reading.yields_pure]
      exact (and_iff_right nofun).symm
  | some i =>
      rw [cutFirstArg, Reading.yields_bind_of fun _ => yields_cutAt, Reading.yields_pure]
      rfl

/-- The operand of an operator. -/
def operand (linebuf : List UInt8) (op : Option Nat) : Option (List UInt8) :=
  (behind linebuf op).map fun p => cstring ((cut linebuf op).drop p)

theorem yields_cutOperand {op : Option Nat} {result : List UInt8 × Option (List UInt8)} :
    (cutOperand linebuf op).Yields readable result ↔
      Passes readable linebuf op ∧ result = (cut linebuf op, operand linebuf op) := by
  cases op with
  | none =>
      rw [cutOperand, Reading.yields_pure]
      exact (and_iff_right nofun).symm
  | some i =>
      rw [cutOperand, Reading.yields_bind_of fun _ => yields_cutAt,
        Reading.yields_bind_of fun _ => yields_passString, Reading.yields_pure, ← and_assoc]
      refine and_congr_left fun _ => and_iff_left_of_imp fun passes => ?_
      exact passes i rfl _ ((Nat.le_succ i).trans (le_skip _ _ _)) le_rfl

end

/-! ## What commands yield -/

section

variable {answers : Answers} {linebuf : List UInt8} {readable : CharPtr → Prop}

theorem exists_yields_passString {p : CharPtr} (start : readable p) :
    ∃ s, (passString linebuf p).Yields readable s :=
  ⟨_, yields_passString.mpr ⟨start, rfl⟩⟩

theorem exists_yields_deref {p : CharPtr} (start : readable p) :
    ∃ c, (deref linebuf p).Yields readable c :=
  ⟨_, yields_deref.mpr ⟨start, rfl⟩⟩

theorem exists_yields_echoArg {firstArg : CharPtr}
    (start : ∀ p ∈ firstArg, readable (some p) ∧
      (linebuf.getD p 0 ≠ 0 → readable (some (p + 1)))) :
    ∃ result, (echoArg linebuf firstArg).Yields readable result := by
  cases firstArg with
  | none => exact Reading.exists_yields_pure _
  | some p =>
      rcases start p rfl with ⟨here, next⟩
      rw [echoArg, Reading.exists_yields_bind_of fun _ => yields_deref]
      refine ⟨here, ?_⟩
      split
      · rename_i dollar
        have notEnd : linebuf.getD p 0 ≠ 0 := by
          intro zero
          change linebuf.getD p 0 = 0x24 at dollar
          rw [zero] at dollar
          exact absurd dollar (by decide)
        exact Reading.exists_yields_bind (exists_yields_passString (next notEnd))
          fun _ => Reading.exists_yields_pure _
      · exact Reading.exists_yields_bind (exists_yields_passString here)
          fun _ => Reading.exists_yields_pure _

theorem exists_yields_ls {firstArg : CharPtr} (start : readable firstArg) :
    ∃ result, (ls answers linebuf firstArg).Yields readable result := by
  refine Reading.exists_yields_bind (exists_yields_deref start) fun c => ?_
  split
  · exact Reading.exists_yields_pure _
  · refine Reading.exists_yields_bind (exists_yields_passString start) fun path => ?_
    split
    · exact Reading.exists_yields_pure _
    · split_ifs <;> exact Reading.exists_yields_pure _

theorem exists_yields_catArg {firstArg : CharPtr} (start : ∀ p ∈ firstArg, readable (some p)) :
    ∃ result, (catArg linebuf firstArg).Yields readable result := by
  cases firstArg with
  | none => exact Reading.exists_yields_pure _
  | some p =>
      refine Reading.exists_yields_bind (exists_yields_deref (start p rfl)) fun c => ?_
      split
      · exact Reading.exists_yields_pure _
      · exact Reading.exists_yields_bind (exists_yields_passString (start p rfl))
          fun _ => Reading.exists_yields_pure _

theorem exists_yields_cat {firstArg : CharPtr} (start : ∀ p ∈ firstArg, readable (some p)) :
    ∃ result, (cat answers linebuf firstArg).Yields readable result := by
  refine Reading.exists_yields_bind (exists_yields_catArg start) fun path => ?_
  split
  · exact Reading.exists_yields_pure _
  · split
    · exact Reading.exists_yields_pure _
    · split_ifs <;> exact Reading.exists_yields_pure _

theorem exists_yields_executeFile {firstArg : CharPtr} (command : readable (some 0))
    (start : ∀ p ∈ firstArg, readable (some p)) :
    ∃ result, (executeFile answers linebuf firstArg).Yields readable result := by
  refine Reading.exists_yields_bind (exists_yields_passString command) fun _ => ?_
  refine Reading.exists_yields_bind ?_ fun _ => ?_
  · cases firstArg with
    | none => exact Reading.exists_yields_pure _
    | some p => exact exists_yields_passString (start p rfl)
  · split
    split_ifs <;> exact Reading.exists_yields_pure _

theorem exists_yields_external {firstArg : CharPtr} (command : readable (some 0))
    (start : ∀ p ∈ firstArg, readable (some p)) :
    ∃ result, (external answers linebuf firstArg).Yields readable result := by
  refine Reading.exists_yields_bind (exists_yields_deref command) fun _ => ?_
  split
  · exact Reading.exists_yields_pure _
  · refine Reading.exists_yields_bind (exists_yields_passString command) fun _ => ?_
    split
    · exact exists_yields_executeFile command start
    · exact Reading.exists_yields_pure _

/-- All commands but `ls` and `noterm` use the argument only if there is one. -/
theorem exists_yields_runCommand {firstArg : CharPtr} (command : readable (some 0))
    (start : ∀ p ∈ firstArg, readable (some p) ∧
      (linebuf.getD p 0 ≠ 0 → readable (some (p + 1))))
    (null : firstArg = none → cstring linebuf = lsName ∨ cstring linebuf = notermName →
      readable none) :
    ∃ result, (runCommand answers linebuf firstArg).Yields readable result := by
  have start' : ∀ p ∈ firstArg, readable (some p) := fun p member => (start p member).1
  have whole : (some 0 : CharPtr).elim [] (fun i => cstring (linebuf.drop i)) = cstring linebuf := rfl
  have needed (needs : cstring linebuf = lsName ∨ cstring linebuf = notermName) :
      readable firstArg := by
    cases firstArg with
    | none => exact null rfl needs
    | some p => exact start' p rfl
  rw [runCommand, Reading.exists_yields_bind_of fun _ => yields_passString, whole]
  refine ⟨command, ?_⟩
  split
  · exact Reading.exists_yields_bind (exists_yields_echoArg start)
      fun _ => Reading.exists_yields_pure _
  split
  · exact Reading.exists_yields_pure _
  split
  · exact Reading.exists_yields_pure _
  split
  · rename_i isLs
    exact exists_yields_ls (needed (Or.inl isLs))
  split
  · exact exists_yields_cat start'
  split
  · rename_i isNoterm
    exact Reading.exists_yields_bind (exists_yields_passString (needed (Or.inr isNoterm)))
      fun _ => Reading.exists_yields_pure _
  split
  · exact Reading.exists_yields_pure _
  · exact exists_yields_external command start'

/-- `ls` and `noterm` always use it. -/
theorem readable_of_yields_runCommand {firstArg : CharPtr} {result : List Effect × Int}
    (yields : (runCommand answers linebuf firstArg).Yields readable result)
    (needs : cstring linebuf = lsName ∨ cstring linebuf = notermName) : readable firstArg := by
  have whole : (some 0 : CharPtr).elim [] (fun i => cstring (linebuf.drop i)) = cstring linebuf := rfl
  rw [runCommand, Reading.yields_bind_of fun _ => yields_passString, whole] at yields
  rcases needs with isLs | isNoterm
  · rw [isLs] at yields
    have first : (ls answers linebuf firstArg).Yields readable result := yields.2
    rw [ls, Reading.yields_bind_of fun _ => yields_deref] at first
    exact first.1
  · rw [isNoterm] at yields
    have first : (noterm linebuf firstArg).Yields readable result := yields.2
    rw [noterm, Reading.yields_bind_of fun _ => yields_passString] at first
    exact first.1

end

section

variable {linebuf : List UInt8} {readable : CharPtr → Prop}

theorem isSome_operand (linebuf : List UInt8) (op : Option Nat) :
    (operand linebuf op).isSome = op.isSome := by
  cases op <;> rfl

end

/-! ## Lines in buffers -/

/-- A line buffer with a line in it. -/
structure LineBuffer where
  bytes : List UInt8
  terminated : 0 ∈ bytes

/-- The line. -/
def LineBuffer.line (b : LineBuffer) : List UInt8 :=
  cstring b.bytes

namespace LineBuffer

variable (b : LineBuffer)

/-- The positions that `ExecuteLine` looks for. -/
def space : Option Nat := b.line.idxOf? 0x20
def redirChar : Option Nat := b.line.idxOf? 0x3e
def pipeChar : Option Nat := b.line.idxOf? 0x7c

/-- The buffer after the characters have been cut off, one after the other. -/
def cut₁ : List UInt8 := cut b.bytes b.space
def cut₂ : List UInt8 := cut b.cut₁ b.redirChar
def cut₃ : List UInt8 := cut b.cut₂ b.pipeChar

theorem strchr_line (c : UInt8) : strchr (cstring b.bytes) c = b.line.idxOf? c := by
  rw [strchr, cstring_of_noNul (noNul_cstring _)]
  rfl

variable {b} {readable : CharPtr → Prop}

/-- What `ExecuteLine` passes on, and the pointers that it uses. -/
theorem yields_executeLine {answers : Answers} {o : LineOutcome} :
    (executeLine answers b.bytes).Yields readable o ↔
      readable (some 0) ∧ Passes readable b.bytes b.space ∧ Passes readable b.cut₁ b.redirChar ∧
        if b.redirChar.isSome ∧ answers.refusal.isSome then
          o = ⟨operand b.cut₁ b.redirChar, none, none, answers.refusal⟩
        else
          Passes readable b.cut₂ b.pipeChar ∧ ∃ result,
            (runCommand answers b.cut₃ (behind b.bytes b.space)).Yields readable result ∧
              o = ⟨operand b.cut₁ b.redirChar, operand b.cut₂ b.pipeChar,
                some ⟨b.cut₃, behind b.bytes b.space, result.1,
                  if b.pipeChar.isSome then answers.waitFinish else result.2⟩, none⟩ := by
  have whole : (some 0 : CharPtr).elim [] (fun i => cstring (b.bytes.drop i)) = cstring b.bytes := rfl
  rw [executeLine, Reading.yields_bind_of fun _ => yields_passString, whole]
  simp only [strchr_line]
  refine and_congr_right fun _ => ?_
  change Reading.Yields (cutFirstArg b.bytes b.space >>= _) _ _ ↔ _
  rw [Reading.yields_bind_of fun _ => yields_cutFirstArg]
  refine and_congr_right fun _ => ?_
  change Reading.Yields (cutOperand b.cut₁ b.redirChar >>= _) _ _ ↔ _
  rw [Reading.yields_bind_of fun _ => yields_cutOperand]
  refine and_congr_right fun _ => ?_
  change Reading.Yields (if (operand b.cut₁ b.redirChar).isSome ∧ answers.refusal.isSome then _ else _)
    _ _ ↔ _
  simp only [isSome_operand]
  split
  · exact Reading.yields_pure
  · change Reading.Yields (cutOperand b.cut₂ b.pipeChar >>= _) _ _ ↔ _
    rw [Reading.yields_bind_of fun _ => yields_cutOperand]
    refine and_congr_right fun _ => ?_
    change Reading.Yields (runCommand answers b.cut₃ (behind b.bytes b.space) >>= _) _ _ ↔ _
    simp only [Reading.yields_bind, Reading.yields_pure, isSome_operand]
    rfl

theorem exists_yields_executeLine {answers : Answers} (start : readable (some 0))
    (passes₁ : Passes readable b.bytes b.space) (passes₂ : Passes readable b.cut₁ b.redirChar)
    (run : ¬ (b.redirChar.isSome ∧ answers.refusal.isSome) → Passes readable b.cut₂ b.pipeChar ∧
      ∃ result, (runCommand answers b.cut₃ (behind b.bytes b.space)).Yields readable result) :
    ∃ o, (executeLine answers b.bytes).Yields readable o := by
  by_cases refused : b.redirChar.isSome ∧ answers.refusal.isSome
  · refine ⟨⟨operand b.cut₁ b.redirChar, none, none, answers.refusal⟩, ?_⟩
    refine yields_executeLine.mpr ⟨start, passes₁, passes₂, ?_⟩
    rw [if_pos refused]
  · rcases run refused with ⟨passes₃, result, yields⟩
    refine ⟨⟨operand b.cut₁ b.redirChar, operand b.cut₂ b.pipeChar,
      some ⟨b.cut₃, behind b.bytes b.space, result.1,
        if b.pipeChar.isSome then answers.waitFinish else result.2⟩, none⟩, ?_⟩
    refine yields_executeLine.mpr ⟨start, passes₁, passes₂, ?_⟩
    rw [if_neg refused]
    exact ⟨passes₃, result, yields, rfl⟩

end LineBuffer

end Mikanos.Terminal
