import Mikanos.Screen.Drawing
import Mikanos.Syscall.Accesses

/-!
# System calls

`SyscallEntry` masks the number of the call and calls through a table.  No handler but
`ReadEvent` looks at the pointers that it is given, and `ReadEvent` compares its pointer
with an address that is not where the memory of applications begins.
-/

namespace Mikanos.Syscall

open Memory Screen Terminal

/-- The registers that a system call begins with. -/
structure Registers where
  rax : UInt64
  rdi : UInt64
  rsi : UInt64
  rdx : UInt64
  r10 : UInt64
  r8 : UInt64
  r9 : UInt64

namespace Registers

variable (regs : Registers)

def arg1 : UInt64 := regs.rdi
def arg2 : UInt64 := regs.rsi
def arg3 : UInt64 := regs.rdx
/-- `mov rcx, r10` -/
def arg4 : UInt64 := regs.r10
def arg5 : UInt64 := regs.r8
def arg6 : UInt64 := regs.r9

end Registers

/-! ## The table -/

/-- The functions of the table. -/
inductive Handler
  | logString
  | putString
  | exit
  | openWindow
  | winWriteString
  | winFillRectangle
  | getCurrentTick
  | winRedraw
  | winDrawLine
  | closeWindow
  | readEvent
  | createTimer
  | openFile
  | readFile
  | demandPages
  | mapFile
  deriving DecidableEq, Repr

/-- `syscall_table`. -/
def syscallTable : List Handler :=
  [.logString, .putString, .exit, .openWindow, .winWriteString, .winFillRectangle, .getCurrentTick,
    .winRedraw, .winDrawLine, .closeWindow, .readEvent, .createTimer, .openFile, .readFile,
    .demandPages, .mapFile]

/-- The address in `call [syscall_table + 8 * eax]`, which is computed in 32 bits. -/
def operand (table : Nat) (rax : UInt64) : Nat :=
  (table + 8 * (rax &&& 0x7fffffff).toNat) % 2 ^ 32

/-- The function that is called, if the operand is an entry of the table. -/
def target (table : Nat) (rax : UInt64) : Option Handler :=
  (syscallTable.zipIdx.find? fun entry => operand table rax = table + 8 * entry.2).map Prod.fst

/-! ## What a call finds -/

/-- A file descriptor of the calling task. -/
inductive Descriptor
  | terminal
  | pipe (fd : PipeDescriptor)
  | file (fd : Fat.FileDescriptor)

/-- What a call finds: the memory, the files of the task, the volume and the layers, and
the messages that it receives if it waits for some. -/
structure CallContext where
  mem : Mem
  files : List (Option Descriptor)
  volume : Fat.Volume
  layers : LayerManager
  received : List Message

namespace CallContext

variable (ctx : CallContext)

/-- The characters behind a pointer. -/
def char (pointer : UInt64) (i : Nat) : UInt8 :=
  charAt ctx.mem pointer.toNat i

/-- The buffer behind a pointer. -/
def buffer (pointer : UInt64) : Mem :=
  ctx.char pointer

/-- The file with a number. -/
def file (fd : Nat) : Option Descriptor :=
  ctx.files[fd]?.join

/-- The file with a number that is converted to `int`. -/
def fileOfInt (fd : UInt64) : Option Descriptor :=
  if 2 ^ 31 ≤ fd.toNat % 2 ^ 32 then none else ctx.file (fd.toNat % 2 ^ 32)

end CallContext

/-! ## The handlers -/

/-- `LogLevel`. -/
def isLogLevel (level : UInt64) : Bool :=
  level = 3 ∨ level = 4 ∨ level = 6 ∨ level = 7

/-- `"@stdin"`. -/
def stdinPath : List UInt8 :=
  [0x40, 0x73, 0x74, 0x64, 0x69, 0x6e]

/-- `O_CREAT` is set. -/
def hasCreat (flags : UInt64) : Bool :=
  flags &&& 0x200 ≠ 0

/-- The pointer among the arguments of a handler that takes one. -/
def pointer (regs : Registers) : Handler → UInt64
  | .logString => regs.arg2
  | .putString => regs.arg2
  | .openWindow => regs.arg5
  | .winWriteString => regs.arg5
  | .readEvent => regs.arg1
  | .openFile => regs.arg1
  | .readFile => regs.arg2
  | .mapFile => regs.arg2
  | _ => 0

variable (ctx : CallContext) (rounds : Nat) (regs : Registers)

/-- `Write` of a descriptor. -/
def Descriptor.writeAccesses (buf : UInt64) (len : Nat) : Descriptor → List Span
  | .terminal => textAccesses (ctx.char buf) (some len) rounds 0
  | .pipe _ => PipeWrite.accesses rounds (.start (ctx.buffer buf) len)
  | .file fd => ctx.volume.writeAccesses fd (ctx.buffer buf) len rounds

/-- `Read` of a descriptor. -/
def Descriptor.readAccesses (buf : UInt64) (len : Nat) : Descriptor → List Span
  | .terminal => Terminal.readAccesses (ctx.char buf) ctx.received rounds
  | .pipe fd => fd.readAccesses len ctx.received
  | .file fd => ctx.volume.readAccesses fd len rounds

/-- The characters of the path that `OpenFile` examines. -/
def openFileAccesses (path flags : UInt64) : List Span :=
  let char := ctx.char path
  let (compared, isStdin) := strcmp char stdinPath 0
  if isStdin then [⟨0, compared⟩]
  else
    let (examined, entry) := ctx.volume.findPath char rounds rounds 0 0
    [⟨0, compared⟩, ⟨0, examined⟩] ++
      -- `strrchr` in `CreateFile`
      if entry = some none ∧ hasCreat flags then strlenAccesses char rounds else []

/-- What a handler reads and writes through its pointer in the first rounds of its loops,
by offsets from the pointer. -/
def accesses : Handler → List Span
  | .logString =>
      if isLogLevel regs.arg1 then strlenAccesses (ctx.char regs.arg2) rounds else []
  | .putString =>
      if 1024 < regs.arg3 then []
      else match ctx.file regs.arg1.toNat with
        | none => []
        | some fd => fd.writeAccesses ctx rounds regs.arg2 regs.arg3.toNat
  | .openWindow => strlenAccesses (ctx.char regs.arg5) rounds
  | .winWriteString =>
      match ctx.layers.findLayer (regs.arg1.toNat % 2 ^ 32) with
      | none => []
      | some _ => textAccesses (ctx.char regs.arg5) none rounds 0
  | .readEvent =>
      if regs.arg1 < 0x8000000000000000 then []
      else eventAccesses (readEvents regs.arg2.toNat [] ctx.received)
  | .openFile => openFileAccesses ctx rounds regs.arg1 regs.arg2
  | .readFile =>
      (ctx.fileOfInt regs.arg1).elim [] fun fd =>
        fd.readAccesses ctx rounds regs.arg2 regs.arg3.toNat
  | .mapFile => (ctx.fileOfInt regs.arg1).elim [] fun _ => [⟨0, 8⟩]
  | .exit | .winFillRectangle | .getCurrentTick | .winRedraw | .winDrawLine | .closeWindow
  | .createTimer | .demandPages => []

/-- Where the memory of applications begins. -/
def userBase : Nat := 0xffff800000000000

/-- The handler accesses only memory of applications through its pointer. -/
def AccessesUser (handler : Handler) : Prop :=
  ∀ rounds, ∀ o, Touches (accesses ctx rounds regs handler) o →
    userBase ≤ ((pointer regs handler).toNat + o) % 2 ^ 64

/-- The call goes to a handler, and this one accesses only memory of applications. -/
def Confined (table : Nat) : Prop :=
  ∃ handler, target table regs.rax = some handler ∧ AccessesUser ctx regs handler

end Mikanos.Syscall
