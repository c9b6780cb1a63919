import Mikanos.Fat.Directory
import Mikanos.Fat.File
import Mikanos.Memory.Spans
import Mikanos.Screen.Font
import Mikanos.Syscall.AppEvent
import Mikanos.Terminal.Pipe

/-!
# What is done with an application's pointers

The functions that system calls hand pointers of the application to, with the bytes
that they read or write through them.  Strings end where the memory says so, so that
loops over them are cut after a number of rounds.
-/

namespace Mikanos

open Memory

/-- `strlen`, `strchr` and `strrchr`: the number of characters that the first rounds
examine, up to one at which the function stops. -/
def scan (char : Nat → UInt8) (stop : UInt8 → Bool) : Nat → Nat → Nat
  | 0, _ => 0
  | rounds + 1, i => if stop (char i) then 1 else scan char stop rounds (i + 1) + 1

/-- `strlen`. -/
def strlenAccesses (char : Nat → UInt8) (rounds : Nat) : List Span :=
  [⟨0, scan char (· = 0) rounds 0⟩]

/-- `strcmp` with a string of the kernel: how many characters it examines, and whether
the strings are equal. -/
def strcmp (char : Nat → UInt8) : List UInt8 → Nat → Nat × Bool
  | [], i => (i + 1, char i = 0)
  | c :: rest, i => if char i = c then strcmp char rest (i + 1) else (i + 1, false)

/-- The loops of `Terminal::Print` and of `WriteString`, which has no limit. -/
def textAccesses (char : Nat → UInt8) (limit : Option Nat) : Nat → Nat → List Span
  | 0, _ => []
  | rounds + 1, i =>
      if char i = 0 ∨ ¬ limit.all (i < ·) then [⟨i, 1⟩]
      else
        -- `ConvertUTF8To32`
        let bytes := Screen.countUTF8Size (char i)
        ⟨i, max 1 bytes⟩ :: textAccesses char limit rounds (i + bytes)

namespace Terminal

/-- The character that `TerminalFileDescriptor::Read` stores, when these messages are
received. -/
def readKey : List Message → Option UInt8
  | .keyPush modifier keycode ascii press :: rest =>
      if press = 0 then readKey rest
      else if modifier &&& controlBitMask ≠ 0 then
        -- Ctrl+D
        if keycode = 7 then none else readKey rest
      else some ascii
  | _ :: rest => readKey rest
  | [] => none

/-- `TerminalFileDescriptor::Read` stores a character and prints it from the buffer. -/
def readAccesses (char : Nat → UInt8) (received : List Message) (rounds : Nat) : List Span :=
  match readKey received with
  | none => []
  | some c => ⟨0, 1⟩ :: textAccesses (fun i => if i = 0 then c else char i) (some 1) rounds 0

namespace PipeDescriptor

/-- What `Read` copies to the buffer, when these messages are received. -/
def readAccesses (fd : PipeDescriptor) (len : Nat) (received : List Message) : List Span :=
  match fd.readCarry len with
  | some (_, copied) => [⟨0, copied.length⟩]
  | none =>
      match received.findSome? (fd.receive len) with
      | some (_, copied) => [⟨0, copied.length⟩]
      | none => []

end PipeDescriptor

/-- The loop of `PipeDescriptor::Write`. -/
def PipeWrite.accesses : Nat → PipeWrite → List Span
  | 0, _ => []
  | rounds + 1, write =>
      if write.sentBytes < write.len then
        ⟨write.sentBytes, write.chunk⟩ :: accesses rounds write.sendChunk.1
      else []

end Terminal

namespace Fat

namespace Volume

variable (v : Volume)

/-- The loop of `Read`. -/
def readLoopAccesses (len : Nat) : Nat → (total rdCluster rdClusterOff : Nat) → List Span
  | 0, _, _, _ => []
  | fuel + 1, total, rdCluster, rdClusterOff =>
      if total < len then
        match v.getSectorByCluster rdCluster with
        | .error _ => []
        | .ok _ =>
            let n := min (len - total) (v.bytesPerCluster - rdClusterOff)
            ⟨total, n⟩ ::
              if rdClusterOff + n = v.bytesPerCluster then
                match v.nextCluster rdCluster with
                | .error _ => []
                | .ok next => readLoopAccesses len fuel (total + n) next 0
              else readLoopAccesses len fuel (total + n) rdCluster (rdClusterOff + n)
      else []

/-- `Read`. -/
def readAccesses (fd : FileDescriptor) (len rounds : Nat) : List Span :=
  let rdCluster := if fd.rdCluster = 0 then v.firstCluster fd.fatEntry else fd.rdCluster
  let len := min len ((v.fileSize fd.fatEntry + 2 ^ 64 - fd.rdOff) % 2 ^ 64)
  v.readLoopAccesses len rounds 0 rdCluster fd.rdClusterOff

/-- The loop of `Write`. -/
def writeLoopAccesses (buf : Mem) (len : Nat) :
    Nat → Volume → (total wrCluster wrClusterOff : Nat) → List Span
  | 0, _, _, _, _ => []
  | fuel + 1, v, total, wrCluster, wrClusterOff =>
      if total < len then
        match v.advance len total wrCluster wrClusterOff with
        | .error _ => []
        | .ok (v, wrCluster, wrClusterOff) =>
            match v.getSectorByCluster wrCluster with
            | .error _ => []
            | .ok sec =>
                let n := min len (v.bytesPerCluster - wrClusterOff)
                ⟨total, n⟩ :: writeLoopAccesses buf len fuel (v.copyIn buf sec wrClusterOff total n)
                  (total + n) wrCluster (wrClusterOff + n)
      else []

/-- `Write`. -/
def writeAccesses (fd : FileDescriptor) (buf : Mem) (len rounds : Nat) : List Span :=
  match v.startWrite fd len with
  | .error _ => []
  | .ok (v, wrCluster) => writeLoopAccesses buf len rounds v 0 wrCluster fd.wrClusterOff

/-- `FindFile` for a path in memory: how many of its characters are examined, and, if the
function returns, the entry. -/
def findPath (char : Nat → UInt8) (rounds : Nat) : Nat → (i directoryCluster : Nat) →
    Nat × Option (Option Nat)
  | 0, i, _ => (i, none)
  | fuel + 1, i, directoryCluster =>
      let directoryCluster :=
        if char i = slash then v.bpb.rootCluster
        else if directoryCluster = 0 then v.bpb.rootCluster
        else directoryCluster
      let i := if char i = slash then i + 1 else i
      -- `strchr`, with a round for the first character
      let count := scan char (fun c => c = slash ∨ c = 0) (rounds + 1) i
      let last := i + count - 1
      let pathElem := (List.range (count - 1)).map fun k => char (i + k)
      if char last ≠ slash ∧ char last ≠ 0 then (i + count, none)
      else if 12 < pathElem.length then (i + count, none)
      else
        let pathLast := char last = 0 ∨ char (last + 1) = 0
        let examined := if char last = 0 then i + count else i + count + 1
        match v.findInDirectory pathElem (v.bpb.clusters + 2) directoryCluster with
        | .error _ => (examined, none)
        | .ok none => (examined, some none)
        | .ok (some entry) =>
            if v.attr entry = kDirectory ∧ ¬ pathLast then
              findPath char rounds fuel (last + 1) (v.firstCluster entry)
            else (examined, some (some entry))

end Volume

end Fat

end Mikanos
