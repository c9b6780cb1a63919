import Mikanos.Loader.Elf

/-!
# Launching an application

`LoadApp` and `ExecuteFile` up to the point where the application is entered.  An
executable is named by the address of its directory entry, which is also its key
in `app_loads`; what `LoadFile` reads from it comes as an argument.
-/

namespace Mikanos.Loader

open Mikanos.Memory Mikanos.Paging

/-- `AppLoadInfo`. -/
structure AppLoadInfo where
  vaddrEnd : Nat
  entry : BitVec 64
  pml4 : Nat

/-- What a launch works on: the machine, the page maps in the task's context,
the cache of loaded executables and the task's files. -/
structure Launcher where
  machine : Machine
  /-- `task.Context().cr3` -/
  contextCr3 : Nat
  appLoads : Nat → Option AppLoadInfo
  /-- `task.Files()`; a descriptor is named by its address -/
  files : List Nat
  task : AppTask

namespace Launcher

/-- A task that has launched nothing yet. -/
def idleLauncher (machine : Machine) : Launcher where
  machine := machine
  contextCr3 := machine.cr3
  appLoads := fun _ => none
  files := []
  task := ⟨0, 0, 0, []⟩

/-- `SetupPML4`. -/
def setupPML4 (s : Launcher) : Launcher × Except Error Nat :=
  match s.machine.setupPML4 with
  | (machine, .error e) => ({ s with machine }, .error e)
  | (machine, .ok pml4) => ({ s with machine, contextCr3 := pml4 }, .ok pml4)

/-- The outcome of a function that may end without a result. -/
def withResult (s : Launcher) : Machine × Option Error → Option (Launcher × Error)
  | (machine, some e) => some ({ s with machine }, e)
  | (_, none) => none

/-- `CopyPageMaps(dest, src, 4, 256)`; `none` when it ends without a result. -/
def copyPageMaps (s : Launcher) (dest src : Nat) : Option (Launcher × Error) :=
  s.withResult (s.machine.copyPageMaps 4 256 dest src)

/-- Insert a loaded executable into `app_loads`. -/
def insertApp (s : Launcher) (key : Nat) (appLoad : AppLoadInfo) : Launcher :=
  { s with appLoads := Function.update s.appLoads key (some appLoad) }

/-- Copy the page maps of a loaded executable, and return them for a launch. -/
def copyApp (s : Launcher) (appLoad : AppLoadInfo) (dest : Nat) :
    Option (Launcher × Except Error AppLoadInfo) :=
  (s.copyPageMaps dest appLoad.pml4).map fun
    | (s, .success) => (s, .ok { appLoad with pml4 := dest })
    | (s, e) => (s, .error e)

/-- `LoadApp`; `none` when the kernel faults or a function ends without a
result. -/
def loadApp (s : Launcher) (key : Nat) (file : ElfFile) :
    Option (Launcher × Except Error AppLoadInfo) :=
  match s.setupPML4 with
  | (s, .error e) => some (s, .error e)
  | (s, .ok tempPml4) =>
      match s.appLoads key with
      | some appLoad => s.copyApp appLoad tempPml4
      | none =>
          if file.magic = false then
            some (s, .error .invalidFile)
          else
            (Loading.loadELF file s.machine).bind fun
              | (l, .success) =>
                  let appLoad : AppLoadInfo :=
                    { vaddrEnd := l.lastAddr, entry := file.eEntry, pml4 := tempPml4 }
                  let s := { s with machine := l.machine }.insertApp key appLoad
                  match s.setupPML4 with
                  | (s, .error e) => some (s, .error e)
                  | (s, .ok pml4) => s.copyApp appLoad pml4
              | (l, e) => some ({ s with machine := l.machine }, .error e)

/-! ## Arguments -/

/-- `isspace`, for a byte. -/
def isspace (c : UInt8) : Bool :=
  c == 0x20 || (0x09 ≤ c && c ≤ 0x0d)

/-- The arguments that the loop of `MakeArgVector` finds in a string; `fuel`
bounds their number. -/
def arguments : Nat → List UInt8 → List (List UInt8)
  | 0, _ => []
  | fuel + 1, p =>
      match p.dropWhile isspace with
      | [] => []
      | c :: rest =>
          let p := c :: rest
          p.takeWhile (!isspace ·) :: arguments fuel (p.dropWhile (!isspace ·)).tail

/-- The state of `MakeArgVector`. -/
structure ArgVector where
  machine : Machine
  argc : Nat
  argbufIndex : Nat

/-- `push_to_argv`; `none` when a store faults. -/
def pushToArgv (argv : BitVec 64) (argvLen : Nat) (argbuf : BitVec 64) (argbufLen : Nat)
    (a : ArgVector) (str : List UInt8) : Option (ArgVector × Error) :=
  if argvLen ≤ a.argc ∨ argbufLen ≤ a.argbufIndex then
    some (a, .full)
  else
    let dst := argbuf + BitVec.ofNat 64 a.argbufIndex
    (a.machine.memcpy (argv + BitVec.ofNat 64 (8 * a.argc)) (Mem.leByte dst.toNat) 8).bind
      fun machine =>
        (machine.memcpy dst (fun i => str.getD i 0) (str.length + 1)).map fun machine =>
          ({ machine, argc := a.argc + 1, argbufIndex := a.argbufIndex + (str.length + 1) },
            .success)

/-- Push strings until one does not fit. -/
def pushAllToArgv (argv : BitVec 64) (argvLen : Nat) (argbuf : BitVec 64) (argbufLen : Nat) :
    List (List UInt8) → ArgVector → Option (ArgVector × Error)
  | [], a => some (a, .success)
  | str :: rest, a =>
      (pushToArgv argv argvLen argbuf argbufLen a str).bind fun
        | (a, .success) => pushAllToArgv argv argvLen argbuf argbufLen rest a
        | (a, e) => some (a, e)

/-- `MakeArgVector`. -/
def makeArgVector (s : Machine) (command : List UInt8) (firstArg : Option (List UInt8))
    (argv : BitVec 64) (argvLen : Nat) (argbuf : BitVec 64) (argbufLen : Nat) :
    Option (ArgVector × Error) :=
  let args := match firstArg with
    | none => []
    | some str => arguments (str.length + 1) str
  pushAllToArgv argv argvLen argbuf argbufLen (command :: args)
    { machine := s, argc := 0, argbufIndex := 0 }

/-! ## `ExecuteFile` -/

/-- `args_frame_addr`. -/
def argsFrameAddr : BitVec 64 := 0xfffffffffffff000#64

/-- `stack_size`. -/
def stackSize : Nat := 16 * 4096

/-- `stack_frame_addr`. -/
def stackFrameAddr : BitVec 64 := 0xfffffffffffff000#64 - BitVec.ofNat 64 stackSize

/-- The arguments of `CallApp`. -/
structure Call where
  argc : Nat
  argv : BitVec 64
  rip : BitVec 64
  rsp : BitVec 64

/-- `SetupPageMaps`, with the default for `writable`. -/
def setupPageMaps (s : Launcher) (addr : BitVec 64) (num4kpages : Nat) : Launcher × Error :=
  let (machine, e) := s.machine.setupPageMaps (.ofValue addr) num4kpages true
  ({ s with machine }, e)

/-- `ExecuteFile` after the arguments have been copied, up to the call of the
application.  `termFiles` are the terminal's own files. -/
def prepareCall (s : Launcher) (termFiles : List Nat) (appLoad : AppLoadInfo) (argc : Nat) :
    Launcher × Except Error Call :=
  match s.setupPageMaps stackFrameAddr (stackSize / 4096) with
  | (s, .success) =>
      let elfNextPage := (BitVec.ofNat 64 appLoad.vaddrEnd + 4095) &&& 0xfffffffffffff000#64
      ({ s with
          files := s.files ++ termFiles
          task := { s.task with
            dpagingBegin := elfNextPage.toNat
            dpagingEnd := elfNextPage.toNat
            fileMapEnd := stackFrameAddr.toNat } },
        .ok { argc, argv := argsFrameAddr, rip := appLoad.entry,
              rsp := stackFrameAddr + BitVec.ofNat 64 (stackSize - 8) })
  | (s, e) => (s, .error e)

/-- `ExecuteFile` up to the call of the application; `none` when the kernel
faults or a function ends without a result. -/
def executeFile (s : Launcher) (termFiles : List Nat) (key : Nat) (file : ElfFile)
    (command : List UInt8) (firstArg : Option (List UInt8)) :
    Option (Launcher × Except Error Call) :=
  (s.loadApp key file).bind fun
    | (s, .error e) => some (s, .error e)
    | (s, .ok appLoad) =>
        match s.setupPageMaps argsFrameAddr 1 with
        | (s, .success) =>
            let argvLen := 31
            let argbuf := argsFrameAddr + BitVec.ofNat 64 (8 * argvLen)
            (makeArgVector s.machine command firstArg argsFrameAddr argvLen argbuf
              (4095 - 8 * argvLen)).map fun
                | (a, .success) => { s with machine := a.machine }.prepareCall termFiles appLoad a.argc
                | (a, e) => ({ s with machine := a.machine }, .error e)
        | (s, e) => some (s, .error e)

end Launcher
end Mikanos.Loader
