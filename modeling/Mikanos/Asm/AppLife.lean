import Mikanos.Asm.SystemCall
import Mikanos.Transition.Run

/-!
# The life of an app

`CallApp` leaves the kernel by a far return and never comes back on its own: the
registers that its caller needs stay on the stack of the kernel, whose pointer is
kept in the task.  `ExitApp` pops them, whenever the app exits or is killed, and
returns to the caller of `CallApp`.
-/

namespace Mikanos.Asm

open Memory Space Transition

/-- `CallApp`, up to `retf`. -/
def callApp : List Instr :=
  [ .push .rbx,
    .push .rbp,
    .push .r12,
    .push .r13,
    .push .r14,
    .push .r15,
    .storeMem .r9 0 .rsp,
    .push .rdx,
    .push .r8,
    .add .rdx 8,
    .push .rdx,
    .push .rcx ]

/-! ## Leaving for the app -/

/-- What lies on the stack of the kernel while the app runs, from the return address
of `CallApp` down. -/
def suspendedWords (caller : Machine) (ret : BitVec 64) : List (BitVec 64) :=
  ret :: [Reg.rbx, .rbp, .r12, .r13, .r14, .r15].map caller.cpu.gpr

/-- The caller of `CallApp` waits: its registers are on the stack of the kernel, whose
pointer is kept at `q`. -/
structure Suspended (caller : Machine) (ret q : BitVec 64) (mem : Space) : Prop where
  pointer : mem.load q = caller.below 7
  word : ∀ o value, (o, value) ∈ descending (suspendedWords caller ret) →
    mem.load (caller.below 7 + BitVec.ofNat 64 o) = value

theorem Suspended.congr {caller : Machine} {ret q : BitVec 64} {mem mem' : Space}
    (suspended : Suspended caller ret q mem) (stack : Agree mem' mem (caller.below 7) 56)
    (pointer : Agree mem' mem q 8) : Suspended caller ret q mem' where
  pointer := pointer.load_eq.trans suspended.pointer
  word := by
    intro o value member
    have inside := descending_inside o (List.mem_map_of_mem member)
    exact (stack.part inside).load_eq.trans (suspended.word o value member)

/-- The app is started. -/
structure Started (caller started : Machine) : Prop where
  rip : started.cpu.rip = caller.cpu.gpr .rcx
  rsp : started.cpu.gpr .rsp = caller.cpu.gpr .r8
  argc : started.cpu.gpr .rdi = caller.cpu.gpr .rdi
  argv : started.cpu.gpr .rsi = caller.cpu.gpr .rsi
  cs : started.cpu.seg .cs = (caller.cpu.gpr .rdx + 8).setWidth 16
  ss : started.cpu.seg .ss = (caller.cpu.gpr .rdx).setWidth 16

section Leaving

variable {caller : Machine} {ret : BitVec 64}

/-- The registers are pushed, with their pointer stored. -/
def suspend (caller : Machine) (ret : BitVec 64) : Machine :=
  let pushed := caller.pushes (suspendedWords caller ret)
  { pushed with mem := pushed.mem.store (caller.cpu.gpr .r9) (caller.below 7) }

theorem saved_kept (m : Machine) (n : Nat) :
    ∀ operand ∈ [Reg.rbx, .rbp, .r12, .r13, .r14, .r15].map Operand.reg, operand.Kept m n := by
  intro operand member
  obtain ⟨r, among, rfl⟩ := List.mem_map.mp member
  intro same
  exact absurd among (by rw [same]; decide)

theorem run_suspend (rest : List Instr) :
    run (.push .rbx :: .push .rbp :: .push .r12 :: .push .r13 :: .push .r14 :: .push .r15 ::
      .storeMem .r9 0 .rsp :: rest) (caller.call ret) = run rest (suspend caller ret) := by
  have pushes := run_push (saved_kept (caller.call ret) 6) (.storeMem .r9 0 .rsp :: rest)
  have frame : (caller.call ret).pushes
      (([Reg.rbx, .rbp, .r12, .r13, .r14, .r15].map Operand.reg).map
        (Operand.value (caller.call ret))) = caller.pushes (suspendedWords caller ret) :=
    (Machine.pushes_cons caller ret _).symm
  rw [frame] at pushes
  refine Eq.trans pushes ?_
  rw [run_cons rfl]
  have place : (caller.pushes (suspendedWords caller ret)).addr .r9 0 = caller.cpu.gpr .r9 :=
    BitVec.add_zero _
  have pointer : (caller.pushes (suspendedWords caller ret)).cpu.gpr .rsp = caller.below 7 := rfl
  rw [place, pointer]
  rfl

/-- What waits while the app runs. -/
theorem suspended_suspend (apart : Separate (caller.below 7) 56 (caller.cpu.gpr .r9) 8) :
    Suspended caller ret (caller.cpu.gpr .r9) (suspend caller ret).mem where
  pointer := load_store_same _
  word := by
    intro o value member
    have inside := descending_inside o (List.mem_map_of_mem member)
    have outside : Separate (caller.cpu.gpr .r9) 8 (caller.below 7 + BitVec.ofNat 64 o) 8 :=
      (apart.part inside (by decide) (by decide)).symm
    refine (agree_store outside).load_eq.trans ?_
    have small : 8 * 7 ≤ 2 ^ 64 := by decide
    exact Machine.load_pushes small (lookup_of_apart (descending_apart _) member)

/-- The frame of the far return. -/
def farFrame (m : Machine) : List (Nat × BitVec 64) :=
  [ (24, m.cpu.gpr .rdx), (16, m.cpu.gpr .r8), (8, m.cpu.gpr .rdx + 8), (0, m.cpu.gpr .rcx) ]

/-- The app is entered by the frame, below the words that wait. -/
theorem run_leaveKernel {m : Machine} {b : BitVec 64} (top : m.cpu.gpr .rsp = b + BitVec.ofNat 64 32) :
    ∃ left, run [.push .rdx, .push .r8, .add .rdx 8, .push .rdx, .push .rcx] m = some left ∧
      left.cpu.gpr .rsp = b ∧ left.cpu.gpr .rdi = m.cpu.gpr .rdi ∧
      left.cpu.gpr .rsi = m.cpu.gpr .rsi ∧ left.mem = m.mem.storeWords b (farFrame m) := by
  have down (i : Nat) (inside : 8 ≤ i) :
      b + BitVec.ofNat 64 i - 8 = b + BitVec.ofNat 64 (i - 8) := offset_sub b inside
  have one : m.cpu.gpr .rsp - 8 = b + BitVec.ofNat 64 24 :=
    (congrArg (· - 8) top).trans (down 32 (by decide))
  have two : m.cpu.gpr .rsp - 8 - 8 = b + BitVec.ofNat 64 16 :=
    (congrArg (· - 8) one).trans (down 24 (by decide))
  have three : m.cpu.gpr .rsp - 8 - 8 - 8 = b + BitVec.ofNat 64 8 :=
    (congrArg (· - 8) two).trans (down 16 (by decide))
  have four : m.cpu.gpr .rsp - 8 - 8 - 8 - 8 = b + BitVec.ofNat 64 0 :=
    (congrArg (· - 8) three).trans (down 8 (by decide))
  rw [run_cons rfl, run_cons rfl, run_cons rfl, run_cons rfl, run_cons rfl, run]
  refine ⟨_, rfl, four.trans (BitVec.add_zero b), rfl, rfl, ?_⟩
  change (((m.mem.store (m.cpu.gpr .rsp - 8) (m.cpu.gpr .rdx)).store
    (m.cpu.gpr .rsp - 8 - 8) (m.cpu.gpr .r8)).store
    (m.cpu.gpr .rsp - 8 - 8 - 8) (m.cpu.gpr .rdx + 8)).store
    (m.cpu.gpr .rsp - 8 - 8 - 8 - 8) (m.cpu.gpr .rcx) = _
  rw [four, three, two, one]
  rfl

/-- `CallApp` starts the app, and its caller waits. -/
theorem run_callApp (apart : Separate (caller.below 11) 88 (caller.cpu.gpr .r9) 8) :
    ∃ started, (run callApp (caller.call ret)).map Machine.retf = some started ∧
      Started caller started ∧ Suspended caller ret (caller.cpu.gpr .r9) started.mem := by
  have stack : caller.below 7 = caller.below 11 + BitVec.ofNat 64 32 := (caller.below_add 7 4).symm
  obtain ⟨left, runs, rsp, rdi, rsi, mem⟩ := run_leaveKernel (m := suspend caller ret) stack
  rw [callApp, run_suspend, runs, Option.map_some]
  have places : [24, 16, 8, 0].Pairwise WordsApart ∧ ∀ o ∈ [24, 16, 8, 0], o + 8 ≤ 2 ^ 64 := by
    decide
  have word {o : Nat} {value : BitVec 64}
      (found : (farFrame (suspend caller ret)).lookup o = some value) :
      left.mem.load (left.cpu.gpr .rsp + BitVec.ofNat 64 o) = value := by
    rw [rsp, mem]
    exact load_storeWords places.1 places.2 found
  have cs := congrArg (BitVec.setWidth 16) (word (o := 8) rfl)
  have ss := congrArg (BitVec.setWidth 16) (word (o := 24) rfl)
  refine ⟨_, rfl, ⟨word rfl, word rfl, rdi, rsi, cs, ss⟩, ?_⟩
  have waits : Suspended caller ret (caller.cpu.gpr .r9) (suspend caller ret).mem := by
    refine suspended_suspend ?_
    rw [stack]
    exact apart.part (by decide) (by decide) (by decide)
  have frame {a : BitVec 64} {n : Nat} (outside : Separate (caller.below 11) 32 a n) :
      Agree left.retf.mem (suspend caller ret).mem a n := by
    have inside : ∀ o ∈ [24, 16, 8, 0], o + 8 ≤ 32 := by decide
    change Agree left.mem _ a n
    rw [mem]
    exact agree_storeWords outside inside
  refine waits.congr (frame ?_) (frame (apart.initial (by decide)))
  have above := separate_of_offsets (a := caller.below 11) (o := 0) (n := 32) (m := 56)
    (.inl le_rfl) (by decide) (by decide) (by decide) (by decide)
  rw [BitVec.add_zero] at above
  rwa [stack]

end Leaving

/-! ## Coming back -/

/-- `CallApp` has returned to its caller. -/
structure Returned (caller : Machine) (ret : BitVec 64) (code : BitVec 32) (fin : Machine) :
    Prop where
  rip : fin.cpu.rip = ret
  rsp : fin.cpu.gpr .rsp = caller.cpu.gpr .rsp
  gpr : ∀ r ∈ calleeSaved, fin.cpu.gpr r = caller.cpu.gpr r
  code : fin.low .rax = code

section Coming

variable {caller m : Machine} {ret q : BitVec 64}

/-- `ExitApp` returns to the caller that waits. -/
theorem run_exitApp (suspended : Suspended caller ret q m.mem)
    (pointer : m.cpu.gpr .rdi = caller.below 7) :
    ∃ fin, (runOps exitApp m).map Machine.ret = some fin ∧
      Returned caller ret (m.low .rsi) fin ∧ fin.cpu.seg = m.cpu.seg := by
  obtain ⟨moved, isMoved⟩ : ∃ moved, moved =
      (m.set .rsp (m.cpu.gpr .rdi)).setLow .rax (m.low .rsi) := ⟨_, rfl⟩
  have top : moved.cpu.gpr .rsp = caller.below 7 + BitVec.ofNat 64 0 := by
    rw [isMoved, BitVec.add_zero]
    exact pointer
  have code : moved.low .rax = m.low .rsi := by
    rw [isMoved]
    change ((m.low .rsi).setWidth 64).setWidth 32 = m.low .rsi
    rw [BitVec.setWidth_setWidth_of_le _ (by decide), BitVec.setWidth_eq]
  have seg : moved.cpu.seg = m.cpu.seg := by rw [isMoved]; rfl
  have memory : moved.mem = m.mem := by rw [isMoved]; rfl
  have starts : runOps exitApp m =
      runOps ([Reg.r15, .r14, .r13, .r12, .rbp, .rbx].map (Op.plain ∘ Instr.pop)) moved := by
    rw [exitApp, runOps_cons rfl, runOps_cons rfl, isMoved]
    rfl
  rw [starts, runOps_pop (caller.below 7) 0 (by decide) (by decide) top, Option.map_some]
  have word {o : Nat} {value : BitVec 64}
      (member : (o, value) ∈ descending (suspendedWords caller ret)) :
      moved.mem.load (caller.below 7 + BitVec.ofNat 64 o) = value := by
    rw [memory]
    exact suspended.word o value member
  refine ⟨_, rfl, ⟨?_, ?_, fun r member => ?_, code⟩, seg⟩
  · change moved.mem.load (caller.below 7 + BitVec.ofNat 64 48 + BitVec.ofNat 64 (8 * 0)) = _
    rw [offset_add]
    exact word (by simp [descending, suspendedWords])
  · change caller.below 7 + BitVec.ofNat 64 48 + BitVec.ofNat 64 8 = _
    rw [offset_add]
    exact BitVec.sub_add_cancel _ _
  · cases r
    case rbx => exact word (o := 40) (by simp [descending, suspendedWords])
    case rbp => exact word (o := 32) (by simp [descending, suspendedWords])
    case r12 => exact word (o := 24) (by simp [descending, suspendedWords])
    case r13 => exact word (o := 16) (by simp [descending, suspendedWords])
    case r14 => exact word (o := 8) (by simp [descending, suspendedWords])
    case r15 => exact word (o := 0) (by simp [descending, suspendedWords])
    all_goals exact absurd member (by decide)

/-- The system call of `m` has come to its handler, which returns.  The stack of the app
is apart from that of the kernel, where the handler keeps what waits. -/
structure Serves (caller : Machine) (room : Nat) (q : BitVec 64) (m called back : Machine) :
    Prop where
  apart : Separate (m.entryArea room) (room + 64) (caller.below 9) 72
  apart' : Separate (m.entryArea room) (room + 64) q 8
  reaches : ∃ asked told, runOps enterSyscall m.syscall = some asked ∧ Told room q asked told ∧
    runOps switchStack told = some called
  handled : Handled called back
  stack : Agree back.mem called.mem (caller.below 7) 56
  pointer : Agree back.mem called.mem q 8

/-- What happens while an app runs. -/
inductive Happening
  | runs  -- the app runs, or is interrupted
  | calls  -- a system call other than `Exit`
  deriving DecidableEq

inductive Happens (caller : Machine) (room : Nat) (q : BitVec 64) :
    Machine → Happening → Machine → Prop
  | runs {m m' : Machine} : Agree m'.mem m.mem (caller.below 7) 56 → Agree m'.mem m.mem q 8 →
      Happens caller room q m .runs m'
  | calls {m called back m' : Machine} : Serves caller room q m called back →
      m.low .rax ≠ exitNumber → afterHandler back = some m' → Happens caller room q m .calls m'

/-- What `Exit` returns: the stack pointer that the task keeps, and the code. -/
structure Exits (q : BitVec 64) (called back : Machine) : Prop where
  value : back.cpu.gpr .rax = called.mem.load q
  error : back.low .rdx = called.low .rdi

theorem below_two (caller : Machine) :
    caller.below 7 - BitVec.ofNat 64 16 = caller.below 9 := by
  rw [BitVec.sub_eq_iff_eq_add]
  exact (caller.below_add 7 2).symm

/-- A handler finds what waits, and leaves it. -/
theorem Serves.suspended {room : Nat} {called back : Machine} (positive : 0 < room)
    (serves : Serves caller room q m called back) (kernel : Separate (caller.below 9) 16 q 8)
    (suspended : Suspended caller ret q m.mem) :
    Called q m called ∧ Framed m called ∧ Suspended caller ret q called.mem ∧
      Suspended caller ret q back.mem := by
  obtain ⟨asked, told, enters, tells, switches⟩ := serves.reaches
  have bottom : m.mem.load q - BitVec.ofNat 64 16 = caller.below 9 := by
    rw [suspended.pointer, below_two]
  have apart : Separate (m.entryArea room) (room + 64) (m.mem.load q - BitVec.ofNat 64 16) 16 := by
    rw [bottom]
    exact (serves.apart.symm.initial (by decide)).symm
  obtain ⟨asked', enters', goesOn⟩ := run_entry positive apart serves.apart'
  rw [enters] at enters'
  cases enters'
  obtain ⟨called', switches', calls, frame, kept⟩ := goesOn told tells
  rw [switches] at switches'
  cases switches'
  rw [bottom] at kept
  have above : Separate (caller.below 9) 16 (caller.below 7) 56 := by
    have offsets := separate_of_offsets (a := caller.below 9) (o := 0) (n := 16) (m := 56)
      (.inl le_rfl) (by decide) (by decide) (by decide) (by decide)
    rwa [BitVec.add_zero, caller.below_add 7 2] at offsets
  have outside : Separate (m.entryArea room) (room + 64) (caller.below 7) 56 := by
    rw [← caller.below_add 7 2]
    exact serves.apart.part_right (by decide) (by omega) (by decide)
  have waits : Suspended caller ret q called.mem :=
    suspended.congr (kept _ 56 (by decide) outside above)
      (kept q 8 (by decide) serves.apart' kernel)
  exact ⟨calls, frame, waits, waits.congr serves.stack serves.pointer⟩

/-- The caller waits all the while. -/
def Waits (caller : Machine) (ret q : BitVec 64) (m : Machine) : Prop :=
  Suspended caller ret q m.mem

/-- What waits is kept by all that happens. -/
theorem Happens.waits {room : Nat} {m' : Machine} {happening : Happening}
    (positive : 0 < room) (kernel : Separate (caller.below 9) 16 q 8)
    (happens : Happens caller room q m happening m') (waits : Waits caller ret q m) :
    Waits caller ret q m' := by
  cases happens with
  | runs stack pointer => exact Suspended.congr waits stack pointer
  | calls serves number leaves =>
      obtain ⟨calls, frame, -, waits'⟩ := serves.suspended positive kernel waits
      obtain ⟨resumed, leaves', resumes⟩ := afterHandler_resumes calls frame serves.handled number
      rw [leaves] at leaves'
      cases leaves'
      rwa [Waits, resumes.mem]

/-- `Exit` goes on with `ExitApp`. -/
theorem afterHandler_exits {called back : Machine} (calls : Called q m called)
    (frame : Framed m called) (handled : Handled called back) (number : m.low .rax = exitNumber)
    (exits : Exits q called back) (waits : Suspended caller ret q called.mem)
    (waits' : Suspended caller ret q back.mem) :
    ∃ fin, afterHandler back = some fin ∧ Returned caller ret (m.low .rdi) fin ∧
      fin.cpu.seg = m.syscall.cpu.seg := by
  obtain ⟨left, leaves, zero, -, gpr, seg, mem⟩ := run_leaveHandled back
  have frame' := frame.handled handled
  rw [Machine.low] at number
  rw [frame'.rbp, frame'.number, decide_eq_true number] at zero
  obtain ⟨moved, isMoved⟩ : ∃ moved, moved =
      (left.set .rdi (left.cpu.gpr .rax)).setLow .rsi (left.low .rdx) := ⟨_, rfl⟩
  have starts : runOps (exitBranch ++ exitApp) left = runOps exitApp moved := by
    change runOps (.plain (.mov .rdi .rax) :: .mov32 .rsi .rdx :: exitApp) left = _
    rw [runOps_cons rfl, runOps_cons rfl, isMoved]
    rfl
  have pointer : moved.cpu.gpr .rdi = caller.below 7 := by
    rw [isMoved]
    change left.cpu.gpr .rax = _
    rw [gpr .rax (by decide), exits.value, waits.pointer]
  have code : moved.low .rsi = m.low .rdi := by
    rw [isMoved]
    change ((left.low .rdx).setWidth 64).setWidth 32 = _
    rw [BitVec.setWidth_setWidth_of_le _ (by decide), BitVec.setWidth_eq, Machine.low,
      gpr .rdx (by decide)]
    exact exits.error.trans (congrArg (BitVec.setWidth 32) (calls.gpr .rdi (by decide)))
  have waits'' : Suspended caller ret q moved.mem := by
    rw [isMoved]
    change Suspended caller ret q left.mem
    rwa [mem]
  have segments : moved.cpu.seg = m.syscall.cpu.seg := by
    rw [isMoved]
    exact seg.trans (handled.seg.trans calls.seg)
  obtain ⟨fin, runs, returned, seg'⟩ := run_exitApp waits'' pointer
  rw [afterHandler, leaves, Option.bind_some, zero, if_pos rfl, starts]
  exact ⟨fin, runs, code ▸ returned, seg'.trans segments⟩

end Coming

/-- `CallApp` starts the app, and whatever the app does and whichever system calls it makes,
`Exit` and `ExitApp` return from `CallApp`, with the registers that its caller keeps. -/
theorem callApp_returns {room : Nat} {caller : Machine} {ret : BitVec 64} (positive : 0 < room)
    (apart : Separate (caller.below 11) 88 (caller.cpu.gpr .r9) 8) :
    ∃ started, (run callApp (caller.call ret)).map Machine.retf = some started ∧
      Started caller started ∧
      ∀ happenings m, Run (Happens caller room (caller.cpu.gpr .r9)) started happenings m →
        (∀ called back, Serves caller room (caller.cpu.gpr .r9) m called back →
          m.low .rax = exitNumber → Exits (caller.cpu.gpr .r9) called back →
            ∃ fin, afterHandler back = some fin ∧ Returned caller ret (m.low .rdi) fin) ∧
        (∀ killer : Machine, Agree killer.mem m.mem (caller.below 7) 56 →
          Agree killer.mem m.mem (caller.cpu.gpr .r9) 8 →
            killer.cpu.gpr .rdi = killer.mem.load (caller.cpu.gpr .r9) → ∃ fin,
              (runOps exitApp killer).map Machine.ret = some fin ∧
                Returned caller ret (killer.low .rsi) fin) := by
  obtain ⟨started, starts, isStarted, waits⟩ := run_callApp apart
  have kernel : Separate (caller.below 9) 16 (caller.cpu.gpr .r9) 8 := by
    rw [← caller.below_add 9 2]
    exact apart.part (by decide) (by decide) (by decide)
  refine ⟨started, starts, isStarted, fun happenings m happened => ?_⟩
  have waits' : Waits caller ret (caller.cpu.gpr .r9) m :=
    happened.invariant (fun _ _ _ waits happens => happens.waits positive kernel waits) waits
  refine ⟨fun called back serves number exits => ?_, fun killer stack pointer rdi => ?_⟩
  · obtain ⟨calls, frame, reached, left⟩ := serves.suspended positive kernel waits'
    obtain ⟨fin, leaves, returned, -⟩ :=
      afterHandler_exits calls frame serves.handled number exits reached left
    exact ⟨fin, leaves, returned⟩
  · have waits'' := waits'.congr stack pointer
    obtain ⟨fin, runs, returned, -⟩ := run_exitApp waits'' (rdi.trans waits''.pointer)
    exact ⟨fin, runs, returned⟩

/-- A caller of `CallApp`, for a task that keeps the stack pointer at `0x5000`. -/
def sampleCaller : Machine where
  cpu := { sampleApp.cpu with
    gpr := fun r =>
      if r = .rsp then 0x90040 else if r = .r9 then 0x5000 else if r = .rdx then 0x1b
      else BitVec.ofNat 64 r.offset }
  mem := fun _ => 0

/-- The app has a stack, and calls `Exit` with a code. -/
def exiting (started : Machine) : Machine :=
  ((started.set .rsp 0x40000).set .rax 0x80000002).set .rdi 5

theorem callApp_returns_sample : ∃ started called back fin,
    (run callApp (sampleCaller.call 0x1234)).map Machine.retf = some started ∧
      Serves sampleCaller 64 0x5000 (exiting started) called back ∧ afterHandler back = some fin ∧
      Returned sampleCaller 0x1234 5 fin := by
  obtain ⟨started, starts, -, lives⟩ :=
    @callApp_returns 64 sampleCaller 0x1234 (by decide) (by decide)
  have waits : Suspended sampleCaller 0x1234 0x5000 (exiting started).mem := by
    obtain ⟨started', starts', -, waits⟩ :=
      @run_callApp sampleCaller 0x1234 (by decide)
    rw [starts] at starts'
    cases starts'
    exact waits
  have bottom : (exiting started).mem.load 0x5000 - BitVec.ofNat 64 16 = sampleCaller.below 9 := by
    rw [waits.pointer, below_two]
  have area : (exiting started).entryArea 64 = 0x40000 - BitVec.ofNat 64 (64 + 64) := rfl
  have apart : Separate ((exiting started).entryArea 64) (64 + 64) (sampleCaller.below 9) 72 := by
    rw [area]
    decide
  have apart' : Separate ((exiting started).entryArea 64) (64 + 64) 0x5000 8 := by
    rw [area]
    decide
  have apart'' := (apart.symm.initial (k := 16) (by decide)).symm
  rw [← bottom] at apart''
  obtain ⟨asked, enters, goesOn⟩ := @run_entry 64 0x5000 (exiting started) (by decide)
    apart'' apart'
  have tells : Told 64 0x5000 asked (asked.set .rax (asked.mem.load 0x5000)) :=
    ⟨rfl, fun r other => Cpu.set_other _ _ other, rfl, fun a n _ => .refl _ a n⟩
  obtain ⟨called, switches, -, -, -⟩ := goesOn _ tells
  have serves : Serves sampleCaller 64 0x5000 (exiting started) called
      ((called.set .rax (called.mem.load 0x5000)).set .rdx (called.cpu.gpr .rdi)) := by
    refine ⟨apart, apart', ⟨asked, _, enters, tells, switches⟩, ⟨fun r member => ?_, rfl,
      .refl _ _ _⟩, .refl _ _ _, .refl _ _ _⟩
    cases r
    case rax => exact absurd member (by decide)
    case rdx => exact absurd member (by decide)
    all_goals rfl
  obtain ⟨exits, -⟩ := lives [.runs] (exiting started)
    (.single (.runs (.refl _ _ _) (.refl _ _ _)))
  obtain ⟨fin, leaves, returned⟩ := exits called _ serves rfl ⟨rfl, rfl⟩
  exact ⟨started, called, _, fin, starts, serves, leaves, returned⟩

end Mikanos.Asm
