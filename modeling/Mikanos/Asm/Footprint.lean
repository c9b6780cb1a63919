import Mikanos.Asm.Returning
import Mikanos.Asm.Switching

/-!
# What the switch of contexts writes

A context lies in the memory that all tasks share while its task does not run.
Each of the sequences keeps what is separate from the few areas that it writes:
the frame on the stack of the interrupt, the words below the stack pointer of its
caller, and the context that is saved.  `Task::InitContext` writes one context.
-/

namespace Mikanos.Asm

open Memory Space

section Building

variable {gate : Gate} {m : Machine} {b : BitVec 64} {n : Nat}

/-- An interrupt pushes five words. -/
theorem agree_interrupt (apart : Separate (builtAt gate) 752 b n) (positive : 0 < n) :
    Agree (interrupt gate m).mem m.mem b n := by
  have stack : (m.set .rsp (gate.ist &&& ~~~0xf)).below 5 = builtAt gate + BitVec.ofNat 64 712 :=
    interrupt_rsp gate m
  have frame : Separate ((m.set .rsp (gate.ist &&& ~~~0xf)).below 5) 40 b n := by
    rw [stack]
    exact apart.part (by decide) (by decide) positive
  exact Machine.agree_pushes (m := m.set .rsp (gate.ist &&& ~~~0xf)) frame

/-- The handler writes its frame and the context. -/
theorem Entered.agree {p : BitVec 64} {m' : Machine} (entered : Entered m p m')
    (apart : Separate p 752 b n) (positive : 0 < n) :
    Agree (pushControl (pushGeneral m')).mem m.mem b n := by
  have lower : Separate ((pushGeneral m').below 8) 64 b n := by
    rw [entered.belowControl]
    exact apart.initial (by decide)
  have upper : Separate (m'.below 16) 128 b n := by
    rw [entered.belowGeneral]
    exact apart.part (by decide) (by decide) positive
  have image : Separate (p + BitVec.ofNat 64 192) 464 b n :=
    apart.part (by decide) (by decide) positive
  have base : Separate (p + BitVec.ofNat 64 704) 8 b n :=
    apart.part (by decide) (by decide) positive
  have control : Agree (pushControl (pushGeneral m')).mem (pushGeneral m').mem b n :=
    Machine.agree_pushes lower
  have general : Agree (pushGeneral m').mem m'.mem b n := Machine.agree_pushes upper
  have enters : Agree m'.mem m.mem b n := by
    rw [entered.mem]
    exact (agree_storeBytes image).trans (agree_store base)
  exact control.trans (general.trans enters)

/-- Up to the call of `LAPICTimerOnInterrupt`, what is separate from the frame is
kept, and the context in the frame is that of the task which was interrupted. -/
theorem run_interrupted (gate : Gate) (m : Machine) :
    ∃ built, run buildContext (interrupt gate m) = some built ∧
      built.cpu.gpr .rdi = builtAt gate ∧ (contextAt built.mem (builtAt gate)).cpu = m.cpu ∧
      ∀ b n, Separate (builtAt gate) 752 b n → 0 < n → Agree built.mem m.mem b n := by
  obtain ⟨m', entered, builds⟩ := run_build (interrupt_rsp gate m) (aligned_builtAt gate)
  refine ⟨_, builds, Cpu.set_same _ _ _, entered.contextAt_interrupt, fun b n apart positive => ?_⟩
  exact (entered.agree apart positive).trans (agree_interrupt apart positive)

end Building

/-! ## Leaving -/

/-- The instructions that do not write the memory. -/
def Instr.readOnly : Instr → Bool
  | .loadMem .. | .mov .. | .lea .. | .add .. | .sub .. | .pop .. | .loadCr3 .. | .storeCr3 ..
  | .loadSeg .. | .storeSeg .. | .fxrstor .. | .iret => true
  | .storeMem .. | .push .. | .pushMem .. | .popMem .. | .pushfq | .fxsave .. => false

theorem mem_of_exec {instr : Instr} {m next : Machine} (reads : instr.readOnly = true)
    (does : exec instr m = some next) : next.mem = m.mem := by
  cases instr with
  | fxrstor base off =>
      by_cases aligned : Aligned (m.addr base off)
      · rw [exec, if_pos aligned] at does
        cases does
        rfl
      · rw [exec, if_neg aligned] at does
        cases does
  | storeMem | push | pushMem | popMem | pushfq | fxsave => cases reads
  | _ =>
      cases does
      rfl

theorem mem_of_run {code : List Instr} {m next : Machine}
    (reads : ∀ instr ∈ code, instr.readOnly = true) (does : run code m = some next) :
    next.mem = m.mem := by
  induction code generalizing m with
  | nil =>
      cases does
      rfl
  | cons instr code ih =>
      obtain ⟨first, rest⟩ := List.forall_mem_cons.mp reads
      obtain ⟨middle, executes, runs⟩ := Option.bind_eq_some_iff.mp does
      exact (ih rest runs).trans (mem_of_exec first executes)

/-- The way back from the interrupt only reads. -/
theorem mem_leaveHandler {m next : Machine} (does : run leaveHandler m = some next) :
    next.mem = m.mem :=
  mem_of_run (by decide) does

/-! ## Saving -/

namespace Machine

/-- A word of a frame, counted from the top of the stack. -/
theorem separate_below {m : Machine} {b : BitVec 64} {n k len : Nat}
    (apart : Separate (m.below (n + k)) (8 * (n + k)) b len) (some : 0 < n) (positive : 0 < len) :
    Separate (m.below n) 8 b len := by
  rw [← m.below_add n k]
  exact apart.part (by omega) (by decide) positive

theorem call_rsp (m : Machine) (ret : BitVec 64) : (m.call ret).cpu.gpr .rsp = m.below 1 :=
  Cpu.set_same m.cpu .rsp _

theorem call_below (m : Machine) (ret : BitVec 64) (n : Nat) :
    (m.call ret).below n = m.below (n + 1) :=
  below_pushValue m ret n

end Machine

theorem agree_savedSpace {mem : Space} {p ret b : BitVec 64} {cpu : Cpu} {n : Nat}
    (apart : Separate p TaskContext.size b n) (stack : Separate (cpu.gpr .rsp - 8) 8 b n)
    (positive : 0 < n) : Agree (savedSpace mem p cpu ret) mem b n := by
  have image : Separate (p + BitVec.ofNat 64 0xc0) 464 b n :=
    apart.part (by decide) (by decide) positive
  have general :
      ∀ o ∈ (savedWords cpu ++ [(0x08, ret)]).map Prod.fst, o + 8 ≤ TaskContext.size := by
    rw [savedWords_offsets]
    decide
  have control : ∀ o ∈ (controlWords cpu ret).map Prod.fst, o + 8 ≤ TaskContext.size := by
    rw [controlWords_offsets]
    decide
  have flags : Agree ((mem.storeWords p (savedWords cpu ++ [(0x08, ret)])).store (cpu.gpr .rsp - 8)
      (pushedFlags cpu.rflags)) mem b n :=
    (agree_store stack).trans (agree_storeWords apart general)
  exact (agree_storeBytes image).trans ((agree_storeWords apart control).trans flags)

/-! ## Creating -/

/-- `kKernelCS`. -/
def kKernelCS : BitVec 16 := (1 : BitVec 16) <<< 3

/-- `kKernelSS`. -/
def kKernelSS : BitVec 16 := (2 : BitVec 16) <<< 3

/-- What `Task::InitContext` assigns. -/
def initWords (cr3 stackEnd f id data : BitVec 64) : List (Nat × BitVec 64) :=
  [ (0x00, cr3), (0x10, 0x202), (0x20, kKernelCS.setWidth 64), (0x28, kKernelSS.setWidth 64),
    (0x70, (stackEnd &&& ~~~0xf) - 8), (0x08, f), (0x60, id), (0x68, data) ]

def initOffsets : List Nat :=
  [0x00, 0x10, 0x20, 0x28, 0x70, 0x08, 0x60, 0x68]

/-- The `memset` of a context. -/
def clearContext (mem : Space) (p : BitVec 64) : Space :=
  mem.overlay p TaskContext.size fun _ => 0

/-- `Task::InitContext` for the context at `p`: all is cleared but the words that
are assigned and MXCSR, which masks the exceptions. -/
def initContext (mem : Space) (p cr3 stackEnd f id data : BitVec 64) : Space :=
  let words := (clearContext mem p).storeWords p (initWords cr3 stackEnd f id data)
  words.overlay (p + BitVec.ofNat 64 (0xc0 + 24)) 4 fun i =>
    (0x1f80 : BitVec 32).extractLsb' (8 * i) 8

/-- The registers that a task starts with. -/
def startingCpu (cr3 stackEnd f id data : BitVec 64) : Cpu where
  gpr
    | .rsp => (stackEnd &&& ~~~0xf) - 8
    | .rdi => id
    | .rsi => data
    | _ => 0
  seg
    | .cs => kKernelCS
    | .ss => kKernelSS
    | _ => 0
  rip := f
  rflags := 0x202
  cr3 := cr3
  fx := fun i => if i.val = 24 then 0x80 else if i.val = 25 then 0x1f else 0

section Creating

variable {mem : Space} {p cr3 stackEnd f id data b : BitVec 64} {o n : Nat}

theorem initWords_offsets : (initWords cr3 stackEnd f id data).map Prod.fst = initOffsets :=
  rfl

/-- MXCSR is not seen elsewhere. -/
theorem agree_mxcsr (apart : Separate (p + BitVec.ofNat 64 (0xc0 + 24)) 4 b n) :
    Agree (initContext mem p cr3 stackEnd f id data)
      ((clearContext mem p).storeWords p (initWords cr3 stackEnd f id data)) b n := by
  unfold initContext
  exact agree_overlay apart

theorem agree_initContext (apart : Separate p TaskContext.size b n) (positive : 0 < n) :
    Agree (initContext mem p cr3 stackEnd f id data) mem b n := by
  have words : ∀ o ∈ (initWords cr3 stackEnd f id data).map Prod.fst, o + 8 ≤ TaskContext.size := by
    rw [initWords_offsets]
    decide
  have cleared : Agree (clearContext mem p) mem b n := agree_overlay apart
  refine (agree_mxcsr (apart.part (by decide) (by decide) positive)).trans ?_
  exact (agree_storeWords apart words).trans cleared

/-- The words are read below the image. -/
theorem load_initContext (inside : o + 8 ≤ 0xc0) :
    (initContext mem p cr3 stackEnd f id data).load (p + BitVec.ofNat 64 o) =
      ((clearContext mem p).storeWords p (initWords cr3 stackEnd f id data)).load
        (p + BitVec.ofNat 64 o) := by
  have apart : Separate (p + BitVec.ofNat 64 (0xc0 + 24)) 4 (p + BitVec.ofNat 64 o) 8 :=
    separate_of_offsets (.inr (by omega)) (by decide) (by omega) (by decide) (by decide)
  exact (agree_mxcsr apart).load_eq

theorem load_assigned {value : BitVec 64}
    (found : (initWords cr3 stackEnd f id data).lookup o = some value) (inside : o + 8 ≤ 0xc0) :
    (initContext mem p cr3 stackEnd f id data).load (p + BitVec.ofNat 64 o) = value := by
  rw [load_initContext inside]
  refine load_storeWords ?_ ?_ found
  · rw [initWords_offsets]
    decide
  · rw [initWords_offsets]
    decide

/-- A byte of the context that has been cleared. -/
theorem clearContext_apply (inside : o < TaskContext.size) :
    clearContext mem p (p + BitVec.ofNat 64 o) = 0 :=
  overlay_inside inside (by decide)

theorem load_cleared (apart : ∀ o' ∈ initOffsets, WordsApart o' o) (inside : o + 8 ≤ 0xc0) :
    (initContext mem p cr3 stackEnd f id data).load (p + BitVec.ofNat 64 o) = 0 := by
  have zero : (clearContext mem p).load (p + BitVec.ofNat 64 o) = 0 := by
    apply BitVec.eq_of_getLsbD_eq
    intro j less
    have within : o + j / 8 < TaskContext.size := by
      unfold TaskContext.size
      omega
    rw [getLsbD_load less, offset_add, clearContext_apply within]
    exact BitVec.getLsbD_zero.trans BitVec.getLsbD_zero.symm
  rw [load_initContext inside]
  refine (load_storeWords_apart ?_ ?_ (by omega)).trans zero
  · rwa [initWords_offsets]
  · rw [initWords_offsets]
    decide

/-- MXCSR lies in the image. -/
theorem mxcsr_initContext {k : Nat} (small : k < 4) : initContext mem p cr3 stackEnd f id data
    (p + BitVec.ofNat 64 (0xc0 + (24 + k))) = (0x1f80 : BitVec 32).extractLsb' (8 * k) 8 := by
  rw [← Nat.add_assoc, ← offset_add]
  unfold initContext
  exact overlay_inside small (by decide)

/-- The rest of the image is clear. -/
theorem image_initContext {i : Nat} (inside : i < 464) (other : i < 24 ∨ 28 ≤ i) :
    initContext mem p cr3 stackEnd f id data (p + BitVec.ofNat 64 (0xc0 + i)) = 0 := by
  have mxcsr : Separate (p + BitVec.ofNat 64 (0xc0 + 24)) 4 (p + BitVec.ofNat 64 (0xc0 + i)) 1 :=
    separate_of_offsets (by omega) (by decide) (by omega) (by decide) (by decide)
  have words : Separate (p + BitVec.ofNat 64 0) 0xc0 (p + BitVec.ofNat 64 (0xc0 + i)) 1 :=
    separate_of_offsets (.inl (by omega)) (by decide) (by omega) (by decide) (by decide)
  have offsets : ∀ o ∈ (initWords cr3 stackEnd f id data).map Prod.fst, o + 8 ≤ 0xc0 := by
    rw [initWords_offsets]
    decide
  have within : 0xc0 + i < TaskContext.size := by
    unfold TaskContext.size
    omega
  rw [BitVec.add_zero] at words
  have kept : Agree (initContext mem p cr3 stackEnd f id data) (clearContext mem p)
      (p + BitVec.ofNat 64 (0xc0 + i)) 1 :=
    (agree_mxcsr mxcsr).trans (agree_storeWords words offsets)
  have byte := kept 0 (by decide)
  rw [BitVec.add_zero] at byte
  exact byte.trans (clearContext_apply within)

theorem bytes_initContext (i : Fin 464) :
    (initContext mem p cr3 stackEnd f id data).bytes (p + BitVec.ofNat 64 0xc0) 464 i =
      (startingCpu cr3 stackEnd f id data).fx i := by
  have digits : ∀ k < 4, (0x1f80 : BitVec 32).extractLsb' (8 * k) 8 =
      if 24 + k = 24 then 0x80 else if 24 + k = 25 then 0x1f else 0 := by decide
  change _ = if i.val = 24 then 0x80 else if i.val = 25 then 0x1f else 0
  unfold Space.bytes
  rw [offset_add]
  by_cases other : i.val < 24 ∨ 28 ≤ i.val
  · rw [image_initContext i.isLt other, if_neg (by omega), if_neg (by omega)]
  · obtain ⟨k, at_k⟩ := Nat.exists_eq_add_of_le (show 24 ≤ i.val by omega)
    have small : k < 4 := by omega
    rw [at_k, mxcsr_initContext small]
    exact digits k small

/-- A task that has been created starts at its function, with its number and the
data as arguments, on its own stack and with interrupts allowed. -/
theorem contextAt_initContext :
    (contextAt (initContext mem p cr3 stackEnd f id data) p).cpu =
      startingCpu cr3 stackEnd f id data := by
  refine Cpu.ext (funext fun r => ?_) (funext fun seg => ?_) ?_ ?_ ?_ (funext fun i => ?_)
  · rw [contextAt_gpr]
    cases r
    case rsp | rdi | rsi => exact load_assigned rfl (by decide)
    all_goals exact load_cleared (by decide) (by decide)
  · rw [contextAt_seg]
    cases seg
    case cs =>
      exact (congrArg (BitVec.setWidth 16) (load_assigned (o := 0x20) rfl (by decide))).trans
        (seg_of_word kKernelCS)
    case ss =>
      exact (congrArg (BitVec.setWidth 16) (load_assigned (o := 0x28) rfl (by decide))).trans
        (seg_of_word kKernelSS)
    all_goals exact congrArg (BitVec.setWidth 16) (load_cleared (by decide) (by decide))
  · exact load_assigned rfl (by decide)
  · exact load_assigned rfl (by decide)
  · exact load_assigned rfl (by decide)
  · rw [contextAt_fx]
    exact bytes_initContext i

end Creating

end Mikanos.Asm
