import Mikanos.Asm.Interrupting

/-!
# Returning from the interrupt

When `LAPICTimerOnInterrupt` returns, no other task has been switched to, and the
handler goes back on its own: it pops the general registers of the context that
it has built, passes over the other words and leaves by the frame of the
interrupt.
-/

namespace Mikanos.Asm

open Memory Space

/-- The registers that are popped before the words of `rsp` and `rbp`. -/
def poppedFirst : List Reg :=
  [.rax, .rbx, .rcx, .rdx, .rdi, .rsi]

/-- The registers that are popped after them. -/
def poppedLast : List Reg :=
  [.r8, .r9, .r10, .r11, .r12, .r13, .r14, .r15]

/-- The frames of the handler and of the interrupt are left. -/
def leaveFrames : List Instr :=
  [.mov .rsp .rbp, .pop .rbp, .iret]

theorem leaveHandler_eq : leaveHandler =
    Instr.add .rsp (8 * 8) :: (poppedFirst.map Instr.pop ++ (Instr.add .rsp 16 ::
      (poppedLast.map Instr.pop ++ (Instr.fxrstor .rsp 0 :: leaveFrames)))) :=
  rfl

section Leaving

variable {m : Machine} {p : BitVec 64}

/-- The registers of the task are back, but for those of the frame. -/
structure Reloaded (m : Machine) (p : BitVec 64) (m' : Machine) : Prop where
  gpr : ∀ r, r ≠ .rbp → r ≠ .rsp → m'.cpu.gpr r = (contextAt m.mem p).cpu.gpr r
  rbp : m'.cpu.gpr .rbp = m.cpu.gpr .rbp
  seg : m'.cpu.seg = m.cpu.seg
  cr3 : m'.cpu.cr3 = m.cpu.cr3
  fx : m'.cpu.fx = (contextAt m.mem p).cpu.fx
  mem : m'.mem = m.mem

theorem run_reload (rsp : m.cpu.gpr .rsp = p) (aligned : Aligned p) :
    ∃ m', Reloaded m p m' ∧
      run leaveHandler m = run leaveFrames m' := by
  have area (a : BitVec 64) : a + BitVec.ofNat 64 0 = a := BitVec.add_zero a
  rw [leaveHandler_eq, run_cons rfl,
    run_pop p 64 (by decide) (by decide) (congrArg (· + BitVec.ofNat 64 64) rsp), run_cons rfl,
    run_pop p 128 (by decide) (by decide) (offset_add p 112 16)]
  refine ⟨_, ?_, run_fxrstor ?_ _⟩
  · refine ⟨fun r notRbp notRsp => ?_, rfl, rfl, rfl, ?_, rfl⟩
    · rw [contextAt_gpr]
      cases r
      case rbp => exact absurd rfl notRbp
      case rsp => exact absurd rfl notRsp
      all_goals rfl
    · rw [contextAt_fx]
      exact congrArg (m.mem.bytes · 464) (area (p + BitVec.ofNat 64 192))
  · change Aligned (p + BitVec.ofNat 64 192 + BitVec.ofNat 64 0)
    rw [area]
    exact aligned.offset (by decide)

/-- The end of the handler, on the frame of the interrupt. -/
theorem run_leave (rbp : m.cpu.gpr .rbp = p + BitVec.ofNat 64 704) :
    run leaveFrames m =
      let word := fun (k : Nat) => m.mem.load (p + BitVec.ofNat 64 (712 + 8 * k))
      let cs := Function.update m.cpu.seg .cs ((word 1).setWidth 16)
      some { m with cpu :=
        { (m.cpu.set .rbp (m.mem.load (p + BitVec.ofNat 64 704))).set .rsp (word 3) with
          seg := Function.update cs .ss ((word 4).setWidth 16)
          rip := word 0
          rflags := word 2 } } := by
  have place (k : Nat) : m.cpu.gpr .rbp + BitVec.ofNat 64 8 + BitVec.ofNat 64 (8 * k) =
      p + BitVec.ofNat 64 (712 + 8 * k) := by
    rw [rbp, offset_add, offset_add]
    congr 2
    omega
  have first : m.cpu.gpr .rbp + BitVec.ofNat 64 0 = p + BitVec.ofNat 64 704 := by
    rw [rbp, offset_add]
  rw [leaveFrames, run_cons rfl, run_cons rfl, run_cons rfl, run]
  simp only [← place, ← first]
  refine congrArg some (Machine.ext (Cpu.ext (funext fun r => ?_) rfl rfl rfl rfl rfl) rfl)
  cases r <;> rfl

end Leaving

/-- The call of `LAPICTimerOnInterrupt` has returned: the registers that a
procedure keeps and the stack above its frame are what they were. -/
structure CallReturned (built back : Machine) : Prop where
  rsp : back.cpu.gpr .rsp = built.cpu.gpr .rsp
  rbp : back.cpu.gpr .rbp = built.cpu.gpr .rbp
  seg : back.cpu.seg = built.cpu.seg
  cr3 : back.cpu.cr3 = built.cpu.cr3
  kept : Agree back.mem built.mem (built.cpu.gpr .rsp) 752

section Kept

variable {gate : Gate} {m m' : Machine} {mem : Space}

/-- The words of the interrupt are where the handler leaves them. -/
theorem Entered.frameWord_kept (entered : Entered (interrupt gate m) (builtAt gate) m')
    (kept : Agree mem (pushControl (pushGeneral m')).mem (builtAt gate) 752) {k : Nat}
    (small : k < 5) :
    mem.load (builtAt gate + BitVec.ofNat 64 (712 + 8 * k)) = (interrupt gate m).top k := by
  have inside : 712 + 8 * k + 8 ≤ 752 := by omega
  calc mem.load (builtAt gate + BitVec.ofNat 64 (712 + 8 * k))
      = (pushControl (pushGeneral m')).mem.load (builtAt gate + BitVec.ofNat 64 (712 + 8 * k)) :=
        (kept.part inside).load_eq
    _ = m'.mem.load (builtAt gate + BitVec.ofNat 64 (712 + 8 * k)) :=
        entered.load_above (by omega) (by omega)
    _ = (interrupt gate m).top k := entered.frameWord (interrupt_rsp gate m) small

theorem Entered.baseWord_kept (entered : Entered (interrupt gate m) (builtAt gate) m')
    (kept : Agree mem (pushControl (pushGeneral m')).mem (builtAt gate) 752) :
    mem.load (builtAt gate + BitVec.ofNat 64 704) = m.cpu.gpr .rbp := by
  have inside : 704 + 8 ≤ 752 := by decide
  calc mem.load (builtAt gate + BitVec.ofNat 64 704)
      = (pushControl (pushGeneral m')).mem.load (builtAt gate + BitVec.ofNat 64 704) :=
        (kept.part inside).load_eq
    _ = m'.mem.load (builtAt gate + BitVec.ofNat 64 704) :=
        entered.load_above (by decide) (by decide)
    _ = m.cpu.gpr .rbp := entered.baseWord

theorem Entered.contextAt_kept (entered : Entered (interrupt gate m) (builtAt gate) m')
    (kept : Agree mem (pushControl (pushGeneral m')).mem (builtAt gate) 752) :
    (contextAt mem (builtAt gate)).cpu = m.cpu := by
  have agree : Agree mem (pushControl (pushGeneral m')).mem (builtAt gate) TaskContext.size :=
    fun i inside => kept i (inside.trans (by decide))
  rw [contextAt_congr agree, entered.contextAt_interrupt]

end Kept

/-- The handler returns to the state that was interrupted. -/
theorem handler_returns (gate : Gate) (m : Machine) :
    ∃ built, run buildContext (interrupt gate m) = some built ∧
      ∀ back, CallReturned built back →
        ∃ resumed, run leaveHandler back = some resumed ∧ resumed.cpu = m.cpu := by
  obtain ⟨m', entered, builds⟩ := run_build (interrupt_rsp gate m) (aligned_builtAt gate)
  refine ⟨_, builds, fun back returned => ?_⟩
  obtain ⟨rsp, rbp, seg, cr3, kept⟩ := returned
  have bottom : ((pushControl (pushGeneral m')).set .rdi (builtAt gate)).cpu.gpr .rsp =
      builtAt gate := entered.belowControl
  have frame : ((pushControl (pushGeneral m')).set .rdi (builtAt gate)).cpu.gpr .rbp =
      builtAt gate + BitVec.ofNat 64 704 := entered.rbp_pushGeneral
  rw [bottom] at rsp kept
  rw [frame] at rbp
  obtain ⟨back', reloaded, reloads⟩ := run_reload rsp (aligned_builtAt gate)
  rw [reloads, run_leave (reloaded.rbp.trans rbp)]
  refine ⟨_, rfl, ?_⟩
  have kept' : Agree back'.mem (pushControl (pushGeneral m')).mem (builtAt gate) 752 :=
    reloaded.mem ▸ kept
  have word {k : Nat} (small : k < 5) := entered.frameWord_kept kept' small
  simp only [word (k := 0) (by decide), word (k := 1) (by decide), word (k := 2) (by decide),
    word (k := 3) (by decide), word (k := 4) (by decide), entered.baseWord_kept kept']
  have context := entered.contextAt_kept kept
  have general (r : Reg) : (contextAt back.mem (builtAt gate)).cpu.gpr r = m.cpu.gpr r := by
    rw [context]
  have segments : back'.cpu.seg = (interrupt gate m).cpu.seg :=
    (reloaded.seg.trans seg).trans entered.seg
  refine Cpu.ext (funext fun r => ?_) (funext fun register => ?_) (interrupt_top gate m rfl)
    (interrupt_top gate m rfl) ((reloaded.cr3.trans cr3).trans entered.cr3)
    (reloaded.fx.trans (congrArg Cpu.fx context))
  · cases r
    case rsp => exact interrupt_top gate m rfl
    case rbp => rfl
    all_goals exact (reloaded.gpr _ (by decide) (by decide)).trans (general _)
  · cases register
    case cs =>
      exact (congrArg (BitVec.setWidth 16) (interrupt_top gate m rfl)).trans (seg_of_word _)
    case ss =>
      exact (congrArg (BitVec.setWidth 16) (interrupt_top gate m rfl)).trans (seg_of_word _)
    all_goals exact congrFun segments _

end Mikanos.Asm
