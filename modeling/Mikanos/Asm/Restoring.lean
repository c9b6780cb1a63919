import Mikanos.Asm.Context

/-!
# Resuming from a context

`RestoreContext` pushes the words that `iret` pops and loads all the other
registers, the one that holds the address last.  Whatever lies on the stack, it
resumes with the registers of the context.
-/

namespace Mikanos.Asm

open Memory Space

/-- The frame that `RestoreContext` pushes for `iret`. -/
def returnFrame : List Operand :=
  [.mem .rdi 0x28, .mem .rdi 0x70, .mem .rdi 0x10, .mem .rdi 0x20, .mem .rdi 0x08]

/-- The registers that are not general, by way of `rax`. -/
def restoreControl : List Instr :=
  [ .fxrstor .rdi 0xc0,
    .loadMem .rax .rdi 0x00,
    .storeCr3 .rax,
    .loadMem .rax .rdi 0x30,
    .storeSeg .fs .rax,
    .loadMem .rax .rdi 0x38,
    .storeSeg .gs .rax ]

/-- The general registers but `rdi`, which holds the address, and `rsp`. -/
def restored : List (Reg × Nat) :=
  [ (.rax, 0x40), (.rbx, 0x48), (.rcx, 0x50), (.rdx, 0x58), (.rsi, 0x68), (.rbp, 0x78),
    (.r8, 0x80), (.r9, 0x88), (.r10, 0x90), (.r11, 0x98), (.r12, 0xa0), (.r13, 0xa8),
    (.r14, 0xb0), (.r15, 0xb8) ]

/-- The end, which loads `rdi` last. -/
def restoreGeneral : List Instr :=
  restored.map (fun s => .loadMem s.1 .rdi s.2) ++ [.loadMem .rdi .rdi 0x60, .iret]

theorem restoreContext_eq : restoreContext =
    returnFrame.map Operand.push ++ (restoreControl ++ restoreGeneral) :=
  rfl

theorem run_restoreControl {m : Machine} (aligned : Aligned (m.cpu.gpr .rdi))
    (rest : List Instr) : run (restoreControl ++ rest) m =
      let ctx := (contextAt m.mem (m.cpu.gpr .rdi)).cpu
      let fs := Function.update m.cpu.seg .fs (ctx.seg .fs)
      run rest
        { m with cpu := { m.cpu.set .rax (m.mem.load (m.addr .rdi 0x38)) with
            seg := Function.update fs .gs (ctx.seg .gs)
            cr3 := ctx.cr3
            fx := ctx.fx } } := by
  have area : Aligned (m.addr .rdi 0xc0) := aligned.offset (by decide)
  simp only [restoreControl, List.cons_append, List.nil_append]
  rw [run_fxrstor area, run_cons rfl, run_cons rfl, run_cons rfl, run_cons rfl, run_cons rfl,
    run_cons rfl]
  refine congrArg (run rest) (Machine.ext (Cpu.ext (funext fun r => ?_) ?_ rfl rfl ?_ ?_) rfl)
  · cases r <;> rfl
  · funext seg
    rw [contextAt_seg, contextAt_seg]
    cases seg <;> rfl
  · exact (contextAt_cr3 _ _).symm
  · exact (contextAt_fx _ _).symm

theorem run_restoreGeneral (m : Machine) :
    run restoreGeneral m =
      some { m with cpu := { (contextAt m.mem (m.cpu.gpr .rdi)).cpu.set .rsp (m.top 3) with
        seg := Function.update (Function.update m.cpu.seg .cs ((m.top 1).setWidth 16))
          .ss ((m.top 4).setWidth 16)
        rip := m.top 0
        rflags := m.top 2
        cr3 := m.cpu.cr3
        fx := m.cpu.fx } } := by
  rw [restoreGeneral, run_load (by decide) (by decide), run_cons rfl, run_cons rfl, run]
  refine congrArg some (Machine.ext (Cpu.ext (funext fun r => ?_) rfl rfl rfl rfl rfl) rfl)
  cases r <;> rfl

/-- `RestoreContext` after the frame. -/
theorem run_resume {m : Machine} (aligned : Aligned (m.cpu.gpr .rdi)) :
    run (restoreControl ++ restoreGeneral) m =
      let ctx := (contextAt m.mem (m.cpu.gpr .rdi)).cpu
      let cs := Function.update ctx.seg .cs ((m.top 1).setWidth 16)
      some { m with cpu := { ctx.set .rsp (m.top 3) with
        seg := Function.update cs .ss ((m.top 4).setWidth 16)
        rip := m.top 0
        rflags := m.top 2 } } := by
  rw [run_restoreControl aligned, run_restoreGeneral]
  refine congrArg some (Machine.ext (Cpu.ext rfl (funext fun seg => ?_) rfl rfl rfl rfl) rfl)
  cases seg <;> rfl

/-- `RestoreContext` resumes from the context at `rdi` and changes nothing but 40
bytes of the stack. -/
theorem run_restoreContext {m : Machine} (aligned : Aligned (m.cpu.gpr .rdi))
    (apart : Separate (m.below 5) 40 (m.cpu.gpr .rdi) TaskContext.size) :
    ∃ mem, run restoreContext m = some ⟨(contextAt m.mem (m.cpu.gpr .rdi)).cpu, mem⟩ ∧
      ∀ b n, Separate (m.below 5) 40 b n → Agree mem m.mem b n := by
  have kept : ∀ operand ∈ returnFrame, operand.Kept m returnFrame.length := by
    have slot (off : Nat) (inside : off + 8 ≤ TaskContext.size) :
        (Operand.mem .rdi off).Kept m 5 :=
      ⟨by decide, apart.part_right inside (by decide) (by decide)⟩
    simp only [returnFrame, List.forall_mem_cons]
    exact ⟨slot _ (by decide), slot _ (by decide), slot _ (by decide), slot _ (by decide),
      slot _ (by decide), fun _ none => absurd none List.not_mem_nil⟩
  have agree (b : BitVec 64) (n : Nat) (separate : Separate (m.below 5) 40 b n) :
      Agree (m.pushes (returnFrame.map (Operand.value m))).mem m.mem b n :=
    Machine.agree_pushes separate
  have context := contextAt_congr (agree _ _ apart)
  have base : (m.pushes (returnFrame.map (Operand.value m))).cpu.gpr .rdi = m.cpu.gpr .rdi :=
    Machine.pushes_other m _ (by decide)
  have small : 8 * (returnFrame.map (Operand.value m)).length ≤ 2 ^ 64 := by
    rw [List.length_map]
    decide
  have top0 : (m.pushes (returnFrame.map (Operand.value m))).top 0 =
      m.mem.load (m.addr .rdi 0x08) := Machine.top_pushes small rfl
  have top1 : (m.pushes (returnFrame.map (Operand.value m))).top 1 =
      m.mem.load (m.addr .rdi 0x20) := Machine.top_pushes small rfl
  have top2 : (m.pushes (returnFrame.map (Operand.value m))).top 2 =
      m.mem.load (m.addr .rdi 0x10) := Machine.top_pushes small rfl
  have top3 : (m.pushes (returnFrame.map (Operand.value m))).top 3 =
      m.mem.load (m.addr .rdi 0x70) := Machine.top_pushes small rfl
  have top4 : (m.pushes (returnFrame.map (Operand.value m))).top 4 =
      m.mem.load (m.addr .rdi 0x28) := Machine.top_pushes small rfl
  refine ⟨_, ?_, agree⟩
  rw [restoreContext_eq, run_push kept, run_resume (by rwa [base]), base, context, top0, top1,
    top2, top3, top4]
  refine congrArg some (Machine.ext (Cpu.ext (funext fun r => ?_) (funext fun seg => ?_) rfl rfl
    rfl rfl) rfl)
  · cases r <;> rfl
  · cases seg <;> rfl

end Mikanos.Asm
