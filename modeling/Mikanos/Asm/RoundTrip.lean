import Mikanos.Asm.Interrupting
import Mikanos.Asm.Switching

/-!
# Contexts come back

A task that is interrupted, or that calls `SwitchContext`, goes on later with the
registers that it had: what was saved is not changed until `RestoreContext` is
called with its address, on a stack that lies elsewhere.
-/

namespace Mikanos.Asm

open Memory Space

/-- The `memcpy` of `TaskManager::SwitchTask`. -/
def switchTask (mem : Space) (taskCtx currentCtx : BitVec 64) : Space :=
  mem.copy taskCtx currentCtx TaskContext.size

/-- `RestoreContext` is called at `p` with the context that is in `mem`, on a
stack that lies elsewhere. -/
structure Restores (mem : Space) (p : BitVec 64) (later : Machine) : Prop where
  rdi : later.cpu.gpr .rdi = p
  kept : Agree later.mem mem p TaskContext.size
  apart : Separate (later.below 5) 40 p TaskContext.size

theorem contextAt_switchTask (mem : Space) (taskCtx currentCtx : BitVec 64) :
    contextAt (switchTask mem taskCtx currentCtx) taskCtx = contextAt mem currentCtx :=
  contextAt_eq_of_bytes fun _ inside => copy_apply inside (by decide)

theorem Restores.run {mem : Space} {p : BitVec 64} {later : Machine}
    (restores : Restores mem p later) (aligned : Aligned p) :
    ∃ resumed, run restoreContext later = some resumed ∧ resumed.cpu = (contextAt mem p).cpu := by
  obtain ⟨rfl, kept, apart⟩ := restores
  obtain ⟨mem', runs, -⟩ := run_restoreContext aligned apart
  exact ⟨_, runs, congrArg TaskContext.cpu (contextAt_congr kept)⟩

/-- The state at the return from a procedure. -/
theorem cpu_of_call (caller : Machine) (ret : BitVec 64) :
    ({ (caller.call ret).cpu.set .rsp ((caller.call ret).cpu.gpr .rsp + BitVec.ofNat 64 8) with
      rip := (caller.call ret).top 0
      rflags := pushedFlags (caller.call ret).cpu.rflags } : Cpu) =
        { caller.cpu with rip := ret, rflags := pushedFlags caller.cpu.rflags } := by
  refine Cpu.ext (funext fun r => ?_) rfl (Machine.top_pushValue caller ret) rfl rfl rfl
  by_cases stack : r = .rsp
  · rw [stack]
    change ((caller.call ret).cpu.set .rsp _).gpr .rsp = caller.cpu.gpr .rsp
    rw [Cpu.set_same]
    unfold Machine.call Machine.pushValue
    rw [Cpu.set_same]
    exact BitVec.sub_add_cancel _ 8
  · exact (Cpu.set_other _ _ stack).trans (Cpu.set_other _ _ stack)

/-- A task whose registers all differ, with the contexts to switch to and from in
`rdi` and `rsi`. -/
def sample : Machine where
  cpu :=
    { gpr := fun r =>
        if r = .rsp then 0x40000 else if r = .rdi then 0x20000 else if r = .rsi then 0x21000
        else BitVec.ofNat 64 r.offset
      seg := fun seg => BitVec.ofNat 16 seg.offset
      rip := 0x1000
      rflags := 0x202
      cr3 := 0x3000
      fx := fun i => BitVec.ofNat 8 i }
  mem := fun _ => 0

/-- The call of `RestoreContext` for the context at `p`. -/
def restoring (mem : Space) (p : BitVec 64) : Machine :=
  { sample with cpu := sample.cpu.set .rdi p, mem := mem }

end Mikanos.Asm
