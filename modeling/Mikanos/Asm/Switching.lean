import Mikanos.Asm.Restoring

/-!
# Saving a context by a call

`SwitchContext` saves the registers of its caller as they are after the return.
`rax` is saved before it is used for the stack pointer, the return address and
the registers that cannot be stored; the flags go through the stack.
-/

namespace Mikanos.Asm

open Memory Space

/-- The general registers but `rsp`, before any of them is used for something else. -/
def saved : List (Nat × Reg) :=
  [(0x40, .rax), (0x48, .rbx), (0x50, .rcx), (0x58, .rdx), (0x60, .rdi), (0x68, .rsi)]

/-- `rsp` by way of `rax`, and the others. -/
def savedStack : List (Nat × Reg) :=
  [ (0x70, .rax), (0x78, .rbp), (0x80, .r8), (0x88, .r9), (0x90, .r10), (0x98, .r11),
    (0xa0, .r12), (0xa8, .r13), (0xb0, .r14), (0xb8, .r15) ]

/-- The store instructions of a list. -/
def storeAll (stores : List (Nat × Reg)) : List Instr :=
  stores.map fun s => .storeMem .rsi s.1 s.2

/-- The segment registers, and the image after them. -/
def saveSegments : List Instr :=
  [ .loadSeg .rax .cs,
    .storeMem .rsi 0x20 .rax,
    .loadSeg .rbx .ss,
    .storeMem .rsi 0x28 .rbx,
    .loadSeg .rcx .fs,
    .storeMem .rsi 0x30 .rcx,
    .loadSeg .rdx .gs,
    .storeMem .rsi 0x38 .rdx,
    .fxsave .rsi 0xc0 ]

theorem saveContext_eq : saveContext =
    storeAll saved ++ (Instr.lea .rax .rsp 8 ::
      (storeAll savedStack ++ (Instr.loadCr3 .rax :: Instr.storeMem .rsi 0x00 .rax ::
        Instr.loadMem .rax .rsp 0 :: Instr.storeMem .rsi 0x08 .rax :: Instr.pushfq ::
        Instr.popMem .rsi 0x10 :: saveSegments))) :=
  rfl

/-- What a context gets of the registers when `rax` has been saved. -/
def savedWords (cpu : Cpu) : List (Nat × BitVec 64) :=
  [ (0x40, cpu.gpr .rax), (0x48, cpu.gpr .rbx), (0x50, cpu.gpr .rcx), (0x58, cpu.gpr .rdx),
    (0x60, cpu.gpr .rdi), (0x68, cpu.gpr .rsi), (0x70, cpu.gpr .rsp + BitVec.ofNat 64 8),
    (0x78, cpu.gpr .rbp), (0x80, cpu.gpr .r8), (0x88, cpu.gpr .r9), (0x90, cpu.gpr .r10),
    (0x98, cpu.gpr .r11), (0xa0, cpu.gpr .r12), (0xa8, cpu.gpr .r13), (0xb0, cpu.gpr .r14),
    (0xb8, cpu.gpr .r15), (0x00, cpu.cr3) ]

theorem run_saveGeneral (m : Machine) (rest : List Instr) :
    run (storeAll saved ++ (Instr.lea .rax .rsp 8 :: (storeAll savedStack ++
        (Instr.loadCr3 .rax :: Instr.storeMem .rsi 0x00 .rax :: rest)))) m =
      run rest
        { cpu := m.cpu.set .rax m.cpu.cr3
          mem := m.mem.storeWords (m.cpu.gpr .rsi) (savedWords m.cpu) } := by
  unfold storeAll
  rw [run_store, run_cons rfl, run_store, run_cons rfl, run_cons rfl]
  refine congrArg (run rest) (Machine.ext (Cpu.ext (funext fun r => ?_) rfl rfl rfl rfl rfl) rfl)
  cases r <;> rfl

/-- The return address, and the flags by way of the stack. -/
theorem run_saveReturn (m : Machine) (rest : List Instr) :
    run (.loadMem .rax .rsp 0 :: .storeMem .rsi 0x08 .rax :: .pushfq :: .popMem .rsi 0x10 ::
        rest) m =
      run rest
        { cpu := m.cpu.set .rax (m.top 0)
          mem := ((m.mem.store (m.addr .rsi 0x08) (m.top 0)).store (m.cpu.gpr .rsp - 8)
            (pushedFlags m.cpu.rflags)).store (m.addr .rsi 0x10) (pushedFlags m.cpu.rflags) } := by
  have back (a : BitVec 64) : a - 8 + BitVec.ofNat 64 8 = a := BitVec.sub_add_cancel a 8
  rw [run_cons rfl, run_cons rfl, run_cons rfl, run_cons rfl]
  refine congrArg (run rest) (Machine.ext (Cpu.ext (funext fun r => ?_) rfl rfl rfl rfl rfl) ?_)
  · cases r
    case rsp => exact back (m.cpu.gpr .rsp)
    all_goals rfl
  · exact congrArg (Space.store _ _) (Machine.top_pushValue _ _)

theorem run_saveSegments {m : Machine} (aligned : Aligned (m.cpu.gpr .rsi)) :
    run saveSegments m =
      let rax := segWord (m.cpu.gpr .rax) (m.cpu.seg .cs)
      let rbx := segWord (m.cpu.gpr .rbx) (m.cpu.seg .ss)
      let rcx := segWord (m.cpu.gpr .rcx) (m.cpu.seg .fs)
      let rdx := segWord (m.cpu.gpr .rdx) (m.cpu.seg .gs)
      let words := [(0x20, rax), (0x28, rbx), (0x30, rcx), (0x38, rdx)]
      some
        { cpu := (((m.cpu.set .rax rax).set .rbx rbx).set .rcx rcx).set .rdx rdx
          mem := (m.mem.storeWords (m.cpu.gpr .rsi) words).storeBytes (m.addr .rsi 0xc0)
            m.cpu.fx } := by
  rw [saveSegments, run_cons rfl, run_cons rfl, run_cons rfl, run_cons rfl, run_cons rfl,
    run_cons rfl, run_cons rfl, run_cons rfl]
  refine (run_fxsave ?_ []).trans ?_
  · exact aligned.offset (o := 0xc0) (by decide)
  · exact congrArg some (Machine.ext (Cpu.ext rfl rfl rfl rfl rfl rfl) rfl)

/-- What a context gets after the return address. -/
def controlWords (cpu : Cpu) (ret : BitVec 64) : List (Nat × BitVec 64) :=
  [ (0x10, pushedFlags cpu.rflags), (0x20, segWord ret (cpu.seg .cs)),
    (0x28, segWord (cpu.gpr .rbx) (cpu.seg .ss)), (0x30, segWord (cpu.gpr .rcx) (cpu.seg .fs)),
    (0x38, segWord (cpu.gpr .rdx) (cpu.seg .gs)) ]

def controlOffsets : List Nat :=
  [0x10, 0x20, 0x28, 0x30, 0x38]

def savedOffsets : List Nat :=
  [0x40, 0x48, 0x50, 0x58, 0x60, 0x68, 0x70, 0x78, 0x80, 0x88, 0x90, 0x98, 0xa0, 0xa8, 0xb0,
    0xb8, 0x00, 0x08]

theorem controlWords_offsets (cpu : Cpu) (ret : BitVec 64) :
    (controlWords cpu ret).map Prod.fst = controlOffsets :=
  rfl

theorem savedWords_offsets (cpu : Cpu) (ret : BitVec 64) :
    (savedWords cpu ++ [(0x08, ret)]).map Prod.fst = savedOffsets :=
  rfl

/-- The memory after a save to `p`, with the flags left below the stack pointer. -/
def savedSpace (mem : Space) (p : BitVec 64) (cpu : Cpu) (ret : BitVec 64) : Space :=
  let general := mem.storeWords p (savedWords cpu ++ [(0x08, ret)])
  let flags := general.store (cpu.gpr .rsp - 8) (pushedFlags cpu.rflags)
  (flags.storeWords p (controlWords cpu ret)).storeBytes (p + BitVec.ofNat 64 0xc0) cpu.fx

theorem run_saveContext {m : Machine} (aligned : Aligned (m.cpu.gpr .rsi))
    (apart : Separate (m.addr .rsp 0) 8 (m.cpu.gpr .rsi) TaskContext.size) :
    ∃ m', run saveContext m = some m' ∧ m'.cpu.gpr .rdi = m.cpu.gpr .rdi ∧
      m'.cpu.gpr .rsp = m.cpu.gpr .rsp ∧
      m'.mem = savedSpace m.mem (m.cpu.gpr .rsi) m.cpu (m.top 0) := by
  have ret : (m.mem.storeWords (m.cpu.gpr .rsi) (savedWords m.cpu)).load (m.addr .rsp 0) =
      m.top 0 := by
    have kept : Agree (m.mem.storeWords (m.cpu.gpr .rsi) (savedWords m.cpu)) m.mem
        (m.addr .rsp 0) 8 := by
      refine agree_storeWords apart.symm ?_
      change ∀ o ∈ savedOffsets.take 17, o + 8 ≤ TaskContext.size
      decide
    exact kept.load_eq
  rw [saveContext_eq, run_saveGeneral, run_saveReturn]
  refine ⟨_, run_saveSegments ?_, rfl, rfl, ?_⟩
  · exact aligned
  · rw [savedSpace, storeWords_append, ← ret]
    rfl

section SavedSpace

variable {mem : Space} {p ret : BitVec 64} {cpu : Cpu} {o : Nat} {value : BitVec 64}

theorem load_savedSpace_control (found : (controlWords cpu ret).lookup o = some value)
    (inside : o + 8 ≤ 0xc0) :
    (savedSpace mem p cpu ret).load (p + BitVec.ofNat 64 o) = value := by
  have area : Separate (p + BitVec.ofNat 64 0xc0) 464 (p + BitVec.ofNat 64 o) 8 :=
    separate_of_offsets (.inr inside) (by decide) (by omega) (by decide) (by decide)
  refine (agree_storeBytes area).load_eq.trans (load_storeWords ?_ ?_ found)
  · rw [controlWords_offsets]
    decide
  · rw [controlWords_offsets]
    decide

theorem load_savedSpace_general
    (apart : Separate (cpu.gpr .rsp - 8) 8 p TaskContext.size)
    (found : (savedWords cpu ++ [(0x08, ret)]).lookup o = some value)
    (other : ∀ o' ∈ controlOffsets, WordsApart o' o) (inside : o + 8 ≤ 0xc0) :
    (savedSpace mem p cpu ret).load (p + BitVec.ofNat 64 o) = value := by
  have area : Separate (p + BitVec.ofNat 64 0xc0) 464 (p + BitVec.ofNat 64 o) 8 :=
    separate_of_offsets (.inr inside) (by decide) (by omega) (by decide) (by decide)
  have stack : Separate (cpu.gpr .rsp - 8) 8 (p + BitVec.ofNat 64 o) 8 :=
    apart.part_right (inside.trans (by decide)) (by decide) (by decide)
  refine (agree_storeBytes area).load_eq.trans ?_
  refine (load_storeWords_apart ?_ ?_ (by omega)).trans ?_
  · rwa [controlWords_offsets]
  · rw [controlWords_offsets]
    decide
  refine (load_store_separate stack).trans (load_storeWords ?_ ?_ found)
  · rw [savedWords_offsets]
    decide
  · rw [savedWords_offsets]
    decide

/-- What is saved is the state at the return. -/
theorem contextAt_savedSpace (apart : Separate (cpu.gpr .rsp - 8) 8 p TaskContext.size) :
    (contextAt (savedSpace mem p cpu ret) p).cpu =
      { cpu.set .rsp (cpu.gpr .rsp + BitVec.ofNat 64 8) with
        rip := ret
        rflags := pushedFlags cpu.rflags } := by
  refine Cpu.ext (funext fun r => ?_) (funext fun seg => ?_) ?_ ?_ ?_ ?_
  · rw [contextAt_gpr]
    cases r <;> exact load_savedSpace_general apart rfl (by decide) (by decide)
  · have word : ∃ old, (savedSpace mem p cpu ret).load (p + BitVec.ofNat 64 seg.offset) =
        segWord old (cpu.seg seg) := by
      cases seg <;> exact ⟨_, load_savedSpace_control rfl (by decide)⟩
    obtain ⟨old, word⟩ := word
    rw [contextAt_seg, word, segWord_setWidth]
    rfl
  · rw [contextAt_rip]
    exact load_savedSpace_general apart rfl (by decide) (by decide)
  · rw [contextAt_rflags]
    exact load_savedSpace_control rfl (by decide)
  · rw [contextAt_cr3]
    exact load_savedSpace_general apart rfl (by decide) (by decide)
  · rw [contextAt_fx]
    exact bytes_storeBytes_same cpu.fx (by decide)

end SavedSpace

/-- `SwitchContext` leaves the state of its caller in the context at `rsi`. -/
theorem run_switchContext {m : Machine} (alignedNext : Aligned (m.cpu.gpr .rdi))
    (alignedCurrent : Aligned (m.cpu.gpr .rsi))
    (apartNext : Separate (m.below 5) 40 (m.cpu.gpr .rdi) TaskContext.size)
    (apartCurrent : Separate (m.below 5) 48 (m.cpu.gpr .rsi) TaskContext.size) :
    ∃ m', run switchContext m = some m' ∧
      (contextAt m'.mem (m.cpu.gpr .rsi)).cpu =
        { m.cpu.set .rsp (m.cpu.gpr .rsp + BitVec.ofNat 64 8) with
          rip := m.top 0
          rflags := pushedFlags m.cpu.rflags } := by
  have part (o k : Nat) (inside : o + k ≤ 48) (positive : 0 < k) :
      Separate (m.below 5 + BitVec.ofNat 64 o) k (m.cpu.gpr .rsi) TaskContext.size :=
    apartCurrent.part inside positive (by decide)
  have whole : m.below 5 + BitVec.ofNat 64 40 = m.addr .rsp 0 :=
    (BitVec.sub_add_cancel _ _).trans (BitVec.add_zero _).symm
  have word : m.below 5 + BitVec.ofNat 64 32 = m.cpu.gpr .rsp - 8 := by
    have stack : m.cpu.gpr .rsp = m.below 5 + BitVec.ofNat 64 40 :=
      (BitVec.sub_add_cancel _ _).symm
    rw [stack]
    exact (offset_sub (i := 40) (j := 8) (m.below 5) (by decide)).symm
  obtain ⟨m', saves, rdi, rsp, mem⟩ := run_saveContext alignedCurrent
    (whole ▸ part 40 8 (by decide) (by decide))
  have below : m'.below 5 = m.below 5 := by
    unfold Machine.below
    rw [rsp]
  rw [← rdi] at alignedNext apartNext
  rw [← below] at apartNext
  obtain ⟨mem', restores, agree⟩ := run_restoreContext alignedNext apartNext
  refine ⟨_, by rw [switchContext, run_append, saves, Option.bind_some, restores], ?_⟩
  have first := part 0 40 (by decide) (by decide)
  rw [BitVec.add_zero, ← below] at first
  rw [contextAt_congr (agree _ _ first), mem]
  exact contextAt_savedSpace (word ▸ part 32 8 (by decide) (by decide))

end Mikanos.Asm
