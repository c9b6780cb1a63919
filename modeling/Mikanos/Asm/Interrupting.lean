import Mikanos.Asm.Context

/-!
# Building a context at an interrupt

The handler of the timer interrupt builds a `TaskContext` on its stack by pushes,
below the frame that the processor has pushed at the interrupt.
-/

namespace Mikanos.Asm

open Memory Space

/-- The general registers, from `r15` to `rax`, with those that the interrupt and
the handler have pushed already. -/
def builtGeneral : List Operand :=
  [ .reg .r15, .reg .r14, .reg .r13, .reg .r12, .reg .r11, .reg .r10, .reg .r9, .reg .r8,
    .mem .rbp 0x00, .mem .rbp 0x20, .reg .rsi, .reg .rdi, .reg .rdx, .reg .rcx, .reg .rbx,
    .reg .rax ]

/-- The other registers, from `gs` to `cr3`. -/
def builtControl : List Operand :=
  [ .reg .rbx, .reg .rax, .mem .rbp 0x28, .mem .rbp 0x10, .reg .rbp, .mem .rbp 0x18,
    .mem .rbp 0x08, .reg .rcx ]

theorem buildContext_eq : buildContext =
    .push .rbp :: .mov .rbp .rsp :: .sub .rsp 512 :: .fxsave .rsp 0 ::
      (builtGeneral.map Operand.push ++ (.loadSeg .rax .fs :: .loadSeg .rbx .gs ::
        .loadCr3 .rcx :: (builtControl.map Operand.push ++ [.mov .rdi .rsp]))) :=
  rfl

section Building

variable {m : Machine} {p : BitVec 64}

/-- The handler has entered its frame and saved the image. -/
structure Entered (m : Machine) (p : BitVec 64) (m' : Machine) : Prop where
  gpr : ∀ r, r ≠ .rbp → r ≠ .rsp → m'.cpu.gpr r = m.cpu.gpr r
  rbp : m'.cpu.gpr .rbp = p + BitVec.ofNat 64 704
  rsp : m'.cpu.gpr .rsp = p + BitVec.ofNat 64 192
  seg : m'.cpu.seg = m.cpu.seg
  cr3 : m'.cpu.cr3 = m.cpu.cr3
  mem : m'.mem = (m.mem.store (p + BitVec.ofNat 64 704) (m.cpu.gpr .rbp)).storeBytes
    (p + BitVec.ofNat 64 192) m.cpu.fx

theorem run_enter (top : m.cpu.gpr .rsp = p + BitVec.ofNat 64 712) (aligned : Aligned p)
    (rest : List Instr) : ∃ m', Entered m p m' ∧
      run (.push .rbp :: .mov .rbp .rsp :: .sub .rsp 512 :: .fxsave .rsp 0 :: rest) m =
        run rest m' := by
  have pushed : m.cpu.gpr .rsp - 8 = p + BitVec.ofNat 64 704 := by
    rw [top]
    exact offset_sub p (by decide)
  have room : p + BitVec.ofNat 64 704 - BitVec.ofNat 64 512 + BitVec.ofNat 64 0 =
      p + BitVec.ofNat 64 192 := by
    rw [offset_sub p (by decide)]
    exact BitVec.add_zero _
  have area : m.cpu.gpr .rsp - 8 - BitVec.ofNat 64 512 + BitVec.ofNat 64 0 =
      p + BitVec.ofNat 64 192 := by
    rw [pushed, room]
  rw [run_cons rfl, run_cons rfl, run_cons rfl]
  refine ⟨_, ?_, run_fxsave ?_ rest⟩
  · refine ⟨fun r notRbp notRsp => ?_, pushed, ?_, rfl, rfl, ?_⟩
    · cases r
      case rbp => exact absurd rfl notRbp
      case rsp => exact absurd rfl notRsp
      all_goals rfl
    · exact (BitVec.add_zero _).symm.trans area
    · change (m.mem.store (m.cpu.gpr .rsp - 8) (m.cpu.gpr .rbp)).storeBytes
        (m.cpu.gpr .rsp - 8 - BitVec.ofNat 64 512 + BitVec.ofNat 64 0) m.cpu.fx = _
      rw [area, pushed]
  · change Aligned (m.cpu.gpr .rsp - 8 - BitVec.ofNat 64 512 + BitVec.ofNat 64 0)
    rw [area]
    exact aligned.offset (by decide)

namespace Entered

variable {m' : Machine}

/-- The frame of the interrupt is kept. -/
theorem frameWord (entered : Entered m p m') (top : m.cpu.gpr .rsp = p + BitVec.ofNat 64 712)
    {k : Nat} (small : k < 5) :
    m'.mem.load (p + BitVec.ofNat 64 (712 + 8 * k)) = m.top k := by
  have image : Separate (p + BitVec.ofNat 64 192) 464 (p + BitVec.ofNat 64 (712 + 8 * k)) 8 :=
    separate_of_offsets (.inl (by omega)) (by decide) (by omega) (by decide) (by decide)
  have pushed : Separate (p + BitVec.ofNat 64 704) 8 (p + BitVec.ofNat 64 (712 + 8 * k)) 8 :=
    separate_of_offsets (.inl (by omega)) (by decide) (by omega) (by decide) (by decide)
  unfold Machine.top Machine.addr
  rw [entered.mem, (agree_storeBytes image).load_eq, load_store_separate pushed, top, offset_add]

theorem baseWord (entered : Entered m p m') :
    m'.mem.load (p + BitVec.ofNat 64 704) = m.cpu.gpr .rbp := by
  have image : Separate (p + BitVec.ofNat 64 192) 464 (p + BitVec.ofNat 64 704) 8 :=
    separate_of_offsets (.inl (by decide)) (by decide) (by decide) (by decide) (by decide)
  rw [entered.mem, (agree_storeBytes image).load_eq, load_store_same]

/-- The words of the frame, as the handler reads them. -/
theorem frame (entered : Entered m p m') (top : m.cpu.gpr .rsp = p + BitVec.ofNat 64 712) {k : Nat}
    (small : k < 5) : m'.mem.load (m'.addr .rbp (8 * (k + 1))) = m.top k := by
  rw [← entered.frameWord top small]
  unfold Machine.addr
  rw [entered.rbp, offset_add]
  congr 3
  omega

theorem rbpWord (entered : Entered m p m') : m'.mem.load (m'.addr .rbp 0) = m.cpu.gpr .rbp := by
  rw [← entered.baseWord]
  unfold Machine.addr
  rw [entered.rbp, offset_add]

theorem belowGeneral (entered : Entered m p m') : m'.below 16 = p + BitVec.ofNat 64 64 := by
  unfold Machine.below
  rw [entered.rsp]
  exact offset_sub p (by decide)

theorem kept (entered : Entered m p m') :
    ∀ operand ∈ builtGeneral, operand.Kept m' builtGeneral.length := by
  have slot (off : Nat) (near : off ≤ 0x28) : (Operand.mem .rbp off).Kept m' 16 := by
    refine ⟨by decide, ?_⟩
    unfold Machine.addr
    rw [entered.belowGeneral, entered.rbp, offset_add]
    exact separate_of_offsets (.inl (by omega)) (by decide) (by omega) (by decide) (by decide)
  have reg (r : Reg) (other : r ≠ .rsp) : (Operand.reg r).Kept m' 16 := other
  simp only [builtGeneral, List.forall_mem_cons]
  refine ⟨reg _ ?_, reg _ ?_, reg _ ?_, reg _ ?_, reg _ ?_, reg _ ?_, reg _ ?_, reg _ ?_,
    slot _ (by decide), slot _ (by decide), reg _ ?_, reg _ ?_, reg _ ?_, reg _ ?_, reg _ ?_,
    reg _ ?_, fun _ none => absurd none List.not_mem_nil⟩
  all_goals decide

end Entered

/-- `fs`, `gs` and `cr3` are brought into general registers. -/
def loadControl (m : Machine) : Machine :=
  ((m.set .rax (segWord (m.cpu.gpr .rax) (m.cpu.seg .fs))).set .rbx
    (segWord (m.cpu.gpr .rbx) (m.cpu.seg .gs))).set .rcx m.cpu.cr3

theorem run_loadControl (m : Machine) (rest : List Instr) :
    run (.loadSeg .rax .fs :: .loadSeg .rbx .gs :: .loadCr3 .rcx :: rest) m =
      run rest (loadControl m) := by
  rw [run_cons rfl, run_cons rfl, run_cons rfl]
  rfl

/-- The words of the general registers are pushed, and the others loaded. -/
def pushGeneral (m : Machine) : Machine :=
  loadControl (m.pushes (builtGeneral.map (Operand.value m)))

def pushControl (m : Machine) : Machine :=
  m.pushes (builtControl.map (Operand.value m))

namespace Entered

variable {m' : Machine}

theorem rbp_pushGeneral (entered : Entered m p m') :
    (pushGeneral m').cpu.gpr .rbp = p + BitVec.ofNat 64 704 :=
  (Machine.pushes_other m' (builtGeneral.map (Operand.value m')) (by decide)).trans entered.rbp

theorem rsp_pushGeneral (entered : Entered m p m') :
    (pushGeneral m').cpu.gpr .rsp = p + BitVec.ofNat 64 64 := by
  have stack : (pushGeneral m').cpu.gpr .rsp = m'.below 16 := rfl
  rw [stack, entered.belowGeneral]

theorem belowControl (entered : Entered m p m') : (pushGeneral m').below 8 = p := by
  unfold Machine.below
  rw [entered.rsp_pushGeneral]
  exact BitVec.add_sub_cancel p _

theorem keptControl (entered : Entered m p m') :
    ∀ operand ∈ builtControl, operand.Kept (pushGeneral m') builtControl.length := by
  have slot (off : Nat) (near : off ≤ 0x28) : (Operand.mem .rbp off).Kept (pushGeneral m') 8 := by
    refine ⟨by decide, ?_⟩
    have apart : Separate (p + BitVec.ofNat 64 0) 64 (p + BitVec.ofNat 64 (704 + off)) 8 :=
      separate_of_offsets (.inl (by omega)) (by decide) (by omega) (by decide) (by decide)
    rw [BitVec.add_zero] at apart
    unfold Machine.addr
    rw [entered.belowControl, entered.rbp_pushGeneral, offset_add]
    exact apart
  have reg (r : Reg) (other : r ≠ .rsp) : (Operand.reg r).Kept (pushGeneral m') 8 := other
  simp only [builtControl, List.forall_mem_cons]
  refine ⟨reg _ ?_, reg _ ?_, slot _ (by decide), slot _ (by decide), reg _ ?_,
    slot _ (by decide), slot _ (by decide), reg _ ?_, fun _ none => absurd none List.not_mem_nil⟩
  all_goals decide

/-- What lies above the words that are pushed is kept. -/
theorem load_pushGeneral (entered : Entered m p m') {off : Nat} (near : off ≤ 0x28) :
    (pushGeneral m').mem.load ((pushGeneral m').addr .rbp off) =
      m'.mem.load (m'.addr .rbp off) := by
  have apart : Separate (m'.below 16) 128 (m'.addr .rbp off) 8 := by
    unfold Machine.addr
    rw [entered.belowGeneral, entered.rbp, offset_add]
    exact separate_of_offsets (.inl (by omega)) (by decide) (by omega) (by decide) (by decide)
  have agree : Agree (m'.pushes (builtGeneral.map (Operand.value m'))).mem m'.mem
      (m'.addr .rbp off) 8 := Machine.agree_pushes apart
  have place : (pushGeneral m').addr .rbp off = m'.addr .rbp off := by
    unfold Machine.addr
    rw [entered.rbp_pushGeneral, entered.rbp]
  rw [place]
  exact agree.load_eq

end Entered

theorem run_build (top : m.cpu.gpr .rsp = p + BitVec.ofNat 64 712) (aligned : Aligned p) :
    ∃ m', Entered m p m' ∧ run buildContext m =
      some ((pushControl (pushGeneral m')).set .rdi p) := by
  obtain ⟨m', entered, enters⟩ := run_enter top aligned _
  refine ⟨m', entered, ?_⟩
  rw [buildContext_eq, enters, run_push entered.kept, run_loadControl]
  refine (run_push entered.keptControl _).trans ?_
  rw [run_cons rfl, run]
  refine congrArg some (congrArg (Machine.set _ .rdi) ?_)
  exact (Cpu.set_same _ _ _).trans entered.belowControl

namespace Entered

variable {m' : Machine} {o : Nat} {value : BitVec 64}

theorem load_control (entered : Entered m p m')
    (found : (descending (builtControl.map (Operand.value (pushGeneral m')))).lookup o =
      some value) :
    (pushControl (pushGeneral m')).mem.load (p + BitVec.ofNat 64 o) = value := by
  have small : 8 * 8 ≤ 2 ^ 64 := by decide
  have read : (pushControl (pushGeneral m')).mem.load
      ((pushGeneral m').below 8 + BitVec.ofNat 64 o) = value :=
    Machine.load_pushes small found
  rwa [entered.belowControl] at read

/-- What lies above the words of the other registers is kept. -/
theorem load_aboveControl (entered : Entered m p m') (above : 64 ≤ o) (small : o + 8 ≤ 2 ^ 64) :
    (pushControl (pushGeneral m')).mem.load (p + BitVec.ofNat 64 o) =
      (pushGeneral m').mem.load (p + BitVec.ofNat 64 o) := by
  have kept : (pushControl (pushGeneral m')).mem.load
      ((pushGeneral m').below 8 + BitVec.ofNat 64 o) =
        (pushGeneral m').mem.load ((pushGeneral m').below 8 + BitVec.ofNat 64 o) :=
    Machine.load_pushes_above above small
  rwa [entered.belowControl] at kept

theorem load_general (entered : Entered m p m') (lower : 64 ≤ o) (upper : o + 8 ≤ 192)
    (found : (descending (builtGeneral.map (Operand.value m'))).lookup (o - 64) = some value) :
    (pushControl (pushGeneral m')).mem.load (p + BitVec.ofNat 64 o) = value := by
  have small : 8 * 16 ≤ 2 ^ 64 := by decide
  have read : (pushGeneral m').mem.load (m'.below 16 + BitVec.ofNat 64 (o - 64)) = value :=
    Machine.load_pushes small found
  rw [entered.belowGeneral, offset_add, Nat.add_sub_cancel' lower] at read
  exact (entered.load_aboveControl lower (by omega)).trans read

theorem image (entered : Entered m p m') :
    (pushControl (pushGeneral m')).mem.bytes (p + BitVec.ofNat 64 192) 464 = m.cpu.fx := by
  have lower : Separate ((pushGeneral m').below 8) 64 (p + BitVec.ofNat 64 192) 464 := by
    have apart : Separate (p + BitVec.ofNat 64 0) 64 (p + BitVec.ofNat 64 192) 464 :=
      separate_of_offsets (.inl (by decide)) (by decide) (by decide) (by decide) (by decide)
    rw [BitVec.add_zero] at apart
    rwa [entered.belowControl]
  have upper : Separate (m'.below 16) 128 (p + BitVec.ofNat 64 192) 464 := by
    rw [entered.belowGeneral]
    exact separate_of_offsets (.inl (by decide)) (by decide) (by decide) (by decide) (by decide)
  have control : Agree (pushControl (pushGeneral m')).mem (pushGeneral m').mem
      (p + BitVec.ofNat 64 192) 464 := Machine.agree_pushes lower
  have general : Agree (pushGeneral m').mem m'.mem (p + BitVec.ofNat 64 192) 464 :=
    Machine.agree_pushes upper
  rw [(control.trans general).bytes_eq, entered.mem]
  exact bytes_storeBytes_same m.cpu.fx (by decide)

/-- What lies above the context is kept. -/
theorem load_above (entered : Entered m p m') (above : 192 ≤ o) (small : o + 8 ≤ 2 ^ 64) :
    (pushControl (pushGeneral m')).mem.load (p + BitVec.ofNat 64 o) =
      m'.mem.load (p + BitVec.ofNat 64 o) := by
  have general : 8 * 16 ≤ o - 64 := Nat.sub_le_sub_right above 64
  have kept : (pushGeneral m').mem.load (m'.below 16 + BitVec.ofNat 64 (o - 64)) =
      m'.mem.load (m'.below 16 + BitVec.ofNat 64 (o - 64)) :=
    Machine.load_pushes_above general (by omega)
  rw [entered.belowGeneral, offset_add, Nat.add_sub_cancel' (by omega)] at kept
  exact (entered.load_aboveControl (by omega) small).trans kept

/-- What the handler leaves at `p` is the state that was interrupted. -/
theorem contextAt_eq (entered : Entered m p m') (top : m.cpu.gpr .rsp = p + BitVec.ofNat 64 712) :
    (contextAt (pushControl (pushGeneral m')).mem p).cpu =
      { m.cpu.set .rsp (m.top 3) with
        seg := Function.update (Function.update m.cpu.seg .cs ((m.top 1).setWidth 16)) .ss
          ((m.top 4).setWidth 16)
        rip := m.top 0
        rflags := m.top 2 } := by
  refine Cpu.ext (funext fun r => ?_) (funext fun seg => ?_) ?_ ?_ ?_ ?_
  · rw [contextAt_gpr]
    cases r
    case rsp =>
      exact (entered.load_general (by decide) (by decide) rfl).trans (entered.frame top (by decide))
    case rbp => exact (entered.load_general (by decide) (by decide) rfl).trans entered.rbpWord
    all_goals
      exact (entered.load_general (by decide) (by decide) rfl).trans
        (entered.gpr _ (by decide) (by decide))
  · rw [contextAt_seg]
    cases seg
    case cs =>
      exact congrArg (BitVec.setWidth 16) ((entered.load_control rfl).trans
        ((entered.load_pushGeneral (by decide)).trans (entered.frame top (by decide))))
    case ss =>
      exact congrArg (BitVec.setWidth 16) ((entered.load_control rfl).trans
        ((entered.load_pushGeneral (by decide)).trans (entered.frame top (by decide))))
    case fs =>
      exact (congrArg (BitVec.setWidth 16) (entered.load_control rfl)).trans
        ((segWord_setWidth _ _).trans (congrFun entered.seg .fs))
    case gs =>
      exact (congrArg (BitVec.setWidth 16) (entered.load_control rfl)).trans
        ((segWord_setWidth _ _).trans (congrFun entered.seg .gs))
  · rw [contextAt_rip]
    exact (entered.load_control rfl).trans
      ((entered.load_pushGeneral (by decide)).trans (entered.frame top (by decide)))
  · rw [contextAt_rflags]
    exact (entered.load_control rfl).trans
      ((entered.load_pushGeneral (by decide)).trans (entered.frame top (by decide)))
  · rw [contextAt_cr3]
    exact (entered.load_control rfl).trans entered.cr3
  · rw [contextAt_fx]
    exact entered.image

end Entered

end Building

/-! ## The state that is interrupted -/

section Interrupted

variable (gate : Gate) (m : Machine)

/-- Where the handler builds the context. -/
def builtAt (gate : Gate) : BitVec 64 :=
  (gate.ist &&& ~~~0xf) - BitVec.ofNat 64 752

theorem aligned_builtAt : Aligned (builtAt gate) := by
  have mask : (~~~0xf : BitVec 64).setWidth 4 = 0#4 := by decide
  have low : (gate.ist &&& ~~~0xf).setWidth 4 = 0#4 := by
    rw [BitVec.setWidth_and, mask, BitVec.and_zero]
  have even := congrArg BitVec.toNat low
  unfold Aligned builtAt
  rw [BitVec.toNat_setWidth, BitVec.toNat_zero] at even
  rw [BitVec.toNat_sub, BitVec.toNat_ofNat]
  omega

theorem interrupt_rsp : (interrupt gate m).cpu.gpr .rsp = builtAt gate + BitVec.ofNat 64 712 := by
  have stack : (interrupt gate m).cpu.gpr .rsp = (gate.ist &&& ~~~0xf) - BitVec.ofNat 64 40 := rfl
  have top : gate.ist &&& ~~~0xf = builtAt gate + BitVec.ofNat 64 752 :=
    (BitVec.sub_add_cancel _ _).symm
  rw [stack, top]
  exact offset_sub (builtAt gate) (by decide)

theorem interrupt_top {k : Nat} {value : BitVec 64}
    (found : (descending [(m.cpu.seg .ss).setWidth 64, m.cpu.gpr .rsp, m.cpu.rflags,
      (m.cpu.seg .cs).setWidth 64, m.cpu.rip]).lookup (8 * k) = some value) :
    (interrupt gate m).top k = value :=
  Machine.top_pushes (show 8 * 5 ≤ 2 ^ 64 by decide) found

/-- A segment register that was pushed as a word comes back. -/
theorem seg_of_word (seg : BitVec 16) : (seg.setWidth 64).setWidth 16 = seg := by
  simp

/-- The context that the handler builds is that of the state that was interrupted. -/
theorem Entered.contextAt_interrupt {gate : Gate} {m m' : Machine}
    (entered : Entered (interrupt gate m) (builtAt gate) m') :
    (contextAt (pushControl (pushGeneral m')).mem (builtAt gate)).cpu = m.cpu := by
  rw [entered.contextAt_eq (interrupt_rsp gate m), interrupt_top gate m (k := 0) rfl,
    interrupt_top gate m (k := 1) rfl, interrupt_top gate m (k := 2) rfl,
    interrupt_top gate m (k := 3) rfl, interrupt_top gate m (k := 4) rfl]
  refine Cpu.ext (funext fun r => ?_) (funext fun seg => ?_) rfl rfl rfl rfl
  · cases r <;> rfl
  · cases seg
    case cs => exact seg_of_word _
    case ss => exact seg_of_word _
    all_goals rfl

/-- The handler of the timer interrupt builds the context of the state that was
interrupted, and passes its address. -/
theorem run_buildContext : ∃ m', run buildContext (interrupt gate m) = some m' ∧
    m'.cpu.gpr .rdi = builtAt gate ∧ (contextAt m'.mem (builtAt gate)).cpu = m.cpu := by
  obtain ⟨m', entered, builds⟩ := run_build (interrupt_rsp gate m) (aligned_builtAt gate)
  exact ⟨_, builds, Cpu.set_same _ _ _, entered.contextAt_interrupt⟩

end Interrupted

end Mikanos.Asm
