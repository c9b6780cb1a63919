import Mikanos.Asm.Processor

/-!
# Saving and restoring contexts

`SwitchContext` and the handler of the timer interrupt write the registers into a
`TaskContext`, and `RestoreContext` resumes from one.  The three sequences agree
on the layout of the structure: what is saved is what is resumed.
-/

namespace Mikanos.Asm

open Memory Space

/-! ## The sequences -/

/-- `SwitchContext` up to the label `RestoreContext`. -/
def saveContext : List Instr :=
  [ .storeMem .rsi 0x40 .rax,
    .storeMem .rsi 0x48 .rbx,
    .storeMem .rsi 0x50 .rcx,
    .storeMem .rsi 0x58 .rdx,
    .storeMem .rsi 0x60 .rdi,
    .storeMem .rsi 0x68 .rsi,
    .lea .rax .rsp 8,
    .storeMem .rsi 0x70 .rax,  -- RSP
    .storeMem .rsi 0x78 .rbp,
    .storeMem .rsi 0x80 .r8,
    .storeMem .rsi 0x88 .r9,
    .storeMem .rsi 0x90 .r10,
    .storeMem .rsi 0x98 .r11,
    .storeMem .rsi 0xa0 .r12,
    .storeMem .rsi 0xa8 .r13,
    .storeMem .rsi 0xb0 .r14,
    .storeMem .rsi 0xb8 .r15,
    .loadCr3 .rax,
    .storeMem .rsi 0x00 .rax,  -- CR3
    .loadMem .rax .rsp 0,
    .storeMem .rsi 0x08 .rax,  -- RIP
    .pushfq,
    .popMem .rsi 0x10,  -- RFLAGS
    .loadSeg .rax .cs,
    .storeMem .rsi 0x20 .rax,
    .loadSeg .rbx .ss,
    .storeMem .rsi 0x28 .rbx,
    .loadSeg .rcx .fs,
    .storeMem .rsi 0x30 .rcx,
    .loadSeg .rdx .gs,
    .storeMem .rsi 0x38 .rdx,
    .fxsave .rsi 0xc0 ]

/-- `RestoreContext`. -/
def restoreContext : List Instr :=
  [ .pushMem .rdi 0x28,  -- SS
    .pushMem .rdi 0x70,  -- RSP
    .pushMem .rdi 0x10,  -- RFLAGS
    .pushMem .rdi 0x20,  -- CS
    .pushMem .rdi 0x08,  -- RIP
    .fxrstor .rdi 0xc0,
    .loadMem .rax .rdi 0x00,
    .storeCr3 .rax,
    .loadMem .rax .rdi 0x30,
    .storeSeg .fs .rax,
    .loadMem .rax .rdi 0x38,
    .storeSeg .gs .rax,
    .loadMem .rax .rdi 0x40,
    .loadMem .rbx .rdi 0x48,
    .loadMem .rcx .rdi 0x50,
    .loadMem .rdx .rdi 0x58,
    .loadMem .rsi .rdi 0x68,
    .loadMem .rbp .rdi 0x78,
    .loadMem .r8 .rdi 0x80,
    .loadMem .r9 .rdi 0x88,
    .loadMem .r10 .rdi 0x90,
    .loadMem .r11 .rdi 0x98,
    .loadMem .r12 .rdi 0xa0,
    .loadMem .r13 .rdi 0xa8,
    .loadMem .r14 .rdi 0xb0,
    .loadMem .r15 .rdi 0xb8,
    .loadMem .rdi .rdi 0x60,
    .iret ]

/-- `SwitchContext`, which falls through to `RestoreContext`. -/
def switchContext : List Instr :=
  saveContext ++ restoreContext

/-- `IntHandlerLAPICTimer` up to the call of `LAPICTimerOnInterrupt`. -/
def buildContext : List Instr :=
  [ .push .rbp,
    .mov .rbp .rsp,
    .sub .rsp 512,
    .fxsave .rsp 0,
    .push .r15,
    .push .r14,
    .push .r13,
    .push .r12,
    .push .r11,
    .push .r10,
    .push .r9,
    .push .r8,
    .pushMem .rbp 0x00,  -- RBP
    .pushMem .rbp 0x20,  -- RSP
    .push .rsi,
    .push .rdi,
    .push .rdx,
    .push .rcx,
    .push .rbx,
    .push .rax,
    .loadSeg .rax .fs,
    .loadSeg .rbx .gs,
    .loadCr3 .rcx,
    .push .rbx,  -- GS
    .push .rax,  -- FS
    .pushMem .rbp 0x28,  -- SS
    .pushMem .rbp 0x10,  -- CS
    .push .rbp,  -- reserved1
    .pushMem .rbp 0x18,  -- RFLAGS
    .pushMem .rbp 0x08,  -- RIP
    .push .rcx,  -- CR3
    .mov .rdi .rsp ]

/-- `IntHandlerLAPICTimer` after the call. -/
def leaveHandler : List Instr :=
  [ .add .rsp (8 * 8),  -- CR3 to GS
    .pop .rax,
    .pop .rbx,
    .pop .rcx,
    .pop .rdx,
    .pop .rdi,
    .pop .rsi,
    .add .rsp 16,  -- RSP, RBP
    .pop .r8,
    .pop .r9,
    .pop .r10,
    .pop .r11,
    .pop .r12,
    .pop .r13,
    .pop .r14,
    .pop .r15,
    .fxrstor .rsp 0,
    .mov .rsp .rbp,
    .pop .rbp,
    .iret ]

/-! ## The structure -/

/-- `TaskContext`. -/
@[ext]
structure TaskContext where
  cr3 : BitVec 64
  rip : BitVec 64
  rflags : BitVec 64
  reserved1 : BitVec 64
  cs : BitVec 64
  ss : BitVec 64
  fs : BitVec 64
  gs : BitVec 64
  rax : BitVec 64
  rbx : BitVec 64
  rcx : BitVec 64
  rdx : BitVec 64
  rdi : BitVec 64
  rsi : BitVec 64
  rsp : BitVec 64
  rbp : BitVec 64
  r8 : BitVec 64
  r9 : BitVec 64
  r10 : BitVec 64
  r11 : BitVec 64
  r12 : BitVec 64
  r13 : BitVec 64
  r14 : BitVec 64
  r15 : BitVec 64
  fxsaveArea : Fin 512 → BitVec 8

/-- `sizeof(TaskContext)`: the structure is packed. -/
def TaskContext.size : Nat := 24 * 8 + 512

/-- The structure at an address, with the offsets of its declaration. -/
def contextAt (mem : Space) (p : BitVec 64) : TaskContext :=
  let word := fun (i : Nat) => mem.load (p + BitVec.ofNat 64 (8 * i))
  { cr3 := word 0, rip := word 1, rflags := word 2, reserved1 := word 3
    cs := word 4, ss := word 5, fs := word 6, gs := word 7
    rax := word 8, rbx := word 9, rcx := word 10, rdx := word 11
    rdi := word 12, rsi := word 13, rsp := word 14, rbp := word 15
    r8 := word 16, r9 := word 17, r10 := word 18, r11 := word 19
    r12 := word 20, r13 := word 21, r14 := word 22, r15 := word 23
    fxsaveArea := mem.bytes (p + BitVec.ofNat 64 (8 * 24)) 512 }

/-- The registers that a context stands for. -/
def TaskContext.cpu (ctx : TaskContext) : Cpu where
  gpr
    | .rax => ctx.rax
    | .rbx => ctx.rbx
    | .rcx => ctx.rcx
    | .rdx => ctx.rdx
    | .rdi => ctx.rdi
    | .rsi => ctx.rsi
    | .rsp => ctx.rsp
    | .rbp => ctx.rbp
    | .r8 => ctx.r8
    | .r9 => ctx.r9
    | .r10 => ctx.r10
    | .r11 => ctx.r11
    | .r12 => ctx.r12
    | .r13 => ctx.r13
    | .r14 => ctx.r14
    | .r15 => ctx.r15
  seg
    | .cs => ctx.cs.setWidth 16
    | .ss => ctx.ss.setWidth 16
    | .fs => ctx.fs.setWidth 16
    | .gs => ctx.gs.setWidth 16
  rip := ctx.rip
  rflags := ctx.rflags
  cr3 := ctx.cr3
  fx := fun i => ctx.fxsaveArea (i.castLE (by decide))

/-- A context is read from the bytes of the structure only. -/
theorem contextAt_eq_of_bytes {mem mem' : Space} {p q : BitVec 64}
    (same : ∀ i < TaskContext.size, mem (p + BitVec.ofNat 64 i) = mem' (q + BitVec.ofNat 64 i)) :
    contextAt mem p = contextAt mem' q := by
  have byte (o i : Nat) (inside : o + i < TaskContext.size) :
      mem (p + BitVec.ofNat 64 o + BitVec.ofNat 64 i) =
        mem' (q + BitVec.ofNat 64 o + BitVec.ofNat 64 i) := by
    rw [offset_add, offset_add]
    exact same (o + i) inside
  have word (i : Nat) (inside : i < 24) : mem.load (p + BitVec.ofNat 64 (8 * i)) =
      mem'.load (q + BitVec.ofNat 64 (8 * i)) := by
    refine load_congr fun j less => byte _ _ ?_
    unfold TaskContext.size
    omega
  have area : mem.bytes (p + BitVec.ofNat 64 (8 * 24)) 512 =
      mem'.bytes (q + BitVec.ofNat 64 (8 * 24)) 512 := by
    refine funext fun i => byte _ _ ?_
    have := i.isLt
    unfold TaskContext.size
    omega
  unfold contextAt
  simp (disch := decide) only [word, area]

theorem contextAt_congr {mem mem' : Space} {p : BitVec 64}
    (agree : Agree mem mem' p TaskContext.size) : contextAt mem p = contextAt mem' p :=
  contextAt_eq_of_bytes agree

/-- Where the sequences find a general register. -/
def Reg.offset : Reg → Nat
  | .rax => 0x40
  | .rbx => 0x48
  | .rcx => 0x50
  | .rdx => 0x58
  | .rdi => 0x60
  | .rsi => 0x68
  | .rsp => 0x70
  | .rbp => 0x78
  | .r8 => 0x80
  | .r9 => 0x88
  | .r10 => 0x90
  | .r11 => 0x98
  | .r12 => 0xa0
  | .r13 => 0xa8
  | .r14 => 0xb0
  | .r15 => 0xb8

/-- Where they find a segment register. -/
def Seg.offset : Seg → Nat
  | .cs => 0x20
  | .ss => 0x28
  | .fs => 0x30
  | .gs => 0x38

/-! The offsets are those of the declaration. -/

theorem contextAt_gpr (mem : Space) (p : BitVec 64) (r : Reg) :
    (contextAt mem p).cpu.gpr r = mem.load (p + BitVec.ofNat 64 r.offset) := by
  cases r <;> rfl

theorem contextAt_seg (mem : Space) (p : BitVec 64) (seg : Seg) : (contextAt mem p).cpu.seg seg =
    (mem.load (p + BitVec.ofNat 64 seg.offset)).setWidth 16 := by
  cases seg <;> rfl

theorem contextAt_cr3 (mem : Space) (p : BitVec 64) :
    (contextAt mem p).cpu.cr3 = mem.load (p + BitVec.ofNat 64 0x00) :=
  rfl

theorem contextAt_rip (mem : Space) (p : BitVec 64) :
    (contextAt mem p).cpu.rip = mem.load (p + BitVec.ofNat 64 0x08) :=
  rfl

theorem contextAt_rflags (mem : Space) (p : BitVec 64) :
    (contextAt mem p).cpu.rflags = mem.load (p + BitVec.ofNat 64 0x10) :=
  rfl

theorem contextAt_fx (mem : Space) (p : BitVec 64) :
    (contextAt mem p).cpu.fx = mem.bytes (p + BitVec.ofNat 64 0xc0) 464 :=
  rfl

end Mikanos.Asm
