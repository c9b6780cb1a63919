import Mikanos.Asm.Returning

/-!
# System calls

The way of a system call through `SyscallEntry`: the processor enters at the
privilege of the kernel on the stack of the app, where the return is pushed, and
the handler runs on the stack of the kernel.  The two procedures that are called
on the way are given by what they keep.
-/

namespace Mikanos.Asm

open Memory Space

/-! ## Instructions -/

/-- The forms of the instructions outside of the context switch. -/
inductive Op
  | plain (instr : Instr)
  | and (dst : Reg) (imm : BitVec 64)
  | and32 (dst : Reg) (imm : BitVec 32)  -- on the lower half
  | mov32 (dst src : Reg)  -- on the lower halves
  | cmp32 (src : Reg) (imm : BitVec 32)
  | storeBack (base : Reg) (off : Nat) (src : Reg)  -- mov [base - off], src
  | leaBack (dst base : Reg) (off : Nat)  -- lea dst, [base - off]
  | cli
  | sti

namespace Machine

/-- The lower half of a register. -/
def low (m : Machine) (r : Reg) : BitVec 32 :=
  (m.cpu.gpr r).setWidth 32

/-- A lower half is given a value, and the upper half becomes zero. -/
def setLow (m : Machine) (r : Reg) (value : BitVec 32) : Machine :=
  m.set r (value.setWidth 64)

def withFlags (m : Machine) (rflags : BitVec 64) : Machine :=
  { m with cpu := { m.cpu with rflags := rflags } }

/-- The zero flag. -/
def zero (m : Machine) : Bool :=
  m.cpu.rflags.getLsbD 6

end Machine

/-- The flags after a bitwise operation; AF, which is undefined, stays. -/
def logicFlags (rflags result : BitVec 64) : BitVec 64 :=
  arithFlags rflags result false (rflags.getLsbD 4) false

/-- One instruction; `none` when it faults. -/
def Op.exec : Op → Machine → Option Machine
  | .plain instr, m => Asm.exec instr m
  | .and dst imm, m =>
      let new := m.cpu.gpr dst &&& imm
      some ((m.set dst new).withFlags (logicFlags m.cpu.rflags new))
  | .and32 dst imm, m =>
      let new := m.low dst &&& imm
      some ((m.setLow dst new).withFlags (logicFlags m.cpu.rflags (new.signExtend 64)))
  | .mov32 dst src, m => some (m.setLow dst (m.low src))
  | .cmp32 src imm, m =>
      let old := m.low src
      let new := old - imm
      let overflow := old.msb != imm.msb && new.msb != old.msb
      let adjust := decide (old.toNat % 16 < imm.toNat % 16)
      let carry := decide (old.toNat < imm.toNat)
      some (m.withFlags (arithFlags m.cpu.rflags (new.signExtend 64) carry adjust overflow))
  | .storeBack base off src, m =>
      some { m with mem := m.mem.store (m.cpu.gpr base - BitVec.ofNat 64 off) (m.cpu.gpr src) }
  | .leaBack dst base off, m => some (m.set dst (m.cpu.gpr base - BitVec.ofNat 64 off))
  | .cli, m => some (m.withFlags (setFlag m.cpu.rflags 9 false))
  | .sti, m => some (m.withFlags (setFlag m.cpu.rflags 9 true))

/-- Instructions one after the other. -/
def runOps : List Op → Machine → Option Machine
  | [], m => some m
  | op :: rest, m => (op.exec m).bind (runOps rest)

theorem runOps_cons {op : Op} {m next : Machine} (does : op.exec m = some next) (rest : List Op) :
    runOps (op :: rest) m = runOps rest next := by
  rw [runOps, does, Option.bind_some]

/-- Instructions of the context switch among the others. -/
theorem runOps_plain (instrs : List Instr) (rest : List Op) (m : Machine) :
    runOps (instrs.map Op.plain ++ rest) m = (run instrs m).bind (runOps rest) := by
  induction instrs generalizing m with
  | nil => rfl
  | cons instr instrs ih =>
      rw [List.map_cons, List.cons_append, runOps, run, Op.exec]
      cases exec instr m with
      | none => rfl
      | some m => exact ih m

/-! ## The edge of the kernel -/

/-- `InitializeSyscall`: the selectors of the kernel and of the apps. -/
def star : BitVec 64 :=
  (8 : BitVec 64) <<< 32 ||| (16 ||| 3 : BitVec 64) <<< 48

/-- The selector that an app has for its code. -/
def userCs : BitVec 16 := 0x23

/-- The selector that `CallApp` is given for the stack: `3 << 3 | 3`. -/
def userSs : BitVec 16 := 0x1b

/-- `InitializeSyscall`: the flags that are cleared on entry. -/
def fmask : BitVec 64 := 0

namespace Machine

/-- `syscall`, whose next instruction is at `rip`. -/
def syscall (m : Machine) : Machine :=
  let cs := star.extractLsb' 32 16 &&& 0xfffc
  let seg := Function.update (Function.update m.cpu.seg .cs cs) .ss (star.extractLsb' 32 16 + 8)
  let entered := (m.set .rcx m.cpu.rip).set .r11 m.cpu.rflags
  { entered with cpu := { entered.cpu with seg := seg, rflags := m.cpu.rflags &&& ~~~fmask } }

/-- `o64 sysret`. -/
def sysret (m : Machine) : Machine :=
  let cs := star.extractLsb' 48 16 + 16 ||| 3
  let ss := star.extractLsb' 48 16 + 8 ||| 3
  let seg := Function.update (Function.update m.cpu.seg .cs cs) .ss ss
  { m with cpu := { m.cpu with
      seg := seg
      rip := m.cpu.gpr .rcx
      rflags := m.cpu.gpr .r11 &&& 0x3c7fd7 ||| 2 } }

/-- `o64 retf`, to a lower privilege. -/
def retf (m : Machine) : Machine :=
  let cs := Function.update m.cpu.seg .cs ((m.top 1).setWidth 16)
  { m with cpu := { m.cpu.set .rsp (m.top 2) with
      seg := Function.update cs .ss ((m.top 3).setWidth 16)
      rip := m.top 0 } }

def ret (m : Machine) : Machine :=
  { m with cpu := { m.cpu.set .rsp (m.addr .rsp 8) with rip := m.top 0 } }

end Machine

/-! ## `SyscallEntry` -/

/-- The number of `Exit`. -/
def exitNumber : BitVec 32 := 0x80000002

/-- `SyscallEntry`, up to the call of `GetCurrentTaskOSStackPointer`. -/
def enterSyscall : List Op :=
  [ .plain (.push .rbp),
    .plain (.push .rcx),
    .plain (.push .r11),
    .plain (.push .rax),
    .plain (.mov .rcx .r10),
    .and32 .rax 0x7fffffff,
    .plain (.mov .rbp .rsp),
    .and .rsp 0xfffffffffffffff0,
    .plain (.push .rax),
    .plain (.push .rdx),
    .cli ]

/-- `SyscallEntry`, from there to the call of the handler. -/
def switchStack : List Op :=
  [ .sti,
    .plain (.loadMem .rdx .rsp 0),
    .storeBack .rax 16 .rdx,
    .plain (.loadMem .rdx .rsp 8),
    .storeBack .rax 8 .rdx,
    .leaBack .rsp .rax 16,
    .plain (.pop .rdx),
    .plain (.pop .rax),
    .and .rsp 0xfffffffffffffff0 ]

/-- `SyscallEntry`, from there to the jump. -/
def leaveHandled : List Op :=
  [ .plain (.mov .rsp .rbp),
    .plain (.pop .rsi),
    .cmp32 .rsi exitNumber ]

/-- `SyscallEntry`, from there to `sysret`. -/
def backToApp : List Op :=
  [ .plain (.pop .r11),
    .plain (.pop .rcx),
    .plain (.pop .rbp) ]

/-- `SyscallEntry`, at `.exit`. -/
def exitBranch : List Op :=
  [ .plain (.mov .rdi .rax),
    .mov32 .rsi .rdx ]

/-- `ExitApp`, up to `ret`. -/
def exitApp : List Op :=
  [ .plain (.mov .rsp .rdi),
    .mov32 .rax .rsi,
    .plain (.pop .r15),
    .plain (.pop .r14),
    .plain (.pop .r13),
    .plain (.pop .r12),
    .plain (.pop .rbp),
    .plain (.pop .rbx) ]

/-- `SyscallEntry`, from the return of the handler on. -/
def afterHandler (m : Machine) : Option Machine :=
  (runOps leaveHandled m).bind fun m =>
    if m.zero then (runOps (exitBranch ++ exitApp) m).map Machine.ret
    else (runOps backToApp m).map Machine.sysret

/-! ## Flags and alignment -/

theorem getLsbD_setFlag {rflags : BitVec 64} {bit i : Nat} {value : Bool} (inside : i < 64) :
    (setFlag rflags bit value).getLsbD i = if i = bit then value else rflags.getLsbD i := by
  have one : ((1 : BitVec 64) <<< bit).getLsbD i = decide (i = bit) := by grind
  have word : ((1 <<< bit : Nat) : BitVec 64) = (1 : BitVec 64) <<< bit := by
    apply BitVec.eq_of_toNat_eq
    simp
  have given : (((if value then 1 <<< bit else 0 : Nat) : BitVec 64)).getLsbD i =
      (value && decide (i = bit)) := by
    cases value
    · simp
    · rw [if_pos rfl, word, one, Bool.true_and]
  rw [setFlag, BitVec.getLsbD_or, BitVec.getLsbD_and, BitVec.getLsbD_not, one, given]
  by_cases same : i = bit <;> simp [same, inside]

/-- A comparison tells whether the values are the same. -/
theorem zero_cmp32 {m next : Machine} {r : Reg} {imm : BitVec 32}
    (does : (Op.cmp32 r imm).exec m = some next) : next.zero = decide (m.low r = imm) := by
  cases does
  have same : (m.low r - imm).signExtend 64 == 0 ↔ m.low r = imm := by
    rw [beq_iff_eq, ← BitVec.toInt_inj, BitVec.toInt_signExtend_of_le (by decide),
      BitVec.ofNat_eq_ofNat, BitVec.toInt_zero, ← BitVec.toInt_zero (w := 32), BitVec.toInt_inj]
    exact BitVec.sub_eq_iff_eq_add.trans (by rw [BitVec.zero_add])
  rw [Machine.zero, Machine.withFlags, arithFlags, getLsbD_setFlag (by decide), if_neg (by decide),
    getLsbD_setFlag (by decide), if_neg (by decide), getLsbD_setFlag (by decide), if_pos rfl]
  exact Bool.eq_iff_iff.mpr (same.trans decide_eq_true_iff.symm)

/-- The stack pointer is brought down to a multiple of 16. -/
theorem alignDown (p : BitVec 64) :
    ∃ k < 16, p &&& 0xfffffffffffffff0 = p - BitVec.ofNat 64 k ∧
      Aligned (p &&& 0xfffffffffffffff0) := by
  have mask : (0xfffffffffffffff0 : BitVec 64) = ~~~0xf := by decide
  have parts : p = (p &&& 0xfffffffffffffff0) + (p &&& 0xf) := by
    rw [mask, BitVec.add_eq_or_of_and_eq_zero]
    all_goals
      ext i
      simp only [BitVec.getElem_or, BitVec.getElem_and, BitVec.getElem_not]
      cases p[i] <;> simp
  have small : (p &&& 0xf).toNat < 16 := by
    rw [BitVec.toNat_and]
    exact Nat.lt_of_le_of_lt Nat.and_le_right (by decide)
  refine ⟨(p &&& 0xf).toNat, small, ?_, ?_⟩
  · rw [BitVec.ofNat_toNat, BitVec.setWidth_eq]
    exact BitVec.eq_sub_iff_add_eq.mpr parts.symm
  · have mask : (0xfffffffffffffff0 : BitVec 64).setWidth 4 = 0#4 := by decide
    have low : (p &&& 0xfffffffffffffff0).setWidth 4 = 0#4 := by
      rw [BitVec.setWidth_and, mask, BitVec.and_zero]
    have even := congrArg BitVec.toNat low
    rw [BitVec.toNat_setWidth, BitVec.toNat_zero] at even
    exact even

/-! ## Entering -/

/-- The procedure that gives the stack pointer of the kernel has returned: it was
kept at `q`, and `room` bytes below the stack were written. -/
structure Told (room : Nat) (q : BitVec 64) (asked told : Machine) : Prop where
  rax : told.cpu.gpr .rax = asked.mem.load q
  gpr : ∀ r, r ≠ .rax → told.cpu.gpr r = asked.cpu.gpr r
  seg : told.cpu.seg = asked.cpu.seg
  kept : ∀ a n, Separate (asked.cpu.gpr .rsp - BitVec.ofNat 64 room) room a n →
    Agree told.mem asked.mem a n

/-- The registers that a procedure keeps. -/
def calleeSaved : List Reg :=
  [.rbx, .rbp, .r12, .r13, .r14, .r15]

/-- The handler has returned: the registers that a procedure keeps and the frame of
the entry are what they were. -/
structure Handled (called back : Machine) : Prop where
  gpr : ∀ r ∈ calleeSaved, back.cpu.gpr r = called.cpu.gpr r
  seg : back.cpu.seg = called.cpu.seg
  frame : Agree back.mem called.mem (called.cpu.gpr .rbp) 32

/-- The number of a system call, as the entry passes it on. -/
def callNumber (m : Machine) : BitVec 64 :=
  (m.low .rax &&& 0x7fffffff).setWidth 64

section Entering

variable {room k : Nat} {p : BitVec 64} {m : Machine}

/-- What the entry pushes, as it lies from the bottom of its area on: the frame of
the return, and two registers at an address that is aligned. -/
def entryWords (room k : Nat) (m : Machine) : List (Nat × BitVec 64) :=
  [ (room + 56, m.cpu.gpr .rbp), (room + 48, m.cpu.rip), (room + 40, m.cpu.rflags),
    (room + 32, m.cpu.gpr .rax), (room + 24 - k, callNumber m), (room + 16 - k, m.cpu.gpr .rdx) ]

/-- The entry is about to ask for the stack pointer of the kernel. -/
structure Asked (p : BitVec 64) (room k : Nat) (m asked : Machine) : Prop where
  rsp : asked.cpu.gpr .rsp = p + BitVec.ofNat 64 (room + 16 - k)
  rbp : asked.cpu.gpr .rbp = p + BitVec.ofNat 64 (room + 32)
  rcx : asked.cpu.gpr .rcx = m.cpu.gpr .r10
  gpr : ∀ r, r ∉ [Reg.rsp, .rbp, .rcx, .r11, .rax] → asked.cpu.gpr r = m.cpu.gpr r
  seg : asked.cpu.seg = m.syscall.cpu.seg
  mem : asked.mem = m.mem.storeWords p (entryWords room k m)

theorem run_enterSyscall (top : m.cpu.gpr .rsp = p + BitVec.ofNat 64 (room + 64)) :
    ∃ k < 16, ∃ asked, Asked p room k m asked ∧ runOps enterSyscall m.syscall = some asked := by
  have down (i : Nat) (inside : 8 ≤ i) :
      p + BitVec.ofNat 64 i - 8 = p + BitVec.ofNat 64 (i - 8) := offset_sub p inside
  obtain ⟨k, small, aligned, -⟩ := alignDown (p + BitVec.ofNat 64 (room + 32))
  rw [offset_sub p (by omega)] at aligned
  refine ⟨k, small, ?_⟩
  have one : m.syscall.cpu.gpr .rsp - 8 = p + BitVec.ofNat 64 (room + 56) :=
    (congrArg (· - 8) top).trans (down _ (by omega))
  have two : m.syscall.cpu.gpr .rsp - 8 - 8 = p + BitVec.ofNat 64 (room + 48) :=
    (congrArg (· - 8) one).trans (down _ (by omega))
  have three : m.syscall.cpu.gpr .rsp - 8 - 8 - 8 = p + BitVec.ofNat 64 (room + 40) :=
    (congrArg (· - 8) two).trans (down _ (by omega))
  have four : m.syscall.cpu.gpr .rsp - 8 - 8 - 8 - 8 = p + BitVec.ofNat 64 (room + 32) :=
    (congrArg (· - 8) three).trans (down _ (by omega))
  have five : (p + BitVec.ofNat 64 (room + 32) &&& 0xfffffffffffffff0) - 8 =
      p + BitVec.ofNat 64 (room + 24 - k) := by
    rw [aligned, down _ (by omega)]
    congr 2
    omega
  have six : (p + BitVec.ofNat 64 (room + 32) &&& 0xfffffffffffffff0) - 8 - 8 =
      p + BitVec.ofNat 64 (room + 16 - k) := by
    rw [five, down _ (by omega)]
    congr 2
    omega
  rw [enterSyscall, runOps_cons rfl, runOps_cons rfl, runOps_cons rfl, runOps_cons rfl,
    runOps_cons rfl, runOps_cons rfl, runOps_cons rfl, runOps_cons rfl, runOps_cons rfl,
    runOps_cons rfl, runOps_cons rfl, runOps]
  refine ⟨_, ?_, rfl⟩
  refine ⟨?_, four, rfl, fun r other => ?_, rfl, ?_⟩
  · change (m.syscall.cpu.gpr .rsp - 8 - 8 - 8 - 8 &&& 0xfffffffffffffff0) - 8 - 8 = _
    rw [four, six]
  · cases r
    case rsp => exact absurd (by decide) other
    case rbp => exact absurd (by decide) other
    case rcx => exact absurd (by decide) other
    case r11 => exact absurd (by decide) other
    case rax => exact absurd (by decide) other
    all_goals rfl
  · change ((((((m.mem.store (m.syscall.cpu.gpr .rsp - 8) (m.cpu.gpr .rbp)).store
      (m.syscall.cpu.gpr .rsp - 8 - 8) m.cpu.rip).store
      (m.syscall.cpu.gpr .rsp - 8 - 8 - 8) m.cpu.rflags).store
      (m.syscall.cpu.gpr .rsp - 8 - 8 - 8 - 8) (m.cpu.gpr .rax)).store
      ((m.syscall.cpu.gpr .rsp - 8 - 8 - 8 - 8 &&& 0xfffffffffffffff0) - 8) (callNumber m)).store
      ((m.syscall.cpu.gpr .rsp - 8 - 8 - 8 - 8 &&& 0xfffffffffffffff0) - 8 - 8) (m.cpu.gpr .rdx)) =
        _
    rw [four, six, five, three, two, one]
    rfl

theorem entryWords_apart (small : k < 16) :
    ((entryWords room k m).map Prod.fst).Pairwise WordsApart := by
  simp only [entryWords, List.map_cons, List.map_nil, List.pairwise_cons, List.forall_mem_cons,
    WordsApart]
  simp only [List.not_mem_nil, IsEmpty.forall_iff, implies_true, List.Pairwise.nil, and_true]
  omega

theorem entryWords_inside : ∀ o ∈ (entryWords room k m).map Prod.fst, o + 8 ≤ room + 64 := by
  simp only [entryWords, List.map_cons, List.map_nil, List.forall_mem_cons, List.not_mem_nil,
    IsEmpty.forall_iff, implies_true, and_true]
  omega

/-- Words that do not meet have different places. -/
theorem lookup_of_apart {words : List (Nat × BitVec 64)}
    (apart : (words.map Prod.fst).Pairwise WordsApart) {o : Nat} {value : BitVec 64}
    (member : (o, value) ∈ words) : words.lookup o = some value := by
  induction words with
  | nil => exact absurd member List.not_mem_nil
  | cons word words ih =>
      obtain ⟨apart, apart_tail⟩ := List.pairwise_cons.mp apart
      rw [List.lookup_cons]
      rcases List.mem_cons.mp member with rfl | later
      · rw [beq_self_eq_true]
      · have other : o ≠ word.1 := by
          rcases apart o (List.mem_map_of_mem later) with below | above <;> omega
        rw [beq_eq_false_iff_ne.mpr other]
        exact ih apart_tail later

namespace Asked

variable {asked : Machine}

/-- What lies elsewhere is kept. -/
theorem agree (asks : Asked p room k m asked) {a : BitVec 64} {n : Nat}
    (apart : Separate p (room + 64) a n) : Agree asked.mem m.mem a n := by
  rw [asks.mem]
  exact agree_storeWords apart entryWords_inside

/-- The words are where they were pushed. -/
theorem word (asks : Asked p room k m asked) (small : k < 16) (room_le : room + 64 ≤ 2 ^ 64)
    {o : Nat} {value : BitVec 64} (member : (o, value) ∈ entryWords room k m) :
    asked.mem.load (p + BitVec.ofNat 64 o) = value := by
  rw [asks.mem]
  exact load_storeWords (entryWords_apart small)
    (fun o member => (entryWords_inside o member).trans room_le)
    (lookup_of_apart (entryWords_apart small) member)

end Asked

end Entering

/-! ## Calling the handler -/

/-- The handler is called for the system call of `m`, on the stack of the kernel. -/
structure Called (q : BitVec 64) (m called : Machine) : Prop where
  number : called.cpu.gpr .rax = callNumber m
  fourth : called.cpu.gpr .rcx = m.cpu.gpr .r10
  gpr : ∀ r, r ∉ [Reg.rsp, .rbp, .rcx, .r11, .rax] → called.cpu.gpr r = m.cpu.gpr r
  rsp : called.cpu.gpr .rsp = m.mem.load q &&& 0xfffffffffffffff0
  seg : called.cpu.seg = m.syscall.cpu.seg

/-- The frame of the return lies on the stack of the app. -/
structure Framed (m called : Machine) : Prop where
  rbp : called.cpu.gpr .rbp = m.below 4
  number : called.mem.load (m.below 4) = m.cpu.gpr .rax
  rflags : called.mem.load (m.below 4 + BitVec.ofNat 64 8) = m.cpu.rflags
  rip : called.mem.load (m.below 4 + BitVec.ofNat 64 16) = m.cpu.rip
  base : called.mem.load (m.below 4 + BitVec.ofNat 64 24) = m.cpu.gpr .rbp

section Calling

variable {room k : Nat} {p q : BitVec 64} {m asked told : Machine}

theorem Told.agree (tells : Told room q asked told) (asks : Asked p room k m asked) (small : k < 16)
    {a : BitVec 64} {n : Nat}
    (apart : Separate (p + BitVec.ofNat 64 (16 - k)) room a n) :
    Agree told.mem asked.mem a n := by
  refine tells.kept a n ?_
  have place : room + 16 - k - room = 16 - k := by omega
  rwa [asks.rsp, offset_sub p (by omega), place]

/-- The words that were pushed are still there. -/
theorem Told.word (tells : Told room q asked told) (asks : Asked p room k m asked) (small : k < 16)
    (positive : 0 < room) (room_le : room + 64 ≤ 2 ^ 64) {o : Nat} {value : BitVec 64}
    (above : room + 16 - k ≤ o) (member : (o, value) ∈ entryWords room k m) :
    told.mem.load (p + BitVec.ofNat 64 o) = value := by
  have inside := entryWords_inside o (List.mem_map_of_mem member)
  have apart : Separate (p + BitVec.ofNat 64 (16 - k)) room (p + BitVec.ofNat 64 o) 8 :=
    separate_of_offsets (.inl (by omega)) (by omega) (by omega) positive (by decide)
  rw [(tells.agree asks small apart).load_eq]
  exact asks.word small room_le member

/-- What lies elsewhere is kept. -/
theorem Told.elsewhere (tells : Told room q asked told) (asks : Asked p room k m asked)
    (small : k < 16) (positive : 0 < room) {a : BitVec 64} {n : Nat} (some : 0 < n)
    (apart : Separate p (room + 64) a n) : Agree told.mem m.mem a n :=
  (tells.agree asks small (apart.part (by omega) positive some)).trans (asks.agree apart)

end Calling

/-- Two words below the stack pointer of the kernel. -/
def copyBelow (mem : Space) (kernel third number : BitVec 64) : Space :=
  (mem.store (kernel - BitVec.ofNat 64 16) third).store
    (kernel - BitVec.ofNat 64 16 + BitVec.ofNat 64 8) number

section Copying

variable {mem : Space} {kernel third number : BitVec 64}

theorem copyBelow_third :
    (copyBelow mem kernel third number).load (kernel - BitVec.ofNat 64 16) = third := by
  have apart (a : BitVec 64) : Separate (a + BitVec.ofNat 64 8) 8 a 8 := by
    unfold Separate
    simp only [BitVec.toNat_sub, BitVec.toNat_add, BitVec.toNat_ofNat]
    omega
  rw [copyBelow, load_store_separate (apart _), load_store_same]

theorem copyBelow_number : (copyBelow mem kernel third number).load
    (kernel - BitVec.ofNat 64 16 + BitVec.ofNat 64 8) = number := by
  rw [copyBelow, load_store_same]

theorem agree_copyBelow {a : BitVec 64} {n : Nat} (some : 0 < n)
    (apart : Separate (kernel - BitVec.ofNat 64 16) 16 a n) :
    Agree (copyBelow mem kernel third number) mem a n :=
  (agree_store (apart.part (by decide) (by decide) some)).trans
    (agree_store (apart.initial (by decide)))

theorem kernel_half :
    kernel - BitVec.ofNat 64 8 = kernel - BitVec.ofNat 64 16 + BitVec.ofNat 64 8 := by
  rw [BitVec.sub_eq_iff_eq_add, offset_add, BitVec.sub_add_cancel]

end Copying

/-- The stack is that of the kernel, whose pointer was told. -/
structure Switched (told : Machine) (third number : BitVec 64) (called : Machine) : Prop where
  rsp : called.cpu.gpr .rsp = told.cpu.gpr .rax &&& 0xfffffffffffffff0
  rdx : called.cpu.gpr .rdx = third
  rax : called.cpu.gpr .rax = number
  gpr : ∀ r, r ∉ [Reg.rsp, .rdx, .rax] → called.cpu.gpr r = told.cpu.gpr r
  seg : called.cpu.seg = told.cpu.seg
  mem : called.mem = copyBelow told.mem (told.cpu.gpr .rax) third number

/-- Two words are brought from one stack to the other, and popped there. -/
theorem run_copyBelow {told : Machine} {third number : BitVec 64}
    (hasThird : told.mem.load (told.cpu.gpr .rsp + BitVec.ofNat 64 0) = third)
    (hasNumber : (told.mem.store (told.cpu.gpr .rax - BitVec.ofNat 64 16) third).load
      (told.cpu.gpr .rsp + BitVec.ofNat 64 8) = number) :
    ∃ called, runOps switchStack told = some called ∧ Switched told third number called := by
  rw [switchStack, runOps_cons rfl, runOps_cons rfl, runOps_cons rfl, runOps_cons rfl,
    runOps_cons rfl, runOps_cons rfl, runOps_cons rfl, runOps_cons rfl, runOps_cons rfl, runOps]
  have memory : (told.mem.store (told.cpu.gpr .rax - BitVec.ofNat 64 16)
      (told.mem.load (told.cpu.gpr .rsp + BitVec.ofNat 64 0))).store
        (told.cpu.gpr .rax - BitVec.ofNat 64 8)
        ((told.mem.store (told.cpu.gpr .rax - BitVec.ofNat 64 16)
          (told.mem.load (told.cpu.gpr .rsp + BitVec.ofNat 64 0))).load
            (told.cpu.gpr .rsp + BitVec.ofNat 64 8)) =
      copyBelow told.mem (told.cpu.gpr .rax) third number := by
    rw [hasThird, hasNumber, kernel_half, copyBelow]
  refine ⟨_, rfl, ?_, ?_, ?_, fun r other => ?_, rfl, memory⟩
  · change told.cpu.gpr .rax - BitVec.ofNat 64 16 + BitVec.ofNat 64 8 + BitVec.ofNat 64 8 &&&
      0xfffffffffffffff0 = _
    rw [offset_add, BitVec.sub_add_cancel]
  · refine (congrFun (congrArg load memory) _).trans ?_
    refine (congrArg (copyBelow _ _ _ _).load ?_).trans copyBelow_third
    exact BitVec.add_zero (told.cpu.gpr .rax - BitVec.ofNat 64 16)
  · refine (congrFun (congrArg load memory) _).trans ?_
    refine (congrArg (copyBelow _ _ _ _).load ?_).trans copyBelow_number
    exact BitVec.add_zero (told.cpu.gpr .rax - BitVec.ofNat 64 16 + BitVec.ofNat 64 8)
  · cases r
    case rsp => exact absurd (by decide) other
    case rdx => exact absurd (by decide) other
    case rax => exact absurd (by decide) other
    all_goals rfl

/-- The stack is switched, and the handler can be called. -/
theorem run_switchStack {room k : Nat} {p q : BitVec 64} {m asked told : Machine}
    (top : m.cpu.gpr .rsp = p + BitVec.ofNat 64 (room + 64)) (small : k < 16)
    (positive : 0 < room) (asks : Asked p room k m asked) (tells : Told room q asked told)
    (apart : Separate p (room + 64) (m.mem.load q - BitVec.ofNat 64 16) 16)
    (apart' : Separate p (room + 64) q 8) :
    ∃ called, runOps switchStack told = some called ∧ Called q m called ∧ Framed m called ∧
      ∀ a n, 0 < n → Separate p (room + 64) a n →
        Separate (m.mem.load q - BitVec.ofNat 64 16) 16 a n → Agree called.mem m.mem a n := by
  have room_le : room + 64 ≤ 2 ^ 64 := apart.1.trans (BitVec.isLt _).le
  have kernel : told.cpu.gpr .rax = m.mem.load q := tells.rax.trans (asks.agree apart').load_eq
  have stack : told.cpu.gpr .rsp = p + BitVec.ofNat 64 (room + 16 - k) :=
    (tells.gpr .rsp (by decide)).trans asks.rsp
  have third : told.mem.load (told.cpu.gpr .rsp + BitVec.ofNat 64 0) = m.cpu.gpr .rdx := by
    rw [stack, offset_add]
    exact tells.word asks small positive room_le le_rfl (by simp [entryWords])
  have first : (told.mem.store (told.cpu.gpr .rax - BitVec.ofNat 64 16) (m.cpu.gpr .rdx)).load
      (told.cpu.gpr .rsp + BitVec.ofNat 64 8) = callNumber m := by
    have place : room + 16 - k + 8 = room + 24 - k := by omega
    rw [stack, kernel, offset_add, place, load_store_separate]
    · exact tells.word asks small positive room_le (by omega) (by simp [entryWords])
    · exact (apart.part (by omega) (by decide) (by decide)).symm.initial (by decide)
  obtain ⟨called, runs, switched⟩ := run_copyBelow third first
  have through {r : Reg} (other : r ∉ [Reg.rsp, .rdx, .rax]) :
      called.cpu.gpr r = asked.cpu.gpr r := by
    have notRax : r ≠ .rax := fun same => other (by rw [same]; decide)
    exact (switched.gpr r other).trans (tells.gpr r notRax)
  have kept {a : BitVec 64} {n : Nat} (some : 0 < n)
      (apart : Separate (m.mem.load q - BitVec.ofNat 64 16) 16 a n) :
      Agree called.mem told.mem a n := by
    rw [switched.mem, kernel]
    exact agree_copyBelow some apart
  have bottom : p + BitVec.ofNat 64 (room + 32) = m.below 4 := by
    have place : room + 64 - 8 * 4 = room + 32 := by omega
    rw [Machine.below, top, offset_sub p (by omega), place]
  have frameWord {o : Nat} {value : BitVec 64} (o_le : o ≤ 24)
      (member : (room + 32 + o, value) ∈ entryWords room k m) :
      called.mem.load (m.below 4 + BitVec.ofNat 64 o) = value := by
    have outside : Separate (m.mem.load q - BitVec.ofNat 64 16) 16
        (p + BitVec.ofNat 64 (room + 32 + o)) 8 :=
      (apart.part (by omega) (by decide) (by decide)).symm
    rw [← bottom, offset_add, (kept (by decide) outside).load_eq]
    exact tells.word asks small positive room_le (by omega) member
  have number : called.mem.load (m.below 4 + BitVec.ofNat 64 0) = m.cpu.gpr .rax :=
    frameWord (by decide) (by simp [entryWords])
  rw [BitVec.add_zero] at number
  have registers (r : Reg) (other : r ∉ [Reg.rsp, .rbp, .rcx, .r11, .rax]) :
      called.cpu.gpr r = m.cpu.gpr r := by
    by_cases isThird : r = .rdx
    · rw [isThird, switched.rdx]
    · have notRsp : r ≠ .rsp := fun same => other (by rw [same]; decide)
      have notRax : r ≠ .rax := fun same => other (by rw [same]; decide)
      exact (through (by simp [notRsp, isThird, notRax])).trans (asks.gpr r other)
  refine ⟨called, runs, ?_, ?_, fun a n some outside kernelApart => ?_⟩
  · exact ⟨switched.rax, (through (by decide)).trans asks.rcx, registers,
      switched.rsp.trans (by rw [kernel]), switched.seg.trans (tells.seg.trans asks.seg)⟩
  · exact ⟨((through (by decide)).trans asks.rbp).trans bottom, number,
      frameWord (by decide) (by simp [entryWords]), frameWord (by decide) (by simp [entryWords]),
      frameWord (by decide) (by simp [entryWords])⟩
  · exact (kept some kernelApart).trans (tells.elsewhere asks small positive some outside)

/-! ## Returning -/

/-- The stack is that of the app again, and the number has been looked at. -/
structure Left (back left : Machine) : Prop where
  zero : left.zero = decide ((back.mem.load (back.cpu.gpr .rbp)).setWidth 32 = exitNumber)
  rsp : left.cpu.gpr .rsp = back.cpu.gpr .rbp + BitVec.ofNat 64 8
  gpr : ∀ r, r ∉ [Reg.rsp, .rsi] → left.cpu.gpr r = back.cpu.gpr r
  seg : left.cpu.seg = back.cpu.seg
  mem : left.mem = back.mem

theorem run_leaveHandled (back : Machine) :
    ∃ left, runOps leaveHandled back = some left ∧ Left back left := by
  rw [leaveHandled, runOps_cons rfl, runOps_cons rfl, runOps_cons rfl, runOps]
  refine ⟨_, rfl, ?_, rfl, fun r other => ?_, rfl, rfl⟩
  · refine (zero_cmp32 rfl).trans ?_
    have top : back.cpu.gpr .rbp + BitVec.ofNat 64 (8 * 0) = back.cpu.gpr .rbp :=
      BitVec.add_zero _
    change decide ((back.mem.load (back.cpu.gpr .rbp + BitVec.ofNat 64 (8 * 0))).setWidth 32 =
      exitNumber) = _
    rw [top]
  · cases r
    case rsp => exact absurd (by decide) other
    case rsi => exact absurd (by decide) other
    all_goals rfl

/-- The app goes on after the system call, with the results of the handler. -/
structure Resumed (m back resumed : Machine) : Prop where
  rip : resumed.cpu.rip = m.cpu.rip
  rflags : resumed.cpu.rflags = m.cpu.rflags &&& 0x3c7fd7 ||| 2
  rsp : resumed.cpu.gpr .rsp = m.cpu.gpr .rsp
  gpr : ∀ r ∈ calleeSaved, resumed.cpu.gpr r = m.cpu.gpr r
  value : resumed.cpu.gpr .rax = back.cpu.gpr .rax
  error : resumed.cpu.gpr .rdx = back.cpu.gpr .rdx
  cs : resumed.cpu.seg .cs = userCs
  ss : resumed.cpu.seg .ss = userSs
  mem : resumed.mem = back.mem

/-- The handler has returned, on the frame that is still there. -/
theorem Framed.handled {m called back : Machine} (frame : Framed m called)
    (handled : Handled called back) : Framed m back := by
  obtain ⟨rbp, number, rflags, rip, base⟩ := frame
  have kept := handled.frame
  rw [rbp] at kept
  refine ⟨(handled.gpr .rbp (by decide)).trans rbp, ?_, ?_, ?_, ?_⟩
  · refine (Agree.load_eq fun i inside => kept i (by omega)).trans number
  · exact (kept.part (by decide)).load_eq.trans rflags
  · exact (kept.part (by decide)).load_eq.trans rip
  · exact (kept.part (by decide)).load_eq.trans base

/-- Registers are popped, among the other instructions. -/
theorem runOps_pop {m : Machine} (base : BitVec 64) (o : Nat) {targets : List Reg}
    (distinct : targets.Nodup) (kept : .rsp ∉ targets)
    (top : m.cpu.gpr .rsp = base + BitVec.ofNat 64 o) :
    runOps (targets.map (Op.plain ∘ Instr.pop)) m = some (m.popped base o targets) := by
  have pops := run_pop base o distinct kept top []
  rw [List.append_nil, run] at pops
  rw [← List.map_map, ← List.append_nil (List.map _ _), runOps_plain, pops, Option.bind_some,
    runOps]

/-- Any other call than `Exit` returns to the app. -/
theorem afterHandler_resumes {q : BitVec 64} {m called back : Machine} (calls : Called q m called)
    (frame : Framed m called) (handled : Handled called back) (number : m.low .rax ≠ exitNumber) :
    ∃ resumed, afterHandler back = some resumed ∧ Resumed m back resumed := by
  obtain ⟨left, leaves, zero, rsp, gpr, seg, mem⟩ := run_leaveHandled back
  have frame' := frame.handled handled
  rw [Machine.low] at number
  rw [frame'.rbp, frame'.number, decide_eq_false number] at zero
  rw [frame'.rbp] at rsp
  have top : m.below 4 + BitVec.ofNat 64 32 = m.cpu.gpr .rsp := BitVec.sub_add_cancel _ _
  have runs : runOps ([Reg.r11, .rcx, .rbp].map (Op.plain ∘ Instr.pop)) left =
      some (left.popped (m.below 4) 8 [.r11, .rcx, .rbp]) :=
    runOps_pop (m.below 4) 8 (by decide) (by decide) rsp
  change runOps backToApp left = _ at runs
  rw [afterHandler, leaves, Option.bind_some, zero, if_neg Bool.false_ne_true, runs,
    Option.map_some]
  have saved (r : Reg) (member : r ∈ calleeSaved) (other : r ≠ .rbp) :
      left.cpu.gpr r = m.cpu.gpr r := by
    have notRbp : r ∉ [Reg.rsp, .rbp, .rcx, .r11, .rax] := by
      intro among
      revert member among other
      cases r <;> decide
    have notRsp : r ∉ [Reg.rsp, .rsi] := by
      intro among
      revert member among
      cases r <;> decide
    rw [gpr r notRsp, handled.gpr r member, calls.gpr r notRbp]
  refine ⟨_, rfl, ?_⟩
  refine ⟨?_, ?_, top, fun r member => ?_, gpr .rax (by decide), gpr .rdx (by decide), ?_, ?_, mem⟩
  · change left.mem.load (m.below 4 + BitVec.ofNat 64 16) = _
    rw [mem, frame'.rip]
  · change left.mem.load (m.below 4 + BitVec.ofNat 64 8) &&& 0x3c7fd7 ||| 2 = _
    rw [mem, frame'.rflags]
  · by_cases base : r = .rbp
    · rw [base]
      change left.mem.load (m.below 4 + BitVec.ofNat 64 24) = _
      rw [mem, frame'.base]
    · refine Eq.trans ?_ (saved r member base)
      cases r
      case rbp => exact absurd rfl base
      all_goals first | rfl | exact absurd member (by decide)
  · rfl
  · rfl

/-- The bottom of what the entry writes on the stack of the app: the frame, and what
the first procedure needs. -/
def Machine.entryArea (m : Machine) (room : Nat) : BitVec 64 :=
  m.cpu.gpr .rsp - BitVec.ofNat 64 (room + 64)

/-- The entry, with the way from the first procedure to the handler. -/
theorem run_entry {room : Nat} {q : BitVec 64} {m : Machine} (positive : 0 < room)
    (apart : Separate (m.entryArea room) (room + 64) (m.mem.load q - BitVec.ofNat 64 16) 16)
    (apart' : Separate (m.entryArea room) (room + 64) q 8) :
    ∃ asked, runOps enterSyscall m.syscall = some asked ∧
      ∀ told, Told room q asked told → ∃ called, runOps switchStack told = some called ∧
        Called q m called ∧ Framed m called ∧
        ∀ a n, 0 < n → Separate (m.entryArea room) (room + 64) a n →
          Separate (m.mem.load q - BitVec.ofNat 64 16) 16 a n → Agree called.mem m.mem a n := by
  have top : m.cpu.gpr .rsp = m.entryArea room + BitVec.ofNat 64 (room + 64) :=
    (BitVec.sub_add_cancel _ _).symm
  obtain ⟨k, small, asked, asks, enters⟩ := run_enterSyscall top
  exact ⟨asked, enters, fun told tells =>
    run_switchStack top small positive asks tells apart apart'⟩

/-- An app that calls `PutString`, with the stack pointer of the kernel at `0x5000`. -/
def sampleApp : Machine where
  cpu :=
    { gpr := fun r =>
        if r = .rsp then 0x40000 else if r = .rax then 0x80000001
        else BitVec.ofNat 64 r.offset
      seg := fun seg => match seg with
        | .cs => userCs
        | .ss => userSs
        | .fs | .gs => 0
      rip := 0xffff800000001000
      rflags := 0x202
      cr3 := 0x3000
      fx := fun _ => 0 }
  mem := Space.store (fun _ => 0) 0x5000 0x90008

theorem sampleApp_kernel : sampleApp.mem.load 0x5000 = 0x90008 :=
  load_store_same _

end Mikanos.Asm
