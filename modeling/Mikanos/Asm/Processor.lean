import Mathlib.Logic.Function.Basic
import Mikanos.Memory.Wrapping

/-!
# The processor under the context switch

The instructions of `asmfunc.asm` that save and restore contexts, in 64-bit mode
at the highest privilege.  The state has the registers that belong to a context
and the memory; `rip` is that of the code which was left, and changes when `iret`
enters other code.  An `fxsave` or `fxrstor` at an address that is not a multiple
of 16 faults, which is `none` here.
-/

namespace Mikanos.Asm

open Memory

/-- The general registers. -/
inductive Reg
  | rax | rbx | rcx | rdx | rdi | rsi | rsp | rbp
  | r8 | r9 | r10 | r11 | r12 | r13 | r14 | r15
  deriving DecidableEq

/-- The segment registers of a context. -/
inductive Seg
  | cs | ss | fs | gs
  deriving DecidableEq

/-- What `fxsave` writes: of its 512 bytes, the last 48 are left to software. -/
abbrev FxImage := Fin 464 → BitVec 8

@[ext]
structure Cpu where
  gpr : Reg → BitVec 64
  seg : Seg → BitVec 16
  rip : BitVec 64
  rflags : BitVec 64
  cr3 : BitVec 64
  fx : FxImage

@[ext]
structure Machine where
  cpu : Cpu
  mem : Space

/-- A register is given a value. -/
def Cpu.set (cpu : Cpu) (r : Reg) (value : BitVec 64) : Cpu :=
  { cpu with gpr := Function.update cpu.gpr r value }

/-! ## Flags -/

def setFlag (rflags : BitVec 64) (bit : Nat) (value : Bool) : BitVec 64 :=
  rflags &&& ~~~((1 : BitVec 64) <<< bit) ||| (if value then 1 <<< bit else 0)

/-- The flags after an addition or a subtraction. -/
def arithFlags (rflags result : BitVec 64) (carry adjust overflow : Bool) : BitVec 64 :=
  let parity := (List.range 8).countP (result.getLsbD ·) % 2 == 0
  let rflags := setFlag (setFlag rflags 0 carry) 2 parity
  let rflags := setFlag (setFlag rflags 4 adjust) 6 (result == 0)
  setFlag (setFlag rflags 7 result.msb) 11 overflow

/-- What `pushfq` pushes: without RF and VM. -/
def pushedFlags (rflags : BitVec 64) : BitVec 64 :=
  rflags &&& 0xfcffff

/-! ## Instructions -/

/-- The forms of the instructions that are used. -/
inductive Instr
  | storeMem (base : Reg) (off : Nat) (src : Reg)  -- mov [base + off], src
  | loadMem (dst base : Reg) (off : Nat)  -- mov dst, [base + off]
  | mov (dst src : Reg)
  | lea (dst base : Reg) (off : Nat)
  | add (dst : Reg) (imm : Nat)
  | sub (dst : Reg) (imm : Nat)
  | push (src : Reg)
  | pushMem (base : Reg) (off : Nat)
  | pop (dst : Reg)
  | popMem (base : Reg) (off : Nat)
  | pushfq
  | loadCr3 (dst : Reg)  -- mov dst, cr3
  | storeCr3 (src : Reg)  -- mov cr3, src
  | loadSeg (dst : Reg) (seg : Seg)  -- mov with the low 16 bits of dst
  | storeSeg (seg : Seg) (src : Reg)  -- mov with the low 16 bits of src
  | fxsave (base : Reg) (off : Nat)
  | fxrstor (base : Reg) (off : Nat)
  | iret

namespace Machine

/-- The address of an operand in memory. -/
def addr (m : Machine) (base : Reg) (off : Nat) : BitVec 64 :=
  m.cpu.gpr base + BitVec.ofNat 64 off

def set (m : Machine) (r : Reg) (value : BitVec 64) : Machine :=
  { m with cpu := m.cpu.set r value }

def pushValue (m : Machine) (value : BitVec 64) : Machine :=
  { cpu := m.cpu.set .rsp (m.cpu.gpr .rsp - 8)
    mem := m.mem.store (m.cpu.gpr .rsp - 8) value }

/-- What lies at the top of the stack, and what lies below it. -/
def top (m : Machine) (depth : Nat) : BitVec 64 :=
  m.mem.load (m.addr .rsp (8 * depth))

/-- A procedure is called, to return to an address. -/
def call (m : Machine) (ret : BitVec 64) : Machine :=
  m.pushValue ret

end Machine

/-- A register whose low 16 bits are written. -/
def segWord (old : BitVec 64) (seg : BitVec 16) : BitVec 64 :=
  (old.extractLsb' 16 48 ++ seg : BitVec (48 + 16))

theorem segWord_setWidth (old : BitVec 64) (seg : BitVec 16) :
    (segWord old seg).setWidth 16 = seg :=
  BitVec.setWidth_append_eq_right

/-- A multiple of 16, as `fxsave` and `fxrstor` need it. -/
def Aligned (p : BitVec 64) : Prop :=
  p.toNat % 16 = 0

instance (p : BitVec 64) : Decidable (Aligned p) :=
  inferInstanceAs (Decidable (_ = _))

/-- One instruction; `none` when it faults. -/
def exec : Instr → Machine → Option Machine
  | .storeMem base off src, m =>
      some { m with mem := m.mem.store (m.addr base off) (m.cpu.gpr src) }
  | .loadMem dst base off, m => some (m.set dst (m.mem.load (m.addr base off)))
  | .mov dst src, m => some (m.set dst (m.cpu.gpr src))
  | .lea dst base off, m => some (m.set dst (m.addr base off))
  | .add dst imm, m =>
      let old := m.cpu.gpr dst
      let new := old + BitVec.ofNat 64 imm
      let overflow := old.msb == (BitVec.ofNat 64 imm).msb && new.msb != old.msb
      let adjust := decide (16 ≤ old.toNat % 16 + imm % 16)
      let rflags := arithFlags m.cpu.rflags new (decide (new.toNat < old.toNat)) adjust overflow
      some { m with cpu := { m.cpu.set dst new with rflags := rflags } }
  | .sub dst imm, m =>
      let old := m.cpu.gpr dst
      let new := old - BitVec.ofNat 64 imm
      let overflow := old.msb != (BitVec.ofNat 64 imm).msb && new.msb != old.msb
      let adjust := decide (old.toNat % 16 < imm % 16)
      let rflags := arithFlags m.cpu.rflags new (decide (old.toNat < imm)) adjust overflow
      some { m with cpu := { m.cpu.set dst new with rflags := rflags } }
  | .push src, m => some (m.pushValue (m.cpu.gpr src))
  | .pushMem base off, m => some (m.pushValue (m.mem.load (m.addr base off)))
  | .pop dst, m => some ((m.set .rsp (m.addr .rsp 8)).set dst (m.top 0))
  | .popMem base off, m =>
      let popped := m.set .rsp (m.addr .rsp 8)
      some { popped with mem := m.mem.store (popped.addr base off) (m.top 0) }
  | .pushfq, m => some (m.pushValue (pushedFlags m.cpu.rflags))
  | .loadCr3 dst, m => some (m.set dst m.cpu.cr3)
  | .storeCr3 src, m => some { m with cpu := { m.cpu with cr3 := m.cpu.gpr src } }
  | .loadSeg dst seg, m => some (m.set dst (segWord (m.cpu.gpr dst) (m.cpu.seg seg)))
  | .storeSeg seg src, m =>
      let value := (m.cpu.gpr src).setWidth 16
      some { m with cpu := { m.cpu with seg := Function.update m.cpu.seg seg value } }
  | .fxsave base off, m =>
      if Aligned (m.addr base off) then
        some { m with mem := m.mem.storeBytes (m.addr base off) m.cpu.fx }
      else
        none
  | .fxrstor base off, m =>
      if Aligned (m.addr base off) then
        some { m with cpu := { m.cpu with fx := m.mem.bytes (m.addr base off) 464 } }
      else
        none
  | .iret, m =>
      let cs := Function.update m.cpu.seg .cs ((m.top 1).setWidth 16)
      let seg := Function.update cs .ss ((m.top 4).setWidth 16)
      some { m with cpu := { m.cpu.set .rsp (m.top 3) with
        seg := seg
        rip := m.top 0
        rflags := m.top 2 } }

/-- Instructions one after the other. -/
def run : List Instr → Machine → Option Machine
  | [], m => some m
  | instr :: rest, m => (exec instr m).bind (run rest)

/-- What an instruction does, for a sequence that begins with it. -/
theorem run_cons {instr : Instr} {m next : Machine} (does : exec instr m = some next)
    (rest : List Instr) : run (instr :: rest) m = run rest next := by
  rw [run, does, Option.bind_some]

theorem run_append (first last : List Instr) (m : Machine) :
    run (first ++ last) m = (run first m).bind (run last) := by
  induction first generalizing m with
  | nil => rfl
  | cons instr first ih =>
      rw [List.cons_append, run, run]
      cases exec instr m with
      | none => rfl
      | some m => exact ih m

/-! ## Stack frames -/

/-- Words as they lie below the top of a stack, the last one lowest. -/
def descending : List (BitVec 64) → List (Nat × BitVec 64)
  | [] => []
  | value :: rest => (8 * rest.length, value) :: descending rest

namespace Machine

/-- The bottom of a stack frame of `n` words. -/
def below (m : Machine) (n : Nat) : BitVec 64 :=
  m.cpu.gpr .rsp - BitVec.ofNat 64 (8 * n)

/-- A frame of words is pushed. -/
def pushes (m : Machine) (values : List (BitVec 64)) : Machine :=
  { cpu := m.cpu.set .rsp (m.below values.length)
    mem := m.mem.storeWords (m.below values.length) (descending values) }

end Machine

/-! ## Interrupts -/

/-- The entry of an interrupt vector: the code segment of the handler, and the
stack that the processor switches to. -/
structure Gate where
  cs : BitVec 16
  ist : BitVec 64

/-- The flags in a handler: without TF, IF, NT, RF and VM. -/
def handlerFlags (rflags : BitVec 64) : BitVec 64 :=
  rflags &&& ~~~0x34300

/-- An interrupt: the processor pushes a frame on the stack of the gate, at a
multiple of 16.  `ss` becomes null when the privilege level changes. -/
def interrupt (gate : Gate) (m : Machine) : Machine :=
  let stack := m.set .rsp (gate.ist &&& ~~~0xf)
  let frame := stack.pushes [(m.cpu.seg .ss).setWidth 64, m.cpu.gpr .rsp, m.cpu.rflags,
    (m.cpu.seg .cs).setWidth 64, m.cpu.rip]
  let level := fun (cs : BitVec 16) => cs.setWidth 2
  let ss := if level (m.cpu.seg .cs) = level gate.cs then m.cpu.seg .ss else 0
  let seg := Function.update (Function.update m.cpu.seg .cs gate.cs) .ss ss
  { frame with cpu := { frame.cpu with seg := seg, rflags := handlerFlags m.cpu.rflags } }

/-! ## Rules for sequences -/

theorem offset_add (p : BitVec 64) (i j : Nat) :
    p + BitVec.ofNat 64 i + BitVec.ofNat 64 j = p + BitVec.ofNat 64 (i + j) := by
  rw [BitVec.add_assoc, ← BitVec.ofNat_add]

theorem offset_sub (p : BitVec 64) {i j : Nat} (le : j ≤ i) :
    p + BitVec.ofNat 64 i - BitVec.ofNat 64 j = p + BitVec.ofNat 64 (i - j) := by
  obtain ⟨k, rfl⟩ := Nat.exists_eq_add_of_le' le
  rw [← offset_add, BitVec.add_sub_cancel, Nat.add_sub_cancel]

theorem Aligned.offset {p : BitVec 64} {o : Nat} (aligned : Aligned p) (even : o % 16 = 0) :
    Aligned (p + BitVec.ofNat 64 o) := by
  unfold Aligned at aligned ⊢
  rw [BitVec.toNat_add, BitVec.toNat_ofNat]
  omega

@[simp]
theorem Cpu.set_same (cpu : Cpu) (r : Reg) (value : BitVec 64) :
    (cpu.set r value).gpr r = value := by
  simp [set]

theorem Cpu.set_other {r r' : Reg} (cpu : Cpu) (value : BitVec 64) (other : r' ≠ r) :
    (cpu.set r value).gpr r' = cpu.gpr r' := by
  simp [set, other]

theorem Cpu.set_set (cpu : Cpu) (r : Reg) (value value' : BitVec 64) :
    (cpu.set r value).set r value' = cpu.set r value' := by
  unfold Cpu.set
  rw [Function.update_idem]

theorem descending_inside {values : List (BitVec 64)} :
    ∀ o ∈ (descending values).map Prod.fst, o + 8 ≤ 8 * values.length := by
  induction values with
  | nil => exact fun _ none => absurd none List.not_mem_nil
  | cons value values ih =>
      refine List.forall_mem_cons.mpr ⟨(Nat.mul_succ 8 values.length).ge, fun o member => ?_⟩
      have := ih o member
      rw [List.length_cons]
      omega

theorem descending_apart (values : List (BitVec 64)) :
    ((descending values).map Prod.fst).Pairwise Space.WordsApart := by
  induction values with
  | nil => exact .nil
  | cons value values ih => exact .cons (fun o member => .inr (descending_inside o member)) ih

namespace Machine

theorem below_succ (m : Machine) (n : Nat) :
    m.below (n + 1) = m.cpu.gpr .rsp - 8 - BitVec.ofNat 64 (8 * n) := by
  have one : (8 : BitVec 64) = BitVec.ofNat 64 8 := rfl
  unfold below
  rw [one, BitVec.sub_sub, ← BitVec.ofNat_add, Nat.mul_succ, Nat.add_comm]

theorem below_add (m : Machine) (n k : Nat) :
    m.below (n + k) + BitVec.ofNat 64 (8 * k) = m.below n := by
  have length : 8 * k + 8 * n = 8 * (n + k) := by omega
  rw [below, below, BitVec.eq_sub_iff_add_eq, offset_add, length, BitVec.sub_add_cancel]

theorem below_pushValue (m : Machine) (value : BitVec 64) (n : Nat) :
    (m.pushValue value).below n = m.below (n + 1) := by
  rw [below_succ]
  unfold below pushValue
  rw [Cpu.set_same]

theorem addr_pushValue (m : Machine) (value : BitVec 64) {base : Reg} (other : base ≠ .rsp)
    (off : Nat) : (m.pushValue value).addr base off = m.addr base off := by
  unfold addr pushValue
  rw [Cpu.set_other m.cpu _ other]

theorem pushes_nil (m : Machine) : m.pushes [] = m := by
  unfold pushes below
  rw [List.length_nil, BitVec.sub_zero, Cpu.set, Function.update_eq_self]
  rfl

theorem pushes_cons (m : Machine) (value : BitVec 64) (values : List (BitVec 64)) :
    m.pushes (value :: values) = (m.pushValue value).pushes values := by
  have first : m.below (values.length + 1) + BitVec.ofNat 64 (8 * values.length) =
      m.cpu.gpr .rsp - 8 := by
    rw [below_succ, BitVec.sub_add_cancel]
  unfold pushes
  rw [below_pushValue, List.length_cons, descending, Space.storeWords, first]
  unfold pushValue
  rw [Cpu.set_set]

/-- What was pushed last is popped first. -/
theorem top_pushValue (m : Machine) (value : BitVec 64) : (m.pushValue value).top 0 = value := by
  unfold top addr pushValue
  rw [Cpu.set_same, Nat.mul_zero, BitVec.add_zero]
  exact Space.load_store_same value

theorem pushes_other (m : Machine) (values : List (BitVec 64)) {r : Reg} (other : r ≠ .rsp) :
    (m.pushes values).cpu.gpr r = m.cpu.gpr r :=
  Cpu.set_other m.cpu _ other

/-- A frame is read as it was pushed. -/
theorem load_pushes {m : Machine} {values : List (BitVec 64)} {value : BitVec 64} {o : Nat}
    (small : 8 * values.length ≤ 2 ^ 64) (found : (descending values).lookup o = some value) :
    (m.pushes values).mem.load (m.below values.length + BitVec.ofNat 64 o) = value :=
  Space.load_storeWords (descending_apart values)
    (fun o member => (descending_inside o member).trans small) found

theorem top_pushes {m : Machine} {values : List (BitVec 64)} {value : BitVec 64} {k : Nat}
    (small : 8 * values.length ≤ 2 ^ 64)
    (found : (descending values).lookup (8 * k) = some value) :
    (m.pushes values).top k = value := by
  rw [← load_pushes (m := m) small found]
  unfold top addr pushes
  rw [Cpu.set_same]

/-- What lies above a frame is kept. -/
theorem load_pushes_above {m : Machine} {values : List (BitVec 64)} {o : Nat}
    (above : 8 * values.length ≤ o) (small : o + 8 ≤ 2 ^ 64) :
    (m.pushes values).mem.load (m.below values.length + BitVec.ofNat 64 o) =
      m.mem.load (m.below values.length + BitVec.ofNat 64 o) := by
  have lower (o' : Nat) (member : o' ∈ (descending values).map Prod.fst) : o' + 8 ≤ o :=
    (descending_inside o' member).trans above
  exact Space.load_storeWords_apart (fun o' member => .inl (lower o' member))
    (fun o' member => (lower o' member).trans (by omega)) small

theorem agree_pushes {m : Machine} {values : List (BitVec 64)} {b : BitVec 64} {n : Nat}
    (apart : Space.Separate (m.below values.length) (8 * values.length) b n) :
    Space.Agree (m.pushes values).mem m.mem b n :=
  Space.agree_storeWords apart descending_inside

end Machine

/-- What is pushed. -/
inductive Operand
  | reg (r : Reg)
  | mem (base : Reg) (off : Nat)

namespace Operand

def push : Operand → Instr
  | .reg r => .push r
  | .mem base off => .pushMem base off

def value (m : Machine) : Operand → BitVec 64
  | .reg r => m.cpu.gpr r
  | .mem base off => m.mem.load (m.addr base off)

/-- Pushing `n` words does not change the operand. -/
def Kept (m : Machine) (n : Nat) : Operand → Prop
  | .reg r => r ≠ .rsp
  | .mem base off => base ≠ .rsp ∧ Space.Separate (m.below n) (8 * n) (m.addr base off) 8

/-- A word that is pushed is not seen. -/
theorem value_pushValue {m : Machine} {n : Nat} {operand : Operand} (word : BitVec 64)
    (kept : operand.Kept m (n + 1)) : operand.value (m.pushValue word) = operand.value m := by
  cases operand with
  | reg r => exact Cpu.set_other m.cpu _ kept
  | mem base off =>
      obtain ⟨other, apart⟩ := kept
      have place := m.addr_pushValue word other off
      have inside : 8 * n + 8 ≤ 8 * (n + 1) := (Nat.mul_succ 8 n).ge
      have first := apart.part inside (by decide) (by decide)
      rw [Machine.below_succ, BitVec.sub_add_cancel] at first
      rw [value, value, place]
      exact Space.load_store_separate first

theorem Kept.pushValue {m : Machine} {n : Nat} {operand : Operand} (word : BitVec 64)
    (kept : operand.Kept m (n + 2)) : operand.Kept (m.pushValue word) (n + 1) := by
  cases operand with
  | reg r => exact kept
  | mem base off =>
      obtain ⟨other, apart⟩ := kept
      have place := m.addr_pushValue word other off
      have rest : Space.Separate (m.below (n + 2)) (8 * (n + 1)) (m.addr base off) 8 :=
        apart.initial (by omega)
      rw [← Machine.below_pushValue m word, ← place] at rest
      exact ⟨other, rest⟩

end Operand

/-- A sequence of pushes. -/
theorem run_push {m : Machine} {operands : List Operand}
    (kept : ∀ operand ∈ operands, operand.Kept m operands.length) (rest : List Instr) :
    run (operands.map Operand.push ++ rest) m =
      run rest (m.pushes (operands.map (Operand.value m))) := by
  induction operands generalizing m with
  | nil => rw [List.map_nil, List.map_nil, Machine.pushes_nil, List.nil_append]
  | cons operand operands ih =>
      have head : exec operand.push m = some (m.pushValue (operand.value m)) := by
        cases operand <;> rfl
      have same : operands.map (Operand.value (m.pushValue (operand.value m))) =
          operands.map (Operand.value m) :=
        List.map_congr_left fun operand' member =>
          Operand.value_pushValue _ (kept operand' (List.mem_cons_of_mem operand member))
      rw [List.map_cons, List.cons_append, run, head, Option.bind_some, ih ?_, same,
        List.map_cons, Machine.pushes_cons]
      intro operand' member
      obtain ⟨n, length⟩ := Nat.exists_eq_succ_of_ne_zero
        (List.length_pos_of_mem member).ne'
      have before := kept operand' (List.mem_cons_of_mem operand member)
      rw [List.length_cons, length] at before
      rw [length]
      exact before.pushValue _

theorem run_fxsave {m : Machine} {base : Reg} {off : Nat} (aligned : Aligned (m.addr base off))
    (rest : List Instr) : run (.fxsave base off :: rest) m =
      run rest { m with mem := m.mem.storeBytes (m.addr base off) m.cpu.fx } := by
  rw [run, exec, if_pos aligned, Option.bind_some]

theorem run_fxrstor {m : Machine} {base : Reg} {off : Nat} (aligned : Aligned (m.addr base off))
    (rest : List Instr) : run (.fxrstor base off :: rest) m =
      run rest { m with cpu := { m.cpu with fx := m.mem.bytes (m.addr base off) 464 } } := by
  rw [run, exec, if_pos aligned, Option.bind_some]

/-- A sequence of stores to one object. -/
theorem run_store {m : Machine} {base : Reg} (stores : List (Nat × Reg)) (rest : List Instr) :
    run (stores.map (fun s => .storeMem base s.1 s.2) ++ rest) m =
      run rest { m with
        mem := m.mem.storeWords (m.cpu.gpr base) (stores.map fun s => (s.1, m.cpu.gpr s.2)) } := by
  induction stores generalizing m with
  | nil => rfl
  | cons store stores ih => exact ih

/-- Registers are loaded from one object. -/
def Machine.loads (m : Machine) (base : Reg) (sources : List (Reg × Nat)) : Machine :=
  let gpr := fun r =>
    (sources.lookup r).elim (m.cpu.gpr r) fun off => m.mem.load (m.addr base off)
  { m with cpu := { m.cpu with gpr := gpr } }

/-- A sequence of loads into registers other than the base. -/
theorem run_load {m : Machine} {base : Reg} {sources : List (Reg × Nat)}
    (distinct : (sources.map Prod.fst).Nodup) (kept : base ∉ sources.map Prod.fst)
    (rest : List Instr) :
    run (sources.map (fun s => .loadMem s.1 base s.2) ++ rest) m =
      run rest (m.loads base sources) := by
  induction sources generalizing m with
  | nil => rfl
  | cons source sources ih =>
      obtain ⟨r, off⟩ := source
      obtain ⟨fresh, distinct⟩ := List.nodup_cons.mp distinct
      obtain ⟨other, kept⟩ := not_or.mp (List.mem_cons.not.mp kept)
      refine (ih distinct kept).trans (congrArg (run rest) ?_)
      have place (off' : Nat) :
          (m.set r (m.mem.load (m.addr base off))).addr base off' = m.addr base off' := by
        unfold Machine.addr Machine.set
        rw [Cpu.set_other m.cpu _ other]
      refine Machine.ext (Cpu.ext (funext fun r' => ?_) rfl rfl rfl rfl rfl) rfl
      unfold Machine.loads
      simp only [place, List.lookup_cons]
      by_cases same : r' = r
      · rw [same]
        have missing : sources.lookup r = none := by
          refine List.lookup_eq_none_iff.mpr fun entry member => bne_iff_ne.mpr fun same => ?_
          exact fresh (List.mem_map.mpr ⟨entry, member, same.symm⟩)
        simp only [missing, beq_self_eq_true, Option.elim_none, Option.elim_some]
        exact Cpu.set_same m.cpu r _
      · rw [beq_eq_false_iff_ne.mpr same]
        cases sources.lookup r' with
        | none => exact Cpu.set_other m.cpu _ same
        | some off' => rfl

/-- Where the words that are popped lie. -/
def popSources : Nat → List Reg → List (Reg × Nat)
  | _, [] => []
  | o, r :: rest => (r, o) :: popSources (o + 8) rest

/-- Registers are popped from the stack, whose top is at an offset. -/
def Machine.popped (m : Machine) (base : BitVec 64) (o : Nat) (targets : List Reg) : Machine :=
  let stack := (m.set .rsp (base + BitVec.ofNat 64 (o + 8 * targets.length))).cpu.gpr
  let gpr := fun r => ((popSources o targets).lookup r).elim (stack r)
    fun off => m.mem.load (base + BitVec.ofNat 64 off)
  { m with cpu := { m.cpu with gpr := gpr } }

theorem popSources_fresh {o : Nat} {r : Reg} {targets : List Reg} (fresh : r ∉ targets) :
    (popSources o targets).lookup r = none := by
  induction targets generalizing o with
  | nil => rfl
  | cons target targets ih =>
      obtain ⟨other, fresh⟩ := not_or.mp (List.mem_cons.not.mp fresh)
      rw [popSources, List.lookup_cons, beq_eq_false_iff_ne.mpr other]
      exact ih fresh

/-- A sequence of pops. -/
theorem run_pop {m : Machine} (base : BitVec 64) (o : Nat) {targets : List Reg}
    (distinct : targets.Nodup) (kept : .rsp ∉ targets)
    (top : m.cpu.gpr .rsp = base + BitVec.ofNat 64 o) (rest : List Instr) :
    run (targets.map .pop ++ rest) m = run rest (m.popped base o targets) := by
  induction targets generalizing m o with
  | nil =>
      refine congrArg (run rest)
        (Machine.ext (Cpu.ext (funext fun r => ?_) rfl rfl rfl rfl rfl) rfl)
      change m.cpu.gpr r = (m.cpu.set .rsp (base + BitVec.ofNat 64 o)).gpr r
      rw [← top, Cpu.set, Function.update_eq_self]
  | cons target targets ih =>
      obtain ⟨fresh, distinct⟩ := List.nodup_cons.mp distinct
      obtain ⟨other, kept⟩ := not_or.mp (List.mem_cons.not.mp kept)
      have next : ((m.set .rsp (m.addr .rsp 8)).set target (m.top 0)).cpu.gpr .rsp =
          base + BitVec.ofNat 64 (o + 8) := by
        refine (Cpu.set_other _ _ other).trans ((Cpu.set_same _ _ _).trans ?_)
        unfold Machine.addr
        rw [top, offset_add]
      have word : m.top 0 = m.mem.load (base + BitVec.ofNat 64 o) := by
        unfold Machine.top Machine.addr
        rw [top, Nat.mul_zero, BitVec.add_zero]
      rw [List.map_cons, List.cons_append, run_cons rfl, ih _ distinct kept next]
      refine congrArg (run rest)
        (Machine.ext (Cpu.ext (funext fun r => ?_) rfl rfl rfl rfl rfl) rfl)
      have bottom : o + 8 + 8 * targets.length = o + 8 * (targets.length + 1) := by omega
      unfold Machine.popped
      simp only [popSources, List.lookup_cons, List.length_cons, bottom]
      by_cases same : r = target
      · rw [same, popSources_fresh fresh, beq_self_eq_true]
        refine (Cpu.set_other _ _ (Ne.symm other)).trans ((Cpu.set_same _ _ _).trans word)
      · rw [beq_eq_false_iff_ne.mpr same]
        cases (popSources (o + 8) targets).lookup r with
        | some off => rfl
        | none =>
            by_cases stack : r = .rsp
            · rw [stack]
              exact (Cpu.set_same _ _ _).trans (Cpu.set_same _ _ _).symm
            · refine (Cpu.set_other _ _ stack).trans ((Cpu.set_other _ _ same).trans ?_)
              exact (Cpu.set_other _ _ stack).trans (Cpu.set_other _ _ stack).symm

end Mikanos.Asm
