import Mikanos.Memory.Frames
import Mathlib.Tactic

/-!
# The bitmap in 64-bit lines

`alloc_map_` is an array of 64-bit lines, and a frame is one bit of one line.
This file runs the memory manager on the lines and reads the bits of the lines
as the manager of `Frames`: every operation on lines is the operation on bits.
-/

namespace Mikanos.Memory

/-- `kBytesPerFrame`. -/
def kBytesPerFrame : Nat := 4096

/-- `kBitsPerMapLine`. -/
def kBitsPerMapLine : Nat := 64

/-- `BitmapMemoryManager` with its array of lines. -/
structure LineManager where
  allocMap : Nat → BitVec 64
  rangeBegin : Nat
  rangeEnd : Nat

namespace LineManager

/-- The constructor. -/
def init : LineManager where
  allocMap _ := 0
  rangeBegin := 0
  rangeEnd := kFrameCount

/-- `GetBit`. -/
def getBit (m : LineManager) (frame : Nat) : Bool :=
  m.allocMap (frame / kBitsPerMapLine) &&& 1#64 <<< (frame % kBitsPerMapLine) != 0

/-- `SetBit`. -/
def setBit (m : LineManager) (frame : Nat) (allocated : Bool) : LineManager :=
  let line := m.allocMap (frame / kBitsPerMapLine)
  let bit := 1#64 <<< (frame % kBitsPerMapLine)
  { m with
    allocMap := Function.update m.allocMap (frame / kBitsPerMapLine)
      (if allocated then line ||| bit else line &&& ~~~bit) }

/-- `MarkAllocated`. -/
def markAllocated (m : LineManager) (start : Nat) : Nat → LineManager
  | 0 => m
  | n + 1 => (m.markAllocated start n).setBit (start + n) true

/-- `Free`. -/
def free (m : LineManager) (start : Nat) : Nat → LineManager
  | 0 => m
  | n + 1 => (m.free start n).setBit (start + n) false

/-- `SetMemoryRange`. -/
def setMemoryRange (m : LineManager) (rangeBegin rangeEnd : Nat) : LineManager :=
  { m with rangeBegin, rangeEnd }

/-- The bits of the lines. -/
def bits (m : LineManager) : BitmapMemoryManager where
  allocMap := m.getBit
  rangeBegin := m.rangeBegin
  rangeEnd := m.rangeEnd

/-- `Allocate`.  The search reads the lines through `GetBit` only. -/
def allocate (m : LineManager) (numFrames : Nat) : LineManager × Except Error Nat :=
  match m.bits.search numFrames (m.rangeEnd + 1 - m.rangeBegin) m.rangeBegin with
  | some start => (m.markAllocated start numFrames, .ok start)
  | none => (m, .error .noEnoughMemory)

/-! ## Lines and bits -/

theorem getBit_eq (m : LineManager) (frame : Nat) :
    m.getBit frame = (m.allocMap (frame / kBitsPerMapLine)).getLsbD (frame % kBitsPerMapLine) := by
  have inside : frame % 64 < 64 := Nat.mod_lt _ (by decide)
  rw [getBit, kBitsPerMapLine, ← BitVec.twoPow_eq, BitVec.and_twoPow]
  cases set : (m.allocMap (frame / 64)).getLsbD (frame % 64)
  · rfl
  · rw [if_pos rfl, bne_iff_ne]
    intro zero
    have bit := congrArg (BitVec.getLsbD · (frame % 64)) zero
    simp [inside] at bit

theorem getBit_init (frame : Nat) : init.getBit frame = false := by
  rw [getBit_eq]
  simp [init]

theorem getBit_setBit (m : LineManager) (frame other : Nat) (allocated : Bool) :
    (m.setBit frame allocated).getBit other =
      if other = frame then allocated else m.getBit other := by
  have inside : frame % 64 < 64 := Nat.mod_lt _ (by decide)
  rw [getBit_eq, getBit_eq, setBit, kBitsPerMapLine, ← BitVec.twoPow_eq]
  dsimp only
  by_cases line : other / 64 = frame / 64
  · rw [line, Function.update_self]
    by_cases same : other = frame
    · subst same
      cases allocated <;> simp [inside]
    · have bit : ¬other % 64 = frame % 64 := by omega
      have bound : other % 64 < 64 := Nat.mod_lt _ (by decide)
      cases allocated <;> simp [same, bit, bound]
  · have same : other ≠ frame := by
      rintro rfl
      exact line rfl
    rw [Function.update_of_ne line, if_neg same]

/-- Setting a bit of a line sets the bit. -/
theorem bits_setBit (m : LineManager) (frame : Nat) (allocated : Bool) :
    (m.setBit frame allocated).bits = m.bits.setBit frame allocated := by
  have agree : (m.setBit frame allocated).getBit = Function.update m.getBit frame allocated := by
    funext other
    rw [getBit_setBit, Function.update_apply]
  rw [bits, agree]
  rfl

theorem bits_markAllocated (m : LineManager) (start n : Nat) :
    (m.markAllocated start n).bits = m.bits.markAllocated start n := by
  induction n with
  | zero => rfl
  | succ n ih => rw [markAllocated, bits_setBit, ih, BitmapMemoryManager.markAllocated]

theorem bits_free (m : LineManager) (start n : Nat) :
    (m.free start n).bits = m.bits.free start n := by
  induction n with
  | zero => rfl
  | succ n ih => rw [free, bits_setBit, ih, BitmapMemoryManager.free]

/-- Allocation on lines is allocation on bits. -/
theorem bits_allocate (m : LineManager) (numFrames : Nat) :
    ((m.allocate numFrames).1.bits, (m.allocate numFrames).2) = m.bits.allocate numFrames := by
  have same : m.bits.search numFrames (m.bits.rangeEnd + 1 - m.bits.rangeBegin) m.bits.rangeBegin =
      m.bits.search numFrames (m.rangeEnd + 1 - m.rangeBegin) m.rangeBegin := rfl
  rw [allocate, BitmapMemoryManager.allocate, same]
  cases m.bits.search numFrames (m.rangeEnd + 1 - m.rangeBegin) m.rangeBegin with
  | some start => exact Prod.ext (bits_markAllocated m start numFrames) rfl
  | none => rfl

end LineManager

end Mikanos.Memory
