import Mathlib.Tactic

/-!
# Bit fields

A field of a packed structure is a range of the bits of a word, counted from the
lowest.  Reading a field yields a value of the field's own width; in an
expression C++ promotes such a value to the first of `int`, `unsigned int` and
the declared 64-bit type that holds every value of the field.
-/

namespace Mikanos.Memory

/-- A bit field: the bits below it, and its own. -/
structure BitField where
  offset : Nat
  width : Nat

namespace BitField

variable {w : Nat}

/-- Whether a bit is one of the field. -/
def Covers (f : BitField) (i : Nat) : Prop :=
  f.offset ≤ i ∧ i < f.offset + f.width

instance (f : BitField) (i : Nat) : Decidable (f.Covers i) :=
  inferInstanceAs (Decidable (_ ∧ _))

/-- The value of a field. -/
def read (f : BitField) (word : BitVec w) : BitVec f.width :=
  word.extractLsb' f.offset f.width

/-- The bits of a field. -/
def mask (f : BitField) (w : Nat) : BitVec w :=
  (BitVec.allOnes f.width).setWidth w <<< f.offset

/-- The word with the field set to a value. -/
def write (f : BitField) (word : BitVec w) (value : BitVec f.width) : BitVec w :=
  word &&& ~~~f.mask w ||| value.setWidth w <<< f.offset

/-- A field of a 64-bit type, promoted, shifted to the left and converted to 64
bits again. -/
def readShifted (f : BitField) (word : BitVec w) (n : Nat) : BitVec 64 :=
  if f.width < 32 then
    -- `int`: the shift may reach the sign bit
    ((f.read word).setWidth 32 <<< n).signExtend 64
  else if f.width = 32 then
    ((f.read word).setWidth 32 <<< n).setWidth 64
  else
    (f.read word).setWidth 64 <<< n

/-- A 64-bit value, shifted to the right and assigned to the field. -/
def writeShifted (f : BitField) (word : BitVec w) (value : BitVec 64) (n : Nat) : BitVec w :=
  f.write word ((value >>> n).setWidth f.width)

variable (f : BitField) (word : BitVec w)

theorem getLsbD_read (i : Nat) :
    (f.read word).getLsbD i = (decide (i < f.width) && word.getLsbD (f.offset + i)) :=
  BitVec.getLsbD_extractLsb' ..

theorem getLsbD_mask {i : Nat} (inside : i < w) : (f.mask w).getLsbD i = decide (f.Covers i) := by
  rw [mask, BitVec.getLsbD_shiftLeft, BitVec.getLsbD_setWidth, BitVec.getLsbD_allOnes]
  by_cases below : i < f.offset
  · have outside : ¬f.Covers i := fun covers => by have := covers.1; omega
    simp [below, outside]
  · have same : i - f.offset < f.width ↔ f.Covers i := by
      rw [Covers]
      omega
    simp [inside, below, same, show i - f.offset < w by omega]

/-- A write sets the bits of the field and leaves the others. -/
theorem getLsbD_write (value : BitVec f.width) {i : Nat} (inside : i < w) :
    (f.write word value).getLsbD i =
      if f.Covers i then value.getLsbD (i - f.offset) else word.getLsbD i := by
  rw [write, BitVec.getLsbD_or, BitVec.getLsbD_and, BitVec.getLsbD_not, f.getLsbD_mask inside,
    BitVec.getLsbD_shiftLeft, BitVec.getLsbD_setWidth]
  by_cases covers : f.Covers i
  · have above : ¬i < f.offset := by have := covers.1; omega
    simp [covers, inside, above, show i - f.offset < w by omega]
  · rw [if_neg covers]
    by_cases below : i < f.offset
    · simp [covers, inside, below]
    · have beyond : f.width ≤ i - f.offset := by
        rw [Covers] at covers
        omega
      simp [covers, inside, BitVec.getLsbD_of_ge value _ beyond]

/-- A field that lies in the word holds what is written to it. -/
theorem read_write (value : BitVec f.width) (fits : f.offset + f.width ≤ w) :
    f.read (f.write word value) = value := by
  apply BitVec.eq_of_getLsbD_eq
  intro i inside
  have covers : f.Covers (f.offset + i) := ⟨Nat.le_add_right .., by omega⟩
  rw [getLsbD_read, f.getLsbD_write word value (by omega), if_pos covers, Nat.add_sub_cancel_left]
  simp [inside]

/-- A value of a field without room for the bits of a 64-bit value loses them. -/
theorem readShifted_writeShifted_of_lt (value : BitVec 64) (n : Nat) (narrow : f.width < 32)
    (fits : f.offset + f.width ≤ w) :
    f.readShifted (f.writeShifted word value n) n =
      (((value >>> n).setWidth f.width).setWidth 32 <<< n).signExtend 64 := by
  rw [readShifted, if_pos narrow, writeShifted, read_write f word _ fits]

/-- A field with room for the upper bits of a 64-bit value keeps a value whose
lower bits are zero. -/
theorem readShifted_writeShifted (value : BitVec 64) (n : Nat) (wide : 64 ≤ f.width + n)
    (small : n < 32) (fits : f.offset + f.width ≤ w)
    (aligned : ∀ i < n, value.getLsbD i = false) :
    f.readShifted (f.writeShifted word value n) n = value := by
  rw [readShifted, if_neg (by omega), if_neg (by omega), writeShifted, read_write f word _ fits]
  apply BitVec.eq_of_getLsbD_eq
  intro i inside
  rw [BitVec.getLsbD_shiftLeft, BitVec.getLsbD_setWidth, BitVec.getLsbD_setWidth,
    BitVec.getLsbD_ushiftRight]
  by_cases below : i < n
  · rw [aligned i below]
    simp [below]
  · rw [Nat.add_sub_cancel' (by omega)]
    simp [inside, below, show i - n < 64 by omega, show i - n < f.width by omega]

end BitField

/-- The bits below a power of two that divides a number are zero. -/
theorem getLsbD_of_dvd {w n i : Nat} {value : BitVec w} (aligned : 2 ^ n ∣ value.toNat)
    (below : i < n) : value.getLsbD i = false := by
  rw [BitVec.getLsbD, Nat.testBit_eq_decide_div_mod_eq, decide_eq_false_iff_not]
  obtain ⟨k, product⟩ := aligned
  have split : (2 : Nat) ^ n = 2 ^ i * (2 * 2 ^ (n - i - 1)) := by
    rw [← Nat.pow_succ', ← Nat.pow_add]
    congr 1
    omega
  rw [product, split, Nat.mul_assoc, Nat.mul_div_cancel_left _ (by positivity), Nat.mul_assoc,
    Nat.mul_mod_right]
  decide

end Mikanos.Memory
