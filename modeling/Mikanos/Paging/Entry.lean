import Mathlib.Tactic

/-!
# Page-map entries and linear addresses

The two unions of `paging.hpp`.  A `PageMapEntry` is a 64-bit word with a
pointer field and single-bit flags; since page maps are aligned, the pointer is
kept here as the number of the 4 KiB frame it points to.  A linear address is
kept as its bit fields.
-/

namespace Mikanos.Paging

/-- A page map has entries. -/
instance neZero_entries : NeZero 512 := ⟨by decide⟩

/-- A page has bytes. -/
instance neZero_page : NeZero 4096 := ⟨by decide⟩

instance neZero_high : NeZero 65536 := ⟨by decide⟩

/-- `PageMapEntry`: the word and its view as bit fields. -/
abbrev PageMapEntry := BitVec 64

namespace PageMapEntry

variable (e : PageMapEntry)

/-- Write one bit of an entry. -/
def setFlag (i : Nat) (value : Bool) : PageMapEntry :=
  if value then e ||| BitVec.twoPow 64 i else e &&& ~~~BitVec.twoPow 64 i

/-- `bits.present`. -/
def present : Bool := e.getLsbD 0

/-- `bits.writable`. -/
def writable : Bool := e.getLsbD 1

/-- `bits.user`. -/
def user : Bool := e.getLsbD 2

/-- `bits.huge_page`. -/
def hugePage : Bool := e.getLsbD 7

def setPresent (value : Bool) : PageMapEntry := setFlag e 0 value

def setWritable (value : Bool) : PageMapEntry := setFlag e 1 value

def setUser (value : Bool) : PageMapEntry := setFlag e 2 value

/-- `Pointer()`, as a frame number: the field `bits.addr`. -/
def pointer : Nat := (e.extractLsb' 12 40).toNat

/-- `SetPointer()`; the field has 40 bits. -/
def setPointer (frame : Nat) : PageMapEntry :=
  e.extractLsb' 52 12 ++ BitVec.ofNat 40 frame ++ e.extractLsb' 0 12

/-! ## Fields -/

theorem getLsbD_setFlag (i j : Nat) (value : Bool) (inside : i < 64) :
    (setFlag e i value).getLsbD j = if j = i then value else e.getLsbD j := by
  by_cases same : j = i
  · subst same
    cases value <;> simp [setFlag, inside]
  · cases value
    · simp [setFlag, same, Ne.symm same]
      intro set
      exact BitVec.lt_of_getLsbD set
    · simp [setFlag, same, Ne.symm same]

theorem pointer_setFlag (i : Nat) (value : Bool) (flag : i < 12) :
    pointer (setFlag e i value) = pointer e := by
  rw [pointer, pointer]
  congr 1
  apply BitVec.eq_of_getLsbD_eq
  intro j inside
  rw [BitVec.getLsbD_extractLsb', BitVec.getLsbD_extractLsb', getLsbD_setFlag e i _ _ (by omega),
    if_neg (by omega)]

theorem getLsbD_setPointer (frame i : Nat) (flag : i < 12) :
    (setPointer e frame).getLsbD i = e.getLsbD i := by
  change (e.extractLsb' 52 12 ++ BitVec.ofNat 40 frame ++ e.extractLsb' 0 12).getLsbD i = _
  rw [BitVec.getLsbD_append, if_pos flag, BitVec.getLsbD_extractLsb']
  simp [flag]

theorem pointer_setPointer (frame : Nat) (small : frame < 2 ^ 40) :
    pointer (setPointer e frame) = frame := by
  have field : (setPointer e frame).extractLsb' 12 40 = BitVec.ofNat 40 frame := by
    apply BitVec.eq_of_getLsbD_eq
    intro i inside
    rw [BitVec.getLsbD_extractLsb']
    change (decide (i < 40) &&
      (e.extractLsb' 52 12 ++ BitVec.ofNat 40 frame ++ e.extractLsb' 0 12).getLsbD (12 + i)) = _
    rw [BitVec.getLsbD_append, if_neg (by omega), BitVec.getLsbD_append, if_pos (by omega),
      Nat.add_sub_cancel_left]
    simp [inside]
  rw [pointer, field, BitVec.toNat_ofNat, Nat.mod_eq_of_lt small]

section Flags

variable (value : Bool) (frame : Nat)

@[simp] theorem present_setPresent : present (setPresent e value) = value := by
  rw [present, setPresent, getLsbD_setFlag e _ _ _ (by decide)]
  rfl

@[simp] theorem present_setWritable : present (setWritable e value) = present e := by
  rw [present, setWritable, getLsbD_setFlag e _ _ _ (by decide)]
  rfl

@[simp] theorem present_setUser : present (setUser e value) = present e := by
  rw [present, setUser, getLsbD_setFlag e _ _ _ (by decide)]
  rfl

@[simp] theorem present_setPointer : present (setPointer e frame) = present e :=
  getLsbD_setPointer e frame 0 (by decide)

@[simp] theorem writable_setPresent : writable (setPresent e value) = writable e := by
  rw [writable, setPresent, getLsbD_setFlag e _ _ _ (by decide)]
  rfl

@[simp] theorem writable_setWritable : writable (setWritable e value) = value := by
  rw [writable, setWritable, getLsbD_setFlag e _ _ _ (by decide)]
  rfl

@[simp] theorem writable_setUser : writable (setUser e value) = writable e := by
  rw [writable, setUser, getLsbD_setFlag e _ _ _ (by decide)]
  rfl

@[simp] theorem writable_setPointer : writable (setPointer e frame) = writable e :=
  getLsbD_setPointer e frame 1 (by decide)

@[simp] theorem user_setWritable : user (setWritable e value) = user e := by
  rw [user, setWritable, getLsbD_setFlag e _ _ _ (by decide)]
  rfl

@[simp] theorem user_setUser : user (setUser e value) = value := by
  rw [user, setUser, getLsbD_setFlag e _ _ _ (by decide)]
  rfl

@[simp] theorem hugePage_setPresent : hugePage (setPresent e value) = hugePage e := by
  rw [hugePage, setPresent, getLsbD_setFlag e _ _ _ (by decide)]
  rfl

@[simp] theorem hugePage_setWritable : hugePage (setWritable e value) = hugePage e := by
  rw [hugePage, setWritable, getLsbD_setFlag e _ _ _ (by decide)]
  rfl

@[simp] theorem hugePage_setUser : hugePage (setUser e value) = hugePage e := by
  rw [hugePage, setUser, getLsbD_setFlag e _ _ _ (by decide)]
  rfl

@[simp] theorem hugePage_setPointer : hugePage (setPointer e frame) = hugePage e :=
  getLsbD_setPointer e frame 7 (by decide)

@[simp] theorem pointer_setPresent : pointer (setPresent e value) = pointer e :=
  pointer_setFlag e 0 value (by decide)

@[simp] theorem pointer_setWritable : pointer (setWritable e value) = pointer e :=
  pointer_setFlag e 1 value (by decide)

@[simp] theorem pointer_setUser : pointer (setUser e value) = pointer e :=
  pointer_setFlag e 2 value (by decide)

@[simp] theorem present_zero : present (0 : PageMapEntry) = false := rfl

end Flags

/-- The aligned address of a frame, or-ed with low bits. -/
def entryFor (frame : Nat) (flags : BitVec 12) : PageMapEntry :=
  BitVec.ofNat 52 frame ++ flags

theorem getLsbD_entryFor (frame : Nat) (flags : BitVec 12) (i : Nat) (flag : i < 12) :
    (entryFor frame flags).getLsbD i = flags.getLsbD i := by
  change (BitVec.ofNat 52 frame ++ flags).getLsbD i = _
  rw [BitVec.getLsbD_append, if_pos flag]

theorem pointer_entryFor (frame : Nat) (flags : BitVec 12) (small : frame < 2 ^ 40) :
    pointer (entryFor frame flags) = frame := by
  have field : (entryFor frame flags).extractLsb' 12 40 = BitVec.ofNat 40 frame := by
    apply BitVec.eq_of_getLsbD_eq
    intro i inside
    rw [BitVec.getLsbD_extractLsb']
    change (decide (i < 40) && (BitVec.ofNat 52 frame ++ flags).getLsbD (12 + i)) = _
    rw [BitVec.getLsbD_append, if_neg (by omega), Nat.add_sub_cancel_left, BitVec.getLsbD_ofNat,
      BitVec.getLsbD_ofNat]
    simp [inside]
    omega
  rw [pointer, field, BitVec.toNat_ofNat, Nat.mod_eq_of_lt small]

end PageMapEntry

/-- `LinearAddress4Level`, by its bit fields. -/
structure LinearAddress4Level where
  offset : Fin 4096
  page : Fin 512
  dir : Fin 512
  pdp : Fin 512
  pml4 : Fin 512
  high : Fin 65536
  deriving DecidableEq

namespace LinearAddress4Level

/-- The union read through its bit fields. -/
def ofValue (value : BitVec 64) : LinearAddress4Level where
  offset := (value.extractLsb' 0 12).toFin
  page := (value.extractLsb' 12 9).toFin
  dir := (value.extractLsb' 21 9).toFin
  pdp := (value.extractLsb' 30 9).toFin
  pml4 := (value.extractLsb' 39 9).toFin
  high := (value.extractLsb' 48 16).toFin

/-- The union read as a number. -/
def value (a : LinearAddress4Level) : Nat :=
  a.offset + 2 ^ 12 * (a.page + 2 ^ 9 * (a.dir + 2 ^ 9 * (a.pdp + 2 ^ 9 * (a.pml4 + 2 ^ 9 * a.high))))

/-- `Part`, for the four levels of page maps. -/
def part (a : LinearAddress4Level) : Nat → Fin 512
  | 1 => a.page
  | 2 => a.dir
  | 3 => a.pdp
  | 4 => a.pml4
  | _ => 0

/-- `SetPart`, for the four levels of page maps. -/
def setPart (a : LinearAddress4Level) (level : Nat) (value : Fin 512) : LinearAddress4Level :=
  match level with
  | 1 => { a with page := value }
  | 2 => { a with dir := value }
  | 3 => { a with pdp := value }
  | 4 => { a with pml4 := value }
  | _ => a

/-- The loop `for (level = page_map_level - 1; level >= 1; --level)` that clears
the lower parts. -/
def clearBelow (a : LinearAddress4Level) : Nat → LinearAddress4Level
  | 0 | 1 => a
  | level + 2 => (a.setPart (level + 1) 0).clearBelow (level + 1)

/-- `causal_addr & 0xffff'ffff'ffff'f000`. -/
def aligned (a : LinearAddress4Level) : LinearAddress4Level :=
  { a with offset := 0 }

/-- The word of its page that an address falls into. -/
def word (a : LinearAddress4Level) : Fin 512 :=
  ⟨a.offset / 8, by omega⟩

/-- An address in the half of the address space that applications use. -/
def Upper (a : LinearAddress4Level) : Prop :=
  256 ≤ a.pml4.val

instance (a : LinearAddress4Level) : Decidable a.Upper :=
  inferInstanceAs (Decidable (256 ≤ a.pml4.val))

theorem part_setPart (a : LinearAddress4Level) (level other : Nat) (value : Fin 512)
    (lower : 1 ≤ level) (upper : level ≤ 4) :
    (a.setPart level value).part other = if other = level then value else a.part other := by
  have levels : level = 1 ∨ level = 2 ∨ level = 3 ∨ level = 4 := by omega
  rcases levels with rfl | rfl | rfl | rfl <;>
    simp only [setPart, part] <;> split <;> simp_all

/-- Clearing the lower parts does not touch the others. -/
theorem part_clearBelow (a : LinearAddress4Level) (level other : Nat) (upper : level ≤ 4)
    (above : level ≤ other) : (a.clearBelow level).part other = a.part other := by
  induction level generalizing a with
  | zero => rfl
  | succ level ih =>
      cases level with
      | zero => rfl
      | succ level =>
          rw [clearBelow, ih _ (by omega) (by omega),
            part_setPart a _ _ _ (by omega) (by omega), if_neg (by omega)]

end LinearAddress4Level

end Mikanos.Paging
