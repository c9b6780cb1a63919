import Mathlib.Tactic

/-!
# Byte memory

Memory is a total map from addresses to bytes.  Every write is a `copyTo`, the
model of `memcpy`: `memset` copies a constant source, and storing an integer
copies its little-endian bytes.  Loads read the same bytes back, so the frame
law of `copyTo` is the only frame law that the users of this file need.
-/

namespace Mikanos.Memory

/-- Byte-addressed memory; also the contents seen from a pointer on. -/
abbrev Mem := Nat → UInt8

namespace Mem

/-- `memcpy(&mem[dst], src, n)`. -/
def copyTo (mem : Mem) (dst n : Nat) (src : Mem) : Mem :=
  fun a => if dst ≤ a ∧ a < dst + n then src (a - dst) else mem a

/-- `memset(&mem[dst], value, n)`. -/
def fill (mem : Mem) (dst n : Nat) (value : UInt8) : Mem :=
  mem.copyTo dst n fun _ => value

/-- The `n` bytes at address `a`. -/
def bytes (mem : Mem) (a n : Nat) : List UInt8 :=
  (List.range n).map fun i => mem (a + i)

/-- The little-endian bytes of a number. -/
def leByte (value : Nat) : Mem :=
  fun i => UInt8.ofNat (value / 256 ^ i)

/-- Read an `n`-byte little-endian unsigned integer. -/
def load (mem : Mem) (a : Nat) : Nat → Nat
  | 0 => 0
  | n + 1 => (mem a).toNat + 256 * load mem (a + 1) n

/-- Write the low `n` bytes of `value` at address `a`. -/
def store (mem : Mem) (a n value : Nat) : Mem :=
  mem.copyTo a n (leByte value)

/-! ## Copies -/

variable {mem mem' src : Mem} {a b dst n m value : Nat}

theorem copyTo_apply (mem : Mem) (dst n : Nat) (src : Mem) (a : Nat) :
    mem.copyTo dst n src a = if dst ≤ a ∧ a < dst + n then src (a - dst) else mem a :=
  rfl

theorem copyTo_inside (lower : dst ≤ a) (upper : a < dst + n) :
    mem.copyTo dst n src a = src (a - dst) := by
  rw [copyTo_apply, if_pos ⟨lower, upper⟩]

theorem copyTo_outside (outside : a < dst ∨ dst + n ≤ a) :
    mem.copyTo dst n src a = mem a := by
  rw [copyTo_apply, if_neg]
  omega

@[simp]
theorem copyTo_zero (mem : Mem) (dst : Nat) (src : Mem) : mem.copyTo dst 0 src = mem := by
  funext a
  exact copyTo_outside (by omega)

@[simp]
theorem copyTo_add_apply (i : Nat) (inside : i < n) :
    mem.copyTo dst n src (dst + i) = src i := by
  rw [copyTo_inside (by omega) (by omega), Nat.add_sub_cancel_left]

/-! ## Byte blocks -/

@[simp]
theorem length_bytes (mem : Mem) (a n : Nat) : (mem.bytes a n).length = n := by
  simp [bytes]

@[simp]
theorem bytes_zero (mem : Mem) (a : Nat) : mem.bytes a 0 = [] :=
  rfl

theorem bytes_add (mem : Mem) (a n m : Nat) :
    mem.bytes a (n + m) = mem.bytes a n ++ mem.bytes (a + n) m := by
  simp [bytes, List.range_add, Function.comp_def, Nat.add_assoc]

theorem bytes_congr (same : ∀ i < n, mem (a + i) = mem' (b + i)) :
    mem.bytes a n = mem'.bytes b n := by
  apply List.map_congr_left
  intro i inside
  exact same i (List.mem_range.mp inside)

theorem take_bytes (mem : Mem) (a : Nat) (le : n ≤ m) :
    (mem.bytes a m).take n = mem.bytes a n := by
  obtain ⟨k, rfl⟩ := Nat.exists_eq_add_of_le le
  rw [bytes_add, List.take_append_of_le_length (by simp), List.take_of_length_le (by simp)]

theorem bytes_eq_iff : mem.bytes a n = mem'.bytes b n ↔ ∀ i < n, mem (a + i) = mem' (b + i) := by
  simp [bytes]

theorem bytes_copyTo_outside (outside : a + m ≤ dst ∨ dst + n ≤ a) :
    (mem.copyTo dst n src).bytes a m = mem.bytes a m := by
  apply bytes_congr
  intro i i_lt
  exact copyTo_outside (by omega)

/-! ## Integers -/

theorem load_congr (same : ∀ i < n, mem (a + i) = mem' (b + i)) :
    mem.load a n = mem'.load b n := by
  induction n generalizing a b with
  | zero => rfl
  | succ n ih =>
      have head : mem a = mem' b := by simpa using same 0 (by omega)
      have tail : mem.load (a + 1) n = mem'.load (b + 1) n := by
        apply ih
        intro i inside
        simpa [Nat.add_assoc, Nat.add_comm 1 i] using same (i + 1) (by omega)
      rw [load, load, head, tail]

theorem load_lt (mem : Mem) (a n : Nat) : mem.load a n < 256 ^ n := by
  induction n generalizing a with
  | zero => simp [load]
  | succ n ih =>
      have head := (mem a).toNat_lt
      have tail := ih (a + 1)
      rw [load, Nat.pow_succ]
      omega

theorem leByte_zero_toNat (value : Nat) : (leByte value 0).toNat = value % 256 := by
  simp [leByte]

theorem leByte_succ (value i : Nat) : leByte value (i + 1) = leByte (value / 256) i := by
  simp [leByte, Nat.pow_succ', Nat.div_div_eq_div_mul]

/-- Loading the little-endian bytes of a number returns it, cut to the width. -/
theorem load_of_leByte (same : ∀ i < n, mem (a + i) = leByte value i) :
    mem.load a n = value % 256 ^ n := by
  induction n generalizing a value with
  | zero => simp [load, Nat.mod_one]
  | succ n ih =>
      have head : (mem a).toNat = value % 256 := by
        rw [← leByte_zero_toNat, ← same 0 (by omega), Nat.add_zero]
      have tail : mem.load (a + 1) n = value / 256 % 256 ^ n := by
        apply ih
        intro i inside
        rw [← leByte_succ, ← same (i + 1) (by omega), Nat.add_assoc, Nat.add_comm 1 i]
      rw [load, head, tail, Nat.pow_succ', Nat.mod_mul]

theorem load_store_same (mem : Mem) (a n value : Nat) :
    (mem.store a n value).load a n = value % 256 ^ n := by
  apply load_of_leByte
  intro i inside
  exact copyTo_add_apply i inside

theorem load_copyTo_outside (outside : a + m ≤ dst ∨ dst + n ≤ a) :
    (mem.copyTo dst n src).load a m = mem.load a m := by
  apply load_congr
  intro i inside
  exact copyTo_outside (by omega)

theorem load_store_outside (outside : a + m ≤ dst ∨ dst + n ≤ a) :
    (mem.store dst n value).load a m = mem.load a m :=
  load_copyTo_outside outside

end Mem

end Mikanos.Memory
