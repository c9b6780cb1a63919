import Mathlib

/-!
# Memory of a 64-bit address space

Addresses are numbers of 64 bits and wrap around.  Every write lays bytes over an
area, given by its first address and its length; loads see what was stored in the
same area, and do not see what was stored in a separate one.  Addresses of the
same object are written as an offset from its base.
-/

namespace Mikanos.Memory

/-- The bytes of an address space. -/
abbrev Space := BitVec 64 → BitVec 8

namespace Space

/-- Lay `n` bytes over the area from `a` on. -/
def overlay (mem : Space) (a : BitVec 64) (n : Nat) (src : Nat → BitVec 8) : Space :=
  fun x => if (x - a).toNat < n then src (x - a).toNat else mem x

/-- The bytes from `a` on. -/
def bytes (mem : Space) (a : BitVec 64) (n : Nat) : Fin n → BitVec 8 :=
  fun i => mem (a + BitVec.ofNat 64 i)

def storeBytes (mem : Space) (a : BitVec 64) {n : Nat} (values : Fin n → BitVec 8) : Space :=
  mem.overlay a n fun i => if inside : i < n then values ⟨i, inside⟩ else 0

/-- The little-endian word of 8 bytes from `a` on. -/
@[irreducible]
def load (mem : Space) (a : BitVec 64) : BitVec 64 :=
  BitVec.ofFnLE fun i => (mem (a + BitVec.ofNat 64 (i / 8))).getLsbD (i % 8)

def store (mem : Space) (a value : BitVec 64) : Space :=
  mem.overlay a 8 fun i => value.extractLsb' (8 * i) 8

/-- Copy `n` bytes from `src` to `dst`. -/
def copy (mem : Space) (dst src : BitVec 64) (n : Nat) : Space :=
  mem.overlay dst n fun i => mem (src + BitVec.ofNat 64 i)

/-- Two memories hold the same in an area. -/
def Agree (mem mem' : Space) (a : BitVec 64) (n : Nat) : Prop :=
  ∀ i < n, mem (a + BitVec.ofNat 64 i) = mem' (a + BitVec.ofNat 64 i)

/-- Neither area begins inside the other. -/
def Separate (a : BitVec 64) (n : Nat) (b : BitVec 64) (m : Nat) : Prop :=
  n ≤ (b - a).toNat ∧ m ≤ (a - b).toNat

instance (a : BitVec 64) (n : Nat) (b : BitVec 64) (m : Nat) : Decidable (Separate a n b m) :=
  inferInstanceAs (Decidable (_ ∧ _))

variable {mem mem' mem'' : Space} {a b : BitVec 64} {i n m k : Nat} {src : Nat → BitVec 8}

/-! ## Areas -/

theorem Separate.symm (apart : Separate a n b m) : Separate b m a n :=
  ⟨apart.2, apart.1⟩

theorem Separate.initial (apart : Separate a n b m) (le : k ≤ n) : Separate a k b m :=
  ⟨le.trans apart.1, apart.2⟩

/-- A part of an area is separate from what the area is separate from. -/
theorem Separate.part {o : Nat} (apart : Separate a n b m) (inside : o + k ≤ n)
    (positive : 0 < k) (positive' : 0 < m) : Separate (a + BitVec.ofNat 64 o) k b m := by
  unfold Separate at apart ⊢
  simp only [BitVec.toNat_sub, BitVec.toNat_add, BitVec.toNat_ofNat] at apart ⊢
  omega

theorem Separate.part_right {o : Nat} (apart : Separate a n b m) (inside : o + k ≤ m)
    (positive : 0 < n) (positive' : 0 < k) : Separate a n (b + BitVec.ofNat 64 o) k :=
  (apart.symm.part inside positive' positive).symm

/-- Areas of one object that do not meet. -/
theorem separate_of_offsets {o o' : Nat} (apart : o + n ≤ o' ∨ o' + m ≤ o)
    (inside : o + n ≤ 2 ^ 64) (inside' : o' + m ≤ 2 ^ 64) (positive : 0 < n) (positive' : 0 < m) :
    Separate (a + BitVec.ofNat 64 o) n (a + BitVec.ofNat 64 o') m := by
  unfold Separate
  simp only [BitVec.toNat_sub, BitVec.toNat_add, BitVec.toNat_ofNat]
  omega

theorem overlay_inside (inside : i < n) (small : n ≤ 2 ^ 64) :
    mem.overlay a n src (a + BitVec.ofNat 64 i) = src i := by
  have offset : (a + BitVec.ofNat 64 i - a).toNat = i := by
    rw [BitVec.add_comm, BitVec.add_sub_cancel, BitVec.toNat_ofNat, Nat.mod_eq_of_lt (by omega)]
  rw [overlay, offset, if_pos inside]

theorem overlay_separate (apart : Separate a n b m) (inside : i < m) :
    mem.overlay a n src (b + BitVec.ofNat 64 i) = mem (b + BitVec.ofNat 64 i) := by
  rw [overlay, if_neg]
  unfold Separate at apart
  simp only [BitVec.toNat_sub, BitVec.toNat_add, BitVec.toNat_ofNat] at apart ⊢
  omega

/-! ## Agreement -/

theorem Agree.refl (mem : Space) (a : BitVec 64) (n : Nat) : Agree mem mem a n :=
  fun _ _ => rfl

theorem Agree.symm (agree : Agree mem mem' a n) : Agree mem' mem a n :=
  fun i inside => (agree i inside).symm

theorem Agree.trans (agree : Agree mem mem' a n) (agree' : Agree mem' mem'' a n) :
    Agree mem mem'' a n :=
  fun i inside => (agree i inside).trans (agree' i inside)

theorem Agree.part {o : Nat} (agree : Agree mem mem' a n) (inside : o + k ≤ n) :
    Agree mem mem' (a + BitVec.ofNat 64 o) k := by
  intro i less
  rw [BitVec.add_assoc, ← BitVec.ofNat_add]
  exact agree (o + i) (by omega)

/-- What is written elsewhere is not seen. -/
theorem agree_overlay (apart : Separate a n b m) : Agree (mem.overlay a n src) mem b m :=
  fun _ inside => overlay_separate apart inside

theorem agree_storeBytes {values : Fin n → BitVec 8} (apart : Separate a n b m) :
    Agree (mem.storeBytes a values) mem b m :=
  agree_overlay apart

theorem agree_store {value : BitVec 64} (apart : Separate a 8 b m) :
    Agree (mem.store a value) mem b m :=
  agree_overlay apart

/-! ## Loads -/

theorem getLsbD_load {j : Nat} (inside : j < 64) :
    (mem.load a).getLsbD j = (mem (a + BitVec.ofNat 64 (j / 8))).getLsbD (j % 8) := by
  rw [load, BitVec.getLsbD_ofFnLE, dif_pos inside]

theorem load_congr (same : ∀ i < 8, mem (a + BitVec.ofNat 64 i) = mem' (b + BitVec.ofNat 64 i)) :
    mem.load a = mem'.load b := by
  apply BitVec.eq_of_getLsbD_eq
  intro j inside
  rw [getLsbD_load inside, getLsbD_load inside, same (j / 8) (by omega)]

theorem Agree.load_eq (agree : Agree mem mem' a 8) : mem.load a = mem'.load a :=
  load_congr agree

theorem Agree.bytes_eq (agree : Agree mem mem' a n) : mem.bytes a n = mem'.bytes a n :=
  funext fun i => agree i i.isLt

theorem load_store_same (value : BitVec 64) : (mem.store a value).load a = value := by
  apply BitVec.eq_of_getLsbD_eq
  intro j inside
  rw [getLsbD_load inside, store, overlay_inside (by omega) (by decide),
    BitVec.getLsbD_extractLsb', Nat.div_add_mod, decide_eq_true (Nat.mod_lt j (by decide)),
    Bool.true_and]

theorem load_store_separate {value : BitVec 64} (apart : Separate a 8 b 8) :
    (mem.store a value).load b = mem.load b :=
  (agree_store apart).load_eq

theorem bytes_storeBytes_same (values : Fin n → BitVec 8) (small : n ≤ 2 ^ 64) :
    (mem.storeBytes a values).bytes a n = values := by
  funext i
  rw [bytes, storeBytes, overlay_inside i.isLt small, dif_pos i.isLt]

/-- A copy holds what the original does. -/
theorem copy_apply {dst origin : BitVec 64} (inside : i < n) (small : n ≤ 2 ^ 64) :
    mem.copy dst origin n (dst + BitVec.ofNat 64 i) = mem (origin + BitVec.ofNat 64 i) :=
  overlay_inside inside small

/-! ## Words of an object -/

/-- Store words at offsets from a base, one after the other. -/
def storeWords (mem : Space) (a : BitVec 64) : List (Nat × BitVec 64) → Space
  | [] => mem
  | (o, value) :: rest => storeWords (mem.store (a + BitVec.ofNat 64 o) value) a rest

/-- Two words do not meet. -/
def WordsApart (o o' : Nat) : Prop :=
  o + 8 ≤ o' ∨ o' + 8 ≤ o

instance (o o' : Nat) : Decidable (WordsApart o o') :=
  inferInstanceAs (Decidable (_ ∨ _))

variable {words : List (Nat × BitVec 64)}

theorem storeWords_append (mem : Space) (a : BitVec 64) (words words' : List (Nat × BitVec 64)) :
    mem.storeWords a (words ++ words') = (mem.storeWords a words).storeWords a words' := by
  induction words generalizing mem with
  | nil => rfl
  | cons word words ih => exact ih _

/-- The words of an object are not seen in what is separate from it. -/
theorem agree_storeWords (apart : Separate a n b m)
    (inside : ∀ o ∈ words.map Prod.fst, o + 8 ≤ n) : Agree (mem.storeWords a words) mem b m := by
  induction words generalizing mem with
  | nil => exact .refl mem b m
  | cons word words ih =>
      obtain ⟨head, tail⟩ := List.forall_mem_cons.mp inside
      refine (ih tail).trans ?_
      intro i less
      exact overlay_separate (apart.part head (by decide) (by omega)) less

theorem load_storeWords_apart {o : Nat} (apart : ∀ o' ∈ words.map Prod.fst, WordsApart o' o)
    (inside : ∀ o' ∈ words.map Prod.fst, o' + 8 ≤ 2 ^ 64) (inside' : o + 8 ≤ 2 ^ 64) :
    (mem.storeWords a words).load (a + BitVec.ofNat 64 o) =
      mem.load (a + BitVec.ofNat 64 o) := by
  induction words generalizing mem with
  | nil => rfl
  | cons word words ih =>
      obtain ⟨apart, apart_tail⟩ := List.forall_mem_cons.mp apart
      obtain ⟨inside, inside_tail⟩ := List.forall_mem_cons.mp inside
      refine (ih apart_tail inside_tail).trans ?_
      exact load_store_separate (separate_of_offsets apart inside inside' (by decide) (by decide))

/-- A word is read as it was stored. -/
theorem load_storeWords {o : Nat} {value : BitVec 64}
    (apart : (words.map Prod.fst).Pairwise WordsApart)
    (inside : ∀ o' ∈ words.map Prod.fst, o' + 8 ≤ 2 ^ 64) (found : words.lookup o = some value) :
    (mem.storeWords a words).load (a + BitVec.ofNat 64 o) = value := by
  induction words generalizing mem with
  | nil => cases found
  | cons word words ih =>
      obtain ⟨o', value'⟩ := word
      obtain ⟨apart, apart_tail⟩ := List.pairwise_cons.mp apart
      obtain ⟨inside, inside_tail⟩ := List.forall_mem_cons.mp inside
      rw [List.lookup_cons] at found
      by_cases same : o = o'
      · subst same
        rw [beq_self_eq_true] at found
        cases found
        rw [storeWords, load_storeWords_apart (fun o' member => (apart o' member).symm)
          inside_tail inside]
        exact load_store_same value
      · rw [beq_eq_false_iff_ne.mpr same] at found
        exact ih apart_tail inside_tail found

end Space

end Mikanos.Memory
