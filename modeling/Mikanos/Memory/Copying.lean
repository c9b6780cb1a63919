import Mathlib.Tactic

/-!
# Sequences of copies

A call of `memcpy` writes an interval of one memory with what it reads from an interval of another.
Where the memories are two, a sequence of calls writes what the source held if no call writes where
another does.  Within one memory it is also necessary that no call reads what an earlier one has
written.
-/

namespace Mikanos.Memory

/-- A call `memcpy(dst, src, n)`. -/
structure Memcpy where
  dst : Int
  src : Int
  n : Nat
  deriving DecidableEq

namespace Memcpy

variable {α : Type} (c : Memcpy)

/-- The call writes at a position. -/
def Writes (i : Int) : Prop :=
  c.dst ≤ i ∧ i < c.dst + c.n

/-- The call reads at a position. -/
def Reads (i : Int) : Prop :=
  c.src ≤ i ∧ i < c.src + c.n

instance (i : Int) : Decidable (c.Writes i) :=
  inferInstanceAs (Decidable (_ ∧ _))

/-- The memory after the call. -/
def apply (src mem : Int → α) : Int → α :=
  fun i => if c.Writes i then src (c.src + (i - c.dst)) else mem i

theorem apply_of_not_writes {i : Int} (kept : ¬ c.Writes i) (src mem : Int → α) :
    c.apply src mem i = mem i :=
  if_neg kept

theorem apply_of_writes {i : Int} (written : c.Writes i) (src mem : Int → α) :
    c.apply src mem i = src (c.src + (i - c.dst)) :=
  if_pos written

/-- What is written has been read. -/
theorem reads_of_writes {i : Int} (written : c.Writes i) : c.Reads (c.src + (i - c.dst)) := by
  rcases written with ⟨from_dst, to_dst⟩
  constructor <;> omega

end Memcpy

variable {α : Type}

/-- Calls that read one memory and write another. -/
def copyAll (src : Int → α) (calls : List Memcpy) (mem : Int → α) : Int → α :=
  calls.foldl (fun mem c => c.apply src mem) mem

/-- Calls that read and write one memory. -/
def moveAll (calls : List Memcpy) (mem : Int → α) : Int → α :=
  calls.foldl (fun mem c => c.apply mem mem) mem

variable {src mem : Int → α} {calls : List Memcpy} {i : Int}

/-! ## Two memories -/

theorem copyAll_kept (kept : ∀ c ∈ calls, ¬ c.Writes i) (mem : Int → α) :
    copyAll src calls mem i = mem i := by
  induction calls generalizing mem with
  | nil => rfl
  | cons c calls ih =>
      rw [List.forall_mem_cons] at kept
      exact (ih kept.2 _).trans (c.apply_of_not_writes kept.1 _ _)

/-- Each call has its effect, if no two write at the same position. -/
theorem copyAll_written (disjoint : calls.Pairwise fun a b => ∀ i, a.Writes i → ¬ b.Writes i)
    {c : Memcpy} (member : c ∈ calls) (written : c.Writes i) (mem : Int → α) :
    copyAll src calls mem i = src (c.src + (i - c.dst)) := by
  induction calls generalizing mem with
  | nil => cases member
  | cons first calls ih =>
      rw [List.pairwise_cons] at disjoint
      rcases List.mem_cons.mp member with rfl | later
      · have kept : ∀ other ∈ calls, ¬ other.Writes i :=
          fun other mem_calls => disjoint.1 other mem_calls i written
        exact (copyAll_kept kept _).trans (c.apply_of_writes written _ _)
      · exact ih disjoint.2 later _

/-- Where only one value is read, no other value comes into the memory. -/
theorem copyAll_const {z : α} (reads : ∀ c ∈ calls, ∀ j, c.Reads j → src j = z) (old : mem i = z) :
    copyAll src calls mem i = z := by
  induction calls generalizing mem with
  | nil => exact old
  | cons c calls ih =>
      rw [List.forall_mem_cons] at reads
      refine ih reads.2 ?_
      by_cases written : c.Writes i
      · exact (c.apply_of_writes written _ _).trans (reads.1 _ (c.reads_of_writes written))
      · exact (c.apply_of_not_writes written _ _).trans old

/-! ## One memory -/

theorem moveAll_kept (kept : ∀ c ∈ calls, ¬ c.Writes i) (mem : Int → α) :
    moveAll calls mem i = mem i := by
  induction calls generalizing mem with
  | nil => rfl
  | cons c calls ih =>
      rw [List.forall_mem_cons] at kept
      exact (ih kept.2 _).trans (c.apply_of_not_writes kept.1 _ _)

/-- As long as no call reads what an earlier one has written, the old memory is read. -/
theorem moveAll_eq_copyAll (ahead : calls.Pairwise fun a b => ∀ i, a.Writes i → ¬ b.Reads i)
    (unread : ∀ c ∈ calls, ∀ j, c.Reads j → mem j = src j) :
    moveAll calls mem = copyAll src calls mem := by
  induction calls generalizing mem with
  | nil => rfl
  | cons c calls ih =>
      rw [List.pairwise_cons] at ahead
      rw [List.forall_mem_cons] at unread
      have same : c.apply mem mem = c.apply src mem := by
        funext i
        by_cases written : c.Writes i
        · rw [c.apply_of_writes written, c.apply_of_writes written]
          exact unread.1 _ (c.reads_of_writes written)
        · rw [c.apply_of_not_writes written, c.apply_of_not_writes written]
      show moveAll calls (c.apply mem mem) = copyAll src calls (c.apply src mem)
      rw [same]
      refine ih ahead.2 fun other member j reads => ?_
      have notWritten : ¬ c.Writes j := fun written => ahead.1 other member j written reads
      rw [c.apply_of_not_writes notWritten]
      exact unread.2 other member j reads

/-- Where only one value is read, no other value comes into the memory. -/
theorem moveAll_const {z : α} (reads : ∀ c ∈ calls, ∀ j, c.Reads j → mem j = z) (old : mem i = z) :
    moveAll calls mem i = z := by
  induction calls generalizing mem with
  | nil => exact old
  | cons c calls ih =>
      rw [List.forall_mem_cons] at reads
      have stays : ∀ j, mem j = z → c.apply mem mem j = z := by
        intro j held
        by_cases written : c.Writes j
        · exact (c.apply_of_writes written _ _).trans (reads.1 _ (c.reads_of_writes written))
        · exact (c.apply_of_not_writes written _ _).trans held
      exact ih (fun other member j at_j => stays j (reads.2 other member j at_j)) (stays i old)

/-! ## Rows -/

/-- The calls of a loop over rows, with the pointers in its first round and what is added to them
after a round. -/
def rowLoop (n : Nat) (dstStep srcStep : Int) : (rounds : Nat) → (dst src : Int) → List Memcpy
  | 0, _, _ => []
  | rounds + 1, dst, src =>
      ⟨dst, src, n⟩ :: rowLoop n dstStep srcStep rounds (dst + dstStep) (src + srcStep)

theorem rowLoop_eq_map (n : Nat) (dstStep srcStep : Int) (rounds : Nat) (dst src : Int) :
    rowLoop n dstStep srcStep rounds dst src =
      (List.range rounds).map fun y : Nat => ⟨dst + dstStep * y, src + srcStep * y, n⟩ := by
  induction rounds generalizing dst src with
  | zero => rfl
  | succ rounds ih =>
      rw [rowLoop, ih, List.range_succ_eq_map, List.map_cons, List.map_map]
      congr 1
      · simp
      · refine List.map_congr_left fun y _ => ?_
        simp only [Function.comp_apply, Nat.succ_eq_add_one]
        push_cast
        congr 1 <;> ring

end Mikanos.Memory
