import Mikanos.Loader.Regions

/-!
# The heap of an application

The C library of an application extends its heap with `sbrk`, which hands out
parts of the pages it has demanded from the kernel and remembers where they end.
The application may demand pages itself in between, so the two ends drift apart.
No range that either of them hands out meets another one.
-/

namespace Mikanos.Loader

open Mikanos.Paging Transition

/-- A range of addresses that was handed out. -/
structure Block where
  start : Nat
  size : Nat

/-- The addresses of a block. -/
def Block.addresses (b : Block) : Set Nat :=
  Set.Ico b.start (b.start + b.size)

/-- A number as a `uint64_t`. -/
def toUint64 (x : Int) : Nat :=
  (x % 2 ^ 64).toNat

theorem toUint64_natCast {n : Nat} (small : n < 2 ^ 64) : toUint64 n = n := by
  rw [toUint64]
  omega

/-- `INT_MAX`. -/
def intMax : Int := 2 ^ 31 - 1

/-- The task of an application, the variables `dpage_end` and `program_break` of
its C library, and the blocks handed out so far. -/
structure Heap where
  task : AppTask
  dpageEnd : Nat
  programBreak : Nat
  blocks : List Block

/-- A call for memory. -/
inductive HeapCall
  | sbrk (incr : Int)
  | demandPages (numPages : Nat)

namespace HeapCall

/-- The pages that a call needs. -/
def pages : HeapCall → Nat
  | sbrk incr => ((incr + 4095) / 4096).toNat
  | demandPages numPages => numPages

/-- The size of what a call hands out. -/
def size : HeapCall → Nat
  | sbrk incr => incr.toNat
  | demandPages numPages => 4096 * numPages

/-- An increment is not negative and can be rounded up in an `int`. -/
def InRange : HeapCall → Prop
  | sbrk incr => 0 ≤ incr ∧ incr ≤ intMax - 4095
  | demandPages _ => True

end HeapCall

namespace Heap

/-- An application begins to run. -/
def enter (task : AppTask) : Heap :=
  { task, dpageEnd := 0, programBreak := 0, blocks := [] }

/-- The part of `sbrk` that demands pages, which never fails. -/
def refill (h : Heap) (incr : Int) : Heap :=
  let numPages := (incr + 4095).tdiv 4096
  let (task, value) := h.task.demandPages (toUint64 numPages)
  { h with task, programBreak := value, dpageEnd := toUint64 (value + 4096 * numPages) }

/-- `sbrk`; the result is the old break. -/
def sbrk (h : Heap) (incr : Int) : Heap × Nat :=
  let h :=
    if h.dpageEnd = 0 ∨ h.dpageEnd < toUint64 (h.programBreak + incr) then h.refill incr else h
  let prevBreak := h.programBreak
  ({ h with programBreak := toUint64 (h.programBreak + incr) }, prevBreak)

/-- `SyscallDemandPages`, called by the application. -/
def demandPages (h : Heap) (numPages : Nat) : Heap × Nat :=
  let (task, value) := h.task.demandPages numPages
  ({ h with task }, value)

/-- A call, without the record of it. -/
def perform (h : Heap) : HeapCall → Heap × Nat
  | .sbrk incr => h.sbrk incr
  | .demandPages numPages => h.demandPages numPages

/-- A call and what it hands out. -/
def next (h : Heap) (call : HeapCall) : Option Heap :=
  let (h', start) := h.perform call
  some { h' with blocks := ⟨start, call.size⟩ :: h.blocks }

/-- The pages of all calls, this one included, fit into the address space. -/
def Fits (h : Heap) (call : HeapCall) : Prop :=
  h.task.dpagingEnd + 4096 * call.pages < 2 ^ 64

/-- No two blocks meet, and all of them are in the region of demand paging. -/
structure Apart (h : Heap) : Prop where
  disjoint : (h.blocks.map Block.addresses).Pairwise Disjoint
  inside : ∀ b ∈ h.blocks,
    h.task.dpagingBegin ≤ b.start ∧ b.start + b.size ≤ h.task.dpagingEnd

/-- What the C library has demanded and not handed out yet. -/
def spare (h : Heap) : Block where
  start := h.programBreak
  size := h.dpageEnd - h.programBreak

/-- The blocks and the spare part are apart, in the region of demand paging. -/
structure Inv (h : Heap) : Prop extends Apart h where
  begin_le : h.task.dpagingBegin ≤ h.task.dpagingEnd
  spare_order : h.programBreak ≤ h.dpageEnd
  spare_le : h.dpageEnd ≤ h.task.dpagingEnd
  le_spare : h.dpageEnd = 0 ∨ h.task.dpagingBegin ≤ h.programBreak
  spare_apart : ∀ b ∈ h.blocks, Disjoint h.spare.addresses b.addresses

variable {h h' : Heap} {call : HeapCall}

theorem dpagingEnd_of_launches {appLoad : AppLoadInfo} {task : AppTask}
    (launches : Launches appLoad task) : task.dpagingEnd = task.dpagingBegin := by
  rw [launches.eq_entered]

theorem inv_enter {appLoad : AppLoadInfo} {task : AppTask} (launches : Launches appLoad task) :
    (enter task).Inv where
  disjoint := .nil
  inside _ member := absurd member List.not_mem_nil
  begin_le := (dpagingEnd_of_launches launches).ge
  spare_order := le_rfl
  spare_le := Nat.zero_le _
  le_spare := .inl rfl
  spare_apart _ member := absurd member List.not_mem_nil

/-- The kernel side of a call for pages that fit. -/
theorem demandPages_eq {n : Nat} (fits : h.task.dpagingEnd + 4096 * n < 2 ^ 64) :
    h.task.demandPages n =
      ({ h.task with dpagingEnd := h.task.dpagingEnd + 4096 * n }, h.task.dpagingEnd) := by
  rw [AppTask.demandPages, Nat.mod_eq_of_lt fits]

/-- The state after `n` more pages have been demanded. -/
def grown (h : Heap) (n : Nat) : Heap :=
  { h with task := { h.task with dpagingEnd := h.task.dpagingEnd + 4096 * n } }

/-- A block is handed out. -/
def give (h : Heap) (b : Block) : Heap :=
  { h with blocks := b :: h.blocks }

theorem Inv.grown (inv : h.Inv) (n : Nat) : (h.grown n).Inv where
  disjoint := inv.disjoint
  inside b member := ⟨(inv.inside b member).1, (inv.inside b member).2.trans (Nat.le_add_right ..)⟩
  begin_le := inv.begin_le.trans (Nat.le_add_right ..)
  spare_order := inv.spare_order
  spare_le := inv.spare_le.trans (Nat.le_add_right ..)
  le_spare := inv.le_spare
  spare_apart := inv.spare_apart

/-- A block that is apart from all others and from the spare part is handed out. -/
theorem Inv.give (inv : h.Inv) {b : Block} (above : h.task.dpagingBegin ≤ b.start)
    (below : b.start + b.size ≤ h.task.dpagingEnd)
    (apart : ∀ other ∈ h.blocks, Disjoint b.addresses other.addresses)
    (spare : Disjoint h.spare.addresses b.addresses) : (h.give b).Inv where
  disjoint := by
    refine List.Pairwise.cons ?_ inv.disjoint
    intro addresses mapped
    obtain ⟨other, member, rfl⟩ := List.mem_map.mp mapped
    exact apart other member
  inside := List.forall_mem_cons.mpr ⟨⟨above, below⟩, inv.inside⟩
  begin_le := inv.begin_le
  spare_order := inv.spare_order
  spare_le := inv.spare_le
  le_spare := inv.le_spare
  spare_apart := List.forall_mem_cons.mpr ⟨spare, inv.spare_apart⟩

/-- Pages at the end of the region meet no block. -/
theorem Inv.apart_of_le (inv : h.Inv) {b : Block} (behind : h.task.dpagingEnd ≤ b.start) :
    ∀ other ∈ h.blocks, Disjoint b.addresses other.addresses := by
  intro other member
  exact (disjoint_Ico_of_le ((inv.inside other member).2.trans behind)).symm

/-- The application demands pages itself. -/
theorem Inv.demandPages (inv : h.Inv) (n : Nat) :
    ((h.grown n).give ⟨h.task.dpagingEnd, 4096 * n⟩).Inv :=
  (inv.grown n).give inv.begin_le le_rfl (inv.apart_of_le le_rfl) (disjoint_Ico_of_le (by
    have := inv.spare_order
    have := inv.spare_le
    simp only [spare, Heap.grown]
    omega))

/-- The C library demands pages, and gives up what it had. -/
theorem Inv.refilled (inv : h.Inv) (n : Nat) :
    ({ h.grown n with
        programBreak := h.task.dpagingEnd
        dpageEnd := h.task.dpagingEnd + 4096 * n } : Heap).Inv where
  disjoint := inv.disjoint
  inside := (inv.grown n).inside
  begin_le := (inv.grown n).begin_le
  spare_order := Nat.le_add_right ..
  spare_le := le_rfl
  le_spare := .inr inv.begin_le
  spare_apart := inv.apart_of_le le_rfl

/-- The C library hands out the beginning of its spare part. -/
theorem Inv.take (inv : h.Inv) {n : Nat} (begun : h.task.dpagingBegin ≤ h.programBreak)
    (room : h.programBreak + n ≤ h.dpageEnd) :
    (({ h with programBreak := h.programBreak + n } : Heap).give ⟨h.programBreak, n⟩).Inv := by
  have order := inv.spare_order
  have part (a c : Nat) (left : h.programBreak ≤ a) (right : c ≤ h.dpageEnd) :
      Set.Ico a c ⊆ h.spare.addresses := by
    apply Set.Ico_subset_Ico left
    simp only [spare]
    omega
  have rest : ({ h with programBreak := h.programBreak + n } : Heap).Inv :=
    { inv with
      spare_order := room
      le_spare := .inr (begun.trans (Nat.le_add_right ..))
      spare_apart := fun b member =>
        (inv.spare_apart b member).mono_left (part _ _ (Nat.le_add_right ..) (by
          simp only [spare]
          omega)) }
  exact rest.give begun (room.trans inv.spare_le)
    (fun other member => (inv.spare_apart other member).mono_left (part _ _ le_rfl room))
    (disjoint_Ico_of_le le_rfl).symm

/-- The pages that an increment needs. -/
def pagesFor (n : Nat) : Nat :=
  (n + 4095) / 4096

theorem pages_sbrk (n : Nat) : (HeapCall.sbrk n).pages = pagesFor n := by
  rw [HeapCall.pages, pagesFor]
  omega

theorem le_pagesFor (n : Nat) : n ≤ 4096 * pagesFor n := by
  rw [pagesFor]
  omega

theorem refill_eq {n : Nat} (fits : h.task.dpagingEnd + 4096 * pagesFor n < 2 ^ 64) :
    h.refill n = { h with
      task := { h.task with dpagingEnd := h.task.dpagingEnd + 4096 * pagesFor n }
      programBreak := h.task.dpagingEnd
      dpageEnd := h.task.dpagingEnd + 4096 * pagesFor n } := by
  have numPages : ((n : Int) + 4095).tdiv 4096 = pagesFor n := by
    rw [Int.tdiv_eq_ediv_of_nonneg (by omega), pagesFor]
    omega
  have count : toUint64 (pagesFor n : Int) = pagesFor n := toUint64_natCast (by omega)
  have finish : toUint64 (h.task.dpagingEnd + 4096 * (pagesFor n : Int)) =
      h.task.dpagingEnd + 4096 * pagesFor n := by
    exact_mod_cast toUint64_natCast fits
  rw [refill, numPages, count, demandPages_eq fits]
  simp only [finish]

theorem Inv.sbrk (inv : h.Inv) {n : Nat} (fits : h.Fits (.sbrk n))
    (step : h.next (.sbrk n) = some h') : h'.Inv := by
  simp only [Heap.next, perform, HeapCall.size, Int.toNat_natCast] at step
  have enough := le_pagesFor n
  rw [Fits, pages_sbrk] at fits
  by_cases refills : h.dpageEnd = 0 ∨ h.dpageEnd < toUint64 (h.programBreak + (n : Int))
  · have small : h.task.dpagingEnd + n < 2 ^ 64 := by omega
    have moved : toUint64 (h.task.dpagingEnd + (n : Int)) = h.task.dpagingEnd + n := by
      exact_mod_cast toUint64_natCast small
    simp only [Heap.sbrk, if_pos refills, refill_eq (h := h) (n := n) (by omega), moved] at step
    cases step
    exact (inv.refilled (pagesFor n)).take inv.begin_le (by dsimp only; omega)
  · have order := inv.spare_order
    have top := inv.spare_le
    have small : h.programBreak + n < 2 ^ 64 := by omega
    have moved : toUint64 (h.programBreak + (n : Int)) = h.programBreak + n := by
      exact_mod_cast toUint64_natCast small
    rw [moved, not_or] at refills
    simp only [Heap.sbrk, moved, if_neg (not_or.mpr refills)] at step
    cases step
    exact inv.take (inv.le_spare.resolve_left refills.1)
      (Nat.le_of_not_lt refills.2)

theorem Inv.next (inv : h.Inv) (range : call.InRange) (fits : h.Fits call)
    (step : h.next call = some h') : h'.Inv := by
  cases call with
  | demandPages n =>
      simp only [Heap.next, perform, Heap.demandPages, demandPages_eq (h := h) (n := n) fits,
        HeapCall.size] at step
      cases step
      exact inv.demandPages n
  | sbrk incr =>
      obtain ⟨n, rfl⟩ := Int.eq_ofNat_of_zero_le range.1
      exact inv.sbrk fits step

/-- In every run of `sbrk` and of calls for pages, no two ranges handed out meet, and all of them
lie in the region of demand paging. -/
theorem apart_of_run {appLoad : AppLoadInfo} {task : AppTask} (launches : Launches appLoad task)
    {calls : List HeapCall}
    (run : Run (guarded (ofFunction Heap.next) fun h call => call.InRange ∧ h.Fits call)
      (enter task) calls h) : h.Apart := by
  have inv : h.Inv := by
    refine run.invariant ?_ (inv_enter launches)
    rintro source call target inv ⟨⟨range, fits⟩, step⟩
    exact inv.next range fits step
  exact inv.toApart

instance : DecidablePred HeapCall.InRange
  | .sbrk incr => inferInstanceAs (Decidable (0 ≤ incr ∧ incr ≤ intMax - 4095))
  | .demandPages _ => .isTrue trivial

instance (h : Heap) (call : HeapCall) : Decidable (h.Fits call) :=
  inferInstanceAs (Decidable (_ < _))

/-- The C library and the application demand pages in turns. -/
theorem apart_of_run_turns : ∃ h,
    Run (guarded (ofFunction Heap.next) fun h call => call.InRange ∧ h.Fits call)
      (enter smallTask) [.sbrk 100, .demandPages 1, .sbrk 5000] h ∧
    h.blocks.map Block.start = [0xffff800000003000, 0xffff800000002000, 0xffff800000001000] ∧
    h.Apart := by
  obtain ⟨h, run, starts⟩ := exists_run_of_execute (fun h call => call.InRange ∧ h.Fits call)
    Heap.next (enter smallTask) [.sbrk 100, .demandPages 1, .sbrk 5000]
    (fun h => h.blocks.map Block.start =
      [0xffff800000003000, 0xffff800000002000, 0xffff800000001000]) (by decide)
  exact ⟨h, run, of_decide_eq_true starts, apart_of_run launches_smallTask run⟩

end Heap
end Mikanos.Loader
