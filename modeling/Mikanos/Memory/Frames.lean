import Mikanos.Error
import Mathlib.Logic.Function.Basic
import Mathlib.Data.List.Nodup

/-!
# The bitmap memory manager

Physical memory is handed out in frames of 4096 bytes.  One bit of `alloc_map_`
says whether a frame is in use; the model keeps the bits as a function of the
frame number.  `Allocate` searches the managed range from its beginning for the
first run of free frames that is long enough.
-/

namespace Mikanos.Memory

/-- `BitmapMemoryManager::kFrameCount`: 128 GiB of frames. -/
def kFrameCount : Nat := 128 * 1024 * 1024 * 1024 / 4096

structure BitmapMemoryManager where
  allocMap : Nat → Bool
  rangeBegin : Nat
  rangeEnd : Nat

namespace BitmapMemoryManager

def getBit (m : BitmapMemoryManager) (frame : Nat) : Bool :=
  m.allocMap frame

def setBit (m : BitmapMemoryManager) (frame : Nat) (allocated : Bool) : BitmapMemoryManager :=
  { m with allocMap := Function.update m.allocMap frame allocated }

/-- `MarkAllocated`. -/
def markAllocated (m : BitmapMemoryManager) (start : Nat) : Nat → BitmapMemoryManager
  | 0 => m
  | n + 1 => (m.markAllocated start n).setBit (start + n) true

/-- `Free`. -/
def free (m : BitmapMemoryManager) (start : Nat) : Nat → BitmapMemoryManager
  | 0 => m
  | n + 1 => (m.free start n).setBit (start + n) false

/-- How the inner loop of `Allocate` ends. -/
inductive Scan
  | outOfRange
  | taken (i : Nat)
  | fits

/-- The inner loop of `Allocate`, with `rest` frames still to be looked at. -/
def scan (m : BitmapMemoryManager) (start i : Nat) : Nat → Scan
  | 0 => .fits
  | rest + 1 =>
      if m.rangeEnd ≤ start + i then .outOfRange
      else if m.getBit (start + i) then .taken i
      else m.scan start (i + 1) rest

/-- The outer loop of `Allocate`: the first frame of the run that it finds.
`fuel` bounds the starting frames that are left in the range. -/
def search (m : BitmapMemoryManager) (numFrames : Nat) : Nat → Nat → Option Nat
  | 0, _ => none
  | fuel + 1, start =>
      match m.scan start 0 numFrames with
      | .outOfRange => none
      | .fits => some start
      | .taken i => m.search numFrames fuel (start + (i + 1))

/-- `Allocate`. -/
def allocate (m : BitmapMemoryManager) (numFrames : Nat) :
    BitmapMemoryManager × Except Error Nat :=
  match m.search numFrames (m.rangeEnd + 1 - m.rangeBegin) m.rangeBegin with
  | some start => (m.markAllocated start numFrames, .ok start)
  | none => (m, .error .noEnoughMemory)

/-! ## Single frames -/

/-- A frame that `Allocate` may hand out. -/
def Available (m : BitmapMemoryManager) (frame : Nat) : Prop :=
  m.rangeBegin ≤ frame ∧ frame < m.rangeEnd ∧ m.getBit frame = false

@[simp]
theorem getBit_setBit_self (m : BitmapMemoryManager) (frame : Nat) (allocated : Bool) :
    (m.setBit frame allocated).getBit frame = allocated := by
  simp [getBit, setBit]

theorem getBit_setBit_of_ne (m : BitmapMemoryManager) {frame other : Nat} (allocated : Bool)
    (ne : other ≠ frame) : (m.setBit frame allocated).getBit other = m.getBit other := by
  simp [getBit, setBit, Function.update_of_ne ne]

/-- The inner loop on a single frame. -/
theorem scan_one (m : BitmapMemoryManager) (start : Nat) :
    m.scan start 0 1 =
      if m.rangeEnd ≤ start then .outOfRange
      else if m.getBit start then .taken 0 else .fits :=
  rfl

/-- The search for a single frame finds the first available one. -/
theorem search_one (m : BitmapMemoryManager) (fuel start : Nat)
    (enough : m.rangeEnd < start + fuel) (fromBegin : m.rangeBegin ≤ start) :
    (∃ frame, m.search 1 fuel start = some frame ∧ m.Available frame) ∨
      m.search 1 fuel start = none ∧ ∀ frame, start ≤ frame → ¬ m.Available frame := by
  induction fuel generalizing start with
  | zero =>
      right
      constructor
      · rfl
      · rintro frame above ⟨-, below, -⟩
        omega
  | succ fuel ih =>
      rw [search, scan_one]
      by_cases out : m.rangeEnd ≤ start
      · right
        rw [if_pos out]
        constructor
        · rfl
        · rintro frame above ⟨-, below, -⟩
          omega
      · rw [if_neg out]
        cases taken : m.getBit start with
        | false =>
            left
            exact ⟨start, rfl, fromBegin, by omega, taken⟩
        | true =>
            rcases ih (start + 1) (by omega) (by omega) with found | ⟨missed, none⟩
            · left
              exact found
            · right
              constructor
              · exact missed
              · intro frame above available
                by_cases first : frame = start
                · rw [first, Available, taken] at available
                  cases available.2.2
                · exact none frame (by omega) available

/-- `Allocate(1)` hands out an available frame, or there is none and nothing
changes. -/
theorem allocate_one (m : BitmapMemoryManager) :
    (∃ frame, m.Available frame ∧ m.allocate 1 = (m.setBit frame true, .ok frame)) ∨
      (∀ frame, ¬ m.Available frame) ∧ m.allocate 1 = (m, .error .noEnoughMemory) := by
  rcases m.search_one (m.rangeEnd + 1 - m.rangeBegin) m.rangeBegin (by omega) (Nat.le_refl _) with
    ⟨frame, found, available⟩ | ⟨missed, none⟩
  · left
    refine ⟨frame, available, ?_⟩
    rw [allocate, found]
    rfl
  · right
    constructor
    · intro frame available
      exact none frame available.1 available
    · rw [allocate, missed]

/-! ## Runs of frames -/

/-- A run that the inner loop accepts is free and in the range. -/
theorem free_of_scan (m : BitmapMemoryManager) (start i rest : Nat)
    (fits : m.scan start i rest = .fits) :
    ∀ j, i ≤ j → j < i + rest → start + j < m.rangeEnd ∧ m.getBit (start + j) = false := by
  induction rest generalizing i with
  | zero =>
      intro j lower upper
      omega
  | succ rest ih =>
      intro j lower upper
      rw [scan] at fits
      by_cases out : m.rangeEnd ≤ start + i
      · rw [if_pos out] at fits
        cases fits
      · rw [if_neg out] at fits
        cases taken : m.getBit (start + i) with
        | true =>
            rw [taken, if_pos rfl] at fits
            cases fits
        | false =>
            rw [taken, if_neg Bool.false_ne_true] at fits
            by_cases first : j = i
            · subst first
              exact ⟨by omega, taken⟩
            · exact ih (i + 1) fits j (by omega) (by omega)

/-- The search finds a run of available frames. -/
theorem available_of_search (m : BitmapMemoryManager) {numFrames fuel start found : Nat}
    (fromBegin : m.rangeBegin ≤ start) (search : m.search numFrames fuel start = some found) :
    ∀ frame, found ≤ frame → frame < found + numFrames → m.Available frame := by
  induction fuel generalizing start with
  | zero => cases search
  | succ fuel ih =>
      rw [BitmapMemoryManager.search] at search
      cases scanned : m.scan start 0 numFrames with
      | outOfRange =>
          rw [scanned] at search
          cases search
      | taken i =>
          rw [scanned] at search
          exact ih (by omega) search
      | fits =>
          rw [scanned] at search
          cases search
          intro frame lower upper
          have inside := m.free_of_scan found 0 numFrames scanned (frame - found)
            (Nat.zero_le _) (by omega)
          rw [Nat.add_sub_of_le lower] at inside
          exact ⟨by omega, inside⟩

/-! ## Counting free frames -/

/-- The frames that `Allocate` may hand out. -/
def available (m : BitmapMemoryManager) : List Nat :=
  (List.range' m.rangeBegin (m.rangeEnd - m.rangeBegin)).filter fun frame => !m.getBit frame

theorem mem_available (m : BitmapMemoryManager) (frame : Nat) :
    frame ∈ m.available ↔ m.Available frame := by
  rw [available, List.mem_filter, List.mem_range'_1, Available]
  constructor
  · rintro ⟨⟨lower, upper⟩, isFree⟩
    exact ⟨lower, by omega, by simpa using isFree⟩
  · rintro ⟨lower, upper, isFree⟩
    exact ⟨⟨lower, by omega⟩, by simp [isFree]⟩

/-- Handing out a frame leaves one available frame less. -/
theorem length_available_setBit (m : BitmapMemoryManager) {frame : Nat}
    (isAvailable : m.Available frame) :
    (m.setBit frame true).available.length + 1 = m.available.length := by
  have erased : (m.setBit frame true).available = m.available.erase frame := by
    have nodup : m.available.Nodup := List.Nodup.filter _ List.nodup_range'
    rw [nodup.erase_eq_filter, available, available, List.filter_filter]
    apply List.filter_congr
    intro other _
    by_cases same : other = frame
    · subst same
      simp
    · simp [getBit_setBit_of_ne m true same, same]
  have member := (m.mem_available frame).mpr isAvailable
  rw [erased, List.length_erase_of_mem member]
  have := List.length_pos_of_mem member
  omega

end BitmapMemoryManager

end Mikanos.Memory
