import Mikanos.Memory.FirstFit

/-!
# The bounds of the bitmap

Nothing compares a frame number with the size of `alloc_map_`.  The numbers come from the
memory map of the firmware: directly, where holes and unavailable regions are marked, and
through the end of the managed range, where memory is allocated later.
-/

namespace Mikanos.Memory

open Transition

/-! ## The frames that are accessed -/

/-- The calls of `MarkAllocated` in the loop of `InitializeMemoryManager`, by first frame
and number of frames. -/
def marks (availableEnd : Nat) : List MemoryDescriptor → List (Nat × Nat)
  | [] => []
  | desc :: rest =>
      (if availableEnd < desc.physicalStart then
        [(availableEnd / kBytesPerFrame, (desc.physicalStart - availableEnd) / kBytesPerFrame)]
      else []) ++
      if desc.available then marks desc.physicalEnd rest
      else (desc.physicalStart / kBytesPerFrame, desc.bytes / kBytesPerFrame) :: marks availableEnd rest

/-- These calls are the loop. -/
theorem classify_eq_foldl (m : LineManager) (availableEnd : Nat) (descs : List MemoryDescriptor) :
    (m.classify availableEnd descs).1 =
      (marks availableEnd descs).foldl (fun m call => m.markAllocated call.1 call.2) m := by
  induction descs generalizing m availableEnd with
  | nil => rfl
  | cons desc rest ih =>
      rw [LineManager.classify, marks, List.foldl_append, LineManager.markHole]
      split
      · split
        · exact ih _ _
        · exact ih _ _
      · split
        · exact ih _ _
        · exact ih _ _

namespace BitmapMemoryManager

variable {m : BitmapMemoryManager} {n start i rest frame fuel : Nat}

/-- The frames that the inner loop of `Allocate` passes to `GetBit`. -/
def scanFrames (m : BitmapMemoryManager) (start i : Nat) : Nat → List Nat
  | 0 => []
  | rest + 1 =>
      if m.rangeEnd ≤ start + i then []
      else (start + i) ::
        if m.getBit (start + i) then [] else m.scanFrames start (i + 1) rest

/-- The frames that the outer loop passes to `GetBit`. -/
def searchFrames (m : BitmapMemoryManager) (numFrames : Nat) : Nat → Nat → List Nat
  | 0, _ => []
  | fuel + 1, start =>
      m.scanFrames start 0 numFrames ++
        match m.scan start 0 numFrames with
        | .outOfRange => []
        | .fits => []
        | .taken i => m.searchFrames numFrames fuel (start + (i + 1))

/-- The frames that `Allocate` passes to `GetBit` and `SetBit`. -/
def allocateFrames (m : BitmapMemoryManager) (numFrames : Nat) : List Nat :=
  m.searchFrames numFrames (m.rangeEnd + 1 - m.rangeBegin) m.rangeBegin ++
    match m.search numFrames (m.rangeEnd + 1 - m.rangeBegin) m.rangeBegin with
    | some start => List.range' start numFrames
    | none => []

theorem lt_of_mem_scanFrames (member : frame ∈ m.scanFrames start i rest) : frame < m.rangeEnd := by
  induction rest generalizing i with
  | zero => cases member
  | succ rest ih =>
      rw [scanFrames] at member
      split at member
      · cases member
      · rename_i inRange
        rcases List.mem_cons.mp member with rfl | later
        · omega
        · split at later
          · cases later
          · exact ih later

theorem lt_of_mem_searchFrames (member : frame ∈ m.searchFrames n fuel start) :
    frame < m.rangeEnd := by
  induction fuel generalizing start with
  | zero => cases member
  | succ fuel ih =>
      rw [searchFrames] at member
      rcases List.mem_append.mp member with scanned | later
      · exact lt_of_mem_scanFrames scanned
      · split at later
        · cases later
        · cases later
        · exact ih later

/-- All frames that `Allocate` accesses are in the range. -/
theorem lt_of_mem_allocateFrames (member : frame ∈ m.allocateFrames n) : frame < m.rangeEnd := by
  rcases List.mem_append.mp member with searched | marked
  · exact lt_of_mem_searchFrames searched
  · split at marked
    · rename_i found search
      rw [List.mem_range'_1] at marked
      exact (m.available_of_search le_rfl search frame marked.1 marked.2).2.1
    · cases marked

/-- The inner loop looks at all frames up to where it stops. -/
theorem mem_scanFrames (lower : start + i ≤ frame)
    (upper : m.scan start i rest = .outOfRange ∧ frame < m.rangeEnd ∨
      ∃ k, m.scan start i rest = .taken k ∧ frame ≤ start + k) :
    frame ∈ m.scanFrames start i rest := by
  induction rest generalizing i with
  | zero => rcases upper with ⟨impossible, -⟩ | ⟨k, impossible, -⟩ <;> cases impossible
  | succ rest ih =>
      rw [scan] at upper
      rw [scanFrames]
      split at upper
      · rcases upper with ⟨-, inRange⟩ | ⟨k, impossible, -⟩
        · omega
        · cases impossible
      · rename_i inRange
        rw [if_neg inRange]
        by_cases here : frame = start + i
        · rw [here]
          exact List.mem_cons_self
        · apply List.mem_cons_of_mem
          split at upper
          · rcases upper with ⟨impossible, -⟩ | ⟨k, taken, before⟩
            · cases impossible
            · cases taken
              omega
          · rename_i isFree
            rw [if_neg isFree]
            exact ih (by omega) upper

/-- A request for more frames than there are looks at all of the range. -/
theorem mem_searchFrames (many : m.rangeEnd < n) (enough : m.rangeEnd < start + fuel)
    (lower : start ≤ frame) (upper : frame < m.rangeEnd) : frame ∈ m.searchFrames n fuel start := by
  induction fuel generalizing start with
  | zero => omega
  | succ fuel ih =>
      rw [searchFrames, List.mem_append]
      cases scanned : m.scan start 0 n with
      | outOfRange => exact .inl (mem_scanFrames (by omega) (.inl ⟨scanned, upper⟩))
      | fits =>
          have last := (m.free_of_scan start 0 n scanned (n - 1) (Nat.zero_le _) (by omega)).1
          omega
      | taken i =>
          by_cases before : frame ≤ start + i
          · exact .inl (mem_scanFrames (by omega) (.inr ⟨i, scanned, before⟩))
          · exact .inr (ih (by omega) (by omega))

end BitmapMemoryManager

/-! ## Memory maps -/

/-- `available_end` behind the descriptors: the end of the last available one, if any. -/
def availableEnd (start : Nat) (descs : List MemoryDescriptor) : Nat :=
  (((descs.filter MemoryDescriptor.available).getLast?).map (·.physicalEnd)).getD start

/-- The frames are frames of the bitmap. -/
def InBitmap (frames : Nat × Nat) : Prop :=
  ∀ frame, frames.1 ≤ frame → frame < frames.1 + frames.2 → frame < kFrameCount

/-- Every frame number that is passed to `SetBit` or `GetBit` while memory is classified, and by
`Allocate` whatever calls of `Allocate` and `Free` come before, is one of the bitmap. -/
structure MemoryMap.Indexes (map : MemoryMap) : Prop where
  classified : ∀ call ∈ marks 0 map.descriptors, InBitmap call
  allocated : ∀ pool, Reachable Pool.Step ⟨map.classified, ∅⟩ pool →
    ∀ n, ∀ frame ∈ pool.manager.bits.allocateFrames n, frame < kFrameCount

/-- The frames from one address to another one, if there is a whole frame between them, end
before 128 GiB. -/
def EndsInBitmap (first bytes : Nat) : Prop :=
  kBytesPerFrame ≤ bytes → first / kBytesPerFrame + bytes / kBytesPerFrame ≤ kFrameCount

/-- Holes before descriptors, unavailable descriptors and the last available one end before
128 GiB. -/
structure MemoryMap.Below (map : MemoryMap) : Prop where
  holes : ∀ before desc rest, map.descriptors = before ++ desc :: rest →
    EndsInBitmap (availableEnd 0 before) (desc.physicalStart - availableEnd 0 before)
  unavailable : ∀ desc ∈ map.descriptors, desc.available = false →
    EndsInBitmap desc.physicalStart desc.bytes
  range : availableEnd 0 map.descriptors / kBytesPerFrame ≤ kFrameCount

theorem inBitmap_iff (first bytes : Nat) :
    InBitmap (first / kBytesPerFrame, bytes / kBytesPerFrame) ↔ EndsInBitmap first bytes := by
  have positive : 0 < kBytesPerFrame := by decide
  rw [InBitmap, EndsInBitmap, ← Nat.div_pos_iff.trans (and_iff_right positive)]
  generalize first / kBytesPerFrame = a, bytes / kBytesPerFrame = n
  constructor
  · intro inside some
    have last := inside (a + n - 1) (by dsimp only; omega) (by dsimp only; omega)
    omega
  · intro ends frame lower upper
    dsimp only at lower upper
    have := ends (by omega)
    omega

theorem availableEnd_cons (start : Nat) (desc : MemoryDescriptor) (rest : List MemoryDescriptor) :
    availableEnd start (desc :: rest) =
      if desc.available then availableEnd desc.physicalEnd rest else availableEnd start rest := by
  rw [availableEnd, availableEnd, availableEnd]
  cases available : desc.available with
  | true =>
      rw [if_pos rfl, List.filter_cons_of_pos available, List.getLast?_cons]
      cases (rest.filter MemoryDescriptor.available).getLast? <;> rfl
  | false =>
      have skipped : ¬ desc.available = true := by simp [available]
      rw [if_neg Bool.false_ne_true, List.filter_cons_of_neg skipped]

/-- The space before a descriptor is marked if there is some. -/
theorem hole_iff (a : Nat) (desc : MemoryDescriptor) :
    (∀ call ∈ (if a < desc.physicalStart then
        [(a / kBytesPerFrame, (desc.physicalStart - a) / kBytesPerFrame)] else []), InBitmap call) ↔
      EndsInBitmap a (desc.physicalStart - a) := by
  split
  · rw [List.forall_mem_singleton, inBitmap_iff]
  · rename_i none
    rw [Nat.sub_eq_zero_of_le (by omega), EndsInBitmap]
    refine iff_of_true (fun call member => absurd member List.not_mem_nil) fun impossible => ?_
    exact absurd impossible (by decide)

/-- What the loop marks lies in the bitmap exactly if holes and unavailable descriptors do. -/
theorem marks_iff (a : Nat) (descs : List MemoryDescriptor) :
    (∀ call ∈ marks a descs, InBitmap call) ↔
      (∀ before desc rest, descs = before ++ desc :: rest →
        EndsInBitmap (availableEnd a before) (desc.physicalStart - availableEnd a before)) ∧
      ∀ desc ∈ descs, desc.available = false → EndsInBitmap desc.physicalStart desc.bytes := by
  induction descs generalizing a with
  | nil => simp [marks]
  | cons desc rest ih =>
      -- a prefix is empty or begins with the first descriptor
      have prefixes (P : List MemoryDescriptor → MemoryDescriptor → Prop) :
          (∀ before other after, desc :: rest = before ++ other :: after → P before other) ↔
            P [] desc ∧ ∀ before other after, rest = before ++ other :: after → P (desc :: before) other := by
        constructor
        · intro all
          exact ⟨all [] desc rest rfl, fun before other after split =>
            all (desc :: before) other after (by rw [split, List.cons_append])⟩
        · rintro ⟨first, later⟩ before other after split
          cases before with
          | nil =>
              cases split
              exact first
          | cons d before =>
              cases split
              exact later before other after rfl
      rw [marks, List.forall_mem_append, hole_iff, prefixes, List.forall_mem_cons]
      simp only [availableEnd_cons]
      cases available : desc.available with
      | true =>
          simp only [if_true, ih, Bool.true_eq_false, false_imp_iff, true_and, and_assoc]
          rfl
      | false =>
          simp only [Bool.false_eq_true, if_false, List.forall_mem_cons, ih, inBitmap_iff, true_imp_iff]
          tauto

/-- All indexes are in range exactly if the memory map keeps below 128 GiB. -/
theorem MemoryMap.indexes_iff (map : MemoryMap) : map.Indexes ↔ map.Below := by
  have rangeEnd : map.classified.rangeEnd = availableEnd 0 map.descriptors / kBytesPerFrame := by
    rw [availableEnd, ← LineManager.classify_end LineManager.init 0 map.descriptors]
    rfl
  constructor
  · rintro ⟨classified, allocated⟩
    rcases (marks_iff 0 map.descriptors).mp classified with ⟨holes, unavailable⟩
    refine ⟨holes, unavailable, ?_⟩
    rw [← rangeEnd]
    by_contra past
    -- a request for too many frames looks at the one behind the bitmap
    have behind := allocated _ (Reachable.refl _ _) (map.classified.rangeEnd + 1) kFrameCount
      (List.mem_append_left _ (BitmapMemoryManager.mem_searchFrames (Nat.lt_succ_self _)
        (by change map.classified.rangeEnd < 1 + (map.classified.rangeEnd + 1 - 1); omega)
        (show 1 ≤ kFrameCount by decide) (by change kFrameCount < map.classified.rangeEnd; omega)))
    exact Nat.lt_irrefl _ behind
  · rintro ⟨holes, unavailable, range⟩
    refine ⟨(marks_iff 0 map.descriptors).mpr ⟨holes, unavailable⟩, ?_⟩
    intro pool reachable n frame member
    have same : pool.manager.rangeEnd = map.classified.rangeEnd := by
      have within : pool.Within map.classified.rangeEnd Set.univ := reachable.invariant
        ⟨rfl, fun _ _ _ => trivial, Set.subset_univ _⟩ fun _ _ _ within step => within.step step
      exact within.range
    have below := BitmapMemoryManager.lt_of_mem_allocateFrames member
    change frame < pool.manager.rangeEnd at below
    omega

/-- 128 MiB of memory, and a region for devices far above it. -/
def deviceMap : MemoryMap where
  buffer i := if i = 0 then ⟨7, 0, 0x8000⟩ else ⟨11, 0xfd00000000, 0x300000⟩
  mapSize := 96
  descriptorSize := 48
  descriptorSize_pos := Nat.succ_pos 47

/-- The frames of the devices are marked in a bitmap that does not have them. -/
theorem not_indexes_deviceMap : ¬ deviceMap.Indexes := by
  rintro ⟨classified, -⟩
  have devices := classified (0xfd00000, 0x300000) (by decide) 0xfd00000 (by decide) (by decide)
  exact absurd devices (by decide)

end Mikanos.Memory
