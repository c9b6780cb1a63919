import Mikanos.Memory.Lines
import Mikanos.Transition.Run

/-!
# Memory at boot

The firmware hands over a table of memory descriptors.  `InitializeMemoryManager`
walks over it with a running `available_end`: the space between `available_end`
and the next descriptor is marked, and so is a descriptor of a type that is not
available.  Only an available descriptor moves `available_end`, so that the
frames of an unavailable one may be marked twice, once for themselves and once
as a part of the next hole.
-/

namespace Mikanos.Memory

open Transition

/-- `kUEFIPageSize`. -/
def kUEFIPageSize : Nat := 4096

/-- `MemoryDescriptor`: the fields that the memory manager reads. -/
structure MemoryDescriptor where
  type : BitVec 32
  physicalStart : Nat
  numberOfPages : Nat

def kEfiBootServicesCode : BitVec 32 := 3

def kEfiBootServicesData : BitVec 32 := 4

def kEfiConventionalMemory : BitVec 32 := 7

/-- `IsAvailable`. -/
def isAvailable (type : BitVec 32) : Bool :=
  type == kEfiBootServicesCode || type == kEfiBootServicesData || type == kEfiConventionalMemory

namespace MemoryDescriptor

variable (desc : MemoryDescriptor)

/-- The frames of the descriptor may be used. -/
def available : Bool := isAvailable desc.type

/-- `number_of_pages * kUEFIPageSize`, in 64 bits. -/
def bytes : Nat := desc.numberOfPages * kUEFIPageSize % 2 ^ 64

/-- `physical_end`, in 64 bits. -/
def physicalEnd : Nat := (desc.physicalStart + desc.bytes) % 2 ^ 64

/-- The frame lies inside the descriptor. -/
def Contains (frame : Nat) : Prop :=
  desc.physicalStart ≤ frame * kBytesPerFrame ∧
    (frame + 1) * kBytesPerFrame ≤ desc.physicalStart + desc.numberOfPages * kUEFIPageSize

end MemoryDescriptor

/-- `MemoryMap`: `buffer` says which descriptor is read at a byte offset. -/
structure MemoryMap where
  buffer : Nat → MemoryDescriptor
  mapSize : Nat
  descriptorSize : Nat
  descriptorSize_pos : 0 < descriptorSize

/-- The descriptors that the loop reads: one at every multiple of
`descriptor_size` below `map_size`. -/
def MemoryMap.descriptors (map : MemoryMap) : List MemoryDescriptor :=
  (List.range ((map.mapSize + map.descriptorSize - 1) / map.descriptorSize)).map fun i =>
    map.buffer (i * map.descriptorSize)

namespace LineManager

/-- The hole before a descriptor is marked. -/
def markHole (m : LineManager) (availableEnd : Nat) (desc : MemoryDescriptor) : LineManager :=
  if availableEnd < desc.physicalStart then
    m.markAllocated (availableEnd / kBytesPerFrame)
      ((desc.physicalStart - availableEnd) / kBytesPerFrame)
  else m

/-- The loop of `InitializeMemoryManager`. -/
def classify (m : LineManager) (availableEnd : Nat) :
    List MemoryDescriptor → LineManager × Nat
  | [] => (m, availableEnd)
  | desc :: rest =>
      let m := m.markHole availableEnd desc
      if desc.available then m.classify desc.physicalEnd rest
      else
        (m.markAllocated (desc.physicalStart / kBytesPerFrame)
          (desc.bytes / kBytesPerFrame)).classify availableEnd rest

end LineManager

/-- `InitializeMemoryManager` up to the reservation of the heap. -/
def MemoryMap.classified (map : MemoryMap) : LineManager :=
  let (m, availableEnd) := LineManager.init.classify 0 map.descriptors
  m.setMemoryRange 1 (availableEnd / kBytesPerFrame)

/-- `kHeapFrames`. -/
def kHeapFrames : Nat := 64 * 512

/-- `InitializeMemoryManager`, with `program_break` as the second value. -/
def initializeMemoryManager (map : MemoryMap) : LineManager × Except Error Nat :=
  let (m, heapStart) := map.classified.allocate kHeapFrames
  (m, heapStart.map (· * kBytesPerFrame))

/-! ## Maps of the firmware -/

/-- What the firmware promises of one descriptor: it begins at a page and ends
below 128 GiB. -/
structure MemoryDescriptor.WellFormed (desc : MemoryDescriptor) : Prop where
  aligned : kUEFIPageSize ∣ desc.physicalStart
  below : desc.physicalStart + desc.numberOfPages * kUEFIPageSize ≤ kFrameCount * kBytesPerFrame

/-- Well-formed descriptors in the order of their addresses, none of which
reaches into a later one. -/
structure MemoryMap.WellFormed (map : MemoryMap) : Prop where
  descriptors : ∀ desc ∈ map.descriptors, desc.WellFormed
  sorted : map.descriptors.Pairwise fun desc later =>
    desc.physicalStart + desc.numberOfPages * kUEFIPageSize ≤ later.physicalStart

namespace MemoryDescriptor.WellFormed

variable {desc : MemoryDescriptor} (wf : desc.WellFormed)

include wf

/-- The length of a descriptor does not wrap. -/
theorem bytes_eq : desc.bytes = desc.numberOfPages * kBytesPerFrame := by
  have below := wf.below
  rw [kFrameCount, kBytesPerFrame, kUEFIPageSize] at below
  rw [MemoryDescriptor.bytes, kUEFIPageSize, kBytesPerFrame]
  exact Nat.mod_eq_of_lt (by omega)

/-- A descriptor begins at a frame. -/
theorem start_eq :
    desc.physicalStart = desc.physicalStart / kBytesPerFrame * kBytesPerFrame :=
  (Nat.div_mul_cancel wf.aligned).symm

/-- A descriptor ends at a frame. -/
theorem physicalEnd_eq :
    desc.physicalEnd =
      (desc.physicalStart / kBytesPerFrame + desc.numberOfPages) * kBytesPerFrame := by
  have below := wf.below
  rw [kFrameCount, kBytesPerFrame, kUEFIPageSize] at below
  rw [MemoryDescriptor.physicalEnd, wf.bytes_eq, Nat.add_mul, ← wf.start_eq, kBytesPerFrame]
  exact Nat.mod_eq_of_lt (by omega)

theorem contains_iff (frame : Nat) :
    desc.Contains frame ↔
      desc.physicalStart / kBytesPerFrame ≤ frame ∧
        frame < desc.physicalStart / kBytesPerFrame + desc.numberOfPages := by
  have start := wf.start_eq
  rw [MemoryDescriptor.Contains, kUEFIPageSize]
  rw [kBytesPerFrame] at start ⊢
  constructor
  · rintro ⟨lower, upper⟩
    constructor <;> omega
  · rintro ⟨lower, upper⟩
    constructor <;> omega

end MemoryDescriptor.WellFormed

/-! ## One descriptor -/

namespace LineManager

theorem getBit_markAllocated (m : LineManager) (start n frame : Nat) :
    (m.markAllocated start n).getBit frame = false ↔
      m.getBit frame = false ∧ ¬ (start ≤ frame ∧ frame < start + n) := by
  induction n with
  | zero =>
      rw [markAllocated]
      constructor
      · intro isFree
        exact ⟨isFree, by omega⟩
      · exact And.left
  | succ n ih =>
      rw [markAllocated, getBit_setBit]
      by_cases last : frame = start + n
      · rw [if_pos last]
        constructor
        · intro impossible
          cases impossible
        · rintro ⟨-, outside⟩
          omega
      · rw [if_neg last, ih]
        constructor
        · rintro ⟨isFree, outside⟩
          exact ⟨isFree, by omega⟩
        · rintro ⟨isFree, outside⟩
          exact ⟨isFree, by omega⟩

/-- The hole before a descriptor reaches up to its first frame. -/
theorem getBit_markHole (m : LineManager) {desc : MemoryDescriptor} (wf : desc.WellFormed)
    (a frame : Nat) :
    (m.markHole (a * kBytesPerFrame) desc).getBit frame = false ↔
      m.getBit frame = false ∧
        ¬ (a ≤ frame ∧ frame < desc.physicalStart / kBytesPerFrame) := by
  have positive : 0 < kBytesPerFrame := by decide
  rw [markHole]
  by_cases hole : a * kBytesPerFrame < desc.physicalStart
  · rw [if_pos hole, getBit_markAllocated, Nat.mul_div_cancel _ positive, Nat.mul_comm a,
      Nat.sub_mul_div]
    rw [wf.start_eq] at hole
    have before := Nat.lt_of_mul_lt_mul_right hole
    rw [Nat.add_sub_of_le before.le]
  · rw [if_neg hole]
    rw [wf.start_eq] at hole
    have after : desc.physicalStart / kBytesPerFrame ≤ a := by
      by_contra before
      exact hole (Nat.mul_lt_mul_of_pos_right (by omega) positive)
    constructor
    · intro isFree
      exact ⟨isFree, by omega⟩
    · exact And.left

/-- `available_end` after the loop. -/
theorem classify_end (m : LineManager) (availableEnd : Nat) (descs : List MemoryDescriptor) :
    (m.classify availableEnd descs).2 =
      (((descs.filter MemoryDescriptor.available).getLast?).map (·.physicalEnd)).getD availableEnd := by
  induction descs generalizing m availableEnd with
  | nil => rfl
  | cons desc rest ih =>
      rw [classify]
      cases available : desc.available with
      | true =>
          rw [if_pos rfl, ih, List.filter_cons_of_pos available, List.getLast?_cons]
          cases (rest.filter MemoryDescriptor.available).getLast? <;> rfl
      | false =>
          have skipped : ¬ desc.available = true := by simp [available]
          rw [if_neg Bool.false_ne_true, ih, List.filter_cons_of_neg skipped]

/-- What the loop leaves free below `available_end`: the free frames below the
`available_end` it began with, and the frames of available descriptors. -/
theorem classify_free (descs : List MemoryDescriptor) (wf : ∀ desc ∈ descs, desc.WellFormed)
    (sorted : descs.Pairwise fun desc later =>
      desc.physicalStart + desc.numberOfPages * kUEFIPageSize ≤ later.physicalStart)
    (m : LineManager) (a : Nat)
    (after : ∀ desc ∈ descs, a ≤ desc.physicalStart / kBytesPerFrame) :
    ∃ e, (m.classify (a * kBytesPerFrame) descs).2 = e * kBytesPerFrame ∧ a ≤ e ∧
      ∀ frame < e, (m.classify (a * kBytesPerFrame) descs).1.getBit frame = false ↔
        m.getBit frame = false ∧
          (frame < a ∨ ∃ desc ∈ descs, desc.available = true ∧ desc.Contains frame) := by
  induction descs generalizing m a with
  | nil =>
      refine ⟨a, rfl, le_rfl, ?_⟩
      intro frame below
      constructor
      · intro isFree
        exact ⟨isFree, .inl below⟩
      · exact And.left
  | cons desc rest ih =>
      rw [List.pairwise_cons] at sorted
      have wfDesc := wf desc List.mem_cons_self
      have wfRest : ∀ later ∈ rest, later.WellFormed := fun later mem =>
        wf later (List.mem_cons_of_mem desc mem)
      have first := after desc List.mem_cons_self
      -- what comes later lies above this descriptor
      have above : ∀ later ∈ rest,
          desc.physicalStart / kBytesPerFrame + desc.numberOfPages ≤
            later.physicalStart / kBytesPerFrame := by
        intro later mem
        have next := sorted.1 later mem
        have start := wfDesc.start_eq
        rw [kUEFIPageSize] at next
        rw [kBytesPerFrame] at start ⊢
        omega
      have beyond : ∀ frame, (∃ later ∈ rest, later.available = true ∧
          later.Contains frame) → desc.physicalStart / kBytesPerFrame + desc.numberOfPages ≤ frame := by
        rintro frame ⟨later, mem, -, inside⟩
        rw [(wfRest later mem).contains_iff] at inside
        exact le_trans (above later mem) inside.1
      rw [classify]
      cases available : desc.available with
      | true =>
          rw [if_pos rfl, wfDesc.physicalEnd_eq]
          rcases ih wfRest sorted.2 (m.markHole (a * kBytesPerFrame) desc)
            (desc.physicalStart / kBytesPerFrame + desc.numberOfPages) above with
            ⟨e, endEq, later, frees⟩
          refine ⟨e, endEq, by omega, ?_⟩
          intro frame below
          rw [frees frame below, getBit_markHole m wfDesc, List.exists_mem_cons_iff,
            wfDesc.contains_iff, and_assoc]
          apply and_congr_right'
          constructor
          · rintro ⟨outside, old | new⟩
            · by_cases early : frame < a
              · exact .inl early
              · exact .inr (.inl ⟨available, by omega, old⟩)
            · exact .inr (.inr new)
          · rintro (early | ⟨-, lower, upper⟩ | new)
            · exact ⟨by omega, .inl (by omega)⟩
            · exact ⟨by omega, .inl upper⟩
            · have := beyond frame new
              exact ⟨by omega, .inr new⟩
      | false =>
          rw [if_neg Bool.false_ne_true, wfDesc.bytes_eq, Nat.mul_div_cancel _ (by decide)]
          rcases ih wfRest sorted.2 _ a (fun later mem => by have := above later mem; omega) with
            ⟨e, endEq, later, frees⟩
          refine ⟨e, endEq, later, ?_⟩
          intro frame below
          rw [frees frame below, getBit_markAllocated, getBit_markHole m wfDesc,
            List.exists_mem_cons_iff, and_assoc, and_assoc]
          apply and_congr_right'
          constructor
          · rintro ⟨-, -, early | new⟩
            · exact .inl early
            · exact .inr (.inr new)
          · rintro (early | ⟨impossible, -⟩ | new)
            · exact ⟨by omega, by omega, .inl early⟩
            · rw [available] at impossible
              cases impossible
            · have := beyond frame new
              exact ⟨by omega, by omega, .inr new⟩

/-- The loop writes only the lines of `alloc_map_`. -/
theorem classify_inside (descs : List MemoryDescriptor) (wf : ∀ desc ∈ descs, desc.WellFormed)
    (m : LineManager) (a frame : Nat) (outside : kFrameCount ≤ frame)
    (isFree : m.getBit frame = false) :
    (m.classify (a * kBytesPerFrame) descs).1.getBit frame = false := by
  induction descs generalizing m a with
  | nil => exact isFree
  | cons desc rest ih =>
      have wfDesc := wf desc List.mem_cons_self
      have wfRest : ∀ later ∈ rest, later.WellFormed := fun later mem =>
        wf later (List.mem_cons_of_mem desc mem)
      have below := wfDesc.below
      have start := wfDesc.start_eq
      rw [kUEFIPageSize] at below
      rw [kBytesPerFrame] at below start
      have hole : (m.markHole (a * kBytesPerFrame) desc).getBit frame = false := by
        rw [getBit_markHole m wfDesc, kBytesPerFrame]
        exact ⟨isFree, by omega⟩
      rw [classify]
      cases available : desc.available with
      | true =>
          rw [if_pos rfl, wfDesc.physicalEnd_eq]
          exact ih wfRest _ _ hole
      | false =>
          rw [if_neg Bool.false_ne_true]
          apply ih wfRest
          rw [getBit_markAllocated, wfDesc.bytes_eq, Nat.mul_div_cancel _ (by decide),
            kBytesPerFrame]
          exact ⟨hole, by omega⟩

theorem getBit_free (m : LineManager) (start n frame : Nat) :
    (m.free start n).getBit frame = false ↔
      m.getBit frame = false ∨ start ≤ frame ∧ frame < start + n := by
  induction n with
  | zero =>
      rw [free]
      constructor
      · exact .inl
      · rintro (isFree | inside)
        · exact isFree
        · omega
  | succ n ih =>
      rw [free, getBit_setBit]
      by_cases last : frame = start + n
      · rw [if_pos last]
        constructor
        · intro _
          exact .inr (by omega)
        · intro _
          rfl
      · rw [if_neg last, ih]
        constructor
        · rintro (isFree | inside)
          · exact .inl isFree
          · exact .inr (by omega)
        · rintro (isFree | inside)
          · exact .inl isFree
          · exact .inr (by omega)

theorem range_markAllocated (m : LineManager) (start n : Nat) :
    (m.markAllocated start n).rangeBegin = m.rangeBegin ∧
      (m.markAllocated start n).rangeEnd = m.rangeEnd := by
  induction n with
  | zero => exact ⟨rfl, rfl⟩
  | succ n ih => exact ih

theorem range_free (m : LineManager) (start n : Nat) :
    (m.free start n).rangeBegin = m.rangeBegin ∧ (m.free start n).rangeEnd = m.rangeEnd := by
  induction n with
  | zero => exact ⟨rfl, rfl⟩
  | succ n ih => exact ih

/-- `Allocate` marks a run of frames that were free and in the range, or it
fails and nothing changes. -/
theorem allocate_cases (m : LineManager) (numFrames : Nat) :
    (∃ start, m.allocate numFrames = (m.markAllocated start numFrames, .ok start) ∧
      ∀ frame, start ≤ frame → frame < start + numFrames → m.bits.Available frame) ∨
      m.allocate numFrames = (m, .error .noEnoughMemory) := by
  rw [allocate]
  cases search : m.bits.search numFrames (m.rangeEnd + 1 - m.rangeBegin) m.rangeBegin with
  | some start =>
      left
      exact ⟨start, rfl, m.bits.available_of_search le_rfl search⟩
  | none => exact .inr rfl

end LineManager

/-! ## The frames that are handed out -/

/-- The manager in use, with the frames that `Allocate` handed out and that have
not come back. -/
structure Pool where
  manager : LineManager
  lent : Set Nat

/-- The calls of the memory manager. -/
inductive Call
  | allocate (numFrames : Nat)
  | free (start numFrames : Nat)

/-- `Allocate` of any number of frames, and `Free` of frames that were handed
out. -/
inductive Pool.Step : Transition.Step Pool Call
  | allocate {m m' : LineManager} {lent : Set Nat} {numFrames start : Nat}
      (allocated : m.allocate numFrames = (m', .ok start)) :
      Step ⟨m, lent⟩ (.allocate numFrames) ⟨m', lent ∪ Set.Ico start (start + numFrames)⟩
  | refuse {m m' : LineManager} {lent : Set Nat} {numFrames : Nat} {e : Error}
      (refused : m.allocate numFrames = (m', .error e)) :
      Step ⟨m, lent⟩ (.allocate numFrames) ⟨m', lent⟩
  | free {m : LineManager} {lent : Set Nat} {start numFrames : Nat}
      (handedOut : Set.Ico start (start + numFrames) ⊆ lent) :
      Step ⟨m, lent⟩ (.free start numFrames)
        ⟨m.free start numFrames, lent \ Set.Ico start (start + numFrames)⟩

/-- Frames in the range that are free or handed out all belong to `frames`. -/
structure Pool.Within (rangeEnd : Nat) (frames : Set Nat) (pool : Pool) : Prop where
  range : pool.manager.rangeEnd = rangeEnd
  free : ∀ frame < rangeEnd, pool.manager.getBit frame = false → frame ∈ frames
  lent : pool.lent ⊆ frames

theorem Pool.Within.step {rangeEnd : Nat} {frames : Set Nat} {source target : Pool} {call : Call}
    (within : source.Within rangeEnd frames) (step : Pool.Step source call target) :
    target.Within rangeEnd frames := by
  cases step with
  | @allocate m m' lent numFrames start allocated =>
      rcases m.allocate_cases numFrames with ⟨found, eq, available⟩ | eq
      · rw [eq] at allocated
        cases allocated
        constructor
        · exact (m.range_markAllocated start numFrames).2.trans within.range
        · intro frame below isFree
          exact within.free frame below ((m.getBit_markAllocated start numFrames frame).mp isFree).1
        · rintro frame (old | ⟨lower, upper⟩)
          · exact within.lent old
          · rcases available frame lower upper with ⟨-, below, isFree⟩
            exact within.free frame (within.range ▸ below) isFree
      · rw [eq] at allocated
        cases allocated
  | @refuse m m' lent numFrames e refused =>
      rcases m.allocate_cases numFrames with ⟨found, eq, -⟩ | eq
      · rw [eq] at refused
        cases refused
      · rw [eq] at refused
        cases refused
        exact within
  | @free m lent start numFrames handedOut =>
      constructor
      · exact (m.range_free start numFrames).2.trans within.range
      · intro frame below isFree
        rcases (m.getBit_free start numFrames frame).mp isFree with old | returned
        · exact within.free frame below old
        · exact within.lent (handedOut returned)
      · exact fun frame kept => within.lent kept.1

/-- The state after `InitializeMemoryManager` is the first one of such a run: the
heap is a run of frames that `Allocate` handed out. -/
theorem reachable_initializeMemoryManager (map : MemoryMap) :
    ∃ lent, Reachable Pool.Step ⟨map.classified, ∅⟩ ⟨(initializeMemoryManager map).1, lent⟩ := by
  have start := Reachable.refl Pool.Step ⟨map.classified, ∅⟩
  rcases map.classified.allocate_cases kHeapFrames with ⟨heap, eq, -⟩ | eq
  · rw [initializeMemoryManager, eq]
    exact ⟨_, start.next (.allocate eq)⟩
  · rw [initializeMemoryManager, eq]
    exact ⟨_, start.next (.refuse eq)⟩

/-! ## The classification -/

namespace MemoryMap.WellFormed

variable {map : MemoryMap}

/-- No frame outside `alloc_map_` is ever marked. -/
theorem inside (wf : map.WellFormed) (frame : Nat) (outside : kFrameCount ≤ frame) :
    map.classified.getBit frame = false := by
  have kept := LineManager.classify_inside map.descriptors wf.descriptors LineManager.init 0 frame
    outside (LineManager.getBit_init frame)
  rwa [Nat.zero_mul] at kept

/-- The frames below the end of the managed range are free exactly where an
available descriptor has them. -/
theorem free_iff (wf : map.WellFormed) (frame : Nat) (below : frame < map.classified.rangeEnd) :
    map.classified.getBit frame = false ↔
      ∃ desc ∈ map.descriptors, desc.available = true ∧ desc.Contains frame := by
  rcases LineManager.classify_free map.descriptors wf.descriptors wf.sorted LineManager.init 0
    (fun _ _ => Nat.zero_le _) with ⟨e, endEq, -, frees⟩
  rw [Nat.zero_mul] at endEq frees
  change frame < (LineManager.init.classify 0 map.descriptors).2 / kBytesPerFrame at below
  rw [endEq, Nat.mul_div_cancel _ (by decide)] at below
  refine (frees frame below).trans ?_
  rw [LineManager.getBit_init]
  constructor
  · rintro ⟨-, impossible | found⟩
    · omega
    · exact found
  · intro found
    exact ⟨rfl, .inr found⟩

/-- Two descriptors have no frame in common. -/
theorem unique (wf : map.WellFormed) {desc other : MemoryDescriptor} {frame : Nat}
    (mem : desc ∈ map.descriptors) (mem' : other ∈ map.descriptors)
    (inside : desc.Contains frame) (inside' : other.Contains frame) : desc = other := by
  have apart : map.descriptors.Pairwise fun desc later =>
      ¬ (desc.Contains frame ∧ later.Contains frame) := by
    apply wf.sorted.imp
    rintro desc later order ⟨⟨-, upper⟩, lower, -⟩
    rw [kUEFIPageSize] at upper order
    rw [kBytesPerFrame] at upper lower
    omega
  have same := List.Pairwise.forall_of_forall_of_flip
    (R := fun desc later => desc.Contains frame → later.Contains frame → desc = later)
    (fun _ _ _ _ => rfl) (apart.imp fun away here there => absurd ⟨here, there⟩ away)
    (apart.imp fun away here there => absurd ⟨there, here⟩ away)
  exact same mem mem' inside inside'

/-- Every state of the pool keeps to the frames of available descriptors. -/
theorem within (wf : map.WellFormed) {pool : Pool}
    (reachable : Reachable Pool.Step ⟨map.classified, ∅⟩ pool) :
    pool.Within map.classified.rangeEnd
      {frame | ∃ desc ∈ map.descriptors, desc.available = true ∧ desc.Contains frame} := by
  apply reachable.invariant
  · exact ⟨rfl, fun frame below isFree => (wf.free_iff frame below).mp isFree,
      Set.empty_subset _⟩
  · exact fun _ _ _ within step => within.step step

end MemoryMap.WellFormed

/-- Memory is classified as the firmware describes it.  The managed range ends
where the last available descriptor does, a frame of it is free exactly when it
lies inside an available descriptor, and whatever calls of the manager follow,
every frame that is handed out lies inside an available descriptor and inside
no other. -/
theorem memory_classified (map : MemoryMap) (wf : map.WellFormed) :
    (map.classified.rangeBegin = 1 ∧
      map.classified.rangeEnd =
        (((map.descriptors.filter MemoryDescriptor.available).getLast?).map
          (·.physicalEnd)).getD 0 / kBytesPerFrame) ∧
    (∀ frame < map.classified.rangeEnd, map.classified.getBit frame = false ↔
      ∃ desc ∈ map.descriptors, desc.available = true ∧ desc.Contains frame) ∧
    ∀ pool, Reachable Pool.Step ⟨map.classified, ∅⟩ pool → ∀ frame ∈ pool.lent,
      (∃ desc ∈ map.descriptors, desc.available = true ∧ desc.Contains frame) ∧
      ∀ desc ∈ map.descriptors, desc.Contains frame → desc.available = true := by
  constructor
  · constructor
    · rfl
    · rw [← LineManager.classify_end LineManager.init 0 map.descriptors]
      rfl
  · constructor
    · exact wf.free_iff
    · intro pool reachable frame lent
      have found := (wf.within reachable).lent lent
      constructor
      · exact found
      · intro desc mem inside
        rcases found with ⟨other, mem', available, inside'⟩
        rwa [wf.unique mem mem' inside inside']

/-- Two available descriptors, with an unavailable one and a hole between them. -/
def smallMap : MemoryMap where
  buffer i := if i = 0 then ⟨7, 0, 2⟩ else if i = 48 then ⟨0, 0x2000, 1⟩ else ⟨4, 0x5000, 2⟩
  mapSize := 144
  descriptorSize := 48
  descriptorSize_pos := by decide

theorem wellFormed_smallMap : smallMap.WellFormed := by
  have descriptors : smallMap.descriptors = [⟨7, 0, 2⟩, ⟨0, 0x2000, 1⟩, ⟨4, 0x5000, 2⟩] := rfl
  constructor
  · rw [descriptors]
    intro desc mem
    simp only [List.mem_cons, List.not_mem_nil, or_false] at mem
    rcases mem with rfl | rfl | rfl
    all_goals exact ⟨by decide, by decide⟩
  · rw [descriptors]
    decide

/-- The small map ends at frame 7, and its hole at frame 3 is marked. -/
theorem memory_classified_smallMap :
    smallMap.classified.rangeEnd = 7 ∧ smallMap.classified.getBit 3 = true ∧
      ∀ frame < 7, smallMap.classified.getBit frame = false ↔
        ∃ desc ∈ smallMap.descriptors, desc.available = true ∧ desc.Contains frame := by
  rcases memory_classified smallMap wellFormed_smallMap with ⟨⟨-, rangeEnd⟩, free, -⟩
  have seven : smallMap.classified.rangeEnd = 7 := by
    rw [rangeEnd]
    decide
  constructor
  · exact seven
  · constructor
    · decide
    · exact fun frame below => free frame (by omega)

end Mikanos.Memory
