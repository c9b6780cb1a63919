import Mikanos.Loader.Launch
import Mikanos.Paging.Fault
import Mikanos.Transition.Run
import Mathlib.Order.CompletePartialOrder

/-!
# The regions of an application

`ExecuteFile` leaves the space between the end of the image and the stack to two
regions that grow towards each other: `DemandPages` moves the end of one up, and
`MapFile` moves the other down.  Neither call looks at what is left between
them.  As long as every call asks for no more than that, the regions of the
application stay apart.
-/

namespace Mikanos.Paging.AppTask

/-! ## The system calls -/

/-- `task.Files()[fd]->Size()`, when `fd` is open; `files` has the size of every
open file. -/
def openSize (files : List (Option Nat)) (fd : Int) : Option Nat :=
  if fd < 0 ∨ (files.length : Int) ≤ fd then none else files[fd.toNat]?.join

/-- `DemandPages`; the result is the beginning of the new pages. -/
def demandPages (task : AppTask) (numPages : Nat) : AppTask × Nat :=
  let dpEnd := task.dpagingEnd
  ({ task with dpagingEnd := (dpEnd + 4096 * numPages) % 2 ^ 64 }, dpEnd)

/-- The mapping that `MapFile` makes of a file. -/
def mapping (task : AppTask) (fd : Int) (fileSize : Nat) : FileMapping where
  fd := fd.toNat
  vaddrBegin := (task.fileMapEnd + (2 ^ 64 - fileSize % 2 ^ 64)) % 2 ^ 64 / 4096 * 4096
  vaddrEnd := task.fileMapEnd

/-- `MapFile`; the result is the beginning of the mapping and what is stored in
`*file_size`, or nothing for `EBADF`. -/
def mapFile (task : AppTask) (files : List (Option Nat)) (fd : Int) :
    AppTask × Option (Nat × Nat) :=
  match openSize files fd with
  | none => (task, none)
  | some fileSize =>
      let m := task.mapping fd fileSize
      ({ task with fileMapEnd := m.vaddrBegin, fileMaps := task.fileMaps ++ [m] },
        some (m.vaddrBegin, fileSize))

/-- The calls that move the regions. -/
inductive MemoryCall
  | demandPages (numPages : Nat)
  | mapFile (files : List (Option Nat)) (fd : Int)

/-- What a call makes of the task. -/
def call (task : AppTask) : MemoryCall → AppTask
  | .demandPages numPages => (task.demandPages numPages).1
  | .mapFile files fd => (task.mapFile files fd).1

/-- The space between the regions that grow. -/
def gap (task : AppTask) : Nat :=
  task.fileMapEnd - task.dpagingEnd

/-- The call asks for no more than the space between the regions. -/
def Room (task : AppTask) : MemoryCall → Prop
  | .demandPages numPages => 4096 * numPages % 2 ^ 64 ≤ task.gap
  | .mapFile files fd => ∀ size, openSize files fd = some size → size ≤ task.gap

/-- An application makes one call after another. -/
def Calls : Transition.Step AppTask MemoryCall :=
  fun source c target => target = source.call c

end Mikanos.Paging.AppTask

namespace Mikanos.Loader

open Mikanos.Paging Mikanos.Paging.AppTask Launcher Transition

/-! ## The regions -/

/-- The task with which `ExecuteFile` enters an application. -/
def Launches (appLoad : AppLoadInfo) (task : AppTask) : Prop :=
  ∃ (s s' : Launcher) (termFiles : List Nat) (argc : Nat) (call : Call), s.task.fileMaps = [] ∧
    s.prepareCall termFiles appLoad argc = (s', .ok call) ∧ s'.task = task

/-- Where the pages of the image end. -/
def imageEnd (appLoad : AppLoadInfo) : Nat :=
  (appLoad.vaddrEnd + 4095) / 4096 * 4096

/-- The image and what is below it, the region of demand paging, the mappings, the
stack and the page of the arguments. -/
def regions (appLoad : AppLoadInfo) (task : AppTask) : List (Set Nat) :=
  [Set.Iio (imageEnd appLoad), Set.Ico task.dpagingBegin task.dpagingEnd] ++
    task.fileMaps.map (fun m => Set.Ico m.vaddrBegin m.vaddrEnd) ++
    [Set.Ico stackFrameAddr.toNat (stackFrameAddr.toNat + stackSize),
      Set.Ico argsFrameAddr.toNat (argsFrameAddr.toNat + 4096)]

/-- No two regions meet, and the regions that grow have not passed each other. -/
structure Separate (appLoad : AppLoadInfo) (task : AppTask) : Prop where
  disjoint : (regions appLoad task).Pairwise Disjoint
  order : task.dpagingEnd ≤ task.fileMapEnd

/-- The order of the regions, from the image up to the stack. -/
structure Laid (appLoad : AppLoadInfo) (task : AppTask) : Prop where
  image : task.dpagingBegin = imageEnd appLoad
  paging : task.dpagingBegin ≤ task.dpagingEnd
  pagingAligned : 4096 ∣ task.dpagingEnd
  order : task.dpagingEnd ≤ task.fileMapEnd
  mapAligned : 4096 ∣ task.fileMapEnd
  stack : task.fileMapEnd ≤ stackFrameAddr.toNat
  maps : ∀ m ∈ task.fileMaps, task.fileMapEnd ≤ m.vaddrBegin ∧ m.vaddrEnd ≤ stackFrameAddr.toNat
  apart : task.fileMaps.Pairwise fun m later => later.vaddrEnd ≤ m.vaddrBegin

/-! ## The start -/

/-- Clearing the offset of an address. -/
theorem toNat_and_pageMask (x : BitVec 64) :
    (x &&& 0xfffffffffffff000#64).toNat = x.toNat / 4096 * 4096 := by
  have mask : (0xfffffffffffff000#64).toNat = (2 ^ 52 - 1) <<< 12 := by decide
  have shifts : x.toNat / 4096 * 4096 = x.toNat >>> 12 <<< 12 := by
    rw [Nat.shiftLeft_eq, Nat.shiftRight_eq_div_pow]
  rw [BitVec.toNat_and, mask, shifts]
  apply Nat.eq_of_testBit_eq
  intro i
  rw [Nat.testBit_and, Nat.testBit_shiftLeft, Nat.testBit_shiftLeft, Nat.testBit_two_pow_sub_one,
    Nat.testBit_shiftRight]
  by_cases low : 12 ≤ i
  · by_cases high : i < 64
    · have inside : i - 12 < 52 := by omega
      simp [low, inside]
    · have zero : x.toNat.testBit i = false := by
        apply Nat.testBit_lt_two_pow
        exact x.isLt.trans_le (Nat.pow_le_pow_right (by decide) (by omega))
      simp [low, zero, Nat.add_sub_of_le low]
  · simp [low]

/-- The mappings of the task stay when pages are set up. -/
theorem fileMaps_of_setup {s s₁ : Launcher} {addr : BitVec 64} {numPages : Nat} {e : Error}
    (setup : s.setupPageMaps addr numPages = (s₁, e)) : s₁.task.fileMaps = s.task.fileMaps :=
  (congrArg (fun result => result.1.task.fileMaps) setup).symm

/-- The regions of an application that is entered. -/
theorem Launches.eq_entered {appLoad : AppLoadInfo} {task : AppTask}
    (launches : Launches appLoad task) :
    task =
      { dpagingBegin := ((BitVec.ofNat 64 appLoad.vaddrEnd + 4095) &&& 0xfffffffffffff000#64).toNat
        dpagingEnd := ((BitVec.ofNat 64 appLoad.vaddrEnd + 4095) &&& 0xfffffffffffff000#64).toNat
        fileMapEnd := stackFrameAddr.toNat
        fileMaps := [] } := by
  rcases launches with ⟨s, s', termFiles, argc, call, none, prepared, rfl⟩
  rw [Launcher.prepareCall] at prepared
  split at prepared
  · rename_i s₁ setup
    have kept : s₁.task.fileMaps = [] := (fileMaps_of_setup setup).trans none
    cases prepared
    dsimp only
    rw [kept]
  · cases prepared

theorem dvd_stackFrameAddr : 4096 ∣ stackFrameAddr.toNat := by
  have stackIs : stackFrameAddr.toNat = 0xfffffffffffef000 := by decide
  rw [stackIs]
  decide

/-- `ExecuteFile` lays the regions out. -/
theorem Launches.laid {appLoad : AppLoadInfo} {task : AppTask} (launches : Launches appLoad task)
    (ends : appLoad.vaddrEnd ≤ stackFrameAddr.toNat) : Laid appLoad task := by
  have stackIs : stackFrameAddr.toNat = 0xfffffffffffef000 := by decide
  have elfNextPage : ((BitVec.ofNat 64 appLoad.vaddrEnd + 4095) &&& 0xfffffffffffff000#64).toNat =
      imageEnd appLoad := by
    have sum : (BitVec.ofNat 64 appLoad.vaddrEnd + 4095).toNat = appLoad.vaddrEnd + 4095 := by
      rw [BitVec.toNat_add, BitVec.toNat_ofNat]
      change (appLoad.vaddrEnd % 2 ^ 64 + 4095) % 2 ^ 64 = _
      omega
    rw [toNat_and_pageMask, sum, imageEnd]
  have below : imageEnd appLoad ≤ stackFrameAddr.toNat := by
    rw [imageEnd]
    omega
  rw [launches.eq_entered, elfNextPage]
  exact
    { image := rfl
      paging := le_rfl
      pagingAligned := Nat.dvd_mul_left ..
      order := below
      mapAligned := dvd_stackFrameAddr
      stack := le_rfl
      maps := fun m member => absurd member List.not_mem_nil
      apart := .nil }

/-- An application is entered once its stack is mapped. -/
theorem launches_of_success {appLoad : AppLoadInfo} {s : Launcher} (none : s.task.fileMaps = [])
    (success : (s.setupPageMaps stackFrameAddr (stackSize / 4096)).2 = .success) :
    Launches appLoad
      { dpagingBegin := ((BitVec.ofNat 64 appLoad.vaddrEnd + 4095) &&& 0xfffffffffffff000#64).toNat
        dpagingEnd := ((BitVec.ofNat 64 appLoad.vaddrEnd + 4095) &&& 0xfffffffffffff000#64).toNat
        fileMapEnd := stackFrameAddr.toNat
        fileMaps := [] } := by
  rcases setup : s.setupPageMaps stackFrameAddr (stackSize / 4096) with ⟨s₁, e⟩
  rw [setup] at success
  cases success
  have kept : s₁.task.fileMaps = [] := (fileMaps_of_setup setup).trans none
  refine ⟨s, (s.prepareCall [] appLoad 0).1, [], 0,
    { argc := 0, argv := argsFrameAddr, rip := appLoad.entry,
      rsp := stackFrameAddr + BitVec.ofNat 64 (stackSize - 8) }, none, ?_, ?_⟩
  · rw [prepareCall, setup]
  · rw [prepareCall, setup]
    dsimp only
    rw [kept]

/-! ## One call -/

section

variable {appLoad : AppLoadInfo} {task : AppTask}

theorem Laid.fileMapEnd_lt (laid : Laid appLoad task) : task.fileMapEnd < 2 ^ 64 :=
  laid.stack.trans_lt stackFrameAddr.isLt

theorem Laid.demandPages (laid : Laid appLoad task) {numPages : Nat}
    (room : 4096 * numPages % 2 ^ 64 ≤ task.gap) : Laid appLoad (task.demandPages numPages).1 := by
  have below := laid.fileMapEnd_lt
  have order := laid.order
  have paging := laid.paging
  have aligned := laid.pagingAligned
  have moved : (task.dpagingEnd + 4096 * numPages) % 2 ^ 64 =
      task.dpagingEnd + 4096 * numPages % 2 ^ 64 := by
    rw [gap] at room
    omega
  rw [gap] at room
  constructor
  · exact laid.image
  · change task.dpagingBegin ≤ (task.dpagingEnd + 4096 * numPages) % 2 ^ 64
    omega
  · change 4096 ∣ (task.dpagingEnd + 4096 * numPages) % 2 ^ 64
    omega
  · change (task.dpagingEnd + 4096 * numPages) % 2 ^ 64 ≤ task.fileMapEnd
    omega
  · exact laid.mapAligned
  · exact laid.stack
  · exact laid.maps
  · exact laid.apart

/-- Where a mapping begins. -/
theorem vaddrBegin_mapping {size : Nat} (below : task.fileMapEnd < 2 ^ 64)
    (fits : size ≤ task.fileMapEnd) (fd : Int) :
    (task.mapping fd size).vaddrBegin = (task.fileMapEnd - size) / 4096 * 4096 := by
  have same : (task.fileMapEnd + (2 ^ 64 - size % 2 ^ 64)) % 2 ^ 64 = task.fileMapEnd - size := by
    omega
  rw [mapping, same]

theorem Laid.mapFile (laid : Laid appLoad task) {files : List (Option Nat)} {fd : Int}
    (room : ∀ size, openSize files fd = some size → size ≤ task.gap) :
    Laid appLoad (task.mapFile files fd).1 := by
  rw [AppTask.mapFile]
  cases found : openSize files fd with
  | none => exact laid
  | some size =>
      have fits := room size found
      have order := laid.order
      have paging := laid.paging
      have stack := laid.stack
      have aligned := laid.pagingAligned
      rw [gap] at fits
      have beginEq := vaddrBegin_mapping laid.fileMapEnd_lt (show size ≤ _ by omega) fd
      have lower : task.dpagingEnd ≤ (task.mapping fd size).vaddrBegin := by omega
      have upper : (task.mapping fd size).vaddrBegin ≤ task.fileMapEnd := by omega
      constructor
      · exact laid.image
      · exact paging
      · exact aligned
      · exact lower
      · change 4096 ∣ (task.mapping fd size).vaddrBegin
        rw [beginEq]
        exact Nat.dvd_mul_left ..
      · exact upper.trans stack
      · intro m mem
        rcases List.mem_append.mp mem with old | new
        · exact ⟨upper.trans (laid.maps m old).1, (laid.maps m old).2⟩
        · rw [List.mem_singleton] at new
          subst new
          exact ⟨le_rfl, stack⟩
      · rw [List.pairwise_append]
        refine ⟨laid.apart, List.pairwise_singleton .., ?_⟩
        intro m old new mem
        rw [List.mem_singleton] at mem
        subst mem
        exact (laid.maps m old).1

/-- A call that finds room keeps the order of the regions. -/
theorem Laid.step (laid : Laid appLoad task) {c : MemoryCall} {target : AppTask}
    (step : guarded Calls Room task c target) : Laid appLoad target := by
  rcases step with ⟨room, rfl⟩
  cases c with
  | demandPages numPages => exact laid.demandPages room
  | mapFile files fd => exact laid.mapFile room

/-- A call that finds room moves the regions towards each other. -/
theorem Laid.moves (laid : Laid appLoad task) {c : MemoryCall} {target : AppTask}
    (step : guarded Calls Room task c target) :
    task.dpagingEnd ≤ target.dpagingEnd ∧ target.fileMapEnd ≤ task.fileMapEnd := by
  rcases step with ⟨room, rfl⟩
  have below := laid.fileMapEnd_lt
  have order := laid.order
  cases c with
  | demandPages numPages =>
      constructor
      · change task.dpagingEnd ≤ (task.dpagingEnd + 4096 * numPages) % 2 ^ 64
        change 4096 * numPages % 2 ^ 64 ≤ task.gap at room
        rw [gap] at room
        omega
      · exact le_rfl
  | mapFile files fd =>
      rw [call, AppTask.mapFile]
      cases found : openSize files fd with
      | none => exact ⟨le_rfl, le_rfl⟩
      | some size =>
          have fits : size ≤ task.gap := room size found
          rw [gap] at fits
          have beginEq := vaddrBegin_mapping below (show size ≤ _ by omega) fd
          constructor
          · exact le_rfl
          · change (task.mapping fd size).vaddrBegin ≤ task.fileMapEnd
            omega

/-- Regions in their order do not meet. -/
theorem disjoint_Ico_of_le {a b c d : Nat} (le : b ≤ c) : Disjoint (Set.Ico a b) (Set.Ico c d) := by
  rw [Set.disjoint_left]
  rintro x ⟨-, upper⟩ ⟨lower, -⟩
  omega

theorem disjoint_Iio_of_le {b c d : Nat} (le : b ≤ c) : Disjoint (Set.Iio b) (Set.Ico c d) := by
  rw [Set.disjoint_left]
  rintro x upper ⟨lower, -⟩
  rw [Set.mem_Iio] at upper
  omega

theorem Laid.separate (laid : Laid appLoad task) : Separate appLoad task := by
  have image := laid.image
  have paging := laid.paging
  have order := laid.order
  have stack := laid.stack
  have args : stackFrameAddr.toNat + stackSize = argsFrameAddr.toNat := by decide
  constructor
  · rw [regions, List.append_assoc, List.pairwise_append, List.pairwise_append]
    refine ⟨?_, ⟨?_, ?_, ?_⟩, ?_⟩
    · rw [List.pairwise_pair]
      exact disjoint_Iio_of_le (by omega)
    · rw [List.pairwise_map]
      exact laid.apart.imp fun le => (disjoint_Ico_of_le le).symm
    · rw [List.pairwise_pair]
      exact disjoint_Ico_of_le args.le
    · intro x mem y upper
      rcases List.mem_map.mp mem with ⟨m, inMaps, rfl⟩
      have below := (laid.maps m inMaps).2
      simp only [List.mem_cons, List.not_mem_nil, or_false] at upper
      rcases upper with rfl | rfl
      · exact disjoint_Ico_of_le below
      · exact disjoint_Ico_of_le (by omega)
    · -- every region above the two lowest ones begins at or above `FileMapEnd`
      intro x lowest y mem
      have above : ∃ c d, y = Set.Ico c d ∧ task.fileMapEnd ≤ c := by
        rcases List.mem_append.mp mem with inMaps | upper
        · rcases List.mem_map.mp inMaps with ⟨m, isMap, rfl⟩
          exact ⟨_, _, rfl, (laid.maps m isMap).1⟩
        · simp only [List.mem_cons, List.not_mem_nil, or_false] at upper
          rcases upper with rfl | rfl
          · exact ⟨_, _, rfl, stack⟩
          · exact ⟨_, _, rfl, by omega⟩
      rcases above with ⟨c, d, rfl, le⟩
      simp only [List.mem_cons, List.not_mem_nil, or_false] at lowest
      rcases lowest with rfl | rfl
      · exact disjoint_Iio_of_le (by omega)
      · exact disjoint_Ico_of_le (by omega)
  · exact order

end

/-! ## Runs -/

/-- As long as every call asks for no more than the space between the regions that
grow, no two regions of the application meet, and the two only grow. -/
theorem regions_separate {appLoad : AppLoadInfo} {task : AppTask} (launches : Launches appLoad task)
    (ends : appLoad.vaddrEnd ≤ stackFrameAddr.toNat) {calls : List MemoryCall} {t : AppTask}
    (run : Run (guarded Calls Room) task calls t) :
    Separate appLoad t ∧ ∀ c t', guarded Calls Room t c t' →
      t.dpagingEnd ≤ t'.dpagingEnd ∧ t'.fileMapEnd ≤ t.fileMapEnd := by
  have laid : Laid appLoad t :=
    run.invariant (fun _ _ _ laid step => laid.step step) (launches.laid ends)
  exact ⟨laid.separate, fun c t' step => laid.moves step⟩

/-! ## A small application -/

/-- An image with one page. -/
def onePageApp : AppLoadInfo where
  vaddrEnd := 0xffff800000000800
  entry := 0xffff800000000000#64
  pml4 := 0

/-- The task that enters it. -/
def smallTask : AppTask where
  dpagingBegin := 0xffff800000001000
  dpagingEnd := 0xffff800000001000
  fileMapEnd := 0xfffffffffffef000
  fileMaps := []

theorem launches_smallTask : Launches onePageApp smallTask := by
  have success : ((idleLauncher Machine.smallMachine).setupPageMaps stackFrameAddr
      (stackSize / 4096)).2 = .success := by decide +kernel
  exact launches_of_success rfl success

/-- A page is demanded, and a file of 5000 bytes is mapped. -/
theorem regions_separate_smallTask :
    ∃ t, Run (guarded Calls Room) smallTask [.demandPages 1, .mapFile [none, some 5000] 1] t ∧
      Separate onePageApp t := by
  have run : Run (guarded Calls Room) smallTask [.demandPages 1, .mapFile [none, some 5000] 1]
      ((smallTask.call (.demandPages 1)).call (.mapFile [none, some 5000] 1)) := by
    refine .cons ⟨?_, rfl⟩ (.single ⟨?_, rfl⟩)
    · change 4096 * 1 % 2 ^ 64 ≤ _
      decide
    · rintro size found
      cases found
      decide
  exact ⟨_, run, (regions_separate launches_smallTask (by decide) run).1⟩

/-- A call that demands as many pages as fit into 64 bits moves the end of the
region of demand paging down, into the image. -/
theorem not_separate_manyPages :
    ¬ ∀ (appLoad : AppLoadInfo) (task : AppTask), Launches appLoad task →
      ∀ calls t, Run Calls task calls t → Separate appLoad t ∧ task.dpagingEnd ≤ t.dpagingEnd := by
  intro always
  have run : Run Calls smallTask [.demandPages (2 ^ 52 - 1)]
      (smallTask.call (.demandPages (2 ^ 52 - 1))) := .single rfl
  have moved := (always onePageApp smallTask launches_smallTask _ _ run).2
  revert moved
  decide

end Mikanos.Loader
