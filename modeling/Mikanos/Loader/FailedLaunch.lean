import Mikanos.Loader.Launch
import Mikanos.Paging.CopyComplete
import Mikanos.Paging.Growth

/-!
# Launches that fail

A launch that fails undoes nothing.  Once its first page map has been allocated,
CR3 stays at a page map of the failed launch; so a failed launch leaves nothing
behind exactly when that first allocation is what failed.
-/

namespace Mikanos.Loader

open Mikanos.Memory Mikanos.Paging Mikanos.Paging.Machine

namespace Loading

variable {f : ElfFile}

theorem allocates_copySegment {s s' : Machine} {ph : Phdr}
    (copied : copySegment f s ph = some s') : Allocates s s' := by
  rcases Option.bind_eq_some_iff.mp copied with ⟨middle, first, last⟩
  exact (allocates_memcpy first).trans (allocates_memcpy last)

theorem allocates_loadSegment {l l' : Loading} {i : Nat} {e : Error}
    (loaded : loadSegment f l i = some (l', e)) : Allocates l.machine l'.machine := by
  rw [loadSegment] at loaded
  have maps := l.machine.allocates_setupPageMaps (.ofValue (f.phdr i).vaddr)
    (f.phdr i).num4kpages false
  split at loaded
  · rename_i mapped
    rw [mapped] at maps
    rcases Option.map_eq_some_iff.mp loaded with ⟨machine, copied, result⟩
    cases result
    exact maps.trans (allocates_copySegment copied)
  · rename_i mapped
    rw [mapped] at maps
    cases loaded
    exact maps

theorem allocates_copyLoadSegmentsLoop (is : List Nat) {l l' : Loading} {e : Error}
    (loaded : copyLoadSegmentsLoop f is l = some (l', e)) : Allocates l.machine l'.machine := by
  induction is generalizing l with
  | nil =>
      cases loaded
      exact .refl _
  | cons i rest ih =>
      rw [copyLoadSegmentsLoop] at loaded
      split at loaded
      · rcases Option.bind_eq_some_iff.mp loaded with ⟨⟨l₁, e₁⟩, first, others⟩
        have segment := allocates_loadSegment first
        split at others
        · rename_i result
          cases result
          exact segment.trans (ih others)
        · rename_i result
          cases result
          cases others
          exact segment
      · have others := ih loaded
        exact others

/-- `LoadELF` hands out frames only. -/
theorem allocates_loadELF {s : Machine} {l : Loading} {e : Error}
    (loaded : loadELF f s = some (l, e)) : Allocates s l.machine := by
  rw [loadELF] at loaded
  split at loaded
  · cases loaded
    exact .refl s
  · split at loaded
    · cases loaded
      exact .refl s
    · exact allocates_copyLoadSegmentsLoop _ loaded

end Loading

namespace Launcher

/-- What a launch leaves as it was.  An image that has been loaded completely may
stay in `app_loads`, and its tables and pages with it. -/
structure LeavesNothing (key : Nat) (s s' : Launcher) : Prop where
  frames : ∀ f, s'.machine.frames.getBit f = s.machine.frames.getBit f ∨
    ∃ appLoad level, s.appLoads key = none ∧ s'.appLoads key = some appLoad ∧
      Reaches s'.machine appLoad.pml4 level f
  cr3 : s'.machine.cr3 = s.machine.cr3
  files : s'.files = s.files
  appLoads : ∀ other, s'.appLoads other = s.appLoads other ∨ other = key ∧ s.appLoads key = none

/-- CR3 is at a page map that was free before, and everything that was in use
still is. -/
structure Switched (s s' : Launcher) : Prop where
  cr3 : s.machine.frames.Available s'.machine.cr3
  used : ∀ f, ¬ s.machine.frames.Available f → ¬ s'.machine.frames.Available f

variable {s s' : Launcher}

theorem Switched.allocates (switched : Switched s s') {s'' : Launcher}
    (allocates : Allocates s'.machine s''.machine) : Switched s s'' where
  cr3 := allocates.cr3 ▸ switched.cr3
  used := fun f used => allocates.not_available (switched.used f used)

/-- `SetupPML4` switches to a new page map, or there is none and nothing
changes. -/
theorem setupPML4_cases (s : Launcher) :
    (∃ s' pml4, s.setupPML4 = (s', .ok pml4) ∧ Switched s s') ∨
      (∀ f, ¬ s.machine.frames.Available f) ∧ s.setupPML4 = (s, .error .noEnoughMemory) := by
  rcases s.machine.newPageMap_cases with ⟨frame, available, allocated⟩ | ⟨none, failed⟩
  · left
    have grows := s.machine.allocates_newPageMap
    rw [allocated] at grows
    refine ⟨_, frame, by simp only [setupPML4, Machine.setupPML4, allocated]; rfl, available, ?_⟩
    exact fun f used => grows.not_available used
  · right
    constructor
    · exact none
    · simp only [setupPML4, Machine.setupPML4, failed]

theorem Switched.trans {middle : Launcher} (first : Switched s middle)
    (last : Switched middle s') : Switched s s' where
  cr3 := by
    by_contra used
    exact first.used _ used last.cr3
  used := fun f used => last.used f (first.used f used)

theorem withResult_keeps {result : Machine × Option Error} {e : Error}
    (grows : Allocates s.machine result.1) (isResult : s.withResult result = some (s', e)) :
    Allocates s.machine s'.machine ∧ s' = { s with machine := s'.machine } := by
  rcases result with ⟨machine, none | e'⟩
  · cases isResult
  · cases isResult
    exact ⟨grows, rfl⟩

theorem copyPageMaps_keeps {dest src : Nat} {e : Error}
    (copied : s.copyPageMaps dest src = some (s', e)) :
    Allocates s.machine s'.machine ∧ s' = { s with machine := s'.machine } :=
  withResult_keeps (allocates_copyPageMaps 4 256 s.machine dest src) copied

theorem copyApp_keeps {appLoad : AppLoadInfo} {dest : Nat} {result : Except Error AppLoadInfo}
    (copied : s.copyApp appLoad dest = some (s', result)) :
    Allocates s.machine s'.machine ∧ s' = { s with machine := s'.machine } := by
  rw [copyApp] at copied
  rcases Option.map_eq_some_iff.mp copied with ⟨⟨copy, e⟩, copiedMaps, resultEq⟩
  have same : copy = s' := by
    cases e <;> exact congrArg Prod.fst resultEq
  exact same ▸ copyPageMaps_keeps copiedMaps

/-- `LoadApp` switches to a new page map, or there is none and nothing
changes. -/
theorem loadApp_switched {key : Nat} {file : ElfFile} {result : Except Error AppLoadInfo}
    (loaded : s.loadApp key file = some (s', result)) :
    Switched s s' ∨
      (∀ f, ¬ s.machine.frames.Available f) ∧ s' = s ∧ result = .error .noEnoughMemory := by
  rw [loadApp] at loaded
  rcases s.setupPML4_cases with ⟨s₁, pml4, setup, switched⟩ | ⟨none, setup⟩
  · left
    rw [setup] at loaded
    simp only at loaded
    split at loaded
    · exact switched.allocates (copyApp_keeps loaded).1
    · split at loaded
      · cases loaded
        exact switched
      · rcases Option.bind_eq_some_iff.mp loaded with ⟨⟨l, e⟩, loadedElf, rest⟩
        have grows := Loading.allocates_loadELF loadedElf
        split at rest
        · rename_i pair
          cases pair
          set s₂ := ({ s₁ with machine := l.machine } : Launcher).insertApp key
            { vaddrEnd := l.lastAddr, entry := file.eEntry, pml4 } with s₂Eq
          have switched₂ : Switched s s₂ := switched.allocates grows
          rcases s₂.setupPML4_cases with ⟨s₃, pml4', setup', switched₃⟩ | ⟨-, setup'⟩
          · rw [setup'] at rest
            exact (switched₂.trans switched₃).allocates (copyApp_keeps rest).1
          · rw [setup'] at rest
            exact (Prod.mk.inj (Option.some.inj rest)).1 ▸ switched₂
        · rename_i pair
          cases pair
          cases rest
          exact switched.allocates grows
  · right
    rw [setup] at loaded
    cases loaded
    exact ⟨none, rfl, rfl⟩

theorem allocates_pushToArgv {argv argbuf : BitVec 64} {argvLen argbufLen : Nat}
    {a a' : ArgVector} {str : List UInt8} {e : Error}
    (pushed : pushToArgv argv argvLen argbuf argbufLen a str = some (a', e)) :
    Allocates a.machine a'.machine := by
  rw [pushToArgv] at pushed
  split at pushed
  · cases pushed
    exact .refl _
  · rcases Option.bind_eq_some_iff.mp pushed with ⟨middle, first, rest⟩
    rcases Option.map_eq_some_iff.mp rest with ⟨machine, second, result⟩
    cases result
    exact (allocates_memcpy first).trans (allocates_memcpy second)

theorem allocates_pushAllToArgv {argv argbuf : BitVec 64} {argvLen argbufLen : Nat}
    (strs : List (List UInt8)) {a a' : ArgVector} {e : Error}
    (pushed : pushAllToArgv argv argvLen argbuf argbufLen strs a = some (a', e)) :
    Allocates a.machine a'.machine := by
  induction strs generalizing a with
  | nil =>
      cases pushed
      exact .refl _
  | cons str rest ih =>
      rcases Option.bind_eq_some_iff.mp pushed with ⟨⟨a₁, e₁⟩, first, others⟩
      have pushedOne := allocates_pushToArgv first
      split at others
      · rename_i result
        cases result
        exact pushedOne.trans (ih others)
      · rename_i result
        cases result
        cases others
        exact pushedOne

theorem setupPageMaps_keeps {addr : BitVec 64} {num4kpages : Nat} {e : Error}
    (mapped : s.setupPageMaps addr num4kpages = (s', e)) :
    Allocates s.machine s'.machine ∧ s' = { s with machine := s'.machine } := by
  have same : (s.setupPageMaps addr num4kpages).1 = s' := congrArg Prod.fst mapped
  rw [← same]
  exact ⟨s.machine.allocates_setupPageMaps (.ofValue addr) num4kpages true, rfl⟩

theorem allocates_prepareCall {termFiles : List Nat} {appLoad : AppLoadInfo} {argc : Nat}
    {result : Except Error Call}
    (prepared : s.prepareCall termFiles appLoad argc = (s', result)) :
    Allocates s.machine s'.machine := by
  rw [prepareCall] at prepared
  split at prepared
  · rename_i mapped
    cases prepared
    exact (setupPageMaps_keeps mapped).1
  · rename_i mapped
    cases prepared
    exact (setupPageMaps_keeps mapped).1

variable {termFiles : List Nat} {key : Nat} {file : ElfFile} {command : List UInt8}
  {firstArg : Option (List UInt8)} {result : Except Error Call}

/-- `ExecuteFile` switches to a new page map, or there is none and nothing
changes. -/
theorem executeFile_switched
    (executed : s.executeFile termFiles key file command firstArg = some (s', result)) :
    Switched s s' ∨ (∀ f, ¬ s.machine.frames.Available f) ∧ s' = s := by
  rcases Option.bind_eq_some_iff.mp executed with ⟨⟨s₁, loadResult⟩, loaded, rest⟩
  rcases loadApp_switched loaded with switched | ⟨none, rfl, rfl⟩
  · left
    cases loadResult with
    | error e =>
        cases rest
        exact switched
    | ok appLoad =>
        simp only at rest
        split at rest
        · rename_i mapped
          have maps := switched.allocates (setupPageMaps_keeps mapped).1
          rcases Option.map_eq_some_iff.mp rest with ⟨⟨a, e⟩, made, prepared⟩
          have args := allocates_pushAllToArgv _ made
          split at prepared
          · rename_i pair
            cases pair
            have calls := allocates_prepareCall prepared
            exact (maps.allocates args).allocates calls
          · rename_i pair
            cases pair
            cases prepared
            exact maps.allocates args
        · rename_i mapped
          cases rest
          exact switched.allocates (setupPageMaps_keeps mapped).1
  · right
    cases rest
    exact ⟨none, rfl⟩

/-- A launch that fails leaves nothing behind exactly when no frame was free
when it began. -/
theorem leavesNothing_iff (used : ¬ s.machine.frames.Available s.machine.cr3) {e : Error}
    (failed : s.executeFile termFiles key file command firstArg = some (s', .error e)) :
    LeavesNothing key s s' ↔ ∀ f, ¬ s.machine.frames.Available f := by
  constructor
  · rintro ⟨-, cr3, -, -⟩
    rcases executeFile_switched failed with switched | ⟨none, -⟩
    · exact absurd (cr3 ▸ switched.cr3) used
    · exact none
  · intro none
    rcases executeFile_switched failed with switched | ⟨-, same⟩
    · exact absurd switched.cr3 (none _)
    · subst same
      exact ⟨fun f => .inl rfl, rfl, rfl, fun other => .inl rfl⟩

/-! ## A file that is not an executable -/

/-- A machine without a free frame. -/
def exhaustedMachine : Machine :=
  { smallMachine with
    frames := { allocMap := fun _ => true, rangeBegin := 1, rangeEnd := 256 } }

theorem leavesNothing_iff_exhausted :
    LeavesNothing 0 (idleLauncher exhaustedMachine) (idleLauncher exhaustedMachine) ↔
      ∀ f, ¬ exhaustedMachine.frames.Available f := by
  have used : ¬ exhaustedMachine.frames.Available exhaustedMachine.cr3 := by
    rintro ⟨lower, -, -⟩
    exact absurd lower (by decide)
  have failed : (idleLauncher exhaustedMachine).executeFile [] 0 .empty [] none =
      some (idleLauncher exhaustedMachine, .error .noEnoughMemory) := rfl
  exact leavesNothing_iff used failed

/-- The launch of an empty file fails and leaves CR3 at a page map of its own. -/
theorem not_leavesNothing_emptyFile :
    ∃ s', (idleLauncher smallMachine).executeFile [] 0 .empty [] none =
        some (s', .error .invalidFile) ∧
      ¬ LeavesNothing 0 (idleLauncher smallMachine) s' := by
  refine ⟨_, rfl, fun leaves => ?_⟩
  exact absurd leaves.cr3 (by decide)

end Launcher
end Mikanos.Loader
