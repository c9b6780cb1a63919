import Mikanos.Paging.Ownership
import Mikanos.Paging.Virtual

/-!
# Frames are only handed out

Building and copying page maps, and the kernel's stores, hand out frames but
never give one back, and never change CR3.  This holds whatever the tables
contain.
-/

namespace Mikanos.Paging

open Mikanos.Memory

namespace Machine

/-- `s'` is `s` after some frames have been handed out. -/
structure Allocates (s s' : Machine) : Prop where
  bits : ∀ f, s.frames.getBit f = true → s'.frames.getBit f = true
  rangeBegin : s'.frames.rangeBegin = s.frames.rangeBegin
  rangeEnd : s'.frames.rangeEnd = s.frames.rangeEnd
  cr3 : s'.cr3 = s.cr3

namespace Allocates

variable {s s' s'' : Machine}

theorem refl (s : Machine) : Allocates s s :=
  ⟨fun _ set => set, rfl, rfl, rfl⟩

theorem trans (first : Allocates s s') (last : Allocates s' s'') : Allocates s s'' where
  bits := fun f set => last.bits f (first.bits f set)
  rangeBegin := last.rangeBegin.trans first.rangeBegin
  rangeEnd := last.rangeEnd.trans first.rangeEnd
  cr3 := last.cr3.trans first.cr3

/-- A change of memory only. -/
theorem of_eq (frames : s'.frames = s.frames) (cr3 : s'.cr3 = s.cr3) : Allocates s s' := by
  constructor
  · rw [frames]
    exact fun _ set => set
  · rw [frames]
  · rw [frames]
  · exact cr3

/-- A frame in use stays in use. -/
theorem not_available (allocates : Allocates s s') {f : Nat} (used : ¬ s.frames.Available f) :
    ¬ s'.frames.Available f := by
  rintro ⟨lower, upper, isFree⟩
  apply used
  refine ⟨allocates.rangeBegin ▸ lower, allocates.rangeEnd ▸ upper, ?_⟩
  cases set : s.frames.getBit f with
  | false => rfl
  | true =>
      rw [allocates.bits f set] at isFree
      cases isFree

end Allocates

variable {s : Machine}

theorem allocates_setEntry (s : Machine) (table : Nat) (i : Fin 512) (e : PageMapEntry) :
    Allocates s (s.setEntry table i e) :=
  .of_eq rfl rfl

theorem allocates_newPageMap (s : Machine) : Allocates s s.newPageMap.1 := by
  rcases s.newPageMap_cases with ⟨frame, -, allocated⟩ | ⟨-, failed⟩
  · rw [allocated]
    refine ⟨fun f set => ?_, rfl, rfl, rfl⟩
    by_cases same : f = frame
    · rw [same]
      exact BitmapMemoryManager.getBit_setBit_self ..
    · exact (BitmapMemoryManager.getBit_setBit_of_ne _ _ same).trans set
  · rw [failed]
    exact .refl s

theorem allocates_setNewPageMapIfNotPresent (s : Machine) (table : Nat) (i : Fin 512) :
    Allocates s (s.setNewPageMapIfNotPresent table i).1 := by
  rw [setNewPageMapIfNotPresent]
  split
  · exact .refl s
  · have grows := s.allocates_newPageMap
    split
    · rename_i result
      rwa [result] at grows
    · rename_i result
      rw [result] at grows
      exact (grows.trans (allocates_setEntry ..)).trans (allocates_setEntry ..)

section Setup

variable {descend : Machine → Nat → LinearAddress4Level → Nat → Machine × Nat × Error}

theorem allocates_openEntry (s : Machine) (table : Nat) (i : Fin 512) (writable : Bool) :
    Allocates s (s.openEntry table i writable).1 := by
  have grows := s.allocates_setNewPageMapIfNotPresent table i
  rw [openEntry]
  split
  · rename_i linked
    rwa [linked] at grows
  · rename_i linked
    rw [linked] at grows
    exact grows.trans (allocates_setEntry ..)

theorem allocates_setupEntry
    (descends : ∀ s table addr num4kpages, Allocates s (descend s table addr num4kpages).1)
    (s : Machine) (level : Nat) (writable : Bool) (table : Nat) (addr : LinearAddress4Level)
    (num4kpages : Nat) :
    Allocates s (s.setupEntry descend level writable table addr num4kpages).1 := by
  have opens := s.allocates_openEntry table (addr.part level) (if level = 1 then writable else true)
  rw [setupEntry_eq]
  split
  · rename_i opened
    rwa [opened] at opens
  · rename_i s₁ childMap opened
    rw [opened] at opens
    have grows := descends s₁ childMap addr num4kpages
    split
    · exact opens
    · split
      · rename_i descended
        rw [descended] at grows
        exact opens.trans grows
      · rename_i descended
        rw [descended] at grows
        exact opens.trans grows

theorem allocates_setupPageMapLoop
    (descends : ∀ s table addr num4kpages, Allocates s (descend s table addr num4kpages).1)
    (level : Nat) (writable : Bool) (table fuel : Nat) (s : Machine) (addr : LinearAddress4Level)
    (num4kpages : Nat) :
    Allocates s (setupPageMapLoop descend level writable table fuel s addr num4kpages).1 := by
  induction fuel generalizing s addr num4kpages with
  | zero => exact .refl s
  | succ fuel ih =>
      rw [setupPageMapLoop]
      split
      · exact .refl s
      · have round := allocates_setupEntry descends s level writable table addr num4kpages
        split
        · rename_i entered
          rw [entered] at round
          split
          · exact round
          · exact round.trans (ih ..)
        · rename_i entered
          rwa [entered] at round

end Setup

theorem allocates_setupPageMap (writable : Bool) (level : Nat) (s : Machine) (table : Nat)
    (addr : LinearAddress4Level) (num4kpages : Nat) :
    Allocates s (setupPageMap writable level s table addr num4kpages).1 := by
  induction level generalizing s table addr num4kpages with
  | zero => exact .refl s
  | succ level ih => exact allocates_setupPageMapLoop ih _ _ _ _ _ _ _

/-- `SetupPageMaps` hands out frames only. -/
theorem allocates_setupPageMaps (s : Machine) (addr : LinearAddress4Level) (num4kpages : Nat)
    (writable : Bool) : Allocates s (s.setupPageMaps addr num4kpages writable).1 :=
  allocates_setupPageMap writable 4 s s.cr3 addr num4kpages

theorem allocates_copyLeaves (dest src : Nat) (is : List (Fin 512)) (s : Machine) :
    Allocates s (copyLeaves dest src is s) := by
  induction is generalizing s with
  | nil => exact .refl s
  | cons i rest ih =>
      rw [copyLeaves]
      split
      · exact ((allocates_setEntry ..).trans (allocates_setEntry ..)).trans (ih _)
      · exact ih s

theorem allocates_copyTables {descend : Machine → Nat → Nat → Machine × Option Error}
    (descends : ∀ s dest src, Allocates s (descend s dest src).1) (dest src : Nat)
    (is : List (Fin 512)) (s : Machine) : Allocates s (copyTables descend dest src is s).1 := by
  induction is generalizing s with
  | nil => exact .refl s
  | cons i rest ih =>
      rw [copyTables]
      split
      · have grows := s.allocates_newPageMap
        split
        · rename_i failed
          rwa [failed] at grows
        · rename_i allocated
          rw [allocated] at grows
          exact ((grows.trans (allocates_setEntry ..)).trans (allocates_setEntry ..)).trans
            (descends ..)
      · exact ih s

/-- `CopyPageMaps` hands out frames only. -/
theorem allocates_copyPageMaps (part start : Nat) (s : Machine) (dest src : Nat) :
    Allocates s (copyPageMaps part start s dest src).1 := by
  induction part generalizing start s dest src with
  | zero => exact .refl s
  | succ part ih =>
      cases part with
      | zero =>
          rw [copyPageMaps]
          generalize indices start = is
          exact allocates_copyLeaves dest src is s
      | succ part =>
          rw [copyPageMaps]
          exact allocates_copyTables (fun s dest src => ih 0 s dest src) dest src (indices start) s

/-- The kernel's stores hand out no frame. -/
theorem allocates_memcpy {s' : Machine} {dst : BitVec 64} {src : Mem} {n : Nat}
    (copied : s.memcpy dst src n = some s') : Allocates s s' :=
  .of_eq (memcpy_keeps copied).1 (memcpy_keeps copied).2

end Machine
end Mikanos.Paging
