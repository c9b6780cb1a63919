import Mikanos.Memory.Frames
import Mikanos.Paging.Entry

/-!
# Page maps

The functions of `paging.cpp`, over a physical memory of 4 KiB frames of 512
words each.  The kernel runs in the identity mapping, so it reaches a page map
by its physical address; a page map is named here by its frame.  What the
kernel reads or writes at an application's address goes through the current
page maps, as the processor translates it.
-/

namespace Mikanos.Paging

open Mikanos.Memory

/-- The content of one frame. -/
abbrev Frame := Fin 512 → BitVec 64

/-- Physical memory, the frame allocator and the register CR3. -/
structure Machine where
  mem : Nat → Frame
  frames : BitmapMemoryManager
  cr3 : Nat

namespace Machine

variable (s : Machine)

/-- `table[i]`. -/
def entry (table : Nat) (i : Fin 512) : PageMapEntry :=
  s.mem table i

/-- `table[i] = e`. -/
def setEntry (table : Nat) (i : Fin 512) (e : PageMapEntry) : Machine :=
  { s with mem := Function.update s.mem table (Function.update (s.mem table) i e) }

/-- Overwrite a whole frame. -/
def setFrame (frame : Nat) (content : Frame) : Machine :=
  { s with mem := Function.update s.mem frame content }

/-! ## Building page maps -/

/-- `NewPageMap`. -/
def newPageMap : Machine × Except Error Nat :=
  match s.frames.allocate 1 with
  | (frames, .error e) => ({ s with frames }, .error e)
  | (frames, .ok frame) => ({ s with frames }.setFrame frame fun _ => 0, .ok frame)

/-- `SetNewPageMapIfNotPresent`, on the entry `table[i]`. -/
def setNewPageMapIfNotPresent (table : Nat) (i : Fin 512) : Machine × Except Error Nat :=
  if (s.entry table i).present then
    (s, .ok (s.entry table i).pointer)
  else
    match s.newPageMap with
    | (s, .error e) => (s, .error e)
    | (s, .ok childMap) =>
        let s := s.setEntry table i ((s.entry table i).setPointer childMap)
        let s := s.setEntry table i ((s.entry table i).setPresent true)
        (s, .ok childMap)

/-- One round of the loop of `SetupPageMap` on a non-zero number of pages; the
result is the number of pages that remain. -/
def setupEntry (descend : Machine → Nat → LinearAddress4Level → Nat → Machine × Nat × Error)
    (level : Nat) (writable : Bool) (table : Nat) (addr : LinearAddress4Level) (num4kpages : Nat) :
    Machine × Nat × Error :=
  let entryIndex := addr.part level
  match s.setNewPageMapIfNotPresent table entryIndex with
  | (s, .error e) => (s, num4kpages, e)
  | (s, .ok childMap) =>
      let s := s.setEntry table entryIndex ((s.entry table entryIndex).setUser true)
      if level = 1 then
        let s := s.setEntry table entryIndex ((s.entry table entryIndex).setWritable writable)
        (s, num4kpages - 1, .success)
      else
        let s := s.setEntry table entryIndex ((s.entry table entryIndex).setWritable true)
        match descend s childMap addr num4kpages with
        | (s, remain, .success) => (s, remain, .success)
        | (s, _, e) => (s, num4kpages, e)

/-- The loop of `SetupPageMap`.  Each round moves on to the next entry, and the
round for entry 511 is the last, so `fuel` may be the number of entries left. -/
def setupPageMapLoop (descend : Machine → Nat → LinearAddress4Level → Nat → Machine × Nat × Error)
    (level : Nat) (writable : Bool) (table : Nat) :
    Nat → Machine → LinearAddress4Level → Nat → Machine × Nat × Error
  | 0, s, _, num4kpages => (s, num4kpages, .success)
  | fuel + 1, s, addr, num4kpages =>
      if num4kpages = 0 then (s, num4kpages, .success)
      else
        match s.setupEntry descend level writable table addr num4kpages with
        | (s, remain, .success) =>
            if addr.part level = 511 then (s, remain, .success)
            else
              setupPageMapLoop descend level writable table fuel s
                ((addr.setPart level (addr.part level + 1)).clearBelow level) remain
        | (s, remain, e) => (s, remain, e)

/-- `SetupPageMap`; the result is the number of pages that remain, and an error
code. -/
def setupPageMap (writable : Bool) :
    Nat → Machine → Nat → LinearAddress4Level → Nat → Machine × Nat × Error
  | 0, s, _, _, num4kpages => (s, num4kpages, .success)
  | level + 1, s, table, addr, num4kpages =>
      setupPageMapLoop (setupPageMap writable level) (level + 1) writable table
        (512 - (addr.part (level + 1)).val) s addr num4kpages

/-- `SetupPageMaps`. -/
def setupPageMaps (addr : LinearAddress4Level) (num4kpages : Nat) (writable : Bool) :
    Machine × Error :=
  let (s, _, e) := setupPageMap writable 4 s s.cr3 addr num4kpages
  (s, e)

/-! ## Copying page maps -/

/-- The indices `start .. 511` of a page map, in order. -/
def indices (start : Nat) : List (Fin 512) :=
  (List.finRange 512).filter (start ≤ ·.val)

/-- The loop of `CopyPageMaps` at part 1. -/
def copyLeaves (dest src : Nat) : List (Fin 512) → Machine → Machine
  | [], s => s
  | i :: rest, s =>
      if (s.entry src i).present then
        let s := s.setEntry dest i (s.entry src i)
        let s := s.setEntry dest i ((s.entry dest i).setWritable false)
        copyLeaves dest src rest s
      else copyLeaves dest src rest s

/-- The loop of `CopyPageMaps` at the other parts.  It returns in the round of
the first present entry; without one control reaches the end of the function,
which returns nothing (`none`). -/
def copyTables (descend : Machine → Nat → Nat → Machine × Option Error) (dest src : Nat) :
    List (Fin 512) → Machine → Machine × Option Error
  | [], s => (s, none)
  | i :: rest, s =>
      if (s.entry src i).present then
        match s.newPageMap with
        | (s, .error e) => (s, some e)
        | (s, .ok table) =>
            let s := s.setEntry dest i (s.entry src i)
            let s := s.setEntry dest i ((s.entry dest i).setPointer table)
            descend s table (s.entry src i).pointer
      else copyTables descend dest src rest s

/-- `CopyPageMaps`. -/
def copyPageMaps : Nat → Nat → Machine → Nat → Nat → Machine × Option Error
  | 0, _, s, _, _ => (s, none)
  | 1, start, s, dest, src => (copyLeaves dest src (indices start) s, some .success)
  | part + 2, start, s, dest, src =>
      copyTables (copyPageMaps (part + 1) 0) dest src (indices start) s

/-! ## The processor -/

/-- What the processor finds for an address. -/
structure Translation where
  frame : Nat
  user : Bool
  writable : Bool
  /-- the address lies in a page larger than 4 KiB -/
  large : Bool

/-- The 4 KiB frame of an address inside a 2 MiB or 1 GiB page. -/
def largeFrame (level : Nat) (e : PageMapEntry) (addr : LinearAddress4Level) : Nat :=
  if level = 2 then e.pointer / 512 * 512 + addr.page
  else e.pointer / (512 * 512) * (512 * 512) + addr.dir * 512 + addr.page

/-- The processor's walk through the page maps from a table of some level. -/
def walk (addr : LinearAddress4Level) : Nat → Nat → Option Translation
  | 0, _ => none
  | level + 1, table =>
      let e := s.entry table (addr.part (level + 1))
      if e.present = false then none
      else if level = 0 then
        some { frame := e.pointer, user := e.user, writable := e.writable, large := false }
      else if e.hugePage ∧ level + 1 ≤ 3 then
        some { frame := largeFrame (level + 1) e addr, user := e.user, writable := e.writable,
               large := true }
      else
        (walk addr level e.pointer).map fun t =>
          { t with user := t.user && e.user, writable := t.writable && e.writable }

/-- Translation through the page maps of a given PML4. -/
def translateIn (pml4 : Nat) (addr : LinearAddress4Level) : Option Translation :=
  s.walk addr 4 pml4

/-- Translation through the current page maps. -/
def translate (addr : LinearAddress4Level) : Option Translation :=
  s.translateIn s.cr3 addr

/-! ## Page faults -/

/-- `SetPageContent`. -/
def setPageContent (addr : LinearAddress4Level) (content : Nat) : Nat → Nat → Machine
  | 0, _ => s
  | 1, table =>
      let s := s.setEntry table (addr.part 1) ((s.entry table (addr.part 1)).setPointer content)
      s.setEntry table (addr.part 1) ((s.entry table (addr.part 1)).setWritable true)
  | part + 2, table =>
      setPageContent addr content (part + 1) (s.entry table (addr.part (part + 2))).pointer

/-- `CopyOnePage`; `none` when the kernel itself faults on the page to copy. -/
def copyOnePage (causalAddr : LinearAddress4Level) : Option (Machine × Error) :=
  match s.newPageMap with
  | (s, .error e) => some (s, e)
  | (s, .ok p) =>
      (s.translate causalAddr.aligned).map fun source =>
        let s := s.setFrame p (s.mem source.frame)
        (s.setPageContent causalAddr p 4 s.cr3, .success)

end Machine

/-- `FileMapping`. -/
structure FileMapping where
  fd : Nat
  vaddrBegin : Nat
  vaddrEnd : Nat

/-- The part of a `Task` that page faults and the system calls about memory
use. -/
structure AppTask where
  dpagingBegin : Nat
  dpagingEnd : Nat
  fileMapEnd : Nat
  fileMaps : List FileMapping

namespace Machine

/-- `FindFileMapping`. -/
def findFileMapping (fmaps : List FileMapping) (causalVaddr : Nat) : Option FileMapping :=
  fmaps.find? fun m => m.vaddrBegin ≤ causalVaddr ∧ causalVaddr < m.vaddrEnd

variable (s : Machine)

/-- `PreparePageCache`.  `load` says what `fd.Load(page_cache, 4096, offset)`
makes of a page. -/
def preparePageCache (load : Nat → Nat → Frame → Frame) (m : FileMapping)
    (causalVaddr : LinearAddress4Level) : Option (Machine × Error) :=
  match s.setupPageMaps causalVaddr.aligned 1 true with
  | (s, .success) =>
      (s.translate causalVaddr.aligned).map fun page =>
        let offset := causalVaddr.aligned.value - m.vaddrBegin
        (s.setFrame page.frame (load m.fd offset (s.mem page.frame)), .success)
  | (s, e) => some (s, e)

/-- `HandlePageFault`; `none` when the kernel itself faults. -/
def handlePageFault (task : AppTask) (load : Nat → Nat → Frame → Frame) (errorCode : BitVec 64)
    (causalAddr : LinearAddress4Level) : Option (Machine × Error) :=
  let present := errorCode.getLsbD 0
  let rw := errorCode.getLsbD 1
  let user := errorCode.getLsbD 2
  if present && rw && user then
    s.copyOnePage causalAddr
  else if present then
    some (s, .alreadyAllocated)
  else if task.dpagingBegin ≤ causalAddr.value ∧ causalAddr.value < task.dpagingEnd then
    some (s.setupPageMaps causalAddr 1 true)
  else
    match findFileMapping task.fileMaps causalAddr.value with
    | some m => s.preparePageCache load m causalAddr
    | none => some (s, .indexOutOfRange)

/-! ## The kernel's own page maps -/

/-- The frames of the static tables. -/
structure KernelTables where
  pml4Table : Nat
  pdpTable : Nat
  pageDirectory : Fin 64 → Nat

/-- The inner loop of `SetupIdentityPageTable`: one page directory. -/
def identityDirectory (i : Fin 64) : Frame :=
  fun j => PageMapEntry.entryFor (i.val * (512 * 512) + j.val * 512) 0x083

/-- One round of the outer loop of `SetupIdentityPageTable`. -/
def identityRound (tables : KernelTables) (s : Machine) (i : Fin 64) : Machine :=
  (s.setEntry tables.pdpTable (i.castLE (by decide))
    (PageMapEntry.entryFor (tables.pageDirectory i) 0x003)).setFrame
      (tables.pageDirectory i) (identityDirectory i)

/-- `SetupIdentityPageTable`. -/
def setupIdentityPageTable (tables : KernelTables) : Machine :=
  let s := s.setEntry tables.pml4Table 0 (PageMapEntry.entryFor tables.pdpTable 0x003)
  let s := (List.finRange 64).foldl (identityRound tables) s
  { s with cr3 := tables.pml4Table }

/-- `SetupPML4`; the result is the new PML4, which also becomes current. -/
def setupPML4 : Machine × Except Error Nat :=
  match s.newPageMap with
  | (s, .error e) => (s, .error e)
  | (s, .ok pml4) =>
      let current := s.mem s.cr3
      let s := s.setFrame pml4 fun i => if i.val < 256 then current i else s.mem pml4 i
      ({ s with cr3 := pml4 }, .ok pml4)

/-! ## Frames that are left alone -/

@[simp] theorem frames_setEntry (s : Machine) (table : Nat) (i : Fin 512) (e : PageMapEntry) :
    (s.setEntry table i e).frames = s.frames := rfl

@[simp] theorem cr3_setEntry (s : Machine) (table : Nat) (i : Fin 512) (e : PageMapEntry) :
    (s.setEntry table i e).cr3 = s.cr3 := rfl

@[simp] theorem frames_setFrame (s : Machine) (frame : Nat) (content : Frame) :
    (s.setFrame frame content).frames = s.frames := rfl

@[simp] theorem cr3_setFrame (s : Machine) (frame : Nat) (content : Frame) :
    (s.setFrame frame content).cr3 = s.cr3 := rfl

@[simp]
theorem frames_setPageContent (s : Machine) (addr : LinearAddress4Level) (content part table : Nat) :
    (s.setPageContent addr content part table).frames = s.frames := by
  induction part generalizing table with
  | zero => rfl
  | succ part ih =>
      cases part with
      | zero => rfl
      | succ part => exact ih _

/-- The machine after `NewPageMap` has handed out a frame. -/
def withNewPageMap (s : Machine) (frame : Nat) : Machine :=
  { s with frames := s.frames.setBit frame true }.setFrame frame fun _ => 0

/-- `NewPageMap` takes an available frame and clears it, or there is none and
nothing changes. -/
theorem newPageMap_cases (s : Machine) :
    (∃ frame, s.frames.Available frame ∧
      s.newPageMap = (s.withNewPageMap frame, .ok frame)) ∨
      (∀ frame, ¬ s.frames.Available frame) ∧ s.newPageMap = (s, .error .noEnoughMemory) := by
  rcases s.frames.allocate_one with ⟨frame, available, allocated⟩ | ⟨none, failed⟩
  · left
    refine ⟨frame, available, ?_⟩
    rw [newPageMap, allocated]
    rfl
  · right
    constructor
    · exact none
    · rw [newPageMap, failed]

/-! ## Steps of the processor's walk -/

section Walk

variable {s : Machine} {addr : LinearAddress4Level}

/-- The walk ends at a present entry of level 1. -/
theorem walk_leaf (table : Nat) (present : (s.entry table (addr.part 1)).present = true) :
    s.walk addr 1 table = some
      { frame := (s.entry table (addr.part 1)).pointer
        user := (s.entry table (addr.part 1)).user
        writable := (s.entry table (addr.part 1)).writable
        large := false } := by
  simp [walk, present]

/-- The walk goes on from a present entry that points to a table. -/
theorem walk_table (level table : Nat) (inner : level ≠ 0)
    (present : (s.entry table (addr.part (level + 1))).present = true)
    (notLarge : ¬ ((s.entry table (addr.part (level + 1))).hugePage = true ∧ level + 1 ≤ 3)) :
    s.walk addr (level + 1) table =
      (s.walk addr level (s.entry table (addr.part (level + 1))).pointer).map fun t =>
        { t with
          user := t.user && (s.entry table (addr.part (level + 1))).user
          writable := t.writable && (s.entry table (addr.part (level + 1))).writable } := by
  simp only [walk, present, if_neg inner, if_neg notLarge, Bool.true_eq_false, if_false]

/-- The walk ends at a large page. -/
theorem walk_large (level table : Nat) (inner : level ≠ 0) (upper : level + 1 ≤ 3)
    (present : (s.entry table (addr.part (level + 1))).present = true)
    (large : (s.entry table (addr.part (level + 1))).hugePage = true) :
    s.walk addr (level + 1) table = some
      { frame := largeFrame (level + 1) (s.entry table (addr.part (level + 1))) addr
        user := (s.entry table (addr.part (level + 1))).user
        writable := (s.entry table (addr.part (level + 1))).writable
        large := true } := by
  simp only [walk, present, if_neg inner, Bool.true_eq_false, if_false, if_pos (And.intro large upper)]

/-- The walk stops at an entry that is not present. -/
theorem walk_absent (level table : Nat)
    (absent : (s.entry table (addr.part (level + 1))).present = false) :
    s.walk addr (level + 1) table = none := by
  simp only [walk, absent, if_true]

end Walk

end Machine

end Mikanos.Paging
