import Mikanos.Paging.Tables
import Mathlib.Data.List.Induction
import Mathlib.Tactic.Set

/-!
# Write faults of applications

`HandlePageFault` takes every fault with the bits present, write and user for a
write to a copy-on-write page.  It looks at no page-map entry before it
allocates a frame and stores into the tables, so a write to a kernel page is
rejected only when the allocation fails.
-/

namespace Mikanos.Paging

open Mikanos.Memory

namespace Machine

variable {s : Machine}

/-! ## Faults -/

/-- An address in a 4 KiB page that the application may access. -/
def UserPage (s : Machine) (addr : LinearAddress4Level) : Prop :=
  ∃ t, s.translate addr = some t ∧ t.user = true ∧ t.large = false

/-- `HandlePageFault` returns an error and changes nothing: no frame is
allocated, and no word of memory is written. -/
def Rejects (s : Machine) (task : AppTask) (load : Nat → Nat → Frame → Frame)
    (errorCode : BitVec 64) (addr : LinearAddress4Level) : Prop :=
  ∃ e, e ≠ .success ∧ s.handlePageFault task load errorCode addr = some (s, e)

/-- The error code of a user-mode write to a page that is present. -/
def PresentWriteUser (errorCode : BitVec 64) : Prop :=
  errorCode.getLsbD 0 = true ∧ errorCode.getLsbD 1 = true ∧ errorCode.getLsbD 2 = true

theorem handlePageFault_of_presentWriteUser {errorCode : BitVec 64}
    (bits : PresentWriteUser errorCode) (task : AppTask) (load : Nat → Nat → Frame → Frame)
    (addr : LinearAddress4Level) :
    s.handlePageFault task load errorCode addr = s.copyOnePage addr := by
  rcases bits with ⟨present, write, user⟩
  simp only [handlePageFault, present, write, user, Bool.and_self, if_true]

/-- `CopyOnePage` keeps the machine exactly when it finds no frame. -/
theorem copyOnePage_eq_self_iff (s : Machine) (addr : LinearAddress4Level) :
    (∃ e, e ≠ .success ∧ s.copyOnePage addr = some (s, e)) ↔
      ∀ frame, ¬ s.frames.Available frame := by
  rcases s.newPageMap_cases with ⟨frame, available, allocated⟩ | ⟨none, failed⟩
  · constructor
    · rintro ⟨e, notSuccess, result⟩
      simp only [copyOnePage, allocated, Option.map_eq_some_iff, Prod.mk.injEq] at result
      rcases result with ⟨-, -, -, rfl⟩
      exact absurd rfl notSuccess
    · intro none
      exact absurd available (none frame)
  · constructor
    · exact fun _ => none
    · intro _
      refine ⟨.noEnoughMemory, by decide, ?_⟩
      rw [copyOnePage, failed]

/-- A write fault is rejected exactly when the memory manager has no frame
left, whatever page the address lies in. -/
theorem rejects_iff (s : Machine) (task : AppTask) (load : Nat → Nat → Frame → Frame)
    {errorCode : BitVec 64} (bits : PresentWriteUser errorCode) (addr : LinearAddress4Level) :
    s.Rejects task load errorCode addr ↔ ∀ frame, ¬ s.frames.Available frame := by
  rw [Rejects, handlePageFault_of_presentWriteUser bits, copyOnePage_eq_self_iff]

/-! ## The identity mapping -/

/-- The lower half of a PML4 is the kernel's identity mapping. -/
structure Identity (s : Machine) (tables : KernelTables) (pml4 : Nat) : Prop where
  top : s.entry pml4 0 = PageMapEntry.entryFor tables.pdpTable 0x003
  pdp : ∀ i : Fin 64, s.entry tables.pdpTable (i.castLE (by decide)) =
    PageMapEntry.entryFor (tables.pageDirectory i) 0x003
  directory : ∀ i, s.mem (tables.pageDirectory i) = identityDirectory i

/-- Distinct static tables within the physical address space. -/
structure KernelTables.Distinct (tables : KernelTables) : Prop where
  pml4_ne_pdp : tables.pml4Table ≠ tables.pdpTable
  directory_ne_pml4 : ∀ i, tables.pageDirectory i ≠ tables.pml4Table
  directory_ne_pdp : ∀ i, tables.pageDirectory i ≠ tables.pdpTable
  injective : Function.Injective tables.pageDirectory
  pdp_lt : tables.pdpTable < 2 ^ 40
  directory_lt : ∀ i, tables.pageDirectory i < 2 ^ 40

theorem identityRounds {tables : KernelTables} (distinct : tables.Distinct) (s : Machine)
    (done : List (Fin 64)) :
    let s' := done.foldl (identityRound tables) s
    s'.mem tables.pml4Table = s.mem tables.pml4Table ∧
      ∀ i ∈ done, s'.entry tables.pdpTable (i.castLE (by decide)) =
          PageMapEntry.entryFor (tables.pageDirectory i) 0x003 ∧
        s'.mem (tables.pageDirectory i) = identityDirectory i := by
  induction done using List.reverseRecOn with
  | nil => exact ⟨rfl, by simp⟩
  | append_singleton done last ih =>
      rw [List.foldl_append]
      rcases ih with ⟨top, rounds⟩
      constructor
      · rw [← top]
        simp [identityRound, setFrame, setEntry,
          Function.update_of_ne (Ne.symm (distinct.directory_ne_pml4 last)),
          Function.update_of_ne distinct.pml4_ne_pdp]
      · intro i member
        by_cases isLast : i = last
        · subst isLast
          constructor
          · simp [identityRound, setFrame, setEntry, entry,
              Function.update_of_ne (Ne.symm (distinct.directory_ne_pdp i))]
          · simp [identityRound, setFrame]
        · have earlier : i ∈ done := by simpa [isLast] using member
          rcases rounds i earlier with ⟨pdp, directory⟩
          have index : (i.castLE (by decide) : Fin 512) ≠ last.castLE (by decide) := by
            intro same
            exact isLast (by simpa [Fin.ext_iff] using same)
          have frame : tables.pageDirectory i ≠ tables.pageDirectory last := by
            intro same
            exact isLast (distinct.injective same)
          constructor
          · rw [← pdp]
            simp [identityRound, setFrame, setEntry, entry,
              Function.update_of_ne (Ne.symm (distinct.directory_ne_pdp last)),
              Function.update_of_ne index]
          · rw [← directory]
            simp [identityRound, setFrame, setEntry, Function.update_of_ne frame,
              Function.update_of_ne (distinct.directory_ne_pdp i)]

/-- `SetupIdentityPageTable` establishes the identity mapping. -/
theorem identity_setupIdentityPageTable {tables : KernelTables} (distinct : tables.Distinct)
    (s : Machine) :
    Identity (s.setupIdentityPageTable tables) tables (s.setupIdentityPageTable tables).cr3 := by
  rcases identityRounds distinct
    (s.setEntry tables.pml4Table 0 (PageMapEntry.entryFor tables.pdpTable 0x003))
    (List.finRange 64) with ⟨top, rounds⟩
  constructor
  · have row := congrFun top 0
    simp only [setEntry, Function.update_self] at row
    exact row
  · intro i
    exact (rounds i (List.mem_finRange i)).1
  · intro i
    exact (rounds i (List.mem_finRange i)).2

/-- `SetupPML4` passes the identity mapping on to the new PML4. -/
theorem identity_setupPML4 {s s' : Machine} {tables : KernelTables} {pml4 : Nat}
    (identity : Identity s tables s.cr3) (used : ¬ s.frames.Available tables.pdpTable)
    (usedDirectory : ∀ i, ¬ s.frames.Available (tables.pageDirectory i))
    (usedCurrent : ¬ s.frames.Available s.cr3) (setup : s.setupPML4 = (s', .ok pml4)) :
    Identity s' tables s'.cr3 := by
  rcases s.newPageMap_cases with ⟨frame, available, allocated⟩ | ⟨-, failed⟩
  · rw [setupPML4, allocated] at setup
    cases setup
    have pdpNe : tables.pdpTable ≠ pml4 := by
      rintro rfl
      exact used available
    have directoryNe : ∀ i, tables.pageDirectory i ≠ pml4 := by
      rintro i rfl
      exact usedDirectory i available
    have currentNe : s.cr3 ≠ pml4 := by
      intro same
      exact usedCurrent (same ▸ available)
    constructor
    · rw [← identity.top]
      simp [entry, setFrame, withNewPageMap, Function.update_of_ne currentNe]
    · intro i
      rw [← identity.pdp i]
      simp [entry, setFrame, withNewPageMap, Function.update_of_ne pdpNe]
    · intro i
      rw [← identity.directory i]
      simp [setFrame, withNewPageMap, Function.update_of_ne (directoryNe i)]
  · rw [setupPML4, failed] at setup
    cases setup

/-- The identity mapping maps the first 64 GiB to themselves, in large pages of
the kernel. -/
theorem translate_of_identity {s : Machine} {tables : KernelTables} (distinct : tables.Distinct)
    (identity : Identity s tables s.cr3) (addr : LinearAddress4Level) (low : addr.pml4 = 0)
    (inside : addr.pdp.val < 64) :
    s.translate addr = some
      { frame := addr.pdp * (512 * 512) + addr.dir * 512 + addr.page
        user := false, writable := true, large := true } := by
  set i : Fin 64 := ⟨addr.pdp.val, inside⟩ with iEq
  have top : s.entry s.cr3 (addr.part 4) = PageMapEntry.entryFor tables.pdpTable 0x003 := by
    rw [show addr.part 4 = 0 from low]
    exact identity.top
  have pdp : s.entry tables.pdpTable (addr.part 3) =
      PageMapEntry.entryFor (tables.pageDirectory i) 0x003 :=
    identity.pdp i
  have directory : s.entry (tables.pageDirectory i) (addr.part 2) =
      PageMapEntry.entryFor (addr.pdp * (512 * 512) + addr.dir * 512) 0x083 := by
    rw [entry, identity.directory]
    rfl
  have flag := PageMapEntry.getLsbD_entryFor
  have pointers := PageMapEntry.pointer_entryFor
  have large : addr.pdp.val * (512 * 512) + addr.dir.val * 512 < 2 ^ 40 := by
    have := addr.dir.isLt
    omega
  rw [translate, translateIn, walk_table _ _ (by decide) (by rw [top]; exact flag _ _ 0 (by decide))
      (by simp), top, pointers _ _ distinct.pdp_lt,
    walk_table _ _ (by decide) (by rw [pdp]; exact flag _ _ 0 (by decide))
      (by rintro ⟨huge, -⟩; rw [pdp] at huge; exact absurd huge (by
        rw [PageMapEntry.hugePage, flag _ _ 7 (by decide)]; decide)),
    pdp, pointers _ _ (distinct.directory_lt i),
    walk_large _ _ (by decide) (by decide) (by rw [directory]; exact flag _ _ 0 (by decide))
      (by rw [directory]; exact flag _ _ 7 (by decide)), directory]
  have user : ∀ frame, (PageMapEntry.entryFor frame 0x083).user = false :=
    fun frame => flag frame _ 2 (by decide)
  have writable : ∀ frame, (PageMapEntry.entryFor frame 0x083).writable = true :=
    fun frame => flag frame _ 1 (by decide)
  have writable' : ∀ frame, (PageMapEntry.entryFor frame 0x003).writable = true :=
    fun frame => flag frame _ 1 (by decide)
  have frameEq : largeFrame (1 + 1)
      (PageMapEntry.entryFor (addr.pdp * (512 * 512) + addr.dir * 512) 0x083) addr =
        addr.pdp * (512 * 512) + addr.dir * 512 + addr.page := by
    rw [largeFrame, if_pos rfl, pointers _ _ large]
    omega
  rw [Option.map_some, Option.map_some, user, writable, writable', writable', frameEq]
  rfl

/-! ## A write to a kernel page -/

/-- The page-table states that the kernel builds. -/
inductive Built (tables : KernelTables) : Machine → Prop
  | identity (s : Machine) : Built tables (s.setupIdentityPageTable tables)
  | pml4 {s s' : Machine} {pml4 : Nat} :
      Built tables s → s.setupPML4 = (s', .ok pml4) → Built tables s'
  | pageMaps {s : Machine} (addr : LinearAddress4Level) (num4kpages : Nat) (writable : Bool) :
      Built tables s → Built tables (s.setupPageMaps addr num4kpages writable).1
  | copied {s s' : Machine} {dest src : Nat} {e : Error} :
      Built tables s → copyPageMaps 4 256 s dest src = (s', some e) → Built tables s'

@[simp]
theorem frames_setupIdentityPageTable (s : Machine) (tables : KernelTables) :
    (s.setupIdentityPageTable tables).frames = s.frames := by
  have rounds : ∀ (l : List (Fin 64)) (s : Machine),
      (l.foldl (identityRound tables) s).frames = s.frames := by
    intro l
    induction l with
    | nil => exact fun _ => rfl
    | cons i l ih =>
        intro s
        rw [List.foldl_cons, ih]
        rfl
  simp only [setupIdentityPageTable, rounds, frames_setEntry]

/-- A machine with 256 frames; the kernel's image and tables take up the first
half. -/
def smallMachine : Machine where
  mem := fun _ _ => 0
  frames := { allocMap := fun frame => frame < 128, rangeBegin := 1, rangeEnd := 256 }
  cr3 := 0

def smallTables : KernelTables where
  pml4Table := 16
  pdpTable := 17
  pageDirectory := fun i => 18 + i.val

theorem distinct_smallTables : smallTables.Distinct where
  pml4_ne_pdp := by decide
  directory_ne_pml4 := by decide
  directory_ne_pdp := by decide
  injective := by
    intro i j same
    exact Fin.ext (Nat.add_left_cancel same)
  pdp_lt := by decide
  directory_lt := by decide

/-- The address that `fault wr_kernel` writes to. -/
def wrKernel : LinearAddress4Level :=
  .ofValue 0x100

/-- A machine without a free frame rejects the write of `fault wr_kernel`. -/
theorem rejects_iff_exhausted :
    ({ smallMachine with
        frames := { allocMap := fun _ => true, rangeBegin := 1, rangeEnd := 256 } } : Machine).Rejects
      ⟨0, 0, 0, []⟩ (fun _ _ page => page) 7 wrKernel := by
  apply (rejects_iff _ _ _ ⟨rfl, rfl, rfl⟩ wrKernel).mpr
  rintro frame ⟨-, -, isFree⟩
  cases isFree

/-- The write of `fault wr_kernel` is not rejected, although it goes to a large
page of the kernel. -/
theorem not_rejects_wrKernel :
    ¬ ∀ tables s task load addr, Built tables s → ¬ s.UserPage addr →
      s.Rejects task load 7 addr := by
  intro always
  set s₀ := smallMachine.setupIdentityPageTable smallTables with s₀Eq
  have frames : s₀.frames = smallMachine.frames := frames_setupIdentityPageTable _ _
  have used : ∀ frame, frame < 128 → ¬ s₀.frames.Available frame := by
    rintro frame low ⟨-, -, isFree⟩
    rw [frames] at isFree
    simp [BitmapMemoryManager.getBit, smallMachine] at isFree
    omega
  have unused : ∀ frame, 128 ≤ frame → frame < 256 → s₀.frames.Available frame := by
    intro frame lower upper
    rw [frames]
    refine ⟨?_, upper, ?_⟩
    · change 1 ≤ frame
      omega
    · simp [BitmapMemoryManager.getBit, smallMachine]
      omega
  cases setup : s₀.setupPML4 with
  | mk s result =>
      rcases s₀.newPageMap_cases with ⟨pml4, available, allocated⟩ | ⟨none, -⟩
      · rw [setupPML4, allocated] at setup
        have resultEq : result = .ok pml4 := (congrArg Prod.snd setup).symm
        have framesEq : s.frames = s₀.frames.setBit pml4 true :=
          congrArg (fun r => r.1.frames) setup.symm
        subst resultEq
        have setup' : s₀.setupPML4 = (s, .ok pml4) := by
          rw [setupPML4, allocated]
          exact setup
        have identity : Identity s smallTables s.cr3 :=
          identity_setupPML4 (identity_setupIdentityPageTable distinct_smallTables smallMachine)
            (used 17 (by decide)) (fun i => used (18 + i.val) (by omega)) (used 16 (by decide))
            setup'
        have kernelPage : ¬ s.UserPage wrKernel := by
          rintro ⟨t, translated, user, -⟩
          rw [translate_of_identity distinct_smallTables identity wrKernel rfl (by decide)]
            at translated
          rw [← Option.some.inj translated] at user
          cases user
        have rejects := always smallTables s ⟨0, 0, 0, []⟩ (fun _ _ page => page) wrKernel
          (.pml4 (.identity smallMachine) setup') kernelPage
        rw [Rejects, handlePageFault_of_presentWriteUser ⟨rfl, rfl, rfl⟩, copyOnePage_eq_self_iff,
          framesEq] at rejects
        have another : ∃ frame, frame ≠ pml4 ∧ 128 ≤ frame ∧ frame < 256 := by
          by_cases first : pml4 = 128
          · exact ⟨129, by omega, by decide, by decide⟩
          · exact ⟨128, Ne.symm first, by decide, by decide⟩
        rcases another with ⟨frame, ne, lower, upper⟩
        rcases unused frame lower upper with ⟨fromBegin, toEnd, isFree⟩
        exact rejects frame ⟨fromBegin, toEnd,
          (BitmapMemoryManager.getBit_setBit_of_ne _ true ne).trans isFree⟩
      · exact none 128 (unused 128 (by decide) (by decide))

end Machine

end Mikanos.Paging
