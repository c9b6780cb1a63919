import Mikanos.Loader.Launch
import Mikanos.Paging.Fault

/-!
# What the ELF loader touches

The loader checks the address of the first segment only.  This file says exactly
which files it loads without touching anything but the upper half of the address
space and the bytes of the file: those whose every program header is inside the
file and describes a segment that stays inside both.
-/

namespace Mikanos.Loader

open Mikanos.Memory Mikanos.Paging Mikanos.Paging.Machine

/-- The address of a page, given the number of the page among the pages that the
parts of a linear address select. -/
def pageAddress (page : Nat) : Nat :=
  4096 * page + if 2 ^ 35 ≤ page then 0xffff000000000000 else 0

/-- The access stays in the file, or in the upper half of the address space.
`SetupPageMaps` stops at the last page. -/
def Access.Confined (size : Nat) : Access → Prop
  | .read offset n => ∀ k < n, (offset + k) % 2 ^ 64 < size
  | .map addr num4kpages => ∀ k < num4kpages, addr.toNat % 2 ^ 48 / 4096 + k < 2 ^ 36 →
      appBase.toNat ≤ pageAddress (addr.toNat % 2 ^ 48 / 4096 + k)
  | .store addr n => ∀ k < n, appBase.toNat ≤ (addr.toNat + k) % 2 ^ 64

/-- A segment inside the upper half, with its content inside the file. -/
structure Phdr.Confined (size : Nat) (ph : Phdr) : Prop where
  filesz_le : ph.filesz.toNat ≤ ph.memsz.toNat
  memory : ph.memsz = 0 ∨
    appBase.toNat ≤ ph.vaddr.toNat ∧ ph.vaddr.toNat + ph.memsz.toNat ≤ 2 ^ 64
  content : ph.filesz = 0 ∨ ph.offset.toNat + ph.filesz.toNat ≤ size

/-- Every program header is inside the file and describes a confined segment. -/
structure ElfFile.Confined (f : ElfFile) : Prop where
  header : 58 ≤ f.size
  table : ∀ i < f.ePhnum,
    f.phdrOffset i + (if (f.phdr i).type = ptLoad then 48 else 4) ≤ f.size
  segment : ∀ i < f.ePhnum, (f.phdr i).type = ptLoad → (f.phdr i).Confined f.size

/-! ## Ranges -/

/-- A range that wraps around reaches address 0. -/
theorem range_above_iff {bound a n : Nat} (a_lt : a < 2 ^ 64) (pos : 0 < bound) :
    (∀ k < n, bound ≤ (a + k) % 2 ^ 64) ↔ n = 0 ∨ bound ≤ a ∧ a + n ≤ 2 ^ 64 := by
  constructor
  · intro above
    rcases Nat.eq_zero_or_pos n with none | some
    · exact .inl none
    · right
      have first := above 0 some
      constructor
      · omega
      · by_contra wraps
        have := above (2 ^ 64 - a) (by omega)
        omega
  · rintro (none | ⟨lower, upper⟩) k below
    · omega
    · omega

/-- A range that leaves the file reaches the byte after its end. -/
theorem range_below_iff {size a n : Nat} (size_lt : size < 2 ^ 32) :
    (∀ k < n, (a + k) % 2 ^ 64 < size) ↔ n = 0 ∨ a % 2 ^ 64 + n ≤ size := by
  constructor
  · intro below
    rcases Nat.eq_zero_or_pos n with none | some
    · exact .inl none
    · right
      have first := below 0 some
      by_contra leaves
      have := below (size - a % 2 ^ 64) (by omega)
      omega
  · rintro (none | inside) k below
    · omega
    · omega

/-- The accesses of one segment to its addresses and to its content. -/
theorem copyAccesses_confined_iff {size : Nat} (size_lt : size < 2 ^ 32) (ph : Phdr) :
    (∀ a ∈ Loading.copyAccesses ph, a.Confined size) ↔ ph.Confined size := by
  have base : appBase.toNat = 0xffff800000000000 := rfl
  have vaddr_lt := ph.vaddr.isLt
  have filesz_lt := ph.filesz.isLt
  have memsz_lt := ph.memsz.isLt
  have offset_lt := ph.offset.isLt
  have zero (x : BitVec 64) : x = 0 ↔ x.toNat = 0 := by
    rw [← BitVec.toNat_inj]
    rfl
  simp only [Loading.copyAccesses, List.mem_cons, List.not_mem_nil, or_false, forall_eq_or_imp,
    forall_eq, Access.Confined, range_below_iff size_lt, range_above_iff (BitVec.isLt _)
    (show 0 < appBase.toNat by decide), BitVec.toNat_add, BitVec.toNat_sub]
  constructor
  · rintro ⟨content, copied, cleared⟩
    constructor
    · by_contra larger
      omega
    · rw [zero]
      omega
    · rw [zero]
      omega
  · rintro ⟨filesz_le, memory, content⟩
    rw [zero] at memory content
    omega

/-! ## The accesses of a load -/

namespace Loading

variable {f : ElfFile}

/-- The accesses made for program header `i`. -/
def headerAccesses (f : ElfFile) (i : Nat) : List Access :=
  .read (f.phdrOffset i) 4 ::
    if (f.phdr i).type = ptLoad then
      [.read (f.phdrOffset i + 8) 16, .read (f.phdrOffset i + 32) 16,
        .map (f.phdr i).vaddr (f.phdr i).num4kpages] ++ copyAccesses (f.phdr i)
    else
      []

theorem accesses_loadSegment {l l' : Loading} {i : Nat}
    (loaded : loadSegment f l i = some (l', .success)) :
    l'.accesses = l.accesses ++
      ([.read (f.phdrOffset i + 8) 16, .read (f.phdrOffset i + 32) 16,
        .map (f.phdr i).vaddr (f.phdr i).num4kpages] ++ copyAccesses (f.phdr i)) := by
  rw [loadSegment] at loaded
  split at loaded
  · rcases Option.map_eq_some_iff.mp loaded with ⟨machine, -, result⟩
    cases result
    exact List.append_assoc ..
  · rename_i failed _
    cases loaded
    exact absurd rfl failed

/-- A loop that succeeds has made the accesses for all its headers. -/
theorem accesses_copyLoadSegmentsLoop (is : List Nat) {l l' : Loading}
    (loaded : copyLoadSegmentsLoop f is l = some (l', .success)) :
    l'.accesses = l.accesses ++ is.flatMap (headerAccesses f) := by
  induction is generalizing l with
  | nil =>
      cases loaded
      rw [List.flatMap_nil, List.append_nil]
  | cons i rest ih =>
      rw [copyLoadSegmentsLoop] at loaded
      rw [List.flatMap_cons, headerAccesses]
      by_cases isLoad : (f.phdr i).type = ptLoad
      · rw [if_pos isLoad] at loaded
        rw [if_pos isLoad]
        rcases Option.bind_eq_some_iff.mp loaded with ⟨⟨l₁, e⟩, first, others⟩
        cases e with
        | success =>
            rw [ih others, accesses_loadSegment first]
            simp only [List.append_assoc, List.cons_append, List.nil_append]
        | _ => cases others
      · rw [if_neg isLoad] at loaded
        rw [if_neg isLoad, ih loaded, List.append_assoc, List.cons_append]

theorem accesses_loadELF {s : Machine} {l : Loading}
    (loaded : loadELF f s = some (l, .success)) :
    l.accesses = [.read 32 8, .read 56 2] ++ (List.range f.ePhnum).flatMap (headerAccesses f) := by
  rw [loadELF] at loaded
  split at loaded
  · cases loaded
  · split at loaded
    · cases loaded
    · exact accesses_copyLoadSegmentsLoop _ loaded

/-- The pages of a confined segment are in the upper half. -/
theorem map_confined {size : Nat} {ph : Phdr} (confined : ph.Confined size) :
    (Access.map ph.vaddr ph.num4kpages).Confined size := by
  intro k below inside
  have base : appBase.toNat = 0xffff800000000000 := rfl
  have vaddr_lt := ph.vaddr.isLt
  rcases confined.memory with empty | ⟨lower, -⟩
  · rw [Phdr.num4kpages, empty] at below
    exact absurd below (Nat.not_lt_zero k)
  · rw [pageAddress]
    split <;> omega

end Loading

namespace ElfFile

open Loading

variable (f : ElfFile)

theorem ePhnum_lt : f.ePhnum < 2 ^ 16 :=
  Mem.load_lt ..

theorem ePhoff_lt : f.ePhoff < 2 ^ 64 :=
  Mem.load_lt ..

theorem read_confined_iff {offset n : Nat} (offset_lt : offset < 2 ^ 63) (some : 0 < n) :
    (Access.read offset n).Confined f.size ↔ offset + n ≤ f.size := by
  have := f.size_lt
  rw [Access.Confined, range_below_iff f.size_lt]
  omega

/-- The accesses for one program header. -/
theorem headerAccesses_confined_iff {i : Nat} (inTable : f.phdrOffset i < 2 ^ 62) :
    (∀ a ∈ headerAccesses f i, a.Confined f.size) ↔
      f.phdrOffset i + (if (f.phdr i).type = ptLoad then 48 else 4) ≤ f.size ∧
        ((f.phdr i).type = ptLoad → (f.phdr i).Confined f.size) := by
  rw [headerAccesses, List.forall_mem_cons, f.read_confined_iff (by omega) (by decide)]
  by_cases isLoad : (f.phdr i).type = ptLoad
  · rw [if_pos isLoad, if_pos isLoad, List.cons_append, List.cons_append, List.cons_append,
      List.nil_append, List.forall_mem_cons, List.forall_mem_cons, List.forall_mem_cons,
      f.read_confined_iff (by omega) (by decide), f.read_confined_iff (by omega) (by decide),
      copyAccesses_confined_iff f.size_lt]
    constructor
    · rintro ⟨-, -, last, -, confined⟩
      exact ⟨by omega, fun _ => confined⟩
    · rintro ⟨inside, confined⟩
      exact ⟨by omega, by omega, by omega, map_confined (confined isLoad), confined isLoad⟩
  · rw [if_neg isLoad, if_neg isLoad]
    constructor
    · rintro ⟨inside, -⟩
      exact ⟨inside, fun load => absurd load isLoad⟩
    · rintro ⟨inside, -⟩
      exact ⟨inside, by rintro a ⟨⟩⟩

/-- Loading a file stays in the file and in the upper half of the address space
exactly when every program header is inside the file and describes a segment
that stays inside both. -/
theorem loadELF_confined_iff {s : Machine} {l : Loading}
    (loaded : loadELF f s = some (l, .success)) :
    (∀ a ∈ l.accesses, a.Confined f.size) ↔ f.Confined := by
  have phoff_lt := f.ePhoff_lt
  have phnum_lt := f.ePhnum_lt
  have size_lt := f.size_lt
  rw [accesses_loadELF loaded, List.cons_append, List.cons_append, List.nil_append,
    List.forall_mem_cons, List.forall_mem_cons, f.read_confined_iff (by decide) (by decide),
    f.read_confined_iff (by decide) (by decide)]
  constructor
  · rintro ⟨phoff, phnum, headers⟩
    have header (i : Nat) (inTable : i < f.ePhnum) : ∀ a ∈ headerAccesses f i, a.Confined f.size :=
      fun a member => headers a (List.mem_flatMap.mpr ⟨i, List.mem_range.mpr inTable, member⟩)
    -- the first header bounds the offset of the table, so that no offset wraps around
    have start (some : 0 < f.ePhnum) : f.ePhoff < 2 ^ 32 := by
      have first := header 0 some (.read (f.phdrOffset 0) 4) (List.mem_cons_self ..) 0 (by decide)
      rw [phdrOffset] at first
      omega
    have entry (i : Nat) (inTable : i < f.ePhnum) :=
      (f.headerAccesses_confined_iff (i := i) (by
        have := start (by omega)
        rw [phdrOffset]
        omega)).mp (header i inTable)
    exact ⟨phnum, fun i inTable => (entry i inTable).1, fun i inTable => (entry i inTable).2⟩
  · rintro ⟨header, table, segment⟩
    refine ⟨by omega, header, ?_⟩
    intro a member
    rcases List.mem_flatMap.mp member with ⟨i, inRange, member⟩
    have inTable := List.mem_range.mp inRange
    have inside := table i inTable
    exact (f.headerAccesses_confined_iff (by omega)).mpr ⟨inside, segment i inTable⟩ a member

end ElfFile

/-! ## Launches -/

namespace Launcher

open Loading

/-- `LoadApp` accepts the file. -/
def accepts (s : Launcher) (key : Nat) (file : ElfFile) : Bool :=
  match s.loadApp key file with
  | some (_, .ok _) => true
  | _ => false

/-- What `CopyLoadSegments` accesses during `LoadApp`; it is not called for an
executable that is in `app_loads`. -/
def loadAccesses (s : Launcher) (key : Nat) (file : ElfFile) : List Access :=
  match s.appLoads key with
  | some _ => []
  | none => (loadELF file s.setupPML4.1.machine).elim [] (·.1.accesses)

/-- A file that is not in `app_loads` is accepted only if it has been loaded. -/
theorem loaded_of_accepts {s : Launcher} {key : Nat} {file : ElfFile}
    (accepted : s.accepts key file = true) (fresh : s.appLoads key = none) :
    ∃ l, loadELF file s.setupPML4.1.machine = some (l, .success) := by
  rw [accepts] at accepted
  split at accepted
  · rename_i appLoad app
    rw [loadApp] at app
    split at app
    · cases app
    · rename_i s₁ pml4 switched
      have same : s₁.appLoads = s.appLoads := by
        have apps : s.setupPML4.1.appLoads = s.appLoads := by
          rw [setupPML4]
          split <;> rfl
        rw [← apps, switched]
      rw [same, fresh] at app
      simp only at app
      split at app
      · cases app
      · rcases Option.bind_eq_some_iff.mp app with ⟨⟨l, e⟩, loaded, rest⟩
        rw [switched]
        cases e with
        | success => exact ⟨l, loaded⟩
        | _ => cases rest
  · cases accepted

/-- A launch of an accepted file keeps to the file and to the upper half of the
address space exactly when it loads nothing, or a confined file. -/
theorem loadApp_confined_iff {s : Launcher} {key : Nat} {file : ElfFile}
    (accepted : s.accepts key file = true) :
    (∀ a ∈ s.loadAccesses key file, a.Confined file.size) ↔
      (s.appLoads key).isSome ∨ file.Confined := by
  rw [loadAccesses]
  cases cached : s.appLoads key with
  | some appLoad =>
      constructor
      · exact fun _ => .inl rfl
      · rintro - a ⟨⟩
  | none =>
      rcases loaded_of_accepts accepted cached with ⟨l, loaded⟩
      rw [loaded, Option.elim_some, file.loadELF_confined_iff loaded]
      constructor
      · exact .inr
      · rintro (⟨⟨⟩⟩ | confined)
        exact confined

/-- A machine with the kernel's own page maps. -/
def kernelMachine : Machine :=
  smallMachine.setupIdentityPageTable smallTables

/-- One byte in the upper half. -/
def upperFile : ElfFile :=
  .ofHeaders [⟨ptLoad, 0, appBase, 1, 1⟩] (by decide)

/-- One byte in the upper half, and one in the page at 0x1000. -/
def lowerFile : ElfFile :=
  .ofHeaders [⟨ptLoad, 0, appBase, 1, 1⟩, ⟨ptLoad, 0, 0x1000, 1, 1⟩] (by decide)

theorem loadApp_confined_iff_upperFile :
    (∀ a ∈ (idleLauncher kernelMachine).loadAccesses 0 upperFile, a.Confined upperFile.size) ↔
      ((idleLauncher kernelMachine).appLoads 0).isSome ∨ upperFile.Confined :=
  loadApp_confined_iff (by decide +kernel)

theorem not_confined_lowerFile :
    (idleLauncher kernelMachine).accepts 0 lowerFile = true ∧
      ¬ ∀ a ∈ (idleLauncher kernelMachine).loadAccesses 0 lowerFile,
        a.Confined lowerFile.size := by
  have accepted : (idleLauncher kernelMachine).accepts 0 lowerFile = true := by decide +kernel
  constructor
  · exact accepted
  · intro confined
    rcases loaded_of_accepts accepted rfl with ⟨l, loaded⟩
    have member : .store 0x1000 1 ∈ (idleLauncher kernelMachine).loadAccesses 0 lowerFile := by
      rw [loadAccesses, show (idleLauncher kernelMachine).appLoads 0 = none from rfl, loaded,
        Option.elim_some, accesses_loadELF loaded, List.mem_append, List.mem_flatMap]
      right
      exact ⟨1, by decide, by decide⟩
    exact absurd (confined _ member 0 (by decide)) (by decide)

end Launcher
end Mikanos.Loader
