import Mikanos.Paging.Virtual

/-!
# ELF files

`LoadELF` and the functions that it calls.  A file is kept as the memory seen
from the start of the buffer it was read into, so that an offset outside the
file reads whatever lies there; offsets wrap around as pointers do.  Next to the
machine the loader keeps a record of its accesses: the ranges of the file that
it reads, the pages that it maps, and the addresses that it stores to.
-/

namespace Mikanos.Loader

open Mikanos.Memory Mikanos.Paging

/-- An executable in the buffer that `LoadApp` reads it into. -/
structure ElfFile where
  /-- memory from the start of the buffer on -/
  buf : Mem
  /-- `file_size`, a `uint32_t` -/
  size : Nat
  size_lt : size < 2 ^ 32

/-- `Elf64_Phdr`, up to the fields that the loader does not use. -/
structure Phdr where
  type : Nat
  offset : BitVec 64
  vaddr : BitVec 64
  filesz : BitVec 64
  memsz : BitVec 64

/-- `PT_LOAD`. -/
def ptLoad : Nat := 1

/-- `ET_EXEC`. -/
def etExec : Nat := 2

/-- The lowest address of the half of the address space for applications. -/
def appBase : BitVec 64 := 0xffff800000000000#64

namespace ElfFile

variable (f : ElfFile)

/-- The byte at an offset from the start of the buffer. -/
def byte (offset : Nat) : UInt8 :=
  f.buf (offset % 2 ^ 64)

/-- The `n`-byte integer at an offset. -/
def field (offset n : Nat) : Nat :=
  Mem.load f.byte offset n

/-- `memcmp(e_ident, "\x7f" "ELF", 4) == 0`. -/
def magic : Bool :=
  f.byte 0 == 0x7f && f.byte 1 == 0x45 && f.byte 2 == 0x4c && f.byte 3 == 0x46

def eType : Nat := f.field 16 2

def eEntry : BitVec 64 := BitVec.ofNat 64 (f.field 24 8)

def ePhoff : Nat := f.field 32 8

def ePhnum : Nat := f.field 56 2

/-- The offset of program header `i`. -/
def phdrOffset (i : Nat) : Nat :=
  f.ePhoff + 56 * i

/-- `GetProgramHeader(ehdr)[i]`. -/
def phdr (i : Nat) : Phdr where
  type := f.field (f.phdrOffset i) 4
  offset := BitVec.ofNat 64 (f.field (f.phdrOffset i + 8) 8)
  vaddr := BitVec.ofNat 64 (f.field (f.phdrOffset i + 16) 8)
  filesz := BitVec.ofNat 64 (f.field (f.phdrOffset i + 32) 8)
  memsz := BitVec.ofNat 64 (f.field (f.phdrOffset i + 40) 8)

/-- `GetFirstLoadAddress`. -/
def getFirstLoadAddress : BitVec 64 :=
  match (List.range f.ePhnum).find? fun i => (f.phdr i).type == ptLoad with
  | some i => (f.phdr i).vaddr
  | none => 0

end ElfFile

/-- `(p_memsz + 4095) / 4096`. -/
def Phdr.num4kpages (ph : Phdr) : Nat :=
  ((ph.memsz + 4095) / 4096).toNat

/-- One access of the loader. -/
inductive Access
  /-- a range of file offsets is read -/
  | read (offset n : Nat)
  /-- `SetupPageMaps` is called -/
  | map (addr : BitVec 64) (num4kpages : Nat)
  /-- a range of addresses is written -/
  | store (addr : BitVec 64) (n : Nat)
  deriving DecidableEq

/-- The state of `CopyLoadSegments`. -/
structure Loading where
  machine : Machine
  lastAddr : Nat
  accesses : List Access

namespace Loading

variable (f : ElfFile)

/-- The accesses made for a segment once its pages are mapped. -/
def copyAccesses (ph : Phdr) : List Access :=
  [.read ph.offset.toNat ph.filesz.toNat, .store ph.vaddr ph.filesz.toNat,
    .store (ph.vaddr + ph.filesz) (ph.memsz - ph.filesz).toNat]

/-- The two copies of one round of the loop of `CopyLoadSegments`; `none` when a
store faults. -/
def copySegment (s : Machine) (ph : Phdr) : Option Machine :=
  (s.memcpy ph.vaddr (fun i => f.byte (ph.offset.toNat + i)) ph.filesz.toNat).bind fun s =>
    s.memset (ph.vaddr + ph.filesz) 0 (ph.memsz - ph.filesz).toNat

/-- One round of the loop of `CopyLoadSegments` for a segment to load. -/
def loadSegment (l : Loading) (i : Nat) : Option (Loading × Error) :=
  let ph := f.phdr i
  let lastAddr := max l.lastAddr (ph.vaddr + ph.memsz).toNat
  let accesses := l.accesses ++
    [.read (f.phdrOffset i + 8) 16, .read (f.phdrOffset i + 32) 16, .map ph.vaddr ph.num4kpages]
  match l.machine.setupPageMaps (.ofValue ph.vaddr) ph.num4kpages false with
  | (machine, .success) =>
      (copySegment f machine ph).map fun machine =>
        ({ machine, lastAddr, accesses := accesses ++ copyAccesses ph }, .success)
  | (machine, e) => some ({ machine, lastAddr, accesses }, e)

/-- The loop of `CopyLoadSegments`. -/
def copyLoadSegmentsLoop : List Nat → Loading → Option (Loading × Error)
  | [], l => some (l, .success)
  | i :: rest, l =>
      let l := { l with accesses := l.accesses ++ [.read (f.phdrOffset i) 4] }
      if (f.phdr i).type = ptLoad then
        (loadSegment f l i).bind fun
          | (l, .success) => copyLoadSegmentsLoop rest l
          | (l, e) => some (l, e)
      else
        copyLoadSegmentsLoop rest l

/-- `CopyLoadSegments`; `none` when a store faults. -/
def copyLoadSegments (s : Machine) : Option (Loading × Error) :=
  copyLoadSegmentsLoop f (List.range f.ePhnum)
    { machine := s, lastAddr := 0, accesses := [.read 32 8, .read 56 2] }

/-- `LoadELF`; `none` when a store faults. -/
def loadELF (s : Machine) : Option (Loading × Error) :=
  if f.eType ≠ etExec then
    some ({ machine := s, lastAddr := 0, accesses := [] }, .invalidFormat)
  else if f.getFirstLoadAddress < appBase then
    some ({ machine := s, lastAddr := 0, accesses := [] }, .invalidFormat)
  else
    copyLoadSegments f s

end Loading

/-! ## Building a file -/

/-- The bytes of an integer of the given width. -/
def littleEndian (width value : Nat) : List UInt8 :=
  (List.range width).map (Mem.leByte value)

/-- The bytes of a program header. -/
def Phdr.bytes (ph : Phdr) : List UInt8 :=
  littleEndian 4 ph.type ++ littleEndian 4 0 ++ littleEndian 8 ph.offset.toNat ++
    littleEndian 8 ph.vaddr.toNat ++ littleEndian 8 0 ++ littleEndian 8 ph.filesz.toNat ++
    littleEndian 8 ph.memsz.toNat ++ littleEndian 8 0

namespace ElfFile

/-- The bytes of a file header with its table of program headers right after it. -/
def headerBytes (entry phnum : Nat) : List UInt8 :=
  [0x7f, 0x45, 0x4c, 0x46] ++ littleEndian 12 0 ++ littleEndian 2 etExec ++ littleEndian 6 0 ++
    littleEndian 8 entry ++ littleEndian 8 64 ++ littleEndian 12 0 ++ littleEndian 2 64 ++
    littleEndian 2 56 ++ littleEndian 2 phnum ++ littleEndian 6 0

/-- An executable with the given program headers and nothing after them. -/
def ofHeaders (phdrs : List Phdr) (small : phdrs.length < 2 ^ 16) : ElfFile where
  buf := fun i => (headerBytes appBase.toNat phdrs.length ++ phdrs.flatMap Phdr.bytes).getD i 0
  size := 64 + 56 * phdrs.length
  size_lt := by omega

/-- An empty file. -/
def empty : ElfFile where
  buf := fun _ => 0
  size := 0
  size_lt := by decide

end ElfFile
end Mikanos.Loader
