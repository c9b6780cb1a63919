import Mikanos.Fat.Volume

/-!
# Directories

Looking up a path, and creating a file.  A path is the list of its characters
before the terminating NUL.
-/

namespace Mikanos.Fat

open Mikanos.Memory

/-- `Attribute::kDirectory`. -/
def kDirectory : UInt8 := 0x10

/-! ## Names -/

def slash : UInt8 := 0x2f

def dot : UInt8 := 0x2e

def space : UInt8 := 0x20

/-- `toupper`, for ASCII. -/
def toupper (c : UInt8) : UInt8 :=
  if 0x61 ≤ c ∧ c ≤ 0x7a then c - 0x20 else c

/-- `NextPathElement`: the element, and the rest of the path after a slash.
`path_elem` has 13 bytes. -/
def nextPathElement (path : List UInt8) : Except Stop (List UInt8 × Option (List UInt8)) :=
  let pathElem := path.takeWhile (· ≠ slash)
  if 12 < pathElem.length then .error .pathElem
  else .ok (pathElem, (path.dropWhile (· ≠ slash)).tail?)

/-- The loop of `NameIsEqual`. -/
def name83Loop : List UInt8 → Nat → List UInt8 → List UInt8
  | [], _, name83 => name83
  | c :: name, i83, name83 =>
      if i83 < 11 then
        if c = dot then name83Loop name 8 name83
        else name83Loop name (i83 + 1) (name83.set i83 (toupper c))
      else name83

/-- `NameIsEqual`. -/
def Volume.nameIsEqual (v : Volume) (entry : Nat) (name : List UInt8) : Bool :=
  v.name entry == name83Loop name 0 (List.replicate 11 space)

/-- `strrchr`, as an index. -/
def strrchr (s : List UInt8) (c : UInt8) : Option Nat :=
  (s.reverse.findIdx? (· = c)).map fun i => s.length - 1 - i

/-- At most `n` characters in upper case, padded with blanks. -/
def field (n : Nat) (s : List UInt8) : List UInt8 :=
  let chars := (s.take n).map toupper
  chars ++ List.replicate (n - chars.length) space

/-- What `SetFileName` makes of a name. -/
def shortName (name : List UInt8) : List UInt8 :=
  match strrchr name dot with
  | some dotPos => field 8 (name.take dotPos) ++ field 3 (name.drop (dotPos + 1))
  | none => field 8 name ++ List.replicate 3 space

namespace Volume

variable (v : Volume)

/-- `SetFileName`. -/
def setFileName (entry : Nat) (name : List UInt8) : Volume :=
  { v with mem := v.mem.copyTo entry 11 fun i => (shortName name).getD i space }

/-! ## Lookup -/

/-- The loop of `FindFile` over the entries of a cluster: no result if it goes
on to the next cluster, else the entry, or none at the end marker. -/
def scanCluster (pathElem : List UInt8) : Nat → Nat → Option (Option Nat)
  | 0, _ => none
  | n + 1, entry =>
      if v.mem entry = 0x00 then some none
      else if ¬ v.nameIsEqual entry pathElem then
        scanCluster pathElem n (entry + directoryEntrySize)
      else some (some entry)

/-- The loop of `FindFile` over the clusters of a directory. -/
def findInDirectory (pathElem : List UInt8) : Nat → Nat → Except Stop (Option Nat)
  | 0, _ => .error .diverges
  | fuel + 1, directoryCluster =>
      if directoryCluster = kEndOfClusterchain then .ok none
      else do
        let dir ← v.getSectorByCluster directoryCluster
        match v.scanCluster pathElem (v.bytesPerCluster / directoryEntrySize) dir with
        | some found => .ok found
        | none => do
            let next ← v.nextCluster directoryCluster
            findInDirectory pathElem fuel next

/-- The recursion of `FindFile`; every call is for a shorter path. -/
def findFileLoop : Nat → List UInt8 → Nat → Except Stop (Option Nat × Bool)
  | 0, _, _ => .error .diverges
  | fuel + 1, path, directoryCluster => do
      let directoryCluster :=
        if path.head? = some slash then v.bpb.rootCluster
        else if directoryCluster = 0 then v.bpb.rootCluster
        else directoryCluster
      let path := if path.head? = some slash then path.tail else path
      let (pathElem, nextPath) ← nextPathElement path
      let pathLast := nextPath = none ∨ nextPath = some []
      let found ← v.findInDirectory pathElem (v.bpb.clusters + 2) directoryCluster
      match found with
      | none => .ok (none, nextPath.isSome)
      | some entry =>
          if v.attr entry = kDirectory ∧ ¬ pathLast then
            findFileLoop fuel (nextPath.getD []) (v.firstCluster entry)
          else .ok (some entry, nextPath.isSome)

/-- `FindFile`. -/
def findFile (path : List UInt8) (directoryCluster : Nat) : Except Stop (Option Nat × Bool) :=
  v.findFileLoop (path.length + 1) path directoryCluster

/-! ## Creation -/

/-- The loop of `AllocateEntry` over the entries of a cluster. -/
def freeSlot : Nat → Nat → Option Nat
  | 0, _ => none
  | n + 1, entry =>
      if v.mem entry = 0 ∨ v.mem entry = 0xe5 then some entry
      else freeSlot n (entry + directoryEntrySize)

/-- The loop of `AllocateEntry` over the clusters: a free slot, or the last
cluster. -/
def findSlot : Nat → Nat → Except Stop (Nat ⊕ Nat)
  | 0, _ => .error .diverges
  | fuel + 1, dirCluster => do
      let dir ← v.getSectorByCluster dirCluster
      match v.freeSlot (v.bytesPerCluster / directoryEntrySize) dir with
      | some entry => .ok (.inl entry)
      | none => do
          let next ← v.nextCluster dirCluster
          if next = kEndOfClusterchain then .ok (.inr dirCluster) else findSlot fuel next

/-- `memset(dir, 0, bytes_per_cluster)`. -/
def clearCluster (dir : Nat) : Volume :=
  { v with mem := v.mem.fill dir v.bytesPerCluster 0 }

/-- `AllocateEntry`; it has no failure result. -/
def allocateEntry (dirCluster : Nat) : Except Stop (Nat × Volume) := do
  let found ← v.findSlot (v.bpb.clusters + 1) dirCluster
  match found with
  | .inl entry => .ok (entry, v)
  | .inr last => do
      let (dirCluster, v) ← v.extendCluster last 1
      let dir ← v.getSectorByCluster dirCluster
      .ok (dir, v.clearCluster dir)

/-- The first part of `CreateFile`: the directory and the name of the new
file. -/
def parentDirectory (path : List UInt8) : Except Stop (Except Error (Nat × List UInt8)) :=
  match strrchr path slash with
  | none => .ok (.ok (v.bpb.rootCluster, path))
  | some slashPos => do
      let filename := path.drop (slashPos + 1)
      let parentDirName := path.take slashPos
      if filename = [] then .ok (.error .isDirectory)
      else if parentDirName = [] then .ok (.ok (v.bpb.rootCluster, filename))
      else do
        let (parentDir, _) ← v.findFile parentDirName 0
        match parentDir with
        | none => .ok (.error .noSuchEntry)
        | some entry => .ok (.ok (v.firstCluster entry, filename))

/-- `CreateFile`; its test for a null entry never succeeds. -/
def createFile (path : List UInt8) : Except Stop (Except Error Nat × Volume) := do
  let parent ← v.parentDirectory path
  match parent with
  | .error e => .ok (.error e, v)
  | .ok (parentDirCluster, filename) => do
      let (dir, v) ← v.allocateEntry parentDirCluster
      .ok (.ok dir, (v.setFileName dir filename).setFileSize dir 0)

end Volume

end Mikanos.Fat
