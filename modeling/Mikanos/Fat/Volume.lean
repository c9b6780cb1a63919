import Mikanos.Error
import Mikanos.Memory.Bytes

/-!
# FAT volumes

A volume lies in memory from `boot_volume_image` on; the addresses here are
relative to it, and a pointer to a directory entry is the address of the entry.
The functions of `fat.cpp` do not check the cluster numbers they use.  The model
stops where one of them would access an entry of the FAT or the data of a
cluster that the volume does not have.
-/

namespace Mikanos.Fat

open Mikanos.Memory

/-- The fields of `BPB` that matter. -/
structure BPB where
  bytesPerSector : Nat
  sectorsPerCluster : Nat
  reservedSectorCount : Nat
  numFats : Nat
  totalSectors32 : Nat
  fatSize32 : Nat
  rootCluster : Nat

/-- Why a function does not return. -/
inductive Stop
  /-- an access to an entry of the FAT that belongs to no cluster -/
  | fatIndex (index : Nat)
  /-- an access to the data of a cluster that does not exist -/
  | cluster (cluster : Nat)
  /-- a write past the end of `path_elem` -/
  | pathElem
  /-- a loop that follows a cyclic chain -/
  | diverges
  deriving DecidableEq, Repr

namespace BPB

variable (bpb : BPB)

/-- `bytes_per_cluster`, as `Initialize` computes it. -/
def bytesPerCluster : Nat :=
  bpb.bytesPerSector * bpb.sectorsPerCluster

/-- The number of data clusters. -/
def clusters : Nat :=
  (bpb.totalSectors32 - (bpb.reservedSectorCount + bpb.numFats * bpb.fatSize32)) /
    bpb.sectorsPerCluster

/-- Where the FAT begins: `fat_offset`. -/
def fatOffset : Nat :=
  bpb.reservedSectorCount * bpb.bytesPerSector

/-- Where the data begins. -/
def dataOffset : Nat :=
  (bpb.reservedSectorCount + bpb.numFats * bpb.fatSize32) * bpb.bytesPerSector

/-- The number belongs to a data cluster. -/
def HasCluster (cluster : Nat) : Prop :=
  2 ≤ cluster ∧ cluster < bpb.clusters + 2

instance (cluster : Nat) : Decidable (bpb.HasCluster cluster) :=
  inferInstanceAs (Decidable (_ ∧ _))

/-- `GetClusterAddr`, relative to the volume; the sectors before the data are
added up in 32 bits. -/
def getClusterAddr (cluster : Nat) : Nat :=
  let sectorNum :=
    (bpb.reservedSectorCount + bpb.numFats * bpb.fatSize32) % 2 ^ 32 +
      (cluster + 2 ^ 64 - 2) % 2 ^ 64 * bpb.sectorsPerCluster
  sectorNum % 2 ^ 64 * bpb.bytesPerSector % 2 ^ 64

end BPB

/-- A volume image. -/
structure Volume where
  bpb : BPB
  mem : Mem

/-- `sizeof(DirectoryEntry)`. -/
def directoryEntrySize : Nat := 32

/-- `kEndOfClusterchain`. -/
def kEndOfClusterchain : Nat := 0x0fffffff

/-- `IsEndOfClusterchain`. -/
def isEndOfClusterchain (cluster : Nat) : Bool :=
  0x0ffffff8 ≤ cluster

namespace Volume

variable (v : Volume)

/-- `bytes_per_cluster`. -/
def bytesPerCluster : Nat :=
  v.bpb.bytesPerCluster

/-! ## The FAT -/

/-- `fat[index]`. -/
def fat (index : Nat) : Nat :=
  v.mem.load (v.bpb.fatOffset + 4 * index) 4

/-- `fat[index] = value`. -/
def setFat (index value : Nat) : Volume :=
  { v with mem := v.mem.store (v.bpb.fatOffset + 4 * index) 4 value }

def readFat (index : Nat) : Except Stop Nat :=
  if v.bpb.HasCluster index then .ok (v.fat index) else .error (.fatIndex index)

def writeFat (index value : Nat) : Except Stop Volume :=
  if v.bpb.HasCluster index then .ok (v.setFat index value) else .error (.fatIndex index)

/-- `NextCluster`. -/
def nextCluster (cluster : Nat) : Except Stop Nat := do
  let next ← v.readFat cluster
  if 0x0ffffff8 ≤ next then .ok kEndOfClusterchain else .ok next

/-- `GetSectorByCluster`. -/
def getSectorByCluster (cluster : Nat) : Except Stop Nat :=
  if v.bpb.HasCluster cluster then .ok (v.bpb.getClusterAddr cluster)
  else .error (.cluster cluster)

/-- The first loop of `ExtendCluster`, which goes to the end of the chain.  After
as many steps as there are clusters it has passed some cluster twice. -/
def lastCluster : Nat → Nat → Except Stop Nat
  | 0, _ => .error .diverges
  | fuel + 1, eocCluster => do
      let next ← v.readFat eocCluster
      if isEndOfClusterchain next then .ok eocCluster else lastCluster fuel next

/-- The second loop of `ExtendCluster`.  The candidates run out where the volume
ends. -/
def extendLoop (n : Nat) :
    Nat → Volume → (candidate current numAllocated : Nat) → Except Stop (Nat × Volume)
  | 0, _, _, _, _ => .error .diverges
  | fuel + 1, v, candidate, current, numAllocated =>
      if numAllocated < n then do
        let entry ← v.readFat candidate
        if entry ≠ 0 then
          extendLoop n fuel v (candidate + 1) current numAllocated
        else
          let v ← v.writeFat current candidate
          extendLoop n fuel v (candidate + 1) candidate (numAllocated + 1)
      else .ok (current, v)

/-- `ExtendCluster`; the result is the last cluster of the chain. -/
def extendCluster (eocCluster n : Nat) : Except Stop (Nat × Volume) := do
  let eocCluster ← v.lastCluster (v.bpb.clusters + 1) eocCluster
  let (current, v) ← extendLoop n (v.bpb.clusters + 2) v 2 eocCluster 0
  let v ← v.writeFat current kEndOfClusterchain
  .ok (current, v)

/-- The loop of `AllocateClusterChain`. -/
def firstFree : Nat → Nat → Except Stop (Nat × Volume)
  | 0, _ => .error .diverges
  | fuel + 1, firstCluster => do
      let entry ← v.readFat firstCluster
      if entry = 0 then
        let v ← v.writeFat firstCluster kEndOfClusterchain
        .ok (firstCluster, v)
      else firstFree fuel (firstCluster + 1)

/-- `AllocateClusterChain`. -/
def allocateClusterChain (n : Nat) : Except Stop (Nat × Volume) := do
  let (firstCluster, v) ← v.firstFree (v.bpb.clusters + 1) 2
  if n > 1 then
    let (_, v) ← v.extendCluster firstCluster (n - 1)
    .ok (firstCluster, v)
  else .ok (firstCluster, v)

/-! ## Directory entries -/

/-- The 11 bytes of `entry.name`. -/
def name (entry : Nat) : List UInt8 :=
  v.mem.bytes entry 11

def attr (entry : Nat) : UInt8 :=
  v.mem (entry + 11)

/-- `FirstCluster()`. -/
def firstCluster (entry : Nat) : Nat :=
  v.mem.load (entry + 26) 2 + v.mem.load (entry + 20) 2 * 2 ^ 16

def fileSize (entry : Nat) : Nat :=
  v.mem.load (entry + 28) 4

/-- The assignments to `first_cluster_low` and `first_cluster_high`. -/
def setFirstCluster (entry cluster : Nat) : Volume :=
  { v with
    mem := (v.mem.store (entry + 26) 2 (cluster % 2 ^ 16)).store (entry + 20) 2
      (cluster / 2 ^ 16 % 2 ^ 16) }

def setFileSize (entry size : Nat) : Volume :=
  { v with mem := v.mem.store (entry + 28) 4 size }

end Volume

end Mikanos.Fat
