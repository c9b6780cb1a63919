import Mikanos.Fat.Volume

/-!
# File descriptors

`FileDescriptor` of `fat.cpp`.  A buffer that is written is the memory from its
address on, so that reading past its end is not ruled out; what is read from a
file is the list of bytes copied to the buffer.
-/

namespace Mikanos.Fat

open Mikanos.Memory

/-- `FileDescriptor`, with its entry by address. -/
structure FileDescriptor where
  fatEntry : Nat
  rdOff : Nat
  rdCluster : Nat
  rdClusterOff : Nat
  wrOff : Nat
  wrCluster : Nat
  wrClusterOff : Nat
  deriving DecidableEq

namespace FileDescriptor

/-- A new descriptor. -/
def make (fatEntry : Nat) : FileDescriptor where
  fatEntry := fatEntry
  rdOff := 0
  rdCluster := 0
  rdClusterOff := 0
  wrOff := 0
  wrCluster := 0
  wrClusterOff := 0

end FileDescriptor

namespace Volume

variable (v : Volume)

/-! ## Reading -/

/-- The loop of `Read`: what has been copied, and the cursor. -/
def readLoop (len : Nat) :
    Nat → (total rdCluster rdClusterOff : Nat) → Except Stop (List UInt8 × Nat × Nat)
  | 0, _, _, _ => .error .diverges
  | fuel + 1, total, rdCluster, rdClusterOff =>
      if total < len then do
        let sec ← v.getSectorByCluster rdCluster
        let n := min (len - total) (v.bytesPerCluster - rdClusterOff)
        let copied := v.mem.bytes (sec + rdClusterOff) n
        let (rest, cursor) ←
          if rdClusterOff + n = v.bytesPerCluster then do
            let next ← v.nextCluster rdCluster
            readLoop len fuel (total + n) next 0
          else readLoop len fuel (total + n) rdCluster (rdClusterOff + n)
        .ok (copied ++ rest, cursor)
      else .ok ([], rdCluster, rdClusterOff)

/-- `Read`. -/
def read (fd : FileDescriptor) (len : Nat) : Except Stop (List UInt8 × FileDescriptor) := do
  let rdCluster := if fd.rdCluster = 0 then v.firstCluster fd.fatEntry else fd.rdCluster
  let len := min len ((v.fileSize fd.fatEntry + 2 ^ 64 - fd.rdOff) % 2 ^ 64)
  let (copied, rdCluster, rdClusterOff) ← v.readLoop len (len + 1) 0 rdCluster fd.rdClusterOff
  .ok (copied,
    { fd with rdOff := fd.rdOff + copied.length, rdCluster := rdCluster,
              rdClusterOff := rdClusterOff })

/-- The loop of `Load`. -/
def loadLoop : Nat → (cluster offset : Nat) → Except Stop (Nat × Nat)
  | 0, _, _ => .error .diverges
  | fuel + 1, cluster, offset =>
      if v.bytesPerCluster ≤ offset then do
        let next ← v.nextCluster cluster
        loadLoop fuel next (offset - v.bytesPerCluster)
      else .ok (cluster, offset)

/-- `Load`. -/
def load (fd : FileDescriptor) (len offset : Nat) : Except Stop (List UInt8) := do
  let (cluster, clusterOff) ← v.loadLoop (offset + 1) (v.firstCluster fd.fatEntry) offset
  let (copied, _) ← v.read
    { FileDescriptor.make fd.fatEntry with
      rdOff := offset, rdCluster := cluster, rdClusterOff := clusterOff } len
  .ok copied

/-! ## Writing -/

/-- `num_cluster`. -/
def numCluster (bytes : Nat) : Nat :=
  (bytes + v.bytesPerCluster - 1) / v.bytesPerCluster

/-- `memcpy(&sec[off], &buf8[total], n)`. -/
def copyIn (buf : Mem) (sec off total n : Nat) : Volume :=
  { v with mem := v.mem.copyTo (sec + off) n fun i => buf (total + i) }

/-- The start of a round of the loop of `Write`: at the end of a cluster the
cursor moves on, and at the end of the chain it moves to the last of the clusters
that are appended. -/
def advance (len total wrCluster wrClusterOff : Nat) : Except Stop (Volume × Nat × Nat) :=
  if wrClusterOff = v.bytesPerCluster then do
    let nextCluster ← v.nextCluster wrCluster
    if nextCluster = kEndOfClusterchain then do
      let (last, v) ← v.extendCluster wrCluster (v.numCluster (len - total))
      .ok (v, last, 0)
    else .ok (v, nextCluster, 0)
  else .ok (v, wrCluster, wrClusterOff)

/-- The loop of `Write`: the number of bytes copied, and the cursor. -/
def writeLoop (buf : Mem) (len : Nat) :
    Nat → Volume → (total wrCluster wrClusterOff : Nat) → Except Stop (Volume × Nat × Nat × Nat)
  | 0, _, _, _, _ => .error .diverges
  | fuel + 1, v, total, wrCluster, wrClusterOff =>
      if total < len then do
        let (v, wrCluster, wrClusterOff) ← v.advance len total wrCluster wrClusterOff
        let sec ← v.getSectorByCluster wrCluster
        let n := min len (v.bytesPerCluster - wrClusterOff)
        writeLoop buf len fuel (v.copyIn buf sec wrClusterOff total n) (total + n) wrCluster
          (wrClusterOff + n)
      else .ok (v, total, wrCluster, wrClusterOff)

/-- The first part of `Write`: the cluster to write to. -/
def startWrite (fd : FileDescriptor) (len : Nat) : Except Stop (Volume × Nat) :=
  if fd.wrCluster = 0 then
    if v.firstCluster fd.fatEntry ≠ 0 then .ok (v, v.firstCluster fd.fatEntry)
    else do
      let (wrCluster, v) ← v.allocateClusterChain (v.numCluster len)
      .ok (v.setFirstCluster fd.fatEntry wrCluster, wrCluster)
  else .ok (v, fd.wrCluster)

/-- `Write`; the result is the number of bytes written. -/
def write (fd : FileDescriptor) (buf : Mem) (len : Nat) :
    Except Stop (Nat × FileDescriptor × Volume) := do
  let (v, wrCluster) ← v.startWrite fd len
  let (v, total, wrCluster, wrClusterOff) ←
    writeLoop buf len (len + 1) v 0 wrCluster fd.wrClusterOff
  let wrOff := fd.wrOff + total
  .ok (total,
    { fd with wrOff := wrOff, wrCluster := wrCluster, wrClusterOff := wrClusterOff },
    v.setFileSize fd.fatEntry wrOff)

end Volume

end Mikanos.Fat
