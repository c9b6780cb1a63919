import Mikanos.Fat.Rereading

/-!
# A file in slices

A file that nobody writes.  Each call of `Read` returns the slice behind the last one, and
each call of `Load` the slice that it asks for, whatever has been read before.  Neither goes
past the end of the chain.
-/

namespace Mikanos.Fat

open Mikanos.Memory

/-- A request for a part of a file. -/
inductive Reading
  | read (len : Nat)
  | load (len offset : Nat)

namespace Reading

/-- A file of the given size has the offset. -/
def Inside (size : Nat) : Reading → Prop
  | .read _ => True
  | .load _ offset => offset ≤ size

/-- The slice of the content, at most up to the size of the file. -/
def slice (content : Mem) (size len offset : Nat) : List UInt8 :=
  content.bytes offset (min len (size - offset))

@[simp]
theorem length_slice (content : Mem) (size len offset : Nat) :
    (slice content size len offset).length = min len (size - offset) :=
  Mem.length_bytes _ _ _

/-- The slices that are to be returned when `p` bytes have been read. -/
def slices (content : Mem) (size : Nat) : Nat → List Reading → List (List UInt8)
  | _, [] => []
  | p, .read len :: requests =>
      slice content size len p :: slices content size (p + min len (size - p)) requests
  | p, .load len offset :: requests =>
      slice content size len offset :: slices content size p requests

end Reading

namespace Volume

variable {v : Volume} {fd : FileDescriptor} {l : List Nat} {p e : Nat}

/-- `Read`, or `Load`, which leaves the descriptor alone. -/
def serve (v : Volume) (fd : FileDescriptor) : Reading → Except Stop (List UInt8 × FileDescriptor)
  | .read len => v.read fd len
  | .load len offset => do
      let copied ← v.load fd len offset
      .ok (copied, fd)

/-- The clusters that are addressed. -/
def serveClusters (v : Volume) (fd : FileDescriptor) : Reading → List Nat
  | .read len => v.readClusters fd len
  | .load len offset => v.loadClusters fd len offset

/-- Requests one after another: what each of them returns. -/
def serveAll (v : Volume) :
    FileDescriptor → List Reading → Except Stop (List (List UInt8) × FileDescriptor)
  | fd, [] => .ok ([], fd)
  | fd, request :: requests => do
      let (copied, fd) ← v.serve fd request
      let (rest, fd) ← serveAll v fd requests
      .ok (copied :: rest, fd)

/-- The clusters that all of them address. -/
def serveAllClusters (v : Volume) : FileDescriptor → List Reading → List Nat
  | _, [] => []
  | fd, request :: requests =>
      v.serveClusters fd request ++
        match v.serve fd request with
        | .ok (_, fd) => serveAllClusters v fd requests
        | .error _ => []

section

variable (valid : v.bpb.Valid) (own : v.OwnChain fd.fatEntry l)
  (size_le : v.fileSize fd.fatEntry ≤ l.length * v.bytesPerCluster)
include valid own size_le

/-- One request. -/
theorem serve_eq (hasRead : HasRead v fd l p) (within : p ≤ v.fileSize fd.fatEntry)
    {request : Reading} (inside : request.Inside (v.fileSize fd.fatEntry)) :
    ∃ copied p' fd', v.serve fd request = .ok (copied, fd') ∧ fd'.fatEntry = fd.fatEntry ∧
      HasRead v fd' l p' ∧ p' ≤ v.fileSize fd.fatEntry ∧
      (∀ c ∈ v.serveClusters fd request, c ∈ l) ∧
      ∀ requests, Reading.slices (v.content l) (v.fileSize fd.fatEntry) p (request :: requests) =
        copied :: Reading.slices (v.content l) (v.fileSize fd.fatEntry) p' requests := by
  cases request with
  | read len =>
      have covers : p + min len (v.fileSize fd.fatEntry - p) ≤ l.length * v.bytesPerCluster := by
        omega
      rcases read_eq valid own hasRead within covers with ⟨fd', readEq, hasRead', entryEq⟩
      refine ⟨_, _, fd', readEq, entryEq, hasRead', by omega, ?_, fun _ => rfl⟩
      apply readClusters_subset valid own hasRead
      rw [rest_eq (hasRead.rdOff.symm ▸ within), hasRead.rdOff]
      exact covers
  | load len offset =>
      refine ⟨_, p, fd, ?_, rfl, hasRead, within, loadClusters_subset len valid own size_le inside,
        fun _ => rfl⟩
      rw [serve, load_eq valid own size_le inside]
      rfl

/-- Every sequence of requests, from where a descriptor has read to. -/
theorem serveAll_eq (hasRead : HasRead v fd l p) (within : p ≤ v.fileSize fd.fatEntry)
    (requests : List Reading)
    (inside : ∀ request ∈ requests, request.Inside (v.fileSize fd.fatEntry)) :
    ∃ fd', v.serveAll fd requests =
        .ok (Reading.slices (v.content l) (v.fileSize fd.fatEntry) p requests, fd') ∧
      ∀ c ∈ v.serveAllClusters fd requests, c ∈ l := by
  induction requests generalizing fd p with
  | nil => exact ⟨fd, rfl, by simp [serveAllClusters]⟩
  | cons request requests ih =>
      rcases serve_eq valid own size_le hasRead within (inside _ List.mem_cons_self) with
        ⟨copied, p', fd', served, entryEq, hasRead', within', subset, slices⟩
      rw [← entryEq] at own size_le within' inside slices
      rcases ih own size_le hasRead' within' fun r member => inside r (List.mem_cons_of_mem _ member)
        with ⟨fd'', rest, subset'⟩
      refine ⟨fd'', ?_, ?_⟩
      · rw [← entryEq, slices, serveAll, served]
        simp only [bind, Except.bind]
        rw [rest]
      · intro c member
        rw [serveAllClusters, served] at member
        exact (List.mem_append.mp member).elim (subset c) (subset' c)

end

/-- A new descriptor of a file whose chain is long enough for its size: every sequence of
requests returns the slices, and addresses clusters of the file only. -/
theorem serveAll_make (valid : v.bpb.Valid) (own : v.OwnChain e l)
    (size_le : v.fileSize e ≤ l.length * v.bytesPerCluster) (requests : List Reading)
    (inside : ∀ request ∈ requests, request.Inside (v.fileSize e)) :
    ∃ fd', v.serveAll (.make e) requests =
        .ok (Reading.slices (v.content l) (v.fileSize e) 0 requests, fd') ∧
      ∀ c ∈ v.serveAllClusters (.make e) requests, c ∈ l :=
  @serveAll_eq v (.make e) l 0 valid own size_le (hasRead_make v e l) (Nat.zero_le _) requests inside

/-- A volume with a file of 600 bytes in two clusters. -/
def slicedVolume : Volume :=
  let e := smallBpb.getClusterAddr 2
  ((emptyVolume.linkChain 3 [5]).putEntry e [0x41] 0x20 3).setFileSize e 600

theorem chain_slicedVolume : slicedVolume.Chain 3 [3, 5] := by
  constructor
  · exact .link (b := 5) (by decide) (.last (by decide))
  · decide

theorem serveAll_make_slicedVolume :
    ∃ fd', slicedVolume.serveAll (.make (smallBpb.getClusterAddr 2))
        [.read 512, .load 60 511, .read 200, .read 1] =
      .ok (Reading.slices (slicedVolume.content [3, 5])
        (slicedVolume.fileSize (smallBpb.getClusterAddr 2)) 0
        [.read 512, .load 60 511, .read 200, .read 1], fd') ∧
      ∀ c ∈ slicedVolume.serveAllClusters (.make (smallBpb.getClusterAddr 2))
        [.read 512, .load 60 511, .read 200, .read 1], c ∈ [3, 5] := by
  have first : slicedVolume.firstCluster (smallBpb.getClusterAddr 2) = 3 := by decide
  have size : slicedVolume.fileSize (smallBpb.getClusterAddr 2) = 600 := by decide
  apply serveAll_make valid_smallBpb
  · exact .inr (first.symm ▸ chain_slicedVolume)
  · rw [size]
    decide
  · rw [size]
    simp [Reading.Inside]

end Volume

end Mikanos.Fat
