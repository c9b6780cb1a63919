import Mikanos.Fat.Creation
import Mikanos.Fat.Writing

/-!
# Full volumes

The loops that look for free clusters do not know how many there are.  A request for
more clusters than are free goes on behind the last entry of the FAT, so nothing ever
reports that the volume is full, although `CreateFile` has an error for it.
-/

namespace Mikanos.Fat

open Mikanos.Memory

namespace Volume

variable {v v' : Volume} {first i c o : Nat} {l : List Nat}

/-! ## Requests -/

/-- What may need clusters. -/
inductive Request
  | allocateClusterChain (n : Nat)
  | extendCluster (eocCluster n : Nat)
  | allocateEntry (dirCluster : Nat)
  | createFile (path : List UInt8)
  | write (fd : FileDescriptor) (buf : Mem) (len : Nat)

/-- The error that a request reports, and the volume after it. -/
def perform (v : Volume) : Request → Except Stop (Error × Volume)
  | .allocateClusterChain n => (v.allocateClusterChain n).map fun result => (.success, result.2)
  | .extendCluster eocCluster n =>
      (v.extendCluster eocCluster n).map fun result => (.success, result.2)
  | .allocateEntry dirCluster => (v.allocateEntry dirCluster).map fun result => (.success, result.2)
  | .createFile path => (v.createFile path).map fun result =>
      match result.1 with
      | .ok _ => (.success, result.2)
      | .error err => (err, result.2)
  | .write fd buf len => (v.write fd buf len).map fun result => (.success, result.2.2)

/-- A directory without a free entry. -/
def DirectoryFull (v : Volume) (dirCluster : Nat) : Prop :=
  ∃ l, v.Chain dirCluster l ∧ ∀ entry ∈ v.slots l, ¬ v.isFreeSlot entry

/-- Where a descriptor writes next. -/
def WritesAt (v : Volume) (fd : FileDescriptor) (c o : Nat) : Prop :=
  c ≠ 0 ∧ o = fd.wrClusterOff ∧ c = if fd.wrCluster = 0 then v.firstCluster fd.fatEntry else fd.wrCluster

/-- A request needs more clusters than are free. -/
inductive Exceeds (v : Volume) : Request → Prop
  | allocateClusterChain {n : Nat} : v.free.length < max n 1 → Exceeds v (.allocateClusterChain n)
  | extendCluster {first n : Nat} {l : List Nat} : v.Chain first l → v.free.length < n →
      Exceeds v (.extendCluster first n)
  | allocateEntry {dirCluster : Nat} : v.DirectoryFull dirCluster → v.free = [] →
      Exceeds v (.allocateEntry dirCluster)
  | createFile {path filename : List UInt8} {dirCluster : Nat} :
      v.parentDirectory path = .ok (.ok (dirCluster, filename)) → v.DirectoryFull dirCluster →
      v.free = [] → Exceeds v (.createFile path)
  /-- an empty file, which has no cluster yet -/
  | firstWrite {fd : FileDescriptor} {buf : Mem} {len : Nat} : fd.wrCluster = 0 →
      v.firstCluster fd.fatEntry = 0 → v.free.length * v.bytesPerCluster < len →
      Exceeds v (.write fd buf len)
  /-- a file with a chain -/
  | write {fd : FileDescriptor} {buf : Mem} {len first i c o : Nat} {l : List Nat} :
      v.WritesAt fd c o → Cursor v first l i c o →
      v.room l i o + v.free.length * v.bytesPerCluster < len → Exceeds v (.write fd buf len)

/-- A request that cannot be met is reported: it returns, has not gone past the FAT, and
has left all chains; `CreateFile` says that there is not enough memory. -/
def Reported (v : Volume) (request : Request) : Prop :=
  ∃ err v', v.perform request = .ok (err, v') ∧
    (∀ first l, v.Chain first l → v'.Chain first l) ∧
    ∀ path, request = .createFile path → err = .noEnoughMemory

/-! ## Past the end -/

theorem allocateClusterChain_overrun (valid : v.bpb.Valid) {n : Nat} (few : v.free.length < max n 1) :
    v.allocateClusterChain n = .error (.fatIndex (v.bpb.clusters + 2)) := by
  rw [allocateClusterChain_eq valid]
  cases split : v.free with
  | nil => rfl
  | cons c rest =>
      rw [split, List.length_cons] at few
      exact if_neg (by omega)

theorem allocateEntry_overrun (valid : v.bpb.Valid) {dirCluster : Nat} (full : v.DirectoryFull dirCluster)
    (none' : v.free = []) : v.allocateEntry dirCluster = .error (.fatIndex (v.bpb.clusters + 2)) := by
  rcases full with ⟨l, chain, used⟩
  have noSlot : (v.slots l).find? v.isFreeSlot = none := List.find?_eq_none.mpr used
  have ends : v.Chain (l.getLast chain.path.ne_nil) [l.getLast chain.path.ne_nil] := by
    constructor
    · exact .last chain.path.next_getLast
    · intro c member
      rw [List.mem_singleton.mp member]
      exact chain.inside _ chain.getLast_mem
  have slot := findSlot_of_chain valid chain _ (chain.length_le.trans (Nat.le_succ _))
  rw [noSlot, Option.elim_none] at slot
  rw [allocateEntry, slot]
  simp only [bind, Except.bind]
  rw [extendCluster_of_chain valid ends, if_neg (by simp [none'])]

/-- What a round copies is missing in the chain. -/
theorem exceeds_copied {len total bytes rest frees off n : Nat} (le : off + n ≤ bytes) (full : bytes ≤ rest)
    (exceeds : total + (rest - off) + frees < len) : total + n + (rest - (off + n)) + frees < len := by
  omega

/-- The cursor reaches the end of the chain before everything is written. -/
theorem writeLoop_overrun (valid : v.bpb.Valid) (cursor : Cursor v first l i c o) (buf : Mem)
    {len total : Nat} (fuel : Nat) (enough : len < total + fuel)
    (exceeds : total + v.room l i o + v.free.length * v.bytesPerCluster < len) :
    writeLoop buf len fuel v total c o = .error (.fatIndex (v.bpb.clusters + 2)) := by
  induction fuel generalizing v total i c o with
  | zero => omega
  | succ fuel ih =>
      have positive : 0 < v.bytesPerCluster := valid.bytesPerCluster_pos
      have more : total < len := (Nat.le_add_right _ _).trans_lt ((Nat.le_add_right _ _).trans_lt exceeds)
      -- a round that copies to a cluster of the chain
      have round {i c o : Nat} (cursor : Cursor v first l i c o) (inside : o < v.bytesPerCluster)
          (exceeds : total + v.room l i o + v.free.length * v.bytesPerCluster < len) :
          writeLoop buf len fuel (v.copyIn buf (v.bpb.getClusterAddr c) o total
            (min len (v.bytesPerCluster - o))) (total + min len (v.bytesPerCluster - o)) c
            (o + min len (v.bytesPerCluster - o)) = .error (.fatIndex (v.bpb.clusters + 2)) := by
        generalize copied : min len (v.bytesPerCluster - o) = n
        rcases copied_bounds copied inside (Nat.zero_lt_of_lt more) with ⟨le, progress⟩
        have same : SameFat v (v.copyIn buf (v.bpb.getClusterAddr c) o total n) :=
          sameFat_copyIn v buf total n (valid.dataOffset_le_getClusterAddr cursor.has)
        have cursor' := cursor_copyIn valid cursor buf total le
        have rest : v.bytesPerCluster ≤ (l.length - i) * v.bytesPerCluster :=
          Nat.le_mul_of_pos_left _ (Nat.sub_pos_of_lt cursor.lt_length)
        have valid' : (v.copyIn buf (v.bpb.getClusterAddr c) o total n).bpb.Valid := by
          rw [bpb_copyIn]
          exact valid
        have exceeds' := exceeds_copied le rest exceeds
        have enough' : len < total + n + fuel := by
          apply enough.trans_le
          rw [Nat.add_assoc]
          exact Nat.add_le_add_left (Nat.add_comm fuel 1 ▸ Nat.add_le_add_right progress fuel) total
        have overrun := ih valid' cursor' enough'
        rw [free_sameFat valid same, bytesPerCluster_copyIn, bpb_copyIn, room, bytesPerCluster_copyIn]
          at overrun
        exact overrun exceeds'
      rw [writeLoop, if_pos more]
      rcases advance_cases valid cursor len total more with
        ⟨inside, stays⟩ | ⟨full, next, get, moves⟩ | ⟨full, atEnd, appends⟩
      · rw [stays]
        simp only [bind, Except.bind]
        rw [getSectorByCluster_of_has cursor.has]
        exact round cursor inside exceeds
      · have cursor' : Cursor v first l (i + 1) next 0 := ⟨cursor.chain, get, Nat.zero_le _⟩
        have lt := cursor'.lt_length
        have same : v.room l (i + 1) 0 = v.room l i o := by
          have split : l.length - i = l.length - (i + 1) + 1 := by omega
          rw [room, room, split, full, Nat.succ_mul]
          omega
        rw [moves]
        simp only [bind, Except.bind]
        rw [getSectorByCluster_of_has cursor'.has]
        exact round cursor' positive (same ▸ exceeds)
      · have notEnough : ¬ v.numCluster (len - total) ≤ v.free.length := by
          intro enough
          have := numCluster_mul v positive (len - total)
          have := Nat.mul_le_mul_right v.bytesPerCluster enough
          omega
        rw [if_neg notEnough] at appends
        rw [appends]
        rfl

/-- Every request for more clusters than are free reads the entry behind the end of the
FAT; none is reported. -/
theorem not_reported_of_exceeds (valid : v.bpb.Valid) {request : Request} (exceeds : v.Exceeds request) :
    v.perform request = .error (.fatIndex (v.bpb.clusters + 2)) ∧ ¬ v.Reported request := by
  have overrun : v.perform request = .error (.fatIndex (v.bpb.clusters + 2)) := by
    cases exceeds with
    | allocateClusterChain few => rw [perform, allocateClusterChain_overrun valid few]; rfl
    | extendCluster chain few =>
        rw [perform, extendCluster_of_chain valid chain, if_neg (by omega)]
        rfl
    | allocateEntry full none' => rw [perform, allocateEntry_overrun valid full none']; rfl
    | createFile parent full none' =>
        rw [perform, createFile, parent]
        simp only [bind, Except.bind]
        rw [allocateEntry_overrun valid full none']
        rfl
    | @firstWrite fd buf len fresh empty few =>
        have positive : 0 < v.bytesPerCluster := valid.bytesPerCluster_pos
        have needs : v.free.length < max (v.numCluster len) 1 := by
          have := numCluster_mul v positive len
          by_contra enough
          have := Nat.mul_le_mul_right v.bytesPerCluster (show v.numCluster len ≤ v.free.length by omega)
          omega
        rw [perform, Volume.write, startWrite, if_pos fresh, if_neg (not_not_intro empty),
          allocateClusterChain_overrun valid needs]
        rfl
    | @write fd buf len first i c o l writesAt cursor few =>
        rcases writesAt with ⟨ne, off, cluster⟩
        have start : v.startWrite fd len = .ok (v, c) := by
          rw [startWrite]
          by_cases fresh : fd.wrCluster = 0
          · rw [if_pos fresh] at cluster
            rw [if_pos fresh, ← cluster, if_pos ne]
          · rw [if_neg fresh] at cluster
            rw [if_neg fresh, cluster]
        have loop := writeLoop_overrun valid cursor buf (len + 1) (by omega)
          (show 0 + v.room l i o + v.free.length * v.bytesPerCluster < len by omega)
        rw [perform, Volume.write, start]
        simp only [bind, Except.bind]
        rw [← off, loop]
        rfl
  refine ⟨overrun, ?_⟩
  rintro ⟨err, v', returned, -⟩
  rw [overrun] at returned
  cases returned

/-! ## A full volume -/

/-- The small volume, with its two other clusters in use. -/
def fullVolume : Volume :=
  (smallVolume.setFat 4 kEndOfClusterchain).setFat 5 kEndOfClusterchain

theorem not_reported_of_exceeds_fullVolume :
    fullVolume.perform (.allocateClusterChain 1) = .error (.fatIndex 6) ∧
      ¬ fullVolume.Reported (.allocateClusterChain 1) :=
  not_reported_of_exceeds (v := fullVolume) valid_smallBpb (.allocateClusterChain (by decide))

/-- One more cluster is not there. -/
theorem not_reported_fullVolume : fullVolume.bpb.Valid ∧ fullVolume.Exceeds (.allocateClusterChain 1) ∧
    ¬ fullVolume.Reported (.allocateClusterChain 1) := by
  refine ⟨valid_smallBpb, .allocateClusterChain (by decide), ?_⟩
  rintro ⟨err, v', returned, -⟩
  have overrun : fullVolume.allocateClusterChain 1 = .error (.fatIndex 6) := by
    rw [allocateClusterChain_eq valid_smallBpb, show fullVolume.free = [] by decide]
    rfl
  rw [perform, overrun] at returned
  cases returned

end Volume

end Mikanos.Fat
