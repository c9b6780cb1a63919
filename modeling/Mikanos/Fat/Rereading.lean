import Mikanos.Fat.Isolation
import Mikanos.Fat.Reading
import Mikanos.Transition.Run

/-!
# Reading a file that is being written

Several descriptors may be open for one file, and each keeps its own cursors.  The size
of the file is the offset of the descriptor that has written last, which may be less
than what another one has read.  `Read` does not expect that, and it does not look again
for the next cluster after it has reached the end of the chain.
-/

namespace Mikanos.Fat

open Mikanos.Memory Mikanos.Chain Mikanos.Transition

namespace Volume

variable {v v' : Volume} {first c o len total fuel p e i : Nat} {l new : List Nat}
  {fd fd' : FileDescriptor} {copied : List UInt8}

/-! ## The clusters that are addressed -/

/-- The clusters that the loop of `Read` addresses.  It calls `NextCluster` for these only. -/
def readLoopClusters (v : Volume) (len : Nat) : Nat → (total rdCluster rdClusterOff : Nat) → List Nat
  | 0, _, _, _ => []
  | fuel + 1, total, rdCluster, rdClusterOff =>
      if total < len then
        let n := min (len - total) (v.bytesPerCluster - rdClusterOff)
        rdCluster ::
          if rdClusterOff + n = v.bytesPerCluster then
            match v.nextCluster rdCluster with
            | .ok next => readLoopClusters v len fuel (total + n) next 0
            | .error _ => []
          else readLoopClusters v len fuel (total + n) rdCluster (rdClusterOff + n)
      else []

/-- The clusters that `Read` addresses. -/
def readClusters (v : Volume) (fd : FileDescriptor) (len : Nat) : List Nat :=
  let rdCluster := if fd.rdCluster = 0 then v.firstCluster fd.fatEntry else fd.rdCluster
  let len := min len ((v.fileSize fd.fatEntry + 2 ^ 64 - fd.rdOff) % 2 ^ 64)
  v.readLoopClusters len (len + 1) 0 rdCluster fd.rdClusterOff

/-- The clusters for which the loop of `Load` calls `NextCluster`. -/
def loadLoopClusters (v : Volume) : Nat → (cluster offset : Nat) → List Nat
  | 0, _, _ => []
  | fuel + 1, cluster, offset =>
      if v.bytesPerCluster ≤ offset then
        cluster ::
          match v.nextCluster cluster with
          | .ok next => loadLoopClusters v fuel next (offset - v.bytesPerCluster)
          | .error _ => []
      else []

/-- The clusters that `Load` addresses, or for which it calls `NextCluster`. -/
def loadClusters (v : Volume) (fd : FileDescriptor) (len offset : Nat) : List Nat :=
  v.loadLoopClusters (offset + 1) (v.firstCluster fd.fatEntry) offset ++
    match v.loadLoop (offset + 1) (v.firstCluster fd.fatEntry) offset with
    | .ok (cluster, _) => v.readClusters (v.loading fd cluster offset) len
    | .error _ => []

theorem readLoopClusters_subset (valid : v.bpb.Valid) (chain : v.Chain first l)
    (at_p : ReadsAt v l p c o) (le : p + (len - total) ≤ l.length * v.bytesPerCluster) :
    ∀ x ∈ v.readLoopClusters len fuel total c o, x ∈ l := by
  induction fuel generalizing total p c o with
  | zero => simp [readLoopClusters]
  | succ fuel ih =>
      rw [readLoopClusters]
      by_cases more : total < len
      · have inside : p < l.length * v.bytesPerCluster := by omega
        have has := chain.inside c (at_p.mem inside)
        have off_lt : o < v.bytesPerCluster :=
          (at_p.get inside).2 ▸ Nat.mod_lt p valid.bytesPerCluster_pos
        rw [if_pos more]
        generalize copied : min (len - total) (v.bytesPerCluster - o) = n
        have rest : p + n + (len - (total + n)) ≤ l.length * v.bytesPerCluster := by omega
        intro x member
        rcases List.mem_cons.mp member with rfl | later
        · exact at_p.mem inside
        · by_cases full : o + n = v.bytesPerCluster
          · rw [if_pos full, nextCluster_of_has has] at later
            exact ih (at_p.next valid chain inside full) rest x later
          · rw [if_neg full] at later
            exact ih (at_p.stays inside (by omega)) rest x later
      · rw [if_neg more]
        simp

/-- A call that is to copy something addresses the cluster of the cursor. -/
theorem head_mem_readLoopClusters (more : total < len) (c o : Nat) :
    c ∈ v.readLoopClusters len (fuel + 1) total c o := by
  rw [readLoopClusters, if_pos more]
  exact List.mem_cons_self

theorem loadLoopClusters_subset (valid : v.bpb.Valid) (chain : v.Chain first l)
    (le : i + o / v.bytesPerCluster ≤ l.length) :
    ∀ x ∈ v.loadLoopClusters fuel (l[i]?.getD kEndOfClusterchain) o, x ∈ l := by
  induction fuel generalizing i o with
  | zero => simp [loadLoopClusters]
  | succ fuel ih =>
      rw [loadLoopClusters]
      by_cases far : v.bytesPerCluster ≤ o
      · have rest : o / v.bytesPerCluster = (o - v.bytesPerCluster) / v.bytesPerCluster + 1 :=
          Nat.div_eq_sub_div valid.bytesPerCluster_pos far
        rw [rest] at le
        have inside : i < l.length :=
          Nat.lt_of_lt_of_le (Nat.lt_add_of_pos_right (Nat.succ_pos _)) le
        have get := List.getElem?_eq_getElem inside
        rw [if_pos far, get, Option.getD_some, nextCluster_of_has (chain.inside _ (List.getElem_mem inside)),
          chain.path.next_getElem get]
        intro x member
        rcases List.mem_cons.mp member with rfl | later
        · exact List.getElem_mem inside
        · exact ih (by rwa [Nat.add_assoc, Nat.add_comm 1]) x later
      · rw [if_neg far]
        simp

/-- The loop of `Load`, from the beginning of a file. -/
theorem loadLoopClusters_own (valid : v.bpb.Valid) (own : v.OwnChain e l)
    (le : o / v.bytesPerCluster ≤ l.length) :
    ∀ x ∈ v.loadLoopClusters fuel (v.firstCluster e) o, x ∈ l := by
  rcases own with ⟨-, rfl⟩ | chain
  · have short : ¬ v.bytesPerCluster ≤ o := by
      have positive : 0 < v.bytesPerCluster := valid.bytesPerCluster_pos
      rw [List.length_nil, Nat.le_zero, Nat.div_eq_zero_iff] at le
      omega
    cases fuel with
    | zero => exact fun x member => absurd member List.not_mem_nil
    | succ fuel =>
        rw [loadLoopClusters, if_neg short]
        exact fun x member => absurd member List.not_mem_nil
  · have subset := @loadLoopClusters_subset v _ o fuel 0 l valid chain (by omega)
    rw [chain.getElem?_zero, Option.getD_some] at subset
    exact subset

/-- If the offset lies behind the chain, the loop of `Load` calls `NextCluster` for the end
of the chain. -/
theorem eoc_mem_loadLoopClusters (valid : v.bpb.Valid) (chain : v.Chain first l) (le : i ≤ l.length)
    (far : l.length < i + o / v.bytesPerCluster) (enough : o < fuel) :
    kEndOfClusterchain ∈ v.loadLoopClusters fuel (l[i]?.getD kEndOfClusterchain) o := by
  induction fuel generalizing i o with
  | zero => omega
  | succ fuel ih =>
      have positive : 0 < v.bytesPerCluster := valid.bytesPerCluster_pos
      have more : v.bytesPerCluster ≤ o := by
        by_contra short
        rw [Nat.div_eq_of_lt (by omega)] at far
        omega
      have rest : o / v.bytesPerCluster = (o - v.bytesPerCluster) / v.bytesPerCluster + 1 :=
        Nat.div_eq_sub_div positive more
      rw [loadLoopClusters, if_pos more]
      by_cases inside : i < l.length
      · have get := List.getElem?_eq_getElem inside
        rw [get, Option.getD_some, nextCluster_of_has (chain.inside _ (List.getElem_mem inside)),
          chain.path.next_getElem get]
        rw [rest] at far
        exact List.mem_cons_of_mem _ (ih inside (by rwa [Nat.add_assoc, Nat.add_comm 1]) (by omega))
      · rw [List.getElem?_eq_none (by omega), Option.getD_none]
        exact List.mem_cons_self

/-! ## One call -/

/-- How many bytes `Read` copies: the size of the file may be less than the offset. -/
def rest (v : Volume) (fd : FileDescriptor) (len : Nat) : Nat :=
  min len ((v.fileSize fd.fatEntry + 2 ^ 64 - fd.rdOff) % 2 ^ 64)

theorem rest_eq (within : fd.rdOff ≤ v.fileSize fd.fatEntry) :
    v.rest fd len = min len (v.fileSize fd.fatEntry - fd.rdOff) := by
  have size_lt : v.fileSize fd.fatEntry < 2 ^ 32 := Mem.load_lt _ _ 4
  rw [rest]
  omega

@[simp]
theorem rest_zero (v : Volume) (fd : FileDescriptor) : v.rest fd 0 = 0 := by
  rw [rest, Nat.zero_min]

theorem rest_pos (beyond : v.fileSize fd.fatEntry < fd.rdOff) (small : fd.rdOff < 2 ^ 64)
    (some : 0 < len) : 0 < v.rest fd len := by
  rw [rest]
  omega

theorem length_of_readLoop {c' o' : Nat}
    (result : v.readLoop len fuel total c o = .ok (copied, c', o')) : copied.length = len - total := by
  induction fuel generalizing total c o copied with
  | zero => cases result
  | succ fuel ih =>
      rw [readLoop] at result
      by_cases more : total < len
      · rw [if_pos more] at result
        generalize count : min (len - total) (v.bytesPerCluster - o) = n at result
        have few : n ≤ len - total := count ▸ Nat.min_le_left _ _
        have done {a : Nat} {others : List UInt8} (length : others.length = len - (total + n)) :
            (v.mem.bytes a n ++ others).length = len - total := by
          rw [List.length_append, Mem.length_bytes, length]
          omega
        simp only [bind, Except.bind] at result
        split at result
        · cases result
        · split at result
          · split at result
            · cases result
            · split at result
              · cases result
              · rename_i pair loop
                rcases pair with ⟨others, cursor⟩
                cases result
                exact done (ih loop)
          · split at result
            · cases result
            · rename_i pair loop
              rcases pair with ⟨others, cursor⟩
              cases result
              exact done (ih loop)
      · rw [if_neg more] at result
        cases result
        rw [List.length_nil]
        omega

/-- What `Read` changes in a descriptor. -/
theorem read_inv (result : v.read fd len = .ok (copied, fd')) :
    copied.length = v.rest fd len ∧
      fd' = { fd with
        rdOff := fd.rdOff + copied.length, rdCluster := fd'.rdCluster, rdClusterOff := fd'.rdClusterOff } := by
  rw [read] at result
  simp only [bind, Except.bind] at result
  split at result
  · cases result
  · rename_i loop
    cases result
    exact ⟨(length_of_readLoop loop).trans (Nat.sub_zero _), rfl⟩

/-- A call that copies nothing. -/
theorem read_nothing (none : v.rest fd len = 0) :
    v.read fd len = .ok ([],
      { fd with rdCluster := if fd.rdCluster = 0 then v.firstCluster fd.fatEntry else fd.rdCluster }) ∧
      v.readClusters fd len = [] := by
  rw [rest] at none
  constructor
  · rw [read, none]
    rfl
  · rw [readClusters, none]
    rfl

theorem readClusters_subset (valid : v.bpb.Valid) (own : v.OwnChain fd.fatEntry l)
    (hasRead : HasRead v fd l p) (covers : p + v.rest fd len ≤ l.length * v.bytesPerCluster) :
    ∀ x ∈ v.readClusters fd len, x ∈ l := by
  rcases own with ⟨-, rfl⟩ | chain
  · rw [List.length_nil, Nat.zero_mul] at covers
    rw [(read_nothing (show v.rest fd len = 0 by omega)).2]
    simp
  · exact readLoopClusters_subset valid chain (hasRead.start chain) covers

/-- A call that is to copy something addresses the cluster of the cursor. -/
theorem cursor_mem_readClusters (some : 0 < v.rest fd len) (started : fd.rdCluster ≠ 0) :
    fd.rdCluster ∈ v.readClusters fd len := by
  rw [readClusters, if_neg started]
  exact head_mem_readLoopClusters some _ _

/-- What `Write` changes in a descriptor. -/
theorem write_frame {buf : Mem} {returned : Nat} (result : v.write fd buf len = .ok (returned, fd', v')) :
    fd' = { fd with
      wrOff := fd.wrOff + returned, wrCluster := fd'.wrCluster, wrClusterOff := fd'.wrClusterOff } := by
  rw [write] at result
  simp only [bind, Except.bind] at result
  split at result
  · cases result
  · split at result
    · cases result
    · cases result
      rfl

/-! ## Descriptors of one file -/

/-- What is expected of a call that is to copy `len` bytes from an offset on: it copies what
the file has there, and addresses clusters of the file only. -/
structure ReadsInside (v : Volume) (e offset len : Nat) (clusters : List Nat) (copied : List UInt8) :
    Prop where
  length_le : copied.length ≤ v.fileSize e - offset
  inChain : ∃ l, v.OwnChain e l ∧ (∀ c ∈ clusters, c ∈ l) ∧
    copied = (v.content l).bytes offset (min len (v.fileSize e - offset))
  notEnd : kEndOfClusterchain ∉ clusters

/-- A call of `Read` that asks for something must not begin behind the end of the file, and
its cursor must not have passed the end of the chain before the file was extended. -/
def ReadAdmits (v : Volume) (fd : FileDescriptor) (len : Nat) : Prop :=
  len = 0 ∨ fd.rdOff ≤ v.fileSize fd.fatEntry ∧
    (fd.rdCluster = kEndOfClusterchain → fd.rdOff = v.fileSize fd.fatEntry)

instance (v : Volume) (fd : FileDescriptor) (len : Nat) : Decidable (ReadAdmits v fd len) :=
  inferInstanceAs (Decidable (_ ∨ _))

/-- A call of `Load` must not begin behind the end of the file; one that asks for nothing may
begin behind it in the chain. -/
def LoadAdmits (v : Volume) (fd : FileDescriptor) (len offset : Nat) : Prop :=
  offset ≤ v.fileSize fd.fatEntry ∨
    len = 0 ∧ ∃ l, v.OwnChain fd.fatEntry l ∧ offset / v.bytesPerCluster ≤ l.length

/-- The entry `e` is that of a file with the chain `l`, which is long enough for the size. -/
structure HoldsFile (v : Volume) (e : Nat) (l : List Nat) : Prop where
  valid : v.bpb.Valid
  own : v.OwnChain e l
  away : v.Away e l
  size_le : v.fileSize e ≤ l.length * v.bytesPerCluster

/-- The files of a sound volume whose sizes fit their chains. -/
theorem Sound.holdsFile (sound : v.Sound) (isEntry : v.Entry e) (file : ¬ v.IsDirectory e)
    (own : v.OwnChain e l) (size_le : v.fileSize e ≤ l.length * v.bytesPerCluster) : HoldsFile v e l :=
  ⟨sound.valid, own, (sound_iff.mp sound).away isEntry file own, size_le⟩

/-- One of the descriptors for the file with the entry `e` and the chain `l`. -/
structure Shares (v : Volume) (e : Nat) (l : List Nat) (fd : FileDescriptor) : Prop where
  fatEntry : fd.fatEntry = e
  writer : ∃ i, Opened v fd l i ∧ fd.wrOff ≤ v.position i fd.wrClusterOff
  reader : HasRead v fd l fd.rdOff ∨ fd.rdCluster = kEndOfClusterchain
  rdOff_lt : fd.rdOff < 2 ^ 32

theorem Opened.congr (opened : Opened v fd l i) (entry : fd'.fatEntry = fd.fatEntry)
    (cluster : fd'.wrCluster = fd.wrCluster) (off : fd'.wrClusterOff = fd.wrClusterOff) :
    Opened v fd' l i := by
  cases opened with
  | empty start zero none => exact .empty (cluster.trans start) (off.trans zero) (entry ▸ none)
  | fresh start zero chain => exact .fresh (cluster.trans start) (off.trans zero) (entry ▸ chain)
  | cursor cursor =>
      apply Opened.cursor
      rw [entry, cluster, off]
      exact cursor

/-- The cursor of a writer stands in the chain. -/
theorem Opened.position_le (opened : Opened v fd l i) :
    v.position i fd.wrClusterOff ≤ l.length * v.bytesPerCluster := by
  rw [position]
  cases opened with
  | empty _ off _ =>
      rw [off]
      simp
  | fresh _ off _ =>
      rw [off]
      simp
  | cursor cursor =>
      have scaled := Nat.mul_le_mul_right v.bytesPerCluster cursor.lt_length
      have off_le := cursor.off_le
      rw [Nat.succ_mul] at scaled
      omega

theorem eoc_not_mem (own : v.OwnChain e l) (valid : v.bpb.Valid) : kEndOfClusterchain ∉ l := by
  rcases own with ⟨-, rfl⟩ | chain
  · simp
  · intro member
    have has := (chain.inside _ member).2
    have few := valid.clusters_le
    rw [kEndOfClusterchain] at has
    omega

/-- The clusters that `Load` addresses, and those that `Read` then addresses for it. -/
theorem loadClusters_eq (len : Nat) (valid : v.bpb.Valid) (own : v.OwnChain fd.fatEntry l) {offset : Nat}
    (few : offset / v.bytesPerCluster ≤ l.length) :
    ∃ c, v.loadLoop (offset + 1) (v.firstCluster fd.fatEntry) offset = .ok (c, offset % v.bytesPerCluster) ∧
      (offset ≤ l.length * v.bytesPerCluster → HasRead v (v.loading fd c offset) l offset) ∧
      v.loadClusters fd len offset =
        v.loadLoopClusters (offset + 1) (v.firstCluster fd.fatEntry) offset ++
          v.readClusters (v.loading fd c offset) len := by
  rcases loadLoop_cases valid own few with ⟨c, loop, hasRead⟩
  refine ⟨c, loop, hasRead, ?_⟩
  rw [loadClusters, loop]

/-- At an offset inside the file `Load` addresses clusters of the file only. -/
theorem loadClusters_subset (len : Nat) (valid : v.bpb.Valid) (own : v.OwnChain fd.fatEntry l)
    (size_le : v.fileSize fd.fatEntry ≤ l.length * v.bytesPerCluster) {offset : Nat}
    (within : offset ≤ v.fileSize fd.fatEntry) : ∀ x ∈ v.loadClusters fd len offset, x ∈ l := by
  have inside := within.trans size_le
  have few : offset / v.bytesPerCluster ≤ l.length := by
    rw [← Nat.mul_div_cancel l.length valid.bytesPerCluster_pos]
    exact Nat.div_le_div_right inside
  rcases loadClusters_eq len valid own few with ⟨c, -, hasRead, clusters⟩
  have count := @rest_eq v len (v.loading fd c offset) within
  have covers : offset + v.rest (v.loading fd c offset) len ≤ l.length * v.bytesPerCluster := by
    rw [count, show (v.loading fd c offset).fatEntry = fd.fatEntry from rfl,
      show (v.loading fd c offset).rdOff = offset from rfl]
    omega
  intro x member
  rw [clusters] at member
  rcases List.mem_append.mp member with inLoop | inRead
  · exact loadLoopClusters_own valid own few x inLoop
  · exact readClusters_subset valid (show v.OwnChain (v.loading fd c offset).fatEntry _ from own)
      (hasRead inside) covers x inRead

/-- A call of `Load`. -/
theorem HoldsFile.load (holds : HoldsFile v e l) (entry : fd.fatEntry = e) {offset : Nat}
    (admits : LoadAdmits v fd len offset) :
    ∃ copied, v.load fd len offset = .ok copied ∧
      ReadsInside v e offset len (v.loadClusters fd len offset) copied := by
  subst entry
  rcases admits with within | ⟨rfl, l', own, few⟩
  · have subset := loadClusters_subset len holds.valid holds.own holds.size_le within
    refine ⟨_, load_eq holds.valid holds.own holds.size_le within, ?_⟩
    refine ⟨?_, ⟨l, holds.own, subset, rfl⟩, fun member => eoc_not_mem holds.own holds.valid (subset _ member)⟩
    rw [Mem.length_bytes]
    exact Nat.min_le_right _ _
  · rcases loadClusters_eq 0 holds.valid own few with ⟨c, loop, -, clusters⟩
    rcases read_nothing (rest_zero v (v.loading fd c offset)) with ⟨readEq, none⟩
    have subset : ∀ x ∈ v.loadClusters fd 0 offset, x ∈ l' := by
      rw [clusters, none, List.append_nil]
      exact loadLoopClusters_own holds.valid own few
    refine ⟨[], ?_, Nat.zero_le _, ⟨l', own, subset, ?_⟩, fun member =>
      eoc_not_mem own holds.valid (subset _ member)⟩
    · exact load_of_loadLoop loop readEq
    · rw [Nat.zero_min]
      rfl

namespace Shares

/-- A new descriptor. -/
theorem make (own : v.OwnChain e l) : Shares v e l (.make e) where
  fatEntry := rfl
  writer := by
    refine ⟨0, ?_, Nat.zero_le _⟩
    rcases own with ⟨none, rfl⟩ | chain
    · exact .empty rfl rfl none
    · exact .fresh rfl rfl chain
  reader := .inl (hasRead_make v e l)
  rdOff_lt := Nat.two_pow_pos 32

/-- Reading does not change where a descriptor writes. -/
theorem writer_congr (shares : Shares v e l fd) (entry : fd'.fatEntry = fd.fatEntry)
    (cluster : fd'.wrCluster = fd.wrCluster) (off : fd'.wrClusterOff = fd.wrClusterOff)
    (wrOff : fd'.wrOff = fd.wrOff) :
    ∃ i, Opened v fd' l i ∧ fd'.wrOff ≤ v.position i fd'.wrClusterOff := by
  rcases shares.writer with ⟨i, opened, le⟩
  rw [wrOff, off]
  exact ⟨i, opened.congr entry cluster off, le⟩

/-- A call of `Read`. -/
theorem read (holds : HoldsFile v e l) (shares : Shares v e l fd) (admits : ReadAdmits v fd len) :
    ∃ copied fd', v.read fd len = .ok (copied, fd') ∧
      ReadsInside v e fd.rdOff len (v.readClusters fd len) copied ∧ Shares v e l fd' := by
  have own : v.OwnChain fd.fatEntry l := shares.fatEntry.symm ▸ holds.own
  have size_le := holds.size_le
  rw [← shares.fatEntry] at size_le
  by_cases none : v.rest fd len = 0
  · rcases read_nothing none with ⟨readEq, clusters⟩
    have nothing : min len (v.fileSize fd.fatEntry - fd.rdOff) = 0 := by
      by_cases within : fd.rdOff ≤ v.fileSize fd.fatEntry
      · rw [← rest_eq within, none]
      · omega
    refine ⟨_, _, readEq, ?_, ?_⟩
    · rw [clusters, ← shares.fatEntry]
      refine ⟨Nat.zero_le _, ⟨l, own, by simp, ?_⟩, by simp⟩
      rw [nothing]
      rfl
    · refine ⟨shares.fatEntry, shares.writer_congr rfl rfl rfl rfl, ?_, shares.rdOff_lt⟩
      rcases shares.reader with hasRead | eoc
      · left
        refine ⟨rfl, ?_⟩
        rcases own with ⟨empty, rfl⟩ | chain
        · rcases hasRead.cursor with ⟨fresh, zero, off⟩ | ⟨atEnd, eoc, off⟩ | ⟨get, -⟩
          · exact .inl ⟨(if_pos fresh).trans empty, zero, off⟩
          · have started : fd.rdCluster ≠ 0 := by
              rw [eoc]
              decide
            exact .inr (.inl ⟨atEnd, (if_neg started).trans eoc, off⟩)
          · cases get
        · exact .inr (hasRead.start chain)
      · right
        have started : fd.rdCluster ≠ 0 := by
          rw [eoc]
          decide
        exact (if_neg started).trans eoc
  · have some : len ≠ 0 := by
      rintro rfl
      exact none (rest_zero v fd)
    rcases admits.resolve_left some with ⟨within, atEnd⟩
    have count := @rest_eq v len fd within
    have hasRead : HasRead v fd l fd.rdOff := by
      apply shares.reader.resolve_right
      intro eoc
      have := atEnd eoc
      omega
    rcases @read_eq v _ len _ fd holds.valid own hasRead within (by omega) with
      ⟨fd', readEq, hasRead', -⟩
    rcases read_inv readEq with ⟨-, frame⟩
    have subset := @readClusters_subset v len _ _ fd holds.valid own hasRead (by omega)
    refine ⟨_, fd', readEq, ?_, ?_⟩
    · rw [← shares.fatEntry]
      refine ⟨?_, ⟨l, own, subset, rfl⟩, fun member => eoc_not_mem own holds.valid (subset _ member)⟩
      rw [Mem.length_bytes]
      exact Nat.min_le_right _ _
    · have moved := hasRead'.rdOff
      have size_lt : v.fileSize fd.fatEntry < 2 ^ 32 := Mem.load_lt _ _ 4
      refine ⟨?_, ?_, .inl (moved.symm ▸ hasRead'), by omega⟩
      · rw [frame]
        exact shares.fatEntry
      · apply shares.writer_congr <;> rw [frame]

/-- What another descriptor writes does not change the place of a descriptor. -/
theorem grow (shares : Shares v e l fd)
    (wrote : Wrote v v' e (v'.firstCluster e) l new i) : Shares v' e (l ++ new) fd where
  fatEntry := shares.fatEntry
  writer := by
    have bytes := wrote.bytesPerCluster
    rcases shares.writer with ⟨j, opened, le⟩
    refine ⟨j, ?_, ?_⟩
    · rw [← shares.fatEntry] at wrote
      exact opened.grow wrote
    · rw [position] at le ⊢
      rw [bytes]
      exact le
  reader := by
    rcases shares.reader with ⟨off, fresh | ⟨-, eoc, -⟩ | ⟨get, offset⟩⟩ | eoc
    · exact .inl ⟨off, .inl fresh⟩
    · exact .inr eoc
    · left
      refine ⟨off, .inr (.inr ?_)⟩
      rw [wrote.bytesPerCluster, List.getElem?_append_left (List.getElem?_eq_some_iff.mp get).1]
      exact ⟨get, offset⟩
    · exact .inr eoc
  rdOff_lt := shares.rdOff_lt

/-- A call of `Write`. -/
theorem write (holds : HoldsFile v e l) (shares : Shares v e l fd) {buf : Mem} {returned : Nat}
    (result : v.write fd buf len = .ok (returned, fd', v')) :
    ∃ new i, Wrote v v' e (v'.firstCluster e) l new i ∧ Shares v' e (l ++ new) fd' ∧
      HoldsFile v' e (l ++ new) := by
  rcases shares.writer with ⟨i, opened, le⟩
  have away : v.Away fd.fatEntry l := shares.fatEntry.symm ▸ holds.away
  rcases write_cases holds.valid opened away buf len with
    ⟨returned', fd'', v'', new, i', writeEq, completes, further, -⟩ | ⟨stops, -⟩
  · rw [result] at writeEq
    cases writeEq
    have wrote := completes.wrote
    rw [shares.fatEntry] at wrote
    have frame := write_frame result
    have bytes := wrote.bytesPerCluster
    have passed : fd'.wrOff ≤ v'.position i' fd'.wrClusterOff := by
      rw [completes.wrOff, position, bytes, ← position]
      omega
    have grown := shares.grow wrote
    refine ⟨new, i, wrote, ⟨?_, ⟨i', completes.opened, passed⟩, ?_, ?_⟩, ?_⟩
    · rw [completes.fatEntry]
      exact shares.fatEntry
    · rcases grown.reader with ⟨off, cursor⟩ | eoc
      · left
        rw [frame]
        exact ⟨off, cursor⟩
      · right
        rw [frame]
        exact eoc
    · rw [frame]
      exact shares.rdOff_lt
    · refine ⟨wrote.bpb ▸ holds.valid, .inr wrote.chain, wrote.away holds.away, ?_⟩
      have room := completes.opened.position_le
      have size := completes.fileSize
      rw [shares.fatEntry] at size
      have := Nat.mod_le fd'.wrOff (2 ^ 32)
      omega
  · rw [result] at stops
    cases stops

end Shares

/-! ## Calls that go wrong -/

/-- A call of `Read` that stays inside the file meets the condition. -/
theorem readAdmits_of_inside (small : fd.rdOff < 2 ^ 64) (result : v.read fd len = .ok (copied, fd'))
    (inside : ReadsInside v fd.fatEntry fd.rdOff len (v.readClusters fd len) copied) :
    ReadAdmits v fd len := by
  rw [ReadAdmits]
  by_cases nothing : len = 0
  · exact .inl nothing
  · right
    have some : 0 < len := Nat.pos_of_ne_zero nothing
    have count := (read_inv result).1
    have few := inside.length_le
    have within : fd.rdOff ≤ v.fileSize fd.fatEntry := by
      by_contra before
      have beyond : v.fileSize fd.fatEntry < fd.rdOff := Nat.lt_of_not_le before
      have more : 0 < v.rest fd len := rest_pos beyond small some
      omega
    refine ⟨within, fun eoc => ?_⟩
    by_contra before
    have more : 0 < v.rest fd len := by
      rw [rest_eq within]
      omega
    have started : fd.rdCluster ≠ 0 := by
      rw [eoc]
      decide
    have member := cursor_mem_readClusters more started
    rw [eoc] at member
    exact inside.notEnd member

theorem length_of_load {offset : Nat} (result : v.load fd len offset = .ok copied) :
    copied.length = min len ((v.fileSize fd.fatEntry + 2 ^ 64 - offset) % 2 ^ 64) := by
  rw [load] at result
  simp only [bind, Except.bind] at result
  split at result
  · cases result
  · split at result
    · cases result
    · rename_i readEq
      cases result
      exact (read_inv readEq).1

/-- A call of `Load` that stays inside the file meets the condition. -/
theorem loadAdmits_of_inside (valid : v.bpb.Valid) (own : v.OwnChain fd.fatEntry l) {offset : Nat}
    (small : offset < 2 ^ 64) (result : v.load fd len offset = .ok copied)
    (inside : ReadsInside v fd.fatEntry offset len (v.loadClusters fd len offset) copied) :
    LoadAdmits v fd len offset := by
  rw [LoadAdmits]
  by_cases within : offset ≤ v.fileSize fd.fatEntry
  · exact .inl within
  · right
    have none : len = 0 := by
      by_contra nothing
      have count := length_of_load result
      have few := inside.length_le
      omega
    refine ⟨none, l, own, ?_⟩
    by_contra far
    have early {c : Nat} (member : c ∈ v.loadLoopClusters (offset + 1) (v.firstCluster fd.fatEntry) offset) :
        c ∈ v.loadClusters fd len offset :=
      List.mem_append_left _ member
    rcases own with ⟨empty, rfl⟩ | chain
    · rcases inside.inChain with ⟨l', own', subset, -⟩
      have first : v.firstCluster fd.fatEntry ∈ v.loadClusters fd len offset := by
        apply early
        rw [loadLoopClusters, if_pos]
        · exact List.mem_cons_self
        · by_contra short
          apply far
          rw [Nat.div_eq_of_lt (by omega)]
          exact Nat.zero_le _
      rcases own' with ⟨-, rfl⟩ | chain
      · cases subset _ first
      · exact ne_zero_of_has chain.has_first empty
    · apply inside.notEnd
      apply early
      have member := eoc_mem_loadLoopClusters (i := 0) valid chain (Nat.zero_le _)
        (show l.length < 0 + offset / v.bytesPerCluster by omega) (Nat.lt_succ_self offset)
      rwa [chain.getElem?_zero, Option.getD_some] at member

end Volume

/-! ## Interleaved calls -/

/-- A volume, and the descriptors that are open for one file of it. -/
structure SharedFile where
  volume : Volume
  fds : Nat → FileDescriptor

namespace SharedFile

open Volume

variable {e : Nat} {l : List Nat} {s start : SharedFile}

/-- A call on one of the descriptors. -/
inductive Call
  | read (i : Nat) (len : UInt64)
  | load (i : Nat) (len offset : UInt64)
  | write (i : Nat) (buf : Mem) (len : UInt64)

/-- The file has just been opened by everyone. -/
def opened (v : Volume) (e : Nat) : SharedFile where
  volume := v
  fds := fun _ => .make e

/-- What a call that returns leaves. -/
def perform (s : SharedFile) : Call → Option SharedFile
  | .read i len =>
      (s.volume.read (s.fds i) len.toNat).toOption.map fun result =>
        { s with fds := Function.update s.fds i result.2 }
  | .load i len offset =>
      (s.volume.load (s.fds i) len.toNat offset.toNat).toOption.map fun _ => s
  | .write i buf len =>
      (s.volume.write (s.fds i) buf len.toNat).toOption.map fun result =>
        { volume := result.2.2, fds := Function.update s.fds i result.2.1 }

/-- A call that reads returns, and stays inside the file. -/
def Inside (s : SharedFile) : Call → Prop
  | .read i len =>
      ∃ copied fd', s.volume.read (s.fds i) len.toNat = .ok (copied, fd') ∧
        ReadsInside s.volume (s.fds i).fatEntry (s.fds i).rdOff len.toNat
          (s.volume.readClusters (s.fds i) len.toNat) copied
  | .load i len offset =>
      ∃ copied, s.volume.load (s.fds i) len.toNat offset.toNat = .ok copied ∧
        ReadsInside s.volume (s.fds i).fatEntry offset.toNat len.toNat
          (s.volume.loadClusters (s.fds i) len.toNat offset.toNat) copied
  | .write _ _ _ => True

/-- The condition under which a call does. -/
def Admits (s : SharedFile) : Call → Prop
  | .read i len => ReadAdmits s.volume (s.fds i) len.toNat
  | .load i len offset => LoadAdmits s.volume (s.fds i) len.toNat offset.toNat
  | .write _ _ _ => True

/-- The file holds what its size says, and all descriptors are in its chain. -/
def Consistent (e : Nat) (s : SharedFile) : Prop :=
  ∃ l, HoldsFile s.volume e l ∧ ∀ i, Shares s.volume e l (s.fds i)

theorem consistent_opened {v : Volume} (holds : HoldsFile v e l) : Consistent e (opened v e) :=
  ⟨l, holds, fun _ => .make holds.own⟩

theorem forall_update {v : Volume} {fds : Nat → FileDescriptor} {fd : FileDescriptor} {i : Nat}
    (one : Shares v e l fd) (others : ∀ j, Shares v e l (fds j)) :
    ∀ j, Shares v e l (Function.update fds i fd j) :=
  (Function.forall_update_iff fds fun _ => Shares v e l).mpr ⟨one, fun j _ => others j⟩

/-- Calls that meet the condition keep the descriptors in the chain. -/
theorem consistent_step {s s' : SharedFile} {call : Call} (consistent : Consistent e s)
    (step : guarded (ofFunction perform) Admits s call s') : Consistent e s' := by
  rcases consistent with ⟨l, holds, shares⟩
  rcases step with ⟨admits, performed⟩
  rw [ofFunction_iff] at performed
  cases call with
  | read i len =>
      rcases (shares i).read holds admits with ⟨copied, fd', readEq, -, shares'⟩
      rw [perform, readEq] at performed
      cases performed
      exact ⟨l, holds, forall_update shares' fun j => shares j⟩
  | load i len offset =>
      rcases holds.load (shares i).fatEntry admits with ⟨copied, loadEq, -⟩
      rw [perform, loadEq] at performed
      cases performed
      exact ⟨l, holds, shares⟩
  | write i buf len =>
      rw [perform] at performed
      cases result : s.volume.write (s.fds i) buf len.toNat with
      | error stop =>
          rw [result] at performed
          cases performed
      | ok r =>
          rcases r with ⟨returned, fd', v'⟩
          rw [result] at performed
          cases performed
          rcases (shares i).write holds result with ⟨new, k, wrote, shares', holds'⟩
          exact ⟨l ++ new, holds', forall_update shares' fun j => (shares j).grow wrote⟩

/-- After calls that have met the condition, the next call stays inside the file exactly if
it meets the condition. -/
theorem inside_iff_admits {v : Volume} (holds : HoldsFile v e l)
    (reachable : Reachable (guarded (ofFunction perform) Admits) (opened v e) s) (call : Call) :
    s.Inside call ↔ s.Admits call := by
  have consistent : Consistent e s :=
    reachable.invariant (consistent_opened holds) fun _ _ _ => consistent_step
  rcases consistent with ⟨l', holds', shares⟩
  cases call with
  | read i len =>
      have entry := (shares i).fatEntry
      constructor
      · rintro ⟨copied, fd', result, inside⟩
        have small := (shares i).rdOff_lt
        exact readAdmits_of_inside (by omega) result inside
      · intro admits
        rcases (shares i).read holds' admits with ⟨copied, fd', result, inside, -⟩
        exact ⟨copied, fd', result, entry.symm ▸ inside⟩
  | load i len offset =>
      have entry := (shares i).fatEntry
      constructor
      · rintro ⟨copied, result, inside⟩
        exact loadAdmits_of_inside holds'.valid (entry.symm ▸ holds'.own) offset.toNat_lt result inside
      · intro admits
        rcases holds'.load entry admits with ⟨copied, result, inside⟩
        exact ⟨copied, result, entry.symm ▸ inside⟩
  | write i buf len => exact Iff.rfl

/-! ## Two descriptors that read too much -/

theorem holdsFile_withFile : HoldsFile smallVolumeWithFile entryB [] := by
  rcases entryB_withFile with ⟨-, isEntry, file⟩
  exact sound_withFile.holdsFile isEntry file (.inl ⟨by decide, rfl⟩) (by decide)

theorem inside_iff_admits_written :
    ∃ s, perform (opened smallVolumeWithFile entryB) (.write 0 (fun _ => 0x41) 5) = some s ∧
      (s.Inside (.read 1 3) ↔ s.Admits (.read 1 3)) := by
  have returns : (perform (opened smallVolumeWithFile entryB) (.write 0 (fun _ => 0x41) 5)).isSome := by
    decide
  rcases Option.isSome_iff_exists.mp returns with ⟨s, performed⟩
  have step : guarded (ofFunction perform) Admits (opened smallVolumeWithFile entryB)
      (.write 0 (fun _ => 0x41) 5) s :=
    ⟨trivial, performed⟩
  have reachable := (Reachable.refl _ _).next step
  exact ⟨s, performed, inside_iff_admits holdsFile_withFile reachable _⟩

/-- A file of five bytes has been read to its end, and then another descriptor writes one
byte at its beginning. -/
def shrunk : List Call :=
  [.write 0 (fun _ => 0x41) 5, .read 1 5, .write 2 (fun _ => 0x42) 1]

/-- A file of one whole cluster has been read to its end, and then grows by one byte. -/
def grown : List Call :=
  [.write 0 (fun _ => 0x41) 512, .read 1 512, .write 0 (fun _ => 0x42) 1]

/-- Runs of the program after which reading one byte does not stay inside the file. -/
theorem not_inside_of_execute {calls : List Call}
    (reads : (execute perform (opened smallVolumeWithFile entryB) calls).any fun s =>
      decide ((s.fds 1).rdOff < 2 ^ 64 ∧ ¬ ReadAdmits s.volume (s.fds 1) 1)) :
    ∃ s, Run (ofFunction perform) (opened smallVolumeWithFile entryB) calls s ∧
      ¬ s.Inside (.read 1 1) := by
  cases executed : execute perform (opened smallVolumeWithFile entryB) calls with
  | none =>
      rw [executed] at reads
      cases reads
  | some s =>
      rw [executed, Option.any_some, decide_eq_true_eq] at reads
      refine ⟨s, (execute_eq_some_iff _ _ _ _).mp executed, ?_⟩
      rintro ⟨copied, fd', result, inside⟩
      exact reads.2 (readAdmits_of_inside reads.1 result inside)

theorem not_inside_rewritten :
    HoldsFile smallVolumeWithFile entryB [] ∧
      (∃ s, Run (ofFunction perform) (opened smallVolumeWithFile entryB) shrunk s ∧
        ¬ s.Inside (.read 1 1)) ∧
      ∃ s, Run (ofFunction perform) (opened smallVolumeWithFile entryB) grown s ∧
        ¬ s.Inside (.read 1 1) :=
  ⟨holdsFile_withFile, not_inside_of_execute (by decide +kernel), not_inside_of_execute (by decide +kernel)⟩

end SharedFile

end Mikanos.Fat
