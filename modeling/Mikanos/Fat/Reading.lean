import Mikanos.Fat.WriteRun

/-!
# Reading along a chain

`Read` follows the chain of a file from where the last call of it ended.  Whatever the
sizes of the chunks, what it returns is the bytes at consecutive positions of the
chain, up to the size of the file.
-/

namespace Mikanos.Fat

open Mikanos.Memory Mikanos.Chain

namespace Volume

variable {v : Volume} {first p c o len total : Nat} {l : List Nat} {fd : FileDescriptor}

/-- The bytes of the chain `l`, by position. -/
def content (v : Volume) (l : List Nat) : Mem :=
  v.fileByte l

/-- The cursor of `Read` at position `p` of the chain `l`: behind its end, or at offset `o`
in a cluster `c`. -/
def ReadsAt (v : Volume) (l : List Nat) (p c o : Nat) : Prop :=
  p = l.length * v.bytesPerCluster ∧ c = kEndOfClusterchain ∧ o = 0 ∨
    l[p / v.bytesPerCluster]? = some c ∧ o = p % v.bytesPerCluster

/-- The bytes of a part of a cluster are bytes of the file. -/
theorem bytes_cluster (get : l[p / v.bytesPerCluster]? = some c)
    {n : Nat} (le : p % v.bytesPerCluster + n ≤ v.bytesPerCluster) :
    v.mem.bytes (v.bpb.getClusterAddr c + p % v.bytesPerCluster) n = (v.content l).bytes p n := by
  apply Mem.bytes_congr
  intro k lt
  have split := Nat.div_add_mod p v.bytesPerCluster
  have same : (p + k) / v.bytesPerCluster = p / v.bytesPerCluster := by
    apply Nat.div_eq_of_lt_le
    · rw [Nat.mul_comm]
      omega
    · rw [Nat.succ_mul, Nat.mul_comm]
      omega
  have rest := Nat.div_add_mod (p + k) v.bytesPerCluster
  rw [same] at rest
  rw [content, fileByte, same, List.getD_eq_getElem?_getD, get, Option.getD_some]
  congr 1
  omega

namespace ReadsAt

/-- Before the end of the chain the cursor is in one of its clusters. -/
theorem get (at_p : ReadsAt v l p c o) (inside : p < l.length * v.bytesPerCluster) :
    l[p / v.bytesPerCluster]? = some c ∧ o = p % v.bytesPerCluster := by
  rcases at_p with ⟨atEnd, -⟩ | at_c
  · omega
  · exact at_c

theorem mem (at_p : ReadsAt v l p c o) (inside : p < l.length * v.bytesPerCluster) : c ∈ l :=
  List.mem_of_getElem? (at_p.get inside).1

/-- At the end of a cluster the cursor goes on to what follows in the chain. -/
theorem next (valid : v.bpb.Valid) (chain : v.Chain first l) (at_p : ReadsAt v l p c o)
    (inside : p < l.length * v.bytesPerCluster) {n : Nat} (full : o + n = v.bytesPerCluster) :
    ReadsAt v l (p + n) ((v.next c).getD kEndOfClusterchain) 0 := by
  have positive : 0 < v.bytesPerCluster := valid.bytesPerCluster_pos
  rcases at_p.get inside with ⟨get, off⟩
  have split := Nat.div_add_mod p v.bytesPerCluster
  rw [Nat.mul_comm] at split
  have next : (p / v.bytesPerCluster + 1) * v.bytesPerCluster = p + n := by
    rw [Nat.succ_mul]
    omega
  rw [chain.path.next_getElem get]
  by_cases isLast : p / v.bytesPerCluster + 1 < l.length
  · right
    rw [← next, Nat.mul_div_cancel _ positive, Nat.mul_mod_left,
      List.getElem?_eq_getElem isLast, Option.getD_some]
    exact ⟨rfl, rfl⟩
  · left
    have lt := (List.getElem?_eq_some_iff.mp get).1
    rw [← next, show l.length = p / v.bytesPerCluster + 1 by omega,
      List.getElem?_eq_none (by omega)]
    exact ⟨rfl, rfl, rfl⟩

/-- Before the end of a cluster the cursor stays in it. -/
theorem stays (at_p : ReadsAt v l p c o) (inside : p < l.length * v.bytesPerCluster) {n : Nat}
    (lt : o + n < v.bytesPerCluster) : ReadsAt v l (p + n) c (o + n) := by
  rcases at_p.get inside with ⟨get, off⟩
  have split := Nat.div_add_mod p v.bytesPerCluster
  rw [Nat.mul_comm] at split
  have same : (p + n) / v.bytesPerCluster = p / v.bytesPerCluster := by
    apply Nat.div_eq_of_lt_le
    · omega
    · rw [Nat.succ_mul]
      omega
  have again := Nat.div_add_mod (p + n) v.bytesPerCluster
  rw [same, Nat.mul_comm] at again
  right
  rw [same]
  exact ⟨get, by omega⟩

end ReadsAt

/-- The loop of `Read` copies the bytes from the cursor on. -/
theorem readLoop_eq (valid : v.bpb.Valid) (chain : v.Chain first l) (at_p : ReadsAt v l p c o)
    (le : p + (len - total) ≤ l.length * v.bytesPerCluster) {fuel : Nat} (enough : len - total < fuel) :
    ∃ c' o', v.readLoop len fuel total c o = .ok ((v.content l).bytes p (len - total), c', o') ∧
      ReadsAt v l (p + (len - total)) c' o' := by
  induction fuel generalizing total p c o with
  | zero => omega
  | succ fuel ih =>
      rw [readLoop]
      by_cases more : total < len
      · have inside : p < l.length * v.bytesPerCluster := by omega
        rcases at_p.get inside with ⟨get, off⟩
        have has := chain.inside c (at_p.mem inside)
        have off_lt : o < v.bytesPerCluster := off ▸ Nat.mod_lt p valid.bytesPerCluster_pos
        rw [if_pos more, getSectorByCluster_of_has has]
        simp only [bind, Except.bind]
        generalize copied : min (len - total) (v.bytesPerCluster - o) = n
        have progress : 0 < n := by omega
        have count : len - total = n + (len - (total + n)) := by omega
        have bytes := bytes_cluster get (show p % v.bytesPerCluster + n ≤ _ by omega)
        have target : (v.content l).bytes p (len - total) =
            v.mem.bytes (v.bpb.getClusterAddr c + o) n ++
              (v.content l).bytes (p + n) (len - (total + n)) := by
          rw [count, Mem.bytes_add, ← bytes, off]
        -- the rest of the loop, from the position behind what has been copied
        have rest {c₁ o₁ : Nat} (at_n : ReadsAt v l (p + n) c₁ o₁) :=
          ih at_n (show p + n + (len - (total + n)) ≤ _ by omega) (by omega)
        have done : p + n + (len - (total + n)) = p + (len - total) := by omega
        by_cases full : o + n = v.bytesPerCluster
        · rcases rest (at_p.next valid chain inside full) with ⟨c', o', loop, at_end⟩
          rw [if_pos full, nextCluster_of_has has]
          simp only [loop]
          rw [done] at at_end
          exact ⟨c', o', by rw [target], at_end⟩
        · rcases rest (at_p.stays inside (by omega)) with ⟨c', o', loop, at_end⟩
          rw [if_neg full]
          simp only [loop]
          rw [done] at at_end
          exact ⟨c', o', by rw [target], at_end⟩
      · rw [if_neg more, show len - total = 0 by omega, Nat.add_zero]
        exact ⟨c, o, rfl, at_p⟩

/-- A descriptor that has read `p` bytes of a file with the chain `l`. -/
structure HasRead (v : Volume) (fd : FileDescriptor) (l : List Nat) (p : Nat) : Prop where
  rdOff : fd.rdOff = p
  cursor : fd.rdCluster = 0 ∧ p = 0 ∧ fd.rdClusterOff = 0 ∨ ReadsAt v l p fd.rdCluster fd.rdClusterOff

/-- A new descriptor has read nothing. -/
theorem hasRead_make (v : Volume) (e : Nat) (l : List Nat) : HasRead v (.make e) l 0 where
  rdOff := rfl
  cursor := .inl ⟨rfl, rfl, rfl⟩

/-- Where a call of `Read` begins. -/
theorem HasRead.start (hasRead : HasRead v fd l p) (chain : v.Chain first l) :
    ReadsAt v l p (if fd.rdCluster = 0 then first else fd.rdCluster) fd.rdClusterOff := by
  rcases hasRead.cursor with ⟨fresh, rfl, off⟩ | at_p
  · right
    rw [if_pos fresh, Nat.zero_div, Nat.zero_mod]
    exact ⟨chain.getElem?_zero, off⟩
  · rw [if_neg]
    · exact at_p
    · intro fresh
      rcases at_p with ⟨-, eoc, -⟩ | ⟨get, -⟩
      · rw [fresh] at eoc
        exact absurd eoc (by decide)
      · exact ne_zero_of_has (chain.inside _ (List.mem_of_getElem? get)) fresh

/-- `Read` returns the next bytes of the file, at most up to its size. -/
theorem read_eq (valid : v.bpb.Valid) (own : v.OwnChain fd.fatEntry l) (hasRead : HasRead v fd l p)
    (within : p ≤ v.fileSize fd.fatEntry)
    (covers : p + min len (v.fileSize fd.fatEntry - p) ≤ l.length * v.bytesPerCluster) :
    ∃ fd', v.read fd len =
        .ok ((v.content l).bytes p (min len (v.fileSize fd.fatEntry - p)), fd') ∧
      HasRead v fd' l (p + min len (v.fileSize fd.fatEntry - p)) ∧ fd'.fatEntry = fd.fatEntry := by
  have size_lt : v.fileSize fd.fatEntry < 2 ^ 32 := Mem.load_lt _ _ 4
  have rest : (v.fileSize fd.fatEntry + 2 ^ 64 - fd.rdOff) % 2 ^ 64 = v.fileSize fd.fatEntry - p := by
    rw [hasRead.rdOff]
    omega
  rw [read, rest]
  generalize min len (v.fileSize fd.fatEntry - p) = n at *
  generalize start : (if fd.rdCluster = 0 then v.firstCluster fd.fatEntry else fd.rdCluster) = c
  have loop : ∃ c' o', v.readLoop n (n + 1) 0 c fd.rdClusterOff =
      .ok ((v.content l).bytes p n, c', o') ∧
        (c' = 0 ∧ p + n = 0 ∧ o' = 0 ∨ ReadsAt v l (p + n) c' o') := by
    rcases own with ⟨empty, rfl⟩ | chain
    · rw [List.length_nil, Nat.zero_mul] at covers
      have none : n = 0 := by omega
      have atStart : p = 0 := by omega
      subst none atStart
      rw [readLoop, if_neg (Nat.lt_irrefl 0)]
      refine ⟨c, fd.rdClusterOff, rfl, ?_⟩
      rcases hasRead.cursor with ⟨fresh, -, off⟩ | ⟨-, eoc, off⟩ | ⟨get, -⟩
      · rw [if_pos fresh] at start
        exact .inl ⟨start.symm.trans empty, rfl, off⟩
      · rw [if_neg (by rw [eoc]; decide)] at start
        exact .inr (.inl ⟨by simp, start.symm.trans eoc, off⟩)
      · cases get
    · have at_p : ReadsAt v l p c fd.rdClusterOff := start ▸ hasRead.start chain
      rcases readLoop_eq valid chain at_p (show p + (n - 0) ≤ _ from covers)
        (show n - 0 < n + 1 from Nat.lt_succ_self n) with ⟨c', o', loopEq, at_end⟩
      exact ⟨c', o', loopEq, .inr at_end⟩
  rcases loop with ⟨c', o', loopEq, at_end⟩
  rw [loopEq]
  refine ⟨_, rfl, ?_, rfl⟩
  constructor
  · simp [hasRead.rdOff]
  · rcases at_end with ⟨zero, none, off⟩ | at_end
    · exact .inl ⟨zero, none, off⟩
    · exact .inr at_end

/-- Successive calls of `Read` with the given sizes: everything that they return. -/
def readAll (v : Volume) : FileDescriptor → List Nat → Except Stop (List UInt8 × FileDescriptor)
  | fd, [] => .ok ([], fd)
  | fd, len :: chunks => do
      let (copied, fd) ← v.read fd len
      let (rest, fd) ← readAll v fd chunks
      .ok (copied ++ rest, fd)

/-- However a file is cut into chunks, its bytes are returned in order. -/
theorem readAll_eq (valid : v.bpb.Valid) (own : v.OwnChain fd.fatEntry l) (hasRead : HasRead v fd l p)
    (within : p ≤ v.fileSize fd.fatEntry) (chunks : List Nat)
    (covers : p + min chunks.sum (v.fileSize fd.fatEntry - p) ≤ l.length * v.bytesPerCluster) :
    ∃ fd', v.readAll fd chunks =
      .ok ((v.content l).bytes p (min chunks.sum (v.fileSize fd.fatEntry - p)), fd') := by
  induction chunks generalizing fd p with
  | nil => exact ⟨fd, by simp [readAll]⟩
  | cons len chunks ih =>
      rw [List.sum_cons] at covers ⊢
      generalize sizeEq : v.fileSize fd.fatEntry = size at *
      have fewer : p + min len (v.fileSize fd.fatEntry - p) ≤ l.length * v.bytesPerCluster := by
        rw [sizeEq]
        omega
      rcases read_eq valid own hasRead (sizeEq ▸ within) fewer with
        ⟨fd₁, readEq, hasRead₁, entryEq⟩
      rw [sizeEq] at readEq hasRead₁
      have within₁ : p + min len (size - p) ≤ size := by omega
      have split : min (len + chunks.sum) (size - p) =
          min len (size - p) + min chunks.sum (size - (p + min len (size - p))) := by
        omega
      rw [← entryEq] at own sizeEq
      rcases ih own hasRead₁ (sizeEq ▸ within₁) (by rw [sizeEq]; omega) with ⟨fd', restEq⟩
      rw [sizeEq] at restEq
      refine ⟨fd', ?_⟩
      rw [readAll, readEq]
      simp only [bind, Except.bind]
      rw [restEq, split, Mem.bytes_add]

/-! ## Loading -/

/-- The loop of `Load` goes to the cluster that the offset lies in. -/
theorem loadLoop_eq (valid : v.bpb.Valid) (chain : v.Chain first l) {i : Nat}
    (le : i + o / v.bytesPerCluster ≤ l.length) {fuel : Nat} (enough : o < fuel) :
    v.loadLoop fuel (l[i]?.getD kEndOfClusterchain) o =
      .ok (l[i + o / v.bytesPerCluster]?.getD kEndOfClusterchain, o % v.bytesPerCluster) := by
  induction fuel generalizing i o with
  | zero => omega
  | succ fuel ih =>
      have positive : 0 < v.bytesPerCluster := valid.bytesPerCluster_pos
      rw [loadLoop]
      by_cases far : v.bytesPerCluster ≤ o
      · have rest : o / v.bytesPerCluster = (o - v.bytesPerCluster) / v.bytesPerCluster + 1 :=
          Nat.div_eq_sub_div positive far
        rw [rest] at le ⊢
        have inside : i < l.length :=
          Nat.lt_of_lt_of_le (Nat.lt_add_of_pos_right (Nat.succ_pos _)) le
        rw [if_pos far, List.getElem?_eq_getElem inside, Option.getD_some,
          nextCluster_of_has (chain.inside _ (List.getElem_mem inside)),
          chain.path.next_getElem (List.getElem?_eq_getElem inside)]
        simp only [bind, Except.bind]
        rw [ih (by rwa [Nat.add_assoc, Nat.add_comm 1]) (by omega), Nat.add_assoc, Nat.add_comm 1,
          ← Nat.mod_eq_sub_mod far]
      · rw [if_neg far, Nat.mod_eq_of_lt (by omega), Nat.div_eq_of_lt (by omega), Nat.add_zero]

/-- The descriptor that `Load` reads with. -/
def loading (v : Volume) (fd : FileDescriptor) (cluster offset : Nat) : FileDescriptor :=
  { FileDescriptor.make fd.fatEntry with
    rdOff := offset, rdCluster := cluster, rdClusterOff := offset % v.bytesPerCluster }

/-- Where `Load` begins to read, if the chain has enough clusters. -/
theorem loadLoop_cases (valid : v.bpb.Valid) (own : v.OwnChain fd.fatEntry l)
    (le : p / v.bytesPerCluster ≤ l.length) :
    ∃ c, v.loadLoop (p + 1) (v.firstCluster fd.fatEntry) p = .ok (c, p % v.bytesPerCluster) ∧
      (p ≤ l.length * v.bytesPerCluster → HasRead v (v.loading fd c p) l p) := by
  have positive : 0 < v.bytesPerCluster := valid.bytesPerCluster_pos
  rcases own with ⟨empty, rfl⟩ | chain
  · have short : p < v.bytesPerCluster := by
      rw [List.length_nil, Nat.le_zero, Nat.div_eq_zero_iff] at le
      omega
    refine ⟨0, ?_, fun inside => ?_⟩
    · rw [loadLoop, if_neg (by omega), empty, Nat.mod_eq_of_lt short]
    · rw [List.length_nil, Nat.zero_mul] at inside
      have none : p = 0 := by omega
      subst none
      exact ⟨rfl, .inl ⟨rfl, rfl, Nat.zero_mod _⟩⟩
  · have loop := loadLoop_eq valid chain (i := 0) (o := p) (by omega) (Nat.lt_succ_self p)
    rw [chain.getElem?_zero, Option.getD_some, Nat.zero_add] at loop
    refine ⟨_, loop, fun inside => ⟨rfl, .inr ?_⟩⟩
    by_cases atEnd : p / v.bytesPerCluster < l.length
    · right
      rw [List.getElem?_eq_getElem atEnd]
      exact ⟨rfl, rfl⟩
    · have split := Nat.div_add_mod p v.bytesPerCluster
      have whole : p / v.bytesPerCluster = l.length := by omega
      rw [whole, Nat.mul_comm] at split
      left
      refine ⟨by omega, ?_, show p % v.bytesPerCluster = 0 by omega⟩
      rw [loading, List.getElem?_eq_none (by omega), Option.getD_none]

theorem load_of_loadLoop {fd' : FileDescriptor} {copied : List UInt8}
    (loop : v.loadLoop (p + 1) (v.firstCluster fd.fatEntry) p = .ok (c, p % v.bytesPerCluster))
    (readEq : v.read (v.loading fd c p) len = .ok (copied, fd')) : v.load fd len p = .ok copied := by
  rw [loading] at readEq
  rw [load, loop]
  simp only [bind, Except.bind]
  rw [readEq]

/-- `Load` at an offset inside the file returns the bytes from there on, at most up to
the size of the file. -/
theorem load_eq (valid : v.bpb.Valid) (own : v.OwnChain fd.fatEntry l)
    (covers : v.fileSize fd.fatEntry ≤ l.length * v.bytesPerCluster)
    (inside : p ≤ v.fileSize fd.fatEntry) :
    v.load fd len p = .ok ((v.content l).bytes p (min len (v.fileSize fd.fatEntry - p))) := by
  have few : p / v.bytesPerCluster ≤ l.length := by
    rw [← Nat.mul_div_cancel l.length valid.bytesPerCluster_pos]
    exact Nat.div_le_div_right (inside.trans covers)
  rcases loadLoop_cases valid own few with ⟨c, loop, hasRead⟩
  have same : (v.loading fd c p).fatEntry = fd.fatEntry := rfl
  rcases @read_eq v _ len _ _ valid (same ▸ own) (hasRead (inside.trans covers)) inside
    (by rw [same]; omega) with ⟨fd', readEq, -, -⟩
  exact load_of_loadLoop loop readEq

end Volume

end Mikanos.Fat
