import Mikanos.Fat.Appending

/-!
# Files that are written call by call

Between two calls the file holds the first bytes of the content in the first clusters that
were free.  Calls that fit append their buffers, and what has been written is read back.
-/

namespace Mikanos.Fat

open Mikanos.Memory Mikanos.Chain

namespace Volume

variable {v₀ v v' v'' : Volume} {content buf : Mem} {fd fd' : FileDescriptor}
  {first i k c o p len total : Nat} {l new : List Nat}

/-! ## The file between two calls -/

/-- A descriptor of a file that began empty has written the first `p` bytes of the content
to the first `k` clusters that were free. -/
structure Stored (v₀ v : Volume) (content : Mem) (fd : FileDescriptor) (k p : Nat) : Prop where
  filled : Filled v₀ v content (v.firstCluster fd.fatEntry) k (k - 1) fd.wrCluster fd.wrClusterOff p
  moved : 0 < fd.wrClusterOff ∨ p = 0
  wrOff : fd.wrOff = p
  fileSize : v.fileSize fd.fatEntry = p % 2 ^ 32
  away : v.Away fd.fatEntry (v₀.free.take k)
  fresh : ∀ d ∈ v₀.free.drop k, ∀ a, v₀.InCluster d a → v.mem a = v₀.mem a

/-- A cluster that is written no more keeps its data. -/
theorem Wrote.keeps_cluster {entry d a : Nat} (wrote : Wrote v v' entry first l new i)
    (valid : v.bpb.Valid) (has : v.bpb.HasCluster d) (outside : d ∉ (l ++ new).drop i)
    (notEntry : ∀ j < directoryEntrySize, ¬ v.InCluster d (entry + j)) (inside : v.InCluster d a) :
    v'.mem a = v.mem a := by
  apply wrote.data a (dataOffset_le_of_inCluster valid has inside)
  · intro assigned
    rw [Assigned, directoryEntrySize] at assigned
    apply notEntry (a - entry)
    · rw [directoryEntrySize]
      omega
    · rw [Nat.add_sub_of_le (by omega)]
      exact inside
  · intro c member inside'
    have hasC := wrote.chain.inside c (List.mem_of_mem_drop member)
    rw [wrote.bpb] at hasC
    rw [eq_of_inCluster valid has hasC inside inside'] at outside
    exact outside member

theorem inCluster_congr (bpb : v'.bpb = v.bpb) (d a : Nat) : v'.InCluster d a ↔ v.InCluster d a := by
  rw [InCluster, bytesPerCluster, bpb, InCluster, bytesPerCluster]

theorem away_of_setFileSize {entry size : Nat} (valid : v.bpb.Valid)
    (away : (v.setFileSize entry size).Away entry l) : v.Away entry l where
  data := away.data
  apart := by
    intro d has inside j lt
    apply away.apart d has _ j lt
    have data : v.bpb.dataOffset ≤ entry := away.data
    rw [(sameFat_setFileSize data size).fat valid has]
    exact inside

/-- The state after a call whose loop has stored its buffer. -/
theorem stored_of_completes {new : List Nat} {i' : Nat} (valid : v₀.bpb.Valid) (bpb : v.bpb = v₀.bpb)
    (away : v.Away fd.fatEntry l) (isFree : ∀ d ∈ v₀.free.drop k, d ∈ v.free)
    (same : ∀ d ∈ v₀.free.drop k, ∀ a, v₀.InCluster d a → v.mem a = v₀.mem a)
    (completes : Completes v fd l i len len fd' (v'.setFileSize fd.fatEntry p) new i')
    (filled : Filled v₀ v' content first k (k - 1) fd'.wrCluster fd'.wrClusterOff p)
    (firstEq : (v'.setFileSize fd.fatEntry p).firstCluster fd.fatEntry = first)
    (moved : 0 < fd'.wrClusterOff ∨ p = 0) (wrOff : fd'.wrOff = p) :
    Stored v₀ (v'.setFileSize fd.fatEntry p) content fd' k p := by
  have wrote := completes.wrote
  have valid' : v'.bpb.Valid := by
    rw [filled.bpb]
    exact valid
  have away' := wrote.away away
  have chain := wrote.chain
  have data : v'.bpb.dataOffset ≤ fd.fatEntry := away'.data
  have same' := sameFat_setFileSize data p
  rw [firstEq] at chain
  have whole : l ++ new = v₀.free.take k := chain.unique (filled.cursor.chain.sameFat valid' same')
  rw [whole] at away'
  have nodup := nodup_freeFrom v₀ 2
  rw [← free] at nodup
  constructor
  · rw [completes.fatEntry, firstEq]
    exact filled.setFileSize valid (away_of_setFileSize valid' away') p
  · exact moved
  · exact wrOff
  · rw [completes.fatEntry, completes.fileSize, wrOff]
  · rw [completes.fatEntry]
    exact away'
  · intro d member a inside
    rcases mem_free.mp (isFree d member) with ⟨has, zero⟩
    rw [wrote.keeps_cluster (bpb ▸ valid) has _ (away.apart d has (.inr zero))
      ((inCluster_congr bpb d a).mpr inside)]
    · exact same d member a inside
    · intro inFile
      exact not_mem_take nodup member (whole ▸ List.mem_of_mem_drop inFile)

/-! ## Calls that fit -/

/-- A later call that fits. -/
theorem Stored.append (valid : v₀.bpb.Valid) (stored : Stored v₀ v content fd k p)
    (fits : Fits v₀.bytesPerCluster fd.wrClusterOff len) (agrees : ∀ j < len, content (p + j) = buf j)
    (enough : p + len ≤ v₀.free.length * v₀.bytesPerCluster) :
    ∃ fd' v' k', v.write fd buf len = .ok (len, fd', v') ∧ Stored v₀ v' content fd' k' (p + len) ∧
      fd'.fatEntry = fd.fatEntry := by
  have filled := stored.filled
  have valid' : v.bpb.Valid := by
    rw [filled.bpb]
    exact valid
  rcases filled.appends valid fits agrees enough with ⟨v₁, k', c', o', loopEq, filled', le, moved⟩
  have started : v.startWrite fd len = .ok (v, fd.wrCluster) := by
    rw [startWrite, if_neg (ne_zero_of_has filled.cursor.has)]
  rcases written_of_writeLoop valid' filled.cursor buf loopEq with
    ⟨new, i', written, cursor, index_le, -, -⟩
  have start := Wrote.refl filled.cursor.chain (k - 1)
  have whole : v₀.free.take k ++ [] = v₀.free.take k := List.append_nil _
  rcases completes_of_loop valid' stored.away started start loopEq (whole.symm ▸ written)
    (whole.symm ▸ cursor) index_le le_rfl with ⟨fd', writeEq, clusterEq, offEq, firstEq, completes⟩
  rw [stored.wrOff] at writeEq firstEq completes
  rw [← clusterEq, ← offEq] at filled'
  refine ⟨fd', _, k', writeEq, ?_, completes.fatEntry⟩
  have more : ∀ d ∈ v₀.free.drop k', d ∈ v₀.free.drop k := fun d member =>
    (List.drop_sublist_drop_left _ le).subset member
  apply stored_of_completes valid filled.bpb stored.away _ _ completes filled' firstEq
  · rw [offEq]
    rcases moved with positive | ⟨none, same⟩
    · exact .inl positive
    · rw [same, none]
      exact stored.moved
  · rw [completes.wrOff, stored.wrOff]
  · intro d member
    rw [filled.free]
    exact more d member
  · exact fun d member => stored.fresh d (more d member)

/-- The first call, if it fits. -/
theorem stored_of_first {entry : Nat} (valid : v₀.bpb.Valid) (none : v₀.firstCluster entry = 0)
    (away : v₀.Away entry []) (fits : FitsFirst v₀.bytesPerCluster len)
    (agrees : ∀ j < len, content j = buf j) (some : v₀.free ≠ [])
    (enough : len ≤ v₀.free.length * v₀.bytesPerCluster) :
    ∃ fd' v' k', v₀.write (.make entry) buf len = .ok (len, fd', v') ∧
      Stored v₀ v' content fd' k' len ∧ fd'.fatEntry = entry := by
  have opened : Opened v₀ (.make entry) [] 0 := .empty rfl rfl none
  have few : v₀.allocated [] len ≤ v₀.free.length := by
    rw [allocated, if_pos rfl]
    have := numCluster_le v₀ enough
    have := List.length_pos_of_ne_nil some
    omega
  rcases startWrite_cases valid opened away.data len with
    ⟨v₁, c, first, started, start, cursor, left, -⟩ | ⟨-, exceeds⟩
  · generalize count : v₀.allocated [] len = k at *
    rw [List.nil_append] at cursor
    have filled : Filled v₀ v₁ content first k 0 c 0 0 :=
      ⟨start.bpb, cursor, few, left, by simp, by simp⟩
    rw [allocated, if_pos rfl] at count
    rcases filled.begins valid count.symm fits agrees with ⟨v₂, c', o', loopEq, filled', moved⟩
    rcases written_of_writeLoop (start.bpb ▸ valid) cursor buf loopEq with
      ⟨new, i', written, cursor', index_le, -, -⟩
    rcases completes_of_loop valid away started start loopEq written cursor' index_le le_rfl with
      ⟨fd', writeEq, clusterEq, offEq, firstEq, completes⟩
    rw [← clusterEq, ← offEq] at filled'
    have wrOff : (FileDescriptor.make entry).wrOff + len = len := Nat.zero_add len
    rw [wrOff] at writeEq firstEq completes
    refine ⟨fd', _, k, writeEq, ?_, completes.fatEntry⟩
    apply stored_of_completes valid rfl away _ _ completes filled' firstEq
    · rw [offEq]
      exact moved.imp id And.left
    · rw [completes.wrOff, wrOff]
    · exact fun d member => List.mem_of_mem_drop member
    · exact fun d _ a _ => rfl
  · exact absurd few (Nat.not_le_of_lt exceeds)

/-! ## Sequences of calls -/

/-- The calls with these lengths fit behind `p` bytes. -/
def CleanFrom (bytes : Nat) : Nat → List Nat → Prop
  | _, [] => True
  | p, len :: lens => Fits bytes (offsetAt bytes p) len ∧ CleanFrom bytes (p + len) lens

/-- The calls with these lengths fit, from an empty file on. -/
def Clean (bytes : Nat) : List Nat → Prop
  | [] => True
  | len :: lens => FitsFirst bytes len ∧ CleanFrom bytes len lens

variable {writes : List (Mem × Nat)}

/-- The lengths of the buffers. -/
def lengths (writes : List (Mem × Nat)) : List Nat :=
  writes.map fun w => w.2

/-- The bytes of the buffers, one after the other. -/
def buffers (writes : List (Mem × Nat)) : List UInt8 :=
  writes.flatMap fun w => w.1.bytes 0 w.2

/-- The same by position. -/
def contents : List (Mem × Nat) → Mem
  | [], _ => 0
  | (buf, len) :: writes, q => if q < len then buf q else contents writes (q - len)

theorem lengths_cons (buf : Mem) (len : Nat) (writes : List (Mem × Nat)) :
    lengths ((buf, len) :: writes) = len :: lengths writes :=
  rfl

theorem contents_cons_inside (buf : Mem) (writes : List (Mem × Nat)) {len j : Nat} (lt : j < len) :
    contents ((buf, len) :: writes) j = buf j :=
  if_pos lt

theorem contents_cons_behind (buf : Mem) (len : Nat) (writes : List (Mem × Nat)) (q : Nat) :
    contents ((buf, len) :: writes) (len + q) = contents writes q := by
  rw [contents, if_neg (Nat.not_lt.mpr (Nat.le_add_right ..)), Nat.add_sub_cancel_left]

/-- Content that agrees with some writes agrees with the first and with the others. -/
theorem agrees_cons {content buf : Mem} {writes : List (Mem × Nat)} {p len n : Nat}
    (agrees : ∀ q < len + n, content (p + q) = contents ((buf, len) :: writes) q) :
    (∀ j < len, content (p + j) = buf j) ∧
      ∀ q < n, content (p + len + q) = contents writes q := by
  refine ⟨fun j lt => ?_, fun q lt => ?_⟩
  · rw [agrees j (by omega), contents_cons_inside buf writes lt]
  · rw [Nat.add_assoc, agrees (len + q) (by omega), contents_cons_behind]

theorem bytes_contents (writes : List (Mem × Nat)) :
    (contents writes).bytes 0 (lengths writes).sum = buffers writes := by
  induction writes with
  | nil => rfl
  | cons w writes ih =>
      rcases w with ⟨buf, len⟩
      have head : (contents ((buf, len) :: writes)).bytes 0 len = buf.bytes 0 len := by
        apply Mem.bytes_congr
        intro j lt
        rw [contents, Nat.zero_add, if_pos lt]
      have tail : (contents ((buf, len) :: writes)).bytes (0 + len) (lengths writes).sum =
          (contents writes).bytes 0 (lengths writes).sum := by
        apply Mem.bytes_congr
        intro j _
        rw [contents, if_neg (by omega)]
        congr 1
        omega
      rw [lengths_cons, List.sum_cons, Mem.bytes_add, head, tail, ih, buffers, buffers,
        List.flatMap_cons]

theorem Stored.offset (stored : Stored v₀ v content fd k p) :
    fd.wrClusterOff = offsetAt v₀.bytesPerCluster p := by
  have off_le := stored.filled.cursor.off_le
  rw [stored.filled.bytesPerCluster] at off_le
  exact (offsetAt_eq stored.filled.position off_le stored.moved).symm

/-- Later calls that fit. -/
theorem Stored.appendAll (valid : v₀.bpb.Valid) (stored : Stored v₀ v content fd k p)
    (clean : CleanFrom v₀.bytesPerCluster p (lengths writes))
    (agrees : ∀ q < (lengths writes).sum, content (p + q) = contents writes q)
    (enough : p + (lengths writes).sum ≤ v₀.free.length * v₀.bytesPerCluster) :
    ∃ fd' v' k', writeAll v fd writes = .ok (lengths writes, fd', v') ∧
      Stored v₀ v' content fd' k' (p + (lengths writes).sum) ∧ fd'.fatEntry = fd.fatEntry := by
  induction writes generalizing v fd k p with
  | nil => exact ⟨fd, v, k, rfl, stored, rfl⟩
  | cons w writes ih =>
      rcases w with ⟨buf, len⟩
      rw [lengths_cons, List.sum_cons] at *
      rcases clean with ⟨fits, rest⟩
      rw [← stored.offset] at fits
      obtain ⟨here, later⟩ := agrees_cons agrees
      rcases stored.append valid fits here (by omega) with ⟨fd₁, v₁, k₁, writeEq, stored₁, entryEq⟩
      rcases ih stored₁ rest later (by omega) with ⟨fd', v', k', restEq, stored', entryEq'⟩
      refine ⟨fd', v', k', ?_, Nat.add_assoc p .. ▸ stored', entryEq'.trans entryEq⟩
      rw [writeAll, writeEq]
      simp only [bind, Except.bind]
      rw [restEq]

/-- The file is read back. -/
theorem Stored.readAll (valid : v₀.bpb.Valid) (stored : Stored v₀ v content fd k p) (small : p < 2 ^ 32)
    (chunks : List Nat) :
    ∃ fd', v.readAll (.make fd.fatEntry) chunks = .ok (content.bytes 0 (min chunks.sum p), fd') := by
  have filled := stored.filled
  have size : v.fileSize (FileDescriptor.make fd.fatEntry).fatEntry = p := by
    rw [← Nat.mod_eq_of_lt small]
    exact stored.fileSize
  have covers : 0 + min chunks.sum (v.fileSize (FileDescriptor.make fd.fatEntry).fatEntry - 0) ≤
      (v₀.free.take k).length * v.bytesPerCluster := by
    have cluster := Nat.mul_le_mul_right v₀.bytesPerCluster filled.lt_count
    have position := filled.position
    have off_le := filled.cursor.off_le
    rw [filled.bytesPerCluster] at off_le
    rw [Nat.succ_mul] at cluster
    rw [size, filled.length_take, filled.bytesPerCluster]
    omega
  have own : v.OwnChain (FileDescriptor.make fd.fatEntry).fatEntry (v₀.free.take k) :=
    .inr filled.cursor.chain
  rcases readAll_eq (filled.bpb ▸ valid) own
    (hasRead_make v fd.fatEntry (v₀.free.take k)) (Nat.zero_le _) chunks covers with ⟨fd', readEq⟩
  refine ⟨fd', ?_⟩
  rw [readEq, size, Nat.sub_zero]
  congr 2
  apply Mem.bytes_congr
  intro j lt
  exact filled.bytes (0 + j) (by omega)

end Volume

end Mikanos.Fat
