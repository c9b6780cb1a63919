import Mikanos.Fat.Isolation
import Mikanos.Fat.Misfits

/-!
# Writing and reading back

What is written to an empty file by successive calls of `Write` is read back, for all
contents of the buffers, exactly if each call fits where the one before has ended.
-/

namespace Mikanos.Fat

open Mikanos.Memory Mikanos.Chain

namespace Volume

variable {v : Volume} {content : Mem} {entry p : Nat} {writes : List (Mem × Nat)} {lens : List Nat}

/-- The calls return the lengths of their buffers and read nothing behind these, the size of
the file is their sum, and the file is read back, in chunks of any sizes. -/
def RoundTrip (v : Volume) (entry : Nat) (writes : List (Mem × Nat)) : Prop :=
  ∃ fd' v', writeAll v (.make entry) writes = .ok (lengths writes, fd', v') ∧
    (∀ others, SameBuffers writes others →
      writeAll v (.make entry) others = .ok (lengths writes, fd', v')) ∧
    v'.fileSize entry = (lengths writes).sum ∧
    ∀ chunks, ∃ fd'', v'.readAll (.make entry) chunks = .ok ((buffers writes).take chunks.sum, fd'')

/-- Buffers of the given lengths make the round trip, whatever they hold. -/
def RoundTrips (v : Volume) (entry : Nat) (lens : List Nat) : Prop :=
  ∀ writes, lengths writes = lens → RoundTrip v entry writes

theorem take_buffers (writes : List (Mem × Nat)) (n : Nat) :
    (buffers writes).take n = (contents writes).bytes 0 (min n (lengths writes).sum) := by
  rw [← bytes_contents]
  rcases Nat.le_total n (lengths writes).sum with le | ge
  · rw [Mem.take_bytes _ _ le, Nat.min_eq_left le]
  · rw [List.take_of_length_le (by rw [Mem.length_bytes]; exact ge), Nat.min_eq_right ge]

/-! ## Clean sequences -/

/-- A file that nothing is written to. -/
theorem roundTrip_nil (valid : v.bpb.Valid) (none : v.firstCluster entry = 0)
    (empty : v.fileSize entry = 0) : RoundTrip v entry [] := by
  refine ⟨.make entry, v, rfl, ?_, empty, ?_⟩
  · intro others same
    cases same
    rfl
  · intro chunks
    have own : v.OwnChain (FileDescriptor.make entry).fatEntry [] := .inl ⟨none, rfl⟩
    have size : v.fileSize (FileDescriptor.make entry).fatEntry = 0 := empty
    rcases readAll_eq valid own (hasRead_make v entry []) (Nat.zero_le _) chunks
      (by rw [size]; simp) with ⟨fd', readEq⟩
    refine ⟨fd', ?_⟩
    rw [readEq, size]
    simp [buffers]

theorem roundTrip_of_clean (valid : v.bpb.Valid) (none : v.firstCluster entry = 0)
    (empty : v.fileSize entry = 0) (away : v.Away entry []) (some : v.free ≠ [])
    (enough : (lengths writes).sum ≤ v.free.length * v.bytesPerCluster)
    (clean : Clean v.bytesPerCluster (lengths writes)) (small : (lengths writes).sum < 2 ^ 32) :
    RoundTrip v entry writes := by
  cases writes with
  | nil => exact roundTrip_nil valid none empty
  | cons w writes =>
      rcases w with ⟨buf, len⟩
      rw [lengths_cons] at clean
      rw [lengths_cons, List.sum_cons] at enough small
      rcases clean with ⟨fits, rest⟩
      have here (j : Nat) (lt : j < len) := contents_cons_inside buf writes lt
      have later (q : Nat) (_ : q < (lengths writes).sum) := contents_cons_behind buf len writes q
      rcases stored_of_first valid none away fits here some (by omega) with
        ⟨fd₁, v₁, k₁, writeEq, stored₁, entryEq⟩
      rcases stored₁.appendAll valid rest later enough with ⟨fd', v', k', restEq, stored, entryEq'⟩
      have result : writeAll v (.make entry) ((buf, len) :: writes) =
          .ok (lengths ((buf, len) :: writes), fd', v') := by
        rw [writeAll, writeEq]
        simp only [bind, Except.bind]
        rw [restEq, lengths_cons]
      have sameEntry : fd'.fatEntry = entry := entryEq'.trans entryEq
      refine ⟨fd', v', result, fun others same => writeAll_congr same result, ?_, ?_⟩
      · rw [← sameEntry, stored.fileSize, Nat.mod_eq_of_lt small, lengths_cons, List.sum_cons]
      · intro chunks
        rcases stored.readAll valid small chunks with ⟨fd'', readEq⟩
        rw [sameEntry] at readEq
        refine ⟨fd'', ?_⟩
        rw [readEq, take_buffers, lengths_cons, List.sum_cons]

/-! ## Other sequences -/

/-- Buffers of the given lengths that hold the content from a position on. -/
def slices (content : Mem) : Nat → List Nat → List (Mem × Nat)
  | _, [] => []
  | p, len :: lens => (fun j => content (p + j), len) :: slices content (p + len) lens

theorem lengths_slices (content : Mem) (p : Nat) (lens : List Nat) :
    lengths (slices content p lens) = lens := by
  induction lens generalizing p with
  | nil => rfl
  | cons len lens ih => rw [slices, lengths_cons, ih]

theorem contents_slices (content : Mem) (p : Nat) (lens : List Nat) {q : Nat} (lt : q < lens.sum) :
    contents (slices content p lens) q = content (p + q) := by
  induction lens generalizing p q with
  | nil => cases lt
  | cons len lens ih =>
      rw [List.sum_cons] at lt
      rw [slices, contents]
      by_cases here : q < len
      · rw [if_pos here]
      · rw [if_neg here, ih (p + len) (by omega)]
        congr 1
        omega

/-- The first call for a file with more than a cluster that does not fill its clusters copies
too much. -/
theorem fitsFirst_of_write {buf : Mem} {len : Nat} {fd' : FileDescriptor} {v' : Volume}
    (valid : v.bpb.Valid) (none : v.firstCluster entry = 0) (away : v.Away entry [])
    (result : v.write (.make entry) buf len = .ok (len, fd', v')) : FitsFirst v.bytesPerCluster len := by
  by_cases short : len ≤ v.bytesPerCluster
  · exact .inl short
  · right
    have opened : Opened v (.make entry) [] 0 := .empty rfl rfl none
    rcases write_inv result with ⟨v₁, c, v₂, c', o', started, loopEq⟩
    rcases startWrite_cases valid opened away.data len with
      ⟨v₁', c₁, first, started', start, cursor, -, -⟩ | ⟨stops, -⟩
    · rw [started] at started'
      cases started'
      have bytes := start.bytesPerCluster
      have divides := dvd_of_writeLoop (start.bpb ▸ valid) cursor (by omega) (by omega) loopEq
      rw [bytes] at divides
      exact divides
    · rw [started] at stops
      cases stops

/-- A cluster that has been left out is read with what it held before. -/
theorem not_roundTrip_of_skipped {v' : Volume} {fd' : FileDescriptor} {j : Nat} (valid : v.bpb.Valid)
    (skipped : Skipped v v' fd' j) (before : j * v.bytesPerCluster < (lengths writes).sum)
    (size : v'.fileSize fd'.fatEntry = (lengths writes).sum)
    (differs : contents writes (j * v.bytesPerCluster) ≠ v.content v.free (j * v.bytesPerCluster)) :
    ¬ ∃ fd'', v'.readAll (.make fd'.fatEntry) [j * v.bytesPerCluster + 1] =
      .ok ((buffers writes).take (j * v.bytesPerCluster + 1), fd'') := by
  rintro ⟨fd'', readEq⟩
  rcases skipped with ⟨bpb, l, i, d, cursor, -, -, get, index, same⟩
  have bytes : v'.bytesPerCluster = v.bytesPerCluster := congrArg BPB.bytesPerCluster bpb
  have positive : 0 < v.bytesPerCluster := valid.bytesPerCluster_pos
  have own : v'.OwnChain (FileDescriptor.make fd'.fatEntry).fatEntry l := .inr cursor.chain
  have size' : v'.fileSize (FileDescriptor.make fd'.fatEntry).fatEntry = (lengths writes).sum := size
  have count : min [j * v.bytesPerCluster + 1].sum ((lengths writes).sum - 0) =
      j * v.bytesPerCluster + 1 := by
    rw [List.sum_singleton]
    omega
  have room := Nat.mul_le_mul_right v.bytesPerCluster (List.getElem?_eq_some_iff.mp index).1
  rw [Nat.succ_mul] at room
  rcases readAll_eq (bpb ▸ valid) own (hasRead_make v' fd'.fatEntry l) (Nat.zero_le _)
    [j * v.bytesPerCluster + 1] (by rw [size', count, bytes]; omega) with ⟨fd₁, readEq'⟩
  rw [readEq, size', count, take_buffers] at readEq'
  injection readEq' with pair
  injection pair with bytesEq _
  rw [Nat.min_eq_left (by omega)] at bytesEq
  have last := Mem.bytes_eq_iff.mp bytesEq (j * v.bytesPerCluster) (Nat.lt_succ_self _)
  rw [Nat.zero_add] at last
  have place (w : Volume) (s : List Nat) (at_j : s[j]? = some d) (wBytes : w.bytesPerCluster =
      v.bytesPerCluster) : w.content s (j * v.bytesPerCluster) = w.mem (w.bpb.getClusterAddr d) := by
    rw [content, fileByte, wBytes, Nat.mul_div_cancel _ positive, Nat.mul_mod_left,
      List.getD_eq_getElem?_getD, at_j, Option.getD_some, Nat.add_zero]
  apply differs
  rw [last, place v' l index bytes, place v v.free get rfl, bpb]
  apply same
  rw [InCluster]
  omega

/-- The calls make the round trip exactly if they fit and the size can be represented. -/
theorem roundTrips_iff (valid : v.bpb.Valid) {d : Nat} {m : List Nat} (chain : v.Chain d m)
    (member : entry ∈ v.slots m) (none : v.firstCluster entry = 0) (empty : v.fileSize entry = 0)
    (some : v.free ≠ []) (enough : lens.sum ≤ v.free.length * v.bytesPerCluster) :
    RoundTrips v entry lens ↔ Clean v.bytesPerCluster lens ∧ lens.sum < 2 ^ 32 := by
  have away : v.Away entry [] := away_of_mem_slots valid chain member (by simp)
  constructor
  · intro roundTrips
    -- buffers that hold nothing of what the free clusters hold
    have lengthsEq := lengths_slices (fun q => v.content v.free q + 1) 0 lens
    have holds {q : Nat} (lt : q < lens.sum) :
        contents (slices (fun q => v.content v.free q + 1) 0 lens) q = v.content v.free q + 1 := by
      rw [contents_slices _ _ _ lt, Nat.zero_add]
    generalize slices (fun q => v.content v.free q + 1) 0 lens = writes at lengthsEq holds
    rcases roundTrips writes lengthsEq with ⟨fd', v', result, -, size, reads⟩
    subst lengthsEq
    refine ⟨?_, size ▸ Mem.load_lt _ _ 4⟩
    by_contra notClean
    have skipped : ∃ j, Skipped v v' fd' j ∧ j * v.bytesPerCluster < (lengths writes).sum ∧
        fd'.fatEntry = entry := by
      cases writes with
      | nil => exact absurd trivial notClean
      | cons w writes =>
          rcases w with ⟨buf, len⟩
          rw [lengths_cons] at result notClean
          rw [lengths_cons, List.sum_cons] at enough holds ⊢
          rcases writeAll_cons result with ⟨fd₁, v₁, writeEq, restEq⟩
          have fits := fitsFirst_of_write valid none away writeEq
          have rest : ¬ CleanFrom v.bytesPerCluster len (lengths writes) :=
            fun rest => notClean ⟨fits, rest⟩
          have here (j : Nat) (lt : j < len) := contents_cons_inside buf writes lt
          have later (q : Nat) (_ : q < (lengths writes).sum) := contents_cons_behind buf len writes q
          rcases stored_of_first valid none away fits here some (by omega) with
            ⟨fd₂, v₂, k₂, writeEq₂, stored, entryEq⟩
          rw [writeEq] at writeEq₂
          cases writeEq₂
          rcases stored.not_clean valid rest later enough restEq with ⟨j, skipped, before, entryEq'⟩
          exact ⟨j, skipped, before, entryEq'.trans entryEq⟩
    rcases skipped with ⟨j, skipped, before, rfl⟩
    apply not_roundTrip_of_skipped valid skipped before size
    · rw [holds before]
      simp
    · have single := reads [j * v.bytesPerCluster + 1]
      rwa [List.sum_singleton] at single
  · rintro ⟨clean, small⟩ writes rfl
    exact roundTrip_of_clean valid none empty away some enough clean small

/-! ## The file `B` -/

theorem roundTrips_iff_twoClusters :
    RoundTrips smallVolumeWithFile entryB [512, 512] ↔
      Clean smallVolumeWithFile.bytesPerCluster [512, 512] ∧ [512, 512].sum < 2 ^ 32 :=
  roundTrips_iff valid_smallBpb (chain_withFile (.inr rfl)) (by decide) (by decide)
    (by decide) (by decide) (by decide)

/-- A call with 600 bytes is not contiguous with clusters of 512 bytes. -/
theorem not_roundTrips_sixHundred :
    smallVolumeWithFile.bpb.Valid ∧ smallVolumeWithFile.Chain 3 [3] ∧
      entryB ∈ smallVolumeWithFile.slots [3] ∧ smallVolumeWithFile.firstCluster entryB = 0 ∧
      smallVolumeWithFile.fileSize entryB = 0 ∧
      [600].sum ≤ smallVolumeWithFile.free.length * smallVolumeWithFile.bytesPerCluster ∧
      ¬ RoundTrips smallVolumeWithFile entryB [600] := by
  have chain := chain_withFile (.inr rfl)
  have member : entryB ∈ smallVolumeWithFile.slots [3] := by decide
  have none : smallVolumeWithFile.firstCluster entryB = 0 := by decide
  refine ⟨valid_smallBpb, chain, member, none, by decide, by decide, ?_⟩
  intro roundTrips
  have away : smallVolumeWithFile.Away entryB [] :=
    away_of_mem_slots valid_smallBpb chain member (by simp)
  rcases roundTrips [(fun _ => 0, 600)] rfl with ⟨fd', v', result, -⟩
  rcases writeAll_cons result with ⟨fd₁, v₁, writeEq, -⟩
  rcases fitsFirst_of_write valid_smallBpb none away writeEq with short | ⟨n, whole⟩
  · exact absurd short (by decide)
  · have bytes : smallVolumeWithFile.bytesPerCluster = 512 := by decide
    have multiple : 600 = 512 * n := bytes ▸ whole
    omega

end Volume

end Mikanos.Fat
