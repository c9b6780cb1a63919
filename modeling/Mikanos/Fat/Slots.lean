import Mikanos.Fat.Extension
import Mikanos.Fat.Names

/-!
# Directories as lists of entries

The loops over the entries of a cluster and over the clusters of a directory are
one search through the list of all entries of the directory.
-/

namespace Mikanos.Fat

open Mikanos.Memory Mikanos.Chain

namespace Volume

variable {v v' : Volume} {first : Nat} {l : List Nat}

/-- The addresses of `n` entries behind one another. -/
def entries : Nat → Nat → List Nat
  | 0, _ => []
  | n + 1, entry => entry :: entries n (entry + directoryEntrySize)

/-- The entries of a cluster. -/
def clusterSlots (v : Volume) (cluster : Nat) : List Nat :=
  entries (v.bytesPerCluster / directoryEntrySize) (v.bpb.getClusterAddr cluster)

/-- The entries of a directory with the given clusters. -/
def slots (v : Volume) (l : List Nat) : List Nat :=
  l.flatMap v.clusterSlots

/-- The first entry with the name, unless the end marker comes first. -/
def lookup (v : Volume) (pathElem : List UInt8) : List Nat → Option Nat
  | [] => none
  | entry :: rest =>
      if v.mem entry = 0 then none
      else if v.nameIsEqual entry pathElem then some entry
      else lookup v pathElem rest

/-- The entry may be taken for a new file. -/
def isFreeSlot (v : Volume) (entry : Nat) : Bool :=
  v.mem entry = 0 ∨ v.mem entry = 0xe5

/-! ## The loops -/

theorem lookup_entries (pathElem : List UInt8) (n entry : Nat) (rest : List Nat) :
    v.lookup pathElem (entries n entry ++ rest) =
      (v.scanCluster pathElem n entry).getD (v.lookup pathElem rest) := by
  induction n generalizing entry with
  | zero => rfl
  | succ n ih =>
      rw [entries, List.cons_append, lookup, scanCluster]
      by_cases atEnd : v.mem entry = 0
      · rw [if_pos atEnd, if_pos atEnd, Option.getD_some]
      · rw [if_neg atEnd, if_neg atEnd]
        by_cases equal : v.nameIsEqual entry pathElem = true
        · rw [if_pos equal, if_neg (fun different => different equal), Option.getD_some]
        · rw [if_neg equal, if_pos equal, ih]

/-- A cluster that exists is not the mark at the end of a chain. -/
theorem ne_kEndOfClusterchain (valid : v.bpb.Valid) {cluster : Nat}
    (has : v.bpb.HasCluster cluster) : cluster ≠ kEndOfClusterchain := by
  have few := valid.clusters_le
  have := has.2
  rw [kEndOfClusterchain]
  omega

/-- `FindFile` searches the list of the entries. -/
theorem findInDirectory_of_chain (valid : v.bpb.Valid) (pathElem : List UInt8)
    (chain : v.Chain first l) (fuel : Nat) (enough : l.length < fuel) :
    v.findInDirectory pathElem fuel first = .ok (v.lookup pathElem (v.slots l)) := by
  rcases chain with ⟨path, inside⟩
  induction path generalizing fuel with
  | @last a ends =>
      rcases fuel with _ | _ | fuel
      · cases enough
      · exact absurd enough (by simp)
      · have has := inside a List.mem_cons_self
        rw [findInDirectory, if_neg (ne_kEndOfClusterchain valid has),
          getSectorByCluster_of_has has, slots, List.flatMap_singleton, clusterSlots,
          ← List.append_nil (entries _ _), lookup_entries]
        simp only [bind, Except.bind]
        cases v.scanCluster pathElem _ _ with
        | some found => rfl
        | none =>
            simp only [nextCluster_of_has has, ends, Option.getD_none, findInDirectory, if_true]
            rfl
  | @link a b l follows rest ih =>
      cases fuel with
      | zero => cases enough
      | succ fuel =>
          have has := inside a List.mem_cons_self
          rw [findInDirectory, if_neg (ne_kEndOfClusterchain valid has),
            getSectorByCluster_of_has has, slots, List.flatMap_cons, clusterSlots, lookup_entries]
          simp only [bind, Except.bind]
          cases v.scanCluster pathElem _ _ with
          | some found => rfl
          | none =>
              simp only [nextCluster_of_has has, follows, Option.getD_some, Option.getD_none]
              exact ih fuel (Nat.lt_of_succ_lt_succ enough)
                (fun c member => inside c (List.mem_cons_of_mem _ member))

theorem freeSlot_eq (n entry : Nat) : v.freeSlot n entry = (entries n entry).find? v.isFreeSlot := by
  induction n generalizing entry with
  | zero => rfl
  | succ n ih =>
      rw [freeSlot, entries, List.find?_cons, isFreeSlot]
      by_cases isFree : v.mem entry = 0 ∨ v.mem entry = 0xe5
      · rw [if_pos isFree, decide_eq_true isFree]
      · rw [if_neg isFree, decide_eq_false isFree, ih]

/-- `AllocateEntry` searches the same list for a free entry. -/
theorem findSlot_of_chain (valid : v.bpb.Valid) (chain : v.Chain first l) (fuel : Nat)
    (enough : l.length ≤ fuel) :
    v.findSlot fuel first = .ok (((v.slots l).find? v.isFreeSlot).elim
      (.inr (l.getLast chain.path.ne_nil)) .inl) := by
  rcases chain with ⟨path, inside⟩
  induction path generalizing fuel with
  | @last a ends =>
      cases fuel with
      | zero => cases enough
      | succ fuel =>
          have has := inside a List.mem_cons_self
          rw [findSlot, getSectorByCluster_of_has has, slots, List.flatMap_singleton, clusterSlots,
            ← freeSlot_eq]
          simp only [bind, Except.bind]
          cases v.freeSlot _ _ with
          | some found => rfl
          | none =>
              simp only [nextCluster_of_has has, ends, Option.getD_none, if_true]
              rfl
  | @link a b l follows rest ih =>
      cases fuel with
      | zero => cases enough
      | succ fuel =>
          have has := inside a List.mem_cons_self
          have hasNext := inside b (List.mem_cons_of_mem _ rest.head_mem)
          rw [findSlot, getSectorByCluster_of_has has, slots, List.flatMap_cons, List.find?_append,
            clusterSlots, ← freeSlot_eq]
          simp only [bind, Except.bind]
          cases v.freeSlot _ _ with
          | some found => rfl
          | none =>
              simp only [nextCluster_of_has has, follows, Option.getD_some,
                if_neg (ne_kEndOfClusterchain valid hasNext), Option.none_or,
                List.getLast_cons rest.ne_nil]
              exact ih fuel (Nat.le_of_succ_le_succ enough)
                (fun c member => inside c (List.mem_cons_of_mem _ member))

/-! ## Where the entries are -/

theorem mem_entries {n entry e : Nat} :
    e ∈ entries n entry ↔ ∃ i < n, e = entry + directoryEntrySize * i := by
  induction n generalizing entry with
  | zero => simp [entries]
  | succ n ih =>
      rw [entries, List.mem_cons, ih]
      constructor
      · rintro (rfl | ⟨i, lt, rfl⟩)
        · exact ⟨0, Nat.succ_pos n, rfl⟩
        · exact ⟨i + 1, Nat.succ_lt_succ lt, by rw [Nat.mul_succ]; omega⟩
      · rintro ⟨i, lt, rfl⟩
        cases i with
        | zero => exact .inl rfl
        | succ i => exact .inr ⟨i, Nat.lt_of_succ_lt_succ lt, by rw [Nat.mul_succ]; omega⟩

theorem entries_of_pos {n : Nat} (positive : 0 < n) (entry : Nat) :
    entries n entry = entry :: entries (n - 1) (entry + directoryEntrySize) := by
  cases n with
  | zero => cases positive
  | succ n => rfl

theorem nodup_entries (n entry : Nat) : (entries n entry).Nodup := by
  induction n generalizing entry with
  | zero => exact List.nodup_nil
  | succ n ih =>
      rw [entries, List.nodup_cons]
      constructor
      · rw [mem_entries]
        rintro ⟨i, -, same⟩
        rw [directoryEntrySize] at same
        omega
      · exact ih _

theorem mem_slots {e : Nat} : e ∈ v.slots l ↔ ∃ c ∈ l, e ∈ v.clusterSlots c :=
  List.mem_flatMap

/-- An entry lies in its cluster. -/
theorem inCluster_of_mem_clusterSlots {c e k : Nat} (member : e ∈ v.clusterSlots c)
    (inside : k < directoryEntrySize) : v.InCluster c (e + k) := by
  rcases mem_entries.mp member with ⟨i, lt, rfl⟩
  have fits := Nat.div_mul_le_self v.bytesPerCluster directoryEntrySize
  have before : directoryEntrySize * (i + 1) ≤
      v.bytesPerCluster / directoryEntrySize * directoryEntrySize := by
    rw [Nat.mul_comm]
    exact Nat.mul_le_mul_right _ lt
  rw [Nat.mul_succ] at before
  rw [InCluster]
  omega

/-- Different entries do not overlap. -/
theorem clusterSlots_disjoint (valid : v.bpb.Valid) {c c' e e' : Nat} (has : v.bpb.HasCluster c)
    (has' : v.bpb.HasCluster c') (member : e ∈ v.clusterSlots c) (member' : e' ∈ v.clusterSlots c')
    (ne : e ≠ e') : e + directoryEntrySize ≤ e' ∨ e' + directoryEntrySize ≤ e := by
  by_cases same : c = c'
  · subst same
    rcases mem_entries.mp member with ⟨i, -, rfl⟩
    rcases mem_entries.mp member' with ⟨i', -, rfl⟩
    rcases Nat.lt_trichotomy i i' with lt | rfl | gt
    · have := Nat.mul_le_mul_left directoryEntrySize lt
      rw [Nat.mul_succ] at this
      omega
    · exact absurd rfl ne
    · have := Nat.mul_le_mul_left directoryEntrySize gt
      rw [Nat.mul_succ] at this
      omega
  · have first := inCluster_of_mem_clusterSlots member (k := 0) (by decide)
    have last := inCluster_of_mem_clusterSlots member (k := 31) (by decide)
    have first' := inCluster_of_mem_clusterSlots member' (k := 0) (by decide)
    have last' := inCluster_of_mem_clusterSlots member' (k := 31) (by decide)
    simp only [InCluster, bytesPerCluster] at first last first' last'
    rw [directoryEntrySize]
    rcases valid.clusters_disjoint has has' same with before | after
    · omega
    · omega

theorem nodup_slots (valid : v.bpb.Valid) (chain : v.Chain first l) : (v.slots l).Nodup := by
  apply List.nodup_flatMap.mpr
  constructor
  · exact fun c _ => nodup_entries _ _
  · apply chain.path.nodup.imp_of_mem
    intro c c' member member' ne e inC inC'
    have one := inCluster_of_mem_clusterSlots inC (k := 0) (by decide)
    have other := inCluster_of_mem_clusterSlots inC' (k := 0) (by decide)
    exact ne (eq_of_inCluster valid (chain.inside c member) (chain.inside c' member') one other)

theorem slots_append (l m : List Nat) : v.slots (l ++ m) = v.slots l ++ v.slots m :=
  List.flatMap_append

theorem slots_congr (bpb : v'.bpb = v.bpb) (l : List Nat) : v'.slots l = v.slots l := by
  have clusters : v'.clusterSlots = v.clusterSlots := by
    funext c
    rw [clusterSlots, clusterSlots, bytesPerCluster, bytesPerCluster, bpb]
  rw [slots, slots, clusters]

/-! ## Lookups -/

theorem nameIsEqual_iff {entry : Nat} {pathElem : List UInt8} :
    v.nameIsEqual entry pathElem = true ↔ v.name entry = name83 pathElem := by
  rw [nameIsEqual, beq_iff_eq, name83]

theorem nameIsEqual_congr {entry : Nat} (same : ∀ k < 11, v'.mem (entry + k) = v.mem (entry + k))
    (pathElem : List UInt8) : v'.nameIsEqual entry pathElem = v.nameIsEqual entry pathElem := by
  rw [nameIsEqual, nameIsEqual, name, Mem.bytes_congr same, ← name]

/-- Only the names matter. -/
theorem lookup_congr (pathElem : List UInt8) (s : List Nat)
    (same : ∀ e ∈ s, ∀ k < 11, v'.mem (e + k) = v.mem (e + k)) :
    v'.lookup pathElem s = v.lookup pathElem s := by
  induction s with
  | nil => rfl
  | cons e rest ih =>
      have sameHere := same e List.mem_cons_self
      have first : v'.mem e = v.mem e := sameHere 0 (by decide)
      rw [lookup, lookup, first, nameIsEqual_congr sameHere,
        ih fun d member => same d (List.mem_cons_of_mem _ member)]

theorem lookup_append (pathElem : List UInt8) (s t : List Nat) (used : ∀ e ∈ s, v.mem e ≠ 0) :
    v.lookup pathElem (s ++ t) = (v.lookup pathElem s).or (v.lookup pathElem t) := by
  induction s with
  | nil => rfl
  | cons e rest ih =>
      rw [List.cons_append, lookup, lookup, if_neg (used e List.mem_cons_self),
        if_neg (used e List.mem_cons_self), ih fun d member => used d (List.mem_cons_of_mem _ member)]
      split <;> rfl

theorem lookup_eq_none_of_zero (pathElem : List UInt8) {s : List Nat} (zero : ∀ e ∈ s, v.mem e = 0) :
    v.lookup pathElem s = none := by
  cases s with
  | nil => rfl
  | cons e rest => rw [lookup, if_pos (zero e List.mem_cons_self)]

theorem lookup_eq_some {pathElem : List UInt8} {s : List Nat} {e : Nat}
    (found : v.lookup pathElem s = some e) :
    e ∈ s ∧ v.mem e ≠ 0 ∧ v.name e = name83 pathElem := by
  induction s with
  | nil => cases found
  | cons d rest ih =>
      rw [lookup] at found
      split at found
      · cases found
      · rename_i used
        split at found
        · rename_i equal
          cases found
          exact ⟨List.mem_cons_self, used, nameIsEqual_iff.mp equal⟩
        · rcases ih found with ⟨member, facts⟩
          exact ⟨List.mem_cons_of_mem _ member, facts⟩

/-- The name begins with the first byte of the entry. -/
theorem mem_name (v : Volume) (entry : Nat) : v.mem entry ∈ v.name entry := by
  rw [name, Mem.bytes, List.mem_map]
  exact ⟨0, List.mem_range.mpr (by decide), rfl⟩

theorem head?_name (v : Volume) (entry : Nat) : (v.name entry).head? = some (v.mem entry) :=
  rfl

end Volume

end Mikanos.Fat
