import Mikanos.Fat.Slots

/-!
# The tree of directories

The directories of a volume are the root directory and what the entries of
directories refer to.  In a well-formed volume their chains do not meet.  Creating
an entry changes one directory: either an entry that was free is taken, or the
directory grows by a free cluster whose first entry is taken.
-/

namespace Mikanos.Fat

open Mikanos.Memory Mikanos.Chain

namespace Volume

variable {v v' : Volume} {d e : Nat} {l new : List Nat} {filename : List UInt8}

/-- An entry in use, other than `.` and `..`. -/
structure Live (v : Volume) (l : List Nat) (e : Nat) : Prop where
  member : e ∈ v.slots l
  used : v.mem e ≠ 0
  notDeleted : v.mem e ≠ 0xe5
  notDot : v.mem e ≠ dot

/-- The attributes of the entry are those of a directory. -/
def IsDirectory (v : Volume) (e : Nat) : Prop :=
  v.attr e &&& kDirectory ≠ 0

/-- A cluster where a directory begins. -/
inductive Directory (v : Volume) : Nat → Prop
  | root : Directory v v.bpb.rootCluster
  | sub {d e : Nat} {l : List Nat} : Directory v d → v.Chain d l → v.Live l e → v.IsDirectory e →
      Directory v (v.firstCluster e)

/-- The directories of a well-formed volume. -/
structure Tree (v : Volume) : Prop where
  valid : v.bpb.Valid
  /-- every directory has a chain -/
  chain : ∀ {d}, v.Directory d → ∃ l, v.Chain d l
  /-- different directories do not share a cluster -/
  apart : ∀ {d d' l l'}, v.Directory d → v.Directory d' → v.Chain d l → v.Chain d' l' → d ≠ d' →
    ∀ c ∈ l, c ∉ l'
  /-- no entry refers to the root directory -/
  notRoot : ∀ {d l e}, v.Directory d → v.Chain d l → v.Live l e → v.IsDirectory e →
    v.firstCluster e ≠ v.bpb.rootCluster
  /-- behind the end marker there are only end markers -/
  ended : ∀ {d l before e after}, v.Directory d → v.Chain d l →
    v.slots l = before ++ e :: after → v.mem e = 0 → ∀ e' ∈ after, v.mem e' = 0
  /-- no name begins with a blank -/
  named : ∀ {d l e}, v.Directory d → v.Chain d l → v.Live l e → v.mem e ≠ space

/-- An entry with the given name has been taken in the directory with the
clusters `l`, which has grown by the clusters `new`. -/
structure Created (v v' : Volume) (d : Nat) (l new : List Nat) (dir : Nat)
    (filename : List UInt8) : Prop where
  bpb : v'.bpb = v.bpb
  old : v.Chain d l
  chain : v'.Chain d (l ++ new)
  isFree : ∀ c ∈ new, c ∈ v.free
  fat : ∀ x, v.bpb.HasCluster x → x ∉ l → x ∉ new → v'.fat x = v.fat x
  data : ∀ a, v.bpb.dataOffset ≤ a → ¬ (dir ≤ a ∧ a < dir + directoryEntrySize) →
    (∀ c ∈ new, ¬ v.InCluster c a) → v'.mem a = v.mem a
  name : v'.name dir = shortName filename
  place : ∃ before after, v.slots (l ++ new) = before ++ dir :: after ∧
    (∀ e ∈ before, e ∈ v.slots l ∧ v.isFreeSlot e = false) ∧
      (new = [] ∧ v.isFreeSlot dir = true ∨
        before = v.slots l ∧ ∀ e ∈ after, v'.mem e = 0)

/-! ## Creating an entry -/

/-- The two assignments of `CreateFile` to the new entry. -/
def fillEntry (v : Volume) (dir : Nat) (filename : List UInt8) : Volume :=
  (v.setFileName dir filename).setFileSize dir 0

theorem mem_fillEntry_outside {dir a : Nat} (outside : ¬ (dir ≤ a ∧ a < dir + directoryEntrySize)) :
    (v.fillEntry dir filename).mem a = v.mem a := by
  rw [directoryEntrySize] at outside
  rw [fillEntry, setFileSize, setFileName]
  simp only [Mem.store]
  rw [Mem.copyTo_outside (by omega), Mem.copyTo_outside (by omega)]

theorem name_fillEntry (v : Volume) (dir : Nat) (filename : List UInt8) :
    (v.fillEntry dir filename).name dir = shortName filename := by
  rw [← name_setFileName v dir filename, name, fillEntry, setFileSize]
  simp only [Mem.store]
  exact Mem.bytes_copyTo_outside (by omega)

theorem sameFat_fillEntry {dir : Nat} (data : v.bpb.dataOffset ≤ dir) :
    SameFat v (v.fillEntry dir filename) where
  bpb := rfl
  mem := by
    intro a before
    apply mem_fillEntry_outside
    omega

theorem mem_clearCluster (v : Volume) (dir a : Nat) :
    (v.clearCluster dir).mem a =
      if dir ≤ a ∧ a < dir + v.bytesPerCluster then 0 else v.mem a :=
  rfl

theorem sameFat_clearCluster {dir : Nat} (data : v.bpb.dataOffset ≤ dir) :
    SameFat v (v.clearCluster dir) where
  bpb := rfl
  mem := by
    intro a before
    rw [mem_clearCluster, if_neg]
    omega

/-- An entry that was free is taken. -/
theorem created_of_slot (valid : v.bpb.Valid) (chain : v.Chain d l) {dir : Nat}
    (found : (v.slots l).find? v.isFreeSlot = some dir) :
    Created v (v.fillEntry dir filename) d l [] dir filename := by
  rcases List.find?_eq_some_iff_append.mp found with ⟨isFree, before, after, split, used⟩
  have member : dir ∈ v.slots l := split ▸ List.mem_append_right _ List.mem_cons_self
  rcases mem_slots.mp member with ⟨c, inChain, inCluster⟩
  have has := chain.inside c inChain
  have inData := dataOffset_le_of_inCluster valid has
    (inCluster_of_mem_clusterSlots inCluster (k := 0) (by decide))
  have same : SameFat v (v.fillEntry dir filename) := sameFat_fillEntry inData
  constructor
  · exact same.bpb
  · exact chain
  · rw [List.append_nil]
    exact chain.sameFat valid same
  · exact fun _ member => absurd member List.not_mem_nil
  · exact fun x has _ _ => same.fat valid has
  · exact fun a _ outside _ => mem_fillEntry_outside outside
  · exact name_fillEntry v dir filename
  · refine ⟨before, after, by rw [List.append_nil, split], ?_, .inl ⟨rfl, isFree⟩⟩
    intro e inBefore
    constructor
    · rw [split]
      exact List.mem_append_left _ inBefore
    · have := used e inBefore
      simpa using this

/-- The directory grows by a cluster. -/
theorem created_of_cluster (valid : v.bpb.Valid) (chain : v.Chain d l)
    (full : (v.slots l).find? v.isFreeSlot = none) {c : Nat} {v₁ : Volume}
    (linked : Linked v v₁ (l.getLast chain.path.ne_nil) [c]) (isFree : c ∈ v.free) :
    Created v ((v₁.clearCluster (v.bpb.getClusterAddr c)).fillEntry (v.bpb.getClusterAddr c) filename)
      d l [c] (v.bpb.getClusterAddr c) filename := by
  have has : v.bpb.HasCluster c := (mem_free.mp isFree).1
  have allFree : ∀ x ∈ [c], x ∈ v.free := by
    intro x member
    rw [List.mem_singleton.mp member]
    exact isFree
  have bpb : v₁.bpb = v.bpb := linked.sameData.bpb
  have inData : v.bpb.dataOffset ≤ v.bpb.getClusterAddr c := valid.dataOffset_le_getClusterAddr has
  generalize dirEq : v.bpb.getClusterAddr c = dir at inData ⊢
  have cleared : SameFat v₁ (v₁.clearCluster dir) := by
    apply sameFat_clearCluster
    rw [bpb]
    exact inData
  have same : SameFat v₁ ((v₁.clearCluster dir).fillEntry dir filename) := by
    apply cleared.trans
    apply sameFat_fillEntry
    rw [cleared.bpb, bpb]
    exact inData
  have bytes : v₁.bytesPerCluster = v.bytesPerCluster := congrArg BPB.bytesPerCluster bpb
  have valid₁ : v₁.bpb.Valid := bpb ▸ valid
  constructor
  · exact same.bpb.trans bpb
  · exact chain
  · exact (linked.extends_chain allFree chain rfl).sameFat valid₁ same
  · exact allFree
  · intro x hasX notOld notNew
    rw [same.fat valid₁ (bpb.symm ▸ hasX)]
    apply linked.fat x _ notNew
    rintro rfl
    exact notOld (List.getLast_mem _)
  · intro a inside outside notNew
    have notInCluster := notNew c (List.mem_singleton_self c)
    rw [InCluster, dirEq] at notInCluster
    rw [mem_fillEntry_outside outside, mem_clearCluster, if_neg, linked.sameData.mem a inside]
    rw [bytes]
    omega
  · exact name_fillEntry _ dir filename
  · have pieces : v.clusterSlots c = dir :: entries (v.bytesPerCluster / directoryEntrySize - 1)
        (dir + directoryEntrySize) := by
      have positive : 0 < v.bytesPerCluster / directoryEntrySize :=
        Nat.div_pos (Nat.le_of_dvd valid.bytesPerCluster_pos valid.entries_dvd) (by decide)
      rw [clusterSlots, dirEq, entries_of_pos positive]
    refine ⟨v.slots l, entries (v.bytesPerCluster / directoryEntrySize - 1)
      (dir + directoryEntrySize), ?_, ?_, .inr ⟨rfl, ?_⟩⟩
    · rw [slots_append, slots, slots, List.flatMap_singleton, pieces]
    · intro e member
      have := List.find?_eq_none.mp full e member
      exact ⟨member, by simpa using this⟩
    · intro e member
      have inCluster : e ∈ v.clusterSlots c := by
        rw [pieces]
        exact List.mem_cons_of_mem _ member
      rcases mem_entries.mp member with ⟨i, -, eq⟩
      have inside := inCluster_of_mem_clusterSlots inCluster (k := 0) (by decide)
      rw [InCluster, dirEq, Nat.add_zero] at inside
      rw [mem_fillEntry_outside (by omega), mem_clearCluster, if_pos]
      rw [bytes]
      exact inside

/-- `AllocateEntry` finds the first free entry, or makes the directory longer by a cluster. -/
theorem allocateEntry_cases (valid : v.bpb.Valid) (chain : v.Chain d l) {dir : Nat} {v₁ : Volume}
    (allocated : v.allocateEntry d = .ok (dir, v₁)) :
    (v.slots l).find? v.isFreeSlot = some dir ∧ v₁ = v ∨
      (v.slots l).find? v.isFreeSlot = none ∧ ∃ c v₂, c ∈ v.free ∧
        Linked v v₂ (l.getLast chain.path.ne_nil) [c] ∧ dir = v.bpb.getClusterAddr c ∧
        v₁ = v₂.clearCluster (v.bpb.getClusterAddr c) := by
  rw [allocateEntry, findSlot_of_chain valid chain _ (chain.length_le.trans (Nat.le_succ _))]
    at allocated
  simp only [bind, Except.bind] at allocated
  cases found : (v.slots l).find? v.isFreeSlot with
  | some slot =>
      rw [found] at allocated
      cases allocated
      exact .inl ⟨rfl, rfl⟩
  | none =>
      rw [found] at allocated
      simp only [Option.elim_none] at allocated
      have has := chain.inside _ chain.getLast_mem
      have lastChain : v.Chain (l.getLast chain.path.ne_nil) [l.getLast chain.path.ne_nil] :=
        .single chain.path.next_getLast has
      have linked := linked_of_extendCluster valid lastChain 1
      rw [extendCluster_of_chain valid lastChain] at allocated
      cases frees : v.free with
      | nil =>
          rw [frees, if_neg (by simp)] at allocated
          cases allocated
      | cons c rest =>
          have isFree : c ∈ v.free := frees ▸ List.mem_cons_self
          rw [frees] at linked
          rw [frees, if_pos (by simp)] at allocated
          simp only [List.take_succ_cons, List.take_zero, List.getLast_singleton] at linked allocated
          have bpb := linked.sameData.bpb
          rw [List.getLast_cons (List.cons_ne_nil _ _), List.getLast_singleton,
            getSectorByCluster_of_has (bpb.symm ▸ (mem_free.mp isFree).1), bpb] at allocated
          cases allocated
          exact .inr ⟨rfl, c, _, List.mem_cons_self, linked, rfl, rfl⟩

/-- What `CreateFile` does to the directory of the new file. -/
theorem created_of_allocateEntry (valid : v.bpb.Valid) (chain : v.Chain d l) {dir : Nat} {v₁ : Volume}
    (allocated : v.allocateEntry d = .ok (dir, v₁)) :
    ∃ new, Created v (v₁.fillEntry dir filename) d l new dir filename := by
  rcases allocateEntry_cases valid chain allocated with
    ⟨found, rfl⟩ | ⟨full, c, v₂, isFree, linked, rfl, rfl⟩
  · exact ⟨[], created_of_slot valid chain found⟩
  · exact ⟨[c], created_of_cluster valid chain full linked isFree⟩

/-! ## Lookups in the directory -/

/-- Only the converted name matters. -/
theorem lookup_name83 {m m' : List UInt8} (same : name83 m = name83 m') (s : List Nat) :
    v.lookup m s = v.lookup m' s := by
  have equal (e : Nat) : v.nameIsEqual e m = v.nameIsEqual e m' := by
    rw [nameIsEqual, nameIsEqual, ← name83, ← name83, same]
  induction s with
  | nil => rfl
  | cons e rest ih => rw [lookup, lookup, equal, ih]

/-- The first byte of an entry with a name of 8.3 format. -/
theorem mem_of_name (short : IsShortName filename) (named : v.name e = shortName filename) :
    ∃ c, NameChar c ∧ v.mem e = toupper c := by
  rcases short.head?_name83 with ⟨c, nameChar, head⟩
  rw [← short.shortName_eq, ← named, head?_name] at head
  exact ⟨c, nameChar, Option.some.inj head⟩

theorem mem_ne_of_not_isFreeSlot (used : v.isFreeSlot e = false) :
    v.mem e ≠ 0 ∧ v.mem e ≠ 0xe5 := by
  rwa [isFreeSlot, decide_eq_false_iff_not, not_or] at used

namespace Created

variable {dir : Nat} {m : List UInt8}

theorem dir_mem (created : Created v v' d l new dir filename) : dir ∈ v.slots (l ++ new) := by
  rcases created.place with ⟨before, after, split, -⟩
  rw [split]
  exact List.mem_append_right _ List.mem_cons_self

theorem has_cluster (created : Created v v' d l new dir filename) {c : Nat} (member : c ∈ l ++ new) :
    v.bpb.HasCluster c :=
  created.bpb ▸ created.chain.inside c member

/-- Entries outside the new clusters are as they were, up to the one taken. -/
theorem entry_same (created : Created v v' d l new dir filename) (valid : v.bpb.Valid) {c : Nat}
    (has : v.bpb.HasCluster c) (notNew : c ∉ new) (member : e ∈ v.clusterSlots c) (ne : e ≠ dir)
    {k : Nat} (inside : k < directoryEntrySize) : v'.mem (e + k) = v.mem (e + k) := by
  have inCluster := inCluster_of_mem_clusterSlots member inside
  rcases mem_slots.mp created.dir_mem with ⟨c', inChain, dirMember⟩
  apply created.data
  · exact dataOffset_le_of_inCluster valid has inCluster
  · rcases clusterSlots_disjoint valid has (created.has_cluster inChain) member dirMember ne with
      before | after
    · omega
    · omega
  · intro x inNew inX
    rw [eq_of_inCluster valid has (mem_free.mp (created.isFree x inNew)).1 inCluster inX] at notNew
    exact notNew inNew

theorem notNew (created : Created v v' d l new dir filename) {c : Nat} (member : c ∈ l) : c ∉ new :=
  fun inNew => created.old.not_mem_of_free (created.isFree c inNew) member

theorem slot_same (created : Created v v' d l new dir filename) (valid : v.bpb.Valid)
    (member : e ∈ v.slots l) (ne : e ≠ dir) {k : Nat} (inside : k < directoryEntrySize) :
    v'.mem (e + k) = v.mem (e + k) := by
  rcases mem_slots.mp member with ⟨c, inChain, inCluster⟩
  exact created.entry_same valid (created.old.inside c inChain) (created.notNew inChain) inCluster ne
    inside

/-- The entries before the new one and behind it. -/
theorem split (created : Created v v' d l new dir filename) (valid : v.bpb.Valid) :
    ∃ before after, v.slots (l ++ new) = before ++ dir :: after ∧
      (∀ e ∈ before, e ∈ v.slots l ∧ e ≠ dir ∧ v.isFreeSlot e = false) ∧ (∀ e ∈ after, e ≠ dir) ∧
      (new = [] ∧ v.isFreeSlot dir = true ∨
        before = v.slots l ∧ ∀ e ∈ after, v'.mem e = 0) := by
  rcases created.place with ⟨before, after, split, used, old⟩
  have nodup : (before ++ dir :: after).Nodup := by
    rw [← split, ← slots_congr created.bpb]
    exact nodup_slots (created.bpb.symm ▸ valid) created.chain
  rcases List.nodup_append.mp nodup with ⟨-, nodupTail, apart⟩
  refine ⟨before, after, split, ?_, ?_, old⟩
  · intro e member
    exact ⟨(used e member).1, apart e member dir List.mem_cons_self, (used e member).2⟩
  · rintro e member rfl
    exact (List.nodup_cons.mp nodupTail).1 member

theorem lookup_before (created : Created v v' d l new dir filename) (valid : v.bpb.Valid)
    {before rest : List Nat}
    (used : ∀ e ∈ before, e ∈ v.slots l ∧ e ≠ dir ∧ v.isFreeSlot e = false) :
    v'.lookup m (before ++ rest) = (v.lookup m before).or (v'.lookup m rest) := by
  have same : ∀ e ∈ before, ∀ k < directoryEntrySize, v'.mem (e + k) = v.mem (e + k) := by
    intro e member k inside
    exact created.slot_same valid (used e member).1 (used e member).2.1 inside
  rw [lookup_append, lookup_congr m before fun e member k lt => same e member k (lt.trans (by decide))]
  intro e member
  have first := same e member 0 (by decide)
  rw [Nat.add_zero] at first
  rw [first]
  exact (mem_ne_of_not_isFreeSlot (used e member).2.2).1

/-- The new name is found at the new entry. -/
theorem lookup_new (created : Created v v' d l new dir filename) (valid : v.bpb.Valid)
    (short : IsShortName filename) (absent : v.lookup filename (v.slots l) = none) :
    v'.lookup filename (v.slots (l ++ new)) = some dir := by
  rcases created.split valid with ⟨before, after, split, used, -, old⟩
  have none : v.lookup filename before = none := by
    rcases old with ⟨rfl, -⟩ | ⟨rfl, -⟩
    · rw [List.append_nil] at split
      rw [split, lookup_append] at absent
      · exact (Option.or_eq_none_iff.mp absent).1
      · exact fun e member => (mem_ne_of_not_isFreeSlot (used e member).2.2).1
    · exact absent
  rcases mem_of_name short created.name with ⟨c, nameChar, first⟩
  rw [split, created.lookup_before valid used, none, Option.none_or, lookup, if_neg, if_pos]
  · rw [nameIsEqual_iff, created.name, short.shortName_eq]
  · rw [first]
    exact nameChar.toupper_ne (by decide)

/-- Other names are found where they were. -/
theorem lookup_other (created : Created v v' d l new dir filename) (tree : v.Tree)
    (isDirectory : v.Directory d) (short : IsShortName filename) (ascii : IsAscii m)
    (other : name83 m ≠ name83 filename) :
    v'.lookup m (v.slots (l ++ new)) = v.lookup m (v.slots l) := by
  rcases created.split tree.valid with ⟨before, after, split, used, notDir, old⟩
  rcases mem_of_name short created.name with ⟨c, nameChar, first⟩
  have pass : v'.lookup m (dir :: after) = v'.lookup m after := by
    rw [lookup, if_neg, if_neg]
    · rw [nameIsEqual_iff, created.name, short.shortName_eq]
      exact other.symm
    · rw [first]
      exact nameChar.toupper_ne (by decide)
  rw [split, created.lookup_before tree.valid used, pass]
  rcases old with ⟨rfl, isFree⟩ | ⟨rfl, zero⟩
  · rw [List.append_nil] at split
    have same : ∀ e ∈ after, ∀ k < directoryEntrySize, v'.mem (e + k) = v.mem (e + k) := by
      intro e member k inside
      apply created.slot_same tree.valid _ (notDir e member) inside
      rw [split]
      exact List.mem_append_right _ (List.mem_cons_of_mem _ member)
    rw [split, lookup_append, lookup]
    · congr 1
      rw [isFreeSlot, decide_eq_true_eq] at isFree
      rcases isFree with endMarker | deleted
      · rw [if_pos endMarker]
        apply lookup_eq_none_of_zero
        intro e member
        have ended := tree.ended isDirectory created.old split endMarker e member
        have := same e member 0 (by decide)
        rw [Nat.add_zero] at this
        rw [this, ended]
      · rw [if_neg, if_neg]
        · exact lookup_congr m after fun e member k lt => same e member k (lt.trans (by decide))
        · rw [nameIsEqual_iff]
          intro equal
          have := mem_name v dir
          rw [equal, deleted] at this
          exact (head_name83 ascii this).1 rfl
        · rw [deleted]
          decide
    · exact fun e member => (mem_ne_of_not_isFreeSlot (used e member).2.2).1
  · rw [lookup_eq_none_of_zero m zero, Option.or_none]

end Created

end Volume

end Mikanos.Fat
