import Mikanos.Chain.Linked
import Mikanos.Fat.Volume
import Mathlib.Data.List.Range
import Mathlib.Data.List.Perm.Subperm
import Mathlib.Tactic.Ring
import Mathlib.Tactic.Set

/-!
# The layout of a volume

On a volume whose BPB is sound the FAT lies before the data, entries of the FAT
do not overlap, and neither do clusters.  A write to the FAT is therefore seen
in one entry only, and a write to a cluster not at all by the FAT.
-/

namespace Mikanos.Fat

open Mikanos.Memory Mikanos.Chain

namespace BPB

/-- The BPB describes a volume whose FAT has an entry for every cluster. -/
structure Valid (bpb : BPB) : Prop where
  bytesPerSector_pos : 0 < bpb.bytesPerSector
  bytesPerSector_lt : bpb.bytesPerSector < 2 ^ 16
  sectorsPerCluster_pos : 0 < bpb.sectorsPerCluster
  sectorsPerCluster_lt : bpb.sectorsPerCluster < 2 ^ 8
  entries_dvd : directoryEntrySize ∣ bpb.bytesPerCluster
  numFats_pos : 0 < bpb.numFats
  fatOffset_lt : bpb.fatOffset < 2 ^ 31
  data_le : bpb.reservedSectorCount + bpb.numFats * bpb.fatSize32 ≤ bpb.totalSectors32
  totalSectors_lt : bpb.totalSectors32 < 2 ^ 32
  fat_covers : 4 * (bpb.clusters + 2) ≤ bpb.fatSize32 * bpb.bytesPerSector
  clusters_le : bpb.clusters + 2 ≤ 0x0ffffff7

variable {bpb : BPB}

theorem Valid.bytesPerCluster_pos (valid : bpb.Valid) : 0 < bpb.bytesPerCluster :=
  Nat.mul_pos valid.bytesPerSector_pos valid.sectorsPerCluster_pos

theorem clusters_mul_le (bpb : BPB) : bpb.clusters * bpb.sectorsPerCluster ≤ bpb.totalSectors32 :=
  (Nat.div_mul_le_self _ _).trans (Nat.sub_le _ _)

/-- On a sound volume no addition in `GetClusterAddr` wraps. -/
theorem Valid.getClusterAddr_eq (valid : bpb.Valid) {cluster : Nat}
    (has : bpb.HasCluster cluster) :
    bpb.getClusterAddr cluster = bpb.dataOffset + (cluster - 2) * bpb.bytesPerCluster := by
  rcases has with ⟨lower, upper⟩
  have sectors_lt := valid.totalSectors_lt
  have data_le := valid.data_le
  have bytes_lt := valid.bytesPerSector_lt
  have few := valid.clusters_le
  have index : (cluster + 2 ^ 64 - 2) % 2 ^ 64 = cluster - 2 := by
    rw [show cluster + 2 ^ 64 - 2 = cluster - 2 + 2 ^ 64 by omega, Nat.add_mod_right]
    exact Nat.mod_eq_of_lt (by omega)
  have before : (cluster - 2) * bpb.sectorsPerCluster ≤ bpb.clusters * bpb.sectorsPerCluster :=
    Nat.mul_le_mul_right _ (by omega)
  have clusters_le := bpb.clusters_mul_le
  have metadata_lt : bpb.reservedSectorCount + bpb.numFats * bpb.fatSize32 < 2 ^ 32 := by omega
  set sector := bpb.reservedSectorCount + bpb.numFats * bpb.fatSize32 +
    (cluster - 2) * bpb.sectorsPerCluster with sectorEq
  have sector_lt : sector < 2 ^ 33 := by omega
  have addr_lt : sector * bpb.bytesPerSector < 2 ^ 64 := by
    calc
      _ ≤ 2 ^ 33 * 2 ^ 16 := Nat.mul_le_mul sector_lt.le bytes_lt.le
      _ < 2 ^ 64 := by decide
  rw [getClusterAddr, index, Nat.mod_eq_of_lt metadata_lt]
  change sector % 2 ^ 64 * bpb.bytesPerSector % 2 ^ 64 = _
  rw [Nat.mod_eq_of_lt (sector_lt.trans (by decide)), Nat.mod_eq_of_lt addr_lt, dataOffset,
    bytesPerCluster, sectorEq]
  ring

theorem Valid.dataOffset_le_getClusterAddr (valid : bpb.Valid) {cluster : Nat}
    (has : bpb.HasCluster cluster) : bpb.dataOffset ≤ bpb.getClusterAddr cluster := by
  rw [valid.getClusterAddr_eq has]
  exact Nat.le_add_right _ _

/-- Every entry of the FAT lies before the data. -/
theorem Valid.fat_le_dataOffset (valid : bpb.Valid) {cluster : Nat}
    (has : bpb.HasCluster cluster) : bpb.fatOffset + 4 * cluster + 4 ≤ bpb.dataOffset := by
  have covers := valid.fat_covers
  have one : bpb.fatSize32 * bpb.bytesPerSector ≤
      bpb.numFats * bpb.fatSize32 * bpb.bytesPerSector := by
    apply Nat.mul_le_mul_right
    exact Nat.le_mul_of_pos_left _ valid.numFats_pos
  have := has.2
  rw [dataOffset, fatOffset, Nat.add_mul]
  omega

/-- Different clusters do not overlap. -/
theorem Valid.clusters_disjoint (valid : bpb.Valid) {c d : Nat} (hasC : bpb.HasCluster c)
    (hasD : bpb.HasCluster d) (ne : c ≠ d) :
    bpb.getClusterAddr c + bpb.bytesPerCluster ≤ bpb.getClusterAddr d ∨
      bpb.getClusterAddr d + bpb.bytesPerCluster ≤ bpb.getClusterAddr c := by
  have step : ∀ {c d : Nat}, bpb.HasCluster c → bpb.HasCluster d → c < d →
      bpb.getClusterAddr c + bpb.bytesPerCluster ≤ bpb.getClusterAddr d := by
    intro c d hasC hasD lt
    rw [valid.getClusterAddr_eq hasC, valid.getClusterAddr_eq hasD, Nat.add_assoc,
      ← Nat.succ_mul]
    apply Nat.add_le_add_left
    apply Nat.mul_le_mul_right
    have := hasC.1
    omega
  rcases Nat.lt_or_gt_of_ne ne with lt | gt
  · exact .inl (step hasC hasD lt)
  · exact .inr (step hasD hasC gt)

end BPB

namespace Volume

variable {v v' v'' : Volume}

/-! ## What a write leaves alone -/

/-- Only the data may differ. -/
structure SameFat (v v' : Volume) : Prop where
  bpb : v'.bpb = v.bpb
  mem : ∀ a < v.bpb.dataOffset, v'.mem a = v.mem a

/-- Only what lies before the data may differ. -/
structure SameData (v v' : Volume) : Prop where
  bpb : v'.bpb = v.bpb
  mem : ∀ a, v.bpb.dataOffset ≤ a → v'.mem a = v.mem a

theorem SameFat.refl (v : Volume) : SameFat v v :=
  ⟨rfl, fun _ _ => rfl⟩

theorem SameFat.trans (first : SameFat v v') (last : SameFat v' v'') : SameFat v v'' where
  bpb := last.bpb.trans first.bpb
  mem := by
    intro a before
    rw [last.mem a (by rwa [first.bpb]), first.mem a before]

theorem SameData.refl (v : Volume) : SameData v v :=
  ⟨rfl, fun _ _ => rfl⟩

theorem SameData.trans (first : SameData v v') (last : SameData v' v'') : SameData v v'' where
  bpb := last.bpb.trans first.bpb
  mem := by
    intro a inside
    rw [last.mem a (by rwa [first.bpb]), first.mem a inside]

theorem SameFat.fat (same : SameFat v v') (valid : v.bpb.Valid) {cluster : Nat}
    (has : v.bpb.HasCluster cluster) : v'.fat cluster = v.fat cluster := by
  have before := valid.fat_le_dataOffset has
  rw [Volume.fat, same.bpb, Volume.fat]
  apply Mem.load_congr
  intro i inside
  exact same.mem _ (by omega)

/-! ## The FAT -/

@[simp] theorem bpb_setFat (v : Volume) (index value : Nat) : (v.setFat index value).bpb = v.bpb :=
  rfl

@[simp]
theorem fat_setFat_self (v : Volume) (index value : Nat) :
    (v.setFat index value).fat index = value % 2 ^ 32 :=
  Mem.load_store_same _ _ _ _

theorem fat_setFat_of_ne (v : Volume) {index other : Nat} (value : Nat) (ne : other ≠ index) :
    (v.setFat index value).fat other = v.fat other := by
  apply Mem.load_store_outside
  change v.bpb.fatOffset + 4 * other + 4 ≤ v.bpb.fatOffset + 4 * index ∨
    v.bpb.fatOffset + 4 * index + 4 ≤ v.bpb.fatOffset + 4 * other
  omega

theorem sameData_setFat (valid : v.bpb.Valid) {index : Nat} (has : v.bpb.HasCluster index)
    (value : Nat) : SameData v (v.setFat index value) where
  bpb := rfl
  mem := by
    intro a inside
    have before := valid.fat_le_dataOffset has
    exact Mem.copyTo_outside (by omega)

theorem readFat_of_has {index : Nat} (has : v.bpb.HasCluster index) :
    v.readFat index = .ok (v.fat index) :=
  if_pos has

theorem writeFat_of_has {index : Nat} (has : v.bpb.HasCluster index) (value : Nat) :
    v.writeFat index value = .ok (v.setFat index value) :=
  if_pos has

theorem getSectorByCluster_of_has {cluster : Nat} (has : v.bpb.HasCluster cluster) :
    v.getSectorByCluster cluster = .ok (v.bpb.getClusterAddr cluster) :=
  if_pos has

/-- The entry behind the last one belongs to no cluster. -/
theorem readFat_end (v : Volume) :
    v.readFat (v.bpb.clusters + 2) = .error (.fatIndex (v.bpb.clusters + 2)) :=
  if_neg fun has => Nat.lt_irrefl _ has.2

/-! ## Chains -/

/-- The cluster that the FAT links to a cluster. -/
def next (v : Volume) (cluster : Nat) : Option Nat :=
  if isEndOfClusterchain (v.fat cluster) then none else some (v.fat cluster)

/-- A chain of clusters that exist. -/
structure Chain (v : Volume) (first : Nat) (l : List Nat) : Prop where
  path : Path v.next first l
  inside : ∀ c ∈ l, v.bpb.HasCluster c

theorem next_eq_none {cluster : Nat} (ends : isEndOfClusterchain (v.fat cluster) = true) :
    v.next cluster = none :=
  if_pos ends

theorem next_of_fat_eq (valid : v.bpb.Valid) {cluster other : Nat}
    (linked : v.fat cluster = other) (has : v.bpb.HasCluster other) :
    v.next cluster = some other := by
  have := has.2
  have := valid.clusters_le
  rw [next, linked, if_neg]
  simp only [isEndOfClusterchain, decide_eq_true_eq]
  omega

theorem next_congr {cluster : Nat} (same : v'.fat cluster = v.fat cluster) :
    v'.next cluster = v.next cluster := by
  rw [next, same, next]

namespace Chain

variable {first : Nat} {l : List Nat}

/-- A chain of one cluster. -/
theorem single {cluster : Nat} (ends : v.next cluster = none) (has : v.bpb.HasCluster cluster) :
    v.Chain cluster [cluster] :=
  ⟨.last ends, fun _ member => List.mem_singleton.mp member ▸ has⟩

theorem unique (chain : v.Chain first l) {l' : List Nat} (other : v.Chain first l') : l = l' :=
  chain.path.unique other.path

/-- A cluster of a chain is not free. -/
theorem fat_ne_zero (chain : v.Chain first l) {c : Nat} (member : c ∈ l) : v.fat c ≠ 0 := by
  intro isFree
  have follows : v.next c = some 0 := by
    rw [next, isFree, if_neg (by decide)]
  have has := chain.inside 0 (chain.path.next_mem member follows)
  exact absurd has.1 (by decide)

/-- A chain is not longer than the volume. -/
theorem length_le (chain : v.Chain first l) : l.length ≤ v.bpb.clusters := by
  have sub : l ⊆ List.range' 2 v.bpb.clusters := by
    intro c member
    have has := chain.inside c member
    rw [List.mem_range'_1]
    exact ⟨has.1, by have := has.2; omega⟩
  have := (chain.path.nodup.subperm sub).length_le
  rwa [List.length_range'] at this

/-- A chain whose entries of the FAT are as they were. -/
theorem congr (chain : v.Chain first l) (bpb : v'.bpb = v.bpb)
    (same : ∀ c ∈ l, v'.fat c = v.fat c) : v'.Chain first l where
  path := chain.path.congr fun c member => next_congr (same c member)
  inside := by
    intro c member
    rw [bpb]
    exact chain.inside c member

theorem sameFat (chain : v.Chain first l) (valid : v.bpb.Valid) (same : SameFat v v') :
    v'.Chain first l :=
  chain.congr same.bpb fun c member => same.fat valid (chain.inside c member)

/-- The chain from one of its clusters on. -/
theorem suffix (chain : v.Chain first l) {c : Nat} (member : c ∈ l) :
    ∃ before after, l = before ++ after ∧ v.Chain c after := by
  rcases chain.path.suffix member with ⟨before, after, split, path⟩
  refine ⟨before, after, split, path, ?_⟩
  intro d inAfter
  exact chain.inside d (split ▸ List.mem_append_right _ inAfter)

theorem getLast_mem (chain : v.Chain first l) : l.getLast chain.path.ne_nil ∈ l :=
  List.getLast_mem _

end Chain

/-- `NextCluster` follows the chain. -/
theorem nextCluster_of_has {cluster : Nat} (has : v.bpb.HasCluster cluster) :
    v.nextCluster cluster = .ok ((v.next cluster).getD kEndOfClusterchain) := by
  rw [nextCluster, readFat_of_has has]
  by_cases ends : 0x0ffffff8 ≤ v.fat cluster
  · simp [next, isEndOfClusterchain, ends, bind, Except.bind]
  · simp [next, isEndOfClusterchain, ends, bind, Except.bind]

/-! ## Data -/

/-- The bytes of a cluster. -/
def InCluster (v : Volume) (cluster a : Nat) : Prop :=
  v.bpb.getClusterAddr cluster ≤ a ∧ a < v.bpb.getClusterAddr cluster + v.bytesPerCluster

theorem dataOffset_le_of_inCluster (valid : v.bpb.Valid) {cluster a : Nat}
    (has : v.bpb.HasCluster cluster) (inside : v.InCluster cluster a) : v.bpb.dataOffset ≤ a :=
  (valid.dataOffset_le_getClusterAddr has).trans inside.1

/-- An address lies in one cluster at most. -/
theorem eq_of_inCluster (valid : v.bpb.Valid) {c d a : Nat} (hasC : v.bpb.HasCluster c)
    (hasD : v.bpb.HasCluster d) (inC : v.InCluster c a) (inD : v.InCluster d a) : c = d := by
  by_contra ne
  rcases inC with ⟨lowerC, upperC⟩
  rcases inD with ⟨lowerD, upperD⟩
  rw [bytesPerCluster] at upperC upperD
  rcases valid.clusters_disjoint hasC hasD ne with before | after
  · omega
  · omega

end Volume

end Mikanos.Fat
