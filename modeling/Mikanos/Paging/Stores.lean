import Mikanos.Paging.Setup
import Mikanos.Paging.Virtual

/-!
# What a store changes

A store at an address that an application may use changes one byte of one page.
The pages of different addresses are different frames, and none of them is a
table, so a copy to a range of addresses is read back at exactly that range.
-/

namespace Mikanos.Paging

open Mikanos.Memory LinearAddress4Level

/-! ## Bytes of a word -/

theorem getLsbD_byteMask (i : Nat) : (0xff#64).getLsbD i = decide (i < 8) := by
  have ones : (0xff#64) = (BitVec.allOnes 8).setWidth 64 := rfl
  rw [ones, BitVec.getLsbD_setWidth, BitVec.getLsbD_allOnes]
  by_cases small : i < 8
  · simp [small, show i < 64 by omega]
  · simp [small]

theorem getLsbD_setByte (word : BitVec 64) (b : UInt8) {k i : Nat} (inside : i < 64) :
    (setByte word k b).getLsbD i =
      if 8 * k ≤ i ∧ i < 8 * k + 8 then b.toBitVec.getLsbD (i - 8 * k) else word.getLsbD i := by
  rw [setByte, BitVec.getLsbD_or, BitVec.getLsbD_and, BitVec.getLsbD_not, BitVec.getLsbD_shiftLeft,
    BitVec.getLsbD_shiftLeft, getLsbD_byteMask, BitVec.getLsbD_setWidth]
  by_cases lower : 8 * k ≤ i
  · have notBelow : ¬ i < 8 * k := by omega
    by_cases upper : i < 8 * k + 8
    · have small : i - 8 * k < 8 := by omega
      simp [inside, lower, upper, small, notBelow, show i - 8 * k < 64 by omega]
    · have large : ¬ i - 8 * k < 8 := by omega
      have beyond : b.toBitVec.getLsbD (i - 8 * k) = false := BitVec.getLsbD_of_ge _ _ (by omega)
      simp [inside, upper, large, beyond]
  · simp [inside, lower, show i < 8 * k by omega]

theorem getByte_setByte_self (word : BitVec 64) (b : UInt8) {k : Nat} (lt : k < 8) :
    getByte (setByte word k b) k = b := by
  apply UInt8.toBitVec_inj.mp
  apply BitVec.eq_of_getLsbD_eq
  intro i inside
  rw [getByte, BitVec.getLsbD_extractLsb', getLsbD_setByte _ _ (by omega),
    if_pos ⟨by omega, by omega⟩, Nat.add_sub_cancel_left]
  simp [inside]

theorem getByte_setByte_of_ne (word : BitVec 64) (b : UInt8) {k j : Nat} (lt : j < 8) (ne : j ≠ k) :
    getByte (setByte word k b) j = getByte word j := by
  apply UInt8.toBitVec_inj.mp
  apply BitVec.eq_of_getLsbD_eq
  intro i inside
  rw [getByte, getByte, BitVec.getLsbD_extractLsb', BitVec.getLsbD_extractLsb',
    getLsbD_setByte _ _ (by omega), if_neg (by omega)]

/-! ## Addresses by page and offset -/

namespace LinearAddress4Level

variable {addr addr' : BitVec 64}

/-- An address of the upper half, as the processor accepts it. -/
def InUpperHalf (addr : BitVec 64) : Prop :=
  0xffff800000000000 ≤ addr.toNat

instance (addr : BitVec 64) : Decidable (InUpperHalf addr) :=
  inferInstanceAs (Decidable (_ ≤ _))

theorem val_ofValue (addr : BitVec 64) :
    (ofValue addr).offset.val = addr.toNat % 4096 ∧
      (ofValue addr).page.val = addr.toNat / 2 ^ 12 % 512 ∧
      (ofValue addr).dir.val = addr.toNat / 2 ^ 21 % 512 ∧
      (ofValue addr).pdp.val = addr.toNat / 2 ^ 30 % 512 ∧
      (ofValue addr).pml4.val = addr.toNat / 2 ^ 39 % 512 ∧
      (ofValue addr).high.val = addr.toNat / 2 ^ 48 % 65536 := by
  simp [ofValue, BitVec.extractLsb', Nat.shiftRight_eq_div_pow]

theorem index_ofValue (addr : BitVec 64) :
    (ofValue addr).index 4 = addr.toNat % 2 ^ 48 / 4096 := by
  rcases val_ofValue addr with ⟨-, page, dir, pdp, pml4, -⟩
  simp only [index, part, page, dir, pdp, pml4]
  have := addr.isLt
  omega

theorem InUpperHalf.upper (upper : InUpperHalf addr) : (ofValue addr).Upper := by
  rcases val_ofValue addr with ⟨-, -, -, -, pml4, -⟩
  rw [InUpperHalf] at upper
  rw [Upper, pml4]
  have := addr.isLt
  omega

theorem InUpperHalf.canonical (upper : InUpperHalf addr) : (ofValue addr).Canonical := by
  rcases val_ofValue addr with ⟨-, -, -, -, -, high⟩
  have isUpper : 256 ≤ (ofValue addr).pml4.val := upper.upper
  rw [InUpperHalf] at upper
  rw [Canonical, high, if_pos isUpper]
  have := addr.isLt
  omega

/-- Addresses of the upper half that differ are in different pages or at
different offsets. -/
theorem eq_of_index_eq (upper : InUpperHalf addr) (upper' : InUpperHalf addr')
    (samePage : (ofValue addr).index 4 = (ofValue addr').index 4)
    (sameOffset : (ofValue addr).offset = (ofValue addr').offset) : addr = addr' := by
  have offsets := congrArg Fin.val sameOffset
  rw [(val_ofValue addr).1, (val_ofValue addr').1] at offsets
  rw [index_ofValue, index_ofValue] at samePage
  rw [InUpperHalf] at upper upper'
  apply BitVec.eq_of_toNat_eq
  have := addr.isLt
  have := addr'.isLt
  omega

end LinearAddress4Level

namespace Machine

/-- The byte that a walk from a PML4 finds at an address. -/
def readByte (s : Machine) (pml4 : Nat) (addr : BitVec 64) : Option UInt8 :=
  (s.translateIn pml4 (.ofValue addr)).map fun t => s.byte t.frame (ofValue addr).offset

section

variable {image : Nat → Prop} {use : Uses} {s s' : Machine} {root level f : Nat}
  {a b : LinearAddress4Level} {addr dst : BitVec 64}

theorem byte_putByte_self (s : Machine) (frame : Nat) (offset : Fin 4096) (b : UInt8) :
    (s.putByte frame offset b).byte frame offset = b := by
  have self := entry_setEntry_self s frame ⟨offset / 8, by omega⟩
    (setByte (s.mem frame ⟨offset / 8, by omega⟩) (offset % 8) b)
  rw [entry] at self
  rw [byte, putByte, self, getByte_setByte_self _ _ (Nat.mod_lt _ (by decide))]

theorem byte_putByte_of_ne (s : Machine) {frame frame' : Nat} {offset offset' : Fin 4096} (b : UInt8)
    (ne : frame' ≠ frame ∨ offset' ≠ offset) :
    (s.putByte frame offset b).byte frame' offset' = s.byte frame' offset' := by
  rw [byte, putByte, byte]
  by_cases sameWord : frame' = frame ∧ offset'.val / 8 = offset.val / 8
  · rcases sameWord with ⟨rfl, word⟩
    have offsetNe : offset'.val ≠ offset.val := by
      intro same
      rcases ne with ne | ne
      · exact ne rfl
      · exact ne (Fin.ext same)
    have index : (⟨offset' / 8, by omega⟩ : Fin 512) = ⟨offset / 8, by omega⟩ := Fin.ext word
    have self := entry_setEntry_self s frame' ⟨offset / 8, by omega⟩
      (setByte (s.mem frame' ⟨offset / 8, by omega⟩) (offset % 8) b)
    rw [entry] at self
    rw [index, self, getByte_setByte_of_ne _ _ (by omega) (by omega)]
  · have other := entry_setEntry_of_ne s (setByte (s.mem frame ⟨offset / 8, by omega⟩) (offset % 8) b)
      (show frame' ≠ frame ∨ (⟨offset' / 8, by omega⟩ : Fin 512) ≠ ⟨offset / 8, by omega⟩ by
        by_contra both
        simp only [not_or, not_not, Fin.mk.injEq] at both
        exact sameWord both)
    rw [entry, entry] at other
    rw [other]

/-- The frame that the processor finds is the page of the path. -/
theorem Mapping.translateIn_frame (mapping : Mapping image use s root) (isUpper : a.Upper) :
    (s.translateIn root a).map Translation.frame = s.node root a 0 := by
  rw [node_zero_eq_leaf, translateIn]
  exact walk_frame mapping.owned a 4 root mapping.isRoot (fun _ => isUpper) le_rfl

theorem Mapping.readByte_eq (mapping : Mapping image use s root) (upper : InUpperHalf addr) :
    s.readByte root addr =
      (s.node root (ofValue addr) 0).map fun f => s.byte f (ofValue addr).offset := by
  rw [readByte, ← mapping.translateIn_frame upper.upper, Option.map_map]
  rfl

theorem Mapping.storeByte_eq (mapping : Mapping image use s s.cr3) (upper : InUpperHalf addr)
    (b : UInt8) : s.storeByte addr b =
      (s.node s.cr3 (ofValue addr) 0).map fun f => s.putByte f (ofValue addr).offset b := by
  rw [storeByte, ← mapping.translateIn_frame upper.upper, Option.map_map]
  simp only [if_pos upper.canonical]
  rfl

/-- Pages are no tables. -/
theorem Mapping.page_ne_table (mapping : Mapping image use s root) (isUpper : a.Upper)
    (found : s.node root a 0 = some f) (l owner : Nat) : use f ≠ some (.table l owner) := by
  intro isTable
  rcases (mapping.use_node isUpper (by decide) found).2 rfl with ⟨isPrivate, -⟩ | isShared
  · rw [isTable] at isPrivate
    cases isPrivate
  · rw [isTable] at isShared
    cases isShared

/-- Paths depend on tables only. -/
theorem Mapping.node_of_sameTables (mapping : Mapping image use s root)
    (same : SameTables use root s s') (isUpper : a.Upper) (le : level ≤ 4) :
    s'.node root a level = s.node root a level := by
  refine level_induction (motive := fun level => s'.node root a level = s.node root a level) rfl ?_
    level le
  intro level inside ih
  rw [node_succ inside, node_succ inside, ih]
  cases found : s.node root a (level + 1) with
  | none => rfl
  | some t =>
      have useTable := (mapping.use_node isUpper inside found).1 (Nat.succ_ne_zero level)
      have entryEq : ∀ i, s'.entry t i = s.entry t i := by
        intro i
        rw [entry, same t _ useTable, entry]
      simp only [Option.bind_some, child, entryEq]

/-- A mapping depends on tables only. -/
theorem Mapping.of_sameTables (mapping : Mapping image use s root)
    (same : ∀ f l owner, use f = some (.table l owner) → s'.mem f = s.mem f)
    (frames : s'.frames = s.frames) : Mapping image use s' root where
  owned := by
    constructor
    · rw [frames]
      exact mapping.owned.range_le
    · rw [frames]
      exact mapping.owned.used
    · intro f l owner isTable i covered
      rw [entry, same f l owner isTable]
      exact mapping.owned.entries f l owner isTable i covered
  isRoot := mapping.isRoot
  tree := by
    intro x y upperX upperY level le f foundX foundY
    rw [mapping.node_of_sameTables (fun f l => same f l root) upperX le] at foundX
    rw [mapping.node_of_sameTables (fun f l => same f l root) upperY le] at foundY
    exact mapping.tree x y upperX upperY level le f foundX foundY

/-! ## Copies -/

/-- A copy of bytes to a range of addresses. -/
structure Copied (image : Nat → Prop) (use : Uses) (dst : BitVec 64) (src : Mem) (n : Nat)
    (s s' : Machine) : Prop where
  mapping : Mapping image use s' s.cr3
  frames : s'.frames = s.frames
  cr3 : s'.cr3 = s.cr3
  node : ∀ a : LinearAddress4Level, a.Upper → ∀ level ≤ 4,
    s'.node s.cr3 a level = s.node s.cr3 a level
  kept : ∀ f, (∀ k < n, s.node s.cr3 (ofValue (dst + BitVec.ofNat 64 k)) 0 ≠ some f) →
    s'.mem f = s.mem f
  mapped : ∀ k < n, (s.node s.cr3 (ofValue (dst + BitVec.ofNat 64 k)) 0).isSome
  read : ∀ addr, InUpperHalf addr → s'.readByte s.cr3 addr =
    if (addr - dst).toNat < n then some (src (addr - dst).toNat) else s.readByte s.cr3 addr

theorem copied_zero (mapping : Mapping image use s s.cr3) (dst : BitVec 64) (src : Mem) :
    Copied image use dst src 0 s s where
  mapping := mapping
  frames := rfl
  cr3 := rfl
  node := fun _ _ _ _ => rfl
  kept := fun _ _ => rfl
  mapped := fun k below => absurd below (Nat.not_lt_zero k)
  read := fun _ _ => (if_neg (Nat.not_lt_zero _)).symm

/-- One more byte is copied. -/
theorem Copied.succ {src : Mem} {n : Nat} {s₁ : Machine} (copied : Copied image use dst src n s s₁)
    (small : n < 2 ^ 64) (upper : InUpperHalf (dst + BitVec.ofNat 64 n))
    (found : s.node s.cr3 (ofValue (dst + BitVec.ofNat 64 n)) 0 = some f) :
    Copied image use dst src (n + 1) s
      (s₁.putByte f (ofValue (dst + BitVec.ofNat 64 n)).offset (src n)) := by
  set last := dst + BitVec.ofNat 64 n with lastEq
  have foundNow : s₁.node s.cr3 (ofValue last) 0 = some f := by
    rw [copied.node _ upper.upper _ (by decide), found]
  have notTable := copied.mapping.page_ne_table upper.upper foundNow
  have sameTables : ∀ t l owner, use t = some (.table l owner) →
      (s₁.putByte f (ofValue last).offset (src n)).mem t = s₁.mem t := by
    intro t l owner isTable
    apply mem_setEntry_of_ne
    rintro rfl
    exact notTable l owner isTable
  have mapping := copied.mapping.of_sameTables sameTables rfl
  have nodes : ∀ a : LinearAddress4Level, a.Upper → ∀ level ≤ 4,
      (s₁.putByte f (ofValue last).offset (src n)).node s.cr3 a level = s.node s.cr3 a level := by
    intro a isUpper level le
    rw [copied.mapping.node_of_sameTables (fun f l => sameTables f l s.cr3) isUpper le,
      copied.node a isUpper level le]
  have lastDistance : (last - dst).toNat = n := by
    rw [lastEq, BitVec.add_comm, BitVec.add_sub_cancel, BitVec.toNat_ofNat, Nat.mod_eq_of_lt small]
  constructor
  · exact mapping
  · exact copied.frames
  · exact copied.cr3
  · exact nodes
  · intro g notMapped
    have notHere : g ≠ f := by
      rintro rfl
      exact notMapped n (Nat.lt_succ_self n) found
    rw [putByte, mem_setEntry_of_ne _ _ _ notHere]
    exact copied.kept g fun k below => notMapped k (Nat.lt_succ_of_lt below)
  · intro k below
    by_cases isLast : k = n
    · rw [isLast, ← lastEq, found]
      rfl
    · exact copied.mapped k (by omega)
  · intro addr upper'
    rw [mapping.readByte_eq upper']
    by_cases isLast : addr = last
    · subst isLast
      rw [if_pos (by omega), lastDistance, nodes _ upper.upper 0 (by decide), found, Option.map_some,
        byte_putByte_self]
    · have distanceNe : (addr - dst).toNat ≠ n := by
        intro same
        apply isLast
        rw [← lastDistance] at same
        have equal := BitVec.eq_of_toNat_eq same
        rw [← BitVec.sub_add_cancel addr dst, equal, BitVec.sub_add_cancel]
      have range : (addr - dst).toNat < n + 1 ↔ (addr - dst).toNat < n := by omega
      simp only [range]
      rw [← copied.read addr upper', copied.mapping.readByte_eq upper', nodes _ upper'.upper 0
        (by decide), copied.node _ upper'.upper 0 (by decide)]
      cases foundAddr : s.node s.cr3 (ofValue addr) 0 with
      | none => rfl
      | some g =>
          rw [Option.map_some, Option.map_some, byte_putByte_of_ne]
          by_contra both
          simp only [not_or, not_not] at both
          rcases both with ⟨rfl, sameOffset⟩
          have agree := copied.mapping.tree _ _ upper'.upper upper.upper 0 (by decide) g
            (by rw [copied.node _ upper'.upper 0 (by decide), foundAddr]) foundNow
          exact isLast (eq_of_index_eq upper' upper (index_eq_of_agreeFrom agree) sameOffset)

/-- A copy succeeds exactly when every address is mapped. -/
theorem memcpy_copied (mapping : Mapping image use s s.cr3) (dst : BitVec 64) (src : Mem) (n : Nat)
    (small : n ≤ 2 ^ 64) (upper : ∀ k < n, InUpperHalf (dst + BitVec.ofNat 64 k)) :
    (∃ s', s.memcpy dst src n = some s' ∧ Copied image use dst src n s s') ∨
      s.memcpy dst src n = none ∧
        ∃ k < n, s.node s.cr3 (ofValue (dst + BitVec.ofNat 64 k)) 0 = none := by
  induction n with
  | zero =>
      left
      exact ⟨s, rfl, copied_zero mapping dst src⟩
  | succ n ih =>
      rcases ih (by omega) (fun k below => upper k (by omega)) with
        ⟨s₁, first, copied⟩ | ⟨first, k, below, absent⟩
      · have here := upper n (Nat.lt_succ_self n)
        have mapping₁ : Mapping image use s₁ s₁.cr3 := by
          rw [copied.cr3]
          exact copied.mapping
        rw [memcpy, first, Option.bind_some, mapping₁.storeByte_eq here, copied.cr3,
          copied.node _ here.upper 0 (by decide)]
        cases found : s.node s.cr3 (ofValue (dst + BitVec.ofNat 64 n)) 0 with
        | none =>
            right
            exact ⟨rfl, n, Nat.lt_succ_self n, found⟩
        | some f =>
            left
            exact ⟨_, rfl, copied.succ (by omega) here found⟩
      · right
        rw [memcpy, first]
        exact ⟨rfl, k, by omega, absent⟩

end

end Machine
end Mikanos.Paging
