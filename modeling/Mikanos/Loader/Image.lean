import Mikanos.Loader.Confinement
import Mikanos.Paging.Stores

/-!
# The image that a file describes

`CopyLoadSegments` maps as many pages for a segment as its size fills, counted
from the page that the segment starts in.  A segment that does not start at the
beginning of a page may reach one page further, and the copy then faults unless
an earlier segment has mapped that page.
-/

namespace Mikanos.Loader

open Mikanos.Memory Mikanos.Paging Mikanos.Paging.Machine Mikanos.Paging.LinearAddress4Level

/-! ## What a file describes -/

/-- An address belongs to a segment. -/
def Phdr.InSegment (ph : Phdr) (addr : BitVec 64) : Prop :=
  ph.vaddr.toNat ≤ addr.toNat ∧ addr.toNat < ph.vaddr.toNat + ph.memsz.toNat

/-- The page is among those that `SetupPageMaps` is called for. -/
def Phdr.MapsPage (ph : Phdr) (page : Nat) : Prop :=
  (ofValue ph.vaddr).index 4 ≤ page ∧ page < (ofValue ph.vaddr).index 4 + ph.num4kpages

/-- Byte `k` of a segment. -/
def Phdr.content (ph : Phdr) (f : ElfFile) (k : Nat) : UInt8 :=
  if k < ph.filesz.toNat then f.byte (ph.offset.toNat + k) else 0

/-- The segment lies in the upper half, its content in the file. -/
structure Phdr.WellFormed (size : Nat) (ph : Phdr) : Prop where
  filesz_le : ph.filesz.toNat ≤ ph.memsz.toNat
  lower : appBase.toNat ≤ ph.vaddr.toNat
  upper : ph.vaddr.toNat + ph.memsz.toNat ≤ 2 ^ 64
  content : ph.offset.toNat + ph.filesz.toNat ≤ size

namespace ElfFile

variable (f : ElfFile)

/-- Program header `i` describes a segment to load. -/
def IsLoad (i : Nat) : Prop :=
  i < f.ePhnum ∧ (f.phdr i).type = ptLoad

/-- The segments to load are well formed and pairwise disjoint. -/
structure WellFormed : Prop where
  segment : ∀ i, f.IsLoad i → (f.phdr i).WellFormed f.size
  disjoint : ∀ i j, f.IsLoad i → f.IsLoad j → i ≠ j → ∀ addr,
    (f.phdr i).InSegment addr → ¬ (f.phdr j).InSegment addr

/-- The memory holds the segments, and the end address is the greatest end of a
segment. -/
structure Image (l : Loading) : Prop where
  bytes : ∀ i, f.IsLoad i → ∀ addr, (f.phdr i).InSegment addr →
    l.machine.readByte l.machine.cr3 addr =
      some ((f.phdr i).content f (addr - (f.phdr i).vaddr).toNat)
  upper : ∀ i, f.IsLoad i → (f.phdr i).vaddr.toNat + (f.phdr i).memsz.toNat ≤ l.lastAddr
  attained : ∃ i, f.IsLoad i ∧ l.lastAddr = (f.phdr i).vaddr.toNat + (f.phdr i).memsz.toNat

/-- Every store of `CopyLoadSegments` finds its page mapped, and the result is the
image that the file describes. -/
def LoadsImage (s : Machine) : Prop :=
  ∃ l, Loading.loadELF f s = some (l, .success) ∧ f.Image l

/-- Every page of a segment is among the pages mapped for that segment or an
earlier one, and no segment ends at the end of the address space. -/
structure PagesMapped : Prop where
  pages : ∀ i, f.IsLoad i → ∀ addr, (f.phdr i).InSegment addr →
    ∃ j ≤ i, f.IsLoad j ∧ (f.phdr j).MapsPage ((ofValue addr).index 4)
  ends : ∀ i, f.IsLoad i → (f.phdr i).vaddr.toNat + (f.phdr i).memsz.toNat < 2 ^ 64

end ElfFile

/-! ## A new address space -/

/-- The current PML4 has an empty upper half. -/
structure FreshPML4 (s : Machine) : Prop where
  range_le : s.frames.rangeEnd ≤ kFrameCount
  used : ¬ s.frames.Available s.cr3
  empty : ∀ i : Fin 512, 256 ≤ i.val → s.entry s.cr3 i = 0

/-- `SetupPML4` makes one. -/
theorem freshPML4_setupPML4 {s s' : Machine} {pml4 : Nat} (range : s.frames.rangeEnd ≤ kFrameCount)
    (switched : s.setupPML4 = (s', .ok pml4)) : FreshPML4 s' := by
  rw [setupPML4] at switched
  rcases s.newPageMap_cases with ⟨frame, available, allocated⟩ | ⟨-, failed⟩
  · rw [allocated] at switched
    cases switched
    constructor
    · exact range
    · rintro ⟨-, -, isFree⟩
      rw [frames_setFrame, frames_withNewPageMap, BitmapMemoryManager.getBit_setBit_self] at isFree
      cases isFree
    · intro i upper
      have zero := entry_withNewPageMap_self s pml4 i
      rw [entry] at zero ⊢
      simp only [mem_setFrame_self]
      rw [if_neg (by omega)]
      exact zero
  · rw [failed] at switched
    cases switched

/-- In a new address space only the PML4 is in use. -/
def freshUses (root : Nat) : Uses :=
  Function.update (fun _ => none) root (some (.table 4 root))

theorem FreshPML4.node_eq_none {s : Machine} (fresh : FreshPML4 s) {a : LinearAddress4Level}
    (isUpper : a.Upper) {level : Nat} (below : level < 4) : s.node s.cr3 a level = none := by
  have top : s.node s.cr3 a 3 = none := by
    rw [node_succ (by decide), node_four, Option.bind_some, child, fresh.empty (a.part 4) isUpper]
    rfl
  by_contra found
  have above : (s.node s.cr3 a 3).isSome := isSome_node_of_le (by omega) (by decide)
    (Option.isSome_iff_ne_none.mpr found)
  rw [top] at above
  cases above

theorem FreshPML4.mapping {s : Machine} (fresh : FreshPML4 s) :
    Mapping (· = s.cr3) (freshUses s.cr3) s s.cr3 where
  owned := by
    constructor
    · exact fresh.range_le
    · intro f u found
      by_cases same : f = s.cr3
      · rw [same]
        exact fresh.used
      · rw [freshUses, Function.update_of_ne same] at found
        cases found
    · intro f level owner found i covered
      by_cases same : f = s.cr3
      · subst same
        rw [freshUses, Function.update_self] at found
        cases found
        rw [fresh.empty i (covered rfl)]
        exact .zero _ _ _ _
      · rw [freshUses, Function.update_of_ne same] at found
        cases found
  isRoot := Function.update_self ..
  tree := by
    intro a b upperA upperB level le f foundA _ k lower upper
    by_cases top : level = 4
    · omega
    · rw [fresh.node_eq_none upperA (by omega)] at foundA
      cases foundA

namespace Loading

variable {f : ElfFile} {image : Nat → Prop} {use : Uses} {s : Machine}

/-! ## Copying a segment -/

theorem inSegment_iff {size : Nat} {ph : Phdr} (ok : ph.WellFormed size) {addr : BitVec 64}
    (upper : InUpperHalf addr) :
    ph.InSegment addr ↔ (addr - ph.vaddr).toNat < ph.memsz.toNat := by
  have base : appBase.toNat = 0xffff800000000000 := rfl
  have lower := ok.lower
  have ends := ok.upper
  have addr_lt := addr.isLt
  rw [InUpperHalf] at upper
  rw [Phdr.InSegment, BitVec.toNat_sub]
  omega

theorem upper_of_inSegment {size : Nat} {ph : Phdr} (ok : ph.WellFormed size) {addr : BitVec 64}
    (inside : ph.InSegment addr) : InUpperHalf addr :=
  Nat.le_trans ok.lower inside.1

/-- The addresses of a segment, as they are stored to. -/
theorem inSegment_add {size : Nat} {ph : Phdr} (ok : ph.WellFormed size) {k : Nat}
    (inside : k < ph.memsz.toNat) : ph.InSegment (ph.vaddr + BitVec.ofNat 64 k) := by
  have ends := ok.upper
  have memsz_lt := ph.memsz.isLt
  rw [Phdr.InSegment, BitVec.toNat_add, BitVec.toNat_ofNat]
  omega

/-- The machine after a segment has been copied. -/
structure SegmentCopied (f : ElfFile) (image : Nat → Prop) (use : Uses) (ph : Phdr)
    (s s' : Machine) : Prop where
  mapping : Mapping image use s' s.cr3
  frames : s'.frames = s.frames
  cr3 : s'.cr3 = s.cr3
  node : ∀ a : LinearAddress4Level, a.Upper → ∀ level ≤ 4,
    s'.node s.cr3 a level = s.node s.cr3 a level
  mapped : ∀ addr, ph.InSegment addr → (s.node s.cr3 (ofValue addr) 0).isSome
  inside : ∀ addr, ph.InSegment addr →
    s'.readByte s.cr3 addr = some (ph.content f (addr - ph.vaddr).toNat)
  outside : ∀ addr, InUpperHalf addr → ¬ ph.InSegment addr →
    s'.readByte s.cr3 addr = s.readByte s.cr3 addr

/-- Copying the content and clearing the rest writes the segment. -/
theorem segmentCopied_of_copied {size : Nat} {ph : Phdr} (ok : ph.WellFormed size) {s₁ s₂ : Machine}
    (copied : Copied image use ph.vaddr (fun i => f.byte (ph.offset.toNat + i)) ph.filesz.toNat s s₁)
    (cleared : Copied image use (ph.vaddr + ph.filesz) (fun _ => 0) (ph.memsz - ph.filesz).toNat
      s₁ s₂) : SegmentCopied f image use ph s s₂ := by
  have filesz_le := ok.filesz_le
  have filesz_lt := ph.filesz.isLt
  have memsz_lt := ph.memsz.isLt
  have size : (ph.memsz - ph.filesz).toNat = ph.memsz.toNat - ph.filesz.toNat := by
    rw [BitVec.toNat_sub]
    omega
  have mapping := cleared.mapping
  have node := cleared.node
  have mapped := cleared.mapped
  have read := cleared.read
  rw [copied.cr3] at mapping node mapped read
  have distance (addr : BitVec 64) : (addr - (ph.vaddr + ph.filesz)).toNat <
      (ph.memsz - ph.filesz).toNat ↔ ph.filesz.toNat ≤ (addr - ph.vaddr).toNat ∧
        (addr - ph.vaddr).toNat < ph.memsz.toNat := by
    have apart : addr - (ph.vaddr + ph.filesz) = addr - ph.vaddr - ph.filesz := by
      rw [BitVec.sub_sub]
    have lt := (addr - ph.vaddr).isLt
    rw [apart, size, BitVec.toNat_sub (addr - ph.vaddr)]
    omega
  constructor
  · exact mapping
  · exact cleared.frames.trans copied.frames
  · exact cleared.cr3.trans copied.cr3
  · intro a isUpper level le
    rw [node a isUpper level le, copied.node a isUpper level le]
  · intro addr inside
    have upper := upper_of_inSegment ok inside
    have position := (inSegment_iff ok upper).mp inside
    by_cases fromFile : (addr - ph.vaddr).toNat < ph.filesz.toNat
    · have found := copied.mapped _ fromFile
      rwa [BitVec.ofNat_toNat, BitVec.setWidth_eq, BitVec.add_comm, BitVec.sub_add_cancel] at found
    · have found := mapped _ ((distance addr).mpr ⟨by omega, position⟩)
      rw [BitVec.ofNat_toNat, BitVec.setWidth_eq, BitVec.add_comm, BitVec.sub_add_cancel,
        copied.node _ upper.upper 0 (by decide)] at found
      exact found
  · intro addr inside
    have upper := upper_of_inSegment ok inside
    have position := (inSegment_iff ok upper).mp inside
    rw [read addr upper, copied.read addr upper, Phdr.content]
    simp only [distance]
    by_cases fromFile : (addr - ph.vaddr).toNat < ph.filesz.toNat
    · rw [if_neg (by omega), if_pos fromFile, if_pos fromFile]
    · rw [if_pos (by omega), if_neg fromFile]
  · intro addr upper outside
    rw [inSegment_iff ok upper] at outside
    rw [read addr upper, copied.read addr upper]
    simp only [distance]
    rw [if_neg (by omega), if_neg (by omega)]

/-- The copies for a segment succeed exactly when all its pages are mapped. -/
theorem copySegment_cases {size : Nat} {ph : Phdr} (ok : ph.WellFormed size)
    (mapping : Mapping image use s s.cr3) :
    (∃ s', copySegment f s ph = some s' ∧ SegmentCopied f image use ph s s') ∨
      copySegment f s ph = none ∧
        ∃ addr, ph.InSegment addr ∧ s.node s.cr3 (ofValue addr) 0 = none := by
  have filesz_le := ok.filesz_le
  have filesz_lt := ph.filesz.isLt
  have memsz_lt := ph.memsz.isLt
  have rest : (ph.memsz - ph.filesz).toNat = ph.memsz.toNat - ph.filesz.toNat := by
    rw [BitVec.toNat_sub]
    omega
  have address (k : Nat) : ph.vaddr + ph.filesz + BitVec.ofNat 64 k =
      ph.vaddr + BitVec.ofNat 64 (ph.filesz.toNat + k) := by
    rw [BitVec.add_assoc, BitVec.ofNat_add, BitVec.ofNat_toNat, BitVec.setWidth_eq]
  rcases memcpy_copied mapping ph.vaddr (fun i => f.byte (ph.offset.toNat + i))
    ph.filesz.toNat (by omega)
    (fun k below => upper_of_inSegment ok (inSegment_add ok (by omega))) with
    ⟨s₁, first, copied⟩ | ⟨first, k, below, absent⟩
  · have mapping₁ : Mapping image use s₁ s₁.cr3 := by
      rw [copied.cr3]
      exact copied.mapping
    rcases memcpy_copied mapping₁ (ph.vaddr + ph.filesz) (fun _ => 0)
      (ph.memsz - ph.filesz).toNat (by omega) (fun k below => by
        rw [address]
        exact upper_of_inSegment ok (inSegment_add ok (by omega))) with
      ⟨s₂, last, cleared⟩ | ⟨last, k, below, absent⟩
    · left
      refine ⟨s₂, ?_, ?_⟩
      · rw [copySegment, first, Option.bind_some, memset, last]
      · exact segmentCopied_of_copied ok copied cleared
    · right
      constructor
      · rw [copySegment, first, Option.bind_some, memset, last]
      · rw [copied.cr3, address, copied.node _ (upper_of_inSegment ok
          (inSegment_add ok (by omega))).upper 0 (by decide)] at absent
        exact ⟨_, inSegment_add ok (by omega), absent⟩
  · right
    constructor
    · rw [copySegment, first]
      rfl
    · exact ⟨_, inSegment_add ok (by omega), absent⟩

/-! ## The loop -/

/-- The loop has dealt with the headers before `n`. -/
structure Loaded (f : ElfFile) (root : Nat) (n : Nat) (use : Uses) (l : Loading) : Prop where
  mapping : Mapping (· = root) use l.machine root
  cr3 : l.machine.cr3 = root
  pages : ∀ a : LinearAddress4Level, a.Upper → ((l.machine.node root a 0).isSome ↔
    ∃ j < n, f.IsLoad j ∧ (f.phdr j).MapsPage (a.index 4))
  bytes : ∀ j < n, f.IsLoad j → ∀ addr, (f.phdr j).InSegment addr →
    l.machine.readByte root addr = some ((f.phdr j).content f (addr - (f.phdr j).vaddr).toNat)
  upper : ∀ j < n, f.IsLoad j → ((f.phdr j).vaddr + (f.phdr j).memsz).toNat ≤ l.lastAddr
  attained : l.lastAddr = 0 ∨
    ∃ j < n, f.IsLoad j ∧ l.lastAddr = ((f.phdr j).vaddr + (f.phdr j).memsz).toNat

/-- The pages of segment `i` are among those mapped up to it. -/
def PagesKnown (f : ElfFile) (i : Nat) : Prop :=
  ∀ addr, (f.phdr i).InSegment addr →
    ∃ j ≤ i, f.IsLoad j ∧ (f.phdr j).MapsPage ((ofValue addr).index 4)

/-- After the pages of a segment have been mapped. -/
theorem Loaded.mapped {l : Loading} {root i : Nat} {use : Uses} (loaded : Loaded f root i use l)
    (isLoad : f.IsLoad i) {s' : Machine} {use' : Uses}
    (opens : Opened (· = root) root false ((ofValue (f.phdr i).vaddr).InRange (f.phdr i).num4kpages)
      use l.machine use' s')
    (success : ∀ b : LinearAddress4Level, b.Upper →
      (ofValue (f.phdr i).vaddr).InRange (f.phdr i).num4kpages b → (s'.node root b 0).isSome)
    {a : LinearAddress4Level} (isUpper : a.Upper) : (s'.node root a 0).isSome ↔
      ∃ j < i + 1, f.IsLoad j ∧ (f.phdr j).MapsPage (a.index 4) := by
  constructor
  · intro found
    rcases Option.isSome_iff_exists.mp found with ⟨page, isPage⟩
    rcases opens.page_cases loaded.mapping isUpper isPage with old | ⟨-, ⟨b, inRange, agree⟩, -⟩
    · rcases (loaded.pages a isUpper).mp (Option.isSome_iff_exists.mpr ⟨page, old⟩) with
        ⟨j, below, isLoad', maps⟩
      exact ⟨j, by omega, isLoad', maps⟩
    · rw [InRange, index_eq_of_agreeFrom agree] at inRange
      exact ⟨i, Nat.lt_succ_self i, isLoad, inRange⟩
  · rintro ⟨j, below, isLoad', maps⟩
    by_cases last : j = i
    · subst last
      exact success a isUpper maps
    · rcases Option.isSome_iff_exists.mp
        ((loaded.pages a isUpper).mpr ⟨j, by omega, isLoad', maps⟩) with ⟨page, isPage⟩
      rw [opens.node_mono loaded.mapping isUpper (by decide) isPage]
      rfl

/-- Mapping more pages changes no byte that could be read. -/
theorem readByte_opened {root : Nat} {writable : Bool} {among : LinearAddress4Level → Prop}
    {use use' : Uses} {s s' : Machine} (before : Mapping image use s root)
    (opens : Opened image root writable among use s use' s') {addr : BitVec 64}
    (upper : InUpperHalf addr) {b : UInt8} (read : s.readByte root addr = some b) :
    s'.readByte root addr = some b := by
  rw [before.readByte_eq upper] at read
  rcases Option.map_eq_some_iff.mp read with ⟨page, found, isByte⟩
  rw [(opens.mapping before).readByte_eq upper, opens.node_mono before upper.upper (by decide) found,
    Option.map_some]
  have kept : s'.mem page = s.mem page := by
    rcases (before.use_node upper.upper (by decide) found).2 rfl with ⟨isPrivate, -⟩ | isShared
    · exact (opens.grows before).kept _ _ isPrivate (fun _ => by simp)
    · exact (opens.grows before).kept _ _ isShared (fun _ => by simp)
  rw [byte, kept]
  exact congrArg some isByte

/-- One round: an error, or the segment is loaded, or a page of it is not
mapped. -/
theorem loadSegment_cases (ok : f.WellFormed) {l : Loading} {root i : Nat} {use : Uses}
    (loaded : Loaded f root i use l) (isLoad : f.IsLoad i) :
    (∃ l' e, loadSegment f l i = some (l', e) ∧ e ≠ .success) ∨
      (∃ l' use', loadSegment f l i = some (l', .success) ∧ Loaded f root (i + 1) use' l' ∧
        PagesKnown f i) ∨
      loadSegment f l i = none ∧ ¬ PagesKnown f i := by
  have segment := ok.segment i isLoad
  have isUpper : (ofValue (f.phdr i).vaddr).Upper := InUpperHalf.upper segment.lower
  have before : Mapping (· = root) use l.machine l.machine.cr3 := by
    rw [loaded.cr3]
    exact loaded.mapping
  have safe : Safe (· = root) l.machine.cr3 false
      ((ofValue (f.phdr i).vaddr).InRange (f.phdr i).num4kpages) use l.machine := .inl rfl
  rcases setupPageMaps_opens (ofValue (f.phdr i).vaddr) (f.phdr i).num4kpages before isUpper safe with ⟨use₁, s₁, e, result, opens, success⟩
  rw [loaded.cr3] at opens success
  have presentIn : e = .success → ∀ b : LinearAddress4Level, b.Upper →
      (ofValue (f.phdr i).vaddr).InRange (f.phdr i).num4kpages b → (s₁.node root b 0).isSome :=
    fun done b isUpperB within => (success done b isUpperB within 0 (by decide)).isSome (by decide)
  have known (addr : BitVec 64) (inside : (f.phdr i).InSegment addr)
      (isSuccess : e = .success) : (s₁.node root (ofValue addr) 0).isSome ↔
        ∃ j ≤ i, f.IsLoad j ∧ (f.phdr j).MapsPage ((ofValue addr).index 4) := by
    rw [loaded.mapped isLoad opens (presentIn isSuccess) (upper_of_inSegment segment inside).upper]
    simp only [Nat.lt_succ_iff]
  by_cases isSuccess : e = .success
  · subst isSuccess
    have grows := opens.grows loaded.mapping
    have cr3 : s₁.cr3 = root := grows.cr3.trans loaded.cr3
    have mapping₁ : Mapping (· = root) use₁ s₁ s₁.cr3 := by
      rw [cr3]
      exact opens.mapping loaded.mapping
    rcases copySegment_cases (f := f) segment mapping₁ with
      ⟨s₂, copied, isCopied⟩ | ⟨failed, addr, inside, absent⟩
    · right
      left
      rcases isCopied with ⟨mapping₂, -, cr3₂, node₂, mapped, inside₂, outside₂⟩
      rw [cr3] at mapping₂ cr3₂ node₂ mapped inside₂ outside₂
      have all : PagesKnown f i := by
        intro addr inside
        exact (known addr inside rfl).mp (mapped addr inside)
      rw [loadSegment]
      simp only [result, copied, Option.map_some]
      refine ⟨_, use₁, rfl, ?_, all⟩
      constructor
      · exact mapping₂
      · exact cr3₂
      · intro a isUpper'
        rw [node₂ a isUpper' 0 (by decide)]
        exact loaded.mapped isLoad opens (presentIn rfl) isUpper'
      · intro j below isLoad' addr inside
        have upper := upper_of_inSegment (ok.segment j isLoad') inside
        by_cases last : j = i
        · subst last
          exact inside₂ addr inside
        · have elsewhere := ok.disjoint j i isLoad' isLoad last addr inside
          rw [outside₂ addr upper elsewhere]
          exact readByte_opened loaded.mapping opens upper
            (loaded.bytes j (by omega) isLoad' addr inside)
      · intro j below isLoad'
        by_cases last : j = i
        · subst last
          exact Nat.le_max_right ..
        · exact (loaded.upper j (by omega) isLoad').trans (Nat.le_max_left ..)
      · rcases Nat.le_total l.lastAddr ((f.phdr i).vaddr + (f.phdr i).memsz).toNat with below | above
        · right
          exact ⟨i, Nat.lt_succ_self i, isLoad, Nat.max_eq_right below⟩
        · rw [Nat.max_eq_left above]
          rcases loaded.attained with zero | ⟨j, before, isLoad', same⟩
          · exact .inl zero
          · exact .inr ⟨j, by omega, isLoad', same⟩
    · right
      right
      constructor
      · rw [loadSegment]
        simp only [result, failed, Option.map_none]
      · intro all
        have found := (known addr inside rfl).mpr (all addr inside)
        rw [← cr3, absent] at found
        cases found
  · left
    rw [loadSegment]
    simp only [result]
    cases e with
    | success => exact absurd rfl isSuccess
    | _ => exact ⟨_, _, rfl, isSuccess⟩

/-- The rest of the loop. -/
theorem copyLoadSegmentsLoop_cases (ok : f.WellFormed) (count : Nat) {root start : Nat} {l : Loading}
    {use : Uses} (loaded : Loaded f root start use l) (inside : start + count ≤ f.ePhnum) :
    (∃ l' e, copyLoadSegmentsLoop f (List.range' start count) l = some (l', e) ∧ e ≠ .success) ∨
      (∃ l' use', copyLoadSegmentsLoop f (List.range' start count) l = some (l', .success) ∧
        Loaded f root (start + count) use' l' ∧
        ∀ i, start ≤ i → i < start + count → f.IsLoad i → PagesKnown f i) ∨
      copyLoadSegmentsLoop f (List.range' start count) l = none ∧
        ∃ i, start ≤ i ∧ i < start + count ∧ f.IsLoad i ∧ ¬ PagesKnown f i := by
  induction count generalizing start l use with
  | zero =>
      right
      left
      exact ⟨l, use, rfl, loaded, fun i lower upper => absurd upper (by omega)⟩
  | succ count ih =>
      rw [List.range'_succ, copyLoadSegmentsLoop]
      have seen : Loaded f root start use
          { l with accesses := l.accesses ++ [.read (f.phdrOffset start) 4] } := by
        rcases loaded with ⟨mapping, cr3, pages, bytes, upper, attained⟩
        exact ⟨mapping, cr3, pages, bytes, upper, attained⟩
      by_cases isType : (f.phdr start).type = ptLoad
      · have isLoad : f.IsLoad start := ⟨by omega, isType⟩
        rw [if_pos isType]
        rcases loadSegment_cases ok seen isLoad with
          ⟨l₁, e, round, failed⟩ | ⟨l₁, use₁, round, loaded₁, known⟩ | ⟨round, unknown⟩
        · left
          refine ⟨l₁, e, ?_, failed⟩
          rw [round, Option.bind_some]
          cases e with
          | success => exact absurd rfl failed
          | _ => rfl
        · rw [round, Option.bind_some]
          rcases ih loaded₁ (by omega) with
            ⟨l₂, e, rest, failed⟩ | ⟨l₂, use₂, rest, loaded₂, all⟩ | ⟨rest, i, lower, upper, unknown⟩
          · exact .inl ⟨l₂, e, rest, failed⟩
          · refine .inr (.inl ⟨l₂, use₂, rest, ?_, fun i lower upper isLoad' => ?_⟩)
            · rwa [Nat.add_right_comm, Nat.add_assoc] at loaded₂
            · by_cases first : i = start
              · rw [first]
                exact known
              · exact all i (by omega) (by omega) isLoad'
          · exact .inr (.inr ⟨rest, i, by omega, by omega, unknown⟩)
        · right
          right
          rw [round]
          exact ⟨rfl, start, le_rfl, by omega, isLoad, unknown⟩
      · rw [if_neg isType]
        have skipped (j : Nat) : j < start + 1 ∧ f.IsLoad j ↔ j < start ∧ f.IsLoad j := by
          constructor
          · rintro ⟨below, isLoad⟩
            refine ⟨?_, isLoad⟩
            by_contra last
            obtain rfl : j = start := by omega
            exact isType isLoad.2
          · rintro ⟨below, isLoad⟩
            exact ⟨by omega, isLoad⟩
        have next : Loaded f root (start + 1) use
            { l with accesses := l.accesses ++ [.read (f.phdrOffset start) 4] } := by
          rcases seen with ⟨mapping, cr3, pages, bytes, upper, attained⟩
          simp only [← and_assoc] at pages attained
          refine ⟨mapping, cr3, ?_, ?_, ?_, ?_⟩
          · simpa only [← and_assoc, skipped] using pages
          · intro j below isLoad
            exact bytes j ((skipped j).mp ⟨below, isLoad⟩).1 isLoad
          · intro j below isLoad
            exact upper j ((skipped j).mp ⟨below, isLoad⟩).1 isLoad
          · simpa only [← and_assoc, skipped] using attained
        rcases ih next (by omega) with
          ⟨l₂, e, rest, failed⟩ | ⟨l₂, use₂, rest, loaded₂, all⟩ | ⟨rest, i, lower, upper, unknown⟩
        · exact .inl ⟨l₂, e, rest, failed⟩
        · refine .inr (.inl ⟨l₂, use₂, rest, ?_, fun i lower upper isLoad' => ?_⟩)
          · rwa [Nat.add_right_comm, Nat.add_assoc] at loaded₂
          · apply all i _ (by omega) isLoad'
            by_contra first
            obtain rfl : i = start := by omega
            exact isType isLoad'.2
        · exact .inr (.inr ⟨rest, i, by omega, by omega, unknown⟩)

/-- Nothing is loaded yet. -/
theorem loaded_zero {s : Machine} (fresh : FreshPML4 s) (accesses : List Access) :
    Loaded f s.cr3 0 (freshUses s.cr3) { machine := s, lastAddr := 0, accesses } := by
  constructor
  · exact fresh.mapping
  · rfl
  · intro a isUpper
    rw [fresh.node_eq_none isUpper (by decide)]
    constructor
    · rintro ⟨⟩
    · rintro ⟨j, below, -⟩
      exact absurd below (Nat.not_lt_zero j)
  · exact fun j below => absurd below (Nat.not_lt_zero j)
  · exact fun j below => absurd below (Nat.not_lt_zero j)
  · exact .inl rfl

/-- An accepted file has a segment to load. -/
theorem loadELF_accepted {s : Machine} (accepted : ∀ l e, loadELF f s = some (l, e) → e = .success) :
    loadELF f s = copyLoadSegments f s ∧ ∃ i, f.IsLoad i := by
  by_cases isExec : f.eType = etExec
  · by_cases lower : f.getFirstLoadAddress < appBase
    · have rejected : loadELF f s =
          some ({ machine := s, lastAddr := 0, accesses := [] }, .invalidFormat) := by
        rw [loadELF, if_neg (not_not.mpr isExec), if_pos lower]
      cases accepted _ _ rejected
    · constructor
      · rw [loadELF, if_neg (not_not.mpr isExec), if_neg lower]
      · rw [ElfFile.getFirstLoadAddress] at lower
        split at lower
        · rename_i i found
          refine ⟨i, List.mem_range.mp (List.mem_of_find?_eq_some found), ?_⟩
          have isType := List.find?_some found
          simpa using isType
        · exact absurd (by decide) lower
  · have rejected : loadELF f s =
        some ({ machine := s, lastAddr := 0, accesses := [] }, .invalidFormat) := by
      rw [loadELF, if_pos isExec]
    cases accepted _ _ rejected

/-- The end of a segment, without a wrap around. -/
theorem end_eq {ph : Phdr} (ends : ph.vaddr.toNat + ph.memsz.toNat < 2 ^ 64) :
    (ph.vaddr + ph.memsz).toNat = ph.vaddr.toNat + ph.memsz.toNat := by
  rw [BitVec.toNat_add, Nat.mod_eq_of_lt ends]

/-- When all segments are loaded, the memory holds the image. -/
theorem Loaded.isImage (ok : f.WellFormed) {l : Loading} {root : Nat} {use : Uses}
    (loaded : Loaded f root f.ePhnum use l) (some : ∃ i, f.IsLoad i)
    (ends : ∀ i, f.IsLoad i → (f.phdr i).vaddr.toNat + (f.phdr i).memsz.toNat < 2 ^ 64) :
    f.Image l := by
  constructor
  · intro i isLoad addr inside
    rw [loaded.cr3]
    exact loaded.bytes i isLoad.1 isLoad addr inside
  · intro i isLoad
    rw [← end_eq (ends i isLoad)]
    exact loaded.upper i isLoad.1 isLoad
  · rcases loaded.attained with zero | ⟨i, -, isLoad, same⟩
    · rcases some with ⟨i, isLoad⟩
      have below := loaded.upper i isLoad.1 isLoad
      have lower := (ok.segment i isLoad).lower
      have base : appBase.toNat = 0xffff800000000000 := rfl
      rw [end_eq (ends i isLoad)] at below
      omega
    · exact ⟨i, isLoad, by rw [same, end_eq (ends i isLoad)]⟩

end Loading

open Loading

/-- Loading a well-formed file into a new address space, with enough memory, gives
the image that the file describes exactly when every page of a segment is mapped
for it or for an earlier segment. -/
theorem ElfFile.loadsImage_iff {f : ElfFile} {s : Machine} (ok : f.WellFormed) (fresh : FreshPML4 s)
    (accepted : ∀ l e, loadELF f s = some (l, e) → e = .success) :
    f.LoadsImage s ↔ f.PagesMapped := by
  rcases loadELF_accepted accepted with ⟨loads, some⟩
  have cases := copyLoadSegmentsLoop_cases ok f.ePhnum (loaded_zero fresh [.read 32 8, .read 56 2])
    (Nat.zero_add f.ePhnum).le
  rw [← List.range_eq_range', Nat.zero_add] at cases
  rw [copyLoadSegments] at loads
  constructor
  · rintro ⟨l, result, image⟩
    rw [loads] at result
    rcases cases with ⟨l', e, loops, failed⟩ | ⟨l', use, loops, loaded, known⟩ | ⟨loops, -⟩
    · rw [result] at loops
      cases loops
      exact absurd rfl failed
    · rw [result] at loops
      cases loops
      constructor
      · intro i isLoad
        exact known i (Nat.zero_le i) isLoad.1 isLoad
      · intro i isLoad
        have below := image.upper i isLoad
        rcases loaded.attained with zero | ⟨j, -, -, same⟩
        · omega
        · have small := ((f.phdr j).vaddr + (f.phdr j).memsz).isLt
          omega
    · rw [result] at loops
      cases loops
  · rintro ⟨pages, ends⟩
    rcases cases with ⟨l, e, loops, failed⟩ | ⟨l, use, loops, loaded, -⟩ | ⟨-, i, -, -, isLoad, unknown⟩
    · exact absurd (accepted l e (loads.trans loops)) failed
    · exact ⟨l, loads.trans loops, loaded.isImage ok some ends⟩
    · exact absurd (pages i isLoad) unknown

/-- A new address space over the kernel's own page maps. -/
def freshMachine : Machine :=
  Launcher.kernelMachine.setupPML4.1

/-- Two bytes, the first of them the last byte of its page. -/
def straddlingFile : ElfFile :=
  .ofHeaders [⟨ptLoad, 0, appBase + 0xfff, 2, 2⟩] (by decide)

theorem freshPML4_freshMachine : FreshPML4 freshMachine := by
  constructor
  · decide
  · rintro ⟨-, -, isFree⟩
    have used : freshMachine.frames.getBit freshMachine.cr3 = true := by decide
    rw [used] at isFree
    cases isFree
  · decide +kernel

/-- A file with one header is well formed when its segment is. -/
theorem wellFormed_of_one {f : ElfFile} (one : f.ePhnum = 1) (ok : (f.phdr 0).WellFormed f.size) :
    f.WellFormed := by
  have first {i : Nat} (isLoad : f.IsLoad i) : i = 0 := by
    have below := isLoad.1
    omega
  constructor
  · intro i isLoad
    rw [first isLoad]
    exact ok
  · intro i j isLoad isLoad' ne
    rw [first isLoad, first isLoad'] at ne
    exact absurd rfl ne

theorem ElfFile.loadsImage_iff_upperFile :
    Launcher.upperFile.LoadsImage freshMachine ↔ Launcher.upperFile.PagesMapped := by
  apply ElfFile.loadsImage_iff
  · exact wellFormed_of_one (by decide)
      ⟨by decide, by decide, by decide, by decide⟩
  · exact freshPML4_freshMachine
  · have success : (loadELF Launcher.upperFile freshMachine).all (·.2 == .success) = true := by
      decide +kernel
    intro l e result
    rw [result] at success
    exact eq_of_beq success

/-- The page of the second byte is not mapped when it is stored. -/
theorem not_loadsImage_straddlingFile :
    straddlingFile.WellFormed ∧ FreshPML4 freshMachine ∧ straddlingFile.IsLoad 0 ∧
      (straddlingFile.phdr 0).InSegment (appBase + 0x1000) ∧
      (freshMachine.setupPageMaps (ofValue (straddlingFile.phdr 0).vaddr)
        (straddlingFile.phdr 0).num4kpages false).2 = .success ∧
      (freshMachine.setupPageMaps (ofValue (straddlingFile.phdr 0).vaddr)
        (straddlingFile.phdr 0).num4kpages false).1.translate (ofValue (appBase + 0x1000)) = none ∧
      loadELF straddlingFile freshMachine = none ∧ ¬ straddlingFile.LoadsImage freshMachine := by
  have faults : (loadELF straddlingFile freshMachine).isNone = true := by decide +kernel
  have none := Option.isNone_iff_eq_none.mp faults
  refine ⟨?_, freshPML4_freshMachine, ?_, ?_, ?_, ?_, none, ?_⟩
  · exact wellFormed_of_one (by decide)
      ⟨by decide, by decide, by decide, by decide⟩
  · exact ⟨by decide, by decide⟩
  · exact ⟨by decide, by decide⟩
  · decide +kernel
  · exact Option.isNone_iff_eq_none.mp (by decide +kernel)
  · rintro ⟨l, result, -⟩
    rw [none] at result
    cases result

end Mikanos.Loader
