import Mikanos.Paging.Copy
import Mikanos.Paging.Fault

/-!
# When a copy is complete

An executable's image is a PML4 whose upper half `SetupPageMaps` has built.  A
launch copies it into a PML4 with an empty upper half.  The copy is complete
exactly when the image maps something, and either lies within one page table or
cannot be copied for want of frames.
-/

namespace Mikanos.Paging

open Mikanos.Memory

namespace Machine

/-! ## Images -/

/-- The tables that the upper half of a PML4 reaches, with their levels, and its
pages at level 0. -/
inductive Reaches (s : Machine) (pml4 : Nat) : Nat → Nat → Prop
  | root : Reaches s pml4 4 pml4
  | child {level table : Nat} (i : Fin 512) :
      Reaches s pml4 (level + 1) table → Covered (level + 1) i →
      (s.entry table i).present = true → Reaches s pml4 level (s.entry table i).pointer

/-- `src` is a PML4 whose upper half was built by calls of `SetupPageMaps` that
succeeded.  In between, the rest of the machine may do what it likes, as long as
it leaves the tables and frames of `src` alone. -/
inductive ImageBuilt (src : Nat) : Machine → Prop
  | fresh (s : Machine) :
      s.frames.rangeEnd ≤ kFrameCount → ¬ s.frames.Available src →
      (∀ i, Covered 4 i → (s.entry src i).present = false) → ImageBuilt src s
  | setupPageMaps {s s' : Machine} (addr : LinearAddress4Level) (num4kpages : Nat)
      (writable : Bool) :
      ImageBuilt src s → addr.Upper →
      ({ s with cr3 := src } : Machine).setupPageMaps addr num4kpages writable = (s', .success) →
      ImageBuilt src s'
  | elsewhere {s s' : Machine} :
      ImageBuilt src s → s'.frames.rangeEnd ≤ kFrameCount →
      (∀ level f, Reaches s src level f → ¬ s'.frames.Available f) →
      (∀ level f i, Reaches s src (level + 1) f → Covered (level + 1) i →
        s'.entry f i = s.entry f i) →
      ImageBuilt src s'

/-- An image in terms of what its frames are used for. -/
def ImageOk (src : Nat) (s : Machine) : Prop :=
  ∃ use, Owned (· = src) use s ∧ use src = some (.table 4 src) ∧ Populated src use s ∧
    ∀ f u, use f = some u → ∃ level, Reaches s src level f

section Images

variable {use : Uses} {s s' : Machine} {src : Nat}

/-- The description says what the frames are that an image reaches. -/
theorem use_of_reaches (owned : Owned (· = src) use s) (isSrc : use src = some (.table 4 src))
    {level f : Nat} (reaches : Reaches s src level f) :
    (level ≠ 0 → use f = some (.table level src)) ∧
      (level = 0 → use f = some .sharedPage) := by
  induction reaches with
  | root => exact ⟨fun _ => isSrc, fun zero => absurd zero (by decide)⟩
  | @child level table i reaches covered present ih =>
      have ok := owned.entries table _ src (ih.1 (Nat.succ_ne_zero level)) i covered
      constructor
      · intro inner
        exact ok.table present (by omega)
      · intro leaf
        rcases ok.page present (by omega) with ⟨-, notImage⟩ | ⟨isShared, -⟩
        · exact absurd rfl notImage
        · exact isShared

open Classical in
/-- Frames that an image does not reach can be left out of its description. -/
theorem imageOk_of_owned (use : Uses) (owned : Owned (· = src) use s)
    (isSrc : use src = some (.table 4 src)) (populated : Populated src use s) : ImageOk src s := by
  set kept : Uses := fun f => if ∃ level, Reaches s src level f then use f else none with keptEq
  have reached : ∀ f u, kept f = some u → (∃ level, Reaches s src level f) ∧ use f = some u := by
    intro f u found
    by_cases reaches : ∃ level, Reaches s src level f
    · exact ⟨reaches, by simpa [keptEq, reaches] using found⟩
    · simp [keptEq, reaches] at found
  have keptOf : ∀ level f u, Reaches s src level f → use f = some u → kept f = some u := by
    intro level f u reaches found
    rw [keptEq]
    simp only [if_pos (⟨level, reaches⟩ : ∃ level, Reaches s src level f)]
    exact found
  refine ⟨kept, ?_, keptOf 4 src _ .root isSrc, ?_, fun f u found => (reached f u found).1⟩
  · constructor
    · exact owned.range_le
    · intro f u found
      exact owned.used f u (reached f u found).2
    · intro f level owner found i covered
      rcases reached f _ found with ⟨⟨level', reaches⟩, found'⟩
      have ok := owned.entries f level owner found' i covered
      have levelEq : level' = level ∧ level' ≠ 0 := by
        rcases use_of_reaches owned isSrc reaches with ⟨isTable, isPage⟩
        by_cases zero : level' = 0
        · rw [isPage zero] at found'
          cases found'
        · rw [isTable zero] at found'
          cases found'
          exact ⟨rfl, zero⟩
      rcases levelEq with ⟨rfl, nonzero⟩
      have childReaches : (s.entry f i).present = true →
          Reaches s src (level' - 1) (s.entry f i).pointer := by
        intro present
        have levelEq : level' - 1 + 1 = level' := by omega
        apply Reaches.child i _ _ present
        · rw [levelEq]
          exact reaches
        · rw [levelEq]
          exact covered
      constructor
      · exact ok.small
      · intro present inner
        exact keptOf _ _ _ (childReaches present) (ok.table present inner)
      · intro present leaf
        rcases ok.page present leaf with ⟨isPrivate, notImage⟩ | ⟨isShared, readOnly⟩
        · exact .inl ⟨keptOf _ _ _ (childReaches present) isPrivate, notImage⟩
        · exact .inr ⟨keptOf _ _ _ (childReaches present) isShared, readOnly⟩
  · intro f level found notRoot
    exact populated f level (reached f _ found).2 notRoot

/-- A PML4 with an empty upper half is an image that maps nothing. -/
theorem imageOk_fresh (range : s.frames.rangeEnd ≤ kFrameCount) (used : ¬ s.frames.Available src)
    (empty : ∀ i, Covered 4 i → (s.entry src i).present = false) : ImageOk src s := by
  set use : Uses := fun f => if f = src then some (.table 4 src) else none with useEq
  have onlySrc : ∀ f u, use f = some u → f = src ∧ u = .table 4 src := by
    intro f u found
    by_cases same : f = src
    · simp only [useEq, if_pos same, Option.some.injEq] at found
      exact ⟨same, found.symm⟩
    · simp [useEq, same] at found
  apply imageOk_of_owned use
  · constructor
    · exact range
    · intro f u found
      rw [(onlySrc f u found).1]
      exact used
    · intro f level owner found i covered
      rcases onlySrc f _ found with ⟨rfl, same⟩
      cases same
      have absent := empty i covered
      constructor
      · exact fun notRoot => absurd rfl notRoot
      · intro present
        rw [absent] at present
        cases present
      · intro present
        rw [absent] at present
        cases present
  · simp [useEq]
  · intro f level found notRoot
    rcases onlySrc f _ found with ⟨-, same⟩
    cases same
    exact absurd rfl notRoot

/-- `SetupPageMaps` keeps an image. -/
theorem ImageOk.setupPageMaps (ok : ImageOk src s) {addr : LinearAddress4Level}
    {num4kpages : Nat} {writable : Bool} (isUpper : addr.Upper)
    (result : ({ s with cr3 := src } : Machine).setupPageMaps addr num4kpages writable =
      (s', .success)) : ImageOk src s' := by
  rcases ok with ⟨use, owned, isSrc, populated, -⟩
  have owned₀ : Owned (· = src) use ({ s with cr3 := src } : Machine) :=
    ⟨owned.range_le, owned.used, owned.entries⟩
  have populated₀ : Populated src use ({ s with cr3 := src } : Machine) := populated
  rcases @setupPageMap_sound (· = src) src rfl writable 4 (by decide) (by decide) use
    { s with cr3 := src } src addr num4kpages owned₀ isSrc (fun _ => isUpper) with
    ⟨use', owned', grows, populated'⟩
  rcases setup : setupPageMap writable 4 { s with cr3 := src } src addr num4kpages with
    ⟨s₁, remain, e⟩
  simp only [Machine.setupPageMaps, setup, Prod.mk.injEq] at result
  rcases result with ⟨rfl, rfl⟩
  rw [setup] at owned' grows populated'
  by_cases zero : num4kpages = 0
  · have same : s₁ = { s with cr3 := src } := by
      have unchanged : setupPageMap writable 4 { s with cr3 := src } src addr num4kpages =
          ({ s with cr3 := src }, num4kpages, .success) := by
        have positive : ∃ fuel, 512 - (addr.part 4).val = fuel + 1 := by
          have := (addr.part 4).isLt
          exact ⟨511 - (addr.part 4).val, by omega⟩
        rcases positive with ⟨fuel, fuelEq⟩
        rw [setupPageMap, fuelEq, setupPageMapLoop, if_pos zero]
      rw [setup] at unchanged
      exact congrArg Prod.fst unchanged
    rw [same]
    exact imageOk_of_owned use owned₀ isSrc populated₀
  · apply imageOk_of_owned use' owned' (grows.extends_use _ _ isSrc)
    apply populated' rfl zero
    intro f level found notRoot _
    exact populated₀ f level found notRoot

/-- An image does not depend on the rest of the machine. -/
theorem ImageOk.elsewhere (ok : ImageOk src s) (range : s'.frames.rangeEnd ≤ kFrameCount)
    (kept : ∀ level f, Reaches s src level f → ¬ s'.frames.Available f)
    (same : ∀ level f i, Reaches s src (level + 1) f → Covered (level + 1) i →
      s'.entry f i = s.entry f i) : ImageOk src s' := by
  rcases ok with ⟨use, owned, isSrc, populated, reached⟩
  have isTable : ∀ f level owner, use f = some (.table level owner) →
      ∃ l, level = l + 1 ∧ Reaches s src (l + 1) f := by
    intro f level owner found
    rcases reached f _ found with ⟨level', reaches⟩
    rcases use_of_reaches owned isSrc reaches with ⟨table, page⟩
    cases level' with
    | zero =>
        rw [page rfl] at found
        cases found
    | succ l =>
        rw [table (Nat.succ_ne_zero l)] at found
        cases found
        exact ⟨l, rfl, reaches⟩
  apply imageOk_of_owned use
  · constructor
    · exact range
    · intro f u found
      rcases reached f u found with ⟨level, reaches⟩
      exact kept level f reaches
    · intro f level owner found i covered
      rcases isTable f level owner found with ⟨l, rfl, reaches⟩
      rw [same l f i reaches covered]
      exact owned.entries f _ owner found i covered
  · exact isSrc
  · intro f level found notRoot
    rcases isTable f level src found with ⟨l, rfl, reaches⟩
    rcases populated f _ found notRoot with ⟨i, present⟩
    refine ⟨i, ?_⟩
    rw [same l f i reaches (fun four => absurd four notRoot)]
    exact present

theorem imageOk_of_built (built : ImageBuilt src s) : ImageOk src s := by
  induction built with
  | fresh s range used empty => exact imageOk_fresh range used empty
  | setupPageMaps addr num4kpages writable _ isUpper result ih =>
      exact ih.setupPageMaps isUpper result
  | elsewhere _ range kept same ih => exact ih.elsewhere range kept same

end Images

/-! ## The page table that is copied -/

section First

variable {image : Nat → Prop} {use : Uses} {s s' : Machine} {owner : Nat}

/-- Only the parts up to the level of a table matter for an address in it. -/
theorem leaf_of_parts {a b : LinearAddress4Level} (level table : Nat)
    (parts : ∀ k, 1 ≤ k → k ≤ level → a.part k = b.part k) :
    s.leaf a level table = s.leaf b level table := by
  induction level generalizing table with
  | zero => rfl
  | succ level ih =>
      cases level with
      | zero => simp only [leaf, parts 1 le_rfl le_rfl]
      | succ level =>
          simp only [leaf, parts (level + 2) (by omega) le_rfl]
          split
          · exact ih _ fun k lower upper => parts k lower (by omega)
          · rfl

theorem inFirst_of_parts {a b : LinearAddress4Level} (part start table : Nat)
    (parts : ∀ k, 1 ≤ k → k ≤ part → a.part k = b.part k) :
    s.InFirst a part start table → s.InFirst b part start table := by
  induction part generalizing start table with
  | zero => exact id
  | succ part ih =>
      cases part with
      | zero =>
          intro inFirst
          have above : start ≤ (a.part 1).val := inFirst
          rw [parts 1 le_rfl le_rfl] at above
          exact above
      | succ part =>
          simp only [InFirst, parts (part + 2) (by omega) le_rfl]
          rintro ⟨found, rest⟩
          exact ⟨found, ih 0 _ (fun k lower upper => parts k lower (by omega)) rest⟩

/-- Addresses in the page table that is copied agree above level 1. -/
theorem parts_of_inFirst {a b : LinearAddress4Level} (part start table : Nat)
    (first : s.InFirst a part start table) (second : s.InFirst b part start table) :
    ∀ k, 2 ≤ k → k ≤ part → a.part k = b.part k := by
  induction part generalizing start table with
  | zero => exact absurd first id
  | succ part ih =>
      intro k lower upper
      cases part with
      | zero => omega
      | succ part =>
          rcases first with ⟨foundA, restA⟩
          rcases second with ⟨foundB, restB⟩
          have here : a.part (part + 2) = b.part (part + 2) :=
            Option.some.inj (foundA.symm.trans foundB)
          rw [← here] at restB
          by_cases top : k = part + 2
          · rw [top, here]
          · exact ih 0 _ restA restB k lower (by omega)

/-- An address that agrees above level 1 with one in the page table that is
copied lies in it too. -/
theorem inFirst_of_region {a b : LinearAddress4Level} (part start table : Nat)
    (first : s.InFirst a part start table) (deep : 2 ≤ part)
    (parts : ∀ k, 2 ≤ k → k ≤ part → a.part k = b.part k) : s.InFirst b part start table := by
  induction part generalizing start table with
  | zero => omega
  | succ part ih =>
      cases part with
      | zero => omega
      | succ part =>
          rcases first with ⟨found, rest⟩
          have here := parts (part + 2) (by omega) le_rfl
          rw [here] at found rest
          refine ⟨found, ?_⟩
          cases part with
          | zero => exact Nat.zero_le _
          | succ part =>
              exact ih 0 _ rest (by omega) fun k lower upper => parts k lower (by omega)

/-- A table with an entry leads to a page in the page table that is copied. -/
theorem exists_inFirst (owned : Owned image use s) (populated : Populated owner use s)
    (part start table : Nat) (isTable : use table = some (.table part owner)) (lower : 1 ≤ part)
    (upper : part ≤ 4) (isUpper : part = 4 → 256 ≤ start)
    (nonempty : ∃ i : Fin 512, start ≤ i.val ∧ (s.entry table i).present = true) :
    ∃ addr, s.InFirst addr part start table ∧ (s.leaf addr part table).isSome := by
  induction part generalizing start table with
  | zero => omega
  | succ part ih =>
      cases part with
      | zero =>
          rcases nonempty with ⟨i, above, present⟩
          refine ⟨⟨0, i, 0, 0, 0, 0⟩, above, ?_⟩
          simp [leaf, LinearAddress4Level.part, present]
      | succ part =>
          have found : ∃ i, s.firstPresent table start = some i := by
            cases first : s.firstPresent table start with
            | some i => exact ⟨i, rfl⟩
            | none =>
                rcases nonempty with ⟨i, above, present⟩
                rw [firstPresent_none first above] at present
                cases present
          rcases found with ⟨i, first⟩
          rcases firstPresent_some first with ⟨above, present⟩
          have covered : Covered (part + 2) i := fun four => Nat.le_trans (isUpper four) above
          have isChild := (owned.entries table _ owner isTable i covered).table present (by omega)
          rcases populated _ _ isChild (by omega) with ⟨j, childPresent⟩
          rcases ih 0 _ isChild (by omega) (by omega) (by omega)
            ⟨j, Nat.zero_le _, childPresent⟩ with ⟨addr, inFirst, mapped⟩
          have here : (addr.setPart (part + 2) i).part (part + 2) = i := by
            rw [LinearAddress4Level.part_setPart _ _ _ _ (by omega) (by omega), if_pos rfl]
          have below : ∀ k, 1 ≤ k → k ≤ part + 1 →
              addr.part k = (addr.setPart (part + 2) i).part k := by
            intro k _ upper
            rw [LinearAddress4Level.part_setPart _ _ _ _ (by omega) (by omega), if_neg (by omega)]
          refine ⟨addr.setPart (part + 2) i, ⟨by rw [here, first], ?_⟩, ?_⟩
          · rw [here]
            exact inFirst_of_parts _ _ _ below inFirst
          · rw [leaf, here, if_pos present, ← leaf_of_parts _ _ below]
            exact mapped

end First

/-! ## The result of the copy -/

section Result

variable {image : Nat → Prop} {use₀ use : Uses} {s₀ s : Machine} {owner r : Nat}

theorem available_eq_nil (none : ∀ f, ¬ s.frames.Available f) : s.frames.available.length = 0 := by
  apply List.length_eq_zero_iff.mpr
  apply List.eq_nil_iff_forall_not_mem.mpr
  intro f member
  exact none f ((s.frames.mem_available f).mp member)

/-- The copy of a table with an entry needs one frame for each level below. -/
theorem copyPageMaps_result (owned₀ : Owned image use₀ s₀) (populated : Populated owner use₀ s₀)
    (isImage : image owner) (notImage : ¬ image r) (part start dest src : Nat)
    (lower : 1 ≤ part) (upper : part ≤ 4) (isUpper : part = 4 → 256 ≤ start)
    (owned : Owned image use s) (extends_use : ∀ f u, use₀ f = some u → use f = some u)
    (same : SameTables use₀ owner s₀ s) (isSrc : use₀ src = some (.table part owner))
    (isDest : use dest = some (.table part r))
    (nonempty : ∃ i : Fin 512, start ≤ i.val ∧ (s₀.entry src i).present = true) :
    (copyPageMaps part start s dest src).2 =
      some (if part - 1 ≤ s.frames.available.length then .success else .noEnoughMemory) := by
  induction part generalizing use s start dest src with
  | zero => exact absurd lower (by decide)
  | succ part ih =>
      cases part with
      | zero => simp [copyPageMaps]
      | succ part =>
          have entryEq : ∀ i, s.entry src i = s₀.entry src i := by
            intro i
            rw [entry, same src _ isSrc, entry]
          cases first : s.firstPresent src start with
          | none =>
              rcases nonempty with ⟨i, above, present⟩
              rw [← entryEq, firstPresent_none first above] at present
              cases present
          | some i =>
              rcases firstPresent_some first with ⟨above, present⟩
              have covered : Covered (part + 2) i := fun four => Nat.le_trans (isUpper four) above
              rw [entryEq] at present
              have isChild := (owned₀.entries src _ owner isSrc i covered).table present (by omega)
              rw [copyPageMaps]
              rcases copyTables_round owned (extends_use _ _ isSrc) isImage isDest notImage isUpper
                first (copyPageMaps (part + 1) 0) with
                ⟨exhausted, failed⟩ | ⟨use₁, s₁, table, round, owned₁, grows₁, isTable, -, kept₁, -,
                  -, -, -, fewer⟩
              · rw [failed, available_eq_nil exhausted]
                simp
              · have ownerNe : ∀ f level, use₀ f = some (.table level owner) → f ≠ dest := by
                  rintro f level found rfl
                  rw [extends_use _ _ found] at isDest
                  cases isDest
                  exact notImage isImage
                have same₁ : SameTables use₀ owner s₀ s₁ := by
                  intro f level found
                  rw [kept₁ f _ (extends_use _ _ found) (ownerNe f level found),
                    same f level found]
                rcases populated _ _ isChild (by omega) with ⟨j, childPresent⟩
                rw [round, entryEq, ih 0 table _ (by omega) (by omega) (by omega) owned₁
                  (fun f u found => grows₁.extends_use f u (extends_use f u found)) same₁ isChild
                  isTable ⟨j, Nat.zero_le _, childPresent⟩]
                have frames : part + 1 - 1 ≤ s₁.frames.available.length ↔
                    part + 1 + 1 - 1 ≤ s.frames.available.length := by omega
                simp only [frames]

/-- Without an entry to copy, `CopyPageMaps` returns nothing. -/
theorem copyPageMaps_empty (part start dest src : Nat)
    (empty : ∀ i : Fin 512, start ≤ i.val → (s.entry src i).present = false) :
    copyPageMaps (part + 2) start s dest src = (s, none) := by
  cases first : s.firstPresent src start with
  | none =>
      rw [firstPresent] at first
      rw [copyPageMaps, copyTables_eq, first]
  | some i =>
      rcases firstPresent_some first with ⟨above, present⟩
      rw [empty i above] at present
      cases present

/-- The processor finds the frame that the leaf names. -/
theorem walk_frame (owned : Owned image use s) (addr : LinearAddress4Level) (level table : Nat)
    (isTable : use table = some (.table level owner)) (isUpper : level = 4 → addr.Upper)
    (upper : level ≤ 4) :
    (s.walk addr level table).map (·.frame) =
      (s.leaf addr level table).map PageMapEntry.pointer := by
  induction level generalizing table with
  | zero => rfl
  | succ level ih =>
      cases present : (s.entry table (addr.part (level + 1))).present with
      | false =>
          rw [walk_absent _ _ present]
          cases level with
          | zero => simp [leaf, present]
          | succ level => simp [leaf, present]
      | true =>
          have covered : Covered (level + 1) (addr.part (level + 1)) := by
            intro four
            rw [four]
            exact isUpper four
          have ok := owned.entries table _ owner isTable _ covered
          cases level with
          | zero =>
              rw [walk_leaf _ present]
              simp [leaf, present]
          | succ level =>
              rw [walk_table _ _ (by omega) present, leaf, if_pos present,
                ← ih _ (ok.table present (by omega)) (by omega) (by omega), Option.map_map]
              · rfl
              · rintro ⟨huge, small⟩
                rw [ok.small (by omega)] at huge
                cases huge

end Result

/-! ## Complete copies -/

/-- The page maps of a PML4 map the page of an address. -/
def Maps (s : Machine) (pml4 : Nat) (addr : LinearAddress4Level) : Prop :=
  (s.translateIn pml4 addr).isSome

instance (s : Machine) (pml4 : Nat) (addr : LinearAddress4Level) : Decidable (s.Maps pml4 addr) :=
  inferInstanceAs (Decidable ((s.translateIn pml4 addr).isSome = true))

/-- `CopyPageMaps(dest, src, 4, 256)` returns a result; if it is success, `dest`
maps what `src` maps to the same frames, without write permission, and the
tables of `src` are as they were. -/
structure CopyComplete (s : Machine) (dest src : Nat) : Prop where
  defined : (copyPageMaps 4 256 s dest src).2 ≠ none
  maps : (copyPageMaps 4 256 s dest src).2 = some .success → ∀ addr : LinearAddress4Level,
    addr.Upper → ((copyPageMaps 4 256 s dest src).1.Maps dest addr ↔ s.Maps src addr)
  frame : (copyPageMaps 4 256 s dest src).2 = some .success → ∀ addr : LinearAddress4Level,
    addr.Upper → ((copyPageMaps 4 256 s dest src).1.translateIn dest addr).map (·.frame) =
      (s.translateIn src addr).map (·.frame)
  readOnly : (copyPageMaps 4 256 s dest src).2 = some .success → ∀ addr : LinearAddress4Level,
    addr.Upper → ∀ e, (copyPageMaps 4 256 s dest src).1.leaf addr 4 dest = some e →
      e.writable = false
  source : (copyPageMaps 4 256 s dest src).2 = some .success → ∀ level table,
    Reaches s src (level + 1) table → (copyPageMaps 4 256 s dest src).1.mem table = s.mem table

/-- Two addresses lie in the same page table. -/
def SameRegion (a b : LinearAddress4Level) : Prop :=
  a.pml4 = b.pml4 ∧ a.pdp = b.pdp ∧ a.dir = b.dir

theorem sameRegion_iff (a b : LinearAddress4Level) :
    SameRegion a b ↔ ∀ k, 2 ≤ k → k ≤ 4 → a.part k = b.part k := by
  constructor
  · rintro ⟨pml4, pdp, dir⟩ k lower upper
    have levels : k = 2 ∨ k = 3 ∨ k = 4 := by omega
    rcases levels with rfl | rfl | rfl
    · exact dir
    · exact pdp
    · exact pml4
  · intro parts
    exact ⟨parts 4 (by decide) (by decide), parts 3 (by decide) (by decide),
      parts 2 (by decide) (by decide)⟩

section Complete

variable {image : Nat → Prop} {use : Uses} {s : Machine} {dest src : Nat}

/-- A machine with an image and an empty PML4, in terms of what its frames are
used for. -/
theorem exists_owned_of_built (built : ImageBuilt src s) (used : ¬ s.frames.Available dest)
    (outside : ∀ level, ¬ Reaches s src level dest)
    (empty : ∀ i, Covered 4 i → (s.entry dest i).present = false) :
    ∃ use, Owned (· = src) use s ∧ use src = some (.table 4 src) ∧
      use dest = some (.table 4 dest) ∧ Populated src use s := by
  rcases imageOk_of_built built with ⟨use, owned, isSrc, populated, reached⟩
  have unused : use dest = none := by
    cases found : use dest with
    | none => rfl
    | some u =>
        rcases reached dest u found with ⟨level, reaches⟩
        exact absurd reaches (outside level)
  have destNe : dest ≠ src := by
    rintro rfl
    exact outside 4 .root
  have extends_use : ∀ f u, use f = some u →
      Function.update use dest (some (.table 4 dest)) f = some u := by
    rintro f u found
    rw [Function.update_of_ne _, found]
    rintro rfl
    rw [unused] at found
    cases found
  refine ⟨Function.update use dest (some (.table 4 dest)), ?_, extends_use _ _ isSrc,
    Function.update_self .., ?_⟩
  · constructor
    · exact owned.range_le
    · intro f u found
      by_cases same : f = dest
      · rw [same]
        exact used
      · rw [Function.update_of_ne same] at found
        exact owned.used f u found
    · intro f level owner found i covered
      by_cases same : f = dest
      · subst same
        rw [Function.update_self] at found
        cases found
        have absent := empty i covered
        constructor
        · exact fun notRoot => absurd rfl notRoot
        · intro present
          rw [absent] at present
          cases present
        · intro present
          rw [absent] at present
          cases present
      · rw [Function.update_of_ne same] at found
        exact (owned.entries f level owner found i covered).mono extends_use
  · intro f level found notRoot
    by_cases same : f = dest
    · subst same
      rw [Function.update_self] at found
      cases found
      exact absurd rfl notRoot
    · rw [Function.update_of_ne same] at found
      exact populated f level found notRoot

/-- `SetupPageMaps` leaves alone another PML4 that is in use, and builds nothing that
reaches it. -/
theorem outside_setupPageMaps (built : ImageBuilt src s) (used : ¬ s.frames.Available dest)
    (outside : ∀ level, ¬ Reaches s src level dest)
    (empty : ∀ i, Covered 4 i → (s.entry dest i).present = false) (addr : LinearAddress4Level)
    (num4kpages : Nat) (writable : Bool) (isUpper : addr.Upper) :
    (∀ level, ¬ Reaches
      (({ s with cr3 := src } : Machine).setupPageMaps addr num4kpages writable).1 src level dest) ∧
    (({ s with cr3 := src } : Machine).setupPageMaps addr num4kpages writable).1.mem dest =
      s.mem dest := by
  have ne : dest ≠ src := by
    rintro rfl
    exact outside 4 .root
  rcases exists_owned_of_built built used outside empty with ⟨use, owned, isSrc, isDest, -⟩
  have owned₀ : Owned (· = src) use ({ s with cr3 := src } : Machine) :=
    ⟨owned.range_le, owned.used, owned.entries⟩
  rcases @setupPageMap_sound (· = src) src rfl writable 4 (by decide) (by decide) use
    { s with cr3 := src } src addr num4kpages owned₀ isSrc (fun _ => isUpper) with
    ⟨use', owned', grows, -⟩
  constructor
  · intro level reaches
    rcases use_of_reaches owned' (grows.extends_use _ _ isSrc) reaches with ⟨isTable, isPage⟩
    have isDest' := grows.extends_use _ _ isDest
    by_cases zero : level = 0
    · rw [isPage zero] at isDest'
      cases isDest'
    · rw [isTable zero] at isDest'
      cases isDest'
      exact ne rfl
  · apply grows.kept dest _ isDest
    rintro level ⟨⟩
    exact ne rfl

theorem isSome_leaf_iff (owned : Owned image use s) {pml4 owner : Nat}
    (isTable : use pml4 = some (.table 4 owner)) (addr : LinearAddress4Level)
    (isUpper : addr.Upper) : (s.leaf addr 4 pml4).isSome ↔ s.Maps pml4 addr := by
  have frames := congrArg Option.isSome
    (walk_frame owned addr 4 pml4 isTable (fun _ => isUpper) le_rfl)
  rw [Option.isSome_map, Option.isSome_map] at frames
  rw [Maps, translateIn, frames]

theorem upper_of_inFirst {addr : LinearAddress4Level} (inFirst : s.InFirst addr 4 256 src) :
    addr.Upper :=
  (firstPresent_some inFirst.1).1

/-- An image that maps something has an entry in its PML4. -/
theorem present_of_maps {addr : LinearAddress4Level} (maps : s.Maps src addr) :
    (s.entry src addr.pml4).present = true := by
  cases present : (s.entry src addr.pml4).present with
  | true => rfl
  | false =>
      rw [Maps, translateIn, walk_absent 3 src present] at maps
      cases maps

/-- If something is mapped, the copy succeeds exactly when there are frames for
three tables. -/
theorem copyPageMaps_of_maps (owned : Owned (· = src) use s) (isSrc : use src = some (.table 4 src))
    (isDest : use dest = some (.table 4 dest)) (ne : dest ≠ src) (populated : Populated src use s)
    (nonempty : ∃ addr, addr.Upper ∧ s.Maps src addr) :
    (copyPageMaps 4 256 s dest src).2 =
      some (if 3 ≤ s.frames.available.length then .success else .noEnoughMemory) := by
  rcases nonempty with ⟨addr, isUpper, maps⟩
  exact copyPageMaps_result owned populated rfl ne 4 256 dest src (by decide) le_rfl
    (fun _ => le_rfl) owned (fun _ _ found => found) (fun _ _ _ => rfl) isSrc isDest
    ⟨addr.pml4, isUpper, present_of_maps maps⟩

/-- An image with an entry in its PML4 maps something in the page table that is
copied. -/
theorem exists_maps_inFirst (owned : Owned (· = src) use s)
    (isSrc : use src = some (.table 4 src)) (populated : Populated src use s) (i : Fin 512)
    (isUpper : 256 ≤ i.val) (present : (s.entry src i).present = true) :
    ∃ addr, s.InFirst addr 4 256 src ∧ addr.Upper ∧ s.Maps src addr := by
  rcases exists_inFirst owned populated 4 256 src isSrc (by decide) le_rfl (fun _ => le_rfl)
    ⟨i, isUpper, present⟩ with ⟨addr, inFirst, isLeaf⟩
  have addrUpper := upper_of_inFirst inFirst
  exact ⟨addr, inFirst, addrUpper, (isSome_leaf_iff owned isSrc addr addrUpper).mp isLeaf⟩

/-- If the copy returns a result, something is mapped. -/
theorem exists_maps_of_defined (owned : Owned (· = src) use s)
    (isSrc : use src = some (.table 4 src)) (populated : Populated src use s)
    (defined : (copyPageMaps 4 256 s dest src).2 ≠ none) :
    ∃ addr, addr.Upper ∧ s.Maps src addr := by
  by_contra noneMapped
  have empty : ∀ i : Fin 512, 256 ≤ i.val → (s.entry src i).present = false := by
    intro i isUpper
    cases present : (s.entry src i).present with
    | false => rfl
    | true =>
        rcases exists_maps_inFirst owned isSrc populated i isUpper present with ⟨addr, -, maps⟩
        exact absurd ⟨addr, maps⟩ noneMapped
  have nothing := copyPageMaps_empty 2 256 dest src empty
  exact defined (congrArg Prod.snd nothing)

/-- If all pages lie in one page table, it is the one that is copied. -/
theorem inFirst_of_sameRegion (owned : Owned (· = src) use s)
    (isSrc : use src = some (.table 4 src)) (populated : Populated src use s)
    (oneRegion : ∀ a b, a.Upper → b.Upper → s.Maps src a → s.Maps src b → SameRegion a b)
    (addr : LinearAddress4Level) (isUpper : addr.Upper) (maps : s.Maps src addr) :
    s.InFirst addr 4 256 src := by
  rcases exists_maps_inFirst owned isSrc populated _ isUpper (present_of_maps maps) with
    ⟨first, inFirst, firstUpper, firstMaps⟩
  apply inFirst_of_region 4 256 src inFirst (by decide)
  apply (sameRegion_iff first addr).mp
  exact oneRegion first addr firstUpper isUpper firstMaps maps

/-- A copy of a single page table is complete. -/
theorem copyComplete_of_sameRegion (owned : Owned (· = src) use s)
    (isSrc : use src = some (.table 4 src)) (isDest : use dest = some (.table 4 dest))
    (outside : ∀ level, ¬ Reaches s src level dest) (populated : Populated src use s)
    (empty : ∀ i, Covered 4 i → (s.entry dest i).present = false)
    (nonempty : ∃ addr, addr.Upper ∧ s.Maps src addr)
    (oneRegion : ∀ a b, a.Upper → b.Upper → s.Maps src a → s.Maps src b → SameRegion a b) :
    CopyComplete s dest src := by
  have ne : dest ≠ src := by
    rintro rfl
    exact outside 4 .root
  have resultEq := copyPageMaps_of_maps owned isSrc isDest ne populated nonempty
  have inFirst := inFirst_of_sameRegion owned isSrc populated oneRegion
  have mapped := isSome_leaf_iff owned isSrc
  rcases @copyPageMaps_spec (· = src) use s src dest rfl ne 4 256 dest src (by decide) le_rfl
    (fun _ => le_rfl) owned isSrc isDest with
    ⟨use', s', result, copied, owned', grows, kept, leaves⟩
  have isDest' := grows.extends_use _ _ isDest
  rw [copied] at resultEq
  have leafEq : result = some .success → ∀ addr : LinearAddress4Level, addr.Upper →
      s'.leaf addr 4 dest = (s.leaf addr 4 src).map shared := by
    intro success addr isUpper
    rcases leaves success addr (fun _ => isUpper) empty with ⟨inside, outside⟩
    by_cases isFirst : s.InFirst addr 4 256 src
    · exact inside isFirst
    · have absent : ¬ (s.leaf addr 4 src).isSome := by
        rw [mapped addr isUpper]
        exact fun maps => isFirst (inFirst addr isUpper maps)
      rw [outside isFirst, Option.not_isSome_iff_eq_none.mp absent]
      rfl
  constructor
  · rw [copied, resultEq]
    exact Option.some_ne_none _
  · rw [copied]
    intro success addr isUpper
    rw [← isSome_leaf_iff owned' isDest' addr isUpper, leafEq success addr isUpper,
      Option.isSome_map, mapped addr isUpper]
  · rw [copied]
    intro success addr isUpper
    have samePointer : PageMapEntry.pointer ∘ shared = PageMapEntry.pointer :=
      funext fun e => PageMapEntry.pointer_setWritable e false
    rw [translateIn, translateIn, walk_frame owned' addr 4 dest isDest' (fun _ => isUpper) le_rfl,
      walk_frame owned addr 4 src isSrc (fun _ => isUpper) le_rfl, leafEq success addr isUpper,
      Option.map_map, samePointer]
  · rw [copied]
    intro success addr isUpper e isLeaf
    rw [leafEq success addr isUpper, Option.map_eq_some_iff] at isLeaf
    rcases isLeaf with ⟨_, -, rfl⟩
    exact PageMapEntry.writable_setWritable _ false
  · rw [copied]
    intro _ level table reaches
    have isTable := (use_of_reaches owned isSrc reaches).1 (Nat.succ_ne_zero level)
    have tableNe : table ≠ dest := fun same => outside (level + 1) (same ▸ reaches)
    exact kept table _ isTable tableNe

/-- When the copy is complete and succeeds, all pages lie in one page table. -/
theorem CopyComplete.sameRegion (complete : CopyComplete s dest src)
    (owned : Owned (· = src) use s) (isSrc : use src = some (.table 4 src))
    (isDest : use dest = some (.table 4 dest)) (ne : dest ≠ src)
    (empty : ∀ i, Covered 4 i → (s.entry dest i).present = false)
    (success : (copyPageMaps 4 256 s dest src).2 = some .success) (a b : LinearAddress4Level)
    (upperA : a.Upper) (upperB : b.Upper) (mapsA : s.Maps src a) (mapsB : s.Maps src b) :
    SameRegion a b := by
  have maps := complete.maps success
  rcases @copyPageMaps_spec (· = src) use s src dest rfl ne 4 256 dest src (by decide) le_rfl
    (fun _ => le_rfl) owned isSrc isDest with
    ⟨use', s', result, copied, owned', grows, -, leaves⟩
  rw [copied] at success maps
  have inFirst : ∀ addr : LinearAddress4Level, addr.Upper → s.Maps src addr →
      s.InFirst addr 4 256 src := by
    intro addr isUpper isMapped
    by_contra notFirst
    have isLeaf := (isSome_leaf_iff owned' (grows.extends_use _ _ isDest) addr isUpper).mpr
      ((maps addr isUpper).mpr isMapped)
    rw [(leaves success addr (fun _ => isUpper) empty).2 notFirst] at isLeaf
    cases isLeaf
  apply (sameRegion_iff a b).mpr
  exact parts_of_inFirst 4 256 src (inFirst a upperA mapsA) (inFirst b upperB mapsB)

/-- The copy is complete exactly when the image maps something and its pages
lie in one page table, or the frames do not suffice for three tables. -/
theorem copyComplete_iff (built : ImageBuilt src s) (used : ¬ s.frames.Available dest)
    (outside : ∀ level, ¬ Reaches s src level dest)
    (empty : ∀ i, Covered 4 i → (s.entry dest i).present = false) :
    CopyComplete s dest src ↔
      (∃ addr, addr.Upper ∧ s.Maps src addr) ∧
        (s.frames.available.length < 3 ∨
          ∀ a b, a.Upper → b.Upper → s.Maps src a → s.Maps src b → SameRegion a b) := by
  rcases exists_owned_of_built built used outside empty with
    ⟨use, owned, isSrc, isDest, populated⟩
  have ne : dest ≠ src := by
    rintro rfl
    exact outside 4 .root
  constructor
  · intro complete
    have nonempty := exists_maps_of_defined owned isSrc populated complete.defined
    constructor
    · exact nonempty
    · by_cases enough : 3 ≤ s.frames.available.length
      · right
        have success := copyPageMaps_of_maps owned isSrc isDest ne populated nonempty
        rw [if_pos enough] at success
        exact complete.sameRegion owned isSrc isDest ne empty success
      · left
        omega
  · rintro ⟨nonempty, few | oneRegion⟩
    · have failed := copyPageMaps_of_maps owned isSrc isDest ne populated nonempty
      rw [if_neg (by omega)] at failed
      have notSuccess : (copyPageMaps 4 256 s dest src).2 ≠ some .success := by
        rw [failed]
        rintro ⟨⟩
      constructor
      · rw [failed]
        exact Option.some_ne_none _
      all_goals exact fun success => absurd success notSuccess
    · exact copyComplete_of_sameRegion owned isSrc isDest outside populated empty nonempty oneRegion

end Complete

/-! ## Images with one and two page tables -/

/-- An image with one page, in the PML4 in frame 1. -/
def onePage : Machine :=
  (({ smallMachine with cr3 := 1 } : Machine).setupPageMaps (.ofValue 0xffff800000000000) 1 true).1

/-- An image with the last page of one page table and the first of the next. -/
def twoPages : Machine :=
  (({ smallMachine with cr3 := 1 } : Machine).setupPageMaps (.ofValue 0xffff8000001ff000) 2 true).1

theorem ImageBuilt.setup {s : Machine} {src : Nat} (built : ImageBuilt src s)
    (addr : LinearAddress4Level) (num4kpages : Nat) (writable : Bool) (isUpper : addr.Upper)
    (success : (({ s with cr3 := src } : Machine).setupPageMaps addr num4kpages writable).2 =
      .success) :
    ImageBuilt src (({ s with cr3 := src } : Machine).setupPageMaps addr num4kpages writable).1 :=
  built.setupPageMaps addr num4kpages writable isUpper (Prod.ext rfl success)

theorem imageBuilt_smallMachine : ImageBuilt 1 smallMachine := by
  apply ImageBuilt.fresh
  · decide
  · rintro ⟨-, -, isFree⟩
    exact absurd isFree (by decide)
  · exact fun _ _ => PageMapEntry.present_zero

theorem imageBuilt_onePage : ImageBuilt 1 onePage :=
  imageBuilt_smallMachine.setup (.ofValue 0xffff800000000000) 1 true (by decide) (by decide)

theorem imageBuilt_twoPages : ImageBuilt 1 twoPages :=
  imageBuilt_smallMachine.setup (.ofValue 0xffff8000001ff000) 2 true (by decide) (by decide +kernel)

theorem eq_one_of_reaches {level f : Nat} (reaches : Reaches smallMachine 1 level f) : f = 1 := by
  induction reaches with
  | root => rfl
  | child i _ _ present => exact absurd (present.symm.trans PageMapEntry.present_zero) (by decide)

/-- The image in frame 1 keeps clear of the PML4 in frame 2. -/
theorem outside_smallMachine_setup (addr : LinearAddress4Level) (num4kpages : Nat)
    (isUpper : addr.Upper) :
    (∀ level, ¬ Reaches
      (({ smallMachine with cr3 := 1 } : Machine).setupPageMaps addr num4kpages true).1 1 level 2) ∧
    (({ smallMachine with cr3 := 1 } : Machine).setupPageMaps addr num4kpages true).1.mem 2 =
      smallMachine.mem 2 := by
  have used : ¬ smallMachine.frames.Available 2 := by
    rintro ⟨-, -, isFree⟩
    exact absurd isFree (by decide)
  exact outside_setupPageMaps imageBuilt_smallMachine used
    (fun _ reaches => absurd (eq_one_of_reaches reaches) (by decide))
    (fun _ _ => PageMapEntry.present_zero) addr num4kpages true isUpper

theorem outside_onePage (level : Nat) : ¬ Reaches onePage 1 level 2 :=
  (outside_smallMachine_setup (.ofValue 0xffff800000000000) 1 (by decide)).1 level

theorem empty_onePage (i : Fin 512) : (onePage.entry 2 i).present = false := by
  rw [entry, onePage, (outside_smallMachine_setup (.ofValue 0xffff800000000000) 1 (by decide)).2]
  exact PageMapEntry.present_zero

theorem outside_twoPages (level : Nat) : ¬ Reaches twoPages 1 level 2 :=
  (outside_smallMachine_setup (.ofValue 0xffff8000001ff000) 2 (by decide)).1 level

theorem empty_twoPages (i : Fin 512) : (twoPages.entry 2 i).present = false := by
  rw [entry, twoPages, (outside_smallMachine_setup (.ofValue 0xffff8000001ff000) 2 (by decide)).2]
  exact PageMapEntry.present_zero

/-- A walk that finds something goes through a present entry. -/
theorem present_of_walk {s : Machine} {addr : LinearAddress4Level} {level table : Nat}
    (found : (s.walk addr (level + 1) table).isSome) :
    (s.entry table (addr.part (level + 1))).present = true ∧
      (level ≠ 0 → (s.entry table (addr.part (level + 1))).hugePage = false →
        (s.walk addr level (s.entry table (addr.part (level + 1))).pointer).isSome) := by
  cases present : (s.entry table (addr.part (level + 1))).present with
  | false =>
      rw [walk_absent _ _ present] at found
      cases found
  | true =>
      constructor
      · rfl
      · intro inner small
        rw [walk_table _ _ inner present (by simp [small]), Option.isSome_map] at found
        exact found

theorem maps_onePage {addr : LinearAddress4Level} (maps : onePage.Maps 1 addr) :
    SameRegion addr (.ofValue 0xffff800000000000) := by
  have top : ∀ i : Fin 512, (onePage.entry 1 i).present = true →
      i = 256 ∧ (onePage.entry 1 i).hugePage = false ∧ (onePage.entry 1 i).pointer = 128 := by
    decide +kernel
  have middle : ∀ i : Fin 512, (onePage.entry 128 i).present = true →
      i = 0 ∧ (onePage.entry 128 i).hugePage = false ∧ (onePage.entry 128 i).pointer = 129 := by
    decide +kernel
  have bottom : ∀ i : Fin 512, (onePage.entry 129 i).present = true → i = 0 := by
    decide +kernel
  rcases present_of_walk maps with ⟨present, below⟩
  rcases top _ present with ⟨pml4, small, pointer⟩
  have maps₃ := below (by decide) small
  rw [pointer] at maps₃
  rcases present_of_walk maps₃ with ⟨present, below⟩
  rcases middle _ present with ⟨pdp, small, pointer⟩
  have maps₂ := below (by decide) small
  rw [pointer] at maps₂
  have dir := bottom _ (present_of_walk maps₂).1
  exact ⟨pml4, pdp, dir⟩

/-- The copy of an image with one page is complete. -/
theorem copyComplete_onePage : CopyComplete onePage 2 1 := by
  have used : ¬ onePage.frames.Available 2 := by
    rintro ⟨-, -, isFree⟩
    exact absurd isFree (by decide)
  apply (copyComplete_iff imageBuilt_onePage used outside_onePage (fun i _ => empty_onePage i)).mpr
  constructor
  · exact ⟨.ofValue 0xffff800000000000, by decide, by decide⟩
  · right
    intro a b _ _ mapsA mapsB
    rcases maps_onePage mapsA with ⟨pml4, pdp, dir⟩
    rcases maps_onePage mapsB with ⟨pml4', pdp', dir'⟩
    exact ⟨pml4.trans pml4'.symm, pdp.trans pdp'.symm, dir.trans dir'.symm⟩

/-- The copy of an image whose pages lie in two page tables is not complete. -/
theorem not_copyComplete_twoPages :
    ¬ ∀ (s : Machine) (dest src : Nat), ImageBuilt src s → ¬ s.frames.Available dest →
      (∀ level, ¬ Reaches s src level dest) →
      (∀ i, Covered 4 i → (s.entry dest i).present = false) → CopyComplete s dest src := by
  intro always
  have used : ¬ twoPages.frames.Available 2 := by
    rintro ⟨-, -, isFree⟩
    exact absurd isFree (by decide +kernel)
  have complete := always twoPages 2 1 imageBuilt_twoPages used outside_twoPages
    (fun i _ => empty_twoPages i)
  rcases exists_owned_of_built imageBuilt_twoPages used outside_twoPages (fun i _ => empty_twoPages i) with
    ⟨use, owned, isSrc, isDest, -⟩
  have region := complete.sameRegion owned isSrc isDest (by decide) (fun i _ => empty_twoPages i)
    (by decide +kernel) (.ofValue 0xffff8000001ff000) (.ofValue 0xffff800000200000)
    (by decide) (by decide) (by decide +kernel) (by decide +kernel)
  exact absurd region.2.2 (by decide)

end Machine

end Mikanos.Paging
