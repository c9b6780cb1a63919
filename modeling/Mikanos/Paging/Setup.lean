import Mikanos.Paging.Opening

/-!
# What `SetupPageMaps` does

`SetupPageMaps` opens the entries on the paths of the pages in a range, and no
others.  When it succeeds, every page in the range is present, except those after
the last page of the address space.
-/

namespace Mikanos.Paging

open Mikanos.Memory LinearAddress4Level

/-! ## Pages in order -/

namespace LinearAddress4Level

variable {a b : LinearAddress4Level} {level : Nat}

/-- The address that the loop of `SetupPageMap` goes on with. -/
def next (a : LinearAddress4Level) (level : Nat) : LinearAddress4Level :=
  (a.setPart level (a.part level + 1)).clearBelow level

theorem part_clearBelow_lower (a : LinearAddress4Level) {level k : Nat} (upper : level ≤ 4)
    (lower : 1 ≤ k) (below : k < level) : (a.clearBelow level).part k = 0 := by
  induction level generalizing a with
  | zero => omega
  | succ level ih =>
      cases level with
      | zero => omega
      | succ level =>
          rw [clearBelow]
          by_cases top : k = level + 1
          · rw [top, part_clearBelow _ _ _ (by omega) le_rfl,
              part_setPart _ _ _ _ (by omega) (by omega), if_pos rfl]
          · exact ih _ (by omega) (by omega)

theorem index_eq_zero (zero : ∀ k, 1 ≤ k → k ≤ level → a.part k = 0) : a.index level = 0 := by
  induction level with
  | zero => rfl
  | succ level ih =>
      rw [index, zero (level + 1) (by omega) le_rfl, ih fun k lower upper => zero k lower (by omega)]
      exact Nat.zero_mul _

theorem part_next_above {k : Nat} (lower : 1 ≤ level) (above : level < k) (upper : k ≤ 4) :
    (a.next level).part k = a.part k := by
  rw [next, part_clearBelow _ _ _ (by omega) (by omega), part_setPart _ _ _ _ lower (by omega),
    if_neg (by omega)]

theorem part_next (lower : 1 ≤ level) (upper : level ≤ 4) (notLast : a.part level ≠ 511) :
    ((a.next level).part level).val = (a.part level).val + 1 := by
  have last : (a.part level).val ≠ 511 := fun same => notLast (Fin.ext same)
  rw [next, part_clearBelow _ _ _ upper le_rfl, part_setPart _ _ _ _ lower upper, if_pos rfl,
    Fin.val_add]
  have := (a.part level).isLt
  change ((a.part level).val + 1) % 512 = _
  omega

theorem agreeFrom_next (lower : 1 ≤ level) : AgreeFrom (level + 1) a (a.next level) :=
  fun _ above upper => (part_next_above lower above upper).symm

theorem index_next (upper : level + 1 ≤ 4) (notLast : a.part (level + 1) ≠ 511) :
    (a.next (level + 1)).index (level + 1) = ((a.part (level + 1)).val + 1) * 512 ^ level := by
  have zero : (a.next (level + 1)).index level = 0 :=
    index_eq_zero fun k lower below => part_clearBelow_lower _ upper lower (by omega)
  rw [index, zero, part_next (by omega) upper notLast, Nat.add_zero]

/-- Addresses that agree above a level are as far apart as below it. -/
theorem index_add_of_agree (le : level ≤ 4) (agree : AgreeFrom (level + 1) a b) :
    b.index 4 + a.index level = a.index 4 + b.index level := by
  have upward : ∀ gap ≤ 4 - level,
      b.index (level + gap) + a.index level = a.index (level + gap) + b.index level := by
    intro gap
    induction gap with
    | zero =>
        intro _
        rw [Nat.add_zero, Nat.add_comm]
    | succ gap ih =>
        intro inside
        have below := ih (by omega)
        rw [← Nat.add_assoc, index, index, agree (level + gap + 1) (by omega) (by omega)]
        omega
  have top := upward (4 - level) le_rfl
  rwa [Nat.add_sub_cancel' le] at top

theorem index_four_next (upper : level + 1 ≤ 4) (notLast : a.part (level + 1) ≠ 511) :
    (a.next (level + 1)).index 4 = a.index 4 + (512 ^ level - a.index level) := by
  have apart := index_add_of_agree upper (agreeFrom_next (a := a) (Nat.succ_pos level))
  have lt := a.index_lt level
  have here : a.index (level + 1) = a.part (level + 1) * 512 ^ level + a.index level := rfl
  rw [index_next upper notLast, here, Nat.succ_mul] at apart
  omega

theorem upper_next (lower : 1 ≤ level) (upper : level ≤ 4) (isUpper : a.Upper)
    (notLast : a.part level ≠ 511) : (a.next level).Upper := by
  by_cases four : level = 4
  · subst four
    have part := part_next lower upper notLast
    have before : 256 ≤ (a.part 4).val := isUpper
    change 256 ≤ ((a.next 4).part 4).val
    omega
  · exact (agreeFrom_next lower).upper (by omega) isUpper

theorem part_le_of_index_le (le : a.index (level + 1) ≤ b.index (level + 1)) :
    (a.part (level + 1)).val ≤ (b.part (level + 1)).val := by
  by_contra greater
  have scaled : ((b.part (level + 1)).val + 1) * 512 ^ level ≤
      (a.part (level + 1)).val * 512 ^ level :=
    Nat.mul_le_mul_right _ (by omega)
  have lt := b.index_lt level
  rw [index, index] at le
  rw [Nat.succ_mul] at scaled
  omega

/-- The pages from that of an address on. -/
def InRange (a : LinearAddress4Level) (num4kpages : Nat) (b : LinearAddress4Level) : Prop :=
  a.index 4 ≤ b.index 4 ∧ b.index 4 < a.index 4 + num4kpages

end LinearAddress4Level

namespace Machine

/-- Entries on the paths of some addresses are opened, one after another. -/
inductive Opened (image : Nat → Prop) (root : Nat) (writable : Bool)
    (among : LinearAddress4Level → Prop) (use : Uses) (s : Machine) : Uses → Machine → Prop
  | refl : Opened image root writable among use s use s
  | step {use₁ use' : Uses} {s₁ s' : Machine} {a : LinearAddress4Level} {level : Nat} :
      Opened image root writable among use s use₁ s₁ → among a → a.Upper → level < 4 →
      OpenStep image root writable a level use₁ s₁ use' s' →
      Opened image root writable among use s use' s'

section

variable {image : Nat → Prop} {root level : Nat} {writable : Bool}
  {among among' : LinearAddress4Level → Prop} {use use' use'' : Uses} {s s' s'' : Machine}
  {a b : LinearAddress4Level} {f : Nat}

/-- A page that is new is empty and lies where the entry was opened. -/
theorem OpenStep.page_cases (step : OpenStep image root writable a level use s use' s')
    (mapping : Mapping image use s root) (isUpper : a.Upper) (inside : level < 4)
    (isUpper' : b.Upper) (found : s'.node root b 0 = some f) :
    s.node root b 0 = some f ∨ s.frames.Available f ∧ AgreeFrom 1 a b ∧
      s'.mem f = (fun _ => 0) ∧
      (use' f = some (.privatePage root) ∧ ¬ image root ∨ use' f = some .sharedPage ∧ image root) := by
  cases step with
  | again _ present _ =>
      left
      rw [node_setEntry_flags (present_opened _ _) (pointer_opened _ _) (by omega)] at found
      exact found
  | @new table c u isTable absent available isInner isLeaf =>
      rw [node_link mapping isUpper inside isTable absent available
        (by rw [present_opened, present_linked])
        (by rw [pointer_opened, pointer_linked _ (mapping.owned.available_lt available)]) isUpper'
        (by omega)] at found
      split at found
      · rename_i behind
        split at found
        · rename_i zero
          subst zero
          cases found
          right
          have notNew : f ≠ table := by
            rintro rfl
            exact mapping.node_ne isUpper (by decide) available isTable
          refine ⟨available, behind.2, ?_, ?_⟩
          · rw [mem_setEntry_of_ne _ _ _ notNew, withNewPageMap, mem_setFrame_self]
          · rw [Function.update_self]
            rcases isLeaf rfl with ⟨isPrivate, notImage⟩ | ⟨isShared, isImage⟩
            · exact .inl ⟨congrArg some isPrivate, notImage⟩
            · exact .inr ⟨congrArg some isShared, isImage⟩
        · cases found
      · exact .inl found

namespace Opened

theorem single (isUpper : a.Upper) (inside : level < 4) (holds : among a)
    (step : OpenStep image root writable a level use s use' s') :
    Opened image root writable among use s use' s' :=
  .step .refl holds isUpper inside step

theorem mono (opens : Opened image root writable among use s use' s')
    (weaker : ∀ a, among a → among' a) : Opened image root writable among' use s use' s' := by
  induction opens with
  | refl => exact .refl
  | step _ holds isUpper inside step ih => exact .step ih (weaker _ holds) isUpper inside step

theorem trans (first : Opened image root writable among use s use' s')
    (last : Opened image root writable among use' s' use'' s'') :
    Opened image root writable among use s use'' s'' := by
  induction last with
  | refl => exact first
  | step _ holds isUpper inside step ih => exact .step ih holds isUpper inside step

theorem mapping (opens : Opened image root writable among use s use' s')
    (before : Mapping image use s root) : Mapping image use' s' root := by
  induction opens with
  | refl => exact before
  | step _ _ isUpper inside step ih => exact step.mapping ih isUpper inside

theorem grows (opens : Opened image root writable among use s use' s')
    (before : Mapping image use s root) : Grows root use use' s s' := by
  induction opens with
  | refl => exact .refl root use s
  | step opens _ isUpper inside step ih =>
      exact ih.trans (step.owned (opens.mapping before) isUpper inside).2

theorem node_mono (opens : Opened image root writable among use s use' s')
    (before : Mapping image use s root) (isUpper : b.Upper) {level : Nat} (le : level ≤ 4)
    (found : s.node root b level = some f) : s'.node root b level = some f := by
  induction opens with
  | refl => exact found
  | step opens _ isUpper' inside step ih =>
      exact step.node_mono (opens.mapping before) isUpper' inside isUpper le ih

/-- The pages that are new. -/
theorem page_cases (opens : Opened image root writable among use s use' s')
    (before : Mapping image use s root) (isUpper : b.Upper) (found : s'.node root b 0 = some f) :
    s.node root b 0 = some f ∨ use f = none ∧ (∃ a, among a ∧ AgreeFrom 1 a b) ∧
      s'.mem f = (fun _ => 0) ∧
      (use' f = some (.privatePage root) ∧ ¬ image root ∨ use' f = some .sharedPage ∧ image root) := by
  induction opens with
  | refl => exact .inl found
  | @step use₁ use' s₁ s' a level opens holds isUpper' inside step ih =>
      have mapping := opens.mapping before
      have grows := (step.owned mapping isUpper' inside).2
      rcases step.page_cases mapping isUpper' inside isUpper found with
        old | ⟨available, agree, content, isPage⟩
      · rcases ih old with older | ⟨unused, between, content, isPage⟩
        · exact .inl older
        · right
          refine ⟨unused, between, ?_, ?_⟩
          · rcases isPage with ⟨isPrivate, -⟩ | ⟨isShared, -⟩
            · rw [grows.kept _ _ isPrivate (fun _ => by simp), content]
            · rw [grows.kept _ _ isShared (fun _ => by simp), content]
          · rcases isPage with ⟨isPrivate, notImage⟩ | ⟨isShared, isImage⟩
            · exact .inl ⟨grows.extends_use _ _ isPrivate, notImage⟩
            · exact .inr ⟨grows.extends_use _ _ isShared, isImage⟩
      · right
        refine ⟨?_, ⟨a, holds, agree⟩, content, isPage⟩
        have unused := mapping.owned.use_of_available available
        cases used : use f with
        | none => rfl
        | some u =>
            rw [(opens.grows before).extends_use _ _ used] at unused
            cases unused

end Opened

/-! ## Entries that are open -/

/-- The entry that leads to the node of some level on the path of an address is
present and has the flags of `SetupPageMap`. -/
def IsOpen (s : Machine) (root : Nat) (writable : Bool) (a : LinearAddress4Level) (level : Nat) :
    Prop :=
  ∃ table, s.node root a (level + 1) = some table ∧
    (s.entry table (a.part (level + 1))).present = true ∧
    (s.entry table (a.part (level + 1))).user = true ∧
    (s.entry table (a.part (level + 1))).writable = openFlag level writable

theorem IsOpen.congr (isOpen : s.IsOpen root writable a level) (inside : level < 4)
    (agree : AgreeFrom (level + 1) a b) : s.IsOpen root writable b level := by
  rcases isOpen with ⟨table, isTable, flags⟩
  rw [agree (level + 1) le_rfl inside] at flags
  exact ⟨table, by rw [← node_congr inside (agree.mono (Nat.le_succ _)), isTable], flags⟩

theorem IsOpen.isSome (isOpen : s.IsOpen root writable a level) (inside : level < 4) :
    (s.node root a level).isSome := by
  rcases isOpen with ⟨table, isTable, present, -⟩
  rw [node_succ inside, isTable, Option.bind_some, child, if_pos present]
  rfl

theorem user_opened (e : PageMapEntry) (writable : Bool) : (opened e writable).user = true := by
  rw [opened, PageMapEntry.user_setWritable, PageMapEntry.user_setUser]

theorem writable_opened (e : PageMapEntry) (writable : Bool) :
    (opened e writable).writable = writable := by
  rw [opened, PageMapEntry.writable_setWritable]

/-- The entry that a step opens is open. -/
theorem OpenStep.opens (step : OpenStep image root writable a level use s use' s')
    (mapping : Mapping image use s root) (isUpper : a.Upper) (inside : level < 4) :
    s'.IsOpen root writable a level := by
  cases step with
  | @again table isTable present safe =>
      have step : OpenStep image root writable a level use s use _ := .again isTable present safe
      refine ⟨table, step.node_mono mapping isUpper inside isUpper inside isTable, ?_⟩
      rw [entry_setEntry_self, present_opened, user_opened, writable_opened]
      exact ⟨present, rfl, rfl⟩
  | @new table c u isTable absent available isInner isLeaf =>
      have step : OpenStep image root writable a level use s _ _ :=
        .new isTable absent available isInner isLeaf
      refine ⟨table, step.node_mono mapping isUpper inside isUpper inside isTable, ?_⟩
      rw [entry_setEntry_self, present_opened, user_opened, writable_opened, present_linked]
      exact ⟨rfl, rfl, rfl⟩

/-- Open entries stay open. -/
theorem OpenStep.isOpen (step : OpenStep image root writable a level use s use' s')
    (mapping : Mapping image use s root) (isUpper : a.Upper) (inside : level < 4)
    (isUpper' : b.Upper) {k : Nat} (inside' : k < 4) (isOpen : s.IsOpen root writable b k) :
    s'.IsOpen root writable b k := by
  rcases isOpen with ⟨t, isNode, flags⟩
  have isNode' := step.node_mono mapping isUpper inside isUpper' inside' isNode
  refine ⟨t, isNode', ?_⟩
  have useNode := (mapping.use_node isUpper' inside' isNode).1 (Nat.succ_ne_zero k)
  cases step with
  | @again table isTable present safe =>
      have useTable := (mapping.use_node isUpper inside isTable).1 (Nat.succ_ne_zero level)
      by_cases here : t = table ∧ b.part (k + 1) = a.part (level + 1)
      · rcases here with ⟨rfl, same⟩
        rw [useTable] at useNode
        simp only [Option.some.injEq, Use.table.injEq, and_true] at useNode
        obtain rfl : level = k := by omega
        rw [same, entry_setEntry_self, present_opened, user_opened, writable_opened]
        exact ⟨present, rfl, rfl⟩
      · rw [entry_setEntry_of_ne _ _ (not_and_or.mp here)]
        exact flags
  | @new table c u isTable absent available isInner isLeaf =>
      have notNew : t ≠ c := by
        rintro rfl
        exact mapping.node_ne isUpper' inside' available isNode
      have ne : t ≠ table ∨ b.part (k + 1) ≠ a.part (level + 1) := by
        by_contra both
        simp only [not_or, not_not] at both
        rcases both with ⟨rfl, same⟩
        rw [← same, flags.1] at absent
        cases absent
      rw [entry_setEntry_of_ne _ _ ne, entry_withNewPageMap_of_ne _ _ notNew]
      exact flags

theorem Opened.isOpen (opens : Opened image root writable among use s use' s')
    (before : Mapping image use s root) (isUpper : b.Upper) {k : Nat} (inside : k < 4)
    (isOpen : s.IsOpen root writable b k) : s'.IsOpen root writable b k := by
  induction opens with
  | refl => exact isOpen
  | step opens _ isUpper' inside' step ih =>
      exact step.isOpen (opens.mapping before) isUpper' inside' isUpper inside ih

/-! ## The functions -/

/-- No page that would become writable is shared. -/
def Safe (image : Nat → Prop) (root : Nat) (writable : Bool) (among : LinearAddress4Level → Prop)
    (use : Uses) (s : Machine) : Prop :=
  writable = false ∨ image root ∨ ∀ b : LinearAddress4Level, b.Upper → among b → ∀ f,
    s.node root b 0 = some f → use f = some (.privatePage root)

theorem Safe.opened (safe : Safe image root writable among use s)
    (opens : Opened image root writable among use s use' s') (before : Mapping image use s root) :
    Safe image root writable among use' s' := by
  rcases safe with readOnly | isImage | allPrivate
  · exact .inl readOnly
  · exact .inr (.inl isImage)
  · by_cases isImage : image root
    · exact .inr (.inl isImage)
    · refine .inr (.inr fun b isUpper holds f found => ?_)
      rcases opens.page_cases before isUpper found with old | ⟨-, -, -, isPage⟩
      · exact (opens.grows before).extends_use _ _ (allPrivate b isUpper holds f old)
      · rcases isPage with ⟨isPrivate, -⟩ | ⟨-, isImage'⟩
        · exact isPrivate
        · exact absurd isImage' isImage

theorem Safe.mono (safe : Safe image root writable among use s) (weaker : ∀ a, among' a → among a) :
    Safe image root writable among' use s := by
  rcases safe with readOnly | isImage | allPrivate
  · exact .inl readOnly
  · exact .inr (.inl isImage)
  · exact .inr (.inr fun b isUpper holds => allPrivate b isUpper (weaker b holds))

/-- What a part of `SetupPageMap` does that is responsible for the pages behind
one entry of a table, or behind the entries of a table from one on. -/
def SetsUp (image : Nat → Prop) (root : Nat) (writable : Bool) (level tableLevel : Nat)
    (setup : Machine → Nat → LinearAddress4Level → Nat → Machine × Nat × Error) : Prop :=
  ∀ use s table (addr : LinearAddress4Level) num4kpages, num4kpages ≠ 0 → Mapping image use s root →
    addr.Upper → s.node root addr tableLevel = some table →
    Safe image root writable (addr.InRange num4kpages) use s →
    ∃ use' s' remain e, setup s table addr num4kpages = (s', remain, e) ∧
      Opened image root writable (addr.InRange num4kpages) use s use' s' ∧
      (e = .success → remain = num4kpages - (512 ^ level - addr.index level) ∧
        ∀ b, b.Upper → AgreeFrom (level + 1) addr b → addr.index level ≤ b.index level →
          b.index level < addr.index level + num4kpages →
            ∀ k < tableLevel, s'.IsOpen root writable b k)

/-- Opening one entry on the path of a page. -/
theorem openEntry_step {table : Nat} (before : Mapping image use s root) (isUpper : a.Upper)
    (inside : level < 4) (isTable : s.node root a (level + 1) = some table)
    (safe : level = 0 → (s.entry table (a.part 1)).present = true → writable = false ∨ image root ∨
      use (s.entry table (a.part 1)).pointer = some (.privatePage root)) :
    (∃ use' s' child, s.openEntry table (a.part (level + 1)) (openFlag level writable) =
        (s', .ok child) ∧ OpenStep image root writable a level use s use' s' ∧
        s'.node root a level = some child) ∨
      s.openEntry table (a.part (level + 1)) (openFlag level writable) =
        (s, .error .noEnoughMemory) := by
  have useTable := (before.use_node isUpper inside isTable).1 (Nat.succ_ne_zero level)
  rcases s.openEntry_cases (a.part (level + 1)) (openFlag level writable)
    (before.owned.used table _ useTable) with
    ⟨present, result⟩ | ⟨absent, frame, available, result⟩ | ⟨-, -, result⟩
  · left
    have step : OpenStep image root writable a level use s use
        (s.setEntry table (a.part (level + 1))
          (opened (s.entry table (a.part (level + 1))) (openFlag level writable))) := by
      refine .again isTable present ?_
      rintro rfl
      exact safe rfl present
    refine ⟨_, _, _, result, step, ?_⟩
    rw [node_setEntry_flags (present_opened _ _) (pointer_opened _ _) (by omega), node_succ inside,
      isTable, Option.bind_some, child, if_pos present]
  · left
    have purpose : ∃ u : Use, (level ≠ 0 → u = .table level root) ∧
        (level = 0 → u = .privatePage root ∧ ¬ image root ∨ u = .sharedPage ∧ image root) := by
      by_cases leaf : level = 0
      · by_cases isImage : image root
        · exact ⟨.sharedPage, fun inner => absurd leaf inner, fun _ => .inr ⟨rfl, isImage⟩⟩
        · exact ⟨.privatePage root, fun inner => absurd leaf inner, fun _ => .inl ⟨rfl, isImage⟩⟩
      · exact ⟨.table level root, fun _ => rfl, fun zero => absurd zero leaf⟩
    rcases purpose with ⟨u, isInner, isLeaf⟩
    have step : OpenStep image root writable a level use s _ _ :=
      .new isTable absent available isInner isLeaf
    refine ⟨_, _, _, result, step, ?_⟩
    rw [node_link before isUpper inside isTable absent available
      (by rw [present_opened, present_linked])
      (by rw [pointer_opened, pointer_linked _ (before.owned.available_lt available)]) isUpper
      (by omega), if_pos ⟨le_rfl, .refl _ _⟩, if_pos rfl]
  · exact .inr result

/-- One round of the loop. -/
theorem setupEntry_setsUp (inside : level < 4)
    {descend : Machine → Nat → LinearAddress4Level → Nat → Machine × Nat × Error}
    (descends : level ≠ 0 → SetsUp image root writable level level descend) :
    SetsUp image root writable level (level + 1) fun s table addr num4kpages =>
      s.setupEntry descend (level + 1) writable table addr num4kpages := by
  intro use s table addr num4kpages nonzero before isUpper isTable safe
  have here : addr.InRange num4kpages addr := ⟨le_rfl, by omega⟩
  have flag : (if level + 1 = 1 then writable else true) = openFlag level writable := by
    simp [openFlag]
  have safeHere : level = 0 → (s.entry table (addr.part 1)).present = true → writable = false ∨
      image root ∨ use (s.entry table (addr.part 1)).pointer = some (.privatePage root) := by
    rintro rfl present
    rcases safe with readOnly | isImage | allPrivate
    · exact .inl readOnly
    · exact .inr (.inl isImage)
    · refine .inr (.inr (allPrivate addr isUpper here _ ?_))
      rw [node_succ inside, isTable, Option.bind_some, child, if_pos present]
  simp only [setupEntry_eq, flag]
  rcases openEntry_step before isUpper inside isTable safeHere with
    ⟨use₁, s₁, childMap, result, step, isChild⟩ | result
  · simp only [result]
    have opens : Opened image root writable (addr.InRange num4kpages) use s use₁ s₁ :=
      .single isUpper inside here step
    by_cases leaf : level = 0
    · subst leaf
      refine ⟨use₁, s₁, _, _, rfl, opens, fun _ => ⟨rfl, fun b _ agree _ _ k below => ?_⟩⟩
      obtain rfl : k = 0 := by omega
      exact (step.opens before isUpper inside).congr inside agree
    · rcases descends leaf use₁ s₁ childMap addr num4kpages nonzero (opens.mapping before) isUpper
        isChild (safe.opened opens before) with ⟨use₂, s₂, remain, e, descended, opens₂, success⟩
      have inner : level + 1 ≠ 1 := by omega
      have opensAll := opens.trans opens₂
      simp only [if_neg inner, descended]
      by_cases isSuccess : e = .success
      · subst isSuccess
        refine ⟨use₂, s₂, _, _, rfl, opensAll, fun _ => ⟨(success rfl).1, ?_⟩⟩
        intro b isUpperB agree lower upper k below
        by_cases top : k = level
        · subst top
          exact (opens₂.isOpen (opens.mapping before) isUpper inside
            (step.opens before isUpper inside)).congr inside agree
        · exact (success rfl).2 b isUpperB agree lower upper k (by omega)
      · refine ⟨use₂, s₂, num4kpages, e, ?_, opensAll, fun same => absurd same isSuccess⟩
        cases e <;> first | rfl | exact absurd rfl isSuccess
  · simp only [result]
    exact ⟨use, s, _, _, rfl, .refl, fun success => by cases success⟩

/-- The loop of `SetupPageMap`. -/
theorem setupPageMapLoop_setsUp (inside : level < 4)
    {descend : Machine → Nat → LinearAddress4Level → Nat → Machine × Nat × Error}
    (descends : level ≠ 0 → SetsUp image root writable level level descend) (fuel : Nat)
    {use : Uses} {s : Machine} {table num4kpages : Nat} {addr : LinearAddress4Level}
    (enough : fuel + (addr.part (level + 1)).val = 512) (before : Mapping image use s root)
    (isUpper : addr.Upper) (isTable : s.node root addr (level + 1) = some table)
    (safe : Safe image root writable (addr.InRange num4kpages) use s) :
    ∃ use' s' remain e, setupPageMapLoop descend (level + 1) writable table fuel s addr num4kpages =
        (s', remain, e) ∧ Opened image root writable (addr.InRange num4kpages) use s use' s' ∧
      (e = .success → remain = num4kpages - (512 ^ (level + 1) - addr.index (level + 1)) ∧
        ∀ b, b.Upper → AgreeFrom (level + 2) addr b → addr.index (level + 1) ≤ b.index (level + 1) →
          b.index (level + 1) < addr.index (level + 1) + num4kpages →
            ∀ k < level + 1, s'.IsOpen root writable b k) := by
  induction fuel generalizing use s addr num4kpages with
  | zero =>
      have := (addr.part (level + 1)).isLt
      omega
  | succ fuel ih =>
      by_cases zero : num4kpages = 0
      · subst zero
        rw [setupPageMapLoop, if_pos rfl]
        refine ⟨use, s, _, _, rfl, .refl, fun _ => ⟨(Nat.zero_sub _).symm, ?_⟩⟩
        intro b _ _ lower upper
        omega
      · rcases setupEntry_setsUp inside descends use s table addr num4kpages zero before isUpper
          isTable safe with ⟨use₁, s₁, remain, e, round, opens, success⟩
        by_cases isSuccess : e = .success
        · subst isSuccess
          rcases success rfl with ⟨remainEq, openHere⟩
          simp only [setupPageMapLoop, if_neg zero, round]
          have indexAddr : addr.index (level + 1) =
              (addr.part (level + 1)).val * 512 ^ level + addr.index level := rfl
          have indexLt := addr.index_lt level
          have power : 512 ^ (level + 1) = 512 * 512 ^ level := Nat.pow_succ' ..
          by_cases last : addr.part (level + 1) = 511
          · rw [if_pos last]
            have partIs : (addr.part (level + 1)).val = 511 := by
              rw [last]
              rfl
            rw [partIs] at indexAddr
            refine ⟨use₁, s₁, _, _, rfl, opens, fun _ => ⟨by omega, ?_⟩⟩
            intro b isUpperB agree lower upper
            have partLe := part_le_of_index_le lower
            have partLt := (b.part (level + 1)).isLt
            have samePart : addr.part (level + 1) = b.part (level + 1) := Fin.ext (by omega)
            have indexB : b.index (level + 1) =
              (b.part (level + 1)).val * 512 ^ level + b.index level := rfl
            rw [← samePart, partIs] at indexB
            exact openHere b isUpperB (agree.cons samePart) (by omega) (by omega)
          · rw [if_neg last]
            have positive : 1 ≤ level + 1 := by omega
            have partNe : (addr.part (level + 1)).val ≠ 511 := fun same => last (Fin.ext same)
            have partLt := (addr.part (level + 1)).isLt
            have indexNext := index_next (a := addr) inside last
            have fourNext := index_four_next (a := addr) inside last
            have partNext := part_next (a := addr) positive inside last
            have agreeNext := agreeFrom_next (a := addr) positive
            change ∃ use' s' remain' e, setupPageMapLoop descend (level + 1) writable table fuel s₁
              (addr.next (level + 1)) remain = (s', remain', e) ∧ _
            have inner : ∀ b, (addr.next (level + 1)).InRange remain b →
                addr.InRange num4kpages b := by
              rintro b ⟨lower, upper⟩
              constructor <;> omega
            have isTable' : s₁.node root (addr.next (level + 1)) (level + 1) = some table := by
              rw [← node_congr inside agreeNext]
              exact opens.node_mono before isUpper inside isTable
            rcases ih (by omega) (opens.mapping before)
              (upper_next positive inside isUpper last) isTable'
              ((safe.opened opens before).mono inner) with
              ⟨use₂, s₂, remain₂, e₂, loops, opens₂, success₂⟩
            refine ⟨use₂, s₂, remain₂, e₂, loops, opens.trans (opens₂.mono inner), ?_⟩
            intro isSuccess
            rcases success₂ isSuccess with ⟨remainEq₂, openNext⟩
            rw [Nat.succ_mul] at indexNext
            have scaled : (addr.part (level + 1)).val * 512 ^ level ≤ 510 * 512 ^ level :=
              Nat.mul_le_mul_right _ (by omega)
            constructor
            · omega
            · intro b isUpperB agree lower upper
              have indexB : b.index (level + 1) =
                (b.part (level + 1)).val * 512 ^ level + b.index level := rfl
              by_cases samePart : addr.part (level + 1) = b.part (level + 1)
              · rw [← samePart] at indexB
                intro k below
                exact opens₂.isOpen (opens.mapping before) isUpperB (by omega)
                  (openHere b isUpperB (agree.cons samePart) (by omega) (by omega) k below)
              · have partLe := part_le_of_index_le lower
                have partNeB : (addr.part (level + 1)).val ≠ (b.part (level + 1)).val :=
                  fun same => samePart (Fin.ext same)
                have above : ((addr.part (level + 1)).val + 1) * 512 ^ level ≤
                    (b.part (level + 1)).val * 512 ^ level :=
                  Nat.mul_le_mul_right _ (by omega)
                rw [Nat.succ_mul] at above
                exact openNext b isUpperB (agreeNext.symm.trans agree) (by omega) (by omega)
        · rw [setupPageMapLoop, if_neg zero]
          simp only [round]
          refine ⟨use₁, s₁, remain, e, ?_, opens, fun same => absurd same isSuccess⟩
          cases e with
          | success => exact absurd rfl isSuccess
          | _ => rfl

/-- `SetupPageMap` on a table of some level. -/
theorem setupPageMap_setsUp (upper : level ≤ 4) :
    level ≠ 0 → SetsUp image root writable level level (setupPageMap writable level) := by
  induction level with
  | zero => exact fun nonzero => absurd rfl nonzero
  | succ level ih =>
      intro _ use s table addr num4kpages _ before isUpper isTable safe
      apply setupPageMapLoop_setsUp (by omega) (ih (by omega)) _ _ before isUpper isTable safe
      have := (addr.part (level + 1)).isLt
      omega

/-- `SetupPageMaps` opens the entries for the pages in its range. -/
theorem setupPageMaps_opens (addr : LinearAddress4Level) (num4kpages : Nat)
    (before : Mapping image use s s.cr3) (isUpper : addr.Upper)
    (safe : Safe image s.cr3 writable (addr.InRange num4kpages) use s) :
    ∃ use' s' e, s.setupPageMaps addr num4kpages writable = (s', e) ∧
      Opened image s.cr3 writable (addr.InRange num4kpages) use s use' s' ∧
      (e = .success → ∀ b : LinearAddress4Level, b.Upper → addr.InRange num4kpages b →
        ∀ level < 4, s'.IsOpen s.cr3 writable b level) := by
  have enough : 512 - (addr.part 4).val + (addr.part 4).val = 512 := by
    have := (addr.part 4).isLt
    omega
  rcases setupPageMapLoop_setsUp (show 3 < 4 by decide) (setupPageMap_setsUp (by decide)) _ enough
    before isUpper node_four safe with ⟨use', s', remain, e, loops, opens, success⟩
  refine ⟨use', s', e, ?_, opens, fun isSuccess b isUpperB inside => ?_⟩
  · rw [setupPageMaps, setupPageMap, loops]
  · refine (success isSuccess).2 b isUpperB (fun k lower upper => ?_) inside.1 inside.2
    omega

end

end Machine
end Mikanos.Paging
