import Mikanos.Paging.Stores

/-!
# Exactly the requested pages

On a PML4 whose upper half is a tree of four levels, a successful `SetupPageMaps`
maps the pages of its range and touches the leaf of no other page; an
unsuccessful one loses no frame.
-/

namespace Mikanos.Paging

open Mikanos.Memory LinearAddress4Level

namespace Machine

/-- The upper half of a PML4 is a tree of four levels: every table and every page
is in use, has one place, and no entry of a lower table is a large page. -/
structure FourLevel (s : Machine) (root : Nat) : Prop where
  range_le : s.frames.rangeEnd ≤ kFrameCount
  used : ∀ a : LinearAddress4Level, a.Upper → ∀ level ≤ 4, ∀ f,
    s.node root a level = some f → ¬ s.frames.Available f
  small : ∀ a : LinearAddress4Level, a.Upper → ∀ level, 1 ≤ level → level ≤ 3 → ∀ t,
    s.node root a level = some t → (s.entry t (a.part level)).hugePage = false
  tree : ∀ a b : LinearAddress4Level, a.Upper → b.Upper → ∀ level ≤ 4, ∀ level' ≤ 4, ∀ f,
    s.node root a level = some f → s.node root b level' = some f →
      level = level' ∧ AgreeFrom (level + 1) a b

section

variable {image : Nat → Prop} {use use' : Uses} {s s' : Machine} {root level : Nat}
  {writable : Bool} {among : LinearAddress4Level → Prop} {a b : LinearAddress4Level} {f : Nat}

/-! ## Trees and uses -/

open Classical in
/-- What the frames of the tree are used for. -/
noncomputable def treeUse (s : Machine) (root : Nat) : Uses := fun f =>
  if ∃ a : LinearAddress4Level, a.Upper ∧ s.node root a 0 = some f then some (.privatePage root)
  else if found : ∃ level, (1 ≤ level ∧ level ≤ 4) ∧
      ∃ a : LinearAddress4Level, a.Upper ∧ s.node root a level = some f then
    some (.table found.choose root)
  else none

theorem treeUse_page (isUpper : a.Upper)
    (found : s.node root a 0 = some f) : s.treeUse root f = some (.privatePage root) := by
  rw [treeUse, if_pos ⟨a, isUpper, found⟩]

theorem FourLevel.treeUse_table (tree : s.FourLevel root) (isUpper : a.Upper) (lower : 1 ≤ level)
    (upper : level ≤ 4) (found : s.node root a level = some f) :
    s.treeUse root f = some (.table level root) := by
  have notPage : ¬ ∃ b : LinearAddress4Level, b.Upper ∧ s.node root b 0 = some f := by
    rintro ⟨b, isUpper', page⟩
    have := (tree.tree a b isUpper isUpper' level upper 0 (by decide) f found page).1
    omega
  have isTable : ∃ level, (1 ≤ level ∧ level ≤ 4) ∧
      ∃ a : LinearAddress4Level, a.Upper ∧ s.node root a level = some f :=
    ⟨level, ⟨lower, upper⟩, a, isUpper, found⟩
  rw [treeUse, if_neg notPage, dif_pos isTable]
  rcases isTable.choose_spec with ⟨bounds, b, isUpper', found'⟩
  rw [(tree.tree a b isUpper isUpper' level upper _ bounds.2 f found found').1]

/-- A frame with a use is in the tree. -/
theorem node_of_treeUse {u : Use} (used : s.treeUse root f = some u) :
    ∃ a : LinearAddress4Level, a.Upper ∧ ∃ level ≤ 4, s.node root a level = some f ∧
      (level = 0 → u = .privatePage root) ∧ (level ≠ 0 → u = .table level root) := by
  rw [treeUse] at used
  split at used
  · rename_i page
    rcases page with ⟨a, isUpper, found⟩
    cases used
    exact ⟨a, isUpper, 0, by decide, found, fun _ => rfl, fun inner => absurd rfl inner⟩
  · split at used
    · rename_i table
      cases used
      rcases table.choose_spec with ⟨bounds, a, isUpper, found⟩
      exact ⟨a, isUpper, _, bounds.2, found, fun zero => by omega, fun _ => rfl⟩
    · cases used

/-- A present entry leads to the next node. -/
theorem node_of_present {t : Nat} (inside : level < 4) (isTable : s.node root a (level + 1) = some t)
    (present : (s.entry t (a.part (level + 1))).present = true) :
    s.node root a level = some (s.entry t (a.part (level + 1))).pointer := by
  rw [node_succ inside, isTable, Option.bind_some, child, if_pos present]

/-- The frames of a tree are owned by its root. -/
theorem FourLevel.mapping (tree : s.FourLevel root) :
    Mapping (fun _ => False) (s.treeUse root) s root := by
  constructor
  · constructor
    · exact tree.range_le
    · intro f u used
      rcases node_of_treeUse used with ⟨a, isUpper, level, le, found, -⟩
      exact tree.used a isUpper level le f found
    · intro f level owner used i covered
      rcases node_of_treeUse used with ⟨a, isUpper, level', le, found, isPage, isTable⟩
      have inner : level' ≠ 0 := by
        intro zero
        cases isPage zero
      have lower : 1 ≤ level' := Nat.pos_of_ne_zero inner
      cases isTable inner
      -- the address whose path leads through the entry
      have agree : AgreeFrom (level + 1) a (a.setPart level i) := by
        intro k above upper
        rw [part_setPart a level k i lower le, if_neg (by omega)]
      have part : (a.setPart level i).part level = i := by
        rw [part_setPart a level level i lower le, if_pos rfl]
      have isUpper' : (a.setPart level i).Upper := by
        by_cases four : level = 4
        · subst four
          exact covered rfl
        · exact agree.upper (by omega) isUpper
      have found' : s.node root (a.setPart level i) level = some f := by
        rw [← node_congr le agree, found]
      obtain ⟨below, rfl⟩ : ∃ below, level = below + 1 := ⟨level - 1, by omega⟩
      constructor
      · intro notTop
        rw [← part]
        exact tree.small _ isUpper' _ lower (by omega) f found'
      · intro present notLeaf
        rw [← part] at present ⊢
        exact tree.treeUse_table isUpper' (by omega) (by omega)
          (node_of_present (by omega) found' present)
      · intro present leaf
        obtain rfl : below = 0 := by omega
        rw [← part] at present ⊢
        exact .inl ⟨treeUse_page isUpper' (node_of_present (by decide) found' present), id⟩
  · have upper : (⟨0, 0, 0, 0, 256, 0⟩ : LinearAddress4Level).Upper := by decide
    exact tree.treeUse_table upper (by decide) le_rfl node_four
  · intro a b isUpper isUpper' level le f found found'
    exact (tree.tree a b isUpper isUpper' level le level le f found found').2

/-- What one root owns is a tree. -/
theorem Mapping.fourLevel (mapping : Mapping image use s root) : s.FourLevel root := by
  constructor
  · exact mapping.owned.range_le
  · intro a isUpper level le f found available
    exact mapping.node_ne isUpper le available found
  · intro a isUpper level lower upper t found
    have isTable := (mapping.use_node isUpper (by omega) found).1 (by omega)
    exact (mapping.owned.entries t level root isTable _ (fun four => by omega)).small (by omega)
  · intro a b isUpper isUpper' level le level' le' f found found'
    have same : level = level' := by
      have use₁ := mapping.use_node isUpper le found
      have use₂ := mapping.use_node isUpper' le' found'
      by_cases zero : level = 0
      · by_cases zero' : level' = 0
        · omega
        · have table := use₂.1 zero'
          rcases use₁.2 zero with ⟨page, -⟩ | page
          · rw [table] at page
            cases page
          · rw [table] at page
            cases page
      · have table := use₁.1 zero
        by_cases zero' : level' = 0
        · rcases use₂.2 zero' with ⟨page, -⟩ | page
          · rw [table] at page
            cases page
          · rw [table] at page
            cases page
        · have table' := use₂.1 zero'
          rw [table] at table'
          cases table'
          rfl
    subst same
    exact ⟨rfl, mapping.tree a b isUpper isUpper' level le f found found'⟩

/-! ## Leaves of other pages -/

/-- The leaf of an address is an entry of its table of level 1. -/
theorem leaf_eq_node :
    s.leaf a 4 root = (s.node root a 1).bind fun t =>
      if (s.entry t (a.part 1)).present then some (s.entry t (a.part 1)) else none := by
  simp only [node, path, leaf, child]
  simp only [Nat.reduceSub, Option.bind_some]
  split
  · simp only [Option.bind_some]
    split
    · simp only [Option.bind_some]
      split <;> rfl
    · rfl
  · rfl

/-- Opening an entry for one page leaves the leaves of the others alone. -/
theorem OpenStep.leaf_of_ne (step : OpenStep image root writable a level use s use' s')
    (mapping : Mapping image use s root) (isUpper : a.Upper) (inside : level < 4)
    (isUpper' : b.Upper) (ne : ¬ AgreeFrom 1 a b) : s'.leaf b 4 root = s.leaf b 4 root := by
  -- the entry that is opened is no leaf of the other page
  have apart : ∀ {table t}, s.node root a (level + 1) = some table → s.node root b 1 = some t →
      t ≠ table ∨ b.part 1 ≠ a.part (level + 1) := by
    intro table t isTable isNode
    by_contra both
    simp only [not_or, not_not] at both
    rcases both with ⟨rfl, samePart⟩
    have tree := mapping.fourLevel.tree a b isUpper isUpper' _ inside 1 (by decide) _ isTable isNode
    obtain rfl : level = 0 := by omega
    exact ne (tree.2.cons samePart.symm)
  cases step with
  | @again table isTable present safe =>
      rw [leaf_eq_node, leaf_eq_node,
        node_setEntry_flags (present_opened _ _) (pointer_opened _ _) (by decide)]
      cases isNode : s.node root b 1 with
      | none => rfl
      | some t =>
          rw [Option.bind_some, Option.bind_some, entry_setEntry_of_ne _ _ (apart isTable isNode)]
  | @new table c u isTable absent available isInner isLeaf =>
      rw [leaf_eq_node, node_link mapping isUpper inside isTable absent available
        (by rw [present_opened, present_linked])
        (by rw [pointer_opened, pointer_linked _ (mapping.owned.available_lt available)]) isUpper'
        (by decide)]
      split
      · rename_i behind
        have nothing : s.leaf b 4 root = none := by
          have page := node_eq_none_of_absent inside isTable absent (Nat.zero_le _) behind.2
          rw [node_zero_eq_leaf] at page
          exact Option.map_eq_none_iff.mp page
        rw [nothing]
        have tableNe : c ≠ table := by
          rintro rfl
          exact mapping.node_ne isUpper inside available isTable
        split
        · rw [Option.bind_some, entry_setEntry_of_ne _ _ (.inl tableNe), entry_withNewPageMap_self]
          rfl
        · rfl
      · rw [leaf_eq_node]
        cases isNode : s.node root b 1 with
        | none => rfl
        | some t =>
            have notNew : t ≠ c := by
              rintro rfl
              exact mapping.node_ne isUpper' (by decide) available isNode
            rw [Option.bind_some, Option.bind_some, entry_setEntry_of_ne _ _ (apart isTable isNode),
              entry_withNewPageMap_of_ne _ _ notNew]

namespace Opened

theorem leaf_of_ne (opens : Opened image root writable among use s use' s')
    (before : Mapping image use s root) (isUpper : b.Upper)
    (ne : ∀ a, among a → ¬ AgreeFrom 1 a b) : s'.leaf b 4 root = s.leaf b 4 root := by
  induction opens with
  | refl => rfl
  | step opens holds isUpper' inside step ih =>
      rw [step.leaf_of_ne (opens.mapping before) isUpper' inside isUpper (ne _ holds), ih]

/-! ## Frames -/

/-- Only available frames are taken. -/
theorem available (opens : Opened image root writable among use s use' s')
    (isAvailable : s'.frames.Available f) : s.frames.Available f := by
  induction opens with
  | refl => exact isAvailable
  | step _ _ _ _ step ih =>
      apply ih
      cases step with
      | again => exact isAvailable
      | @new table c u =>
          rcases isAvailable with ⟨lower, upper, isFree⟩
          refine ⟨lower, upper, ?_⟩
          rw [frames_setEntry, frames_withNewPageMap] at isFree
          by_cases same : f = c
          · rw [same, BitmapMemoryManager.getBit_setBit_self] at isFree
            cases isFree
          · rwa [BitmapMemoryManager.getBit_setBit_of_ne _ _ same] at isFree

/-- A frame that was taken is in the tree. -/
theorem node_of_taken (opens : Opened image root writable among use s use' s')
    (before : Mapping image use s root) (wasAvailable : s.frames.Available f)
    (taken : ¬ s'.frames.Available f) :
    ∃ b : LinearAddress4Level, b.Upper ∧ ∃ level < 4, s'.node root b level = some f := by
  induction opens with
  | refl => exact absurd wasAvailable taken
  | @step use₁ use' s₁ s' a level opens holds isUpper inside step ih =>
      have mapping := opens.mapping before
      by_cases still : s₁.frames.Available f
      · cases step with
        | again => exact absurd still taken
        | @new table c u isTable absent available isInner isLeaf =>
            have same : f = c := by
              by_contra ne
              apply taken
              rcases still with ⟨lower, upper, isFree⟩
              refine ⟨lower, upper, ?_⟩
              rw [frames_setEntry, frames_withNewPageMap,
                BitmapMemoryManager.getBit_setBit_of_ne _ _ ne, isFree]
            refine ⟨a, isUpper, level, inside, ?_⟩
            rw [node_link mapping isUpper inside isTable absent available
              (by rw [present_opened, present_linked])
              (by rw [pointer_opened, pointer_linked _ (mapping.owned.available_lt available)])
              isUpper (by omega), if_pos ⟨le_rfl, .refl _ _⟩, if_pos rfl, same]
      · rcases ih still with ⟨b, isUpper', level', inside', found⟩
        exact ⟨b, isUpper', level', inside',
          step.node_mono mapping isUpper inside isUpper' (by omega) found⟩

/-- The frame of a page that is new was available. -/
theorem available_of_page (opens : Opened image root writable among use s use' s')
    (before : Mapping image use s root) (isUpper : b.Upper) (found : s'.node root b 0 = some f) :
    s.node root b 0 = some f ∨ s.frames.Available f := by
  induction opens with
  | refl => exact .inl found
  | step opens _ isUpper' inside step ih =>
      rcases step.page_cases (opens.mapping before) isUpper' inside isUpper found with
        old | ⟨isAvailable, -⟩
      · exact ih old
      · exact .inr (opens.available isAvailable)

end Opened

end

/-! ## Writing to a page -/

section

variable {s : Machine} {root level f : Nat} {a b : LinearAddress4Level}

/-- The content of a page is no part of the tree. -/
theorem FourLevel.sameTables_setFrame (tree : s.FourLevel root) (isUpper : a.Upper)
    (page : s.node root a 0 = some f) (content : Frame) {g l owner : Nat}
    (isTable : s.treeUse root g = some (.table l owner)) : (s.setFrame f content).mem g = s.mem g := by
  apply mem_setFrame_of_ne
  rintro rfl
  exact tree.mapping.page_ne_table isUpper page l owner isTable

theorem FourLevel.setFrame (tree : s.FourLevel root) (isUpper : a.Upper)
    (page : s.node root a 0 = some f) (content : Frame) : (s.setFrame f content).FourLevel root :=
  (tree.mapping.of_sameTables (fun _ _ _ => tree.sameTables_setFrame isUpper page content)
    rfl).fourLevel

theorem FourLevel.leaf_setFrame (tree : s.FourLevel root) (isUpper : a.Upper)
    (page : s.node root a 0 = some f) (content : Frame) (isUpper' : b.Upper) :
    (s.setFrame f content).leaf b 4 root = s.leaf b 4 root :=
  leaf_congr tree.mapping.owned (fun _ _ => tree.sameTables_setFrame isUpper page content) b 4 root
    tree.mapping.isRoot (fun _ => isUpper') le_rfl

end

/-! ## Pages that were asked for -/

/-- What `SetupPageMaps` makes of a page in its range. -/
structure PageMapped (s s' : Machine) (root : Nat) (writable : Bool) (b : LinearAddress4Level) :
    Prop where
  page : ∃ e, s'.leaf b 4 root = some e ∧ e.user = true ∧ e.writable = writable
  kept : ∀ e, s.leaf b 4 root = some e →
    (s'.leaf b 4 root).map PageMapEntry.pointer = some e.pointer
  fresh : s.leaf b 4 root = none → ∃ f, (s'.leaf b 4 root).map PageMapEntry.pointer = some f ∧
    s.frames.Available f ∧ s'.mem f = (fun _ => 0) ∧
    ∀ c : LinearAddress4Level, c.Upper → ∀ level ≤ 4, s'.node root c level = some f →
      level = 0 ∧ AgreeFrom 1 b c
  inner : ∀ level, 2 ≤ level → level ≤ 4 → ∃ table, s'.node root b level = some table ∧
    (s'.entry table (b.part level)).present = true ∧
    (s'.entry table (b.part level)).user = true ∧
    (s'.entry table (b.part level)).writable = true

section

variable {image : Nat → Prop} {use use' : Uses} {s s' : Machine} {root : Nat}
  {writable : Bool} {among : LinearAddress4Level → Prop} {b : LinearAddress4Level}

/-- A page all of whose entries are open is mapped. -/
theorem Opened.pageMapped (opens : Opened image root writable among use s use' s')
    (before : Mapping image use s root) (isUpper : b.Upper)
    (isOpen : ∀ level < 4, s'.IsOpen root writable b level) : PageMapped s s' root writable b := by
  rcases isOpen 0 (by decide) with ⟨t, isTable, present, user, flag⟩
  have leaf : s'.leaf b 4 root = some (s'.entry t (b.part 1)) := by
    rw [leaf_eq_node, isTable, Option.bind_some, if_pos present]
  have page : s'.node root b 0 = some (s'.entry t (b.part 1)).pointer := by
    rw [node_zero_eq_leaf, leaf]
    rfl
  constructor
  · exact ⟨_, leaf, user, flag⟩
  · intro e old
    rw [← node_zero_eq_leaf]
    apply opens.node_mono before isUpper (by decide)
    rw [node_zero_eq_leaf, old]
    rfl
  · intro absent
    have nothing : s.node root b 0 = none := by
      rw [node_zero_eq_leaf, absent]
      rfl
    refine ⟨_, by rw [← node_zero_eq_leaf, page], ?_, ?_, ?_⟩
    · rcases opens.available_of_page before isUpper page with old | available
      · rw [nothing] at old
        cases old
      · exact available
    · rcases opens.page_cases before isUpper page with old | ⟨-, -, content, -⟩
      · rw [nothing] at old
        cases old
      · exact content
    · intro c isUpper' level le found
      rcases (opens.mapping before).fourLevel.tree b c isUpper isUpper' 0 (by decide) level le _
        page found with ⟨zero, agree⟩
      exact ⟨zero.symm, agree⟩
  · intro level lower upper
    obtain ⟨below, rfl⟩ : ∃ below, level = below + 1 := ⟨level - 1, by omega⟩
    rcases isOpen below (by omega) with ⟨table, isTable, present, user, flag⟩
    refine ⟨table, isTable, present, user, ?_⟩
    rw [flag, openFlag, if_neg (by omega)]

end

section

variable {s s' : Machine} {addr : LinearAddress4Level} {num4kpages : Nat} {writable : Bool} {e : Error}

/-- `SetupPageMaps` on a tree opens the entries for the pages in its range. -/
theorem FourLevel.opens (tree : s.FourLevel s.cr3) (isUpper : addr.Upper)
    (result : s.setupPageMaps addr num4kpages writable = (s', e)) :
    ∃ use', Opened (fun _ => False) s.cr3 writable (addr.InRange num4kpages) (s.treeUse s.cr3) s
        use' s' ∧
      (e = .success → ∀ b : LinearAddress4Level, b.Upper → addr.InRange num4kpages b →
        ∀ level < 4, s'.IsOpen s.cr3 writable b level) := by
  have safe : Safe (fun _ => False) s.cr3 writable (addr.InRange num4kpages) (s.treeUse s.cr3) s :=
    .inr (.inr fun _ isUpper' _ _ found => treeUse_page isUpper' found)
  rcases setupPageMaps_opens addr num4kpages tree.mapping isUpper safe with
    ⟨use', s₁, e₁, result₁, opens, success⟩
  rw [result] at result₁
  cases result₁
  exact ⟨use', opens, success⟩

/-- Whether `SetupPageMaps` succeeds or not, the upper half stays a tree. -/
theorem FourLevel.setupPageMaps (tree : s.FourLevel s.cr3) (isUpper : addr.Upper)
    (result : s.setupPageMaps addr num4kpages writable = (s', e)) :
    s'.FourLevel s.cr3 ∧ s'.cr3 = s.cr3 := by
  rcases tree.opens isUpper result with ⟨use', opens, -⟩
  exact ⟨(opens.mapping tree.mapping).fourLevel, (opens.grows tree.mapping).cr3⟩

/-- Whether `SetupPageMaps` succeeds or not, the leaves of other pages stay. -/
theorem FourLevel.leaf_setupPageMaps (tree : s.FourLevel s.cr3) (isUpper : addr.Upper)
    (result : s.setupPageMaps addr num4kpages writable = (s', e)) {b : LinearAddress4Level}
    (isUpper' : b.Upper) (outside : ¬ addr.InRange num4kpages b) :
    s'.leaf b 4 s.cr3 = s.leaf b 4 s.cr3 := by
  rcases tree.opens isUpper result with ⟨use', opens, -⟩
  apply opens.leaf_of_ne tree.mapping isUpper'
  intro a inside agree
  have same : a.index 4 = b.index 4 := index_eq_of_agreeFrom agree
  rw [InRange, same] at inside
  exact outside inside

/-- Whether `SetupPageMaps` succeeds or not, the content of every page stays. -/
theorem FourLevel.content_setupPageMaps (tree : s.FourLevel s.cr3) (isUpper : addr.Upper)
    (result : s.setupPageMaps addr num4kpages writable = (s', e)) {b : LinearAddress4Level}
    (isUpper' : b.Upper) {f : Nat} (page : s.node s.cr3 b 0 = some f) : s'.mem f = s.mem f := by
  rcases tree.opens isUpper result with ⟨use', opens, -⟩
  exact (opens.grows tree.mapping).kept f _ (treeUse_page isUpper' page) (fun _ => by simp)

end

/-- `SetupPageMaps` maps exactly the requested pages.  When it succeeds, the
pages of the range are mapped, and the leaves of the others are as they were.
When it fails, every frame that it took is in the tree.  Either way the upper
half stays a tree. -/
theorem setupPageMaps_exact (s : Machine) (tree : s.FourLevel s.cr3) (addr : LinearAddress4Level)
    (isUpper : addr.Upper) (num4kpages : Nat) (writable : Bool) (s' : Machine) (e : Error)
    (result : s.setupPageMaps addr num4kpages writable = (s', e)) :
    (e = .success →
      (∀ b : LinearAddress4Level, b.Upper → addr.InRange num4kpages b →
        PageMapped s s' s.cr3 writable b) ∧
      ∀ b : LinearAddress4Level, b.Upper → ¬ addr.InRange num4kpages b →
        s'.leaf b 4 s.cr3 = s.leaf b 4 s.cr3) ∧
    (e ≠ .success → ∀ f, s.frames.Available f → ¬ s'.frames.Available f →
      ∃ b : LinearAddress4Level, b.Upper ∧ ∃ level < 4, s'.node s.cr3 b level = some f) ∧
    s'.FourLevel s.cr3 := by
  rcases tree.opens isUpper result with ⟨use', opens, success⟩
  constructor
  · intro isSuccess
    constructor
    · intro b isUpper' inside
      exact opens.pageMapped tree.mapping isUpper' (success isSuccess b isUpper' inside)
    · intro b isUpper' outside
      exact tree.leaf_setupPageMaps isUpper result isUpper' outside
  · constructor
    · intro _ f available taken
      exact opens.node_of_taken tree.mapping available taken
    · exact (tree.setupPageMaps isUpper result).1

/-! ## A run over the border of two tables -/

/-- The last page of the first table of the upper half. -/
def lastPage : LinearAddress4Level :=
  ⟨0, 511, 0, 0, 256, 65535⟩

/-- The page after it, the first one of the next table. -/
def pageAfter : LinearAddress4Level :=
  ⟨0, 0, 1, 0, 256, 65535⟩

theorem fourLevel_smallMachine : smallMachine.FourLevel 0 := by
  have only : ∀ (a : LinearAddress4Level) level, level ≤ 4 → ∀ f,
      smallMachine.node 0 a level = some f → level = 4 ∧ f = 0 := by
    intro a level le f found
    by_cases four : level = 4
    · subst four
      cases found
      exact ⟨rfl, rfl⟩
    · have above := isSome_node_of_le (show level ≤ 3 by omega) (by decide)
        (Option.isSome_iff_exists.mpr ⟨f, found⟩)
      have nothing : smallMachine.node 0 a 3 = none := by
        have absent : (smallMachine.entry 0 (a.part 4)).present = false :=
          PageMapEntry.present_zero
        rw [node_succ (by decide), node_four, Option.bind_some, child, absent]
        rfl
      rw [nothing] at above
      cases above
  constructor
  · decide
  · rintro a - level le f found ⟨lower, -⟩
    rw [(only a level le f found).2] at lower
    cases lower
  · intro a _ level _ _ t _
    exact (EntryOk.zero (fun _ => False) (fun _ => none) 1 0).small (by decide)
  · intro a b _ _ level le level' le' f found found'
    rw [(only a level le f found).1, (only b level' le' f found').1]
    exact ⟨rfl, fun k above upper => by omega⟩

theorem setupPageMaps_exact_lastPage :
    ∃ s', smallMachine.setupPageMaps lastPage 2 true = (s', .success) ∧
      PageMapped smallMachine s' 0 true lastPage ∧
      PageMapped smallMachine s' 0 true pageAfter := by
  have success : (smallMachine.setupPageMaps lastPage 2 true).2 = .success := by decide +kernel
  rcases result : smallMachine.setupPageMaps lastPage 2 true with ⟨s', e⟩
  rw [result] at success
  cases success
  have exact := setupPageMaps_exact smallMachine fourLevel_smallMachine lastPage (by decide) 2 true
    s' .success result
  refine ⟨s', rfl, (exact.1 rfl).1 lastPage (by decide) ⟨le_rfl, by decide⟩, ?_⟩
  apply (exact.1 rfl).1 _ (by decide)
  constructor
  · decide
  · decide

end Machine
end Mikanos.Paging
