import Mikanos.Paging.Path

/-!
# Opening entries

All that `SetupPageMap` does is to open entries along the paths of addresses.
Opening an entry that is present changes its flags; opening one that is absent
links a frame that was free, which the paths through the entry then lead to.
-/

namespace Mikanos.Paging

open Mikanos.Memory LinearAddress4Level

namespace Machine

/-- The page maps of one owner, in a machine whose frames are used as described:
paths that have parted do not meet again. -/
structure Mapping (image : Nat → Prop) (use : Uses) (s : Machine) (root : Nat) : Prop where
  owned : Owned image use s
  isRoot : use root = some (.table 4 root)
  tree : ∀ a b : LinearAddress4Level, a.Upper → b.Upper → ∀ level ≤ 4, ∀ f,
    s.node root a level = some f → s.node root b level = some f → AgreeFrom (level + 1) a b

/-- The flag that `SetupPageMap` puts into an entry that leads to a node of the
given level. -/
def openFlag (level : Nat) (writable : Bool) : Bool :=
  if level = 0 then writable else true

/-- One entry on the path of `a` is opened: the one that leads to the node of the
given level. -/
inductive OpenStep (image : Nat → Prop) (root : Nat) (writable : Bool) (a : LinearAddress4Level)
    (level : Nat) (use : Uses) (s : Machine) : Uses → Machine → Prop
  | again {table : Nat} : s.node root a (level + 1) = some table →
      (s.entry table (a.part (level + 1))).present = true →
      (level = 0 → writable = false ∨ image root ∨
        use (s.entry table (a.part 1)).pointer = some (.privatePage root)) →
      OpenStep image root writable a level use s use
        (s.setEntry table (a.part (level + 1))
          (opened (s.entry table (a.part (level + 1))) (openFlag level writable)))
  | new {table c : Nat} {u : Use} : s.node root a (level + 1) = some table →
      (s.entry table (a.part (level + 1))).present = false →
      s.frames.Available c →
      (level ≠ 0 → u = .table level root) →
      (level = 0 → u = .privatePage root ∧ ¬ image root ∨ u = .sharedPage ∧ image root) →
      OpenStep image root writable a level use s (Function.update use c (some u))
        ((s.withNewPageMap c).setEntry table (a.part (level + 1))
          (opened (linked (s.entry table (a.part (level + 1))) c) (openFlag level writable)))

section Nodes

variable {image : Nat → Prop} {use use' : Uses} {s s' : Machine} {root table level : Nat}
  {a b : LinearAddress4Level} {f : Nat}

/-- What the nodes of a path are used for. -/
theorem Mapping.use_node (mapping : Mapping image use s root) (isUpper : a.Upper) (le : level ≤ 4)
    (found : s.node root a level = some f) :
    (level ≠ 0 → use f = some (.table level root)) ∧
      (level = 0 → use f = some (.privatePage root) ∧ ¬ image root ∨ use f = some .sharedPage) := by
  revert f
  refine level_induction (motive := fun level => ∀ {f}, s.node root a level = some f →
    (level ≠ 0 → use f = some (.table level root)) ∧
      (level = 0 → use f = some (.privatePage root) ∧ ¬ image root ∨ use f = some .sharedPage))
    ?_ ?_ level le
  · intro f found
    cases found
    exact ⟨fun _ => mapping.isRoot, fun zero => absurd zero (by decide)⟩
  · intro level inside ih f found
    rw [node_succ inside] at found
    rcases Option.bind_eq_some_iff.mp found with ⟨t, isTable, isChild⟩
    have useTable := (ih isTable).1 (Nat.succ_ne_zero level)
    rw [child] at isChild
    split at isChild
    · rename_i present
      cases isChild
      have covered : Covered (level + 1) (a.part (level + 1)) := by
        intro four
        rw [four]
        exact isUpper
      have ok := mapping.owned.entries t _ root useTable _ covered
      constructor
      · intro inner
        exact ok.table present (by omega)
      · rintro rfl
        rcases ok.page present rfl with isPrivate | ⟨isShared, -⟩
        · exact .inl isPrivate
        · exact .inr isShared
    · cases isChild

/-- A node is in use. -/
theorem Mapping.use_ne_none (mapping : Mapping image use s root) (isUpper : a.Upper)
    (le : level ≤ 4) (found : s.node root a level = some f) : use f ≠ none := by
  rcases mapping.use_node isUpper le found with ⟨isTable, isPage⟩
  by_cases zero : level = 0
  · rcases isPage zero with ⟨isPrivate, -⟩ | isShared
    · rw [isPrivate]
      exact Option.some_ne_none _
    · rw [isShared]
      exact Option.some_ne_none _
  · rw [isTable zero]
    exact Option.some_ne_none _

/-- An available frame is on no path. -/
theorem Mapping.node_ne (mapping : Mapping image use s root) (isUpper : a.Upper) (le : level ≤ 4)
    {c : Nat} (available : s.frames.Available c) : s.node root a level ≠ some c :=
  fun found => mapping.use_ne_none isUpper le found (mapping.owned.use_of_available available)

/-- Changing only flags changes no path. -/
theorem child_setEntry_flags {i : Fin 512} {e : PageMapEntry}
    (present : e.present = (s.entry table i).present)
    (pointer : e.pointer = (s.entry table i).pointer) (t l : Nat) (b : LinearAddress4Level) :
    (s.setEntry table i e).child t l b = s.child t l b := by
  by_cases same : t = table ∧ b.part l = i
  · rcases same with ⟨rfl, rfl⟩
    rw [child, child, entry_setEntry_self, present, pointer]
  · rw [child, child, entry_setEntry_of_ne]
    by_cases sameTable : t = table
    · exact .inr fun samePart => same ⟨sameTable, samePart⟩
    · exact .inl sameTable

theorem node_setEntry_flags {i : Fin 512} {e : PageMapEntry}
    (present : e.present = (s.entry table i).present)
    (pointer : e.pointer = (s.entry table i).pointer) (le : level ≤ 4) :
    (s.setEntry table i e).node root b level = s.node root b level := by
  refine level_induction (motive := fun level => (s.setEntry table i e).node root b level =
    s.node root b level) rfl ?_ level le
  intro level inside ih
  rw [node_succ inside, node_succ inside, ih]
  congr 1
  funext t
  exact child_setEntry_flags present pointer t _ b

/-- A frame that is linked is the next node of the paths that lead to its entry. -/
theorem node_link (mapping : Mapping image use s root) (isUpper : a.Upper) (inside : level < 4)
    (isTable : s.node root a (level + 1) = some table)
    (absent : (s.entry table (a.part (level + 1))).present = false) {c : Nat}
    (available : s.frames.Available c) {e : PageMapEntry} (present : e.present = true)
    (pointer : e.pointer = c) (isUpper' : b.Upper) {level' : Nat} (le : level' ≤ 4) :
    ((s.withNewPageMap c).setEntry table (a.part (level + 1)) e).node root b level' =
      if level' ≤ level ∧ AgreeFrom (level + 1) a b then (if level' = level then some c else none)
      else s.node root b level' := by
  set s' := (s.withNewPageMap c).setEntry table (a.part (level + 1)) e with s'Eq
  have tableNe : table ≠ c := by
    rintro rfl
    exact mapping.node_ne isUpper (by omega) available isTable
  have self : s'.entry table (a.part (level + 1)) = e := entry_setEntry_self ..
  have other : ∀ t i, t ≠ c → (t ≠ table ∨ i ≠ a.part (level + 1)) →
      s'.entry t i = s.entry t i := by
    intro t i notNew ne
    rw [s'Eq, entry_setEntry_of_ne _ _ ne, s.entry_withNewPageMap_of_ne i notNew]
  have new : ∀ i, s'.entry c i = 0 := by
    intro i
    rw [s'Eq, entry_setEntry_of_ne _ _ (.inl tableNe.symm), entry_withNewPageMap_self]
  have apart {level' : Nat} (inside' : level' < 4) (differs : level' ≠ level) {t : Nat}
      (found : s.node root b (level' + 1) = some t) : t ≠ c ∧ t ≠ table := by
    have useTable := (mapping.use_node isUpper' inside' found).1 (Nat.succ_ne_zero _)
    have useTable' := (mapping.use_node isUpper inside isTable).1 (Nat.succ_ne_zero _)
    constructor
    · rintro rfl
      exact mapping.node_ne isUpper' inside' available found
    · rintro rfl
      rw [useTable] at useTable'
      simp only [Option.some.injEq, Use.table.injEq, and_true] at useTable'
      omega
  refine level_induction (motive := fun level' => s'.node root b level' =
    if level' ≤ level ∧ AgreeFrom (level + 1) a b then (if level' = level then some c else none)
    else s.node root b level') ?_ ?_ level' le
  · rw [if_neg (fun both => by omega)]
    rfl
  · intro level' inside' ih
    rw [node_succ inside', ih]
    by_cases above : level + 1 ≤ level'
    · -- tables above the new one are as they were
      rw [if_neg (fun both => by omega), if_neg (fun both => by omega), node_succ inside']
      cases found : s.node root b (level' + 1) with
      | none => rfl
      | some t =>
          obtain ⟨notNew, notTable⟩ := apart inside' (by omega) found
          simp only [Option.bind_some, child, other t _ notNew (.inl notTable)]
    · by_cases here : level' = level
      · subst here
        rw [if_neg (fun both => by omega)]
        simp only [le_refl, true_and, if_true]
        by_cases agree : AgreeFrom (level' + 1) a b
        · rw [if_pos agree, ← node_congr inside (agree.mono (Nat.le_succ _)), isTable]
          simp only [Option.bind_some, child, ← agree (level' + 1) le_rfl inside, self, present,
            pointer, if_true]
        · rw [if_neg agree, node_succ inside']
          cases found : s.node root b (level' + 1) with
          | none => rfl
          | some t =>
              have notNew : t ≠ c := by
                rintro rfl
                exact mapping.node_ne isUpper' inside' available found
              have ne : t ≠ table ∨ b.part (level' + 1) ≠ a.part (level' + 1) := by
                by_contra both
                simp only [not_or, not_not] at both
                rcases both with ⟨rfl, samePart⟩
                have agreeAbove := mapping.tree a b isUpper isUpper' _ inside _ isTable found
                exact agree (agreeAbove.cons samePart.symm)
              simp only [Option.bind_some, child, other t _ notNew ne]
      · have below : level' + 1 ≤ level := by omega
        by_cases agree : AgreeFrom (level + 1) a b
        · have both : level' ≤ level ∧ AgreeFrom (level + 1) a b := ⟨by omega, agree⟩
          rw [if_pos ⟨below, agree⟩, if_pos both, if_neg here]
          split
          · simp only [Option.bind_some, child, new, PageMapEntry.present_zero]
            rfl
          · rfl
        · rw [if_neg (fun both => agree both.2), if_neg (fun both => agree both.2),
            node_succ inside']
          cases found : s.node root b (level' + 1) with
          | none => rfl
          | some t =>
              obtain ⟨notNew, notTable⟩ := apart inside' here found
              simp only [Option.bind_some, child, other t _ notNew (.inl notTable)]

/-- Behind an entry that is absent there is nothing. -/
theorem node_eq_none_of_absent (inside : level < 4) (isTable : s.node root a (level + 1) = some table)
    (absent : (s.entry table (a.part (level + 1))).present = false) {level' : Nat}
    (le : level' ≤ level) (agree : AgreeFrom (level + 1) a b) : s.node root b level' = none := by
  have here : s.node root a level = none := by
    rw [node_succ inside, isTable, Option.bind_some, child, absent]
    rfl
  by_contra found
  have above := isSome_node_of_le le (by omega) (Option.isSome_iff_ne_none.mpr found)
  rw [← node_congr (by omega) agree, here] at above
  cases above

theorem present_opened (e : PageMapEntry) (writable : Bool) :
    (opened e writable).present = e.present := by
  rw [opened, PageMapEntry.present_setWritable, PageMapEntry.present_setUser]

theorem pointer_opened (e : PageMapEntry) (writable : Bool) :
    (opened e writable).pointer = e.pointer := by
  rw [opened, PageMapEntry.pointer_setWritable, PageMapEntry.pointer_setUser]

theorem present_linked (e : PageMapEntry) (frame : Nat) : (linked e frame).present = true := by
  rw [linked, PageMapEntry.present_setPresent]

theorem pointer_linked (e : PageMapEntry) {frame : Nat} (small : frame < 2 ^ 40) :
    (linked e frame).pointer = frame := by
  rw [linked, PageMapEntry.pointer_setPresent, PageMapEntry.pointer_setPointer e frame small]

end Nodes

namespace OpenStep

variable {image : Nat → Prop} {use use' : Uses} {s s' : Machine} {root level : Nat} {writable : Bool}
  {a b : LinearAddress4Level}

/-- The paths after an entry has been opened. -/
theorem node_cases (step : OpenStep image root writable a level use s use' s')
    (mapping : Mapping image use s root) (isUpper : a.Upper) (inside : level < 4) :
    (∀ b level', level' ≤ 4 → s'.node root b level' = s.node root b level') ∨
      ∃ c, s.frames.Available c ∧
        ∀ b : LinearAddress4Level, b.Upper → ∀ level' ≤ 4, s'.node root b level' =
          if level' ≤ level ∧ AgreeFrom (level + 1) a b then (if level' = level then some c else none)
          else s.node root b level' := by
  cases step with
  | again _ present _ =>
      left
      intro b level' le
      exact node_setEntry_flags (present_opened _ _) (pointer_opened _ _) le
  | @new table c u isTable absent available _ _ =>
      right
      refine ⟨c, available, fun b isUpper' level' le => ?_⟩
      apply node_link mapping isUpper inside isTable absent available _ _ isUpper' le
      · rw [present_opened, present_linked]
      · rw [pointer_opened, pointer_linked _ (mapping.owned.available_lt available)]

/-- What is on a path stays there. -/
theorem node_mono (step : OpenStep image root writable a level use s use' s')
    (mapping : Mapping image use s root) (isUpper : a.Upper) (inside : level < 4)
    (isUpper' : b.Upper) {level' f : Nat} (le : level' ≤ 4)
    (found : s.node root b level' = some f) : s'.node root b level' = some f := by
  cases step with
  | again _ present _ =>
      rw [node_setEntry_flags (present_opened _ _) (pointer_opened _ _) le, found]
  | new isTable absent available _ _ =>
      rw [node_link mapping isUpper inside isTable absent available
        (by rw [present_opened, present_linked])
        (by rw [pointer_opened, pointer_linked _ (mapping.owned.available_lt available)]) isUpper' le,
        if_neg, found]
      rintro ⟨below, agree⟩
      rw [node_eq_none_of_absent inside isTable absent below agree] at found
      cases found

/-- The tables stay sound. -/
theorem owned (step : OpenStep image root writable a level use s use' s')
    (mapping : Mapping image use s root) (isUpper : a.Upper) (inside : level < 4) :
    Owned image use' s' ∧ Grows root use use' s s' := by
  have covered : Covered (level + 1) (a.part (level + 1)) := by
    intro four
    rw [four]
    exact isUpper
  cases step with
  | @again table isTable present safe =>
      have useTable := (mapping.use_node isUpper inside isTable).1 (Nat.succ_ne_zero level)
      have ok := mapping.owned.entries _ _ _ useTable _ covered
      apply mapping.owned.setEntry useTable _ _ (ok.opened _ _)
      · rw [present_opened]
        exact id
      · intro _ leaf
        obtain rfl : level = 0 := by omega
        exact safe rfl
  | @new table c u isTable absent available isInner isLeaf =>
      have useTable := (mapping.use_node isUpper inside isTable).1 (Nat.succ_ne_zero level)
      have ok := mapping.owned.entries _ _ _ useTable _ covered
      rcases @Owned.withNewPageMap _ _ _ root mapping.owned _ available u with ⟨owned₁, grows₁⟩
      have fresh : Function.update use c (some u) c = some u := Function.update_self ..
      have ok' : EntryOk image (Function.update use c (some u)) (level + 1) root
          (opened (linked (s.entry table (a.part (level + 1))) c) (openFlag level writable)) := by
        apply EntryOk.linked ok.small (mapping.owned.available_lt available)
        · intro inner
          rw [fresh, isInner (by omega)]
          rfl
        · intro leaf
          rw [fresh]
          rcases isLeaf (by omega) with ⟨isPrivate, notImage⟩ | ⟨isShared, isImage⟩
          · exact .inl ⟨congrArg some isPrivate, notImage⟩
          · exact .inr ⟨congrArg some isShared, isImage⟩
      rcases owned₁.setEntry (grows₁.extends_use _ _ useTable) (a.part (level + 1)) _ ok'
        (fun _ => by rw [present_opened, present_linked]) with ⟨owned₂, grows₂⟩
      exact ⟨owned₂, grows₁.trans grows₂⟩

/-- Paths that have parted still do not meet. -/
theorem mapping (step : OpenStep image root writable a level use s use' s')
    (mapping : Mapping image use s root) (isUpper : a.Upper) (inside : level < 4) :
    Mapping image use' s' root where
  owned := (step.owned mapping isUpper inside).1
  isRoot := (step.owned mapping isUpper inside).2.extends_use _ _ mapping.isRoot
  tree := by
    intro x y upperX upperY level' le f foundX foundY
    rcases step.node_cases mapping isUpper inside with same | ⟨c, available, nodes⟩
    · rw [same x level' le] at foundX
      rw [same y level' le] at foundY
      exact mapping.tree x y upperX upperY level' le f foundX foundY
    · rw [nodes x upperX level' le] at foundX
      rw [nodes y upperY level' le] at foundY
      split at foundX
      · rename_i behindX
        split at foundX
        · rename_i here
          cases foundX
          split at foundY
          · rename_i behindY
            rw [here]
            exact behindX.2.symm.trans behindY.2
          · exact absurd foundY (mapping.node_ne upperY le available)
        · cases foundX
      · split at foundY
        · rename_i behindY
          split at foundY
          · cases foundY
            exact absurd foundX (mapping.node_ne upperX le available)
          · cases foundY
        · exact mapping.tree x y upperX upperY level' le f foundX foundY

end OpenStep

end Machine
end Mikanos.Paging
