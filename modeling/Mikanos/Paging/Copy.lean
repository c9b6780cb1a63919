import Mikanos.Paging.Ownership

/-!
# Copying page maps

`CopyPageMaps` shares the pages of a source with a destination and gives the
destination tables of its own.  At every level above the last it returns after
the first present entry, so what it copies is one page table.
-/

namespace Mikanos.Paging

open Mikanos.Memory

namespace Machine

/-! ## Page-map entries of pages -/

/-- The entry of level 1 for an address, when every table on the way to it is
present. -/
def leaf (s : Machine) (addr : LinearAddress4Level) : Nat → Nat → Option PageMapEntry
  | 0, _ => none
  | 1, table =>
      if (s.entry table (addr.part 1)).present then some (s.entry table (addr.part 1)) else none
  | level + 2, table =>
      if (s.entry table (addr.part (level + 2))).present then
        s.leaf addr (level + 1) (s.entry table (addr.part (level + 2))).pointer
      else none

/-- The index at which `CopyPageMaps` stops. -/
def firstPresent (s : Machine) (src start : Nat) : Option (Fin 512) :=
  (indices start).find? fun i => (s.entry src i).present

/-- The address lies in the page table that `CopyPageMaps` copies. -/
def InFirst (s : Machine) (addr : LinearAddress4Level) : Nat → Nat → Nat → Prop
  | 0, _, _ => False
  | 1, start, _ => start ≤ (addr.part 1).val
  | part + 2, start, src =>
      s.firstPresent src start = some (addr.part (part + 2)) ∧
        s.InFirst addr (part + 1) 0 (s.entry src (addr.part (part + 2))).pointer

theorem mem_indices (start : Nat) (i : Fin 512) : i ∈ indices start ↔ start ≤ i.val := by
  rw [indices, List.mem_filter]
  simp only [List.mem_finRange, true_and, decide_eq_true_eq]

theorem firstPresent_some {s : Machine} {src start : Nat} {i : Fin 512}
    (found : s.firstPresent src start = some i) :
    start ≤ i.val ∧ (s.entry src i).present = true := by
  rw [firstPresent] at found
  constructor
  · exact (mem_indices start i).mp (List.mem_of_find?_eq_some found)
  · have isPresent := List.find?_some found
    exact isPresent

theorem firstPresent_none {s : Machine} {src start : Nat}
    (missed : s.firstPresent src start = none) {i : Fin 512} (above : start ≤ i.val) :
    (s.entry src i).present = false := by
  rw [firstPresent] at missed
  have absent := List.find?_eq_none.mp missed i ((mem_indices start i).mpr above)
  simpa using absent

theorem copyTables_eq (descend : Machine → Nat → Nat → Machine × Option Error)
    (s : Machine) (dest src : Nat) (is : List (Fin 512)) :
    copyTables descend dest src is s =
      match is.find? fun i => (s.entry src i).present with
      | none => (s, none)
      | some i =>
          match s.newPageMap with
          | (s, .error e) => (s, some e)
          | (s, .ok table) =>
              let s := s.setEntry dest i ((s.entry src i).setPointer table)
              descend s table (s.entry src i).pointer := by
  induction is with
  | nil => rfl
  | cons i rest ih =>
      cases present : (s.entry src i).present with
      | true =>
          rw [List.find?_cons_of_pos (by simpa using present)]
          rcases allocated : s.newPageMap with ⟨s', e | table⟩
          · simp only [copyTables, present, if_true, allocated]
          · simp only [copyTables, present, if_true, allocated, setEntry_setEntry,
              entry_setEntry_self]
      | false =>
          rw [List.find?_cons_of_neg (by simpa using present), ← ih]
          simp [copyTables, present]

/-! ## Reading tables that have not changed -/

section Unchanged

variable {image : Nat → Prop} {use : Uses} {s s' : Machine} {owner : Nat}

/-- The tables of an owner have not changed. -/
def SameTables (use : Uses) (owner : Nat) (s s' : Machine) : Prop :=
  ∀ f level, use f = some (.table level owner) → s'.mem f = s.mem f

theorem leaf_congr (owned : Owned image use s) (same : SameTables use owner s s')
    (addr : LinearAddress4Level) (level table : Nat)
    (isTable : use table = some (.table level owner)) (isUpper : level = 4 → addr.Upper)
    (upper : level ≤ 4) : s'.leaf addr level table = s.leaf addr level table := by
  induction level generalizing table with
  | zero => rfl
  | succ level ih =>
      have entryEq : ∀ i, s'.entry table i = s.entry table i := by
        intro i
        rw [entry, same table _ isTable, entry]
      cases level with
      | zero => simp only [leaf, entryEq]
      | succ level =>
          simp only [leaf, entryEq]
          by_cases present : (s.entry table (addr.part (level + 2))).present = true
          · have covered : Covered (level + 2) (addr.part (level + 2)) := by
              intro four
              rw [four]
              exact isUpper four
            have ok := owned.entries table _ owner isTable _ covered
            rw [if_pos present, if_pos present]
            exact ih _ (ok.table present (by omega)) (by omega) (by omega)
          · rw [if_neg present, if_neg present]

theorem firstPresent_congr {src : Nat} (start : Nat) (same : s'.mem src = s.mem src) :
    s'.firstPresent src start = s.firstPresent src start := by
  simp only [firstPresent, entry, same]

theorem inFirst_congr (owned : Owned image use s) (same : SameTables use owner s s')
    (addr : LinearAddress4Level) (part start table : Nat)
    (isTable : use table = some (.table part owner)) (isUpper : part = 4 → 256 ≤ start)
    (upper : part ≤ 4) : s'.InFirst addr part start table ↔ s.InFirst addr part start table := by
  induction part generalizing start table with
  | zero => exact Iff.rfl
  | succ part ih =>
      cases part with
      | zero => exact Iff.rfl
      | succ part =>
          have memEq := same table _ isTable
          have entryEq : s'.entry table (addr.part (part + 2)) =
              s.entry table (addr.part (part + 2)) := by rw [entry, memEq, entry]
          simp only [InFirst, firstPresent_congr start memEq, entryEq]
          apply and_congr_right
          intro found
          rcases firstPresent_some found with ⟨above, present⟩
          have covered : Covered (part + 2) (addr.part (part + 2)) :=
            fun four => Nat.le_trans (isUpper four) above
          have ok := owned.entries table _ owner isTable _ covered
          exact ih 0 _ (ok.table present (by omega)) (by omega) (by omega)

end Unchanged

/-! ## Part 1 -/

section Leaves

variable {image : Nat → Prop} {use : Uses} {s : Machine} {owner r : Nat}

/-- The entry that the copy of a page gets. -/
def shared (e : PageMapEntry) : PageMapEntry :=
  e.setWritable false

theorem copyLeaves_cons (dest src : Nat) (i : Fin 512) (rest : List (Fin 512)) (s : Machine) :
    copyLeaves dest src (i :: rest) s =
      copyLeaves dest src rest
        (if (s.entry src i).present then s.setEntry dest i (shared (s.entry src i)) else s) := by
  rw [copyLeaves]
  split
  · simp only [setEntry_setEntry, entry_setEntry_self]
    rfl
  · rfl

/-- The loop at part 1 shares the pages of a table. -/
theorem copyLeaves_spec {dest src : Nat} (is : List (Fin 512)) (owned : Owned image use s)
    (isSrc : use src = some (.table 1 owner)) (isImage : image owner)
    (isDest : use dest = some (.table 1 r)) (notImage : ¬ image r) :
    Owned image use (copyLeaves dest src is s) ∧
      Grows r use use s (copyLeaves dest src is s) ∧
      (∀ f, f ≠ dest → (copyLeaves dest src is s).mem f = s.mem f) ∧
      ∀ i, (copyLeaves dest src is s).entry dest i =
        if i ∈ is ∧ (s.entry src i).present = true then shared (s.entry src i)
        else s.entry dest i := by
  have ne : src ≠ dest := by
    rintro rfl
    rw [isSrc] at isDest
    cases isDest
    exact notImage isImage
  induction is generalizing s with
  | nil => exact ⟨owned, .refl r use s, fun _ _ => rfl, by simp [copyLeaves]⟩
  | cons i rest ih =>
      rw [copyLeaves_cons]
      cases present : (s.entry src i).present with
      | false =>
          rcases ih owned with ⟨owned', grows, others, entries⟩
          refine ⟨owned', grows, others, ?_⟩
          intro j
          rw [if_neg (by simp), entries j]
          by_cases same : j = i
          · subst same
            simp [present]
          · simp [same]
      | true =>
          rw [if_pos rfl]
          have ok := owned.entries src 1 owner isSrc i (fun four => absurd four (by decide))
          have okShared : EntryOk image use 1 r (shared (s.entry src i)) := by
            constructor
            · simpa [shared] using ok.small
            · exact fun _ inner => absurd rfl inner
            · intro _ _
              rcases ok.page present rfl with ⟨-, not⟩ | ⟨isShared, -⟩
              · exact absurd isImage not
              · right
                constructor
                · simpa [shared] using isShared
                · simp [shared]
          rcases owned.setEntry isDest i _ okShared (by simp [shared, present]) with
            ⟨owned₁, grows₁⟩
          rcases ih owned₁ with ⟨owned', grows, others, entries⟩
          refine ⟨owned', grows₁.trans grows, ?_, ?_⟩
          · intro f other
            rw [others f other, mem_setEntry_of_ne _ _ _ other]
          · intro j
            have srcEq : ∀ k, (s.setEntry dest i (shared (s.entry src i))).entry src k =
                s.entry src k :=
              fun k => entry_setEntry_of_ne _ _ (.inl ne)
            rw [entries j, srcEq]
            by_cases same : j = i
            · subst same
              by_cases again : j ∈ rest
              · simp [again, present]
              · simp [again, present]
            · rw [entry_setEntry_of_ne _ _ (.inr same)]
              simp [same]

end Leaves

/-! ## The other parts -/

section Tables

variable {image : Nat → Prop} {use : Uses} {s : Machine} {owner r : Nat}

/-- The round of the first present entry, up to the descent: the copy gets an
empty table of its own. -/
theorem copyTables_round {dest src part start : Nat} (owned : Owned image use s)
    (isSrc : use src = some (.table (part + 2) owner)) (isImage : image owner)
    (isDest : use dest = some (.table (part + 2) r)) (notImage : ¬ image r)
    (isUpper : part + 2 = 4 → 256 ≤ start) {i : Fin 512}
    (first : s.firstPresent src start = some i)
    (descend : Machine → Nat → Nat → Machine × Option Error) :
    ((∀ f, ¬ s.frames.Available f) ∧
        copyTables descend dest src (indices start) s = (s, some .noEnoughMemory)) ∨
      ∃ use₁ s₁ table, copyTables descend dest src (indices start) s =
          descend s₁ table (s.entry src i).pointer ∧
        Owned image use₁ s₁ ∧ Grows r use use₁ s s₁ ∧
        use₁ table = some (.table (part + 1) r) ∧ use table = none ∧
        (∀ f u, use f = some u → f ≠ dest → s₁.mem f = s.mem f) ∧
        (∀ j, s₁.entry table j = 0) ∧
        s₁.entry dest i = (s.entry src i).setPointer table ∧ table < 2 ^ 40 ∧
        (∀ j, j ≠ i → s₁.entry dest j = s.entry dest j) ∧
        s₁.frames.available.length + 1 = s.frames.available.length := by
  have ne : src ≠ dest := by
    rintro rfl
    rw [isSrc] at isDest
    cases isDest
    exact notImage isImage
  rcases firstPresent_some first with ⟨above, present⟩
  have covered : Covered (part + 2) i := fun four => Nat.le_trans (isUpper four) above
  have ok := owned.entries src _ owner isSrc i covered
  rw [firstPresent] at first
  rw [copyTables_eq, first]
  rcases s.newPageMap_cases with ⟨table, available, allocated⟩ | ⟨none, failed⟩
  · right
    have fresh := owned.use_of_available available
    have srcNe : src ≠ table := by
      rintro rfl
      rw [isSrc] at fresh
      cases fresh
    have destNe : dest ≠ table := by
      rintro rfl
      rw [isDest] at fresh
      cases fresh
    have srcEq := s.entry_withNewPageMap_of_ne i srcNe
    rcases @Owned.withNewPageMap _ _ _ r owned _ available (.table (part + 1) r) with
      ⟨owned₁, grows₁⟩
    have isTable : Function.update use table (some (.table (part + 1) r)) table =
        some (.table (part + 1) r) := Function.update_self ..
    have okNew : EntryOk image (Function.update use table (some (.table (part + 1) r))) (part + 2) r
        ((s.entry src i).setPointer table) := by
      constructor
      · simpa using ok.small
      · intro _ _
        rw [PageMapEntry.pointer_setPointer _ _ (owned.available_lt available)]
        exact isTable
      · intro _ isLeaf
        omega
    rcases owned₁.setEntry (grows₁.extends_use _ _ isDest) i _ okNew (by simp [present]) with
      ⟨owned₂, grows₂⟩
    refine ⟨_, (s.withNewPageMap table).setEntry dest i ((s.entry src i).setPointer table), table,
      ?_, owned₂, grows₁.trans grows₂, isTable, fresh, ?_, ?_, ?_, owned.available_lt available,
      ?_, ?_⟩
    · rw [allocated]
      simp only [srcEq, entry_setEntry_of_ne _ _ (.inl ne)]
    · intro f u found other
      have notTable : f ≠ table := by
        rintro rfl
        rw [fresh] at found
        cases found
      rw [mem_setEntry_of_ne _ _ _ other, s.mem_withNewPageMap_of_ne notTable]
    · intro j
      rw [entry_setEntry_of_ne _ _ (.inl (Ne.symm destNe)), entry_withNewPageMap_self]
    · rw [entry_setEntry_self]
    · intro j other
      rw [entry_setEntry_of_ne _ _ (.inr other), s.entry_withNewPageMap_of_ne j destNe]
    · exact s.frames.length_available_setBit available
  · left
    constructor
    · exact none
    · rw [failed]

/-- What `CopyPageMaps` does to a machine, and what the copy looks like when it
succeeds. -/
theorem copyPageMaps_spec (isImage : image owner) (notImage : ¬ image r) (part start dest src : Nat)
    (lower : 1 ≤ part) (upper : part ≤ 4) (isUpper : part = 4 → 256 ≤ start)
    (owned : Owned image use s) (isSrc : use src = some (.table part owner))
    (isDest : use dest = some (.table part r)) :
    ∃ use' s' result, copyPageMaps part start s dest src = (s', result) ∧ Owned image use' s' ∧
      Grows r use use' s s' ∧ (∀ f u, use f = some u → f ≠ dest → s'.mem f = s.mem f) ∧
      (result = some .success → ∀ addr, (part = 4 → addr.Upper) →
        (∀ i, Covered part i → (s.entry dest i).present = false) →
        (s.InFirst addr part start src →
          s'.leaf addr part dest = (s.leaf addr part src).map shared) ∧
        (¬ s.InFirst addr part start src → s'.leaf addr part dest = none)) := by
  induction part generalizing use s start dest src with
  | zero => exact absurd lower (by decide)
  | succ part ih =>
      cases part with
      | zero =>
          rcases copyLeaves_spec (indices start) owned isSrc isImage isDest notImage with
            ⟨owned', grows, others, entries⟩
          refine ⟨use, _, _, rfl, owned', grows, fun f _ _ other => others f other, ?_⟩
          intro _ addr _ empty
          have entryEq := entries (addr.part 1)
          simp only [mem_indices] at entryEq
          have absent := empty (addr.part 1) (fun four => absurd four (by decide))
          constructor
          · intro inFirst
            have above : start ≤ (addr.part 1).val := inFirst
            cases present : (s.entry src (addr.part 1)).present with
            | true =>
                rw [if_pos ⟨above, present⟩] at entryEq
                simp [leaf, entryEq, present, shared]
            | false =>
                rw [if_neg (by simp [present])] at entryEq
                simp [leaf, entryEq, present, absent]
          · intro notFirst
            have below : ¬ start ≤ (addr.part 1).val := notFirst
            rw [if_neg (fun both => below both.1)] at entryEq
            simp [leaf, entryEq, absent]
      | succ part =>
          cases first : s.firstPresent src start with
          | none =>
              refine ⟨use, s, none, ?_, owned, .refl r use s, fun _ _ _ _ => rfl, ?_⟩
              · rw [firstPresent] at first
                rw [copyPageMaps, copyTables_eq, first]
              · intro success
                cases success
          | some i =>
              rcases firstPresent_some first with ⟨above, present⟩
              have covered : Covered (part + 2) i := fun four => Nat.le_trans (isUpper four) above
              have ok := owned.entries src _ owner isSrc i covered
              have isChild := ok.table present (by omega)
              rw [copyPageMaps]
              rcases copyTables_round owned isSrc isImage isDest notImage isUpper first
                (copyPageMaps (part + 1) 0) with
                ⟨-, failed⟩ | ⟨use₁, s₁, table, round, owned₁, grows₁, isTable, fresh, kept₁, zero,
                  link, table_lt, rest, -⟩
              · refine ⟨use, s, _, failed, owned, .refl r use s, fun _ _ _ _ => rfl, ?_⟩
                intro success
                cases success
              · have ownerNe : ∀ f level, use f = some (.table level owner) → f ≠ dest := by
                  rintro f level found rfl
                  rw [isDest] at found
                  cases found
                  exact notImage isImage
                have same : SameTables use owner s s₁ :=
                  fun f level found => kept₁ f _ found (ownerNe f level found)
                rcases ih 0 table (s.entry src i).pointer (by omega) (by omega) (by omega) owned₁
                  (grows₁.extends_use _ _ isChild) isTable with
                  ⟨use₂, s₂, result, descended, owned₂, grows₂, kept₂, copied⟩
                refine ⟨use₂, s₂, result, by rw [round, descended], owned₂, grows₁.trans grows₂,
                  ?_, ?_⟩
                · intro f u found other
                  have notTable : f ≠ table := by
                    rintro rfl
                    rw [fresh] at found
                    cases found
                  rw [kept₂ f u (grows₁.extends_use f u found) notTable, kept₁ f u found other]
                · intro success addr addrUpper empty
                  have destNe : dest ≠ table := by
                    rintro rfl
                    rw [isDest] at fresh
                    cases fresh
                  have destEq : ∀ j, s₂.entry dest j = s₁.entry dest j := by
                    intro j
                    rw [entry, kept₂ dest _ (grows₁.extends_use _ _ isDest) destNe, entry]
                  have sameFirst := inFirst_congr owned same addr (part + 1) 0 _ isChild (by omega)
                    (by omega)
                  have sameLeaf := leaf_congr owned same addr (part + 1) _ isChild (by omega)
                    (by omega)
                  by_cases here : addr.part (part + 2) = i
                  · have down : s₂.leaf addr (part + 2) dest = s₂.leaf addr (part + 1) table := by
                      rw [leaf, here, destEq, link, PageMapEntry.present_setPointer, if_pos present,
                        PageMapEntry.pointer_setPointer _ _ table_lt]
                    have up : s.leaf addr (part + 2) src =
                        s.leaf addr (part + 1) (s.entry src i).pointer := by
                      rw [leaf, here, if_pos present]
                    have inFirstIff : s.InFirst addr (part + 2) start src ↔
                        s.InFirst addr (part + 1) 0 (s.entry src i).pointer := by
                      simp only [InFirst, first, here, true_and]
                    rcases copied success addr (by omega) (fun j _ => by rw [zero]; rfl) with
                      ⟨inside, outside⟩
                    rw [sameFirst, sameLeaf] at inside
                    rw [sameFirst] at outside
                    rw [inFirstIff, down, up]
                    exact ⟨inside, outside⟩
                  · constructor
                    · rintro ⟨found, -⟩
                      rw [first] at found
                      exact absurd (Option.some.inj found).symm here
                    · intro _
                      have absent : (s₂.entry dest (addr.part (part + 2))).present = false := by
                        rw [destEq, rest _ here]
                        apply empty
                        intro four
                        rw [four]
                        exact addrUpper four
                      rw [leaf, absent]
                      rfl

end Tables

end Machine

end Mikanos.Paging
