import Mikanos.Paging.Tables
import Mathlib.Tactic.Set
import Mathlib.Tactic.Tauto

/-!
# Who owns a frame

The page maps of applications are described by what every frame in use is for:
a table of some level that belongs to one PML4, a page that only one PML4 maps,
or a page of an executable's image, which any PML4 may map.  An entry is sound
when what it points to is for the right purpose.  Only the upper half of a PML4
is covered; the lower half belongs to the kernel.
-/

namespace Mikanos.Paging

open Mikanos.Memory

/-- What a frame is used for. -/
inductive Use
  | table (level owner : Nat)
  | privatePage (owner : Nat)
  | sharedPage

/-- The use of every frame that the upper halves of PML4s reach. -/
abbrev Uses := Nat → Option Use

/-- Entries that the description covers: all but the lower half of a PML4. -/
def Covered (level : Nat) (i : Fin 512) : Prop :=
  level = 4 → 256 ≤ i.val

/-- An entry of a table leads to what it should.  A page of an image may be
mapped by others only without write permission. -/
structure EntryOk (image : Nat → Prop) (use : Uses) (level owner : Nat) (e : PageMapEntry) :
    Prop where
  small : level ≠ 4 → e.hugePage = false
  table : e.present = true → level ≠ 1 → use e.pointer = some (.table (level - 1) owner)
  page : e.present = true → level = 1 →
    use e.pointer = some (.privatePage owner) ∧ ¬ image owner ∨
      use e.pointer = some .sharedPage ∧ (e.writable = false ∨ image owner)

/-- The frames are used as described. -/
structure Owned (image : Nat → Prop) (use : Uses) (s : Machine) : Prop where
  range_le : s.frames.rangeEnd ≤ kFrameCount
  used : ∀ f u, use f = some u → ¬ s.frames.Available f
  entries : ∀ f level owner, use f = some (.table level owner) → ∀ i, Covered level i →
    EntryOk image use level owner (s.entry f i)

/-- What an operation on the tables of one owner leaves alone. -/
structure Grows (owner : Nat) (use use' : Uses) (s s' : Machine) : Prop where
  extends_use : ∀ f u, use f = some u → use' f = some u
  kept : ∀ f u, use f = some u → (∀ level, u ≠ .table level owner) → s'.mem f = s.mem f
  present : ∀ f u, use f = some u → ∀ i, (s.entry f i).present = true →
    (∃ level, u = .table level owner) → (s'.entry f i).present = true
  cr3 : s'.cr3 = s.cr3

namespace Grows

variable {owner : Nat} {use use' use'' : Uses} {s s' s'' : Machine}

theorem refl (owner : Nat) (use : Uses) (s : Machine) : Grows owner use use s s where
  extends_use := fun _ _ found => found
  kept := fun _ _ _ _ => rfl
  present := fun _ _ _ _ isPresent _ => isPresent
  cr3 := rfl

theorem trans (first : Grows owner use use' s s') (last : Grows owner use' use'' s' s'') :
    Grows owner use use'' s s'' where
  extends_use := fun f u found => last.extends_use f u (first.extends_use f u found)
  kept := by
    intro f u found other
    rw [last.kept f u (first.extends_use f u found) other, first.kept f u found other]
  present := by
    intro f u found i isPresent isTable
    exact last.present f u (first.extends_use f u found) i
      (first.present f u found i isPresent isTable) isTable
  cr3 := last.cr3.trans first.cr3

end Grows

theorem EntryOk.mono {image : Nat → Prop} {use use' : Uses} {level owner : Nat}
    {e : PageMapEntry} (ok : EntryOk image use level owner e)
    (extends_use : ∀ f u, use f = some u → use' f = some u) :
    EntryOk image use' level owner e where
  small := ok.small
  table := fun present inner => extends_use _ _ (ok.table present inner)
  page := by
    intro present leaf
    rcases ok.page present leaf with ⟨isPrivate, notImage⟩ | ⟨shared, readOnly⟩
    · exact .inl ⟨extends_use _ _ isPrivate, notImage⟩
    · exact .inr ⟨extends_use _ _ shared, readOnly⟩

theorem EntryOk.zero (image : Nat → Prop) (use : Uses) (level owner : Nat) :
    EntryOk image use level owner 0 where
  small := fun _ => rfl
  table := by
    intro present
    cases present
  page := by
    intro present
    cases present

namespace Machine

/-! ## Entries and frames after a store -/

@[simp]
theorem entry_setEntry_self (s : Machine) (table : Nat) (i : Fin 512) (e : PageMapEntry) :
    (s.setEntry table i e).entry table i = e := by
  simp [entry, setEntry]

theorem entry_setEntry_of_ne (s : Machine) {table other : Nat} {i j : Fin 512} (e : PageMapEntry)
    (ne : other ≠ table ∨ j ≠ i) : (s.setEntry table i e).entry other j = s.entry other j := by
  by_cases same : other = table
  · subst same
    rcases ne with ne | ne
    · exact absurd rfl ne
    · simp [entry, setEntry, Function.update_of_ne ne]
  · simp [entry, setEntry, Function.update_of_ne same]

theorem mem_setEntry_of_ne (s : Machine) {table other : Nat} (i : Fin 512) (e : PageMapEntry)
    (ne : other ≠ table) : (s.setEntry table i e).mem other = s.mem other := by
  simp [setEntry, Function.update_of_ne ne]

@[simp]
theorem setEntry_setEntry (s : Machine) (table : Nat) (i : Fin 512) (e e' : PageMapEntry) :
    (s.setEntry table i e).setEntry table i e' = s.setEntry table i e' := by
  simp [setEntry]

theorem mem_setFrame_of_ne (s : Machine) {frame other : Nat} (content : Frame)
    (ne : other ≠ frame) : (s.setFrame frame content).mem other = s.mem other := by
  simp [setFrame, Function.update_of_ne ne]

@[simp]
theorem mem_setFrame_self (s : Machine) (frame : Nat) (content : Frame) :
    (s.setFrame frame content).mem frame = content := by
  simp [setFrame]

@[simp] theorem cr3_withNewPageMap (s : Machine) (frame : Nat) :
    (s.withNewPageMap frame).cr3 = s.cr3 := rfl

@[simp] theorem frames_withNewPageMap (s : Machine) (frame : Nat) :
    (s.withNewPageMap frame).frames = s.frames.setBit frame true := rfl

theorem mem_withNewPageMap_of_ne (s : Machine) {frame other : Nat} (ne : other ≠ frame) :
    (s.withNewPageMap frame).mem other = s.mem other :=
  mem_setFrame_of_ne _ _ ne

@[simp]
theorem entry_withNewPageMap_self (s : Machine) (frame : Nat) (i : Fin 512) :
    (s.withNewPageMap frame).entry frame i = 0 := by
  simp [withNewPageMap, entry]

theorem entry_withNewPageMap_of_ne (s : Machine) {frame other : Nat} (i : Fin 512)
    (ne : other ≠ frame) : (s.withNewPageMap frame).entry other i = s.entry other i := by
  rw [entry, mem_withNewPageMap_of_ne s ne, entry]

/-! ## Opening an entry -/

/-- The entry that `SetNewPageMapIfNotPresent` makes. -/
def linked (e : PageMapEntry) (frame : Nat) : PageMapEntry :=
  (e.setPointer frame).setPresent true

/-- The flags that `SetupPageMap` then sets. -/
def opened (e : PageMapEntry) (writable : Bool) : PageMapEntry :=
  (e.setUser true).setWritable writable

/-- `SetNewPageMapIfNotPresent` together with the flags that `SetupPageMap` sets
in the entry. -/
def openEntry (s : Machine) (table : Nat) (i : Fin 512) (writable : Bool) :
    Machine × Except Error Nat :=
  match s.setNewPageMapIfNotPresent table i with
  | (s, .error e) => (s, .error e)
  | (s, .ok childMap) => (s.setEntry table i (opened (s.entry table i) writable), .ok childMap)

/-- A round of the loop of `SetupPageMap` opens an entry and descends. -/
theorem setupEntry_eq (s : Machine)
    (descend : Machine → Nat → LinearAddress4Level → Nat → Machine × Nat × Error) (level : Nat)
    (writable : Bool) (table : Nat) (addr : LinearAddress4Level) (num4kpages : Nat) :
    s.setupEntry descend level writable table addr num4kpages =
      match s.openEntry table (addr.part level) (if level = 1 then writable else true) with
      | (s, .error e) => (s, num4kpages, e)
      | (s, .ok childMap) =>
          if level = 1 then (s, num4kpages - 1, .success)
          else
            match descend s childMap addr num4kpages with
            | (s, remain, .success) => (s, remain, .success)
            | (s, _, e) => (s, num4kpages, e) := by
  rcases linkedEq : s.setNewPageMapIfNotPresent table (addr.part level) with ⟨s', e | childMap⟩
  · simp only [setupEntry, openEntry, linkedEq]
  · by_cases leaf : level = 1
    · simp only [setupEntry, openEntry, linkedEq, if_pos leaf, opened, setEntry_setEntry,
        entry_setEntry_self]
    · rcases descended : descend (s'.setEntry table (addr.part level)
        (opened (s'.entry table (addr.part level)) true)) childMap addr num4kpages with
        ⟨s'', remain, e⟩
      simp only [opened] at descended
      cases e <;> simp only [setupEntry, openEntry, linkedEq, if_neg leaf, opened,
        setEntry_setEntry, entry_setEntry_self, descended]

/-- Opening an entry uses what it points to, or links a new frame, or fails
without a change. -/
theorem openEntry_cases (s : Machine) {table : Nat} (i : Fin 512) (writable : Bool)
    (used : ¬ s.frames.Available table) :
    ((s.entry table i).present = true ∧ s.openEntry table i writable =
        (s.setEntry table i (opened (s.entry table i) writable), .ok (s.entry table i).pointer)) ∨
      ((s.entry table i).present = false ∧ ∃ frame, s.frames.Available frame ∧
        s.openEntry table i writable =
          ((s.withNewPageMap frame).setEntry table i
            (opened (linked (s.entry table i) frame) writable), .ok frame)) ∨
      (s.entry table i).present = false ∧ (∀ frame, ¬ s.frames.Available frame) ∧
        s.openEntry table i writable = (s, .error .noEnoughMemory) := by
  cases present : (s.entry table i).present with
  | true =>
      left
      constructor
      · rfl
      · simp [openEntry, setNewPageMapIfNotPresent, present]
  | false =>
      right
      rcases s.newPageMap_cases with ⟨frame, available, allocated⟩ | ⟨none, failed⟩
      · left
        refine ⟨rfl, frame, available, ?_⟩
        have ne : table ≠ frame := by
          rintro rfl
          exact used available
        simp [openEntry, setNewPageMapIfNotPresent, present, allocated, linked,
          s.entry_withNewPageMap_of_ne i ne]
      · right
        refine ⟨rfl, none, ?_⟩
        simp [openEntry, setNewPageMapIfNotPresent, present, failed]

end Machine

open Machine

/-! ## Single updates -/

section Updates

variable {image : Nat → Prop} {use : Uses} {s : Machine} {owner : Nat}

theorem Owned.available_lt (owned : Owned image use s) {frame : Nat}
    (available : s.frames.Available frame) : frame < 2 ^ 40 := by
  have small : kFrameCount < 2 ^ 40 := by decide
  have := owned.range_le
  have := available.2.1
  omega

theorem Owned.use_of_available (owned : Owned image use s) {frame : Nat}
    (available : s.frames.Available frame) : use frame = none := by
  cases found : use frame with
  | none => rfl
  | some u => exact absurd available (owned.used frame u found)

/-- A new page map, for any purpose. -/
theorem Owned.withNewPageMap (owned : Owned image use s) {frame : Nat}
    (available : s.frames.Available frame) (u : Use) :
    Owned image (Function.update use frame (some u)) (s.withNewPageMap frame) ∧
      Grows owner use (Function.update use frame (some u)) s (s.withNewPageMap frame) := by
  have fresh := owned.use_of_available available
  have other : ∀ f u', use f = some u' → f ≠ frame := by
    rintro f u' found rfl
    rw [fresh] at found
    cases found
  have grows : Grows owner use (Function.update use frame (some u)) s (s.withNewPageMap frame) := by
    constructor
    · intro f u' found
      rw [Function.update_of_ne (other f u' found), found]
    · intro f u' found _
      exact s.mem_withNewPageMap_of_ne (other f u' found)
    · intro f u' found i isPresent _
      rw [s.entry_withNewPageMap_of_ne i (other f u' found)]
      exact isPresent
    · rfl
  constructor
  · constructor
    · exact owned.range_le
    · intro f u' found
      by_cases same : f = frame
      · subst same
        rintro ⟨-, -, isFree⟩
        simp at isFree
      · rw [Function.update_of_ne same] at found
        rintro ⟨lower, upper, isFree⟩
        rw [frames_withNewPageMap, BitmapMemoryManager.getBit_setBit_of_ne _ _ same] at isFree
        exact owned.used f u' found ⟨lower, upper, isFree⟩
    · intro f level owner' found i covered
      by_cases same : f = frame
      · subst same
        rw [entry_withNewPageMap_self]
        exact .zero _ _ _ _
      · rw [Function.update_of_ne same] at found
        rw [s.entry_withNewPageMap_of_ne i same]
        exact (owned.entries f level owner' found i covered).mono grows.extends_use
  · exact grows

/-- A sound entry may be stored into a table. -/
theorem Owned.setEntry (owned : Owned image use s) {table level : Nat}
    (isTable : use table = some (.table level owner)) (i : Fin 512) (e : PageMapEntry)
    (ok : EntryOk image use level owner e)
    (present : (s.entry table i).present = true → e.present = true) :
    Owned image use (s.setEntry table i e) ∧ Grows owner use use s (s.setEntry table i e) := by
  constructor
  · constructor
    · exact owned.range_le
    · exact owned.used
    · intro f level' owner' found j covered
      by_cases same : f = table ∧ j = i
      · rcases same with ⟨rfl, rfl⟩
        rw [isTable] at found
        cases found
        rw [entry_setEntry_self]
        exact ok
      · rw [entry_setEntry_of_ne s e (by tauto)]
        exact owned.entries f level' owner' found j covered
  · constructor
    · exact fun _ _ found => found
    · intro f u found other
      apply mem_setEntry_of_ne
      rintro rfl
      rw [isTable] at found
      cases found
      exact other level rfl
    · intro f u found j isPresent _
      by_cases same : f = table ∧ j = i
      · rcases same with ⟨rfl, rfl⟩
        rw [entry_setEntry_self]
        exact present isPresent
      · rw [entry_setEntry_of_ne s e (by tauto)]
        exact isPresent
    · rfl

/-- An opened entry is sound, unless it would make a shared page writable. -/
theorem EntryOk.opened {level : Nat} {e : PageMapEntry} (ok : EntryOk image use level owner e)
    (writable : Bool)
    (leaf : e.present = true → level = 1 →
      writable = false ∨ image owner ∨ use e.pointer = some (.privatePage owner)) :
    EntryOk image use level owner (Machine.opened e writable) where
  small := by simpa [Machine.opened] using ok.small
  table := by simpa [Machine.opened] using ok.table
  page := by
    simp only [Machine.opened, PageMapEntry.present_setWritable, PageMapEntry.present_setUser,
      PageMapEntry.pointer_setWritable, PageMapEntry.pointer_setUser,
      PageMapEntry.writable_setWritable]
    intro present isLeaf
    rcases ok.page present isLeaf with isPrivate | ⟨shared, -⟩
    · exact .inl isPrivate
    · rcases leaf present isLeaf with readOnly | isImage | isPrivate
      · exact .inr ⟨shared, .inl readOnly⟩
      · exact .inr ⟨shared, .inr isImage⟩
      · rw [shared] at isPrivate
        cases isPrivate

/-- The entry for a new frame is sound when the frame gets the right purpose. -/
theorem EntryOk.linked {level frame : Nat} {e : PageMapEntry} (small : level ≠ 4 → e.hugePage = false)
    (frame_lt : frame < 2 ^ 40) (writable : Bool)
    (table : level ≠ 1 → use frame = some (.table (level - 1) owner))
    (page : level = 1 → use frame = some (.privatePage owner) ∧ ¬ image owner ∨
      use frame = some .sharedPage ∧ image owner) :
    EntryOk image use level owner (Machine.opened (Machine.linked e frame) writable) := by
  have pointer : (Machine.opened (Machine.linked e frame) writable).pointer = frame := by
    simp [Machine.opened, Machine.linked, PageMapEntry.pointer_setPointer e frame frame_lt]
  constructor
  · simpa [Machine.opened, Machine.linked] using small
  · intro _ inner
    rw [pointer]
    exact table inner
  · intro _ isLeaf
    rw [pointer]
    rcases page isLeaf with isPrivate | ⟨shared, isImage⟩
    · exact .inl isPrivate
    · exact .inr ⟨shared, .inr isImage⟩

/-- What opening an entry of a table leads to. -/
theorem Owned.openEntry (owned : Owned image use s) {table level : Nat}
    (isTable : use table = some (.table level owner)) (i : Fin 512) (covered : Covered level i)
    (writable : Bool)
    (leaf : (s.entry table i).present = true → level = 1 →
      writable = false ∨ image owner ∨ use (s.entry table i).pointer = some (.privatePage owner)) :
    ∃ use' s' result, s.openEntry table i writable = (s', result) ∧
      Owned image use' s' ∧ Grows owner use use' s s' ∧
      (∀ e, result = .error e → e ≠ .success) ∧
      ∀ child, result = .ok child →
        (level ≠ 1 → use' child = some (.table (level - 1) owner)) ∧
        (s'.entry table i).present = true ∧
        ∀ f u, use' f = some u →
          use f = some u ∨ f = child ∧ (level = 1 → ∀ l, u ≠ .table l owner) := by
  have ok := owned.entries table level owner isTable i covered
  rcases s.openEntry_cases i writable (owned.used table _ isTable) with
    ⟨present, openedEq⟩ | ⟨-, frame, available, openedEq⟩ | ⟨-, -, openedEq⟩
  · rcases owned.setEntry isTable i _ (ok.opened writable leaf)
      (by simp [Machine.opened]) with ⟨owned', grows⟩
    refine ⟨use, _, _, openedEq, owned', grows, by simp, ?_⟩
    intro child result
    cases result
    refine ⟨ok.table present, ?_, fun _ _ found => .inl found⟩
    rw [entry_setEntry_self]
    simpa [Machine.opened] using present
  · have purpose : ∃ u : Use, (level ≠ 1 → u = .table (level - 1) owner) ∧
        (level = 1 → u = .privatePage owner ∧ ¬ image owner ∨ u = .sharedPage ∧ image owner) := by
      by_cases isLeaf : level = 1
      · by_cases isImage : image owner
        · exact ⟨.sharedPage, fun inner => absurd isLeaf inner, fun _ => .inr ⟨rfl, isImage⟩⟩
        · exact ⟨.privatePage owner, fun inner => absurd isLeaf inner,
            fun _ => .inl ⟨rfl, isImage⟩⟩
      · exact ⟨.table (level - 1) owner, fun _ => rfl, fun leaf => absurd leaf isLeaf⟩
    rcases purpose with ⟨u, uTable, uPage⟩
    rcases @Owned.withNewPageMap _ _ _ owner owned _ available u with ⟨owned₁, grows₁⟩
    have fresh : Function.update use frame (some u) frame = some u := Function.update_self ..
    have ok' : EntryOk image (Function.update use frame (some u)) level owner
        (Machine.opened (Machine.linked (s.entry table i) frame) writable) := by
      apply EntryOk.linked ok.small (owned.available_lt available)
      · intro inner
        rw [fresh, uTable inner]
      · intro isLeaf
        rw [fresh]
        rcases uPage isLeaf with ⟨isPrivate, notImage⟩ | ⟨shared, isImage⟩
        · exact .inl ⟨congrArg some isPrivate, notImage⟩
        · exact .inr ⟨congrArg some shared, isImage⟩
    rcases owned₁.setEntry (grows₁.extends_use _ _ isTable) i _ ok'
      (by simp [Machine.opened, Machine.linked]) with ⟨owned₂, grows₂⟩
    refine ⟨_, _, _, openedEq, owned₂, grows₁.trans grows₂, by simp, ?_⟩
    intro child result
    cases result
    refine ⟨?_, ?_, ?_⟩
    · intro inner
      rw [fresh, uTable inner]
    · rw [entry_setEntry_self]
      simp [Machine.opened, Machine.linked]
    · intro f u' found
      by_cases same : f = frame
      · right
        refine ⟨same, ?_⟩
        rintro isLeaf l rfl
        rw [same, fresh] at found
        rcases uPage isLeaf with ⟨isPrivate, -⟩ | ⟨shared, -⟩
        · cases isPrivate ▸ found
        · cases shared ▸ found
      · rw [Function.update_of_ne same] at found
        exact .inl found
  · refine ⟨use, s, _, openedEq, owned, .refl owner use s, ?_, ?_⟩
    · intro e result
      cases result
      decide
    · intro child result
      cases result

end Updates

/-! ## `SetupPageMap` on the tables of an image -/

/-- Every table below the PML4 has an entry, apart from one table. -/
def PopulatedBut (owner : Nat) (use : Uses) (s : Machine) (exempt : Nat) : Prop :=
  ∀ f level, use f = some (.table level owner) → level ≠ 4 → f ≠ exempt →
    ∃ i, (s.entry f i).present = true

/-- Every table below the PML4 has an entry. -/
def Populated (owner : Nat) (use : Uses) (s : Machine) : Prop :=
  ∀ f level, use f = some (.table level owner) → level ≠ 4 → ∃ i, (s.entry f i).present = true

/-- What a function like `SetupPageMap` keeps, when it is called on a table of
some level. -/
def Sound (image : Nat → Prop) (owner level : Nat)
    (setup : Machine → Nat → LinearAddress4Level → Nat → Machine × Nat × Error) : Prop :=
  ∀ use s table addr num4kpages, Owned image use s → use table = some (.table level owner) →
    (level = 4 → addr.Upper) →
    ∃ use', Owned image use' (setup s table addr num4kpages).1 ∧
      Grows owner use use' s (setup s table addr num4kpages).1 ∧
      ((setup s table addr num4kpages).2.2 = .success → num4kpages ≠ 0 →
        PopulatedBut owner use s table → Populated owner use' (setup s table addr num4kpages).1)

section Setup

variable {image : Nat → Prop} {owner : Nat}

/-- One round of the loop. -/
theorem setupEntry_sound (isImage : image owner) {level : Nat} (upper : level ≤ 4)
    {descend : Machine → Nat → LinearAddress4Level → Nat → Machine × Nat × Error}
    (sound : level ≠ 1 → Sound image owner (level - 1) descend) (writable : Bool)
    {use : Uses} {s : Machine} {table : Nat} (addr : LinearAddress4Level) {num4kpages : Nat}
    (owned : Owned image use s) (isTable : use table = some (.table level owner))
    (isUpper : level = 4 → addr.Upper) (nonzero : num4kpages ≠ 0) :
    ∃ use' s' remain e, s.setupEntry descend level writable table addr num4kpages =
        (s', remain, e) ∧ Owned image use' s' ∧ Grows owner use use' s s' ∧
      (e = .success → PopulatedBut owner use s table → Populated owner use' s') := by
  have covered : Covered level (addr.part level) := by
    rintro rfl
    exact isUpper rfl
  rcases owned.openEntry isTable (addr.part level) covered
    (if level = 1 then writable else true) (fun _ _ => .inr (.inl isImage)) with
    ⟨use₁, s₁, result, openedEq, owned₁, grows₁, failed, linked⟩
  rw [setupEntry_eq, openedEq]
  cases result with
  | error e =>
      refine ⟨use₁, s₁, num4kpages, e, rfl, owned₁, grows₁, ?_⟩
      intro success
      exact absurd success (failed e rfl)
  | ok childMap =>
      rcases linked childMap rfl with ⟨childTable, present, fewNew⟩
      -- after the round only the child may still be empty
      have populated : PopulatedBut owner use s table → ∀ f l, use₁ f = some (.table l owner) →
          l ≠ 4 → (level ≠ 1 → f ≠ childMap) → ∃ i, (s₁.entry f i).present = true := by
        intro before f l found notRoot notChild
        rcases fewNew f _ found with old | ⟨isChild, notTable⟩
        · by_cases self : f = table
          · rw [self]
            exact ⟨_, present⟩
          · rcases before f l old notRoot self with ⟨i, isPresent⟩
            exact ⟨i, grows₁.present f _ old i isPresent ⟨l, rfl⟩⟩
        · by_cases isLeaf : level = 1
          · exact absurd rfl (notTable isLeaf l)
          · exact absurd isChild (notChild isLeaf)
      by_cases isLeaf : level = 1
      · refine ⟨use₁, s₁, num4kpages - 1, .success, by simp [isLeaf], owned₁, grows₁, ?_⟩
        intro _ before f l found notRoot
        exact populated before f l found notRoot (fun inner => absurd isLeaf inner)
      · rcases sound isLeaf use₁ s₁ childMap addr num4kpages owned₁ (childTable isLeaf)
          (by intro isFour; omega) with ⟨use₂, owned₂, grows₂, populated₂⟩
        rcases descended : descend s₁ childMap addr num4kpages with ⟨s₂, remain, e⟩
        rw [descended] at owned₂ grows₂ populated₂
        have grows := grows₁.trans grows₂
        by_cases success : e = .success
        · subst success
          refine ⟨use₂, s₂, remain, .success, by simp [isLeaf, descended], owned₂, grows, ?_⟩
          intro _ before
          apply populated₂ rfl nonzero
          intro f l found notRoot notChild
          exact populated before f l found notRoot (fun _ => notChild)
        · refine ⟨use₂, s₂, num4kpages, e, ?_, owned₂, grows, fun isSuccess => ?_⟩
          · simp only [isLeaf, if_false, descended]
          · exact absurd isSuccess success

/-- The loop of `SetupPageMap`. -/
theorem setupPageMapLoop_sound (isImage : image owner) {level : Nat} (upper : level ≤ 4)
    {descend : Machine → Nat → LinearAddress4Level → Nat → Machine × Nat × Error}
    (sound : level ≠ 1 → Sound image owner (level - 1) descend) (writable : Bool) (fuel : Nat)
    (enough : 0 < fuel) :
    Sound image owner level fun s table addr num4kpages =>
      setupPageMapLoop descend level writable table fuel s addr num4kpages := by
  induction fuel with
  | zero => exact absurd enough (Nat.lt_irrefl 0)
  | succ fuel ih =>
      intro use s table addr num4kpages owned isTable isUpper
      by_cases zero : num4kpages = 0
      · refine ⟨use, ?_, ?_, ?_⟩
        · simpa [setupPageMapLoop, zero] using owned
        · simpa [setupPageMapLoop, zero] using Grows.refl owner use s
        · exact fun _ nonzero => absurd zero nonzero
      · rcases setupEntry_sound isImage upper sound writable addr owned isTable isUpper zero with
          ⟨use₁, s₁, remain, e, round, owned₁, grows₁, populated₁⟩
        by_cases more : e = .success ∧ addr.part level ≠ 511
        · rcases more with ⟨rfl, notLast⟩
          set addr' := (addr.setPart level (addr.part level + 1)).clearBelow level with addr'Eq
          have continues : setupPageMapLoop descend level writable table (fuel + 1) s addr
              num4kpages = setupPageMapLoop descend level writable table fuel s₁ addr' remain := by
            simp [setupPageMapLoop, zero, round, notLast, ← addr'Eq]
          simp only [continues]
          have isUpper' : level = 4 → addr'.Upper := by
            rintro rfl
            have part : addr'.part 4 = addr.part 4 + 1 := by
              rw [addr'Eq, LinearAddress4Level.part_clearBelow _ _ _ le_rfl le_rfl,
                LinearAddress4Level.part_setPart _ _ _ _ (by decide) le_rfl, if_pos rfl]
            have before : 256 ≤ (addr.part 4).val := isUpper rfl
            change 256 ≤ (addr'.part 4).val
            have last : (addr.part 4).val ≠ 511 := fun same => notLast (Fin.ext same)
            rw [part, Fin.val_add]
            have := (addr.part 4).isLt
            change 256 ≤ ((addr.part 4).val + 1) % 512
            omega
          cases fuel with
          | zero => exact ⟨use₁, owned₁, grows₁, fun _ _ => populated₁ rfl⟩
          | succ fuel =>
              by_cases done : remain = 0
              · have ends : setupPageMapLoop descend level writable table (fuel + 1) s₁ addr'
                    remain = (s₁, remain, .success) := by
                  rw [setupPageMapLoop, if_pos done]
                simp only [ends]
                exact ⟨use₁, owned₁, grows₁, fun _ _ => populated₁ rfl⟩
              · rcases ih (Nat.succ_pos fuel) use₁ s₁ table addr' remain owned₁
                  (grows₁.extends_use _ _ isTable) isUpper' with
                  ⟨use₂, owned₂, grows₂, populated₂⟩
                refine ⟨use₂, owned₂, grows₁.trans grows₂, ?_⟩
                intro success _ before
                apply populated₂ success done
                intro f l found notRoot _
                exact populated₁ rfl before f l found notRoot
        · have stops : setupPageMapLoop descend level writable table (fuel + 1) s addr num4kpages =
              (s₁, remain, e) := by
            simp only [setupPageMapLoop, if_neg zero, round]
            by_cases success : e = .success
            · subst success
              have last : addr.part level = 511 := by simpa using more
              simp [last]
            · cases e <;> first | rfl | exact absurd rfl success
          simp only [stops]
          exact ⟨use₁, owned₁, grows₁, fun success _ => populated₁ success⟩

/-- `SetupPageMap` on the tables of an image. -/
theorem setupPageMap_sound (isImage : image owner) (writable : Bool) (level : Nat)
    (lower : 1 ≤ level) (upper : level ≤ 4) :
    Sound image owner level (setupPageMap writable level) := by
  induction level with
  | zero => exact absurd lower (by decide)
  | succ level ih =>
      intro use s table addr num4kpages
      have enough : 0 < 512 - (addr.part (level + 1)).val := by
        have := (addr.part (level + 1)).isLt
        omega
      apply setupPageMapLoop_sound isImage upper _ writable _ enough
      intro inner
      exact ih (by omega) (by omega)

end Setup

end Mikanos.Paging
