import Mikanos.Fat.Creation
import Mikanos.Fat.WriteRun

/-!
# Chains and the entries that head them

A chain belongs to the root directory or to an entry that is held: one in use, or one that
somebody still refers to.  When one file is written, or one entry is taken in a directory,
one chain grows by free clusters and one entry changes.  If neither makes that entry a
directory, the directories stay the same, and different chains stay apart.
-/

namespace Mikanos.Fat

open Mikanos.Memory Mikanos.Chain

namespace Volume

variable {v v' : Volume} {held held' : Nat → Prop} {d e first c : Nat} {o : Option Nat}
  {l m new : List Nat}

/-- An entry in use in some directory. -/
def Entry (v : Volume) (e : Nat) : Prop :=
  ∃ d l, v.Directory d ∧ v.Chain d l ∧ v.Live l e

/-- An entry of some directory, in use or not. -/
def InDirectory (v : Volume) (e : Nat) : Prop :=
  ∃ d l, v.Directory d ∧ v.Chain d l ∧ e ∈ v.slots l

theorem Entry.inDirectory (isEntry : v.Entry e) : v.InDirectory e := by
  rcases isEntry with ⟨d, l, isDirectory, chain, live⟩
  exact ⟨d, l, isDirectory, chain, live.member⟩

/-- The clusters where chains begin, with what they belong to. -/
inductive Heads (v : Volume) (held : Nat → Prop) : Option Nat → Nat → Prop
  | root : Heads v held none v.bpb.rootCluster
  | entry {e : Nat} : held e → v.firstCluster e ≠ 0 → Heads v held (some e) (v.firstCluster e)

theorem Heads.unique {c' : Nat} (heads : v.Heads held o c) (heads' : v.Heads held o c') : c = c' := by
  cases heads <;> cases heads' <;> rfl

/-- The root directory and every entry that is held have chains of their own. -/
structure Kept (v : Volume) (held : Nat → Prop) : Prop where
  valid : v.bpb.Valid
  place : ∀ {e}, held e → v.InDirectory e
  directory : ∀ {e}, v.Entry e → v.IsDirectory e → held e ∧ v.firstCluster e ≠ 0
  chain : ∀ {o c}, v.Heads held o c → ∃ l, v.Chain c l
  apart : ∀ {o o' c c' l l'}, v.Heads held o c → v.Heads held o' c' → o ≠ o' → v.Chain c l →
    v.Chain c' l' → ∀ x ∈ l, x ∉ l'

/-- A directory belongs to an entry that is one, unless it is the root directory. -/
theorem Kept.heads (kept : v.Kept held) (isDirectory : v.Directory d) :
    ∃ o, v.Heads held o d ∧ ∀ x, o = some x → v.Entry x ∧ v.IsDirectory x := by
  cases isDirectory with
  | root => exact ⟨none, .root, by simp⟩
  | @sub d x l isDirectory chain live sub =>
      have isEntry : v.Entry x := ⟨d, l, isDirectory, chain, live⟩
      rcases kept.directory isEntry sub with ⟨isHeld, nonzero⟩
      refine ⟨some x, .entry isHeld nonzero, ?_⟩
      rintro y ⟨⟩
      exact ⟨isEntry, sub⟩

theorem Kept.chain_directory (kept : v.Kept held) (isDirectory : v.Directory d) :
    ∃ m, v.Chain d m := by
  rcases kept.heads isDirectory with ⟨o, heads, -⟩
  exact kept.chain heads

/-! ## One chain grows, and one entry changes -/

/-- What grows: the chain of the entry, or the directory the entry is in. -/
inductive Growth (v v' : Volume) (held : Nat → Prop) (e : Nat) :
    Option Nat → Nat → List Nat → List Nat → Prop
  | file {first : Nat} {l new : List Nat} : held e → v.OwnChain e l → v'.firstCluster e = first →
      Growth v v' held e (some e) first l new
  | directory {o : Option Nat} {d : Nat} {l new : List Nat} : v.Directory d → v.Heads held o d →
      o ≠ some e → v.Chain d l → v'.firstCluster e = 0 →
      (∀ x ∈ v.slots new, x ≠ e → v'.mem x = 0) → Growth v v' held e o d l new

/-- The chain `l` of `o` grows by `new`; of the entries only `e` changes, which is not a
directory before and after. -/
structure Evolves (v v' : Volume) (held : Nat → Prop) (e : Nat) (o : Option Nat) (first : Nat)
    (l new : List Nat) : Prop where
  bpb : v'.bpb = v.bpb
  growth : Growth v v' held e o first l new
  wereFree : ∀ c ∈ new, c ∈ v.free
  chain : v'.Chain first (l ++ new)
  fat : ∀ x, v.bpb.HasCluster x → x ∉ l → x ∉ new → v'.fat x = v.fat x
  slots : ∀ {x}, v.InDirectory x → x ≠ e → ∀ k < directoryEntrySize, v'.mem (x + k) = v.mem (x + k)
  notBefore : v.Entry e → ¬ v.IsDirectory e
  notAfter : ¬ v'.IsDirectory e

namespace Evolves

variable (evolves : Evolves v v' held e o first l new)

include evolves

theorem attr_same {x : Nat} (place : v.InDirectory x) (ne : x ≠ e) : v'.attr x = v.attr x :=
  evolves.slots place ne 11 (by decide)

theorem firstCluster_same {x : Nat} (place : v.InDirectory x) (ne : x ≠ e) :
    v'.firstCluster x = v.firstCluster x :=
  firstCluster_congr (evolves.slots place ne)

theorem isDirectory_iff {x : Nat} (place : v.InDirectory x) (ne : x ≠ e) :
    v'.IsDirectory x ↔ v.IsDirectory x := by
  rw [IsDirectory, evolves.attr_same place ne, IsDirectory]

variable (kept : v.Kept held)

include kept

/-- The chains of others do not meet the one that grows. -/
theorem apart {o' : Option Nat} (heads : v.Heads held o' c) (other : o' ≠ o) (chain : v.Chain c m) :
    ∀ x ∈ m, x ∉ l := by
  cases evolves.growth with
  | file isHeld own _ =>
      rcases own with ⟨-, rfl⟩ | ownChain
      · simp
      · exact kept.apart heads (.entry isHeld (ne_zero_of_has ownChain.has_first)) other chain ownChain
  | directory _ owner _ old _ _ => exact kept.apart heads owner other chain old

theorem keeps {o' : Option Nat} (heads : v.Heads held o' c) (other : o' ≠ o) (chain : v.Chain c m) :
    v'.Chain c m := by
  have apart := evolves.apart kept heads other chain
  apply chain.congr evolves.bpb
  intro x member
  apply evolves.fat x (chain.inside x member) (apart x member)
  exact fun inNew => chain.not_mem_of_free (evolves.wereFree x inNew) member

/-- A directory keeps its entries; if it grows, the new ones are not in use. -/
theorem directory_chain (isDirectory : v.Directory d) (chain : v.Chain d m) :
    ∃ m', v'.Chain d m' ∧ (∀ x ∈ v.slots m, x ∈ v.slots m') ∧
      ∀ x ∈ v.slots m', x ≠ e → v'.mem x ≠ 0 → x ∈ v.slots m := by
  have unchanged {o' : Option Nat} (heads : v.Heads held o' d) (other : o' ≠ o) :
      ∃ m', v'.Chain d m' ∧ (∀ x ∈ v.slots m, x ∈ v.slots m') ∧
        ∀ x ∈ v.slots m', x ≠ e → v'.mem x ≠ 0 → x ∈ v.slots m :=
    ⟨m, evolves.keeps kept heads other chain, fun _ member => member, fun _ member _ _ => member⟩
  rcases kept.heads isDirectory with ⟨o', heads, isDirectory'⟩
  cases evolves.growth with
  | file _ _ _ =>
      apply unchanged heads
      intro same
      rcases isDirectory' e same with ⟨isEntry, sub⟩
      exact evolves.notBefore isEntry sub
  | directory _ owner _ old _ zero =>
      by_cases same : o' = o
      · obtain rfl := heads.unique (same ▸ owner)
        obtain rfl := chain.unique old
        refine ⟨m ++ new, evolves.chain, ?_, ?_⟩
        · intro x member
          rw [slots_append]
          exact List.mem_append_left _ member
        · intro x member ne used
          rw [slots_append] at member
          exact (List.mem_append.mp member).resolve_right fun inNew => used (zero x inNew ne)
      · exact unchanged heads same

theorem live_iff (isDirectory : v.Directory d) (chain : v.Chain d m) {m' : List Nat}
    (chain' : v'.Chain d m') {x : Nat} (ne : x ≠ e) : v'.Live m' x ↔ v.Live m x := by
  rcases evolves.directory_chain kept isDirectory chain with ⟨m'', grown, sub, back⟩
  rw [chain'.unique grown]
  have slots : v'.slots m'' = v.slots m'' := slots_congr evolves.bpb m''
  have same (member : x ∈ v.slots m) : v'.mem x = v.mem x :=
    evolves.slots ⟨d, m, isDirectory, chain, member⟩ ne 0 (by decide)
  constructor
  · intro live
    have member := back x (slots ▸ live.member) ne live.used
    exact ⟨member, same member ▸ live.used, same member ▸ live.notDeleted, same member ▸ live.notDot⟩
  · intro live
    have equal := (same live.member).symm
    exact ⟨slots.symm ▸ sub x live.member, equal ▸ live.used, equal ▸ live.notDeleted,
      equal ▸ live.notDot⟩

theorem directory_iff (d : Nat) : v'.Directory d ↔ v.Directory d := by
  constructor
  · intro isDirectory'
    induction isDirectory' with
    | root =>
        rw [evolves.bpb]
        exact .root
    | @sub d x m' _ chain' live' sub ih =>
        have ne : x ≠ e := fun same => evolves.notAfter (same ▸ sub)
        rcases kept.chain_directory ih with ⟨m, chain⟩
        have live := (evolves.live_iff kept ih chain chain' ne).mp live'
        have place : v.InDirectory x := ⟨d, m, ih, chain, live.member⟩
        rw [evolves.firstCluster_same place ne]
        exact .sub ih chain live ((evolves.isDirectory_iff place ne).mp sub)
  · intro isDirectory
    induction isDirectory with
    | root =>
        rw [← evolves.bpb]
        exact .root
    | @sub d x m isDirectory chain live sub ih =>
        have ne : x ≠ e := fun same =>
          evolves.notBefore ⟨d, m, isDirectory, chain, same ▸ live⟩ (same ▸ sub)
        rcases evolves.directory_chain kept isDirectory chain with ⟨m', chain', -, -⟩
        have place : v.InDirectory x := ⟨d, m, isDirectory, chain, live.member⟩
        rw [← evolves.firstCluster_same place ne]
        exact .sub ih chain' ((evolves.live_iff kept isDirectory chain chain' ne).mpr live)
          ((evolves.isDirectory_iff place ne).mpr sub)

theorem entry_iff {x : Nat} (ne : x ≠ e) : v'.Entry x ↔ v.Entry x := by
  constructor
  · rintro ⟨d, m', isDirectory', chain', live'⟩
    have isDirectory := (evolves.directory_iff kept d).mp isDirectory'
    rcases kept.chain_directory isDirectory with ⟨m, chain⟩
    exact ⟨d, m, isDirectory, chain, (evolves.live_iff kept isDirectory chain chain' ne).mp live'⟩
  · rintro ⟨d, m, isDirectory, chain, live⟩
    rcases evolves.directory_chain kept isDirectory chain with ⟨m', chain', -, -⟩
    exact ⟨d, m', (evolves.directory_iff kept d).mpr isDirectory, chain',
      (evolves.live_iff kept isDirectory chain chain' ne).mpr live⟩

theorem inDirectory {x : Nat} (place : v.InDirectory x) : v'.InDirectory x := by
  rcases place with ⟨d, m, isDirectory, chain, member⟩
  rcases evolves.directory_chain kept isDirectory chain with ⟨m', chain', sub, -⟩
  exact ⟨d, m', (evolves.directory_iff kept d).mpr isDirectory, chain',
    slots_congr evolves.bpb m' ▸ sub x member⟩

variable (others : ∀ x, x ≠ e → (held' x ↔ held x))

include others

/-- What heads chains afterwards: what grew, and what did before. -/
theorem heads_cases {o' : Option Nat} (heads' : v'.Heads held' o' c) :
    o' = o ∧ c = first ∨ o' ≠ o ∧ v.Heads held o' c := by
  have old {o₁ : Option Nat} {c₁ : Nat} (heads : v.Heads held o₁ c₁) (notEntry : o₁ ≠ some e) :
      o₁ = o ∧ c₁ = first ∨ o₁ ≠ o ∧ v.Heads held o₁ c₁ := by
    by_cases same : o₁ = o
    · cases evolves.growth with
      | file _ _ _ => exact absurd same notEntry
      | directory _ owner _ _ _ _ =>
          exact .inl ⟨same, heads.unique (same ▸ owner)⟩
    · exact .inr ⟨same, heads⟩
  cases heads' with
  | root =>
      rw [evolves.bpb]
      exact old .root (by simp)
  | @entry x isHeld' nonzero =>
      by_cases isNew : x = e
      · subst isNew
        cases evolves.growth with
        | file _ _ firstEq => exact .inl ⟨rfl, firstEq⟩
        | directory _ _ _ _ zero _ => exact absurd zero nonzero
      · have isHeld := (others x isNew).mp isHeld'
        rw [evolves.firstCluster_same (kept.place isHeld) isNew] at nonzero ⊢
        exact old (.entry isHeld nonzero) fun same => isNew (Option.some.inj same)

/-- Different chains stay apart. -/
theorem kept_after (place : held' e → v'.InDirectory e) : v'.Kept held' where
  valid := evolves.bpb.symm ▸ kept.valid
  place := by
    intro x isHeld'
    by_cases isNew : x = e
    · exact isNew ▸ place (isNew ▸ isHeld')
    · exact evolves.inDirectory kept (kept.place ((others x isNew).mp isHeld'))
  directory := by
    intro x isEntry' sub'
    have ne : x ≠ e := fun same => evolves.notAfter (same ▸ sub')
    have isEntry := (evolves.entry_iff kept ne).mp isEntry'
    rcases kept.directory isEntry ((evolves.isDirectory_iff isEntry.inDirectory ne).mp sub') with
      ⟨isHeld, nonzero⟩
    rw [evolves.firstCluster_same isEntry.inDirectory ne]
    exact ⟨(others x ne).mpr isHeld, nonzero⟩
  chain := by
    intro o' c heads'
    rcases evolves.heads_cases kept others heads' with ⟨-, rfl⟩ | ⟨other, heads⟩
    · exact ⟨_, evolves.chain⟩
    · rcases kept.chain heads with ⟨m, chain⟩
      exact ⟨m, evolves.keeps kept heads other chain⟩
  apart := by
    -- the chain of another owner does not meet the one that has grown
    have fromGrown {o' : Option Nat} {c : Nat} {m k : List Nat} (heads : v.Heads held o' c)
        (other : o' ≠ o) (chain' : v'.Chain c m) (grown : v'.Chain first k) : ∀ x ∈ m, x ∉ k := by
      rcases kept.chain heads with ⟨m', chain⟩
      rw [chain'.unique (evolves.keeps kept heads other chain), grown.unique evolves.chain]
      intro x member inGrown
      rcases List.mem_append.mp inGrown with inOld | inNew
      · exact evolves.apart kept heads other chain x member inOld
      · exact chain.not_mem_of_free (evolves.wereFree x inNew) member
    intro o₁ o₂ c₁ c₂ m₁ m₂ heads₁ heads₂ ne chain₁ chain₂
    rcases evolves.heads_cases kept others heads₁ with ⟨isGrown₁, rfl⟩ | ⟨other₁, old₁⟩
    · rcases evolves.heads_cases kept others heads₂ with ⟨isGrown₂, -⟩ | ⟨other₂, old₂⟩
      · exact absurd (isGrown₁.trans isGrown₂.symm) ne
      · exact fun x member member' => fromGrown old₂ other₂ chain₂ chain₁ x member' member
    · rcases evolves.heads_cases kept others heads₂ with ⟨-, rfl⟩ | ⟨other₂, old₂⟩
      · exact fromGrown old₁ other₁ chain₁ chain₂
      · rcases kept.chain old₁ with ⟨k₁, before₁⟩
        rcases kept.chain old₂ with ⟨k₂, before₂⟩
        rw [chain₁.unique (evolves.keeps kept old₁ other₁ before₁),
          chain₂.unique (evolves.keeps kept old₂ other₂ before₂)]
        exact kept.apart old₁ old₂ ne before₁ before₂

end Evolves

/-! ## Writing a file -/

section Write

variable {i : Nat} (kept : v.Kept held) (isHeld : held e) (file : ¬ v.IsDirectory e)
  (own : v.OwnChain e l) (wrote : Wrote v v' e first l new i)

include kept isHeld file own

/-- The chain of a directory does not meet that of the file. -/
theorem Directory.apart (isDirectory : v.Directory d) (chain : v.Chain d m) : ∀ x ∈ m, x ∉ l := by
  rcases own with ⟨-, rfl⟩ | ownChain
  · simp
  · rcases kept.heads isDirectory with ⟨o, heads, isDirectory'⟩
    refine kept.apart heads (.entry isHeld (ne_zero_of_has ownChain.has_first)) ?_ chain ownChain
    exact fun same => file (isDirectory' e same).2

/-- The entry of a file lies in no chain of a file, and in no free cluster. -/
theorem Kept.away : v.Away e l := by
  rcases kept.place isHeld with ⟨d, m, isDirectory, chain, member⟩
  exact away_of_mem_slots kept.valid chain member
    (isDirectory.apart kept isHeld file own chain)

include wrote

/-- The entries of directories, but for what is assigned in the file's own. -/
theorem InDirectory.slot_same {x k : Nat} (place : v.InDirectory x) (inside : k < directoryEntrySize)
    (other : x ≠ e ∨ k < 20) : v'.mem (x + k) = v.mem (x + k) := by
  rcases place with ⟨d, m, isDirectory, chain, member⟩
  rcases mem_slots.mp member with ⟨y, inChain, inCluster⟩
  have has := chain.inside y inChain
  have here := inCluster_of_mem_clusterSlots inCluster inside
  apply wrote.data (x + k) (dataOffset_le_of_inCluster kept.valid has here)
  · rcases kept.place isHeld with ⟨d', m', -, chain', member'⟩
    rcases mem_slots.mp member' with ⟨y', inChain', inCluster'⟩
    by_cases same : x = e
    · rw [same, Assigned, directoryEntrySize]
      have := other.resolve_left (not_not_intro same)
      omega
    · have apart := clusterSlots_disjoint kept.valid has (chain'.inside y' inChain') inCluster
        inCluster' same
      rw [Assigned, directoryEntrySize] at *
      omega
  · intro z inFile inside'
    have hasZ : v.bpb.HasCluster z := wrote.bpb ▸ wrote.chain.inside z (List.mem_of_mem_drop inFile)
    obtain rfl := eq_of_inCluster kept.valid has hasZ here inside'
    rcases List.mem_append.mp (List.mem_of_mem_drop inFile) with inOld | inNew
    · exact isDirectory.apart kept isHeld file own chain y inChain inOld
    · exact chain.not_mem_of_free (wrote.isFree y inNew) inChain

theorem evolves_of_wrote : Evolves v v' held e (some e) first l new where
  bpb := wrote.bpb
  growth := .file isHeld own wrote.firstCluster
  wereFree := wrote.isFree
  chain := wrote.chain
  fat := fun x has outside notNew =>
    wrote.fat x has (fun isLast => outside (List.mem_of_getLast? isLast)) notNew
  slots := fun place ne k inside =>
    place.slot_same kept isHeld file own wrote inside (.inl ne)
  notBefore := fun _ => file
  notAfter := by
    have same := (kept.place isHeld).slot_same kept isHeld file own wrote (k := 11) (by decide)
      (.inr (by decide))
    rw [IsDirectory, attr, same]
    exact file

end Write

/-! ## Taking an entry -/

/-- An entry that is taken heads no chain and is not a directory. -/
theorem evolves_of_created {dir : Nat} {filename : List UInt8} (kept : v.Kept held)
    (isDirectory : v.Directory d) (heads : v.Heads held o d) (other : o ≠ some dir)
    (created : Created v v' d l new dir filename) (noChain : v'.firstCluster dir = 0)
    (notAfter : ¬ v'.IsDirectory dir) : Evolves v v' held dir o d l new where
  bpb := created.bpb
  growth := by
    refine .directory isDirectory heads other created.old noChain ?_
    intro x inNew ne
    rcases created.split kept.valid with ⟨before, after, split, inBefore, -, rest⟩
    rcases rest with ⟨rfl, -⟩ | ⟨rfl, zero⟩
    · cases inNew
    · rw [slots_append] at split
      rw [List.append_cancel_left split, List.mem_cons] at inNew
      exact zero x (inNew.resolve_left ne)
  wereFree := created.isFree
  chain := created.chain
  fat := created.fat
  slots := by
    rintro x ⟨d', m, -, chain, member⟩ ne k inside
    rcases mem_slots.mp member with ⟨y, inChain, inCluster⟩
    exact created.entry_same kept.valid (chain.inside y inChain)
      (fun inNew => chain.not_mem_of_free (created.isFree y inNew) inChain) inCluster ne inside
  notBefore := by
    rintro ⟨d', m, -, chain, live⟩
    exact absurd live (created.notLive kept.valid chain)
  notAfter := notAfter

end Volume

end Mikanos.Fat
