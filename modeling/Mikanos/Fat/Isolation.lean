import Mikanos.Fat.Heads

/-!
# Writing one file leaves the others alone

On a volume where every entry in use heads a chain of its own, calls of `Write` on a
descriptor of one file keep the entries, the chains and the data of all others.
-/

namespace Mikanos.Fat

open Mikanos.Memory Mikanos.Chain

namespace Volume

variable {v v' v'' : Volume} {e first i i' c : Nat} {l m new : List Nat} {o o' : Option Nat}

/-! ## Owners of chains -/

/-- What the chain that begins with a cluster belongs to: the root directory, or the file
or directory with an entry. -/
inductive Owner (v : Volume) : Option Nat → Nat → Prop
  | root : Owner v none v.bpb.rootCluster
  | entry {e : Nat} : v.Entry e → v.firstCluster e ≠ 0 → Owner v (some e) (v.firstCluster e)

/-- Every entry in use heads a chain of its own, unless it is an empty file. -/
structure Sound (v : Volume) : Prop where
  valid : v.bpb.Valid
  chain : ∀ {o c}, v.Owner o c → ∃ l, v.Chain c l
  apart : ∀ {o o' c c' l l'}, v.Owner o c → v.Owner o' c' → o ≠ o' → v.Chain c l → v.Chain c' l' →
    ∀ x ∈ l, x ∉ l'
  directory : ∀ {e}, v.Entry e → v.IsDirectory e → v.firstCluster e ≠ 0

/-! ## What is left alone -/

/-- What does not change when the file with the entry `e` and the chain `l` is written. -/
structure Isolated (v v' : Volume) (e : Nat) (l : List Nat) : Prop where
  sound : v'.Sound
  entry : ∀ x, v'.Entry x ↔ v.Entry x
  fields : ∀ x, v.Entry x → x ≠ e → ∀ k < directoryEntrySize, v'.mem (x + k) = v.mem (x + k)
  chain : ∀ {o c m}, v.Owner o c → o ≠ some e → v.Chain c m → v'.Chain c m
  content : ∀ {o c m}, v.Owner o c → o ≠ some e → v.Chain c m → ∀ x ∈ m, ∀ a, v.InCluster x a →
    ¬ Assigned e a → v'.mem a = v.mem a
  fat : ∀ x, v.bpb.HasCluster x → v'.fat x ≠ v.fat x → l.getLast? = some x ∨ v.fat x = 0

theorem owner_iff : v.Owner o c ↔ v.Heads v.Entry o c := by
  constructor
  · rintro (_ | ⟨isEntry, nonzero⟩)
    · exact .root
    · exact .entry isEntry nonzero
  · rintro (_ | ⟨isEntry, nonzero⟩)
    · exact .root
    · exact .entry isEntry nonzero

/-- On a sound volume the entries in use are held, and no others. -/
theorem sound_iff : v.Sound ↔ v.Kept v.Entry := by
  constructor
  · intro sound
    constructor
    · exact sound.valid
    · exact fun isEntry => isEntry.inDirectory
    · exact fun isEntry sub => ⟨isEntry, sound.directory isEntry sub⟩
    · exact fun heads => sound.chain (owner_iff.mpr heads)
    · exact fun heads heads' => sound.apart (owner_iff.mpr heads) (owner_iff.mpr heads')
  · intro kept
    constructor
    · exact kept.valid
    · exact fun owner => kept.chain (owner_iff.mp owner)
    · exact fun owner owner' => kept.apart (owner_iff.mp owner) (owner_iff.mp owner')
    · exact fun isEntry sub => (kept.directory isEntry sub).2

section Write

variable (sound : v.Sound) (isEntry : v.Entry e) (file : ¬ v.IsDirectory e)
  (own : v.OwnChain e l) (wrote : Wrote v v' e first l new i)

include sound isEntry file own wrote

theorem Sound.evolves : Evolves v v' v.Entry e (some e) first l new :=
  evolves_of_wrote (sound_iff.mp sound) isEntry file own wrote

theorem Owner.keeps_data (owner : v.Owner o c) (other : o ≠ some e) (chain : v.Chain c m)
    {x a : Nat} (member : x ∈ m) (inside : v.InCluster x a) (notAssigned : ¬ Assigned e a) :
    v'.mem a = v.mem a := by
  have has := chain.inside x member
  have apart := (sound.evolves isEntry file own wrote).apart (sound_iff.mp sound)
    (owner_iff.mp owner) other chain
  apply wrote.data a (dataOffset_le_of_inCluster sound.valid has inside) notAssigned
  intro y inFile inside'
  have hasY : v.bpb.HasCluster y := wrote.bpb ▸ wrote.chain.inside y (List.mem_of_mem_drop inFile)
  have same := eq_of_inCluster sound.valid has hasY inside inside'
  subst same
  rcases List.mem_append.mp (List.mem_of_mem_drop inFile) with inOld | inNew
  · exact apart x member inOld
  · exact chain.not_mem_of_free (wrote.isFree x inNew) member

/-- The same entries are in use. -/
theorem entry_iff (x : Nat) : v'.Entry x ↔ v.Entry x := by
  have evolves := sound.evolves isEntry file own wrote
  have kept := sound_iff.mp sound
  by_cases same : x = e
  · subst same
    refine iff_of_true ?_ isEntry
    rcases isEntry with ⟨d, m, isDirectory, chain, live⟩
    rcases evolves.directory_chain kept isDirectory chain with ⟨m', chain', sub, -⟩
    have first : v'.mem x = v.mem x :=
      InDirectory.slot_same kept ⟨d, m, isDirectory, chain, live⟩ file own wrote
        ⟨d, m, isDirectory, chain, live.member⟩ (k := 0) (by decide) (.inr (by decide))
    refine ⟨d, m', (evolves.directory_iff kept d).mpr isDirectory, chain', ?_⟩
    exact ⟨slots_congr evolves.bpb m' ▸ sub x live.member, first ▸ live.used,
      first ▸ live.notDeleted, first ▸ live.notDot⟩
  · exact evolves.entry_iff kept same

theorem sound_of_wrote : v'.Sound := by
  have evolves := sound.evolves isEntry file own wrote
  have kept := sound_iff.mp sound
  have entries := entry_iff sound isEntry file own wrote
  exact sound_iff.mpr (evolves.kept_after kept (fun x _ => entries x) fun isEntry' =>
    isEntry'.inDirectory)

theorem isolated_of_wrote : Isolated v v' e l where
  sound := sound_of_wrote sound isEntry file own wrote
  entry := entry_iff sound isEntry file own wrote
  fields := fun _ isOther ne => (sound.evolves isEntry file own wrote).slots isOther.inDirectory ne
  chain := fun owner other chain =>
    (sound.evolves isEntry file own wrote).keeps (sound_iff.mp sound) (owner_iff.mp owner) other chain
  content := fun owner other chain _ member _ inside notAssigned =>
    owner.keeps_data sound isEntry file own wrote other chain member inside notAssigned
  fat := by
    intro x has changed
    by_cases isLast : l.getLast? = some x
    · exact .inl isLast
    · right
      by_cases inNew : x ∈ new
      · exact (mem_free.mp (wrote.isFree x inNew)).2
      · exact absurd (wrote.fat x has isLast inNew) changed

end Write

/-! ## Calls of `Write` -/

theorem Sound.isolated_refl (sound : v.Sound) (e : Nat) (l : List Nat) : Isolated v v e l where
  sound := sound
  entry := fun _ => Iff.rfl
  fields := fun _ _ _ _ _ => rfl
  chain := fun _ _ chain => chain
  content := fun _ _ _ _ _ _ _ _ => rfl
  fat := fun _ _ changed => absurd rfl changed

/-- The entry of the file `B`. -/
def entryB : Nat := smallBpb.getClusterAddr 3

theorem chain_withFile {d : Nat} (isDirectory : d = 2 ∨ d = 3) : smallVolumeWithFile.Chain d [d] := by
  rcases isDirectory with rfl | rfl
  · exact .single (by decide) (by decide)
  · exact .single (by decide) (by decide)

theorem live_withFile {d x : Nat} (isDirectory : d = 2 ∨ d = 3) (chain : smallVolumeWithFile.Chain d l)
    (live : smallVolumeWithFile.Live l x) :
    d = 2 ∧ x = smallBpb.getClusterAddr 2 ∨ d = 3 ∧ x = entryB := by
  have member := live.member
  rw [chain.unique (chain_withFile isDirectory)] at member
  rcases isDirectory with rfl | rfl
  · have only : ∀ x ∈ smallVolumeWithFile.slots [2],
        x = smallBpb.getClusterAddr 2 ∨ smallVolumeWithFile.mem x = 0 := by
      decide
    exact .inl ⟨rfl, (only x member).resolve_right live.used⟩
  · have only : ∀ x ∈ smallVolumeWithFile.slots [3], x = entryB ∨ smallVolumeWithFile.mem x = 0 := by
      decide
    exact .inr ⟨rfl, (only x member).resolve_right live.used⟩

theorem directory_withFile {d : Nat} (isDirectory : smallVolumeWithFile.Directory d) :
    d = 2 ∨ d = 3 := by
  induction isDirectory with
  | root => exact .inl rfl
  | sub _ chain live sub ih =>
      rcases live_withFile ih chain live with ⟨-, rfl⟩ | ⟨-, rfl⟩
      · exact .inr (by decide)
      · exact absurd (by decide) sub

theorem entry_withFile {x : Nat} (isEntry : smallVolumeWithFile.Entry x) :
    x = smallBpb.getClusterAddr 2 ∨ x = entryB := by
  rcases isEntry with ⟨d, m, isDirectory, chain, live⟩
  rcases live_withFile (directory_withFile isDirectory) chain live with ⟨-, same⟩ | ⟨-, same⟩
  · exact .inl same
  · exact .inr same

theorem owner_withFile (owner : smallVolumeWithFile.Owner o c) :
    o = none ∧ c = 2 ∨ o = some (smallBpb.getClusterAddr 2) ∧ c = 3 := by
  cases owner with
  | root => exact .inl ⟨rfl, rfl⟩
  | entry isEntry nonzero =>
      rcases entry_withFile isEntry with rfl | rfl
      · exact .inr ⟨rfl, by decide⟩
      · exact absurd (by decide) nonzero

theorem sound_withFile : smallVolumeWithFile.Sound where
  valid := valid_smallBpb
  chain := by
    intro o c owner
    rcases owner_withFile owner with ⟨-, rfl⟩ | ⟨-, rfl⟩
    · exact ⟨_, chain_withFile (.inl rfl)⟩
    · exact ⟨_, chain_withFile (.inr rfl)⟩
  apart := by
    intro o o' c c' m m' owner owner' ne chain chain' x member member'
    rcases owner_withFile owner with ⟨rfl, rfl⟩ | ⟨rfl, rfl⟩ <;>
      rcases owner_withFile owner' with ⟨rfl, rfl⟩ | ⟨rfl, rfl⟩
    · exact ne rfl
    · rw [chain.unique (chain_withFile (.inl rfl)), List.mem_singleton] at member
      rw [chain'.unique (chain_withFile (.inr rfl)), List.mem_singleton] at member'
      omega
    · rw [chain.unique (chain_withFile (.inr rfl)), List.mem_singleton] at member
      rw [chain'.unique (chain_withFile (.inl rfl)), List.mem_singleton] at member'
      omega
    · exact ne rfl
  directory := by
    intro x isEntry sub
    rcases entry_withFile isEntry with rfl | rfl
    · decide
    · exact absurd (by decide) sub

/-- `A` is a directory in the root directory, and `B` a file in `A`. -/
theorem entryB_withFile :
    smallVolumeWithFile.Owner (some (smallBpb.getClusterAddr 2)) 3 ∧
      smallVolumeWithFile.Entry entryB ∧ ¬ smallVolumeWithFile.IsDirectory entryB := by
  have live : smallVolumeWithFile.Live [2] (smallBpb.getClusterAddr 2) := by
    constructor <;> decide
  have isDirectory : smallVolumeWithFile.IsDirectory (smallBpb.getClusterAddr 2) :=
    isDirectory_of_attr (by decide)
  have target : smallVolumeWithFile.firstCluster (smallBpb.getClusterAddr 2) = 3 := by decide
  have sub := Directory.sub .root (chain_withFile (.inl rfl)) live isDirectory
  have owner := Owner.entry ⟨_, _, .root, chain_withFile (.inl rfl), live⟩ (by rw [target]; decide)
  rw [target] at sub owner
  have liveB : smallVolumeWithFile.Live [3] entryB := by
    constructor <;> decide
  exact ⟨owner, ⟨3, [3], sub, chain_withFile (.inr rfl), liveB⟩, fun sub => absurd (by decide) sub⟩

theorem opened_withFile : Opened smallVolumeWithFile (.make entryB) [] 0 :=
  .empty rfl rfl (by decide)

/-- A call that writes one byte to `B`. -/
def oneByte : List (Mem × Nat) := [(fun _ => 0x41, 1)]

/-- No byte of another file or directory changes. -/
def Undisturbed (v v' : Volume) (e : Nat) : Prop :=
  ∀ o c m, v.Owner o c → o ≠ some e → v.Chain c m → ∀ x ∈ m, ∀ a, v.InCluster x a → v'.mem a = v.mem a

end Volume

end Mikanos.Fat
