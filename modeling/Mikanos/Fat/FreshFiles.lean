import Mikanos.Fat.Heads
import Mikanos.Fat.Listing
import Mikanos.Transition.Run

/-!
# New files

`CreateFile` sets the name and the size of the entry that it takes, and nothing else.  An
entry that was deleted keeps its attributes and its first cluster, and the new file begins
with clusters that are free, or belong to another file.  As long as the entries taken are
clean, the chains of all files stay apart over every run of `CreateFile` and `Write`.
-/

namespace Mikanos.Fat

open Mikanos.Memory Mikanos.Chain Mikanos.Transition

/-- `Attribute::kVolumeID`. -/
def kVolumeID : UInt8 := 0x08

/-- The attributes of a file: it is no directory, no label and no part of a long name. -/
def IsOrdinary (attr : UInt8) : Prop :=
  attr &&& (kVolumeID ||| kDirectory) = 0

instance (attr : UInt8) : Decidable (IsOrdinary attr) :=
  inferInstanceAs (Decidable (_ = _))

namespace Volume

variable {v v' : Volume} {d e dir first i : Nat} {o : Option Nat} {l new : List Nat}
  {filename path : List UInt8} {fd : FileDescriptor} {held : Nat → Prop}

/-! ## The entry that is taken -/

/-- An entry of a file that owns nothing. -/
structure Fresh (v : Volume) (e : Nat) : Prop where
  noChain : v.firstCluster e = 0
  ordinary : IsOrdinary (v.attr e)

/-- If `AllocateEntry` finds a free entry in the directory, it is one that owns nothing. -/
def SlotClean (v : Volume) (d : Nat) : Prop :=
  ∀ slot, v.findSlot (v.bpb.clusters + 1) d = .ok (.inl slot) → v.Fresh slot

theorem Fresh.not_isDirectory (fresh : v.Fresh e) : ¬ v.IsDirectory e := by
  have part : kDirectory = (kVolumeID ||| kDirectory) &&& kDirectory := by decide
  rw [IsDirectory, not_not, part, ← UInt8.and_assoc, fresh.ordinary, UInt8.zero_and]

/-- The fields of an entry that `CreateFile` does not set. -/
theorem mem_fillEntry_kept (v : Volume) (dir : Nat) (filename : List UInt8) {k : Nat} (lower : 11 ≤ k)
    (upper : k < 28) : (v.fillEntry dir filename).mem (dir + k) = v.mem (dir + k) := by
  rw [fillEntry, setFileSize, setFileName]
  simp only [Mem.store]
  rw [Mem.copyTo_outside (by omega), Mem.copyTo_outside (by omega)]

theorem fresh_congr (same : ∀ k, 11 ≤ k → k < 28 → v'.mem (e + k) = v.mem (e + k)) :
    v'.Fresh e ↔ v.Fresh e := by
  have field (offset : Nat) (lower : 11 ≤ offset) (inside : offset + 2 ≤ 28) :
      v'.mem.load (e + offset) 2 = v.mem.load (e + offset) 2 := by
    apply Mem.load_congr
    intro k lt
    rw [Nat.add_assoc]
    exact same _ (by omega) (by omega)
  have cluster : v'.firstCluster e = v.firstCluster e := by
    rw [firstCluster, firstCluster, field 26 (by decide) (by decide), field 20 (by decide) (by decide)]
  have attrs : v'.attr e = v.attr e := same 11 (by decide) (by decide)
  constructor
  · exact fun fresh => ⟨cluster ▸ fresh.noChain, attrs ▸ fresh.ordinary⟩
  · exact fun fresh => ⟨cluster.symm ▸ fresh.noChain, attrs.symm ▸ fresh.ordinary⟩

theorem fresh_of_zero (zero : ∀ k, 11 ≤ k → k < 28 → v.mem (e + k) = 0) : v.Fresh e := by
  have blank (a n : Nat) : Mem.load (fun _ => 0) a n = 0 := by
    induction n generalizing a with
    | zero => rfl
    | succ n ih => rw [Mem.load, ih]; rfl
  have empty : (⟨v.bpb, fun _ => 0⟩ : Volume).Fresh e := by
    constructor
    · rw [firstCluster, blank, blank, Nat.zero_mul]
    · rw [attr, IsOrdinary, UInt8.zero_and]
  exact (fresh_congr zero).mpr empty

/-- What `CreateFile` has done in a directory: it has taken an entry as it was, or the first
one of a cluster of zeros. -/
theorem createFile_cases (valid : v.bpb.Valid) (chain : v.Chain d l)
    (parent : v.parentDirectory path = .ok (.ok (d, filename)))
    (success : v.createFile path = .ok (.ok dir, v')) :
    ∃ new, Created v v' d l new dir filename ∧
      (v.findSlot (v.bpb.clusters + 1) d = .ok (.inl dir) ∧ (v'.Fresh dir ↔ v.Fresh dir) ∨
        (∀ slot, v.findSlot (v.bpb.clusters + 1) d ≠ .ok (.inl slot)) ∧ ¬ v.InDirectory dir ∧
          v'.Fresh dir) := by
  rw [createFile, parent] at success
  simp only [bind, Except.bind] at success
  cases allocated : v.allocateEntry d with
  | error stop =>
      rw [allocated] at success
      cases success
  | ok result =>
      rcases result with ⟨dir', v₁⟩
      rw [allocated] at success
      cases success
      have changed : ∃ new, Created v (v₁.fillEntry dir' filename) d l new dir' filename :=
        created_of_allocateEntry valid chain allocated
      rcases changed with ⟨new, created⟩
      refine ⟨new, created, ?_⟩
      rw [findSlot_of_chain valid chain _ (chain.length_le.trans (Nat.le_succ _))]
      rcases allocateEntry_cases valid chain allocated with
        ⟨found, rfl⟩ | ⟨full, c, v₂, isFree, linked, rfl, rfl⟩
      · left
        rw [found]
        exact ⟨rfl, fresh_congr fun k lower upper => mem_fillEntry_kept _ _ filename lower upper⟩
      · right
        rw [full]
        refine ⟨by simp, ?_, ?_⟩
        · rintro ⟨d', m, -, chain', member⟩
          rcases mem_slots.mp member with ⟨y, inChain, inCluster⟩
          have here := inCluster_of_mem_clusterSlots inCluster (k := 0) (by decide)
          have start : v.InCluster c (v.bpb.getClusterAddr c + 0) := by
            have positive := valid.bytesPerCluster_pos
            rw [InCluster, bytesPerCluster]
            omega
          rw [eq_of_inCluster valid (chain'.inside y inChain) (mem_free.mp isFree).1 here start]
            at inChain
          exact chain'.not_mem_of_free isFree inChain
        · apply fresh_of_zero
          intro k lower upper
          rw [← fillEntry, mem_fillEntry_kept _ _ filename lower upper, mem_clearCluster, if_pos]
          have bytes : v₂.bytesPerCluster = v.bytesPerCluster :=
            congrArg BPB.bytesPerCluster linked.sameData.bpb
          have whole : directoryEntrySize ≤ v.bytesPerCluster :=
            Nat.le_of_dvd valid.bytesPerCluster_pos valid.entries_dvd
          rw [directoryEntrySize] at whole
          omega

theorem parent_of_createFile (success : v.createFile path = .ok (.ok dir, v')) :
    ∃ d filename, v.parentDirectory path = .ok (.ok (d, filename)) := by
  rw [createFile] at success
  cases parent : v.parentDirectory path with
  | error stop =>
      rw [parent] at success
      cases success
  | ok result =>
      rcases result with e | ⟨d, filename⟩
      · rw [parent] at success
        cases success
      · exact ⟨d, filename, rfl⟩

theorem volume_of_createFile_error {err : Error} (failed : v.createFile path = .ok (.error err, v')) :
    v' = v := by
  rw [createFile] at failed
  cases parent : v.parentDirectory path with
  | error stop =>
      rw [parent] at failed
      cases failed
  | ok result =>
      rw [parent] at failed
      rcases result with e | ⟨d, filename⟩
      · cases failed
        rfl
      · simp only [bind, Except.bind] at failed
        cases allocated : v.allocateEntry d with
        | error stop =>
            rw [allocated] at failed
            cases failed
        | ok pair =>
            rw [allocated] at failed
            cases failed

/-- A new file owns nothing exactly when the entry taken for it was clean. -/
theorem fresh_iff_slotClean (valid : v.bpb.Valid) (chain : v.Chain d l)
    (parent : v.parentDirectory path = .ok (.ok (d, filename)))
    (success : v.createFile path = .ok (.ok dir, v')) : v'.Fresh dir ↔ v.SlotClean d := by
  rcases createFile_cases valid chain parent success with ⟨new, -, ⟨found, same⟩ | ⟨none, -, fresh⟩⟩
  · rw [same, SlotClean, found]
    constructor
    · rintro fresh slot ⟨⟩
      exact fresh
    · exact fun clean => clean dir rfl
  · exact iff_of_true fresh fun slot found => absurd found (none slot)

/-! ## Descriptors of other files -/

/-- A descriptor of a file that is not the one that changes. -/
theorem Evolves.opened (evolves : Evolves v v' held e o first l new) (kept : v.Kept held)
    {m : List Nat} (isHeld : held fd.fatEntry) (ne : fd.fatEntry ≠ e) (other : some fd.fatEntry ≠ o)
    (opened : Opened v fd m i) : Opened v' fd m i := by
  have same := evolves.firstCluster_same (kept.place isHeld) ne
  have keeps (chain : v.Chain (v.firstCluster fd.fatEntry) m) :
      v'.Chain (v'.firstCluster fd.fatEntry) m := by
    rw [same]
    exact evolves.keeps kept (.entry isHeld (ne_zero_of_has chain.has_first)) other chain
  cases opened with
  | empty start zero none => exact .empty start zero (same.trans none)
  | fresh start zero chain => exact .fresh start zero (keeps chain)
  | cursor cursor =>
      apply Opened.cursor
      refine ⟨keeps cursor.chain, cursor.get, ?_⟩
      rw [bytesPerCluster, evolves.bpb]
      exact cursor.off_le

/-- A file without a chain has not been written to. -/
theorem Opened.of_noChain {m : List Nat} (opened : Opened v fd m i)
    (none : v.firstCluster fd.fatEntry = 0) (none' : v'.firstCluster fd.fatEntry = 0) :
    Opened v' fd [] 0 := by
  have noChain : ¬ v.Chain (v.firstCluster fd.fatEntry) m :=
    fun chain => ne_zero_of_has chain.has_first none
  cases opened with
  | empty start zero _ => exact .empty start zero none'
  | fresh _ _ chain => exact absurd chain noChain
  | cursor cursor => exact absurd cursor.chain noChain

theorem OwnChain.unique {m : List Nat} (own : v.OwnChain e l) (own' : v.OwnChain e m) : l = m := by
  rcases own with ⟨none, rfl⟩ | chain
  · rcases own' with ⟨-, rfl⟩ | chain'
    · rfl
    · exact absurd none (ne_zero_of_has chain'.has_first)
  · rcases own' with ⟨none, rfl⟩ | chain'
    · exact absurd none (ne_zero_of_has chain.has_first)
    · exact chain.unique chain'

theorem Kept.opened_make (kept : v.Kept held) (isHeld : held e) :
    ∃ m, Opened v (.make e) m 0 := by
  by_cases none : v.firstCluster e = 0
  · exact ⟨[], .empty rfl rfl none⟩
  · rcases kept.chain (.entry isHeld none) with ⟨m, chain⟩
    exact ⟨m, .fresh rfl rfl chain⟩

/-! ## Files in use -/

/-- An entry in use that is not a part of a long name. -/
def InUse (v : Volume) (e : Nat) : Prop :=
  v.Entry e ∧ v.attr e ≠ kLongName

/-- Every chain that an entry in use heads consists of clusters that are allocated, and no two
of them have a cluster in common. -/
structure OwnChains (v : Volume) : Prop where
  chain : ∀ {e}, v.InUse e → v.firstCluster e ≠ 0 →
    ∃ l, v.Chain (v.firstCluster e) l ∧ ∀ c ∈ l, v.fat c ≠ 0
  apart : ∀ {e e' l l'}, v.InUse e → v.InUse e' → e ≠ e' → v.firstCluster e ≠ 0 →
    v.firstCluster e' ≠ 0 → v.Chain (v.firstCluster e) l → v.Chain (v.firstCluster e') l' →
    List.Disjoint l l'

theorem Kept.ownChains (kept : v.Kept held) (holds : ∀ e, v.InUse e → held e) : v.OwnChains where
  chain := by
    intro e inUse nonzero
    rcases kept.chain (.entry (holds e inUse) nonzero) with ⟨l, chain⟩
    exact ⟨l, chain, fun c member => chain.fat_ne_zero member⟩
  apart := by
    intro e e' l l' inUse inUse' ne nonzero nonzero' chain chain' c member member'
    exact kept.apart (.entry (holds e inUse) nonzero) (.entry (holds e' inUse') nonzero')
      (fun same => ne (Option.some.inj same)) chain chain' c member member'

theorem Evolves.inUse_iff (evolves : Evolves v v' held e o first l new) (kept : v.Kept held) {x : Nat}
    (ne : x ≠ e) : v'.InUse x ↔ v.InUse x := by
  constructor
  · rintro ⟨isEntry', short⟩
    have isEntry := (evolves.entry_iff kept ne).mp isEntry'
    exact ⟨isEntry, evolves.attr_same isEntry.inDirectory ne ▸ short⟩
  · rintro ⟨isEntry, short⟩
    exact ⟨(evolves.entry_iff kept ne).mpr isEntry,
      (evolves.attr_same isEntry.inDirectory ne).symm ▸ short⟩

end Volume

/-! ## Runs -/

/-- A volume, and descriptors of its files. -/
structure Drive where
  volume : Volume
  files : List FileDescriptor

inductive FileCall
  | create (path : List UInt8)
  | openFile (entry : Nat)
  | write (file : Nat) (buf : Mem) (len : Nat)

namespace Drive

open Volume

/-- Calls that return.  `CreateFile` hands out a descriptor of the new file; descriptors of the
other files can be made at any time. -/
inductive Step : Drive → FileCall → Drive → Prop
  | create {s : Drive} {path : List UInt8} {dir : Nat} {v' : Volume} :
      s.volume.createFile path = .ok (.ok dir, v') →
      Step s (.create path) ⟨v', .make dir :: s.files⟩
  | createFails {s : Drive} {path : List UInt8} {e : Error} {v' : Volume} :
      s.volume.createFile path = .ok (.error e, v') → Step s (.create path) ⟨v', s.files⟩
  | openFile {s : Drive} {e : Nat} : s.volume.InUse e → ¬ s.volume.IsDirectory e →
      Step s (.openFile e) ⟨s.volume, .make e :: s.files⟩
  | write {s : Drive} {i len returned : Nat} {buf : Mem} {fd fd' : FileDescriptor} {v' : Volume} :
      s.files[i]? = some fd → s.volume.write fd buf len = .ok (returned, fd', v') →
      Step s (.write i buf len) ⟨v', s.files.set i fd'⟩

/-- A file is created in a directory, and the entry it takes is clean. -/
def Admits (s : Drive) : FileCall → Prop
  | .create path => ∀ d filename, s.volume.parentDirectory path = .ok (.ok (d, filename)) →
      s.volume.Directory d ∧ s.volume.SlotClean d
  | _ => True

/-- The entry is in use, or has a descriptor. -/
def Held (s : Drive) (e : Nat) : Prop :=
  s.volume.InUse e ∨ ∃ fd ∈ s.files, fd.fatEntry = e

/-- All files have chains of their own, and the descriptors are of files. -/
structure Inv (s : Drive) : Prop where
  kept : s.volume.Kept s.Held
  opened : ∀ fd ∈ s.files, ¬ s.volume.IsDirectory fd.fatEntry ∧ ∃ l i, Opened s.volume fd l i

variable {s s' : Drive} {v' : Volume} {path filename : List UInt8} {d dir e : Nat}

theorem held_nil (v : Volume) : Held ⟨v, []⟩ = v.InUse := by
  funext e
  simp [Held]

theorem held_cons (s : Drive) (fd : FileDescriptor) {x : Nat} (ne : x ≠ fd.fatEntry) :
    Held ⟨s.volume, fd :: s.files⟩ x ↔ s.Held x := by
  simp [Held, ne.symm]

/-- A descriptor is replaced by one of the same file. -/
theorem exists_set_iff {files : List FileDescriptor} {i x : Nat} {fd fd' : FileDescriptor}
    (get : files[i]? = some fd) (same : fd'.fatEntry = fd.fatEntry) (ne : x ≠ fd.fatEntry) :
    (∃ fd₂ ∈ files.set i fd', fd₂.fatEntry = x) ↔ ∃ fd₂ ∈ files, fd₂.fatEntry = x := by
  constructor
  · rintro ⟨fd₂, member, rfl⟩
    rcases List.mem_or_eq_of_mem_set member with old | rfl
    · exact ⟨fd₂, old, rfl⟩
    · exact absurd same ne
  · rintro ⟨fd₂, member, rfl⟩
    rcases List.mem_iff_getElem?.mp member with ⟨k, at_k⟩
    have other : i ≠ k := by
      rintro rfl
      rw [get] at at_k
      exact ne (congrArg FileDescriptor.fatEntry (Option.some.inj at_k)).symm
    refine ⟨fd₂, List.mem_of_getElem? (i := k) ?_, rfl⟩
    rw [List.getElem?_set_ne other, at_k]

namespace Inv

/-- A new file. -/
theorem create (inv : s.Inv) (parent : s.volume.parentDirectory path = .ok (.ok (d, filename)))
    (isDirectory : s.volume.Directory d) (clean : s.volume.SlotClean d)
    (success : s.volume.createFile path = .ok (.ok dir, v')) :
    Inv ⟨v', .make dir :: s.files⟩ := by
  have kept := inv.kept
  rcases kept.heads isDirectory with ⟨o, heads, owner⟩
  rcases kept.chain heads with ⟨l, chain⟩
  have fresh := (fresh_iff_slotClean kept.valid chain parent success).mpr clean
  rcases createFile_cases kept.valid chain parent success with ⟨new, created, taken⟩
  have other : o ≠ some dir := by
    intro same
    rcases (owner dir same).1 with ⟨d', m, -, chain', live⟩
    exact created.notLive kept.valid chain' live
  have evolves := evolves_of_created kept isDirectory heads other created fresh.noChain
    fresh.not_isDirectory
  constructor
  · apply evolves.kept_after kept
    · intro x ne
      rw [Held, Held, evolves.inUse_iff kept ne]
      simp [FileDescriptor.make, ne.symm]
    · intro _
      exact ⟨d, l ++ new, (evolves.directory_iff kept d).mpr isDirectory, evolves.chain,
        slots_congr evolves.bpb (l ++ new) ▸ created.dir_mem⟩
  · intro fd member
    rcases List.mem_cons.mp member with rfl | old
    · exact ⟨fresh.not_isDirectory, [], 0, .empty rfl rfl fresh.noChain⟩
    · rcases inv.opened fd old with ⟨file, m, i, opened⟩
      have isHeld : s.Held fd.fatEntry := .inr ⟨fd, old, rfl⟩
      have place := kept.place isHeld
      by_cases same : fd.fatEntry = dir
      · -- a descriptor of the entry that is taken has not been written to
        have none : s.volume.firstCluster fd.fatEntry = 0 := by
          rcases taken with ⟨-, freshIff⟩ | ⟨-, outside, -⟩
          · exact same ▸ (freshIff.mp fresh).noChain
          · exact absurd (same ▸ place) outside
        exact ⟨same ▸ fresh.not_isDirectory, [], 0, opened.of_noChain none (same ▸ fresh.noChain)⟩
      · refine ⟨fun sub => file ((evolves.isDirectory_iff place same).mp sub), m, i, ?_⟩
        exact evolves.opened kept isHeld same (fun isOwner => file (owner _ isOwner.symm).2) opened

/-- A descriptor of a file that is in use. -/
theorem openFile (inv : s.Inv) (inUse : s.volume.InUse e) (file : ¬ s.volume.IsDirectory e) :
    Inv ⟨s.volume, .make e :: s.files⟩ := by
  have same : Held ⟨s.volume, .make e :: s.files⟩ = s.Held := by
    funext x
    by_cases isNew : x = e
    · subst isNew
      exact eq_true (.inl inUse) |>.trans (eq_true (.inl inUse)).symm
    · exact propext (held_cons s (.make e) isNew)
  constructor
  · rw [same]
    exact inv.kept
  · intro fd member
    rcases List.mem_cons.mp member with rfl | old
    · rcases inv.kept.opened_make (.inl inUse) with ⟨m, opened⟩
      exact ⟨file, m, 0, opened⟩
    · exact inv.opened fd old

/-- A call of `Write`. -/
theorem write (inv : s.Inv) {i len returned : Nat} {buf : Mem} {fd fd' : FileDescriptor}
    (get : s.files[i]? = some fd) (success : s.volume.write fd buf len = .ok (returned, fd', v')) :
    Inv ⟨v', s.files.set i fd'⟩ := by
  have kept := inv.kept
  have member := List.mem_of_getElem? get
  rcases inv.opened fd member with ⟨file, l, j, opened⟩
  have isHeld : s.Held fd.fatEntry := .inr ⟨fd, member, rfl⟩
  rcases write_cases kept.valid opened (kept.away isHeld file opened.ownChain) buf len with
    ⟨n, fd'', v'', new, j', result, completes, -, -⟩ | ⟨stops, -⟩
  · rw [success] at result
    cases result
    have evolves := evolves_of_wrote kept isHeld file opened.ownChain completes.wrote
    have sameEntry := completes.fatEntry
    constructor
    · apply evolves.kept_after kept
      · intro x ne
        rw [Held, Held, evolves.inUse_iff kept ne]
        exact or_congr_right (exists_set_iff get sameEntry ne)
      · intro _
        exact evolves.inDirectory kept (kept.place isHeld)
    · intro fd₂ member₂
      rcases List.mem_or_eq_of_mem_set member₂ with old | rfl
      · rcases inv.opened fd₂ old with ⟨file₂, l₂, j₂, opened₂⟩
        have isHeld₂ : s.Held fd₂.fatEntry := .inr ⟨fd₂, old, rfl⟩
        by_cases same : fd₂.fatEntry = fd.fatEntry
        · have sameChain : l₂ = l := opened₂.ownChain.unique (same ▸ opened.ownChain)
          subst sameChain
          have wrote := completes.wrote
          rw [← same] at wrote
          exact ⟨same ▸ evolves.notAfter, l₂ ++ new, j₂, opened₂.grow wrote⟩
        · refine ⟨fun sub => file₂ ((evolves.isDirectory_iff (kept.place isHeld₂) same).mp sub),
            l₂, j₂, ?_⟩
          exact evolves.opened kept isHeld₂ same (fun equal => same (Option.some.inj equal)) opened₂
      · exact ⟨sameEntry.symm ▸ evolves.notAfter, l ++ new, j', completes.opened⟩
  · rw [success] at stops
    cases stops

theorem step (inv : s.Inv) {call : FileCall} (step : guarded Step Admits s call s') : s'.Inv := by
  rcases step with ⟨admits, step⟩
  cases step with
  | create success =>
      rcases parent_of_createFile success with ⟨d, filename, parent⟩
      rcases admits d filename parent with ⟨isDirectory, clean⟩
      exact inv.create parent isDirectory clean success
  | createFails failed =>
      rw [volume_of_createFile_error failed]
      exact inv
  | openFile inUse file => exact inv.openFile inUse file
  | write get success => exact inv.write get success

end Inv

/-- Over every run of clean calls the chains of all files in use stay apart.  The entry of a new
file owns nothing exactly when the entry taken for it was clean. -/
theorem ownChains_of_reachable {v : Volume} (wellFormed : v.Kept v.InUse)
    (reachable : Reachable (guarded Step Admits) ⟨v, []⟩ s) :
    s.volume.OwnChains ∧ ∀ path d filename dir v',
      s.volume.parentDirectory path = .ok (.ok (d, filename)) → s.volume.Directory d →
        s.volume.createFile path = .ok (.ok dir, v') → (v'.Fresh dir ↔ s.volume.SlotClean d) := by
  have start : Inv ⟨v, []⟩ := by
    constructor
    · rw [held_nil]
      exact wellFormed
    · simp
  have inv := reachable.invariant start fun _ _ _ inv step => inv.step step
  constructor
  · exact inv.kept.ownChains fun e inUse => .inl inUse
  · intro path d filename dir v' parent isDirectory success
    rcases inv.kept.chain_directory isDirectory with ⟨l, chain⟩
    exact fresh_iff_slotClean inv.kept.valid chain parent success

/-! ## Small volumes -/

/-- The entry of the directory `A` in the root directory. -/
def entryA : Nat := smallBpb.getClusterAddr 2

/-- A volume with the directory `A`, and nothing else in use. -/
structure OnlyA (v : Volume) : Prop where
  bpb : v.bpb = smallBpb
  chain : ∀ {d}, d = 2 ∨ d = 3 → v.Chain d [d]
  live : ∀ {d e}, d = 2 ∨ d = 3 → v.Live [d] e → e = entryA
  target : v.firstCluster entryA = 3
  short : v.attr entryA ≠ kLongName

namespace OnlyA

variable {v : Volume}

theorem directory (onlyA : OnlyA v) {d : Nat} (isDirectory : v.Directory d) : d = 2 ∨ d = 3 := by
  induction isDirectory with
  | root =>
      rw [onlyA.bpb]
      exact .inl rfl
  | sub _ chain live _ ih =>
      right
      rw [chain.unique (onlyA.chain ih)] at live
      rw [onlyA.live ih live, onlyA.target]

theorem entry (onlyA : OnlyA v) {e : Nat} (isEntry : v.Entry e) : e = entryA := by
  rcases isEntry with ⟨d, l, isDirectory, chain, live⟩
  have small := onlyA.directory isDirectory
  rw [chain.unique (onlyA.chain small)] at live
  exact onlyA.live small live

theorem heads (onlyA : OnlyA v) {o : Option Nat} {c : Nat} (heads : v.Heads v.InUse o c) :
    o = none ∧ c = 2 ∨ o = some entryA ∧ c = 3 := by
  cases heads with
  | root =>
      rw [onlyA.bpb]
      exact .inl ⟨rfl, rfl⟩
  | entry inUse _ =>
      rw [onlyA.entry inUse.1, onlyA.target]
      exact .inr ⟨rfl, rfl⟩

theorem kept (onlyA : OnlyA v) : v.Kept v.InUse where
  valid := onlyA.bpb.symm ▸ valid_smallBpb
  place := fun inUse => inUse.1.inDirectory
  directory := by
    intro e isEntry _
    have short := onlyA.short
    have target := onlyA.target
    rw [← onlyA.entry isEntry] at short target
    exact ⟨⟨isEntry, short⟩, by omega⟩
  chain := by
    intro o c heads
    rcases onlyA.heads heads with ⟨-, rfl⟩ | ⟨-, rfl⟩
    · exact ⟨_, onlyA.chain (.inl rfl)⟩
    · exact ⟨_, onlyA.chain (.inr rfl)⟩
  apart := by
    intro o o' c c' l l' heads heads' ne chain chain' x member member'
    have small : ∀ {o c}, v.Heads v.InUse o c → c = 2 ∨ c = 3 := by
      intro o c heads
      rcases onlyA.heads heads with ⟨-, same⟩ | ⟨-, same⟩
      · exact .inl same
      · exact .inr same
    rw [chain.unique (onlyA.chain (small heads)), List.mem_singleton] at member
    rw [chain'.unique (onlyA.chain (small heads')), List.mem_singleton] at member'
    rcases onlyA.heads heads with ⟨rfl, rfl⟩ | ⟨rfl, rfl⟩ <;>
      rcases onlyA.heads heads' with ⟨rfl, rfl⟩ | ⟨rfl, rfl⟩
    · exact ne rfl
    · omega
    · omega
    · exact ne rfl

end OnlyA

theorem onlyA_smallVolume : OnlyA smallVolume where
  bpb := rfl
  chain := chain_smallVolume
  live := fun small live => live_smallVolume small (chain_smallVolume small) live
  target := by decide
  short := by decide

/-- The new file `B` in the directory `A`. -/
theorem ownChains_of_reachable_oneSlash :
    smallVolumeWithFile.OwnChains ∧ ∀ path d filename dir v',
      smallVolumeWithFile.parentDirectory path = .ok (.ok (d, filename)) →
        smallVolumeWithFile.Directory d →
        smallVolumeWithFile.createFile path = .ok (.ok dir, v') →
          (v'.Fresh dir ↔ smallVolumeWithFile.SlotClean d) := by
  have parent : smallVolume.parentDirectory oneSlash = .ok (.ok (3, [0x42])) := by decide
  have slot : smallVolume.findSlot (smallVolume.bpb.clusters + 1) 3 =
      .ok (.inl (smallBpb.getClusterAddr 3)) := by
    decide
  have step : guarded Step Admits ⟨smallVolume, []⟩ (.create oneSlash)
      ⟨smallVolumeWithFile, [.make (smallBpb.getClusterAddr 3)]⟩ := by
    constructor
    · intro d filename parent'
      rw [parent] at parent'
      cases parent'
      refine ⟨directory_three, fun slot' found => ?_⟩
      rw [slot] at found
      cases found
      exact ⟨by decide, by decide⟩
    · exact .create (createFile_of_slot parent slot)
  exact ownChains_of_reachable (s := ⟨smallVolumeWithFile, [.make (smallBpb.getClusterAddr 3)]⟩)
    onlyA_smallVolume.kept ((Reachable.refl _ _).next step)

/-- The small volume with an entry in its root directory that was deleted; the file has had the
cluster which belongs to the directory `A` now. -/
def recycledVolume : Volume :=
  smallVolume.putEntry (entryA + directoryEntrySize) [0xe5] 0x20 3

theorem onlyA_recycledVolume : OnlyA recycledVolume where
  bpb := rfl
  chain := by
    rintro d (rfl | rfl) <;> constructor
    · exact .last (by decide)
    · decide
    · exact .last (by decide)
    · decide
  live := by
    rintro d e (rfl | rfl) live
    · have only : ∀ e ∈ recycledVolume.slots [2],
          e = entryA ∨ recycledVolume.mem e = 0 ∨ recycledVolume.mem e = 0xe5 := by
        decide
      rcases only e live.member with same | zero | deleted
      · exact same
      · exact absurd zero live.used
      · exact absurd deleted live.notDeleted
    · have none : ∀ e ∈ recycledVolume.slots [3], recycledVolume.mem e = 0 := by decide
      exact absurd (none e live.member) live.used
  target := by decide
  short := by decide

/-- The file `B` in place of the one that was deleted. -/
def recycledFile : Volume :=
  recycledVolume.fillEntry (entryA + directoryEntrySize) [0x42]

theorem inUse_recycledFile {e : Nat} (isEntry : e = entryA ∨ e = entryA + directoryEntrySize) :
    recycledFile.InUse e ∧ recycledFile.firstCluster e = 3 := by
  have root : recycledFile.Chain 2 [2] := ⟨.last (by decide), by decide⟩
  have live : recycledFile.Live [2] e := by
    rcases isEntry with rfl | rfl <;> constructor <;> decide
  have short : recycledFile.attr e ≠ kLongName := by
    rcases isEntry with rfl | rfl <;> decide
  have target : recycledFile.firstCluster e = 3 := by
    rcases isEntry with rfl | rfl <;> decide
  exact ⟨⟨⟨2, [2], .root, root, live⟩, short⟩, target⟩

/-- `CreateFile` makes a file of the deleted entry that begins with the cluster of a directory. -/
theorem not_fresh_recycledVolume :
    recycledVolume.Kept recycledVolume.InUse ∧
      recycledVolume.createFile [0x42] = .ok (.ok (entryA + directoryEntrySize), recycledFile) ∧
      recycledFile.firstCluster (entryA + directoryEntrySize) ≠ 0 ∧ ¬ recycledFile.OwnChains := by
  refine ⟨onlyA_recycledVolume.kept,
    createFile_of_slot (d := 2) (by decide) (by decide), ?_, ?_⟩
  · rw [(inUse_recycledFile (.inr rfl)).2]
    decide
  · intro ownChains
    rcases inUse_recycledFile (.inl rfl) with ⟨inUseA, targetA⟩
    rcases inUse_recycledFile (.inr rfl) with ⟨inUseB, targetB⟩
    have chain : recycledFile.Chain 3 [3] := ⟨.last (by decide), by decide⟩
    have apart := ownChains.apart inUseA inUseB (by decide) (by rw [targetA]; decide)
      (by rw [targetB]; decide) (targetA.symm ▸ chain) (targetB.symm ▸ chain)
    exact apart (List.mem_singleton_self 3) (List.mem_singleton_self 3)

end Drive

end Mikanos.Fat
