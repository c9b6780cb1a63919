import Mikanos.Fat.RoundTrip
import Mikanos.Fat.Tail

/-!
# Several files written in turns

Descriptors of different files are written in any order.  Every file gets the buffers of
its own calls and nothing else, whichever calls for others come in between.
-/

namespace Mikanos.Fat

open Mikanos.Memory Mikanos.Chain

namespace Volume

variable {ι : Type} [DecidableEq ι] {v v' : Volume} {e : ι → Nat} {content : ι → Mem}
  {fds : ι → FileDescriptor} {l : ι → List Nat} {p : ι → Nat} {w : ι} {buf : Mem} {len : Nat}
  {calls : List (ι × Mem × Nat)}

/-- Calls of `Write` for several writers, one after the other: what they return, the
descriptors and the volume. -/
def writeCalls : Volume → (ι → FileDescriptor) → List (ι × Mem × Nat) →
    Except Stop (List Nat × (ι → FileDescriptor) × Volume)
  | v, fds, [] => .ok ([], fds, v)
  | v, fds, (w, buf, len) :: calls => do
      let (returned, fd, v) ← v.write (fds w) buf len
      let (others, fds, v) ← writeCalls v (Function.update fds w fd) calls
      .ok (returned :: others, fds, v)

/-- The calls of one writer. -/
def ofWriter (w : ι) : List (ι × Mem × Nat) → List (Mem × Nat)
  | [] => []
  | (w', call) :: calls => if w' = w then call :: ofWriter w calls else ofWriter w calls

/-- The clusters of a file that calls with these lengths write. -/
def clustersFor (v : Volume) (lens : List Nat) : Nat :=
  if lens = [] then 0 else max (v.numCluster lens.sum) 1

theorem ofWriter_same (call : Mem × Nat) (calls : List (ι × Mem × Nat)) :
    ofWriter w ((w, call) :: calls) = call :: ofWriter w calls :=
  if_pos rfl

theorem ofWriter_other {w' : ι} (other : w' ≠ w) (call : Mem × Nat) (calls : List (ι × Mem × Nat)) :
    ofWriter w ((w', call) :: calls) = ofWriter w calls :=
  if_neg other

/-! ## Writers -/

/-- A descriptor that has written nothing, or stands at the end of its file. -/
inductive Writer (v : Volume) (content : Mem) (fd : FileDescriptor) : List Nat → Nat → Prop
  | unwritten : fd = .make fd.fatEntry → v.firstCluster fd.fatEntry = 0 →
      v.fileSize fd.fatEntry = 0 → Writer v content fd [] 0
  | written {l : List Nat} {p : Nat} : Tail v content fd l p → Writer v content fd l p

/-- Calls with these lengths fit where the writer stands. -/
def FitsFrom (bytes : Nat) (l : List Nat) (p : Nat) (lens : List Nat) : Prop :=
  if l = [] then Clean bytes lens else CleanFrom bytes p lens

/-- Writers of different files. -/
structure Writers (v : Volume) (e : ι → Nat) (content : ι → Mem) (fds : ι → FileDescriptor)
    (l : ι → List Nat) (p : ι → Nat) : Prop where
  sound : v.Sound
  entry : ∀ w, v.Entry (e w)
  file : ∀ w, ¬ v.IsDirectory (e w)
  distinct : Function.Injective e
  fatEntry : ∀ w, (fds w).fatEntry = e w
  writer : ∀ w, Writer v (content w) (fds w) (l w) (p w)

theorem Writer.ownChain {fd : FileDescriptor} {content : Mem} {l : List Nat} {p : Nat}
    (writer : Writer v content fd l p) : v.OwnChain fd.fatEntry l := by
  cases writer with
  | unwritten _ none _ => exact .inl ⟨none, rfl⟩
  | written tail => exact tail.ownChain

/-- A call of the writer. -/
theorem Writer.append {fd : FileDescriptor} {content : Mem} {l : List Nat} {p : Nat}
    {lens : List Nat} (valid : v.bpb.Valid) (writer : Writer v content fd l p)
    (away : v.Away fd.fatEntry l) (fits : FitsFrom v.bytesPerCluster l p (len :: lens))
    (agrees : ∀ j < len, content (p + j) = buf j)
    (room : max (v.numCluster (p + len)) 1 ≤ v.free.length + l.length) :
    ∃ fd' v' new i, v.write fd buf len = .ok (len, fd', v') ∧
      Appends v v' content fd fd' l new p len i ∧
      FitsFrom v.bytesPerCluster (l ++ new) (p + len) lens := by
  have further {fd' : FileDescriptor} {v' : Volume} {new : List Nat} {i : Nat}
      (appends : Appends v v' content fd fd' l new p len i)
      (rest : CleanFrom v.bytesPerCluster (p + len) lens) :
      FitsFrom v.bytesPerCluster (l ++ new) (p + len) lens := by
    rw [FitsFrom, if_neg (List.ne_nil_of_length_pos appends.tail.ends.length_pos)]
    exact rest
  cases writer with
  | unwritten new none _ =>
      rw [FitsFrom, if_pos rfl] at fits
      obtain ⟨fits, rest⟩ := fits
      rw [Nat.zero_add, List.length_nil, Nat.add_zero] at room
      have agrees₀ : ∀ j < len, content j = buf j := by
        intro j lt
        rw [← agrees j lt, Nat.zero_add]
      obtain ⟨fd', v', new', writeEq, appends⟩ :=
        append_first valid none away fits agrees₀ room
      rw [← new] at writeEq appends
      rw [Nat.zero_add] at further ⊢
      exact ⟨fd', v', new', 0, writeEq, appends, further appends rest⟩
  | written tail =>
      rw [FitsFrom, if_neg (List.ne_nil_of_length_pos tail.ends.length_pos)] at fits
      obtain ⟨fits, rest⟩ := fits
      rw [← tail.offset] at fits
      have some : l.length * v.bytesPerCluster < p + len → v.free ≠ [] := by
        intro beyond nil
        rw [nil, List.length_nil, Nat.zero_add] at room
        have covered := (numCluster_mul v valid.bytesPerCluster_pos (p + len)).trans
          (Nat.mul_le_mul_right _ ((Nat.le_max_left _ 1).trans room))
        exact absurd beyond (Nat.not_lt.mpr covered)
      obtain ⟨fd', v', new, writeEq, appends⟩ := tail.append valid away fits agrees some
      exact ⟨fd', v', new, _, writeEq, appends, further appends rest⟩

/-- A writer whose file is left alone. -/
theorem Writer.keeps {fd : FileDescriptor} {content : Mem} {l m : List Nat} {p e : Nat}
    (sound : v.Sound) (isEntry : v.Entry e) (isOther : v.Entry fd.fatEntry)
    (file : ¬ v.IsDirectory fd.fatEntry) (ne : fd.fatEntry ≠ e) (bpb : v'.bpb = v.bpb)
    (isolated : Isolated v v' e m) (writer : Writer v content fd l p) :
    Writer v' content fd l p := by
  cases writer with
  | unwritten new none empty =>
      have fields := isolated.fields fd.fatEntry isOther ne
      refine .unwritten new ((firstCluster_congr fields).trans none) ((Mem.load_congr ?_).trans empty)
      intro k lt
      rw [Nat.add_assoc]
      exact fields _ (by rw [directoryEntrySize]; omega)
  | written tail => exact .written (tail.keeps sound isEntry isOther file ne bpb isolated)

/-- The call of one writer, which leaves the others alone. -/
theorem Writers.append (writers : Writers v e content fds l p) (w : ι) {lens : List Nat}
    (fits : FitsFrom v.bytesPerCluster (l w) (p w) (len :: lens))
    (agrees : ∀ j < len, content w (p w + j) = buf j)
    (room : max (v.numCluster (p w + len)) 1 ≤ v.free.length + (l w).length) :
    ∃ fd' v' new, v.write (fds w) buf len = .ok (len, fd', v') ∧
      Writers v' e content (Function.update fds w fd') (Function.update l w (l w ++ new))
        (Function.update p w (p w + len)) ∧
      v'.bpb = v.bpb ∧ v.free = new ++ v'.free ∧
      (l w ++ new).length = max (v.numCluster (p w + len)) 1 ∧
      FitsFrom v.bytesPerCluster (l w ++ new) (p w + len) lens := by
  obtain ⟨sound, entry, file, distinct, fatEntry, writer⟩ := writers
  have isEntry : v.Entry (fds w).fatEntry := fatEntry w ▸ entry w
  have isFile : ¬ v.IsDirectory (fds w).fatEntry := fatEntry w ▸ file w
  have own := (writer w).ownChain
  have away := (sound_iff.mp sound).away isEntry isFile own
  obtain ⟨fd', v', new, i, writeEq, appends, further⟩ :=
    (writer w).append sound.valid away fits agrees room
  have wrote := appends.wrote
  have isolated := isolated_of_wrote sound isEntry isFile own wrote
  have count : v'.numCluster (p w + len) = v.numCluster (p w + len) :=
    numCluster_congr wrote.bpb _
  have length := appends.tail.length_eq (wrote.bpb ▸ sound.valid)
  rw [count] at length
  refine ⟨fd', v', new, writeEq, ⟨isolated.sound, ?_, ?_, distinct, ?_, ?_⟩, wrote.bpb,
    appends.free, length, further⟩
  · exact fun w' => (isolated.entry (e w')).mpr (entry w')
  · intro w'
    have bits := (entry w').inDirectory.slot_same (sound_iff.mp sound) isEntry isFile own wrote
      (k := 11) (by decide) (.inr (by decide))
    rw [IsDirectory, attr, bits]
    exact file w'
  · intro w'
    by_cases same : w' = w
    · rw [same, Function.update_self, appends.fatEntry, fatEntry]
    · rw [Function.update_of_ne same, fatEntry]
  · intro w'
    by_cases same : w' = w
    · rw [same, Function.update_self, Function.update_self, Function.update_self]
      exact .written appends.tail
    · rw [Function.update_of_ne same, Function.update_of_ne same, Function.update_of_ne same]
      have ne : (fds w').fatEntry ≠ (fds w).fatEntry := by
        rw [fatEntry, fatEntry]
        exact fun eq => same (distinct eq)
      exact (writer w').keeps sound isEntry (fatEntry w' ▸ entry w') (fatEntry w' ▸ file w') ne
        wrote.bpb isolated

/-! ## Runs -/

section Sums

variable [Fintype ι] {a f : ι → Nat} {n : Nat}

/-- What all need together leaves enough for each. -/
theorem le_of_sum_le (le : ∀ x, a x ≤ f x) (enough : ∑ x, f x ≤ n + ∑ x, a x) (w : ι) :
    f w ≤ n + a w := by
  have others : ∑ x ∈ Finset.univ.erase w, a x ≤ ∑ x ∈ Finset.univ.erase w, f x :=
    Finset.sum_le_sum fun x _ => le x
  rw [← Finset.add_sum_erase _ f (Finset.mem_univ w),
    ← Finset.add_sum_erase _ a (Finset.mem_univ w)] at enough
  omega

theorem sum_length_update (l : ι → List Nat) (w : ι) (new : List Nat) :
    ∑ x, (Function.update l w (l w ++ new) x).length = ∑ x, (l x).length + new.length := by
  have others : ∑ x ∈ Finset.univ.erase w, (Function.update l w (l w ++ new) x).length =
      ∑ x ∈ Finset.univ.erase w, (l x).length := by
    refine Finset.sum_congr rfl fun x member => ?_
    rw [Function.update_of_ne (Finset.ne_of_mem_erase member)]
  rw [← Finset.add_sum_erase _ _ (Finset.mem_univ w), others, Function.update_self,
    List.length_append, ← Finset.add_sum_erase _ (fun x => (l x).length) (Finset.mem_univ w)]
  omega

end Sums

/-- Calls that fit, where the volume has room for all of them. -/
theorem Writers.run [Fintype ι] (final : ι → Nat) (writers : Writers v e content fds l p)
    (fits : ∀ w, FitsFrom v.bytesPerCluster (l w) (p w) (lengths (ofWriter w calls)))
    (agrees : ∀ w, ∀ q < (lengths (ofWriter w calls)).sum,
      content w (p w + q) = contents (ofWriter w calls) q)
    (grown : ∀ w, (l w).length ≤ final w)
    (last : ∀ w, ofWriter w calls ≠ [] →
      max (v.numCluster (p w + (lengths (ofWriter w calls)).sum)) 1 ≤ final w)
    (enough : ∑ w, final w ≤ v.free.length + ∑ w, (l w).length) :
    ∃ fds' v' l', writeCalls v fds calls = .ok (calls.map fun call => call.2.2, fds', v') ∧
      Writers v' e content fds' l' fun w => p w + (lengths (ofWriter w calls)).sum := by
  induction calls generalizing v fds l p with
  | nil => exact ⟨fds, v, l, rfl, writers⟩
  | cons call calls ih =>
      obtain ⟨w, buf, len⟩ := call
      have fits' := fits w
      have agrees' := agrees w
      have last' := last w
      rw [ofWriter_same, lengths_cons] at fits' agrees' last'
      rw [List.sum_cons] at agrees' last'
      obtain ⟨here, later⟩ := agrees_cons agrees'
      have reached := last' (List.cons_ne_nil _ _)
      have within : max (v.numCluster (p w + len)) 1 ≤ final w := by
        have := numCluster_mono v (show p w + len ≤ p w + (len + (lengths (ofWriter w calls)).sum) by
          omega)
        omega
      obtain ⟨fd', v', new, writeEq, writers', bpb, free, length, further⟩ :=
        writers.append w fits' here (within.trans (le_of_sum_le grown enough w))
      have bytes : v'.bytesPerCluster = v.bytesPerCluster := congrArg BPB.bytesPerCluster bpb
      have total (x : ι) : Function.update p w (p w + len) x + (lengths (ofWriter x calls)).sum =
          p x + (lengths (ofWriter x ((w, buf, len) :: calls))).sum := by
        by_cases same : x = w
        · rw [same, Function.update_self, ofWriter_same, lengths_cons, List.sum_cons, Nat.add_assoc]
        · rw [Function.update_of_ne same, ofWriter_other (Ne.symm same)]
      have fitsAll : ∀ x, FitsFrom v'.bytesPerCluster (Function.update l w (l w ++ new) x)
          (Function.update p w (p w + len) x) (lengths (ofWriter x calls)) := by
        intro x
        rw [bytes]
        by_cases same : x = w
        · rw [same, Function.update_self, Function.update_self]
          exact further
        · have fitsX := fits x
          rw [ofWriter_other (Ne.symm same)] at fitsX
          rwa [Function.update_of_ne same, Function.update_of_ne same]
      have agreesAll : ∀ x, ∀ q < (lengths (ofWriter x calls)).sum,
          content x (Function.update p w (p w + len) x + q) = contents (ofWriter x calls) q := by
        intro x
        by_cases same : x = w
        · rw [same, Function.update_self]
          exact later
        · have agreesX := agrees x
          rw [ofWriter_other (Ne.symm same)] at agreesX
          rwa [Function.update_of_ne same]
      have grownAll : ∀ x, (Function.update l w (l w ++ new) x).length ≤ final x := by
        intro x
        by_cases same : x = w
        · rw [same, Function.update_self, length]
          exact within
        · rw [Function.update_of_ne same]
          exact grown x
      have lastAll : ∀ x, ofWriter x calls ≠ [] → max (v'.numCluster
          (Function.update p w (p w + len) x + (lengths (ofWriter x calls)).sum)) 1 ≤ final x := by
        intro x some
        rw [total x, numCluster_congr bpb]
        refine last x ?_
        by_cases same : x = w
        · rw [same, ofWriter_same]
          exact List.cons_ne_nil _ _
        · rwa [ofWriter_other (Ne.symm same)]
      have enoughAll : ∑ x, final x ≤
          v'.free.length + ∑ x, (Function.update l w (l w ++ new) x).length := by
        rw [sum_length_update]
        rw [free, List.length_append] at enough
        omega
      obtain ⟨fds', v'', l', restEq, final'⟩ :=
        ih writers' fitsAll agreesAll grownAll lastAll enoughAll
      simp only [total] at final'
      refine ⟨fds', v'', l', ?_, final'⟩
      rw [writeCalls, writeEq]
      simp only [bind, Except.bind]
      rw [restEq, List.map_cons]

/-- The entries of the files `A` and `B`. -/
def rootEntry (second : Bool) : Nat :=
  smallBpb.getClusterAddr 2 + if second then directoryEntrySize else 0

def twoFiles : Volume :=
  (emptyVolume.fillEntry (rootEntry false) [0x41]).fillEntry (rootEntry true) [0x42]

theorem chain_twoFiles : twoFiles.Chain 2 [2] :=
  .single (by decide) (by decide)

theorem live_twoFiles {m : List Nat} {x : Nat} (chain : twoFiles.Chain 2 m)
    (live : twoFiles.Live m x) : ∃ second, x = rootEntry second := by
  have member := live.member
  rw [chain.unique chain_twoFiles] at member
  have only : ∀ x ∈ twoFiles.slots [2],
      (x = rootEntry false ∨ x = rootEntry true) ∨ twoFiles.mem x = 0 := by
    decide
  rcases (only x member).resolve_right live.used with same | same
  · exact ⟨false, same⟩
  · exact ⟨true, same⟩

theorem file_twoFiles (second : Bool) : ¬ twoFiles.IsDirectory (rootEntry second) := by
  cases second <;> exact fun sub => absurd (by decide) sub

theorem directory_twoFiles {d : Nat} (isDirectory : twoFiles.Directory d) : d = 2 := by
  induction isDirectory with
  | root => rfl
  | sub _ chain live sub ih =>
      rw [ih] at chain
      obtain ⟨second, rfl⟩ := live_twoFiles chain live
      exact absurd sub (file_twoFiles second)

theorem entry_twoFiles {x : Nat} (isEntry : twoFiles.Entry x) : ∃ second, x = rootEntry second := by
  obtain ⟨d, m, isDirectory, chain, live⟩ := isEntry
  rw [directory_twoFiles isDirectory] at chain
  exact live_twoFiles chain live

theorem owner_twoFiles {o : Option Nat} {c : Nat} (owner : twoFiles.Owner o c) :
    o = none ∧ c = 2 := by
  cases owner with
  | root => exact ⟨rfl, rfl⟩
  | entry isEntry nonzero =>
      obtain ⟨second, rfl⟩ := entry_twoFiles isEntry
      refine absurd ?_ nonzero
      cases second <;> decide

theorem sound_twoFiles : twoFiles.Sound where
  valid := valid_smallBpb
  chain := by
    intro o c owner
    exact ⟨[2], (owner_twoFiles owner).2 ▸ chain_twoFiles⟩
  apart := by
    intro o o' c c' m m' owner owner' ne
    exact absurd ((owner_twoFiles owner).1.trans (owner_twoFiles owner').1.symm) ne
  directory := by
    intro x isEntry sub
    obtain ⟨second, rfl⟩ := entry_twoFiles isEntry
    exact absurd sub (file_twoFiles second)

/-- `A` is written by single bytes, and `B` by whole clusters in between. -/
def inTurns : List (Bool × Mem × Nat) :=
  [ (false, fun _ => 0x61, 1), (true, fun _ => 0x62, 512), (false, fun _ => 0x63, 1),
    (true, fun _ => 0x64, 512) ]

end Volume

end Mikanos.Fat
