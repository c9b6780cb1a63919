import Mikanos.Fat.Creation

/-!
# Listing a directory

`ListAllEntries` of the terminal goes through a directory as `FindFile` does, but it leaves
out deleted entries and the parts of long names.  `FindFile` looks at the name only.
-/

namespace Mikanos.Fat

open Mikanos.Memory Mikanos.Chain

/-- `Attribute::kLongName`. -/
def kLongName : UInt8 := 0x0f

namespace Volume

variable {v : Volume} {first e : Nat} {l s : List Nat} {pathElem : List UInt8}

/-! ## The loops -/

/-- The loop of `ListAllEntries` over the entries of a cluster: the entries that it prints, and
whether it returns at the end marker. -/
def listCluster (v : Volume) : Nat → Nat → List Nat × Bool
  | 0, _ => ([], false)
  | n + 1, entry =>
      if v.mem entry = 0x00 then ([], true)
      else if v.mem entry = 0xe5 then listCluster v n (entry + directoryEntrySize)
      else if v.attr entry = kLongName then listCluster v n (entry + directoryEntrySize)
      else
        let (rest, ended) := listCluster v n (entry + directoryEntrySize)
        (entry :: rest, ended)

/-- `ListAllEntries`: the entries whose names it prints. -/
def listAllEntries (v : Volume) : Nat → Nat → Except Stop (List Nat)
  | 0, _ => .error .diverges
  | fuel + 1, dirCluster =>
      if dirCluster = kEndOfClusterchain then .ok []
      else do
        let dir ← v.getSectorByCluster dirCluster
        let (listed, ended) := v.listCluster (v.bytesPerCluster / directoryEntrySize) dir
        if ended then .ok listed
        else do
          let next ← v.nextCluster dirCluster
          let rest ← listAllEntries v fuel next
          .ok (listed ++ rest)

/-- The entry is printed, if the end marker does not come first. -/
def Shown (v : Volume) (e : Nat) : Prop :=
  v.mem e ≠ 0xe5 ∧ v.attr e ≠ kLongName

instance (v : Volume) (e : Nat) : Decidable (v.Shown e) :=
  inferInstanceAs (Decidable (_ ∧ _))

/-- The entries of a list that are printed. -/
def listing (v : Volume) : List Nat → List Nat
  | [] => []
  | e :: rest =>
      if v.mem e = 0 then []
      else if v.Shown e then e :: listing v rest
      else listing v rest

theorem listing_entries (n entry : Nat) (rest : List Nat) :
    v.listing (entries n entry ++ rest) =
      (v.listCluster n entry).1 ++
        if (v.listCluster n entry).2 then [] else v.listing rest := by
  induction n generalizing entry with
  | zero => rfl
  | succ n ih =>
      rw [entries, List.cons_append, listing, listCluster]
      by_cases ended : v.mem entry = 0
      · rw [if_pos ended, if_pos ended]
        rfl
      · rw [if_neg ended, if_neg ended, ih]
        by_cases deleted : v.mem entry = 0xe5
        · rw [if_pos deleted, if_neg fun shown => shown.1 deleted]
        · rw [if_neg deleted]
          by_cases long : v.attr entry = kLongName
          · rw [if_pos long, if_neg fun shown => shown.2 long]
          · rw [if_neg long, if_pos ⟨deleted, long⟩]
            rfl

/-- `ListAllEntries` goes through the list of the entries. -/
theorem listAllEntries_of_chain (valid : v.bpb.Valid) (chain : v.Chain first l) (fuel : Nat)
    (enough : l.length < fuel) : v.listAllEntries fuel first = .ok (v.listing (v.slots l)) := by
  rcases chain with ⟨path, inside⟩
  induction path generalizing fuel with
  | @last a ends =>
      rcases fuel with _ | _ | fuel
      · cases enough
      · exact absurd enough (by simp)
      · have has := inside a List.mem_cons_self
        have split := v.listing_entries (v.bytesPerCluster / directoryEntrySize)
          (v.bpb.getClusterAddr a) []
        rw [List.append_nil, ← clusterSlots] at split
        rw [listAllEntries, if_neg (ne_kEndOfClusterchain valid has), getSectorByCluster_of_has has,
          slots, List.flatMap_singleton, split]
        simp only [bind, Except.bind]
        split
        · rw [List.append_nil]
        · simp [nextCluster_of_has has, ends, listAllEntries, listing]
  | @link a b l follows rest ih =>
      cases fuel with
      | zero => cases enough
      | succ fuel =>
          have has := inside a List.mem_cons_self
          have later := ih fuel (Nat.lt_of_succ_lt_succ enough)
            fun c member => inside c (List.mem_cons_of_mem _ member)
          rw [listAllEntries, if_neg (ne_kEndOfClusterchain valid has), getSectorByCluster_of_has has,
            slots, List.flatMap_cons, clusterSlots, listing_entries]
          simp only [bind, Except.bind]
          split
          · rw [List.append_nil]
          · simp only [nextCluster_of_has has, follows, Option.getD_some, later]
            rfl

/-! ## What is found and what is printed -/

/-- What a lookup finds is the first entry with the name, and there is no end marker before it. -/
theorem lookup_eq_some_iff :
    v.lookup pathElem s = some e ↔
      ∃ before after, s = before ++ e :: after ∧
        (∀ b ∈ before, v.mem b ≠ 0 ∧ v.nameIsEqual b pathElem = false) ∧
        v.mem e ≠ 0 ∧ v.nameIsEqual e pathElem = true := by
  induction s with
  | nil =>
      constructor
      · intro found
        cases found
      · rintro ⟨before, after, split, -⟩
        simp at split
  | cons d s ih =>
      rw [lookup]
      constructor
      · intro found
        split at found
        · cases found
        · rename_i used
          split at found
          · rename_i equal
            cases found
            exact ⟨[], s, rfl, by simp, used, equal⟩
          · rename_i different
            rcases ih.mp found with ⟨before, after, rfl, skipped, facts⟩
            refine ⟨d :: before, after, rfl, ?_, facts⟩
            intro b member
            rcases List.mem_cons.mp member with rfl | inBefore
            · exact ⟨used, by simpa using different⟩
            · exact skipped b inBefore
      · rintro ⟨before, after, split, skipped, used, equal⟩
        cases before with
        | nil =>
            cases split
            rw [if_neg used, if_pos equal]
        | cons b before =>
            cases split
            rcases skipped d List.mem_cons_self with ⟨usedHere, different⟩
            rw [if_neg usedHere, if_neg (by simp [different])]
            exact ih.mpr ⟨before, after, rfl,
              fun b member => skipped b (List.mem_cons_of_mem _ member), used, equal⟩

theorem shown_of_mem_listing (member : e ∈ v.listing s) : v.Shown e := by
  induction s with
  | nil => cases member
  | cons d s ih =>
      rw [listing] at member
      split at member
      · cases member
      · split at member
        · rename_i shown
          rcases List.mem_cons.mp member with rfl | later
          · exact shown
          · exact ih later
        · exact ih member

theorem mem_listing {before after : List Nat} (skipped : ∀ b ∈ before, v.mem b ≠ 0)
    (used : v.mem e ≠ 0) (shown : v.Shown e) : e ∈ v.listing (before ++ e :: after) := by
  induction before with
  | nil =>
      rw [List.nil_append, listing, if_neg used, if_pos shown]
      exact List.mem_cons_self
  | cons b before ih =>
      have later := ih fun b' member => skipped b' (List.mem_cons_of_mem _ member)
      rw [List.cons_append, listing, if_neg (skipped b List.mem_cons_self)]
      split
      · exact List.mem_cons_of_mem _ later
      · exact later

/-- The first entry with the name of the component, before the end marker, is one that is
printed. -/
def FirstIsShown (v : Volume) (l : List Nat) (pathElem : List UInt8) : Prop :=
  ∀ before e after, v.slots l = before ++ e :: after →
    (∀ b ∈ before, v.mem b ≠ 0 ∧ v.nameIsEqual b pathElem = false) → v.mem e ≠ 0 →
    v.nameIsEqual e pathElem = true → v.Shown e

/-- What `FindFile` finds in a directory is listed, exactly if the first entry with the name is
neither deleted nor a part of a long name. -/
theorem listed_iff_firstIsShown (valid : v.bpb.Valid) (chain : v.Chain first l)
    (pathElem : List UInt8) :
    (∀ e, v.findInDirectory pathElem (v.bpb.clusters + 2) first = .ok (some e) →
      ∃ listed, v.listAllEntries (v.bpb.clusters + 2) first = .ok listed ∧ e ∈ listed) ↔
    v.FirstIsShown l pathElem := by
  have enough : l.length < v.bpb.clusters + 2 := by
    have := chain.length_le
    omega
  rw [findInDirectory_of_chain valid pathElem chain _ enough,
    listAllEntries_of_chain valid chain _ enough]
  constructor
  · intro listed before e after split skipped used equal
    have found : v.lookup pathElem (v.slots l) = some e :=
      lookup_eq_some_iff.mpr ⟨before, after, split, skipped, used, equal⟩
    rcases listed e (by rw [found]) with ⟨entries, same, member⟩
    cases same
    exact shown_of_mem_listing member
  · intro shown e found
    rcases lookup_eq_some_iff.mp (Except.ok.inj found) with
      ⟨before, after, split, skipped, used, equal⟩
    refine ⟨_, rfl, ?_⟩
    rw [split]
    exact mem_listing (fun b member => (skipped b member).1) used
      (shown before e after split skipped used equal)

theorem listed_iff_firstIsShown_smallVolume :
    (∀ e, smallVolume.findInDirectory [0x41] (smallVolume.bpb.clusters + 2) 2 = .ok (some e) →
      ∃ listed, smallVolume.listAllEntries (smallVolume.bpb.clusters + 2) 2 = .ok listed ∧
        e ∈ listed) ↔
    smallVolume.FirstIsShown [2] [0x41] :=
  listed_iff_firstIsShown valid_smallBpb (chain_smallVolume (.inl rfl)) [0x41]

/-- A volume with a part of a long name whose characters are `A` and ten blanks. -/
def longNameVolume : Volume :=
  emptyVolume.putEntry (smallBpb.getClusterAddr 2) [0x41] kLongName 0

/-- The part of a long name is found as `A`, but it is not listed. -/
theorem not_listed_longNameVolume :
    ¬ ∀ (v : Volume) (first : Nat) (l : List Nat) (pathElem : List UInt8), v.bpb.Valid →
      v.Chain first l → ∀ e, v.findInDirectory pathElem (v.bpb.clusters + 2) first = .ok (some e) →
        ∃ listed, v.listAllEntries (v.bpb.clusters + 2) first = .ok listed ∧ e ∈ listed := by
  intro listed
  have chain : longNameVolume.Chain 2 [2] := ⟨.last (by decide), by decide⟩
  have enough : [2].length < longNameVolume.bpb.clusters + 2 := by decide
  have found : longNameVolume.lookup [0x41] (longNameVolume.slots [2]) =
      some (smallBpb.getClusterAddr 2) := by
    decide
  rcases listed longNameVolume 2 [2] [0x41] valid_smallBpb chain _ (by
    rw [findInDirectory_of_chain valid_smallBpb _ chain _ enough, found]) with ⟨entries, same, member⟩
  rw [listAllEntries_of_chain valid_smallBpb chain _ enough] at same
  cases same
  exact absurd (shown_of_mem_listing member).2 (by decide)

end Volume

end Mikanos.Fat
