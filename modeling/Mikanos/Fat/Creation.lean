import Mikanos.Fat.Resolution

/-!
# A new file can be found

Creating a file leaves every other path as it was.  The new path refers to the
new entry exactly when `FindFile` goes through the directory that `CreateFile`
has chosen: it does not when two slashes stand before the name, and not when the
directory has further attributes.
-/

namespace Mikanos.Fat

open Mikanos.Memory Mikanos.Chain

/-- One of the searches is for the name in the directory `d`. -/
def GoesThrough (d : Nat) (filename : List UInt8) (searches : List (Nat × List UInt8)) : Prop :=
  ∃ s ∈ searches, s.1 = d ∧ name83 s.2 = name83 filename

namespace Volume

variable {v v' : Volume} {d dir : Nat} {l new : List Nat} {filename path : List UInt8}

/-- The path refers to the entry, and all other paths to what they referred to. -/
structure Resolves (v v' : Volume) (path : List UInt8) (d : Nat) (filename : List UInt8)
    (dir : Nat) : Prop where
  found : v'.entryAt path 0 = .ok (some dir)
  others : ∀ other, IsAscii other → ¬ GoesThrough d filename (v.searches other 0) →
    v'.findFile other 0 = v.findFile other 0

/-- `FindFile` goes through the directory that `CreateFile` finds for the path. -/
def Enters (v : Volume) (path : List UInt8) : Prop :=
  match strrchr path slash with
  | none => True
  | some slashPos =>
      path.take slashPos = [] ∨
        (path.take slashPos).getLast? ≠ some slash ∧
          ∃ e, v.entryAt (path.take slashPos) 0 = .ok (some e) ∧ v.attr e = kDirectory

/-! ## Other paths -/

namespace Created

/-- The entry that is taken was not in use. -/
theorem notLive (created : Created v v' d l new dir filename) (valid : v.bpb.Valid) {d' : Nat}
    {l' : List Nat} (chain : v.Chain d' l') (live : v.Live l' dir) : False := by
  rcases created.place with ⟨before, after, split, -, old⟩
  rcases old with ⟨-, isFree⟩ | ⟨rfl, -⟩
  · rw [isFreeSlot, decide_eq_true_eq] at isFree
    rcases isFree with zero | deleted
    · exact live.used zero
    · exact live.notDeleted deleted
  · rw [slots_append] at split
    have member : dir ∈ v.slots new := by
      rw [List.append_cancel_left split]
      exact List.mem_cons_self
    rcases mem_slots.mp member with ⟨c, inNew, inCluster⟩
    rcases mem_slots.mp live.member with ⟨c', inChain, inCluster'⟩
    have one := inCluster_of_mem_clusterSlots inCluster (k := 0) (by decide)
    have other := inCluster_of_mem_clusterSlots inCluster' (k := 0) (by decide)
    rw [eq_of_inCluster valid (mem_free.mp (created.isFree c inNew)).1 (chain.inside c' inChain) one
      other] at inNew
    exact chain.not_mem_of_free (created.isFree c' inNew) inChain

/-- Entries in use are as they were. -/
theorem live_same (created : Created v v' d l new dir filename) (valid : v.bpb.Valid) {d' e : Nat}
    {l' : List Nat} (chain : v.Chain d' l') (live : v.Live l' e) {k : Nat}
    (inside : k < directoryEntrySize) : v'.mem (e + k) = v.mem (e + k) := by
  rcases mem_slots.mp live.member with ⟨c, inChain, inCluster⟩
  have ne : e ≠ dir := by
    rintro rfl
    exact created.notLive valid chain live
  apply created.entry_same valid (chain.inside c inChain) _ inCluster ne inside
  exact fun inNew => chain.not_mem_of_free (created.isFree c inNew) inChain

theorem attr_same (created : Created v v' d l new dir filename) (valid : v.bpb.Valid) {d' e : Nat}
    {l' : List Nat} (chain : v.Chain d' l') (live : v.Live l' e) : v'.attr e = v.attr e :=
  created.live_same valid chain live (by decide)

theorem firstCluster_same (created : Created v v' d l new dir filename) (valid : v.bpb.Valid)
    {d' e : Nat} {l' : List Nat} (chain : v.Chain d' l') (live : v.Live l' e) :
    v'.firstCluster e = v.firstCluster e := by
  have field (offset : Nat) (inside : offset + 2 ≤ directoryEntrySize) :
      v'.mem.load (e + offset) 2 = v.mem.load (e + offset) 2 := by
    apply Mem.load_congr
    intro i lt
    rw [Nat.add_assoc]
    exact created.live_same valid chain live (by omega)
  rw [firstCluster, firstCluster, field 26 (by decide), field 20 (by decide)]

/-- A search finds what it found before, unless it is for the new name. -/
theorem search_same (created : Created v v' d l new dir filename) (tree : v.Tree)
    (isDirectory : v.Directory d) (short : IsShortName filename) {d' : Nat}
    (isDirectory' : v.Directory d') {elem : List UInt8} (ascii : IsAscii elem)
    (other : ¬ (d' = d ∧ name83 elem = name83 filename)) :
    v'.findInDirectory elem (v'.bpb.clusters + 2) d' =
      v.findInDirectory elem (v.bpb.clusters + 2) d' := by
  rcases tree.findInDirectory isDirectory' elem with ⟨l', chain, search⟩
  have valid' : v'.bpb.Valid := created.bpb.symm ▸ tree.valid
  by_cases same : d' = d
  · subst same
    have enough : (l ++ new).length < v'.bpb.clusters + 2 := by
      have := created.chain.length_le
      omega
    rw [search, findInDirectory_of_chain valid' elem created.chain _ enough,
      slots_congr created.bpb, chain.unique created.old]
    congr 1
    exact created.lookup_other tree isDirectory short ascii fun equal => other ⟨rfl, equal⟩
  · have apart := tree.apart isDirectory' isDirectory chain created.old same
    have notNew : ∀ c ∈ l', c ∉ new :=
      fun c member inNew => chain.not_mem_of_free (created.isFree c inNew) member
    have chain' : v'.Chain d' l' := by
      apply chain.congr created.bpb
      exact fun c member => created.fat c (chain.inside c member) (apart c member) (notNew c member)
    have enough : l'.length < v'.bpb.clusters + 2 := by
      have := chain'.length_le
      omega
    rw [search, findInDirectory_of_chain valid' elem chain' _ enough, slots_congr created.bpb]
    congr 1
    apply lookup_congr
    intro e member k lt
    rcases mem_slots.mp member with ⟨c, inChain, inCluster⟩
    have ne : e ≠ dir := by
      rintro rfl
      rcases mem_slots.mp created.dir_mem with ⟨c', inNewChain, inCluster'⟩
      have one := inCluster_of_mem_clusterSlots inCluster (k := 0) (by decide)
      have other := inCluster_of_mem_clusterSlots inCluster' (k := 0) (by decide)
      rw [eq_of_inCluster tree.valid (chain.inside c inChain) (created.has_cluster inNewChain) one
        other] at inChain
      rcases List.mem_append.mp inNewChain with inOld | inNew
      · exact apart c' inChain inOld
      · exact notNew c' inChain inNew
    exact created.entry_same tree.valid (chain.inside c inChain) (notNew c inChain) inCluster ne
      (lt.trans (by decide))

/-- Paths that do not go through the new name are resolved as before. -/
theorem findFileLoop_same (created : Created v v' d l new dir filename) (tree : v.Tree)
    (isDirectory : v.Directory d) (short : IsShortName filename) (fuel : Nat) {other : List UInt8}
    {start : Nat} (ascii : IsAscii other) (startDir : start = 0 ∨ v.Directory start)
    (avoids : ¬ GoesThrough d filename (v.searchesLoop fuel other start)) :
    v'.findFileLoop fuel other start = v.findFileLoop fuel other start := by
  induction fuel generalizing other start with
  | zero => rfl
  | succ fuel ih =>
      rw [findFileLoop_succ, findFileLoop_succ]
      have sameStart : v'.startDirectory other start = v.startDirectory other start := by
        rw [startDirectory, startDirectory, created.bpb]
      rw [sameStart]
      cases next : nextPathElement (relativePath other) with
      | error stop => simp only [Except.bind]
      | ok element =>
          rcases element with ⟨elem, nextPath⟩
          rcases mem_of_nextPathElement next with ⟨elemSub, restSub⟩
          have isDirectory' := directory_startDirectory other startDir
          have asciiElem : IsAscii elem := fun c member => ascii c (elemSub c member)
          have differs : ¬ (v.startDirectory other start = d ∧ name83 elem = name83 filename) :=
            fun same => avoids ⟨_, mem_searchesLoop next fuel start, same⟩
          rcases tree.findInDirectory isDirectory' elem with ⟨l', chain, search⟩
          simp only [Except.bind]
          rw [created.search_same tree isDirectory short isDirectory' asciiElem differs, search]
          cases found : v.lookup elem (v.slots l') with
          | none => rfl
          | some entry =>
              have live := live_of_lookup asciiElem found
              rw [found] at search
              simp only [follow, created.attr_same tree.valid chain live,
                created.firstCluster_same tree.valid chain live]
              split
              · rename_i goes
                apply ih (fun c member => ascii c (restSub c member))
                  (.inr (.sub isDirectory' chain live (isDirectory_of_attr goes.1)))
                rintro ⟨s, member, same⟩
                exact avoids ⟨s, mem_searchesLoop_of_enters next search goes member, same⟩
              · rfl

/-- A path that can be resolved does not go through the new name. -/
theorem avoids_of_found (absent : v.findInDirectory filename (v.bpb.clusters + 2) d = .ok none)
    (tree : v.Tree) (isDirectory : v.Directory d) {fuel start e : Nat} {other : List UInt8}
    {post : Bool} (found : v.findFileLoop fuel other start = .ok (some e, post)) :
    ¬ GoesThrough d filename (v.searchesLoop fuel other start) := by
  rintro ⟨s, member, rfl, same⟩
  rcases found_of_findFileLoop found s member with ⟨e', search⟩
  rcases tree.findInDirectory isDirectory s.2 with ⟨l, chain, search'⟩
  rcases tree.findInDirectory isDirectory filename with ⟨l', chain', search''⟩
  rw [absent, chain'.unique chain, ← lookup_name83 same] at search''
  rw [search', ← Except.ok.inj search''] at search
  cases search

/-- What the parent part of the path refers to, before and after. -/
theorem entryAt_parent (created : Created v v' d l new dir filename) (tree : v.Tree)
    (isDirectory : v.Directory d) (short : IsShortName filename)
    (absent : v.findInDirectory filename (v.bpb.clusters + 2) d = .ok none) {parent : List UInt8}
    (ascii : IsAscii parent) {e : Nat} (found : v.entryAt parent 0 = .ok (some e)) :
    v'.entryAt parent 0 = .ok (some e) ∧ ∃ d' l', v.Directory d' ∧ v.Chain d' l' ∧ v.Live l' e := by
  rw [entryAt] at found
  cases result : v.findFile parent 0 with
  | error stop =>
      rw [result] at found
      cases found
  | ok pair =>
      rcases pair with ⟨entry, post⟩
      rw [result] at found
      have same : entry = some e := Except.ok.inj found
      subst same
      have avoids := avoids_of_found absent tree isDirectory result
      have unchanged := created.findFileLoop_same tree isDirectory short (parent.length + 1) ascii
        (.inl rfl) avoids
      constructor
      · rw [entryAt, findFile, unchanged]
        exact congrArg (Except.map Prod.fst) result
      · exact tree.live_of_findFileLoop ascii (.inl rfl) result

end Created

/-! ## The new path -/

/-- A path that is one name of 8.3 format. -/
theorem entryAt_name (short : IsShortName filename) (d : Nat) :
    v.entryAt filename d =
      v.findInDirectory filename (v.bpb.clusters + 2) (v.startDirectory filename d) := by
  have relative : relativePath filename = filename := by
    rw [relativePath, if_neg]
    intro absolute
    exact short.slash_not_mem (List.mem_of_mem_head? absolute)
  rw [entryAt_eq, relative, nextPathElement_last short.slash_not_mem,
    if_neg (Nat.not_lt.mpr short.length_le)]
  simp only [Except.bind, Option.getD_none]
  cases v.findInDirectory filename (v.bpb.clusters + 2) (v.startDirectory filename d) with
  | error stop => rfl
  | ok found =>
      cases found with
      | none => rfl
      | some entry => simp [entryFrom]

theorem startDirectory_name (short : IsShortName filename) (d : Nat) :
    v.startDirectory filename d = if d = 0 then v.bpb.rootCluster else d := by
  rw [startDirectory, if_neg]
  intro absolute
  exact short.slash_not_mem (List.mem_of_mem_head? absolute)

/-- An element is expected where there is a slash, or nothing. -/
theorem Tree.entryAt_blank (tree : v.Tree) {path : List UInt8} (d : Nat)
    (blank : path = [slash] ∨ ∃ rest, path = slash :: slash :: rest) :
    v.entryAt path d = .ok none := by
  have element : ∃ next, nextPathElement (relativePath path) = .ok ([], next) := by
    rcases blank with rfl | ⟨rest, rfl⟩
    · exact ⟨none, rfl⟩
    · exact ⟨some rest, nextPathElement_slash List.not_mem_nil rest⟩
  have start : v.startDirectory path d = v.bpb.rootCluster := by
    rw [startDirectory, if_pos]
    rcases blank with rfl | ⟨rest, rfl⟩ <;> rfl
  rcases element with ⟨next, element⟩
  rcases tree.findInDirectory .root [] with ⟨l, chain, search⟩
  have none : v.lookup [] (v.slots l) = none := by
    cases found : v.lookup [] (v.slots l) with
    | none => rfl
    | some e =>
        have live := live_of_lookup (fun c member => absurd member List.not_mem_nil) found
        rcases lookup_eq_some found with ⟨-, -, named⟩
        have first := mem_name v e
        rw [named] at first
        exact absurd (List.eq_of_mem_replicate first) (tree.named .root chain live)
  rw [entryAt_eq, element, start]
  simp only [Except.bind]
  rw [search, none]
  rfl

/-- The name behind a slash is looked for in the root directory. -/
theorem entryAt_slash_name (short : IsShortName filename) (d : Nat) :
    v.entryAt (slash :: filename) d =
      v.findInDirectory filename (v.bpb.clusters + 2) v.bpb.rootCluster := by
  have relative : relativePath (slash :: filename) = relativePath filename := by
    rw [relativePath, relativePath, List.head?_cons, if_pos rfl, if_neg, List.tail_cons]
    intro absolute
    exact short.slash_not_mem (List.mem_of_mem_head? absolute)
  have named := entryAt_name (v := v) short 0
  rw [startDirectory_name short, if_pos rfl] at named
  rw [← named, entryAt_eq, entryAt_eq, relative, startDirectory_name short, if_pos rfl]
  rfl

/-- What `CreateFile` makes of a path. -/
theorem parentDirectory_cases (parent : v.parentDirectory path = .ok (.ok (d, filename))) :
    (strrchr path slash = none ∧ path = filename ∧ d = v.bpb.rootCluster) ∨
      ∃ parentName, strrchr path slash = some parentName.length ∧
        path = parentName ++ slash :: filename ∧
        (parentName = [] ∧ d = v.bpb.rootCluster ∨
          parentName ≠ [] ∧ ∃ e, v.entryAt parentName 0 = .ok (some e) ∧ d = v.firstCluster e) := by
  rw [parentDirectory] at parent
  by_cases member : slash ∈ path
  · right
    rcases exists_last member with ⟨parentName, filename, rfl, noSlash⟩
    have last := strrchr_append parentName noSlash
    have rest : (parentName ++ slash :: filename).drop (parentName.length + 1) = filename := by
      rw [← List.drop_drop, List.drop_left, List.drop_succ_cons, List.drop_zero]
    rw [last] at parent
    simp only [List.take_left, rest] at parent
    by_cases isEmpty : filename = []
    · rw [if_pos isEmpty] at parent
      cases parent
    · rw [if_neg isEmpty] at parent
      by_cases atRoot : parentName = []
      · rw [if_pos atRoot] at parent
        cases parent
        exact ⟨parentName, last, rfl, .inl ⟨atRoot, rfl⟩⟩
      · rw [if_neg atRoot] at parent
        cases result : v.findFile parentName 0 with
        | error stop =>
            rw [result] at parent
            cases parent
        | ok pair =>
            rcases pair with ⟨entry, post⟩
            rw [result] at parent
            cases entry with
            | none => cases parent
            | some e =>
                cases parent
                refine ⟨parentName, last, rfl, .inr ⟨atRoot, e, ?_, rfl⟩⟩
                rw [entryAt, result]
                rfl
  · left
    have none := strrchr_eq_none member
    rw [none] at parent
    cases parent
    exact ⟨none, rfl, rfl⟩

/-- What `CreateFile` has done when it succeeds. -/
theorem created_of_createFile (tree : v.Tree) (isDirectory : v.Directory d)
    (parent : v.parentDirectory path = .ok (.ok (d, filename)))
    (created : v.createFile path = .ok (.ok dir, v')) :
    ∃ l new, Created v v' d l new dir filename := by
  rcases tree.chain isDirectory with ⟨l, chain⟩
  rw [createFile, parent] at created
  simp only [bind, Except.bind] at created
  cases allocated : v.allocateEntry d with
  | error stop =>
      rw [allocated] at created
      cases created
  | ok result =>
      rcases result with ⟨dir', v₁⟩
      rw [allocated] at created
      cases created
      exact ⟨l, created_of_allocateEntry tree.valid chain allocated⟩

section

variable (tree : v.Tree) (isDirectory : v.Directory d) (short : IsShortName filename)
  (absent : v.findInDirectory filename (v.bpb.clusters + 2) d = .ok none)
  (created : Created v v' d l new dir filename)

include tree isDirectory short absent created

/-- The new name is found in its directory. -/
theorem search_new : v'.findInDirectory filename (v'.bpb.clusters + 2) d = .ok (some dir) := by
  have valid' : v'.bpb.Valid := created.bpb.symm ▸ tree.valid
  rcases tree.findInDirectory isDirectory filename with ⟨l', chain, search⟩
  rw [chain.unique created.old, absent] at search
  have enough : (l ++ new).length < v'.bpb.clusters + 2 := by
    have := created.chain.length_le
    omega
  rw [findInDirectory_of_chain valid' filename created.chain _ enough, slots_congr created.bpb,
    created.lookup_new tree.valid short (Except.ok.inj search).symm]

omit absent in
/-- The new name is not found in the root directory, if it is in another one. -/
theorem search_root_ne (ne : v.bpb.rootCluster ≠ d) :
    v'.findInDirectory filename (v'.bpb.clusters + 2) v.bpb.rootCluster ≠ .ok (some dir) := by
  intro found
  rw [created.search_same tree isDirectory short .root short.isAscii (fun same => ne same.1)]
    at found
  rcases tree.findInDirectory .root filename with ⟨l', chain, search⟩
  rw [found] at search
  exact created.notLive tree.valid chain
    (live_of_lookup short.isAscii (Except.ok.inj search).symm)

/-- The path of a new file behind a directory. -/
theorem entryAt_behind {parentName : List UInt8} (ascii : IsAscii parentName) {e : Nat}
    (nonempty : parentName ≠ []) (noSlash : parentName.getLast? ≠ some slash)
    (found : v.entryAt parentName 0 = .ok (some e)) (target : d = v.firstCluster e) :
    v'.entryAt (parentName ++ slash :: filename) 0 = .ok (some dir) ↔ v.attr e = kDirectory := by
  rcases created.entryAt_parent tree isDirectory short absent ascii found with
    ⟨found', d', l', -, chain, live⟩
  rw [entryAt_append nonempty noSlash, found']
  simp only [Except.bind, entryFrom, created.attr_same tree.valid chain live,
    created.firstCluster_same tree.valid chain live, ← target]
  by_cases enters : v.attr e = kDirectory
  · have nonzero : d ≠ 0 := by
      rcases tree.chain isDirectory with ⟨l'', chain'⟩
      have := (chain'.inside d chain'.path.head_mem).1
      omega
    rw [if_pos ⟨enters, short.ne_nil⟩, entryAt_name short, startDirectory_name short,
      if_neg nonzero, search_new tree isDirectory short absent created]
    exact ⟨fun _ => enters, fun _ => rfl⟩
  · rw [if_neg fun goes => enters goes.1]
    constructor
    · intro same
      cases same
      exact absurd live (created.notLive tree.valid chain)
    · exact fun goes => absurd goes enters

omit tree isDirectory short absent created in
/-- The slashes at the end of a path. -/
theorem split_slashes (path : List UInt8) :
    ∃ name slashes, path = name ++ slashes ∧ (∀ c ∈ slashes, c = slash) ∧
      name.getLast? ≠ some slash := by
  induction path using List.reverseRecOn with
  | nil => exact ⟨[], [], rfl, fun c member => absurd member List.not_mem_nil, by simp⟩
  | append_singleton path c ih =>
      by_cases isSlash : c = slash
      · rcases ih with ⟨name, slashes, rfl, all, last⟩
        refine ⟨name, slashes ++ [c], List.append_assoc .., ?_, last⟩
        intro x member
        rcases List.mem_append.mp member with inSlashes | isLast
        · exact all x inSlashes
        · rw [List.mem_singleton.mp isLast, isSlash]
      · refine ⟨path ++ [c], [], (List.append_nil _).symm, fun x member => absurd member List.not_mem_nil, ?_⟩
        rw [List.getLast?_concat]
        exact fun same => isSlash (Option.some.inj same)

/-- The path of a new file behind two slashes. -/
theorem entryAt_behind_slash {parentName : List UInt8} (ascii : IsAscii parentName) {e : Nat}
    (endsInSlash : parentName.getLast? = some slash)
    (found : v.entryAt parentName 0 = .ok (some e)) (target : d = v.firstCluster e) :
    v'.entryAt (parentName ++ slash :: filename) 0 ≠ .ok (some dir) := by
  rcases split_slashes parentName with ⟨name, slashes, rfl, allSlashes, noSlash⟩
  -- the parent name is `name`, a slash, and the other slashes
  cases slashes with
  | nil =>
      rw [List.append_nil] at endsInSlash
      exact absurd endsInSlash noSlash
  | cons c others =>
      obtain rfl : c = slash := allSlashes c List.mem_cons_self
      have blank : others = [] ∨ others = [slash] ∨ ∃ rest, others = slash :: slash :: rest := by
        rcases others with _ | ⟨c', _ | ⟨c'', rest⟩⟩
        · exact .inl rfl
        · rw [allSlashes c' (by simp)]
          exact .inr (.inl rfl)
        · rw [allSlashes c' (by simp), allSlashes c'' (by simp)]
          exact .inr (.inr ⟨rest, rfl⟩)
      by_cases atRoot : name = []
      · subst atRoot
        have none : v.entryAt (slash :: others) 0 = .ok none := by
          apply tree.entryAt_blank
          rcases blank with rfl | rfl | ⟨rest, rfl⟩
          · exact .inl rfl
          · exact .inr ⟨[], rfl⟩
          · exact .inr ⟨slash :: rest, rfl⟩
        rw [List.nil_append, none] at found
        cases found
      · have asciiName : IsAscii name := fun c member => ascii c (List.mem_append_left _ member)
        rw [entryAt_append atRoot noSlash] at found
        cases first : v.entryAt name 0 with
        | error stop =>
            rw [first] at found
            cases found
        | ok entry =>
            cases entry with
            | none =>
                rw [first] at found
                cases found
            | some z =>
                rcases created.entryAt_parent tree isDirectory short absent asciiName first with
                  ⟨first', d', l', isDirectory', chain, live⟩
                rw [first] at found
                simp only [Except.bind, entryFrom] at found
                rw [List.append_assoc, List.cons_append, entryAt_append atRoot noSlash, first']
                simp only [Except.bind, entryFrom, created.attr_same tree.valid chain live,
                  created.firstCluster_same tree.valid chain live]
                intro same
                by_cases enters : v.attr z = kDirectory
                · rcases blank with rfl | blank
                  · rw [if_neg fun goes => goes.2 rfl] at found
                    cases found
                    have notRoot := tree.notRoot isDirectory' chain live (isDirectory_of_attr enters)
                    have root : v'.bpb.rootCluster = v.bpb.rootCluster :=
                      congrArg BPB.rootCluster created.bpb
                    rw [if_pos ⟨enters, by simp⟩, List.nil_append, entryAt_slash_name short,
                      root] at same
                    exact search_root_ne tree isDirectory short created
                      (fun equal => notRoot (target.symm.trans equal.symm)) same
                  · have nonempty : others ≠ [] := by
                      rcases blank with rfl | ⟨rest, rfl⟩ <;> simp
                    rw [if_pos ⟨enters, nonempty⟩, tree.entryAt_blank _ blank] at found
                    cases found
                · rw [if_neg fun goes => enters goes.1] at same
                  cases same
                  exact created.notLive tree.valid chain live

end

/-- After a file has been created its path refers to it and all other paths to
what they referred to, exactly when `FindFile` goes through the directory. -/
theorem createFile_resolves_iff (tree : v.Tree) (ascii : IsAscii path)
    (parent : v.parentDirectory path = .ok (.ok (d, filename))) (isDirectory : v.Directory d)
    (short : IsShortName filename)
    (absent : v.findInDirectory filename (v.bpb.clusters + 2) d = .ok none)
    (success : v.createFile path = .ok (.ok dir, v')) :
    Resolves v v' path d filename dir ↔ v.Enters path := by
  rcases created_of_createFile tree isDirectory parent success with ⟨l, new, created⟩
  have others : ∀ other, IsAscii other → ¬ GoesThrough d filename (v.searches other 0) →
      v'.findFile other 0 = v.findFile other 0 :=
    fun other asciiOther avoids =>
      created.findFileLoop_same tree isDirectory short _ asciiOther (.inl rfl) avoids
  have searchNew := search_new tree isDirectory short absent created
  have root : v'.bpb.rootCluster = v.bpb.rootCluster := congrArg BPB.rootCluster created.bpb
  suffices found : v'.entryAt path 0 = .ok (some dir) ↔ v.Enters path by
    constructor
    · exact fun resolves => found.mp resolves.found
    · exact fun enters => ⟨found.mpr enters, others⟩
  rw [Enters]
  rcases parentDirectory_cases parent with ⟨none, rfl, rfl⟩ | ⟨parentName, last, rfl, place⟩
  · rw [none, entryAt_name short, startDirectory_name short, if_pos rfl, root, searchNew]
    simp
  · rw [last]
    simp only [List.take_left]
    rcases place with ⟨rfl, rfl⟩ | ⟨nonempty, e, found, target⟩
    · rw [List.nil_append, entryAt_slash_name short, root, searchNew]
      simp
    · have asciiParent : IsAscii parentName := fun c member => ascii c (List.mem_append_left _ member)
      by_cases endsInSlash : parentName.getLast? = some slash
      · have differs := entryAt_behind_slash tree isDirectory short absent created asciiParent
          endsInSlash found target
        constructor
        · exact fun same => absurd same differs
        · rintro (isEmpty | ⟨noSlash, -⟩)
          · exact absurd isEmpty nonempty
          · exact absurd endsInSlash noSlash
      · rw [entryAt_behind tree isDirectory short absent created asciiParent nonempty endsInSlash
          found target]
        constructor
        · exact fun enters => .inr ⟨endsInSlash, e, found, enters⟩
        · rintro (isEmpty | ⟨-, e', found', enters⟩)
          · exact absurd isEmpty nonempty
          · rw [found] at found'
            cases found'
            exact enters

/-! ## A small volume -/

/-- A volume of four clusters with 512 bytes each. -/
def smallBpb : BPB where
  bytesPerSector := 512
  sectorsPerCluster := 1
  reservedSectorCount := 32
  numFats := 2
  totalSectors32 := 38
  fatSize32 := 1
  rootCluster := 2

theorem valid_smallBpb : smallBpb.Valid := by
  constructor <;> decide

/-- An entry with the given fields. -/
def putEntry (v : Volume) (entry : Nat) (name : List UInt8) (attr : UInt8) (cluster : Nat) :
    Volume :=
  let v := v.fillEntry entry name
  let v : Volume := { v with mem := v.mem.fill (entry + 11) 1 attr }
  v.setFirstCluster entry cluster

/-- A volume with an empty root directory. -/
def emptyVolume : Volume :=
  ({ bpb := smallBpb, mem := fun _ => 0 } : Volume).setFat 2 kEndOfClusterchain

/-- A volume with an empty directory `A` in its root directory. -/
def smallVolume : Volume :=
  (emptyVolume.setFat 3 kEndOfClusterchain).putEntry (smallBpb.getClusterAddr 2) [0x41]
    kDirectory 3

theorem chain_smallVolume {d : Nat} (isDirectory : d = 2 ∨ d = 3) : smallVolume.Chain d [d] := by
  rcases isDirectory with rfl | rfl
  · exact .single (by decide) (by decide)
  · exact .single (by decide) (by decide)

theorem live_smallVolume {d e : Nat} {l : List Nat} (isDirectory : d = 2 ∨ d = 3)
    (chain : smallVolume.Chain d l) (live : smallVolume.Live l e) :
    e = smallBpb.getClusterAddr 2 := by
  have member := live.member
  rw [chain.unique (chain_smallVolume isDirectory)] at member
  rcases isDirectory with rfl | rfl
  · have only : ∀ e ∈ smallVolume.slots [2],
        e = smallBpb.getClusterAddr 2 ∨ smallVolume.mem e = 0 := by
      decide
    exact (only e member).resolve_right live.used
  · have none : ∀ e ∈ smallVolume.slots [3], smallVolume.mem e = 0 := by decide
    exact absurd (none e member) live.used

theorem directory_smallVolume {d : Nat} (isDirectory : smallVolume.Directory d) : d = 2 ∨ d = 3 := by
  induction isDirectory with
  | root => exact .inl rfl
  | sub _ chain live _ ih =>
      right
      rw [live_smallVolume ih chain live]
      decide

theorem tree_smallVolume : smallVolume.Tree where
  valid := valid_smallBpb
  chain := fun isDirectory => ⟨_, chain_smallVolume (directory_smallVolume isDirectory)⟩
  apart := by
    intro d d' l l' isDirectory isDirectory' chain chain' ne c member member'
    rw [chain.unique (chain_smallVolume (directory_smallVolume isDirectory))] at member
    rw [chain'.unique (chain_smallVolume (directory_smallVolume isDirectory'))] at member'
    exact ne ((List.mem_singleton.mp member).symm.trans (List.mem_singleton.mp member'))
  notRoot := by
    intro d l e isDirectory chain live _
    rw [live_smallVolume (directory_smallVolume isDirectory) chain live]
    decide
  ended := by
    intro d l before e after isDirectory chain split zero e' member
    have zeros : ∀ e ∈ (smallVolume.slots [d]).tail, smallVolume.mem e = 0 := by
      rcases directory_smallVolume isDirectory with rfl | rfl <;> decide
    rw [chain.unique (chain_smallVolume (directory_smallVolume isDirectory))] at split
    apply zeros
    rw [split]
    cases before with
    | nil => exact member
    | cons x before => exact List.mem_append_right _ (List.mem_cons_of_mem _ member)
  named := by
    intro d l e isDirectory chain live
    rw [live_smallVolume (directory_smallVolume isDirectory) chain live]
    decide

/-- `CreateFile` takes an entry that is free. -/
theorem createFile_of_slot (parent : v.parentDirectory path = .ok (.ok (d, filename)))
    (slot : v.findSlot (v.bpb.clusters + 1) d = .ok (.inl dir)) :
    v.createFile path = .ok (.ok dir, v.fillEntry dir filename) := by
  rw [createFile, parent]
  simp only [bind, Except.bind, allocateEntry]
  rw [slot]
  rfl

/-- The directory `A`. -/
theorem directory_three : smallVolume.Directory 3 := by
  have live : smallVolume.Live [2] (smallBpb.getClusterAddr 2) := by
    constructor <;> decide
  have isDirectory : smallVolume.IsDirectory (smallBpb.getClusterAddr 2) :=
    isDirectory_of_attr (by decide)
  have sub := Directory.sub .root (chain_smallVolume (.inl rfl)) live isDirectory
  have target : smallVolume.firstCluster (smallBpb.getClusterAddr 2) = 3 := by decide
  rwa [target] at sub

/-- The name `B`. -/
theorem isShortName_b : IsShortName [0x42] := by
  apply IsShortName.base
  · decide
  · decide
  · rintro c ⟨⟩
    · decide
    · contradiction

/-- The path `A/B`. -/
def oneSlash : List UInt8 := [0x41, slash, 0x42]

/-- The path `A//B`. -/
def twoSlashes : List UInt8 := [0x41, slash, slash, 0x42]

/-- The small volume with a file `B` in the directory `A`. -/
def smallVolumeWithFile : Volume :=
  smallVolume.fillEntry (smallBpb.getClusterAddr 3) [0x42]

theorem isAscii_oneSlash : IsAscii oneSlash := by
  simp [IsAscii, oneSlash, slash]

theorem createFile_resolves_iff_oneSlash :
    Resolves smallVolume smallVolumeWithFile oneSlash 3 [0x42] (smallBpb.getClusterAddr 3) ↔
      smallVolume.Enters oneSlash :=
  createFile_resolves_iff tree_smallVolume isAscii_oneSlash (by decide) directory_three
    isShortName_b (by decide)
    (createFile_of_slot (d := 3) (by decide) (by decide))

/-- The file created as `A//B` is not found as `A//B`. -/
theorem not_resolves_twoSlashes :
    smallVolume.Tree ∧ smallVolume.Directory 3 ∧ IsShortName [0x42] ∧
      smallVolume.parentDirectory twoSlashes = .ok (.ok (3, [0x42])) ∧
      smallVolume.findInDirectory [0x42] (smallVolume.bpb.clusters + 2) 3 = .ok none ∧
      smallVolume.createFile twoSlashes =
        .ok (.ok (smallBpb.getClusterAddr 3), smallVolumeWithFile) ∧
      ¬ Resolves smallVolume smallVolumeWithFile twoSlashes 3 [0x42]
        (smallBpb.getClusterAddr 3) := by
  refine ⟨tree_smallVolume, directory_three, isShortName_b, by decide, by decide,
    createFile_of_slot (d := 3) (by decide) (by decide), fun resolves => ?_⟩
  have found := resolves.found
  have missing : smallVolumeWithFile.entryAt twoSlashes 0 = .ok none := by decide
  rw [missing] at found
  cases found

end Volume

end Mikanos.Fat
