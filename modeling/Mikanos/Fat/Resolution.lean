import Mikanos.Fat.Tree
import Mathlib.Data.List.TakeWhile

/-!
# Resolving paths

`FindFile` takes the elements of a path one after another.  At a slash where it
expects an element it starts again at the root directory.  So the result for a
path that continues another one follows from the result for that one, unless two
slashes stand between them.
-/

namespace Mikanos.Fat

open Mikanos.Memory Mikanos.Chain

/-- The path without the slash that it begins with. -/
def relativePath (path : List UInt8) : List UInt8 :=
  if path.head? = some slash then path.tail else path

namespace Volume

variable {v v' : Volume}

/-- The directory in which a path begins. -/
def startDirectory (v : Volume) (path : List UInt8) (directoryCluster : Nat) : Nat :=
  if path.head? = some slash then v.bpb.rootCluster
  else if directoryCluster = 0 then v.bpb.rootCluster
  else directoryCluster

/-- The searches that the recursion of `FindFile` makes: directories, with the
elements that are looked for. -/
def searchesLoop (v : Volume) : Nat → List UInt8 → Nat → List (Nat × List UInt8)
  | 0, _, _ => []
  | fuel + 1, path, directoryCluster =>
      let directoryCluster := v.startDirectory path directoryCluster
      match nextPathElement (relativePath path) with
      | .error _ => []
      | .ok (pathElem, nextPath) =>
          (directoryCluster, pathElem) ::
            match v.findInDirectory pathElem (v.bpb.clusters + 2) directoryCluster with
            | .ok (some entry) =>
                if v.attr entry = kDirectory ∧ ¬ (nextPath = none ∨ nextPath = some []) then
                  searchesLoop v fuel (nextPath.getD []) (v.firstCluster entry)
                else []
            | _ => []

/-- The searches of `FindFile`. -/
def searches (v : Volume) (path : List UInt8) (directoryCluster : Nat) :
    List (Nat × List UInt8) :=
  v.searchesLoop (path.length + 1) path directoryCluster

/-- What a call of `FindFile` does once it knows what its element refers to. -/
def follow (v : Volume) (fuel : Nat) (nextPath : Option (List UInt8)) :
    Option Nat → Except Stop (Option Nat × Bool)
  | none => .ok (none, nextPath.isSome)
  | some entry =>
      if v.attr entry = kDirectory ∧ ¬ (nextPath = none ∨ nextPath = some []) then
        v.findFileLoop fuel (nextPath.getD []) (v.firstCluster entry)
      else .ok (some entry, nextPath.isSome)

theorem findFileLoop_succ (fuel : Nat) (path : List UInt8) (d : Nat) :
    v.findFileLoop (fuel + 1) path d =
      (nextPathElement (relativePath path)).bind fun element =>
        (v.findInDirectory element.1 (v.bpb.clusters + 2) (v.startDirectory path d)).bind fun found =>
          v.follow fuel element.2 found := by
  rw [findFileLoop]
  simp only [bind]
  rw [← relativePath, ← startDirectory]
  rfl

theorem mem_searchesLoop {path elem : List UInt8} {nextPath : Option (List UInt8)}
    (next : nextPathElement (relativePath path) = .ok (elem, nextPath)) (fuel d : Nat) :
    (v.startDirectory path d, elem) ∈ v.searchesLoop (fuel + 1) path d := by
  rw [searchesLoop]
  simp only [next, List.mem_cons_self]

theorem mem_searchesLoop_of_enters {path elem : List UInt8} {nextPath : Option (List UInt8)}
    {fuel d entry : Nat} (next : nextPathElement (relativePath path) = .ok (elem, nextPath))
    (search : v.findInDirectory elem (v.bpb.clusters + 2) (v.startDirectory path d) =
      .ok (some entry))
    (enters : v.attr entry = kDirectory ∧ ¬ (nextPath = none ∨ nextPath = some []))
    {s : Nat × List UInt8}
    (member : s ∈ v.searchesLoop fuel (nextPath.getD []) (v.firstCluster entry)) :
    s ∈ v.searchesLoop (fuel + 1) path d := by
  rw [searchesLoop]
  simp only [next, search, if_pos enters]
  exact List.mem_cons_of_mem _ member

/-! ## Elements -/

theorem nextPathElement_last {elem : List UInt8} (noSlash : slash ∉ elem) :
    nextPathElement elem = if 12 < elem.length then .error .pathElem else .ok (elem, none) := by
  have all : ∀ c ∈ elem, decide (c ≠ slash) = true := by
    intro c member
    rw [decide_eq_true_eq]
    rintro rfl
    exact noSlash member
  rw [nextPathElement, List.takeWhile_eq_self_iff.mpr all, List.dropWhile_eq_nil_iff.mpr all]
  rfl

theorem nextPathElement_slash {elem : List UInt8} (noSlash : slash ∉ elem) (rest : List UInt8) :
    nextPathElement (elem ++ slash :: rest) =
      if 12 < elem.length then .error .pathElem else .ok (elem, some rest) := by
  have all : ∀ c ∈ elem, decide (c ≠ slash) = true := by
    intro c member
    rw [decide_eq_true_eq]
    rintro rfl
    exact noSlash member
  rw [nextPathElement, List.takeWhile_append_of_pos all, List.dropWhile_append_of_pos all,
    List.takeWhile_cons_of_neg (by simp), List.dropWhile_cons_of_neg (by simp), List.append_nil]
  rfl

/-- A path is one element, or an element with a slash behind it. -/
theorem element_cases (path : List UInt8) :
    slash ∉ path ∨ ∃ elem rest, slash ∉ elem ∧ path = elem ++ slash :: rest := by
  by_cases member : slash ∈ path
  · rcases List.eq_append_cons_of_mem member with ⟨elem, rest, split, noSlash⟩
    exact .inr ⟨elem, rest, noSlash, split⟩
  · exact .inl member

theorem length_relativePath_le (path : List UInt8) : (relativePath path).length ≤ path.length := by
  rw [relativePath]
  split
  · rw [List.length_tail]
    omega
  · exact le_rfl

/-- The rest of a path is shorter than the path. -/
theorem length_lt_of_nextPathElement {path elem rest : List UInt8}
    (next : nextPathElement (relativePath path) = .ok (elem, some rest)) :
    rest.length < path.length := by
  have le := length_relativePath_le path
  rcases element_cases (relativePath path) with last | ⟨elem', rest', noSlash, split⟩
  · rw [nextPathElement_last last] at next
    split at next
    · cases next
    · cases next
  · rw [split, nextPathElement_slash noSlash] at next
    split at next
    · cases next
    · cases next
      rw [split, List.length_append, List.length_cons] at le
      omega

/-! ## Fuel -/

/-- Fuel beyond the length of the path does not matter. -/
theorem findFileLoop_fuel (fuel fuel' : Nat) (path : List UInt8) (d : Nat)
    (enough : path.length < fuel) (enough' : path.length < fuel') :
    v.findFileLoop fuel path d = v.findFileLoop fuel' path d := by
  induction fuel generalizing fuel' path d with
  | zero => cases enough
  | succ fuel ih =>
      cases fuel' with
      | zero => cases enough'
      | succ fuel' =>
          rw [findFileLoop_succ, findFileLoop_succ]
          cases next : nextPathElement (relativePath path) with
          | error stop => rfl
          | ok element =>
              rcases element with ⟨elem, nextPath⟩
              have same (found : Option Nat) :
                  v.follow fuel nextPath found = v.follow fuel' nextPath found := by
                cases found with
                | none => rfl
                | some entry =>
                    rw [follow, follow]
                    split
                    · rename_i goes
                      cases nextPath with
                      | none => exact absurd (.inl rfl) goes.2
                      | some rest =>
                          have lt := length_lt_of_nextPathElement next
                          exact ih fuel' rest _ (by omega) (by omega)
                    · rfl
              simp only [Except.bind, same]

/-! ## Longer paths -/

/-- The entry that a path refers to. -/
def entryAt (v : Volume) (path : List UInt8) (directoryCluster : Nat) : Except Stop (Option Nat) :=
  (v.findFile path directoryCluster).map Prod.fst

/-- Going on with the rest of a path. -/
def entryFrom (v : Volume) (rest : List UInt8) : Option Nat → Except Stop (Option Nat)
  | none => .ok none
  | some entry =>
      if v.attr entry = kDirectory ∧ rest ≠ [] then v.entryAt rest (v.firstCluster entry)
      else .ok (some entry)

theorem entryAt_eq (path : List UInt8) (d : Nat) :
    v.entryAt path d =
      (nextPathElement (relativePath path)).bind fun element =>
        (v.findInDirectory element.1 (v.bpb.clusters + 2) (v.startDirectory path d)).bind
          (v.entryFrom (element.2.getD [])) := by
  rw [entryAt, findFile, findFileLoop_succ]
  cases next : nextPathElement (relativePath path) with
  | error stop => rfl
  | ok element =>
      rcases element with ⟨elem, nextPath⟩
      simp only [Except.bind]
      cases v.findInDirectory elem (v.bpb.clusters + 2) (v.startDirectory path d) with
      | error stop => rfl
      | ok found =>
          cases found with
          | none => rfl
          | some entry =>
              simp only [follow, entryFrom]
              have last : (nextPath = none ∨ nextPath = some []) ↔ nextPath.getD [] = [] := by
                cases nextPath <;> simp
              simp only [last, ne_eq]
              split
              · rename_i goes
                cases nextPath with
                | none => exact absurd rfl goes.2
                | some rest =>
                    have lt := length_lt_of_nextPathElement next
                    have same := findFileLoop_fuel (v := v) path.length (rest.length + 1) rest
                      (v.firstCluster entry) lt (Nat.lt_succ_self _)
                    exact congrArg (Except.map Prod.fst) same
              · rfl

theorem relativePath_append {path : List UInt8} (nonempty : path ≠ []) (rest : List UInt8) :
    relativePath (path ++ rest) = relativePath path ++ rest := by
  cases path with
  | nil => exact absurd rfl nonempty
  | cons c path =>
      rw [relativePath, relativePath]
      by_cases absolute : c = slash
      · simp [absolute]
      · simp [absolute]

theorem startDirectory_append {path : List UInt8} (nonempty : path ≠ []) (rest : List UInt8) (d : Nat) :
    v.startDirectory (path ++ rest) d = v.startDirectory path d := by
  cases path with
  | nil => exact absurd rfl nonempty
  | cons c path => rfl

/-- What is left of a path that does not end in a slash when its first slash goes. -/
theorem relativePath_last {path : List UInt8} (nonempty : path ≠ [])
    (noSlash : path.getLast? ≠ some slash) :
    relativePath path ≠ [] ∧ (relativePath path).getLast? ≠ some slash := by
  cases path with
  | nil => exact absurd rfl nonempty
  | cons c path =>
      rw [relativePath]
      split
      · rename_i absolute
        rw [List.tail_cons]
        cases path with
        | nil => exact absurd absolute noSlash
        | cons c' path =>
            rw [List.getLast?_cons_cons] at noSlash
            exact ⟨List.cons_ne_nil _ _, noSlash⟩
      · exact ⟨nonempty, noSlash⟩

/-- A path that does not end in a slash is resolved first when it is continued. -/
theorem entryAt_append {path : List UInt8} (nonempty : path ≠ [])
    (noSlash : path.getLast? ≠ some slash) (rest : List UInt8) (d : Nat) :
    v.entryAt (path ++ slash :: rest) d = (v.entryAt path d).bind (v.entryFrom rest) := by
  induction length : path.length using Nat.strong_induction_on generalizing path d with
  | _ n ih =>
      rcases relativePath_last nonempty noSlash with ⟨-, noSlashRelative⟩
      rw [entryAt_eq, entryAt_eq, relativePath_append nonempty, startDirectory_append nonempty]
      rcases element_cases (relativePath path) with last | ⟨elem, tail, noSlashElem, split⟩
      · rw [nextPathElement_slash last, nextPathElement_last last]
        split
        · rfl
        · simp only [Except.bind]
          cases v.findInDirectory (relativePath path) (v.bpb.clusters + 2) (v.startDirectory path d) with
          | error stop => rfl
          | ok found =>
              cases found with
              | none => rfl
              | some entry => simp [entryFrom]
      · have shorter : tail.length < n := by
          have le := length_relativePath_le path
          rw [split, List.length_append, List.length_cons] at le
          omega
        have tailNonempty : tail ≠ [] := by
          rintro rfl
          rw [split, List.getLast?_append] at noSlashRelative
          exact noSlashRelative rfl
        have tailNoSlash : tail.getLast? ≠ some slash := by
          rw [split, List.getLast?_append, List.getLast?_cons, Option.some_or] at noSlashRelative
          intro last
          rw [last] at noSlashRelative
          exact noSlashRelative rfl
        rw [split, List.append_assoc, List.cons_append, nextPathElement_slash noSlashElem,
          nextPathElement_slash noSlashElem]
        split
        · rfl
        · simp only [Except.bind, Option.getD_some]
          cases v.findInDirectory elem (v.bpb.clusters + 2) (v.startDirectory path d) with
          | error stop => rfl
          | ok found =>
              cases found with
              | none => rfl
              | some entry =>
                  simp only [entryFrom]
                  by_cases enters : v.attr entry = kDirectory
                  · rw [if_pos ⟨enters, by simp⟩, if_pos ⟨enters, tailNonempty⟩,
                      ih tail.length shorter tailNonempty tailNoSlash _ rfl]
                    rfl
                  · rw [if_neg fun goes => enters goes.1, if_neg fun goes => enters goes.1]
                    exact (if_neg fun goes => enters goes.1).symm

/-! ## What is found -/

theorem mem_of_nextPathElement {path elem : List UInt8} {next : Option (List UInt8)}
    (element : nextPathElement (relativePath path) = .ok (elem, next)) :
    (∀ c ∈ elem, c ∈ path) ∧ ∀ c ∈ next.getD [], c ∈ path := by
  have sub : ∀ c ∈ relativePath path, c ∈ path := by
    intro c member
    rw [relativePath] at member
    split at member
    · exact List.mem_of_mem_tail member
    · exact member
  rcases element_cases (relativePath path) with last | ⟨elem', rest, noSlash, split⟩
  · rw [nextPathElement_last last] at element
    split at element
    · cases element
    · cases element
      exact ⟨sub, fun c member => absurd member List.not_mem_nil⟩
  · rw [split, nextPathElement_slash noSlash] at element
    rw [split] at sub
    split at element
    · cases element
    · cases element
      constructor
      · exact fun c member => sub c (List.mem_append_left _ member)
      · exact fun c member => sub c (List.mem_append_right _ (List.mem_cons_of_mem _ member))

theorem directory_startDirectory (path : List UInt8) {d : Nat} (start : d = 0 ∨ v.Directory d) :
    v.Directory (v.startDirectory path d) := by
  rw [startDirectory]
  split
  · exact .root
  · split
    · exact .root
    · rename_i nonzero
      exact start.resolve_left nonzero

/-- An entry that is found and has not been deleted is one in use. -/
theorem live_of_notDeleted {elem : List UInt8} {l : List Nat} {e : Nat}
    (found : v.lookup elem (v.slots l) = some e) (notDeleted : v.mem e ≠ 0xe5) : v.Live l e := by
  rcases lookup_eq_some found with ⟨member, used, named⟩
  refine ⟨member, used, notDeleted, fun isDot => dot_not_mem_name83 elem ?_⟩
  rw [← named, ← isDot]
  exact mem_name v e

theorem live_of_lookup {elem : List UInt8} {l : List Nat} {e : Nat} (ascii : IsAscii elem)
    (found : v.lookup elem (v.slots l) = some e) : v.Live l e := by
  have first := mem_name v e
  rw [(lookup_eq_some found).2.2] at first
  exact live_of_notDeleted found (head_name83 ascii first).1

theorem isDirectory_of_attr {e : Nat} (attr : v.attr e = kDirectory) : v.IsDirectory e := by
  rw [IsDirectory, attr]
  decide

/-- In a well-formed volume a directory is searched entry by entry. -/
theorem Tree.findInDirectory (tree : v.Tree) {d : Nat} (isDirectory : v.Directory d)
    (elem : List UInt8) :
    ∃ l, v.Chain d l ∧
      v.findInDirectory elem (v.bpb.clusters + 2) d = .ok (v.lookup elem (v.slots l)) := by
  rcases tree.chain isDirectory with ⟨l, chain⟩
  have enough : l.length < v.bpb.clusters + 2 := by
    have := chain.length_le
    omega
  exact ⟨l, chain, findInDirectory_of_chain tree.valid elem chain _ enough⟩

/-- What a path refers to is an entry in use of a directory. -/
theorem Tree.live_of_findFileLoop (tree : v.Tree) {fuel : Nat} {path : List UInt8} {d e : Nat}
    {post : Bool} (ascii : IsAscii path) (start : d = 0 ∨ v.Directory d)
    (found : v.findFileLoop fuel path d = .ok (some e, post)) :
    ∃ d' l, v.Directory d' ∧ v.Chain d' l ∧ v.Live l e := by
  induction fuel generalizing path d with
  | zero => cases found
  | succ fuel ih =>
      rw [findFileLoop_succ] at found
      cases next : nextPathElement (relativePath path) with
      | error stop =>
          rw [next] at found
          cases found
      | ok element =>
          rcases element with ⟨elem, nextPath⟩
          rcases mem_of_nextPathElement next with ⟨elemSub, restSub⟩
          have isDirectory := directory_startDirectory path start
          rcases tree.findInDirectory isDirectory elem with ⟨l, chain, search⟩
          rw [next] at found
          simp only [Except.bind, search] at found
          cases entry : v.lookup elem (v.slots l) with
          | none =>
              rw [entry] at found
              cases found
          | some entry' =>
              have live := live_of_lookup (fun c member => ascii c (elemSub c member)) entry
              rw [entry] at found
              simp only [follow] at found
              split at found
              · rename_i goes
                exact ih (fun c member => ascii c (restSub c member))
                  (.inr (.sub isDirectory chain live (isDirectory_of_attr goes.1))) found
              · cases found
                exact ⟨_, l, isDirectory, chain, live⟩

/-- When a path is resolved every search has found something. -/
theorem found_of_findFileLoop {fuel : Nat} {path : List UInt8} {d e : Nat} {post : Bool}
    (found : v.findFileLoop fuel path d = .ok (some e, post)) :
    ∀ s ∈ v.searchesLoop fuel path d,
      ∃ e', v.findInDirectory s.2 (v.bpb.clusters + 2) s.1 = .ok (some e') := by
  induction fuel generalizing path d with
  | zero => cases found
  | succ fuel ih =>
      rw [findFileLoop_succ] at found
      rw [searchesLoop]
      cases next : nextPathElement (relativePath path) with
      | error stop =>
          rw [next] at found
          cases found
      | ok element =>
          rcases element with ⟨elem, nextPath⟩
          rw [next] at found
          simp only [Except.bind] at found
          simp only
          cases search : v.findInDirectory elem (v.bpb.clusters + 2) (v.startDirectory path d) with
          | error stop =>
              rw [search] at found
              cases found
          | ok result =>
              cases result with
              | none =>
                  rw [search] at found
                  cases found
              | some entry =>
                  rw [search] at found
                  simp only [follow] at found
                  intro s member
                  rcases List.mem_cons.mp member with rfl | later
                  · exact ⟨entry, search⟩
                  · simp only at later
                    split at later
                    · rename_i goes
                      rw [if_pos goes] at found
                      exact ih found s later
                    · cases later

end Volume

end Mikanos.Fat
