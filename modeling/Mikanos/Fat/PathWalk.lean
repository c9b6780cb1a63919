import Mikanos.Fat.Creation

/-!
# Walking a path

What a path refers to: its components are looked up one after another, each in the directory
that has been found before, and it does not matter how many slashes stand between them.
`FindFile` does this unless a component is too long for its buffer, or two slashes follow a
directory; then it goes on in the root directory.
-/

namespace Mikanos.Fat

open Mikanos.Memory Mikanos.Chain

/-! ## Paths -/

/-- A component of a path, with the number of slashes behind it. -/
abbrev Component := List UInt8 × Nat

/-- Components are neither empty nor contain slashes, and there are slashes between them. -/
def Separated : List Component → Prop
  | [] => True
  | (c, slashes) :: rest => c ≠ [] ∧ slash ∉ c ∧ (rest ≠ [] → 0 < slashes) ∧ Separated rest

/-- The characters of components. -/
def renderParts (parts : List Component) : List UInt8 :=
  parts.flatMap fun part => part.1 ++ List.replicate part.2 slash

/-- A path: perhaps slashes, and components. -/
structure PathText where
  leading : Nat
  parts : List Component
  separated : Separated parts

/-- The characters of a path. -/
def PathText.render (text : PathText) : List UInt8 :=
  List.replicate text.leading slash ++ renderParts text.parts

namespace Volume

variable {v : Volume} {d first e : Nat} {l : List Nat} {parts rest : List Component}

/-! ## The walk -/

/-- The clusters of the chain that begins with a cluster. -/
def clustersFrom (v : Volume) : Nat → Nat → List Nat
  | 0, _ => []
  | fuel + 1, c => c :: (v.next c).elim [] (clustersFrom v fuel)

/-- The first entry of a directory with the name of the component. -/
def find (v : Volume) (d : Nat) (c : List UInt8) : Option Nat :=
  v.lookup c (v.slots (v.clustersFrom v.bpb.clusters d))

/-- Zero stands for the root directory. -/
def home (v : Volume) (d : Nat) : Nat :=
  if d = 0 then v.bpb.rootCluster else d

/-- The entry that components lead to, and whether a slash follows its component.  The walk ends
at an entry that is not a directory. -/
def walk (v : Volume) : Nat → List Component → Option (Nat × Bool)
  | _, [] => none
  | d, (c, slashes) :: rest =>
      match v.find d c with
      | none => none
      | some e =>
          if v.attr e = kDirectory ∧ rest ≠ [] then walk v (v.home (v.firstCluster e)) rest
          else some (e, decide (0 < slashes))

/-- The components that are looked up, and what is found. -/
def met (v : Volume) : Nat → List Component → List (Component × Option Nat)
  | _, [] => []
  | d, (c, slashes) :: rest =>
      ((c, slashes), v.find d c) ::
        match v.find d c with
        | none => []
        | some e =>
            if v.attr e = kDirectory ∧ rest ≠ [] then met v (v.home (v.firstCluster e)) rest
            else []

/-- The components fit `path_elem`. -/
def FitPathElem (met : List (Component × Option Nat)) : Prop :=
  ∀ m ∈ met, m.1.1.length ≤ 12

instance (met : List (Component × Option Nat)) : Decidable (FitPathElem met) :=
  inferInstanceAs (Decidable (∀ m ∈ met, _))

/-- One slash at most follows a directory that is found, and it has not been deleted. -/
def Single (v : Volume) (met : List (Component × Option Nat)) : Prop :=
  ∀ m ∈ met, ∀ e ∈ m.2, v.attr e = kDirectory → m.1.2 ≤ 1 ∧ v.mem e ≠ 0xe5

instance (v : Volume) (met : List (Component × Option Nat)) : Decidable (v.Single met) :=
  inferInstanceAs (Decidable (∀ m ∈ met, ∀ e ∈ m.2, _))

theorem fitPathElem_cons {m : Component × Option Nat} {met : List (Component × Option Nat)} :
    FitPathElem (m :: met) ↔ m.1.1.length ≤ 12 ∧ FitPathElem met :=
  List.forall_mem_cons

theorem single_cons {m : Component × Option Nat} {met : List (Component × Option Nat)} :
    v.Single (m :: met) ↔
      (∀ e ∈ m.2, v.attr e = kDirectory → m.1.2 ≤ 1 ∧ v.mem e ≠ 0xe5) ∧ v.Single met :=
  List.forall_mem_cons

/-- The result is the entry that is expected; what comes with a null pointer does not matter. -/
def Answers (result : Except Stop (Option Nat × Bool)) (expected : Option (Nat × Bool)) : Prop :=
  ∃ found post, result = .ok (found, post) ∧ found = expected.map Prod.fst ∧
    ∀ e followed, expected = some (e, followed) → post = followed

/-! ## Directories -/

theorem clustersFrom_of_chain (chain : v.Chain first l) {fuel : Nat} (enough : l.length ≤ fuel) :
    v.clustersFrom fuel first = l := by
  rcases chain with ⟨path, -⟩
  induction path generalizing fuel with
  | last ends =>
      cases fuel with
      | zero => cases enough
      | succ fuel => rw [clustersFrom, ends, Option.elim_none]
  | link follows rest ih =>
      cases fuel with
      | zero => cases enough
      | succ fuel =>
          rw [clustersFrom, follows, Option.elim_some, ih (Nat.le_of_succ_le_succ enough)]

theorem Tree.find_eq (tree : v.Tree) (isDirectory : v.Directory d) (c : List UInt8) :
    v.findInDirectory c (v.bpb.clusters + 2) d = .ok (v.find d c) ∧
      ∃ l, v.Chain d l ∧ v.find d c = v.lookup c (v.slots l) := by
  rcases tree.findInDirectory isDirectory c with ⟨l, chain, search⟩
  have same : v.find d c = v.lookup c (v.slots l) := by
    rw [find, clustersFrom_of_chain chain chain.length_le]
  exact ⟨same.symm ▸ search, l, chain, same⟩

theorem Tree.home_eq (tree : v.Tree) (isDirectory : v.Directory d) : v.home d = d := by
  rcases tree.chain isDirectory with ⟨l, chain⟩
  have has := chain.inside d chain.path.head_mem
  rw [home, if_neg]
  rintro rfl
  exact absurd has.1 (by decide)

/-- No entry has an empty name. -/
theorem Tree.find_nil (tree : v.Tree) (isDirectory : v.Directory d) : v.find d [] = none := by
  rcases (tree.find_eq isDirectory []).2 with ⟨l, chain, same⟩
  rw [same]
  cases found : v.lookup [] (v.slots l) with
  | none => rfl
  | some e =>
      have first := mem_name v e
      rw [(lookup_eq_some found).2.2] at first
      have blank : v.mem e = space := List.eq_of_mem_replicate first
      have live := live_of_notDeleted found (by rw [blank]; decide)
      exact absurd blank (tree.named isDirectory chain live)

/-! ## The calls of `FindFile` -/

/-- The first component of a path, and what `NextPathElement` leaves of the path. -/
theorem nextPathElement_renderParts {c : List UInt8} {slashes : Nat}
    (separated : Separated ((c, slashes) :: rest)) :
    relativePath (renderParts ((c, slashes) :: rest)) = renderParts ((c, slashes) :: rest) ∧
      nextPathElement (renderParts ((c, slashes) :: rest)) =
        if 12 < c.length then .error .pathElem
        else .ok (c, if slashes = 0 then none
          else some (List.replicate (slashes - 1) slash ++ renderParts rest)) := by
  rcases separated with ⟨nonempty, noSlash, between, -⟩
  have path : renderParts ((c, slashes) :: rest) =
      c ++ (List.replicate slashes slash ++ renderParts rest) := by
    rw [renderParts, List.flatMap_cons, List.append_assoc, ← renderParts]
  constructor
  · cases c with
    | nil => exact absurd rfl nonempty
    | cons x c =>
        rw [path, relativePath, if_neg]
        rintro isSlash
        rw [List.cons_append, List.head?_cons, Option.some.injEq] at isSlash
        exact noSlash (isSlash ▸ List.mem_cons_self)
  · cases slashes with
    | zero =>
        have isLast : rest = [] := by
          by_contra more
          exact absurd (between more) (Nat.lt_irrefl 0)
        rw [path, isLast, renderParts, List.flatMap_nil, List.replicate_zero, List.append_nil,
          List.append_nil, nextPathElement_last noSlash, if_pos rfl]
    | succ k =>
        rw [path, List.replicate_succ, List.cons_append, nextPathElement_slash noSlash,
          if_neg (Nat.succ_ne_zero k), Nat.add_sub_cancel]

theorem renderParts_ne_nil (separated : Separated parts) (nonempty : parts ≠ []) :
    renderParts parts ≠ [] := by
  cases parts with
  | nil => exact absurd rfl nonempty
  | cons part rest =>
      intro none
      rw [renderParts, List.flatMap_cons, List.append_eq_nil_iff, List.append_eq_nil_iff] at none
      exact separated.1 none.1.1

theorem startDirectory_of_relative {path : List UInt8} (relative : relativePath path = path) (d : Nat) :
    v.startDirectory path d = v.home d := by
  rw [startDirectory, if_neg, home]
  intro absolute
  rw [relativePath, if_pos absolute] at relative
  cases path with
  | nil => cases absolute
  | cons c path =>
      have lengths := congrArg List.length relative
      simp at lengths

/-- A call of `FindFile` for components in a directory. -/
theorem Tree.findFileLoop_parts (tree : v.Tree) (separated : Separated parts)
    (isDirectory : v.Directory d) (single : v.Single (v.met d parts)) {fuel : Nat}
    (enough : (renderParts parts).length < fuel) :
    (FitPathElem (v.met d parts) → Answers (v.findFileLoop fuel (renderParts parts) d) (v.walk d parts)) ∧
      (¬ FitPathElem (v.met d parts) → v.findFileLoop fuel (renderParts parts) d = .error .pathElem) := by
  induction parts generalizing d fuel with
  | nil =>
      cases fuel with
      | zero => cases enough
      | succ fuel =>
          constructor
          · intro _
            refine ⟨none, false, ?_, rfl, fun _ _ none => by cases none⟩
            rw [findFileLoop_succ, show relativePath (renderParts []) = [] from rfl,
              nextPathElement_last List.not_mem_nil, if_neg (by simp),
              startDirectory_of_relative rfl, tree.home_eq isDirectory]
            simp only [Except.bind, (tree.find_eq isDirectory []).1, tree.find_nil isDirectory]
            rfl
          · exact fun misfit => absurd (fun m member => by cases member) misfit
  | cons part rest ih =>
      rcases part with ⟨c, slashes⟩
      rcases nextPathElement_renderParts separated with ⟨relative, next⟩
      rcases separated with ⟨-, -, between, separatedRest⟩
      cases fuel with
      | zero => cases enough
      | succ fuel =>
          rw [findFileLoop_succ, relative, next, startDirectory_of_relative relative,
            tree.home_eq isDirectory, walk, met]
          rw [met] at single
          by_cases long : 12 < c.length
          · rw [if_pos long]
            constructor
            · intro fits
              exact absurd (fits _ List.mem_cons_self) (by simpa using long)
            · exact fun _ => rfl
          · rw [if_neg long]
            simp only [Except.bind, (tree.find_eq isDirectory c).1]
            have short : c.length ≤ 12 := by omega
            rw [single_cons] at single
            simp only [fitPathElem_cons, short, true_and]
            cases found : v.find d c with
            | none =>
                constructor
                · intro _
                  exact ⟨none, _, rfl, rfl, fun _ _ none => by cases none⟩
                · exact fun misfit => absurd (fun m member => by cases member) misfit
            | some e =>
                have single₀ : v.attr e = kDirectory → slashes ≤ 1 ∧ v.mem e ≠ 0xe5 :=
                  single.1 e (by rw [found]; rfl)
                simp only [follow]
                by_cases enters : v.attr e = kDirectory ∧ rest ≠ []
                · -- one slash follows the directory, and the rest of the path is not empty
                  rcases single₀ enters.1 with ⟨one, notDeleted⟩
                  have slash : slashes = 1 := by
                    have := between enters.2
                    omega
                  subst slash
                  have more := renderParts_ne_nil separatedRest enters.2
                  rcases (tree.find_eq isDirectory c).2 with ⟨l, chain, same⟩
                  have live := live_of_notDeleted (same ▸ found) notDeleted
                  have sub : v.Directory (v.firstCluster e) :=
                    .sub isDirectory chain live (isDirectory_of_attr enters.1)
                  have later := single.2
                  rw [found] at later
                  simp only [if_pos enters, tree.home_eq sub] at later
                  have shorter : (renderParts rest).length < fuel := by
                    rw [renderParts, List.flatMap_cons, List.length_append, List.length_append,
                      List.length_replicate, ← renderParts] at enough
                    omega
                  simp only [if_pos enters, tree.home_eq sub]
                  rw [if_pos ⟨enters.1, by simpa using more⟩]
                  exact ih separatedRest sub later shorter
                · simp only [if_neg enters]
                  constructor
                  · intro _
                    refine ⟨some e, decide (0 < slashes), ?_, rfl, fun _ _ same => by cases same; rfl⟩
                    rw [if_neg]
                    · cases slashes <;> rfl
                    · rintro ⟨attr, notLast⟩
                      have isLast : rest = [] := not_not.mp fun more => enters ⟨attr, more⟩
                      have one := (single₀ attr).1
                      apply notLast
                      rw [isLast]
                      interval_cases slashes
                      · exact .inl rfl
                      · exact .inr rfl
                  · exact fun misfit => absurd (fun m member => by cases member) misfit

theorem relativePath_renderParts (separated : Separated parts) :
    relativePath (renderParts parts) = renderParts parts := by
  cases parts with
  | nil => rfl
  | cons part rest => exact (nextPathElement_renderParts separated).1

/-- The directory in which a path begins. -/
def startOf (v : Volume) (text : PathText) (d : Nat) : Nat :=
  if text.leading = 0 then v.home d else v.bpb.rootCluster

theorem directory_startOf (text : PathText) (start : d = 0 ∨ v.Directory d) :
    v.Directory (v.startOf text d) := by
  rw [startOf]
  split
  · rw [home]
    split
    · exact .root
    · rename_i nonzero
      exact start.resolve_left nonzero
  · exact .root

/-- With at most one slash before it, the first component is looked up where the path begins. -/
theorem Tree.findFileLoop_render (tree : v.Tree) (start : d = 0 ∨ v.Directory d) (text : PathText)
    (oneSlash : text.leading ≤ 1) (fuel : Nat) :
    v.findFileLoop (fuel + 1) text.render d =
      v.findFileLoop (fuel + 1) (renderParts text.parts) (v.startOf text d) := by
  have relative := relativePath_renderParts text.separated
  have same : relativePath text.render = renderParts text.parts ∧
      v.startDirectory text.render d = v.startOf text d := by
    rw [PathText.render, startOf]
    rcases Nat.le_one_iff_eq_zero_or_eq_one.mp oneSlash with none | one
    · rw [none, List.replicate_zero, List.nil_append, if_pos rfl]
      exact ⟨relative, startDirectory_of_relative relative d⟩
    · rw [one]
      exact ⟨rfl, rfl⟩
  rw [findFileLoop_succ, findFileLoop_succ, same.1, same.2, relative,
    startDirectory_of_relative relative, tree.home_eq (directory_startOf text start)]

end Volume

end Mikanos.Fat
