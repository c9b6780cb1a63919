import Mathlib.Tactic

/-!
# Linked chains

A store links cells by a partial successor function.  `Path next a l` says that
the cells from `a` on, up to the one without a successor, are `l`.  Such a list
has no repetitions, is determined by `a`, does not notice updates elsewhere, and
can be extended at its end.
-/

namespace Mikanos.Chain

universe u

variable {α : Type u}

/-- The cells from `a` to the end of its chain. -/
inductive Path (next : α → Option α) : α → List α → Prop
  | last {a : α} : next a = none → Path next a [a]
  | link {a b : α} {l : List α} : next a = some b → Path next b l → Path next a (a :: l)

namespace Path

variable {next next' : α → Option α} {a b : α} {l l' : List α}

theorem ne_nil (path : Path next a l) : l ≠ [] := by
  cases path <;> simp

theorem head_mem (path : Path next a l) : a ∈ l := by
  cases path <;> simp

theorem head?_eq (path : Path next a l) : l.head? = some a := by
  cases path <;> rfl

/-- A chain is determined by its first cell. -/
theorem unique (path : Path next a l) (other : Path next a l') : l = l' := by
  induction path generalizing l' with
  | last ends =>
      cases other with
      | last _ => rfl
      | link follows _ => rw [ends] at follows; cases follows
  | link follows _ ih =>
      cases other with
      | last ends => rw [ends] at follows; cases follows
      | link follows' rest =>
          rw [follows] at follows'
          cases follows'
          rw [ih rest]

/-- The chain from one of its cells on. -/
theorem suffix (path : Path next a l) (member : b ∈ l) :
    ∃ before after, l = before ++ after ∧ Path next b after := by
  induction path with
  | @last a ends =>
      rw [List.mem_singleton] at member
      subst member
      exact ⟨[], [b], rfl, .last ends⟩
  | @link a c l follows rest ih =>
      rcases List.mem_cons.mp member with rfl | inRest
      · exact ⟨[], b :: l, rfl, .link follows rest⟩
      · rcases ih inRest with ⟨before, after, rfl, path⟩
        exact ⟨a :: before, after, rfl, path⟩

theorem nodup (path : Path next a l) : l.Nodup := by
  induction path with
  | last _ => exact List.nodup_singleton _
  | @link a b l follows rest ih =>
      apply List.nodup_cons.mpr
      constructor
      · intro again
        rcases rest.suffix again with ⟨before, after, split, path⟩
        have same := path.unique (.link follows rest)
        have lengths := congrArg List.length split
        rw [same, List.length_append, List.length_cons] at lengths
        omega
      · exact ih

/-- Updates outside a chain leave it as it is. -/
theorem congr (path : Path next a l) (same : ∀ x ∈ l, next' x = next x) : Path next' a l := by
  induction path with
  | last ends =>
      apply Path.last
      rw [same _ (List.mem_singleton_self _), ends]
  | link follows _ ih =>
      apply Path.link
      · rw [same _ List.mem_cons_self, follows]
      · exact ih fun x member => same x (List.mem_cons_of_mem _ member)

/-- Every cell but the last has a successor in the chain. -/
theorem next_mem (path : Path next a l) {x y : α} (member : x ∈ l) (follows : next x = some y) :
    y ∈ l := by
  induction path with
  | last ends =>
      rw [List.mem_singleton] at member
      subst member
      rw [ends] at follows
      cases follows
  | link follows' rest ih =>
      rcases List.mem_cons.mp member with rfl | inRest
      · rw [follows'] at follows
        cases follows
        exact List.mem_cons_of_mem _ rest.head_mem
      · exact List.mem_cons_of_mem _ (ih inRest)

/-- The successor of a cell is the next one of the list. -/
theorem next_getElem (path : Path next a l) {i : Nat} {x : α} (at_i : l[i]? = some x) :
    next x = l[i + 1]? := by
  induction path generalizing i with
  | last ends =>
      cases i with
      | zero =>
          simp only [List.getElem?_cons_zero, Option.some.injEq] at at_i
          subst at_i
          exact ends
      | succ i => simp at at_i
  | @link a b l follows rest ih =>
      cases i with
      | zero =>
          simp only [List.getElem?_cons_zero, Option.some.injEq] at at_i
          subst at_i
          rw [follows, List.getElem?_cons_succ, ← rest.head?_eq, List.head?_eq_getElem?]
      | succ i => exact ih at_i

/-- The last cell has no successor. -/
theorem next_getLast (path : Path next a l) : next (l.getLast path.ne_nil) = none := by
  induction path with
  | last ends => exact ends
  | link follows rest ih =>
      rw [List.getLast_cons rest.ne_nil]
      exact ih

/-- A chain is extended by linking its last cell to another chain. -/
theorem append (path : Path next a l) (rest : Path next' b l')
    (same : ∀ x ∈ l, x ≠ l.getLast path.ne_nil → next' x = next x)
    (joint : next' (l.getLast path.ne_nil) = some b) : Path next' a (l ++ l') := by
  induction path with
  | last _ => exact .link joint rest
  | @link a c l follows tail ih =>
      rw [List.getLast_cons tail.ne_nil] at joint
      have distinct := (List.nodup_cons.mp (Path.link follows tail).nodup).1
      apply Path.link
      · rw [same a List.mem_cons_self, follows]
        rw [List.getLast_cons tail.ne_nil]
        intro isLast
        exact distinct (isLast ▸ List.getLast_mem tail.ne_nil)
      · apply ih _ joint
        intro x member notLast
        apply same x (List.mem_cons_of_mem _ member)
        rw [List.getLast_cons tail.ne_nil]
        exact notLast

/-- The same chain with another end mark. -/
theorem congr_last (path : Path next a l)
    (same : ∀ x ∈ l, x ≠ l.getLast path.ne_nil → next' x = next x)
    (ends : next' (l.getLast path.ne_nil) = none) : Path next' a l := by
  apply path.congr
  intro x member
  by_cases isLast : x = l.getLast path.ne_nil
  · rw [isLast, ends, path.next_getLast]
  · exact same x member isLast

end Path

end Mikanos.Chain
