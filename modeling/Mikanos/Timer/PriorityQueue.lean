import Mathlib.Data.List.MinMax
import Mathlib.Data.Multiset.Filter
import Mathlib.Tactic

/-!
# Priority queues

A priority queue gives its users a bag of elements and, at the top, one than which
no other is greater.  Which of several such elements is at the top depends on the
implementation and on the history of the queue, so nothing else is assumed.
-/

namespace Mikanos

/-- A priority queue for a strict order `less`: its operations, the bag of its
elements, and what the operations do to it.  The top of an empty queue is `none`. -/
structure PriorityQueue (α : Type) (less : α → α → Prop) where
  Carrier : Type
  empty : Carrier
  push : Carrier → α → Carrier
  pop : Carrier → Carrier
  top : Carrier → Option α
  elems : Carrier → Multiset α
  elems_empty : elems empty = 0
  elems_push : ∀ q a, elems (push q a) = a ::ₘ elems q
  elems_of_top_none : ∀ q, top q = none → elems q = 0
  elems_of_top_some : ∀ q a, top q = some a → elems q = a ::ₘ elems (pop q)
  not_less_of_top : ∀ q a, top q = some a → ∀ b ∈ elems q, ¬ less a b

namespace PriorityQueue

variable {α : Type} {less : α → α → Prop} (pq : PriorityQueue α less) {q : pq.Carrier}

/-- A queue with an element has a top. -/
theorem exists_top {a : α} (member : a ∈ pq.elems q) : ∃ t, pq.top q = some t := by
  cases found : pq.top q with
  | none =>
      rw [pq.elems_of_top_none q found] at member
      exact absurd member (Multiset.notMem_zero a)
  | some t => exact ⟨t, rfl⟩

/-- The list of the elements is a priority queue: the top is the first element with
the least key. -/
def ofKey [DecidableEq α] (key : α → Nat) : PriorityQueue α (fun a b => key b < key a) where
  Carrier := List α
  empty := []
  push := fun q a => q ++ [a]
  pop := fun q => match q.argmin key with
    | none => q
    | some a => q.erase a
  top := fun q => q.argmin key
  elems := fun q => (q : Multiset α)
  elems_empty := rfl
  elems_push := by
    intro q a
    rw [← Multiset.coe_add, add_comm]
    rfl
  elems_of_top_none := by
    intro q isEmpty
    rw [List.argmin_eq_none.mp isEmpty]
    rfl
  elems_of_top_some := by
    intro q a isTop
    simp only [isTop]
    exact Multiset.coe_eq_coe.mpr (List.perm_cons_erase (List.argmin_mem isTop))
  not_less_of_top := by
    intro q a isTop b member
    exact List.not_lt_of_mem_argmin (Multiset.mem_coe.mp member) isTop

end PriorityQueue
end Mikanos
