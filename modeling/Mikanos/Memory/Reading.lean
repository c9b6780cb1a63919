import Mathlib.Tactic

/-!
# Computations that read

A computation reads from somewhere, and returns a result or fails.  What it reads is kept,
so that it can be asked where the computation has looked.  Loops are cut after a number of
rounds, and then there is no result at all.
-/

namespace Mikanos.Memory

/-- What is read, in order, and the result; `none` if the rounds do not suffice. -/
def Reading (ι ε α : Type) : Type :=
  Option (List ι × Except ε α)

namespace Reading

variable {ι ε α β : Type}

/-- Nothing is read. -/
protected def pure (a : α) : Reading ι ε α :=
  some ([], .ok a)

/-- One computation after the other; a failure ends both. -/
protected def bind (x : Reading ι ε α) (f : α → Reading ι ε β) : Reading ι ε β :=
  match x with
  | none => none
  | some (reads, .error e) => some (reads, .error e)
  | some (reads, .ok a) =>
      match f a with
      | none => none
      | some (reads', result) => some (reads ++ reads', result)

instance : Monad (Reading ι ε) where
  pure := Reading.pure
  bind := Reading.bind

/-- The rounds of a loop do not suffice. -/
def pending : Reading ι ε α :=
  none

/-- The computation fails. -/
def fail (e : ε) : Reading ι ε α :=
  some ([], .error e)

/-- Read at an index. -/
def read (contents : ι → α) (i : ι) : Reading ι ε α :=
  some ([i], .ok (contents i))

/-- The computation returns a result, and reads where it is allowed to. -/
def Yields (x : Reading ι ε α) (readable : ι → Prop) (a : α) : Prop :=
  ∃ reads, x = some (reads, .ok a) ∧ ∀ i ∈ reads, readable i

instance [DecidableEq ι] [DecidableEq ε] [DecidableEq α] : DecidableEq (Reading ι ε α) :=
  inferInstanceAs (DecidableEq (Option (List ι × Except ε α)))

variable {readable : ι → Prop}

@[simp]
theorem yields_pure {a a' : α} :
    (pure a : Reading ι ε α).Yields readable a' ↔ a' = a := by
  constructor
  · rintro ⟨reads, returned, -⟩
    cases returned
    rfl
  · rintro rfl
    exact ⟨[], rfl, fun i member => absurd member List.not_mem_nil⟩

@[simp]
theorem yields_bind {x : Reading ι ε α} {f : α → Reading ι ε β} {b : β} :
    (x >>= f).Yields readable b ↔ ∃ a, x.Yields readable a ∧ (f a).Yields readable b := by
  constructor
  · rintro ⟨reads, returned, allowed⟩
    change Reading.bind x f = _ at returned
    match x, returned with
    | some (first, .ok a), returned =>
        rw [Reading.bind] at returned
        split at returned
        · cases returned
        · rename_i rest result last
          cases returned
          exact ⟨a, ⟨first, rfl, fun i member => allowed i (List.mem_append_left _ member)⟩, rest, last,
            fun i member => allowed i (List.mem_append_right _ member)⟩
  · rintro ⟨a, ⟨first, rfl, allowed⟩, rest, last, allowed'⟩
    refine ⟨first ++ rest, ?_, ?_⟩
    · change Reading.bind _ f = _
      rw [Reading.bind, last]
    · intro i member
      rcases List.mem_append.mp member with member | member
      · exact allowed i member
      · exact allowed' i member

@[simp]
theorem not_yields_pending {a : α} : ¬ (pending : Reading ι ε α).Yields readable a := by
  rintro ⟨reads, returned, -⟩
  cases returned

@[simp]
theorem not_yields_fail {e : ε} {a : α} : ¬ (fail e : Reading ι ε α).Yields readable a := by
  rintro ⟨reads, returned, -⟩
  cases returned

@[simp]
theorem yields_read {contents : ι → α} {i : ι} {a : α} :
    (read contents i : Reading ι ε α).Yields readable a ↔ readable i ∧ a = contents i := by
  constructor
  · rintro ⟨reads, returned, allowed⟩
    cases returned
    exact ⟨allowed i (List.mem_singleton_self i), rfl⟩
  · rintro ⟨allowed, rfl⟩
    exact ⟨[i], rfl, fun j member => List.mem_singleton.mp member ▸ allowed⟩

/-- The first computation can return one thing only. -/
theorem yields_bind_of {x : Reading ι ε α} {f : α → Reading ι ε β} {b : β} {allowed : Prop} {a : α}
    (result : ∀ a', x.Yields readable a' ↔ allowed ∧ a' = a) :
    (x >>= f).Yields readable b ↔ allowed ∧ (f a).Yields readable b := by
  simp only [yields_bind, result]
  constructor
  · rintro ⟨_, ⟨meets, rfl⟩, rest⟩
    exact ⟨meets, rest⟩
  · rintro ⟨meets, rest⟩
    exact ⟨a, ⟨meets, rfl⟩, rest⟩

theorem exists_yields_pure (a : α) : ∃ a', (pure a : Reading ι ε α).Yields readable a' :=
  ⟨a, yields_pure.mpr rfl⟩

theorem exists_yields_bind {x : Reading ι ε α} {f : α → Reading ι ε β}
    (first : ∃ a, x.Yields readable a) (rest : ∀ a, ∃ b, (f a).Yields readable b) :
    ∃ b, (x >>= f).Yields readable b := by
  rcases first with ⟨a, yields⟩
  rcases rest a with ⟨b, yields'⟩
  exact ⟨b, yields_bind.mpr ⟨a, yields, yields'⟩⟩

theorem exists_yields_bind_of {x : Reading ι ε α} {f : α → Reading ι ε β} {allowed : Prop} {a : α}
    (result : ∀ a', x.Yields readable a' ↔ allowed ∧ a' = a) :
    (∃ b, (x >>= f).Yields readable b) ↔ allowed ∧ ∃ b, (f a).Yields readable b := by
  simp only [yields_bind_of result, exists_and_left]

/-- There is one result at most. -/
theorem Yields.unique {x : Reading ι ε α} {readable readable' : ι → Prop} {a a' : α}
    (one : x.Yields readable a) (other : x.Yields readable' a') : a = a' := by
  rcases one with ⟨reads, returned, -⟩
  rcases other with ⟨reads', returned', -⟩
  rw [returned] at returned'
  cases returned'
  rfl

/-- The result, if there is one. -/
def returned (x : Reading ι ε α) : Option α :=
  match x with
  | some (_, .ok a) => some a
  | _ => none

theorem returned_eq_some {x : Reading ι ε α} {a : α} :
    x.returned = some a ↔ x.Yields (fun _ => True) a := by
  constructor
  · intro result
    match x, result with
    | some (reads, .ok _), result =>
        cases result
        exact ⟨reads, rfl, fun _ _ => trivial⟩
  · rintro ⟨reads, rfl, -⟩
    rfl

end Reading

/-- A loop that makes one round before another loop ends with enough rounds if that one does. -/
theorem enough_succ {P Q : Nat → Prop} (round : ∀ n, P n → Q (n + 1))
    (inner : ∃ enough, ∀ n, enough ≤ n → P n) : ∃ enough, ∀ n, enough ≤ n → Q n := by
  rcases inner with ⟨enough, ends⟩
  refine ⟨enough + 1, fun n le => ?_⟩
  rcases Nat.exists_eq_add_of_le' (Nat.le_of_add_left_le le) with ⟨n, rfl⟩
  exact round n (ends n (by omega))

end Mikanos.Memory
