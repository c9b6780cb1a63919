import Mathlib.Tactic

/-!
# Accesses through a pointer

What a function reads or writes through a pointer is a list of spans, given by their
offsets from the pointer.  Addresses are counted modulo the size of the address space.
A function whose accesses begin at the pointer, and leave out no more than the addresses
below some bound at a time, cannot step over these; so its accesses are all above the
bound exactly if the pointer is and the last access is not past the end.
-/

namespace Mikanos.Memory

/-- `count` bytes from an offset on. -/
structure Span where
  start : Nat
  count : Nat
  deriving DecidableEq, Repr

/-- The offset is in one of the spans. -/
def Touches (spans : List Span) (o : Nat) : Prop :=
  ∃ s ∈ spans, s.start ≤ o ∧ o < s.start + s.count

/-- The spans cover the offsets from `i` to before `e`. -/
def Covers (spans : List Span) (i e : Nat) : Prop :=
  ∀ o, Touches spans o ↔ i ≤ o ∧ o < e

/-- Each span begins where the one before it ends, and the first one at the offset. -/
def Contiguous : Nat → List Span → Prop
  | _, [] => True
  | i, s :: rest => s.start = i ∧ Contiguous (i + s.count) rest

/-- The number of bytes in all spans. -/
def total (spans : List Span) : Nat :=
  (spans.map Span.count).sum

section

variable {spans rest : List Span} {s : Span} {i j e e' o : Nat}

@[simp]
theorem not_touches_nil (o : Nat) : ¬ Touches [] o := by
  rintro ⟨s, member, -⟩
  exact List.not_mem_nil member

theorem touches_cons : Touches (s :: rest) o ↔ s.start ≤ o ∧ o < s.start + s.count ∨ Touches rest o := by
  simp only [Touches, List.mem_cons, exists_eq_or_imp]

theorem touches_append : Touches (spans ++ rest) o ↔ Touches spans o ∨ Touches rest o := by
  simp only [Touches, List.mem_append]
  constructor
  · rintro ⟨s, member | member, inside⟩
    · exact .inl ⟨s, member, inside⟩
    · exact .inr ⟨s, member, inside⟩
  · rintro (⟨s, member, inside⟩ | ⟨s, member, inside⟩)
    · exact ⟨s, .inl member, inside⟩
    · exact ⟨s, .inr member, inside⟩

theorem covers_nil (i : Nat) : Covers [] i i := by
  intro o
  constructor
  · exact fun touches => absurd touches (not_touches_nil o)
  · omega

theorem covers_single (i n : Nat) : Covers [⟨i, n⟩] i (i + n) := by
  intro o
  rw [touches_cons]
  simp

theorem covers_first (n : Nat) : Covers [⟨0, n⟩] 0 n := by
  have covers := covers_single 0 n
  rwa [Nat.zero_add] at covers

/-- Spans that cover a range that begins in the first span or right behind it. -/
theorem Covers.cons (covers : Covers rest j e) (joined : i ≤ j ∧ j ≤ i + s.count)
    (start : s.start = i) (end_ : e' = max (i + s.count) e) :
    Covers (s :: rest) i e' := by
  intro o
  rw [touches_cons, covers o, start, end_]
  omega

theorem covers_of_contiguous (contiguous : Contiguous i spans) : Covers spans i (i + total spans) := by
  induction spans generalizing i with
  | nil => exact covers_nil i
  | cons s rest ih =>
      rcases contiguous with ⟨start, contiguous⟩
      have sum : total (s :: rest) = s.count + total rest := by
        rw [total, List.map_cons, List.sum_cons, total]
      exact (ih contiguous).cons ⟨Nat.le_add_right _ _, le_rfl⟩ start (by omega)

/-- Several ranges that begin at the same offset. -/
theorem Covers.append (covers : Covers spans i e) (covers' : Covers rest i e') :
    Covers (spans ++ rest) i (max e e') := by
  intro o
  rw [touches_append, covers o, covers' o]
  omega

end

section Upper

variable {limit size p : Nat} {touched : Nat → Prop}

/-- Accesses that are nowhere farther apart than `limit` do not wrap around to addresses
above `limit`. -/
theorem above_iff (limitLe : limit ≤ size) (lt : p < size)
    (dense : ∀ o, touched o → 0 < o → ∃ o', touched o' ∧ o' < o ∧ o ≤ o' + limit) :
    (∀ o, touched o → limit ≤ (p + o) % size) ↔ ∀ o, touched o → limit ≤ p ∧ p + o < size := by
  constructor
  · intro above o
    induction o using Nat.strong_induction_on with
    | _ o ih =>
        intro here
        by_cases first : o = 0
        · have at0 := above o here
          rw [first, add_zero, Nat.mod_eq_of_lt lt] at at0
          exact ⟨at0, by omega⟩
        · rcases dense o here (by omega) with ⟨o', here', before, near⟩
          rcases ih o' before here' with ⟨pointer, inside⟩
          refine ⟨pointer, ?_⟩
          by_contra past
          have wraps := above o here
          rw [Nat.mod_eq_sub_mod (by omega), Nat.mod_eq_of_lt (by omega)] at wraps
          omega
  · intro inside o here
    rcases inside o here with ⟨pointer, inSpace⟩
    rw [Nat.mod_eq_of_lt inSpace]
    omega

/-- Accesses to all of the first bytes. -/
theorem above_iff_of_covers {spans : List Span} {e : Nat} (positive : 0 < limit)
    (limitLe : limit ≤ size) (lt : p < size) (covers : Covers spans 0 e) :
    (∀ o, Touches spans o → limit ≤ (p + o) % size) ↔ e = 0 ∨ limit ≤ p ∧ p + e ≤ size := by
  simp only [covers _]
  rw [above_iff limitLe lt
    (fun o here after => ⟨o - 1, ⟨Nat.zero_le _, by omega⟩, by omega, by omega⟩)]
  constructor
  · intro inside
    by_cases nothing : e = 0
    · exact .inl nothing
    · have last := inside (e - 1) ⟨Nat.zero_le _, by omega⟩
      exact .inr ⟨last.1, by omega⟩
  · rintro (nothing | ⟨pointer, inSpace⟩) o ⟨-, before⟩
    · omega
    · exact ⟨pointer, by omega⟩

end Upper

end Mikanos.Memory
