import Mikanos.Paging.CopyComplete

/-!
# Paths through page maps

An address selects a path of tables from a PML4 down to a page.  In the page maps
of one owner, paths that have parted do not meet again.  So a new table, or a new
page, is seen by the addresses whose path leads to it and by no others.
-/

namespace Mikanos.Paging

open Mikanos.Memory

namespace LinearAddress4Level

/-- The number of the page among the pages of a table of the given level. -/
def index (a : LinearAddress4Level) : Nat → Nat
  | 0 => 0
  | level + 1 => a.part (level + 1) * 512 ^ level + a.index level

/-- The parts from a level on are the same. -/
def AgreeFrom (level : Nat) (a b : LinearAddress4Level) : Prop :=
  ∀ k, level ≤ k → k ≤ 4 → a.part k = b.part k

instance (level : Nat) (a b : LinearAddress4Level) : Decidable (AgreeFrom level a b) :=
  decidable_of_iff (∀ k ≤ 4, level ≤ k → a.part k = b.part k)
    ⟨fun all k lower upper => all k upper lower, fun all k upper lower => all k lower upper⟩

theorem index_lt (a : LinearAddress4Level) (level : Nat) : a.index level < 512 ^ level := by
  induction level with
  | zero => exact Nat.zero_lt_one
  | succ level ih =>
      have below : (a.part (level + 1)).val * 512 ^ level ≤ 511 * 512 ^ level :=
        Nat.mul_le_mul_right _ (Nat.le_of_lt_succ (a.part (level + 1)).isLt)
      rw [index, Nat.pow_succ]
      omega

/-- The number of the page determines the parts. -/
theorem part_eq_of_index_eq {a b : LinearAddress4Level} (level : Nat)
    (same : a.index level = b.index level) {k : Nat} (lower : 1 ≤ k) (upper : k ≤ level) :
    a.part k = b.part k := by
  induction level with
  | zero => omega
  | succ level ih =>
      have lt := a.index_lt level
      have lt' := b.index_lt level
      rw [index, index] at same
      have head : (a.part (level + 1)).val = (b.part (level + 1)).val := by
        have quotient := congrArg (· / 512 ^ level) same
        simp only [Nat.mul_comm _ (512 ^ level)] at quotient
        rw [Nat.mul_add_div (Nat.pow_pos (by decide)), Nat.div_eq_of_lt lt,
          Nat.mul_add_div (Nat.pow_pos (by decide)), Nat.div_eq_of_lt lt'] at quotient
        exact quotient
      by_cases top : k = level + 1
      · rw [top]
        exact Fin.ext head
      · apply ih _ (by omega)
        rw [head] at same
        exact Nat.add_left_cancel same

theorem AgreeFrom.refl (level : Nat) (a : LinearAddress4Level) : AgreeFrom level a a :=
  fun _ _ _ => rfl

theorem AgreeFrom.symm {level : Nat} {a b : LinearAddress4Level} (agree : AgreeFrom level a b) :
    AgreeFrom level b a :=
  fun k lower upper => (agree k lower upper).symm

theorem AgreeFrom.trans {level : Nat} {a b c : LinearAddress4Level} (first : AgreeFrom level a b)
    (last : AgreeFrom level b c) : AgreeFrom level a c :=
  fun k lower upper => (first k lower upper).trans (last k lower upper)

theorem AgreeFrom.mono {level level' : Nat} {a b : LinearAddress4Level}
    (agree : AgreeFrom level a b) (le : level ≤ level') : AgreeFrom level' a b :=
  fun k lower upper => agree k (le.trans lower) upper

theorem AgreeFrom.cons {level : Nat} {a b : LinearAddress4Level} (agree : AgreeFrom (level + 1) a b)
    (same : a.part level = b.part level) : AgreeFrom level a b := by
  intro k lower upper
  by_cases first : k = level
  · rw [first]
    exact same
  · exact agree k (by omega) upper

theorem AgreeFrom.upper {level : Nat} {a b : LinearAddress4Level} (agree : AgreeFrom level a b)
    (le : level ≤ 4) (isUpper : a.Upper) : b.Upper := by
  have same : a.pml4 = b.pml4 := agree 4 le le_rfl
  rw [Upper, ← same]
  exact isUpper

/-- Addresses in the same page. -/
theorem agreeFrom_one_of_index {a b : LinearAddress4Level} (same : a.index 4 = b.index 4) :
    AgreeFrom 1 a b :=
  fun _ lower upper => part_eq_of_index_eq 4 same lower upper

/-- The index of the page of an address, from all its parts. -/
theorem index_eq_of_agreeFrom {a b : LinearAddress4Level} (agree : AgreeFrom 1 a b) :
    a.index 4 = b.index 4 := by
  simp only [index, agree 1 le_rfl (by decide), agree 2 (by decide) (by decide),
    agree 3 (by decide) (by decide), agree 4 (by decide) le_rfl]

end LinearAddress4Level

open LinearAddress4Level

namespace Machine

/-- What an entry of a table points to, if it is present. -/
def child (s : Machine) (table level : Nat) (a : LinearAddress4Level) : Option Nat :=
  if (s.entry table (a.part level)).present then some (s.entry table (a.part level)).pointer
  else none

/-- The tables on the path of an address, by their distance from the PML4; the
page comes last. -/
def path (s : Machine) (root : Nat) (a : LinearAddress4Level) : Nat → Option Nat
  | 0 => some root
  | depth + 1 => (path s root a depth).bind fun table => s.child table (4 - depth) a

/-- The table of a level on the path of an address; at level 0, its page. -/
def node (s : Machine) (root : Nat) (a : LinearAddress4Level) (level : Nat) : Option Nat :=
  s.path root a (4 - level)

section Nodes

variable {s s' : Machine} {root table level : Nat} {a b : LinearAddress4Level}

theorem node_four : s.node root a 4 = some root :=
  rfl

theorem node_succ (inside : level < 4) :
    s.node root a level = (s.node root a (level + 1)).bind fun t => s.child t (level + 1) a := by
  have depth : 4 - level = 4 - (level + 1) + 1 := by omega
  have distance : 4 - (4 - (level + 1)) = level + 1 := by omega
  rw [node, node, depth, path, distance]

/-- Induction on the levels from the PML4 down. -/
theorem level_induction {motive : Nat → Prop} (four : motive 4)
    (step : ∀ level, level < 4 → motive (level + 1) → motive level) (level : Nat) (le : level ≤ 4) :
    motive level := by
  induction gap : 4 - level generalizing level with
  | zero =>
      obtain rfl : level = 4 := by omega
      exact four
  | succ gap ih => exact step level (by omega) (ih (level + 1) (by omega) (by omega))

theorem child_congr (agree : AgreeFrom level a b) (le : level ≤ 4) :
    s.child table level a = s.child table level b := by
  rw [child, child, agree level le_rfl le]

/-- A path depends only on the parts that select it. -/
theorem node_congr (le : level ≤ 4) (agree : AgreeFrom (level + 1) a b) :
    s.node root a level = s.node root b level := by
  revert agree
  refine level_induction (motive := fun level => AgreeFrom (level + 1) a b →
    s.node root a level = s.node root b level) (fun _ => rfl) ?_ level le
  intro level inside ih agree
  rw [node_succ inside, node_succ inside, ih (agree.mono (by omega))]
  congr 1
  funext t
  exact child_congr agree (by omega)

/-- Tables above a table of the path are on the path. -/
theorem isSome_node_of_le {level level' : Nat} (le : level ≤ level') (le' : level' ≤ 4)
    (found : (s.node root a level).isSome) : (s.node root a level').isSome := by
  induction gap : level' - level generalizing level with
  | zero =>
      obtain rfl : level = level' := by omega
      exact found
  | succ gap ih =>
      apply ih (show level + 1 ≤ level' by omega) _ (by omega)
      rw [node_succ (by omega)] at found
      cases above : s.node root a (level + 1) with
      | none =>
          rw [above] at found
          cases found
      | some t => rfl

/-- The page of a path is what its leaf points to. -/
theorem node_zero_eq_leaf : s.node root a 0 = (s.leaf a 4 root).map PageMapEntry.pointer := by
  simp only [node, path, leaf, child]
  simp only [Nat.sub_zero, Option.bind_some]
  split
  · simp only [Option.bind_some]
    split
    · simp only [Option.bind_some]
      split
      · simp only [Option.bind_some]
        split <;> rfl
      · rfl
    · rfl
  · rfl

end Nodes

end Machine
end Mikanos.Paging
