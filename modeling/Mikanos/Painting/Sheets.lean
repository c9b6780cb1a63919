import Mathlib.Tactic

/-!
# Sheets that cover one another

A sheet has ink at some points.  Of a stack of sheets one sees, at every point, the ink of the
topmost sheet that has any there.  A canvas over which the sheets are painted one after another,
from the bottom to the top, shows the same.
-/

namespace Mikanos.Painting

universe u v

/-- The ink of a sheet, at the points where it has any. -/
abbrev Sheet (P : Type u) (C : Type v) := P → Option C

variable {P : Type u} {C : Type v}

/-- What one sees of a stack of sheets, from the bottom to the top. -/
def visible : List (Sheet P C) → Sheet P C
  | [] => fun _ => none
  | sheet :: upper => fun p => (visible upper p).or (sheet p)

/-- Paint a sheet over a canvas. -/
def paint (sheet : Sheet P C) (canvas : P → C) : P → C :=
  fun p => (sheet p).getD (canvas p)

@[simp]
theorem visible_nil (p : P) : visible ([] : List (Sheet P C)) p = none :=
  rfl

theorem visible_cons (sheet : Sheet P C) (upper : List (Sheet P C)) (p : P) :
    visible (sheet :: upper) p = (visible upper p).or (sheet p) :=
  rfl

@[simp]
theorem visible_singleton (sheet : Sheet P C) (p : P) : visible [sheet] p = sheet p :=
  rfl

theorem visible_append (lower upper : List (Sheet P C)) (p : P) :
    visible (lower ++ upper) p = (visible upper p).or (visible lower p) := by
  induction lower with
  | nil => simp
  | cons sheet lower ih => rw [List.cons_append, visible_cons, ih, visible_cons, Option.or_assoc]

/-- Nothing is seen where no sheet has ink. -/
theorem visible_eq_none_iff {stack : List (Sheet P C)} {p : P} :
    visible stack p = none ↔ ∀ sheet ∈ stack, sheet p = none := by
  induction stack with
  | nil => simp
  | cons sheet upper ih => simp [visible_cons, ih, and_comm]

/-- The topmost ink is the first that is met from above. -/
theorem visible_eq_findSome? (stack : List (Sheet P C)) (p : P) :
    visible stack p = stack.reverse.findSome? fun sheet => sheet p := by
  induction stack with
  | nil => rfl
  | cons sheet upper ih =>
      rw [visible_cons, ih, List.reverse_cons, List.findSome?_append, List.findSome?_singleton]

/-- What is seen at a point depends on the ink there. -/
theorem visible_map_congr {α : Type*} {stack : List α} {f g : α → Sheet P C} {p : P}
    (same : ∀ a ∈ stack, f a p = g a p) : visible (stack.map f) p = visible (stack.map g) p := by
  induction stack with
  | nil => rfl
  | cons a upper ih =>
      simp only [List.map_cons, visible_cons]
      rw [same a List.mem_cons_self, ih fun b member => same b (List.mem_cons_of_mem a member)]

/-- Sheets without ink at a point can be taken away. -/
theorem visible_map_filter {α : Type*} {stack : List α} {f : α → Sheet P C} {keep : α → Bool}
    {p : P} (blank : ∀ a ∈ stack, keep a = false → f a p = none) :
    visible ((stack.filter keep).map f) p = visible (stack.map f) p := by
  induction stack with
  | nil => rfl
  | cons a upper ih =>
      have rest := ih fun b member => blank b (List.mem_cons_of_mem a member)
      cases kept : keep a with
      | true =>
          rw [List.filter_cons_of_pos kept, List.map_cons, List.map_cons, visible_cons, visible_cons,
            rest]
      | false =>
          rw [List.filter_cons_of_neg (by simp [kept]), rest, List.map_cons, visible_cons,
            blank a List.mem_cons_self kept, Option.or_none]

/-- A canvas shows the topmost ink after all sheets have been painted. -/
theorem foldl_paint (stack : List (Sheet P C)) (canvas : P → C) (p : P) :
    stack.foldl (fun canvas sheet => paint sheet canvas) canvas p =
      (visible stack p).getD (canvas p) := by
  induction stack generalizing canvas with
  | nil => rfl
  | cons sheet upper ih =>
      rw [List.foldl_cons, ih, visible_cons, Option.getD_or]
      rfl

end Mikanos.Painting
