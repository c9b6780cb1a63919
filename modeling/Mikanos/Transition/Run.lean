import Mathlib.Tactic

/-!
# Labelled runs

A system is a labelled transition relation.  This file packages the one
induction every safety argument of the development uses: a property that holds
at the start and is kept by every step holds at the end of every run.  Guarded
steps restrict a relation to the steps whose source and label meet a condition,
so that a conditional invariant is an ordinary invariant of a smaller system.
-/

namespace Mikanos.Transition

universe u v

/-- A labelled transition relation. -/
abbrev Step (σ : Type u) (α : Type v) := σ → α → σ → Prop

variable {σ : Type u} {α : Type v}

/-- The transition relation of a partial function. -/
def ofFunction (next : σ → α → Option σ) : Step σ α :=
  fun source label target => next source label = some target

@[simp]
theorem ofFunction_iff (next : σ → α → Option σ) (source : σ) (label : α) (target : σ) :
    ofFunction next source label target ↔ next source label = some target :=
  Iff.rfl

/-- The steps of `step` whose source state and label meet `guard`. -/
def guarded (step : Step σ α) (guard : σ → α → Prop) : Step σ α :=
  fun source label target => guard source label ∧ step source label target

/-- `Run step source labels target`: the labels, taken in order, lead from
`source` to `target`. -/
inductive Run (step : Step σ α) : σ → List α → σ → Prop
  | nil (state : σ) : Run step state [] state
  | cons {source middle target : σ} {label : α} {labels : List α} :
      step source label middle → Run step middle labels target →
      Run step source (label :: labels) target

namespace Run

variable {step : Step σ α} {source middle target : σ}

theorem single {label : α} (first : step source label target) :
    Run step source [label] target :=
  .cons first (.nil target)

/-- Runs compose. -/
theorem append {firstLabels lastLabels : List α}
    (first : Run step source firstLabels middle)
    (last : Run step middle lastLabels target) :
    Run step source (firstLabels ++ lastLabels) target := by
  induction first with
  | nil => exact last
  | cons head _ ih => exact .cons head (ih last)

/-- A run can be extended at its end. -/
theorem snoc {labels : List α} {label : α} (run : Run step source labels middle)
    (last : step middle label target) :
    Run step source (labels ++ [label]) target :=
  run.append (single last)

/-- The invariant rule: what every step keeps, every run keeps. -/
theorem invariant {Inv : σ → Prop}
    (preserved : ∀ ⦃source label target⦄, Inv source → step source label target → Inv target)
    {labels : List α} (run : Run step source labels target) (start : Inv source) :
    Inv target := by
  induction run with
  | nil => exact start
  | cons head _ ih => exact ih (preserved start head)

end Run

/-- Execute a list of labels; `none` when some step is not enabled. -/
def execute (next : σ → α → Option σ) : σ → List α → Option σ
  | state, [] => some state
  | state, label :: labels => (next state label).bind fun middle => execute next middle labels

/-- Execution and runs of the same partial function agree. -/
theorem execute_eq_some_iff (next : σ → α → Option σ) (source : σ) (labels : List α)
    (target : σ) :
    execute next source labels = some target ↔ Run (ofFunction next) source labels target := by
  constructor
  · intro executed
    induction labels generalizing source with
    | nil =>
        cases executed
        exact .nil _
    | cons label labels ih =>
        obtain ⟨middle, first, rest⟩ := Option.bind_eq_some_iff.mp executed
        exact .cons first (ih _ rest)
  · intro run
    induction run with
    | nil => rfl
    | cons head _ ih =>
        rw [ofFunction_iff] at head
        rw [execute, head, Option.bind_some, ih]

/-- The steps of a partial function that meet a decidable guard. -/
def restrict (guard : σ → α → Prop) [∀ state label, Decidable (guard state label)]
    (next : σ → α → Option σ) : σ → α → Option σ :=
  fun state label => if guard state label then next state label else none

theorem guarded_ofFunction (guard : σ → α → Prop) [∀ state label, Decidable (guard state label)]
    (next : σ → α → Option σ) :
    guarded (ofFunction next) guard = ofFunction (restrict guard next) := by
  funext source label target
  rw [guarded, ofFunction_iff, ofFunction_iff, restrict]
  by_cases met : guard source label
  · rw [if_pos met, eq_iff_iff, and_iff_right met]
  · rw [if_neg met]
    simp [met]

/-- A guarded run with a given outcome, found by execution. -/
theorem exists_run_of_execute (guard : σ → α → Prop)
    [∀ state label, Decidable (guard state label)] (next : σ → α → Option σ) (source : σ)
    (labels : List α) (outcome : σ → Bool)
    (executed : (execute (restrict guard next) source labels).any outcome = true) :
    ∃ target, Run (guarded (ofFunction next) guard) source labels target ∧
      outcome target = true := by
  rcases Option.any_eq_true_iff_get .. |>.mp executed with ⟨isSome, holds⟩
  refine ⟨_, ?_, holds⟩
  rw [guarded_ofFunction, ← execute_eq_some_iff, Option.some_get]

/-- The states that runs from `start` reach. -/
def Reachable (step : Step σ α) (start state : σ) : Prop :=
  ∃ labels, Run step start labels state

namespace Reachable

variable {step : Step σ α} {start source target : σ}

theorem refl (step : Step σ α) (start : σ) : Reachable step start start :=
  ⟨[], .nil start⟩

theorem next {label : α} (reachable : Reachable step start source)
    (last : step source label target) : Reachable step start target := by
  obtain ⟨labels, run⟩ := reachable
  exact ⟨labels ++ [label], run.snoc last⟩

/-- The invariant rule for reachable states. -/
theorem invariant {Inv : σ → Prop} (initial : Inv start)
    (preserved : ∀ ⦃source label target⦄, Inv source → step source label target → Inv target)
    {state : σ} (reachable : Reachable step start state) : Inv state := by
  obtain ⟨labels, run⟩ := reachable
  exact run.invariant preserved initial

end Reachable

end Mikanos.Transition
