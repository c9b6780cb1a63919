import Mathlib.Tactic

/-!
# Waiting for the ACPI PM timer

The PM timer is a counter of 24 or 32 bits that wraps around.  `WaitMilliseconds`
computes the value at which the wait ends, also modulo the width, and polls the
counter: below the wrap, if the end lies behind it, and then up to the end.
This file says at which poll the loops are left, and when that is the first one
at which the time is up.
-/

namespace Mikanos.Acpi

/-- `kPMTimerFreq`. -/
def kPMTimerFreq : Nat := 3579545

/-- `FADT`, as far as the timer is concerned. -/
structure FADT where
  flags : BitVec 32

namespace FADT

/-- `pm_timer_32`. -/
def pmTimer32 (fadt : FADT) : Bool :=
  fadt.flags.getLsbD 8

/-- The number of values of the counter. -/
def period (fadt : FADT) : Nat :=
  if fadt.pmTimer32 then 2 ^ 32 else 2 ^ 24

end FADT

/-- A loop that reads the counter as long as a condition holds of what it has
read: the readings that are left, or `none` if the loop is not left. -/
def pollWhile (again : Nat → Bool) : List Nat → Option (List Nat)
  | [] => none
  | reading :: rest => if again reading then pollWhile again rest else some rest

/-- `end`, computed in 64 bits and stored in 32. -/
def waitEnd (fadt : FADT) (start msec : Nat) : Nat :=
  let sum := (start + kPMTimerFreq * msec % 2 ^ 64 / 1000) % 2 ^ 32
  if fadt.pmTimer32 then sum else sum % 2 ^ 24

/-- `WaitMilliseconds`, after the first reading: the readings that are left when
it returns. -/
def waitMilliseconds (fadt : FADT) (start msec : Nat) (polls : List Nat) : Option (List Nat) :=
  let finish := waitEnd fadt start msec
  if finish < start then
    (pollWhile (start ≤ ·) polls).bind (pollWhile (· < finish))
  else
    pollWhile (· < finish) polls

/-! ## Polls -/

/-- The ticks in a number of milliseconds. -/
def tickCount (msec : Nat) : Nat :=
  kPMTimerFreq * msec / 1000

/-- The ticks that have elapsed at each poll, by the ticks between the polls. -/
def elapsed : Nat → List Nat → List Nat
  | _, [] => []
  | e, gap :: gaps => (e + gap) :: elapsed (e + gap) gaps

/-- What the polls read. -/
def readings (fadt : FADT) (start : Nat) (gaps : List Nat) : List Nat :=
  (elapsed 0 gaps).map fun e => (start + e) % fadt.period

/-- How many polls are left. -/
def pollsLeft (result : Option (List Nat)) : Option Nat :=
  result.map List.length

/-- The loops are left at the first poll at which the ticks have elapsed, and not
at all if there is none. -/
def EndsWhenDue (fadt : FADT) (start msec : Nat) (gaps : List Nat) : Prop :=
  pollsLeft (waitMilliseconds fadt start msec (readings fadt start gaps)) =
    pollsLeft (pollWhile (· < tickCount msec) (elapsed 0 gaps))

/-- If the end lies before the wrap, so does the first poll at which the ticks have
elapsed; otherwise one of the polls falls between the wrap and the end. -/
def MeetsWrap (fadt : FADT) (start msec : Nat) (gaps : List Nat) : Prop :=
  ∀ due, (elapsed 0 gaps).find? (tickCount msec ≤ ·) = some due →
    if start + tickCount msec < fadt.period then start + due < fadt.period
    else ∃ e ∈ elapsed 0 gaps, fadt.period ≤ start + e ∧ e < tickCount msec

theorem pollWhile_map (again : Nat → Bool) (f : Nat → Nat) (polls : List Nat) :
    pollWhile again (polls.map f) = (pollWhile (fun e => again (f e)) polls).map (List.map f) := by
  induction polls with
  | nil => rfl
  | cons e rest ih =>
      rw [List.map_cons, pollWhile, pollWhile, ih]
      split <;> rfl

theorem pollWhile_stays (again : Nat → Bool) {reading : Nat} (rest : List Nat)
    (stays : again reading = true) : pollWhile again (reading :: rest) = pollWhile again rest :=
  if_pos stays

theorem pollWhile_leaves (again : Nat → Bool) {reading : Nat} (rest : List Nat)
    (leaves : again reading = false) : pollWhile again (reading :: rest) = some rest :=
  if_neg (by rw [leaves]; exact Bool.false_ne_true)

/-- A loop reads at least once. -/
theorem pollWhile_length_lt {again : Nat → Bool} {polls rest : List Nat}
    (left : pollWhile again polls = some rest) : rest.length < polls.length := by
  induction polls with
  | nil => cases left
  | cons e polls ih =>
      rw [pollWhile] at left
      split at left
      · exact (ih left).trans (Nat.lt_succ_self _)
      · cases left
        exact Nat.lt_succ_self _

theorem pollsLeft_ne (again : Nat → Bool) (polls : List Nat) :
    pollsLeft (pollWhile again polls) ≠ pollsLeft (some polls) := by
  intro same
  obtain ⟨rest, left, length⟩ := Option.map_eq_some_iff.mp same
  exact (pollWhile_length_lt left).ne length

theorem le_of_mem_elapsed {e e' : Nat} {gaps : List Nat} (member : e' ∈ elapsed e gaps) :
    e ≤ e' := by
  induction gaps generalizing e with
  | nil => exact absurd member List.not_mem_nil
  | cons gap gaps ih =>
      rw [elapsed, List.mem_cons] at member
      rcases member with rfl | later
      · exact Nat.le_add_right ..
      · exact (Nat.le_add_right ..).trans (ih later)

/-! ## The loops

`period` is the number of values of the counter, and `ticks` the length of the
wait.  The polls are at most so far apart that the counter does not go round
between a poll before the end and the next one. -/

section Loops

variable {period start ticks : Nat}

/-- The end lies before the wrap. -/
theorem leaves_iff_before (inside : start + ticks < period) {e : Nat} (early : e ≤ ticks)
    {gaps : List Nat} (spaced : ∀ gap ∈ gaps, gap < period - ticks) :
    pollsLeft (pollWhile (fun e => (start + e) % period < start + ticks) (elapsed e gaps)) =
        pollsLeft (pollWhile (· < ticks) (elapsed e gaps)) ↔
      ∀ due, (elapsed e gaps).find? (ticks ≤ ·) = some due → start + due < period := by
  induction gaps generalizing e with
  | nil => exact iff_of_true rfl fun due found => absurd found.symm (Option.some_ne_none due)
  | cons gap gaps ih =>
      rw [List.forall_mem_cons] at spaced
      rw [elapsed]
      by_cases isDue : ticks ≤ e + gap
      · rw [List.find?_cons_of_pos (by simpa using isDue),
          pollWhile_leaves (· < ticks) _ (by simpa using isDue)]
        by_cases before : start + (e + gap) < period
        · rw [pollWhile_leaves _ _ (by rw [Nat.mod_eq_of_lt before]; simpa using isDue)]
          exact iff_of_true rfl fun due found => Option.some.inj found ▸ before
        · have wrapped : (start + (e + gap)) % period = start + (e + gap) - period := by
            rw [Nat.mod_eq_sub_mod (by omega), Nat.mod_eq_of_lt (by omega)]
          rw [pollWhile_stays _ _ (by rw [wrapped]; simp; omega)]
          exact iff_of_false (pollsLeft_ne _ _) fun all => before (all _ rfl)
      · have before : start + (e + gap) < period := by omega
        rw [List.find?_cons_of_neg (by simpa using isDue),
          pollWhile_stays (· < ticks) _ (by simpa using isDue),
          pollWhile_stays _ _ (by rw [Nat.mod_eq_of_lt before]; simp; omega)]
        exact ih (by omega) spaced.2

/-- The end lies behind the wrap, and the counter has wrapped. -/
theorem leaves_wrapped (range : start < period) (behind : period ≤ start + ticks) {e : Nat}
    (wrapped : period ≤ start + e) (early : e ≤ ticks) {gaps : List Nat}
    (spaced : ∀ gap ∈ gaps, gap < period - ticks) :
    pollsLeft (pollWhile (fun e => (start + e) % period < start + ticks - period)
        (elapsed e gaps)) =
      pollsLeft (pollWhile (· < ticks) (elapsed e gaps)) := by
  induction gaps generalizing e with
  | nil => rfl
  | cons gap gaps ih =>
      rw [List.forall_mem_cons] at spaced
      have reading : (start + (e + gap)) % period = start + (e + gap) - period := by
        rw [Nat.mod_eq_sub_mod (by omega), Nat.mod_eq_of_lt (by omega)]
      rw [elapsed]
      by_cases isDue : ticks ≤ e + gap
      · rw [pollWhile_leaves (· < ticks) _ (by simpa using isDue),
          pollWhile_leaves _ _ (by rw [reading]; simp; omega)]
      · rw [pollWhile_stays (· < ticks) _ (by simpa using isDue),
          pollWhile_stays _ _ (by rw [reading]; simp; omega)]
        exact ih (by omega) (by omega) spaced.2

/-- The end lies behind the wrap, and the counter has not wrapped yet. -/
theorem leaves_iff_behind (range : start < period) (behind : period ≤ start + ticks) {e : Nat}
    (early : start + e < period) {gaps : List Nat}
    (spaced : ∀ gap ∈ gaps, gap < period - ticks) :
    pollsLeft ((pollWhile (fun e => start ≤ (start + e) % period) (elapsed e gaps)).bind
          (pollWhile fun e => (start + e) % period < start + ticks - period)) =
        pollsLeft (pollWhile (· < ticks) (elapsed e gaps)) ↔
      ∀ due, (elapsed e gaps).find? (ticks ≤ ·) = some due →
        ∃ e' ∈ elapsed e gaps, period ≤ start + e' ∧ e' < ticks := by
  induction gaps generalizing e with
  | nil => exact iff_of_true rfl fun due found => absurd found.symm (Option.some_ne_none due)
  | cons gap gaps ih =>
      rw [List.forall_mem_cons] at spaced
      rw [elapsed]
      by_cases before : start + (e + gap) < period
      · have open_interval : (∃ e' ∈ (e + gap) :: elapsed (e + gap) gaps,
              period ≤ start + e' ∧ e' < ticks) ↔
            ∃ e' ∈ elapsed (e + gap) gaps, period ≤ start + e' ∧ e' < ticks := by
          rw [List.exists_mem_cons_iff, or_iff_right]
          omega
        rw [List.find?_cons_of_neg (by simp; omega), open_interval,
          pollWhile_stays (· < ticks) _ (by simp; omega),
          pollWhile_stays _ _ (by rw [Nat.mod_eq_of_lt before]; simp)]
        exact ih before spaced.2
      · have reading : (start + (e + gap)) % period = start + (e + gap) - period := by
          rw [Nat.mod_eq_sub_mod (by omega), Nat.mod_eq_of_lt (by omega)]
        rw [pollWhile_leaves (fun e => decide (start ≤ (start + e) % period)) _
          (by rw [reading]; simp; omega), Option.bind_some]
        by_cases isDue : ticks ≤ e + gap
        · -- the poll that sees the wrap is not compared with the end
          rw [pollWhile_leaves (· < ticks) _ (by simpa using isDue),
            List.find?_cons_of_pos (by simpa using isDue)]
          refine iff_of_false (pollsLeft_ne _ _) fun all => ?_
          obtain ⟨e', member, -, early'⟩ := all _ rfl
          rcases List.mem_cons.mp member with rfl | later
          · omega
          · have := le_of_mem_elapsed later
            omega
        · rw [pollWhile_stays (· < ticks) _ (by simpa using isDue)]
          refine iff_of_true (leaves_wrapped range behind (by omega) (by omega) spaced.2)
            fun due _ => ⟨e + gap, List.mem_cons_self, by omega, by omega⟩

end Loops

/-! ## The wait -/

variable {fadt : FADT} {start msec : Nat}

theorem period_le (fadt : FADT) : fadt.period ≤ 2 ^ 32 := by
  rw [FADT.period]
  split <;> decide

/-- The product and the sum do not lose bits that matter. -/
theorem waitEnd_eq (small : tickCount msec < fadt.period) :
    waitEnd fadt start msec = (start + tickCount msec) % fadt.period := by
  have product : kPMTimerFreq * msec % 2 ^ 64 = kPMTimerFreq * msec := by
    apply Nat.mod_eq_of_lt
    have := small.trans_le (period_le fadt)
    rw [tickCount] at this
    omega
  rw [waitEnd, product, FADT.period]
  cases fadt.pmTimer32
  · exact Nat.mod_mod_of_dvd _ (by decide)
  · rfl

/-- The loops are left at the first poll at which the time is up exactly if the polls meet the wrap
of the counter. -/
theorem endsWhenDue_iff {gaps : List Nat} (range : start < fadt.period)
    (small : tickCount msec < fadt.period)
    (spaced : ∀ gap ∈ gaps, gap < fadt.period - tickCount msec) :
    EndsWhenDue fadt start msec gaps ↔ MeetsWrap fadt start msec gaps := by
  have loop (again : Nat → Bool) : pollWhile again (readings fadt start gaps) =
      (pollWhile (fun e => again ((start + e) % fadt.period)) (elapsed 0 gaps)).map
        (List.map fun e => (start + e) % fadt.period) :=
    pollWhile_map ..
  have count (result : Option (List Nat)) (f : Nat → Nat) :
      pollsLeft (result.map (List.map f)) = pollsLeft result := by
    cases result with
    | none => rfl
    | some rest => exact congrArg some (List.length_map f)
  rw [EndsWhenDue, MeetsWrap, waitMilliseconds, waitEnd_eq small]
  by_cases inside : start + tickCount msec < fadt.period
  · rw [Nat.mod_eq_of_lt inside, if_neg (by omega), loop, count]
    simp only [if_pos inside]
    exact leaves_iff_before inside (Nat.zero_le _) spaced
  · have finish : (start + tickCount msec) % fadt.period =
        start + tickCount msec - fadt.period := by
      rw [Nat.mod_eq_sub_mod (by omega), Nat.mod_eq_of_lt (by omega)]
    have loops (first second : Nat → Bool) :
        pollsLeft ((pollWhile first (readings fadt start gaps)).bind (pollWhile second)) =
          pollsLeft ((pollWhile (fun e => first ((start + e) % fadt.period)) (elapsed 0 gaps)).bind
            (pollWhile fun e => second ((start + e) % fadt.period))) := by
      rw [loop]
      cases pollWhile (fun e => first ((start + e) % fadt.period)) (elapsed 0 gaps) with
      | none => rfl
      | some rest => exact (congrArg pollsLeft (pollWhile_map ..)).trans (count _ _)
    rw [finish, if_pos (by omega), loops]
    simp only [if_neg inside]
    exact leaves_iff_behind range (by omega) range spaced

/-- One millisecond, without a wrap. -/
theorem endsWhenDue_iff_oneMillisecond :
    100 < (FADT.mk 0).period ∧ tickCount 1 < (FADT.mk 0).period ∧
      (∀ gap ∈ [2000, 2000, 2000], gap < (FADT.mk 0).period - tickCount 1) ∧
      (EndsWhenDue (.mk 0) 100 1 [2000, 2000, 2000] ↔
        MeetsWrap (.mk 0) 100 1 [2000, 2000, 2000]) :=
  ⟨by decide, by decide, by decide, endsWhenDue_iff (by decide) (by decide) (by decide)⟩

/-- The wait ends one tick before the wrap, and a poll falls behind it. -/
theorem not_endsWhenDue_wrap :
    16773636 < (FADT.mk 0).period ∧ tickCount 1 < (FADT.mk 0).period ∧
      (∀ gap ∈ [3578, 2], gap < (FADT.mk 0).period - tickCount 1) ∧
      ¬EndsWhenDue (.mk 0) 16773636 1 [3578, 2] :=
  ⟨by decide, by decide, by decide, by rw [EndsWhenDue]; decide⟩

end Mikanos.Acpi
