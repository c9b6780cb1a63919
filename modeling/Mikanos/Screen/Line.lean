import Mikanos.Numeric.Double
import Mikanos.Screen.Window

/-!
# Lines

`WinDrawLine` goes along the longer axis pixel by pixel, and computes the other
coordinate with `double`.  The slope is a little steeper than the line, and the result
is rounded towards the beginning, so that a line never leaves the rectangle between its
ends.  In a window whose pixels fit into memory the rounding of `double` is too small
to change that.
-/

namespace Mikanos.Screen

open Mikanos.Numeric

/-! ## The loops -/

/-- A value of type `double`, from the exact result of an operation. -/
def double (q : ℚ) : ℚ :=
  roundTo 53 q

/-- `roundish`, for a coordinate that goes from `c0` to `c1`. -/
def roundish (c0 c1 : Int) (q : ℚ) : Int :=
  if c0 ≤ c1 then ⌊q⌋ else ⌈q⌉

/-- The coordinate of a line that has the slope `m` and goes from `c0` to `c1`, after `t`
steps. -/
def coordinate (m : ℚ) (c0 c1 t : Int) : Int :=
  roundish c0 c1 (double (double (m * t) + c0))

/-- `for (int x = first; x <= last; ++x)`. -/
def upTo (first last : Int) : List Int :=
  (List.range (last + 1 - first).toNat).map fun (k : Nat) => first + k

/-- The body of `WinDrawLine`. -/
def drawLine (x0 y0 x1 y1 : Int) : List Vector2D :=
  let dx := x1 - x0 + (x1 - x0).sign
  let dy := y1 - y0 + (y1 - y0).sign
  if dx = 0 ∧ dy = 0 then [⟨x0, y0⟩]
  else if |dy| ≤ |dx| then
    let (x0, y0, x1, y1) := if dx < 0 then (x1, y1, x0, y0) else (x0, y0, x1, y1)
    let m := double (dy / dx)
    (upTo x0 x1).map fun x => ⟨x, coordinate m y0 y1 (x - x0)⟩
  else
    let (x0, y0, x1, y1) := if dy < 0 then (x1, y1, x0, y0) else (x0, y0, x1, y1)
    let m := double (dx / dy)
    (upTo y0 y1).map fun y => ⟨coordinate m x0 x1 (y - y0), y⟩

theorem mem_upTo {first last x : Int} : x ∈ upTo first last ↔ first ≤ x ∧ x ≤ last := by
  rw [upTo, List.mem_map]
  constructor
  · rintro ⟨k, member, rfl⟩
    rw [List.mem_range] at member
    omega
  · rintro ⟨lower, upper⟩
    refine ⟨(x - first).toNat, ?_, by omega⟩
    rw [List.mem_range]
    omega

/-! ## Rounding errors -/

theorem double_neg (q : ℚ) : double (-q) = -double q :=
  roundTo_neg 53 q

theorem double_intCast {n : Int} (small : |n| < 2 ^ 53) : double n = n :=
  roundTo_intCast small

theorem abs_double_sub_le (q : ℚ) : |double q - q| ≤ |q| / 2 ^ 53 :=
  abs_roundTo_sub_le 53 q

/-- The error of all operations together. -/
theorem coordinate_error {slope : ℚ} (nonneg : 0 ≤ slope) {t : Int} (forward : 0 ≤ t) (c0 : Int) :
    |double (double (double slope * t) + c0) - (slope * t + c0)| ≤
      (5 * (slope * t) + |(c0 : ℚ)|) / 2 ^ 53 := by
  have steps : (0 : ℚ) ≤ t := by exact_mod_cast forward
  have rise : 0 ≤ slope * t := mul_nonneg nonneg steps
  generalize exact : slope * t = q at *
  have first : |double slope * t - q| ≤ q / 2 ^ 53 := by
    rw [← exact, ← sub_mul, abs_mul, abs_of_nonneg steps, mul_div_right_comm]
    apply mul_le_mul_of_nonneg_right _ steps
    have error := abs_double_sub_le slope
    rwa [abs_of_nonneg nonneg] at error
  generalize double slope * t = q₁ at *
  have second := abs_double_sub_le q₁
  generalize double q₁ = q₂ at *
  have third := abs_double_sub_le (q₂ + c0)
  generalize double (q₂ + c0) = q₃ at *
  have bound₁ : |q₁| ≤ 2 * q := by
    have := abs_sub_abs_le_abs_sub q₁ q
    rw [abs_of_nonneg rise] at this
    linarith
  have bound₂ : |q₂ - q| ≤ 3 * q / 2 ^ 53 := by
    calc
      |q₂ - q| = |(q₂ - q₁) + (q₁ - q)| := by ring_nf
      _ ≤ |q₂ - q₁| + |q₁ - q| := abs_add_le _ _
      _ ≤ 3 * q / 2 ^ 53 := by linarith
  have bound₃ : |q₂ + c0| ≤ 2 * q + |(c0 : ℚ)| := by
    have apart := abs_add_le q₂ (c0 : ℚ)
    have near := abs_sub_abs_le_abs_sub q₂ q
    rw [abs_of_nonneg rise] at near
    linarith
  calc
    |q₃ - (q + c0)| = |(q₃ - (q₂ + c0)) + (q₂ - q)| := by ring_nf
    _ ≤ |q₃ - (q₂ + c0)| + |q₂ - q| := abs_add_le _ _
    _ ≤ (5 * q + |(c0 : ℚ)|) / 2 ^ 53 := by linarith

/-! ## Rising lines -/

section Rising

variable {a c0 c1 t size : Int}

/-- The line rises by `c1 - c0`, and by one more in the slope, within `a` steps and one
more. -/
def slope (a c0 c1 : Int) : ℚ :=
  (c1 - c0 + (c1 - c0).sign : Int) / (a + 1 : Int)

theorem slope_mul (positive : 0 < a) (rises : c0 < c1) :
    slope a c0 c1 * (a + 1) = c1 - c0 + 1 := by
  have nonzero : (a : ℚ) + 1 ≠ 0 := by
    have : (0 : ℚ) < a := by exact_mod_cast positive
    linarith
  rw [slope, Int.sign_eq_one_of_pos (sub_pos.mpr rises)]
  push_cast
  rw [div_mul_cancel₀ _ nonzero]

theorem slope_pos (positive : 0 < a) (rises : c0 < c1) : 0 < slope a c0 c1 := by
  have whole := slope_mul positive rises
  have above : (c0 : ℚ) < c1 := by exact_mod_cast rises
  have steps : (0 : ℚ) < a + 1 := by
    have : (0 : ℚ) < a := by exact_mod_cast positive
    linarith
  by_contra notPositive
  have := mul_nonpos_of_nonpos_of_nonneg (le_of_not_gt notPositive) steps.le
  linarith

/-- The error is less than half a step is worth. -/
theorem error_le (positive : 0 < a) (rises : c0 < c1) (low : |c0| ≤ size) (high : |c1| ≤ size)
    (room : size * (a + 1) ≤ 2 ^ 48) (inside : t ≤ a) :
    (5 * (slope a c0 c1 * t) + |(c0 : ℚ)|) / 2 ^ 53 * (a + 1) ≤ 1 / 2 := by
  have whole := slope_mul positive rises
  have slope_pos := slope_pos positive rises
  have some : 1 ≤ size := by
    have := abs_le.mp low
    have := abs_le.mp high
    omega
  have spread : c1 - c0 ≤ 2 * size := by
    have := abs_le.mp low
    have := abs_le.mp high
    omega
  have someQ : (1 : ℚ) ≤ size := by exact_mod_cast some
  have spreadQ : (c1 : ℚ) - c0 ≤ 2 * size := by exact_mod_cast spread
  have lowQ : |(c0 : ℚ)| ≤ size := by exact_mod_cast low
  have roomQ : (size : ℚ) * (a + 1) ≤ 2 ^ 48 := by exact_mod_cast room
  have insideQ : (t : ℚ) ≤ a := by exact_mod_cast inside
  have steps : (0 : ℚ) ≤ a + 1 := by
    have : (0 : ℚ) < a := by exact_mod_cast positive
    linarith
  have partway : slope a c0 c1 * t ≤ slope a c0 c1 * (a + 1) :=
    mul_le_mul_of_nonneg_left (by linarith) slope_pos.le
  have sum : 5 * (slope a c0 c1 * t) + |(c0 : ℚ)| ≤ 16 * size := by linarith
  calc
    (5 * (slope a c0 c1 * t) + |(c0 : ℚ)|) / 2 ^ 53 * ((a : ℚ) + 1) ≤
        16 * (size : ℚ) / 2 ^ 53 * ((a : ℚ) + 1) := by
      gcongr
    _ = 16 * ((size : ℚ) * (a + 1)) / 2 ^ 53 := by ring
    _ ≤ 16 * 2 ^ 48 / 2 ^ 53 := by gcongr
    _ = 1 / 2 := by norm_num

theorem coordinate_zero {m : ℚ} (small : |c0| < 2 ^ 53) : coordinate m c0 c1 0 = c0 := by
  have exact : double (double (m * (0 : Int)) + c0) = c0 := by
    rw [Int.cast_zero, mul_zero, show double 0 = 0 from roundTo_zero 53, zero_add,
      double_intCast small]
  rw [coordinate, exact, roundish]
  split_ifs <;> simp

/-- A rising line between coordinates that are not too large stays between them. -/
theorem rising_between (positive : 0 < a) (rises : c0 < c1) (low : |c0| ≤ size) (high : |c1| ≤ size)
    (room : size * (a + 1) ≤ 2 ^ 48) (forward : 0 ≤ t) (inside : t ≤ a) :
    c0 ≤ coordinate (double (slope a c0 c1)) c0 c1 t ∧
      coordinate (double (slope a c0 c1)) c0 c1 t ≤ c1 := by
  have whole := slope_mul positive rises
  have slopePos := slope_pos positive rises
  have few := error_le positive rises low high room inside
  have near := abs_le.mp (coordinate_error slopePos.le forward c0)
  have steps : (0 : ℚ) < a + 1 := by
    have : (0 : ℚ) < a := by exact_mod_cast positive
    linarith
  have rises' : (c0 : ℚ) + 1 ≤ c1 := by exact_mod_cast rises
  have insideQ : (t : ℚ) ≤ a := by exact_mod_cast inside
  generalize (5 * (slope a c0 c1 * t) + |(c0 : ℚ)|) / 2 ^ 53 = error at few near
  have lt : error < slope a c0 c1 := by
    by_contra notLess
    have := mul_le_mul_of_nonneg_right (le_of_not_gt notLess) steps.le
    linarith
  constructor
  · by_cases atStart : t = 0
    · have small : |c0| < 2 ^ 53 := by
        have first := mul_le_mul_of_nonneg_left (show (1 : Int) ≤ a + 1 by omega)
          ((abs_nonneg c0).trans low)
        omega
      rw [atStart, coordinate_zero small]
    · have beyond : (1 : ℚ) ≤ t := by exact_mod_cast (show 1 ≤ t by omega)
      have step := mul_le_mul_of_nonneg_left beyond slopePos.le
      rw [coordinate, roundish, if_pos rises.le, Int.le_floor]
      linarith
  · have last := mul_le_mul_of_nonneg_left insideQ slopePos.le
    rw [coordinate, roundish, if_pos rises.le, ← Int.lt_add_one_iff, Int.floor_lt]
    push_cast
    linarith

/-- A rising line goes as far as it is to go, or at least to any coordinate on the way that
is not too large. -/
theorem rising_reaches {limit : Int} (positive : 0 < a) (long : a ≤ 2 ^ 32) (rises : c1 - c0 ≤ a)
    (start : c0 < limit) (passed : limit ≤ c1) (low : |c0| ≤ size) (high : |limit| ≤ size)
    (small : size ≤ 2 ^ 32) (room : size * (a + 1) ≤ 2 ^ 48) :
    limit ≤ coordinate (double (slope a c0 c1)) c0 c1 a := by
  have up : c0 < c1 := start.trans_le passed
  have whole := slope_mul positive up
  have slopePos := slope_pos positive up
  have near := abs_le.mp (coordinate_error slopePos.le positive.le c0)
  have steps : (0 : ℚ) < a + 1 := by
    have : (0 : ℚ) < a := by exact_mod_cast positive
    linarith
  have risesQ : (c1 : ℚ) - c0 ≤ a := by exact_mod_cast rises
  have flat : slope a c0 c1 ≤ 1 := by
    by_contra steep
    have := mul_lt_mul_of_pos_right (lt_of_not_ge steep) steps
    linarith
  have final : slope a c0 c1 * a = c1 - c0 + 1 - slope a c0 c1 := by linarith
  rw [coordinate, roundish, if_pos up.le, Int.le_floor]
  by_cases exactly : limit = c1
  · subst exactly
    by_cases diagonal : limit - c0 = a
    · have one : slope a c0 limit = 1 := by
        rw [← diagonal] at whole steps ⊢
        push_cast at whole steps ⊢
        apply mul_right_cancel₀ steps.ne'
        linarith
      have few : |a| < 2 ^ 53 := by
        rw [abs_of_pos positive]
        omega
      have few' : |limit| < 2 ^ 53 := by omega
      have sum : (a : ℚ) + c0 = limit := by
        rw [← diagonal]
        push_cast
        ring
      have unit : double 1 = 1 := by
        have := double_intCast (n := 1) (by norm_num)
        rwa [Int.cast_one] at this
      rw [one, unit, one_mul, double_intCast few, sum, double_intCast few']
    · have error := error_le positive up low high room le_rfl
      have less : (limit : ℚ) - c0 + 1 ≤ a := by
        have : limit - c0 + 1 ≤ a := by omega
        exact_mod_cast this
      generalize (5 * (slope a c0 limit * a) + |(c0 : ℚ)|) / 2 ^ 53 = rest at error near
      have fits : slope a c0 limit + rest ≤ 1 := by
        by_contra more
        have := mul_lt_mul_of_pos_right (lt_of_not_ge more) steps
        rw [add_mul] at this
        linarith
      linarith
  · have before : (limit : ℚ) + 1 ≤ c1 := by
      have : limit + 1 ≤ c1 := by omega
      exact_mod_cast this
    have longQ : (a : ℚ) ≤ 2 ^ 32 := by exact_mod_cast long
    have lowQ : |(c0 : ℚ)| ≤ 2 ^ 32 := by exact_mod_cast low.trans small
    have error : (5 * (slope a c0 c1 * a) + |(c0 : ℚ)|) / 2 ^ 53 ≤ 1 - slope a c0 c1 + 1 := by
      have rise : slope a c0 c1 * a ≤ 2 * 2 ^ 32 := by linarith
      have bound : (5 * (slope a c0 c1 * a) + |(c0 : ℚ)|) / 2 ^ 53 ≤ 11 * 2 ^ 32 / 2 ^ 53 := by
        gcongr
        linarith
      norm_num at bound ⊢
      linarith
    linarith

end Rising

/-! ## All lines -/

section Lines

variable {m : ℚ} {a c0 c1 s0 t width height : Int}

theorem slope_neg (a c0 c1 : Int) : slope a (-c0) (-c1) = -slope a c0 c1 := by
  rw [slope, slope, show -c1 - -c0 = -(c1 - c0) by ring, Int.sign_neg]
  push_cast
  ring

/-- A falling line is a rising one, upside down. -/
theorem coordinate_neg (ne : c0 ≠ c1) (t : Int) :
    coordinate (-m) (-c0) (-c1) t = -coordinate m c0 c1 t := by
  have mirrored : double (double (-m * t) + (-c0 : Int)) = -double (double (m * t) + c0) := by
    rw [neg_mul, double_neg, Int.cast_neg, ← neg_add, double_neg]
  rw [coordinate, coordinate, mirrored, roundish, roundish]
  by_cases rises : c0 ≤ c1
  · rw [if_pos rises, if_neg (by omega), Int.ceil_neg]
  · rw [if_neg rises, if_pos (by omega), Int.floor_neg]

theorem coordinate_falling (falls : c1 < c0) (t : Int) :
    coordinate (double (slope a c0 c1)) c0 c1 t =
      -coordinate (double (slope a (-c0) (-c1))) (-c0) (-c1) t := by
  rw [slope_neg, double_neg, coordinate_neg falls.ne', neg_neg]

theorem coordinate_level (small : |c0| < 2 ^ 53) (t : Int) :
    coordinate (double (slope a c0 c0)) c0 c0 t = c0 := by
  have zero : slope a c0 c0 = 0 := by
    rw [slope, sub_self, Int.sign_zero, add_zero, Int.cast_zero, zero_div]
  have none : double 0 = 0 := roundTo_zero 53
  rw [coordinate, zero, none, zero_mul, none, zero_add, double_intCast small, roundish,
    if_pos le_rfl, Int.floor_intCast]

/-- A line that is at least as long as it is high lies in a window exactly if its ends do. -/
theorem coordinates_inside_iff (positive : 0 < a) (flat : |c1 - c0| ≤ a) (int : |c0| ≤ 2 ^ 31)
    (widthLe : width ≤ 2 ^ 32) (heightLe : height ≤ 2 ^ 32) (room : height * width ≤ 2 ^ 48) :
    (∀ t, 0 ≤ t → t ≤ a → (0 ≤ s0 + t ∧ s0 + t < width) ∧
        0 ≤ coordinate (double (slope a c0 c1)) c0 c1 t ∧
        coordinate (double (slope a c0 c1)) c0 c1 t < height) ↔
      (0 ≤ s0 ∧ s0 + a < width) ∧ (0 ≤ c0 ∧ c0 < height) ∧ (0 ≤ c1 ∧ c1 < height) := by
  have small : |c0| < 2 ^ 53 := int.trans_lt (by norm_num)
  -- the steps of a line in the window are no more than its width
  have fits (left : 0 ≤ s0) (right : s0 + a < width) (nonneg : 0 ≤ height) :
      height * (a + 1) ≤ 2 ^ 48 :=
    (mul_le_mul_of_nonneg_left (by omega) nonneg).trans room
  have bounds := abs_le.mp flat
  constructor
  · intro inside
    have first := inside 0 le_rfl positive.le
    have last := inside a positive.le le_rfl
    rw [coordinate_zero small, add_zero] at first
    rcases first with ⟨⟨left, -⟩, top, bottom⟩
    rcases last with ⟨⟨-, right⟩, final⟩
    have low : |c0| ≤ height := by
      rw [abs_of_nonneg top]
      exact bottom.le
    have narrow := fits left right (by omega)
    refine ⟨⟨left, right⟩, ⟨top, bottom⟩, ?_, ?_⟩
    · by_contra above
      have reaches := @rising_reaches a (-c0) (-c1) _ 1 positive (by omega) (by omega)
        (by omega) (by omega) (by rwa [abs_neg]) (by rw [abs_one]; omega) heightLe narrow
      have final := final.1
      rw [coordinate_falling (by omega)] at final
      omega
    · by_contra below
      have reaches := @rising_reaches a c0 c1 _ height positive (by omega)
        (by omega) bottom (by omega) low (abs_of_nonneg (by omega)).le heightLe narrow
      omega
  · rintro ⟨⟨left, right⟩, ⟨top, bottom⟩, top', bottom'⟩ t forward upTo_a
    have narrow := fits left right (by omega)
    have low : |c0| ≤ height := by
      rw [abs_of_nonneg top]
      exact bottom.le
    have high : |c1| ≤ height := by
      rw [abs_of_nonneg top']
      exact bottom'.le
    refine ⟨by omega, ?_⟩
    rcases lt_trichotomy c0 c1 with rises | level | falls
    · have between := rising_between positive rises low high narrow forward upTo_a
      omega
    · subst level
      rw [coordinate_level small]
      exact ⟨top, bottom⟩
    · have between := @rising_between a (-c0) (-c1) _ _ positive (by omega) (by rwa [abs_neg])
        (by rwa [abs_neg]) narrow forward upTo_a
      rw [coordinate_falling falls]
      omega

end Lines

/-! ## Lines in a window -/

/-- The rectangle of a window's pixels. -/
def outline (size : Vector2D) : Rectangle :=
  ⟨⟨0, 0⟩, size⟩

/-- The pixels of a window fit into memory. -/
structure Allocated (size : Vector2D) : Prop where
  width_lt : size.x < 2 ^ 31
  height_lt : size.y < 2 ^ 31
  pixels_le : size.x * size.y ≤ 2 ^ 48

/-- A value of type `int`. -/
def IsInt (x : Int) : Prop :=
  -2 ^ 31 ≤ x ∧ x < 2 ^ 31

theorem IsInt.abs_le_two_pow {x : Int} (int : IsInt x) : |x| ≤ 2 ^ 31 := by
  rw [IsInt] at int
  exact abs_le.mpr ⟨int.1, int.2.le⟩

/-- A line along the x axis. -/
theorem alongX_inside_iff {size : Vector2D} (allocated : Allocated size) {x0 y0 x1 y1 : Int}
    (int : IsInt y0) (ascends : x0 < x1) (flat : |y1 - y0| ≤ x1 - x0) :
    (∀ p ∈ (upTo x0 x1).map fun x =>
        (⟨x, coordinate (double (slope (x1 - x0) y0 y1)) y0 y1 (x - x0)⟩ : Vector2D),
      (outline size).Contains p.x p.y) ↔
      (outline size).Contains x0 y0 ∧ (outline size).Contains x1 y1 := by
  have room : size.y * size.x ≤ 2 ^ 48 := by
    rw [mul_comm]
    exact allocated.pixels_le
  have steps := @coordinates_inside_iff _ _ _ x0 _ _ (sub_pos.mpr ascends) flat int.abs_le_two_pow
    (show size.x ≤ 2 ^ 32 by have := allocated.width_lt; omega)
    (show size.y ≤ 2 ^ 32 by have := allocated.height_lt; omega) room
  rw [List.forall_mem_map]
  simp only [Rectangle.Contains, outline, zero_add]
  constructor
  · intro inside
    have ends := steps.mp fun t forward upTo_a => by
      have pixel := inside (x0 + t) (mem_upTo.mpr (by omega))
      rw [add_sub_cancel_left] at pixel
      exact ⟨⟨pixel.1, pixel.2.1⟩, pixel.2.2⟩
    omega
  · intro ends x member
    have between := mem_upTo.mp member
    have pixel := steps.mpr (by omega) (x - x0) (by omega) (by omega)
    rw [add_sub_cancel] at pixel
    exact ⟨pixel.1.1, pixel.1.2, pixel.2⟩

/-- A line along the y axis. -/
theorem alongY_inside_iff {size : Vector2D} (allocated : Allocated size) {x0 y0 x1 y1 : Int}
    (int : IsInt x0) (ascends : y0 < y1) (steep : |x1 - x0| ≤ y1 - y0) :
    (∀ p ∈ (upTo y0 y1).map fun y =>
        (⟨coordinate (double (slope (y1 - y0) x0 x1)) x0 x1 (y - y0), y⟩ : Vector2D),
      (outline size).Contains p.x p.y) ↔
      (outline size).Contains x0 y0 ∧ (outline size).Contains x1 y1 := by
  have steps := @coordinates_inside_iff _ _ _ y0 _ _ (sub_pos.mpr ascends) steep int.abs_le_two_pow
    (show size.y ≤ 2 ^ 32 by have := allocated.height_lt; omega)
    (show size.x ≤ 2 ^ 32 by have := allocated.width_lt; omega) allocated.pixels_le
  rw [List.forall_mem_map]
  simp only [Rectangle.Contains, outline, zero_add]
  constructor
  · intro inside
    have ends := steps.mp fun t forward upTo_a => by
      have pixel := inside (y0 + t) (mem_upTo.mpr (by omega))
      rw [add_sub_cancel_left] at pixel
      exact ⟨pixel.2.2, pixel.1, pixel.2.1⟩
    omega
  · intro ends y member
    have between := mem_upTo.mp member
    have pixel := steps.mpr (by omega) (y - y0) (by omega) (by omega)
    rw [add_sub_cancel] at pixel
    exact ⟨pixel.2.1, pixel.2.2, pixel.1⟩

/-- The length of a line, with both of its ends. -/
theorem abs_add_sign {d : Int} (nonzero : d ≠ 0) : |d + d.sign| = |d| + 1 := by
  rcases lt_or_gt_of_ne nonzero with below | above
  · rw [Int.sign_eq_neg_one_of_neg below, abs_of_neg below, abs_of_neg (by omega)]
    omega
  · rw [Int.sign_eq_one_of_pos above, abs_of_pos above, abs_of_pos (by omega)]

theorem add_sign_eq_zero {d : Int} : d + d.sign = 0 ↔ d = 0 := by
  constructor
  · intro zero
    by_contra nonzero
    have length := abs_add_sign nonzero
    rw [zero, abs_zero] at length
    have := abs_nonneg d
    omega
  · rintro rfl
    rfl

/-- The other coordinate changes no more than the one that a line goes along. -/
theorem abs_le_of_signed {d e : Int} (flat : |d + d.sign| ≤ |e + e.sign|) : |d| ≤ |e| := by
  by_cases level : d = 0
  · rw [level, abs_zero]
    exact abs_nonneg e
  · rw [abs_add_sign level] at flat
    by_cases point : e = 0
    · rw [point] at flat
      have := abs_nonneg d
      simp at flat
      omega
    · rw [abs_add_sign point] at flat
      omega

/-- The slope does not depend on the direction of the line. -/
theorem slope_swap (a c0 c1 : Int) :
    ((c1 - c0 + (c1 - c0).sign : Int) : ℚ) / ((-a + -1 : Int) : ℚ) = slope a c1 c0 := by
  rw [slope, show c0 - c1 = -(c1 - c0) by ring, Int.sign_neg, show -a + -1 = -(a + 1) by ring]
  push_cast
  rw [div_neg, ← neg_div]
  ring

/-- `WinDrawLine` stays inside the window exactly if both ends of the line are pixels of
it. -/
theorem drawLine_inside_iff {size : Vector2D} (allocated : Allocated size) {x0 y0 x1 y1 : Int}
    (intX0 : IsInt x0) (intY0 : IsInt y0) (intX1 : IsInt x1) (intY1 : IsInt y1) :
    (∀ p ∈ drawLine x0 y0 x1 y1, (outline size).Contains p.x p.y) ↔
      (outline size).Contains x0 y0 ∧ (outline size).Contains x1 y1 := by
  rw [drawLine]
  simp only [add_sign_eq_zero]
  by_cases point : x1 - x0 = 0 ∧ y1 - y0 = 0
  · have sameX : x1 = x0 := by omega
    have sameY : y1 = y0 := by omega
    rw [if_pos point, sameX, sameY]
    simp
  · rw [if_neg point]
    by_cases flat : |y1 - y0 + (y1 - y0).sign| ≤ |x1 - x0 + (x1 - x0).sign|
    · have less := abs_le_of_signed flat
      rw [if_pos flat]
      rcases lt_trichotomy x0 x1 with right | same | left
      · have forward : (x1 - x0).sign = 1 := Int.sign_eq_one_of_pos (by omega)
        rw [abs_of_pos (show 0 < x1 - x0 by omega)] at less
        simp only [forward, if_neg (show ¬ x1 - x0 + 1 < 0 by omega)]
        exact alongX_inside_iff allocated intY0 right less
      · rw [same, sub_self, abs_zero, abs_nonpos_iff] at less
        omega
      · have back : (x1 - x0).sign = -1 := Int.sign_eq_neg_one_of_neg (by omega)
        rw [abs_of_neg (show x1 - x0 < 0 by omega), abs_sub_comm] at less
        simp only [back, if_pos (show x1 - x0 + -1 < 0 by omega)]
        rw [show x1 - x0 = -(x0 - x1) by ring, slope_swap, and_comm]
        exact alongX_inside_iff allocated intY1 left (by omega)
    · have less := abs_le_of_signed (le_of_not_ge flat)
      rw [if_neg flat]
      rcases lt_trichotomy y0 y1 with down | same | up
      · have forward : (y1 - y0).sign = 1 := Int.sign_eq_one_of_pos (by omega)
        rw [abs_of_pos (show 0 < y1 - y0 by omega)] at less
        simp only [forward, if_neg (show ¬ y1 - y0 + 1 < 0 by omega)]
        exact alongY_inside_iff allocated intX0 down less
      · rw [same, sub_self, abs_zero, abs_nonpos_iff] at less
        omega
      · have back : (y1 - y0).sign = -1 := Int.sign_eq_neg_one_of_neg (by omega)
        rw [abs_of_neg (show y1 - y0 < 0 by omega), abs_sub_comm] at less
        simp only [back, if_pos (show y1 - y0 + -1 < 0 by omega)]
        rw [show y1 - y0 = -(y0 - y1) by ring, slope_swap, and_comm]
        exact alongY_inside_iff allocated intX1 up (by omega)

end Mikanos.Screen
