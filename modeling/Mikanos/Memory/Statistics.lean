import Mikanos.Memory.FirstFit

/-!
# Memory statistics

`Stat` adds up the bits of whole lines, from the line of the first frame of the range to
before the line of its end.  So it counts the frames before the range in the first
line, and does not count those of the range in the last one.
-/

namespace Mikanos.Memory

/-- `MemoryStat`. -/
structure MemoryStat where
  allocatedFrames : Nat
  totalFrames : Nat

/-- `std::bitset<kBitsPerMapLine>::count`. -/
def bitCount (line : BitVec 64) : Nat :=
  (List.range kBitsPerMapLine).countP line.getLsbD

namespace LineManager

/-- `Stat`. -/
def stat (m : LineManager) : MemoryStat where
  allocatedFrames :=
    ((List.range' (m.rangeBegin / kBitsPerMapLine)
      (m.rangeEnd / kBitsPerMapLine - m.rangeBegin / kBitsPerMapLine)).map fun i =>
        bitCount (m.allocMap i)).sum
  totalFrames := (m.rangeEnd + 2 ^ 64 - m.rangeBegin) % 2 ^ 64

/-- The number of frames in use between two frames. -/
def inUse (m : LineManager) (first past : Nat) : Nat :=
  (List.range' first (past - first)).countP m.getBit

/-- `Stat` counts the frames of the range that are in use, and those of the range. -/
structure CountsRange (m : LineManager) : Prop where
  allocated : m.stat.allocatedFrames = m.inUse m.rangeBegin m.rangeEnd
  total : m.stat.totalFrames = m.rangeEnd - m.rangeBegin
  le : m.stat.allocatedFrames ≤ m.stat.totalFrames

variable {m : LineManager} {a b c : Nat}

theorem inUse_add (first : a ≤ b) (second : b ≤ c) : m.inUse a c = m.inUse a b + m.inUse b c := by
  rw [inUse, inUse, inUse, ← List.countP_append]
  congr 1
  rw [show c - a = (b - a) + (c - b) by omega, ← List.range'_append, Nat.one_mul,
    Nat.add_sub_of_le first]

theorem inUse_le (m : LineManager) (a b : Nat) : m.inUse a b ≤ b - a := by
  have le := List.countP_le_length (l := List.range' a (b - a)) (p := m.getBit)
  rwa [List.length_range'] at le

/-- The bits of a line are the frames that it stands for. -/
theorem bitCount_line (m : LineManager) (i : Nat) :
    bitCount (m.allocMap i) = m.inUse (kBitsPerMapLine * i) (kBitsPerMapLine * (i + 1)) := by
  rw [bitCount, inUse, Nat.mul_succ, Nat.add_sub_cancel_left, List.range'_eq_map_range,
    List.countP_map]
  apply List.countP_congr
  intro bit member
  rw [List.mem_range] at member
  rw [Function.comp_apply, getBit_eq, Nat.mul_add_div (by decide), Nat.div_eq_of_lt member,
    Nat.add_zero, Nat.mul_add_mod, Nat.mod_eq_of_lt member]

/-- Whole lines. -/
theorem sum_bitCount (m : LineManager) (first count : Nat) :
    ((List.range' first count).map fun i => bitCount (m.allocMap i)).sum =
      m.inUse (kBitsPerMapLine * first) (kBitsPerMapLine * (first + count)) := by
  induction count generalizing first with
  | zero => simp [inUse]
  | succ count ih =>
      rw [List.range'_succ, List.map_cons, List.sum_cons, ih, bitCount_line, Nat.add_right_comm,
        Nat.add_assoc first]
      refine (inUse_add ?_ ?_).symm
      · exact Nat.mul_le_mul_left _ (Nat.le_succ first)
      · exact Nat.mul_le_mul_left _ (by omega)

/-- What `Stat` counts, and what it should count, differ by the frames in use before the range
in its first line and by those of the range in its last line. -/
theorem stat_balance (ordered : m.rangeBegin ≤ m.rangeEnd) :
    m.stat.allocatedFrames +
        m.inUse (kBitsPerMapLine * (m.rangeEnd / kBitsPerMapLine)) m.rangeEnd =
      m.inUse (kBitsPerMapLine * (m.rangeBegin / kBitsPerMapLine)) m.rangeBegin +
        m.inUse m.rangeBegin m.rangeEnd := by
  have lines : m.rangeBegin / kBitsPerMapLine ≤ m.rangeEnd / kBitsPerMapLine :=
    Nat.div_le_div_right ordered
  have begins := Nat.mul_div_le m.rangeBegin kBitsPerMapLine
  have ends := Nat.mul_div_le m.rangeEnd kBitsPerMapLine
  have whole := Nat.mul_le_mul_left kBitsPerMapLine lines
  have sum : m.stat.allocatedFrames = _ := m.sum_bitCount _ _
  rw [sum, Nat.add_sub_of_le lines, ← inUse_add whole ends, ← inUse_add begins ordered]

/-- `Stat` is right exactly if as many frames are in use before the range in its first line as
are in use of the range in its last line. -/
theorem countsRange_iff (ordered : m.rangeBegin ≤ m.rangeEnd) (inBitmap : m.rangeEnd ≤ kFrameCount) :
    m.CountsRange ↔
      m.inUse (kBitsPerMapLine * (m.rangeBegin / kBitsPerMapLine)) m.rangeBegin =
        m.inUse (kBitsPerMapLine * (m.rangeEnd / kBitsPerMapLine)) m.rangeEnd := by
  have balance := stat_balance ordered
  have total : m.stat.totalFrames = m.rangeEnd - m.rangeBegin := by
    have small : kFrameCount < 2 ^ 64 := by decide
    change (m.rangeEnd + 2 ^ 64 - m.rangeBegin) % 2 ^ 64 = _
    omega
  constructor
  · intro counts
    rw [counts.allocated] at balance
    omega
  · intro same
    have allocated : m.stat.allocatedFrames = m.inUse m.rangeBegin m.rangeEnd := by omega
    refine ⟨allocated, total, ?_⟩
    rw [allocated, total]
    exact m.inUse_le _ _

theorem inUse_congr {m m' : LineManager} (same : ∀ frame, a ≤ frame → frame < b →
    m'.getBit frame = m.getBit frame) : m'.inUse a b = m.inUse a b := by
  apply List.countP_congr
  intro frame member
  rw [List.mem_range'_1] at member
  rw [same frame member.1 (by omega)]

/-- Frames that are all free, or all in use. -/
theorem inUse_const {value : Bool} (const : ∀ frame, a ≤ frame → frame < b →
    m.getBit frame = value) : m.inUse a b = if value then b - a else 0 := by
  have congr : (List.range' a (b - a)).countP m.getBit = (List.range' a (b - a)).countP fun _ => value := by
    apply List.countP_congr
    intro frame member
    rw [List.mem_range'_1] at member
    rw [const frame member.1 (by omega)]
  rw [inUse, congr]
  cases value <;> simp

/-- `Allocate` adds its frames to those of the range that are in use. -/
theorem inUse_allocate {n s : Nat} {m' : LineManager} (positive : 0 < n)
    (allocated : m.allocate n = (m', .ok s)) :
    m'.inUse m.rangeBegin m.rangeEnd = m.inUse m.rangeBegin m.rangeEnd + n := by
  have spec := (search_spec (m := m) positive).2
  rw [allocated] at spec
  cases spec with
  | found fits least marks _ _ =>
      rcases fits with ⟨lower, upper, isFree⟩
      change m.rangeBegin ≤ s at lower
      change s + n ≤ m.rangeEnd at upper
      have outside : ∀ frame, ¬ (s ≤ frame ∧ frame < s + n) → m'.getBit frame = m.getBit frame := by
        intro frame away
        rw [Bool.eq_iff_iff, marks frame]
        tauto
      have parts (k : LineManager) {b e : Nat} (low : b ≤ s) (high : s + n ≤ e) :
          k.inUse b e = k.inUse b s + (k.inUse s (s + n) + k.inUse (s + n) e) := by
        rw [inUse_add low ((Nat.le_add_right s n).trans high), inUse_add (Nat.le_add_right s n) high]
      have before := inUse_congr (a := m.rangeBegin) (b := s) fun frame _ high => outside frame (by omega)
      have after := inUse_congr (a := s + n) (b := m.rangeEnd) fun frame low _ => outside frame (by omega)
      have free : m.inUse s (s + n) = 0 := inUse_const isFree
      have taken : m'.inUse s (s + n) = s + n - s :=
        inUse_const fun frame low high => (marks frame).mpr (.inr ⟨low, high⟩)
      rw [Nat.add_sub_cancel_left] at taken
      rw [parts m' lower upper, parts m lower upper, before, after, free, taken]
      omega

/-- Where `Stat` is right before and after a call of `Allocate`, it shows the frames that were
handed out. -/
theorem stat_allocate {n s : Nat} {m' : LineManager} (positive : 0 < n)
    (allocated : m.allocate n = (m', .ok s)) (counts : m.CountsRange) (counts' : m'.CountsRange) :
    m'.stat.allocatedFrames = m.stat.allocatedFrames + n := by
  have spec := (search_spec (m := m) positive).2
  have more := inUse_allocate positive allocated
  rw [allocated] at spec
  cases spec with
  | found fits least marks sameBegin sameEnd =>
      rw [counts'.allocated, counts.allocated, sameBegin, sameEnd, more]

/-- Two lines, of which the first has frame 0 in use. -/
def twoLines : LineManager where
  allocMap i := if i = 0 then 0b11 else 0
  rangeBegin := 0
  rangeEnd := 128

theorem countsRange_twoLines : twoLines.CountsRange :=
  (countsRange_iff (by decide) (by decide)).mpr (by decide)

/-- Frame 0 lies before the range but in its first line. -/
theorem not_countsRange_fromOne : ¬ CountsRange { twoLines with rangeBegin := 1 } := by
  intro counts
  exact absurd counts.allocated (by decide)

end LineManager

end Mikanos.Memory
