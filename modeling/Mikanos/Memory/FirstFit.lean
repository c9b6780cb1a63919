import Mikanos.Memory.BootMap

/-!
# First fit

The search of `Allocate` goes on behind the first frame that is in use.  No run of free
frames that begins before that frame can be long enough, so that the search stops at
the first run that is, or where no run can be any more.
-/

namespace Mikanos.Memory

open Transition

namespace BitmapMemoryManager

variable {m : BitmapMemoryManager} {n start s i rest k fuel : Nat}

/-- The frames from `s` on are in the range and free. -/
def Fits (m : BitmapMemoryManager) (n s : Nat) : Prop :=
  m.rangeBegin ≤ s ∧ s + n ≤ m.rangeEnd ∧ ∀ frame, s ≤ frame → frame < s + n → m.getBit frame = false

/-- The outer loop of `Allocate`, begun at a frame, ends: with the first frame of a run, or
because it has run out of frames. -/
inductive Ends (m : BitmapMemoryManager) (n : Nat) : Nat → Option Nat → Prop
  | outOfRange {start : Nat} : m.scan start 0 n = .outOfRange → Ends m n start none
  | fits {start : Nat} : m.scan start 0 n = .fits → Ends m n start (some start)
  | taken {start i : Nat} {result : Option Nat} : m.scan start 0 n = .taken i →
      Ends m n (start + (i + 1)) result → Ends m n start result

/-! ## The inner loop -/

theorem scan_taken (taken : m.scan start i rest = .taken k) :
    i ≤ k ∧ k < i + rest ∧ start + k < m.rangeEnd ∧ m.getBit (start + k) = true := by
  induction rest generalizing i with
  | zero => cases taken
  | succ rest ih =>
      rw [scan] at taken
      split at taken
      · cases taken
      · split at taken
        · rename_i inRange used
          cases taken
          exact ⟨le_rfl, by omega, by omega, used⟩
        · rcases ih taken with ⟨lower, upper, facts⟩
          exact ⟨by omega, by omega, facts⟩

theorem scan_outOfRange (out : m.scan start i rest = .outOfRange) : m.rangeEnd < start + i + rest := by
  induction rest generalizing i with
  | zero => cases out
  | succ rest ih =>
      rw [scan] at out
      split at out
      · omega
      · split at out
        · cases out
        · have := ih out
          omega

/-! ## The outer loop -/

/-- No run that fits begins in a prefix that ends with a frame in use. -/
theorem not_fits_of_taken (used : m.getBit (start + k) = true) (lt : k < n) (lower : start ≤ s)
    (upper : s ≤ start + k) : ¬ m.Fits n s := by
  rintro ⟨-, -, isFree⟩
  rw [isFree (start + k) upper (by omega)] at used
  cases used

/-- The outer loop ends, and with the first run that fits. -/
theorem search_spec (positive : 0 < n) (enough : m.rangeEnd < start + fuel) (above : m.rangeBegin ≤ start) :
    Ends m n start (m.search n fuel start) ∧
      ((∃ s, m.search n fuel start = some s ∧ m.Fits n s ∧ ∀ t, start ≤ t → m.Fits n t → s ≤ t) ∨
        m.search n fuel start = none ∧ ∀ t, start ≤ t → ¬ m.Fits n t) := by
  induction fuel generalizing start with
  | zero =>
      have scanned : m.scan start 0 n = .outOfRange := by
        cases n with
        | zero => exact absurd positive (Nat.lt_irrefl 0)
        | succ n => rw [scan, if_pos (by omega)]
      refine ⟨.outOfRange scanned, .inr ⟨rfl, ?_⟩⟩
      rintro t after ⟨-, fits, -⟩
      omega
  | succ fuel ih =>
      rw [search]
      cases scanned : m.scan start 0 n with
      | outOfRange =>
          refine ⟨.outOfRange scanned, .inr ⟨rfl, ?_⟩⟩
          rintro t after ⟨-, fits, -⟩
          have := scan_outOfRange scanned
          omega
      | fits =>
          have inside := m.free_of_scan start 0 n scanned
          refine ⟨.fits scanned, .inl ⟨start, rfl, ⟨above, ?_, ?_⟩, fun t after _ => after⟩⟩
          · have last := (inside (n - 1) (Nat.zero_le _) (by omega)).1
            omega
          · intro frame lower upper
            have isFree := (inside (frame - start) (Nat.zero_le _) (by omega)).2
            rwa [Nat.add_sub_of_le lower] at isFree
      | taken i =>
          rcases scan_taken scanned with ⟨-, lt, -, used⟩
          rw [Nat.zero_add] at lt
          have skipped : ∀ t, start ≤ t → m.Fits n t → start + (i + 1) ≤ t := by
            intro t after fits
            by_contra before
            exact not_fits_of_taken used lt after (by omega) fits
          rcases @ih (start + (i + 1)) (by omega) (by omega) with ⟨ends, found | ⟨missed, none⟩⟩
          · rcases found with ⟨s, found, fits, least⟩
            exact ⟨.taken scanned ends, .inl ⟨s, found, fits, fun t after fits' =>
              least t (skipped t after fits') fits'⟩⟩
          · exact ⟨.taken scanned ends, .inr ⟨missed, fun t after fits' =>
              none t (skipped t after fits') fits'⟩⟩

end BitmapMemoryManager

namespace LineManager

variable {m : LineManager} {n : Nat}

/-- What `Allocate` should do: hand out the first run that fits and mark it, or fail if
there is none. -/
inductive FirstFit (m : LineManager) (n : Nat) : LineManager × Except Error Nat → Prop
  | found {m' : LineManager} {s : Nat} : m.bits.Fits n s → (∀ t, m.bits.Fits n t → s ≤ t) →
      (∀ frame, m'.getBit frame = true ↔ m.getBit frame = true ∨ s ≤ frame ∧ frame < s + n) →
      m'.rangeBegin = m.rangeBegin → m'.rangeEnd = m.rangeEnd → FirstFit m n (m', .ok s)
  | none : (∀ s, ¬ m.bits.Fits n s) → FirstFit m n (m, .error .noEnoughMemory)

theorem getBit_markAllocated_iff (m : LineManager) (start n frame : Nat) :
    (m.markAllocated start n).getBit frame = true ↔
      m.getBit frame = true ∨ start ≤ frame ∧ frame < start + n := by
  rw [← Bool.not_eq_false, m.getBit_markAllocated start n frame, ← Bool.not_eq_false (m.getBit frame)]
  tauto

theorem search_spec (positive : 0 < n) :
    m.bits.Ends n m.rangeBegin (m.bits.search n (m.rangeEnd + 1 - m.rangeBegin) m.rangeBegin) ∧
      m.FirstFit n (m.allocate n) := by
  have range : m.bits.rangeEnd = m.rangeEnd ∧ m.bits.rangeBegin = m.rangeBegin := ⟨rfl, rfl⟩
  rcases @BitmapMemoryManager.search_spec m.bits n m.rangeBegin (m.rangeEnd + 1 - m.rangeBegin)
    positive (by omega) (by omega) with
    ⟨ends, ⟨s, found, fits, least⟩ | ⟨missed, none⟩⟩
  · refine ⟨ends, ?_⟩
    rw [allocate, found]
    exact .found fits (fun t fits' => least t fits'.1 fits') (m.getBit_markAllocated_iff s n)
      (m.range_markAllocated s n).1 (m.range_markAllocated s n).2
  · refine ⟨ends, ?_⟩
    rw [allocate, missed]
    exact .none fun s fits => none s fits.1 fits

end LineManager

/-! ## Blocks -/

/-- The manager with the blocks that have been handed out and have not come back, by
first frame and length. -/
structure Blocks where
  manager : LineManager
  live : List (Nat × Nat)

/-- The frame belongs to the block. -/
def InBlock (frame : Nat) (block : Nat × Nat) : Prop :=
  block.1 ≤ frame ∧ frame < block.1 + block.2

/-- The blocks have no frame in common. -/
def BlocksApart (block other : Nat × Nat) : Prop :=
  ∀ frame, ¬ (InBlock frame block ∧ InBlock frame other)

instance : Std.Symm BlocksApart :=
  ⟨fun _ _ apart frame both => apart frame both.symm⟩

/-- `Allocate` of some frames, and `Free` of a block that was handed out. -/
inductive Blocks.Step : Transition.Step Blocks Call
  | allocate {m m' : LineManager} {live : List (Nat × Nat)} {n start : Nat} (positive : 0 < n)
      (allocated : m.allocate n = (m', .ok start)) :
      Step ⟨m, live⟩ (.allocate n) ⟨m', (start, n) :: live⟩
  | refuse {m m' : LineManager} {live : List (Nat × Nat)} {n : Nat} {e : Error} (positive : 0 < n)
      (refused : m.allocate n = (m', .error e)) : Step ⟨m, live⟩ (.allocate n) ⟨m', live⟩
  | free {m : LineManager} {live : List (Nat × Nat)} {start n : Nat} (member : (start, n) ∈ live) :
      Step ⟨m, live⟩ (.free start n) ⟨m.free start n, live.erase (start, n)⟩

/-- Blocks have no frame in common with one another, nor with the frames that were in use
from the beginning. -/
structure Blocks.Apart (boot : LineManager) (s : Blocks) : Prop where
  disjoint : s.live.Pairwise BlocksApart
  fromBoot : ∀ block ∈ s.live, ∀ frame, InBlock frame block → boot.getBit frame = false

/-- The invariant: the frames of blocks, and those in use from the beginning, are marked. -/
structure Blocks.Inv (boot : LineManager) (s : Blocks) : Prop extends s.Apart boot where
  nonempty : ∀ block ∈ s.live, 0 < block.2
  marked : ∀ block ∈ s.live, ∀ frame, InBlock frame block → s.manager.getBit frame = true
  kept : ∀ frame, boot.getBit frame = true → s.manager.getBit frame = true

theorem Blocks.Inv.step {boot : LineManager} {s s' : Blocks} {call : Call} (inv : s.Inv boot)
    (step : Blocks.Step s call s') : s'.Inv boot := by
  cases step with
  | @allocate m m' live n start positive allocated =>
      have spec := (LineManager.search_spec (m := m) positive).2
      rw [allocated] at spec
      cases spec with
      | found fits least marks _ _ =>
          have isFree : ∀ frame, InBlock frame (start, n) → m.getBit frame = false :=
            fun frame inside => fits.2.2 frame inside.1 inside.2
          constructor
          · constructor
            · refine List.Pairwise.cons ?_ inv.disjoint
              rintro other member frame ⟨inside, inOther⟩
              exact Bool.false_ne_true ((isFree frame inside).symm.trans
                (inv.marked other member frame inOther))
            · intro block member frame inside
              rcases List.mem_cons.mp member with rfl | old
              · by_contra used
                rw [Bool.not_eq_false] at used
                exact Bool.false_ne_true ((isFree frame inside).symm.trans (inv.kept frame used))
              · exact inv.fromBoot block old frame inside
          · intro block member
            rcases List.mem_cons.mp member with rfl | old
            · exact positive
            · exact inv.nonempty block old
          · intro block member frame inside
            rcases List.mem_cons.mp member with rfl | old
            · exact (marks frame).mpr (.inr inside)
            · exact (marks frame).mpr (.inl (inv.marked block old frame inside))
          · exact fun frame used => (marks frame).mpr (.inl (inv.kept frame used))
  | @refuse m m' live n e positive refused =>
      have spec := (LineManager.search_spec (m := m) positive).2
      rw [refused] at spec
      cases spec with
      | none _ => exact inv
  | @free m live start n member =>
      have nodup : live.Nodup := by
        apply inv.disjoint.imp_of_mem
        rintro block other here - apart rfl
        have positive := inv.nonempty block here
        exact apart block.1 ⟨⟨le_rfl, by omega⟩, ⟨le_rfl, by omega⟩⟩
      -- a frame that stays marked does not belong to the block that comes back
      have stays : ∀ frame, m.getBit frame = true → ¬ InBlock frame (start, n) →
          (m.free start n).getBit frame = true := by
        intro frame used outside
        rw [← Bool.not_eq_false, m.getBit_free, used]
        rintro (impossible | inside)
        · cases impossible
        · exact outside inside
      have away : ∀ block ∈ live.erase (start, n), block ∈ live ∧ block ≠ (start, n) :=
        fun block kept => (nodup.mem_erase_iff.mp kept).symm
      constructor
      · constructor
        · exact inv.disjoint.sublist List.erase_sublist
        · exact fun block kept => inv.fromBoot block (away block kept).1
      · exact fun block kept => inv.nonempty block (away block kept).1
      · intro block kept frame inside
        rcases away block kept with ⟨old, ne⟩
        apply stays frame (inv.marked block old frame inside)
        intro returned
        exact inv.disjoint.forall old member ne frame ⟨inside, returned⟩
      · intro frame used
        apply stays frame (inv.kept frame used)
        intro returned
        rw [inv.fromBoot (start, n) member frame returned] at used
        cases used

/-- `Allocate` ends and is first fit; and whatever calls of `Allocate` and `Free` follow,
the blocks in use are apart from one another and from what was in use before. -/
theorem allocate_firstFit (m : LineManager) {n : Nat} (positive : 0 < n) :
    (∃ result, m.bits.Ends n m.rangeBegin result) ∧ m.FirstFit n (m.allocate n) ∧
      ∀ s, Reachable Blocks.Step ⟨m, []⟩ s → s.Apart m := by
  rcases LineManager.search_spec positive with ⟨ends, firstFit⟩
  refine ⟨⟨_, ends⟩, firstFit, fun s reachable => ?_⟩
  have start : Blocks.Inv m ⟨m, []⟩ := by
    refine ⟨⟨List.Pairwise.nil, ?_⟩, ?_, ?_, fun _ used => used⟩
    · exact fun block member => absurd member List.not_mem_nil
    · exact fun block member => absurd member List.not_mem_nil
    · exact fun block member => absurd member List.not_mem_nil
  exact (reachable.invariant start fun _ _ _ inv step => inv.step step).toApart

/-- Frames 1 to 9, of which 2 and 5 are in use. -/
def holes : LineManager where
  allocMap i := if i = 0 then 0b100100 else 0
  rangeBegin := 1
  rangeEnd := 10

theorem allocate_holes :
    (∃ result, holes.bits.Ends 3 1 result) ∧ holes.FirstFit 3 (holes.allocate 3) ∧
      ∀ s, Reachable Blocks.Step ⟨holes, []⟩ s → s.Apart holes :=
  allocate_firstFit holes (by decide)

end Mikanos.Memory
