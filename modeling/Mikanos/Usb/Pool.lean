import Mikanos.Transition.Run

/-!
# The memory pool of the USB driver

`AllocMem` moves a pointer through a pool and never takes memory back.  The pointer is
first aligned and then, where the block would cross a boundary, moved on to it; a
request that does not fit leaves the pointer where it would have put the block.
-/

namespace Mikanos.Usb

open Transition

/-- `kMemoryPoolSize`. -/
def kMemoryPoolSize : Nat := 4096 * 32

/-- `Ceil`, with the mask that it computes. -/
def ceil (value alignment : Nat) : Nat :=
  (value + alignment - 1) % 2 ^ 64 &&& (2 ^ 64 - 1 - (alignment - 1))

/-- The arguments of `AllocMem`. -/
structure AllocRequest where
  size : Nat
  alignment : Nat
  boundary : Nat

namespace AllocRequest

variable (request : AllocRequest)

/-- `alloc_ptr` after it has been aligned. -/
def aligned (allocPtr : Nat) : Nat :=
  if 0 < request.alignment then ceil allocPtr request.alignment else allocPtr

/-- `alloc_ptr` after it has been moved to the boundary if necessary. -/
def candidate (allocPtr : Nat) : Nat :=
  if 0 < request.boundary ∧ ceil (request.aligned allocPtr) request.boundary <
      (request.aligned allocPtr + request.size) % 2 ^ 64 then
    ceil (request.aligned allocPtr) request.boundary
  else request.aligned allocPtr

/-- Alignment and boundary are powers of two, or 0 for none. -/
def IsPowers : Prop :=
  (request.alignment = 0 ∨ ∃ k < 32, request.alignment = 2 ^ k) ∧
    (request.boundary = 0 ∨ ∃ k < 32, request.boundary = 2 ^ k)

/-- Alignment and boundary are powers of two, and the size does not wrap the address. -/
def WellFormed (allocPtr : Nat) : Prop :=
  request.IsPowers ∧ request.candidate allocPtr + request.size < 2 ^ 64

end AllocRequest

/-- `AllocMem`: the new `alloc_ptr`, and the block unless the pool is exhausted. -/
def allocMem (memoryPool allocPtr : Nat) (request : AllocRequest) : Nat × Option Nat :=
  let allocPtr := request.candidate allocPtr
  if memoryPool + kMemoryPoolSize < (allocPtr + request.size) % 2 ^ 64 then (allocPtr, none)
  else ((allocPtr + request.size) % 2 ^ 64, some allocPtr)

/-- A request fails when the block would end behind the pool. -/
theorem allocMem_eq_none {memoryPool allocPtr allocPtr' : Nat} {request : AllocRequest} :
    allocMem memoryPool allocPtr request = (allocPtr', none) ↔
      memoryPool + kMemoryPoolSize < (request.candidate allocPtr + request.size) % 2 ^ 64 ∧
        allocPtr' = request.candidate allocPtr := by
  rw [allocMem]
  split
  · rename_i behind
    rw [Prod.mk.injEq, eq_comm, and_iff_left rfl, and_iff_right behind]
  · rename_i fits
    constructor
    · rintro ⟨⟩
    · exact fun both => absurd both.1 fits

/-- Otherwise the block lies at the candidate, and the pointer behind it. -/
theorem allocMem_eq_some {memoryPool allocPtr allocPtr' p : Nat} {request : AllocRequest} :
    allocMem memoryPool allocPtr request = (allocPtr', some p) ↔
      (request.candidate allocPtr + request.size) % 2 ^ 64 ≤ memoryPool + kMemoryPoolSize ∧
        allocPtr' = (request.candidate allocPtr + request.size) % 2 ^ 64 ∧
        p = request.candidate allocPtr := by
  rw [allocMem]
  split
  · rename_i behind
    constructor
    · rintro ⟨⟩
    · exact fun all => absurd behind all.1.not_gt
  · rename_i fits
    rw [Prod.mk.injEq, Option.some.injEq, and_iff_right (Nat.le_of_not_lt fits), eq_comm,
      eq_comm (a := p)]

/-! ## Rounding up -/

/-- The mask of a power of two clears the low bits. -/
theorem and_mask {x k : Nat} (lt : x < 2 ^ 64) :
    x &&& (2 ^ 64 - 1 - (2 ^ k - 1)) = x / 2 ^ k * 2 ^ k := by
  rw [← Nat.shiftRight_eq_div_pow, ← Nat.shiftLeft_eq]
  apply Nat.eq_of_testBit_eq
  intro i
  rw [Nat.testBit_and, Nat.testBit_shiftLeft, Nat.testBit_shiftRight]
  by_cases wide : 64 ≤ k
  · -- nothing is left of the mask
    have ge : 2 ^ 64 ≤ 2 ^ k := Nat.pow_le_pow_right (by decide) wide
    rw [show 2 ^ 64 - 1 - (2 ^ k - 1) = 0 by omega, Nat.zero_testBit, Bool.and_false]
    by_cases high : k ≤ i
    · rw [Nat.add_sub_cancel' high, Nat.testBit_lt_two_pow (lt.trans_le
        (ge.trans (Nat.pow_le_pow_right (by decide) high))), Bool.and_false]
    · rw [decide_eq_false high, Bool.false_and]
  · have le : 2 ^ k ≤ 2 ^ 63 := Nat.pow_le_pow_right (by decide) (by omega)
    have mask : 2 ^ 64 - 1 - (2 ^ k - 1) = 2 ^ 64 - (2 ^ k - 1 + 1) := by omega
    rw [mask, Nat.testBit_two_pow_sub_succ (by omega), Nat.testBit_two_pow_sub_one]
    by_cases high : k ≤ i
    · rw [decide_eq_true high, decide_eq_false (Nat.not_lt.mpr high), Nat.add_sub_cancel' high]
      by_cases inWord : i < 64
      · simp [inWord]
      · rw [Nat.testBit_lt_two_pow (lt.trans_le (Nat.pow_le_pow_right (by decide) (by omega)))]
        simp
    · rw [decide_eq_true (show i < k by omega), decide_eq_false high]
      simp

/-- The least multiple that is not before a number. -/
structure IsCeil (value alignment result : Nat) : Prop where
  dvd : alignment ∣ result
  le : value ≤ result
  least : ∀ m, alignment ∣ m → value ≤ m → result ≤ m

theorem isCeil_ceil {value alignment k : Nat} (power : alignment = 2 ^ k)
    (room : value + alignment ≤ 2 ^ 64) : IsCeil value alignment (ceil value alignment) := by
  subst power
  have positive : 0 < 2 ^ k := Nat.two_pow_pos k
  have rounded : ceil value (2 ^ k) = (value + 2 ^ k - 1) / 2 ^ k * 2 ^ k := by
    rw [ceil, Nat.mod_eq_of_lt (by omega), and_mask (by omega)]
  rw [rounded]
  refine ⟨Nat.dvd_mul_left _ _, ?_, ?_⟩
  · have split := Nat.div_add_mod (value + 2 ^ k - 1) (2 ^ k)
    have small := Nat.mod_lt (value + 2 ^ k - 1) positive
    rw [Nat.mul_comm] at split
    omega
  · rintro m ⟨q, rfl⟩ after
    rw [Nat.mul_comm]
    apply Nat.mul_le_mul_left
    apply Nat.le_of_lt_succ
    rw [Nat.div_lt_iff_lt_mul positive, Nat.succ_mul, Nat.mul_comm]
    omega

theorem isCeil_self {value alignment : Nat} (dvd : alignment ∣ value) :
    IsCeil value alignment value :=
  ⟨dvd, le_rfl, fun _ _ after => after⟩

theorem IsCeil.unique {value alignment result result' : Nat} (one : IsCeil value alignment result)
    (other : IsCeil value alignment result') : result = result' :=
  Nat.le_antisymm (one.least _ other.dvd other.le) (other.least _ one.dvd one.le)

/-! ## One request -/

/-- The pool and what may lie behind it before the address space ends: rounding up does
not wrap.  The kernel is linked to the low end of the address space. -/
structure MemoryPool where
  base : Nat
  room : base + kMemoryPoolSize + 2 ^ 32 ≤ 2 ^ 64

namespace MemoryPool

variable (pool : MemoryPool)

/-- A multiple of every alignment behind the pool. -/
def top : Nat :=
  (pool.base + kMemoryPoolSize) / 2 ^ 31 * 2 ^ 31 + 2 ^ 31

theorem lt_top : pool.base + kMemoryPoolSize < pool.top := by
  rw [top]
  omega

theorem top_le : pool.top + 2 ^ 31 ≤ 2 ^ 64 := by
  have room := pool.room
  rw [top]
  omega

theorem dvd_top {k : Nat} (lt : k < 32) : 2 ^ k ∣ pool.top := by
  have half : 2 ^ k ∣ 2 ^ 31 := pow_dvd_pow 2 (by omega)
  exact Nat.dvd_add (half.mul_left _) half

end MemoryPool

/-- A pointer that is rounded up does not go past the multiple behind the pool. -/
theorem ceil_spec {pool : MemoryPool} {value alignment : Nat}
    (power : ∃ k < 32, alignment = 2 ^ k) (le : value ≤ pool.top) :
    IsCeil value alignment (ceil value alignment) ∧ ceil value alignment ≤ pool.top := by
  rcases power with ⟨k, lt, rfl⟩
  have small : 2 ^ k ≤ 2 ^ 31 := Nat.pow_le_pow_right (by decide) (by omega)
  have isCeil := @isCeil_ceil value (2 ^ k) k rfl (by have := pool.top_le; omega)
  exact ⟨isCeil, isCeil.least _ (pool.dvd_top lt) le⟩

/-- No multiple of the boundary lies inside the block. -/
def NoCrossing (p size boundary : Nat) : Prop :=
  ∀ m, boundary ∣ m → ¬ (p < m ∧ m < p + size)

/-- Where a request puts its block. -/
structure Placed (pool : MemoryPool) (allocPtr : Nat) (request : AllocRequest) : Prop where
  after : allocPtr ≤ request.candidate allocPtr
  before : request.candidate allocPtr ≤ pool.top
  aligned : request.alignment ∣ request.candidate allocPtr ∨ request.alignment = 0
  noCrossing : 0 < request.size → request.size ≤ request.boundary →
    NoCrossing (request.candidate allocPtr) request.size request.boundary

theorem aligned_spec {pool : MemoryPool} {allocPtr : Nat} {request : AllocRequest}
    (powers : request.IsPowers) (le : allocPtr ≤ pool.top) :
    allocPtr ≤ request.aligned allocPtr ∧ request.aligned allocPtr ≤ pool.top ∧
      (request.alignment ∣ request.aligned allocPtr ∨ request.alignment = 0) := by
  rw [AllocRequest.aligned]
  rcases powers.1 with zero | power
  · rw [if_neg (by omega)]
    exact ⟨le_rfl, le, .inr zero⟩
  · have positive : 0 < request.alignment := by
      rcases power with ⟨k, -, eq⟩
      rw [eq]
      exact Nat.two_pow_pos k
    rcases ceil_spec power le with ⟨isCeil, below⟩
    rw [if_pos positive]
    exact ⟨isCeil.le, below, .inl isCeil.dvd⟩

/-- Of two powers of two one divides the other, so that moving an aligned pointer to a
boundary keeps it aligned. -/
theorem dvd_ceil {alignment boundary value result : Nat} (power : ∃ k < 32, alignment = 2 ^ k)
    (power' : ∃ k < 32, boundary = 2 ^ k) (aligned : alignment ∣ value)
    (isCeil : IsCeil value boundary result) : alignment ∣ result := by
  rcases power with ⟨k, -, rfl⟩
  rcases power' with ⟨j, -, rfl⟩
  rcases Nat.le_total k j with fine | coarse
  · exact (pow_dvd_pow 2 fine).trans isCeil.dvd
  · rw [isCeil.unique (isCeil_self ((pow_dvd_pow 2 coarse).trans aligned))]
    exact aligned

theorem placed {pool : MemoryPool} {allocPtr : Nat} {request : AllocRequest}
    (wellFormed : request.WellFormed allocPtr) (le : allocPtr ≤ pool.top) :
    Placed pool allocPtr request := by
  rcases wellFormed with ⟨powers, noWrap⟩
  rcases aligned_spec powers le with ⟨after, before, aligned⟩
  rw [AllocRequest.candidate] at noWrap
  split at noWrap
  · -- the block is moved to the boundary
    rename_i moved
    have power' := powers.2.resolve_left (by omega)
    rcases ceil_spec power' before with ⟨isCeil, below⟩
    have here : request.candidate allocPtr = ceil (request.aligned allocPtr) request.boundary := by
      rw [AllocRequest.candidate, if_pos moved]
    constructor
    · rw [here]
      exact after.trans isCeil.le
    · rw [here]
      exact below
    · rw [here]
      rcases powers.1 with zero | power
      · exact .inr zero
      · rcases aligned with dvd | zero
        · exact .inl (dvd_ceil power power' dvd isCeil)
        · exact .inr zero
    · rw [here]
      rintro - fits m ⟨q, rfl⟩ ⟨lower, upper⟩
      rcases isCeil.dvd with ⟨q', eq⟩
      rw [eq] at lower upper
      have more : q' + 1 ≤ q := Nat.lt_of_mul_lt_mul_left lower
      have next := Nat.mul_le_mul_left request.boundary more
      rw [Nat.mul_succ] at next
      omega
  · rename_i stays
    have here : request.candidate allocPtr = request.aligned allocPtr := by
      rw [AllocRequest.candidate, if_neg stays]
    constructor
    · rw [here]
      exact after
    · rw [here]
      exact before
    · rw [here]
      exact aligned
    · rw [here]
      rintro positive fits m dvd ⟨lower, upper⟩
      have power' := powers.2.resolve_left (by omega)
      have next := (ceil_spec power' before).1.least m dvd lower.le
      rw [Nat.mod_eq_of_lt noWrap] at stays
      exact stays ⟨by omega, by omega⟩

/-! ## Sequences of requests -/

/-- `alloc_ptr`, and the blocks that have been returned, by address and size. -/
structure PoolState where
  allocPtr : Nat
  blocks : List (Nat × Nat)
  deriving DecidableEq

/-- No block has been returned. -/
def PoolState.initial (pool : MemoryPool) : PoolState :=
  ⟨pool.base, []⟩

/-- A call of `AllocMem`. -/
def PoolState.allocMem (pool : MemoryPool) (s : PoolState) (request : AllocRequest) : Option PoolState :=
  match Usb.allocMem pool.base s.allocPtr request with
  | (allocPtr, none) => some { s with allocPtr }
  | (allocPtr, some p) => some ⟨allocPtr, (p, request.size) :: s.blocks⟩

/-- The definition, as an equation of functions: an equation of their values makes the
kernel evaluate the call that is matched on. -/
theorem PoolState.allocMem_def : PoolState.allocMem = fun pool s request =>
    match Usb.allocMem pool.base s.allocPtr request with
    | (allocPtr, none) => some { s with allocPtr }
    | (allocPtr, some p) => some ⟨allocPtr, (p, request.size) :: s.blocks⟩ :=
  rfl

/-- What the comment in the header promises of a block, and that it lies in the pool
and in no other block. -/
structure Contract (pool : MemoryPool) (s : PoolState) (request : AllocRequest) (p : Nat) : Prop where
  aligned : request.alignment ∣ p ∨ request.alignment = 0
  inside : pool.base ≤ p ∧ p + request.size ≤ pool.base + kMemoryPoolSize
  disjoint : ∀ block ∈ s.blocks, block.1 + block.2 ≤ p ∨ p + request.size ≤ block.1
  noCrossing : 0 < request.size → request.size ≤ request.boundary →
    NoCrossing p request.size request.boundary

/-- The invariant: blocks lie before the pointer. -/
structure PoolState.Inv (pool : MemoryPool) (s : PoolState) : Prop where
  lower : pool.base ≤ s.allocPtr
  upper : s.allocPtr ≤ pool.top
  blocks : ∀ block ∈ s.blocks, block.1 + block.2 ≤ s.allocPtr

variable {pool : MemoryPool} {s s' : PoolState} {request : AllocRequest}

theorem PoolState.Inv.step (inv : s.Inv pool) (wellFormed : request.WellFormed s.allocPtr)
    (step : s.allocMem pool request = some s') : s'.Inv pool := by
  have spec := placed wellFormed inv.upper
  have noWrap := Nat.mod_eq_of_lt wellFormed.2
  have lower := inv.lower.trans spec.after
  rw [PoolState.allocMem_def] at step
  beta_reduce at step
  rcases called : Usb.allocMem pool.base s.allocPtr request with ⟨allocPtr, none | p⟩
  · rcases allocMem_eq_none.mp called with ⟨-, rfl⟩
    rw [called] at step
    cases step
    exact ⟨lower, spec.before, fun block member => (inv.blocks block member).trans spec.after⟩
  · rcases allocMem_eq_some.mp called with ⟨fits, rfl, rfl⟩
    rw [called, noWrap] at step
    rw [noWrap] at fits
    cases step
    refine ⟨lower.trans (Nat.le_add_right _ _), fits.trans pool.lt_top.le, ?_⟩
    intro block member
    rcases List.mem_cons.mp member with rfl | old
    · exact le_rfl
    · exact ((inv.blocks block old).trans spec.after).trans (Nat.le_add_right _ _)

theorem PoolState.inv_initial (pool : MemoryPool) : (PoolState.initial pool).Inv pool := by
  have := pool.lt_top
  refine ⟨le_rfl, ?_, fun block member => absurd member List.not_mem_nil⟩
  change pool.base ≤ pool.top
  omega

/-- After any sequence of well-formed requests, a block that is returned meets the
contract. -/
theorem contract_of_reachable
    (reachable : Reachable (guarded (ofFunction (PoolState.allocMem pool))
      fun s request => request.WellFormed s.allocPtr) (PoolState.initial pool) s)
    (wellFormed : request.WellFormed s.allocPtr) {p : Nat}
    (result : (allocMem pool.base s.allocPtr request).2 = some p) : Contract pool s request p := by
  have inv : s.Inv pool := reachable.invariant (PoolState.inv_initial pool)
    fun source request target inv step => inv.step step.1 step.2
  have spec := placed wellFormed inv.upper
  rcases allocMem_eq_some.mp (Prod.ext rfl result) with ⟨fits, -, rfl⟩
  rw [Nat.mod_eq_of_lt wellFormed.2] at fits
  refine ⟨spec.aligned, ⟨inv.lower.trans spec.after, fits⟩, ?_, spec.noCrossing⟩
  exact fun block member => .inl ((inv.blocks block member).trans spec.after)

/-- A pool at 1 MiB. -/
def lowPool : MemoryPool :=
  ⟨0x100000, by decide⟩

/-- The state after a block of odd size. -/
def afterOddBlock : PoolState :=
  ⟨0x100fff, [(0x100000, 4095)]⟩

theorem reachable_afterOddBlock :
    Reachable (guarded (ofFunction (PoolState.allocMem lowPool))
      fun s request => request.WellFormed s.allocPtr) (PoolState.initial lowPool) afterOddBlock := by
  have first : AllocRequest.WellFormed ⟨4095, 0, 0⟩ (PoolState.initial lowPool).allocPtr :=
    ⟨⟨.inl rfl, .inl rfl⟩, by decide⟩
  have step : PoolState.allocMem lowPool (PoolState.initial lowPool) ⟨4095, 0, 0⟩ =
      some afterOddBlock := by
    decide
  exact ⟨_, .single ⟨first, step⟩⟩

theorem contract_afterOddBlock : Contract lowPool afterOddBlock ⟨100, 64, 4096⟩ 0x101000 := by
  apply contract_of_reachable reachable_afterOddBlock
  · refine ⟨⟨.inr ⟨6, by decide, rfl⟩, .inr ⟨12, by decide, rfl⟩⟩, ?_⟩
    decide
  · decide

end Mikanos.Usb
