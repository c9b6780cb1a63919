import Mikanos.Usb.Pool

/-!
# Requests that fail

`AllocMem` moves its pointer for the alignment and for the boundary before it looks whether
the block still fits.  When it does not, the pointer stays where it has been moved, and what
it has been moved over is lost.
-/

namespace Mikanos.Usb

/-! ## Rounding up any number -/

/-- A mask clears no more than the bits that it leaves out. -/
theorem le_and_mask {x low : Nat} (lt : x < 2 ^ 64) (small : low < 2 ^ 64) :
    x ≤ (x &&& (2 ^ 64 - 1 - low)) + low := by
  have parts : (BitVec.ofNat 64 x &&& ~~~BitVec.ofNat 64 low) + (BitVec.ofNat 64 x &&& BitVec.ofNat 64 low) =
      BitVec.ofNat 64 x := by
    rw [BitVec.add_eq_or_of_and_eq_zero]
    · ext i inRange
      cases h : (BitVec.ofNat 64 low)[i] <;> simp_all
    · ext i inRange
      cases h : (BitVec.ofNat 64 low)[i] <;> simp_all
  have sum := congrArg BitVec.toNat parts
  rw [BitVec.toNat_add, BitVec.toNat_and, BitVec.toNat_and, BitVec.toNat_not, BitVec.toNat_ofNat,
    BitVec.toNat_ofNat, Nat.mod_eq_of_lt lt, Nat.mod_eq_of_lt small] at sum
  have most := Nat.mod_le ((x &&& (2 ^ 64 - 1 - low)) + (x &&& low)) (2 ^ 64)
  have cleared : x &&& low ≤ low := Nat.and_le_right
  omega

/-- `Ceil` goes to a number that is at most one alignment above, or wraps around. -/
theorem ceil_near {value alignment : Nat} (lt : value < 2 ^ 64) (positive : 0 < alignment)
    (small : alignment < 2 ^ 32) :
    ceil value alignment < 2 ^ 64 ∧
      (value ≤ ceil value alignment ∧ ceil value alignment < value + alignment ∨
        2 ^ 64 ≤ value + alignment - 1 ∧ ceil value alignment < alignment) := by
  have below : ceil value alignment ≤ (value + alignment - 1) % 2 ^ 64 := Nat.and_le_left
  have above := @le_and_mask ((value + alignment - 1) % 2 ^ 64) (alignment - 1)
    (Nat.mod_lt _ (by decide)) (by omega)
  change _ ≤ ceil value alignment + (alignment - 1) at above
  omega

/-! ## What a request costs -/

/-- `alloc_ptr` is aligned as requested, and the block would not cross the next boundary. -/
def AllocRequest.InPlace (request : AllocRequest) (allocPtr : Nat) : Prop :=
  (request.alignment = 0 ∨ ceil allocPtr request.alignment = allocPtr) ∧
    (request.boundary = 0 ∨ ceil allocPtr request.boundary = allocPtr ∨
      (allocPtr + request.size) % 2 ^ 64 ≤ ceil allocPtr request.boundary)

/-- The pool is as before, and every request that would have succeeded still does, with the same
block. -/
structure CostsNothing (memoryPool allocPtr allocPtr' : Nat) : Prop where
  unchanged : allocPtr' = allocPtr
  still : ∀ request p, (allocMem memoryPool allocPtr request).2 = some p →
    (allocMem memoryPool allocPtr' request).2 = some p

theorem aligned_near {request : AllocRequest} {allocPtr : Nat} (lt : allocPtr < 2 ^ 64)
    (small : request.alignment < 2 ^ 32) :
    request.aligned allocPtr < 2 ^ 64 ∧
      (allocPtr ≤ request.aligned allocPtr ∧ request.aligned allocPtr < allocPtr + 2 ^ 32 ∨
        2 ^ 64 ≤ allocPtr + 2 ^ 32 ∧ request.aligned allocPtr < 2 ^ 32) := by
  rw [AllocRequest.aligned]
  split
  · rename_i positive
    have near := ceil_near lt positive small
    omega
  · exact ⟨lt, .inl ⟨le_rfl, by omega⟩⟩

/-- The pointer does not come back to where it was. -/
theorem candidate_eq_iff {request : AllocRequest} {allocPtr : Nat} (lt : allocPtr < 2 ^ 64)
    (small : request.alignment < 2 ^ 32) (small' : request.boundary < 2 ^ 32) :
    request.candidate allocPtr = allocPtr ↔ request.InPlace allocPtr := by
  have near := aligned_near lt small
  have here : request.aligned allocPtr = allocPtr ↔
      request.alignment = 0 ∨ ceil allocPtr request.alignment = allocPtr := by
    rw [AllocRequest.aligned]
    split
    · rename_i positive
      rw [or_iff_right (by omega)]
    · rename_i none
      exact iff_of_true rfl (.inl (by omega))
  rw [AllocRequest.InPlace, ← here]
  by_cases stays : request.aligned allocPtr = allocPtr
  · rw [and_iff_right stays, AllocRequest.candidate, stays]
    split
    · rename_i moved
      constructor
      · exact fun same => .inr (.inl same)
      · rintro (none | same | fits)
        · omega
        · exact same
        · omega
    · rename_i fits
      refine iff_of_true rfl ?_
      by_cases none : request.boundary = 0
      · exact .inl none
      · exact .inr (.inr (by omega))
  · -- one rounding up cannot undo the other: only both together could go around
    refine iff_of_false ?_ (fun inPlace => stays inPlace.1)
    rw [AllocRequest.candidate]
    split
    · rename_i moved
      have near' := ceil_near near.1 moved.1 small'
      omega
    · exact stays

/-- A request that fails costs nothing exactly when it finds the pointer where it needs it. -/
theorem costsNothing_iff {memoryPool allocPtr : Nat} {request : AllocRequest}
    (lt : allocPtr < 2 ^ 64) (small : request.alignment < 2 ^ 32) (small' : request.boundary < 2 ^ 32)
    (fails : (allocMem memoryPool allocPtr request).2 = none) :
    CostsNothing memoryPool allocPtr (allocMem memoryPool allocPtr request).1 ↔
      request.InPlace allocPtr := by
  have pointer : (allocMem memoryPool allocPtr request).1 = request.candidate allocPtr := by
    rw [allocMem] at fails ⊢
    split
    · rfl
    · rename_i fits
      rw [if_neg fits] at fails
      cases fails
  rw [← candidate_eq_iff lt small small', pointer]
  constructor
  · exact fun free => free.unchanged
  · intro same
    rw [same]
    exact ⟨rfl, fun _ _ success => success⟩

theorem costsNothing_afterOddBlock : CostsNothing 0x100000 0x100fff
    (allocMem 0x100000 0x100fff ⟨0x20000, 0, 0⟩).1 := by
  have fails : (allocMem 0x100000 0x100fff ⟨0x20000, 0, 0⟩).2 = none := by decide
  exact (costsNothing_iff (by decide) (by decide) (by decide) fails).mpr ⟨.inl rfl, .inl rfl⟩

/-- A request for a page, aligned to 64 bytes, loses the last byte of the pool. -/
theorem not_costsNothing_lastByte :
    (allocMem 0x100000 0x11ffff ⟨4096, 64, 0⟩).2 = none ∧
      ¬ CostsNothing 0x100000 0x11ffff (allocMem 0x100000 0x11ffff ⟨4096, 64, 0⟩).1 := by
  refine ⟨by decide, fun free => ?_⟩
  have before : (allocMem 0x100000 0x11ffff ⟨1, 0, 0⟩).2 = some 0x11ffff := by decide
  have after : (allocMem 0x100000 (allocMem 0x100000 0x11ffff ⟨4096, 64, 0⟩).1 ⟨1, 0, 0⟩).2 = none := by
    decide
  rw [free.still _ _ before] at after
  cases after

end Mikanos.Usb
