import Mathlib.Tactic

/-!
# Command and transfer rings

`Ring` is the producer's half of a ring of transfer request blocks.  A block is
four 32-bit words; its last word carries the cycle bit that hands the block over
to the host controller, and is written last.  The host controller runs
concurrently and may look at the ring between any two word stores, so a `Push`
is modelled both as one function and as the list of stores it makes.
-/

namespace Mikanos.Xhci

/-- A block has words. -/
instance neZero_words : NeZero 4 := ⟨by decide⟩

/-- A port number and a completion code are a `uint8_t`. -/
instance neZero_codes : NeZero 256 := ⟨by decide⟩

/-- `TRB`, seen as its array of words. -/
abbrev TRB := Fin 4 → BitVec 32

namespace TRB

/-- `bits.cycle_bit`. -/
def cycleBit (trb : TRB) : Bool :=
  (trb 3).getLsbD 0

/-- Bit 1 of the last word: `bits.toggle_cycle` of a `LinkTRB`. -/
def toggleCycle (trb : TRB) : Bool :=
  (trb 3).getLsbD 1

/-- `bits.trb_type`. -/
def trbType (trb : TRB) : BitVec 6 :=
  (trb 3).extractLsb' 10 6

/-- The last word with the cycle bit set to `cycle`, as `CopyToLast` writes
it. -/
def withCycle (word : BitVec 32) (cycle : Bool) : BitVec 32 :=
  (word &&& 0xfffffffe#32) ||| (BitVec.ofBool cycle).setWidth 32

/-- A block with its cycle bit replaced. -/
def stamp (trb : TRB) (cycle : Bool) : TRB :=
  Function.update trb 3 (withCycle (trb 3) cycle)

/-- The block without its cycle bit. -/
def payload (trb : TRB) : TRB :=
  trb.stamp false

/-- `LinkTRB::Type`. -/
def linkType : BitVec 6 := 6#6

/-- `LinkTRB{p}` with `bits.toggle_cycle = toggle`. -/
def link (p : Nat) (toggle : Bool) : TRB :=
  ![BitVec.ofNat 32 (p / 16 * 16), BitVec.ofNat 32 (p / 2 ^ 32), 0,
    0x1800#32 ||| (BitVec.ofBool toggle).setWidth 32 <<< 1]

/-- `LinkTRB::Pointer`. -/
def pointer (trb : TRB) : Nat :=
  ((trb 0).toNat + 2 ^ 32 * (trb 1).toNat) / 16 * 16

variable (trb : TRB) (word : BitVec 32) (cycle cycle' : Bool)

/-- The mask of `CopyToLast` keeps every bit but the first. -/
theorem getLsbD_mask (i : Nat) : (0xfffffffe#32).getLsbD i = (decide (i < 32) && decide (i ≠ 0)) := by
  by_cases inside : i < 32
  · have table : ∀ k : Fin 32, (0xfffffffe#32).getLsbD k = decide ((k : Nat) ≠ 0) := by decide
    simpa [inside] using table ⟨i, inside⟩
  · rw [BitVec.getLsbD_of_ge _ _ (by omega)]
    simp [inside]

theorem getLsbD_withCycle (i : Nat) :
    (withCycle word cycle).getLsbD i = if i = 0 then cycle else word.getLsbD i := by
  rw [withCycle, BitVec.getLsbD_or, BitVec.getLsbD_and, getLsbD_mask, BitVec.getLsbD_setWidth,
    BitVec.getLsbD_ofBool]
  by_cases first : i = 0
  · simp [first]
  · by_cases inside : i < 32
    · simp [first, inside]
    · rw [BitVec.getLsbD_of_ge word i (by omega)]
      simp [first]

@[simp]
theorem stamp_last : trb.stamp cycle 3 = withCycle (trb 3) cycle :=
  Function.update_self ..

theorem stamp_of_ne {i : Fin 4} (ne : i ≠ 3) : trb.stamp cycle i = trb i :=
  Function.update_of_ne ne ..

@[simp]
theorem cycleBit_stamp : (trb.stamp cycle).cycleBit = cycle := by
  rw [cycleBit, stamp_last, getLsbD_withCycle, if_pos rfl]

@[simp]
theorem toggleCycle_stamp : (trb.stamp cycle).toggleCycle = trb.toggleCycle := by
  rw [toggleCycle, stamp_last, getLsbD_withCycle, if_neg (by decide), toggleCycle]

@[simp]
theorem trbType_stamp : (trb.stamp cycle).trbType = trb.trbType := by
  apply BitVec.eq_of_getLsbD_eq
  intro i _
  rw [trbType, trbType, BitVec.getLsbD_extractLsb', BitVec.getLsbD_extractLsb', stamp_last,
    getLsbD_withCycle, if_neg (by omega)]

@[simp]
theorem pointer_stamp : (trb.stamp cycle).pointer = trb.pointer := by
  rw [pointer, stamp_of_ne _ _ (by decide), stamp_of_ne _ _ (by decide), pointer]

@[simp]
theorem stamp_stamp : (trb.stamp cycle).stamp cycle' = trb.stamp cycle' := by
  have same : withCycle (withCycle (trb 3) cycle) cycle' = withCycle (trb 3) cycle' := by
    apply BitVec.eq_of_getLsbD_eq
    intro i _
    rw [getLsbD_withCycle, getLsbD_withCycle, getLsbD_withCycle]
    split <;> rfl
  simp [stamp, same]

@[simp]
theorem payload_stamp : (trb.stamp cycle).payload = trb.payload :=
  stamp_stamp trb cycle false

theorem link_last (p : Nat) (toggle : Bool) :
    link p toggle 3 = 0x1800#32 ||| (BitVec.ofBool toggle).setWidth 32 <<< 1 :=
  rfl

theorem trbType_link (p : Nat) (toggle : Bool) : (link p toggle).trbType = linkType := by
  rw [trbType, link_last]
  cases toggle <;> decide

theorem toggleCycle_link (p : Nat) (toggle : Bool) : (link p toggle).toggleCycle = toggle := by
  rw [toggleCycle, link_last]
  cases toggle <;> decide

/-- A link block holds every address that is a multiple of 16. -/
theorem pointer_link {p : Nat} (toggle : Bool) (aligned : p % 16 = 0) (fits : p < 2 ^ 64) :
    (link p toggle).pointer = p := by
  have low : (link p toggle 0).toNat = p / 16 * 16 % 2 ^ 32 := BitVec.toNat_ofNat ..
  have high : (link p toggle 1).toNat = p / 2 ^ 32 % 2 ^ 32 := BitVec.toNat_ofNat ..
  rw [pointer, low, high]
  omega

end TRB

/-! ## The memory of a ring -/

/-- `Ceil`, for an alignment that is a power of two. -/
def ceil (value alignment : Nat) : Nat :=
  (value + alignment - 1) % 2 ^ 64 / alignment * alignment

/-- `AllocMem`: the new `alloc_ptr`, and the memory unless the pool is
exhausted. -/
def allocMem (memoryPool kMemoryPoolSize allocPtr size alignment boundary : Nat) :
    Nat × Option Nat :=
  let allocPtr := if 0 < alignment then ceil allocPtr alignment else allocPtr
  let nextBoundary := ceil allocPtr boundary
  let allocPtr := if 0 < boundary ∧ nextBoundary < (allocPtr + size) % 2 ^ 64 then nextBoundary
    else allocPtr
  if (memoryPool + kMemoryPoolSize) % 2 ^ 64 < (allocPtr + size) % 2 ^ 64 then
    (allocPtr, none)
  else
    ((allocPtr + size) % 2 ^ 64, some allocPtr)

/-- An array of `size` blocks, as `AllocArray<TRB>(size, 64, 64 * 1024)` returns
it. -/
structure Region where
  base : Nat
  size : Nat
  aligned : base % 64 = 0
  fits : base + 16 * size ≤ 2 ^ 64

/-- A successful `AllocMem` returns aligned memory, and no more of it than the
address space has. -/
theorem allocMem_some {memoryPool kMemoryPoolSize allocPtr size base : Nat}
    (inside : allocPtr + 2 ^ 17 + size < 2 ^ 64)
    (success : (allocMem memoryPool kMemoryPoolSize allocPtr size 64 (64 * 1024)).2 = some base) :
    base % 64 = 0 ∧ base + size ≤ 2 ^ 64 := by
  have aligned : ceil allocPtr 64 % 64 = 0 ∧ ceil allocPtr 64 < allocPtr + 64 := by
    rw [ceil]
    omega
  have bounded : ceil (ceil allocPtr 64) (64 * 1024) % 64 = 0 ∧
      ceil (ceil allocPtr 64) (64 * 1024) < allocPtr + 64 + 2 ^ 16 := by
    rw [ceil]
    omega
  rw [allocMem] at success
  rw [if_pos (show 0 < 64 by decide)] at success
  split at success
  · split at success
    · cases success
    · cases success
      omega
  · split at success
    · cases success
    · cases success
      omega

/-- What `AllocArray` returns is such an array. -/
def Region.ofAlloc {memoryPool kMemoryPoolSize allocPtr size base : Nat}
    (inside : allocPtr + 2 ^ 17 + 16 * size < 2 ^ 64)
    (success : (allocMem memoryPool kMemoryPoolSize allocPtr (16 * size) 64 (64 * 1024)).2 =
      some base) : Region where
  base := base
  size := size
  aligned := (allocMem_some inside success).1
  fits := (allocMem_some inside success).2

/-- The blocks of a ring, by slot. -/
abbrev Slots := Nat → TRB

/-- One word store into a ring. -/
structure Store where
  slot : Nat
  word : Fin 4
  value : BitVec 32

/-- A store takes effect. -/
def Store.apply (store : Store) (buf : Slots) : Slots :=
  Function.update buf store.slot (Function.update (buf store.slot) store.word store.value)

/-- Stores take effect in order. -/
def Slots.writeAll (buf : Slots) (stores : List Store) : Slots :=
  stores.foldl (fun buf store => store.apply buf) buf

/-- The stores of `CopyToLast` into a given slot, in program order. -/
def copyStores (slot : Nat) (data : TRB) (cycle : Bool) : List Store :=
  [⟨slot, 0, data 0⟩, ⟨slot, 1, data 1⟩, ⟨slot, 2, data 2⟩,
    ⟨slot, 3, TRB.withCycle (data 3) cycle⟩]

/-! ## `Ring` -/

/-- `Ring`, after `Initialize` has succeeded. -/
structure Ring where
  region : Region
  buf : Slots
  cycleBit : Bool
  writeIndex : Nat

namespace Ring

/-- `buf_size_`. -/
def bufSize (ring : Ring) : Nat :=
  ring.region.size

/-- `Initialize`, given the array it allocates. -/
def initializeRing (region : Region) : Ring :=
  { region, buf := fun _ _ => 0, cycleBit := true, writeIndex := 0 }

/-- `CopyToLast`. -/
def copyToLast (ring : Ring) (data : TRB) : Ring :=
  { ring with buf := ring.buf.writeAll (copyStores ring.writeIndex data ring.cycleBit) }

/-- `Push`; the result is the address of the block written. -/
def push (ring : Ring) (data : TRB) : Ring × Nat :=
  let trbPtr := ring.region.base + 16 * ring.writeIndex
  let ring := ring.copyToLast data
  let ring := { ring with writeIndex := ring.writeIndex + 1 }
  if ring.writeIndex = ring.bufSize - 1 then
    let ring := ring.copyToLast (TRB.link ring.region.base true)
    ({ ring with writeIndex := 0, cycleBit := !ring.cycleBit }, trbPtr)
  else
    (ring, trbPtr)

/-- The stores of `Push`, in program order. -/
def pushStores (ring : Ring) (data : TRB) : List Store :=
  copyStores ring.writeIndex data ring.cycleBit ++
    if ring.writeIndex + 1 = ring.bufSize - 1 then
      copyStores (ring.writeIndex + 1) (TRB.link ring.region.base true) ring.cycleBit
    else
      []

/-- A `Push` that fills the last slot before the link block. -/
theorem push_of_last {ring : Ring} (data : TRB) (last : ring.writeIndex + 1 = ring.bufSize - 1) :
    ring.push data = ({ ring with
        buf := ring.buf.writeAll (ring.pushStores data), writeIndex := 0, cycleBit := !ring.cycleBit },
      ring.region.base + 16 * ring.writeIndex) := by
  rw [pushStores, if_pos last, Slots.writeAll, List.foldl_append]
  exact if_pos last

/-- Every other `Push`. -/
theorem push_of_not_last {ring : Ring} (data : TRB)
    (inner : ring.writeIndex + 1 ≠ ring.bufSize - 1) :
    ring.push data = ({ ring with
        buf := ring.buf.writeAll (ring.pushStores data), writeIndex := ring.writeIndex + 1 },
      ring.region.base + 16 * ring.writeIndex) := by
  rw [pushStores, if_neg inner, List.append_nil]
  exact if_neg inner

/-- `Push` makes exactly its stores. -/
theorem buf_push (ring : Ring) (data : TRB) :
    (ring.push data).1.buf = ring.buf.writeAll (ring.pushStores data) := by
  by_cases last : ring.writeIndex + 1 = ring.bufSize - 1
  · rw [push_of_last data last]
  · rw [push_of_not_last data last]

end Ring

/-! ## The host controller -/

/-- What the host controller keeps about a ring: the slot of its dequeue pointer
and its cycle state. -/
structure Consumer where
  slot : Nat
  cycleState : Bool

namespace Consumer

/-- The host controller starts at the first slot with cycle state 1. -/
def initial : Consumer :=
  { slot := 0, cycleState := true }

/-- The host controller looks at the slot of its dequeue pointer.  The second
component is the block it consumes, if any. -/
def step (consumer : Consumer) (base : Nat) (buf : Slots) : Consumer × Option TRB :=
  let trb := buf consumer.slot
  if trb.cycleBit = consumer.cycleState then
    if trb.trbType = TRB.linkType then
      ({ slot := (trb.pointer - base) / 16,
         cycleState := consumer.cycleState ^^ trb.toggleCycle }, none)
    else
      ({ consumer with slot := consumer.slot + 1 }, some trb)
  else
    (consumer, none)

end Consumer

/-! ## Producer and consumer together -/

/-- A ring shared by the driver and the host controller.  `stores` are the
stores of a `Push` in progress that have not taken effect yet; `pushed` and
`consumed` record the blocks passed to `Push` and the blocks consumed. -/
structure Shared where
  ring : Ring
  stores : List Store
  consumer : Consumer
  pushed : List TRB
  consumed : List TRB

namespace Shared

/-- A ring right after `Initialize`. -/
def initial (region : Region) : Shared :=
  { ring := .initializeRing region, stores := [], consumer := .initial, pushed := [], consumed := [] }

/-- What can happen to a shared ring. -/
inductive Action
  /-- the driver calls `Push` -/
  | push (data : TRB)
  /-- the next store of the `Push` in progress takes effect -/
  | store
  /-- the host controller looks at the ring -/
  | consume

/-- One step.  `write_index_` and `cycle_bit_` are private to the driver, so they
take their new values at once. -/
def step (s : Shared) : Action → Option Shared
  | .push data =>
      match s.stores with
      | [] => some { s with
          ring := { (s.ring.push data).1 with buf := s.ring.buf }
          stores := s.ring.pushStores data
          pushed := s.pushed ++ [data] }
      | _ :: _ => none
  | .store =>
      match s.stores with
      | [] => none
      | store :: stores => some { s with
          ring := { s.ring with buf := store.apply s.ring.buf }, stores }
  | .consume =>
      let (consumer, trb) := s.consumer.step s.ring.region.base s.ring.buf
      some { s with consumer, consumed := s.consumed ++ trb.toList }

end Shared
end Mikanos.Xhci
