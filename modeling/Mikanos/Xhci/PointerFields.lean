import Mikanos.Memory.BitField
import Mikanos.Xhci.Ring
import Mathlib.Tactic

/-!
# Pointers in bit fields

Registers, blocks and contexts of the host controller keep an address without
its lowest bits in a bit field of a packed structure.  A layout is given here by
the widths of its fields, in the order of their declaration.  Every field but one
has room for the upper bits of a 64-bit address.
-/

namespace Mikanos.Xhci

open Mikanos.Memory

/-- A packed structure with a pointer in one of its fields. -/
structure PackedPointer where
  /-- the bits of the union -/
  size : Nat
  /-- the widths of the fields before the pointer -/
  preceding : List Nat
  width : Nat
  /-- by how many bits the accessors shift -/
  shift : Nat

namespace PackedPointer

/-- The field of the pointer. -/
def field (s : PackedPointer) : BitField where
  offset := s.preceding.sum
  width := s.width

/-- `Pointer`. -/
def pointer (s : PackedPointer) (content : BitVec s.size) : BitVec 64 :=
  s.field.readShifted content s.shift

/-- `SetPointer`. -/
def setPointer (s : PackedPointer) (content : BitVec s.size) (p : BitVec 64) : BitVec s.size :=
  s.field.writeShifted content p s.shift

end PackedPointer

/-! ## The layouts -/

/-- `CRCR_Bitmap`, with `command_ring_pointer`. -/
def crcr : PackedPointer where
  size := 64
  preceding := [1, 1, 1, 1, 2]
  width := 58
  shift := 6

/-- `DCBAAP_Bitmap`, with `device_context_base_address_array_pointer`. -/
def dcbaap : PackedPointer where
  size := 64
  preceding := [6]
  width := 26
  shift := 6

/-- `ERSTBA_Bitmap`, with `event_ring_segment_table_base_address`. -/
def erstba : PackedPointer where
  size := 64
  preceding := [6]
  width := 58
  shift := 6

/-- `ERDP_Bitmap`, with `event_ring_dequeue_pointer`. -/
def erdp : PackedPointer where
  size := 64
  preceding := [3, 1]
  width := 60
  shift := 4

/-- `LinkTRB`, with `ring_segment_pointer`. -/
def linkTRB : PackedPointer where
  size := 128
  preceding := [4]
  width := 60
  shift := 4

/-- `AddressDeviceCommandTRB`, with `input_context_pointer`. -/
def addressDeviceCommandTRB : PackedPointer where
  size := 128
  preceding := [4]
  width := 60
  shift := 4

/-- `ConfigureEndpointCommandTRB`, with `input_context_pointer`. -/
def configureEndpointCommandTRB : PackedPointer where
  size := 128
  preceding := [4]
  width := 60
  shift := 4

/-- `CommandCompletionEventTRB`, with `command_trb_pointer`. -/
def commandCompletionEventTRB : PackedPointer where
  size := 128
  preceding := [4]
  width := 60
  shift := 4

/-- `EndpointContext`, with `tr_dequeue_pointer`; the accessors are
`TransferRingBuffer` and `SetTransferRingBuffer`. -/
def endpointContext : PackedPointer where
  size := 256
  preceding := [3, 5, 2, 5, 1, 8, 8, 1, 2, 3, 1, 1, 8, 16, 1, 3]
  width := 60
  shift := 4

/-- The layouts with a pointer in a bit field. -/
inductive Layout
  | crcr
  | dcbaap
  | erstba
  | erdp
  | linkTRB
  | addressDeviceCommandTRB
  | configureEndpointCommandTRB
  | commandCompletionEventTRB
  | endpointContext
  deriving DecidableEq

namespace Layout

/-- The structure of a layout. -/
def packed : Layout → PackedPointer
  | crcr => Xhci.crcr
  | dcbaap => Xhci.dcbaap
  | erstba => Xhci.erstba
  | erdp => Xhci.erdp
  | linkTRB => Xhci.linkTRB
  | addressDeviceCommandTRB => Xhci.addressDeviceCommandTRB
  | configureEndpointCommandTRB => Xhci.configureEndpointCommandTRB
  | commandCompletionEventTRB => Xhci.commandCompletionEventTRB
  | endpointContext => Xhci.endpointContext

/-- The alignment of the addresses in a layout, in bytes. -/
def alignment : Layout → Nat
  | crcr | dcbaap | erstba => 64
  | _ => 16

/-- The layout gives back an address written to it, and keeps all other bits. -/
def GivesBack (l : Layout) (content : BitVec l.packed.size) (p : BitVec 64) : Prop :=
  l.packed.pointer (l.packed.setPointer content p) = p ∧
    ∀ i < l.packed.size, ¬l.packed.field.Covers i →
      (l.packed.setPointer content p).getLsbD i = content.getLsbD i

/-- The address is one of the lowest or the highest 2 GiB. -/
def InSignedWord (p : BitVec 64) : Prop :=
  p.toNat < 2 ^ 31 ∨ 2 ^ 64 - 2 ^ 31 ≤ p.toNat

variable (l : Layout)

theorem alignment_eq : l.alignment = 2 ^ l.packed.shift := by
  cases l <;> rfl

/-- The field of a pointer lies in its structure. -/
theorem field_fits : l.packed.field.offset + l.packed.field.width ≤ l.packed.size := by
  cases l <;> decide

/-- All fields but the one of `DCBAAP_Bitmap` hold the upper bits of an address. -/
theorem wide_of_ne (other : l ≠ dcbaap) : 64 ≤ l.packed.field.width + l.packed.shift := by
  cases l with
  | dcbaap => exact absurd rfl other
  | _ => decide

/-- A write keeps the bits beside the pointer. -/
theorem getLsbD_setPointer (content : BitVec l.packed.size) (p : BitVec 64) {i : Nat}
    (inside : i < l.packed.size) (outside : ¬l.packed.field.Covers i) :
    (l.packed.setPointer content p).getLsbD i = content.getLsbD i := by
  rw [PackedPointer.setPointer, BitField.writeShifted, BitField.getLsbD_write _ _ _ inside,
    if_neg outside]

theorem pointer_setPointer (content : BitVec l.packed.size) {p : BitVec 64}
    (aligned : l.alignment ∣ p.toNat) (other : l ≠ dcbaap) :
    l.packed.pointer (l.packed.setPointer content p) = p := by
  have small : l.packed.shift < 32 := by cases l <;> decide
  rw [alignment_eq] at aligned
  exact BitField.readShifted_writeShifted _ content p _ (l.wide_of_ne other) small l.field_fits
    fun i below => getLsbD_of_dvd aligned below

/-- `DCBAAP_Bitmap` gives back the lower half of an address, with its sign. -/
theorem pointer_setPointer_dcbaap (content : BitVec dcbaap.packed.size) {p : BitVec 64}
    (aligned : dcbaap.alignment ∣ p.toNat) :
    dcbaap.packed.pointer (dcbaap.packed.setPointer content p) =
      (p.setWidth 32).signExtend 64 := by
  rw [PackedPointer.pointer, PackedPointer.setPointer,
    BitField.readShifted_writeShifted_of_lt _ content p _ (by decide) dcbaap.field_fits]
  congr 1
  apply BitVec.eq_of_getLsbD_eq
  intro i inside
  change ((((p >>> 6).setWidth 26).setWidth 32) <<< 6).getLsbD i = _
  rw [BitVec.getLsbD_shiftLeft, BitVec.getLsbD_setWidth, BitVec.getLsbD_setWidth,
    BitVec.getLsbD_setWidth, BitVec.getLsbD_ushiftRight]
  by_cases below : i < 6
  · rw [getLsbD_of_dvd (n := 6) aligned below]
    simp [below]
  · rw [Nat.add_sub_cancel' (by omega)]
    simp [inside, below, show i - 6 < 32 by omega, show i - 6 < 26 by omega]

theorem signExtend_eq_iff (p : BitVec 64) :
    (p.setWidth 32).signExtend 64 = p ↔ InSignedWord p := by
  have low : (p.setWidth 32).toNat = p.toNat % 2 ^ 32 := BitVec.toNat_setWidth ..
  have bound := p.isLt
  rw [InSignedWord, ← BitVec.toNat_inj, BitVec.toNat_signExtend,
    BitVec.toNat_setWidth_of_le (by decide), BitVec.msb_eq_decide, low]
  by_cases negative : 2 ^ 31 ≤ p.toNat % 2 ^ 32
  · rw [if_pos (by simpa using negative)]
    omega
  · rw [if_neg (by simpa using negative)]
    omega

/-- Every layout gives back the aligned addresses, but `DCBAAP_Bitmap`, whose
field is too narrow, only those whose upper 33 bits are equal. -/
theorem givesBack_iff (content : BitVec l.packed.size) (p : BitVec 64)
    (aligned : l.alignment ∣ p.toNat) :
    l.GivesBack content p ↔ (l = dcbaap → InSignedWord p) := by
  have others : ∀ i < l.packed.size, ¬l.packed.field.Covers i →
      (l.packed.setPointer content p).getLsbD i = content.getLsbD i :=
    fun i => l.getLsbD_setPointer content p
  rw [GivesBack, and_iff_left others]
  by_cases narrow : l = dcbaap
  · subst narrow
    rw [pointer_setPointer_dcbaap content aligned, signExtend_eq_iff]
    exact ⟨fun signed _ => signed, fun signed => signed rfl⟩
  · exact iff_of_true (l.pointer_setPointer content aligned narrow) fun same => absurd same narrow

theorem givesBack_iff_heap :
    dcbaap.alignment ∣ (0x30000000#64).toNat ∧
      (dcbaap.GivesBack 0 0x30000000#64 ↔ (dcbaap = dcbaap → InSignedWord 0x30000000#64)) :=
  ⟨by decide, givesBack_iff dcbaap 0 _ (by decide)⟩

/-- An address behind the lowest 4 GiB is cut off. -/
theorem not_givesBack_dcbaap :
    dcbaap.alignment ∣ (0x100000000#64).toNat ∧ ¬dcbaap.GivesBack 0 0x100000000#64 := by
  refine ⟨by decide, ?_⟩
  rintro ⟨same, -⟩
  revert same
  decide

end Layout

/-! ## Blocks as words -/

/-- The words of a block, as one word. -/
def TRB.content (trb : TRB) : BitVec 128 :=
  trb 3 ++ trb 2 ++ trb 1 ++ trb 0

theorem toNat_append {m n : Nat} (high : BitVec m) (low : BitVec n) :
    (high ++ low).toNat = 2 ^ n * high.toNat + low.toNat := by
  rw [BitVec.toNat_append, ← Nat.shiftLeft_add_eq_or_of_lt low.isLt, Nat.shiftLeft_eq, Nat.mul_comm]

/-- The pointer of a link block is the one of its words. -/
theorem pointer_linkTRB (trb : TRB) : (linkTRB.pointer trb.content).toNat = trb.pointer := by
  have field : linkTRB.pointer trb.content = (trb.content.extractLsb' 4 60).setWidth 64 <<< 4 := rfl
  have content : trb.content.toNat =
      2 ^ 32 * (2 ^ 32 * (2 ^ 32 * (trb 3).toNat + (trb 2).toNat) + (trb 1).toNat) +
        (trb 0).toNat := by
    rw [TRB.content, toNat_append, toNat_append, toNat_append]
  have low := (trb 0).isLt
  have high := (trb 1).isLt
  rw [field, TRB.pointer, BitVec.toNat_shiftLeft, BitVec.toNat_setWidth, BitVec.extractLsb'_toNat,
    content, Nat.shiftRight_eq_div_pow, Nat.shiftLeft_eq]
  omega

end Mikanos.Xhci
