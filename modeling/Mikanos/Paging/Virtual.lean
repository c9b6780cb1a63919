import Mikanos.Memory.Bytes
import Mikanos.Paging.Tables

/-!
# Stores at virtual addresses

What the kernel copies to an application's address goes through the current page
maps, one byte at a time.  CR0.WP is cleared, so the kernel's own stores ignore
the writable bit; a store to an address without a translation faults.
-/

namespace Mikanos.Paging

open Mikanos.Memory

/-- The bits above the parts repeat the highest bit of the parts. -/
def LinearAddress4Level.Canonical (a : LinearAddress4Level) : Prop :=
  a.high.val = if 256 ≤ a.pml4.val then 65535 else 0

instance (a : LinearAddress4Level) : Decidable a.Canonical :=
  inferInstanceAs (Decidable (_ = _))

/-- Byte `k` of a word. -/
def getByte (word : BitVec 64) (k : Nat) : UInt8 :=
  ⟨word.extractLsb' (8 * k) 8⟩

/-- Replace byte `k` of a word. -/
def setByte (word : BitVec 64) (k : Nat) (b : UInt8) : BitVec 64 :=
  (word &&& ~~~((0xff#64) <<< (8 * k))) ||| (b.toBitVec.setWidth 64) <<< (8 * k)

namespace Machine

variable (s : Machine)

/-- The byte of physical memory at an offset of a frame. -/
def byte (frame : Nat) (offset : Fin 4096) : UInt8 :=
  getByte (s.mem frame ⟨offset / 8, by omega⟩) (offset % 8)

/-- Store a byte at an offset of a frame. -/
def putByte (frame : Nat) (offset : Fin 4096) (b : UInt8) : Machine :=
  s.setEntry frame ⟨offset / 8, by omega⟩
    (setByte (s.mem frame ⟨offset / 8, by omega⟩) (offset % 8) b)

/-- The kernel stores a byte at a virtual address; `none` when that faults. -/
def storeByte (addr : BitVec 64) (b : UInt8) : Option Machine :=
  let a := LinearAddress4Level.ofValue addr
  if a.Canonical then
    (s.translate a).map fun t => s.putByte t.frame a.offset b
  else
    none

/-- `memcpy` to a virtual address; `none` when a store faults. -/
def memcpy (dst : BitVec 64) (src : Mem) : Nat → Option Machine
  | 0 => some s
  | n + 1 => (memcpy dst src n).bind fun s => s.storeByte (dst + BitVec.ofNat 64 n) (src n)

/-- `memset` at a virtual address. -/
def memset (dst : BitVec 64) (value : UInt8) (n : Nat) : Option Machine :=
  s.memcpy dst (fun _ => value) n

variable {s}

@[simp] theorem frames_putByte (frame : Nat) (offset : Fin 4096) (b : UInt8) :
    (s.putByte frame offset b).frames = s.frames := rfl

@[simp] theorem cr3_putByte (frame : Nat) (offset : Fin 4096) (b : UInt8) :
    (s.putByte frame offset b).cr3 = s.cr3 := rfl

/-- A store allocates nothing and leaves CR3 alone. -/
theorem storeByte_keeps {s' : Machine} {addr : BitVec 64} {b : UInt8}
    (stored : s.storeByte addr b = some s') : s'.frames = s.frames ∧ s'.cr3 = s.cr3 := by
  rw [storeByte] at stored
  split at stored
  · rcases Option.map_eq_some_iff.mp stored with ⟨t, -, rfl⟩
    exact ⟨rfl, rfl⟩
  · cases stored

theorem memcpy_keeps {s' : Machine} {dst : BitVec 64} {src : Mem} {n : Nat}
    (copied : s.memcpy dst src n = some s') : s'.frames = s.frames ∧ s'.cr3 = s.cr3 := by
  induction n generalizing s' with
  | zero =>
      cases copied
      exact ⟨rfl, rfl⟩
  | succ n ih =>
      rcases Option.bind_eq_some_iff.mp copied with ⟨s₁, first, last⟩
      rcases ih first with ⟨frames, cr3⟩
      rcases storeByte_keeps last with ⟨frames', cr3'⟩
      exact ⟨frames'.trans frames, cr3'.trans cr3⟩

end Machine
end Mikanos.Paging
