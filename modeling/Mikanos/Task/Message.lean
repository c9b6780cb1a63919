import Mikanos.Memory.Bytes

/-!
# Messages

The tagged union that tasks exchange through their message queues.  The
constructors follow `Message::Type`; each carries the members of the union that
its type uses.
-/

namespace Mikanos

open Mikanos.Memory

/-- The operation that a layer message asks the main task for. -/
inductive LayerOperation
  | move
  | moveRelative
  | draw
  | drawArea
  deriving DecidableEq, Repr

/-- A message in a task's queue. -/
inductive Message
  | interruptXHCI
  | timerTimeout (timeout : Nat) (value : Int)
  | keyPush (modifier keycode ascii : UInt8) (press : Int)
  | layer (srcTask : Nat) (op : LayerOperation) (layerId : Nat) (x y w h : Int)
  | layerFinish
  | mouseMove (x y dx dy : Int) (buttons : UInt8)
  | mouseButton (x y : Int) (press button : Int)
  | windowActive (activate : Int)
  | pipe (data : Mem) (len : Nat)
  | windowClose (layerId : Nat)

namespace Message

/-- The number of bytes of `arg.pipe.data`. -/
def pipeCapacity : Nat := 16

/-- The test `msg->type == Message::kPipe`. -/
def isPipe : Message → Bool
  | pipe _ _ => true
  | _ => false

end Message

end Mikanos
