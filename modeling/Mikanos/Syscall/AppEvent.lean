import Mikanos.Memory.Spans
import Mikanos.Task.Message

/-!
# Application events

`ReadEvent` turns the messages of the calling task into events for the application.
Messages that mean nothing to an application are taken from the queue all the same.
-/

namespace Mikanos

open Memory

/-- `AppEvent`; the constructors follow `AppEvent::Type`. -/
inductive AppEvent
  | quit
  | mouseMove (x y dx dy : Int) (buttons : UInt8)
  | mouseButton (x y press button : Int)
  | timerTimeout (timeout : Nat) (value : Int)
  | keyPush (modifier keycode ascii : UInt8) (press : Int)
  deriving DecidableEq

/-- `kLControlBitMask | kRControlBitMask`. -/
def controlBitMask : UInt8 := 0b00010001

namespace AppEvent

/-- The event that `ReadEvent` writes for a message, if any. -/
def ofMessage : Message → Option AppEvent
  | .keyPush modifier keycode ascii press =>
      -- Ctrl+Q
      if keycode = 20 ∧ modifier &&& controlBitMask ≠ 0 then some .quit
      else some (.keyPush modifier keycode ascii press)
  | .mouseMove x y dx dy buttons => some (.mouseMove x y dx dy buttons)
  | .mouseButton x y press button => some (.mouseButton x y press button)
  | .timerTimeout timeout value =>
      if value < 0 then some (.timerTimeout timeout (-value)) else none
  | .windowClose _ => some .quit
  | _ => none

/-- `sizeof(AppEvent)`. -/
def size : Nat := 32

/-- The fields that are assigned for an event, by their offsets in `AppEvent`. -/
def fields : AppEvent → List Span
  | quit => [⟨0, 4⟩]
  | mouseMove _ _ _ _ _ => [⟨0, 4⟩, ⟨8, 4⟩, ⟨12, 4⟩, ⟨16, 4⟩, ⟨20, 4⟩, ⟨24, 1⟩]
  | mouseButton _ _ _ _ => [⟨0, 4⟩, ⟨8, 4⟩, ⟨12, 4⟩, ⟨16, 4⟩, ⟨20, 4⟩]
  | timerTimeout _ _ => [⟨0, 4⟩, ⟨8, 8⟩, ⟨16, 4⟩]
  | keyPush _ _ _ _ => [⟨0, 4⟩, ⟨8, 1⟩, ⟨9, 1⟩, ⟨10, 1⟩, ⟨12, 4⟩]

/-- The end of the last field that is assigned for an event. -/
def extent : AppEvent → Nat
  | quit => 4
  | mouseMove _ _ _ _ _ => 25
  | mouseButton _ _ _ _ => 24
  | timerTimeout _ _ => 20
  | keyPush _ _ _ _ => 16

end AppEvent

/-- The loop of `ReadEvent`: the events that it has written when it has received the
messages, or as many of them as it receives. -/
def readEvents (len : Nat) : List AppEvent → List Message → List AppEvent
  | events, [] => events
  | events, message :: rest =>
      if events.length < len then readEvents len (events ++ (AppEvent.ofMessage message).toList) rest
      else events

/-- What `ReadEvent` writes to its array. -/
def eventAccesses (events : List AppEvent) : List Span :=
  events.zipIdx.flatMap fun event =>
    event.1.fields.map fun field => ⟨AppEvent.size * event.2 + field.start, field.count⟩

end Mikanos
