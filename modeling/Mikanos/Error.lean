import Mathlib.Tactic

/-!
# Error codes

The enumeration `Error::Code`.  A function of the source that returns an
`Error`, or a value together with one, returns a value of this type here;
`success` is the code that converts to `false`.
-/

namespace Mikanos

/-- `Error::Code`. -/
inductive Error
  | success
  | full
  | empty
  | noEnoughMemory
  | indexOutOfRange
  | hostControllerNotHalted
  | invalidSlotID
  | portNotConnected
  | invalidEndpointNumber
  | transferRingNotSet
  | alreadyAllocated
  | notImplemented
  | invalidDescriptor
  | bufferTooSmall
  | unknownDevice
  | noCorrespondingSetupStage
  | transferFailed
  | invalidPhase
  | unknownXHCISpeedID
  | noWaiter
  | noPCIMSI
  | unknownPixelFormat
  | noSuchTask
  | invalidFormat
  | frameTooSmall
  | invalidFile
  | isDirectory
  | noSuchEntry
  | freeTypeError
  deriving DecidableEq, Repr

end Mikanos
