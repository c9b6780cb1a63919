import Mikanos.Task.Message

/-!
# Pipe descriptors

`PipeDescriptor` cuts a byte stream into messages of at most sixteen bytes,
sends them to the task that owns the read end, and reassembles the stream there
through a sixteen-byte carry buffer.  A message of length zero ends the stream.

The loops of `Read` and `Write` are cut at the points where interrupts are
enabled: one round of `Write` sends one message, and one round of `Read`
consumes one message.  Between two rounds anything else may happen.
-/

namespace Mikanos.Terminal

open Mikanos.Memory

/-- The read end's private state. -/
structure PipeDescriptor where
  data : Mem
  len : Nat
  closed : Bool

namespace PipeDescriptor

/-- A freshly constructed descriptor; `data_` is not initialised. -/
def new (data : Mem) : PipeDescriptor :=
  { data, len := 0, closed := false }

/-- The bytes received but not yet returned by a `Read`. -/
def carry (fd : PipeDescriptor) : List UInt8 :=
  fd.data.bytes 0 fd.len

/-- `Read` up to its receive loop.  The result is the bytes put into the
caller's buffer, or `none` when the loop is entered. -/
def readCarry (fd : PipeDescriptor) (len : Nat) : Option (PipeDescriptor × List UInt8) :=
  if 0 < fd.len then
    let copyBytes := min fd.len len
    let rest := fd.len - copyBytes
    -- `memmove(data_, &data_[copy_bytes], len_)`
    some ({ fd with len := rest, data := fd.data.copyTo 0 rest fun i => fd.data (copyBytes + i) },
      fd.data.bytes 0 copyBytes)
  else if fd.closed then
    some (fd, [])
  else
    none

/-- One round of the receive loop on a received message; `none` continues the
loop. -/
def receive (fd : PipeDescriptor) (len : Nat) : Message → Option (PipeDescriptor × List UInt8)
  | .pipe data msgLen =>
      if msgLen = 0 then
        some ({ fd with closed := true }, [])
      else
        let copyBytes := min msgLen len
        let rest := msgLen - copyBytes
        some ({ fd with len := rest, data := fd.data.copyTo 0 rest fun i => data (copyBytes + i) },
          data.bytes 0 copyBytes)
  | _ => none

end PipeDescriptor

/-- A call of `PipeDescriptor::Write` in progress. -/
structure PipeWrite where
  buf : Mem
  len : Nat
  sentBytes : Nat
  data : Mem

namespace PipeWrite

/-- The state in which `Write(buf, len)` enters its loop. -/
def start (buf : Mem) (len : Nat) : PipeWrite :=
  { buf, len, sentBytes := 0, data := fun _ => 0 }

/-- The length of the next message. -/
def chunk (write : PipeWrite) : Nat :=
  min (write.len - write.sentBytes) Message.pipeCapacity

/-- One round of the loop: the message it sends and the state after it. -/
def sendChunk (write : PipeWrite) : PipeWrite × Message :=
  let data := write.data.copyTo 0 write.chunk fun i => write.buf (write.sentBytes + i)
  ({ write with data, sentBytes := write.sentBytes + write.chunk }, .pipe data write.chunk)

/-- The bytes of the buffer that have not been sent yet. -/
def pending (write : PipeWrite) : List UInt8 :=
  write.buf.bytes write.sentBytes (write.len - write.sentBytes)

end PipeWrite

/-- The message of `PipeDescriptor::FinishWrite`. -/
def finishWriteMessage : Message :=
  .pipe (fun _ => 0) 0

/-- One pipe with both its ends: the queue of the task that owns the read end,
the calls in progress, and a record of what was written and read. -/
structure Channel where
  msgs : List Message
  fd : PipeDescriptor
  write : Option PipeWrite
  finished : Bool
  read : Option Nat
  /-- the concatenation of the buffers passed to `Write` -/
  written : List UInt8
  /-- the bytes returned by each completed `Read` -/
  results : List (List UInt8)

namespace Channel

/-- A pipe on which nothing has happened. -/
def initial (data : Mem) : Channel :=
  { msgs := [], fd := .new data, write := none, finished := false, read := none,
    written := [], results := [] }

/-- What can happen to a pipe. -/
inductive Action
  /-- the writer calls `Write(buf, len)` -/
  | write (buf : Mem) (len : Nat)
  /-- the writer runs one round of its loop -/
  | sendChunk
  /-- the writer's call returns -/
  | writeReturn
  /-- the writer calls `FinishWrite` -/
  | finishWrite
  /-- another message arrives in the reader's queue -/
  | deliver (msg : Message)
  /-- the reader calls `Read(buf, len)` -/
  | read (len : Nat)
  /-- the reader runs one round of its loop on a non-empty queue -/
  | receive

/-- One atomic step of the pipe; `none` when the action is not enabled. -/
def next (s : Channel) : Action → Option Channel
  | .write buf len =>
      if s.write.isNone ∧ s.finished = false then
        some { s with write := some (.start buf len), written := s.written ++ buf.bytes 0 len }
      else none
  | .sendChunk =>
      match s.write with
      | some write =>
          if write.sentBytes < write.len then
            some { s with
              write := some write.sendChunk.1
              msgs := s.msgs ++ [write.sendChunk.2] }
          else none
      | none => none
  | .writeReturn =>
      match s.write with
      | some write => if write.sentBytes < write.len then none else some { s with write := none }
      | none => none
  | .finishWrite =>
      if s.write.isNone ∧ s.finished = false then
        some { s with finished := true, msgs := s.msgs ++ [finishWriteMessage] }
      else none
  | .deliver msg =>
      if msg.isPipe then none else some { s with msgs := s.msgs ++ [msg] }
  | .read len =>
      if s.read.isNone ∧ 0 < len then
        match s.fd.readCarry len with
        | some (fd, out) => some { s with fd, results := s.results ++ [out] }
        | none => some { s with read := some len }
      else none
  | .receive =>
      match s.read, s.msgs with
      | some len, msg :: msgs =>
          match s.fd.receive len msg with
          | some (fd, out) =>
              some { s with fd, msgs, read := none, results := s.results ++ [out] }
          | none => some { s with msgs }
      | _, _ => none

end Channel

end Mikanos.Terminal
