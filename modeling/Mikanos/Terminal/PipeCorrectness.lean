import Mikanos.Terminal.Pipe
import Mikanos.Transition.Run

/-!
# A pipe is a first-in first-out byte stream

Every byte that was passed to `Write` is in exactly one of four places, in
stream order: already returned by a `Read`, in the carry buffer, in a queued
message, or still in the buffer of the `Write` in progress.  The end of the
stream is tracked alongside: as long as the reader has not seen the closing
message, no `Read` returns zero bytes, and once it has, nothing is left to
return.
-/

namespace Mikanos.Terminal

open Mikanos.Memory
open Mikanos.Transition

/-- The stream bytes that a queued message carries. -/
def payload : Message → List UInt8
  | .pipe data len => data.bytes 0 len
  | _ => []

theorem payload_of_not_isPipe {msg : Message} (notPipe : msg.isPipe = false) :
    payload msg = [] := by
  cases msg <;> simp_all [payload, Message.isPipe]

namespace PipeDescriptor

/-- The carry buffer after its first `n` bytes were moved out. -/
theorem bytes_memmove (data src : Mem) (n rest : Nat) :
    (data.copyTo 0 rest fun i => src (n + i)).bytes 0 rest = src.bytes n rest := by
  apply Mem.bytes_congr
  intro i inside
  exact Mem.copyTo_add_apply i inside

/-- A `Read` served from the carry buffer returns a prefix of it and keeps the
rest. -/
theorem readCarry_of_pos {fd fd' : PipeDescriptor} {len : Nat} {out : List UInt8}
    (positive : 0 < len) (nonempty : 0 < fd.len)
    (served : fd.readCarry len = some (fd', out)) :
    out ≠ [] ∧ out ++ fd'.carry = fd.carry ∧ fd'.len ≤ fd.len ∧ fd'.closed = fd.closed := by
  simp only [readCarry, if_pos nonempty, Option.some.injEq, Prod.mk.injEq] at served
  obtain ⟨rfl, rfl⟩ := served
  have split : min fd.len len + (fd.len - min fd.len len) = fd.len := by omega
  refine ⟨?_, ?_, Nat.sub_le _ _, rfl⟩
  · apply List.ne_nil_of_length_pos
    rw [Mem.length_bytes]
    omega
  · calc fd.data.bytes 0 (min fd.len len) ++ _
        = fd.data.bytes 0 (min fd.len len)
            ++ fd.data.bytes (min fd.len len) (fd.len - min fd.len len) := by
          rw [carry, bytes_memmove]
      _ = fd.data.bytes 0 (min fd.len len + (fd.len - min fd.len len)) := by
          rw [Mem.bytes_add, Nat.zero_add]
      _ = fd.carry := by rw [split, carry]

/-- With an empty carry buffer only a closed pipe answers at once. -/
theorem readCarry_of_empty {fd : PipeDescriptor} (len : Nat) (empty : fd.len = 0) :
    fd.readCarry len = if fd.closed then some (fd, []) else none := by
  simp [readCarry, empty]

/-- The closing message closes the pipe and returns zero bytes. -/
theorem receive_end (fd : PipeDescriptor) (len : Nat) (data : Mem) :
    fd.receive len (.pipe data 0) = some ({ fd with closed := true }, []) := by
  simp [receive]

/-- A data message is returned up to the length asked for and the rest goes to
the carry buffer. -/
theorem receive_data {fd : PipeDescriptor} {len msgLen : Nat} (data : Mem)
    (positive : 0 < len) (nonempty : msgLen ≠ 0) :
    ∃ fd' out, fd.receive len (.pipe data msgLen) = some (fd', out) ∧ out ≠ [] ∧
      out ++ fd'.carry = data.bytes 0 msgLen ∧ fd'.len ≤ msgLen ∧ fd'.closed = fd.closed := by
  have received : fd.receive len (.pipe data msgLen) = some
      ({ fd with
          len := msgLen - min msgLen len
          data := fd.data.copyTo 0 (msgLen - min msgLen len) fun i => data (min msgLen len + i) },
        data.bytes 0 (min msgLen len)) := by
    simp only [receive, if_neg nonempty]
  refine ⟨_, _, received, ?_, ?_, Nat.sub_le _ _, rfl⟩
  · apply List.ne_nil_of_length_pos
    rw [Mem.length_bytes]
    omega
  · have split : min msgLen len + (msgLen - min msgLen len) = msgLen := by omega
    simp only [carry]
    rw [bytes_memmove]
    calc data.bytes 0 (min msgLen len) ++ data.bytes (min msgLen len) (msgLen - min msgLen len)
        = data.bytes 0 (min msgLen len + (msgLen - min msgLen len)) := by
          rw [Mem.bytes_add, Nat.zero_add]
      _ = data.bytes 0 msgLen := by rw [split]

/-- Messages of other types are dropped. -/
theorem receive_of_not_isPipe {msg : Message} (fd : PipeDescriptor) (len : Nat)
    (notPipe : msg.isPipe = false) : fd.receive len msg = none := by
  cases msg <;> simp_all [receive, Message.isPipe]

end PipeDescriptor

namespace PipeWrite

/-- One round of `Write` moves a non-empty chunk of at most sixteen bytes from
the front of the pending bytes into a message. -/
theorem sendChunk_spec {write : PipeWrite} (unfinished : write.sentBytes < write.len) :
    ∃ data, write.sendChunk.2 = .pipe data write.chunk ∧
      0 < write.chunk ∧ write.chunk ≤ Message.pipeCapacity ∧
      data.bytes 0 write.chunk ++ write.sendChunk.1.pending = write.pending ∧
      write.sendChunk.1.sentBytes ≤ write.sendChunk.1.len := by
  have chunkEq : write.chunk = min (write.len - write.sentBytes) 16 := rfl
  refine ⟨_, rfl, by omega, by rw [Message.pipeCapacity]; omega, ?_, ?_⟩
  · rw [PipeDescriptor.bytes_memmove]
    have split : write.chunk + (write.len - (write.sentBytes + write.chunk)) =
        write.len - write.sentBytes := by omega
    calc write.buf.bytes write.sentBytes write.chunk ++
          write.buf.bytes (write.sentBytes + write.chunk)
            (write.len - (write.sentBytes + write.chunk))
        = write.buf.bytes write.sentBytes
            (write.chunk + (write.len - (write.sentBytes + write.chunk))) := by
          rw [Mem.bytes_add]
      _ = write.pending := by rw [split, pending]
  · simp only [sendChunk]
    omega

end PipeWrite

namespace Channel

/-- The bytes a `Write` in progress still has to send. -/
def pending (s : Channel) : List UInt8 :=
  match s.write with
  | some write => write.pending
  | none => []

/-- No queued message belongs to the pipe. -/
def Quiet (msgs : List Message) : Prop :=
  ∀ msg ∈ msgs, msg.isPipe = false

/-- No queued message is the closing message. -/
def NoEnd (msgs : List Message) : Prop :=
  ∀ data, Message.pipe data 0 ∉ msgs

theorem payload_of_quiet {msgs : List Message} (quiet : Quiet msgs) :
    msgs.flatMap payload = [] := by
  rw [List.flatMap_eq_nil_iff]
  intro msg member
  exact payload_of_not_isPipe (quiet msg member)

theorem NoEnd.append_data {msgs : List Message} (noEnd : NoEnd msgs) (data : Mem) {len : Nat}
    (nonempty : len ≠ 0) : NoEnd (msgs ++ [.pipe data len]) := by
  intro data' member
  rcases List.mem_append.mp member with old | new
  · exact noEnd data' old
  · simp only [List.mem_singleton, Message.pipe.injEq] at new
    exact nonempty new.2.symm

theorem NoEnd.append_other {msgs : List Message} (noEnd : NoEnd msgs) {msg : Message}
    (notPipe : msg.isPipe = false) : NoEnd (msgs ++ [msg]) := by
  intro data member
  rcases List.mem_append.mp member with old | new
  · exact noEnd data old
  · rw [← List.mem_singleton.mp new] at notPipe
    cases notPipe

theorem Quiet.append_other {msgs : List Message} (quiet : Quiet msgs) {msg : Message}
    (notPipe : msg.isPipe = false) : Quiet (msgs ++ [msg]) := by
  intro other member
  rcases List.mem_append.mp member with old | new
  · exact quiet other old
  · rw [List.mem_singleton.mp new]
    exact notPipe

/-- Where the end of the stream is. -/
inductive Phase (s : Channel) : Prop
  /-- `FinishWrite` has not been called -/
  | writing (finished : s.finished = false) (closed : s.fd.closed = false) (noEnd : NoEnd s.msgs)
  /-- the closing message is on its way, behind all data -/
  | closing (finished : s.finished = true) (closed : s.fd.closed = false)
      (write : s.write = none) (before after : List Message) (data : Mem)
      (msgs : s.msgs = before ++ .pipe data 0 :: after) (noEnd : NoEnd before) (quiet : Quiet after)
  /-- the reader has received the closing message -/
  | closed (finished : s.finished = true) (closed : s.fd.closed = true)
      (write : s.write = none) (quiet : Quiet s.msgs)

/-- The results of the completed `Read`s: no empty one before the end of the
stream was received, and only empty ones from then on. -/
def ResultsOk (s : Channel) : Prop :=
  (s.fd.closed = false → ∀ out ∈ s.results, out ≠ []) ∧
    (s.fd.closed = true → s.fd.len = 0 ∧ ∃ before n,
      s.results = before ++ List.replicate (n + 1) [] ∧ ∀ out ∈ before, out ≠ [])

/-- The invariant of a pipe. -/
structure Inv (s : Channel) : Prop where
  /-- the carry buffer is never overrun -/
  carry_le : s.fd.len ≤ Message.pipeCapacity
  /-- neither is the buffer of a message -/
  msgs_le : ∀ data len, Message.pipe data len ∈ s.msgs → len ≤ Message.pipeCapacity
  sent_le : ∀ write, s.write = some write → write.sentBytes ≤ write.len
  reading : ∀ len, s.read = some len → 0 < len ∧ s.fd.len = 0 ∧ s.fd.closed = false
  balance : s.results.flatten ++ s.fd.carry ++ s.msgs.flatMap payload ++ s.pending = s.written
  phase : Phase s
  results : ResultsOk s

theorem inv_initial (data : Mem) : Inv (initial data) where
  carry_le := Nat.zero_le _
  msgs_le := by intro data len member; cases member
  sent_le := by intro write h; cases h
  reading := by intro len h; cases h
  balance := rfl
  phase := .writing rfl rfl (by intro data member; cases member)
  results := by
    constructor
    · intro _ out member
      cases member
    · intro closed
      cases closed

/-! ## Steps of the writer -/

theorem Inv.write_next {s t : Channel} {buf : Mem} {len : Nat} (inv : Inv s)
    (step : s.next (.write buf len) = some t) : Inv t := by
  simp only [next, Option.isNone_iff_eq_none] at step
  split at step
  · rename_i enabled
    obtain ⟨idle, unfinished⟩ := enabled
    cases step
    have before := inv.balance
    rw [pending, idle, List.append_nil] at before
    exact {
      carry_le := inv.carry_le
      msgs_le := inv.msgs_le
      sent_le := by
        intro write started
        cases started
        exact Nat.zero_le _
      reading := inv.reading
      balance := by
        change s.results.flatten ++ s.fd.carry ++ s.msgs.flatMap payload ++ buf.bytes 0 len = _
        rw [before]
      phase := by
        cases inv.phase with
        | writing finished closed noEnd => exact .writing finished closed noEnd
        | closing finished => rw [unfinished] at finished; cases finished
        | closed finished => rw [unfinished] at finished; cases finished
      results := inv.results }
  · cases step

theorem Inv.sendChunk_next {s t : Channel} (inv : Inv s)
    (step : s.next .sendChunk = some t) : Inv t := by
  simp only [next] at step
  split at step
  · rename_i write writing
    split at step
    · rename_i unfinished
      cases step
      obtain ⟨data, sent, positive, bounded, moved, sent_le⟩ :=
        PipeWrite.sendChunk_spec unfinished
      have before := inv.balance
      rw [pending, writing] at before
      exact {
        carry_le := inv.carry_le
        msgs_le := by
          intro data' len' member
          rw [sent] at member
          rcases List.mem_append.mp member with old | new
          · exact inv.msgs_le data' len' old
          · simp only [List.mem_singleton, Message.pipe.injEq] at new
            rw [new.2]
            exact bounded
        sent_le := by
          intro write' started
          cases started
          exact sent_le
        reading := inv.reading
        balance := by
          change s.results.flatten ++ s.fd.carry ++ (s.msgs ++ [_]).flatMap payload ++
            write.sendChunk.1.pending = s.written
          rw [sent, ← before]
          simp only [List.flatMap_append, List.flatMap_singleton, payload, List.append_assoc]
          rw [moved]
        phase := by
          cases inv.phase with
          | writing finished closed noEnd =>
              refine .writing finished closed ?_
              change NoEnd (s.msgs ++ [write.sendChunk.2])
              rw [sent]
              exact noEnd.append_data data (by omega)
          | closing _ _ idle => rw [writing] at idle; cases idle
          | closed _ _ idle => rw [writing] at idle; cases idle
        results := inv.results }
    · cases step
  · cases step

theorem Inv.writeReturn_next {s t : Channel} (inv : Inv s)
    (step : s.next .writeReturn = some t) : Inv t := by
  simp only [next] at step
  split at step
  · rename_i write writing
    split at step
    · cases step
    · rename_i complete
      cases step
      have sent_le := inv.sent_le write writing
      have nothing : write.pending = [] := by
        rw [PipeWrite.pending, show write.len - write.sentBytes = 0 by omega, Mem.bytes_zero]
      have before := inv.balance
      rw [pending, writing] at before
      simp only [nothing, List.append_nil] at before
      exact {
        carry_le := inv.carry_le
        msgs_le := inv.msgs_le
        sent_le := by intro write' started; cases started
        reading := inv.reading
        balance := by
          change s.results.flatten ++ s.fd.carry ++ s.msgs.flatMap payload ++ [] = s.written
          rw [List.append_nil, before]
        phase := by
          cases inv.phase with
          | writing finished closed noEnd => exact .writing finished closed noEnd
          | closing _ _ idle => rw [writing] at idle; cases idle
          | closed _ _ idle => rw [writing] at idle; cases idle
        results := inv.results }
  · cases step

theorem Inv.finishWrite_next {s t : Channel} (inv : Inv s)
    (step : s.next .finishWrite = some t) : Inv t := by
  simp only [next, Option.isNone_iff_eq_none] at step
  split at step
  · rename_i enabled
    obtain ⟨idle, unfinished⟩ := enabled
    cases step
    exact {
      carry_le := inv.carry_le
      msgs_le := by
        intro data len member
        rcases List.mem_append.mp member with old | new
        · exact inv.msgs_le data len old
        · simp only [finishWriteMessage, List.mem_singleton, Message.pipe.injEq] at new
          rw [new.2]
          exact Nat.zero_le _
      sent_le := inv.sent_le
      reading := inv.reading
      balance := by
        have before := inv.balance
        change s.results.flatten ++ s.fd.carry ++
          (s.msgs ++ [finishWriteMessage]).flatMap payload ++ s.pending = s.written
        rw [List.flatMap_append, List.flatMap_singleton]
        simpa [finishWriteMessage, payload] using before
      phase := by
        cases inv.phase with
        | writing _ closed noEnd =>
            exact .closing rfl closed idle s.msgs [] _ rfl noEnd
              (by intro msg member; cases member)
        | closing finished => rw [unfinished] at finished; cases finished
        | closed finished => rw [unfinished] at finished; cases finished
      results := inv.results }
  · cases step

/-! ## Other messages -/

theorem Inv.deliver_next {s t : Channel} {msg : Message} (inv : Inv s)
    (step : s.next (.deliver msg) = some t) : Inv t := by
  simp only [next] at step
  split at step
  · cases step
  · rename_i other
    have notPipe : msg.isPipe = false := by simpa using other
    cases step
    exact {
      carry_le := inv.carry_le
      msgs_le := by
        intro data len member
        rcases List.mem_append.mp member with old | new
        · exact inv.msgs_le data len old
        · rw [← List.mem_singleton.mp new] at notPipe
          cases notPipe
      sent_le := inv.sent_le
      reading := inv.reading
      balance := by
        have before := inv.balance
        change s.results.flatten ++ s.fd.carry ++ (s.msgs ++ [msg]).flatMap payload ++
          s.pending = s.written
        rw [List.flatMap_append, List.flatMap_singleton, payload_of_not_isPipe notPipe,
          List.append_nil, before]
      phase := by
        cases inv.phase with
        | writing finished closed noEnd =>
            exact .writing finished closed (noEnd.append_other notPipe)
        | closing finished closed idle before after data msgs noEnd quiet =>
            refine .closing finished closed idle before (after ++ [msg]) data ?_ noEnd
              (quiet.append_other notPipe)
            change s.msgs ++ [msg] = _
            rw [msgs, List.append_assoc, List.cons_append]
        | closed finished closed idle quiet =>
            exact .closed finished closed idle (quiet.append_other notPipe)
      results := inv.results }

/-! ## Steps of the reader -/

theorem ResultsOk.snoc_data {s t : Channel} {out : List UInt8} (ok : ResultsOk s)
    (opened : s.fd.closed = false) (nonempty : out ≠ []) (closed : t.fd.closed = s.fd.closed)
    (results : t.results = s.results ++ [out]) : ResultsOk t := by
  constructor
  · intro _ out' member
    rw [results] at member
    rcases List.mem_append.mp member with old | new
    · exact ok.1 opened out' old
    · rw [List.mem_singleton.mp new]
      exact nonempty
  · intro h
    rw [closed, opened] at h
    cases h

/-- A `Read` that is answered from the descriptor alone. -/
theorem Inv.readCarry_next {s : Channel} {len : Nat} {fd : PipeDescriptor} {out : List UInt8}
    (inv : Inv s) (idle : s.read = none) (positive : 0 < len)
    (served : s.fd.readCarry len = some (fd, out)) :
    Inv { s with fd, results := s.results ++ [out] } := by
  have before := inv.balance
  by_cases empty : s.fd.len = 0
  · rw [PipeDescriptor.readCarry_of_empty len empty] at served
    split at served
    · rename_i closed
      cases served
      obtain ⟨_, early, n, results, nonempty⟩ := inv.results.2 closed
      exact {
        carry_le := inv.carry_le
        msgs_le := inv.msgs_le
        sent_le := inv.sent_le
        reading := inv.reading
        balance := by
          change (s.results ++ [[]]).flatten ++ s.fd.carry ++ s.msgs.flatMap payload ++ s.pending = _
          rw [List.flatten_append, List.flatten_singleton, List.append_nil, before]
        phase := by
          cases inv.phase with
          | writing _ opened => rw [closed] at opened; cases opened
          | closing _ opened => rw [closed] at opened; cases opened
          | closed finished closed idle quiet => exact .closed finished closed idle quiet
        results := by
          refine ⟨fun opened => ?_, fun _ => ⟨empty, early, n + 1, ?_, nonempty⟩⟩
          · rw [closed] at opened
            cases opened
          · change s.results ++ [[]] = _
            rw [results, List.append_assoc, ← List.replicate_succ'] }
    · cases served
  · obtain ⟨nonempty, split, le, closed⟩ :=
      PipeDescriptor.readCarry_of_pos positive (Nat.pos_of_ne_zero empty) served
    have opened : s.fd.closed = false := by
      cases closedEq : s.fd.closed with
      | false => rfl
      | true => exact absurd (inv.results.2 closedEq).1 empty
    exact {
      carry_le := le.trans inv.carry_le
      msgs_le := inv.msgs_le
      sent_le := inv.sent_le
      reading := by
        intro len' reading
        rw [show s.read = some len' from reading] at idle
        cases idle
      balance := by
        change (s.results ++ [out]).flatten ++ fd.carry ++ s.msgs.flatMap payload ++ s.pending = _
        rw [← before, ← split]
        simp [List.append_assoc]
      phase := by
        cases inv.phase with
        | writing finished opened noEnd => exact .writing finished (closed.trans opened) noEnd
        | closing finished opened idle before after data msgs noEnd quiet =>
            exact .closing finished (closed.trans opened) idle before after data msgs noEnd quiet
        | closed _ closedEq => rw [opened] at closedEq; cases closedEq
      results := inv.results.snoc_data opened nonempty closed rfl }

theorem Inv.read_next {s t : Channel} {len : Nat} (inv : Inv s)
    (step : s.next (.read len) = some t) : Inv t := by
  simp only [next, Option.isNone_iff_eq_none] at step
  split at step
  · rename_i enabled
    obtain ⟨idle, positive⟩ := enabled
    split at step
    · rename_i served
      cases step
      exact inv.readCarry_next idle positive served
    · rename_i blocked
      cases step
      have empty : s.fd.len = 0 := by
        by_contra nonempty
        simp [PipeDescriptor.readCarry, Nat.pos_of_ne_zero nonempty] at blocked
      rw [PipeDescriptor.readCarry_of_empty len empty] at blocked
      have opened : s.fd.closed = false := by
        by_contra closed
        simp [closed] at blocked
      exact {
        carry_le := inv.carry_le
        msgs_le := inv.msgs_le
        sent_le := inv.sent_le
        reading := by
          intro len' reading
          cases reading
          exact ⟨positive, empty, opened⟩
        balance := inv.balance
        phase := by
          cases inv.phase with
          | writing finished opened noEnd => exact .writing finished opened noEnd
          | closing finished opened idle before after data msgs noEnd quiet =>
              exact .closing finished opened idle before after data msgs noEnd quiet
          | closed finished closed idle quiet => exact .closed finished closed idle quiet
        results := inv.results }
  · cases step

/-- A message of another type at the head of the queue is dropped. -/
theorem Inv.drop_next {s : Channel} {msg : Message} {msgs : List Message} (inv : Inv s)
    (queue : s.msgs = msg :: msgs) (notPipe : msg.isPipe = false) : Inv { s with msgs } where
  carry_le := inv.carry_le
  msgs_le := fun data len member =>
    inv.msgs_le data len (by rw [queue]; exact List.mem_cons_of_mem msg member)
  sent_le := inv.sent_le
  reading := inv.reading
  balance := by
    have before := inv.balance
    rw [queue, List.flatMap_cons, payload_of_not_isPipe notPipe, List.nil_append] at before
    exact before
  phase := by
    cases inv.phase with
    | writing finished closed noEnd =>
        refine .writing finished closed fun data member => noEnd data ?_
        rw [queue]
        exact List.mem_cons_of_mem msg member
    | closing finished closed idle before after data msgsEq noEnd quiet =>
        rw [queue] at msgsEq
        cases before with
        | nil =>
            cases msgsEq
            cases notPipe
        | cons head before =>
            simp only [List.cons_append, List.cons.injEq] at msgsEq
            refine .closing finished closed idle before after data msgsEq.2 ?_ quiet
            intro data' member
            exact noEnd data' (List.mem_cons_of_mem head member)
    | closed finished closed idle quiet =>
        refine .closed finished closed idle fun other member => quiet other ?_
        rw [queue]
        exact List.mem_cons_of_mem msg member
  results := inv.results

/-- The closing message is received. -/
theorem Inv.receiveEnd_next {s : Channel} {data : Mem} {msgs : List Message} {len : Nat}
    (inv : Inv s) (reading : s.read = some len) (queue : s.msgs = .pipe data 0 :: msgs) :
    Inv { s with
      fd := { s.fd with closed := true }, msgs, read := none, results := s.results ++ [[]] } := by
  obtain ⟨_, empty, opened⟩ := inv.reading len reading
  exact {
    carry_le := inv.carry_le
    msgs_le := fun data' len' member =>
      inv.msgs_le data' len' (by rw [queue]; exact List.mem_cons_of_mem _ member)
    sent_le := inv.sent_le
    reading := by intro len' h; cases h
    balance := by
      have before := inv.balance
      rw [queue] at before
      simpa [payload, PipeDescriptor.carry, pending] using before
    phase := by
      cases inv.phase with
      | writing _ _ noEnd =>
          refine absurd ?_ (noEnd data)
          rw [queue]
          exact List.mem_cons_self
      | closing finished _ idle before after data' msgsEq noEnd quiet =>
          rw [queue] at msgsEq
          cases before with
          | nil =>
              cases msgsEq
              exact .closed finished rfl idle quiet
          | cons head before =>
              simp only [List.cons_append, List.cons.injEq] at msgsEq
              refine absurd ?_ (noEnd data)
              rw [msgsEq.1]
              exact List.mem_cons_self
      | closed _ closed => rw [opened] at closed; cases closed
    results := by
      constructor
      · intro h
        cases h
      · intro _
        exact ⟨empty, s.results, 0, rfl, inv.results.1 opened⟩ }

/-- A data message is received. -/
theorem Inv.receiveData_next {s : Channel} {data : Mem} {msgs : List Message}
    {len msgLen : Nat} {fd : PipeDescriptor} {out : List UInt8} (inv : Inv s)
    (reading : s.read = some len) (queue : s.msgs = .pipe data msgLen :: msgs)
    (positive : msgLen ≠ 0) (received : s.fd.receive len (.pipe data msgLen) = some (fd, out)) :
    Inv { s with fd, msgs, read := none, results := s.results ++ [out] } := by
  obtain ⟨len_pos, empty, opened⟩ := inv.reading len reading
  obtain ⟨fd', out', receivedEq, nonempty, split, le, closed⟩ :=
    s.fd.receive_data data len_pos positive
  rw [received] at receivedEq
  cases receivedEq
  have bounded : msgLen ≤ Message.pipeCapacity := by
    apply inv.msgs_le data msgLen
    rw [queue]
    exact List.mem_cons_self
  exact {
    carry_le := le.trans bounded
    msgs_le := fun data' len' member =>
      inv.msgs_le data' len' (by rw [queue]; exact List.mem_cons_of_mem _ member)
    sent_le := inv.sent_le
    reading := by intro len' h; cases h
    balance := by
      have before := inv.balance
      change (s.results ++ [out]).flatten ++ fd.carry ++ msgs.flatMap payload ++ s.pending = _
      rw [← before, queue, List.flatMap_cons, payload, ← split, PipeDescriptor.carry,
        PipeDescriptor.carry, empty]
      simp [List.append_assoc]
    phase := by
      cases inv.phase with
      | writing finished opened noEnd =>
          refine .writing finished (closed.trans opened) fun data' member => noEnd data' ?_
          rw [queue]
          exact List.mem_cons_of_mem _ member
      | closing finished opened idle before after data' msgsEq noEnd quiet =>
          rw [queue] at msgsEq
          cases before with
          | nil =>
              simp only [List.nil_append, List.cons.injEq, Message.pipe.injEq] at msgsEq
              exact absurd msgsEq.1.2 positive
          | cons head before =>
              simp only [List.cons_append, List.cons.injEq] at msgsEq
              refine .closing finished (closed.trans opened) idle before after data' msgsEq.2 ?_
                quiet
              intro data'' member
              exact noEnd data'' (List.mem_cons_of_mem head member)
      | closed _ closedEq => rw [opened] at closedEq; cases closedEq
    results := inv.results.snoc_data opened nonempty closed rfl }

theorem Inv.receive_next {s t : Channel} (inv : Inv s)
    (step : s.next .receive = some t) : Inv t := by
  simp only [next] at step
  split at step
  · rename_i len msg msgs reading queue
    cases kind : msg.isPipe with
    | false =>
        rw [PipeDescriptor.receive_of_not_isPipe s.fd len kind] at step
        cases step
        exact inv.drop_next queue kind
    | true =>
        cases msg with
        | pipe data msgLen =>
            by_cases ending : msgLen = 0
            · subst ending
              rw [PipeDescriptor.receive_end] at step
              cases step
              exact inv.receiveEnd_next reading queue
            · obtain ⟨fd, out, received, _⟩ :=
                s.fd.receive_data data (inv.reading len reading).1 ending
              rw [received] at step
              cases step
              exact inv.receiveData_next reading queue ending received
        | _ => cases kind
  · cases step

/-- Every step of the pipe keeps its invariant. -/
theorem Inv.next {s t : Channel} {action : Action} (inv : Inv s)
    (step : s.next action = some t) : Inv t := by
  cases action with
  | write buf len => exact inv.write_next step
  | sendChunk => exact inv.sendChunk_next step
  | writeReturn => exact inv.writeReturn_next step
  | finishWrite => exact inv.finishWrite_next step
  | deliver msg => exact inv.deliver_next step
  | read len => exact inv.read_next step
  | receive => exact inv.receive_next step

theorem Inv.of_run {s : Channel} {data : Mem} {actions : List Action}
    (run : Run (ofFunction Channel.next) (initial data) actions s) : Inv s :=
  run.invariant (fun _ _ _ inv step => inv.next step) (inv_initial data)

/-! ## The stream -/

/-- What is returned is a prefix of what is written. -/
theorem Inv.results_written {s : Channel} (inv : Inv s) : s.results.flatten <+: s.written := by
  rw [← inv.balance, List.append_assoc, List.append_assoc]
  exact List.prefix_append _ _

/-- Once the closing message was received, everything written was returned. -/
theorem Inv.results_of_closed {s : Channel} (inv : Inv s) (closed : s.fd.closed = true) :
    s.finished = true ∧ s.results.flatten = s.written := by
  have balance := inv.balance
  obtain ⟨empty, -⟩ := inv.results.2 closed
  cases inv.phase with
  | writing _ opened => rw [closed] at opened; cases opened
  | closing _ opened => rw [closed] at opened; cases opened
  | closed finished _ idle quiet =>
      refine ⟨finished, ?_⟩
      simpa [PipeDescriptor.carry, empty, payload_of_quiet quiet, pending, idle] using balance

/-- An empty result splits the results into everything written and the empty
results of the reads after the end of the stream. -/
theorem Inv.results_of_empty {s : Channel} (inv : Inv s) {before after : List (List UInt8)}
    (results : s.results = before ++ [] :: after) :
    s.finished = true ∧ s.fd.closed = true ∧ before.flatten = s.written ∧
      ∀ out ∈ after, out = [] := by
  have closed : s.fd.closed = true := by
    by_contra opened
    refine inv.results.1 (by simpa using opened) [] ?_ rfl
    rw [results]
    exact List.mem_append_right before List.mem_cons_self
  obtain ⟨finished, written⟩ := inv.results_of_closed closed
  obtain ⟨-, early, n, resultsEq, nonempty⟩ := inv.results.2 closed
  have emptyAfter : ∀ out ∈ after, out = [] := by
    intro out member
    rw [results, List.append_eq_append_iff] at resultsEq
    rcases resultsEq with ⟨middle, earlyEq, tail⟩ | ⟨middle, -, tail⟩
    · cases middle with
      | nil =>
          rw [List.nil_append, List.replicate_succ, List.cons.injEq] at tail
          rw [tail.2] at member
          exact List.eq_of_mem_replicate member
      | cons head middle =>
          rw [List.cons_append, List.cons.injEq] at tail
          refine absurd tail.1.symm (nonempty head ?_)
          rw [earlyEq]
          exact List.mem_append_right before List.mem_cons_self
    · refine @List.eq_of_mem_replicate _ _ _ (n + 1) ?_
      rw [tail]
      exact List.mem_append_right middle (List.mem_cons_of_mem [] member)
  refine ⟨finished, closed, ?_, emptyAfter⟩
  rw [← written, results]
  simp [List.flatten_eq_nil_iff.mpr emptyAfter]

/-- The pipe is a first-in first-out byte stream: in every run the bytes
returned by the `Read`s are a prefix of the bytes written, a `Read` returns
zero bytes only after the end of the stream was received and everything
written was returned, and from then on every `Read` returns zero bytes. -/
theorem pipe_fifo (data : Mem) (actions : List Action) (s : Channel)
    (run : Run (ofFunction Channel.next) (initial data) actions s) :
    s.results.flatten <+: s.written ∧
      ∀ before after, s.results = before ++ [] :: after →
        s.finished = true ∧ s.fd.closed = true ∧ before.flatten = s.written ∧
          ∀ out ∈ after, out = [] :=
  ⟨(Inv.of_run run).results_written, fun _ _ results => (Inv.of_run run).results_of_empty results⟩

/-- Three bytes are sent in one message and read in two pieces; the end of the
stream is then met twice. -/
def threeBytes : List Action :=
  [.write UInt8.ofNat 3, .sendChunk, .deliver .layerFinish, .read 2, .receive, .writeReturn,
    .finishWrite, .read 2, .read 1, .receive, .receive, .read 5]

theorem pipe_fifo_threeBytes :
    ∃ s, execute Channel.next (initial fun _ => 0) threeBytes = some s ∧
      s.results = [[0, 1], [2], [], []] ∧ s.results.flatten <+: s.written ∧
      ∀ before after, s.results = before ++ [] :: after →
        s.finished = true ∧ s.fd.closed = true ∧ before.flatten = s.written ∧
          ∀ out ∈ after, out = [] := by
  have enabled : (execute Channel.next (initial fun _ => 0) threeBytes).isSome := rfl
  have executed := (Option.some_get enabled).symm
  exact ⟨_, executed, rfl, pipe_fifo _ _ _ ((execute_eq_some_iff _ _ _ _).mp executed)⟩

end Channel

end Mikanos.Terminal
