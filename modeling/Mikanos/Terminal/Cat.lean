import Mikanos.Fat.Reading
import Mikanos.Memory.CString

/-!
# The command `cat`

`ReadDelim` reads a line byte by byte into an array of 1024 bytes, and leaves what does not fit for
the next call.  `PrintToFD` formats what has been read in an array of its own, of 128 bytes, before
it is written.  A line therefore gets through exactly if it fits into the smaller array.
-/

namespace Mikanos.Terminal

open Memory

/-! ## The loops -/

/-- What becomes of a command. -/
inductive Outcome
  /-- it has come to its end, with the bytes that it has written -/
  | returned (written : List UInt8)
  /-- it has stored something behind the end of an array -/
  | overflow
  /-- it is still running -/
  | running
  deriving DecidableEq

/-- Some bytes have been written before. -/
def Outcome.after (written : List UInt8) : Outcome → Outcome
  | .returned rest => .returned (written ++ rest)
  | outcome => outcome

/-- `buf[i] = c`, if the array has an element `i`. -/
def storeAt (buf : List UInt8) (i : Nat) (c : UInt8) : Option (List UInt8) :=
  if i < buf.length then some (buf.set i c) else none

section

variable {σ : Type} (read : σ → Option UInt8 × σ)

/-- The loop of `ReadDelim`: the index at its end, the array and the descriptor. -/
def readDelimLoop (delim : UInt8) :
    (rounds i : Nat) → List UInt8 → σ → Option (Nat × List UInt8 × σ)
  | 0, i, buf, fd => some (i, buf, fd)
  | rounds + 1, i, buf, fd =>
      match read fd with
      | (none, fd) => some (i, buf, fd)
      | (some c, fd) => do
          let buf ← storeAt buf i c
          if c = delim then some (i + 1, buf, fd) else readDelimLoop delim rounds (i + 1) buf fd

/-- `ReadDelim`, for a descriptor whose `Read` with length 1 is `read`. -/
def readDelim (delim : UInt8) (buf : List UInt8) (len : Nat) (fd : σ) :
    Option (Nat × List UInt8 × σ) := do
  let (i, buf, fd) ← readDelimLoop read delim (len - 1) 0 buf fd
  let buf ← storeAt buf i 0
  some (i, buf, fd)

/-- The length of `s` in `PrintToFD`. -/
def kFormatMax : Nat := 128

/-- `PrintToFD` with the format `"%s"`: what is written.  `vsprintf` also stores a NUL. -/
def printToFD (text : List UInt8) : Option (List UInt8) :=
  if text.length + 1 ≤ kFormatMax then some text else none

/-- The loop of `cat`, for the array `u8buf`. -/
def catLoop : (rounds : Nat) → (u8buf : List UInt8) → σ → Outcome
  | 0, _, _ => .running
  | rounds + 1, u8buf, fd =>
      match readDelim read 0x0a u8buf u8buf.length fd with
      | none => .overflow
      | some (i, u8buf, fd) =>
          if i = 0 then .returned []
          else
            match printToFD (cstring u8buf) with
            | none => .overflow
            | some written => (catLoop rounds u8buf fd).after written

variable {read}

/-- What the loop has come to, it comes to with more rounds. -/
theorem cat_mono {rounds more : Nat} (le : rounds ≤ more) {u8buf : List UInt8} {fd : σ}
    (ended : catLoop read rounds u8buf fd ≠ .running) :
    catLoop read more u8buf fd = catLoop read rounds u8buf fd := by
  induction rounds generalizing more u8buf fd with
  | zero => exact absurd rfl ended
  | succ rounds ih =>
      cases more with
      | zero => exact absurd le (Nat.not_succ_le_zero rounds)
      | succ more =>
          rw [catLoop] at ended
          rw [catLoop, catLoop]
          generalize readDelim read 0x0a u8buf u8buf.length fd = call at ended ⊢
          rcases call with _ | ⟨i, u8buf, fd⟩
          · rfl
          · by_cases zero : i = 0
            · simp only [if_pos zero]
            · simp only [if_neg zero] at ended ⊢
              cases text : printToFD (cstring u8buf) with
              | none => rfl
              | some written =>
                  simp only [text] at ended ⊢
                  rw [ih (Nat.le_of_succ_le_succ le)]
                  intro running
                  rw [running] at ended
                  exact ended rfl

end

/-! ## Lines -/

/-- The first line, with its newline if it has one. -/
def line : List UInt8 → List UInt8
  | [] => []
  | c :: rest => if c = 0x0a then [c] else c :: line rest

/-- All lines, with their newlines. -/
def lines : List UInt8 → List (List UInt8)
  | [] => []
  | c :: rest =>
      if c = 0x0a then [c] :: lines rest
      else
        match lines rest with
        | [] => [[c]]
        | first :: others => (c :: first) :: others

theorem isPrefixOf_line (bytes : List UInt8) : line bytes <+: bytes := by
  induction bytes with
  | nil => exact List.prefix_rfl
  | cons c rest ih =>
      rw [line]
      split
      · exact ⟨rest, rfl⟩
      · exact (List.prefix_cons_inj c).mpr ih

theorem line_append_drop (bytes : List UInt8) :
    line bytes ++ bytes.drop (line bytes).length = bytes := by
  conv_rhs => rw [← List.take_append_drop (line bytes).length bytes]
  rw [← List.prefix_iff_eq_take.mp (isPrefixOf_line bytes)]

/-- The lines are the first one and those behind it. -/
theorem lines_eq {bytes : List UInt8} (some : bytes ≠ []) :
    lines bytes = line bytes :: lines (bytes.drop (line bytes).length) := by
  induction bytes with
  | nil => exact absurd rfl some
  | cons c rest ih =>
      rw [lines, line]
      by_cases newline : c = 0x0a
      · rw [if_pos newline, if_pos newline]
        rfl
      · rw [if_neg newline, if_neg newline]
        rcases Decidable.em (rest = []) with rfl | more
        · rfl
        · rw [ih more]
          rfl

theorem line_append {text : List UInt8} (noNewline : 0x0a ∉ text) (rest : List UInt8) :
    line (text ++ 0x0a :: rest) = text ++ [0x0a] := by
  induction text with
  | nil => rfl
  | cons c text ih =>
      rw [List.mem_cons, not_or] at noNewline
      rw [List.cons_append, line, if_neg (Ne.symm noNewline.1), ih noNewline.2, List.cons_append]

theorem line_length_pos {bytes : List UInt8} (some : bytes ≠ []) : 0 < (line bytes).length := by
  cases bytes with
  | nil => exact absurd rfl some
  | cons c rest =>
      rw [line]
      split <;> exact Nat.succ_pos _

/-! ## What a descriptor delivers -/

/-- The bytes are read one after another, and nothing after them. -/
def Delivers {σ : Type} (read : σ → Option UInt8 × σ) (fd : σ) (bytes : List UInt8) : Prop :=
  ∀ i, (read ((fun fd => (read fd).2)^[i] fd)).1 = bytes[i]?

namespace Delivers

variable {σ : Type} {read : σ → Option UInt8 × σ} {fd : σ} {bytes : List UInt8}

theorem head (delivers : Delivers read fd bytes) : (read fd).1 = bytes.head? := by
  rw [List.head?_eq_getElem?]
  exact delivers 0

theorem tail (delivers : Delivers read fd bytes) : Delivers read (read fd).2 bytes.tail := by
  intro i
  rw [List.getElem?_tail]
  exact delivers (i + 1)

/-- A list of bytes as a descriptor. -/
theorem list (bytes : List UInt8) : Delivers (fun fd => (fd.head?, fd.tail)) bytes bytes := by
  intro i
  have later : (fun fd : List UInt8 => fd.tail)^[i] bytes = bytes.drop i := by
    induction i with
    | zero => rfl
    | succ i ih => rw [Function.iterate_succ_apply', ih, List.tail_drop]
  show ((fun fd : List UInt8 => fd.tail)^[i] bytes).head? = bytes[i]?
  rw [later, List.head?_drop]

/-! ## One call of `ReadDelim` -/

/-- The loop reads the rest of a line, or as much of it as there is room for. -/
theorem readDelimLoop_eq (delivers : Delivers read fd bytes) (rounds : Nat)
    (before : List UInt8) {behind : List UInt8} (room : rounds ≤ behind.length) :
    ∃ fd', readDelimLoop read 0x0a rounds before.length (before ++ behind) fd =
        some (before.length + ((line bytes).take rounds).length,
          before ++ (line bytes).take rounds ++ behind.drop ((line bytes).take rounds).length,
          fd') ∧
      Delivers read fd' (bytes.drop ((line bytes).take rounds).length) := by
  induction rounds generalizing fd bytes before behind with
  | zero => exact ⟨fd, by simp [readDelimLoop], by simpa using delivers⟩
  | succ rounds ih =>
      have head := delivers.head
      have tail := delivers.tail
      rw [readDelimLoop]
      rcases reading : read fd with ⟨result, fd₁⟩
      rw [reading] at head tail
      cases bytes with
      | nil =>
          cases head
          exact ⟨fd₁, by simp [line], tail⟩
      | cons c rest =>
          cases head
          cases behind with
          | nil => exact absurd room (by simp)
          | cons old behind =>
              have stored : storeAt (before ++ old :: behind) before.length c =
                  some (before ++ [c] ++ behind) := by
                rw [storeAt, if_pos (by simp), List.set_append_right _ _ le_rfl]
                simp
              simp only [stored, bind, Option.bind]
              rw [line]
              by_cases newline : c = 0x0a
              · rw [if_pos newline, if_pos newline]
                exact ⟨fd₁, by simp, by simpa using tail⟩
              · rw [if_neg newline, if_neg newline]
                rcases ih tail (before ++ [c]) (Nat.le_of_succ_le_succ room) with
                  ⟨fd', loop, delivers'⟩
                rw [List.length_append, List.length_singleton] at loop
                refine ⟨fd', ?_, by simpa using delivers'⟩
                rw [loop, List.take_succ_cons, List.length_cons, List.drop_succ_cons,
                  Nat.add_assoc, Nat.add_comm 1]
                simp only [List.tail_cons, List.append_assoc, List.cons_append, List.nil_append]

variable {u8buf : List UInt8}

/-- A call reads a line, or its first bytes, and stores a NUL behind it. -/
theorem readDelim_eq (delivers : Delivers read fd bytes) (room : 0 < u8buf.length) :
    ∃ behind fd', readDelim read 0x0a u8buf u8buf.length fd =
        some (((line bytes).take (u8buf.length - 1)).length,
          (line bytes).take (u8buf.length - 1) ++ 0 :: behind, fd') ∧
      ((line bytes).take (u8buf.length - 1) ++ 0 :: behind).length = u8buf.length ∧
      Delivers read fd' (bytes.drop ((line bytes).take (u8buf.length - 1)).length) := by
  rcases delivers.readDelimLoop_eq (u8buf.length - 1) []
    (Nat.sub_le _ _) with ⟨fd', loop, delivers'⟩
  have fits : ((line bytes).take (u8buf.length - 1)).length < u8buf.length :=
    (List.length_take_le _ _).trans_lt (by omega)
  generalize (line bytes).take (u8buf.length - 1) = chunk at *
  rw [List.nil_append, List.length_nil, Nat.zero_add, List.nil_append] at loop
  have split : u8buf.drop chunk.length =
      u8buf[chunk.length] :: u8buf.drop (chunk.length + 1) := List.drop_eq_getElem_cons fits
  refine ⟨u8buf.drop (chunk.length + 1), fd', ?_, ?_, delivers'⟩
  · have stored : storeAt (chunk ++ u8buf.drop chunk.length) chunk.length 0 =
        some (chunk ++ 0 :: u8buf.drop (chunk.length + 1)) := by
      rw [storeAt, split, if_pos (by simpa using fits), List.set_append_right _ _ le_rfl,
        Nat.sub_self]
      rfl
    rw [readDelim, loop]
    simp only [stored, bind, Option.bind]
  · rw [List.length_append, List.length_cons, List.length_drop]
    omega

/-! ## All calls -/

/-- A line is not empty, so fewer bytes are left behind it. -/
theorem length_drop_line_lt (some : bytes ≠ []) {rounds : Nat}
    (enough : bytes.length < rounds + 1) : (bytes.drop (line bytes).length).length < rounds := by
  have positive := line_length_pos some
  have le := (isPrefixOf_line bytes).length_le
  rw [List.length_drop]
  omega

/-- Lines that fit are written as they are. -/
theorem cat_returned (delivers : Delivers read fd bytes) (noNul : 0 ∉ bytes)
    (room : kFormatMax < u8buf.length) (short : ∀ l ∈ lines bytes, l.length < kFormatMax)
    {rounds : Nat} (enough : bytes.length < rounds) :
    catLoop read rounds u8buf fd = .returned bytes := by
  induction rounds generalizing u8buf fd bytes with
  | zero => omega
  | succ rounds ih =>
      rcases delivers.readDelim_eq (Nat.zero_lt_of_lt room) with
        ⟨behind, fd', call, length, delivers'⟩
      rw [catLoop, call]
      rcases Decidable.em (bytes = []) with rfl | some
      · simp [line]
      · rw [lines_eq some, List.forall_mem_cons] at short
        have whole : (line bytes).take (u8buf.length - 1) = line bytes :=
          List.take_of_length_le (by omega)
        have positive := line_length_pos some
        have fewer := length_drop_line_lt some enough
        have noNulLine : 0 ∉ line bytes :=
          fun member => noNul ((isPrefixOf_line bytes).subset member)
        rw [whole] at delivers' length ⊢
        have text : cstring (line bytes ++ 0 :: behind) = line bytes :=
          cstring_append_nul noNulLine behind
        have rest := ih delivers' (fun member => noNul (List.mem_of_mem_drop member))
          (length ▸ room) short.2 fewer
        simp only [text, printToFD, if_neg positive.ne', if_pos (Nat.succ_le_of_lt short.1), rest,
          Outcome.after, line_append_drop]

/-- The first line that does not fit is the end of it. -/
theorem cat_overflow (delivers : Delivers read fd bytes) (noNul : 0 ∉ bytes)
    (room : kFormatMax < u8buf.length) (long : ∃ l ∈ lines bytes, kFormatMax ≤ l.length)
    {rounds : Nat} (enough : bytes.length < rounds) :
    catLoop read rounds u8buf fd = .overflow := by
  induction rounds generalizing u8buf fd bytes with
  | zero => omega
  | succ rounds ih =>
      rcases delivers.readDelim_eq (Nat.zero_lt_of_lt room) with
        ⟨behind, fd', call, length, delivers'⟩
      rw [catLoop, call]
      rcases Decidable.em (bytes = []) with rfl | some
      · simp [lines] at long
      · have positive := line_length_pos some
        have chunkPositive : ((line bytes).take (u8buf.length - 1)).length ≠ 0 := by
          rw [List.length_take, kFormatMax] at *
          omega
        have noNulChunk : 0 ∉ (line bytes).take (u8buf.length - 1) :=
          fun member => noNul ((isPrefixOf_line bytes).subset (List.mem_of_mem_take member))
        have text : cstring ((line bytes).take (u8buf.length - 1) ++ 0 :: behind) =
            (line bytes).take (u8buf.length - 1) :=
          cstring_append_nul noNulChunk behind
        simp only [text, if_neg chunkPositive]
        by_cases fits : (line bytes).length < kFormatMax
        · have whole : (line bytes).take (u8buf.length - 1) = line bytes :=
            List.take_of_length_le (by omega)
          rw [whole] at delivers' length ⊢
          rw [lines_eq some, List.exists_mem_cons_iff] at long
          have later := long.resolve_left fits.not_ge
          have fewer := length_drop_line_lt some enough
          have rest := ih delivers' (fun member => noNul (List.mem_of_mem_drop member))
            (length ▸ room) later fewer
          simp only [printToFD, if_pos (Nat.succ_le_of_lt fits), rest, Outcome.after]
        · have tooLong :
              ¬ ((line bytes).take (u8buf.length - 1)).length + 1 ≤ kFormatMax := by
            rw [List.length_take]
            omega
          simp only [printToFD, if_neg tooLong]

end Delivers

/-- What a call of `Read` with length 1 has come to. -/
def received (fd : Fat.FileDescriptor) :
    Except Fat.Stop (List UInt8 × Fat.FileDescriptor) → Option UInt8 × Fat.FileDescriptor
  | .ok (copied, fd) => (copied.head?, fd)
  | .error _ => (none, fd)

/-- `Read` of one byte of a file. -/
def readByte (v : Fat.Volume) (fd : Fat.FileDescriptor) : Option UInt8 × Fat.FileDescriptor :=
  received fd (v.read fd 1)

section

open Fat.Volume

variable {v : Fat.Volume} {fd : Fat.FileDescriptor} {l : List Nat} {p size : Nat}

theorem readByte_eq (valid : v.bpb.Valid) (own : v.OwnChain fd.fatEntry l)
    (hasRead : v.HasRead fd l p) (sizeEq : v.fileSize fd.fatEntry = size) (within : p ≤ size)
    (covers : size ≤ l.length * v.bytesPerCluster) :
    ∃ fd', readByte v fd = (((v.content l).bytes p (min 1 (size - p))).head?, fd') ∧
      v.HasRead fd' l (p + min 1 (size - p)) ∧ fd'.fatEntry = fd.fatEntry := by
  subst sizeEq
  have inside : p + min 1 (v.fileSize fd.fatEntry - p) ≤ l.length * v.bytesPerCluster := by omega
  rcases read_eq valid own hasRead within inside with
    ⟨fd', readEq, hasRead', entryEq⟩
  exact ⟨fd', congrArg (received fd) readEq, hasRead', entryEq⟩

/-- A file delivers its bytes, from where it has been read to. -/
theorem delivers_file (valid : v.bpb.Valid) (own : v.OwnChain fd.fatEntry l)
    (hasRead : v.HasRead fd l p) (sizeEq : v.fileSize fd.fatEntry = size) (within : p ≤ size)
    (covers : size ≤ l.length * v.bytesPerCluster) :
    Delivers (readByte v) fd ((v.content l).bytes p (size - p)) := by
  intro i
  induction i generalizing fd p with
  | zero =>
      rcases readByte_eq valid own hasRead sizeEq within covers with ⟨fd', readEq, -, -⟩
      rw [Function.iterate_zero, id_eq, readEq]
      rcases Nat.eq_zero_or_pos (size - p) with atEnd | more
      · rw [atEnd]
        rfl
      · rw [Nat.min_eq_left more, Mem.bytes, Mem.bytes, List.getElem?_map,
          List.getElem?_range more]
        rfl
  | succ i ih =>
      rcases readByte_eq valid own hasRead sizeEq within covers with
        ⟨fd', readEq, hasRead', entryEq⟩
      have later := ih (entryEq ▸ own) hasRead' (by rw [entryEq, sizeEq]) (by omega)
      rw [Function.iterate_succ_apply, readEq, later]
      rcases Nat.eq_zero_or_pos (size - p) with atEnd | more
      · rw [atEnd, Nat.min_zero, Nat.add_zero, atEnd]
        rfl
      · have split : size - p = 1 + (size - (p + 1)) := by omega
        rw [Nat.min_eq_left more, split, Mem.bytes_add]
        rfl

end

/-! ## The command -/

theorem Delivers.cat_ne_returned {σ : Type} {read : σ → Option UInt8 × σ} {fd : σ}
    {bytes u8buf : List UInt8} (delivers : Delivers read fd bytes) (noNul : 0 ∉ bytes)
    (room : kFormatMax < u8buf.length) (long : ∃ l ∈ lines bytes, kFormatMax ≤ l.length)
    (rounds : Nat) : catLoop read rounds u8buf fd ≠ .returned bytes := by
  intro copied
  have same : catLoop read (max rounds (bytes.length + 1)) u8buf fd = catLoop read rounds u8buf fd :=
    cat_mono (Nat.le_max_left _ _) (by simp [copied])
  rw [delivers.cat_overflow noNul room long (Nat.lt_of_succ_le (Nat.le_max_right _ _)), copied]
    at same
  cases same

/-- `cat`, with its array `u8buf`, copies a stream without NULs exactly if every line, with its
newline, leaves room for a NUL in the array of `PrintToFD`. -/
theorem cat_copies_iff {σ : Type} {read : σ → Option UInt8 × σ} {fd : σ} {bytes : List UInt8}
    (delivers : Delivers read fd bytes) (noNul : 0 ∉ bytes) {u8buf : List UInt8}
    (sizeof : u8buf.length = 1024) :
    (∃ rounds, catLoop read rounds u8buf fd = .returned bytes) ↔
      ∀ l ∈ lines bytes, l.length < kFormatMax := by
  have room : kFormatMax < u8buf.length := by
    rw [sizeof]
    decide
  constructor
  · rintro ⟨rounds, copied⟩
    by_contra long
    push Not at long
    exact delivers.cat_ne_returned noNul room long rounds copied
  · intro short
    exact ⟨bytes.length + 1, delivers.cat_returned noNul room short (Nat.lt_succ_self _)⟩

/-- Two lines of a file. -/
theorem cat_copies_iff_twoLines :
    (∃ rounds, catLoop (fun fd : List UInt8 => (fd.head?, fd.tail)) rounds (List.replicate 1024 0)
        [0x68, 0x69, 0x0a, 0x21] = .returned [0x68, 0x69, 0x0a, 0x21]) ↔
      ∀ l ∈ lines [0x68, 0x69, 0x0a, 0x21], l.length < kFormatMax :=
  cat_copies_iff (Delivers.list [0x68, 0x69, 0x0a, 0x21]) (by decide) List.length_replicate

/-- A line of 127 characters and a newline. -/
def longLine : List UInt8 :=
  List.replicate 127 0x61 ++ [0x0a]

/-- `cat` stores the NUL of such a line behind the array of `PrintToFD`. -/
theorem not_cat_longLine :
    0 ∉ longLine ∧
      (∃ rounds, catLoop (fun fd : List UInt8 => (fd.head?, fd.tail)) rounds (List.replicate 1024 0)
        longLine = .overflow) ∧
      ¬ ∃ rounds, catLoop (fun fd : List UInt8 => (fd.head?, fd.tail)) rounds (List.replicate 1024 0)
        longLine = .returned longLine := by
  have noNul : 0 ∉ longLine := by simp [longLine]
  have oneLine : line longLine = longLine := line_append (by simp) []
  have long : ∃ l ∈ lines longLine, kFormatMax ≤ l.length := by
    refine ⟨longLine, ?_, by simp [longLine, kFormatMax]⟩
    rw [lines_eq (by simp [longLine]), oneLine]
    exact List.mem_cons_self
  have room : kFormatMax < (List.replicate 1024 (0 : UInt8)).length := by
    rw [List.length_replicate]
    decide
  refine ⟨noNul, ⟨longLine.length + 1, ?_⟩, ?_⟩
  · exact (Delivers.list longLine).cat_overflow noNul room long
      (Nat.lt_add_one longLine.length)
  · rintro ⟨rounds, copied⟩
    exact (Delivers.list longLine).cat_ne_returned noNul room long rounds copied

end Mikanos.Terminal
