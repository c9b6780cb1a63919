import Mikanos.Syscall.Entry

/-!
# What confines an application

The number of a call and its pointer decide whether the call stays in the memory of
applications.  The number is taken modulo the 32-bit address space of the table, and the
pointer must be that of an object that lies in the upper half as far as the handler uses
it: a string up to its end, a text up to the last character that is decoded, a buffer
up to the last byte that is copied.
-/

namespace Mikanos

open Memory

/-! ## Strings -/

section Strings

variable {char : Nat → UInt8} {limit : Option Nat} {rounds i n o : Nat}

/-- The end of what the loops of `Print` and `WriteString` examine. -/
def textExtent (char : Nat → UInt8) (limit : Option Nat) : Nat → Nat → Nat
  | 0, i => i
  | rounds + 1, i =>
      if char i = 0 ∨ ¬ limit.all (i < ·) then i + 1
      else
        let bytes := Screen.countUTF8Size (char i)
        max (i + max 1 bytes) (textExtent char limit rounds (i + bytes))

theorem covers_textAccesses (char : Nat → UInt8) (limit : Option Nat) (rounds i : Nat) :
    Covers (textAccesses char limit rounds i) i (textExtent char limit rounds i) := by
  induction rounds generalizing i with
  | zero => exact covers_nil i
  | succ rounds ih =>
      rw [textAccesses, textExtent]
      split
      · exact covers_single i 1
      · exact (ih _).cons ⟨Nat.le_add_right _ _, by dsimp only; omega⟩ rfl rfl

/-- How far a string is examined. -/
theorem scan_le_iff {stop : UInt8 → Bool} :
    scan char stop rounds i ≤ n ↔ rounds ≤ n ∨ ∃ k < n, stop (char (i + k)) := by
  induction rounds generalizing i n with
  | zero => simp [scan]
  | succ rounds ih =>
      rw [scan]
      by_cases stops : stop (char i) = true
      · rw [if_pos stops]
        constructor
        · intro positive
          exact .inr ⟨0, positive, stops⟩
        · rintro (le | ⟨k, lt, -⟩) <;> omega
      · rw [if_neg stops]
        cases n with
        | zero => simp
        | succ n =>
            rw [Nat.add_le_add_iff_right, ih, Nat.add_le_add_iff_right]
            apply or_congr_right
            constructor
            · rintro ⟨k, lt, stops⟩
              exact ⟨k + 1, by omega, by rwa [← Nat.add_assoc, Nat.add_right_comm]⟩
            · rintro ⟨k, lt, stops'⟩
              cases k with
              | zero => exact absurd stops' stops
              | succ k => exact ⟨k, by omega, by rwa [Nat.add_right_comm, Nat.add_assoc]⟩

end Strings

namespace Syscall

open Screen Terminal

/-- The bytes behind a pointer are memory of applications. -/
def InUser (p n : Nat) : Prop :=
  n = 0 ∨ userBase ≤ p ∧ p + n ≤ 2 ^ 64

/-- A string with its terminating zero is in the memory of applications. -/
def StringInUser (mem : Mem) (p : Nat) : Prop :=
  userBase ≤ p ∧ ∃ n, p + n < 2 ^ 64 ∧ mem (p + n) = 0

/-- Accesses to all of the first bytes behind a pointer. -/
theorem user_iff_of_covers {spans : List Span} {e p : Nat} (lt : p < 2 ^ 64)
    (covers : Covers spans 0 e) :
    (∀ o, Touches spans o → userBase ≤ (p + o) % 2 ^ 64) ↔ InUser p e :=
  above_iff_of_covers (by decide) (by decide) lt covers

/-- A string is examined up to its terminating zero. -/
theorem string_iff {mem : Mem} {p : Nat} (lt : p < 2 ^ 64) :
    (∀ rounds, InUser p (scan (charAt mem p) (· = 0) rounds 0)) ↔ StringInUser mem p := by
  constructor
  · intro inside
    have lower : userBase ≤ p := by
      rcases inside 1 with nothing | ⟨lower, -⟩
      · have positive := scan_le_iff.mp nothing.le
        simp at positive
      · exact lower
    refine ⟨lower, ?_⟩
    -- so many rounds would lead past the end of the address space
    have fits : scan (charAt mem p) (· = 0) (2 ^ 64 - p + 1) 0 ≤ 2 ^ 64 - p := by
      rcases inside (2 ^ 64 - p + 1) with nothing | ⟨-, upper⟩
      · omega
      · omega
    rcases scan_le_iff.mp fits with many | ⟨k, inSpace, zero⟩
    · omega
    · refine ⟨k, by omega, ?_⟩
      rw [Nat.zero_add, decide_eq_true_eq, charAt, Nat.mod_eq_of_lt (by omega)] at zero
      exact zero
  · rintro ⟨lower, n, inSpace, zero⟩ rounds
    right
    refine ⟨lower, ?_⟩
    have fits : scan (charAt mem p) (· = 0) rounds 0 ≤ n + 1 := by
      refine scan_le_iff.mpr (.inr ⟨n, Nat.lt_succ_self n, ?_⟩)
      rw [Nat.zero_add, decide_eq_true_eq, charAt, Nat.mod_eq_of_lt inSpace]
      exact zero
    omega

/-! ## Descriptors -/

theorem covers_pipeWrite (write : PipeWrite) (rounds : Nat) (within : write.sentBytes ≤ write.len) :
    Covers (PipeWrite.accesses rounds write) write.sentBytes
      (min write.len (write.sentBytes + 16 * rounds)) := by
  induction rounds generalizing write with
  | zero =>
      rw [PipeWrite.accesses, Nat.mul_zero, add_zero, Nat.min_eq_right within]
      exact covers_nil _
  | succ rounds ih =>
      rw [PipeWrite.accesses]
      split
      · have sent : write.sendChunk.1.sentBytes = write.sentBytes + write.chunk := rfl
        have len : write.sendChunk.1.len = write.len := rfl
        have chunk : write.chunk = min (write.len - write.sentBytes) 16 := rfl
        refine (ih write.sendChunk.1 (by omega)).cons ⟨by omega, ?_⟩ rfl ?_
        · dsimp only
          omega
        · dsimp only
          omega
      · rw [Nat.min_eq_left (by omega), show write.len = write.sentBytes by omega]
        exact covers_nil _

theorem contiguous_readLoop (v : Fat.Volume) (len fuel total rdCluster rdClusterOff : Nat) :
    Contiguous total (v.readLoopAccesses len fuel total rdCluster rdClusterOff) := by
  induction fuel generalizing total rdCluster rdClusterOff with
  | zero => trivial
  | succ fuel ih =>
      rw [Fat.Volume.readLoopAccesses]
      split
      · split
        · trivial
        · refine ⟨rfl, ?_⟩
          dsimp only
          split
          · split
            · trivial
            · exact ih _ _ _
          · exact ih _ _ _
      · trivial

theorem contiguous_writeLoop (buf : Mem) (v : Fat.Volume) (len fuel total wrCluster wrClusterOff : Nat) :
    Contiguous total (Fat.Volume.writeLoopAccesses buf len fuel v total wrCluster wrClusterOff) := by
  induction fuel generalizing v total wrCluster wrClusterOff with
  | zero => trivial
  | succ fuel ih =>
      rw [Fat.Volume.writeLoopAccesses]
      split
      · split
        · trivial
        · split
          · trivial
          · exact ⟨rfl, ih _ _ _ _⟩
      · trivial

theorem covers_fileRead (v : Fat.Volume) (fd : Fat.FileDescriptor) (len rounds : Nat) :
    Covers (v.readAccesses fd len rounds) 0 (total (v.readAccesses fd len rounds)) := by
  have covers := covers_of_contiguous (contiguous_readLoop v
    (min len ((v.fileSize fd.fatEntry + 2 ^ 64 - fd.rdOff) % 2 ^ 64)) rounds 0
    (if fd.rdCluster = 0 then v.firstCluster fd.fatEntry else fd.rdCluster) fd.rdClusterOff)
  rw [Nat.zero_add] at covers
  exact covers

theorem covers_fileWrite (v : Fat.Volume) (fd : Fat.FileDescriptor) (buf : Mem) (len rounds : Nat) :
    Covers (v.writeAccesses fd buf len rounds) 0 (total (v.writeAccesses fd buf len rounds)) := by
  rw [Fat.Volume.writeAccesses]
  split
  · exact covers_nil 0
  · rename_i v' wrCluster started
    have covers := covers_of_contiguous
      (contiguous_writeLoop buf v' len rounds 0 wrCluster fd.wrClusterOff)
    rw [Nat.zero_add] at covers
    exact covers

theorem covers_pipeRead (fd : PipeDescriptor) (len : Nat) (received : List Message) :
    Covers (fd.readAccesses len received) 0 (total (fd.readAccesses len received)) := by
  have single (n : Nat) : Covers [⟨0, n⟩] 0 (total [⟨0, n⟩]) := by
    rw [total, List.map_singleton, List.sum_singleton]
    exact covers_first n
  rw [PipeDescriptor.readAccesses]
  split
  · exact single _
  · split
    · exact single _
    · exact covers_nil 0

section Calls

variable (ctx : CallContext) (rounds : Nat) (regs : Registers)

/-- The buffer is memory of applications as far as `Write` reads it. -/
def Descriptor.WriteAdmits (buf : UInt64) (len : Nat) : Descriptor → Prop
  | .terminal => ∀ rounds, InUser buf.toNat (textExtent (ctx.char buf) (some len) rounds 0)
  | .pipe _ => InUser buf.toNat len
  | .file fd => ∀ rounds,
      InUser buf.toNat (total (ctx.volume.writeAccesses fd (ctx.buffer buf) len rounds))

/-- The buffer is memory of applications as far as `Read` uses it. -/
def Descriptor.ReadAdmits (buf : UInt64) (len : Nat) : Descriptor → Prop
  | .terminal => ∀ c ∈ readKey ctx.received, ∀ rounds, InUser buf.toNat
      (max 1 (textExtent (fun i => if i = 0 then c else ctx.char buf i) (some 1) rounds 0))
  | .pipe fd => InUser buf.toNat (total (fd.readAccesses len ctx.received))
  | .file fd => ∀ rounds, InUser buf.toNat (total (ctx.volume.readAccesses fd len rounds))

/-- How far `OpenFile` looks at its path. -/
def pathExtent (path flags : UInt64) : Nat :=
  let char := ctx.char path
  let (compared, isStdin) := strcmp char stdinPath 0
  if isStdin then compared
  else
    let (examined, entry) := ctx.volume.findPath char rounds rounds 0 0
    let found := max compared examined
    if entry = some none ∧ hasCreat flags then max found (scan char (· = 0) rounds 0) else found

theorem covers_openFile (path flags : UInt64) :
    Covers (openFileAccesses ctx rounds path flags) 0 (pathExtent ctx rounds path flags) := by
  have both (n m : Nat) : Covers [⟨0, n⟩, ⟨0, m⟩] 0 (max n m) := (covers_first n).append (covers_first m)
  rw [openFileAccesses, pathExtent]
  dsimp only
  split
  · exact covers_first _
  · split
    · exact (both _ _).append (covers_first _)
    · rw [List.append_nil]
      exact both _ _

theorem writeAccesses_iff (buf : UInt64) (len : Nat) (fd : Descriptor) :
    (∀ rounds, ∀ o, Touches (fd.writeAccesses ctx rounds buf len) o →
        userBase ≤ (buf.toNat + o) % 2 ^ 64) ↔ fd.WriteAdmits ctx buf len := by
  have lt := buf.toNat_lt
  cases fd with
  | terminal => exact forall_congr' fun rounds => user_iff_of_covers lt (covers_textAccesses _ _ _ _)
  | pipe fd =>
      have covers (rounds : Nat) := covers_pipeWrite (.start (ctx.buffer buf) len) rounds (Nat.zero_le _)
      refine (forall_congr' fun rounds => user_iff_of_covers lt (covers rounds)).trans ?_
      constructor
      · intro inside
        have all := inside len
        rw [Nat.min_eq_left (by change len ≤ 0 + 16 * len; omega)] at all
        exact all
      · rintro (nothing | ⟨lower, upper⟩) rounds
        · left
          change min len _ = 0
          omega
        · refine .inr ⟨lower, ?_⟩
          change _ + min len _ ≤ _
          omega
  | file fd => exact forall_congr' fun rounds => user_iff_of_covers lt (covers_fileWrite _ _ _ _ _)

theorem readAccesses_iff (buf : UInt64) (len : Nat) (fd : Descriptor) :
    (∀ rounds, ∀ o, Touches (fd.readAccesses ctx rounds buf len) o →
        userBase ≤ (buf.toNat + o) % 2 ^ 64) ↔ fd.ReadAdmits ctx buf len := by
  have lt := buf.toNat_lt
  cases fd with
  | terminal =>
      rw [Descriptor.ReadAdmits]
      simp only [Descriptor.readAccesses, Terminal.readAccesses]
      cases readKey ctx.received with
      | none => simp
      | some c =>
          simp only [Option.mem_def, Option.some.injEq, forall_eq']
          apply forall_congr'
          intro rounds
          apply user_iff_of_covers lt
          exact (covers_textAccesses _ _ _ _).cons ⟨le_rfl, Nat.zero_le _⟩ rfl (by rw [Nat.zero_add])
  | pipe fd =>
      rw [Descriptor.ReadAdmits, ← user_iff_of_covers lt (covers_pipeRead fd len ctx.received)]
      exact ⟨fun inside => inside 0, fun inside _ => inside⟩
  | file fd => exact forall_congr' fun rounds => user_iff_of_covers lt (covers_fileRead _ _ _ _)

end Calls

/-! ## Events -/

theorem touches_eventAccesses {events : List AppEvent} {o : Nat} :
    Touches (eventAccesses events) o ↔
      ∃ i event, events[i]? = some event ∧ ∃ field ∈ event.fields,
        AppEvent.size * i + field.start ≤ o ∧ o < AppEvent.size * i + field.start + field.count := by
  simp only [Touches, eventAccesses, List.mem_flatMap, List.mem_map, Prod.exists,
    List.mem_zipIdx_iff_getElem?]
  constructor
  · rintro ⟨s, ⟨event, i, found, field, member, rfl⟩, inside⟩
    exact ⟨i, event, found, field, member, inside⟩
  · rintro ⟨i, event, found, field, member, inside⟩
    exact ⟨_, ⟨event, i, found, field, member, rfl⟩, inside⟩

/-- The fields of an event begin with its type and end where the event does. -/
theorem fields_spec (event : AppEvent) :
    ⟨0, 4⟩ ∈ event.fields ∧ (∃ last ∈ event.fields, 0 < last.count ∧
      last.start + last.count = event.extent) ∧ event.extent ≤ AppEvent.size ∧
      ∀ field ∈ event.fields, field.start + field.count ≤ event.extent := by
  cases event <;> simp [AppEvent.fields, AppEvent.extent, AppEvent.size]

/-- The events are written to memory of applications exactly if they have room there. -/
theorem events_iff {events : List AppEvent} {p : Nat} (lt : p < 2 ^ 64) :
    (∀ o, Touches (eventAccesses events) o → userBase ≤ (p + o) % 2 ^ 64) ↔
      ∀ i event, events[i]? = some event →
        userBase ≤ p ∧ p + AppEvent.size * i + event.extent ≤ 2 ^ 64 := by
  rw [above_iff (by decide) lt]
  · constructor
    · intro inside i event found
      rcases (fields_spec event).2.1 with ⟨last, member, positive, ends⟩
      have atEnd := inside (AppEvent.size * i + last.start + last.count - 1)
        (touches_eventAccesses.mpr ⟨i, event, found, last, member, by omega, by omega⟩)
      exact ⟨atEnd.1, by omega⟩
    · intro room o touched
      rcases touches_eventAccesses.mp touched with ⟨i, event, found, field, member, -, before⟩
      have within := (fields_spec event).2.2.2 field member
      rcases room i event found with ⟨lower, upper⟩
      exact ⟨lower, by omega⟩
  · -- the type of this event, or of the one before it, is not far away
    intro o touched after
    rcases touches_eventAccesses.mp touched with ⟨i, event, found, field, member, from_, before⟩
    rcases fields_spec event with ⟨type, -, small, within⟩
    have inEvent := within field member
    have near : 32 ≤ userBase := by decide
    have size : AppEvent.size = 32 := rfl
    rw [size] at from_ before small
    by_cases atType : o = 32 * i
    · have previous : i - 1 < events.length := by
        have := (List.getElem?_eq_some_iff.mp found).1
        omega
      have type' := (fields_spec (events[i - 1])).1
      refine ⟨32 * (i - 1), touches_eventAccesses.mpr ⟨i - 1, _,
        List.getElem?_eq_getElem previous, _, type', le_rfl,
        Nat.lt_add_of_pos_right (by decide)⟩, ?_, ?_⟩
      · omega
      · omega
    · exact ⟨32 * i, touches_eventAccesses.mpr ⟨i, event, found, _, type, le_rfl,
        Nat.lt_add_of_pos_right (by decide)⟩, by omega, by omega⟩

/-! ## Calls -/

/-- The entry of a list with a number. -/
theorem find?_zipIdx {α : Type} (l : List α) (start n : Nat) :
    ((l.zipIdx start).find? fun entry => start + n = entry.2).map Prod.fst = l[n]? := by
  induction l generalizing start n with
  | nil => rfl
  | cons a l ih =>
      rw [List.zipIdx_cons, List.find?_cons]
      cases n with
      | zero => simp
      | succ n =>
          rw [decide_eq_false (by dsimp only; omega), List.getElem?_cons_succ, ← ih (start + 1) n]
          simp only [Nat.add_right_comm start 1 n, Nat.add_assoc]

/-- The number of the call counts modulo the number of words in 32 bits of addresses. -/
theorem target_eq {table : Nat} (room : table + 8 * syscallTable.length ≤ 2 ^ 32) (rax : UInt64) :
    target table rax = syscallTable[rax.toNat % 2 ^ 29]? := by
  have mask : (0x7fffffff : UInt64).toNat = 2 ^ 31 - 1 := by decide
  have masked : (rax &&& 0x7fffffff).toNat = rax.toNat % 2 ^ 31 := by
    rw [UInt64.toNat_and, mask, Nat.and_two_pow_sub_one_eq_mod]
  have length : syscallTable.length = 16 := rfl
  rw [length] at room
  rw [target, ← find?_zipIdx syscallTable 0]
  congr 1
  apply List.find?_congr
  intro entry member
  have inTable := List.snd_lt_of_mem_zipIdx member
  rw [length] at inTable
  rw [operand, masked, decide_eq_decide]
  omega

variable (ctx : CallContext) (regs : Registers)

/-- The bytes behind the pointer are memory of applications as far as the handler uses them. -/
def Admits : Handler → Prop
  | .logString => isLogLevel regs.arg1 → StringInUser ctx.mem regs.arg2.toNat
  | .putString => ¬ 1024 < regs.arg3 → ∀ fd ∈ ctx.file regs.arg1.toNat,
      fd.WriteAdmits ctx regs.arg2 regs.arg3.toNat
  | .openWindow => StringInUser ctx.mem regs.arg5.toNat
  | .winWriteString => ∀ _layer ∈ ctx.layers.findLayer (regs.arg1.toNat % 2 ^ 32), ∀ rounds,
      InUser regs.arg5.toNat (textExtent (ctx.char regs.arg5) none rounds 0)
  | .readEvent => ¬ regs.arg1 < 0x8000000000000000 →
      ∀ i event, (readEvents regs.arg2.toNat [] ctx.received)[i]? = some event →
        userBase ≤ regs.arg1.toNat ∧
          regs.arg1.toNat + AppEvent.size * i + event.extent ≤ 2 ^ 64
  | .openFile => ∀ rounds, InUser regs.arg1.toNat (pathExtent ctx rounds regs.arg1 regs.arg2)
  | .readFile => ∀ fd ∈ ctx.fileOfInt regs.arg1, fd.ReadAdmits ctx regs.arg2 regs.arg3.toNat
  | .mapFile => (ctx.fileOfInt regs.arg1).isSome → InUser regs.arg2.toNat 8
  | .exit | .winFillRectangle | .getCurrentTick | .winRedraw | .winDrawLine | .closeWindow
  | .createTimer | .demandPages => True

theorem readFile_iff (buf : UInt64) (len : Nat) (file : Option Descriptor) :
    (∀ rounds, ∀ o, Touches (file.elim [] fun fd => fd.readAccesses ctx rounds buf len) o →
        userBase ≤ (buf.toNat + o) % 2 ^ 64) ↔ ∀ fd ∈ file, fd.ReadAdmits ctx buf len := by
  cases file with
  | none => simp
  | some fd =>
      simp only [Option.mem_def, Option.some.injEq, forall_eq']
      exact readAccesses_iff ctx buf len fd

theorem mapFile_iff (fileSize : UInt64) (file : Option Descriptor) :
    (∀ _rounds : Nat, ∀ o, Touches (file.elim [] fun _ => [⟨0, 8⟩]) o → userBase ≤ (fileSize.toNat + o) % 2 ^ 64) ↔
      (file.isSome → InUser fileSize.toNat 8) := by
  cases file with
  | none => simp
  | some fd =>
      rw [forall_const, Option.isSome_some, forall_prop_of_true rfl]
      exact user_iff_of_covers fileSize.toNat_lt (covers_first 8)

theorem accessesUser_iff (handler : Handler) :
    AccessesUser ctx regs handler ↔ Admits ctx regs handler := by
  have string (pointer : UInt64) :
      (∀ rounds o, Touches (strlenAccesses (ctx.char pointer) rounds) o →
        userBase ≤ (pointer.toNat + o) % 2 ^ 64) ↔ StringInUser ctx.mem pointer.toNat := by
    rw [← string_iff pointer.toNat_lt]
    exact forall_congr' fun rounds => user_iff_of_covers pointer.toNat_lt (covers_first _)
  cases handler with
  | logString =>
      unfold AccessesUser accesses pointer Admits
      dsimp only
      split
      · rename_i level
        rw [string, forall_prop_of_true level]
      · rename_i level
        simp [level]
  | putString =>
      unfold AccessesUser accesses pointer Admits
      dsimp only
      split
      · rename_i long
        simp [long]
      · rename_i short
        rw [forall_prop_of_true short]
        cases ctx.file regs.arg1.toNat with
        | none => simp
        | some fd =>
            simp only [Option.mem_def, Option.some.injEq, forall_eq']
            exact writeAccesses_iff ctx _ _ fd
  | openWindow => exact string regs.arg5
  | winWriteString =>
      unfold AccessesUser accesses pointer Admits
      dsimp only
      cases ctx.layers.findLayer (regs.arg1.toNat % 2 ^ 32) with
      | none => simp
      | some layer =>
          simp only [Option.mem_def, Option.some.injEq, forall_eq']
          exact forall_congr' fun rounds =>
            user_iff_of_covers regs.arg5.toNat_lt (covers_textAccesses _ _ _ _)
  | readEvent =>
      unfold AccessesUser accesses pointer Admits
      dsimp only
      split
      · rename_i low
        simp [low]
      · rename_i high
        rw [forall_prop_of_true high, forall_const]
        exact events_iff regs.arg1.toNat_lt
  | openFile =>
      exact forall_congr' fun rounds =>
        user_iff_of_covers regs.arg1.toNat_lt (covers_openFile ctx rounds _ _)
  | readFile => exact readFile_iff ctx regs.arg2 regs.arg3.toNat _
  | mapFile => exact mapFile_iff regs.arg2 _
  | _ => exact iff_of_true (fun rounds o touches => absurd touches (not_touches_nil o)) trivial

/-- A call is confined exactly if its number belongs to a handler and the pointer is good
for this one. -/
theorem confined_iff {table : Nat} (room : table + 8 * syscallTable.length ≤ 2 ^ 32) :
    Confined ctx regs table ↔
      ∃ handler, syscallTable[regs.rax.toNat % 2 ^ 29]? = some handler ∧ Admits ctx regs handler := by
  rw [Confined, target_eq room]
  simp only [accessesUser_iff]

/-- A task with one file, the terminal. -/
def oneFile : CallContext where
  mem := fun _ => 0
  files := [some .terminal]
  volume := ⟨⟨512, 1, 1, 1, 16, 1, 2⟩, fun _ => 0⟩
  layers := DrawCall.smallManager
  received := []

/-- A call with number `rax` of the file 0 and a pointer. -/
def fileCall (rax pointer : UInt64) : Registers where
  rax := rax
  rdi := 0
  rsi := pointer
  rdx := 1
  r10 := 0
  r8 := 0
  r9 := 0

theorem confined_mapFile : Confined oneFile (fileCall 0x8000000f 0xffff800000001000) 0x100000 := by
  refine (confined_iff _ _ (by decide)).mpr ⟨.mapFile, rfl, fun _ => ?_⟩
  exact .inr ⟨by decide, by decide⟩

/-- `MapFile` writes the size of the file into the kernel, and a number without a handler
calls what lies behind the table. -/
theorem not_confined_mapFile :
    ¬ Confined oneFile (fileCall 0x8000000f 0x100000) 0x100000 ∧
      ¬ Confined oneFile (fileCall 0x80000010 0) 0x100000 := by
  constructor
  · rintro ⟨handler, called, user⟩
    rw [target_eq (by decide)] at called
    cases called
    have first := user 0 0 ⟨⟨0, 8⟩, List.mem_singleton_self _, le_rfl, by decide⟩
    exact absurd first (by decide)
  · rintro ⟨handler, called, -⟩
    rw [target_eq (by decide)] at called
    cases called

end Syscall

end Mikanos
