import Mikanos.Loader.Launch
import Mikanos.Memory.CString
import Mikanos.Terminal.Output

/-!
# Argument vectors

`MakeArgVector` takes a string apart by writing NULs over the white space behind its words, and
copies the words to a buffer, one behind the other.  The strings that it is called with are in the
line buffer of the terminal.
-/

namespace Mikanos.Terminal

open Memory
open Loader.Launcher (isspace arguments)

/-- The arrays that `MakeArgVector` writes to, with its counters.  An element of `argv` is the
position in `argbuf` that it points to. -/
structure ArgVector where
  argc : Nat
  argbufIndex : Nat
  argv : Nat → Option Nat
  argbuf : Nat → UInt8

/-- `strcpy`, to a position of an array. -/
def strcpy (buffer : Nat → UInt8) (p : Nat) (s : List UInt8) : Nat → UInt8 :=
  fun j => if p ≤ j ∧ j ≤ p + s.length then s.getD (j - p) 0 else buffer j

section

variable (argvLen argbufLen : Nat)

/-- `push_to_argv`. -/
def pushToArgv (s : List UInt8) (v : ArgVector) : ArgVector × Error :=
  if argvLen ≤ v.argc ∨ argbufLen ≤ v.argbufIndex then (v, .full)
  else
    ({ argc := v.argc + 1
       argbufIndex := v.argbufIndex + s.length + 1
       argv := Function.update v.argv v.argc (some v.argbufIndex)
       argbuf := strcpy v.argbuf v.argbufIndex s }, .success)

/-- The loop of `MakeArgVector`, with the line buffer that it changes; `none` if it does not end
after the rounds. -/
def splitArgs : (rounds : Nat) → (linebuf : List UInt8) → (p : Nat) → ArgVector →
    Option (List UInt8 × ArgVector × Error)
  | 0, _, _, _ => none
  | rounds + 1, linebuf, p, v =>
      let p := skip isspace linebuf p
      if linebuf.getD p 0 = 0 then some (linebuf, v, .success)
      else
        let arg := p
        let p := skip (fun c => c ≠ 0 && !isspace c) linebuf p
        let isEnd := linebuf.getD p 0 = 0
        let linebuf := linebuf.set p 0
        match pushToArgv argvLen argbufLen (cstring (linebuf.drop arg)) v with
        | (v, .success) =>
            if isEnd then some (linebuf, v, .success) else splitArgs rounds linebuf (p + 1) v
        | (v, err) => some (linebuf, v, err)

/-- `MakeArgVector`. -/
def makeArgVector (linebuf : List UInt8) (command : Nat) (firstArg : Option Nat)
    (argv : Nat → Option Nat) (argbuf : Nat → UInt8) : Option (List UInt8 × ArgVector × Error) :=
  match pushToArgv argvLen argbufLen (cstring (linebuf.drop command)) ⟨0, 0, argv, argbuf⟩ with
  | (v, .success) =>
      match firstArg with
      | none => some (linebuf, v, .success)
      | some p => splitArgs argvLen argbufLen (linebuf.length + 1) linebuf p v
  | (v, err) => some (linebuf, v, err)

/-- Strings are pushed until one is refused. -/
def pushAll : List (List UInt8) → ArgVector → ArgVector × Error
  | [], v => (v, .success)
  | s :: rest, v =>
      match pushToArgv argvLen argbufLen s v with
      | (v, .success) => pushAll rest v
      | (v, err) => (v, err)

end

/-! ## Words -/

/-- The maximal runs of characters that are not white space. -/
def words (text : List UInt8) : List (List UInt8) :=
  (text.splitOnP isspace).filter (· ≠ [])

theorem words_cons_of_isspace {c : UInt8} (space : isspace c = true) (rest : List UInt8) :
    words (c :: rest) = words rest := by
  rw [words, List.splitOnP_cons_eq_if_modifyHead, if_pos space, List.filter_cons_of_neg (by simp)]
  rfl

theorem words_dropWhile (text : List UInt8) : words (text.dropWhile isspace) = words text := by
  induction text with
  | nil => rfl
  | cons c rest ih =>
      rw [List.dropWhile_cons]
      split
      · rename_i space
        rw [ih, words_cons_of_isspace space]
      · rfl

section

variable {run : List UInt8} (nonempty : run ≠ []) (all : ∀ c ∈ run, isspace c = false)

include nonempty all

theorem words_run : words run = [run] := by
  rw [words, List.splitOnP_eq_singleton all, List.filter_cons_of_pos (by simpa using nonempty)]
  rfl

theorem words_run_append {c : UInt8} (space : isspace c = true) (rest : List UInt8) :
    words (run ++ c :: rest) = run :: words rest := by
  rw [words, List.splitOnP_append_cons_of_forall_mem all c space,
    List.filter_cons_of_pos (by simpa using nonempty)]
  rfl

end

/-- The first word of a text, and what is behind it. -/
theorem words_cases (text : List UInt8) :
    (text.dropWhile isspace = [] ∧ words text = []) ∨
      ∃ run rest, text.dropWhile isspace = run ++ rest ∧ run ≠ [] ∧
        (∀ c ∈ run, isspace c = false) ∧
        ((rest = [] ∧ words text = [run]) ∨
          ∃ c rest', rest = c :: rest' ∧ isspace c = true ∧ words text = run :: words rest') := by
  rw [← words_dropWhile text]
  cases isText : text.dropWhile isspace with
  | nil => exact Or.inl ⟨rfl, rfl⟩
  | cons first rest =>
      right
      have firstOther : isspace first = false := by
        have head := List.head?_dropWhile_not isspace text
        rw [isText] at head
        exact head
      let run := (first :: rest).takeWhile (!isspace ·)
      have parts : run ++ (first :: rest).dropWhile (!isspace ·) = first :: rest :=
        List.takeWhile_append_dropWhile
      have nonempty : run ≠ [] := by
        simp only [run, List.takeWhile_cons, firstOther]
        exact List.cons_ne_nil _ _
      have others : ∀ c ∈ run, isspace c = false := fun c member => by
        simpa using List.mem_takeWhile_imp member
      refine ⟨run, _, parts.symm, nonempty, others, ?_⟩
      cases behindRun : (first :: rest).dropWhile (!isspace ·) with
      | nil =>
          rw [behindRun, List.append_nil] at parts
          exact Or.inl ⟨rfl, by rw [← parts, words_run nonempty others]⟩
      | cons c rest' =>
          have space : isspace c = true := by
            have head := List.head?_dropWhile_not (!isspace ·) (first :: rest)
            rw [behindRun] at head
            simpa using head
          rw [behindRun] at parts
          exact Or.inr ⟨c, rest', rfl, space, by rw [← parts, words_run_append nonempty others space]⟩

/-- The characters of a word are characters of the text. -/
theorem mem_of_mem_words {text word : List UInt8} {c : UInt8} (member : word ∈ words text)
    (inWord : c ∈ word) : c ∈ text := by
  generalize isLength : text.length = n
  induction n using Nat.strong_induction_on generalizing text with
  | _ n ih =>
      rcases words_cases text with ⟨-, noWords⟩ | ⟨run, rest, isText, nonempty, others, ends⟩
      · rw [noWords] at member
        cases member
      · have trimmed (inRest : c ∈ run ++ rest) : c ∈ text :=
          (List.dropWhile_suffix isspace).subset (isText ▸ inRest)
        have count := congrArg List.length isText
        have le := (List.dropWhile_suffix (l := text) isspace).length_le
        rcases ends with ⟨rfl, one⟩ | ⟨d, rest', rfl, -, more⟩
        · rw [one, List.mem_singleton] at member
          exact trimmed (List.mem_append_left _ (member ▸ inWord))
        · rw [more] at member
          rcases List.mem_cons.mp member with rfl | member
          · exact trimmed (List.mem_append_left _ inWord)
          · rw [List.length_append, List.length_cons] at count
            have later := ih rest'.length (by omega) member rfl
            exact trimmed (List.mem_append_right _ (List.mem_cons_of_mem d later))

/-- The loop of `MakeArgVector` finds the words, also as it has been modelled for `LoadApp`. -/
theorem arguments_eq_words {fuel : Nat} {text : List UInt8} (enough : text.length < fuel) :
    arguments fuel text = words text := by
  induction fuel generalizing text with
  | zero => exact absurd enough (Nat.not_lt_zero _)
  | succ fuel ih =>
      rw [arguments]
      rcases words_cases text with ⟨isEmpty, noWords⟩ | ⟨run, rest, isText, nonempty, others, ends⟩
      · rw [isEmpty, noWords]
      · have count := congrArg List.length isText
        have le := (List.dropWhile_suffix (l := text) isspace).length_le
        have stops : rest.takeWhile (!isspace ·) = [] ∧ rest.dropWhile (!isspace ·) = rest := by
          rcases ends with ⟨rfl, -⟩ | ⟨c, rest', rfl, space, -⟩
          · exact ⟨rfl, rfl⟩
          · rw [List.takeWhile_cons_of_neg (by simp [space]),
              List.dropWhile_cons_of_neg (by simp [space])]
            exact ⟨rfl, rfl⟩
        have inRun : ∀ c ∈ run, (!isspace c) = true := fun c member => by simp [others c member]
        rcases List.exists_cons_of_ne_nil nonempty with ⟨first, run', isRun⟩
        rw [isText, isRun, List.cons_append]
        simp only
        rw [← List.cons_append, ← isRun, List.takeWhile_append_of_pos inRun,
          List.dropWhile_append_of_pos inRun, stops.1, stops.2, List.append_nil]
        rw [List.length_append] at count
        rcases ends with ⟨rfl, one⟩ | ⟨c, rest', rfl, -, more⟩
        · rw [one, List.tail_nil]
          cases fuel <;> rfl
        · rw [List.length_cons] at count
          rw [more, List.tail_cons, ih (by omega)]

/-! ## The loop -/

variable {argvLen argbufLen : Nat}

/-- NULs are written to a line buffer, one after the other. -/
def writeNuls (cuts : List Nat) (linebuf : List UInt8) : List UInt8 :=
  cuts.foldl (fun linebuf i => linebuf.set i 0) linebuf

/-- The loop pushes the words, and writes NULs to the string only. -/
theorem splitArgs_eq {rounds : Nat} {linebuf text : List UInt8} {p : Nat} (v : ArgVector)
    (stringAt : StringAt linebuf p text) (enough : text.length < rounds) :
    ∃ cuts, (∀ i ∈ cuts, i ≤ p + text.length) ∧
      splitArgs argvLen argbufLen rounds linebuf p v =
        some (writeNuls cuts linebuf, pushAll argvLen argbufLen (words text) v) := by
  induction rounds generalizing linebuf text p v with
  | zero => exact absurd enough (Nat.not_lt_zero _)
  | succ rounds ih =>
      have trimmedAt := stringAt.skip (rfl : isspace 0 = false)
      have whereEnds := stringAt.skip_add_length (rfl : isspace 0 = false)
      rw [splitArgs]
      simp only
      rcases words_cases text with ⟨isEmpty, noWords⟩ | ⟨run, rest, isText, nonempty, others, ends⟩
      · rw [isEmpty] at trimmedAt
        have atEnd : linebuf.getD (skip isspace linebuf p) 0 = 0 := trimmedAt.getD_eq 0 le_rfl
        rw [if_pos atEnd, noWords]
        exact ⟨[], nofun, rfl⟩
      · rw [isText] at trimmedAt whereEnds
        rw [List.length_append] at whereEnds
        generalize skip isspace linebuf p = arg at trimmedAt whereEnds
        have notNul (c : UInt8) (member : c ∈ run ++ rest) : c ≠ 0 :=
          fun zero => trimmedAt.noNul (zero ▸ member)
        have notEnd : linebuf.getD arg 0 ≠ 0 := by
          rcases List.exists_cons_of_ne_nil nonempty with ⟨c, run', rfl⟩
          have atArg : linebuf.getD arg 0 = c := trimmedAt.getD_eq 0 (Nat.zero_le _)
          rw [atArg]
          exact notNul c List.mem_cons_self
        have stops : rest.takeWhile (fun c => c ≠ 0 && !isspace c) = [] := by
          rcases ends with ⟨rfl, -⟩ | ⟨c, rest', rfl, space, -⟩
          · rfl
          · rw [List.takeWhile_cons_of_neg (by simp [space])]
        have word : (run ++ rest).takeWhile (fun c => c ≠ 0 && !isspace c) = run := by
          rw [List.takeWhile_append_of_pos, stops, List.append_nil]
          intro c member
          simp [others c member, notNul c (List.mem_append_left _ member)]
        have behindWord : skip (fun c => c ≠ 0 && !isspace c) linebuf arg = arg + run.length := by
          rw [trimmedAt.skip_eq rfl, word]
        have pushed : cstring ((linebuf.set (arg + run.length) 0).drop arg) = run := by
          rw [(trimmedAt.set_take run.length).cstring_drop, List.take_left]
        have one (i : Nat) (member : i ∈ [arg + run.length]) : i ≤ p + text.length := by
          rw [List.mem_singleton.mp member]
          omega
        rw [if_neg notEnd, behindWord, pushed]
        rcases ends with ⟨rfl, onlyOne⟩ | ⟨c, rest', rfl, space, more⟩
        · have isEnd : linebuf.getD (arg + run.length) 0 = 0 := by
            rw [trimmedAt.getD_eq run.length (by simp), List.append_nil]
            exact List.getD_eq_default _ _ le_rfl
          rw [onlyOne, pushAll]
          rcases pushToArgv argvLen argbufLen run v with ⟨v', err⟩
          cases err with
          | success =>
              simp only [if_pos isEnd]
              exact ⟨_, one, rfl⟩
          | _ => exact ⟨_, one, rfl⟩
        · have notEnd' : linebuf.getD (arg + run.length) 0 ≠ 0 := by
            rw [trimmedAt.getD_eq run.length (by simp), List.getD_append_right _ _ _ _ le_rfl,
              Nat.sub_self]
            exact notNul c (List.mem_append_right _ List.mem_cons_self)
          have next : StringAt (linebuf.set (arg + run.length) 0) (arg + run.length + 1) rest' := by
            have later := trimmedAt.drop (k := run.length + 1) (by simp)
            rw [← List.drop_drop, List.drop_left] at later
            exact later.set_before (Nat.lt_succ_self _)
          have shorter : rest'.length < rounds := by
            have count := congrArg List.length isText
            have le := (List.dropWhile_suffix (l := text) isspace).length_le
            rw [List.length_append, List.length_cons] at count
            omega
          rw [more, pushAll]
          rcases pushToArgv argvLen argbufLen run v with ⟨v', err⟩
          cases err with
          | success =>
              simp only [if_neg notEnd']
              rw [List.length_cons] at whereEnds
              rcases ih v' next shorter with ⟨cuts, inString, result⟩
              refine ⟨(arg + run.length) :: cuts, fun i member => ?_, result⟩
              rcases List.mem_cons.mp member with rfl | member
              · omega
              · have le := inString i member
                omega
          | _ => exact ⟨_, one, rfl⟩

/-! ## Pushing -/

/-- The bytes that strings take, with their NULs. -/
def bytes (strs : List (List UInt8)) : Nat :=
  (strs.map fun s => s.length + 1).sum

@[simp]
theorem bytes_append (strs strs' : List (List UInt8)) :
    bytes (strs ++ strs') = bytes strs + bytes strs' := by
  rw [bytes, List.map_append, List.sum_append]
  rfl

@[simp]
theorem bytes_singleton (s : List UInt8) : bytes [s] = s.length + 1 :=
  rfl

/-- The words of a text take no more bytes than the text. -/
theorem bytes_words_le (text : List UInt8) : bytes (words text) ≤ text.length + 1 := by
  generalize isLength : text.length = n
  induction n using Nat.strong_induction_on generalizing text with
  | _ n ih =>
      rcases words_cases text with ⟨-, noWords⟩ | ⟨run, rest, isText, nonempty, others, ends⟩
      · rw [noWords]
        exact Nat.zero_le _
      · have count := congrArg List.length isText
        have le := (List.dropWhile_suffix (l := text) isspace).length_le
        rw [List.length_append] at count
        rcases ends with ⟨rfl, one⟩ | ⟨c, rest', rfl, -, more⟩
        · rw [one, bytes_singleton]
          omega
        · rw [List.length_cons] at count
          have later := ih rest'.length (by omega) rest' rfl
          rw [more, ← List.singleton_append, bytes_append, bytes_singleton]
          omega

/-- The strings have been pushed, one behind the other, and nothing else has been changed. -/
structure Holds (argv₀ : Nat → Option Nat) (argbuf₀ : Nat → UInt8) (strs : List (List UInt8))
    (v : ArgVector) : Prop where
  argc : v.argc = strs.length
  argbufIndex : v.argbufIndex = bytes strs
  pointers : ∀ i < strs.length, v.argv i = some (bytes (strs.take i))
  strings : ∀ i (inStrs : i < strs.length), ∀ j ≤ strs[i].length,
    v.argbuf (bytes (strs.take i) + j) = strs[i].getD j 0
  argvKept : ∀ i, strs.length ≤ i → v.argv i = argv₀ i
  argbufKept : ∀ j, bytes strs ≤ j → v.argbuf j = argbuf₀ j

theorem bytes_take_le (strs : List (List UInt8)) {i : Nat} (inStrs : i < strs.length) :
    bytes (strs.take i) + strs[i].length + 1 ≤ bytes strs := by
  have parts := congrArg bytes (List.take_append_drop i strs)
  rw [List.drop_eq_getElem_cons inStrs, ← List.singleton_append, bytes_append, bytes_append,
    bytes_singleton] at parts
  omega

section

variable {argv₀ : Nat → Option Nat} {argbuf₀ : Nat → UInt8} {strs : List (List UInt8)}
  {s : List UInt8} {v : ArgVector}

/-- A string that is pushed is behind the others. -/
theorem Holds.push (holds : Holds argv₀ argbuf₀ strs v) (room : strs.length < argvLen)
    (fits : bytes strs < argbufLen) :
    (pushToArgv argvLen argbufLen s v).2 = .success ∧
      Holds argv₀ argbuf₀ (strs ++ [s]) (pushToArgv argvLen argbufLen s v).1 := by
  have accepted : ¬ (argvLen ≤ v.argc ∨ argbufLen ≤ v.argbufIndex) := by
    rw [holds.argc, holds.argbufIndex]
    omega
  rw [pushToArgv, if_neg accepted]
  refine ⟨rfl, ?_⟩
  have length : (strs ++ [s]).length = strs.length + 1 := List.length_append
  have total : bytes (strs ++ [s]) = bytes strs + s.length + 1 := by
    rw [bytes_append, bytes_singleton]
    rfl
  constructor
  · rw [length, ← holds.argc]
  · rw [total, ← holds.argbufIndex]
  · intro i inStrs
    rw [length] at inStrs
    rw [List.take_append_of_le_length (by omega)]
    simp only [Function.update_apply, holds.argc, holds.argbufIndex]
    split
    · rename_i isLast
      rw [isLast, List.take_length]
    · exact holds.pointers i (by omega)
  · intro i inStrs j le
    rw [List.take_append_of_le_length (by omega)]
    simp only [strcpy, holds.argbufIndex]
    by_cases isLast : i = strs.length
    · subst isLast
      rw [List.getElem_concat_length rfl] at le ⊢
      rw [List.take_length, if_pos ⟨Nat.le_add_right _ _, Nat.add_le_add_left le _⟩,
        Nat.add_sub_cancel_left]
    · have inOld : i < strs.length := by omega
      rw [List.getElem_append_left inOld] at le ⊢
      have before := bytes_take_le strs inOld
      rw [if_neg (by omega)]
      exact holds.strings i inOld j le
  · intro i beyond
    rw [length] at beyond
    simp only [Function.update_apply, holds.argc]
    rw [if_neg (by omega)]
    exact holds.argvKept i (by omega)
  · intro j beyond
    rw [total] at beyond
    simp only [strcpy, holds.argbufIndex]
    rw [if_neg (by omega)]
    exact holds.argbufKept j (by omega)

/-- A string is refused when there is no room in `argv`. -/
theorem Holds.full (holds : Holds argv₀ argbuf₀ strs v) (noRoom : argvLen ≤ strs.length) :
    pushToArgv argvLen argbufLen s v = (v, .full) := by
  rw [pushToArgv, if_pos (Or.inl (holds.argc ▸ noRoom))]

/-- All strings are pushed if there is room in `argv`, or else as many as there is room for. -/
theorem Holds.pushAll {rest : List (List UInt8)} (holds : Holds argv₀ argbuf₀ strs v)
    (within : strs.length ≤ argvLen) (fits : bytes (strs ++ rest) ≤ argbufLen) :
    ∃ pushed, pushed <+: rest ∧ (strs ++ pushed).length ≤ argvLen ∧
      Holds argv₀ argbuf₀ (strs ++ pushed) (pushAll argvLen argbufLen rest v).1 ∧
      ((pushed = rest ∧ (pushAll argvLen argbufLen rest v).2 = .success) ∨
        (argvLen < (strs ++ rest).length ∧ (pushAll argvLen argbufLen rest v).2 = .full)) := by
  induction rest generalizing strs v with
  | nil =>
      refine ⟨[], List.nil_prefix, ?_, ?_, Or.inl ⟨rfl, rfl⟩⟩
      · rwa [List.append_nil]
      · rwa [List.append_nil]
  | cons s rest ih =>
      have regroup : strs ++ s :: rest = (strs ++ [s]) ++ rest := by simp
      rw [Terminal.pushAll]
      by_cases room : strs.length < argvLen
      · rw [regroup] at fits
        have inBuffer : bytes strs < argbufLen := by
          rw [bytes_append, bytes_append, bytes_singleton] at fits
          omega
        rcases @Holds.push argvLen argbufLen argv₀ argbuf₀ strs s v holds room inBuffer with
          ⟨success, later⟩
        rcases result : pushToArgv argvLen argbufLen s v with ⟨v', err⟩
        rw [result] at success later
        cases (success : err = .success)
        rcases ih later (by rw [List.length_append]; exact room) fits with
          ⟨pushed, isPrefix, short, holds', ends⟩
        refine ⟨s :: pushed, List.prefix_cons_inj s |>.mpr isPrefix, ?_, ?_, ?_⟩
        · rw [List.append_cons]
          exact short
        · rw [List.append_cons]
          exact holds'
        · rcases ends with ⟨all, success⟩ | ⟨tooLong, full⟩
          · exact Or.inl ⟨by rw [all], success⟩
          · exact Or.inr ⟨regroup ▸ tooLong, full⟩
      · rw [holds.full (by omega)]
        refine ⟨[], List.nil_prefix, ?_, ?_, Or.inr ⟨?_, rfl⟩⟩
        · rwa [List.append_nil]
        · rwa [List.append_nil]
        · rw [List.length_append, List.length_cons]
          omega

end

/-! ## `MakeArgVector` -/

/-- What `MakeArgVector` is called with: two strings in the line buffer, or only one. -/
structure ArgStrings where
  linebuf : List UInt8
  size : linebuf.length = 128
  command : Nat
  commandText : List UInt8
  commandAt : StringAt linebuf command commandText
  /-- the position of the argument string, and its text -/
  firstArg : Option (Nat × List UInt8)
  firstArgAt : ∀ arg ∈ firstArg, StringAt linebuf arg.1 arg.2

/-- The strings of the argument vector. -/
def ArgStrings.strs (a : ArgStrings) : List (List UInt8) :=
  a.commandText :: a.firstArg.elim [] fun arg => words arg.2

/-- The vector consists of these strings, with their NULs, in the arrays and apart from each
other. -/
structure IsArgVector (argvLen argbufLen : Nat) (strs : List (List UInt8)) (v : ArgVector) :
    Prop where
  argc : v.argc = strs.length
  inArgv : v.argc ≤ argvLen
  strings : ∀ i (inStrs : i < strs.length), ∃ p, v.argv i = some p ∧
    TextAt (fun j => v.argbuf (p + j)) strs[i] ∧ p + strs[i].length < argbufLen
  disjoint : ∀ i (inStrs : i < strs.length), ∀ j p q, i < j → j < strs.length →
    v.argv i = some p → v.argv j = some q → p + strs[i].length < q

/-- Strings that have been pushed make up the vector. -/
theorem Holds.isArgVector {argv₀ : Nat → Option Nat} {argbuf₀ : Nat → UInt8}
    {strs : List (List UInt8)} {v : ArgVector} (holds : Holds argv₀ argbuf₀ strs v)
    (within : strs.length ≤ argvLen) (fits : bytes strs ≤ argbufLen)
    (noNul : ∀ s ∈ strs, 0 ∉ s) : IsArgVector argvLen argbufLen strs v := by
  constructor
  · exact holds.argc
  · rw [holds.argc]
    exact within
  · intro i inStrs
    have before := bytes_take_le strs inStrs
    refine ⟨_, holds.pointers i inStrs, ?_, by omega⟩
    constructor
    · intro j inText
      rw [holds.strings i inStrs j inText.le, List.getD_eq_getElem _ _ inText]
    · rw [holds.strings i inStrs _ le_rfl, List.getD_eq_default _ _ le_rfl]
    · exact noNul _ (List.getElem_mem inStrs)
  · intro i inStrs j p q lt inStrs' first second
    rw [holds.pointers i inStrs] at first
    rw [holds.pointers j inStrs'] at second
    cases first
    cases second
    have inTake : i < (strs.take j).length := by
      rw [List.length_take]
      omega
    have before := bytes_take_le (strs.take j) inTake
    rw [List.take_take, min_eq_left lt.le, List.getElem_take] at before
    omega

/-- The arrays are only changed in their bounds. -/
structure Within (argvLen argbufLen : Nat) (argv₀ : Nat → Option Nat) (argbuf₀ : Nat → UInt8)
    (v : ArgVector) : Prop where
  argv : ∀ i, argvLen ≤ i → v.argv i = argv₀ i
  argbuf : ∀ j, argbufLen ≤ j → v.argbuf j = argbuf₀ j

namespace ArgStrings

variable (a : ArgStrings)

/-- The strings are those of the line buffer, so that they fit. -/
theorem bytes_strs_le : bytes a.strs ≤ 256 := by
  have commandFits := a.commandAt.lt_length
  rw [a.size] at commandFits
  have split : bytes a.strs = a.commandText.length + 1 +
      bytes (a.firstArg.elim [] fun arg => words arg.2) := by
    rw [strs, ← List.singleton_append, bytes_append, bytes_singleton]
  rw [split]
  cases isArg : a.firstArg with
  | none => 
      simp [bytes]
      omega
  | some arg =>
      have argFits := (a.firstArgAt arg isArg).lt_length
      rw [a.size] at argFits
      have short := bytes_words_le arg.2
      simp only [Option.elim_some]
      omega

theorem noNul_strs : ∀ s ∈ a.strs, 0 ∉ s := by
  intro s member
  rcases List.mem_cons.mp member with rfl | member
  · exact a.commandAt.noNul
  · cases isArg : a.firstArg with
    | none =>
        rw [isArg] at member
        cases member
    | some arg =>
        rw [isArg] at member
        exact fun zero => (a.firstArgAt arg isArg).noNul (mem_of_mem_words member zero)

/-- `MakeArgVector` pushes the command and the words of the argument string, and writes NULs to
that string only. -/
theorem makeArgVector_eq (argvLen argbufLen : Nat) (argv₀ : Nat → Option Nat)
    (argbuf₀ : Nat → UInt8) :
    ∃ cuts, (∀ i ∈ cuts, ∃ arg ∈ a.firstArg, i ≤ arg.1 + arg.2.length) ∧
      makeArgVector argvLen argbufLen a.linebuf a.command (a.firstArg.map Prod.fst)
          argv₀ argbuf₀ =
        some (writeNuls cuts a.linebuf,
          pushAll argvLen argbufLen a.strs ⟨0, 0, argv₀, argbuf₀⟩) := by
  rw [makeArgVector, a.commandAt.cstring_drop, strs, pushAll]
  rcases pushToArgv argvLen argbufLen a.commandText ⟨0, 0, argv₀, argbuf₀⟩ with ⟨v, err⟩
  cases err with
  | success =>
      cases isArg : a.firstArg with
      | none => exact ⟨[], nofun, rfl⟩
      | some arg =>
          have argAt := a.firstArgAt arg isArg
          have enough : arg.2.length < a.linebuf.length + 1 := by
            have fits := argAt.lt_length
            omega
          rcases splitArgs_eq v argAt enough with ⟨cuts, inString, result⟩
          exact ⟨cuts, fun i member => ⟨arg, rfl, inString i member⟩, result⟩
  | _ => exact ⟨[], nofun, rfl⟩

/-- `MakeArgVector` makes a vector of the command and the words if there is room for it in `argv`,
and fails with `kFull` otherwise; in both cases it stays in the arrays. -/
theorem makeArgVector_correct (argvLen argbufLen : Nat) (argv₀ : Nat → Option Nat)
    (argbuf₀ : Nat → UInt8) (room : 256 ≤ argbufLen) :
    ∃ linebuf' v err, makeArgVector argvLen argbufLen a.linebuf a.command
        (a.firstArg.map Prod.fst) argv₀ argbuf₀ = some (linebuf', v, err) ∧
      (err = .success ↔ a.strs.length ≤ argvLen) ∧
      (err = .success → IsArgVector argvLen argbufLen a.strs v) ∧
      (err ≠ .success → err = .full) ∧
      Within argvLen argbufLen argv₀ argbuf₀ v := by
  rcases a.makeArgVector_eq argvLen argbufLen argv₀ argbuf₀ with ⟨cuts, -, returned⟩
  have empty : Holds argv₀ argbuf₀ [] ⟨0, 0, argv₀, argbuf₀⟩ :=
    ⟨rfl, rfl, fun i lt => absurd lt (Nat.not_lt_zero i), fun i lt => absurd lt (Nat.not_lt_zero i),
      fun _ _ => rfl, fun _ _ => rfl⟩
  have fits : bytes a.strs ≤ argbufLen := a.bytes_strs_le.trans room
  rcases @Holds.pushAll argvLen argbufLen argv₀ argbuf₀ [] ⟨0, 0, argv₀, argbuf₀⟩ a.strs empty
    (Nat.zero_le _) fits with ⟨pushed, isPrefix, short, holds, ends⟩
  rw [List.nil_append] at short holds ends
  have within : Within argvLen argbufLen argv₀ argbuf₀
      (pushAll argvLen argbufLen a.strs ⟨0, 0, argv₀, argbuf₀⟩).1 := by
    rcases isPrefix with ⟨rest, isStrs⟩
    have shorter : bytes pushed ≤ argbufLen := by
      rw [← isStrs, bytes_append] at fits
      omega
    exact ⟨fun i beyond => holds.argvKept i (short.trans beyond),
      fun j beyond => holds.argbufKept j (shorter.trans beyond)⟩
  generalize pushAll argvLen argbufLen a.strs ⟨0, 0, argv₀, argbuf₀⟩ = result at *
  rcases result with ⟨v, err⟩
  refine ⟨writeNuls cuts a.linebuf, v, err, returned, ?_⟩
  rcases ends with ⟨rfl, success⟩ | ⟨tooLong, full⟩
  · cases (success : err = .success)
    exact ⟨iff_of_true rfl short, fun _ => holds.isArgVector short fits a.noNul_strs,
      fun failed => absurd rfl failed, within⟩
  · cases (full : err = .full)
    exact ⟨iff_of_false (by decide) (Nat.not_le.mpr tooLong), nofun, fun _ => rfl, within⟩

/-- The line `cp a b`, cut at its first space. -/
def copyLine : ArgStrings where
  linebuf := [0x63, 0x70, 0, 0x61, 0x20, 0x62] ++ List.replicate 122 0
  size := by rw [List.length_append, List.length_replicate]; rfl
  command := 0
  commandText := [0x63, 0x70]
  commandAt := ⟨⟨_, rfl⟩, by decide⟩
  firstArg := some (3, [0x61, 0x20, 0x62])
  firstArgAt := by
    rintro _ ⟨⟩
    exact ⟨⟨List.replicate 121 0, rfl⟩, by decide⟩

/-- With the sizes that `ExecuteFile` passes, there is a vector of three strings for this line. -/
theorem makeArgVector_copyLine : ∃ linebuf' v,
    makeArgVector 31 (4095 - 8 * 31) copyLine.linebuf 0 (some 3) (fun _ => none) (fun _ => 0) =
        some (linebuf', v, .success) ∧
      IsArgVector 31 (4095 - 8 * 31) [[0x63, 0x70], [0x61], [0x62]] v := by
  rcases copyLine.makeArgVector_correct 31 (4095 - 8 * 31) (fun _ => none) (fun _ => 0)
    (by decide) with ⟨linebuf', v, err, returned, succeeds, isVector, -⟩
  have success : err = .success := succeeds.mpr (by decide)
  rw [success] at returned
  exact ⟨linebuf', v, returned, isVector success⟩

end ArgStrings

end Mikanos.Terminal
