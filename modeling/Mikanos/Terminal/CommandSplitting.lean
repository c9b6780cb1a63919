import Mikanos.Terminal.CommandLine

/-!
# How command lines are split

The characters of a line are looked for before any of them is replaced by a NUL, and the text for
an operand is taken before the operators behind it are cut off.  So a line is split as its
operators say only if its first space is where it does no harm, and if it does not have both
operators, up to exceptions without any text.
-/

namespace Mikanos.Terminal

open Memory
open Loader.Launcher (isspace)

/-- The text without the white space at its beginning. -/
def trimmed (text : List UInt8) : List UInt8 :=
  text.dropWhile isspace

/-- The command and its argument come from the first characters of the line. -/
def LineOutcome.ComesFrom (o : LineOutcome) (n : Nat) : Prop :=
  ∀ e ∈ o.executed, (cstring e.linebuf).length ≤ n ∧
    ∀ p ∈ e.firstArg, ∀ i < (cstring (e.linebuf.drop p)).length, p + i < n

/-- What is executed is what the operators of the line say. -/
structure Respects (line : List UInt8) (o : LineOutcome) : Prop where
  pipe : ∀ q ∈ line.idxOf? 0x7c,
    (o.executed.isSome → o.subcommand = some (trimmed (line.drop (q + 1)))) ∧ o.ComesFrom q
  redirect : ∀ r ∈ line.idxOf? 0x3e, (∀ q ∈ line.idxOf? 0x7c, r < q) →
    o.redirDest = some (trimmed ((line.drop (r + 1)).takeWhile (· ≠ 0x7c))) ∧ o.ComesFrom r

/-- The line is split as its operators say. -/
def SplitsWell (answers : Answers) (b : LineBuffer) : Prop :=
  ∃ o, (executeLine answers b.bytes).Yields (fun _ => True) o ∧ Respects b.line o

/-- The first space is before a position, or there is only white space behind it. -/
def SpaceBefore (line : List UInt8) (i : Nat) : Prop :=
  (∀ a ∈ line.idxOf? 0x20, a < i) ∨ ∀ c ∈ line.drop (i + 1), isspace c

/-- What a line must be like to be split as its operators say. -/
def Separated (line : List UInt8) (redirects : Bool) : Prop :=
  match line.idxOf? 0x3e, line.idxOf? 0x7c with
  | none, none => True
  | none, some q => SpaceBefore line q
  | some r, none => SpaceBefore line r
  | some r, some q =>
      if r < q then
        (∃ a ∈ line.idxOf? 0x20, r < a ∧ a < q) ∧
          ∀ c ∈ (line.drop (r + 1)).take (q - (r + 1)), isspace c
      else redirects = false

/-! ## Texts that are cut -/

/-- The text at a position, when the line is cut. -/
def cutText (p : Nat) (op : Option Nat) (text : List UInt8) : List UInt8 :=
  match op with
  | none => text
  | some i => if p ≤ i then text.take (i - p) else text

section

variable {linebuf text : List UInt8} {p i : Nat}

theorem stringAt_cut (stringAt : StringAt linebuf p text) (op : Option Nat) :
    StringAt (cut linebuf op) p (cutText p op text) := by
  cases op with
  | none => exact stringAt
  | some i => exact stringAt.set i

theorem length_cutText_le (p : Nat) (op : Option Nat) (text : List UInt8) :
    (cutText p op text).length ≤ text.length := by
  cases op with
  | none => exact le_rfl
  | some i =>
      rw [cutText]
      split
      · exact List.length_take_le' _ _
      · exact le_rfl

theorem length_cutText_some_le (le : p ≤ i) (text : List UInt8) :
    p + (cutText p (some i) text).length ≤ i := by
  have short := List.length_take_le (i - p) text
  rw [cutText, if_pos le]
  omega

/-- The operand behind a character is the text there. -/
theorem operand_eq (stringAt : StringAt linebuf (i + 1) text) :
    operand linebuf (some i) = some (trimmed text) := by
  have trimmedAt := ((stringAt.set_before i.lt_succ_self).skip isspace_zero).cstring_drop
  exact congrArg some trimmedAt

end

/-! ## The parts of a line -/

namespace LineBuffer

variable (b : LineBuffer)

/-- What follows behind a character of the line. -/
theorem stringAt_drop {k : Nat} (le : k ≤ b.line.length) : StringAt b.bytes k (b.line.drop k) := by
  have whole := (stringAt_cstring b.terminated).drop le
  rwa [Nat.zero_add] at whole

variable {b}

theorem lt_of_idxOf? {c : UInt8} {i : Nat} (there : b.line.idxOf? c = some i) :
    i < b.line.length :=
  (List.idxOf?_eq_some_iff.mp there).1

theorem getElem?_of_idxOf? {c : UInt8} {i : Nat} (there : b.line.idxOf? c = some i) :
    b.line[i]? = some c := by
  rcases List.idxOf?_eq_some_iff.mp there with ⟨inLine, isChar, -⟩
  rw [List.getElem?_eq_getElem inLine, isChar]

theorem redirDest_eq {r : Nat} (there : b.redirChar = some r) :
    operand b.cut₁ b.redirChar =
      some (trimmed (cutText (r + 1) b.space (b.line.drop (r + 1)))) := by
  rw [there]
  exact operand_eq (stringAt_cut (b.stringAt_drop (lt_of_idxOf? there)) b.space)

theorem subcommand_eq {q : Nat} (there : b.pipeChar = some q) :
    operand b.cut₂ b.pipeChar = some (trimmed
      (cutText (q + 1) b.redirChar (cutText (q + 1) b.space (b.line.drop (q + 1))))) := by
  rw [there]
  exact operand_eq
    (stringAt_cut (stringAt_cut (b.stringAt_drop (lt_of_idxOf? there)) b.space) b.redirChar)

/-- The command, when it is executed. -/
theorem command_eq : cstring b.cut₃ =
    cutText 0 b.pipeChar (cutText 0 b.redirChar (cutText 0 b.space b.line)) :=
  (stringAt_cut (stringAt_cut (stringAt_cut (stringAt_cstring b.terminated) b.space) b.redirChar)
    b.pipeChar).cstring_drop

/-- Behind the first space is the rest of the line. -/
theorem stringAt_space {a : Nat} (there : b.space = some a) :
    StringAt b.cut₁ (a + 1) (b.line.drop (a + 1)) := by
  rw [cut₁, there]
  exact (b.stringAt_drop (lt_of_idxOf? there)).set_before a.lt_succ_self

/-- The argument, when the command is executed. -/
theorem argument_at {a : Nat} (there : b.space = some a) :
    let p := skip isspace b.cut₁ (a + 1)
    behind b.bytes b.space = some p ∧
      StringAt b.cut₃ p
        (cutText p b.pipeChar (cutText p b.redirChar (trimmed (b.line.drop (a + 1))))) := by
  intro p
  have first := (stringAt_space there).skip isspace_zero
  refine ⟨?_, stringAt_cut (stringAt_cut first b.redirChar) b.pipeChar⟩
  rw [there, behind, Option.map_some]
  simp only [p, cut₁, there]
  rfl

/-- Where the argument begins, there is a character of the line that is no white space. -/
theorem argument_head {a : Nat} (there : b.space = some a)
    (nonempty : trimmed (b.line.drop (a + 1)) ≠ []) :
    ∃ c, b.line[skip isspace b.cut₁ (a + 1)]? = some c ∧ isspace c = false := by
  rcases getElem?_takeWhile_length nonempty with ⟨c, atHead, other⟩
  rw [List.getElem?_drop] at atHead
  rw [(stringAt_space there).skip_eq isspace_zero]
  exact ⟨c, atHead, other⟩

/-- The argument does not begin behind a character that is no white space. -/
theorem argument_le {a x : Nat} {c : UInt8} (there : b.space = some a) (le : a < x)
    (op : b.line[x]? = some c) (other : isspace c = false) :
    skip isspace b.cut₁ (a + 1) ≤ x := by
  have inRest : (b.line.drop (a + 1))[x - (a + 1)]? = some c := by
    rw [List.getElem?_drop, Nat.add_sub_cancel' le]
    exact op
  have short := length_takeWhile_le inRest other
  rw [(stringAt_space there).skip_eq isspace_zero]
  omega

/-- The argument ends before an operator that it begins before. -/
theorem argument_end {a x : Nat} (op : b.redirChar = some x ∨ b.pipeChar = some x)
    (le : skip isspace b.cut₁ (a + 1) ≤ x) :
    let p := skip isspace b.cut₁ (a + 1)
    p + (cutText p b.pipeChar (cutText p b.redirChar (trimmed (b.line.drop (a + 1))))).length ≤ x := by
  intro p
  rcases op with isRedir | isPipe
  · have short := length_cutText_le p b.pipeChar
      (cutText p b.redirChar (trimmed (b.line.drop (a + 1))))
    have first := length_cutText_some_le le (trimmed (b.line.drop (a + 1)))
    rw [isRedir] at short ⊢
    exact (Nat.add_le_add_left short p).trans first
  · rw [isPipe]
    exact length_cutText_some_le le _

/-- The command ends before an operator. -/
theorem command_end {x : Nat} (op : b.redirChar = some x ∨ b.pipeChar = some x) :
    (cstring b.cut₃).length ≤ x := by
  rw [command_eq]
  rcases op with isRedir | isPipe
  · have short := length_cutText_le 0 b.pipeChar (cutText 0 b.redirChar (cutText 0 b.space b.line))
    have first := length_cutText_some_le (Nat.zero_le x) (cutText 0 b.space b.line)
    rw [isRedir, Nat.zero_add] at *
    exact short.trans first
  · have last := length_cutText_some_le (Nat.zero_le x) (cutText 0 b.redirChar (cutText 0 b.space b.line))
    rw [isPipe]
    rwa [Nat.zero_add] at last

/-- The parts that are executed come from before an operator, if an argument does that begins with a
character other than white space. -/
theorem comesFrom {o : LineOutcome} {x : Nat}
    (parts : ∀ e ∈ o.executed, e.linebuf = b.cut₃ ∧ e.firstArg = behind b.bytes b.space)
    (op : b.redirChar = some x ∨ b.pipeChar = some x)
    (early : ∀ a c, b.space = some a → b.line[skip isspace b.cut₁ (a + 1)]? = some c →
      isspace c = false → (∀ q, b.pipeChar = some q → a < q → skip isspace b.cut₁ (a + 1) < q) →
      skip isspace b.cut₁ (a + 1) ≤ x) : o.ComesFrom x := by
  intro e executed
  rcases parts e executed with ⟨isBuffer, isArg⟩
  rw [isBuffer, isArg]
  refine ⟨command_end op, fun p isSome i inArg => ?_⟩
  cases there : b.space with
  | none =>
      rw [there] at isSome
      cases isSome
  | some a =>
      rcases argument_at there with ⟨isSkip, stringAt⟩
      rw [isSkip] at isSome
      cases isSome
      rw [stringAt.cstring_drop] at inArg
      have nonempty : trimmed (b.line.drop (a + 1)) ≠ [] := by
        intro empty
        have outer := length_cutText_le (skip isspace b.cut₁ (a + 1)) b.pipeChar
          (cutText (skip isspace b.cut₁ (a + 1)) b.redirChar (trimmed (b.line.drop (a + 1))))
        have inner := length_cutText_le (skip isspace b.cut₁ (a + 1)) b.redirChar
          (trimmed (b.line.drop (a + 1)))
        rw [empty, List.length_nil] at inner
        rw [empty] at outer inArg
        omega
      rcases argument_head there nonempty with ⟨c, atHead, other⟩
      have beforePipe (q : Nat) (isPipe : b.pipeChar = some q) (lt : a < q) :
          skip isspace b.cut₁ (a + 1) < q := by
        have le := argument_le there lt (getElem?_of_idxOf? isPipe) (by decide)
        have ends := argument_end (Or.inr isPipe) le
        simp only at ends
        omega
      have ends := argument_end op (early a c there atHead other beforePipe)
      simp only at ends
      omega

theorem comesFrom_of_spaceBefore {o : LineOutcome} {x : Nat}
    (parts : ∀ e ∈ o.executed, e.linebuf = b.cut₃ ∧ e.firstArg = behind b.bytes b.space)
    (op : b.redirChar = some x ∨ b.pipeChar = some x) (before : SpaceBefore b.line x) :
    o.ComesFrom x := by
  have isOp : ∃ c, b.line[x]? = some c ∧ isspace c = false := by
    rcases op with isRedir | isPipe
    · exact ⟨0x3e, getElem?_of_idxOf? isRedir, by decide⟩
    · exact ⟨0x7c, getElem?_of_idxOf? isPipe, by decide⟩
  rcases isOp with ⟨d, atOp, opOther⟩
  refine comesFrom parts op fun a c there atHead other _ => ?_
  rcases before with lt | allSpace
  · exact argument_le there (lt a there) atOp opOther
  · by_contra beyond
    rw [not_le] at beyond
    have member : c ∈ b.line.drop (x + 1) := by
      rw [List.mem_iff_getElem?]
      refine ⟨skip isspace b.cut₁ (a + 1) - (x + 1), ?_⟩
      rw [List.getElem?_drop, Nat.add_sub_cancel' beyond]
      exact atHead
    rw [allSpace c member] at other
    exact Bool.noConfusion other

/-- The outcome of a line, in terms of its parts. -/
structure Outcome (b : LineBuffer) (answers : Answers) (o : LineOutcome) : Prop where
  redirDest : o.redirDest = operand b.cut₁ b.redirChar
  executes : o.executed.isSome ↔ ¬ (b.redirChar.isSome ∧ answers.refusal.isSome)
  subcommand : o.executed.isSome → o.subcommand = operand b.cut₂ b.pipeChar
  parts : ∀ e ∈ o.executed, e.linebuf = b.cut₃ ∧ e.firstArg = behind b.bytes b.space

theorem outcome_of_yields {answers : Answers} {readable : CharPtr → Prop} {o : LineOutcome}
    (yields : (executeLine answers b.bytes).Yields readable o) : b.Outcome answers o := by
  have rest := (yields_executeLine.mp yields).2.2.2
  split at rest
  · rename_i refused
    rw [rest]
    exact ⟨rfl, iff_of_false Bool.false_ne_true (not_not.mpr refused), nofun, nofun⟩
  · rename_i accepted
    rcases rest with ⟨-, result, -, isOutcome⟩
    rw [isOutcome]
    refine ⟨rfl, iff_of_true rfl accepted, fun _ => rfl, ?_⟩
    rintro e ⟨⟩
    exact ⟨rfl, rfl⟩

theorem exists_yields (b : LineBuffer) (answers : Answers) :
    ∃ o, (executeLine answers b.bytes).Yields (fun _ => True) o := by
  have anywhere (linebuf : List UInt8) (op : Option Nat) : Passes (fun _ => True) linebuf op :=
    fun _ _ _ _ _ => trivial
  refine exists_yields_executeLine trivial (anywhere _ _) (anywhere _ _) fun _ =>
    ⟨anywhere _ _, ?_⟩
  exact exists_yields_runCommand trivial (fun _ _ => ⟨trivial, fun _ => trivial⟩) fun _ _ => trivial

/-! ## Which lines are split well -/

/-- The text behind an operator is not changed by the space that is cut off exactly if the space
is before the operator. -/
theorem trimmed_cut_space_iff {x : Nat} {c : UInt8} (op : b.line[x]? = some c) (other : c ≠ 0x20) :
    trimmed (cutText (x + 1) b.space (b.line.drop (x + 1))) = trimmed (b.line.drop (x + 1)) ↔
      SpaceBefore b.line x := by
  rw [SpaceBefore]
  change _ ↔ (∀ a ∈ b.space, a < x) ∨ _
  cases there : b.space with
  | none => exact iff_of_true rfl (Or.inl nofun)
  | some a =>
      have different : a ≠ x := by
        rintro rfl
        rw [getElem?_of_idxOf? there] at op
        exact other (Option.some_inj.mp op).symm
      simp only [Option.mem_some_iff, forall_eq']
      by_cases before : a < x
      · rw [cutText, if_neg (by omega)]
        exact iff_of_true rfl (Or.inl before)
      · have inLine := lt_of_idxOf? there
        rw [cutText, if_pos (by omega), trimmed, trimmed, dropWhile_take_eq_iff, List.length_drop]
        constructor
        · rintro (tooLong | allSpace)
          · omega
          · exact Or.inr allSpace
        · rintro (before' | allSpace)
          · omega
          · exact Or.inr allSpace

/-- An operator behind another position is a character of the text there, and no white space. -/
theorem not_all_isspace {x y : Nat} {c : UInt8} (op : b.line[y]? = some c) (other : isspace c = false)
    (lt : x < y) {k : Nat} (inText : y < x + 1 + k) :
    ¬ ∀ d ∈ (b.line.drop (x + 1)).take k, isspace d := by
  intro allSpace
  have member : c ∈ (b.line.drop (x + 1)).take k := by
    rw [List.mem_iff_getElem?]
    refine ⟨y - (x + 1), ?_⟩
    rw [List.getElem?_take_of_lt (by omega), List.getElem?_drop, Nat.add_sub_cancel' lt]
    exact op
  have space := allSpace c member
  rw [other] at space
  exact Bool.false_ne_true space

/-- The text up to the first character of a kind. -/
theorem takeWhile_ne_eq {c : UInt8} {x y : Nat} (there : b.line.idxOf? c = some y) (lt : x < y) :
    (b.line.drop (x + 1)).takeWhile (· ≠ c) = (b.line.drop (x + 1)).take (y - (x + 1)) := by
  rcases List.idxOf?_eq_some_iff.mp there with ⟨inLine, isChar, first⟩
  have parts := List.take_append_drop (y - (x + 1)) (b.line.drop (x + 1))
  rw [List.drop_drop, Nat.add_sub_cancel' lt, List.drop_eq_getElem_cons inLine, isChar] at parts
  conv_lhs => rw [← parts]
  rw [List.takeWhile_append_of_pos, List.takeWhile_cons_of_neg (by simp), List.append_nil]
  intro d member
  rcases List.mem_take_iff_getElem.mp member with ⟨i, upper, rfl⟩
  rw [List.getElem_drop]
  exact decide_eq_true (first _ (by omega))

theorem takeWhile_ne_eq_self {c : UInt8} (nowhere : b.line.idxOf? c = none) (x : Nat) :
    (b.line.drop (x + 1)).takeWhile (· ≠ c) = b.line.drop (x + 1) := by
  rw [List.takeWhile_eq_self_iff]
  intro d member
  rw [List.idxOf?_eq_none_iff] at nowhere
  exact decide_eq_true fun same => nowhere (same ▸ List.mem_of_mem_drop member)

/-- Two characters that are looked for are at different positions. -/
theorem ne_of_idxOf? {c d : UInt8} {x y : Nat} (atX : b.line.idxOf? c = some x)
    (atY : b.line.idxOf? d = some y) (different : c ≠ d) : x ≠ y := by
  rintro rfl
  have same := getElem?_of_idxOf? atX
  rw [getElem?_of_idxOf? atY, Option.some_inj] at same
  exact different same.symm

/-- What is cut off by a space can only be what it is in. -/
theorem exists_cutText_eq_take (p : Nat) (op : Option Nat) (text : List UInt8) :
    ∃ m, cutText p op text = text.take m := by
  cases op with
  | none => exact ⟨text.length, List.take_length.symm⟩
  | some i =>
      rw [cutText]
      split
      · exact ⟨_, rfl⟩
      · exact ⟨text.length, List.take_length.symm⟩

/-- A redirect destination that ends at a `|` is only found if a space cuts it off, and it is
empty. -/
theorem space_between {r q : Nat} (isRedir : b.redirChar = some r) (isPipe : b.pipeChar = some q)
    (redirFirst : r < q)
    (dest : trimmed (cutText (r + 1) b.space (b.line.drop (r + 1))) =
      trimmed ((b.line.drop (r + 1)).take (q - (r + 1)))) :
    (∃ a ∈ b.space, r < a ∧ a < q) ∧
      ∀ c ∈ (b.line.drop (r + 1)).take (q - (r + 1)), isspace c := by
  have atPipe := getElem?_of_idxOf? isPipe
  have inLine := lt_of_idxOf? isPipe
  have uncut : ¬ trimmed (b.line.drop (r + 1)) =
      trimmed ((b.line.drop (r + 1)).take (q - (r + 1))) := by
    intro same
    rcases (dropWhile_take_eq_iff _ _ _).mp same.symm with tooLong | allSpace
    · rw [List.length_drop] at tooLong
      omega
    · refine not_all_isspace atPipe (by decide) redirFirst (k := q) (by omega) fun c member => ?_
      exact allSpace c (List.mem_of_mem_take member)
  cases isSpace : b.space with
  | none =>
      rw [isSpace] at dest
      exact absurd dest uncut
  | some a =>
      rw [isSpace, cutText] at dest
      have notRedir := ne_of_idxOf? isSpace isRedir (by decide)
      have notPipe := ne_of_idxOf? isSpace isPipe (by decide)
      split at dest
      · rename_i behindRedir
        rcases Nat.lt_or_gt_of_ne notPipe with beforePipe | behindPipe
        · have shorter : (b.line.drop (r + 1)).take (a - (r + 1)) =
              ((b.line.drop (r + 1)).take (q - (r + 1))).take (a - (r + 1)) := by
            rw [List.take_take, min_eq_left (by omega)]
          rw [shorter] at dest
          rcases (dropWhile_take_eq_iff _ _ _).mp dest with tooLong | allSpace
          · rw [List.length_take, List.length_drop] at tooLong
            omega
          · exact ⟨⟨a, rfl, behindRedir, beforePipe⟩, allSpace⟩
        · have shorter : (b.line.drop (r + 1)).take (q - (r + 1)) =
              ((b.line.drop (r + 1)).take (a - (r + 1))).take (q - (r + 1)) := by
            rw [List.take_take, min_eq_left (by omega)]
          rw [shorter] at dest
          have spaceInLine := lt_of_idxOf? isSpace
          rcases (dropWhile_take_eq_iff _ _ _).mp dest.symm with tooLong | allSpace
          · rw [List.length_take, List.length_drop] at tooLong
            omega
          · exact absurd allSpace (not_all_isspace atPipe (by decide) redirFirst (by omega))
      · exact absurd dest uncut

/-- A command line for the pipe is cut off at a `>` in it. -/
theorem subcommand_ne {r q : Nat} (isRedir : b.redirChar = some r) (pipeFirst : q < r) :
    trimmed (cutText (q + 1) b.redirChar (cutText (q + 1) b.space (b.line.drop (q + 1)))) ≠
      trimmed (b.line.drop (q + 1)) := by
  intro same
  have inLine := lt_of_idxOf? isRedir
  rcases exists_cutText_eq_take (q + 1) b.space (b.line.drop (q + 1)) with ⟨m, isTake⟩
  rw [isTake, isRedir, cutText, if_pos (by omega), List.take_take] at same
  rcases (dropWhile_take_eq_iff _ _ _).mp same with tooLong | allSpace
  · rw [List.length_drop] at tooLong
    omega
  · refine not_all_isspace (getElem?_of_idxOf? isRedir) (by decide) pipeFirst (k := r) (by omega)
      fun c member => ?_
    exact allSpace c (List.mem_of_mem_take member)

theorem separated_of_respects {answers : Answers} {o : LineOutcome} (outcome : b.Outcome answers o)
    (respects : Respects b.line o) : Separated b.line answers.refusal.isNone := by
  rw [Separated]
  cases isRedir : b.line.idxOf? 0x3e with
  | none =>
      cases isPipe : b.line.idxOf? 0x7c with
      | none => trivial
      | some q =>
          have noRedir : b.redirChar = none := isRedir
          have executes := outcome.executes.mpr (by rw [noRedir]; exact fun both => nomatch both.1)
          have sub := (respects.pipe q isPipe).1 executes
          rw [outcome.subcommand executes, subcommand_eq isPipe, noRedir] at sub
          exact (trimmed_cut_space_iff (getElem?_of_idxOf? isPipe) (by decide)).mp
            (Option.some_inj.mp sub)
  | some r =>
      cases isPipe : b.line.idxOf? 0x7c with
      | none =>
          have dest := (respects.redirect r isRedir (by rw [isPipe]; exact nofun)).1
          rw [outcome.redirDest, redirDest_eq isRedir, takeWhile_ne_eq_self isPipe] at dest
          exact (trimmed_cut_space_iff (getElem?_of_idxOf? isRedir) (by decide)).mp
            (Option.some_inj.mp dest)
      | some q =>
          simp only
          split
          · rename_i redirFirst
            have first : ∀ q' ∈ b.line.idxOf? 0x7c, r < q' := by
              rw [isPipe]
              rintro q' ⟨⟩
              exact redirFirst
            have dest := (respects.redirect r isRedir first).1
            rw [outcome.redirDest, redirDest_eq isRedir, takeWhile_ne_eq isPipe redirFirst,
              Option.some_inj] at dest
            exact space_between isRedir isPipe redirFirst dest
          · rename_i notRedirFirst
            have pipeFirst : q < r := by
              have different := ne_of_idxOf? isRedir isPipe (by decide)
              omega
            by_contra accepted
            have notRefused : answers.refusal = none := by
              simpa using accepted
            have executes := outcome.executes.mpr (by
              rw [notRefused]
              exact fun both => nomatch both.2)
            have sub := (respects.pipe q isPipe).1 executes
            rw [outcome.subcommand executes, subcommand_eq isPipe, Option.some_inj] at sub
            exact subcommand_ne isRedir pipeFirst sub

/-- With both operators, and nothing but white space between them. -/
theorem respects_of_space_between {answers : Answers} {o : LineOutcome} {a r q : Nat}
    (outcome : b.Outcome answers o) (isRedir : b.redirChar = some r) (isPipe : b.pipeChar = some q)
    (redirFirst : r < q) (isSpace : b.space = some a) (behindRedir : r < a) (beforePipe : a < q)
    (allSpace : ∀ c ∈ (b.line.drop (r + 1)).take (q - (r + 1)), isspace c) :
    Respects b.line o := by
  constructor
  · intro q' isPipe'
    cases isPipe.symm.trans isPipe'
    constructor
    · intro executes
      rw [outcome.subcommand executes, subcommand_eq isPipe, isRedir, isSpace, cutText, cutText,
        if_neg (by omega), if_neg (by omega)]
    · refine comesFrom_of_spaceBefore outcome.parts (Or.inr isPipe) (Or.inl ?_)
      intro a' isSpace'
      cases isSpace.symm.trans isSpace'
      exact beforePipe
  · intro r' isRedir' _
    cases isRedir.symm.trans isRedir'
    constructor
    · have allSpace' : ∀ c ∈ (b.line.drop (r + 1)).take (a - (r + 1)), isspace c := fun c member =>
        allSpace c (List.take_subset_take_left _ (by omega) member)
      rw [outcome.redirDest, redirDest_eq isRedir, takeWhile_ne_eq isPipe redirFirst, isSpace,
        cutText, if_pos (by omega), trimmed, trimmed, List.dropWhile_eq_nil_iff.mpr allSpace,
        List.dropWhile_eq_nil_iff.mpr allSpace']
    · refine comesFrom outcome.parts (Or.inl isRedir) fun a' c isSpace' atHead other beforeNext => ?_
      cases isSpace.symm.trans isSpace'
      by_contra beyond
      rw [not_le] at beyond
      have lt := beforeNext q isPipe beforePipe
      exact not_all_isspace atHead other beyond (by omega) allSpace

theorem respects_of_separated {answers : Answers} {o : LineOutcome} (outcome : b.Outcome answers o)
    (separated : Separated b.line answers.refusal.isNone) : Respects b.line o := by
  rw [Separated] at separated
  cases isRedir : b.line.idxOf? 0x3e with
  | none =>
      have noRedir : b.redirChar = none := isRedir
      refine ⟨fun q isPipe => ?_, by rw [isRedir]; exact nofun⟩
      rw [isRedir, isPipe] at separated
      refine ⟨fun executes => ?_, comesFrom_of_spaceBefore outcome.parts (Or.inr isPipe) separated⟩
      rw [outcome.subcommand executes, subcommand_eq isPipe, noRedir, Option.some_inj]
      exact (trimmed_cut_space_iff (getElem?_of_idxOf? isPipe) (by decide)).mpr separated
  | some r =>
      cases isPipe : b.line.idxOf? 0x7c with
      | none =>
          rw [isRedir, isPipe] at separated
          refine ⟨by rw [isPipe]; exact nofun, ?_⟩
          rw [isRedir]
          rintro r' ⟨⟩ -
          refine ⟨?_, comesFrom_of_spaceBefore outcome.parts (Or.inl isRedir) separated⟩
          rw [outcome.redirDest, redirDest_eq isRedir, takeWhile_ne_eq_self isPipe, Option.some_inj]
          exact (trimmed_cut_space_iff (getElem?_of_idxOf? isRedir) (by decide)).mpr separated
      | some q =>
          rw [isRedir, isPipe] at separated
          simp only at separated
          split at separated
          · rename_i redirFirst
            rcases separated with ⟨⟨a, isSpace, behindRedir, beforePipe⟩, allSpace⟩
            exact respects_of_space_between outcome isRedir isPipe redirFirst isSpace behindRedir
              beforePipe allSpace
          · rename_i notRedirFirst
            have refused : b.redirChar.isSome ∧ answers.refusal.isSome := by
              refine ⟨by rw [redirChar, isRedir]; rfl, ?_⟩
              rwa [← Option.not_isSome, Bool.not_eq_false'] at separated
            have notExecuted : ¬ o.executed.isSome := fun executes =>
              outcome.executes.mp executes refused
            refine ⟨fun q' _ => ⟨fun executes => absurd executes notExecuted, ?_⟩, ?_⟩
            · intro e executed
              exact absurd (Option.isSome_of_mem executed) notExecuted
            · intro r' isRedir' first
              rw [isRedir] at isRedir'
              cases isRedir'
              exact absurd (first q isPipe) notRedirFirst

/-- A line is split as its operators say exactly if its space is before them, or there is nothing
but white space behind. -/
theorem splitsWell_iff (b : LineBuffer) (answers : Answers) :
    SplitsWell answers b ↔ Separated b.line answers.refusal.isNone := by
  constructor
  · rintro ⟨o, yields, respects⟩
    exact separated_of_respects (outcome_of_yields yields) respects
  · intro separated
    rcases b.exists_yields answers with ⟨o, yields⟩
    exact ⟨o, yields, respects_of_separated (outcome_of_yields yields) separated⟩

/-- No file is found. -/
def noFiles : Answers where
  redirFile := none
  createFile := .success
  argFile := none
  findCommand := false
  executeFile := (0, .success)
  waitFinish := 0

/-- The line `ls|cat a`. -/
def pipedLine : LineBuffer where
  bytes := [0x6c, 0x73, 0x7c, 0x63, 0x61, 0x74, 0x20, 0x61, 0]
  terminated := by decide

/-- The argument of the command behind the pipe goes to the command before it. -/
theorem not_splitsWell_pipedLine : ¬ SplitsWell noFiles pipedLine := by
  rintro ⟨o, yields, respects⟩
  have separated := separated_of_respects (outcome_of_yields yields) respects
  change SpaceBefore pipedLine.line 2 at separated
  rcases separated with before | allSpace
  · exact absurd (before 6 (by decide)) (by decide)
  · exact absurd (allSpace 0x63 (by decide)) (by decide)

end LineBuffer

end Mikanos.Terminal
