import Mikanos.Terminal.CommandSplitting

/-!
# Pointers into the line

All strings that `ExecuteLine` takes from a line are in the line, but there is no argument if the
line has no space.  Most commands ask for that, but `ls` and `noterm` do not.
-/

namespace Mikanos.Terminal

open Memory
open Loader.Launcher (isspace)

namespace LineBuffer

variable (b : LineBuffer)

/-- The pointer is in the line, or at its NUL. -/
def Points (p : CharPtr) : Prop :=
  ∃ i, p = some i ∧ i ≤ b.line.length

/-- All pointers that `ExecuteLine` dereferences or passes on as strings are in the line. -/
def UsesItsPointers (answers : Answers) : Prop :=
  ∃ o, (executeLine answers b.bytes).Yields b.Points o

/-- The line is a command that does not ask whether it has an argument, and it has none. -/
def LacksArgument : Prop :=
  0x20 ∉ b.line ∧
    (b.line.takeWhile (fun c => c ≠ 0x3e ∧ c ≠ 0x7c) = lsName ∨
      b.line.takeWhile (fun c => c ≠ 0x3e ∧ c ≠ 0x7c) = notermName)

variable {b}

theorem not_points_null : ¬ b.Points none := by
  rintro ⟨i, isSome, -⟩
  cases isSome

/-- The white space behind a character of the line is in the line. -/
theorem passes_points {linebuf text : List UInt8} {i : Nat}
    (stringAt : StringAt linebuf (i + 1) text) (inLine : i + 1 + text.length ≤ b.line.length) :
    Passes b.Points linebuf (some i) := by
  have kept := stringAt.set_before i.lt_succ_self
  rintro _ ⟨⟩ j _ upper
  exact ⟨j, rfl, upper.trans ((kept.skip_le isspace_zero).trans inLine)⟩

/-- Behind a character of the line there is at most the rest of the line. -/
theorem add_length_drop_le {c : UInt8} {i : Nat} (there : b.line.idxOf? c = some i) :
    i + 1 + (b.line.drop (i + 1)).length ≤ b.line.length := by
  have inLine := lt_of_idxOf? there
  rw [List.length_drop]
  omega

theorem passes_space : Passes b.Points b.bytes b.space := by
  cases there : b.space with
  | none => exact nofun
  | some a =>
      exact passes_points (b.stringAt_drop (lt_of_idxOf? there)) (add_length_drop_le there)

theorem passes_redirChar : Passes b.Points b.cut₁ b.redirChar := by
  cases there : b.redirChar with
  | none => exact nofun
  | some r =>
      have short := length_cutText_le (r + 1) b.space (b.line.drop (r + 1))
      have inLine := (Nat.add_le_add_left short (r + 1)).trans (add_length_drop_le there)
      exact passes_points (stringAt_cut (b.stringAt_drop (lt_of_idxOf? there)) b.space) inLine

theorem passes_pipeChar : Passes b.Points b.cut₂ b.pipeChar := by
  cases there : b.pipeChar with
  | none => exact nofun
  | some q =>
      have short := length_cutText_le (q + 1) b.space (b.line.drop (q + 1))
      have shorter := length_cutText_le (q + 1) b.redirChar
        (cutText (q + 1) b.space (b.line.drop (q + 1)))
      have inLine := (Nat.add_le_add_left (shorter.trans short) (q + 1)).trans
        (add_length_drop_le there)
      exact passes_points
        (stringAt_cut (stringAt_cut (b.stringAt_drop (lt_of_idxOf? there)) b.space) b.redirChar)
        inLine

/-- A string in the line begins in the line, and so does what is behind a character of it. -/
theorem points_of_stringAt {linebuf text : List UInt8} {p : Nat}
    (stringAt : StringAt linebuf p text) (inLine : p + text.length ≤ b.line.length) :
    b.Points (some p) ∧ (linebuf.getD p 0 ≠ 0 → b.Points (some (p + 1))) := by
  refine ⟨⟨p, rfl, by omega⟩, fun notEnd => ⟨p + 1, rfl, ?_⟩⟩
  have nonempty : text ≠ [] := by
    rintro rfl
    exact notEnd (stringAt.getD_eq 0 le_rfl)
  have positive := List.length_pos_iff.mpr nonempty
  omega

/-- The argument is a string in the line. -/
theorem argument_inLine {p : Nat} (isArg : behind b.bytes b.space = some p) :
    ∃ text, StringAt b.cut₃ p text ∧ p + text.length ≤ b.line.length := by
  cases there : b.space with
  | none =>
      rw [there] at isArg
      cases isArg
  | some a =>
      rcases argument_at there with ⟨isSkip, stringAt⟩
      cases isArg.symm.trans isSkip
      have ends := (stringAt_space there).skip_add_length isspace_zero
      have inLine := add_length_drop_le there
      have short := length_cutText_le (skip isspace b.cut₁ (a + 1)) b.redirChar
        (trimmed (b.line.drop (a + 1)))
      have shorter := length_cutText_le (skip isspace b.cut₁ (a + 1)) b.pipeChar
        (cutText (skip isspace b.cut₁ (a + 1)) b.redirChar (trimmed (b.line.drop (a + 1))))
      refine ⟨_, stringAt, ?_⟩
      rw [trimmed] at short shorter ⊢
      omega

/-- There is a character behind one that is not the NUL of the argument. -/
theorem points_argument {p : Nat} (isArg : behind b.bytes b.space = some p) :
    b.Points (some p) ∧ (b.cut₃.getD p 0 ≠ 0 → b.Points (some (p + 1))) := by
  rcases argument_inLine isArg with ⟨text, stringAt, inLine⟩
  exact points_of_stringAt stringAt inLine

/-- What is left when a text is cut off twice. -/
theorem cutText_takeWhile (line : List UInt8) (c : UInt8) (p : UInt8 → Bool) :
    cutText 0 (line.idxOf? c) (line.takeWhile p) = line.takeWhile fun d => p d && d ≠ c := by
  induction line with
  | nil => rfl
  | cons d rest ih =>
      rw [List.idxOf?_cons]
      by_cases here : d = c
      · simp [here, cutText]
      · have later : cutText 0 ((rest.idxOf? c).map (· + 1)) (d :: rest.takeWhile p) =
            d :: cutText 0 (rest.idxOf? c) (rest.takeWhile p) := by
          cases rest.idxOf? c <;> rfl
        cases keep : p d with
        | false =>
            rw [List.takeWhile_cons_of_neg (by simp [keep]), List.takeWhile_cons_of_neg (by simp [keep])]
            cases (if d == c then some 0 else (rest.idxOf? c).map (· + 1)) <;> simp [cutText]
        | true =>
            rw [List.takeWhile_cons_of_pos keep, List.takeWhile_cons_of_pos (by simp [keep, here]),
              ← ih, ← later]
            simp [here]

/-- The command of a line without a space. -/
theorem command_eq_takeWhile (noSpace : 0x20 ∉ b.line) :
    cstring b.cut₃ = b.line.takeWhile fun c => c ≠ 0x3e ∧ c ≠ 0x7c := by
  have isNone : b.space = none := List.idxOf?_eq_none_iff.mpr noSpace
  have all : b.line.takeWhile (fun _ => true) = b.line := by
    rw [List.takeWhile_eq_self_iff]
    exact fun _ _ => rfl
  have first := cutText_takeWhile b.line 0x3e fun _ => true
  rw [all] at first
  have second := cutText_takeWhile b.line 0x7c fun c => c ≠ 0x3e
  rw [command_eq, isNone]
  change cutText 0 (b.line.idxOf? 0x7c) (cutText 0 (b.line.idxOf? 0x3e) b.line) = _
  simp only [Bool.true_and] at first
  rw [first, second]
  congr 1
  funext c
  simp

/-- `ExecuteLine` uses the pointers into the line as it may exactly if it is refused by the
redirection, or if the command is not one of the two that need an argument. -/
theorem usesItsPointers_iff (b : LineBuffer) (answers : Answers) :
    b.UsesItsPointers answers ↔
      (0x3e ∈ b.line ∧ answers.refusal.isSome) ∨ ¬ b.LacksArgument := by
  have hasRedir : b.redirChar.isSome ↔ 0x3e ∈ b.line := List.isSome_idxOf?
  have noSpace : behind b.bytes b.space = none ↔ 0x20 ∉ b.line := by
    rw [behind, Option.map_eq_none_iff]
    exact List.idxOf?_eq_none_iff
  rw [← hasRedir]
  constructor
  · rintro ⟨o, yields⟩
    by_contra neither
    rw [not_or, not_not] at neither
    rcases neither with ⟨accepted, noArg, needs⟩
    have parts := (yields_executeLine.mp yields).2.2.2
    rw [if_neg accepted] at parts
    rcases parts with ⟨-, result, ran, -⟩
    rw [← command_eq_takeWhile noArg] at needs
    have null := readable_of_yields_runCommand ran needs
    rw [noSpace.mpr noArg] at null
    exact not_points_null null
  · intro either
    refine exists_yields_executeLine ⟨0, rfl, Nat.zero_le _⟩ passes_space passes_redirChar ?_
    intro accepted
    have notLacking := either.resolve_left accepted
    refine ⟨passes_pipeChar, exists_yields_runCommand ⟨0, rfl, Nat.zero_le _⟩ ?_ ?_⟩
    · exact fun p isArg => points_argument isArg
    · intro noArg needs
      have noSpace' := noSpace.mp noArg
      rw [command_eq_takeWhile noSpace'] at needs
      exact absurd ⟨noSpace', needs⟩ notLacking

/-- The line `ls`. -/
def lsLine : LineBuffer where
  bytes := [0x6c, 0x73, 0]
  terminated := by decide

/-- `ls` without a space looks at the first character of an argument that is not there. -/
theorem not_usesItsPointers_lsLine : ¬ lsLine.UsesItsPointers noFiles := by
  rintro ⟨o, yields⟩
  have parts := (yields_executeLine.mp yields).2.2.2
  have accepted : ¬ (lsLine.redirChar.isSome ∧ noFiles.refusal.isSome) := by decide
  rw [if_neg accepted] at parts
  rcases parts with ⟨-, result, ran, -⟩
  have null := readable_of_yields_runCommand ran (Or.inl (by decide))
  exact not_points_null null

end LineBuffer

end Mikanos.Terminal
