import Mikanos.Fat.Names
import Mathlib.Data.List.DropRight

/-!
# Names as they are printed

`FormatName` leaves out the blanks that fill up the two fields of a name.  What it prints is
found by `NameIsEqual`; but `NameIsEqual` finds the same entry under other names too.
-/

namespace Mikanos.Fat

open Mikanos.Memory

variable {n : Nat} {s base ext name : List UInt8}

/-- A field as a C string, after the blanks at its end have been replaced by NULs. -/
def trim (field : List UInt8) : List UInt8 :=
  (field.rdropWhile (· = space)).takeWhile (· ≠ 0)

/-- `ReadName`. -/
def readName (name : List UInt8) : List UInt8 × List UInt8 :=
  (trim (name.take 8), trim ((name.drop 8).take 3))

/-- The base, and the extension behind a dot if there is one. -/
def joinName (base ext : List UInt8) : List UInt8 :=
  if ext ≠ [] then base ++ dot :: ext else base

/-- `FormatName`. -/
def formatName (name : List UInt8) : List UInt8 :=
  joinName (readName name).1 (readName name).2

/-- The string that `FormatName` makes for an entry. -/
def Volume.formatName (v : Volume) (entry : Nat) : List UInt8 :=
  Mikanos.Fat.formatName (v.name entry)

/-! ## Short names -/

/-- A part of a name, without the blanks that fill up its field. -/
structure IsPart (n : Nat) (s : List UInt8) : Prop where
  fits : s.length ≤ n
  noDot : dot ∉ s
  noBlank : s.getLast? ≠ some space

/-- A part in its field. -/
def pad (n : Nat) (s : List UInt8) : List UInt8 :=
  s ++ List.replicate (n - s.length) space

/-- The name of an entry is a short name in upper case. -/
def ValidName (name : List UInt8) : Prop :=
  ∃ base ext, base ≠ [] ∧ IsPart 8 base ∧ IsPart 3 ext ∧ IsAscii (base ++ ext) ∧
    (∀ c ∈ base ++ ext, toupper c = c) ∧ name = pad 8 base ++ pad 3 ext

/-- A string of 8.3 form: a base, and perhaps one dot and an extension. -/
def EightThree (name : List UInt8) : Prop :=
  ∃ base ext, base ≠ [] ∧ IsPart 8 base ∧ IsPart 3 ext ∧ name = joinName base ext

@[simp]
theorem length_pad (fits : s.length ≤ n) : (pad n s).length = n := by
  rw [pad, List.length_append, List.length_replicate]
  omega

theorem field_eq_pad (fits : s.length ≤ n) : field n s = pad n (s.map toupper) := by
  rw [field, List.take_of_length_le fits, pad]

theorem toupper_eq_dot {c : UInt8} : toupper c = dot ↔ c = dot := by
  constructor
  · exact toupper_eq_iff (by decide)
  · rintro rfl
    decide

theorem toupper_eq_space {c : UInt8} : toupper c = space ↔ c = space := by
  constructor
  · exact toupper_eq_iff (by decide)
  · rintro rfl
    decide

@[simp]
theorem toupper_toupper (c : UInt8) : toupper (toupper c) = toupper c := by
  rcases toupper_cases c with same | ⟨-, upper⟩
  · rw [same, same]
  · rw [toupper, if_neg]
    rintro ⟨lower, -⟩
    exact absurd (UInt8.le_trans lower upper) (by decide)

/-- The case of its characters does not matter for a part. -/
theorem isPart_map : IsPart n (s.map toupper) ↔ IsPart n s := by
  have dots : dot ∈ s.map toupper ↔ dot ∈ s := by
    rw [List.mem_map]
    constructor
    · rintro ⟨c, member, isDot⟩
      exact toupper_eq_dot.mp isDot ▸ member
    · exact fun member => ⟨dot, member, by decide⟩
  have blanks : (s.map toupper).getLast? = some space ↔ s.getLast? = some space := by
    rw [List.getLast?_map, Option.map_eq_some_iff]
    simp only [toupper_eq_space, exists_eq_right]
  constructor
  · rintro ⟨fits, noDot, noBlank⟩
    exact ⟨by simpa using fits, fun member => noDot (dots.mpr member), fun last => noBlank (blanks.mpr last)⟩
  · rintro ⟨fits, noDot, noBlank⟩
    exact ⟨by simpa using fits, fun member => noDot (dots.mp member), fun last => noBlank (blanks.mp last)⟩

theorem joinName_map (base ext : List UInt8) :
    (joinName base ext).map toupper = joinName (base.map toupper) (ext.map toupper) := by
  rw [joinName, joinName]
  by_cases none : ext = []
  · rw [none]
    rfl
  · rw [if_pos none, if_pos (by simpa using none), List.map_append, List.map_cons,
      toupper_eq_dot.mpr rfl]

/-- A string has 8.3 form if it has it in upper case. -/
theorem eightThree_of_map (form : EightThree (name.map toupper)) : EightThree name := by
  rcases form with ⟨base, ext, nonempty, isBase, isExt, equal⟩
  rw [joinName] at equal
  split at equal
  · rcases List.map_eq_append_iff.mp equal with ⟨before, after, rfl, rfl, behind⟩
    rcases List.map_eq_cons_iff.mp behind with ⟨c, ext, rfl, isDot, rfl⟩
    rw [toupper_eq_dot] at isDot
    subst isDot
    refine ⟨before, ext, by simpa using nonempty, isPart_map.mp isBase, isPart_map.mp isExt, ?_⟩
    rename_i some
    rw [joinName, if_pos (by simpa using some)]
  · subst equal
    exact ⟨name, [], by simpa using nonempty, isPart_map.mp isBase, ⟨by simp, by simp, by simp⟩, rfl⟩

/-! ## Printing -/

theorem rdropWhile_pad (noBlank : s.getLast? ≠ some space) (n : Nat) :
    (pad n s).rdropWhile (· = space) = s := by
  have drops (k : Nat) : (s ++ List.replicate k space).rdropWhile (· = space) = s := by
    induction k with
    | zero =>
        rw [List.replicate_zero, List.append_nil, List.rdropWhile_eq_self_iff]
        intro nonempty isBlank
        rw [List.getLast?_eq_getLast_of_ne_nil nonempty] at noBlank
        exact noBlank (congrArg some (of_decide_eq_true isBlank))
    | succ k ih =>
        rw [List.replicate_succ', ← List.append_assoc, List.rdropWhile_concat_pos _ _ _ (by simp), ih]
  exact drops _

/-- A part is read back from its field. -/
theorem trim_pad (part : IsPart n s) (noNul : ∀ c ∈ s, c ≠ 0) : trim (pad n s) = s := by
  rw [trim, rdropWhile_pad part.noBlank, List.takeWhile_eq_self_iff]
  exact fun c member => decide_eq_true (noNul c member)

theorem formatName_pad (isBase : IsPart 8 base) (isExt : IsPart 3 ext)
    (noNul : ∀ c ∈ base ++ ext, c ≠ 0) : formatName (pad 8 base ++ pad 3 ext) = joinName base ext := by
  have first : (pad 8 base ++ pad 3 ext).take 8 = pad 8 base :=
    List.take_left' (length_pad isBase.fits)
  have second : ((pad 8 base ++ pad 3 ext).drop 8).take 3 = pad 3 ext := by
    rw [List.drop_left' (length_pad isBase.fits), List.take_of_length_le (length_pad isExt.fits).le]
  rw [formatName, readName, first, second,
    trim_pad isBase fun c member => noNul c (List.mem_append_left _ member),
    trim_pad isExt fun c member => noNul c (List.mem_append_right _ member)]

/-- The blanks at the end of a field can be told from the part in it. -/
theorem pad_rdropWhile (width : s.length = n) : pad n (s.rdropWhile (· = space)) = s := by
  have split := List.rdropWhile_append_rtakeWhile (p := fun c : UInt8 => decide (c = space)) (l := s)
  have blanks : s.rtakeWhile (· = space) = List.replicate (s.rtakeWhile (· = space)).length space := by
    apply List.eq_replicate_of_mem
    intro c member
    exact of_decide_eq_true (List.mem_rtakeWhile_imp (p := fun c : UInt8 => decide (c = space)) member)
  have lengths := congrArg List.length split
  rw [List.length_append, width] at lengths
  rw [pad, show n - (s.rdropWhile (· = space)).length = (s.rtakeWhile (· = space)).length by omega,
    ← blanks, split]

theorem isPart_rdropWhile (width : s.length = n) (noDot : dot ∉ s) :
    IsPart n (s.rdropWhile (· = space)) := by
  have isPrefix : s.rdropWhile (· = space) <+: s := List.rdropWhile_prefix _ _
  constructor
  · exact width ▸ isPrefix.length_le
  · exact fun member => noDot (isPrefix.subset member)
  · intro last
    have nonempty : s.rdropWhile (· = space) ≠ [] := by
      intro none
      rw [none] at last
      cases last
    rw [List.getLast?_eq_getLast_of_ne_nil nonempty] at last
    exact List.rdropWhile_last_not _ _ nonempty (decide_eq_true (Option.some.inj last))

/-! ## What is compared -/

theorem name83Loop_map (name : List UInt8) (i : Nat) (acc : List UInt8) :
    name83Loop (name.map toupper) i acc = name83Loop name i acc := by
  induction name generalizing i acc with
  | nil => rfl
  | cons c name ih =>
      rw [List.map_cons, name83Loop, name83Loop]
      simp only [toupper_eq_dot, toupper_toupper, ih]

theorem name83_map (name : List UInt8) : name83 (name.map toupper) = name83 name :=
  name83Loop_map name 0 _

/-- The two fields of a name of 8.3 form. -/
theorem name83_joinName (isBase : IsPart 8 base) (isExt : IsPart 3 ext) :
    name83 (joinName base ext) = pad 8 (base.map toupper) ++ pad 3 (ext.map toupper) := by
  rw [← field_eq_pad isBase.fits, ← field_eq_pad isExt.fits, joinName]
  split
  · exact name83_extension isBase.fits isBase.noDot isExt.noDot
  · rename_i none
    rw [not_not.mp none]
    exact name83_base isBase.fits isBase.noDot

theorem name83Loop_take {i k : Nat} (le : k ≤ i) (name acc : List UInt8) (width : k ≤ 8) :
    (name83Loop name i acc).take k = acc.take k := by
  induction name generalizing i acc with
  | nil => rfl
  | cons c name ih =>
      rw [name83Loop]
      split
      · split
        · exact ih width acc
        · rw [ih (by omega), List.take_set_of_le le]
      · rfl

/-- The first field holds what comes before the first dot, cut to eight characters. -/
theorem name83_take (name : List UInt8) : (name83 name).take 8 = field 8 (name.takeWhile (· ≠ dot)) := by
  have split := List.takeWhile_append_dropWhile (p := fun c : UInt8 => decide (c ≠ dot)) (l := name)
  have noDot : dot ∉ name.takeWhile (· ≠ dot) := fun member => by
    simpa using List.mem_takeWhile_imp member
  have behind : name.dropWhile (· ≠ dot) = [] ∨ ∃ rest, name.dropWhile (· ≠ dot) = dot :: rest := by
    cases drop : name.dropWhile (· ≠ dot) with
    | nil => exact .inl rfl
    | cons c rest =>
        have isDot := List.head_dropWhile_not (fun c : UInt8 => decide (c ≠ dot)) (l := name)
          (by rw [drop]; exact List.cons_ne_nil _ _)
        simp only [drop, List.head_cons, decide_eq_false_iff_not, not_not] at isDot
        exact .inr ⟨rest, by rw [isDot]⟩
  generalize name.takeWhile (· ≠ dot) = chars at *
  generalize name.dropWhile (· ≠ dot) = rest at *
  subst split
  by_cases fits : chars.length ≤ 8
  · rw [name83_append rest fits noDot, ← field_append_blank fits]
    rcases behind with rfl | ⟨rest, rfl⟩
    · exact List.take_left' (length_field 8 chars)
    · rw [name83Loop, if_pos (by omega), if_pos rfl, name83Loop_take le_rfl _ _ le_rfl]
      exact List.take_left' (length_field 8 chars)
  · have eight : (chars.take 8).length = 8 := by
      simp
      omega
    have start := name83_append (chars.drop 8 ++ rest) eight.le
      fun member => noDot (List.mem_of_mem_take member)
    rw [← List.append_assoc, List.take_append_drop, eight] at start
    rw [start, name83Loop_take le_rfl _ _ le_rfl, List.take_left' (by simpa using eight), field_eq,
      if_pos (by omega), List.map_take]

/-- What is compared is a short name, unless its first field is blank. -/
theorem validName_name83 (ascii : IsAscii name)
    (notBlank : ¬ ∀ c ∈ (name.takeWhile (· ≠ dot)).take 8, c = space) : ValidName (name83 name) := by
  have width : ((name83 name).take 8).length = 8 := by
    rw [List.length_take, length_name83]
    rfl
  have width' : ((name83 name).drop 8).length = 3 := by rw [List.length_drop, length_name83]
  have chars : ∀ c ∈ name83 name, (c ≠ 0 ∧ c < 0x80) ∧ c ≠ dot ∧ toupper c = c := by
    intro c member
    rcases mem_name83Loop member with blank | ⟨d, inName, notDot, rfl⟩
    · rw [List.eq_of_mem_replicate blank]
      decide
    · rcases ascii d inName with ⟨noNul, small⟩
      refine ⟨⟨fun nul => noNul (toupper_eq_iff (by decide) nul), toupper_lt small⟩, ?_, toupper_toupper d⟩
      exact fun isDot => notDot (toupper_eq_dot.mp isDot)
  have noDot : dot ∉ name83 name := fun member => (chars dot member).2.1 rfl
  have sub : ∀ c ∈ ((name83 name).take 8).rdropWhile (· = space) ++
      ((name83 name).drop 8).rdropWhile (· = space), c ∈ name83 name := by
    intro c member
    rcases List.mem_append.mp member with inBase | inExt
    · exact List.mem_of_mem_take ((List.rdropWhile_prefix _ _).subset inBase)
    · exact List.mem_of_mem_drop ((List.rdropWhile_prefix _ _).subset inExt)
  refine ⟨_, _, ?_, isPart_rdropWhile width fun member => noDot (List.mem_of_mem_take member),
    isPart_rdropWhile width' fun member => noDot (List.mem_of_mem_drop member),
    fun c member => (chars c (sub c member)).1, fun c member => (chars c (sub c member)).2.2, ?_⟩
  · rw [Ne, List.rdropWhile_eq_nil_iff, name83_take]
    intro blank
    apply notBlank
    intro c member
    have inField : toupper c ∈ field 8 (name.takeWhile (· ≠ dot)) :=
      List.mem_append_left _ (List.mem_map_of_mem member)
    exact toupper_eq_space.mp (of_decide_eq_true (blank _ inField))
  · rw [pad_rdropWhile width, pad_rdropWhile width', List.take_append_drop]

/-! ## When only one name is found -/

/-- What is printed for an entry is found, in whatever case. -/
theorem name83_of_formatName {entryName : List UInt8} (valid : ValidName entryName)
    (printed : name.map toupper = formatName entryName) : name83 name = entryName := by
  rcases valid with ⟨base, ext, -, isBase, isExt, ascii, upper, rfl⟩
  have same (part : List UInt8) (upper : ∀ c ∈ part, toupper c = c) : part.map toupper = part :=
    (List.map_congr_left upper).trans (List.map_id part)
  rw [formatName_pad isBase isExt fun c member => (ascii c member).1] at printed
  rw [← name83_map, printed, name83_joinName isBase isExt,
    same base fun c member => upper c (List.mem_append_left _ member),
    same ext fun c member => upper c (List.mem_append_right _ member)]

/-- A string of 8.3 form finds only what is printed like it. -/
theorem formatName_name83 (ascii : IsAscii name) (form : EightThree name) :
    formatName (name83 name) = name.map toupper := by
  rcases form with ⟨base, ext, nonempty, isBase, isExt, rfl⟩
  have noNul : ∀ c ∈ base.map toupper ++ ext.map toupper, c ≠ 0 := by
    rw [← List.map_append]
    intro c member
    rcases List.mem_map.mp member with ⟨d, inName, rfl⟩
    have inJoined : d ∈ joinName base ext := by
      rw [joinName]
      split
      · rcases List.mem_append.mp inName with inBase | inExt
        · exact List.mem_append_left _ inBase
        · exact List.mem_append_right _ (List.mem_cons_of_mem _ inExt)
      · rename_i none
        rwa [not_not.mp none, List.append_nil] at inName
    exact fun nul => (ascii d inJoined).1 (toupper_eq_iff (by decide) nul)
  rw [name83_joinName isBase isExt, formatName_pad (isPart_map.mpr isBase) (isPart_map.mpr isExt) noNul,
    joinName_map]

/-- A name whose first field is blank finds no short name. -/
theorem not_validName_of_blank (blank : ∀ c ∈ (name.takeWhile (· ≠ dot)).take 8, c = space) :
    ¬ ValidName (name83 name) := by
  rintro ⟨base, ext, nonempty, isBase, -, -, -, equal⟩
  have first := congrArg (List.take 8) equal
  rw [name83_take, List.take_left' (length_pad isBase.fits), field,
    List.eq_replicate_of_mem (a := space) (l := ((name.takeWhile (· ≠ dot)).take 8).map toupper),
    List.replicate_append_replicate] at first
  · apply isBase.noBlank
    rw [List.getLast?_eq_getLast_of_ne_nil nonempty]
    have member : base.getLast nonempty ∈ pad 8 base :=
      List.mem_append_left _ (List.getLast_mem nonempty)
    rw [← first] at member
    rw [List.eq_of_mem_replicate member]
  · intro c member
    rcases List.mem_map.mp member with ⟨d, inField, rfl⟩
    exact toupper_eq_space.mpr (blank d inField)

namespace Volume

/-- A volume with the given bytes. -/
theorem exists_name {bytes : List UInt8} (width : bytes.length = 11) :
    ∃ (v : Volume) (entry : Nat), v.name entry = bytes := by
  refine ⟨⟨⟨512, 1, 32, 2, 38, 1, 2⟩, fun a => bytes.getD a 0⟩, 0, ?_⟩
  apply List.ext_getElem
  · rw [name, Mem.length_bytes, width]
  · intro i lt lt'
    simp [name, Mem.bytes, List.getElem?_eq_getElem lt']

/-- A string matches the short names exactly as they are printed if and only if it has 8.3 form,
or nothing but blanks in the characters that are compared with the first field. -/
theorem nameIsEqual_exact_iff (ascii : IsAscii name) :
    (∀ (v : Volume) (entry : Nat), ValidName (v.name entry) →
      (v.nameIsEqual entry name = true ↔ name.map toupper = v.formatName entry)) ↔
    EightThree name ∨ ∀ c ∈ (name.takeWhile (· ≠ dot)).take 8, c = space := by
  simp only [nameIsEqual, beq_iff_eq, formatName]
  constructor
  · intro exact
    by_cases blank : ∀ c ∈ (name.takeWhile (· ≠ dot)).take 8, c = space
    · exact .inr blank
    · left
      have valid := validName_name83 ascii blank
      rcases exists_name (length_name83 name) with ⟨v, entry, named⟩
      have printed := (exact v entry (named.symm ▸ valid)).mp named
      rw [named] at printed
      rcases valid with ⟨base, ext, nonempty, isBase, isExt, ascii', -, equal⟩
      rw [equal, formatName_pad isBase isExt fun c member => (ascii' c member).1] at printed
      exact eightThree_of_map ⟨base, ext, nonempty, isBase, isExt, printed⟩
  · intro condition v entry valid
    constructor
    · intro equal
      have equal : v.name entry = name83 name := equal
      rcases condition with form | blank
      · rw [equal, formatName_name83 ascii form]
      · exact absurd (equal ▸ valid) (not_validName_of_blank blank)
    · exact fun printed => (name83_of_formatName valid printed).symm

theorem nameIsEqual_exact_iff_ab :
    (∀ (v : Volume) (entry : Nat), ValidName (v.name entry) →
      (v.nameIsEqual entry [0x61, dot, 0x62] = true ↔
        [0x61, dot, 0x62].map toupper = v.formatName entry)) ↔
    EightThree [0x61, dot, 0x62] ∨
      ∀ c ∈ ([0x61, dot, 0x62].takeWhile (· ≠ dot)).take 8, c = space :=
  @nameIsEqual_exact_iff [0x61, dot, 0x62] (by unfold IsAscii; decide +kernel)

/-- `foo.` finds the entry that is printed as `FOO`. -/
theorem not_nameIsEqual_exact :
    ¬ ∀ (v : Volume) (entry : Nat) (name : List UInt8), IsAscii name → ValidName (v.name entry) →
      (v.nameIsEqual entry name = true ↔ name.map toupper = v.formatName entry) := by
  intro exact
  have valid : ValidName ([0x46, 0x4f, 0x4f] ++ List.replicate 8 space) := by
    refine ⟨[0x46, 0x4f, 0x4f], [], by decide, ⟨by decide, by decide +kernel, by decide +kernel⟩,
      ⟨by decide, by decide, by decide⟩, ?_, by decide +kernel, by decide +kernel⟩
    unfold IsAscii
    decide +kernel
  rcases @exists_name ([0x46, 0x4f, 0x4f] ++ List.replicate 8 space) rfl with ⟨v, entry, named⟩
  have iff := exact v entry [0x66, 0x6f, 0x6f, dot] (by unfold IsAscii; decide +kernel) (named.symm ▸ valid)
  rw [nameIsEqual, formatName, named] at iff
  exact absurd iff (by decide +kernel)

end Volume

end Mikanos.Fat
