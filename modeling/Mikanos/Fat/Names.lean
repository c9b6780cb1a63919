import Mikanos.Fat.Directory

/-!
# Names

A name in a path is compared with the name of an entry after it has been brought
into the form of the entry.  `NameIsEqual` and `SetFileName` do this in different
ways, which agree on the names of 8.3 format.
-/

namespace Mikanos.Fat

open Mikanos.Memory

/-- What `NameIsEqual` compares with the name of an entry. -/
def name83 (name : List UInt8) : List UInt8 :=
  name83Loop name 0 (List.replicate 11 space)

/-- A character that may stand in a name of 8.3 format. -/
def NameChar (c : UInt8) : Prop :=
  space < c ∧ c < 0x7f ∧ c ≠ dot ∧ c ≠ slash

instance (c : UInt8) : Decidable (NameChar c) :=
  inferInstanceAs (Decidable (_ ∧ _))

/-- A name of 8.3 format: a base, and an extension that may be missing. -/
inductive IsShortName : List UInt8 → Prop
  | base {base : List UInt8} : base ≠ [] → base.length ≤ 8 → (∀ c ∈ base, NameChar c) →
      IsShortName base
  | extension {base ext : List UInt8} : base ≠ [] → base.length ≤ 8 → (∀ c ∈ base, NameChar c) →
      ext ≠ [] → ext.length ≤ 3 → (∀ c ∈ ext, NameChar c) → IsShortName (base ++ dot :: ext)

/-! ## Characters -/

theorem toupper_lt {c : UInt8} (ascii : c < 0x80) : toupper c < 0x80 := by
  rw [toupper]
  split
  · rename_i lower
    rw [UInt8.lt_iff_toNat_lt, UInt8.toNat_sub_of_le _ _ (by
      rw [UInt8.le_iff_toNat_le] at lower ⊢
      exact (show (0x20 : UInt8).toNat ≤ (0x61 : UInt8).toNat by decide).trans lower.1)]
    rw [UInt8.lt_iff_toNat_lt] at ascii
    omega
  · exact ascii

/-- `toupper` maps only letters, and these to letters. -/
theorem toupper_cases (c : UInt8) : toupper c = c ∨ 0x41 ≤ toupper c ∧ toupper c ≤ 0x5a := by
  rw [toupper]
  split
  · rename_i lower
    right
    have sub := UInt8.toNat_sub_of_le c 0x20 (by
      rw [UInt8.le_iff_toNat_le] at lower ⊢
      exact (show (0x20 : UInt8).toNat ≤ (0x61 : UInt8).toNat by decide).trans lower.1)
    simp only [UInt8.le_iff_toNat_le, sub] at lower ⊢
    have : (0x20 : UInt8).toNat = 0x20 := rfl
    have : (0x41 : UInt8).toNat = 0x41 := rfl
    have : (0x5a : UInt8).toNat = 0x5a := rfl
    have : (0x61 : UInt8).toNat = 0x61 := rfl
    have : (0x7a : UInt8).toNat = 0x7a := rfl
    omega
  · exact .inl rfl

/-- A character that is no letter in upper case comes only from itself. -/
theorem toupper_eq_iff {c d : UInt8} (noLetter : d < 0x41) : toupper c = d → c = d := by
  intro upper
  rcases toupper_cases c with same | ⟨letter, -⟩
  · exact same.symm.trans upper
  · rw [upper] at letter
    exact absurd letter (UInt8.not_le.mpr noLetter)

/-! ## The two conversions -/

@[simp]
theorem length_name83Loop (name : List UInt8) (i83 : Nat) (acc : List UInt8) :
    (name83Loop name i83 acc).length = acc.length := by
  induction name generalizing i83 acc with
  | nil => rfl
  | cons c name ih =>
      rw [name83Loop]
      split
      · split
        · exact ih 8 acc
        · rw [ih, List.length_set]
      · rfl

theorem length_name83 (name : List UInt8) : (name83 name).length = 11 := by
  rw [name83, length_name83Loop, List.length_replicate]

/-- Every character of the result comes from the name. -/
theorem mem_name83Loop {name : List UInt8} {i83 : Nat} {acc : List UInt8} {x : UInt8}
    (member : x ∈ name83Loop name i83 acc) :
    x ∈ acc ∨ ∃ c ∈ name, c ≠ dot ∧ x = toupper c := by
  induction name generalizing i83 acc with
  | nil => exact .inl member
  | cons c name ih =>
      have later : (∃ d ∈ name, d ≠ dot ∧ x = toupper d) → ∃ d ∈ c :: name, d ≠ dot ∧ x = toupper d := by
        rintro ⟨d, inName, facts⟩
        exact ⟨d, List.mem_cons_of_mem _ inName, facts⟩
      rw [name83Loop] at member
      split at member
      · split at member
        · rcases ih member with inAcc | found
          · exact .inl inAcc
          · exact .inr (later found)
        · rename_i notDot
          rcases ih member with inSet | found
          · rcases List.mem_or_eq_of_mem_set inSet with inAcc | same
            · exact .inl inAcc
            · exact .inr ⟨c, List.mem_cons_self, notDot, same⟩
          · exact .inr (later found)
      · exact .inl member

/-- No dot is compared. -/
theorem dot_not_mem_name83 (name : List UInt8) : dot ∉ name83 name := by
  intro member
  rcases mem_name83Loop member with blank | ⟨c, -, notDot, isDot⟩
  · exact absurd (List.eq_of_mem_replicate blank) (by decide)
  · exact notDot (toupper_eq_iff (by decide) isDot.symm)

theorem strrchr_eq_none {s : List UInt8} {c : UInt8} (absent : c ∉ s) : strrchr s c = none := by
  rw [strrchr, List.findIdx?_eq_none_iff.mpr]
  · rfl
  · intro x member
    rw [List.mem_reverse] at member
    simp only [decide_eq_false_iff_not]
    rintro rfl
    exact absent member

/-- The last occurrence of a character. -/
theorem strrchr_append (before : List UInt8) {after : List UInt8} {c : UInt8} (absent : c ∉ after) :
    strrchr (before ++ c :: after) c = some before.length := by
  have found : (before ++ c :: after).reverse.findIdx? (· = c) = some after.length := by
    rw [List.reverse_append, List.reverse_cons, List.append_assoc, List.findIdx?_append,
      List.findIdx?_eq_none_iff.mpr]
    · rw [List.singleton_append, List.findIdx?_cons]
      simp
    · intro x member
      rw [List.mem_reverse] at member
      simp only [decide_eq_false_iff_not]
      rintro rfl
      exact absent member
  rw [strrchr, found, Option.map_some, List.length_append, List.length_cons]
  congr 1
  omega

/-- A list splits at the last occurrence of a character. -/
theorem exists_last {s : List UInt8} {c : UInt8} (member : c ∈ s) :
    ∃ before after, s = before ++ c :: after ∧ c ∉ after := by
  rcases List.eq_append_cons_of_mem (List.mem_reverse.mpr member) with ⟨after, before, split, absent⟩
  refine ⟨before.reverse, after.reverse, ?_, fun inAfter => absent (List.mem_reverse.mp inAfter)⟩
  rw [← List.reverse_reverse s, split, List.reverse_append, List.reverse_cons, List.append_assoc,
    List.singleton_append]

/-- `NameIsEqual` on a part without a dot: it fills the columns, or goes on behind the part. -/
theorem name83Loop_part {chars : List UInt8} (rest pre old : List UInt8) (noDot : dot ∉ chars)
    (width : pre.length + old.length = 11) :
    name83Loop (chars ++ rest) pre.length (pre ++ old) =
      if old.length ≤ chars.length then pre ++ (chars.map toupper).take old.length
      else name83Loop rest (pre.length + chars.length)
        (pre ++ chars.map toupper ++ old.drop chars.length) := by
  induction chars generalizing pre old with
  | nil =>
      cases old with
      | nil =>
          rw [List.length_nil, Nat.add_zero] at width
          cases rest <;> simp [name83Loop, width]
      | cons x old => simp
  | cons c chars ih =>
      rw [List.mem_cons, not_or] at noDot
      cases old with
      | nil =>
          rw [List.length_nil, Nat.add_zero] at width
          simp [name83Loop, width]
      | cons x old =>
          rw [List.length_cons] at width
          have set : (pre ++ x :: old).set pre.length (toupper c) = pre ++ [toupper c] ++ old := by
            rw [List.set_append_right _ _ le_rfl, Nat.sub_self]
            simp
          have step := ih (pre ++ [toupper c]) old noDot.2 (by simp; omega)
          rw [List.length_append, List.length_singleton] at step
          rw [List.cons_append, name83Loop, if_pos (by omega), if_neg (Ne.symm noDot.1), set, step]
          simp only [List.length_cons, Nat.add_le_add_iff_right, List.map_cons, List.take_succ_cons,
            List.drop_succ_cons, List.append_assoc, List.cons_append, List.nil_append,
            Nat.add_assoc, Nat.add_comm 1]

/-- The characters of a part, cut or padded. -/
theorem field_eq (n : Nat) (s : List UInt8) :
    field n s =
      if n ≤ s.length then (s.map toupper).take n
      else s.map toupper ++ List.replicate (n - s.length) space := by
  rw [field, List.map_take]
  split
  · rename_i full
    have filled : n - ((s.map toupper).take n).length = 0 := by
      simp
      omega
    rw [filled, List.replicate_zero, List.append_nil]
  · rename_i short
    rw [List.take_of_length_le (by simp; omega), List.length_map]

@[simp]
theorem length_field (n : Nat) (s : List UInt8) : (field n s).length = n := by
  rw [field, List.length_append, List.length_replicate, List.length_map, List.length_take]
  omega

/-- The first characters stay where they are. -/
theorem name83_append {chars : List UInt8} (rest : List UInt8) (fits : chars.length ≤ 8)
    (noDot : dot ∉ chars) :
    name83 (chars ++ rest) =
      name83Loop rest chars.length (chars.map toupper ++ List.replicate (11 - chars.length) space) := by
  have part := name83Loop_part rest [] (List.replicate 11 space) noDot (by simp)
  rw [if_neg (by simp; omega), List.drop_replicate, List.length_nil, Nat.zero_add] at part
  exact part

theorem field_append_blank {base : List UInt8} (fits : base.length ≤ 8) :
    field 8 base ++ List.replicate 3 space =
      base.map toupper ++ List.replicate (11 - base.length) space := by
  have blanks : 8 - (base.map toupper).length + 3 = 11 - base.length := by
    rw [List.length_map]
    omega
  rw [field, List.take_of_length_le fits, List.append_assoc, List.replicate_append_replicate, blanks]

/-- A base that fits is compared as it is stored. -/
theorem name83_base {base : List UInt8} (fits : base.length ≤ 8) (noDot : dot ∉ base) :
    name83 base = field 8 base ++ List.replicate 3 space := by
  have start := name83_append [] fits noDot
  rw [List.append_nil, name83Loop] at start
  rw [start, field_append_blank fits]

/-- So is the extension behind it. -/
theorem name83_extension {base ext : List UInt8} (fits : base.length ≤ 8) (noDot : dot ∉ base)
    (noDot' : dot ∉ ext) : name83 (base ++ dot :: ext) = field 8 base ++ field 3 ext := by
  have part := name83Loop_part [] (field 8 base) (List.replicate 3 space) noDot' (by simp)
  rw [length_field, List.length_replicate, List.append_nil] at part
  rw [name83_append _ fits noDot, ← field_append_blank fits, name83Loop, if_pos (by omega), if_pos rfl,
    part, field_eq 3 ext]
  split
  · rfl
  · rw [name83Loop, List.append_assoc, List.drop_replicate]

/-- What comes before the last dot, or all of the name. -/
def baseOf (name : List UInt8) : List UInt8 :=
  match strrchr name dot with
  | some dotPos => name.take dotPos
  | none => name

/-- What comes after the last dot. -/
def extensionOf (name : List UInt8) : List UInt8 :=
  match strrchr name dot with
  | some dotPos => name.drop (dotPos + 1)
  | none => []

theorem shortName_eq_fields (name : List UInt8) :
    shortName name = field 8 (baseOf name) ++ field 3 (extensionOf name) := by
  rw [shortName, baseOf, extensionOf]
  cases strrchr name dot <;> rfl

theorem parts_of_split {base ext : List UInt8} (last : dot ∉ ext) :
    baseOf (base ++ dot :: ext) = base ∧ extensionOf (base ++ dot :: ext) = ext := by
  rw [baseOf, extensionOf, strrchr_append base last]
  constructor
  · exact List.take_left
  · exact List.drop_length_add_append 1

theorem parts_of_noDot {name : List UInt8} (noDot : dot ∉ name) : baseOf name = name ∧ extensionOf name = [] := by
  rw [baseOf, extensionOf, strrchr_eq_none noDot]
  exact ⟨rfl, rfl⟩

theorem length_shortName (name : List UInt8) : (shortName name).length = 11 := by
  rw [shortName_eq_fields, List.length_append, length_field, length_field]

/-- The name that `SetFileName` has stored. -/
theorem Volume.name_setFileName (v : Volume) (entry : Nat) (name : List UInt8) :
    (v.setFileName entry name).name entry = shortName name := by
  rw [Volume.name, setFileName]
  apply List.ext_getElem
  · rw [Mem.length_bytes, length_shortName]
  · intro i lt lt'
    rw [Mem.length_bytes] at lt
    simp only [Mem.bytes, List.getElem_map, List.getElem_range, Mem.copyTo_add_apply i lt]
    rw [List.getD_eq_getElem?_getD, List.getElem?_eq_getElem lt', Option.getD_some]

theorem NameChar.ne_dot {c : UInt8} (nameChar : NameChar c) : c ≠ dot :=
  nameChar.2.2.1

/-- On a name of 8.3 format the two conversions agree. -/
theorem IsShortName.shortName_eq {name : List UInt8} (short : IsShortName name) :
    shortName name = name83 name := by
  cases short with
  | base _ fits chars =>
      have noDot : dot ∉ name := fun member => (chars dot member).ne_dot rfl
      rw [shortName_eq_fields, (parts_of_noDot noDot).1, (parts_of_noDot noDot).2,
        name83_base fits noDot]
      rfl
  | @extension base ext _ fits chars _ _ chars' =>
      have noDot : dot ∉ base := fun member => (chars dot member).ne_dot rfl
      have noDot' : dot ∉ ext := fun member => (chars' dot member).ne_dot rfl
      rw [shortName_eq_fields, (parts_of_split noDot').1, (parts_of_split noDot').2,
        name83_extension fits noDot noDot']

/-! ## The first character -/

/-- The characters of a path; `toupper` is defined for these. -/
def IsAscii (path : List UInt8) : Prop :=
  ∀ c ∈ path, c ≠ 0 ∧ c < 0x80

/-- The name in an entry that a lookup finds is neither that of a deleted entry nor
that of `.` or `..`. -/
theorem head_name83 {name : List UInt8} (ascii : IsAscii name) {c : UInt8}
    (member : c ∈ name83 name) : c ≠ 0xe5 ∧ c ≠ dot := by
  constructor
  · rintro rfl
    rcases mem_name83Loop member with blank | ⟨d, inName, -, deleted⟩
    · exact absurd (List.eq_of_mem_replicate blank) (by decide)
    · have small := toupper_lt (ascii d inName).2
      rw [← deleted] at small
      exact absurd small (by decide)
  · exact fun isDot => dot_not_mem_name83 name (isDot ▸ member)

theorem NameChar.ascii {c : UInt8} (nameChar : NameChar c) : c ≠ 0 ∧ c < 0x80 := by
  rcases nameChar with ⟨lower, upper, -, -⟩
  constructor
  · rintro rfl
    exact absurd lower (by decide)
  · exact UInt8.lt_trans upper (by decide)

theorem NameChar.toupper_ne {c x : UInt8} (nameChar : NameChar c) (low : x ≤ space) :
    toupper c ≠ x := by
  intro upper
  have same : c = x := toupper_eq_iff (UInt8.lt_of_le_of_lt low (by decide)) upper
  rw [same] at nameChar
  exact absurd nameChar.1 (UInt8.not_lt.mpr low)

namespace IsShortName

variable {name : List UInt8}

theorem isAscii (short : IsShortName name) : IsAscii name := by
  cases short with
  | base _ _ chars => exact fun c member => (chars c member).ascii
  | extension _ _ chars _ _ chars' =>
      intro c member
      rcases List.mem_append.mp member with inBase | inExt
      · exact (chars c inBase).ascii
      · rcases List.mem_cons.mp inExt with rfl | inExt
        · decide
        · exact (chars' c inExt).ascii

theorem slash_not_mem (short : IsShortName name) : slash ∉ name := by
  cases short with
  | base _ _ chars => exact fun member => (chars slash member).2.2.2 rfl
  | extension _ _ chars _ _ chars' =>
      intro member
      rcases List.mem_append.mp member with inBase | inExt
      · exact (chars slash inBase).2.2.2 rfl
      · rcases List.mem_cons.mp inExt with isDot | inExt
        · exact absurd isDot (by decide)
        · exact (chars' slash inExt).2.2.2 rfl

theorem length_le (short : IsShortName name) : name.length ≤ 12 := by
  cases short with
  | base _ fits _ => omega
  | extension _ fits _ _ fits' _ =>
      rw [List.length_append, List.length_cons]
      omega

theorem ne_nil (short : IsShortName name) : name ≠ [] := by
  cases short with
  | base nonempty _ _ => exact nonempty
  | extension nonempty _ _ _ _ _ => simp

/-- The converted name begins with the first character of the name. -/
theorem head?_name83 (short : IsShortName name) :
    ∃ c, NameChar c ∧ (name83 name).head? = some (toupper c) := by
  have first : ∀ base rest : List UInt8, base ≠ [] → (∀ c ∈ base, NameChar c) →
      ∃ c, NameChar c ∧ (field 8 base ++ rest).head? = some (toupper c) := by
    intro base rest nonempty chars
    cases base with
    | nil => exact absurd rfl nonempty
    | cons c base => exact ⟨c, chars c List.mem_cons_self, rfl⟩
  rw [← short.shortName_eq]
  cases short with
  | base nonempty _ chars =>
      rw [shortName, strrchr_eq_none (fun member => (chars dot member).ne_dot rfl)]
      exact first name _ nonempty chars
  | extension nonempty fits chars nonempty' _ chars' =>
      rw [shortName, strrchr_append _ (fun member => (chars' dot member).ne_dot rfl)]
      simp only [List.take_left]
      exact first _ _ nonempty chars

end IsShortName

end Mikanos.Fat
