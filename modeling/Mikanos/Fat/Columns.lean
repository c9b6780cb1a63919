import Mikanos.Fat.Names

/-!
# The columns of a name

`SetFileName` splits a name at its last dot and cuts off what does not fit.  `NameIsEqual`
goes to the columns of the extension at every dot, and lets what comes before the first dot
run on into them.
-/

namespace Mikanos.Fat

variable {name : List UInt8}

/-! ## The parts that are compared -/

/-- Write the parts over one another, each from the first column on, up to the first part that
fills the columns. -/
def overlay : List (List UInt8) → List UInt8 → List UInt8
  | [], w => w
  | p :: parts, w =>
      if w.length ≤ p.length then (p.map toupper).take w.length
      else overlay parts (p.map toupper ++ w.drop p.length)

/-- What `NameIsEqual` does in the columns of the extension. -/
theorem name83Loop_extension (rest : List UInt8) {pre w : List UInt8} (atExt : pre.length = 8)
    (width : w.length = 3) :
    name83Loop rest 8 (pre ++ w) = pre ++ overlay (rest.splitOn dot) w := by
  induction length : rest.length using Nat.strong_induction_on generalizing rest w with
  | _ n ih =>
      -- what follows the first part
      have part (chars after : List UInt8) (noDot : dot ∉ chars) :=
        name83Loop_part after pre w noDot (by omega)
      rw [atExt] at part
      by_cases member : dot ∈ rest
      · rcases List.eq_append_cons_of_mem member with ⟨chars, after, rfl, noDot⟩
        rw [part chars _ noDot, List.splitOn_append_cons_self_of_not_mem noDot, overlay]
        by_cases full : w.length ≤ chars.length
        · rw [if_pos full, if_pos full]
        · rw [if_neg full, if_neg full, name83Loop, if_pos (by omega), if_pos rfl, List.append_assoc]
          refine ih _ ?_ after ?_ rfl
          · rw [← length]
            simp
            omega
          · simp
            omega
      · have alone := part rest [] member
        rw [List.append_nil] at alone
        rw [alone, List.splitOn_eq_singleton member, overlay, overlay]
        by_cases full : w.length ≤ rest.length
        · rw [if_pos full, if_pos full]
        · rw [if_neg full, if_neg full, name83Loop, List.append_assoc]

/-! ## Column by column -/

/-- The parts up to the first that fills the three columns of the extension. -/
def reaching : List (List UInt8) → List (List UInt8)
  | [] => []
  | p :: parts => if 3 ≤ p.length then [p] else p :: reaching parts

/-- The character that is written last into a column, or a blank. -/
def column (parts : List (List UInt8)) (j : Nat) : UInt8 :=
  (((reaching parts).filterMap (·[j]?)).getLast?.map toupper).getD space

theorem length_overlay (parts : List (List UInt8)) (w : List UInt8) :
    (overlay parts w).length = w.length := by
  induction parts generalizing w with
  | nil => rfl
  | cons p parts ih =>
      rw [overlay]
      split
      · rename_i full
        rw [List.length_take, List.length_map]
        omega
      · rw [ih]
        simp
        omega

theorem overlay_getElem? (parts : List (List UInt8)) {w : List UInt8} (width : w.length = 3) {j : Nat}
    {x : UInt8} (before : w[j]? = some x) :
    (overlay parts w)[j]? =
      some ((((reaching parts).filterMap (·[j]?)).getLast?.map toupper).getD x) := by
  have lt : j < 3 := width ▸ (List.getElem?_eq_some_iff.mp before).1
  induction parts generalizing w x with
  | nil => exact before
  | cons p parts ih =>
      rw [overlay, reaching, width]
      by_cases full : 3 ≤ p.length
      · have inside : j < p.length := by omega
        rw [if_pos full, if_pos full, List.getElem?_take_of_lt lt, List.getElem?_map,
          List.getElem?_eq_getElem inside]
        simp [List.getElem?_eq_getElem inside]
      · rw [if_neg full, if_neg full]
        have still : (p.map toupper ++ w.drop p.length).length = 3 := by
          simp
          omega
        by_cases inside : j < p.length
        · have now : (p.map toupper ++ w.drop p.length)[j]? = some (toupper p[j]) := by
            rw [List.getElem?_append_left (by simpa using inside), List.getElem?_map,
              List.getElem?_eq_getElem inside, Option.map_some]
          rw [ih still now, List.filterMap_cons, List.getElem?_eq_getElem inside]
          simp only [List.getLast?_cons]
          cases ((reaching parts).filterMap (·[j]?)).getLast? <;> rfl
        · have now : (p.map toupper ++ w.drop p.length)[j]? = some x := by
            rw [List.getElem?_append_right (by simpa using inside), List.length_map,
              List.getElem?_drop, Nat.add_sub_cancel' (by omega), before]
          rw [ih still now, List.filterMap_cons, List.getElem?_eq_none (by omega)]

theorem overlay_blank_getElem? (parts : List (List UInt8)) {j : Nat} (lt : j < 3) :
    (overlay parts (List.replicate 3 space))[j]? = some (column parts j) :=
  overlay_getElem? parts List.length_replicate (by rw [List.getElem?_replicate_of_lt lt])

/-! ## When the two agree -/

/-- The encoding of a name is the one that is compared: there is no dot in the base as it is
stored, and if the base was cut, the columns of the extension hold the extension. -/
def Agrees (name : List UInt8) : Prop :=
  dot ∉ (baseOf name).take 8 ∧
    ((baseOf name).length ≤ 8 ∨
      ∀ j < 3, column ((name.drop 8).splitOn dot) j =
        ((extensionOf name)[j]?.map toupper).getD space)

instance (name : List UInt8) : Decidable (Agrees name) :=
  inferInstanceAs (Decidable (_ ∧ _))

theorem field_getElem? {n j : Nat} (s : List UInt8) (lt : j < n) :
    (field n s)[j]? = some ((s[j]?.map toupper).getD space) := by
  rw [field]
  by_cases inside : j < s.length
  · rw [List.getElem?_append_left (by simp; omega), List.getElem?_map, List.getElem?_take_of_lt lt,
      List.getElem?_eq_getElem inside]
    rfl
  · rw [List.getElem?_append_right (by simp; omega), List.getElem?_replicate_of_lt,
      List.getElem?_eq_none (by omega)]
    · rfl
    · simp
      omega

theorem dot_mem_field {n : Nat} {s : List UInt8} (member : dot ∈ s.take n) : dot ∈ field n s :=
  List.mem_append_left _ (List.mem_map.mpr ⟨dot, member, by decide⟩)

/-- A base that does not fit is cut, and the rest is written over the extension. -/
theorem name83_long (long : 8 ≤ name.length) (noDot : dot ∉ name.take 8) :
    name83 name =
      field 8 name ++ overlay ((name.drop 8).splitOn dot) (List.replicate 3 space) := by
  have eight : (name.take 8).length = 8 := by
    simp
    omega
  have start := name83_append (name.drop 8) eight.le noDot
  rw [List.take_append_drop, eight, name83Loop_extension _ (by simp; omega) List.length_replicate] at start
  rw [start, field, List.length_map, eight, Nat.sub_self, List.replicate_zero, List.append_nil]

/-- `SetFileName` stores what `NameIsEqual` compares. -/
theorem shortName_eq_name83_iff (name : List UInt8) : shortName name = name83 name ↔ Agrees name := by
  by_cases noDot : dot ∉ (baseOf name).take 8
  · rw [Agrees, and_iff_right noDot]
    by_cases fits : (baseOf name).length ≤ 8
    · rw [List.take_of_length_le fits] at noDot
      simp only [fits, true_or, iff_true]
      rw [shortName_eq_fields]
      by_cases member : dot ∈ name
      · rcases exists_last member with ⟨base, ext, rfl, last⟩
        rcases @parts_of_split base ext last with ⟨baseEq, extEq⟩
        rw [baseEq] at fits noDot
        rw [baseEq, extEq, name83_extension fits noDot last]
      · rcases parts_of_noDot member with ⟨baseEq, extEq⟩
        rw [baseEq] at fits noDot
        rw [baseEq, extEq, name83_base fits noDot]
        rfl
    · have cut : name.take 8 = (baseOf name).take 8 := by
        by_cases member : dot ∈ name
        · rcases exists_last member with ⟨base, ext, rfl, last⟩
          rw [(parts_of_split last).1] at fits ⊢
          exact List.take_append_of_le_length (by omega)
        · rw [(parts_of_noDot member).1]
      have long : 8 ≤ name.length := by
        have lengths := congrArg List.length cut
        simp at lengths
        omega
      have same : field 8 name = field 8 (baseOf name) := by rw [field, cut, field]
      rw [shortName_eq_fields, name83_long long (cut ▸ noDot), same, List.append_cancel_left_eq, or_iff_right fits]
      constructor
      · intro equal j lt
        have column := overlay_blank_getElem? ((name.drop 8).splitOn dot) lt
        rw [← equal, field_getElem? _ lt] at column
        exact (Option.some.inj column).symm
      · intro columns
        apply List.ext_getElem?
        intro j
        by_cases lt : j < 3
        · rw [field_getElem? _ lt, overlay_blank_getElem? _ lt, columns j lt]
        · rw [List.getElem?_eq_none (by simp; omega),
            List.getElem?_eq_none (by rw [length_overlay]; simp; omega)]
  · have stored : dot ∈ shortName name := by
      rw [shortName_eq_fields]
      exact List.mem_append_left _ (dot_mem_field (not_not.mp noDot))
    constructor
    · intro equal
      exact absurd (equal ▸ stored) (dot_not_mem_name83 name)
    · exact fun agrees => absurd agrees.1 noDot

namespace Volume

/-- `NameIsEqual` finds the name that `SetFileName` has stored exactly if the two agree on it. -/
theorem nameIsEqual_setFileName_iff (v : Volume) (entry : Nat) (name : List UInt8) :
    (v.setFileName entry name).nameIsEqual entry name = true ↔ Agrees name := by
  rw [nameIsEqual, name_setFileName, beq_iff_eq]
  exact shortName_eq_name83_iff name

/-- `a.tar.gz` is stored with a dot in it. -/
theorem not_nameIsEqual_setFileName :
    ¬ ∀ (v : Volume) (entry : Nat) (name : List UInt8), name ≠ [] → IsAscii name → slash ∉ name →
      (v.setFileName entry name).nameIsEqual entry name = true := by
  intro finds
  have found := finds ⟨⟨512, 1, 32, 2, 38, 1, 2⟩, fun _ => 0⟩ 0
    [0x61, dot, 0x74, 0x61, 0x72, dot, 0x67, 0x7a] (by decide +kernel) (by unfold IsAscii; decide +kernel) (by decide +kernel)
  exact absurd found (by decide +kernel)

end Volume

end Mikanos.Fat
