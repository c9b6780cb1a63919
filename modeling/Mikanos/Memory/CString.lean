import Mathlib.Data.List.GetD
import Mathlib.Data.List.TakeWhile
import Mathlib.Tactic

/-!
# Strings in buffers

A string begins at some position of a buffer and goes up to the first NUL.  A NUL that is
written to the buffer cuts the string that it is in, and leaves the others alone.
-/

namespace Mikanos.Memory

/-- The string at the beginning of some bytes. -/
def cstring (bytes : List UInt8) : List UInt8 :=
  bytes.takeWhile (· ≠ 0)

/-- `strchr`, for a character other than NUL: where it occurs first. -/
def strchr (bytes : List UInt8) (c : UInt8) : Option Nat :=
  (cstring bytes).idxOf? c

/-- At a position of the buffer is a string, with a NUL behind it. -/
structure StringAt (buffer : List UInt8) (p : Nat) (text : List UInt8) : Prop where
  located : ∃ rest, buffer.drop p = text ++ 0 :: rest
  noNul : 0 ∉ text

theorem noNul_cstring (bytes : List UInt8) : 0 ∉ cstring bytes := by
  intro member
  simpa using List.mem_takeWhile_imp member

theorem cstring_of_noNul {text : List UInt8} (noNul : 0 ∉ text) : cstring text = text := by
  rw [cstring, List.takeWhile_eq_self_iff]
  intro c member
  exact decide_eq_true fun zero => noNul (zero ▸ member)

/-- A string with its NUL. -/
theorem cstring_append_nul {text : List UInt8} (noNul : 0 ∉ text) (rest : List UInt8) :
    cstring (text ++ 0 :: rest) = text := by
  have chars : ∀ c ∈ text, decide (c ≠ 0) = true := by
    intro c member
    exact decide_eq_true fun zero => noNul (zero ▸ member)
  rw [cstring, List.takeWhile_append_of_pos chars]
  simp

/-- The string at the beginning of a buffer that contains a NUL. -/
theorem stringAt_cstring {buffer : List UInt8} (terminated : 0 ∈ buffer) :
    StringAt buffer 0 (cstring buffer) := by
  refine ⟨?_, noNul_cstring buffer⟩
  have whole : cstring buffer ++ buffer.dropWhile (· ≠ 0) = buffer :=
    List.takeWhile_append_dropWhile
  cases behind : buffer.dropWhile (· ≠ 0) with
  | nil =>
      have allOthers := List.dropWhile_eq_nil_iff.mp behind 0 terminated
      simp at allOthers
  | cons c rest =>
      have stops : c = 0 := by
        have head := List.head?_dropWhile_not (· ≠ (0 : UInt8)) buffer
        rw [behind] at head
        simpa using head
      rw [behind, stops] at whole
      exact ⟨rest, whole.symm⟩

namespace StringAt

variable {buffer text : List UInt8} {p : Nat}

/-- The NUL is in the buffer. -/
theorem lt_length (stringAt : StringAt buffer p text) : p + text.length < buffer.length := by
  rcases stringAt.located with ⟨rest, located⟩
  have count := congrArg List.length located
  rw [List.length_drop, List.length_append, List.length_cons] at count
  omega

/-- This is the string that is read. -/
theorem cstring_drop (stringAt : StringAt buffer p text) : cstring (buffer.drop p) = text := by
  rcases stringAt.located with ⟨rest, located⟩
  rw [located, cstring_append_nul stringAt.noNul]

/-- Behind some characters is the rest of the string. -/
theorem drop (stringAt : StringAt buffer p text) {k : Nat} (le : k ≤ text.length) :
    StringAt buffer (p + k) (text.drop k) := by
  rcases stringAt.located with ⟨rest, located⟩
  refine ⟨⟨rest, ?_⟩, fun zero => stringAt.noNul (List.mem_of_mem_drop zero)⟩
  rw [← List.drop_drop, located, List.drop_append_of_le_length le]

/-- A character of the string, and then its NUL. -/
theorem getD_eq (stringAt : StringAt buffer p text) (k : Nat) (le : k ≤ text.length) :
    buffer.getD (p + k) 0 = text.getD k 0 := by
  rcases stringAt.located with ⟨rest, located⟩
  have same : buffer[p + k]? = (text ++ 0 :: rest)[k]? := by
    rw [← located, List.getElem?_drop]
  rw [List.getD_eq_getElem?_getD, List.getD_eq_getElem?_getD, same]
  rcases Nat.lt_or_eq_of_le le with inText | rfl
  · rw [List.getElem?_append_left inText]
  · rw [List.getElem?_append_right le_rfl, Nat.sub_self, List.getElem?_eq_none le_rfl]
    rfl

/-- A NUL that is written cuts the string that it is in. -/
theorem set (stringAt : StringAt buffer p text) (i : Nat) :
    StringAt (buffer.set i 0) p (if p ≤ i then text.take (i - p) else text) := by
  rcases stringAt.located with ⟨rest, located⟩
  split
  · rename_i behind
    refine ⟨?_, fun zero => stringAt.noNul (List.mem_of_mem_take zero)⟩
    rw [List.drop_set, if_neg (by omega), located]
    by_cases inText : i - p < text.length
    · rw [List.set_append_left _ _ inText, List.set_eq_take_append_cons_drop, if_pos inText]
      exact ⟨text.drop (i - p + 1) ++ 0 :: rest, by simp⟩
    · rw [List.take_of_length_le (by omega), List.set_append_right _ _ (by omega)]
      cases i - p - text.length with
      | zero => exact ⟨rest, rfl⟩
      | succ k => exact ⟨rest.set k 0, rfl⟩
  · rename_i before
    refine ⟨⟨rest, ?_⟩, stringAt.noNul⟩
    rw [List.drop_set, if_pos (by omega), located]

/-- A NUL before a string leaves it alone. -/
theorem set_before (stringAt : StringAt buffer p text) {i : Nat} (before : i < p) :
    StringAt (buffer.set i 0) p text := by
  have kept := stringAt.set i
  rwa [if_neg (Nat.not_le.mpr before)] at kept

/-- A NUL behind some characters of a string leaves those. -/
theorem set_take (stringAt : StringAt buffer p text) (k : Nat) :
    StringAt (buffer.set (p + k) 0) p (text.take k) := by
  have cutOff := stringAt.set (p + k)
  rwa [if_pos (Nat.le_add_right p k), Nat.add_sub_cancel_left] at cutOff

end StringAt

/-! ## White space -/

/-- From a position on, behind the white space. -/
def skip (space : UInt8 → Bool) (buffer : List UInt8) (p : Nat) : Nat :=
  p + ((buffer.drop p).takeWhile space).length

theorem le_skip (space : UInt8 → Bool) (buffer : List UInt8) (p : Nat) :
    p ≤ skip space buffer p :=
  Nat.le_add_right _ _

/-- One step of skipping. -/
theorem skip_eq_ite {space : UInt8 → Bool} (notSpace : space 0 = false) (buffer : List UInt8)
    (p : Nat) :
    skip space buffer p = if space (buffer.getD p 0) then skip space buffer (p + 1) else p := by
  rw [skip, skip]
  by_cases inside : p < buffer.length
  · rw [List.drop_eq_getElem_cons inside, List.takeWhile_cons, List.getD_eq_getElem _ _ inside]
    split
    · rw [List.length_cons]
      omega
    · rfl
  · rw [List.drop_eq_nil_of_le (by omega), List.getD_eq_default _ _ (by omega), notSpace]
    rfl

theorem drop_length_takeWhile (space : UInt8 → Bool) (text : List UInt8) :
    text.drop (text.takeWhile space).length = text.dropWhile space := by
  have parts := congrArg (List.drop (text.takeWhile space).length)
    (List.takeWhile_append_dropWhile (p := space) (l := text))
  rw [List.drop_left] at parts
  exact parts.symm

/-- There is no white space where it has been skipped. -/
theorem getElem?_takeWhile_length {space : UInt8 → Bool} {text : List UInt8}
    (nonempty : text.dropWhile space ≠ []) :
    ∃ c, text[(text.takeWhile space).length]? = some c ∧ space c = false := by
  have rest := drop_length_takeWhile space text
  cases remains : text.dropWhile space with
  | nil => exact absurd remains nonempty
  | cons c rest' =>
      have head := List.head?_dropWhile_not space text
      rw [remains] at rest head
      refine ⟨c, ?_, by simpa using head⟩
      rw [← List.head?_drop, rest]
      rfl

/-- Skipping stops at other characters. -/
theorem length_takeWhile_le {space : UInt8 → Bool} {text : List UInt8} {i : Nat} {c : UInt8}
    (there : text[i]? = some c) (other : space c = false) : (text.takeWhile space).length ≤ i := by
  by_contra beyond
  rw [not_le] at beyond
  have same := (List.takeWhile_prefix (l := text) space).getElem beyond
  have member := List.mem_takeWhile_imp (List.getElem_mem beyond)
  rw [same] at member
  rw [(List.getElem?_eq_some_iff.mp there).2, other] at member
  exact Bool.false_ne_true member

section

variable {space : UInt8 → Bool} {buffer text : List UInt8} {p : Nat}

theorem StringAt.skip_eq (stringAt : StringAt buffer p text) (notSpace : space 0 = false) :
    skip space buffer p = p + (text.takeWhile space).length := by
  rcases stringAt.located with ⟨rest, located⟩
  rw [skip, located, List.takeWhile_append]
  split
  · rename_i whole
    rw [List.takeWhile_cons_of_neg (by rw [notSpace]; decide), List.append_nil, whole]
  · rfl

/-- Behind the white space is the text without it. -/
theorem StringAt.skip (stringAt : StringAt buffer p text) (notSpace : space 0 = false) :
    StringAt buffer (skip space buffer p) (text.dropWhile space) := by
  rw [stringAt.skip_eq notSpace, ← drop_length_takeWhile]
  exact stringAt.drop (List.takeWhile_prefix space).length_le

/-- The text without white space ends where the text does. -/
theorem StringAt.skip_add_length (stringAt : StringAt buffer p text) (notSpace : space 0 = false) :
    Memory.skip space buffer p + (text.dropWhile space).length = p + text.length := by
  have parts := congrArg List.length
    (List.takeWhile_append_dropWhile (p := space) (l := text))
  rw [List.length_append] at parts
  rw [stringAt.skip_eq notSpace]
  omega

theorem StringAt.skip_le (stringAt : StringAt buffer p text) (notSpace : space 0 = false) :
    Memory.skip space buffer p ≤ p + text.length := by
  rw [stringAt.skip_eq notSpace]
  exact Nat.add_le_add_left (List.takeWhile_prefix space).length_le p

end

/-- The text without the white space at its beginning is not changed by a cut exactly if nothing
is cut off, or there is only white space. -/
theorem dropWhile_take_eq_iff (space : UInt8 → Bool) (text : List UInt8) (k : Nat) :
    (text.take k).dropWhile space = text.dropWhile space ↔
      text.length ≤ k ∨ ∀ c ∈ text, space c := by
  induction text generalizing k with
  | nil => simp
  | cons c rest ih =>
      cases k with
      | zero =>
          rw [List.take_zero, List.dropWhile_nil, eq_comm, List.dropWhile_eq_nil_iff]
          simp
      | succ k =>
          rw [List.take_succ_cons, List.dropWhile_cons, List.dropWhile_cons]
          cases isSpace : space c with
          | true => simp [ih, isSpace]
          | false => simp [isSpace, List.take_eq_self_iff]

end Mikanos.Memory
