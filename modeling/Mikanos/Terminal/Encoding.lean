import Mikanos.Terminal.Output

/-!
# Text comes out as it was encoded

For a string in UTF-8, `Terminal::Print` prints its characters and `WriteString` draws each of
them at the column where the one before it ends.
-/

namespace Mikanos.Terminal

open Memory Screen

/-- The bytes of characters in UTF-8. -/
def encode (cs : List Char) : List UInt8 :=
  cs.flatMap String.utf8EncodeChar

/-- The number of columns of characters. -/
def columnCount (cs : List Char) : Nat :=
  (cs.map fun c => if isHankaku c.toNat then 1 else 2).sum

/-- Where `WriteString` is to draw characters: each where those before it end. -/
def placed (cs : List Char) : List (Nat × Nat) :=
  cs.zipIdx.map fun c => (c.1.toNat, columnCount (cs.take c.2))

section

variable {char : Nat → UInt8} {i : Nat} {c : Char}

/-- The bytes from an index on are those of a character. -/
def BeginsAt (char : Nat → UInt8) (i : Nat) (bytes : List UInt8) : Prop :=
  ∀ j byte, bytes[j]? = some byte → char (i + j) = byte

theorem toNat_lt (c : Char) : c.toNat < 0x110000 := by
  rcases c.valid with small | ⟨-, small⟩
  · exact Nat.lt_trans small (by decide)
  · exact small

theorem countUTF8Size_eq (c : UInt8) :
    countUTF8Size c =
      if c.toNat < 128 then 1
      else if 192 ≤ c.toNat ∧ c.toNat < 224 then 2
      else if 224 ≤ c.toNat ∧ c.toNat < 240 then 3
      else if 240 ≤ c.toNat ∧ c.toNat < 248 then 4
      else 0 := by
  simp only [countUTF8Size, UInt8.lt_iff_toNat_lt, UInt8.le_iff_toNat_le]
  rfl

theorem charAt_offset (char : Nat → UInt8) (i : Nat) {j : Nat} (small : j < 4) :
    charAt (fun j => char (i + j)) 0 j = char (i + j) := by
  rw [charAt, Nat.zero_add, Nat.mod_eq_of_lt (by omega)]

/-- The byte at an offset, as a number. -/
theorem BeginsAt.toNat_eq {bytes : List UInt8} {j n : Nat} (begins : BeginsAt char i bytes)
    (found : bytes[j]? = some (UInt8.ofNat n)) (small : n < 256) : (char (i + j)).toNat = n := by
  rw [begins j _ found, UInt8.toNat_ofNat']
  exact Nat.mod_eq_of_lt small

/-- A character is decoded as it was encoded. -/
theorem codePoint_encodeChar (begins : BeginsAt char i (String.utf8EncodeChar c)) :
    countUTF8Size (char i) = (String.utf8EncodeChar c).length ∧ codePoint char i = c.toNat := by
  have bound := toNat_lt c
  have first := charAt_offset char i (show 0 < 4 by decide)
  have second := charAt_offset char i (show 1 < 4 by decide)
  have third := charAt_offset char i (show 2 < 4 by decide)
  have fourth := charAt_offset char i (show 3 < 4 by decide)
  rw [Nat.add_zero] at first
  rw [codePoint, Screen.convertUTF8To32, first]
  have value : c.val.toNat = c.toNat := rfl
  rw [String.utf8EncodeChar] at begins ⊢
  dsimp only at begins ⊢
  rw [value] at begins ⊢
  split at begins
  · rename_i one
    have lead := begins.toNat_eq (j := 0) rfl (by omega)
    rw [Nat.add_zero] at lead
    have size : countUTF8Size (char i) = 1 := by
      rw [countUTF8Size_eq, lead, if_pos (by omega)]
    rw [if_pos one, size]
    exact ⟨rfl, lead⟩
  · rename_i notOne
    rw [if_neg notOne]
    split at begins
    · rename_i two
      have lead := begins.toNat_eq (j := 0) rfl (by omega)
      have follow := begins.toNat_eq (j := 1) rfl (by omega)
      rw [Nat.add_zero] at lead
      have size : countUTF8Size (char i) = 2 := by
        rw [countUTF8Size_eq, lead, if_neg (by omega), if_pos (by omega)]
      rw [if_pos two, size]
      refine ⟨rfl, ?_⟩
      change (char i).toNat % 2 ^ 5 * 2 ^ 6 + (charAt (fun j => char (i + j)) 0 1).toNat % 2 ^ 6 = _
      rw [second, lead, follow]
      omega
    · rename_i notTwo
      rw [if_neg notTwo]
      split at begins
      · rename_i three
        have lead := begins.toNat_eq (j := 0) rfl (by omega)
        have follow := begins.toNat_eq (j := 1) rfl (by omega)
        have follow' := begins.toNat_eq (j := 2) rfl (by omega)
        rw [Nat.add_zero] at lead
        have size : countUTF8Size (char i) = 3 := by
          rw [countUTF8Size_eq, lead, if_neg (by omega), if_neg (by omega), if_pos (by omega)]
        rw [if_pos three, size]
        refine ⟨rfl, ?_⟩
        change (char i).toNat % 2 ^ 4 * 2 ^ 12 +
          (charAt (fun j => char (i + j)) 0 1).toNat % 2 ^ 6 * 2 ^ 6 +
          (charAt (fun j => char (i + j)) 0 2).toNat % 2 ^ 6 = _
        rw [second, third, lead, follow, follow']
        omega
      · rename_i notThree
        have lead := begins.toNat_eq (j := 0) rfl (by omega)
        have follow := begins.toNat_eq (j := 1) rfl (by omega)
        have follow' := begins.toNat_eq (j := 2) rfl (by omega)
        have follow'' := begins.toNat_eq (j := 3) rfl (by omega)
        rw [Nat.add_zero] at lead
        have size : countUTF8Size (char i) = 4 := by
          rw [countUTF8Size_eq, lead, if_neg (by omega), if_neg (by omega), if_neg (by omega),
            if_pos (by omega)]
        rw [if_neg notThree, size]
        refine ⟨rfl, ?_⟩
        change (char i).toNat % 2 ^ 3 * 2 ^ 18 +
          (charAt (fun j => char (i + j)) 0 1).toNat % 2 ^ 6 * 2 ^ 12 +
          (charAt (fun j => char (i + j)) 0 2).toNat % 2 ^ 6 * 2 ^ 6 +
          (charAt (fun j => char (i + j)) 0 3).toNat % 2 ^ 6 = _
        rw [second, third, fourth, lead, follow, follow', follow'']
        omega

/-! ## Strings -/

/-- A loop over a string in UTF-8, from the beginning of a character on. -/
theorem yields_printLoop_encode {cs : List Char} (begins : BeginsAt char i (encode cs))
    (ends : char (i + (encode cs).length) = 0) (noNul : 0 ∉ encode cs) {rounds : Nat}
    (enough : cs.length < rounds) :
    (printLoop char none rounds i).Yields (· ≤ i + (encode cs).length) (cs.map Char.toNat) := by
  induction cs generalizing i rounds with
  | nil =>
      rcases Nat.exists_eq_add_of_le' enough with ⟨rounds, rfl⟩
      exact yields_printLoop_succ.mpr ⟨le_rfl, .inl ⟨.inl ends, rfl⟩⟩
  | cons c cs ih =>
      rcases Nat.exists_eq_add_of_le' (Nat.one_le_of_lt enough) with ⟨rounds, rfl⟩
      have split : encode (c :: cs) = String.utf8EncodeChar c ++ encode cs := List.flatMap_cons
      rw [split] at begins ends noNul
      rw [split, List.length_append, ← Nat.add_assoc]
      rw [List.length_append, ← Nat.add_assoc] at ends
      have own : BeginsAt char i (String.utf8EncodeChar c) := by
        intro j byte found
        apply begins j byte
        rwa [List.getElem?_append_left (List.getElem?_eq_some_iff.mp found).1]
      have later : BeginsAt char (i + (String.utf8EncodeChar c).length) (encode cs) := by
        intro j byte found
        rw [Nat.add_assoc]
        apply begins _ byte
        rwa [List.getElem?_append_right (Nat.le_add_right ..), Nat.add_sub_cancel_left]
      rcases codePoint_encodeChar own with ⟨size, decoded⟩
      have nonempty : 0 < (String.utf8EncodeChar c).length :=
        List.length_pos_iff.mpr String.utf8EncodeChar_ne_nil
      have lead : char i ∈ String.utf8EncodeChar c := by
        have found := List.getElem?_eq_getElem nonempty
        have first := own 0 _ found
        rw [Nat.add_zero] at first
        rw [first]
        exact List.getElem_mem nonempty
      have goesOn : ¬ (char i = 0 ∨ ¬ Option.all (i < ·) none = true) := by
        rintro (zero | stops)
        · exact noNul (List.mem_append_left _ (zero ▸ lead))
        · exact stops rfl
      refine yields_printLoop_succ.mpr ⟨by omega, .inr ⟨goesOn, ?_, cs.map Char.toNat, ?_, ?_⟩⟩
      · intro j looked
        rw [lookedAt, size] at looked
        omega
      · rw [size]
        exact ih later ends (fun nul => noNul (List.mem_append_right _ nul))
          (Nat.lt_of_succ_lt_succ enough)
      · rw [decoded, List.map_cons]

theorem columnCount_cons (c : Char) (cs : List Char) :
    columnCount (c :: cs) = (if isHankaku c.toNat then 1 else 2) + columnCount cs := by
  rw [columnCount, List.map_cons, List.sum_cons]
  rfl

/-- Each character is drawn where those before it end. -/
theorem columns_eq_placed (x : Nat) (cs : List Char) :
    columns x (cs.map Char.toNat) =
      cs.zipIdx.map fun c => (c.1.toNat, x + columnCount (cs.take c.2)) := by
  induction cs generalizing x with
  | nil => rfl
  | cons c cs ih =>
      rw [List.map_cons, columns, ih, List.zipIdx_cons, List.map_cons, List.take_zero, Nat.zero_add,
        List.zipIdx_succ, List.map_map]
      congr 1
      apply List.map_congr_left
      rintro ⟨d, k⟩ -
      change (_, _) = (_, x + columnCount (List.take (k + 1) (c :: cs)))
      rw [List.take_succ_cons, columnCount_cons, ← Nat.add_assoc]

/-- Of a string in UTF-8, `Terminal::Print` prints the characters and `WriteString` draws them one
behind the other, and neither reads beyond the NUL. -/
theorem output_encode {cs : List Char} (textAt : TextAt char (encode cs)) {rounds : Nat}
    (enough : cs.length < rounds) :
    (print char none rounds).Yields (Readable (encode cs) none) (cs.map Char.toNat) ∧
      (writeString char rounds).Yields (Readable (encode cs) none) (placed cs) := by
  have begins : BeginsAt char 0 (encode cs) := by
    intro j byte found
    rcases List.getElem?_eq_some_iff.mp found with ⟨inText, isByte⟩
    rw [Nat.zero_add, textAt.chars j inText, isByte]
  have ends : char (0 + (encode cs).length) = 0 := by
    rw [Nat.zero_add]
    exact textAt.ends
  have printed := yields_printLoop_encode begins ends textAt.noNul enough
  have readable : (fun j => j ≤ 0 + (encode cs).length) = Readable (encode cs) none := by
    funext j
    rw [Readable, Nat.zero_add]
    simp
  rw [readable] at printed
  refine ⟨printed, yields_writeStringLoop.mpr ⟨_, printed, ?_⟩⟩
  rw [columns_eq_placed]
  simp only [placed, Nat.zero_add]

end

/-- ASCII, a letter of two bytes, hiragana and an emoji. -/
def mixed : List Char :=
  [Char.ofNat 0x61, Char.ofNat 0xe9, Char.ofNat 0x3042, Char.ofNat 0x1f600]

theorem output_encode_mixed :
    (print ((encode mixed).getD · 0) none 5).Yields (Readable (encode mixed) none)
        [0x61, 0xe9, 0x3042, 0x1f600] ∧
      (writeString ((encode mixed).getD · 0) 5).Yields (Readable (encode mixed) none)
        [(0x61, 0), (0xe9, 1), (0x3042, 3), (0x1f600, 5)] :=
  output_encode (textAt_getD (by decide)) (by decide)

end Mikanos.Terminal
