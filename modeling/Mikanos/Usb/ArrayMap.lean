import Mathlib.Data.List.ReduceOption
import Mathlib.Tactic

/-!
# A map in an array of fixed size

The first free slot takes a new entry, also when the key is there already; when no
slot is free, the entry is dropped.  Looking a key up and deleting it take the
first slot with the key.  What matters of a table is the list of its entries in
the order of their slots.
-/

namespace Mikanos.Usb

/-- `ArrayMap<K, V, N>`; a slot without a key is `none`. -/
structure ArrayMap (K V : Type) (N : Nat) where
  table : List (Option (K × V))
  size : table.length = N

namespace ArrayMap

variable {K V : Type}

/-! ## The loops over the table -/

/-- The loop of `Get`. -/
def find [DecidableEq K] (key : K) : List (Option (K × V)) → Option V
  | [] => none
  | none :: rest => find key rest
  | some (k, v) :: rest => if k = key then some v else find key rest

/-- The loop of `Put`. -/
def insert (key : K) (value : V) : List (Option (K × V)) → List (Option (K × V))
  | [] => []
  | none :: rest => some (key, value) :: rest
  | some entry :: rest => some entry :: insert key value rest

/-- The loop of `Delete`. -/
def remove [DecidableEq K] (key : K) : List (Option (K × V)) → List (Option (K × V))
  | [] => []
  | none :: rest => none :: remove key rest
  | some (k, v) :: rest => if k = key then none :: rest else some (k, v) :: remove key rest

theorem length_insert (key : K) (value : V) (table : List (Option (K × V))) :
    (insert key value table).length = table.length := by
  induction table with
  | nil => rfl
  | cons slot rest ih =>
      cases slot with
      | none => rfl
      | some entry => exact congrArg (· + 1) ih

theorem length_remove [DecidableEq K] (key : K) (table : List (Option (K × V))) :
    (remove key table).length = table.length := by
  induction table with
  | nil => rfl
  | cons slot rest ih =>
      cases slot with
      | none => exact congrArg (· + 1) ih
      | some entry =>
          rw [remove]
          split
          · rfl
          · exact congrArg (· + 1) ih

/-! ## The operations -/

variable {N : Nat}

/-- A map without entries. -/
def empty (K V : Type) (N : Nat) : ArrayMap K V N where
  table := List.replicate N none
  size := List.length_replicate

/-- `Get`. -/
def get [DecidableEq K] (m : ArrayMap K V N) (key : K) : Option V :=
  find key m.table

/-- `Put`. -/
def put (m : ArrayMap K V N) (key : K) (value : V) : ArrayMap K V N where
  table := insert key value m.table
  size := (length_insert key value m.table).trans m.size

/-- `Delete`. -/
def delete [DecidableEq K] (m : ArrayMap K V N) (key : K) : ArrayMap K V N where
  table := remove key m.table
  size := (length_remove key m.table).trans m.size

/-- The entries, in the order of their slots. -/
def entries (m : ArrayMap K V N) : List (K × V) :=
  m.table.reduceOption

theorem entries_empty : (empty K V N).entries = [] :=
  List.reduceOption_replicate_none

/-! ## Entries -/

theorem find_eq [DecidableEq K] (key : K) (table : List (Option (K × V))) :
    find key table = (table.reduceOption.find? (·.1 = key)).map Prod.snd := by
  induction table with
  | nil => rfl
  | cons slot rest ih =>
      cases slot with
      | none => exact ih
      | some entry =>
          rcases entry with ⟨k, v⟩
          rw [find, List.reduceOption_cons_of_some]
          by_cases same : k = key
          · rw [if_pos same, List.find?_cons_of_pos (by simpa using same)]
            rfl
          · rw [if_neg same, List.find?_cons_of_neg (by simpa using same)]
            exact ih

theorem perm_insert (key : K) (value : V) (table : List (Option (K × V)))
    (room : table.reduceOption.length < table.length) :
    (insert key value table).reduceOption.Perm ((key, value) :: table.reduceOption) := by
  induction table with
  | nil => exact absurd room (Nat.lt_irrefl 0)
  | cons slot rest ih =>
      cases slot with
      | none =>
          rw [insert, List.reduceOption_cons_of_some, List.reduceOption_cons_of_none]
      | some entry =>
          rw [List.reduceOption_cons_of_some, List.length_cons, List.length_cons] at room
          rw [insert, List.reduceOption_cons_of_some, List.reduceOption_cons_of_some]
          exact ((ih (by omega)).cons entry).trans (.swap _ _ _)

theorem reduceOption_remove [DecidableEq K] (key : K) (table : List (Option (K × V))) :
    (remove key table).reduceOption = table.reduceOption.eraseP (·.1 = key) := by
  induction table with
  | nil => rfl
  | cons slot rest ih =>
      cases slot with
      | none => exact ih
      | some entry =>
          rcases entry with ⟨k, v⟩
          rw [remove, List.reduceOption_cons_of_some]
          by_cases same : k = key
          · rw [if_pos same, List.eraseP_cons_of_pos (by simpa using same),
              List.reduceOption_cons_of_none]
          · rw [if_neg same, List.eraseP_cons_of_neg (by simpa using same),
              List.reduceOption_cons_of_some, ih]

/-- `Get` finds the first entry with the key. -/
theorem get_eq [DecidableEq K] (m : ArrayMap K V N) (key : K) :
    m.get key = (m.entries.find? (·.1 = key)).map Prod.snd :=
  find_eq key m.table

/-- `Put` adds one entry while a slot is free. -/
theorem entries_put (m : ArrayMap K V N) (key : K) (value : V) (room : m.entries.length < N) :
    (m.put key value).entries.Perm ((key, value) :: m.entries) := by
  apply perm_insert key value m.table
  rw [m.size]
  exact room

/-- `Delete` removes the first entry with the key. -/
theorem entries_delete [DecidableEq K] (m : ArrayMap K V N) (key : K) :
    (m.delete key).entries = m.entries.eraseP (·.1 = key) :=
  reduceOption_remove key m.table

/-! ## Maps with distinct keys -/

/-- `Get` finds every entry. -/
theorem get_of_mem [DecidableEq K] {m : ArrayMap K V N} (keys : (m.entries.map Prod.fst).Nodup)
    {entry : K × V} (member : entry ∈ m.entries) : m.get entry.1 = some entry.2 := by
  rw [get_eq]
  cases found : m.entries.find? (·.1 = entry.1) with
  | none =>
      have absent := List.find?_eq_none.mp found entry member
      simp at absent
  | some other =>
      have key : other.1 = entry.1 := by simpa using List.find?_some found
      rw [List.inj_on_of_nodup_map keys (List.mem_of_find?_eq_some found) member key]
      rfl

theorem get_of_notMem [DecidableEq K] {m : ArrayMap K V N} {key : K}
    (absent : key ∉ m.entries.map Prod.fst) : m.get key = none := by
  rw [get_eq, Option.map_eq_none_iff, List.find?_eq_none]
  intro entry member
  have ne : entry.1 ≠ key := by
    rintro rfl
    exact absent (List.mem_map_of_mem member)
  simpa using ne

/-- `Delete` leaves the entries with other keys. -/
theorem entries_delete_of_nodup [DecidableEq K] {m : ArrayMap K V N}
    (keys : (m.entries.map Prod.fst).Nodup) (key : K) :
    (m.delete key).entries = m.entries.filter fun entry => entry.1 ≠ key := by
  rw [entries_delete]
  generalize m.entries = entries at keys
  induction entries with
  | nil => rfl
  | cons entry rest ih =>
      rw [List.map_cons, List.nodup_cons] at keys
      by_cases same : entry.1 = key
      · rw [List.eraseP_cons_of_pos (by simpa using same),
          List.filter_cons_of_neg (by simpa using same), eq_comm, List.filter_eq_self]
        intro other member
        have ne : other.1 ≠ key := by
          intro equal
          exact keys.1 (same ▸ equal ▸ List.mem_map_of_mem member)
        simpa using ne
      · rw [List.eraseP_cons_of_neg (by simpa using same),
          List.filter_cons_of_pos (by simpa using same), ih keys.2]

/-! ## Maps from which nothing is deleted -/

/-- The map holds the first of these entries, as many as it has slots. -/
def HoldsFirst (m : ArrayMap K V N) (es : List (K × V)) : Prop :=
  m.table = (es.take N).map some ++ List.replicate (N - es.length) none

theorem holdsFirst_empty : (empty K V N).HoldsFirst [] := by
  rw [HoldsFirst, List.take_nil]
  rfl

/-- A table without a free slot stays as it is. -/
theorem insert_of_full (key : K) (value : V) {table : List (Option (K × V))}
    (occupied : ∀ slot ∈ table, slot.isSome) : insert key value table = table := by
  induction table with
  | nil => rfl
  | cons slot rest ih =>
      rw [List.forall_mem_cons] at occupied
      obtain ⟨entry, rfl⟩ := Option.isSome_iff_exists.mp occupied.1
      rw [insert, ih occupied.2]

theorem insert_of_packed (key : K) (value : V) (es : List (K × V)) (n : Nat) :
    insert key value (es.map some ++ List.replicate (n + 1) none) =
      (es ++ [(key, value)]).map some ++ List.replicate n none := by
  induction es with
  | nil => rfl
  | cons entry rest ih =>
      rw [List.map_cons, List.cons_append, insert, ih]
      rfl

/-- Another entry is taken as long as a slot is free. -/
theorem HoldsFirst.put {m : ArrayMap K V N} {es : List (K × V)} (holds : m.HoldsFirst es) (key : K)
    (value : V) : (m.put key value).HoldsFirst (es ++ [(key, value)]) := by
  rw [HoldsFirst] at holds ⊢
  change insert key value m.table = _
  rw [holds, List.length_append, List.length_singleton]
  by_cases room : es.length < N
  · have free : N - es.length = N - (es.length + 1) + 1 := by omega
    rw [free, List.take_of_length_le (by omega), insert_of_packed, List.take_of_length_le]
    rw [List.length_append, List.length_singleton]
    omega
  · rw [Nat.sub_eq_zero_of_le (by omega), Nat.sub_eq_zero_of_le (by omega),
      List.take_append_of_le_length (by omega), List.replicate_zero, List.append_nil]
    apply insert_of_full
    intro slot member
    obtain ⟨entry, -, rfl⟩ := List.mem_map.mp member
    rfl

theorem HoldsFirst.get [DecidableEq K] {m : ArrayMap K V N} {es : List (K × V)}
    (holds : m.HoldsFirst es) (key : K) :
    m.get key = ((es.take N).find? (·.1 = key)).map Prod.snd := by
  rw [get_eq, entries, holds, List.reduceOption_append, List.reduceOption_replicate_none,
    List.append_nil, List.reduceOption, List.filterMap_map]
  simp

end ArrayMap
end Mikanos.Usb
