import Mikanos.Transition.Run
import Mikanos.Usb.ArrayMap
import Mathlib.Data.Set.Card

/-!
# When a table is a map

`Put` does not look for the key, so a key that is put twice has two entries, of
which `Get` and `Delete` see the first.  A table is a map as long as a key is put
only while it is absent; it is one as well if a full table drops an entry that it
holds already.
-/

namespace Mikanos.Usb

open Mikanos.Transition

/-- An operation that changes a table. -/
inductive Operation (K V : Type)
  | put (key : K) (value : V)
  | delete (key : K)

/-- A table and what it should hold: for every key, the value of the last `Put`
that no `Delete` follows. -/
structure Usage (K V : Type) (N : Nat) where
  table : ArrayMap K V N
  last : K → Option V

namespace Usage

variable {K V : Type} {N : Nat}

/-- Nothing has been put. -/
def initial (K V : Type) (N : Nat) : Usage K V N where
  table := .empty K V N
  last _ := none

/-- One operation. -/
def after [DecidableEq K] (u : Usage K V N) : Operation K V → Usage K V N
  | .put key value =>
      { table := u.table.put key value, last := Function.update u.last key (some value) }
  | .delete key => { table := u.table.delete key, last := Function.update u.last key none }

/-- Every operation returns. -/
def next [DecidableEq K] (u : Usage K V N) (operation : Operation K V) : Option (Usage K V N) :=
  some (u.after operation)

/-- At most `N` keys are present. -/
def Fits (u : Usage K V N) : Prop :=
  {key | (u.last key).isSome}.encard ≤ N

/-- No slot is free. -/
def Full (u : Usage K V N) : Prop :=
  u.table.entries.length = N

/-- A key is put while it is absent, or in vain: with its value, to a full table. -/
def Fresh (u : Usage K V N) : Operation K V → Prop
  | .put key value => u.last key = none ∨ u.Full ∧ u.last key = some value
  | .delete _ => True

/-- The table has one entry for every key that is present. -/
structure Holds (u : Usage K V N) : Prop where
  keys : (u.table.entries.map Prod.fst).Nodup
  mem_iff : ∀ key value, (key, value) ∈ u.table.entries ↔ u.last key = some value

variable {u : Usage K V N}

theorem holds_initial : (initial K V N).Holds where
  keys := by
    rw [initial, ArrayMap.entries_empty]
    exact List.nodup_nil
  mem_iff key value := by
    rw [initial, ArrayMap.entries_empty]
    simp

theorem Holds.mem_keys (holds : u.Holds) (key : K) :
    key ∈ u.table.entries.map Prod.fst ↔ (u.last key).isSome := by
  rw [Option.isSome_iff_exists, List.mem_map]
  constructor
  · rintro ⟨⟨k, value⟩, member, rfl⟩
    exact ⟨value, (holds.mem_iff k value).mp member⟩
  · rintro ⟨value, present⟩
    exact ⟨(key, value), (holds.mem_iff key value).mpr present, rfl⟩

variable [DecidableEq K]

theorem Holds.get (holds : u.Holds) (key : K) : u.table.get key = u.last key := by
  cases present : u.last key with
  | none =>
      apply ArrayMap.get_of_notMem
      rw [holds.mem_keys, present]
      exact Bool.false_ne_true
  | some value => exact ArrayMap.get_of_mem holds.keys ((holds.mem_iff key value).mpr present)

/-- There are as many entries as keys. -/
theorem Holds.encard_eq (holds : u.Holds) :
    {key | (u.last key).isSome}.encard = u.table.entries.length := by
  have same : {key | (u.last key).isSome} = ((u.table.entries.map Prod.fst).toFinset : Set K) := by
    ext key
    rw [Set.mem_ofPred_eq, ← holds.mem_keys, Finset.mem_coe, List.mem_toFinset]
  rw [same, Set.encard_coe_eq_coe_finsetCard, List.toFinset_card_of_nodup holds.keys,
    List.length_map]

/-- A slot is free for a new key. -/
theorem Holds.room (holds : u.Holds) {key : K} {value : V} (absent : u.last key = none)
    (fits : (u.after (.put key value)).Fits) : u.table.entries.length < N := by
  have keys : {k | ((u.after (.put key value)).last k).isSome} =
      insert key {k | (u.last k).isSome} := by
    ext k
    by_cases same : k = key
    · simp [after, same]
    · simp [after, same]
  have new : key ∉ {k | (u.last k).isSome} := by simp [absent]
  rw [Fits, keys, Set.encard_insert_of_notMem new, holds.encard_eq] at fits
  exact_mod_cast fits

theorem Holds.put (holds : u.Holds) {key : K} (value : V) (absent : u.last key = none)
    (room : u.table.entries.length < N) : (u.after (.put key value)).Holds := by
  have perm := u.table.entries_put key value room
  constructor
  · rw [after, (perm.map Prod.fst).nodup_iff, List.map_cons, List.nodup_cons, holds.mem_keys,
      absent]
    exact ⟨Bool.false_ne_true, holds.keys⟩
  · intro k v
    rw [after, perm.mem_iff, List.mem_cons, holds.mem_iff]
    by_cases same : k = key
    · subst same
      simp [absent, eq_comm]
    · simp [same]

theorem Holds.delete (holds : u.Holds) (key : K) : (u.after (.delete key)).Holds := by
  have entries := ArrayMap.entries_delete_of_nodup holds.keys key
  constructor
  · rw [after, entries]
    exact holds.keys.sublist (List.filter_sublist.map Prod.fst)
  · intro k v
    rw [after, entries, List.mem_filter, holds.mem_iff]
    by_cases same : k = key
    · simp [same]
    · simp [same]

omit [DecidableEq K] in
/-- A full table drops an entry. -/
theorem put_of_full (full : u.Full) (key : K) (value : V) : u.table.put key value = u.table := by
  have occupied : ∀ slot ∈ u.table.table, slot.isSome := by
    rw [← List.reduceOption_length_eq_iff, u.table.size]
    exact full
  have same := ArrayMap.insert_of_full key value occupied
  cases table : u.table with
  | mk slots size =>
      rw [table] at same
      simp only [ArrayMap.put, same]

/-- An operation that meets the condition keeps the table a map. -/
theorem Holds.step {operation : Operation K V} (holds : u.Holds)
    (fits : (u.after operation).Fits) (fresh : u.Fresh operation) :
    (u.after operation).Holds := by
  cases operation with
  | put key value =>
      rcases fresh with absent | ⟨full, present⟩
      · exact holds.put value absent (holds.room absent fits)
      · have same : u.after (.put key value) = u := by
          rw [after, put_of_full full, ← present, Function.update_eq_self]
        rw [same]
        exact holds
  | delete key => exact holds.delete key

/-- Of two entries with a key, `Delete` leaves one. -/
theorem Holds.get_delete_put (holds : u.Holds) {key : K} {old : V} (value : V)
    (present : u.last key = some old) (room : u.table.entries.length < N) :
    ((u.table.put key value).delete key).get key ≠ none := by
  let isKey : K × V → Bool := fun entry => decide (entry.1 = key)
  have two : 2 ≤ (u.table.put key value).entries.countP isKey := by
    rw [(u.table.entries_put key value room).countP_eq, List.countP_cons_of_pos (by simp [isKey])]
    have one : 0 < u.table.entries.countP isKey :=
      List.countP_pos_iff.mpr ⟨(key, old), (holds.mem_iff key old).mpr present, by simp [isKey]⟩
    omega
  rw [ArrayMap.get_eq, ArrayMap.entries_delete, Ne, Option.map_eq_none_iff, List.find?_eq_none]
  intro none_left
  have none_counted : ((u.table.put key value).entries.eraseP isKey).countP isKey = 0 :=
    List.countP_eq_zero.mpr none_left
  obtain ⟨entry, member, is_key⟩ := List.countP_pos_iff.mp (lt_of_lt_of_le Nat.zero_lt_two two)
  obtain ⟨first, before, behind, -, is_first, split, erased⟩ := List.exists_of_eraseP member is_key
  rw [split, List.countP_append, List.countP_cons_of_pos is_first] at two
  rw [erased, List.countP_append] at none_counted
  omega

/-- A put keeps the table a map, also when the key is deleted next, exactly under the condition. -/
theorem Holds.put_iff (holds : u.Holds) {key : K} {value : V}
    (fits : (u.after (.put key value)).Fits) :
    (∀ k, (u.after (.put key value)).table.get k = (u.after (.put key value)).last k) ∧
        ((u.after (.put key value)).after (.delete key)).table.get key = none ↔
      u.Fresh (.put key value) := by
  constructor
  · rintro ⟨agree, deleted⟩
    cases present : u.last key with
    | none => exact .inl present
    | some old =>
        have now : (u.table.put key value).get key = some value :=
          (agree key).trans (Function.update_self ..)
        have slots : u.table.entries.length ≤ N :=
          (List.reduceOption_length_le u.table.table).trans_eq u.table.size
        rcases slots.lt_or_eq with room | full
        · exact absurd deleted (holds.get_delete_put value present room)
        · rw [put_of_full full, holds.get, present] at now
          exact .inr ⟨full, present.trans now⟩
  · intro fresh
    have kept := holds.step fits fresh
    exact ⟨kept.get, ((kept.delete key).get key).trans (Function.update_self ..)⟩

theorem Holds.fits (holds : u.Holds) : u.Fits := by
  rw [Fits, holds.encard_eq]
  exact_mod_cast (List.reduceOption_length_le u.table.table).trans_eq u.table.size

/-- In every run in which at most `N` keys are present and every `Put` is fresh, `Get` gives for
every key the value of the last `Put` that no `Delete` follows. -/
theorem get_of_run {operations : List (Operation K V)}
    (run : Run (guarded (ofFunction next)
      fun u operation => (u.after operation).Fits ∧ u.Fresh operation)
      (initial K V N) operations u) (key : K) : u.table.get key = u.last key := by
  refine Holds.get (run.invariant ?_ holds_initial) key
  rintro source operation _ holds ⟨⟨fits, fresh⟩, step⟩
  cases step
  exact holds.step fits fresh

/-- A table of two slots of which one is freed and filled again. -/
theorem get_of_run_refill : ∃ u,
    Run (guarded (ofFunction next)
      fun u operation => (u.after operation).Fits ∧ u.Fresh operation)
      (initial Nat Nat 2) [.put 1 10, .put 2 20, .delete 1, .put 1 30] u ∧
    u.table.get 1 = u.last 1 := by
  have one : ((initial Nat Nat 2).after (.put 1 10)).Holds :=
    holds_initial.put 10 rfl (by decide)
  have two : (((initial Nat Nat 2).after (.put 1 10)).after (.put 2 20)).Holds :=
    one.put 20 (by decide) (by decide)
  let u := (((initial Nat Nat 2).after (.put 1 10)).after (.put 2 20)).after (.delete 1)
  have freed : u.Holds := two.delete 1
  have filled : (u.after (.put 1 30)).Holds := freed.put 30 (by decide) (by decide)
  have run : Run (guarded (ofFunction next)
      fun u operation => (u.after operation).Fits ∧ u.Fresh operation)
      (initial Nat Nat 2) [.put 1 10, .put 2 20, .delete 1, .put 1 30] (u.after (.put 1 30)) :=
    .cons ⟨⟨one.fits, .inl rfl⟩, rfl⟩ (.cons ⟨⟨two.fits, .inl (by decide)⟩, rfl⟩
      (.cons ⟨⟨freed.fits, trivial⟩, rfl⟩ (.single ⟨⟨filled.fits, .inl (by decide)⟩, rfl⟩)))
  exact ⟨_, run, get_of_run run 1⟩

/-- A second `Put` of a key is not seen. -/
theorem not_get_secondPut :
    ¬∀ (operations : List (Operation Nat Nat)) (u : Usage Nat Nat 16),
      Run (guarded (ofFunction next)
        fun u operation => (u.after operation).Fits) (initial Nat Nat 16) operations u →
      ∀ key, u.table.get key = u.last key := by
  intro law
  let one := (initial Nat Nat 16).after (.put 1 10)
  have first : one.Holds := holds_initial.put 10 rfl (by decide)
  have second : (one.after (.put 1 20)).Fits := by
    have keys : {key | ((one.after (.put 1 20)).last key).isSome} = {1} := by
      ext key
      by_cases same : key = 1
      · simp [one, after, initial, same]
      · simp [one, after, initial, same]
    rw [Fits, keys, Set.encard_singleton]
    decide
  have same := law [.put 1 10, .put 1 20] _
    (.cons ⟨first.fits, rfl⟩ (.single ⟨second, rfl⟩)) 1
  revert same
  decide

end Usage
end Mikanos.Usb
