import Mathlib.Data.Fintype.Basic
import Mathlib.Tactic.IntervalCases
import Mikanos.Transition.Run
import Mikanos.Xhci.Ring

/-!
# The ring producer and the host controller

The blocks pushed onto a ring are numbered from 0.  With `m` slots before the
link block, block `k` goes into slot `k % m` on lap `k / m`, with the cycle bit
of that lap.  The invariant says which slots the host controller may take: the
blocks published and not consumed are in place, and every other slot, the link
block included, still carries the cycle bit of an earlier lap.
-/

namespace Mikanos.Xhci

open Transition

/-! ## Laps -/

/-- The cycle bit of a lap. -/
def phase (lap : Nat) : Bool :=
  decide (lap % 2 = 0)

theorem phase_succ (lap : Nat) : phase (lap + 1) = !phase lap := by
  rw [phase, phase, ← decide_not]
  exact decide_eq_decide.mpr (by omega)

/-- Two counters less than a lap apart do not share a slot. -/
theorem mod_ne_of_lt {m a b : Nat} (lower : a < b) (upper : b < a + m) : a % m ≠ b % m := by
  intro same
  have divides : m ∣ b - a := Nat.dvd_of_mod_eq_zero (Nat.sub_mod_eq_zero_of_mod_eq same.symm)
  have := Nat.eq_zero_of_dvd_of_lt divides (by omega)
  omega

/-- The last slot of a lap. -/
theorem lap_of_last {m k : Nat} (last : k % m + 1 = m) :
    (k + 1) % m = 0 ∧ (k + 1) / m = k / m + 1 := by
  have split : k + 1 = m * (k / m + 1) := by
    have := Nat.div_add_mod k m
    rw [Nat.mul_add]
    omega
  have pos : 0 < m := by omega
  rw [split, Nat.mul_mod_right, Nat.mul_div_cancel_left _ pos]
  exact ⟨rfl, rfl⟩

/-- Every other slot. -/
theorem lap_of_inner {m k : Nat} (pos : 0 < m) (inner : k % m + 1 ≠ m) :
    (k + 1) % m = k % m + 1 ∧ (k + 1) / m = k / m := by
  have below : k % m + 1 < m := by
    have := Nat.mod_lt k pos
    omega
  have split : k + 1 = m * (k / m) + (k % m + 1) := by
    have := Nat.div_add_mod k m
    omega
  constructor
  · conv_lhs => rw [split, Nat.mul_add_mod, Nat.mod_eq_of_lt below]
  · conv_lhs => rw [split, Nat.mul_add_div pos, Nat.div_eq_of_lt below, Nat.add_zero]

/-! ## Publishing one block -/

/-- The stores that put `target` into a slot. -/
def wordStores (slot : Nat) (target : TRB) : List Store :=
  [⟨slot, 0, target 0⟩, ⟨slot, 1, target 1⟩, ⟨slot, 2, target 2⟩, ⟨slot, 3, target 3⟩]

theorem copyStores_eq (slot : Nat) (data : TRB) (cycle : Bool) :
    copyStores slot data cycle = wordStores slot (data.stamp cycle) := by
  rw [copyStores, wordStores, TRB.stamp_last, TRB.stamp_of_ne _ _ (by decide),
    TRB.stamp_of_ne _ _ (by decide), TRB.stamp_of_ne _ _ (by decide)]

/-- `target` is being copied into `slot`: the first words are in place, and
`stores` are the stores of the others. -/
def Publishing (buf : Slots) (slot : Nat) (target : TRB) (stores : List Store) : Prop :=
  ∃ done : Nat, done < 4 ∧ stores = (wordStores slot target).drop done ∧
    ∀ i : Fin 4, (i : Nat) < done → buf slot i = target i

theorem Publishing.start (buf : Slots) (slot : Nat) (target : TRB) :
    Publishing buf slot target (wordStores slot target) :=
  ⟨0, by decide, rfl, fun _ below => absurd below (Nat.not_lt_zero _)⟩

theorem Publishing.ne_nil {buf : Slots} {slot : Nat} {target : TRB} {stores : List Store}
    (publishing : Publishing buf slot target stores) : stores ≠ [] := by
  rcases publishing with ⟨done, bound, rfl, -⟩
  intro empty
  have := List.drop_eq_nil_iff.mp empty
  simp only [wordStores, List.length_cons, List.length_nil] at this
  omega

theorem Store.apply_of_ne {store : Store} {slot : Nat} (ne : slot ≠ store.slot) (buf : Slots) :
    store.apply buf slot = buf slot :=
  Function.update_of_ne ne ..

theorem Store.apply_self (store : Store) (buf : Slots) :
    store.apply buf store.slot = Function.update (buf store.slot) store.word store.value :=
  Function.update_self ..

/-- One store of a copy in progress: either words are still missing and the
cycle bit is the old one, or the block is complete. -/
theorem Publishing.next {buf : Slots} {slot : Nat} {target : TRB} {stores : List Store}
    (publishing : Publishing buf slot target stores) :
    ∃ store rest, stores = store :: rest ∧ store.slot = slot ∧
      ((Publishing (store.apply buf) slot target rest ∧
          (store.apply buf slot).cycleBit = (buf slot).cycleBit) ∨
        (rest = [] ∧ store.apply buf slot = target)) := by
  rcases publishing with ⟨done, bound, rfl, inPlace⟩
  have word (i : Fin 4) (is : (i : Nat) = done) :
      ∀ k : Fin 4, (k : Nat) < done + 1 →
        (Store.mk slot i (target i)).apply buf slot k = target k := by
    intro k below
    rw [show Store.apply ⟨slot, i, target i⟩ buf slot = _ from Store.apply_self ..]
    by_cases same : k = i
    · subst same
      exact Function.update_self ..
    · rw [Function.update_of_ne same]
      refine inPlace k ?_
      have : (k : Nat) ≠ i := fun h => same (Fin.ext h)
      omega
  have bit (i : Fin 4) (ne : i ≠ 3) :
      ((Store.mk slot i (target i)).apply buf slot).cycleBit = (buf slot).cycleBit := by
    rw [show Store.apply ⟨slot, i, target i⟩ buf slot = _ from Store.apply_self ..]
    rw [TRB.cycleBit, Function.update_of_ne (Ne.symm ne), TRB.cycleBit]
  interval_cases done
  · exact ⟨_, _, rfl, rfl, .inl ⟨⟨1, by decide, rfl, word 0 rfl⟩, bit 0 (by decide)⟩⟩
  · exact ⟨_, _, rfl, rfl, .inl ⟨⟨2, by decide, rfl, word 1 rfl⟩, bit 1 (by decide)⟩⟩
  · exact ⟨_, _, rfl, rfl, .inl ⟨⟨3, by decide, rfl, word 2 rfl⟩, bit 2 (by decide)⟩⟩
  · exact ⟨_, _, rfl, rfl, .inr ⟨rfl, funext fun k => word 3 rfl k k.isLt⟩⟩

/-! ## The invariant -/

/-- The blocks before `published` and the first `links` link blocks have been
published; the host controller has consumed `consumed` blocks and taken `taken`
links. -/
structure Published (m base : Nat) (buf : Slots) (pushed : List TRB)
    (consumed taken published links : Nat) : Prop where
  live : ∀ k trb, consumed ≤ k → k < published → pushed[k]? = some trb →
    buf (k % m) = trb.stamp (phase (k / m))
  stale : ∀ k, published ≤ k → k < consumed + m → (buf (k % m)).cycleBit ≠ phase (k / m)
  taken_le : taken ≤ links
  le_taken : links ≤ taken + 1
  link : links = taken + 1 → buf m = (TRB.link base true).stamp (phase taken)
  staleLink : links = taken → (buf m).cycleBit ≠ phase taken

/-- How far the `Push` in progress has come. -/
inductive Writing (m base : Nat) (buf : Slots) (pushed : List TRB) (stores : List Store)
    (published links : Nat) : Prop
  | idle (done : stores = []) (all : published = pushed.length) (lap : links = published / m)
  | data (trb : TRB) (rest : List Store) (last : pushed[published]? = some trb)
      (all : pushed.length = published + 1) (lap : links = published / m)
      (copying : Publishing buf (published % m) (trb.stamp (phase (published / m))) rest)
      (split : stores = rest ++ if (published + 1) % m = 0 then
        wordStores m ((TRB.link base true).stamp (phase links)) else [])
  | link (all : published = pushed.length) (lap : published = (links + 1) * m)
      (copying : Publishing buf m ((TRB.link base true).stamp (phase links)) stores)

namespace Shared

/-- The invariant of a shared ring. -/
structure Inv (region : Region) (s : Shared) (taken published links : Nat) : Prop where
  sameRegion : s.ring.region = region
  plain : ∀ trb ∈ s.pushed, trb.trbType ≠ TRB.linkType
  writeIndex : s.ring.writeIndex = s.pushed.length % (region.size - 1)
  cycleBit : s.ring.cycleBit = phase (s.pushed.length / (region.size - 1))
  window : s.pushed.length ≤ s.consumed.length + (region.size - 2)
  consumed_le : s.consumed.length ≤ published
  position : s.consumed.length = taken * (region.size - 1) + s.consumer.slot
  slot_le : s.consumer.slot ≤ region.size - 1
  state : s.consumer.cycleState = phase taken
  history : s.consumed.map TRB.payload = (s.pushed.take s.consumed.length).map TRB.payload
  slots : Published (region.size - 1) region.base s.ring.buf s.pushed s.consumed.length
    taken published links
  writing : Writing (region.size - 1) region.base s.ring.buf s.pushed s.stores published links

/-- The driver never lets more than `n - 2` blocks be unconsumed. -/
def Room (s : Shared) : Action → Prop
  | .push _ => s.pushed.length + 1 ≤ s.consumed.length + (s.ring.bufSize - 2)
  | _ => True

/-- The driver pushes no link blocks of its own. -/
def Plain : Action → Prop
  | .push data => data.trbType ≠ TRB.linkType
  | _ => True

/-- The actions of a driver that keeps both rules. -/
def Fair (s : Shared) (action : Action) : Prop :=
  s.Room action ∧ Plain action

instance (s : Shared) (action : Action) : Decidable (s.Room action) :=
  match action with
  | .push _ => inferInstanceAs (Decidable (_ ≤ _))
  | .store => inferInstanceAs (Decidable True)
  | .consume => inferInstanceAs (Decidable True)

instance (action : Action) : Decidable (Plain action) :=
  match action with
  | .push _ => inferInstanceAs (Decidable (_ ≠ _))
  | .store => inferInstanceAs (Decidable True)
  | .consume => inferInstanceAs (Decidable True)

instance (s : Shared) (action : Action) : Decidable (s.Fair action) :=
  inferInstanceAs (Decidable (_ ∧ _))

end Shared

theorem Writing.le {m base : Nat} {buf : Slots} {pushed : List TRB} {stores : List Store}
    {published links : Nat} (writing : Writing m base buf pushed stores published links) :
    published ≤ pushed.length := by
  cases writing <;> omega

namespace Published

variable {m base : Nat} {buf buf' : Slots} {pushed : List TRB}
  {consumed taken published links : Nat}

/-- Storing a word of a block that is not published yet. -/
theorem keep (slots : Published m base buf pushed consumed taken published links) {slot : Nat}
    (other : ∀ k, k ≠ slot → buf' k = buf k)
    (bit : (buf' slot).cycleBit = (buf slot).cycleBit)
    (hidden : ∀ k, consumed ≤ k → k < published → k % m ≠ slot)
    (notLink : links = taken + 1 → m ≠ slot) :
    Published m base buf' pushed consumed taken published links := by
  have bits (k : Nat) : (buf' k).cycleBit = (buf k).cycleBit := by
    by_cases same : k = slot
    · rw [same, bit]
    · rw [other k same]
  exact
    { live := by
        intro k trb lower upper found
        rw [other _ (hidden k lower upper)]
        exact slots.live k trb lower upper found
      stale := by
        intro k lower upper
        rw [bits]
        exact slots.stale k lower upper
      taken_le := slots.taken_le
      le_taken := slots.le_taken
      link := by
        intro ready
        rw [other _ (notLink ready)]
        exact slots.link ready
      staleLink := by
        intro notReady
        rw [bits]
        exact slots.staleLink notReady }

/-- The last word of a block is stored. -/
theorem publish (slots : Published m base buf pushed consumed taken published links)
    (pos : 0 < m) (consumed_le : consumed ≤ published) (room : published < consumed + m)
    {trb : TRB}
    (last : pushed[published]? = some trb)
    (other : ∀ k, k ≠ published % m → buf' k = buf k)
    (complete : buf' (published % m) = trb.stamp (phase (published / m))) :
    Published m base buf' pushed consumed taken (published + 1) links := by
  have link : buf' m = buf m := other m (Nat.mod_lt published pos).ne'
  exact
    { live := by
        intro k trb' lower upper found
        by_cases same : k = published
        · subst same
          rw [last] at found
          cases found
          exact complete
        · have below : k < published := by omega
          rw [other _ (mod_ne_of_lt below (by omega))]
          exact slots.live k trb' lower below found
      stale := by
        intro k lower upper
        rw [other _ (mod_ne_of_lt lower (by omega)).symm]
        exact slots.stale k (by omega) upper
      taken_le := slots.taken_le
      le_taken := slots.le_taken
      link := fun ready => link.trans (slots.link ready)
      staleLink := fun notReady => link ▸ slots.staleLink notReady }

/-- The last word of a link block is stored. -/
theorem publishLink (slots : Published m base buf pushed consumed taken published links)
    (pos : 0 < m) (notReady : links = taken) (other : ∀ k, k ≠ m → buf' k = buf k)
    (complete : buf' m = (TRB.link base true).stamp (phase links)) :
    Published m base buf' pushed consumed taken published (links + 1) := by
  have same (k : Nat) : buf' (k % m) = buf (k % m) := other _ (Nat.mod_lt k pos).ne
  exact
    { live := fun k trb lower upper found =>
        (same k).trans (slots.live k trb lower upper found)
      stale := fun k lower upper => same k ▸ slots.stale k lower upper
      taken_le := by omega
      le_taken := by omega
      link := by
        intro _
        rw [complete, notReady]
      staleLink := by
        intro impossible
        omega }

/-- The host controller consumes a block. -/
theorem take (slots : Published m base buf pushed consumed taken published links) (pos : 0 < m)
    (ready : consumed < published) {trb : TRB} (found : pushed[consumed]? = some trb) :
    Published m base buf pushed (consumed + 1) taken published links :=
  { slots with
    live := fun k trb lower upper => slots.live k trb (by omega) upper
    stale := by
      intro k lower upper
      by_cases old : k < consumed + m
      · exact slots.stale k lower old
      · have last : k = consumed + m := by omega
        rw [last, Nat.add_mod_right, Nat.add_div_right _ pos,
          slots.live consumed trb (Nat.le_refl _) ready found, TRB.cycleBit_stamp, phase_succ]
        exact Bool.self_ne_not _ }

/-- The host controller takes a link block. -/
theorem takeLink (slots : Published m base buf pushed consumed taken published links)
    (ready : links = taken + 1) :
    Published m base buf pushed consumed (taken + 1) published links :=
  { slots with
    taken_le := ready.ge
    le_taken := by omega
    link := by
      intro impossible
      omega
    staleLink := by
      intro _
      rw [slots.link ready, TRB.cycleBit_stamp, phase_succ]
      exact Bool.self_ne_not _ }

end Published

namespace Shared

variable {region : Region} {s s' : Shared} {taken published links : Nat}

/-- A cleared block does not carry the cycle bit of the first lap. -/
theorem stale_zero : TRB.cycleBit (fun _ => 0) ≠ phase 0 := by
  decide

theorem inv_initial (region : Region) : Inv region (initial region) 0 0 0 where
  sameRegion := rfl
  plain := by
    rintro trb ⟨⟩
  writeIndex := (Nat.zero_mod _).symm
  cycleBit := by
    rw [initial, List.length_nil, Nat.zero_div]
    rfl
  window := Nat.zero_le _
  consumed_le := Nat.zero_le _
  position := by
    rw [Nat.zero_mul]
    rfl
  slot_le := Nat.zero_le _
  state := rfl
  history := rfl
  slots :=
    { live := fun k trb _ below => absurd below (Nat.not_lt_zero k)
      stale := by
        intro k _ below
        have below : k < region.size - 1 := by simpa [initial] using below
        rw [Nat.div_eq_of_lt below]
        exact stale_zero
      taken_le := Nat.le_refl 0
      le_taken := Nat.zero_le 1
      link := by
        rintro ⟨⟩
      staleLink := by
        intro _
        exact stale_zero }
  writing := .idle rfl rfl (Nat.zero_div _).symm

/-- `Push` on a ring whose counters agree with the number of blocks pushed. -/
theorem Inv.ring_push (inv : Inv region s taken published links) (three_le : 3 ≤ region.size)
    (data : TRB) :
    (s.ring.push data).1.region = region ∧
      (s.ring.push data).1.writeIndex = (s.pushed.length + 1) % (region.size - 1) ∧
      (s.ring.push data).1.cycleBit = phase ((s.pushed.length + 1) / (region.size - 1)) ∧
      s.ring.pushStores data =
        wordStores (s.pushed.length % (region.size - 1))
            (data.stamp (phase (s.pushed.length / (region.size - 1)))) ++
          if (s.pushed.length + 1) % (region.size - 1) = 0 then
            wordStores (region.size - 1) ((TRB.link region.base true).stamp
              (phase (s.pushed.length / (region.size - 1))))
          else
            [] := by
  set m := region.size - 1 with sizeEq
  have pos : 0 < m := by omega
  have size : s.ring.bufSize - 1 = m := by rw [Ring.bufSize, inv.sameRegion]
  by_cases last : s.pushed.length % m + 1 = m
  · rcases lap_of_last last with ⟨wrapped, next⟩
    have full : s.ring.writeIndex + 1 = s.ring.bufSize - 1 := by
      rw [inv.writeIndex, size, last]
    rw [Ring.push_of_last data full, Ring.pushStores, if_pos full, if_pos wrapped, wrapped, next,
      copyStores_eq, copyStores_eq, inv.sameRegion, inv.writeIndex, inv.cycleBit, ← sizeEq, last,
      phase_succ]
    exact ⟨rfl, rfl, rfl, rfl⟩
  · rcases lap_of_inner pos last with ⟨succ, same⟩
    have inner : s.ring.writeIndex + 1 ≠ s.ring.bufSize - 1 := by
      rw [inv.writeIndex, size]
      exact last
    have notWrapped : (s.pushed.length + 1) % m ≠ 0 := by omega
    rw [Ring.push_of_not_last data inner, Ring.pushStores, if_neg inner, if_neg notWrapped, succ,
      same, copyStores_eq, inv.writeIndex, inv.cycleBit]
    exact ⟨inv.sameRegion, rfl, rfl, rfl⟩

/-- Between two pushes everything pushed has been published. -/
theorem Inv.idle (inv : Inv region s taken published links) (idle : s.stores = []) :
    published = s.pushed.length ∧ links = published / (region.size - 1) := by
  cases inv.writing with
  | idle done all lap => exact ⟨all, lap⟩
  | data trb rest last all lap copying split =>
      rw [idle] at split
      exact absurd (List.append_eq_nil_iff.mp split.symm).1 copying.ne_nil
  | link all lap copying => exact absurd idle copying.ne_nil

/-- `Push` is called. -/
theorem Inv.push (inv : Inv region s taken published links) (three_le : 3 ≤ region.size)
    {data : TRB} (fair : s.Fair (.push data)) (step : s.step (.push data) = some s') :
    Inv region s' taken published links := by
  rcases fair with ⟨room, plain⟩
  rw [Room, Ring.bufSize, inv.sameRegion] at room
  rw [Plain] at plain
  rcases inv.ring_push three_le data with ⟨region', writeIndex, cycleBit, stores⟩
  have empty : s.stores = [] := by
    rw [Shared.step] at step
    split at step
    · assumption
    · cases step
  rcases inv.idle empty with ⟨rfl, lap⟩
  simp only [Shared.step, empty, Option.some.injEq] at step
  subst step
  have appended (k : Nat) (below : k < s.pushed.length) :
      (s.pushed ++ [data])[k]? = s.pushed[k]? := List.getElem?_append_left below
  exact
    { sameRegion := region'
      plain := by
        intro trb member
        rcases List.mem_append.mp member with old | new
        · exact inv.plain trb old
        · rw [List.mem_singleton.mp new]
          exact plain
      writeIndex := by
        rw [List.length_append]
        exact writeIndex
      cycleBit := by
        rw [List.length_append]
        exact cycleBit
      window := by
        rw [List.length_append]
        exact room
      consumed_le := inv.consumed_le
      position := inv.position
      slot_le := inv.slot_le
      state := inv.state
      history := by
        rw [List.take_append_of_le_length inv.consumed_le]
        exact inv.history
      slots :=
        { inv.slots with
          live := fun k trb lower upper found =>
            inv.slots.live k trb lower upper ((appended k upper).symm.trans found) }
      writing := by
        refine .data data _ ?_ ?_ lap (.start ..) ?_
        · exact List.getElem?_concat_length ..
        · rw [List.length_append]
          rfl
        · rw [lap]
          exact stores }

/-- While the link block is being rewritten, the host controller has taken every
earlier one. -/
theorem Inv.links_eq (inv : Inv region s taken published links) (three_le : 3 ≤ region.size)
    (lap : s.pushed.length = (links + 1) * (region.size - 1)) : links = taken := by
  by_contra ne
  have taken_le := inv.slots.taken_le
  have ready : links = taken + 1 := by
    have := inv.slots.le_taken
    omega
  rw [ready, Nat.add_mul, Nat.add_mul] at lap
  have position := inv.position
  have slot_le := inv.slot_le
  have window := inv.window
  omega

/-- A store of the `Push` in progress takes effect. -/
theorem Inv.store (inv : Inv region s taken published links) (three_le : 3 ≤ region.size)
    (step : s.step .store = some s') :
    ∃ published links, Inv region s' taken published links := by
  have pos : 0 < region.size - 1 := by omega
  have window := inv.window
  have consumed_le := inv.consumed_le
  cases inv.writing with
  | idle done all lap =>
      simp [Shared.step, done] at step
  | data trb rest last all lap copying split =>
      rcases copying.next with ⟨store, rest', rfl, slotEq, progress⟩
      rw [List.cons_append] at split
      simp only [Shared.step, split, Option.some.injEq] at step
      subst step
      have other (k : Nat) (ne : k ≠ published % (region.size - 1)) :
          store.apply s.ring.buf k = s.ring.buf k :=
        Store.apply_of_ne (slotEq ▸ ne) _
      rcases progress with ⟨copying', bit⟩ | ⟨rfl, complete⟩
      · refine ⟨published, links, { inv with slots := ?_, writing := ?_ }⟩
        · refine inv.slots.keep other bit ?_ fun _ => (Nat.mod_lt published pos).ne'
          intro k lower upper
          exact mod_ne_of_lt upper (by omega)
        · exact .data trb rest' last all lap copying' rfl
      · refine ⟨published + 1, links, { inv with consumed_le := ?_, slots := ?_, writing := ?_ }⟩
        · exact Nat.le_succ_of_le consumed_le
        · exact inv.slots.publish pos consumed_le (by omega) last other complete
        · by_cases full : published % (region.size - 1) + 1 = region.size - 1
          · rcases lap_of_last full with ⟨wrapped, next⟩
            rw [if_pos wrapped]
            refine .link all.symm ?_ (.start ..)
            rw [lap, ← next]
            exact (Nat.div_mul_cancel (Nat.dvd_of_mod_eq_zero wrapped)).symm
          · rcases lap_of_inner pos full with ⟨succ, same⟩
            rw [if_neg (by omega)]
            exact .idle rfl all.symm (lap.trans same.symm)
  | link all lap copying =>
      rcases copying.next with ⟨store, rest, storesEq, slotEq, progress⟩
      simp only [Shared.step, storesEq, Option.some.injEq] at step
      subst step
      have notReady := inv.links_eq three_le (all ▸ lap)
      have other (k : Nat) (ne : k ≠ region.size - 1) :
          store.apply s.ring.buf k = s.ring.buf k :=
        Store.apply_of_ne (slotEq ▸ ne) _
      rcases progress with ⟨copying', bit⟩ | ⟨rfl, complete⟩
      · refine ⟨published, links, { inv with slots := ?_, writing := ?_ }⟩
        · refine inv.slots.keep other bit (fun k _ _ => (Nat.mod_lt k pos).ne) ?_
          omega
        · exact .link all lap copying'
      · refine ⟨published, links + 1, { inv with slots := ?_, writing := ?_ }⟩
        · exact inv.slots.publishLink pos notReady other complete
        · refine .idle rfl all ?_
          rw [lap, Nat.mul_div_cancel _ pos]

/-- The next block to consume belongs to the slot of the dequeue pointer. -/
theorem Inv.mod_div (inv : Inv region s taken published links)
    (inner : s.consumer.slot < region.size - 1) :
    s.consumed.length % (region.size - 1) = s.consumer.slot ∧
      s.consumed.length / (region.size - 1) = taken := by
  have pos : 0 < region.size - 1 := by omega
  rw [inv.position, Nat.mul_comm, Nat.mul_add_mod, Nat.mul_add_div pos, Nat.mod_eq_of_lt inner,
    Nat.div_eq_of_lt inner]
  exact ⟨rfl, rfl⟩

/-- The host controller takes a link block. -/
theorem Inv.consumer_link (inv : Inv region s taken published links) (three_le : 3 ≤ region.size)
    (atLink : s.consumer.slot = region.size - 1) (ready : links = taken + 1) :
    s.consumer.step s.ring.region.base s.ring.buf =
      ({ slot := 0, cycleState := phase (taken + 1) }, none) := by
  have aligned := region.aligned
  have fits := region.fits
  rw [Consumer.step, atLink, inv.slots.link ready, inv.state, inv.sameRegion]
  simp only [TRB.cycleBit_stamp, TRB.trbType_stamp, TRB.trbType_link, TRB.pointer_stamp,
    TRB.toggleCycle_stamp, TRB.toggleCycle_link, if_true]
  rw [TRB.pointer_link true (by omega) (by omega), Nat.sub_self, phase_succ, Bool.xor_true]

/-- The host controller consumes a block that `Push` has published. -/
theorem Inv.consumer_take (inv : Inv region s taken published links)
    (inner : s.consumer.slot < region.size - 1) (ready : s.consumed.length < published) :
    ∃ trb, s.pushed[s.consumed.length]? = some trb ∧
      s.consumer.step s.ring.region.base s.ring.buf =
        ({ slot := s.consumer.slot + 1, cycleState := phase taken },
          some (trb.stamp (phase taken))) := by
  have below : s.consumed.length < s.pushed.length := lt_of_lt_of_le ready inv.writing.le
  rcases inv.mod_div inner with ⟨slot, lap⟩
  have found := List.getElem?_eq_getElem below
  have content := inv.slots.live _ _ (Nat.le_refl _) ready found
  rw [slot, lap] at content
  refine ⟨_, found, ?_⟩
  have plain := inv.plain _ (List.getElem_mem below)
  rw [Consumer.step, content, inv.state]
  simp only [TRB.cycleBit_stamp, TRB.trbType_stamp, if_true, if_neg plain]

/-- The host controller finds nothing to do. -/
theorem Inv.consumer_wait (inv : Inv region s taken published links)
    (atLink : s.consumer.slot = region.size - 1 → links = taken)
    (inner : s.consumer.slot < region.size - 1 → published = s.consumed.length) :
    s.consumer.step s.ring.region.base s.ring.buf = (s.consumer, none) := by
  have stale : (s.ring.buf s.consumer.slot).cycleBit ≠ s.consumer.cycleState := by
    rw [inv.state]
    rcases Nat.lt_or_eq_of_le inv.slot_le with below | equal
    · rcases inv.mod_div below with ⟨slot, lap⟩
      have := inv.slots.stale s.consumed.length (inner below).le (by omega)
      rwa [slot, lap] at this
    · rw [equal]
      exact inv.slots.staleLink (atLink equal)
  rw [Consumer.step]
  exact if_neg stale

/-- The host controller looks at the ring. -/
theorem Inv.consume (inv : Inv region s taken published links) (three_le : 3 ≤ region.size)
    (step : s.step .consume = some s') : ∃ taken, Inv region s' taken published links := by
  have pos : 0 < region.size - 1 := by omega
  rcases Nat.lt_or_eq_of_le inv.slot_le with inner | atLink
  · by_cases ready : s.consumed.length < published
    · rcases inv.consumer_take inner ready with ⟨trb, found, taking⟩
      simp only [Shared.step, taking, Option.some.injEq, Option.toList_some] at step
      subst step
      have count : (s.consumed ++ [trb.stamp (phase taken)]).length = s.consumed.length + 1 := by
        rw [List.length_append, List.length_singleton]
      refine ⟨taken, { inv with
        window := ?_, consumed_le := ?_, position := ?_, slot_le := inner, state := rfl
        history := ?_, slots := ?_ }⟩
      · rw [count]
        exact le_trans inv.window (by omega)
      · rw [count]
        exact ready
      · rw [count, inv.position]
        rfl
      · rw [count, List.take_add_one, found, List.map_append, List.map_append, inv.history]
        simp
      · rw [count]
        exact inv.slots.take pos ready found
    · have waiting := inv.consumer_wait (fun equal => absurd equal inner.ne)
        fun _ => Nat.le_antisymm (Nat.le_of_not_lt ready) inv.consumed_le
      simp only [Shared.step, waiting, Option.some.injEq, Option.toList_none,
        List.append_nil] at step
      exact ⟨taken, step ▸ inv⟩
  · by_cases ready : links = taken + 1
    · simp only [Shared.step, inv.consumer_link three_le atLink ready, Option.some.injEq,
        Option.toList_none, List.append_nil] at step
      subst step
      refine ⟨taken + 1, { inv with
        position := ?_, slot_le := Nat.zero_le _, state := rfl
        slots := inv.slots.takeLink ready }⟩
      rw [inv.position, atLink, Nat.succ_mul]
      rfl
    · have notReady : links = taken := by
        have := inv.slots.taken_le
        have := inv.slots.le_taken
        omega
      have waiting := inv.consumer_wait (fun _ => notReady) fun inner => absurd atLink inner.ne
      simp only [Shared.step, waiting, Option.some.injEq, Option.toList_none,
        List.append_nil] at step
      exact ⟨taken, step ▸ inv⟩

/-- Every step of a fair driver and of the host controller keeps the invariant. -/
theorem inv_step (three_le : 3 ≤ region.size) {action : Action}
    (inv : ∃ taken published links, Inv region s taken published links)
    (step : guarded (ofFunction Shared.step) Fair s action s') :
    ∃ taken published links, Inv region s' taken published links := by
  rcases inv with ⟨taken, published, links, inv⟩
  rcases step with ⟨fair, step⟩
  cases action with
  | push data => exact ⟨taken, published, links, inv.push three_le fair step⟩
  | store => exact ⟨taken, inv.store three_le step⟩
  | consume =>
      rcases inv.consume three_le step with ⟨taken, inv⟩
      exact ⟨taken, published, links, inv⟩

/-- Steps of the host controller alone. -/
abbrev Consumes (s : Shared) (count : Nat) (s' : Shared) : Prop :=
  Run (ofFunction Shared.step) s (List.replicate count .consume) s'

/-- At a slot before the link block the next look consumes a block. -/
theorem Inv.progress_inner (inv : Inv region s taken published links) (three_le : 3 ≤ region.size)
    (idle : s.stores = []) (inner : s.consumer.slot < region.size - 1)
    (behind : s.consumed.length < s.pushed.length) :
    ∃ s', s.step .consume = some s' ∧ s'.stores = [] ∧ s'.pushed = s.pushed ∧
      s'.consumed.length = s.consumed.length + 1 ∧
      ∃ taken, Inv region s' taken published links := by
  have ready : s.consumed.length < published := (inv.idle idle).1 ▸ behind
  rcases inv.consumer_take inner ready with ⟨trb, -, taking⟩
  have step : s.step .consume = some { s with
      consumer := { slot := s.consumer.slot + 1, cycleState := phase taken }
      consumed := s.consumed ++ [trb.stamp (phase taken)] } := by
    simp only [Shared.step, taking, Option.toList_some]
  refine ⟨_, step, idle, rfl, ?_, inv.consume three_le step⟩
  rw [List.length_append, List.length_singleton]

/-- Between two pushes the host controller gets at least one block further. -/
theorem Inv.progress (inv : Inv region s taken published links) (three_le : 3 ≤ region.size)
    (idle : s.stores = []) (behind : s.consumed.length < s.pushed.length) :
    ∃ count s', Consumes s count s' ∧ s'.stores = [] ∧ s'.pushed = s.pushed ∧
      s'.consumed.length = s.consumed.length + 1 ∧
      ∃ taken, Inv region s' taken published links := by
  rcases Nat.lt_or_eq_of_le inv.slot_le with inner | atLink
  · rcases inv.progress_inner three_le idle inner behind with ⟨s', step, rest⟩
    exact ⟨1, s', .single step, rest⟩
  · have pos : 0 < region.size - 1 := by omega
    have ready : links = taken + 1 := by
      refine Nat.le_antisymm inv.slots.le_taken ?_
      rcases inv.idle idle with ⟨all, lap⟩
      rw [lap, Nat.le_div_iff_mul_le pos, Nat.succ_mul, all]
      have := inv.position
      omega
    have first : s.step .consume =
        some { s with consumer := { slot := 0, cycleState := phase (taken + 1) } } := by
      simp only [Shared.step, inv.consumer_link three_le atLink ready, Option.toList_none,
        List.append_nil]
    rcases inv.consume three_le first with ⟨taken', inv'⟩
    rcases inv'.progress_inner three_le idle pos behind with ⟨s', second, rest⟩
    exact ⟨2, s', .cons first (.single second), rest⟩

/-- Between two pushes the host controller gets to the end of what was pushed. -/
theorem Inv.drain (three_le : 3 ≤ region.size) (left : Nat) :
    ∀ (s : Shared) (taken : Nat), Inv region s taken published links → s.stores = [] →
      s.pushed.length = s.consumed.length + left →
      ∃ count s', Consumes s count s' ∧ s'.pushed = s.pushed ∧
        s'.consumed.map TRB.payload = s.pushed.map TRB.payload := by
  induction left with
  | zero =>
      intro s taken inv _ all
      refine ⟨0, s, .nil s, rfl, ?_⟩
      rw [inv.history, List.take_of_length_le (by omega)]
  | succ left ih =>
      intro s taken inv idle behind
      rcases inv.progress three_le idle (by omega) with
        ⟨count, middle, first, idle', pushed, consumed, taken', inv'⟩
      rcases ih middle taken' inv' idle' (by rw [pushed]; omega) with ⟨count', s', rest, pushed', history⟩
      refine ⟨count + count', s', ?_, pushed'.trans pushed, pushed ▸ history⟩
      rw [Consumes, List.replicate_add]
      exact first.append rest

/-- The ring producer is correct.  Whatever blocks other than link blocks the
driver pushes, and however its word stores interleave with the host controller:
as long as at most `n - 2` blocks are unconsumed, the host controller has
consumed a prefix of what was pushed, unchanged up to the cycle bit, and between
two pushes it goes on to consume all of it. -/
theorem producer_correct (region : Region) (three_le : 3 ≤ region.size) (actions : List Action)
    (s : Shared) (run : Run (guarded (ofFunction Shared.step) Fair) (initial region) actions s) :
    s.consumed.map TRB.payload <+: s.pushed.map TRB.payload ∧
      s.ring.writeIndex < region.size - 1 ∧
      (s.stores = [] → ∃ count s', Consumes s count s' ∧ s'.pushed = s.pushed ∧
        s'.consumed.map TRB.payload = s.pushed.map TRB.payload) := by
  have start : ∃ taken published links, Inv region (initial region) taken published links :=
    ⟨0, 0, 0, inv_initial region⟩
  rcases run.invariant (fun _ _ _ inv step => inv_step three_le inv step) start with
    ⟨taken, published, links, inv⟩
  have le : s.consumed.length ≤ s.pushed.length := inv.consumed_le.trans inv.writing.le
  refine ⟨?_, ?_, fun idle => ?_⟩
  · rw [inv.history]
    exact (List.take_prefix ..).map _
  · rw [inv.writeIndex]
    exact Nat.mod_lt _ (by omega)
  · exact Inv.drain three_le _ s taken inv idle (Nat.add_sub_of_le le).symm

/-! ## A driver that pushes link blocks -/

/-- A ring of four blocks. -/
def smallRegion : Region :=
  { base := 64, size := 4, aligned := rfl, fits := by decide }

/-- One block passed to `Push`, all stores of which take effect. -/
def pushAll (data : TRB) : List Action :=
  .push data :: List.replicate 4 .store

/-- `NoOpTRB`, up to the fields that stay zero. -/
def noOp : TRB :=
  ![0, 0, 0, 0x2000]

theorem producer_correct_smallRegion : ∃ s,
    Run (guarded (ofFunction Shared.step) Fair) (initial smallRegion)
      (pushAll noOp ++ [.consume]) s ∧
    s.consumed.map TRB.payload <+: s.pushed.map TRB.payload := by
  rcases exists_run_of_execute Fair Shared.step (initial smallRegion)
    (pushAll noOp ++ [.consume]) (fun _ => true) (by decide) with ⟨s, run, -⟩
  exact ⟨s, run, (producer_correct smallRegion (by decide) _ s run).1⟩

/-- A link block passed to `Push` sends the host controller back to the start of
the ring in the middle of a lap, where it consumes a block a second time. -/
theorem not_producer_correct_link : ∃ s,
    Run (guarded (ofFunction Shared.step) Room) (initial smallRegion)
      (pushAll noOp ++ pushAll (TRB.link 64 false) ++ List.replicate 3 .consume) s ∧
    ¬ s.consumed.map TRB.payload <+: s.pushed.map TRB.payload := by
  rcases exists_run_of_execute Room Shared.step (initial smallRegion)
    (pushAll noOp ++ pushAll (TRB.link 64 false) ++ List.replicate 3 .consume)
    (fun s => decide (¬ s.consumed.map TRB.payload <+: s.pushed.map TRB.payload)) (by decide) with
    ⟨s, run, twice⟩
  exact ⟨s, run, of_decide_eq_true twice⟩

end Shared
end Mikanos.Xhci
