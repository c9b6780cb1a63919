import Mikanos.Fat.Stored

/-!
# Calls that do not fit

A call that ends inside the cluster behind the next one copies more than its buffer has.  A
call that needs several clusters at the end of the chain leaves out all but the last of them,
and what it leaves out is never written later.
-/

namespace Mikanos.Fat

open Mikanos.Memory Mikanos.Chain

namespace Volume

variable {v₀ v v' v'' : Volume} {content buf buf' : Mem} {fd fd' : FileDescriptor}
  {first i k c c' o o' p len total total' fuel : Nat} {l new : List Nat} {writes : List (Mem × Nat)}

/-! ## What is read of a buffer -/

/-- A round of a loop that returns. -/
theorem writeLoop_inv (more : total < len)
    (result : writeLoop buf len (fuel + 1) v total c o = .ok (v', total', c', o')) :
    ∃ v₁ c₁ o₁ sec, v.advance len total c o = .ok (v₁, c₁, o₁) ∧
      v₁.getSectorByCluster c₁ = .ok sec ∧
      writeLoop buf len fuel (v₁.copyIn buf sec o₁ total (min len (v₁.bytesPerCluster - o₁)))
        (total + min len (v₁.bytesPerCluster - o₁)) c₁ (o₁ + min len (v₁.bytesPerCluster - o₁)) =
          .ok (v', total', c', o') := by
  rw [writeLoop, if_pos more] at result
  cases advanceEq : v.advance len total c o with
  | error stop =>
      rw [advanceEq] at result
      cases result
  | ok r =>
      rcases r with ⟨v₁, c₁, o₁⟩
      rw [advanceEq] at result
      simp only [bind, Except.bind] at result
      cases sectorEq : v₁.getSectorByCluster c₁ with
      | error stop =>
          rw [sectorEq] at result
          cases result
      | ok sec =>
          rw [sectorEq] at result
          exact ⟨v₁, c₁, o₁, sec, rfl, sectorEq, result⟩

theorem le_of_writeLoop (result : writeLoop buf len fuel v total c o = .ok (v', total', c', o')) :
    total ≤ total' := by
  induction fuel generalizing v total c o with
  | zero => cases result
  | succ fuel ih =>
      by_cases more : total < len
      · rcases writeLoop_inv more result with ⟨v₁, c₁, o₁, sec, -, -, rest⟩
        exact (Nat.le_add_right _ _).trans (ih rest)
      · rw [writeLoop, if_neg more] at result
        cases result
        exact le_rfl

theorem copyIn_congr (v : Volume) (sec off total n : Nat)
    (same : ∀ j < total + n, buf' j = buf j) :
    v.copyIn buf' sec off total n = v.copyIn buf sec off total n := by
  rw [copyIn, copyIn]
  congr 1
  funext a
  rw [Mem.copyTo_apply, Mem.copyTo_apply]
  by_cases inside : sec + off ≤ a ∧ a < sec + off + n
  · rw [if_pos inside, if_pos inside, same _ (by omega)]
  · rw [if_neg inside, if_neg inside]

/-- The loop reads the bytes that it says it has copied, and no others. -/
theorem writeLoop_congr (result : writeLoop buf len fuel v total c o = .ok (v', total', c', o'))
    (same : ∀ j < total', buf' j = buf j) :
    writeLoop buf' len fuel v total c o = .ok (v', total', c', o') := by
  induction fuel generalizing v total c o with
  | zero => cases result
  | succ fuel ih =>
      by_cases more : total < len
      · rcases writeLoop_inv more result with ⟨v₁, c₁, o₁, sec, advanceEq, sectorEq, rest⟩
        have le := le_of_writeLoop rest
        rw [← copyIn_congr v₁ sec o₁ total _ fun j lt => same j (lt.trans_le le)] at rest
        rw [writeLoop, if_pos more, advanceEq]
        simp only [bind, Except.bind]
        rw [sectorEq]
        exact ih rest
      · rw [writeLoop, if_neg more] at result
        rw [writeLoop, if_neg more]
        exact result

theorem write_congr {returned : Nat} (result : v.write fd buf len = .ok (returned, fd', v'))
    (same : ∀ j < returned, buf' j = buf j) : v.write fd buf' len = .ok (returned, fd', v') := by
  rw [write] at result ⊢
  cases started : v.startWrite fd len with
  | error stop =>
      rw [started] at result
      cases result
  | ok r =>
      rcases r with ⟨v₁, c₁⟩
      rw [started] at result
      simp only [bind, Except.bind] at result ⊢
      cases loopEq : writeLoop buf len (len + 1) v₁ 0 c₁ fd.wrClusterOff with
      | error stop =>
          rw [loopEq] at result
          cases result
      | ok r' =>
          rcases r' with ⟨v₂, total', c', o'⟩
          rw [loopEq] at result
          have copied : total' = returned := by
            cases result
            rfl
          rw [writeLoop_congr loopEq (copied ▸ same)]
          exact result

/-- The same buffers, with anything behind them. -/
def SameBuffers (writes others : List (Mem × Nat)) : Prop :=
  List.Forall₂ (fun w w' => w'.2 = w.2 ∧ ∀ j < w.2, w'.1 j = w.1 j) writes others

theorem writeAll_cons {writes : List (Mem × Nat)} {returned : Nat} {others : List Nat}
    (result : writeAll v fd ((buf, len) :: writes) = .ok (returned :: others, fd', v')) :
    ∃ fd₁ v₁, v.write fd buf len = .ok (returned, fd₁, v₁) ∧
      writeAll v₁ fd₁ writes = .ok (others, fd', v') := by
  rw [writeAll] at result
  cases writeEq : v.write fd buf len with
  | error stop =>
      rw [writeEq] at result
      cases result
  | ok r =>
      rcases r with ⟨returned₁, fd₁, v₁⟩
      rw [writeEq] at result
      simp only [bind, Except.bind] at result
      cases restEq : writeAll v₁ fd₁ writes with
      | error stop =>
          rw [restEq] at result
          cases result
      | ok r' =>
          rcases r' with ⟨others₁, fd₂, v₂⟩
          rw [restEq] at result
          cases result
          exact ⟨fd₁, v₁, rfl, restEq⟩

/-- Calls that return the lengths of their buffers read nothing behind these. -/
theorem writeAll_congr {others : List (Mem × Nat)} (same : SameBuffers writes others)
    (result : writeAll v fd writes = .ok (lengths writes, fd', v')) :
    writeAll v fd others = .ok (lengths writes, fd', v') := by
  induction same generalizing v fd with
  | nil => exact result
  | @cons w w' writes others head tail ih =>
      rcases w with ⟨buf, len⟩
      rcases w' with ⟨buf', len'⟩
      rcases head with ⟨lenEq, same⟩
      simp only at lenEq same
      subst lenEq
      rw [lengths_cons] at result ⊢
      rcases writeAll_cons result with ⟨fd₁, v₁, writeEq, restEq⟩
      rw [writeAll, write_congr writeEq same]
      simp only [bind, Except.bind]
      rw [ih restEq]

/-! ## Calls that do not fit -/

/-- The start of a round leaves the cursor in its cluster, or puts it at the start of another
one. -/
theorem advance_off (valid : v.bpb.Valid) (cursor : Cursor v first l i c o) (more : total < len)
    {v₁ : Volume} {c₁ o₁ : Nat} (advanceEq : v.advance len total c o = .ok (v₁, c₁, o₁)) :
    (o < v.bytesPerCluster ∧ o₁ = o ∨ o = v.bytesPerCluster ∧ o₁ = 0) ∧
      v₁.bytesPerCluster = v.bytesPerCluster := by
  rcases advance_ok valid cursor more advanceEq with ⟨new, i', advanced, -, -⟩
  refine ⟨?_, advanced.written.bytesPerCluster⟩
  rcases advance_cases valid cursor len total more with
    ⟨inside, stays⟩ | ⟨full, next, get, moves⟩ | ⟨full, atEnd, appends⟩
  · rw [stays] at advanceEq
    cases advanceEq
    exact .inl ⟨inside, rfl⟩
  · rw [moves] at advanceEq
    cases advanceEq
    exact .inr ⟨full, rfl⟩
  · right
    refine ⟨full, ?_⟩
    split at appends
    · rcases appends with ⟨last, new, v₂, -, appended, -, -⟩
      rw [appended] at advanceEq
      cases advanceEq
      rfl
    · rw [appends] at advanceEq
      cases advanceEq

/-- What is left of a call after a round. -/
theorem writeLoop_rest (valid : v.bpb.Valid) (cursor : Cursor v first l i c o) (more : total < len)
    (result : writeLoop buf len (fuel + 1) v total c o = .ok (v', total', c', o')) :
    ∃ v₁ l₁ i₁ c₁ o₁ n, (o < v.bytesPerCluster ∧ o₁ = o ∨ o = v.bytesPerCluster ∧ o₁ = 0) ∧
      n = min len (v.bytesPerCluster - o₁) ∧ v₁.bpb = v.bpb ∧ Cursor v₁ first l₁ i₁ c₁ (o₁ + n) ∧
      writeLoop buf len fuel v₁ (total + n) c₁ (o₁ + n) = .ok (v', total', c', o') := by
  rcases writeLoop_inv more result with ⟨v₁, c₁, o₁, sec, advanceEq, sectorEq, rest⟩
  rcases advance_ok valid cursor more advanceEq with ⟨new, i₁, advanced, -, -⟩
  rcases advance_off valid cursor more advanceEq with ⟨off, bytes⟩
  have bpb : v₁.bpb = v.bpb := advanced.written.bpb
  have inside := advanced.off_lt
  rw [getSectorByCluster_of_has advanced.cursor.has] at sectorEq
  cases sectorEq
  rw [bytes] at rest
  refine ⟨v₁.copyIn buf (v₁.bpb.getClusterAddr c₁) o₁ total (min len (v.bytesPerCluster - o₁)),
    l ++ new, i₁, c₁, o₁, _, off, rfl, (bpb_copyIn _ _ _ _ _ _).trans bpb, ?_, rest⟩
  apply cursor_copyIn (bpb ▸ valid) advanced.cursor
  rw [bytes]
  omega

/-- A call that ends inside the next cluster copies more than its buffer has. -/
theorem overshoots (valid : v.bpb.Valid) (cursor : Cursor v first l i c o)
    (beyond : v.bytesPerCluster < o + len) (short : o + len < 2 * v.bytesPerCluster)
    (inside : o < v.bytesPerCluster)
    (result : writeLoop buf len fuel v 0 c o = .ok (v', total', c', o')) : len < total' := by
  cases fuel with
  | zero => cases result
  | succ fuel =>
      rcases writeLoop_rest valid cursor (by omega) result with
        ⟨v₁, l₁, i₁, c₁, o₁, n, off, nEq, bpb₁, cursor₁, rest⟩
      have same : o₁ = o := by omega
      have bytes₁ : v₁.bytesPerCluster = v.bytesPerCluster := congrArg BPB.bytesPerCluster bpb₁
      cases fuel with
      | zero => cases rest
      | succ fuel =>
          rcases writeLoop_rest (bpb₁ ▸ valid) cursor₁ (by omega) rest with
            ⟨v₂, l₂, i₂, c₂, o₂, n₂, off₂, nEq₂, -, -, rest₂⟩
          have := le_of_writeLoop rest₂
          rw [bytes₁] at off₂ nEq₂
          omega

/-- A call with at least a cluster ends at the end of one. -/
theorem dvd_of_writeLoop (valid : v.bpb.Valid) (cursor : Cursor v first l i c o) (more : total < len)
    (whole : v.bytesPerCluster ≤ len)
    (result : writeLoop buf len fuel v total c o = .ok (v', total', c', o')) :
    v.bytesPerCluster ∣ total' + o - total := by
  induction fuel generalizing v total l i c o with
  | zero => cases result
  | succ fuel ih =>
      rcases writeLoop_rest valid cursor more result with
        ⟨v₁, l₁, i₁, c₁, o₁, n, off, nEq, bpb₁, cursor₁, rest⟩
      have bytes₁ : v₁.bytesPerCluster = v.bytesPerCluster := congrArg BPB.bytesPerCluster bpb₁
      have filled : o₁ + n = v.bytesPerCluster := by
        have := cursor.off_le
        omega
      have le := le_of_writeLoop rest
      -- what the rest of the loop copies is a number of clusters
      have divides : v.bytesPerCluster ∣ total' - (total + n) := by
        by_cases again : total + n < len
        · have tail := ih (bpb₁ ▸ valid) cursor₁ again (bytes₁ ▸ whole) rest
          rw [bytes₁, filled, Nat.sub_add_comm le] at tail
          exact (Nat.dvd_add_left (dvd_refl _)).mp tail
        · cases fuel with
          | zero => cases rest
          | succ fuel =>
              rw [writeLoop, if_neg again] at rest
              cases rest
              rw [Nat.sub_self]
              exact dvd_zero _
      rcases off with ⟨inside, rfl⟩ | ⟨full, rfl⟩
      · rw [show total' + o₁ - total = total' - (total + n) + v.bytesPerCluster by omega]
        exact dvd_add divides (dvd_refl _)
      · rw [show total' + o - total = total' - (total + n) + v.bytesPerCluster + v.bytesPerCluster by
          omega]
        exact dvd_add (dvd_add divides (dvd_refl _)) (dvd_refl _)

/-- The file has a cluster, at index `j` of its chain, that has been left out and lies before
the cursor. -/
structure Skipped (v₀ v : Volume) (fd : FileDescriptor) (j : Nat) : Prop where
  bpb : v.bpb = v₀.bpb
  cluster : ∃ l i d, Cursor v (v.firstCluster fd.fatEntry) l i fd.wrCluster fd.wrClusterOff ∧
    v.Away fd.fatEntry l ∧ j < i ∧ v₀.free[j]? = some d ∧ l[j]? = some d ∧
    ∀ a, v₀.InCluster d a → v.mem a = v₀.mem a

/-- It stays as it is. -/
theorem Skipped.write {j returned : Nat} (valid : v₀.bpb.Valid) (skipped : Skipped v₀ v fd j)
    (result : v.write fd buf len = .ok (returned, fd', v')) :
    Skipped v₀ v' fd' j ∧ fd'.fatEntry = fd.fatEntry := by
  rcases skipped with ⟨bpb, l, i, d, cursor, away, before, get, index, same⟩
  have valid' : v.bpb.Valid := by
    rw [bpb]
    exact valid
  rcases write_cases valid' (.cursor cursor) away buf len with
    ⟨returned', fd'', v'', new, i', writeEq, completes, -⟩ | ⟨stops, -⟩
  · rw [writeEq] at result
    cases result
    have wrote := completes.wrote
    have after := completes.opened
    rw [← completes.fatEntry] at wrote
    generalize listEq : l ++ new = l' at after
    have index_le := completes.index_le
    have inFile : d ∈ l := List.mem_of_getElem? index
    have index' : l'[j]? = some d := by
      rw [← listEq, List.getElem?_append_left (List.getElem?_eq_some_iff.mp index).1]
      exact index
    rw [← completes.fatEntry] at away
    cases after with
    | empty _ _ _ => omega
    | fresh _ _ _ => omega
    | cursor cursor' =>
        refine ⟨⟨wrote.bpb.trans bpb, l', i', d, cursor', listEq ▸ wrote.away away, by omega, get,
          index', ?_⟩, completes.fatEntry⟩
        intro a inside
        have has := cursor.chain.inside d inFile
        rw [wrote.keeps_cluster valid' has _ (away.apart d has (.inl inFile))
          ((inCluster_congr bpb d a).mpr inside)]
        · exact same a inside
        · intro later
          rw [listEq] at later
          apply not_mem_take cursor'.chain.path.nodup later
          apply List.mem_of_getElem? (i := j)
          rw [List.getElem?_take_of_lt before, index']
  · rw [stops] at result
    cases result

theorem Skipped.writeAll {j : Nat} {writes : List (Mem × Nat)} (valid : v₀.bpb.Valid)
    (skipped : Skipped v₀ v fd j) (result : writeAll v fd writes = .ok (lengths writes, fd', v')) :
    Skipped v₀ v' fd' j ∧ fd'.fatEntry = fd.fatEntry := by
  induction writes generalizing v fd with
  | nil =>
      cases result
      exact ⟨skipped, rfl⟩
  | cons w writes ih =>
      rcases writeAll_cons result with ⟨fd₁, v₁, writeEq, restEq⟩
      rcases skipped.write valid writeEq with ⟨skipped₁, entryEq⟩
      rcases ih skipped₁ restEq with ⟨skipped', entryEq'⟩
      exact ⟨skipped', entryEq'.trans entryEq⟩

/-- The loop of a call that returns. -/
theorem write_inv {returned : Nat} (result : v.write fd buf len = .ok (returned, fd', v')) :
    ∃ v₁ c v₂ c' o', v.startWrite fd len = .ok (v₁, c) ∧
      writeLoop buf len (len + 1) v₁ 0 c fd.wrClusterOff = .ok (v₂, returned, c', o') := by
  rw [Volume.write] at result
  cases started : v.startWrite fd len with
  | error stop =>
      rw [started] at result
      cases result
  | ok r =>
      rcases r with ⟨v₁, c⟩
      rw [started] at result
      simp only [bind, Except.bind] at result
      cases loopEq : writeLoop buf len (len + 1) v₁ 0 c fd.wrClusterOff with
      | error stop =>
          rw [loopEq] at result
          cases result
      | ok r' =>
          rcases r' with ⟨v₂, total, c', o'⟩
          rw [loopEq] at result
          cases result
          exact ⟨v₁, c, v₂, c', o', rfl, loopEq⟩

/-- The loop of a call that does not fit, but copies as many bytes as its buffer has. -/
theorem Stored.loop_skips {v₂ : Volume} (valid : v₀.bpb.Valid) (stored : Stored v₀ v content fd k p)
    (misfits : ¬ Fits v₀.bytesPerCluster fd.wrClusterOff len)
    (agrees : ∀ j < len, content (p + j) = buf j)
    (loopEq : writeLoop buf len (len + 1) v 0 fd.wrCluster fd.wrClusterOff = .ok (v₂, len, c', o')) :
    ∃ new i' d, Written v v₂ (v.firstCluster fd.fatEntry) (v₀.free.take k) new (k - 1) ∧
      Cursor v₂ (v.firstCluster fd.fatEntry) (v₀.free.take k ++ new) i' c' o' ∧ k < i' ∧
      v₀.free[k]? = some d ∧ (v₀.free.take k ++ new)[k]? = some d ∧
      ∀ a, v₀.InCluster d a → v₂.mem a = v.mem a := by
  have filled := stored.filled
  have positive : 0 < v₀.bytesPerCluster := valid.bytesPerCluster_pos
  have bytes := filled.bytesPerCluster
  have nonempty := filled.lt_count
  have off_le := filled.cursor.off_le
  rw [bytes] at off_le
  rw [Fits, not_or, not_or, not_and] at misfits
  rcases misfits with ⟨notInside, notTwice, notShort⟩
  have valid' : v.bpb.Valid := by
    rw [filled.bpb]
    exact valid
  by_cases full : fd.wrClusterOff = v₀.bytesPerCluster
  · have long := notShort full
    exact filled.skips valid full (by omega) (by omega) (by omega) loopEq
  · have inside : fd.wrClusterOff < v₀.bytesPerCluster := Nat.lt_of_le_of_ne off_le full
    have long : 2 * v₀.bytesPerCluster < fd.wrClusterOff + len := by
      by_contra short
      rw [← bytes] at inside notInside notTwice short
      have := overshoots valid' filled.cursor (by omega) (by omega) inside loopEq
      omega
    -- the first round fills the cluster
    have more : 0 < len := by omega
    have standing : v.advance len 0 fd.wrCluster fd.wrClusterOff = .ok (v, fd.wrCluster, fd.wrClusterOff) :=
      filled.stays inside
    have count : min len (v.bytesPerCluster - fd.wrClusterOff) = v₀.bytesPerCluster - fd.wrClusterOff := by
      rw [bytes]
      omega
    have toEnd : fd.wrClusterOff + (v₀.bytesPerCluster - fd.wrClusterOff) = v₀.bytesPerCluster := by omega
    have first : ∀ j < v₀.bytesPerCluster - fd.wrClusterOff, content (p + j) = buf (0 + j) := by
      intro j lt
      rw [Nat.zero_add]
      exact agrees j (by omega)
    rw [writeLoop_round buf more standing filled.cursor.has, count, toEnd, Nat.zero_add] at loopEq
    have copied := filled.copied valid first toEnd.le
    have written : Written v (v.copyIn buf (v.bpb.getClusterAddr fd.wrCluster) fd.wrClusterOff 0
        (v₀.bytesPerCluster - fd.wrClusterOff)) (v.firstCluster fd.fatEntry) (v₀.free.take k) [] (k - 1) :=
      written_copyIn valid' filled.cursor buf (bytes.symm ▸ toEnd.le)
    rw [toEnd] at copied
    rcases copied.skips valid rfl (by omega) (by omega) (by omega) loopEq with
      ⟨new, i', d, rest, cursor, before, get, index, same⟩
    refine ⟨new, i', d, ?_, cursor, before, get, index, ?_⟩
    · rw [← List.append_nil (v₀.free.take k)] at rest
      exact written.trans rest le_rfl
    · intro a inCluster
      rw [same a inCluster]
      apply mem_copyIn_of_not_inCluster buf 0 (bytes.symm ▸ toEnd.le)
      intro inCluster'
      have isFree : d ∈ v₀.free := List.mem_of_getElem? get
      have has := (mem_free.mp isFree).1
      have hasC := filled.cursor.has
      rw [filled.bpb] at hasC
      rw [inCluster_congr filled.bpb] at inCluster'
      have equal := eq_of_inCluster valid has hasC inCluster inCluster'
      have nodup := nodup_freeFrom v₀ 2
      rw [← free] at nodup
      apply not_mem_take nodup _ (equal ▸ filled.cursor.mem)
      apply List.mem_of_getElem? (i := 0)
      rw [List.getElem?_drop, Nat.add_zero, get]

/-- A later call that does not fit returns a wrong number or leaves out a cluster. -/
theorem Stored.skips (valid : v₀.bpb.Valid) (stored : Stored v₀ v content fd k p)
    (misfits : ¬ Fits v₀.bytesPerCluster fd.wrClusterOff len)
    (agrees : ∀ j < len, content (p + j) = buf j)
    (result : v.write fd buf len = .ok (len, fd', v')) :
    Skipped v₀ v' fd' k ∧ k * v₀.bytesPerCluster < p + len ∧ fd'.fatEntry = fd.fatEntry := by
  have filled := stored.filled
  have valid' : v.bpb.Valid := by
    rw [filled.bpb]
    exact valid
  rcases write_inv result with ⟨v₁, c, v₂, c', o', started, loopEq⟩
  rw [startWrite, if_neg (ne_zero_of_has filled.cursor.has)] at started
  cases started
  rcases stored.loop_skips valid misfits agrees loopEq with
    ⟨new, i', d, written, cursor, before, get, index, same⟩
  have started : v.startWrite fd len = .ok (v, fd.wrCluster) := by
    rw [startWrite, if_neg (ne_zero_of_has filled.cursor.has)]
  have start := Wrote.refl filled.cursor.chain (k - 1)
  have whole : v₀.free.take k ++ [] = v₀.free.take k := List.append_nil _
  rcases completes_of_loop valid' stored.away started start loopEq (whole.symm ▸ written)
    (whole.symm ▸ cursor) (by omega) le_rfl with ⟨fd'', writeEq, -, -, -, completes⟩
  rw [writeEq] at result
  cases result
  have isFree : d ∈ v.free := by
    rw [filled.free]
    apply List.mem_of_getElem? (i := 0)
    rw [List.getElem?_drop, Nat.add_zero, get]
  rcases mem_free.mp isFree with ⟨has, zero⟩
  have after := completes.opened
  have away := completes.wrote.away stored.away
  rw [List.nil_append] at after away
  generalize v₀.free.take k ++ new = l' at *
  refine ⟨⟨completes.wrote.bpb.trans filled.bpb, l', i', d, ?_, ?_, before, get, index, ?_⟩, ?_,
    completes.fatEntry⟩
  · cases after with
    | cursor cursor' => exact cursor'
    | empty _ _ _ => omega
    | fresh _ _ _ => omega
  · rw [completes.fatEntry]
    exact away
  · intro a inside
    have old := stored.fresh d (filled.free ▸ isFree) a inside
    rw [← old, ← same a inside]
    apply mem_setFileSize
    intro assigned
    rw [Assigned, directoryEntrySize] at assigned
    apply stored.away.apart d has (.inr zero) (a - fd.fatEntry)
    · rw [directoryEntrySize]
      omega
    · rw [Nat.add_sub_of_le (by omega), inCluster_congr filled.bpb]
      exact inside
  · have position := filled.position
    have off_le := filled.cursor.off_le
    rw [filled.bytesPerCluster] at off_le
    have atEnd : k * v₀.bytesPerCluster = (k - 1) * v₀.bytesPerCluster + v₀.bytesPerCluster := by
      have := filled.lt_count
      rw [← Nat.succ_mul, Nat.succ_eq_add_one, Nat.sub_add_cancel (by omega)]
    rw [Fits, not_or] at misfits
    omega

/-- Calls behind a file that do not all fit. -/
theorem Stored.not_clean {writes : List (Mem × Nat)} (valid : v₀.bpb.Valid)
    (stored : Stored v₀ v content fd k p)
    (notClean : ¬ CleanFrom v₀.bytesPerCluster p (lengths writes))
    (agrees : ∀ q < (lengths writes).sum, content (p + q) = contents writes q)
    (enough : p + (lengths writes).sum ≤ v₀.free.length * v₀.bytesPerCluster)
    (result : Volume.writeAll v fd writes = .ok (lengths writes, fd', v')) :
    ∃ j, Skipped v₀ v' fd' j ∧ j * v₀.bytesPerCluster < p + (lengths writes).sum ∧
      fd'.fatEntry = fd.fatEntry := by
  induction writes generalizing v fd k p with
  | nil => exact absurd trivial notClean
  | cons w writes ih =>
      rcases w with ⟨buf, len⟩
      rw [lengths_cons] at result notClean
      rw [lengths_cons, List.sum_cons] at *
      obtain ⟨here, later⟩ := agrees_cons agrees
      rcases writeAll_cons result with ⟨fd₁, v₁, writeEq, restEq⟩
      by_cases fits : Fits v₀.bytesPerCluster fd.wrClusterOff len
      · rcases stored.append valid fits here (by omega) with ⟨fd₂, v₂, k₂, writeEq₂, stored₂, entryEq⟩
        rw [writeEq] at writeEq₂
        cases writeEq₂
        have rest : ¬ CleanFrom v₀.bytesPerCluster (p + len) (lengths writes) := by
          intro rest
          rw [stored.offset] at fits
          exact notClean ⟨fits, rest⟩
        rcases ih stored₂ rest later (by omega) restEq with ⟨j, skipped, before, entryEq'⟩
        exact ⟨j, skipped, by omega, entryEq'.trans entryEq⟩
      · rcases stored.skips valid fits here writeEq with ⟨skipped, before, entryEq⟩
        rcases skipped.writeAll valid restEq with ⟨skipped', entryEq'⟩
        exact ⟨k, skipped', by omega, entryEq'.trans entryEq⟩

end Volume

end Mikanos.Fat
