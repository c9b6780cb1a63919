import Mikanos.Fat.Slots
import Mikanos.Fat.Writing

/-!
# What a call of `Write` does

Whatever its length, a call of `Write` changes the entry of its file, appends free
clusters to the chain and writes to clusters from the cursor on.  It returns unless
it runs out of free clusters.
-/

namespace Mikanos.Fat

open Mikanos.Memory Mikanos.Chain

namespace Volume

variable {v v' v'' : Volume} {first i i' c c' o o' : Nat} {l new new' : List Nat}

/-! ## The loop -/

theorem Written.bytesPerCluster (written : Written v v' first l new i) :
    v'.bytesPerCluster = v.bytesPerCluster :=
  congrArg BPB.bytesPerCluster written.bpb

/-- One round of the loop. -/
theorem writeLoop_round {v₁ : Volume} {c₁ o₁ len total fuel : Nat} (buf : Mem) (more : total < len)
    (advanceEq : v.advance len total c o = .ok (v₁, c₁, o₁)) (has : v₁.bpb.HasCluster c₁) :
    writeLoop buf len (fuel + 1) v total c o =
      writeLoop buf len fuel
        (v₁.copyIn buf (v₁.bpb.getClusterAddr c₁) o₁ total (min len (v₁.bytesPerCluster - o₁)))
        (total + min len (v₁.bytesPerCluster - o₁)) c₁
        (o₁ + min len (v₁.bytesPerCluster - o₁)) := by
  rw [writeLoop, if_pos more, advanceEq]
  simp only [bind, Except.bind]
  rw [getSectorByCluster_of_has has]

/-- A whole run of the loop. -/
theorem written_of_writeLoop (valid : v.bpb.Valid) (cursor : Cursor v first l i c o) (buf : Mem)
    {len fuel total total' : Nat}
    (result : writeLoop buf len fuel v total c o = .ok (v', total', c', o')) :
    ∃ new i', Written v v' first l new i ∧ Cursor v' first (l ++ new) i' c' o' ∧ i ≤ i' ∧
      v.position i o + total' ≤ v.position i' o' + total ∧ len ≤ total' := by
  induction fuel generalizing v total l i c o with
  | zero => cases result
  | succ fuel ih =>
      rw [writeLoop] at result
      by_cases more : total < len
      · rw [if_pos more] at result
        cases advanceEq : v.advance len total c o with
        | error stop =>
            rw [advanceEq] at result
            cases result
        | ok r =>
            rcases r with ⟨v₁, c₁, o₁⟩
            rcases advance_ok valid cursor more advanceEq with ⟨new₁, i₁, advanced, -, -⟩
            have valid₁ : v₁.bpb.Valid := by
              rw [advanced.written.bpb]
              exact valid
            have inside : o₁ < v₁.bytesPerCluster := by
              rw [advanced.written.bytesPerCluster]
              exact advanced.off_lt
            rw [advanceEq] at result
            simp only [bind, Except.bind] at result
            rw [getSectorByCluster_of_has advanced.cursor.has] at result
            simp only at result
            generalize copied : min len (v₁.bytesPerCluster - o₁) = n at result
            rcases copied_bounds copied inside (Nat.zero_lt_of_lt more) with ⟨le, -⟩
            have written : Written v₁ (v₁.copyIn buf (v₁.bpb.getClusterAddr c₁) o₁ total n) first
                (l ++ new₁) [] i₁ :=
              written_copyIn valid₁ advanced.cursor buf le
            have cursor₂ := cursor_copyIn valid₁ advanced.cursor buf total le
            have valid₂ : (v₁.copyIn buf (v₁.bpb.getClusterAddr c₁) o₁ total n).bpb.Valid := by
              rw [bpb_copyIn]
              exact valid₁
            rcases ih valid₂ cursor₂ result with ⟨new₂, i₂, rest, last, le₂, further, reached⟩
            have passed : v.position i o + total' ≤ v.position i₂ o' + total := by
              have moved := advanced.position_le
              rw [position, position] at further moved ⊢
              rw [bytesPerCluster_copyIn, advanced.written.bytesPerCluster] at further
              omega
            have whole := (advanced.written.trans written advanced.index_le)
            rw [List.append_nil] at whole
            refine ⟨new₁ ++ new₂, i₂, whole.trans rest advanced.index_le, ?_,
              advanced.index_le.trans le₂, passed, reached⟩
            rw [← List.append_assoc]
            exact last
      · rw [if_neg more] at result
        cases result
        refine ⟨[], i, .refl cursor.chain i, ?_, le_rfl, le_rfl, Nat.le_of_not_lt more⟩
        rw [List.append_nil]
        exact cursor

/-! ## Running out of clusters -/

/-- What is left of the free clusters. -/
theorem Linked.free_eq {current : Nat} {taken rest : List Nat} (linked : Linked v v' current new)
    (takenEq : v.fat current ≠ 0 ∧ taken = new ∨ taken = current :: new)
    (split : v.free = taken ++ rest) : v'.free = rest := by
  have nodup := nodup_freeFrom v 2
  rw [← free, split, List.nodup_append] at nodup
  have kept : v.free.filter (· ∉ taken) = rest := by
    rw [split, List.filter_append, List.filter_eq_nil_iff.mpr, List.nil_append,
      List.filter_eq_self.mpr]
    · intro x inRest
      simp only [decide_eq_true_eq]
      exact fun inTaken => nodup.2.2 x inTaken x inRest rfl
    · intro x inTaken
      simpa using inTaken
  rw [← kept, free, freeFrom, free, freeFrom, List.filter_filter, linked.sameData.bpb]
  apply List.filter_congr
  intro x _
  have isFree : v'.fat x = 0 ↔ x ∉ taken ∧ v.fat x = 0 := by
    by_cases member : x ∈ current :: new
    · have used := linked.chain.fat_ne_zero member
      constructor
      · exact fun zero => absurd zero used
      · rintro ⟨notTaken, zero⟩
        exfalso
        rcases takenEq with ⟨notFree, rfl⟩ | rfl
        · rcases List.mem_cons.mp member with rfl | inNew
          · exact notFree zero
          · exact notTaken inNew
        · exact notTaken member
    · have notTaken : x ∉ taken := by
        rcases takenEq with ⟨-, rfl⟩ | rfl
        · exact fun inNew => member (List.mem_cons_of_mem _ inNew)
        · exact member
      rw [List.mem_cons, not_or] at member
      rw [linked.fat x member.1 member.2]
      exact ⟨fun zero => ⟨notTaken, zero⟩, fun both => both.2⟩
  simp only [isFree, Bool.decide_and]

/-- How many clusters a write may append for `n` clusters of data: at every end of the
chain it asks for all of the rest. -/
def demand : Nat → Nat
  | 0 => 0
  | n + 1 => n + 1 + demand n

theorem demand_mono {m n : Nat} (le : m ≤ n) : demand m ≤ demand n := by
  induction le with
  | refl => exact le_rfl
  | step _ ih => exact ih.trans (Nat.le_add_left _ _)

/-- A round that does not fill the request copies a whole cluster or less. -/
theorem numCluster_pred (v : Volume) {bytes n : Nat} (positive : 0 < v.bytesPerCluster)
    (fills : v.bytesPerCluster ≤ n ∨ bytes ≤ n) :
    v.numCluster (bytes - n) ≤ v.numCluster bytes - 1 := by
  apply numCluster_le
  have covers := numCluster_mul v positive bytes
  rcases fills with whole | all
  · rw [Nat.sub_mul, Nat.one_mul]
    omega
  · omega

theorem numCluster_mono (v : Volume) {m n : Nat} (le : m ≤ n) : v.numCluster m ≤ v.numCluster n :=
  Nat.div_le_div_right (Nat.sub_le_sub_right (Nat.add_le_add_right le _) _)

theorem numCluster_congr (bpb : v'.bpb = v.bpb) (bytes : Nat) :
    v'.numCluster bytes = v.numCluster bytes := by
  rw [numCluster, bytesPerCluster, bpb, numCluster, bytesPerCluster]

/-- The loop returns, or it runs out of free clusters. -/
theorem writeLoop_stops (valid : v.bpb.Valid) (cursor : Cursor v first l i c o) (buf : Mem)
    {len total fuel : Nat} (enough : len - total < fuel) :
    (∃ v' total' c' o', writeLoop buf len fuel v total c o = .ok (v', total', c', o') ∧
      v.free.length ≤ v'.free.length + demand (v.numCluster (len - total))) ∨
    writeLoop buf len fuel v total c o = .error (.fatIndex (v.bpb.clusters + 2)) ∧
      v.free.length < demand (v.numCluster (len - total)) := by
  induction fuel generalizing v total l i c o with
  | zero => omega
  | succ fuel ih =>
      by_cases more : total < len
      · have positive : 0 < v.bytesPerCluster := valid.bytesPerCluster_pos
        -- a round that has appended `k` clusters and stands at `o₁` in a cluster
        have round {v₁ : Volume} {l₁ : List Nat} {i₁ c₁ o₁ k : Nat} (bpb : v₁.bpb = v.bpb)
            (advanceEq : v.advance len total c o = .ok (v₁, c₁, o₁))
            (cursor₁ : Cursor v₁ first l₁ i₁ c₁ o₁) (inside : o₁ < v₁.bytesPerCluster)
            (spent : v.free.length = v₁.free.length + k)
            (less : ∀ n, min len (v₁.bytesPerCluster - o₁) = n →
              k + demand (v.numCluster (len - total - n)) ≤ demand (v.numCluster (len - total))) :
            (∃ v' total' c' o', writeLoop buf len (fuel + 1) v total c o =
                .ok (v', total', c', o') ∧
              v.free.length ≤ v'.free.length + demand (v.numCluster (len - total))) ∨
            writeLoop buf len (fuel + 1) v total c o = .error (.fatIndex (v.bpb.clusters + 2)) ∧
              v.free.length < demand (v.numCluster (len - total)) := by
          rw [writeLoop_round buf more advanceEq cursor₁.has]
          generalize copied : min len (v₁.bytesPerCluster - o₁) = n
          rcases copied_bounds copied inside (Nat.zero_lt_of_lt more) with ⟨le, progress⟩
          have fewer := less n copied
          have valid₁ : v₁.bpb.Valid := by
            rw [bpb]
            exact valid
          have valid₂ : (v₁.copyIn buf (v₁.bpb.getClusterAddr c₁) o₁ total n).bpb.Valid := by
            rw [bpb_copyIn]
            exact valid₁
          have same : SameFat v₁ (v₁.copyIn buf (v₁.bpb.getClusterAddr c₁) o₁ total n) :=
            sameFat_copyIn v₁ buf total n (valid₁.dataOffset_le_getClusterAddr cursor₁.has)
          have rest := ih valid₂ (cursor_copyIn valid₁ cursor₁ buf total le)
            (show len - (total + n) < fuel by omega)
          have bpb₂ := (bpb_copyIn v₁ buf (v₁.bpb.getClusterAddr c₁) o₁ total n).trans bpb
          rw [free_sameFat valid₁ same, numCluster_congr bpb₂, Nat.sub_add_eq, bpb₂] at rest
          rcases rest with ⟨v', total', c', o', done, left⟩ | ⟨stops, few⟩
          · exact .inl ⟨v', total', c', o', done, by omega⟩
          · exact .inr ⟨stops, by omega⟩
        have fewer (n : Nat) : 0 + demand (v.numCluster (len - total - n)) ≤
            demand (v.numCluster (len - total)) := by
          rw [Nat.zero_add]
          exact demand_mono (numCluster_mono v (Nat.sub_le _ _))
        rcases advance_cases valid cursor len total more with
          ⟨inside, stays⟩ | ⟨full, next, get, moves⟩ | ⟨full, atEnd, appends⟩
        · exact round rfl stays cursor inside rfl fun n _ => fewer n
        · exact round rfl moves ⟨cursor.chain, get, Nat.zero_le _⟩ positive rfl fun n _ => fewer n
        · have some := numCluster_pos v positive (Nat.sub_pos_of_lt more)
          have all : demand (v.numCluster (len - total)) = v.numCluster (len - total) +
              demand (v.numCluster (len - total) - 1) := by
            cases needed : v.numCluster (len - total) with
            | zero => omega
            | succ k => rfl
          by_cases enoughFree : v.numCluster (len - total) ≤ v.free.length
          · rw [if_pos enoughFree] at appends
            rcases appends with ⟨last, new, v₁, newEq, appended, isLast, linked⟩
            have advanced := advanced_of_linked cursor atEnd linked
              (fun d member => List.mem_of_mem_take (newEq ▸ member)) isLast positive
            have left : v₁.free = v.free.drop (v.numCluster (len - total)) := by
              apply linked.free_eq (.inl ⟨cursor.chain.fat_ne_zero cursor.mem, rfl⟩)
              rw [newEq, List.take_append_drop]
            apply round (k := v.numCluster (len - total)) linked.sameData.bpb appended advanced.cursor
            · rw [advanced.written.bytesPerCluster]
              exact positive
            · rw [left, List.length_drop]
              omega
            · intro n copied
              rw [all, Nat.sub_zero, advanced.written.bytesPerCluster] at *
              apply Nat.add_le_add_left
              apply demand_mono
              apply numCluster_pred v positive
              omega
          · rw [if_neg enoughFree] at appends
            right
            constructor
            · rw [writeLoop, if_pos more, appends]
              rfl
            · omega
      · rw [writeLoop, if_neg more]
        exact .inl ⟨v, total, c, o, rfl, Nat.le_add_right _ _⟩

/-! ## The entry -/

variable {entry : Nat}

/-- The fields of an entry that `Write` assigns. -/
def Assigned (entry a : Nat) : Prop :=
  entry + 20 ≤ a ∧ a < entry + 22 ∨ entry + 26 ≤ a ∧ a < entry + directoryEntrySize

/-- An entry in the data, but in no free cluster and in none of the given clusters. -/
structure Away (v : Volume) (entry : Nat) (l : List Nat) : Prop where
  data : v.bpb.dataOffset ≤ entry
  apart : ∀ c, v.bpb.HasCluster c → c ∈ l ∨ v.fat c = 0 → ∀ k < directoryEntrySize,
    ¬ v.InCluster c (entry + k)

/-- An entry of a directory lies in no other chain. -/
theorem away_of_mem_slots (valid : v.bpb.Valid) {d : Nat} {m : List Nat} (chain : v.Chain d m)
    (member : entry ∈ v.slots m) (apart : ∀ c ∈ m, c ∉ l) : v.Away entry l := by
  rcases mem_slots.mp member with ⟨c, inChain, inCluster⟩
  have has := chain.inside c inChain
  constructor
  · exact dataOffset_le_of_inCluster valid has (inCluster_of_mem_clusterSlots inCluster (k := 0)
      (by decide))
  · intro c' has' other k inside inside'
    have same := eq_of_inCluster valid has' has inside'
      (inCluster_of_mem_clusterSlots inCluster inside)
    subst same
    rcases other with inOther | isFree
    · exact apart c' inChain inOther
    · exact chain.fat_ne_zero inChain isFree

theorem mem_setFirstCluster (v : Volume) (cluster : Nat) {a : Nat} (outside : ¬ Assigned entry a) :
    (v.setFirstCluster entry cluster).mem a = v.mem a := by
  rw [Assigned, directoryEntrySize] at outside
  rw [setFirstCluster]
  simp only [Mem.store]
  rw [Mem.copyTo_outside (by omega), Mem.copyTo_outside (by omega)]

theorem mem_setFileSize (v : Volume) (size : Nat) {a : Nat} (outside : ¬ Assigned entry a) :
    (v.setFileSize entry size).mem a = v.mem a := by
  rw [Assigned, directoryEntrySize] at outside
  rw [setFileSize]
  exact Mem.copyTo_outside (by omega)

theorem not_assigned {a : Nat} (before : a < entry) : ¬ Assigned entry a := by
  rw [Assigned]
  omega

theorem sameFat_setFirstCluster (data : v.bpb.dataOffset ≤ entry) (cluster : Nat) :
    SameFat v (v.setFirstCluster entry cluster) where
  bpb := rfl
  mem := fun _ before => mem_setFirstCluster v cluster (not_assigned (before.trans_le data))

theorem sameFat_setFileSize (data : v.bpb.dataOffset ≤ entry) (size : Nat) :
    SameFat v (v.setFileSize entry size) where
  bpb := rfl
  mem := fun _ before => mem_setFileSize v size (not_assigned (before.trans_le data))

theorem firstCluster_congr (same : ∀ k < directoryEntrySize, v'.mem (entry + k) = v.mem (entry + k)) :
    v'.firstCluster entry = v.firstCluster entry := by
  have field (offset : Nat) (inside : offset + 2 ≤ directoryEntrySize) :
      v'.mem.load (entry + offset) 2 = v.mem.load (entry + offset) 2 := by
    apply Mem.load_congr
    intro k lt
    rw [Nat.add_assoc]
    exact same _ (by omega)
  rw [firstCluster, firstCluster, field 26 (by decide), field 20 (by decide)]

@[simp]
theorem firstCluster_setFileSize (v : Volume) (entry size : Nat) :
    (v.setFileSize entry size).firstCluster entry = v.firstCluster entry := by
  rw [firstCluster, firstCluster, setFileSize]
  simp only
  rw [Mem.load_store_outside (by omega), Mem.load_store_outside (by omega)]

@[simp]
theorem fileSize_setFileSize (v : Volume) (entry size : Nat) :
    (v.setFileSize entry size).fileSize entry = size % 2 ^ 32 :=
  Mem.load_store_same _ _ _ _

theorem firstCluster_setFirstCluster (v : Volume) {cluster : Nat} (small : cluster < 2 ^ 32) :
    (v.setFirstCluster entry cluster).firstCluster entry = cluster := by
  rw [firstCluster, setFirstCluster]
  simp only
  rw [Mem.load_store_outside (by omega), Mem.load_store_same, Mem.load_store_same]
  omega

/-! ## A call -/

/-- What a call of `Write` does, from index `i` of the chain `l` on: the chain, which begins
with the cluster in the entry, grows by free clusters; other data, other fields of
entries and other entries of the FAT are as they were. -/
structure Wrote (v v' : Volume) (entry first : Nat) (l new : List Nat) (i : Nat) : Prop where
  bpb : v'.bpb = v.bpb
  isFree : ∀ c ∈ new, c ∈ v.free
  chain : v'.Chain first (l ++ new)
  firstCluster : v'.firstCluster entry = first
  fat : ∀ x, v.bpb.HasCluster x → l.getLast? ≠ some x → x ∉ new → v'.fat x = v.fat x
  data : ∀ a, v.bpb.dataOffset ≤ a → ¬ Assigned entry a →
    (∀ c ∈ (l ++ new).drop i, ¬ v.InCluster c a) → v'.mem a = v.mem a

namespace Wrote

theorem bytesPerCluster (wrote : Wrote v v' entry first l new i) :
    v'.bytesPerCluster = v.bytesPerCluster :=
  congrArg BPB.bytesPerCluster wrote.bpb

theorem inCluster (wrote : Wrote v v' entry first l new i) (c a : Nat) :
    v'.InCluster c a ↔ v.InCluster c a := by
  rw [InCluster, wrote.bpb, wrote.bytesPerCluster, InCluster]

theorem refl (chain : v.Chain (v.firstCluster entry) l) (i : Nat) :
    Wrote v v entry (v.firstCluster entry) l [] i where
  bpb := rfl
  isFree := by simp
  chain := by
    rw [List.append_nil]
    exact chain
  firstCluster := rfl
  fat := fun _ _ _ _ => rfl
  data := fun _ _ _ _ => rfl

/-- What becomes of a cluster that is free afterwards. -/
theorem free_of_free (wrote : Wrote v v' entry first l new i) {x : Nat} (isFree : x ∈ v'.free) :
    x ∈ v.free ∧ x ∉ new := by
  have notMember := wrote.chain.not_mem_of_free isFree
  rw [List.mem_append, not_or] at notMember
  rcases mem_free.mp isFree with ⟨has, zero⟩
  rw [wrote.bpb] at has
  have notLast : l.getLast? ≠ some x := fun isLast => notMember.1 (List.mem_of_getLast? isLast)
  rw [wrote.fat x has notLast notMember.2] at zero
  exact ⟨mem_free.mpr ⟨has, zero⟩, notMember.2⟩

/-- The chain of a file that had none. -/
theorem of_linked (valid : v.bpb.Valid) {c : Nat} (isFree : ∀ x ∈ c :: new, x ∈ v.free)
    (linked : Linked v v' c new) (data : v.bpb.dataOffset ≤ entry) :
    Wrote v (v'.setFirstCluster entry c) entry c [] (c :: new) 0 := by
  have bpb := linked.sameData.bpb
  have same : SameFat v' (v'.setFirstCluster entry c) := by
    apply sameFat_setFirstCluster
    rw [bpb]
    exact data
  have small : c < 2 ^ 32 := by
    have has := (mem_free.mp (isFree c List.mem_cons_self)).1
    have few := valid.clusters_le
    have := has.2
    omega
  constructor
  · exact bpb
  · exact isFree
  · exact linked.chain.sameFat (bpb ▸ valid) same
  · exact firstCluster_setFirstCluster v' small
  · intro x has _ notNew
    rw [List.mem_cons, not_or] at notNew
    rw [same.fat (bpb ▸ valid) (bpb ▸ has), linked.fat x notNew.1 notNew.2]
  · intro a inside notAssigned _
    rw [mem_setFirstCluster v' c notAssigned, linked.sameData.mem a inside]

/-- The loop. -/
theorem of_written (written : Written v v' first l new i) (firstEq : v.firstCluster entry = first)
    (away : v.Away entry l) (inside : ∀ c ∈ l, v.bpb.HasCluster c) :
    Wrote v v' entry first l new i where
  bpb := written.bpb
  isFree := written.isFree
  chain := written.chain
  firstCluster := by
    rw [← firstEq]
    apply firstCluster_congr
    intro k lt
    apply written.data (entry + k) (away.data.trans (Nat.le_add_right _ _))
    intro c member
    rcases List.mem_append.mp (List.mem_of_mem_drop member) with inOld | inNew
    · exact away.apart c (inside c inOld) (.inl inOld) k lt
    · rcases mem_free.mp (written.isFree c inNew) with ⟨has, zero⟩
      exact away.apart c has (.inr zero) k lt
  fat := written.fat
  data := fun a data _ => written.data a data

/-- The new size. -/
theorem setFileSize (valid : v.bpb.Valid) (chain : v.Chain (v.firstCluster entry) l)
    (data : v.bpb.dataOffset ≤ entry) (size i : Nat) :
    Wrote v (v.setFileSize entry size) entry (v.firstCluster entry) l [] i where
  bpb := rfl
  isFree := by simp
  chain := by
    rw [List.append_nil]
    exact chain.sameFat valid (sameFat_setFileSize data size)
  firstCluster := firstCluster_setFileSize v entry size
  fat := fun _ has _ _ => (sameFat_setFileSize data size).fat valid has
  data := fun _ _ notAssigned _ => mem_setFileSize v size notAssigned

theorem trans {first' : Nat} (one : Wrote v v' entry first l new i)
    (two : Wrote v' v'' entry first' (l ++ new) new' i') (le : i ≤ i') :
    Wrote v v'' entry first' l (new ++ new') i where
  bpb := two.bpb.trans one.bpb
  isFree := by
    intro c member
    rcases List.mem_append.mp member with inOne | inTwo
    · exact one.isFree c inOne
    · exact (one.free_of_free (two.isFree c inTwo)).1
  chain := by
    rw [← List.append_assoc]
    exact two.chain
  firstCluster := two.firstCluster
  fat := by
    intro x has notLast notNew
    rw [List.mem_append, not_or] at notNew
    rw [two.fat x (one.bpb.symm ▸ has) (getLast?_append_ne notLast notNew.1) notNew.2,
      one.fat x has notLast notNew.1]
  data := by
    intro a data notAssigned outside
    rw [two.data a (one.bpb.symm ▸ data) notAssigned, one.data a data notAssigned]
    · intro c member
      apply outside c
      rw [← List.append_assoc, List.drop_append]
      exact List.mem_append_left _ member
    · intro c member
      rw [one.inCluster]
      apply outside c
      rw [← List.append_assoc]
      exact (List.drop_sublist_drop_left _ le).subset member

/-- An entry that is away from the file stays so. -/
theorem away (wrote : Wrote v v' entry first l new i) (away : v.Away entry l) :
    v'.Away entry (l ++ new) where
  data := wrote.bpb.symm ▸ away.data
  apart := by
    intro c has inside k lt
    rw [wrote.bpb] at has
    rw [wrote.inCluster]
    apply away.apart c has _ k lt
    rcases inside with member | zero
    · rcases List.mem_append.mp member with inOld | inNew
      · exact .inl inOld
      · exact .inr (mem_free.mp (wrote.isFree c inNew)).2
    · have isFree : c ∈ v'.free := mem_free.mpr ⟨wrote.bpb.symm ▸ has, zero⟩
      exact .inr (mem_free.mp (wrote.free_of_free isFree).1).2

end Wrote

/-- Where a descriptor writes next in the chain `l` of its file. -/
inductive Opened (v : Volume) (fd : FileDescriptor) : List Nat → Nat → Prop
  /-- a file without a chain -/
  | empty : fd.wrCluster = 0 → fd.wrClusterOff = 0 → v.firstCluster fd.fatEntry = 0 → Opened v fd [] 0
  /-- nothing has been written yet -/
  | fresh {l : List Nat} : fd.wrCluster = 0 → fd.wrClusterOff = 0 →
      v.Chain (v.firstCluster fd.fatEntry) l → Opened v fd l 0
  | cursor {l : List Nat} {i : Nat} : Cursor v (v.firstCluster fd.fatEntry) l i fd.wrCluster
      fd.wrClusterOff → Opened v fd l i

variable {fd : FileDescriptor}

/-- The chain of a file, which may have none. -/
def OwnChain (v : Volume) (e : Nat) (l : List Nat) : Prop :=
  v.firstCluster e = 0 ∧ l = [] ∨ v.Chain (v.firstCluster e) l

theorem Opened.ownChain (opened : Opened v fd l i) :
    v.OwnChain fd.fatEntry l := by
  cases opened with
  | empty _ _ none => exact .inl ⟨none, rfl⟩
  | fresh _ _ chain => exact .inr chain
  | cursor cursor => exact .inr cursor.chain

/-- A descriptor of a file that another one has written. -/
theorem Opened.grow (opened : Opened v fd l i)
    (wrote : Wrote v v' fd.fatEntry (v'.firstCluster fd.fatEntry) l new i') :
    Opened v' fd (l ++ new) i := by
  cases opened with
  | empty start zero _ => exact .fresh start zero wrote.chain
  | fresh start zero _ => exact .fresh start zero wrote.chain
  | cursor cursor =>
      apply Opened.cursor
      refine ⟨wrote.chain, ?_, wrote.bytesPerCluster.symm ▸ cursor.off_le⟩
      rw [List.getElem?_append_left cursor.lt_length]
      exact cursor.get

/-- The clusters that the first part of `Write` allocates. -/
def allocated (v : Volume) (l : List Nat) (len : Nat) : Nat :=
  if l = [] then max (v.numCluster len) 1 else 0

theorem ne_zero_of_has {c : Nat} (has : v.bpb.HasCluster c) : c ≠ 0 := by
  have := has.1
  omega

theorem Chain.has_first (chain : v.Chain first l) : v.bpb.HasCluster first :=
  chain.inside first chain.path.head_mem

theorem Chain.getElem?_zero (chain : v.Chain first l) : l[0]? = some first := by
  rw [← List.head?_eq_getElem?]
  exact chain.path.head?_eq

/-- The first part of `Write` finds the cluster to write to, or runs out of clusters. -/
theorem startWrite_cases (valid : v.bpb.Valid) (opened : Opened v fd l i)
    (data : v.bpb.dataOffset ≤ fd.fatEntry) (len : Nat) :
    (∃ v₁ c first, v.startWrite fd len = .ok (v₁, c) ∧
      Wrote v v₁ fd.fatEntry first l (v.free.take (v.allocated l len)) i ∧
      Cursor v₁ first (l ++ v.free.take (v.allocated l len)) i c fd.wrClusterOff ∧
      v₁.free = v.free.drop (v.allocated l len) ∧ v.allocated l len ≤ v.free.length) ∨
    v.startWrite fd len = .error (.fatIndex (v.bpb.clusters + 2)) ∧
      v.free.length < v.allocated l len := by
  cases opened with
  | empty fresh off none =>
      rw [startWrite, if_pos fresh, if_neg (not_not_intro none), allocateClusterChain_eq valid,
        allocated, if_pos rfl]
      cases split : v.free with
      | nil => exact .inr ⟨rfl, Nat.lt_of_lt_of_le Nat.one_pos (Nat.le_max_right _ _)⟩
      | cons c rest =>
          by_cases enough : v.numCluster len - 1 ≤ rest.length
          · left
            have linked := linked_of_allocateClusterChain valid split (v.numCluster len)
            simp only [if_pos enough]
            generalize (if v.numCluster len ≤ 1 then v.setFat c kEndOfClusterchain
              else (v.setFat c kEndOfClusterchain).linkChain c (rest.take (v.numCluster len - 1))) =
                v₁ at linked
            have count : max (v.numCluster len) 1 = v.numCluster len - 1 + 1 := by omega
            have isFree : ∀ x ∈ c :: rest.take (v.numCluster len - 1), x ∈ v.free := by
              intro x member
              rw [split]
              rcases List.mem_cons.mp member with rfl | inRest
              · exact List.mem_cons_self
              · exact List.mem_cons_of_mem _ (List.mem_of_mem_take inRest)
            have wrote : Wrote v (v₁.setFirstCluster fd.fatEntry c) fd.fatEntry c [] _ 0 :=
              .of_linked valid isFree linked data
            rw [count, List.take_succ_cons, List.drop_succ_cons, List.length_cons]
            refine ⟨v₁.setFirstCluster fd.fatEntry c, c, c, rfl, wrote, ?_, ?_,
              Nat.succ_le_succ enough⟩
            · rw [off]
              exact ⟨wrote.chain, rfl, Nat.zero_le _⟩
            · have same : SameFat v₁ (v₁.setFirstCluster fd.fatEntry c) := by
                apply sameFat_setFirstCluster
                rw [linked.sameData.bpb]
                exact data
              rw [free_sameFat (linked.sameData.bpb ▸ valid) same]
              apply linked.free_eq (.inr rfl)
              rw [split, List.cons_append, List.take_append_drop]
          · right
            simp only [if_neg enough, List.length_cons]
            exact ⟨rfl, by omega⟩
  | fresh start off chain =>
      have nonempty := chain.path.ne_nil
      left
      rw [allocated, if_neg nonempty, List.take_zero, List.drop_zero, List.append_nil]
      refine ⟨v, v.firstCluster fd.fatEntry, _, ?_, .refl chain 0, ?_, rfl, Nat.zero_le _⟩
      · rw [startWrite, if_pos start, if_pos (ne_zero_of_has chain.has_first)]
      · rw [off]
        exact ⟨chain, chain.getElem?_zero, Nat.zero_le _⟩
  | cursor cursor =>
      left
      rw [allocated, if_neg cursor.chain.path.ne_nil, List.take_zero, List.drop_zero,
        List.append_nil]
      refine ⟨v, fd.wrCluster, _, ?_, .refl cursor.chain i, cursor, rfl, Nat.zero_le _⟩
      rw [startWrite, if_neg (ne_zero_of_has cursor.has)]

/-- What a call of `Write` that returns has done. -/
structure Completes (v : Volume) (fd : FileDescriptor) (l : List Nat) (i len returned : Nat)
    (fd' : FileDescriptor) (v' : Volume) (new : List Nat) (i' : Nat) : Prop where
  wrote : Wrote v v' fd.fatEntry (v'.firstCluster fd.fatEntry) l new i
  opened : Opened v' fd' (l ++ new) i'
  index_le : i ≤ i'
  len_le : len ≤ returned
  fatEntry : fd'.fatEntry = fd.fatEntry
  wrOff : fd'.wrOff = fd.wrOff + returned
  fileSize : v'.fileSize fd.fatEntry = fd'.wrOff % 2 ^ 32

/-- How many free clusters a call needs at most. -/
def needed (v : Volume) (l : List Nat) (len : Nat) : Nat :=
  v.allocated l len + demand (v.numCluster len)

theorem Opened.inside (opened : Opened v fd l i) : ∀ c ∈ l, v.bpb.HasCluster c := by
  cases opened with
  | empty _ _ _ => simp
  | fresh _ _ chain => exact chain.inside
  | cursor cursor => exact cursor.chain.inside

/-- A call whose loop has returned. -/
theorem completes_of_loop {v₁ v₂ : Volume} {buf : Mem} {len total : Nat} (valid : v.bpb.Valid)
    (away : v.Away fd.fatEntry l) (started : v.startWrite fd len = .ok (v₁, c))
    (start : Wrote v v₁ fd.fatEntry first l new i)
    (loopEq : writeLoop buf len (len + 1) v₁ 0 c fd.wrClusterOff = .ok (v₂, total, c', o'))
    (written : Written v₁ v₂ first (l ++ new) new' i) (cursor : Cursor v₂ first (l ++ new ++ new') i' c' o')
    (index_le : i ≤ i') (reached : len ≤ total) :
    ∃ fd', v.write fd buf len = .ok (total, fd', v₂.setFileSize fd.fatEntry (fd.wrOff + total)) ∧
      fd'.wrCluster = c' ∧ fd'.wrClusterOff = o' ∧
      (v₂.setFileSize fd.fatEntry (fd.wrOff + total)).firstCluster fd.fatEntry = first ∧
      Completes v fd l i len total fd' (v₂.setFileSize fd.fatEntry (fd.wrOff + total)) (new ++ new') i' := by
  have valid₁ : v₁.bpb.Valid := by
    rw [start.bpb]
    exact valid
  have valid₂ : v₂.bpb.Valid := by
    rw [written.bpb]
    exact valid₁
  have away₁ := start.away away
  have looped := Wrote.of_written written start.firstCluster away₁ start.chain.inside
  have data₂ : v₂.bpb.dataOffset ≤ fd.fatEntry := (looped.away away₁).data
  have same := sameFat_setFileSize data₂ (fd.wrOff + total)
  have sized := Wrote.setFileSize valid₂ (looped.firstCluster.symm ▸ looped.chain) data₂
    (fd.wrOff + total) i
  rw [looped.firstCluster] at sized
  have wrote := (start.trans looped le_rfl).trans (List.append_assoc .. ▸ sized) le_rfl
  rw [List.append_nil] at wrote
  refine ⟨{ fd with wrOff := fd.wrOff + total, wrCluster := c', wrClusterOff := o' }, ?_, rfl, rfl,
    wrote.firstCluster, ?_⟩
  · rw [write, started]
    simp only [bind, Except.bind]
    rw [loopEq]
  · constructor
    · exact wrote.firstCluster.symm ▸ wrote
    · apply Opened.cursor
      rw [← List.append_assoc]
      refine ⟨?_, cursor.get, cursor.off_le⟩
      have chain := cursor.chain.sameFat valid₂ same
      exact wrote.firstCluster.symm ▸ chain
    · exact index_le
    · exact reached
    · rfl
    · rfl
    · exact fileSize_setFileSize _ _ _

/-- A call of `Write` returns, or it runs out of free clusters. -/
theorem write_cases (valid : v.bpb.Valid) (opened : Opened v fd l i) (away : v.Away fd.fatEntry l)
    (buf : Mem) (len : Nat) :
    (∃ returned fd' v' new i', v.write fd buf len = .ok (returned, fd', v') ∧
      Completes v fd l i len returned fd' v' new i' ∧
      v.position i fd.wrClusterOff + returned ≤ v.position i' fd'.wrClusterOff ∧
      v.free.length ≤ v'.free.length + v.needed l len) ∨
    v.write fd buf len = .error (.fatIndex (v.bpb.clusters + 2)) ∧
      v.free.length < v.needed l len := by
  rw [needed]
  rcases startWrite_cases valid opened away.data len with
    ⟨v₁, c, first, started, start, cursor, left, enough⟩ | ⟨stops, few⟩
  · have valid₁ : v₁.bpb.Valid := by
      rw [start.bpb]
      exact valid
    have count : v.free.length = v₁.free.length + v.allocated l len := by
      rw [left, List.length_drop]
      omega
    rcases writeLoop_stops valid₁ cursor buf (show len - 0 < len + 1 by omega) with
      ⟨v₂, total, c', o', loopEq, spent⟩ | ⟨stops, few⟩
    · left
      rcases written_of_writeLoop valid₁ cursor buf loopEq with
        ⟨new, i', written, cursor', index_le, further, reached⟩
      rcases completes_of_loop valid away started start loopEq written cursor' index_le reached with
        ⟨fd', writeEq, -, offEq, -, completes⟩
      rw [position, position, start.bytesPerCluster, ← offEq] at further
      refine ⟨total, fd', _, _, i', writeEq, completes, further, ?_⟩
      have bpb : v₂.bpb = v.bpb := written.bpb.trans start.bpb
      rw [free_sameFat (bpb ▸ valid) (sameFat_setFileSize (bpb ▸ away.data) _)]
      rw [Nat.sub_zero, numCluster_congr start.bpb] at spent
      omega
    · right
      rw [write, started]
      simp only [bind, Except.bind]
      rw [stops, start.bpb]
      rw [Nat.sub_zero, numCluster_congr start.bpb] at few
      exact ⟨rfl, by omega⟩
  · rw [write, stops]
    exact .inr ⟨rfl, few.trans_le (Nat.le_add_right _ _)⟩

/-! ## Successive calls -/

/-- Successive calls of `Write` with the given buffers and lengths: what they return, the
descriptor and the volume. -/
def writeAll : Volume → FileDescriptor → List (Mem × Nat) →
    Except Stop (List Nat × FileDescriptor × Volume)
  | v, fd, [] => .ok ([], fd, v)
  | v, fd, (buf, len) :: writes => do
      let (returned, fd, v) ← v.write fd buf len
      let (others, fd, v) ← writeAll v fd writes
      .ok (returned :: others, fd, v)

/-- As many free clusters as successive calls may need. -/
def reserve (v : Volume) (writes : List (Mem × Nat)) : Nat :=
  (writes.map fun w => max (v.numCluster w.2) 1 + demand (v.numCluster w.2)).sum

theorem reserve_cons (v : Volume) (buf : Mem) (len : Nat) (writes : List (Mem × Nat)) :
    v.reserve ((buf, len) :: writes) =
      max (v.numCluster len) 1 + demand (v.numCluster len) + v.reserve writes := by
  rw [reserve, List.map_cons, List.sum_cons, reserve]

theorem reserve_congr (bpb : v'.bpb = v.bpb) (writes : List (Mem × Nat)) :
    v'.reserve writes = v.reserve writes := by
  rw [reserve, reserve]
  congr 1
  apply List.map_congr_left
  intro w _
  rw [numCluster_congr bpb]

theorem needed_le (v : Volume) (l : List Nat) (len : Nat) :
    v.needed l len ≤ max (v.numCluster len) 1 + demand (v.numCluster len) := by
  rw [needed, allocated]
  apply Nat.add_le_add_right
  split
  · exact le_rfl
  · exact Nat.zero_le _

/-- Successive calls return, or one of them runs out of free clusters. -/
theorem writeAll_cases (valid : v.bpb.Valid) (opened : Opened v fd l i) (away : v.Away fd.fatEntry l)
    (buf : Mem) (len : Nat) (writes : List (Mem × Nat)) :
    (∃ returned fd' v' first new i',
      writeAll v fd ((buf, len) :: writes) = .ok (returned, fd', v') ∧
      Wrote v v' fd.fatEntry first l new i ∧ Opened v' fd' (l ++ new) i' ∧ i ≤ i' ∧
      fd'.fatEntry = fd.fatEntry) ∨
    writeAll v fd ((buf, len) :: writes) = .error (.fatIndex (v.bpb.clusters + 2)) ∧
      v.free.length < v.reserve ((buf, len) :: writes) := by
  induction writes generalizing v fd l i buf len with
  | nil =>
      rw [writeAll, reserve_cons]
      rcases write_cases valid opened away buf len with
        ⟨returned, fd', v', new, i', writeEq, completes, -⟩ | ⟨stops, few⟩
      · left
        rw [writeEq]
        exact ⟨_, _, _, _, new, i', rfl, completes.wrote, completes.opened, completes.index_le,
          completes.fatEntry⟩
      · right
        rw [stops]
        exact ⟨rfl, (few.trans_le (needed_le v l len)).trans_le (Nat.le_add_right _ _)⟩
  | cons w writes ih =>
      rcases w with ⟨buf₂, len₂⟩
      rw [writeAll, reserve_cons]
      rcases write_cases valid opened away buf len with
        ⟨returned, fd', v', new, i', writeEq, completes, -, left⟩ | ⟨stops, few⟩
      · have wrote := completes.wrote
        have valid' : v'.bpb.Valid := by
          rw [wrote.bpb]
          exact valid
        have away' := wrote.away away
        rw [← completes.fatEntry] at away'
        rw [writeEq]
        simp only [bind, Except.bind]
        rcases ih valid' completes.opened away' buf₂ len₂ with
          ⟨others, fd'', v'', first', new', i'', restEq, wrote', opened', le, entryEq⟩ |
          ⟨stops, few⟩
        · left
          rw [restEq]
          rw [completes.fatEntry] at wrote' entryEq
          refine ⟨_, _, _, _, new ++ new', i'', rfl,
            wrote.trans wrote' completes.index_le, ?_, completes.index_le.trans le,
            entryEq⟩
          rw [← List.append_assoc]
          exact opened'
        · right
          rw [stops, wrote.bpb]
          rw [reserve_congr wrote.bpb] at few
          have := needed_le v l len
          exact ⟨rfl, by omega⟩
      · right
        rw [stops]
        exact ⟨rfl, (few.trans_le (needed_le v l len)).trans_le (Nat.le_add_right _ _)⟩

end Volume

end Mikanos.Fat
