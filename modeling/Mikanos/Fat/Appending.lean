import Mikanos.Fat.Reading

/-!
# Appending to a file

The clusters of a file that began empty are the first of the clusters that were free.
A call of `Write` stores its buffer behind what the file has if it ends in the cluster
where it begins, or goes on to exactly one new cluster in the way that the loop expects.
Otherwise it copies more than its buffer has, or leaves out clusters.
-/

namespace Mikanos.Fat

open Mikanos.Memory Mikanos.Chain

namespace Volume

variable {v₀ v v' : Volume} {content buf : Mem}
  {first k i c o p base len total total' fuel c' o' : Nat} {l : List Nat}

/-! ## Which calls append -/

/-- Where the cursor stands in the last cluster of a file of `p` bytes. -/
def offsetAt (bytes p : Nat) : Nat :=
  if p = 0 then 0 else (p - 1) % bytes + 1

/-- A call from offset `o` on, in a file that has a chain, ends in the same cluster, or at
the end of the next one, or in the next one if it begins there. -/
def Fits (bytes o len : Nat) : Prop :=
  o + len ≤ bytes ∨ o + len = 2 * bytes ∨ o = bytes ∧ len ≤ bytes

/-- The first call for a file ends in the first cluster, or fills its clusters. -/
def FitsFirst (bytes len : Nat) : Prop :=
  len ≤ bytes ∨ bytes ∣ len

theorem offsetAt_eq {bytes j p : Nat} (position : j * bytes + o = p) (upper : o ≤ bytes)
    (lower : 0 < o ∨ p = 0) : offsetAt bytes p = o := by
  rw [offsetAt]
  by_cases zero : p = 0
  · rw [if_pos zero]
    omega
  · rw [if_neg zero, ← position, show j * bytes + o - 1 = o - 1 + j * bytes by omega,
      Nat.add_mul_mod_self_right, Nat.mod_eq_of_lt (by omega)]
    omega

/-- In a list without repetitions the first elements are not among the others. -/
theorem not_mem_take {α : Type} {s : List α} (nodup : s.Nodup) {j : Nat} {x : α} (member : x ∈ s.drop j) :
    x ∉ s.take j := by
  rw [← List.take_append_drop j s, List.nodup_append] at nodup
  exact fun inTake => nodup.2.2 x inTake x member rfl

theorem numCluster_one (v : Volume) {n : Nat} (some : 0 < n) (le : n ≤ v.bytesPerCluster) :
    v.numCluster n = 1 := by
  apply Nat.le_antisymm
  · apply numCluster_le
    omega
  · exact numCluster_pos v (some.trans_le le) some

theorem numCluster_whole (v : Volume) (positive : 0 < v.bytesPerCluster) (m : Nat) :
    v.numCluster (m * v.bytesPerCluster) = m := by
  apply Nat.le_antisymm (numCluster_le v le_rfl)
  exact Nat.le_of_mul_le_mul_right (numCluster_mul v positive _) positive

/-! ## The state of the loop -/

/-- The first `k` clusters that were free hold the first `p` bytes of the content, and the
cursor stands behind these. -/
structure Filled (v₀ v : Volume) (content : Mem) (first k i c o p : Nat) : Prop where
  bpb : v.bpb = v₀.bpb
  cursor : Cursor v first (v₀.free.take k) i c o
  count_le : k ≤ v₀.free.length
  free : v.free = v₀.free.drop k
  position : i * v₀.bytesPerCluster + o = p
  bytes : ∀ q < p, v.content (v₀.free.take k) q = content q

namespace Filled

theorem bytesPerCluster (filled : Filled v₀ v content first k i c o p) :
    v.bytesPerCluster = v₀.bytesPerCluster :=
  congrArg BPB.bytesPerCluster filled.bpb

theorem length_take (filled : Filled v₀ v content first k i c o p) :
    (v₀.free.take k).length = k := by
  rw [List.length_take, Nat.min_eq_left filled.count_le]

theorem lt_count (filled : Filled v₀ v content first k i c o p) : i < k :=
  filled.length_take ▸ filled.cursor.lt_length

/-- A round that copies `n` bytes to the cluster of the cursor. -/
theorem copied (valid : v₀.bpb.Valid) (filled : Filled v₀ v content first k i c o p) {n : Nat}
    (agrees : ∀ j < n, content (p + j) = buf (total + j)) (le : o + n ≤ v₀.bytesPerCluster) :
    Filled v₀ (v.copyIn buf (v.bpb.getClusterAddr c) o total n) content first k i c (o + n) (p + n) := by
  have valid' : v.bpb.Valid := by
    rw [filled.bpb]
    exact valid
  have le' : o + n ≤ v.bytesPerCluster := by
    rw [filled.bytesPerCluster]
    exact le
  have same : SameFat v (v.copyIn buf (v.bpb.getClusterAddr c) o total n) :=
    sameFat_copyIn v buf total n (valid'.dataOffset_le_getClusterAddr filled.cursor.has)
  constructor
  · rw [bpb_copyIn]
    exact filled.bpb
  · exact cursor_copyIn valid' filled.cursor buf total le'
  · exact filled.count_le
  · rw [free_sameFat valid' same]
    exact filled.free
  · rw [← filled.position, Nat.add_assoc]
  · intro q lt
    have at_p : v.position i o = p := by
      rw [Volume.position, filled.bytesPerCluster]
      exact filled.position
    have inside : q < (v₀.free.take k).length * v.bytesPerCluster := by
      have cluster := Nat.mul_le_mul_right v₀.bytesPerCluster filled.lt_count
      have := filled.position
      rw [Nat.succ_mul] at cluster
      rw [filled.length_take, filled.bytesPerCluster]
      omega
    rw [Volume.content, fileByte_copyIn valid' filled.cursor buf le' inside, at_p]
    by_cases old : q < p
    · rw [if_neg (by omega)]
      exact filled.bytes q old
    · rw [if_pos (by omega), ← agrees (q - p) (by omega)]
      congr 1
      omega

/-- The next cluster of the chain. -/
theorem next_cluster (valid : v₀.bpb.Valid) (filled : Filled v₀ v content first k i c o p)
    (full : o = v₀.bytesPerCluster) (inside : i + 1 < k) (more : total < len) :
    ∃ c', v.advance len total c o = .ok (v, c', 0) ∧ v.bpb.HasCluster c' ∧
      Filled v₀ v content first k (i + 1) c' 0 p := by
  have valid' : v.bpb.Valid := by
    rw [filled.bpb]
    exact valid
  rw [← filled.bytesPerCluster] at full
  rcases advance_cases valid' filled.cursor len total more with
    ⟨notFull, -⟩ | ⟨-, c', get, moves⟩ | ⟨-, atEnd, -⟩
  · exact absurd full (Nat.ne_of_lt notFull)
  · have cursor : Cursor v first (v₀.free.take k) (i + 1) c' 0 :=
      ⟨filled.cursor.chain, get, Nat.zero_le _⟩
    refine ⟨c', moves, cursor.has, filled.bpb, cursor, filled.count_le, filled.free, ?_, filled.bytes⟩
    rw [← filled.position, full, filled.bytesPerCluster, Nat.succ_mul, Nat.add_zero]
  · rw [filled.length_take] at atEnd
    omega

/-- At the end of the chain all clusters that the rest of the buffer needs are appended, and
the cursor goes to the last of them. -/
theorem extend (valid : v₀.bpb.Valid) (filled : Filled v₀ v content first k i c o p)
    (full : o = v₀.bytesPerCluster) (isLast : i + 1 = k) (more : total < len) :
    k + v₀.numCluster (len - total) ≤ v₀.free.length ∧
      (∃ v₁ c', v.advance len total c o = .ok (v₁, c', 0) ∧ SameData v v₁ ∧
        Cursor v₁ first (v₀.free.take (k + v₀.numCluster (len - total)))
          (k + v₀.numCluster (len - total) - 1) c' 0 ∧
        v₁.free = v₀.free.drop (k + v₀.numCluster (len - total))) ∨
    v.advance len total c o = .error (.fatIndex (v.bpb.clusters + 2)) ∧
      v₀.free.length < k + v₀.numCluster (len - total) := by
  have valid' : v.bpb.Valid := by
    rw [filled.bpb]
    exact valid
  have count := numCluster_congr filled.bpb (len - total)
  have left : v.free.length = v₀.free.length - k := by
    rw [filled.free, List.length_drop]
  have few := filled.count_le
  rw [← filled.bytesPerCluster] at full
  rcases advance_cases valid' filled.cursor len total more with
    ⟨notFull, -⟩ | ⟨-, c', get, -⟩ | ⟨-, atEnd, appends⟩
  · exact absurd full (Nat.ne_of_lt notFull)
  · have := (List.getElem?_eq_some_iff.mp get).1
    rw [filled.length_take] at this
    omega
  · rw [count] at appends
    by_cases enough : v₀.numCluster (len - total) ≤ v.free.length
    · rw [if_pos enough] at appends
      rcases appends with ⟨c', new, v₁, newEq, appended, last, linked⟩
      have isFree : ∀ d ∈ new, d ∈ v.free := fun d member => List.mem_of_mem_take (newEq ▸ member)
      have advanced := advanced_of_linked filled.cursor atEnd linked isFree last
        valid'.bytesPerCluster_pos
      have whole : v₀.free.take k ++ new = v₀.free.take (k + v₀.numCluster (len - total)) := by
        rw [newEq, filled.free, List.take_add]
      have length : new.length = v₀.numCluster (len - total) := by
        rw [newEq, List.length_take]
        omega
      have cursor := advanced.cursor
      rw [whole, filled.length_take, length] at cursor
      have rest : v₁.free = v₀.free.drop (k + v₀.numCluster (len - total)) := by
        rw [← List.drop_drop, ← filled.free]
        apply linked.free_eq (.inl ⟨filled.cursor.chain.fat_ne_zero filled.cursor.mem, rfl⟩)
        rw [newEq, List.take_append_drop]
      exact .inl ⟨by omega, v₁, c', appended, linked.sameData, cursor, rest⟩
    · rw [if_neg enough] at appends
      exact .inr ⟨appends, by omega⟩

/-- One more cluster is appended. -/
theorem next_new (valid : v₀.bpb.Valid) (filled : Filled v₀ v content first k i c o p)
    (full : o = v₀.bytesPerCluster) (isLast : i + 1 = k) (more : total < len)
    (one : v₀.numCluster (len - total) = 1) (enough : k < v₀.free.length) :
    ∃ v₁ c', v.advance len total c o = .ok (v₁, c', 0) ∧ v₁.bpb.HasCluster c' ∧
      Filled v₀ v₁ content first (k + 1) (i + 1) c' 0 p := by
  rcases filled.extend valid full isLast more with ⟨-, v₁, c', appended, same, cursor, left⟩ | ⟨-, few⟩
  · rw [one] at cursor left
    rw [Nat.add_sub_cancel, ← isLast] at cursor
    have bpb : v₁.bpb = v₀.bpb := same.bpb.trans filled.bpb
    refine ⟨v₁, c', appended, cursor.has, bpb, isLast ▸ cursor, enough, left, ?_, ?_⟩
    · rw [← filled.position, full, Nat.succ_mul, Nat.add_zero]
    · intro q lt
      have position := filled.position
      rw [full, ← Nat.succ_mul, Nat.succ_eq_add_one, isLast] at position
      have inside : q < (v₀.free.take k).length * v.bytesPerCluster := by
        rw [filled.length_take, filled.bytesPerCluster, position]
        exact lt
      have valid' : v.bpb.Valid := by
        rw [filled.bpb]
        exact valid
      have old : v₁.fileByte (v₀.free.take k) q = content q :=
        (fileByte_congr valid' filled.cursor.chain same inside).trans (filled.bytes q lt)
      have index : q / v₁.bytesPerCluster < k := by
        rw [Volume.bytesPerCluster, bpb, Nat.div_lt_iff_lt_mul valid.bytesPerCluster_pos]
        exact position ▸ lt
      rw [← old, Volume.content, fileByte, fileByte, List.getD_eq_getElem?_getD,
        List.getD_eq_getElem?_getD, List.getElem?_take_of_lt (Nat.lt_succ_of_lt index),
        List.getElem?_take_of_lt index]
  · omega

/-- One round of the loop, from the cluster that its start has reached. -/
theorem round {w : Volume} {c₀ o₀ n : Nat} (valid : v₀.bpb.Valid)
    (filled : Filled v₀ v content first k i c o p) (more : total < len)
    (advanceEq : w.advance len total c₀ o₀ = .ok (v, c, o)) (nEq : min len (v₀.bytesPerCluster - o) = n)
    (agrees : ∀ j < n, content (p + j) = buf (total + j)) :
    ∃ v', (∀ fuel, writeLoop buf len (fuel + 1) w total c₀ o₀ =
        writeLoop buf len fuel v' (total + n) c (o + n)) ∧
      Filled v₀ v' content first k i c (o + n) (p + n) := by
  have off_le := filled.cursor.off_le
  rw [filled.bytesPerCluster] at off_le
  refine ⟨_, fun fuel => ?_, filled.copied valid agrees (by omega)⟩
  rw [writeLoop_round buf more advanceEq filled.cursor.has, filled.bytesPerCluster, nEq]

/-- The cursor stands inside its cluster. -/
theorem stays (filled : Filled v₀ v content first k i c o p) (inside : o < v₀.bytesPerCluster) :
    v.advance len total c o = .ok (v, c, o) := by
  rw [advance, if_neg]
  rw [filled.bytesPerCluster]
  omega

/-- Whole clusters are copied to the rest of the chain. -/
theorem whole_clusters (valid : v₀.bpb.Valid) (m fuel : Nat) (enough : m < fuel)
    (filled : Filled v₀ v content first k i c v₀.bytesPerCluster (base + total))
    (rest : len = total + m * v₀.bytesPerCluster) (room : i + m < k)
    (agrees : ∀ j < len, content (base + j) = buf j) :
    ∃ v' c', writeLoop buf len fuel v total c v₀.bytesPerCluster =
        .ok (v', len, c', v₀.bytesPerCluster) ∧
      Filled v₀ v' content first k (i + m) c' v₀.bytesPerCluster (base + len) := by
  induction m generalizing v i c total fuel with
  | zero =>
      rw [Nat.zero_mul, Nat.add_zero] at rest
      subst rest
      cases fuel with
      | zero => omega
      | succ fuel =>
          rw [writeLoop, if_neg (Nat.lt_irrefl _)]
          exact ⟨v, c, rfl, filled⟩
  | succ m ih =>
      have positive : 0 < v₀.bytesPerCluster := valid.bytesPerCluster_pos
      rw [Nat.succ_mul] at rest
      have more : total < len := by omega
      cases fuel with
      | zero => omega
      | succ fuel =>
          rcases filled.next_cluster valid rfl (by omega) more with ⟨c₁, moves, -, filled₁⟩
          have nEq : min len (v₀.bytesPerCluster - 0) = v₀.bytesPerCluster := by omega
          rcases filled₁.round valid more moves nEq
              (fun j lt => by rw [Nat.add_assoc]; exact agrees (total + j) (by omega)) with
            ⟨v₁, roundEq, filled₂⟩
          rw [Nat.zero_add, Nat.add_assoc] at filled₂
          rcases ih fuel (by omega) filled₂ (by omega) (by omega) with ⟨v', c', loopEq, filled'⟩
          rw [Nat.zero_add] at roundEq
          refine ⟨v', c', (roundEq fuel).trans loopEq, ?_⟩
          rw [show i + (m + 1) = i + 1 + m by omega]
          exact filled'

/-- The new size is not part of the file. -/
theorem setFileSize {entry : Nat} (valid : v₀.bpb.Valid) (filled : Filled v₀ v content first k i c o p)
    (away : v.Away entry (v₀.free.take k)) (size : Nat) :
    Filled v₀ (v.setFileSize entry size) content first k i c o p := by
  have valid' : v.bpb.Valid := by
    rw [filled.bpb]
    exact valid
  have same := sameFat_setFileSize away.data size
  refine ⟨filled.bpb, ⟨filled.cursor.chain.sameFat valid' same, filled.cursor.get,
    filled.cursor.off_le⟩, filled.count_le, ?_, filled.position, ?_⟩
  · rw [free_sameFat valid' same]
    exact filled.free
  · intro q lt
    have inside : q < (v₀.free.take k).length * v.bytesPerCluster := by
      have cluster := Nat.mul_le_mul_right v₀.bytesPerCluster filled.lt_count
      have := filled.position
      have := filled.cursor.off_le
      rw [filled.bytesPerCluster] at this
      rw [Nat.succ_mul] at cluster
      rw [filled.length_take, filled.bytesPerCluster]
      omega
    rcases exists_cluster filled.cursor.chain inside with ⟨d, get, has, byte, inCluster⟩
    rw [← filled.bytes q lt, Volume.content, Volume.content, byte, fileByte,
      List.getD_eq_getElem?_getD]
    have samePlace : (v.setFileSize entry size).bytesPerCluster = v.bytesPerCluster := rfl
    rw [samePlace, get, Option.getD_some]
    apply mem_setFileSize
    intro assigned
    rw [Assigned, directoryEntrySize] at assigned
    apply away.apart d has (.inl (List.mem_of_getElem? get))
      (v.bpb.getClusterAddr d + q % v.bytesPerCluster - entry)
    · rw [directoryEntrySize]
      have bpb : (v.setFileSize entry size).bpb = v.bpb := rfl
      rw [bpb] at assigned
      omega
    · have bpb : (v.setFileSize entry size).bpb = v.bpb := rfl
      rw [bpb] at assigned
      rw [Nat.add_sub_of_le (by omega)]
      exact inCluster

/-- A call that fits, from the end of the file on. -/
theorem appends (valid : v₀.bpb.Valid) (filled : Filled v₀ v content first k (k - 1) c o p)
    (fits : Fits v₀.bytesPerCluster o len) (agrees : ∀ j < len, content (p + j) = buf j)
    (enough : p + len ≤ v₀.free.length * v₀.bytesPerCluster) :
    ∃ v' k' c' o', writeLoop buf len (len + 1) v 0 c o = .ok (v', len, c', o') ∧
      Filled v₀ v' content first k' (k' - 1) c' o' (p + len) ∧ k ≤ k' ∧ (0 < o' ∨ len = 0 ∧ o' = o) := by
  have positive : 0 < v₀.bytesPerCluster := valid.bytesPerCluster_pos
  have nonempty := filled.lt_count
  have off_le := filled.cursor.off_le
  rw [filled.bytesPerCluster] at off_le
  -- a new cluster is needed only where one is left
  have isFree (full : k * v₀.bytesPerCluster < p + len) : k < v₀.free.length := by
    have := full.trans_le enough
    exact Nat.lt_of_mul_lt_mul_right this
  have atEnd : k * v₀.bytesPerCluster = (k - 1) * v₀.bytesPerCluster + v₀.bytesPerCluster := by
    rw [← Nat.succ_mul, Nat.succ_eq_add_one, Nat.sub_add_cancel (by omega)]
  have position := filled.position
  have last : k - 1 + 1 = k + 1 - 1 := by omega
  have stop {v' : Volume} {c' o' fuel : Nat} (left : 0 < fuel) :
      writeLoop buf len fuel v' len c' o' = .ok (v', len, c', o') := by
    rw [← Nat.sub_add_cancel left, writeLoop, if_neg (Nat.lt_irrefl _)]
  by_cases empty : len = 0
  · subst empty
    exact ⟨v, k, c, o, stop Nat.one_pos, filled, le_rfl, .inr ⟨rfl, rfl⟩⟩
  · have more : 0 < len := Nat.pos_of_ne_zero empty
    have agrees₀ {n : Nat} (le : n ≤ len) : ∀ j < n, content (p + j) = buf (0 + j) := by
      intro j lt
      rw [Nat.zero_add]
      exact agrees j (by omega)
    by_cases full : o = v₀.bytesPerCluster
    · -- one round in a new cluster
      have short : len ≤ v₀.bytesPerCluster := by
        rcases fits with inside | twice | ⟨-, short⟩
        · omega
        · omega
        · exact short
      have one := numCluster_one v₀ more short
      rcases filled.next_new valid full (by omega) more (by rwa [Nat.sub_zero])
        (isFree (by omega)) with ⟨v₁, c₁, appended, -, filled₁⟩
      rcases filled₁.round valid more appended (show min len _ = len by omega)
        (agrees₀ le_rfl) with ⟨v', roundEq, filled'⟩
      rw [Nat.zero_add, last] at filled'
      refine ⟨v', k + 1, c₁, len, ?_, filled', Nat.le_succ k, .inl more⟩
      rw [roundEq, Nat.zero_add]
      exact stop more
    · have standing : v.advance len 0 c o = .ok (v, c, o) :=
        filled.stays (Nat.lt_of_le_of_ne off_le full)
      rcases fits with inside | twice | ⟨full', -⟩
      · -- one round in the cluster of the cursor
        rcases filled.round valid more standing (show min len _ = len by omega)
          (agrees₀ le_rfl) with ⟨v', roundEq, filled'⟩
        refine ⟨v', k, c, o + len, ?_, filled', le_rfl, .inl (by omega)⟩
        rw [roundEq, Nat.zero_add]
        exact stop more
      · -- one round to the end of the cluster, and one for all of a new cluster
        have rest : len - (v₀.bytesPerCluster - o) = v₀.bytesPerCluster := by omega
        rcases filled.round valid more standing
          (show min len _ = v₀.bytesPerCluster - o by omega) (agrees₀ (by omega)) with
          ⟨v₁, roundEq, filled₁⟩
        rw [Nat.add_sub_of_le off_le] at filled₁ roundEq
        rw [Nat.zero_add] at roundEq
        have more₁ : v₀.bytesPerCluster - o < len := by omega
        rcases filled₁.next_new valid rfl (by omega) more₁
          (by rw [rest]; exact numCluster_one v₀ positive le_rfl) (isFree (by omega)) with
          ⟨v₂, c₂, appended, -, filled₂⟩
        rcases filled₂.round valid more₁ appended
          (show min len _ = v₀.bytesPerCluster by omega)
          (fun j lt => by rw [Nat.add_assoc]; exact agrees _ (by omega)) with
          ⟨v', roundEq', filled'⟩
        have all : v₀.bytesPerCluster - o + v₀.bytesPerCluster = len := by omega
        have second := roundEq' (len - 1)
        rw [Nat.sub_add_cancel more, all, Nat.zero_add] at second
        rw [Nat.zero_add, Nat.add_assoc, all, last] at filled'
        refine ⟨v', k + 1, c₂, v₀.bytesPerCluster, ?_, filled', Nat.le_succ k, .inl positive⟩
        rw [roundEq, second]
        exact stop (by omega)
      · exact absurd full' full

/-- The first call, if it fits. -/
theorem begins (valid : v₀.bpb.Valid) (filled : Filled v₀ v content first k 0 c 0 0)
    (count : k = max (v₀.numCluster len) 1) (fits : FitsFirst v₀.bytesPerCluster len)
    (agrees : ∀ j < len, content j = buf j) :
    ∃ v' c' o', writeLoop buf len (len + 1) v 0 c 0 = .ok (v', len, c', o') ∧
      Filled v₀ v' content first k (k - 1) c' o' len ∧ (0 < o' ∨ len = 0 ∧ o' = 0) := by
  have positive : 0 < v₀.bytesPerCluster := valid.bytesPerCluster_pos
  have agrees₀ : ∀ j < len, content (0 + j) = buf j := by
    intro j lt
    rw [Nat.zero_add]
    exact agrees j lt
  by_cases short : len ≤ v₀.bytesPerCluster
  · have single : k = 1 := by
      have := numCluster_le v₀ (show len ≤ 1 * v₀.bytesPerCluster by omega)
      omega
    subst single
    have room : v₀.bytesPerCluster ≤ v₀.free.length * v₀.bytesPerCluster :=
      Nat.le_mul_of_pos_left _ filled.count_le
    rcases filled.appends valid (.inl (by omega)) agrees₀ (by omega) with
      ⟨v', k', c', o', loopEq, filled', le, moved⟩
    rw [Nat.zero_add] at filled'
    have same : k' = 1 := by
      by_contra other
      have beyond : 1 * v₀.bytesPerCluster ≤ (k' - 1) * v₀.bytesPerCluster :=
        Nat.mul_le_mul_right _ (by omega)
      have := filled'.position
      omega
    subst same
    exact ⟨v', c', o', loopEq, filled', moved⟩
  · rcases fits.resolve_left short with ⟨m, lenEq⟩
    rw [Nat.mul_comm] at lenEq
    have several : 1 < m := by
      by_contra few
      have := Nat.mul_le_mul_right v₀.bytesPerCluster (Nat.le_of_not_lt few)
      omega
    have whole : len = v₀.bytesPerCluster + (m - 1) * v₀.bytesPerCluster := by
      rw [lenEq, ← Nat.succ_pred_eq_of_pos (Nat.zero_lt_of_lt several), Nat.succ_mul]
      exact Nat.add_comm _ _
    have clusters : k = m := by
      rw [count, lenEq, numCluster_whole v₀ positive]
      omega
    have standing : v.advance len 0 c 0 = .ok (v, c, 0) := filled.stays positive
    have start : ∀ j < v₀.bytesPerCluster, content (0 + j) = buf (0 + j) := by
      intro j lt
      rw [agrees₀ j (by omega), Nat.zero_add]
    rcases filled.round valid (by omega) standing (show min len _ = v₀.bytesPerCluster by omega) start
      with ⟨v₁, roundEq, filled₁⟩
    have fewer : m - 1 < len := by
      have := Nat.le_mul_of_pos_right m positive
      omega
    have aligned : Filled v₀ v₁ content first k 0 c v₀.bytesPerCluster (0 + v₀.bytesPerCluster) := by
      have same := filled₁
      rw [Nat.zero_add] at same
      rw [Nat.zero_add]
      exact same
    rcases whole_clusters valid (m - 1) len fewer aligned whole (by omega) agrees₀ with
      ⟨v', c', loopEq, filled'⟩
    rw [Nat.zero_add, Nat.zero_add, ← clusters] at filled'
    refine ⟨v', c', v₀.bytesPerCluster, ?_, filled', .inl positive⟩
    rw [roundEq, Nat.zero_add]
    exact loopEq

/-- A call that goes on from the end of the chain with more than a cluster leaves out a
cluster: it keeps its data, and the cursor is behind it. -/
theorem skips (valid : v₀.bpb.Valid) (filled : Filled v₀ v content first k i c o p)
    (full : o = v₀.bytesPerCluster) (isLast : i + 1 = k) (more : total < len)
    (long : v₀.bytesPerCluster < len - total)
    (result : writeLoop buf len fuel v total c o = .ok (v', total', c', o')) :
    ∃ new i' d, Written v v' first (v₀.free.take k) new i ∧
      Cursor v' first (v₀.free.take k ++ new) i' c' o' ∧ k < i' ∧ v₀.free[k]? = some d ∧
      (v₀.free.take k ++ new)[k]? = some d ∧ ∀ a, v₀.InCluster d a → v'.mem a = v.mem a := by
  have positive : 0 < v₀.bytesPerCluster := valid.bytesPerCluster_pos
  have valid' : v.bpb.Valid := by
    rw [filled.bpb]
    exact valid
  have several : 2 ≤ v₀.numCluster (len - total) := by
    by_contra few
    have := numCluster_mul v₀ positive (len - total)
    have := Nat.mul_le_mul_right v₀.bytesPerCluster (show v₀.numCluster (len - total) ≤ 1 by omega)
    omega
  cases fuel with
  | zero => cases result
  | succ fuel =>
      rcases filled.extend valid full isLast more with
        ⟨enough, v₁, c₁, appended, same, cursor₁, -⟩ | ⟨stops, -⟩
      · generalize v₀.numCluster (len - total) = m at *
        rcases advance_ok valid' filled.cursor more appended with ⟨new₁, i₁, advanced, -, -⟩
        have whole : v₀.free.take k ++ new₁ = v₀.free.take (k + m) :=
          advanced.cursor.chain.unique cursor₁.chain
        have bpb₁ : v₁.bpb = v₀.bpb := same.bpb.trans filled.bpb
        have valid₁ : v₁.bpb.Valid := by
          rw [bpb₁]
          exact valid
        have bytes₁ : v₁.bytesPerCluster = v₀.bytesPerCluster := congrArg BPB.bytesPerCluster bpb₁
        -- the rest of the loop does the same round from the new cluster
        have stays₁ : v₁.advance len total c₁ 0 = .ok (v₁, c₁, 0) := by
          rw [advance, if_neg]
          rw [bytes₁]
          omega
        rw [writeLoop_round buf more appended cursor₁.has,
          ← writeLoop_round buf more stays₁ cursor₁.has] at result
        rcases written_of_writeLoop valid₁ cursor₁ buf result with
          ⟨new₂, i', written, cursor', le, -, -⟩
        have both := advanced.written.trans (whole.symm ▸ written) (show i ≤ k + m - 1 by omega)
        have list : v₀.free.take k ++ (new₁ ++ new₂) = v₀.free.take (k + m) ++ new₂ := by
          rw [← List.append_assoc, whole]
        have lt : k < v₀.free.length := by omega
        have get : (v₀.free.take (k + m) ++ new₂)[k]? = some v₀.free[k] := by
          rw [List.getElem?_append_left (by rw [List.length_take]; omega),
            List.getElem?_take_of_lt (by omega), List.getElem?_eq_getElem lt]
        have has : v₀.bpb.HasCluster v₀.free[k] := (mem_free.mp (List.getElem_mem lt)).1
        refine ⟨new₁ ++ new₂, i', v₀.free[k], both, list ▸ cursor', by omega,
          List.getElem?_eq_getElem lt, list ▸ get, ?_⟩
        intro a inside
        have data := dataOffset_le_of_inCluster valid has inside
        rw [written.data a (bpb₁.symm ▸ data), same.mem a (filled.bpb.symm ▸ data)]
        intro d member inside'
        have hasD := cursor'.chain.inside d (List.mem_of_mem_drop member)
        rw [written.bpb, bpb₁] at hasD
        rw [InCluster, bytes₁, bpb₁] at inside'
        rw [← eq_of_inCluster valid has hasD inside inside'] at member
        apply not_mem_take cursor'.chain.path.nodup member
        apply List.mem_of_getElem? (i := k)
        rw [List.getElem?_take_of_lt (by omega), get]
      · rw [writeLoop, if_pos more, stops] at result
        cases result

end Filled

end Volume

end Mikanos.Fat
