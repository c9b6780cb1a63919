import Mikanos.Fat.Extension
import Mikanos.Fat.File

/-!
# Writing along a chain

The cursor of a descriptor stands in a cluster of the chain of its file.  The
loop of `Write` extends the chain at its end by free clusters, and writes to no
cluster before the cursor.  As long as it never needs more than one cluster
beyond the chain, what it writes is contiguous; otherwise it skips clusters.
-/

namespace Mikanos.Fat

open Mikanos.Memory Mikanos.Chain

namespace Volume

variable {v v' v'' : Volume} {first i i' c c' o o' : Nat} {l new new' : List Nat}

/-! ## What a write does to a volume -/

/-- A write to a file with the chain `l`, from index `i` on: the chain grows by
free clusters, and other data and other entries of the FAT are as they were. -/
structure Written (v v' : Volume) (first : Nat) (l new : List Nat) (i : Nat) : Prop where
  bpb : v'.bpb = v.bpb
  isFree : ∀ c ∈ new, c ∈ v.free
  chain : v'.Chain first (l ++ new)
  fat : ∀ x, v.bpb.HasCluster x → l.getLast? ≠ some x → x ∉ new → v'.fat x = v.fat x
  data : ∀ a, v.bpb.dataOffset ≤ a → (∀ d ∈ (l ++ new).drop i, ¬ v.InCluster d a) →
    v'.mem a = v.mem a

/-- An element that is neither last in a list nor in what follows it. -/
theorem getLast?_append_ne {l new : List Nat} {x : Nat} (notLast : l.getLast? ≠ some x)
    (notNew : x ∉ new) : (l ++ new).getLast? ≠ some x := by
  rw [List.getLast?_append]
  intro isLast
  rcases Option.or_eq_some_iff.mp isLast with inNew | ⟨-, inOld⟩
  · exact notNew (List.mem_of_getLast? inNew)
  · exact notLast inOld

namespace Written

/-- What becomes of a cluster that is free afterwards. -/
theorem free_of_free (written : Written v v' first l new i) {x : Nat} (isFree : x ∈ v'.free) :
    x ∈ v.free ∧ x ∉ new := by
  have notMember := written.chain.not_mem_of_free isFree
  rw [List.mem_append, not_or] at notMember
  rcases mem_free.mp isFree with ⟨has, zero⟩
  rw [written.bpb] at has
  have notLast : l.getLast? ≠ some x := by
    intro isLast
    exact notMember.1 (List.mem_of_getLast? isLast)
  rw [written.fat x has notLast notMember.2] at zero
  exact ⟨mem_free.mpr ⟨has, zero⟩, notMember.2⟩

theorem trans (one : Written v v' first l new i) (two : Written v' v'' first (l ++ new) new' i')
    (le : i ≤ i') : Written v v'' first l (new ++ new') i where
  bpb := two.bpb.trans one.bpb
  isFree := by
    intro c member
    rcases List.mem_append.mp member with inOne | inTwo
    · exact one.isFree c inOne
    · exact (one.free_of_free (two.isFree c inTwo)).1
  chain := by
    rw [← List.append_assoc]
    exact two.chain
  fat := by
    intro x has notLast notNew
    rw [List.mem_append, not_or] at notNew
    rw [two.fat x (one.bpb.symm ▸ has) (getLast?_append_ne notLast notNew.1) notNew.2,
      one.fat x has notLast notNew.1]
  data := by
    intro a inside outside
    have bytes : v'.bytesPerCluster = v.bytesPerCluster := congrArg BPB.bytesPerCluster one.bpb
    rw [two.data a (one.bpb.symm ▸ inside), one.data a inside]
    · intro d member
      apply outside d
      rw [← List.append_assoc, List.drop_append]
      exact List.mem_append_left _ member
    · intro d member
      rw [InCluster, one.bpb, bytes]
      apply outside d
      rw [← List.append_assoc]
      exact (List.drop_sublist_drop_left _ le).subset member

/-- A chain that does not end like the file's is as it was. -/
theorem keeps (written : Written v v' first l new i) {head : Nat} {m : List Nat}
    (chain : v.Chain head m) (apart : ∀ x ∈ m, x ∉ l) : v'.Chain head m := by
  apply chain.congr written.bpb
  intro x member
  apply written.fat x (chain.inside x member)
  · intro isLast
    exact apart x member (List.mem_of_getLast? isLast)
  · exact fun inNew => chain.not_mem_of_free (written.isFree x inNew) member

/-- The data of a cluster that is neither the file's nor free is as it was. -/
theorem keeps_data (written : Written v v' first l new i) (valid : v.bpb.Valid) {d a : Nat}
    (has : v.bpb.HasCluster d) (apart : d ∉ l) (used : v.fat d ≠ 0) (inside : v.InCluster d a)
    (clusters : ∀ c ∈ l, v.bpb.HasCluster c) : v'.mem a = v.mem a := by
  apply written.data a (dataOffset_le_of_inCluster valid has inside)
  intro c member inCluster
  have inAll := List.mem_of_mem_drop member
  rcases List.mem_append.mp inAll with inOld | inNew
  · rw [eq_of_inCluster valid has (clusters c inOld) inside inCluster] at apart
    exact apart inOld
  · rcases mem_free.mp (written.isFree c inNew) with ⟨hasC, isFree⟩
    rw [eq_of_inCluster valid has hasC inside inCluster] at used
    exact used isFree

end Written

/-! ## The cursor -/

/-- The cursor of a descriptor: offset `o` in cluster `c`, which has index `i` in
the chain. -/
structure Cursor (v : Volume) (first : Nat) (l : List Nat) (i c o : Nat) : Prop where
  chain : v.Chain first l
  get : l[i]? = some c
  off_le : o ≤ v.bytesPerCluster

theorem Cursor.lt_length (cursor : Cursor v first l i c o) : i < l.length :=
  (List.getElem?_eq_some_iff.mp cursor.get).1

theorem Cursor.mem (cursor : Cursor v first l i c o) : c ∈ l :=
  List.mem_of_getElem? cursor.get

theorem Cursor.has (cursor : Cursor v first l i c o) : v.bpb.HasCluster c :=
  cursor.chain.inside c cursor.mem

theorem Cursor.next_eq (cursor : Cursor v first l i c o) : v.next c = l[i + 1]? :=
  cursor.chain.path.next_getElem cursor.get

theorem Cursor.getLast? (cursor : Cursor v first l i c o) (atEnd : i + 1 = l.length) :
    l.getLast? = some c := by
  rw [List.getLast?_eq_getElem?, ← cursor.get]
  congr 1
  omega

theorem numCluster_mul (v : Volume) (positive : 0 < v.bytesPerCluster) (bytes : Nat) :
    bytes ≤ v.numCluster bytes * v.bytesPerCluster := by
  rw [numCluster]
  have := Nat.div_add_mod (bytes + v.bytesPerCluster - 1) v.bytesPerCluster
  have := Nat.mod_lt (bytes + v.bytesPerCluster - 1) positive
  rw [Nat.mul_comm]
  omega

theorem numCluster_le (v : Volume) {bytes k : Nat} (le : bytes ≤ k * v.bytesPerCluster) :
    v.numCluster bytes ≤ k := by
  rw [numCluster]
  by_cases positive : 0 < v.bytesPerCluster
  · apply Nat.le_of_lt_succ
    rw [Nat.div_lt_iff_lt_mul positive, Nat.succ_mul]
    omega
  · rw [Nat.eq_zero_of_not_pos positive, Nat.div_zero]
    exact Nat.zero_le _

theorem numCluster_pos (v : Volume) (positive : 0 < v.bytesPerCluster) {bytes : Nat}
    (nonempty : 0 < bytes) : 0 < v.numCluster bytes :=
  Nat.div_pos (by omega) positive

/-- What the start of a round does to the cursor: it stays, or moves to the next
cluster, or to the last of the clusters it appends. -/
theorem advance_cases (valid : v.bpb.Valid) (cursor : Cursor v first l i c o) (len total : Nat)
    (more : total < len) :
    (o < v.bytesPerCluster ∧ v.advance len total c o = .ok (v, c, o)) ∨
      (o = v.bytesPerCluster ∧ ∃ c', l[i + 1]? = some c' ∧
        v.advance len total c o = .ok (v, c', 0)) ∨
      o = v.bytesPerCluster ∧ i + 1 = l.length ∧
        if v.numCluster (len - total) ≤ v.free.length then
          ∃ c' new v', new = v.free.take (v.numCluster (len - total)) ∧
            v.advance len total c o = .ok (v', c', 0) ∧ new.getLast? = some c' ∧
            Linked v v' c new
        else v.advance len total c o = .error (.fatIndex (v.bpb.clusters + 2)) := by
  by_cases atEnd : o = v.bytesPerCluster
  · right
    rw [advance, if_pos atEnd, nextCluster_of_has cursor.has, cursor.next_eq]
    simp only [bind, Except.bind]
    by_cases isLast : i + 1 = l.length
    · right
      have none : l[i + 1]? = none := List.getElem?_eq_none (by omega)
      have chain : v.Chain c [c] := by
        constructor
        · exact .last (by rw [cursor.next_eq, none])
        · intro d member
          rw [List.mem_singleton.mp member]
          exact cursor.has
      have linked := linked_of_extendCluster valid chain (v.numCluster (len - total))
      rw [none, Option.getD_none, if_pos rfl, extendCluster_of_chain valid chain]
      refine ⟨atEnd, isLast, ?_⟩
      by_cases enough : v.numCluster (len - total) ≤ v.free.length
      · rw [if_pos enough, if_pos enough]
        have positive : 0 < v.numCluster (len - total) :=
          numCluster_pos v valid.bytesPerCluster_pos (by omega)
        have nonempty : v.free.take (v.numCluster (len - total)) ≠ [] := by
          intro nil
          have length := congrArg List.length nil
          rw [List.length_take, List.length_nil] at length
          omega
        refine ⟨_, _, _, rfl, rfl, ?_, linked⟩
        rw [List.getLast_cons nonempty, List.getLast?_eq_some_getLast nonempty]
      · rw [if_neg enough, if_neg enough]
    · left
      have lt := cursor.lt_length
      have inside : i + 1 < l.length := by omega
      have next : l[i + 1]? = some l[i + 1] := List.getElem?_eq_getElem inside
      refine ⟨atEnd, _, next, ?_⟩
      have has := cursor.chain.inside _ (List.getElem_mem inside)
      have few := valid.clusters_le
      rw [next, Option.getD_some, if_neg]
      rw [kEndOfClusterchain]
      have := has.2
      omega
  · left
    rw [advance, if_neg atEnd]
    exact ⟨Nat.lt_of_le_of_ne cursor.off_le atEnd, rfl⟩

/-! ## One round -/

/-- Bytes between the cursor and the end of the chain. -/
def room (v : Volume) (l : List Nat) (i o : Nat) : Nat :=
  (l.length - i) * v.bytesPerCluster - o

/-- Position of the cursor in the file. -/
def position (v : Volume) (i o : Nat) : Nat :=
  i * v.bytesPerCluster + o

/-- Where the cursor is after the start of a round. -/
structure Advanced (v v' : Volume) (first : Nat) (l new : List Nat) (i o i' c' o' : Nat) : Prop where
  written : Written v v' first l new i
  sameData : SameData v v'
  cursor : Cursor v' first (l ++ new) i' c' o'
  index_le : i ≤ i'
  off_lt : o' < v.bytesPerCluster
  position_le : v.position i o ≤ v.position i' o'

theorem Written.refl (chain : v.Chain first l) (i : Nat) : Written v v first l [] i where
  bpb := rfl
  isFree := by simp
  chain := by
    rw [List.append_nil]
    exact chain
  fat := fun _ _ _ _ => rfl
  data := fun _ _ _ => rfl

/-- A cluster that is reached without an extension. -/
theorem advanced_of_cursor (cursor : Cursor v first l i' c' o') (index_le : i ≤ i')
    (off_lt : o' < v.bytesPerCluster) (position_le : v.position i o ≤ v.position i' o') :
    Advanced v v first l [] i o i' c' o' where
  written := .refl cursor.chain i
  sameData := .refl v
  cursor := by
    rw [List.append_nil]
    exact cursor
  index_le := index_le
  off_lt := off_lt
  position_le := position_le

/-- The last of the clusters that are appended. -/
theorem advanced_of_linked (cursor : Cursor v first l i c o) (atEnd : i + 1 = l.length)
    (linked : Linked v v' c new) (isFree : ∀ d ∈ new, d ∈ v.free) (isLast : new.getLast? = some c')
    (positive : 0 < v.bytesPerCluster) :
    Advanced v v' first l new i o (l.length + new.length - 1) c' 0 := by
  have nonempty : new ≠ [] := by
    rintro rfl
    cases isLast
  have length_pos := List.length_pos_of_ne_nil nonempty
  have last := cursor.getLast? atEnd
  have lastEq : l.getLast cursor.chain.path.ne_nil = c := by
    rw [List.getLast?_eq_some_getLast cursor.chain.path.ne_nil] at last
    exact Option.some.inj last
  have chain := linked.extends_chain isFree cursor.chain lastEq
  constructor
  · constructor
    · exact linked.sameData.bpb
    · exact isFree
    · exact chain
    · intro x _ notLast notNew
      apply linked.fat x _ notNew
      rintro rfl
      exact notLast last
    · exact fun a inside _ => linked.sameData.mem a inside
  · exact linked.sameData
  · constructor
    · exact chain
    · rw [List.getElem?_append_right (by omega), ← isLast, List.getLast?_eq_getElem?]
      congr 1
      omega
    · exact Nat.zero_le _
  · omega
  · exact positive
  · have lower : i + 1 ≤ l.length + new.length - 1 := by omega
    have moved := Nat.mul_le_mul_right v.bytesPerCluster lower
    have := cursor.off_le
    rw [position, position]
    rw [Nat.succ_mul] at moved
    omega

theorem advance_ok (valid : v.bpb.Valid) (cursor : Cursor v first l i c o) {len total : Nat}
    (more : total < len) (result : v.advance len total c o = .ok (v', c', o')) :
    ∃ new i', Advanced v v' first l new i o i' c' o' ∧
      (new = [] → v.position i' o' = v.position i o) ∧
      (new ≠ [] → o = v.bytesPerCluster ∧ i + 1 = l.length ∧
        new.length = v.numCluster (len - total) ∧ i' + 1 = (l ++ new).length) := by
  have positive : 0 < v.bytesPerCluster := valid.bytesPerCluster_pos
  rcases advance_cases valid cursor len total more with
    ⟨inside, stays⟩ | ⟨full, next, get, moves⟩ | ⟨full, atEnd, extends_chain⟩
  · rw [stays] at result
    cases result
    refine ⟨[], i, advanced_of_cursor cursor le_rfl inside le_rfl, fun _ => rfl, ?_⟩
    exact fun nonempty => absurd rfl nonempty
  · rw [moves] at result
    cases result
    have same : v.position (i + 1) 0 = v.position i o := by
      rw [position, position, full, Nat.succ_mul, Nat.add_zero]
    refine ⟨[], i + 1, advanced_of_cursor ⟨cursor.chain, get, Nat.zero_le _⟩ (Nat.le_succ i)
      positive same.ge, fun _ => same, ?_⟩
    exact fun nonempty => absurd rfl nonempty
  · by_cases enough : v.numCluster (len - total) ≤ v.free.length
    · rw [if_pos enough] at extends_chain
      rcases extends_chain with ⟨last, new, v₁, rfl, appended, isLast, linked⟩
      rw [appended] at result
      cases result
      have length : (v.free.take (v.numCluster (len - total))).length =
          v.numCluster (len - total) := by
        rw [List.length_take]
        omega
      refine ⟨_, _, advanced_of_linked cursor atEnd linked (fun _ => List.mem_of_mem_take) isLast
        positive, ?_, ?_⟩
      · intro nil
        rw [nil] at isLast
        cases isLast
      · intro nonempty
        have := List.length_pos_of_ne_nil nonempty
        refine ⟨full, atEnd, length, ?_⟩
        rw [List.length_append]
        omega
    · rw [if_neg enough] at extends_chain
      rw [extends_chain] at result
      cases result

theorem mem_copyIn (v : Volume) (buf : Mem) (sec off total n : Nat) :
    (v.copyIn buf sec off total n).mem =
      v.mem.copyTo (sec + off) n fun j => buf (total + j) := rfl

@[simp] theorem bpb_copyIn (v : Volume) (buf : Mem) (sec off total n : Nat) :
    (v.copyIn buf sec off total n).bpb = v.bpb := rfl

theorem sameFat_copyIn (v : Volume) (buf : Mem) {sec off : Nat} (total n : Nat)
    (data : v.bpb.dataOffset ≤ sec) : SameFat v (v.copyIn buf sec off total n) where
  bpb := rfl
  mem := by
    intro a before
    rw [mem_copyIn]
    exact Mem.copyTo_outside (.inl (by omega))

theorem bytesPerCluster_copyIn (v : Volume) (buf : Mem) (sec off total n : Nat) :
    (v.copyIn buf sec off total n).bytesPerCluster = v.bytesPerCluster := rfl

theorem cursor_copyIn (valid : v.bpb.Valid) (cursor : Cursor v first l i c o) (buf : Mem)
    (total : Nat) {n : Nat} (le : o + n ≤ v.bytesPerCluster) :
    Cursor (v.copyIn buf (v.bpb.getClusterAddr c) o total n) first l i c (o + n) := by
  have same : SameFat v (v.copyIn buf (v.bpb.getClusterAddr c) o total n) :=
    sameFat_copyIn v buf total n (valid.dataOffset_le_getClusterAddr cursor.has)
  constructor
  · exact cursor.chain.sameFat valid same
  · exact cursor.get
  · rw [bytesPerCluster_copyIn]
    exact le

/-- What a round copies fits into the cluster, and is not nothing. -/
theorem copied_bounds {len bytes off n : Nat} (copied : min len (bytes - off) = n) (inside : off < bytes)
    (more : 0 < len) : off + n ≤ bytes ∧ 0 < n := by
  omega

/-- Copying into a cluster touches no byte of another one. -/
theorem mem_copyIn_of_not_inCluster (buf : Mem) (total : Nat) {n a : Nat}
    (le : o + n ≤ v.bytesPerCluster) (outside : ¬ v.InCluster c a) :
    (v.copyIn buf (v.bpb.getClusterAddr c) o total n).mem a = v.mem a := by
  rw [mem_copyIn]
  apply Mem.copyTo_outside
  rw [InCluster] at outside
  omega

/-- Copying into a cluster of the chain. -/
theorem written_copyIn (valid : v.bpb.Valid) (cursor : Cursor v first l i c o) (buf : Mem)
    {total n : Nat} (le : o + n ≤ v.bytesPerCluster) :
    Written v (v.copyIn buf (v.bpb.getClusterAddr c) o total n) first l [] i := by
  have same : SameFat v (v.copyIn buf (v.bpb.getClusterAddr c) o total n) :=
    sameFat_copyIn v buf total n (valid.dataOffset_le_getClusterAddr cursor.has)
  have chain := cursor.chain.sameFat valid same
  constructor
  · exact same.bpb
  · exact fun _ member => absurd member List.not_mem_nil
  · rw [List.append_nil]
    exact chain
  · exact fun x has _ _ => same.fat valid has
  · intro a _ outside
    have member : c ∈ (l ++ []).drop i := by
      rw [List.append_nil]
      apply List.mem_of_getElem? (i := 0)
      rw [List.getElem?_drop, Nat.add_zero, cursor.get]
    exact mem_copyIn_of_not_inCluster buf total le (outside c member)

/-! ## Content -/

/-- The byte at a position of the file with the chain `l`. -/
def fileByte (v : Volume) (l : List Nat) (p : Nat) : UInt8 :=
  v.mem (v.bpb.getClusterAddr (l.getD (p / v.bytesPerCluster) 0) + p % v.bytesPerCluster)

/-- A position in the chain lies in one of its clusters. -/
theorem exists_cluster (chain : v.Chain first l) {p : Nat}
    (inside : p < l.length * v.bytesPerCluster) :
    ∃ d, l[p / v.bytesPerCluster]? = some d ∧ v.bpb.HasCluster d ∧
      v.fileByte l p = v.mem (v.bpb.getClusterAddr d + p % v.bytesPerCluster) ∧
      v.InCluster d (v.bpb.getClusterAddr d + p % v.bytesPerCluster) := by
  have positive : 0 < v.bytesPerCluster := by
    rcases Nat.eq_zero_or_pos v.bytesPerCluster with zero | positive
    · rw [zero] at inside
      omega
    · exact positive
  have lt : p / v.bytesPerCluster < l.length := (Nat.div_lt_iff_lt_mul positive).mpr inside
  have get := List.getElem?_eq_getElem lt
  refine ⟨_, get, chain.inside _ (List.getElem_mem lt), ?_, ?_⟩
  · rw [fileByte, List.getD_eq_getElem?_getD, get, Option.getD_some]
  · have := Nat.mod_lt p positive
    constructor
    · exact Nat.le_add_right _ _
    · omega

/-- The data of a chain that has not changed. -/
theorem fileByte_congr (valid : v.bpb.Valid) (chain : v.Chain first l) (same : SameData v v')
    {p : Nat} (inside : p < l.length * v.bytesPerCluster) : v'.fileByte l p = v.fileByte l p := by
  rcases exists_cluster chain inside with ⟨d, get, has, -, inCluster⟩
  have bytes : v'.bytesPerCluster = v.bytesPerCluster := congrArg BPB.bytesPerCluster same.bpb
  rw [fileByte, fileByte, bytes, same.bpb, same.mem]
  rw [List.getD_eq_getElem?_getD, get, Option.getD_some]
  exact dataOffset_le_of_inCluster valid has inCluster

/-- Copying into a cluster changes the positions behind the cursor. -/
theorem fileByte_copyIn (valid : v.bpb.Valid) (cursor : Cursor v first l i c o) (buf : Mem)
    {total n p : Nat} (le : o + n ≤ v.bytesPerCluster) (inside : p < l.length * v.bytesPerCluster) :
    (v.copyIn buf (v.bpb.getClusterAddr c) o total n).fileByte l p =
      if v.position i o ≤ p ∧ p < v.position i o + n then buf (total + (p - v.position i o))
      else v.fileByte l p := by
  rcases exists_cluster cursor.chain inside with ⟨d, get, has, byte, inCluster⟩
  have positive : 0 < v.bytesPerCluster := valid.bytesPerCluster_pos
  have split := Nat.div_add_mod p v.bytesPerCluster
  have rest_lt := Nat.mod_lt p positive
  rw [Nat.mul_comm] at split
  have copied : (v.copyIn buf (v.bpb.getClusterAddr c) o total n).fileByte l p =
      v.mem.copyTo (v.bpb.getClusterAddr c + o) n (fun j => buf (total + j))
        (v.bpb.getClusterAddr d + p % v.bytesPerCluster) := by
    rw [fileByte, mem_copyIn, bpb_copyIn, bytesPerCluster, bpb_copyIn, ← bytesPerCluster,
      List.getD_eq_getElem?_getD, get, Option.getD_some]
  rw [copied, byte, position]
  by_cases here : p / v.bytesPerCluster = i
  · have same : d = c := by
      rw [here, cursor.get] at get
      exact (Option.some.inj get).symm
    subst same
    rw [here] at split
    rw [Mem.copyTo_apply]
    by_cases hit : i * v.bytesPerCluster + o ≤ p ∧ p < i * v.bytesPerCluster + o + n
    · rw [if_pos hit, if_pos (by omega)]
      congr 1
      omega
    · rw [if_neg hit, if_neg (by omega)]
  · have ne : d ≠ c := by
      rintro rfl
      apply here
      have lt := (List.getElem?_eq_some_iff.mp get).1
      exact (List.getElem?_inj lt cursor.chain.path.nodup).mp (get.trans cursor.get.symm)
    have miss : ¬ (i * v.bytesPerCluster + o ≤ p ∧ p < i * v.bytesPerCluster + o + n) := by
      rintro ⟨lower, upper⟩
      apply here
      apply Nat.div_eq_of_lt_le
      · omega
      · rw [Nat.succ_mul]
        omega
    rw [if_neg miss]
    apply Mem.copyTo_outside
    rcases valid.clusters_disjoint has cursor.has ne with before | after
    · have := inCluster.2
      rw [bytesPerCluster] at *
      omega
    · rw [bytesPerCluster] at *
      omega

end Volume

end Mikanos.Fat
