import Mikanos.Fat.Layout

/-!
# Extending chains

`ExtendCluster` and `AllocateClusterChain` take the free clusters in ascending
order.  They link them to a chain if there are enough, and else they read the
entry behind the end of the FAT.
-/

namespace Mikanos.Fat

open Mikanos.Memory Mikanos.Chain

namespace Volume

variable {v v' : Volume}

/-! ## Free clusters -/

/-- The free clusters from a candidate on. -/
def freeFrom (v : Volume) (candidate : Nat) : List Nat :=
  (List.range' candidate (v.bpb.clusters + 2 - candidate)).filter fun c => v.fat c = 0

/-- The free clusters. -/
def free (v : Volume) : List Nat :=
  v.freeFrom 2

theorem mem_freeFrom {candidate c : Nat} :
    c ∈ v.freeFrom candidate ↔ candidate ≤ c ∧ c < v.bpb.clusters + 2 ∧ v.fat c = 0 := by
  rw [freeFrom, List.mem_filter, List.mem_range'_1]
  simp only [decide_eq_true_eq]
  constructor
  · rintro ⟨⟨lower, upper⟩, isFree⟩
    exact ⟨lower, by omega, isFree⟩
  · rintro ⟨lower, upper, isFree⟩
    exact ⟨⟨lower, by omega⟩, isFree⟩

theorem mem_free {c : Nat} : c ∈ v.free ↔ v.bpb.HasCluster c ∧ v.fat c = 0 := by
  rw [free, mem_freeFrom, BPB.HasCluster, and_assoc]

theorem nodup_freeFrom (v : Volume) (candidate : Nat) : (v.freeFrom candidate).Nodup :=
  List.Nodup.filter _ List.nodup_range'

theorem freeFrom_end (v : Volume) : v.freeFrom (v.bpb.clusters + 2) = [] := by
  simp [freeFrom]

theorem freeFrom_step {candidate : Nat} (inside : candidate < v.bpb.clusters + 2) :
    v.freeFrom candidate =
      if v.fat candidate = 0 then candidate :: v.freeFrom (candidate + 1)
      else v.freeFrom (candidate + 1) := by
  have range : v.bpb.clusters + 2 - candidate = v.bpb.clusters + 2 - (candidate + 1) + 1 := by
    omega
  rw [freeFrom, range, List.range'_succ, List.filter_cons]
  simp only [decide_eq_true_eq]
  rfl

theorem freeFrom_congr {candidate : Nat} (bpb : v'.bpb = v.bpb)
    (same : ∀ c, candidate ≤ c → c < v.bpb.clusters + 2 → (v'.fat c = 0 ↔ v.fat c = 0)) :
    v'.freeFrom candidate = v.freeFrom candidate := by
  rw [freeFrom, freeFrom, bpb]
  apply List.filter_congr
  intro c member
  rw [List.mem_range'_1] at member
  simp only [same c member.1 (by omega)]

theorem free_sameFat (valid : v.bpb.Valid) (same : SameFat v v') : v'.free = v.free := by
  apply freeFrom_congr same.bpb
  intro c lower upper
  rw [same.fat valid ⟨lower, upper⟩]

/-- A free cluster belongs to no chain. -/
theorem Chain.not_mem_of_free {first c : Nat} {l : List Nat} (chain : v.Chain first l)
    (isFree : c ∈ v.free) : c ∉ l :=
  fun member => chain.fat_ne_zero member (mem_free.mp isFree).2

/-! ## Linking -/

/-- Link a cluster to the first of some others, these to one another, and mark
the end. -/
def linkChain : Volume → Nat → List Nat → Volume
  | v, current, [] => v.setFat current kEndOfClusterchain
  | v, current, c :: new => linkChain (v.setFat current c) c new

/-- A chain has been extended behind a cluster. -/
structure Linked (v v' : Volume) (current : Nat) (new : List Nat) : Prop where
  sameData : SameData v v'
  chain : v'.Chain current (current :: new)
  fat : ∀ x, x ≠ current → x ∉ new → v'.fat x = v.fat x

theorem linked_linkChain (valid : v.bpb.Valid) (current : Nat) (new : List Nat)
    (nodup : (current :: new).Nodup) (inside : ∀ c ∈ current :: new, v.bpb.HasCluster c) :
    Linked v (v.linkChain current new) current new := by
  induction new generalizing v current with
  | nil =>
      have has := inside current (List.mem_singleton_self _)
      constructor
      · exact sameData_setFat valid has _
      · constructor
        · apply Path.last
          apply next_eq_none
          rw [linkChain, fat_setFat_self]
          rfl
        · exact inside
      · intro x ne _
        exact fat_setFat_of_ne v _ ne
  | cons c new ih =>
      have has := inside current List.mem_cons_self
      have hasC := inside c (List.mem_cons_of_mem _ List.mem_cons_self)
      rcases List.nodup_cons.mp nodup with ⟨fresh, rest⟩
      have linked := @ih (v.setFat current c) valid c rest
        fun d member => inside d (List.mem_cons_of_mem _ member)
      have few := valid.clusters_le
      have small : c % 2 ^ 32 = c := Nat.mod_eq_of_lt (by have := hasC.2; omega)
      have joint : ((v.setFat current c).linkChain c new).next current = some c := by
        have entry : ((v.setFat current c).linkChain c new).fat current = c := by
          rw [linked.fat current (fun same => fresh (same ▸ List.mem_cons_self))
            (fun member => fresh (List.mem_cons_of_mem _ member)), fat_setFat_self, small]
        have bpb := linked.sameData.bpb
        rw [bpb_setFat] at bpb
        apply next_of_fat_eq (bpb ▸ valid) entry (bpb ▸ hasC)
      constructor
      · exact (sameData_setFat valid has c).trans linked.sameData
      · constructor
        · exact .link joint linked.chain.path
        · intro d member
          have bpb := linked.sameData.bpb
          rw [bpb_setFat] at bpb
          exact bpb ▸ inside d member
      · intro x ne notNew
        rw [linkChain, linked.fat x (fun same => notNew (same ▸ List.mem_cons_self))
          (fun member => notNew (List.mem_cons_of_mem _ member)), fat_setFat_of_ne v c ne]

namespace Linked

variable {current : Nat} {new : List Nat}

/-- Other chains are as they were. -/
theorem keeps (linked : Linked v v' current new) (isFree : ∀ c ∈ new, c ∈ v.free) {first : Nat}
    {l : List Nat} (chain : v.Chain first l) (apart : current ∉ l) : v'.Chain first l := by
  apply chain.congr linked.sameData.bpb
  intro c member
  apply linked.fat c
  · exact fun same => apart (same ▸ member)
  · exact fun inNew => chain.not_mem_of_free (isFree c inNew) member

/-- The chain that ends in the cluster is extended. -/
theorem extends_chain (linked : Linked v v' current new) (isFree : ∀ c ∈ new, c ∈ v.free)
    {first : Nat} {l : List Nat} (chain : v.Chain first l)
    (isLast : l.getLast chain.path.ne_nil = current) : v'.Chain first (l ++ new) := by
  have sameNext : ∀ x ∈ l, x ≠ current → v'.next x = v.next x := by
    intro x member ne
    apply next_congr
    apply linked.fat x ne
    exact fun inNew => chain.not_mem_of_free (isFree x inNew) member
  constructor
  · cases new with
    | nil =>
        rw [List.append_nil]
        have ends : v'.next current = none := by
          cases linked.chain.path with
          | last ends => exact ends
          | link _ rest => cases rest
        exact chain.path.congr_last (isLast ▸ sameNext) (isLast.symm ▸ ends)
    | cons c new =>
        cases linked.chain.path with
        | link follows rest =>
            have pathEq := rest.head?_eq
            simp only [List.head?_cons, Option.some.injEq] at pathEq
            subst pathEq
            exact chain.path.append rest (isLast ▸ sameNext) (isLast.symm ▸ follows)
  · intro c member
    rw [linked.sameData.bpb]
    rcases List.mem_append.mp member with inOld | inNew
    · exact chain.inside c inOld
    · exact (mem_free.mp (isFree c inNew)).1

end Linked

/-! ## The loops -/

/-- The end of a chain is found. -/
theorem lastCluster_of_chain {first : Nat} {l : List Nat} (chain : v.Chain first l) (fuel : Nat)
    (enough : l.length ≤ fuel) :
    v.lastCluster fuel first = .ok (l.getLast chain.path.ne_nil) := by
  rcases chain with ⟨path, inside⟩
  induction path generalizing fuel with
  | @last a ends =>
      cases fuel with
      | zero => cases enough
      | succ fuel =>
          have isEnd : isEndOfClusterchain (v.fat a) = true := by
            by_contra notEnd
            rw [next, if_neg notEnd] at ends
            cases ends
          rw [lastCluster, readFat_of_has (inside a (List.mem_singleton_self _))]
          simp [isEnd, bind, Except.bind]
  | @link a b l follows rest ih =>
      cases fuel with
      | zero => cases enough
      | succ fuel =>
          have notEnd : isEndOfClusterchain (v.fat a) = false := by
            by_contra isEnd
            rw [next, if_pos (by simpa using isEnd)] at follows
            cases follows
          have linked : v.fat a = b := by
            rw [next, notEnd] at follows
            exact Option.some.inj follows
          rw [lastCluster, readFat_of_has (inside a List.mem_cons_self)]
          simp only [bind, Except.bind]
          rw [if_neg (by simp [notEnd]), linked]
          simp only [List.getLast_cons rest.ne_nil]
          apply ih
          · exact Nat.le_of_succ_le_succ enough
          · exact fun c member => inside c (List.mem_cons_of_mem _ member)

/-- The clusters that `ExtendCluster` has linked so far, and the last of them. -/
def linkAll : Volume → Nat → List Nat → Nat × Volume
  | v, current, [] => (current, v)
  | v, current, c :: new => linkAll (v.setFat current c) c new

theorem setFat_linkAll (v : Volume) (current : Nat) (new : List Nat) :
    (v.linkAll current new).2.setFat (v.linkAll current new).1 kEndOfClusterchain =
      v.linkChain current new := by
  induction new generalizing v current with
  | nil => rfl
  | cons c new ih => exact ih _ c

theorem linkAll_fst (v : Volume) (current : Nat) (new : List Nat) :
    (v.linkAll current new).1 = (current :: new).getLast (List.cons_ne_nil _ _) := by
  induction new generalizing v current with
  | nil => rfl
  | cons c new ih =>
      rw [linkAll, ih, List.getLast_cons (List.cons_ne_nil _ _)]

theorem bpb_linkAll (v : Volume) (current : Nat) (new : List Nat) :
    (v.linkAll current new).2.bpb = v.bpb := by
  induction new generalizing v current with
  | nil => rfl
  | cons c new ih => rw [linkAll, ih, bpb_setFat]

/-- Linking the current cluster to a candidate does not change which of the later
clusters are free. -/
theorem freeFrom_setFat {candidate current : Nat} (lower : 2 ≤ candidate)
    (upper : candidate < 2 ^ 32) (used : v.fat current ≠ 0 ∨ current < candidate) :
    (v.setFat current candidate).freeFrom (candidate + 1) = v.freeFrom (candidate + 1) := by
  apply freeFrom_congr (bpb_setFat v current candidate)
  intro c after _
  by_cases same : c = current
  · subst same
    rw [fat_setFat_self, Nat.mod_eq_of_lt upper]
    rcases used with used | before
    · constructor
      · intro zero
        omega
      · exact fun isFree => absurd isFree used
    · omega
  · rw [fat_setFat_of_ne v _ same]

/-- The second loop of `ExtendCluster` links the free clusters in order, or reads
past the FAT. -/
theorem extendLoop_eq (valid : v.bpb.Valid) (n fuel candidate current k : Nat)
    (lower : 2 ≤ candidate) (upper : candidate ≤ v.bpb.clusters + 2)
    (enough : v.bpb.clusters + 3 ≤ candidate + fuel) (has : v.bpb.HasCluster current)
    (used : v.fat current ≠ 0 ∨ current < candidate) (le : k ≤ n) :
    extendLoop n fuel v candidate current k =
      if n - k ≤ (v.freeFrom candidate).length then
        .ok (v.linkAll current ((v.freeFrom candidate).take (n - k)))
      else .error (.fatIndex (v.bpb.clusters + 2)) := by
  induction fuel generalizing v candidate current k with
  | zero => omega
  | succ fuel ih =>
      rw [extendLoop]
      by_cases done : k = n
      · subst done
        simp [linkAll]
      · rw [if_pos (by omega)]
        by_cases atEnd : candidate = v.bpb.clusters + 2
        · subst atEnd
          rw [readFat_end, freeFrom_end, if_neg (by simp; omega)]
          rfl
        · have inside : candidate < v.bpb.clusters + 2 := by omega
          have hasCandidate : v.bpb.HasCluster candidate := ⟨lower, inside⟩
          have small : candidate < 2 ^ 32 := by
            have := valid.clusters_le
            omega
          rw [readFat_of_has hasCandidate, freeFrom_step inside]
          simp only [bind, Except.bind]
          by_cases isFree : v.fat candidate = 0
          · rw [if_neg (fun used => used isFree), if_pos isFree, writeFat_of_has has]
            simp only
            rw [ih (v := v.setFat current candidate) valid (candidate + 1) candidate (k + 1)
              (by omega) inside (by rw [bpb_setFat]; omega) hasCandidate (.inr (Nat.lt_succ_self _))
              (by omega), freeFrom_setFat lower small used, bpb_setFat]
            have taken : n - k = n - (k + 1) + 1 := by omega
            simp only [List.length_cons, taken, List.take_succ_cons, linkAll,
              Nat.add_le_add_iff_right]
          · rw [if_pos isFree, if_neg isFree, ih valid (candidate + 1) current k (by omega) inside
              (by omega) has (by omega) le]

/-! ## The functions -/

/-- `ExtendCluster` appends the first free clusters to a chain. -/
theorem extendCluster_of_chain (valid : v.bpb.Valid) {first : Nat} {l : List Nat}
    (chain : v.Chain first l) (n : Nat) :
    v.extendCluster first n =
      if n ≤ v.free.length then
        .ok ((l.getLast chain.path.ne_nil :: v.free.take n).getLast (List.cons_ne_nil _ _),
          v.linkChain (l.getLast chain.path.ne_nil) (v.free.take n))
      else .error (.fatIndex (v.bpb.clusters + 2)) := by
  have member := chain.getLast_mem
  set last := l.getLast chain.path.ne_nil with lastEq
  have has := chain.inside last member
  rw [extendCluster, lastCluster_of_chain chain _ (chain.length_le.trans (Nat.le_succ _))]
  simp only [bind, Except.bind]
  have loop := extendLoop_eq valid n (v.bpb.clusters + 2) 2 last 0 le_rfl (by omega) (by omega) has
    (.inl (chain.fat_ne_zero member)) (Nat.zero_le _)
  rw [Nat.sub_zero, ← free] at loop
  rw [loop]
  by_cases enough : n ≤ v.free.length
  · rw [if_pos enough, if_pos enough]
    simp only
    have hasCurrent : (v.linkAll last (v.free.take n)).2.bpb.HasCluster
        (v.linkAll last (v.free.take n)).1 := by
      rw [bpb_linkAll, linkAll_fst]
      rcases List.mem_cons.mp (List.getLast_mem (List.cons_ne_nil last (v.free.take n))) with
        same | inFree
      · rw [same]
        exact has
      · exact (mem_free.mp (List.mem_of_mem_take inFree)).1
    rw [writeFat_of_has hasCurrent, setFat_linkAll, linkAll_fst]
  · rw [if_neg enough, if_neg enough]

theorem linked_of_extendCluster (valid : v.bpb.Valid) {first : Nat} {l : List Nat}
    (chain : v.Chain first l) (n : Nat) :
    Linked v (v.linkChain (l.getLast chain.path.ne_nil) (v.free.take n))
      (l.getLast chain.path.ne_nil) (v.free.take n) := by
  apply linked_linkChain valid
  · apply List.nodup_cons.mpr
    constructor
    · intro inFree
      exact chain.not_mem_of_free (List.mem_of_mem_take inFree) chain.getLast_mem
    · exact (nodup_freeFrom v 2).sublist (List.take_sublist _ _)
  · intro c member
    rcases List.mem_cons.mp member with rfl | inFree
    · exact chain.inside _ chain.getLast_mem
    · exact (mem_free.mp (List.mem_of_mem_take inFree)).1

/-- The loop of `AllocateClusterChain` takes the first free cluster, or reads past
the FAT. -/
theorem firstFree_eq (fuel candidate : Nat) (lower : 2 ≤ candidate)
    (upper : candidate ≤ v.bpb.clusters + 2) (enough : v.bpb.clusters + 3 ≤ candidate + fuel) :
    v.firstFree fuel candidate =
      match v.freeFrom candidate with
      | [] => .error (.fatIndex (v.bpb.clusters + 2))
      | c :: _ => .ok (c, v.setFat c kEndOfClusterchain) := by
  induction fuel generalizing candidate with
  | zero => omega
  | succ fuel ih =>
      rw [firstFree]
      by_cases atEnd : candidate = v.bpb.clusters + 2
      · subst atEnd
        rw [readFat_end, freeFrom_end]
        rfl
      · have inside : candidate < v.bpb.clusters + 2 := by omega
        have has : v.bpb.HasCluster candidate := ⟨lower, inside⟩
        rw [readFat_of_has has, freeFrom_step inside]
        simp only [bind, Except.bind]
        by_cases isFree : v.fat candidate = 0
        · rw [if_pos isFree, if_pos isFree, writeFat_of_has has]
        · rw [if_neg isFree, if_neg isFree, ih (candidate + 1) (by omega) inside (by omega)]

/-- Taking the first free cluster leaves the others free. -/
theorem free_setFat_head {c : Nat} {rest : List Nat} (split : v.free = c :: rest) :
    (v.setFat c kEndOfClusterchain).free = rest := by
  have nodup := nodup_freeFrom v 2
  rw [← free, split] at nodup
  have fresh := (List.nodup_cons.mp nodup).1
  have used : v.free.filter (· ≠ c) = rest := by
    rw [split, List.filter_cons_of_neg (by simp)]
    apply List.filter_eq_self.mpr
    intro d member
    simp only [decide_eq_true_eq]
    exact fun same => fresh (same ▸ member)
  rw [← used, free, freeFrom, free, freeFrom, List.filter_filter, bpb_setFat]
  apply List.filter_congr
  intro d _
  by_cases same : d = c
  · subst same
    simp [kEndOfClusterchain]
  · simp [fat_setFat_of_ne v _ same, same]

/-- `AllocateClusterChain` makes a chain of the first free clusters, at least of
one. -/
theorem allocateClusterChain_eq (valid : v.bpb.Valid) (n : Nat) :
    v.allocateClusterChain n =
      match v.free with
      | [] => .error (.fatIndex (v.bpb.clusters + 2))
      | c :: rest =>
          if n - 1 ≤ rest.length then
            .ok (c, if n ≤ 1 then v.setFat c kEndOfClusterchain
              else (v.setFat c kEndOfClusterchain).linkChain c (rest.take (n - 1)))
          else .error (.fatIndex (v.bpb.clusters + 2)) := by
  rw [allocateClusterChain, firstFree_eq _ _ le_rfl (by omega) (by omega), ← free]
  cases split : v.free with
  | nil => rfl
  | cons c rest =>
      simp only [bind, Except.bind]
      have has : v.bpb.HasCluster c := (mem_free.mp (split ▸ List.mem_cons_self)).1
      have chain : (v.setFat c kEndOfClusterchain).Chain c [c] := by
        have linked := linked_linkChain valid c [] (List.nodup_singleton _)
          (fun d member => List.mem_singleton.mp member ▸ has)
        exact linked.chain
      by_cases many : 1 < n
      · have notFew : ¬ n ≤ 1 := by omega
        have extended := extendCluster_of_chain (v := v.setFat c _) valid chain (n - 1)
        rw [free_setFat_head split] at extended
        rw [if_pos many, extended]
        by_cases enough : n - 1 ≤ rest.length
        · simp only [if_pos enough, if_neg notFew]
          rfl
        · simp only [if_neg enough]
          rfl
      · rw [if_neg many, if_pos (by omega), if_pos (by omega)]

/-- The new chain. -/
theorem linked_of_allocateClusterChain (valid : v.bpb.Valid) {c : Nat} {rest : List Nat}
    (split : v.free = c :: rest) (n : Nat) :
    Linked v (if n ≤ 1 then v.setFat c kEndOfClusterchain
      else (v.setFat c kEndOfClusterchain).linkChain c (rest.take (n - 1))) c
      (rest.take (n - 1)) := by
  have has : v.bpb.HasCluster c := (mem_free.mp (split ▸ List.mem_cons_self)).1
  have nodup := nodup_freeFrom v 2
  rw [← free, split] at nodup
  by_cases few : n ≤ 1
  · rw [if_pos few, show n - 1 = 0 by omega, List.take_zero]
    exact linked_linkChain valid c [] (List.nodup_singleton _)
      (fun d member => List.mem_singleton.mp member ▸ has)
  · rw [if_neg few]
    have linked := linked_linkChain (v := v.setFat c kEndOfClusterchain) valid c (rest.take (n - 1))
      (List.nodup_cons.mpr ⟨fun member => (List.nodup_cons.mp nodup).1 (List.mem_of_mem_take member),
        (List.nodup_cons.mp nodup).2.sublist (List.take_sublist _ _)⟩)
      (by
        intro d member
        rcases List.mem_cons.mp member with rfl | inRest
        · exact has
        · have inFree : d ∈ v.free := by
            rw [split]
            exact List.mem_cons_of_mem _ (List.mem_of_mem_take inRest)
          exact (mem_free.mp inFree).1)
    constructor
    · exact (sameData_setFat valid has _).trans linked.sameData
    · exact linked.chain
    · intro x ne notNew
      rw [linked.fat x ne notNew, fat_setFat_of_ne v _ ne]

end Volume

end Mikanos.Fat
