import Mikanos.Fat.Creation

/-!
# The chains of a whole FAT

`ExtendCluster` and `AllocateClusterChain` on a FAT with any number of chains.  While they
link clusters, the table is not sound: the last cluster that is linked still looks free.
When they return, one chain has grown by clusters that were free, and all others are as
they were.
-/

namespace Mikanos.Fat

open Mikanos.Memory Mikanos.Chain

namespace Volume

variable {v v' : Volume} {first c last n : Nat} {l new : List Nat} {ls : List (List Nat)}

instance : Std.Symm (@List.Disjoint Nat) :=
  ⟨fun _ _ apart => apart.symm⟩

/-- A sound FAT: the lists are chains, and no two of them have a cluster in common. -/
structure ChainTable (v : Volume) (ls : List (List Nat)) : Prop where
  valid : v.bpb.Valid
  chains : ∀ l ∈ ls, ∃ first, v.Chain first l
  disjoint : ls.Pairwise List.Disjoint

/-- The chain `l`, which may still be empty, has grown by `new` to one that begins with `first`,
and nothing else has changed. -/
structure Grows (v v' : Volume) (ls : List (List Nat)) (l new : List Nat) (first : Nat) : Prop where
  nodup : new.Nodup
  wereFree : ∀ x ∈ new, x ∈ v.free
  chain : v'.Chain first (l ++ new)
  ends : ∀ x ∈ (l ++ new).getLast?, isEndOfClusterchain (v'.fat x) = true
  entries : ∀ x, x ∉ l.getLast? → x ∉ new → v'.fat x = v.fat x
  others : ∀ l' ∈ ls.erase l, ∀ first', v.Chain first' l' → v'.Chain first' l'
  free : ∀ x, x ∈ v'.free ↔ x ∈ v.free ∧ x ∉ new
  table : ChainTable v' ((l ++ new) :: ls.erase l)

/-- The last cluster of a chain has an end marker. -/
theorem Chain.ends (chain : v.Chain first l) : ∀ x ∈ l.getLast?, isEndOfClusterchain (v.fat x) = true := by
  intro x isLast
  rw [List.getLast?_eq_getLast_of_ne_nil chain.path.ne_nil, Option.mem_some_iff] at isLast
  have none := chain.path.next_getLast
  rw [isLast, next] at none
  by_contra notEnd
  rw [if_neg notEnd] at none
  cases none

theorem ChainTable.nodup (table : ChainTable v ls) : ls.Nodup := by
  apply table.disjoint.imp_of_mem
  rintro l l' member - apart rfl
  rcases table.chains l member with ⟨first, chain⟩
  exact apart chain.path.head_mem chain.path.head_mem

/-- The table after one of its chains, or a new one, has been extended by free clusters. -/
theorem ChainTable.grows (table : ChainTable v ls) (bpb : v'.bpb = v.bpb) (nodup : new.Nodup)
    (wereFree : ∀ x ∈ new, x ∈ v.free) (chain : v'.Chain first (l ++ new))
    (place : l ∈ ls ∨ l = [])
    (entries : ∀ x, x ∉ l.getLast? → x ∉ new → v'.fat x = v.fat x) :
    Grows v v' ls l new first := by
  have notFree : ∀ l' ∈ ls, ∀ x ∈ l', x ∉ v.free := by
    intro l' member x inside isFree
    rcases table.chains l' member with ⟨first', chain'⟩
    exact chain'.not_mem_of_free isFree inside
  have apart : ∀ l' ∈ ls.erase l, List.Disjoint l l' := by
    intro l' member
    rcases table.nodup.mem_erase_iff.mp member with ⟨ne, old⟩
    rcases place with here | rfl
    · exact table.disjoint.forall here old ne.symm
    · exact List.disjoint_nil_left l'
  have others : ∀ l' ∈ ls.erase l, ∀ first', v.Chain first' l' → v'.Chain first' l' := by
    intro l' member first' chain'
    apply chain'.congr bpb
    intro x inside
    apply entries x
    · exact fun isLast => apart l' member (List.mem_of_getLast? isLast) inside
    · exact fun inNew => chain'.not_mem_of_free (wereFree x inNew) inside
  have free : ∀ x, x ∈ v'.free ↔ x ∈ v.free ∧ x ∉ new := by
    have unchanged : ∀ x, x ∉ l → x ∉ new → (x ∈ v'.free ↔ x ∈ v.free) := by
      intro x outside notNew
      rw [mem_free, mem_free, bpb, entries x (fun isLast => outside (List.mem_of_getLast? isLast))
        notNew]
    intro x
    constructor
    · intro isFree
      have outside : x ∉ l ++ new := chain.not_mem_of_free isFree
      rw [List.mem_append, not_or] at outside
      exact ⟨(unchanged x outside.1 outside.2).mp isFree, outside.2⟩
    · rintro ⟨isFree, notNew⟩
      refine (unchanged x (fun inside => ?_) notNew).mpr isFree
      rcases place with here | rfl
      · exact notFree l here x inside isFree
      · cases inside
  refine ⟨nodup, wereFree, chain, chain.ends, entries, others, free, ?_⟩
  constructor
  · exact bpb ▸ table.valid
  · intro l' member
    rcases List.mem_cons.mp member with rfl | old
    · exact ⟨first, chain⟩
    · rcases table.chains l' (List.mem_of_mem_erase old) with ⟨first', chain'⟩
      exact ⟨first', others l' old first' chain'⟩
  · refine List.Pairwise.cons ?_ (table.disjoint.sublist List.erase_sublist)
    intro l' member
    rw [List.disjoint_append_left]
    refine ⟨apart l' member, ?_⟩
    exact fun x inNew inside => notFree l' (List.mem_of_mem_erase member) x inside (wereFree x inNew)

/-- `ExtendCluster`, called for any cluster of a chain. -/
theorem ChainTable.extendCluster (table : ChainTable v ls) (member : l ∈ ls)
    (chain : v.Chain first l) (inChain : c ∈ l) (enough : n ≤ v.free.length) :
    ∃ new last v', v.extendCluster c n = .ok (last, v') ∧ new.length = n ∧
      (l ++ new).getLast? = some last ∧ Grows v v' ls l new first := by
  -- the loop goes to the end of the chain from `c` on
  rcases chain.suffix inChain with ⟨before, after, split, rest⟩
  have lastEq : l.getLast chain.path.ne_nil = after.getLast rest.path.ne_nil := by
    simp only [split]
    exact List.getLast_append_of_ne_nil _ rest.path.ne_nil
  have isLast : l.getLast? = some (after.getLast rest.path.ne_nil) := by
    rw [List.getLast?_eq_getLast_of_ne_nil chain.path.ne_nil, lastEq]
  have linked := linked_of_extendCluster table.valid rest n
  have wereFree : ∀ x ∈ v.free.take n, x ∈ v.free := fun x => List.mem_of_mem_take
  refine ⟨v.free.take n, (after.getLast rest.path.ne_nil :: v.free.take n).getLast
    (List.cons_ne_nil _ _), _, ?_, ?_, ?_, table.grows linked.sameData.bpb ?_ wereFree
    (linked.extends_chain wereFree chain lastEq) (.inl member) ?_⟩
  · rw [extendCluster_of_chain table.valid rest, if_pos enough]
  · rw [List.length_take, Nat.min_eq_left enough]
  · rw [← List.getLast?_eq_getLast_of_ne_nil, List.getLast?_append, isLast, List.getLast?_cons]
    cases (v.free.take n).getLast? <;> rfl
  · exact (nodup_freeFrom v 2).sublist (List.take_sublist _ _)
  · intro x notLast notNew
    apply linked.fat x _ notNew
    rintro rfl
    exact notLast isLast

/-- `AllocateClusterChain`. -/
theorem ChainTable.allocateClusterChain (table : ChainTable v ls)
    (enough : max n 1 ≤ v.free.length) :
    ∃ new first v', v.allocateClusterChain n = .ok (first, v') ∧ new.length = max n 1 ∧
      Grows v v' ls [] new first := by
  cases split : v.free with
  | nil =>
      rw [split, List.length_nil] at enough
      omega
  | cons first rest =>
      rw [split, List.length_cons] at enough
      have linked := linked_of_allocateClusterChain table.valid split n
      have sub : (first :: rest.take (n - 1)).Sublist v.free := by
        rw [split]
        exact (List.take_sublist _ _).cons_cons first
      refine ⟨first :: rest.take (n - 1), first, _, ?_, ?_, table.grows linked.sameData.bpb ?_ ?_
        linked.chain (.inr rfl) ?_⟩
      · rw [allocateClusterChain_eq table.valid, split]
        simp only
        rw [if_pos (by omega)]
      · rw [List.length_cons, List.length_take]
        omega
      · exact (nodup_freeFrom v 2).sublist sub
      · exact fun x inNew => sub.subset inNew
      · intro x _ notNew
        rw [List.mem_cons, not_or] at notNew
        exact linked.fat x notNew.1 notNew.2

/-- On a sound FAT with enough free clusters both functions return; one chain has grown, or is
new, and the FAT is sound again. -/
theorem clusterChains_grow (table : ChainTable v ls) :
    (∀ l ∈ ls, ∀ first, v.Chain first l → ∀ c ∈ l, ∀ n ≤ v.free.length,
      ∃ new last v', v.extendCluster c n = .ok (last, v') ∧ new.length = n ∧
        (l ++ new).getLast? = some last ∧ Grows v v' ls l new first) ∧
    ∀ n, max n 1 ≤ v.free.length →
      ∃ new first v', v.allocateClusterChain n = .ok (first, v') ∧ new.length = max n 1 ∧
        Grows v v' ls [] new first :=
  ⟨fun _ member _ chain _ inChain _ enough => table.extendCluster member chain inChain enough,
    fun _ enough => table.allocateClusterChain enough⟩

/-- A FAT with the chain of the clusters 2 and 5, and another cluster in use. -/
def twoChains : Volume :=
  (({ bpb := smallBpb, mem := fun _ => 0 } : Volume).setFat 3 kEndOfClusterchain).linkChain 2 [5]

theorem chain_twoChains : twoChains.Chain 2 [2, 5] := by
  constructor
  · exact .link (b := 5) (by decide) (.last (by decide))
  · decide

theorem table_twoChains : ChainTable twoChains [[2, 5], [3]] where
  valid := valid_smallBpb
  chains := by
    intro l member
    rcases List.mem_pair.mp member with rfl | rfl
    · exact ⟨2, chain_twoChains⟩
    · exact ⟨3, .last (by decide), by decide⟩
  disjoint := by
    rw [List.pairwise_pair]
    intro c inFirst inOther
    rw [List.mem_singleton.mp inOther] at inFirst
    exact absurd inFirst (by decide)

theorem clusterChains_grow_twoChains :
    (∃ new last v', twoChains.extendCluster 2 1 = .ok (last, v') ∧ new.length = 1 ∧
      ([2, 5] ++ new).getLast? = some last ∧ Grows twoChains v' [[2, 5], [3]] [2, 5] new 2) ∧
    ∃ new first v', twoChains.allocateClusterChain 1 = .ok (first, v') ∧ new.length = max 1 1 ∧
      Grows twoChains v' [[2, 5], [3]] [] new first := by
  have grow := clusterChains_grow table_twoChains
  constructor
  · exact grow.1 [2, 5] (by decide) 2 chain_twoChains 2 (by decide) 1 (by decide)
  · exact grow.2 1 (by decide)

end Volume

end Mikanos.Fat
