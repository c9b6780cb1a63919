import Mathlib.Data.Set.Card
import Mathlib.Tactic

/-!
# Walks through a forest

A walk lists the nodes of a forest in preorder, down to a given depth and
without remembering which of them it has visited.  Where every node is reached
in one way only, the walk lists none twice, and as soon as its depth is the
number of the nodes it lists them all.
-/

namespace Mikanos.Transition

universe u v

variable {α : Type u} {children : α → List α} {roots nodes : List α} {x y : α}

/-- What is reached from the roots through children. -/
inductive Reached (children : α → List α) (roots : List α) : α → Prop
  | root {x : α} : x ∈ roots → Reached children roots x
  | child {x y : α} : Reached children roots x → y ∈ children x → Reached children roots y

/-- The nodes in preorder, down to a depth. -/
def walk (children : α → List α) : Nat → List α → List α
  | 0, _ => []
  | depth + 1, nodes => nodes.flatMap fun x => x :: walk children depth (children x)

/-- The nodes at a depth. -/
def level (children : α → List α) (nodes : List α) : Nat → List α
  | 0 => nodes
  | depth + 1 => (level children nodes depth).flatMap children

@[simp]
theorem walk_nil (depth : Nat) : walk children depth [] = [] := by
  cases depth <;> rfl

/-- The walk of many lists of nodes is made of the walks of each. -/
theorem walk_flatMap {β : Type v} (depth : Nat) (f : β → List α) (xs : List β) :
    walk children depth (xs.flatMap f) = xs.flatMap fun x => walk children depth (f x) := by
  cases depth with
  | zero => simp [walk]
  | succ depth => exact List.flatMap_assoc

/-- The levels can be counted from the next one on. -/
theorem level_flatMap (nodes : List α) (depth : Nat) :
    level children (nodes.flatMap children) depth = level children nodes (depth + 1) := by
  induction depth with
  | zero => rfl
  | succ depth ih =>
      rw [level, ih]
      rfl

/-- A walk lists the levels above its depth. -/
theorem walk_perm_levels (depth : Nat) (nodes : List α) :
    (walk children depth nodes).Perm ((List.range depth).flatMap (level children nodes)) := by
  induction depth generalizing nodes with
  | zero => exact .refl []
  | succ depth ih =>
      have apart := (List.flatMap_append_perm nodes (fun x => [x])
        fun x => walk children depth (children x)).symm
      rw [List.flatMap_singleton', ← walk_flatMap] at apart
      rw [List.range_succ_eq_map, List.flatMap_cons, List.flatMap_map]
      refine apart.trans (.append_left nodes ((ih _).trans ?_))
      rw [funext (level_flatMap nodes)]

theorem length_walk_succ (depth : Nat) (nodes : List α) :
    (walk children (depth + 1) nodes).length =
      (walk children depth nodes).length + (level children nodes depth).length := by
  rw [(walk_perm_levels _ _).length_eq, (walk_perm_levels _ _).length_eq, List.range_succ,
    List.flatMap_append, List.length_append, List.flatMap_singleton]

/-- As long as there is a next level, every level has added to the walk. -/
theorem lt_length_walk {depth : Nat} (inhabited : level children nodes depth ≠ []) :
    depth < (walk children (depth + 1) nodes).length := by
  induction depth with
  | zero =>
      rw [length_walk_succ]
      exact Nat.add_pos_right _ (List.length_pos_iff.mpr inhabited)
  | succ depth ih =>
      have above : level children nodes depth ≠ [] := by
        intro empty
        exact inhabited (by rw [level, empty, List.flatMap_nil])
      rw [length_walk_succ]
      have := ih above
      have := List.length_pos_iff.mpr inhabited
      omega

theorem mem_level_reached {depth : Nat} (member : x ∈ level children roots depth) :
    Reached children roots x := by
  induction depth generalizing x with
  | zero => exact .root member
  | succ depth ih =>
      obtain ⟨parent, above, isChild⟩ := List.mem_flatMap.mp member
      exact .child (ih above) isChild

theorem Reached.mem_level (reached : Reached children roots x) :
    ∃ depth, x ∈ level children roots depth := by
  induction reached with
  | root member => exact ⟨0, member⟩
  | child _ isChild ih =>
      obtain ⟨depth, above⟩ := ih
      exact ⟨depth + 1, List.mem_flatMap.mpr ⟨_, above, isChild⟩⟩

theorem mem_walk_iff {depth : Nat} :
    x ∈ walk children depth nodes ↔ ∃ k < depth, x ∈ level children nodes k := by
  rw [(walk_perm_levels depth nodes).mem_iff, List.mem_flatMap]
  simp only [List.mem_range]

/-- A walk lists reached nodes only. -/
theorem mem_walk_reached {depth : Nat} (member : x ∈ walk children depth roots) :
    Reached children roots x := by
  obtain ⟨k, -, member⟩ := mem_walk_iff.mp member
  exact mem_level_reached member

/-- Every reached node is a root or the child of one reached node, once. -/
structure IsForest (children : α → List α) (roots : List α) : Prop where
  roots_nodup : roots.Nodup
  children_nodup : ∀ x, Reached children roots x → (children x).Nodup
  parent_unique : ∀ x y, Reached children roots x → Reached children roots y →
    ∀ z ∈ children x, z ∈ children y → x = y
  root_parentless : ∀ x, Reached children roots x → ∀ z ∈ children x, z ∉ roots

namespace IsForest

/-- No node lies at two depths. -/
theorem depth_unique (forest : IsForest children roots) {j k : Nat}
    (atJ : x ∈ level children roots j) (atK : x ∈ level children roots k) : j = k := by
  induction j generalizing x k with
  | zero =>
      cases k with
      | zero => rfl
      | succ k =>
          obtain ⟨parent, above, isChild⟩ := List.mem_flatMap.mp atK
          exact absurd atJ (forest.root_parentless parent (mem_level_reached above) x isChild)
  | succ j ih =>
      obtain ⟨parent, above, isChild⟩ := List.mem_flatMap.mp atJ
      cases k with
      | zero => exact absurd atK (forest.root_parentless parent (mem_level_reached above) x isChild)
      | succ k =>
          obtain ⟨parent', above', isChild'⟩ := List.mem_flatMap.mp atK
          have same := forest.parent_unique parent parent' (mem_level_reached above)
            (mem_level_reached above') x isChild isChild'
          rw [ih above (same ▸ above')]

theorem level_nodup (forest : IsForest children roots) (depth : Nat) :
    (level children roots depth).Nodup := by
  induction depth with
  | zero => exact forest.roots_nodup
  | succ depth ih =>
      refine List.nodup_flatMap.mpr ⟨fun x member =>
        forest.children_nodup x (mem_level_reached member), ?_⟩
      refine ih.imp_of_mem fun {x y} atX atY differ => ?_
      intro z ofX ofY
      exact differ (forest.parent_unique x y (mem_level_reached atX) (mem_level_reached atY)
        z ofX ofY)

/-- A walk lists no node twice. -/
theorem walk_nodup (forest : IsForest children roots) (depth : Nat) :
    (walk children depth roots).Nodup := by
  rw [(walk_perm_levels depth roots).nodup_iff]
  refine List.nodup_flatMap.mpr ⟨fun k _ => forest.level_nodup k, ?_⟩
  refine List.nodup_range.imp fun {j k} differ => ?_
  intro x atJ atK
  exact differ (forest.depth_unique atJ atK)

variable {bound : Nat}

theorem length_walk_le (forest : IsForest children roots)
    (few : {x | Reached children roots x}.encard ≤ bound) (depth : Nat) :
    (walk children depth roots).length ≤ bound := by
  classical
  have listed : ((walk children depth roots).toFinset : Set α) ⊆
      {x | Reached children roots x} := fun x member =>
    mem_walk_reached (List.mem_toFinset.mp member)
  have counted := (Set.encard_le_encard listed).trans few
  rw [Set.encard_coe_eq_coe_finsetCard,
    List.toFinset_card_of_nodup (forest.walk_nodup depth)] at counted
  exact_mod_cast counted

/-- There are no more levels than nodes. -/
theorem level_eq_nil (forest : IsForest children roots)
    (few : {x | Reached children roots x}.encard ≤ bound) {depth : Nat} (deep : bound ≤ depth) :
    level children roots depth = [] := by
  by_contra inhabited
  have long := lt_length_walk inhabited
  have short := forest.length_walk_le few (depth + 1)
  omega

/-- A walk as deep as there are nodes lists them all. -/
theorem mem_walk_iff_reached (forest : IsForest children roots)
    (few : {x | Reached children roots x}.encard ≤ bound) {depth : Nat} (deep : bound ≤ depth) :
    x ∈ walk children depth roots ↔ Reached children roots x := by
  refine ⟨mem_walk_reached, fun reached => ?_⟩
  obtain ⟨k, member⟩ := reached.mem_level
  refine mem_walk_iff.mpr ⟨k, ?_, member⟩
  by_contra beyond
  rw [forest.level_eq_nil few (by omega)] at member
  exact List.not_mem_nil member

end IsForest

end Mikanos.Transition
