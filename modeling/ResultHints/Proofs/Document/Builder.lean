import ResultHints.Document.Builder
import ResultHints.Proofs.Document.Ids

/-!
# Documents that are built

Nodes may be made in any order and of any kind, as long as every child is a node that was
made before, is above none of the others and has no node above it yet (`Builder.Built`).
Main statements:

- `Builder.Built.children_of_node`: then every node is above those it was made for;
- `Builder.Built.hasDistinctIds`: and no two nodes of the document share an id.
-/

namespace ResultHints

namespace Builder

variable {b : Builder} {children : List NodeId}

/-- What is built by making nodes above distinct nodes that have no node above them. -/
inductive Built : Builder → Prop
  | empty : Built .empty
  | node {b : Builder} {children : List NodeId} (shape : Shape) : Built b → children.Nodup →
    (∀ i ∈ children, ∃ x ∈ Location.allIn [] b.trees, x.id = i ∧ x.parent? = none) →
    Built (b.node shape children)

/-- A node above no other may be made whatever there is. -/
theorem Built.leaf (h : b.Built) (shape : Shape) : (b.node shape []).Built :=
  h.node shape .nil nofun

/-- A node may be made above one of the roots. -/
theorem Built.over {t : Tree Node} (h : b.Built) (shape : Shape) (ht : t ∈ b.trees) :
    (b.node shape [t.label.id]).Built := by
  have hroot : (⟨t, []⟩ : Place) ∈ Location.allIn [] b.trees :=
    Location.mem_allIn_nil.2 ⟨t, ht, Location.self_mem_walk _⟩
  exact h.node shape (List.nodup_singleton _)
    (List.forall_mem_singleton.2 ⟨_, hroot, rfl, rfl⟩)

theorem nodup_roots (h : ((Tree.preorderAll b.trees).map (·.id)).Perm (List.range b.size)) :
    (b.trees.map (·.label.id)).Nodup := by
  have hids := (h.nodup_iff.2 List.nodup_range).sublist
    ((Tree.map_label_sublist_preorderAll b.trees).map _)
  rwa [List.map_map] at hids

theorem tree?_eq_some {i : NodeId} {t : Tree Node} (hnd : (b.trees.map (·.label.id)).Nodup) :
    b.tree? i = some t ↔ t ∈ b.trees ∧ t.label.id = i := by
  constructor
  · intro h
    exact ⟨List.mem_of_find?_eq_some h, beq_iff_eq.1 (List.find?_some h :)⟩
  · rintro ⟨ht, rfl⟩
    -- The first tree with the id of `t` is `t`.
    obtain ⟨u, hu⟩ : ∃ u, b.tree? t.label.id = some u :=
      Option.isSome_iff_exists.1 (List.find?_isSome.2 ⟨t, ht, beq_iff_eq.2 rfl⟩)
    rw [hu, List.inj_on_of_nodup_map hnd (List.mem_of_find?_eq_some hu) ht
      (beq_iff_eq.1 (List.find?_some hu :))]

/-- To make a node above some roots moves their trees below it, and leaves the others. -/
theorem trees_perm (hnd : (b.trees.map (·.label.id)).Nodup) (hchildren : children.Nodup) :
    (b.trees.filter (fun t => !children.contains t.label.id) ++
      children.filterMap b.tree?).Perm b.trees := by
  have htrees := hnd.of_map _
  have hmoved : (children.filterMap b.tree?).Perm
      (b.trees.filter fun t => children.contains t.label.id) := by
    refine (List.perm_ext_iff_of_nodup ?_ (htrees.filter _)).2 fun t => ?_
    · refine hchildren.filterMap fun i j t hi hj => ?_
      exact ((tree?_eq_some hnd).1 hi).2.symm.trans ((tree?_eq_some hnd).1 hj).2
    · rw [List.mem_filterMap, List.mem_filter, List.contains_iff_mem]
      constructor
      · rintro ⟨i, hi, hti⟩
        obtain ⟨ht, rfl⟩ := (tree?_eq_some hnd).1 hti
        exact ⟨ht, hi⟩
      · rintro ⟨ht, hi⟩
        exact ⟨_, hi, (tree?_eq_some hnd).2 ⟨ht, rfl⟩⟩
  have hsplit := List.filter_append_perm (fun t => children.contains t.label.id) b.trees
  exact (hmoved.append_left _).trans (List.perm_append_comm.trans hsplit)

/-- The nodes that were made have the ids below their number, each one of them. -/
theorem Built.ids_perm (h : b.Built) :
    ((Tree.preorderAll b.trees).map (·.id)).Perm (List.range b.size) := by
  induction h with
  | empty => exact List.Perm.refl _
  | @node b children shape _ hchildren _ ih =>
    -- The trees are those that there were, but for the new node, which has the next id.
    have hperm := ((trees_perm (nodup_roots ih) hchildren).flatMap_right Tree.preorder).map (·.id)
    simp only [Builder.node, Tree.preorderAll_eq_flatMap, Tree.preorder_node, List.flatMap_append,
      List.flatMap_singleton, List.map_append, List.map_cons, List.range_succ] at hperm ih ⊢
    exact (List.perm_middle.trans ((hperm.trans ih).cons b.size)).trans
      (List.perm_append_singleton b.size _).symm

/-- A new node stands above just the nodes that were asked for, in the order asked for. -/
theorem Built.children_of_node (h : b.Built)
    (hparentless : ∀ i ∈ children, ∃ x ∈ Location.allIn [] b.trees, x.id = i ∧ x.parent? = none) :
    (children.filterMap b.tree?).map (·.label.id) = children := by
  rw [List.map_filterMap]
  refine (List.filterMap_congr fun i hi => ?_).trans List.filterMap_some
  obtain ⟨x, hx, rfl, hnone⟩ := hparentless i hi
  obtain ⟨t, ht, rfl⟩ := (Location.parent?_eq_none_iff hx).1 hnone
  exact Option.map_eq_some_iff.2 ⟨t, (tree?_eq_some (nodup_roots h.ids_perm)).2 ⟨ht, rfl⟩, rfl⟩

theorem Built.perm_ids (h : b.Built) :
    ((Location.allIn [] b.trees).map (·.id)).Perm (List.range b.size) := by
  have hids := h.ids_perm
  rwa [← Location.map_label_allIn_nil, List.map_map] at hids

theorem Built.nodup_ids (h : b.Built) : ((Location.allIn [] b.trees).map (·.id)).Nodup :=
  h.perm_ids.nodup_iff.2 List.nodup_range

/-- The ids of the nodes are those below their number. -/
theorem Built.mem_ids_iff (h : b.Built) {i : NodeId} :
    (∃ x ∈ Location.allIn [] b.trees, x.id = i) ↔ i < b.size := by
  rw [← List.mem_map, h.perm_ids.mem_iff, List.mem_range]

theorem Built.hasDistinctIds {source : List Char} {tokens : Array Token} {root : NodeId}
    {d : Document} (h : b.Built) (hd : b.finish? source tokens root = some d) :
    d.HasDistinctIds := by
  obtain ⟨x, -, rfl⟩ := Option.map_eq_some_iff.1 hd
  exact h.nodup_ids

end Builder

end ResultHints
