import ResultHints.Proofs.Document.Builder

/-!
# Plans of documents

A *plan* tells what nodes to make one after the other, and above which. It is *sound* if
every node is made above distinct nodes that were made before it and that no other node is
above; just then it builds a document (`Builder.built_iff_exists_plan`). What is built is as
planned: every node that a sound plan has is a node of its document, of the shape and above
the children that the plan tells (`Plan.IsSound.exists_document`).
-/

namespace ResultHints

/-- What a node to make stands for, and the ids of the nodes that it is made above. -/
structure PlanStep where
  shape : Shape
  children : List NodeId

/-- The nodes to make, each of which gets the next id. -/
abbrev Plan := List PlanStep

namespace Plan

variable {p : Plan} {s : PlanStep} {i : NodeId} {ts : List (Tree Node)}

/-- The nodes that a node is made above. -/
def children (p : Plan) (i : NodeId) : List NodeId := p[i]?.elim [] PlanStep.children

/-- Makes the nodes of a plan. -/
def build (p : Plan) : Builder := p.foldl (fun b s => b.node s.shape s.children) .empty

/-- Every node is made above distinct nodes that were made before it and that no other node is
    above. -/
inductive IsSound : Plan → Prop
  | nil : IsSound []
  | concat {p : Plan} {s : PlanStep} : IsSound p → s.children.Nodup →
    (∀ i ∈ s.children, i < p.length ∧ ∀ u ∈ p, i ∉ u.children) → IsSound (p ++ [s])

/-- The root of a tree is as planned. -/
def Describes (p : Plan) (t : Tree Node) : Prop :=
  p[t.label.id]? = some ⟨t.label.toShape, t.children.map (·.label.id)⟩

theorem build_concat (p : Plan) (s : PlanStep) :
    build (p ++ [s]) = (build p).node s.shape s.children :=
  List.foldl_concat _ _ _ _

theorem size_build (p : Plan) : (build p).size = p.length := by
  induction p using List.reverseRecOn with
  | nil => rfl
  | append_singleton p s ih =>
    rw [build_concat, Builder.node, ih, List.length_append, List.length_singleton]

theorem Describes.concat {t : Tree Node} (h : Describes p t) : Describes (p ++ [s]) t :=
  (List.getElem?_append_left (List.getElem?_eq_some_iff.1 h).1).trans h

theorem children_of_describes {x : Place} (h : p.Describes x.tree) :
    p.children x.id = x.children.map Location.id := by
  rw [children, show p[x.id]? = some ⟨x.label.toShape, x.tree.children.map (·.label.id)⟩ from h,
    Location.children, List.map_map]
  rfl

/-- What holds of every tree below the roots holds of the trees of all places. -/
theorem of_mem_places {P : Tree Node → Prop} (h : ∀ t ∈ ts, t.Each P) {x : Place}
    (hx : x ∈ Location.allIn [] ts) : P x.tree := by
  obtain ⟨t, ht, hx⟩ := Location.mem_allIn_nil.1 hx
  exact (Location.walk_induction (P := fun x => x.tree.Each P) (h t ht)
    (fun _ hp _ hy => hp.child (Location.tree_mem_of_mem_children hy)) hx).self

end Plan

open Plan

/-! ## What is built -/

namespace Builder

variable {b : Builder} {p : Plan} {i : NodeId}

/-- If what is built is as planned, the nodes that nothing is planned above are at the top. -/
theorem Built.parentless_iff (h : (build p).Built)
    (hp : ∀ t ∈ (build p).trees, t.Each p.Describes) :
    (∃ x ∈ Location.allIn [] (build p).trees, x.id = i ∧ x.parent? = none) ↔
      i < p.length ∧ ∀ u ∈ p, i ∉ u.children := by
  constructor
  · rintro ⟨x, hx, rfl, hnone⟩
    refine ⟨size_build p ▸ h.mem_ids_iff.1 ⟨x, hx, rfl⟩, fun u hu hmem => ?_⟩
    -- The node that `u` makes would be the parent.
    obtain ⟨j, hj, rfl⟩ := List.getElem_of_mem hu
    obtain ⟨y, hy, rfl⟩ := h.mem_ids_iff.2 ((size_build p).symm ▸ hj)
    have hchildren := children_of_describes (of_mem_places hp hy)
    rw [children, List.getElem?_eq_getElem hj, Option.elim_some] at hchildren
    obtain ⟨z, hz, hid⟩ := List.mem_map.1 (hchildren ▸ hmem)
    have hzx : z = x := List.inj_on_of_nodup_map h.nodup_ids
      (Location.mem_allIn_nil_of_mem_children hy hz) hx hid
    rw [← hzx, Location.parent?_of_mem_children hz] at hnone
    cases hnone
  · rintro ⟨hi, hno⟩
    obtain ⟨x, hx, rfl⟩ := h.mem_ids_iff.2 ((size_build p).symm ▸ hi)
    refine ⟨x, hx, rfl, Option.eq_none_iff_forall_ne_some.2 fun y hy => ?_⟩
    obtain ⟨hmem, hxy⟩ := (Location.parent?_eq_some_iff hx).1 hy
    have hd := of_mem_places hp hmem
    refine hno _ (List.mem_of_getElem? hd) ?_
    exact List.mem_map_of_mem (Location.tree_mem_of_mem_children hxy)

end Builder

namespace Plan

variable {p : Plan} {s : PlanStep} {root : NodeId} {d : Document}

/-- What one step adds to what is built is as planned. -/
theorem each_describes_concat (h : (build p).Built) (hp : ∀ t ∈ (build p).trees, t.Each p.Describes)
    (hs : ∀ i ∈ s.children, i < p.length ∧ ∀ u ∈ p, i ∉ u.children) :
    ∀ t ∈ (build (p ++ [s])).trees, t.Each (Describes (p ++ [s])) := by
  have hp' (t : Tree Node) (ht : t ∈ (build p).trees) : t.Each (Describes (p ++ [s])) :=
    (hp t ht).imp fun _ => Describes.concat
  rw [build_concat, Builder.node]
  refine List.forall_mem_append.2 ⟨fun t ht => hp' t (List.mem_of_mem_filter ht), ?_⟩
  refine List.forall_mem_singleton.2 (.node ?_ fun t ht => ?_)
  · have hchildren := h.children_of_node fun i hi => (Builder.Built.parentless_iff h hp).2 (hs i hi)
    rw [Describes, Tree.label_node, Tree.children_node, hchildren, size_build,
      List.getElem?_concat_length]
  · obtain ⟨i, -, hi⟩ := List.mem_filterMap.1 ht
    exact hp' t (List.mem_of_find?_eq_some hi)

/-- A sound plan builds just what it tells. -/
theorem IsSound.built (h : p.IsSound) :
    (build p).Built ∧ ∀ t ∈ (build p).trees, t.Each p.Describes := by
  induction h with
  | nil => exact ⟨.empty, nofun⟩
  | @concat p s _ hnd hs ih =>
    refine ⟨?_, each_describes_concat ih.1 ih.2 hs⟩
    rw [build_concat]
    exact .node s.shape ih.1 hnd fun i hi => (Builder.Built.parentless_iff ih.1 ih.2).2 (hs i hi)

/-- The document that a sound plan builds has the planned root, and all its nodes are as
    planned. -/
theorem IsSound.exists_document (h : p.IsSound) (hroot : root < p.length) (source : List Char)
    (tokens : Array Token) : ∃ d, (build p).finish? source tokens root = some d ∧
      d.root.id = root ∧ d.root ∈ d.places ∧ ∀ x ∈ d.places, p.Describes x.tree := by
  obtain ⟨hbuilt, hp⟩ := h.built
  obtain ⟨x, hx, rfl⟩ := hbuilt.mem_ids_iff.2 ((size_build p).symm ▸ hroot)
  obtain ⟨y, hy⟩ : ∃ y, (Location.allIn [] (build p).trees).find? (·.id == x.id) = some y :=
    Option.isSome_iff_exists.1 (List.find?_isSome.2 ⟨x, hx, beq_iff_eq.2 rfl⟩)
  exact ⟨_, congrArg _ hy, beq_iff_eq.1 (List.find?_some hy :), List.mem_of_find?_eq_some hy,
    fun z hz => of_mem_places hp hz⟩

end Plan

/-- What is built is what a sound plan builds. -/
theorem Builder.built_iff_exists_plan {b : Builder} :
    b.Built ↔ ∃ p : Plan, p.IsSound ∧ build p = b := by
  constructor
  · intro h
    induction h with
    | empty => exact ⟨[], .nil, rfl⟩
    | @node b children shape _ hnd hparentless ih =>
      obtain ⟨p, hp, rfl⟩ := ih
      refine ⟨p ++ [⟨shape, children⟩], hp.concat hnd fun i hi => ?_, build_concat p _⟩
      exact (Built.parentless_iff hp.built.1 hp.built.2).1 (hparentless i hi)
  · rintro ⟨p, hp, rfl⟩
    exact hp.built.1

end ResultHints
