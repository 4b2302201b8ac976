import Mathlib.Data.List.Nodup
import ResultHints.Proofs.Tree.Each
import ResultHints.Tree.Location

/-!
# Places in a tree

How the places from a node down lie to each other: they are closed under
children, every one but the first has a parent among them (`walk_induction`,
`exists_parent_of_mem_walk`), and their labels are those of the preorder
(`map_label_walk`). Of all places of some trees, links up and links down are the same
(`parent?_eq_some_iff`).
-/

namespace ResultHints

namespace Location

variable {α : Type} {r x y z : Location α}

/-! ## Children and ancestors -/

theorem mem_children :
    y ∈ x.children ↔ ∃ t ∈ x.tree.children, (⟨t, x.tree :: x.above⟩ : Location α) = y :=
  List.mem_map

theorem ancestors_mk (t s : Tree α) (above : List (Tree α)) :
    (⟨t, s :: above⟩ : Location α).ancestors =
      ⟨s, above⟩ :: (⟨s, above⟩ : Location α).ancestors := rfl

/-- The ancestors of a child are its parent and the ancestors of that one. -/
theorem ancestors_of_mem_children (h : y ∈ x.children) : y.ancestors = x :: x.ancestors := by
  obtain ⟨t, _, rfl⟩ := mem_children.1 h
  rfl

theorem parent?_of_mem_children (h : y ∈ x.children) : y.parent? = some x := by
  rw [parent?, ancestors_of_mem_children h, List.head?_cons]

theorem tree_mem_of_mem_children (h : y ∈ x.children) : y.tree ∈ x.tree.children := by
  obtain ⟨t, ht, rfl⟩ := mem_children.1 h
  exact ht

theorem map_tree_children (x : Location α) : x.children.map tree = x.tree.children := by
  rw [children, List.map_map]
  exact List.map_id' _

/-- An ancestor lies less deep. -/
theorem length_above_lt (h : z ∈ x.ancestors) : z.above.length < x.above.length := by
  obtain ⟨t, above⟩ := x
  induction above generalizing t with
  | nil => exact absurd h List.not_mem_nil
  | cons s above ih =>
    rw [ancestors_mk, List.mem_cons] at h
    rcases h with rfl | h
    · exact Nat.lt_succ_self _
    · exact Nat.lt_succ_of_lt (ih s h)

/-- Nothing lies above what is above it. -/
theorem not_mem_ancestors (h : z ∈ x.ancestors) : x ∉ z.ancestors := fun h' =>
  Nat.lt_irrefl _ (Nat.lt_trans (length_above_lt h) (length_above_lt h'))

/-- The nearest ancestor with a label of some sort is the parent, if that has one; else it is
    that of the parent. -/
theorem nearest?_of_mem_children {p : α → Bool} (h : y ∈ x.children) :
    y.nearest? p = if p x.label then some x else x.nearest? p := by
  rw [nearest?, ancestors_of_mem_children h, List.find?_cons]
  cases p x.label <;> rfl

/-! ## The places from a node down -/

theorem allIn_eq_flatMap (above ts : List (Tree α)) :
    allIn above ts = ts.flatMap (all above) := by
  induction ts with
  | nil => rfl
  | cons t ts ih => rw [allIn, ih, List.flatMap_cons]

theorem walk_eq_flatMap (x : Location α) : x.walk = x :: x.children.flatMap walk := by
  rw [walk_eq, descendants, allIn_eq_flatMap, children, List.flatMap_map]
  rfl

theorem self_mem_walk (x : Location α) : x ∈ x.walk := by
  rw [walk_eq]
  exact List.mem_cons_self

theorem mem_walk_iff : y ∈ x.walk ↔ y = x ∨ ∃ c ∈ x.children, y ∈ c.walk := by
  rw [walk_eq_flatMap, List.mem_cons, List.mem_flatMap]

/-- The nodes from a node down are reached from it by going to children. -/
theorem walk_cases {t : Tree α} {above : List (Tree α)} {P : Location α → Prop}
    (hP : ∀ x, P x → ∀ y ∈ x.children, P y) (h : P ⟨t, above⟩) :
    ∀ y ∈ (⟨t, above⟩ : Location α).walk, P y := by
  induction t using Tree.ind generalizing above with
  | node a ts ih =>
    intro y hy
    rcases mem_walk_iff.1 hy with rfl | ⟨c, hc, hy⟩
    · exact h
    · have hPc := hP _ h c hc
      obtain ⟨s, hs, rfl⟩ := mem_children.1 hc
      exact ih s hs hPc y hy

/-- What passes from a node to its children holds from a node down, if it holds of that node. -/
theorem walk_induction {P : Location α → Prop} (root : P r)
    (child : ∀ x, P x → ∀ y ∈ x.children, P y) (hx : x ∈ r.walk) : P x := by
  obtain ⟨t, above⟩ := r
  exact walk_cases child root x hx

theorem descendants_eq_flatMap (x : Location α) : x.descendants = x.children.flatMap walk := by
  rw [descendants, allIn_eq_flatMap, children, List.flatMap_map]
  rfl

/-- What passes from all nodes below a node to the node holds of every node. -/
theorem descent {P : Location α → Prop} (h : ∀ x, (∀ y ∈ x.descendants, P y) → P x)
    (x : Location α) : P x := by
  -- By induction on the tree, for all places of it at once.
  have hall : ∀ t : Tree α, ∀ above, ∀ y ∈ (⟨t, above⟩ : Location α).walk, P y := by
    intro t
    induction t using Tree.ind with
    | node a ts ih =>
      intro above y hy
      have hbelow : ∀ z ∈ (⟨.node a ts, above⟩ : Location α).descendants, P z := by
        intro z hz
        rw [descendants_eq_flatMap, List.mem_flatMap] at hz
        obtain ⟨c, hc, hz⟩ := hz
        obtain ⟨s, hs, rfl⟩ := mem_children.1 hc
        exact ih s hs _ z hz
      rw [walk_eq, List.mem_cons] at hy
      rcases hy with rfl | hy
      · exact h _ hbelow
      · exact hbelow y hy
  exact hall x.tree x.above x (self_mem_walk x)

theorem mem_descendants_of_mem_children (hy : y ∈ x.children) : y ∈ x.descendants := by
  rw [descendants_eq_flatMap, List.mem_flatMap]
  exact ⟨y, hy, self_mem_walk y⟩

theorem mem_descendants_of_mem_children_children (hy : y ∈ x.children) (hz : z ∈ y.children) :
    z ∈ x.descendants := by
  rw [descendants_eq_flatMap, List.mem_flatMap]
  exact ⟨y, hy, mem_walk_iff.2 (.inr ⟨z, hz, self_mem_walk z⟩)⟩

theorem mem_walk_trans (hy : y ∈ x.walk) (hx : x ∈ r.walk) : y ∈ r.walk := by
  obtain ⟨t, above⟩ := r
  induction t using Tree.ind generalizing above with
  | node a ts ih =>
    rcases mem_walk_iff.1 hx with rfl | ⟨c, hc, hx⟩
    · exact hy
    · obtain ⟨s, hs, rfl⟩ := mem_children.1 hc
      exact mem_walk_iff.2 (.inr ⟨_, hc, ih s hs _ hx⟩)

/-- What holds of the trees of all nodes from a node down holds of its tree and all below. -/
theorem each_tree {P : Tree α → Prop} (h : ∀ y ∈ x.walk, P y.tree) : x.tree.Each P := by
  refine descent (P := fun x => (∀ y ∈ x.walk, P y.tree) → x.tree.Each P) (fun x ih h => ?_) x h
  obtain ⟨⟨a, ts⟩, above⟩ := x
  refine .node (h _ (self_mem_walk _)) fun t ht => ?_
  have hc : (⟨t, .node a ts :: above⟩ : Location α) ∈ (⟨.node a ts, above⟩ : Location α).children :=
    mem_children.2 ⟨t, ht, rfl⟩
  exact ih _ (mem_descendants_of_mem_children hc) fun z hz =>
    h z (mem_walk_iff.2 (.inr ⟨_, hc, hz⟩))

theorem mem_walk_of_mem_descendants (hx : x ∈ r.walk) (hy : y ∈ x.descendants) : y ∈ r.walk := by
  refine mem_walk_trans ?_ hx
  rw [walk_eq]
  exact List.mem_cons_of_mem _ hy

theorem mem_walk_of_mem_children (hx : x ∈ r.walk) (hy : y ∈ x.children) : y ∈ r.walk :=
  mem_walk_trans (mem_walk_iff.2 (.inr ⟨y, hy, self_mem_walk y⟩)) hx

/-- From a node down, every node but the first has its parent among them. -/
theorem exists_parent_of_mem_walk (hx : x ∈ r.walk) : x = r ∨ ∃ p ∈ r.walk, x ∈ p.children := by
  have : x ∈ r.walk ∧ (x = r ∨ ∃ p ∈ r.walk, x ∈ p.children) :=
    walk_induction (P := fun x => x ∈ r.walk ∧ (x = r ∨ ∃ p ∈ r.walk, x ∈ p.children))
      ⟨self_mem_walk r, .inl rfl⟩
      (fun p hp y hy => ⟨mem_walk_of_mem_children hp.1 hy, .inr ⟨p, hp.1, hy⟩⟩) hx
  exact this.2

/-- The ancestors of the nodes of a whole tree are nodes of it. -/
theorem mem_walk_of_mem_ancestors (hr : r.above = []) (hx : x ∈ r.walk) (hz : z ∈ x.ancestors) :
    z ∈ r.walk := by
  have : x ∈ r.walk ∧ ∀ z ∈ x.ancestors, z ∈ r.walk := by
    refine walk_induction (P := fun x => x ∈ r.walk ∧ ∀ z ∈ x.ancestors, z ∈ r.walk)
      ⟨self_mem_walk r, fun z hz => ?_⟩ (fun p hp y hy => ?_) hx
    · rw [ancestors, hr] at hz
      exact absurd hz List.not_mem_nil
    · refine ⟨mem_walk_of_mem_children hp.1 hy, fun z hz => ?_⟩
      rw [ancestors_of_mem_children hy] at hz
      rcases List.mem_cons.1 hz with rfl | hz
      · exact hp.1
      · exact hp.2 z hz
  exact this.2 z hz

/-- What lies below a node has it among its ancestors. -/
theorem mem_ancestors_of_mem_walk (hy : y ∈ x.walk) : y = x ∨ x ∈ y.ancestors := by
  refine walk_induction (P := fun y => y = x ∨ x ∈ y.ancestors) (.inl rfl) (fun p hp y hy => ?_) hy
  rw [ancestors_of_mem_children hy]
  rcases hp with rfl | hp
  · exact .inr List.mem_cons_self
  · exact .inr (List.mem_cons_of_mem _ hp)

theorem mem_ancestors_of_mem_descendants (hy : y ∈ x.descendants) : x ∈ y.ancestors := by
  rw [descendants_eq_flatMap, List.mem_flatMap] at hy
  obtain ⟨c, hc, hy⟩ := hy
  refine walk_induction (P := fun y => x ∈ y.ancestors) ?_ (fun p hp y hy => ?_) hy
  · rw [ancestors_of_mem_children hc]
    exact List.mem_cons_self
  · rw [ancestors_of_mem_children hy]
    exact List.mem_cons_of_mem _ hp

/-- In a whole tree, what lies below a node is just what has it among its ancestors. -/
theorem mem_walk_iff_mem_ancestors (hr : r.above = []) (hx : x ∈ r.walk) :
    x ∈ z.walk ↔ x = z ∨ z ∈ x.ancestors := by
  refine ⟨mem_ancestors_of_mem_walk, ?_⟩
  rintro (rfl | hz)
  · exact self_mem_walk x
  · refine walk_induction (P := fun x => ∀ z ∈ x.ancestors, x ∈ z.walk) ?_ (fun p hp y hy => ?_)
      hx z hz
    · intro z hz
      rw [ancestors, hr] at hz
      exact absurd hz List.not_mem_nil
    · intro z hz
      rw [ancestors_of_mem_children hy, List.mem_cons] at hz
      refine mem_walk_of_mem_children ?_ hy
      rcases hz with rfl | hz
      · exact self_mem_walk z
      · exact hp z hz

/-- The nearest ancestor with a label of some sort lies below every other one, or is it. -/
theorem exists_nearest? {p : α → Bool} (hr : r.above = []) (hx : x ∈ r.walk) (hz : z ∈ x.ancestors)
    (hp : p z.label) : ∃ y ∈ z.walk, x.nearest? p = some y := by
  refine walk_induction (P := fun x => x ∈ r.walk ∧
    ∀ z ∈ x.ancestors, p z.label → ∃ y ∈ z.walk, x.nearest? p = some y) ?_ ?_ hx |>.2 z hz hp
  · refine ⟨self_mem_walk r, fun z hz => ?_⟩
    rw [ancestors, hr] at hz
    exact absurd hz List.not_mem_nil
  · rintro x ⟨hx, ih⟩ c hc
    refine ⟨mem_walk_of_mem_children hx hc, fun z hz hpz => ?_⟩
    rw [nearest?_of_mem_children hc]
    rw [ancestors_of_mem_children hc, List.mem_cons] at hz
    cases hpx : p x.label with
    | true =>
      refine ⟨x, (mem_walk_iff_mem_ancestors hr hx).2 (hz.imp_left Eq.symm), rfl⟩
    | false =>
      rcases hz with rfl | hz
      · rw [hpz] at hpx
        cases hpx
      · exact ih z hz hpz

/-- The labels from a node down are those of its tree in preorder. -/
theorem map_label_walk (x : Location α) : x.walk.map label = x.tree.preorder := by
  obtain ⟨t, above⟩ := x
  induction t using Tree.ind generalizing above with
  | node a ts ih =>
    rw [walk_eq_flatMap, List.map_cons, List.map_flatMap, Tree.preorder_node, children,
      List.flatMap_map, List.flatMap_def, List.flatMap_def]
    congr 2
    exact List.map_congr_left fun t ht => ih t ht _

/-- The children of a node are some of the nodes below it, in their order. -/
theorem children_sublist_descendants (x : Location α) : x.children.Sublist x.descendants := by
  rw [descendants_eq_flatMap]
  induction x.children with
  | nil => exact .slnil
  | cons c cs ih =>
    rw [List.flatMap_cons, walk_eq]
    exact (ih.trans (List.sublist_append_right _ _)).cons_cons c

theorem walk_infix_of_mem_children (hy : y ∈ x.children) : y.walk <:+: x.descendants := by
  rw [descendants_eq_flatMap]
  exact List.infix_flatMap_of_mem hy walk

theorem walk_sublist_of_mem_children (hy : y ∈ x.children) : y.walk.Sublist x.walk := by
  rw [walk_eq x]
  exact (walk_infix_of_mem_children hy).sublist.cons x

/-- The nodes from a node down stand together among those below the uppermost one. -/
theorem walk_infix_descendants (hx : x ∈ r.walk) : x = r ∨ x.walk <:+: r.descendants := by
  refine walk_induction (P := fun x => x = r ∨ x.walk <:+: r.descendants) (.inl rfl) ?_ hx
  rintro x (rfl | hx) y hy
  · exact .inr (walk_infix_of_mem_children hy)
  · refine .inr ((walk_infix_of_mem_children hy).trans (.trans ?_ hx))
    rw [walk_eq x]
    exact (List.suffix_cons x _).isInfix

/-- The nodes from a node down are some of those from an upper node down, in their order. -/
theorem walk_sublist_walk (hx : x ∈ r.walk) : x.walk.Sublist r.walk :=
  walk_induction (P := fun x => x.walk.Sublist r.walk) (List.Sublist.refl _)
    (fun _ hp _ hy => (walk_sublist_of_mem_children hy).trans hp) hx

/-- Where no label comes twice, a node is found again by its label. -/
theorem eq_of_mem_walk {β : Type} {f : α → β} (hnd : (r.tree.preorder.map f).Nodup)
    (hx : x ∈ r.walk) (hy : y ∈ r.walk) (h : f x.label = f y.label) : x = y := by
  have hnd : (r.walk.map fun x => f x.label).Nodup := by
    rw [← map_label_walk, List.map_map] at hnd
    exact hnd
  exact List.inj_on_of_nodup_map hnd hx hy h

/-! ## The places of some trees -/

variable {ts : List (Tree α)}

theorem mem_allIn_nil : x ∈ allIn [] ts ↔ ∃ t ∈ ts, x ∈ (⟨t, []⟩ : Location α).walk := by
  rw [allIn_eq_flatMap, List.mem_flatMap]
  rfl

theorem map_label_allIn_nil (ts : List (Tree α)) :
    (allIn [] ts).map label = Tree.preorderAll ts := by
  rw [allIn_eq_flatMap, Tree.preorderAll_eq_flatMap, List.map_flatMap]
  exact List.flatMap_congr fun t _ => map_label_walk ⟨t, []⟩

theorem walk_sublist_allIn_nil (hx : x ∈ allIn [] ts) : x.walk.Sublist (allIn [] ts) := by
  obtain ⟨t, ht, hx⟩ := mem_allIn_nil.1 hx
  rw [allIn_eq_flatMap, List.flatMap_def]
  exact (walk_sublist_walk hx).trans (List.sublist_flatten_of_mem (List.mem_map_of_mem ht))

theorem mem_allIn_nil_of_mem_children (hx : x ∈ allIn [] ts) (hy : y ∈ x.children) :
    y ∈ allIn [] ts := by
  obtain ⟨t, ht, hx⟩ := mem_allIn_nil.1 hx
  exact mem_allIn_nil.2 ⟨t, ht, mem_walk_of_mem_children hx hy⟩

theorem mem_allIn_nil_of_mem_ancestors (hx : x ∈ allIn [] ts) (hz : z ∈ x.ancestors) :
    z ∈ allIn [] ts := by
  obtain ⟨t, ht, hx⟩ := mem_allIn_nil.1 hx
  exact mem_allIn_nil.2 ⟨t, ht, mem_walk_of_mem_ancestors rfl hx hz⟩

/-- The top of a node of a whole tree is the root of the tree. -/
theorem top_of_mem_walk (hr : r.above = []) (hx : x ∈ r.walk) : x.top = r := by
  refine walk_induction (P := fun x => x.top = r) ?_ (fun p hp y hy => ?_) hx
  · rw [top, ancestors, hr]
    rfl
  · rw [top, ancestors_of_mem_children hy, List.getLastD_cons]
    exact hp

/-- Among the places of some trees, those at the top are the roots. -/
theorem parent?_eq_none_iff (hx : x ∈ allIn [] ts) :
    x.parent? = none ↔ ∃ t ∈ ts, x = ⟨t, []⟩ := by
  obtain ⟨t, ht, hx⟩ := mem_allIn_nil.1 hx
  constructor
  · intro h
    obtain rfl | ⟨p, -, hxp⟩ := exists_parent_of_mem_walk hx
    · exact ⟨t, ht, rfl⟩
    · rw [parent?_of_mem_children hxp] at h
      cases h
  · rintro ⟨t, -, rfl⟩
    rfl

/-- Among the places of some trees, links up and links down are the same. -/
theorem parent?_eq_some_iff (hx : x ∈ allIn [] ts) :
    x.parent? = some y ↔ y ∈ allIn [] ts ∧ x ∈ y.children := by
  refine ⟨fun h => ?_, fun h => parent?_of_mem_children h.2⟩
  obtain ⟨t, ht, hx⟩ := mem_allIn_nil.1 hx
  obtain rfl | ⟨p, hp, hxp⟩ := exists_parent_of_mem_walk hx
  · cases h
  · rw [parent?_of_mem_children hxp, Option.some.injEq] at h
    subst h
    exact ⟨mem_allIn_nil.2 ⟨t, ht, hp⟩, hxp⟩

end Location

end ResultHints
