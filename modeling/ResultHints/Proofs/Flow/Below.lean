import ResultHints.Proofs.Document.Ids
import ResultHints.Proofs.Flow.Path

/-!
# Results lie below their literals

In trees of any shape, also such as no text has, the result nodes of a function literal lie
below it. Main statement:

- `mem_ancestors_of_mem_results`: where no two nodes share an id, a literal with a node among
  its results lies above this node.
-/

namespace ResultHints

open Location

variable {i : NodeId} {t : Tree Node}

theorem exists_mem_branchResults (h : i ∈ branchResults t) :
    ∃ u ∈ t.children, i ∈ resultNodes u := by
  obtain ⟨n, cs⟩ := t
  rw [branchResults, mem_firstResults] at h
  obtain ⟨u, hu, hi⟩ := h
  exact ⟨u, List.mem_of_head? hu, hi⟩

/-- A result node of a tree is its root, or one of a tree below the root or below a branch. -/
theorem resultNodes_cases {n : Node} {ts : List (Tree Node)} (h : i ∈ resultNodes (.node n ts)) :
    i = n.id ∨ (∃ u ∈ ts, i ∈ resultNodes u) ∨ ∃ u ∈ ts, ∃ v ∈ u.children, i ∈ resultNodes v := by
  unfold resultNodes at h
  split at h
  · -- Operators.
    split at h
    · exact absurd h List.not_mem_nil
    · exact .inl (List.mem_singleton.1 h)
  · exact absurd h List.not_mem_nil
  · exact absurd h List.not_mem_nil
  · exact absurd h List.not_mem_nil
  · -- Blocks.
    rw [List.mem_cons, mem_liveResults] at h
    refine h.imp_right fun ⟨us, u, hts, _, hi⟩ => .inl ⟨u, ?_, hi⟩
    rw [hts]
    simp
  · -- An `if` with an else branch, and any other one.
    rw [List.mem_cons, List.mem_append] at h
    refine h.imp_right fun h => .inr ?_
    rcases h with h | h
    · exact ⟨_, by simp, exists_mem_branchResults h⟩
    · exact ⟨_, by simp, exists_mem_branchResults h⟩
  · exact absurd h List.not_mem_nil
  · -- A `when`.
    split at h
    · rw [List.mem_cons, mem_entryResults] at h
      refine h.imp_right fun ⟨e, he, _, u, hu, hi⟩ => .inr ⟨e, he, u, ?_, hi⟩
      exact List.mem_of_getLast? hu
    · exact absurd h List.not_mem_nil
  · -- Labels, annotations and parentheses.
    obtain ⟨u, hu, -, hi⟩ := mem_wrappedResults.1 h
    exact hi.imp_right fun hi => .inl ⟨u, List.mem_of_find?_eq_some hu, hi⟩
  · obtain ⟨u, hu, -, hi⟩ := mem_wrappedResults.1 h
    exact hi.imp_right fun hi => .inl ⟨u, List.mem_of_find?_eq_some hu, hi⟩
  · rw [List.mem_cons, mem_firstResults] at h
    exact h.imp_right fun ⟨u, hu, hi⟩ => .inl ⟨u, List.mem_of_head? hu, hi⟩
  · split at h
    · exact .inl (List.mem_singleton.1 h)
    · exact absurd h List.not_mem_nil

/-- The result nodes of a tree are nodes of it. -/
theorem exists_mem_walk_of_mem_resultNodes (x : Place) (h : i ∈ resultNodes x.tree) :
    ∃ y ∈ x.walk, y.id = i := by
  refine descent (P := fun x => ∀ i ∈ resultNodes x.tree, ∃ y ∈ x.walk, y.id = i)
    (fun x ih i h => ?_) x i h
  obtain ⟨⟨n, ts⟩, above⟩ := x
  have below {y : Place} (hy : y ∈ (⟨.node n ts, above⟩ : Place).descendants)
      (hi : i ∈ resultNodes y.tree) : ∃ z ∈ (⟨.node n ts, above⟩ : Place).walk, z.id = i := by
    obtain ⟨z, hz, hid⟩ := ih y hy i hi
    exact ⟨z, mem_walk_trans hz (mem_walk_of_mem_descendants (self_mem_walk _) hy), hid⟩
  rcases resultNodes_cases h with rfl | ⟨u, hu, hi⟩ | ⟨u, hu, v, hv, hi⟩
  · exact ⟨_, self_mem_walk _, rfl⟩
  · have hchild := mem_children (x := ⟨.node n ts, above⟩).2 ⟨u, hu, rfl⟩
    exact below (mem_descendants_of_mem_children hchild) hi
  · have hchild := mem_children (x := ⟨.node n ts, above⟩).2 ⟨u, hu, rfl⟩
    have hv := mem_children (x := ⟨u, .node n ts :: above⟩).2 ⟨v, hv, rfl⟩
    exact below (mem_descendants_of_mem_children_children hchild hv) hi

/-- The results of a function literal lie below it. -/
theorem exists_mem_descendants_of_mem_results {x : Place} (h : i ∈ x.results) :
    x.kind = .functionLiteral ∧ ∃ y ∈ x.descendants, y.id = i := by
  unfold results at h
  cases hbody : x.body? with
  | none => simp [hbody] at h
  | some body =>
    obtain ⟨hk, hmem, -⟩ := body?_eq_some hbody
    rw [hbody, mem_liveResults, exists_last_tree body (i ∈ resultNodes ·) (alwaysJumps · = false)]
      at h
    obtain ⟨ys, y, hchildren, -, hi⟩ := h
    obtain ⟨z, hz, hid⟩ := exists_mem_walk_of_mem_resultNodes y hi
    have hy : y ∈ body.children := by
      rw [hchildren]
      simp
    refine ⟨hk, z, ?_, hid⟩
    rw [descendants_eq_flatMap, List.mem_flatMap]
    exact ⟨body, hmem, mem_walk_trans hz (mem_walk_of_mem_children (self_mem_walk body) hy)⟩

variable {d : Document} {x y : Place}

/-- Where no two nodes share an id, a literal with a node among its results lies above this
    node. -/
theorem mem_ancestors_of_mem_results (hd : d.HasDistinctIds) (hx : x ∈ d.places)
    (hy : y ∈ d.places) (h : x.id ∈ y.results) : y ∈ x.ancestors ∧ y.kind = .functionLiteral := by
  obtain ⟨hk, z, hz, hid⟩ := exists_mem_descendants_of_mem_results h
  have hmem : z ∈ d.places := by
    have hwalk := (walk_sublist_allIn_nil hy).subset
    rw [walk_eq] at hwalk
    exact hwalk (List.mem_cons_of_mem _ hz)
  obtain rfl := hd.eq_of_id_eq hmem hx hid
  exact ⟨mem_ancestors_of_mem_descendants hz, hk⟩

end ResultHints
