import Mathlib.Logic.Relation
import ResultHints.Proofs.Flow.Step

/-!
# Paths of results

The nodes whose value is the value of a node are those that steps lead to from it
(`mem_resultNodes_iff_path`), and the results of a function literal are those that
steps lead to from its body (`mem_results_iff_path`). What lies between a node and
one that steps lead to is on the path, or a branch beside it (`between_path`); so
function literals and lambdas are never crossed (`nearest?_of_path`).
-/

namespace ResultHints

open Location Relation

variable {d : Document} {x y z : Place} {i : NodeId}

/-! ## One step -/

theorem Location.kind_of_mem_branches (h : z ∈ x.branches) :
    z.kind = .thenBranch ∨ z.kind = .elseBranch ∨ ∃ isElse, z.kind = .whenEntry isElse := by
  unfold branches at h
  split at h
  · simp only [List.mem_filter, Bool.or_eq_true, beq_iff_eq] at h
    exact h.2.imp_right .inl
  · have hentry := (List.mem_filter.1 h).2
    cases hk : z.kind with
    | whenEntry isElse => exact .inr (.inr ⟨isElse, rfl⟩)
    | _ => rw [hk] at hentry; cases hentry
  · cases h

theorem Location.mem_children_of_mem_branches (h : z ∈ x.branches) : z ∈ x.children := by
  unfold branches at h
  split at h
  · exact (List.mem_filter.1 h).1
  · exact (List.mem_filter.1 h).1
  · cases h

theorem Location.mem_children_of_content? (h : x.content? = some y) : y ∈ x.children := by
  unfold content? at h
  split at h
  · exact List.mem_of_getLast? h
  · exact List.mem_of_head? h

theorem Location.mem_children_of_wrapped? (h : x.wrapped? = some y) : y ∈ x.children := by
  unfold wrapped? at h
  split at h
  · exact List.mem_of_head? h
  · exact mem_children_of_base? h

/-- What a label, annotations or parentheses stand around is a statement, and so no block. -/
theorem Location.isStatement_of_wrapped? (hd : d.Regular) (hx : x ∈ d.nodes)
    (h : x.wrapped? = some y) : y.kind.isStatement := by
  unfold wrapped? at h
  split at h
  · next hk =>
    obtain ⟨z, hchildren, hz⟩ := hd.children_of_parenthesized hx hk
    rw [hchildren, List.head?_cons, Option.some.injEq] at h
    exact NodeKind.isStatement_of_isValue (h ▸ hz)
  · exact hd.isStatement_of_base? hx h

/-- A step leads to a child, or to what a branch evaluates. -/
theorem ResultStep.below (h : ResultStep x y) :
    y ∈ x.children ∨ ∃ b ∈ x.branches, b.content? = some y := by
  cases h with
  | last _ hchildren => exact .inl (by simp [hchildren])
  | alternative _ hy => exact .inr (mem_alternatives.1 hy)
  | wrapped hy => exact .inl (mem_children_of_wrapped? hy)

theorem ResultStep.mem_descendants (h : ResultStep x y) : y ∈ x.descendants := by
  rcases h.below with hy | ⟨b, hb, hy⟩
  · exact mem_descendants_of_mem_children hy
  · exact mem_descendants_of_mem_children_children (mem_children_of_mem_branches hb)
      (mem_children_of_content? hy)

theorem ResultStep.mem_nodes (h : ResultStep x y) (hx : x ∈ d.nodes) : y ∈ d.nodes :=
  mem_walk_of_mem_descendants hx h.mem_descendants

/-- Above the end of a step there are its beginning and what is above that one; between them there
    may be a branch. -/
theorem ResultStep.ancestors (h : ResultStep x y) : y.ancestors = x :: x.ancestors ∨
    ∃ b ∈ x.branches, b.content? = some y ∧ y.ancestors = b :: x :: x.ancestors := by
  rcases h.below with hy | ⟨b, hb, hy⟩
  · exact .inl (ancestors_of_mem_children hy)
  · refine .inr ⟨b, hb, hy, ?_⟩
    rw [ancestors_of_mem_children (mem_children_of_content? hy),
      ancestors_of_mem_children (mem_children_of_mem_branches hb)]

/-- A step leads to an expression or a statement. -/
theorem ResultStep.kind (hd : d.Regular) (hx : x ∈ d.nodes) (h : ResultStep x y) :
    y.kind.isExpression ∨ y.kind.isStatement := by
  cases h with
  | last hk hchildren =>
    have hy : y ∈ x.children := by simp [hchildren]
    have hlaid := (hk ▸ hd.follows hx).block_inv _ (List.mem_map_of_mem hy)
    rw [label_outline] at hlaid
    exact .inr hlaid
  | alternative _ hy =>
    obtain ⟨b, hb, hy⟩ := mem_alternatives.1 hy
    obtain ⟨z, hz, -, hk⟩ := exists_content hd hx hb
    rw [hy, Option.some.injEq] at hz
    exact .inl (hz ▸ hk)
  | wrapped hy => exact .inr (isStatement_of_wrapped? hd hx hy)

/-- Where a step leads to a node that yields a value, it comes from one. -/
theorem ResultStep.yields (h : ResultStep x y) (hy : y.kind.isExpression) : x.yields := by
  unfold Location.yields
  cases h with
  | last hk => rw [hk]; rfl
  | alternative hall => rw [role_of_isExhaustive hall]; exact hall
  | wrapped hw => rw [role_of_wrapped? hw]; simpa [hw] using hy

theorem Location.isExpression_of_yields (h : x.yields) : x.kind.isExpression := by
  unfold Location.yields at h
  cases hk : x.kind with
  | file | packageDirective | importDirective | function | property | parameter | typeReference
  | functionLiteral | annotationEntry | argumentList | argument | lambdaArgument | whenEntry
  | whenCondition | whenSubject | condition | thenBranch | elseBranch | loopRange | loopBody =>
    rw [hk] at h
    cases h
  | _ => rfl

/-! ## Paths -/

/-- The result nodes of a node are those that yield a value and to which steps lead. -/
theorem mem_resultNodes_iff_path (hd : d.Regular) (hx : x ∈ d.nodes) : i ∈ resultNodes x.tree ↔
    ∃ y, ReflTransGen ResultStep x y ∧ y.yields ∧ y.id = i := by
  -- A path is empty, or it goes on from a node further down, of which this is known.
  induction x using descent with
  | h x ih =>
    rw [mem_resultNodes_iff_step hd hx]
    constructor
    · rintro (⟨hyields, rfl⟩ | ⟨y, hstep, hi⟩)
      · exact ⟨x, .refl, hyields, rfl⟩
      · obtain ⟨z, hpath, hz⟩ := (ih y hstep.mem_descendants (hstep.mem_nodes hx)).1 hi
        exact ⟨z, hpath.head hstep, hz⟩
    · rintro ⟨z, hpath, hyields, rfl⟩
      rcases hpath.cases_head with rfl | ⟨y, hstep, hpath⟩
      · exact .inl ⟨hyields, rfl⟩
      · refine .inr ⟨y, hstep, ?_⟩
        exact (ih y hstep.mem_descendants (hstep.mem_nodes hx)).2 ⟨z, hpath, hyields, rfl⟩

theorem mem_nodes_of_path (h : ReflTransGen ResultStep x y) (hx : x ∈ d.nodes) : y ∈ d.nodes := by
  induction h with
  | refl => exact hx
  | tail _ hstep ih => exact hstep.mem_nodes ih

/-- Every node on the way to one that yields a value yields one too. -/
theorem yields_of_path (h : ReflTransGen ResultStep x y) (hy : y.yields) : x.yields := by
  induction h using ReflTransGen.head_induction_on with
  | refl => exact hy
  | head hstep _ ih => exact hstep.yields (isExpression_of_yields ih)

/-- The block of a function literal. -/
theorem Location.body?_eq_some (h : x.body? = some y) :
    x.kind = .functionLiteral ∧ y ∈ x.children ∧ y.kind = .block := by
  unfold body? at h
  split at h
  · next hk =>
    exact ⟨hk, List.mem_of_find?_eq_some h, by simpa using List.find?_some h⟩
  · cases h

/-- The results of a function literal are the nodes that yield a value and to which steps lead from
    its body. -/
theorem mem_results_iff_path (hd : d.Regular) (hx : x ∈ d.nodes) : i ∈ x.results ↔
    ∃ body, x.body? = some body ∧ ∃ y, TransGen ResultStep body y ∧ y.yields ∧ y.id = i := by
  unfold results
  cases hbody : x.body? with
  | none => simp
  | some body =>
    obtain ⟨-, hmem, hk⟩ := body?_eq_some hbody
    have hnode := mem_walk_of_mem_children hx hmem
    simp only [Option.some.injEq, exists_eq_left', mem_liveResults]
    rw [exists_last_tree body (i ∈ resultNodes ·) (alwaysJumps · = false)]
    constructor
    · rintro ⟨ys, y, hchildren, hys, hi⟩
      have hstep : ResultStep body y := .last hk hchildren hys
      obtain ⟨z, hpath, hz⟩ := (mem_resultNodes_iff_path hd (hstep.mem_nodes hnode)).1 hi
      exact ⟨z, TransGen.head' hstep hpath, hz⟩
    · rintro ⟨z, hpath, hz⟩
      obtain ⟨y, hstep, hpath⟩ := TransGen.head'_iff.1 hpath
      have hi := (mem_resultNodes_iff_path hd (hstep.mem_nodes hnode)).2 ⟨z, hpath, hz⟩
      obtain ⟨ys, hchildren, hys⟩ := hstep.last_inv (by rw [hk]; rfl)
      exact ⟨ys, y, hchildren, hys, hi⟩

/-- The same for a node that is known by its id. -/
theorem mem_results_iff (hd : d.Regular) (hx : x ∈ d.nodes) (hy : y ∈ d.nodes) : y.id ∈ x.results ↔
    ∃ body, x.body? = some body ∧ TransGen ResultStep body y ∧ y.yields := by
  rw [mem_results_iff_path hd hx]
  refine exists_congr fun body => and_congr_right fun hbody => ?_
  have hnode := mem_walk_of_mem_children hx (body?_eq_some hbody).2.1
  constructor
  · rintro ⟨z, hpath, hyields, hi⟩
    obtain rfl := hd.eq_of_id_eq (mem_nodes_of_path hpath.to_reflTransGen hnode) hy hi
    exact ⟨hpath, hyields⟩
  · rintro ⟨hpath, hyields⟩
    exact ⟨y, hpath, hyields, rfl⟩

/-! ## What lies between -/

theorem ancestors_subset_of_path (h : ReflTransGen ResultStep x y) : x.ancestors ⊆ y.ancestors := by
  induction h with
  | refl => exact List.Subset.refl _
  | tail _ hstep ih =>
    intro z hz
    rcases hstep.ancestors with h | ⟨b, -, -, h⟩ <;> simp [h, ih hz]

theorem mem_ancestors_of_path (h : TransGen ResultStep x y) : x ∈ y.ancestors := by
  obtain ⟨z, hstep, hpath⟩ := TransGen.head'_iff.1 h
  refine ancestors_subset_of_path hpath ?_
  rcases hstep.ancestors with h | ⟨b, -, -, h⟩ <;> simp [h]

/-- What lies above the end of a path and not above its beginning is on the path, or it is a branch
    of a node on the path. -/
theorem between_path (h : ReflTransGen ResultStep x y) (hz : z ∈ y.ancestors) : z ∈ x.ancestors ∨
    (ReflTransGen ResultStep x z ∧ TransGen ResultStep z y) ∨
    ∃ w v, ReflTransGen ResultStep x w ∧ z ∈ w.branches ∧ z.content? = some v ∧ ResultStep w v ∧
      ReflTransGen ResultStep v y := by
  induction h with
  | refl => exact .inl hz
  | @tail w y hpath hstep ih =>
    -- The last step adds its beginning, and perhaps a branch; the rest was there before it.
    have hcases : z = w ∨ z ∈ w.ancestors ∨ (z ∈ w.branches ∧ z.content? = some y) := by
      rcases hstep.ancestors with h | ⟨b, hb, hy, h⟩
      · rw [h, List.mem_cons] at hz
        exact hz.imp_right .inl
      · rw [h, List.mem_cons, List.mem_cons] at hz
        rcases hz with rfl | rfl | hz
        · exact .inr (.inr ⟨hb, hy⟩)
        · exact .inl rfl
        · exact .inr (.inl hz)
    rcases hcases with rfl | hz | ⟨hz, hy⟩
    · exact .inr (.inl ⟨hpath, .single hstep⟩)
    · rcases ih hz with hz | ⟨hpath, hrest⟩ | ⟨u, v, hpath, hz, hv, hstep', hrest⟩
      · exact .inl hz
      · exact .inr (.inl ⟨hpath, hrest.tail hstep⟩)
      · exact .inr (.inr ⟨u, v, hpath, hz, hv, hstep', hrest.tail hstep⟩)
    · exact .inr (.inr ⟨w, y, hpath, hz, hy, hstep, .refl⟩)

/-- The nearest ancestor of some sort is the same at both ends of a step, if neither the beginning
    nor its branches are of that sort. -/
theorem ResultStep.nearest? {p : Node → Bool} (h : ResultStep x y) (hx : p x.label = false)
    (hb : ∀ b ∈ x.branches, p b.label = false) : y.nearest? p = x.nearest? p := by
  rcases h.ancestors with hy | ⟨b, hmem, -, hy⟩
  · rw [Location.nearest?, hy, List.find?_cons, hx]
    rfl
  · rw [Location.nearest?, hy, List.find?_cons, hb b hmem, List.find?_cons, hx]
    rfl

/-- Paths do not lead through function literals or lambdas. -/
theorem nearest?_of_path {k : NodeKind} (hk : k = .functionLiteral ∨ k = .lambda)
    (h : ReflTransGen ResultStep x y) :
    y.nearest? (fun n => n.kind == k) = x.nearest? fun n => n.kind == k := by
  induction h with
  | refl => rfl
  | @tail w y _ hstep ih =>
    rw [hstep.nearest?, ih]
    · -- What has a step is no literal and no lambda.
      rw [beq_eq_false_iff_ne]
      intro hw
      have hrole := hstep.role
      change w.kind = k at hw
      rw [hw] at hrole
      rcases hk with rfl | rfl <;> simp [NodeKind.role] at hrole
    · intro b hb
      rw [beq_eq_false_iff_ne]
      intro hbk
      change b.kind = k at hbk
      rcases kind_of_mem_branches hb with h | h | ⟨isElse, h⟩ <;> rw [hbk] at h <;>
        rcases hk with rfl | rfl <;> cases h

/-- The nearest function literal around a result is the one that has it among its results, and the
    nearest lambda is the one with this literal. -/
theorem nearest?_of_mem_results (hd : d.Regular) (hx : x ∈ d.nodes) (hy : y ∈ d.nodes)
    (h : x.id ∈ y.results) : x.nearest? (fun n => n.kind == .functionLiteral) = some y ∧
      ∃ z ∈ d.nodes, z.kind = .lambda ∧ y ∈ z.children ∧
        x.nearest? (fun n => n.kind == .lambda) = some z := by
  obtain ⟨body, hbody, hpath, -⟩ := (mem_results_iff hd hy hx).1 h
  obtain ⟨hk, hmem, -⟩ := body?_eq_some hbody
  obtain ⟨z, hz, hyz⟩ := hd.exists_parent hy (by rw [hk]; nofun)
  obtain ⟨hlambda, -⟩ := hd.lambda_of_functionLiteral hz hyz hk
  refine ⟨?_, z, hz, hlambda, hyz, ?_⟩
  · rw [nearest?_of_path (.inl rfl) hpath.to_reflTransGen, nearest?_of_mem_children hmem]
    exact if_pos (beq_iff_eq.2 hk)
  · have hy' : ¬(y.kind == .lambda) = true := by rw [hk]; nofun
    rw [nearest?_of_path (.inr rfl) hpath.to_reflTransGen, nearest?_of_mem_children hmem]
    rw [nearest?_of_mem_children hyz]
    exact (if_neg hy').trans (if_pos (beq_iff_eq.2 hlambda))

end ResultHints
