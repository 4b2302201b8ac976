import ResultHints.Proofs.Flow.Role

/-!
# Steps from a node to where its value comes from

A node whose value is that of another one further down: a block and its last
statement, an `if` or `when` and what its branches evaluate, a label, annotations
or parentheses and what is inside (`ResultStep`). Main statement:

- `mem_resultNodes_iff_step`: the result nodes of a node are the node, if it yields
  a value, and the result nodes of the nodes one step further.
-/

namespace ResultHints

/-- The value of a node is that of a node further down. -/
inductive ResultStep (x y : Place) : Prop
  /-- The last statement of a block, if no earlier one always jumps. -/
  | last {xs : List Place} : x.kind = .block → x.children = xs ++ [y] →
    (∀ z ∈ xs, alwaysJumps z.tree = false) → ResultStep x y
  /-- What a branch of an `if` with an else branch evaluates, or an entry of a `when` with an
      else entry. -/
  | alternative : x.isExhaustive → y ∈ x.alternatives → ResultStep x y
  /-- What a label, annotations or parentheses stand around. -/
  | wrapped : x.wrapped? = some y → ResultStep x y

/-! ## Results in lists of trees -/

section Lists

variable {i : NodeId} {t : Tree Node} {ts : List (Tree Node)}

theorem mem_liveResults : i ∈ liveResults ts ↔ ∃ us u, ts = us ++ [u] ∧
    (∀ v ∈ us, alwaysJumps v = false) ∧ i ∈ resultNodes u := by
  induction ts with
  | nil => simp [liveResults]
  | cons t ts ih =>
    cases ts with
    | nil =>
      rw [liveResults]
      constructor
      · intro h
        exact ⟨[], t, rfl, by simp, h⟩
      · rintro ⟨us, u, heq, -, h⟩
        obtain ⟨-, rfl⟩ : us = [] ∧ t = u := by
          cases us <;> simp_all
        exact h
    | cons w ws =>
      rw [liveResults]
      · cases hjump : alwaysJumps t
        · rw [if_neg (by simp), ih]
          constructor
          · rintro ⟨us, u, heq, hus, h⟩
            exact ⟨t :: us, u, by rw [heq]; rfl, by simpa [hjump] using hus, h⟩
          · rintro ⟨us, u, heq, hus, h⟩
            cases us with
            | nil => cases heq
            | cons v us =>
              obtain ⟨-, heq⟩ := List.cons.inj heq
              exact ⟨us, u, heq, fun v hv => hus v (by simp [hv]), h⟩
        · -- What comes after a statement that always jumps is dead.
          rw [if_pos rfl]
          constructor
          · intro h
            exact absurd h List.not_mem_nil
          · rintro ⟨us, u, heq, hus, -⟩
            cases us with
            | nil => cases heq
            | cons v us =>
              obtain ⟨rfl, -⟩ := List.cons.inj heq
              exact absurd hjump (by simp [hus t])
      · nofun

theorem mem_firstResults : i ∈ firstResults ts ↔ ∃ u, ts.head? = some u ∧ i ∈ resultNodes u := by
  cases ts <;> simp [firstResults]

theorem mem_lastResults : i ∈ lastResults ts ↔ ∃ u, ts.getLast? = some u ∧ i ∈ resultNodes u := by
  induction ts with
  | nil => simp [lastResults]
  | cons t ts ih =>
    cases ts with
    | nil => simp [lastResults]
    | cons u us => rw [lastResults, ih, List.getLast?_cons_cons]; nofun

theorem mem_entryResults : i ∈ entryResults ts ↔ ∃ e ∈ ts, e.label.kind.isWhenEntry ∧
    ∃ u, e.children.getLast? = some u ∧ i ∈ resultNodes u := by
  induction ts with
  | nil => simp [entryResults]
  | cons t ts ih =>
    obtain ⟨n, cs⟩ := t
    rw [entryResults, List.mem_append, ih, List.exists_mem_cons_iff]
    refine or_congr_left ?_
    cases hk : n.kind.isWhenEntry <;> simp [hk, mem_lastResults]

theorem mem_wrappedResults {p : NodeKind → Bool} {id : NodeId} : i ∈ wrappedResults p id ts ↔
    ∃ u, ts.find? (fun t => p t.label.kind) = some u ∧ u.label.kind.isExpression ∧
      (i = id ∨ i ∈ resultNodes u) := by
  induction ts with
  | nil => simp [wrappedResults]
  | cons t ts ih =>
    rw [wrappedResults, List.find?_cons]
    cases p t.label.kind
    · exact ih
    · cases hk : t.label.kind.isExpression <;> simp [hk]

/-- What is no expression has no result nodes. -/
theorem resultNodes_eq_nil (h : t.label.kind.isExpression = false) : resultNodes t = [] := by
  obtain ⟨⟨⟨k, span⟩, id⟩, ts⟩ := t
  change k.isExpression = false at h
  cases k <;> first | rfl | cases h

end Lists

/-! ## Results by role -/

namespace Location

variable {x y : Place} {i : NodeId}

section Lifts

variable (x : Place) (P : Tree Node → Prop)

theorem exists_head?_tree : (∃ t, x.tree.children.head? = some t ∧ P t) ↔
    ∃ y, x.children.head? = some y ∧ P y.tree := by
  rw [← map_tree_children, List.head?_map]
  simp [Option.map_eq_some_iff]

theorem exists_getLast?_tree : (∃ t, x.tree.children.getLast? = some t ∧ P t) ↔
    ∃ y, x.children.getLast? = some y ∧ P y.tree := by
  rw [← map_tree_children, List.getLast?_map]
  simp [Option.map_eq_some_iff]

theorem exists_find?_tree (q : Tree Node → Bool) :
    (∃ t, x.tree.children.find? q = some t ∧ P t) ↔
      ∃ y, x.children.find? (fun y => q y.tree) = some y ∧ P y.tree := by
  rw [← map_tree_children, List.find?_map]
  simp only [Option.map_eq_some_iff]
  constructor
  · rintro ⟨_, ⟨y, hy, rfl⟩, h⟩
    exact ⟨y, hy, h⟩
  · rintro ⟨y, hy, h⟩
    exact ⟨_, ⟨y, hy, rfl⟩, h⟩

theorem exists_mem_tree : (∃ t ∈ x.tree.children, P t) ↔ ∃ y ∈ x.children, P y.tree := by
  rw [← map_tree_children]
  simp

theorem exists_last_tree (Q : Tree Node → Prop) :
    (∃ us u, x.tree.children = us ++ [u] ∧ (∀ v ∈ us, Q v) ∧ P u) ↔
      ∃ ys y, x.children = ys ++ [y] ∧ (∀ z ∈ ys, Q z.tree) ∧ P y.tree := by
  constructor
  · rintro ⟨us, u, htree, hus, h⟩
    rw [← map_tree_children] at htree
    obtain ⟨ys, zs, hchildren, rfl, hzs⟩ := List.map_eq_append_iff.1 htree
    obtain ⟨y, rfl, rfl⟩ := List.map_eq_singleton_iff.1 hzs
    exact ⟨ys, y, hchildren, fun z hz => hus _ (List.mem_map_of_mem hz), h⟩
  · rintro ⟨ys, y, heq, hys, h⟩
    refine ⟨ys.map tree, y.tree, ?_, by simpa using hys, h⟩
    rw [← map_tree_children, heq, List.map_append]
    rfl

end Lifts

theorem mem_resultNodes_of_sequence (h : x.kind.role = .sequence) : i ∈ resultNodes x.tree ↔
    i = x.id ∨ ∃ ys y, x.children = ys ++ [y] ∧ (∀ z ∈ ys, alwaysJumps z.tree = false) ∧
      i ∈ resultNodes y.tree := by
  have hk := NodeKind.eq_block_of_role h
  have hlast := exists_last_tree x (i ∈ resultNodes ·) (alwaysJumps · = false)
  obtain ⟨⟨⟨⟨k, span⟩, id⟩, ts⟩, above⟩ := x
  obtain rfl : k = .block := hk
  exact List.mem_cons.trans (or_congr_right (mem_liveResults.trans hlast))

theorem mem_resultNodes_of_value (h : x.kind.role = .value) :
    i ∈ resultNodes x.tree ↔ i = x.id := by
  obtain ⟨⟨⟨⟨k, span⟩, id⟩, ts⟩, above⟩ := x
  change k.role = .value at h
  cases k with
  | binary op =>
    have hop : op.isAssignment = false := by cases op <;> first | rfl | cases h
    simp only [resultNodes, hop]
    exact List.mem_singleton
  | lambda | call | nameReference | qualified | arrayAccess | leading | trailing | typeTest
  | cast | literal | this => exact List.mem_singleton
  | _ => cases h

theorem resultNodes_of_nothing (h : x.kind.role = .jump ∨ x.kind.role = .branch ∨
    x.kind.role = .nothing) : resultNodes x.tree = [] := by
  obtain ⟨⟨⟨⟨k, span⟩, id⟩, ts⟩, above⟩ := x
  change k.role = .jump ∨ k.role = .branch ∨ k.role = .nothing at h
  cases k with
  | binary op =>
    have hop : op.isAssignment = true := by
      cases op <;> first | rfl | simp [NodeKind.role, BinaryOperator.isAssignment] at h
    simp only [resultNodes, hop, if_true]
  | block | ifElse | when_ | labeled | annotated | parenthesized | lambda | call | nameReference
  | qualified | arrayAccess | leading | trailing | typeTest | cast | literal | this =>
    simp [NodeKind.role] at h
  | _ => rfl

theorem mem_resultNodes_of_labeled {label : String} (hk : x.kind = .labeled label) :
    i ∈ resultNodes x.tree ↔ ∃ y, x.children.head? = some y ∧ y.kind.isExpression ∧
      (i = x.id ∨ i ∈ resultNodes y.tree) := by
  have hhead := exists_head?_tree x fun t =>
    t.label.kind.isExpression ∧ (i = x.id ∨ i ∈ resultNodes t)
  obtain ⟨⟨⟨⟨k, span⟩, id⟩, ts⟩, above⟩ := x
  obtain rfl : k = .labeled label := hk
  have hfirst : ts.find? (fun _ => true) = ts.head? := by cases ts <;> rfl
  refine Iff.trans ?_ hhead
  change _ ↔ ∃ t, ts.head? = some t ∧ _
  rw [← hfirst]
  exact mem_wrappedResults

theorem mem_resultNodes_of_annotated (hk : x.kind = .annotated) :
    i ∈ resultNodes x.tree ↔ ∃ y, x.children.find? (fun y => !y.kind.isAnnotationEntry) = some y ∧
      y.kind.isExpression ∧ (i = x.id ∨ i ∈ resultNodes y.tree) := by
  have hfind := exists_find?_tree x (fun t =>
    t.label.kind.isExpression ∧ (i = x.id ∨ i ∈ resultNodes t)) fun t =>
      !t.label.kind.isAnnotationEntry
  obtain ⟨⟨⟨⟨k, span⟩, id⟩, ts⟩, above⟩ := x
  obtain rfl : k = .annotated := hk
  exact mem_wrappedResults.trans hfind

theorem mem_resultNodes_of_parenthesized (hk : x.kind = .parenthesized) :
    i ∈ resultNodes x.tree ↔ i = x.id ∨ ∃ y, x.children.head? = some y ∧
      i ∈ resultNodes y.tree := by
  have hhead := exists_head?_tree x (i ∈ resultNodes ·)
  obtain ⟨⟨⟨⟨k, span⟩, id⟩, ts⟩, above⟩ := x
  obtain rfl : k = .parenthesized := hk
  exact List.mem_cons.trans (or_congr_right (mem_firstResults.trans hhead))

theorem mem_resultNodes_of_when (hk : x.kind = .when_) : i ∈ resultNodes x.tree ↔
    x.isExhaustive ∧ (i = x.id ∨ ∃ e ∈ x.children, e.kind.isWhenEntry ∧
      ∃ y, e.children.getLast? = some y ∧ i ∈ resultNodes y.tree) := by
  have hany := any_children x fun t => t.label.kind == .whenEntry true
  have hmem := exists_mem_tree x fun t => t.label.kind.isWhenEntry ∧
    ∃ u, t.children.getLast? = some u ∧ i ∈ resultNodes u
  simp only [exists_getLast?_tree] at hmem
  have hexhaustive :
      x.isExhaustive = x.tree.children.any fun t => t.label.kind == .whenEntry true := by
    rw [isExhaustive, hk, ← hany]
    rfl
  rw [hexhaustive]
  obtain ⟨⟨⟨⟨k, span⟩, id⟩, ts⟩, above⟩ := x
  obtain rfl : k = .when_ := hk
  change i ∈ (if ts.any _ then id :: entryResults ts else []) ↔ ts.any _ = true ∧ _
  cases ts.any fun t => t.label.kind == .whenEntry true
  · simp
  · simp only [if_true, true_and]
    exact List.mem_cons.trans (or_congr_right (mem_entryResults.trans hmem))

/-- The results of a branch are those of what it evaluates. -/
theorem mem_branchResults (hk : x.kind = .thenBranch ∨ x.kind = .elseBranch) :
    i ∈ branchResults x.tree ↔ ∃ y, x.content? = some y ∧ i ∈ resultNodes y.tree := by
  have hhead := exists_head?_tree x (i ∈ resultNodes ·)
  have hentry : x.kind.isWhenEntry = false := by rcases hk with hk | hk <;> rw [hk] <;> rfl
  rw [content?, if_neg (by simp [hentry]), ← hhead]
  obtain ⟨⟨n, ts⟩, above⟩ := x
  exact mem_firstResults

/-- The tree of a place by its parts. -/
theorem tree_eq_node (x : Place) :
    x.tree = .node ⟨⟨x.kind, x.span⟩, x.id⟩ (x.children.map tree) := by
  rw [map_tree_children]
  obtain ⟨⟨a, ts⟩, above⟩ := x
  rfl

theorem resultNodes_of_ifElse {c t e : Place} (hk : x.kind = .ifElse)
    (hchildren : x.children = [c, t, e]) :
    resultNodes x.tree = x.id :: (branchResults t.tree ++ branchResults e.tree) := by
  rw [tree_eq_node x, hk, hchildren]
  rfl

/-- Without an else branch there are no results. -/
theorem resultNodes_of_if {c t : Place} (hk : x.kind = .ifElse) (hchildren : x.children = [c, t]) :
    resultNodes x.tree = [] := by
  rw [tree_eq_node x, hk, hchildren]
  rfl

theorem mem_resultNodes_of_ifElse {d : Document} (hd : d.Regular) (hx : x ∈ d.nodes)
    (hk : x.kind = .ifElse) : i ∈ resultNodes x.tree ↔
    x.isExhaustive ∧ (i = x.id ∨ ∃ y ∈ x.alternatives, i ∈ resultNodes y.tree) := by
  obtain ⟨c, t, hc, ht, hchildren⟩ := hd.children_of_ifElse hx hk
  have hbranches := branches_of_ifElse hk
  have hexhaustive : x.isExhaustive = x.children.any fun b => b.kind == .elseBranch := by
    rw [isExhaustive, hk]
  simp only [mem_alternatives, hbranches, hexhaustive]
  rcases hchildren with hchildren | ⟨e, he, hchildren⟩
  · simp [resultNodes_of_if hk hchildren, hchildren, hc, ht]
  · have halternatives : (∃ y, (∃ b ∈ [t, e], b.content? = some y) ∧ i ∈ resultNodes y.tree) ↔
        i ∈ branchResults t.tree ∨ i ∈ branchResults e.tree := by
      rw [mem_branchResults (.inl ht), mem_branchResults (.inr he)]
      constructor
      · rintro ⟨y, ⟨b, hb, hy⟩, hi⟩
        rcases List.mem_pair.1 hb with rfl | rfl
        · exact .inl ⟨y, hy, hi⟩
        · exact .inr ⟨y, hy, hi⟩
      · rintro (⟨y, hy, hi⟩ | ⟨y, hy, hi⟩)
        · exact ⟨y, ⟨t, by simp, hy⟩, hi⟩
        · exact ⟨y, ⟨e, by simp, hy⟩, hi⟩
    have hfilter : x.children.filter (fun b => b.kind == .thenBranch || b.kind == .elseBranch) =
        [t, e] := by
      simp [hchildren, hc, ht, he]
    rw [hfilter, resultNodes_of_ifElse hk hchildren, List.mem_cons, List.mem_append,
      ← halternatives]
    simp [hchildren, he]

theorem mem_resultNodes_of_choice {d : Document} (hd : d.Regular) (hx : x ∈ d.nodes)
    (h : x.kind.role = .choice) : i ∈ resultNodes x.tree ↔
    x.isExhaustive ∧ (i = x.id ∨ ∃ y ∈ x.alternatives, i ∈ resultNodes y.tree) := by
  rcases NodeKind.ifElse_or_when_of_role h with hk | hk
  · exact mem_resultNodes_of_ifElse hd hx hk
  · rw [mem_resultNodes_of_when hk]
    refine and_congr_right fun _ => or_congr_right ?_
    simp only [mem_alternatives, branches_of_when hk, List.mem_filter]
    constructor
    · rintro ⟨e, he, hentry, y, hy, hi⟩
      exact ⟨y, ⟨e, ⟨he, hentry⟩, by rw [content?, if_pos hentry, hy]⟩, hi⟩
    · rintro ⟨y, ⟨e, ⟨he, hentry⟩, hy⟩, hi⟩
      rw [content?, if_pos hentry] at hy
      exact ⟨e, he, hentry, y, hy, hi⟩

theorem mem_resultNodes_of_wrapper {d : Document} (hd : d.Regular) (hx : x ∈ d.nodes)
    (h : x.kind.role = .wrapper) : i ∈ resultNodes x.tree ↔
    ∃ y, x.wrapped? = some y ∧ y.kind.isExpression ∧ (i = x.id ∨ i ∈ resultNodes y.tree) := by
  rw [wrapped?]
  rcases NodeKind.wrapper_of_role h with ⟨label, hk⟩ | hk | hk
  · rw [mem_resultNodes_of_labeled hk, if_neg (by simp [hk]), base?, hk]
  · rw [mem_resultNodes_of_annotated hk, if_neg (by simp [hk]), base?, hk]
  · rw [mem_resultNodes_of_parenthesized hk, if_pos hk]
    -- What is in parentheses is an expression, so that their own value is one too.
    obtain ⟨y, hchildren, hy⟩ := hd.children_of_parenthesized hx hk
    simp [hchildren, NodeKind.isExpression_of_isValue hy]

end Location

/-! ## Steps -/

variable {d : Document} {x y : Place} {i : NodeId}

theorem ResultStep.role (h : ResultStep x y) :
    x.kind.role = .sequence ∨ x.kind.role = .choice ∨ x.kind.role = .wrapper := by
  cases h with
  | last hk => exact .inl (by rw [hk]; rfl)
  | alternative h => exact .inr (.inl (Location.role_of_isExhaustive h))
  | wrapped h => exact .inr (.inr (Location.role_of_wrapped? h))

/-- From a block there is one step, to its last statement. -/
theorem ResultStep.last_inv (h : ResultStep x y) (hrole : x.kind.role = .sequence) :
    ∃ xs, x.children = xs ++ [y] ∧ ∀ z ∈ xs, alwaysJumps z.tree = false := by
  cases h with
  | last _ hchildren hxs => exact ⟨_, hchildren, hxs⟩
  | alternative hall => exact absurd (hrole.symm.trans (Location.role_of_isExhaustive hall)) nofun
  | wrapped hw => exact absurd (hrole.symm.trans (Location.role_of_wrapped? hw)) nofun

/-- From an `if` or a `when` the steps lead to what its branches evaluate. -/
theorem ResultStep.alternative_inv (h : ResultStep x y) (hrole : x.kind.role = .choice) :
    x.isExhaustive ∧ y ∈ x.alternatives := by
  cases h with
  | last hk =>
    rw [hk] at hrole
    cases hrole
  | alternative hall hy => exact ⟨hall, hy⟩
  | wrapped hw => exact absurd (hrole.symm.trans (Location.role_of_wrapped? hw)) nofun

/-- From a label, annotations or parentheses there is one step, to what is inside. -/
theorem ResultStep.wrapped_inv (h : ResultStep x y) (hrole : x.kind.role = .wrapper) :
    x.wrapped? = some y := by
  cases h with
  | last hk =>
    rw [hk] at hrole
    cases hrole
  | alternative hall => exact absurd (hrole.symm.trans (Location.role_of_isExhaustive hall)) nofun
  | wrapped hw => exact hw

/-- The result nodes of a node are the node itself, if it yields a value, and those of the nodes
    one step further. -/
theorem mem_resultNodes_iff_step (hd : d.Regular) (hx : x ∈ d.nodes) : i ∈ resultNodes x.tree ↔
    (x.yields ∧ i = x.id) ∨ ∃ y, ResultStep x y ∧ i ∈ resultNodes y.tree := by
  -- Only three roles have steps; of the others the right side is about the node itself.
  have hno : (¬∃ y, ResultStep x y ∧ i ∈ resultNodes y.tree) ∨ x.kind.role = .sequence ∨
      x.kind.role = .choice ∨ x.kind.role = .wrapper :=
    (Classical.em _).symm.imp_right fun ⟨y, h, _⟩ => h.role
  unfold Location.yields
  cases hrole : x.kind.role with
  | value =>
    rw [Location.mem_resultNodes_of_value hrole]
    simp only [hrole, reduceCtorEq, or_false] at hno
    simp [hno]
  | jump | branch | nothing =>
    rw [Location.resultNodes_of_nothing (by simp [hrole])]
    simp only [hrole, reduceCtorEq, or_false] at hno
    simp [hno]
  | sequence =>
    have hk := NodeKind.eq_block_of_role hrole
    rw [Location.mem_resultNodes_of_sequence hrole]
    simp only [true_and]
    refine or_congr_right ⟨?_, ?_⟩
    · rintro ⟨ys, y, hchildren, hys, hi⟩
      exact ⟨y, .last hk hchildren hys, hi⟩
    · rintro ⟨y, hstep, hi⟩
      obtain ⟨ys, hchildren, hys⟩ := hstep.last_inv hrole
      exact ⟨ys, y, hchildren, hys, hi⟩
  | choice =>
    rw [Location.mem_resultNodes_of_choice hd hx hrole]
    constructor
    · rintro ⟨hall, rfl | ⟨y, hy, hi⟩⟩
      · exact .inl ⟨hall, rfl⟩
      · exact .inr ⟨y, .alternative hall hy, hi⟩
    · rintro (⟨hall, rfl⟩ | ⟨y, hstep, hi⟩)
      · exact ⟨hall, .inl rfl⟩
      · obtain ⟨hall, hy⟩ := hstep.alternative_inv hrole
        exact ⟨hall, .inr ⟨y, hy, hi⟩⟩
  | wrapper =>
    rw [Location.mem_resultNodes_of_wrapper hd hx hrole]
    constructor
    · rintro ⟨y, hy, hexpression, rfl | hi⟩
      · exact .inl ⟨by simp [hy, hexpression], rfl⟩
      · exact .inr ⟨y, .wrapped hy, hi⟩
    · rintro (⟨hall, rfl⟩ | ⟨y, hstep, hi⟩)
      · cases hy : x.wrapped? with
        | none => simp [hy] at hall
        | some y => exact ⟨y, rfl, by simpa [hy] using hall, .inl rfl⟩
      · have hy := hstep.wrapped_inv hrole
        -- What is no expression has no result nodes, so the step leads to one.
        cases hexpression : y.kind.isExpression with
        | true => exact ⟨y, hy, hexpression, .inr hi⟩
        | false =>
          rw [resultNodes_eq_nil hexpression] at hi
          cases hi

end ResultHints
