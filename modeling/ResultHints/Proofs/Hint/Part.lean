import ResultHints.Proofs.Document.Part
import ResultHints.Proofs.Flow.Relabel
import ResultHints.Proofs.Hint.Range
import ResultHints.Settings

/-!
# Hints in a part of a document

Whether a node has a hint, and which one, is told by what is below it and above it. So the
nodes of a part of a document have the hints there that they have in the document of the
part, as far behind as the part is. Main statement:

- `Part.ownHint?_inside`: the hint of a node is that of the node in its place.
-/

namespace ResultHints

open Location

/-- The hint where nodes have other labels: at another place, about the lambda with another id. -/
def Hint.relabel (f : Relabeling) (h : Hint) : Hint :=
  ⟨h.display, f.place h.anchor, f.number h.scope⟩

namespace Document

variable {f : Relabeling} {d' d : Document} {mode : ResolveMode} {x y : Place}

/-! ## Ways down -/

theorem find?_children_inside {p : NodeKind → Bool}
    (hp : ∀ s s', p (.typeReference s) = p (.typeReference s')) (hx : x.above ≠ []) :
    (d.inside f x).children.find? (fun y => p y.kind) =
      (x.children.find? fun y => p y.kind).map (d.inside f) := by
  rw [children_inside hx, List.find?_map]
  exact congrArg _ (List.find?_congr fun y hy =>
    apply_kind_inside_of_above hp (Location.above_ne_nil hy))

theorem base?_inside (hx : x.above ≠ []) :
    (d.inside f x).base? = x.base?.map (d.inside f) := by
  unfold base?
  obtain hk | ⟨s, s', hk, hk'⟩ := kind_inside_of_above (f := f) (d := d) hx
  · rw [hk]
    split
    · rw [children_inside hx, List.head?_map]
    · exact find?_children_inside (p := fun k => !k.isAnnotationEntry) (fun _ _ => rfl) hx
    · rfl
  · rw [hk, hk']
    rfl

theorem body?_inside (hx : x.above ≠ []) :
    (d.inside f x).body? = x.body?.map (d.inside f) := by
  unfold body?
  rw [apply_ite (Option.map _)]
  exact if_congr (kind_inside_eq_iff (by simp) hx)
    (find?_children_inside (p := (· == .block)) (fun _ _ => rfl) hx) rfl

theorem map_id_statements_inside (hx : x.above ≠ []) :
    (d.inside f x).statements.map Location.id =
      (x.statements.map Location.id).map f.number := by
  unfold Location.statements
  rw [apply_ite (List.map _), apply_ite (List.map _), apply_ite (List.map _)]
  refine if_congr (kind_inside_eq_iff (by simp) hx) ?_ rfl
  rw [children_inside hx, List.map_map, List.map_map]
  exact List.map_congr_left fun y hy => id_inside (Location.above_ne_nil hy)

theorem results_inside (hx : x.above ≠ []) :
    (d.inside f x).results = x.results.map f.number := by
  unfold results
  rw [body?_inside hx]
  cases hbody : x.body? with
  | none => rfl
  | some body =>
    have hbelow := Location.above_ne_nil (body?_eq_some hbody).2.1
    rw [Option.map_some]
    dsimp only
    rw [inside, tree_graft hbelow, Tree.children_map, ← Tree.mapAll_eq_map]
    exact liveResults_mapAll f _

/-! ## Labels -/

-- The induction is on the tree; below a node that is not at the top, all places are grafted alike.
mutual
theorem unwrapped?_inside (u : Tree Node) (us : List (Tree Node)) (t : Tree Node) :
    unwrapped? ((d.inside f ⟨u, us⟩).tree :: (d.inside f ⟨u, us⟩).above) (t.map f.node) =
      (unwrapped? (u :: us) t).map (d.inside f) := by
  obtain ⟨n, ts⟩ := t
  rw [Tree.map, unwrapped?.eq_def, unwrapped?.eq_def (u :: us)]
  dsimp only
  obtain hk | ⟨s, s', hk, hk'⟩ := f.kind_node n
  swap
  · rw [hk, hk']
    rfl
  rw [hk]
  cases n.kind with
  | labeled => exact unwrappedFirst?_inside _ (fun _ _ => rfl) (.node n ts) (u :: us) ts
  | annotated => exact unwrappedFirst?_inside _ (fun _ _ => rfl) (.node n ts) (u :: us) ts
  | _ => rfl

theorem unwrappedFirst?_inside (p : NodeKind → Bool)
    (hp : ∀ s s', p (.typeReference s) = p (.typeReference s')) (u : Tree Node)
    (us ts : List (Tree Node)) :
    unwrappedFirst? p ((d.inside f ⟨u, us⟩).tree :: (d.inside f ⟨u, us⟩).above)
        (Tree.mapAll f.node ts) =
      (unwrappedFirst? p (u :: us) ts).map (d.inside f) := by
  match ts with
  | [] => rfl
  | t :: ts =>
    rw [Tree.mapAll, unwrappedFirst?, unwrappedFirst?, unwrapped?_inside u us t,
      unwrappedFirst?_inside p hp u us ts, Tree.label_map, f.apply_kind hp,
      apply_ite (Option.map _)]
end

theorem passedLambda?_inside (hx : x.above ≠ []) :
    (d.inside f x).passedLambda? = x.passedLambda?.map (d.inside f) := by
  unfold passedLambda?
  have htree : (d.inside f x).tree.children = Tree.mapAll f.node x.tree.children := by
    rw [inside, tree_graft hx, Tree.children_map, Tree.mapAll_eq_map]
  rw [htree, apply_ite (Option.map _)]
  exact if_congr (kind_inside_eq_iff (by simp) hx)
    (unwrappedFirst?_inside _ (fun _ _ => rfl) x.tree x.above _) rfl

mutual
theorem above_of_unwrapped? {above : List (Tree Node)} {t : Tree Node} (hne : above ≠ [])
    (h : unwrapped? above t = some x) : x.above ≠ [] := by
  obtain ⟨⟨⟨k, span⟩, i⟩, ts⟩ := t
  rw [unwrapped?.eq_def] at h
  cases k with
  | lambda =>
    obtain rfl := Option.some.inj h
    exact hne
  | labeled => exact above_of_unwrappedFirst? (List.cons_ne_nil _ _) h
  | annotated => exact above_of_unwrappedFirst? (List.cons_ne_nil _ _) h
  | _ => cases h

theorem above_of_unwrappedFirst? {p : NodeKind → Bool} {above ts : List (Tree Node)}
    (hne : above ≠ []) (h : unwrappedFirst? p above ts = some x) : x.above ≠ [] := by
  match ts with
  | [] => cases h
  | t :: ts =>
    rw [unwrappedFirst?] at h
    split at h
    · exact above_of_unwrapped? hne h
    · exact above_of_unwrappedFirst? hne h
end

theorem above_of_passedLambda? (h : x.passedLambda? = some y) : y.above ≠ [] := by
  unfold passedLambda? at h
  split at h
  · exact above_of_unwrappedFirst? (List.cons_ne_nil _ _) h
  · cases h

theorem lambdaArguments_inside (hx : x.above ≠ []) :
    (d.inside f x).lambdaArguments = x.lambdaArguments.map (d.inside f) := by
  unfold lambdaArguments
  rw [apply_ite (List.map _), children_inside hx, List.filter_map]
  refine if_congr (kind_inside_eq_iff (by simp) hx) (congrArg _ ?_) rfl
  exact List.filter_congr fun y hy => apply_kind_inside_of_above (F := (· == .lambdaArgument))
    (fun _ _ => rfl) (Location.above_ne_nil hy)

theorem passes_inside (hx : x.above ≠ []) (hy : y.above ≠ []) :
    (d.inside f x).passes (d.inside f y) = x.passes y := by
  unfold passes
  rw [lambdaArguments_inside hx, List.any_map, Bool.eq_iff_iff, List.any_eq_true, List.any_eq_true]
  refine exists_congr fun a => and_congr_right fun ha => ?_
  have hbelow : a.above ≠ [] := by
    unfold lambdaArguments at ha
    split at ha
    · exact Location.above_ne_nil (List.mem_filter.1 ha).1
    · exact absurd ha List.not_mem_nil
  rw [Function.comp_apply, passedLambda?_inside hbelow, Option.any_map]
  cases hl : a.passedLambda? with
  | none => rfl
  | some l =>
    simp [id_beq_inside (above_of_passedLambda? hl) hy]

theorem callee?_inside (hx : x.above ≠ []) :
    (d.inside f x).callee? = x.callee?.map (d.inside f) := by
  unfold callee?
  rw [apply_ite (Option.map _), children_inside hx, List.head?_map]
  exact if_congr (kind_inside_eq_iff (by simp) hx) rfl rfl

/-- The name that a kind tells, if it is that of a use of a name. -/
theorem calleeName?_inside (hx : x.above ≠ []) :
    (d.inside f x).calleeName? = x.calleeName? := by
  unfold calleeName?
  rw [callee?_inside hx]
  cases hy : x.callee? with
  | none => rfl
  | some y =>
    have hchild : y ∈ x.children := by
      unfold callee? at hy
      split at hy
      · exact List.mem_of_head? hy
      · cases hy
    obtain hk | ⟨s, s', hk, hk'⟩ :=
      kind_inside_of_above (f := f) (d := d) (Location.above_ne_nil hchild)
    · simp [hk]
    · simp [hk, hk']

section

variable (hd' : d'.Regular) (hd : d.root.kind = .file) (hx : x ∈ d'.nodes)

include hd' hd hx

theorem ownLabel?_inside : (d.inside f x).ownLabel? = x.ownLabel? := by
  unfold ownLabel?
  rw [parent?_inside]
  cases hp : x.parent? with
  | none => rfl
  | some p =>
    obtain hk | ⟨s, s', hk, hk'⟩ := kind_inside (f := f) hd' hd (hd'.mem_of_parent? hx hp)
    · simp [hk]
    · simp [hk, hk']

theorem lambdaLabel?_inside (hne : x ≠ d'.root) :
    (d.inside f x).lambdaLabel? = x.lambdaLabel? := by
  unfold lambdaLabel?
  rw [nearest?_inside (k := .call) (by simp) hd' hd hx]
  cases hcall : x.nearest? fun n => n.kind == .call with
  | none => rfl
  | some call =>
    obtain ⟨hmem, hroot⟩ := hd'.mem_of_nearest? hx hcall (by simp)
    have habove := Regular.above_ne_nil hmem hroot
    simp [passes_inside habove (Regular.above_ne_nil hx hne), ownLabel?_inside hd' hd hx,
      calleeName?_inside habove]

/-! ## Obstacles -/

theorem isStatement_inside : (d.inside f x).isStatement = x.isStatement := by
  unfold isStatement
  rw [parent?_inside]
  cases hp : x.parent? with
  | none => rfl
  | some p =>
    exact apply_kind_inside (F := NodeKind.holdsStatements) (fun _ _ => rfl) hd' hd
      (hd'.mem_of_parent? hx hp)

theorem literalObstacle?_inside (hne : x ≠ d'.root) :
    literalObstacle? (d.inside f x) = literalObstacle? x := by
  unfold literalObstacle?
  rw [nearest?_inside (k := .functionLiteral) (by simp) hd' hd hx]
  cases hliteral : x.nearest? fun n => n.kind == .functionLiteral with
  | none => rfl
  | some literal =>
    obtain ⟨hmem, hroot⟩ := hd'.mem_of_nearest? hx hliteral (by simp)
    rw [Option.map_some]
    dsimp only
    rw [body?_inside (Regular.above_ne_nil hmem hroot)]
    cases hbody : literal.body? with
    | none => rfl
    | some body =>
      have hbelow := Location.above_ne_nil (body?_eq_some hbody).2.1
      rw [Option.map_some]
      dsimp only
      have hsole : (d.inside f body).statements.map Location.id = [(d.inside f x).id] ↔
          body.statements.map Location.id = [x.id] := by
        rw [map_id_statements_inside hbelow, id_inside (Regular.above_ne_nil hx hne),
          ← List.map_singleton, f.number_injective.list_map.eq_iff]
      exact if_congr hsole rfl rfl

end

namespace Part

variable (h : Part f d' d) (hd' : d'.Regular) (hd : d.Regular) (hx : x ∈ d'.nodes)

include h hd' hd hx

theorem statementPart?_inside : d.statementPart? (d.inside f x) =
    (d'.statementPart? x).map (d.inside f) := by
  unfold statementPart?
  by_cases hne : x = d'.root
  · have hnone {y : Place} (hk : y.kind = .file) : y.base? = none := by
      rw [base?, hk]
    have hk : x.kind = .file := hne ▸ hd'.isFile
    have hroot : (d.inside f x).kind = .file := by
      rw [hne, inside, graft_of_above_eq_nil hd'.above]
      exact hd.above ▸ hd.isFile
    rw [hnone hk, hnone hroot]
    rfl
  · rw [base?_inside (Regular.above_ne_nil hx hne)]
    cases hy : x.base? with
    | none => rfl
    | some y =>
      have hbelow := Location.above_ne_nil (mem_children_of_base? hy)
      have hline : d.beginsLine (d.inside f y) = d'.beginsLine y := by
        rw [Document.beginsLine, precedingTrivia?, span_inside hbelow]
        exact h.beginsLine x hx y hy
      simp only [Option.map_some, Option.filter_some, hline, apply_ite (Option.map _)]
      rfl

theorem isStatementPart_inside (hne : x ≠ d'.root) :
    d.isStatementPart (d.inside f x) = d'.isStatementPart x := by
  unfold isStatementPart
  rw [parent?_inside]
  cases hp : x.parent? with
  | none => rfl
  | some p =>
    have hmem := hd'.mem_of_parent? hx hp
    have hk : (d.inside f p).kind.isExpression = p.kind.isExpression :=
      apply_kind_inside (fun _ _ => rfl) hd' hd.isFile hmem
    rw [Option.map_some, Option.any_some, Option.any_some, hk,
      h.statementPart?_inside hd' hd hmem, Option.any_map]
    cases hy : d'.statementPart? p with
    | none => rfl
    | some y =>
      have hbelow := Location.above_ne_nil (mem_children_of_base? (statementPart?_eq_some.1 hy).1)
      simp [id_beq_inside hbelow (Regular.above_ne_nil hx hne)]

theorem isManyLineIf_inside (hne : x ≠ d'.root) :
    d.isManyLineIf (d.inside f x) = d'.isManyLineIf x := by
  have hk : ((d.inside f x).kind == .ifElse) = (x.kind == .ifElse) :=
    apply_kind_inside (F := (· == .ifElse)) (fun _ _ => rfl) hd' hd.isFile hx
  rw [isManyLineIf, hk, h.isOneLine_inside hx hne, isManyLineIf]

theorem isInsideOneLineIf_inside :
    d.isInsideOneLineIf (d.inside f x) = d'.isInsideOneLineIf x := by
  unfold isInsideOneLineIf
  rw [nearest?_inside (k := .ifElse) (by simp) hd' hd.isFile hx, Option.any_map]
  cases hy : x.nearest? fun n => n.kind == .ifElse with
  | none => rfl
  | some y =>
    obtain ⟨hmem, hroot⟩ := hd'.mem_of_nearest? hx hy (by simp)
    exact h.isOneLine_inside hmem hroot

/-- What stands in the way of a hint stands in its way there too. -/
theorem obstacle?_inside (hne : x ≠ d'.root) :
    d.obstacle? (d.inside f x) = d'.obstacle? x := by
  have hexpression : (d.inside f x).kind.isExpression = x.kind.isExpression :=
    apply_kind_inside (fun _ _ => rfl) hd' hd.isFile hx
  have hcompound : ((d.inside f x).kind == .when_ || (d.inside f x).kind == .block) =
      (x.kind == .when_ || x.kind == .block) :=
    apply_kind_inside (F := fun k => k == .when_ || k == .block) (fun _ _ => rfl) hd' hd.isFile hx
  rw [obstacle?, hexpression, hcompound, h.isManyLineIf_inside hd' hd hx hne,
    h.isInsideOneLineIf_inside hd' hd hx, isStatement_inside hd' hd.isFile hx,
    h.isStatementPart_inside hd' hd hx hne, h.statementPart?_inside hd' hd hx,
    Option.isSome_map, literalObstacle?_inside hd' hd.isFile hx hne, obstacle?]

end Part

/-! ## Hints -/

/-- Whether a node is a result of the innermost function literal around it. -/
def isResult (x : Place) : Bool :=
  (x.nearest? fun n => n.kind == .functionLiteral).any fun y => y.results.contains x.id

/-- A node is a result of the innermost literal around it or of none. -/
theorem get?_factsOf_iff (hd : d.Regular) (hx : x ∈ d.nodes) :
    (factsOf x mode).get? x.id = some true ↔ mode.includesFlow ∧ isResult x := by
  rw [get?_factsOf hd hx, isResult, Option.any_eq_true]
  refine and_congr_right fun _ => ⟨?_, ?_⟩
  · rintro ⟨y, hy, hi⟩
    exact ⟨y, (nearest?_of_mem_results hd hx hy hi).1, List.contains_iff_mem.2 hi⟩
  · rintro ⟨y, hy, hi⟩
    exact ⟨y, (hd.mem_of_nearest? hx hy (by simp)).1, List.contains_iff_mem.1 hi⟩

theorem isResult_inside (hd' : d'.Regular) (hd : d.root.kind = .file) (hx : x ∈ d'.nodes)
    (hne : x ≠ d'.root) : isResult (d.inside f x) = isResult x := by
  unfold isResult
  rw [nearest?_inside (k := .functionLiteral) (by simp) hd' hd hx, Option.any_map]
  cases hy : x.nearest? fun n => n.kind == .functionLiteral with
  | none => rfl
  | some y =>
    obtain ⟨hmem, hroot⟩ := hd'.mem_of_nearest? hx hy (by simp)
    rw [Bool.eq_iff_iff]
    simp [results_inside (Regular.above_ne_nil hmem hroot),
      id_inside (Regular.above_ne_nil hx hne), f.number_injective.eq_iff]

theorem hintOfResult?_inside (hd' : d'.Regular) (hd : d.root.kind = .file) (hx : x ∈ d'.nodes)
    (hne : x ≠ d'.root) : hintOfResult? (d.inside f x) =
      (hintOfResult? x).map (Hint.relabel f) := by
  unfold hintOfResult?
  rw [nearest?_inside (k := .lambda) (by simp) hd' hd hx]
  cases hy : x.nearest? fun n => n.kind == .lambda with
  | none => rfl
  | some y =>
    obtain ⟨hmem, hroot⟩ := hd'.mem_of_nearest? hx hy (by simp)
    have hlabel : (d.inside f y).lambdaLabel? = y.lambdaLabel? :=
      lambdaLabel?_inside hd' hd hmem hroot
    simp only [Option.map_some, Option.bind_eq_bind, Option.bind_some, hlabel,
      id_inside (Regular.above_ne_nil hmem hroot), span_inside (Regular.above_ne_nil hx hne)]
    cases y.lambdaLabel? <;> rfl

/-- The hint of a node of a part is the hint of the node in its place, further behind. -/
theorem Part.ownHint?_inside (h : Part f d' d) (hd' : d'.Regular) (hd : d.Regular)
    (mode : ResolveMode) (hx : x ∈ d'.nodes) (hne : x ≠ d'.root) :
    d.ownHint? mode (d.inside f x) =
      (d'.ownHint? mode x).map (Hint.relabel f) := by
  have hfacts : (factsOf (d.inside f x) mode).get? (d.inside f x).id = some true ↔
      (factsOf x mode).get? x.id = some true := by
    rw [get?_factsOf_iff hd (h.mem_nodes hd' hd hx), get?_factsOf_iff hd' hx,
      isResult_inside hd' hd.isFile hx hne]
  rw [ownHint?, (run_hintAt? hd Analyzer.faithful_empty (h.mem_nodes hd' hd hx) mode).1, ownHint?,
    (run_hintAt? hd' Analyzer.faithful_empty hx mode).1, h.obstacle?_inside hd' hd hx hne,
    hintOfResult?_inside hd' hd.isFile hx hne, apply_ite (Option.map _), apply_ite (Option.map _)]
  exact if_congr Iff.rfl rfl (if_congr hfacts rfl rfl)

/-! ## All hints -/

/-- The hints of the nodes below the root, in preorder. -/
def hintsBelow (d : Document) (mode : ResolveMode) : List Hint :=
  d.root.descendants.filterMap (d.ownHint? mode)

/-- Only expressions have hints. -/
theorem ownHint?_eq_none (hd : d.Regular) (hx : x ∈ d.nodes) (hk : ¬x.kind.isExpression) :
    d.ownHint? mode x = none := by
  rw [Option.eq_none_iff_forall_ne_some]
  intro h hown
  exact hk (obstacle?_eq_none.1 ((ownHint?_eq_some_iff hd hx).1 hown).1).isExpression

/-- The hints of a document are those of the nodes below the root, sorted. -/
theorem hints_eq_hintsBelow (hd : d.Regular) (mode : ResolveMode) :
    d.hints mode none = (d.hintsBelow mode).mergeSort Hint.le := by
  have hroot : d.ownHint? mode d.root = none :=
    ownHint?_eq_none hd (self_mem_walk _) (by rw [hd.isFile]; nofun)
  have hnodes : (d.nodes.filter fun x => x.kind.isExpression).filterMap (d.ownHint? mode) =
      d.hintsBelow mode := by
    rw [List.filterMap_filter, hintsBelow,
      ← List.filterMap_cons_none (a := d.root) (l := d.root.descendants) hroot, ← walk_eq]
    refine List.filterMap_congr fun x hx => ?_
    split
    · rfl
    · next hk => exact (ownHint?_eq_none hd hx hk).symm
  rw [hints_eq hd, placesIn_none]
  exact congrArg (List.mergeSort · Hint.le) hnodes

/-- The hint of a node is not shown behind the end of the text. -/
theorem anchor_le_of_mem_hintsBelow (hd : d.Regular) {h : Hint} (hmem : h ∈ d.hintsBelow mode) :
    h.anchor ≤ byteLength d.source := by
  obtain ⟨x, hx, hown⟩ := List.mem_filterMap.1 hmem
  obtain ⟨hnode, hne⟩ := mem_descendants hd hx
  obtain ⟨-, -, scope, -, -, -, -, label, -, rfl⟩ := (ownHint?_eq_some_iff hd hnode).1 hown
  exact (hd.span_boundary hnode hne).2.1.le

/-- It is shown where a lexeme ends. -/
theorem exists_lexeme_of_mem_hintsBelow (hd : d.Regular) {h : Hint} (hmem : h ∈ d.hintsBelow mode) :
    ∃ t ∈ d.significant, t.stop = h.anchor := by
  obtain ⟨x, hx, hown⟩ := List.mem_filterMap.1 hmem
  obtain ⟨hnode, hne⟩ := mem_descendants hd hx
  obtain ⟨hno, -, scope, -, -, -, -, label, -, rfl⟩ := (ownHint?_eq_some_iff hd hnode).1 hown
  have hbody : ¬x.isEmptyBody := by
    have hk := (obstacle?_eq_none.1 hno).ne_block
    simp [isEmptyBody, hk]
  obtain ⟨-, -, t, ht, -, hstop, -⟩ := hd.isDelimited hnode hne hbody
  exact ⟨t, ht, hstop⟩

theorem exists_token_of_mem_hintsBelow (hd : d.Regular) {h : Hint} (hmem : h ∈ d.hintsBelow mode) :
    ∃ t ∈ d.tokens.toList, t.stop = h.anchor :=
  (exists_lexeme_of_mem_hintsBelow hd hmem).imp fun _ ht => ht.imp_left List.mem_of_mem_filter

/-- The nodes of a part have the hints there that they have in it. -/
theorem Part.filterMap_ownHint? (h : Part f d' d) (hd' : d'.Regular) (hd : d.Regular)
    (mode : ResolveMode) :
    (d'.root.descendants.map (d.inside f)).filterMap (d.ownHint? mode) =
      (d'.hintsBelow mode).map (Hint.relabel f) := by
  rw [List.filterMap_map, hintsBelow, List.map_filterMap]
  refine List.filterMap_congr fun x hx => ?_
  obtain ⟨hnode, hne⟩ := mem_descendants hd' hx
  exact h.ownHint?_inside hd' hd mode hnode hne

end Document

/-- Under valid settings, hints are told of every text that can be read. -/
theorem analyzeSource_eq_ok {settings s : Settings} {source : List Char} {d : Document}
    (henabled : settings.enabled) (hvalid : settings.validate = .ok s)
    (h : Document.parse source = .ok d) (range : Option Span) :
    analyzeSource settings range source = .ok (d.hints s.mode range) := by
  simp [analyzeSource, henabled, hvalid, h, Except.mapError, bind, Except.bind, pure, Except.pure]

end ResultHints
