import ResultHints.Proofs.Hint.Own

/-!
# Hints and results

Hints stand behind the results of lambdas. Main statements:

- `exists_hint_of_mem_results`: no result of a lambda with a label is left without a
  hint, if the lambda has more than one statement and is not inside an `if` of one line;
- `exists_result_of_mem_hints`: every hint stands behind a result of the lambda it is
  about, with nothing between the two that does not pass its value on.
-/

namespace ResultHints

open Location Document Relation

/-- An expression whose value is not that of an expression inside it. -/
def NodeKind.isValueLeaf : NodeKind → Bool
  | block | ifElse | when_ | labeled _ | annotated | parenthesized => false
  | k => k.isExpression

/-- What passes on the value of an expression inside it, and the branches it does so by. -/
def NodeKind.passesOn : NodeKind → Bool
  | block | ifElse | when_ | thenBranch | elseBranch | whenEntry _ | labeled _ | annotated
  | parenthesized => true
  | _ => false

variable {d : Document} {mode : ResolveMode} {range : Option Span} {x y z literal body : Place}

/-! ## Every result has a hint -/

theorem Location.role_of_isValueLeaf (hk : x.kind.isValueLeaf) (h : x.yields) :
    x.kind.role = .value := by
  unfold Location.yields at h
  cases hrole : x.kind.role with
  | value => rfl
  | sequence =>
    rw [NodeKind.eq_block_of_role hrole] at hk
    cases hk
  | choice =>
    rcases NodeKind.ifElse_or_when_of_role hrole with h | h <;> rw [h] at hk <;> cases hk
  | wrapper =>
    rcases NodeKind.wrapper_of_role hrole with ⟨label, h⟩ | h | h <;> rw [h] at hk <;> cases hk
  | jump | branch | nothing =>
    rw [hrole] at h
    cases h

/-- Where a body has several statements, there is a target on the way from the body to a result. -/
theorem exists_target_of_body (hd : d.Regular) (hliteral : literal ∈ d.nodes)
    (hbody : literal.body? = some body) (hseveral : 2 ≤ body.statements.length)
    (houtside : ∀ z ∈ literal.ancestors, z.kind = .ifElse → d.isOneLine z = false)
    (hpath : TransGen ResultStep body y) (hrole : y.kind.role = .value) :
    ∃ x, TransGen ResultStep body x ∧ ReflTransGen ResultStep x y ∧ d.IsTarget x := by
  obtain ⟨hk, hmem, hblock⟩ := body?_eq_some hbody
  have hnode := mem_walk_of_mem_children hliteral hmem
  have hnearest : body.nearest? (fun n => n.kind == .functionLiteral) = some literal := by
    rw [nearest?_of_mem_children hmem]
    exact if_pos (beq_iff_eq.2 hk)
  obtain ⟨w, hstep, hrest⟩ := TransGen.head'_iff.1 hpath
  -- The body is in no place of a statement, but its own last statement is a candidate.
  have hcandidate : d.IsCandidate w := by
    refine ⟨outside_of_step hstep ?_ ?_, .inl (hstep.isStatement ?_)⟩
    · intro hk'
      rw [hblock] at hk'
      cases hk'
    · intro z hz hzk
      rw [ancestors_of_mem_children hmem, List.mem_cons] at hz
      rcases hz with rfl | hz
      · cases hk.symm.trans hzk
      · exact houtside z hz hzk
    · rw [hblock]
      nofun
  obtain ⟨x, hwx, hxy, htarget⟩ := exists_target_of_path hd (hstep.mem_nodes hnode) hcandidate hrest
    hrole fun z hz => literalObstacle?_eq_none
      ((nearest?_of_path (.inl rfl) (hz.head hstep)).trans hnearest) hbody hseveral
  exact ⟨x, TransGen.head' hstep hwx, hxy, htarget⟩

/-- No result is left without a hint: it stands behind the result, or behind an expression in the
    body around it. -/
theorem exists_hint_of_mem_results {source : List Char} {scope : Place} {label : String}
    (h : Document.parse source = .ok d) (hmode : mode.includesFlow) (hscope : scope ∈ d.nodes)
    (hlambda : scope.kind = .lambda) (hlabel : scope.lambdaLabel? = some label)
    (hliteral : literal ∈ scope.children) (hbody : literal.body? = some body)
    (hseveral : 2 ≤ body.statements.length)
    (houtside : ∀ z ∈ scope.ancestors, z.kind = .ifElse → d.isOneLine z = false)
    (hy : y ∈ d.nodes) (hleaf : y.kind.isValueLeaf) (hresult : y.id ∈ literal.results) :
    ∃ x ∈ d.nodes, (x = y ∨ x ∈ y.ancestors) ∧ body ∈ x.ancestors ∧
      d.ownHint? mode x = some (.ofLabel label x.span.stop scope.id) ∧
      .ofLabel label x.span.stop scope.id ∈ d.hints mode none := by
  have hd := regular_of_parse h
  have hnode := mem_walk_of_mem_children hscope hliteral
  obtain ⟨b, hb, hpath, hyields⟩ := (mem_results_iff hd hnode hy).1 hresult
  obtain rfl : body = b := Option.some.inj (hbody.symm.trans hb)
  have houtside' : ∀ z ∈ literal.ancestors, z.kind = .ifElse → d.isOneLine z = false := by
    intro z hz hzk
    rw [ancestors_of_mem_children hliteral, List.mem_cons] at hz
    rcases hz with rfl | hz
    · cases hlambda.symm.trans hzk
    · exact houtside z hz hzk
  obtain ⟨x, hbx, hxy, htarget⟩ := exists_target_of_body hd hnode hbody hseveral houtside' hpath
    (role_of_isValueLeaf hleaf hyields)
  have hx := mem_nodes_of_path hbx.to_reflTransGen
    (mem_walk_of_mem_children hnode (body?_eq_some hbody).2.1)
  have hxresult : x.id ∈ literal.results :=
    (mem_results_iff hd hnode hx).2 ⟨body, hbody, hbx, yields_of_path hxy hyields⟩
  have hown : d.ownHint? mode x = some (.ofLabel label x.span.stop scope.id) :=
    ownHint?_of_mem_results hd hx hmode (obstacle?_eq_none.2 htarget) hscope hlabel hliteral
      hxresult
  refine ⟨x, hx, ?_, mem_ancestors_of_path hbx, hown, mem_hints hd hx hown⟩
  rcases reflTransGen_iff_eq_or_transGen.1 hxy with rfl | hxy
  · exact .inl rfl
  · exact .inr (mem_ancestors_of_path hxy)

/-- In `f{a;(b)}` the result `b` has a hint, be it behind `b` or behind an expression around it. -/
theorem exists_hint_around_parenthesized : ∃ d, Document.parse "f{a;(b)}".toList = .ok d ∧
    ∃ y ∈ d.nodes, y.kind = .nameReference "b" ∧ ∃ x ∈ d.nodes, (x = y ∨ x ∈ y.ancestors) ∧
      ∃ h ∈ d.hints .enclosing none, h.anchor = x.span.stop ∧ h.display = "^f" := by
  have hparse : (Document.parse "f{a;(b)}".toList).toOption.any (fun d =>
      d.nodes.any fun scope => scope.kind == .lambda && scope.lambdaLabel? == some "f" &&
        (scope.ancestors.all fun z => z.kind != .ifElse) &&
        scope.children.any fun literal => literal.body?.any fun body : Place =>
          decide (2 ≤ body.statements.length) && d.nodes.any fun y =>
            y.kind == .nameReference "b" && literal.results.contains y.id) = true := by
    decide +kernel
  obtain ⟨d, h, hp⟩ := exists_of_parse_any hparse
  simp only [List.any_eq_true, Option.any_eq_true, Bool.and_eq_true, beq_iff_eq, decide_eq_true_eq,
    List.all_eq_true, bne_iff_ne, List.contains_iff_mem] at hp
  obtain ⟨scope, hscope, ⟨⟨hlambda, hlabel⟩, houtside⟩, literal, hliteral, body, hbody, hseveral,
    y, hy, hk, hresult⟩ := hp
  have hmode : ResolveMode.enclosing.includesFlow := rfl
  obtain ⟨x, hx, habove, -, -, hmem⟩ := exists_hint_of_mem_results h hmode hscope hlambda hlabel
    hliteral hbody hseveral (fun z hz hzk => absurd hzk (houtside z hz)) hy (by rw [hk]; rfl)
    hresult
  exact ⟨d, h, y, hy, hk, x, hx, habove, _, hmem, rfl, rfl⟩

/-! ## Every hint stands behind a result -/

theorem passesOn_of_mem_branches (h : z ∈ x.branches) : z.kind.passesOn := by
  rcases kind_of_mem_branches h with h | h | ⟨isElse, h⟩ <;> rw [h] <;> rfl

theorem ResultStep.passesOn (h : ResultStep x y) : x.kind.passesOn := by
  rcases h.role with h | h | h
  · rw [NodeKind.eq_block_of_role h]
    rfl
  · rcases NodeKind.ifElse_or_when_of_role h with h | h <;> rw [h] <;> rfl
  · rcases NodeKind.wrapper_of_role h with ⟨label, h⟩ | h | h <;> rw [h] <;> rfl

/-- Between a literal and a result of it there is nothing that does not pass on the value. -/
theorem passesOn_of_mem_ancestors (hbody : literal.body? = some body)
    (hpath : TransGen ResultStep body x) (hz : z ∈ x.ancestors) :
    z.kind.passesOn ∨ z = literal ∨ z ∈ literal.ancestors := by
  rcases between_path hpath.to_reflTransGen hz with hz | ⟨-, hz⟩ | ⟨w, v, -, hz, -⟩
  · rw [ancestors_of_mem_children (body?_eq_some hbody).2.1, List.mem_cons] at hz
    exact .inr hz
  · obtain ⟨w, hstep, -⟩ := TransGen.head'_iff.1 hz
    exact .inl hstep.passesOn
  · exact .inl (passesOn_of_mem_branches hz)

/-- A result lies strictly inside its lambda. -/
theorem span_lt_of_result {scope : Place} (hd : d.Regular) (hscope : scope ∈ d.nodes)
    (hlambda : scope.kind = .lambda) (hliteral : literal ∈ scope.children)
    (hbody : literal.body? = some body) (hpath : TransGen ResultStep body x) :
    scope.span.start < x.span.stop ∧ x.span.stop < scope.span.stop := by
  obtain ⟨-, hmem, -⟩ := body?_eq_some hbody
  have hnode := mem_walk_of_mem_children (mem_walk_of_mem_children hscope hliteral) hmem
  have hx := mem_nodes_of_path hpath.to_reflTransGen hnode
  have hbelow := (mem_walk_iff_mem_ancestors hd.above hx).2 (.inr (mem_ancestors_of_path hpath))
  have hne : x ≠ d.root := by
    rintro rfl
    have habove := mem_ancestors_of_path hpath
    rw [ancestors, hd.above] at habove
    cases habove
  obtain ⟨hstart, hstop⟩ := hd.span_lt_of_lambda hscope hlambda hliteral hmem
  obtain ⟨hlo, hhi⟩ := hd.span_of_mem_walk hnode hbelow
  obtain ⟨-, -, hle⟩ := hd.span_boundary hx hne
  omega

/-- Every hint stands behind a result of the lambda it is about, and behind one of no other lambda;
    steps lead to it from the body of this lambda, with nothing in between that does not pass its
    value on, and it is shown strictly inside the lambda. -/
theorem exists_result_of_mem_hints {source : List Char} {hint : Hint}
    (h : Document.parse source = .ok d) (hmem : hint ∈ d.hints mode range) :
    ∃ x ∈ d.nodes, x.kind.isExpression ∧ hint.anchor = x.span.stop ∧
      d.ownHint? mode x = some hint ∧
      ∃ scope ∈ d.nodes, x.nearest? (fun n => n.kind == .lambda) = some scope ∧
        hint.scope = scope.id ∧ scope.span.start < hint.anchor ∧ hint.anchor < scope.span.stop ∧
        (∃ label, scope.lambdaLabel? = some label ∧ hint.display = Hint.mark ++ label) ∧
        ∃ literal ∈ scope.children, x.id ∈ literal.results ∧
          (∀ other ∈ d.nodes, x.id ∈ other.results → other = literal) ∧
          (∃ body, literal.body? = some body ∧ TransGen ResultStep body x) ∧
          ∀ z ∈ x.ancestors, scope ∈ z.ancestors → z = literal ∨ z.kind.passesOn := by
  have hd := regular_of_parse h
  obtain ⟨x, hx, hk, hown⟩ := exists_of_mem_hints hd hmem
  obtain ⟨-, -, scope, hscope, hlambda, hnearest, ⟨literal, hliteral, hresult⟩, label, hlabel,
    rfl⟩ := (ownHint?_eq_some_iff hd hx).1 hown
  have hnode := mem_walk_of_mem_children hscope hliteral
  obtain ⟨body, hbody, hpath, -⟩ := (mem_results_iff hd hnode hx).1 hresult
  obtain ⟨hlo, hhi⟩ := span_lt_of_result hd hscope hlambda hliteral hbody hpath
  refine ⟨x, hx, hk, rfl, hown, scope, hscope, hnearest, rfl, hlo, hhi, ⟨label, hlabel, rfl⟩,
    literal, hliteral, hresult, ?_, ⟨body, hbody, hpath⟩, ?_⟩
  · -- Any other literal with this result would be the nearest one around it too.
    intro other hother hi
    have hliterals := (nearest?_of_mem_results hd hx hother hi).1.symm.trans
      (nearest?_of_mem_results hd hx hnode hresult).1
    exact Option.some.inj hliterals
  · intro z hz hbelow
    rcases passesOn_of_mem_ancestors hbody hpath hz with hz | rfl | hz
    · exact .inr hz
    · exact .inl rfl
    · -- Nothing above the literal lies below its lambda.
      rw [ancestors_of_mem_children hliteral, List.mem_cons] at hz
      rcases hz with rfl | hz
      · exact absurd hbelow (not_mem_ancestors hbelow)
      · exact absurd hbelow (not_mem_ancestors hz)

/-- In `f{a;g{b;c}}` the inner lambda has a hint, which is shown inside it. -/
theorem exists_result_of_inner_lambda : ∃ d, Document.parse "f{a;g{b;c}}".toList = .ok d ∧
    ∃ h ∈ d.hints .everything none, h.display = "^g" ∧ ∃ scope ∈ d.nodes,
      h.scope = scope.id ∧ scope.span.start < h.anchor ∧ h.anchor < scope.span.stop := by
  obtain ⟨d, h, hint, hmem, hdisplay⟩ := exists_hint_of_any "f{a;g{b;c}}".toList "g"
    (by decide +kernel)
  obtain ⟨-, -, -, -, -, scope, hscope, -, hi, hlo, hhi, -⟩ := exists_result_of_mem_hints h hmem
  exact ⟨d, h, hint, hmem, hdisplay, scope, hscope, hi, hlo, hhi⟩

end ResultHints
