import ResultHints.Proofs.Hint.Own

/-!
# Hints of the same lambda

When two expressions, one inside the other, both have hints of the same lambda. That
happens for labels, annotations and parentheses only (`wrapper_of_hints`), as they are
taken for the last line themselves:

- around a `when` or an `if` of several lines, whose branches have hints of their own;
- where they are in no place of a statement, and their base begins a line.
-/

namespace ResultHints

open Location Document Relation

variable {d : Document} {mode : ResolveMode} {x y z body : Place}

/-! ## Two targets on a path -/

/-- An expression that lies between a body and a result of it is on the path to the result. -/
theorem transGen_of_mem_ancestors (hk : x.kind.isExpression) (hx : TransGen ResultStep body x)
    (hy : TransGen ResultStep body y) (h : x ∈ y.ancestors) : TransGen ResultStep x y := by
  rcases between_path hy.to_reflTransGen h with h | ⟨-, h⟩ | ⟨w, v, -, h, -⟩
  · exact absurd (mem_ancestors_of_path hx) (not_mem_ancestors h)
  · exact h
  · rcases kind_of_mem_branches h with h | h | ⟨isElse, h⟩ <;> rw [h] at hk <;> cases hk

/-- Above another target on the path there are only labels, annotations and parentheses. -/
theorem role_of_two_targets (hd : d.Regular) (hy : y ∈ d.nodes) (hx : d.IsTarget x)
    (hy' : d.IsTarget y) (hpath : TransGen ResultStep x y) : x.kind.role = .wrapper := by
  obtain ⟨w, hstep, -⟩ := TransGen.head'_iff.1 hpath
  rcases hstep.role with hrole | hrole | hrole
  · exact absurd (NodeKind.eq_block_of_role hrole) hx.ne_block
  · -- An `if` among the targets is of one line, and has no other target inside.
    have hk := (NodeKind.ifElse_or_when_of_role hrole).resolve_right hx.ne_when
    have houtside := (isInsideOneLineIf_eq_false hd hy).1 hy'.outside x
      (mem_ancestors_of_path hpath) hk
    exact absurd (houtside.symm.trans (hx.isOneLine hk)) nofun
  · exact hrole

/-- From a label, annotations or parentheses a path leads through an `if` or a `when`, or else
    through labels, annotations and parentheses only. -/
theorem choice_or_wrapped (hd : d.Regular) (hx : x ∈ d.nodes) (hrole : x.kind.role = .wrapper)
    (hpath : TransGen ResultStep x y) :
    (∃ z, z.kind.role = .choice ∧ TransGen ResultStep x z ∧ TransGen ResultStep z y) ∨
      y.kind ≠ .block ∧ ∃ p, ReflTransGen ResultStep x p ∧ p.wrapped? = some y ∧
        (p = x ∨ p.isStatement = false) := by
  -- What is wrapped is no block, so that the next step is another wrapper or a choice.
  have hblock {p y : Place} (hp : p ∈ d.nodes) (h : p.wrapped? = some y) : y.kind ≠ .block := by
    intro hk
    have hstatement := isStatement_of_wrapped? hd hp h
    rw [hk] at hstatement
    cases hstatement
  induction hpath with
  | single hstep =>
    have hy := hstep.wrapped_inv hrole
    exact .inr ⟨hblock hx hy, x, .refl, hy, .inl rfl⟩
  | @tail w y hpath hstep ih =>
    rcases ih with ⟨z, hz, hxz, hzw⟩ | ⟨hw, p, -, hp, -⟩
    · exact .inl ⟨z, hz, hxz, hzw.tail hstep⟩
    · rcases hstep.role with hwrole | hwrole | hwrole
      · exact absurd (NodeKind.eq_block_of_role hwrole) hw
      · exact .inl ⟨w, hwrole, hpath, .single hstep⟩
      · have hy := hstep.wrapped_inv hwrole
        have hwnode := mem_nodes_of_path hpath.to_reflTransGen hx
        exact .inr ⟨hblock hwnode hy, w, hpath.to_reflTransGen, hy,
          .inr (isStatement_of_wrapped hp)⟩

/-- Between two targets on a path there is a `when` or an `if` of several lines, or the second one
    is the part of a node in no place of a statement. -/
theorem between_two_targets (hd : d.Regular) (hx : x ∈ d.nodes) (htx : d.IsTarget x)
    (hty : d.IsTarget y) (hpath : TransGen ResultStep x y) :
    (∃ z ∈ y.ancestors, x ∈ z.ancestors ∧ (z.kind = .when_ ∨ d.isManyLineIf z)) ∨
      ∃ p ∈ d.nodes, (p = x ∨ x ∈ p.ancestors) ∧ p.isStatement = false ∧
        d.statementPart? p = some y := by
  have hy := mem_nodes_of_path hpath.to_reflTransGen hx
  have hrole := role_of_two_targets hd hy htx hty hpath
  rcases choice_or_wrapped hd hx hrole hpath with ⟨z, hz, hxz, hzy⟩ | ⟨-, p, hxp, hp, hplace⟩
  · refine .inl ⟨z, mem_ancestors_of_path hzy, mem_ancestors_of_path hxz, ?_⟩
    rcases NodeKind.ifElse_or_when_of_role hz with hk | hk
    · have houtside := (isInsideOneLineIf_eq_false hd hy).1 hty.outside z
        (mem_ancestors_of_path hzy) hk
      exact .inr (by simp [isManyLineIf, hk, houtside])
    · exact .inl hk
  · have hpnode := mem_nodes_of_path hxp hx
    have hpart : d.statementPart? p = some y :=
      (isStatementPart_iff hd hpnode (mem_children_of_wrapped? hp)).1
        (hty.part (isStatement_of_wrapped hp))
    refine .inr ⟨p, hpnode, ?_, ?_, hpart⟩
    · exact (reflTransGen_iff_eq_or_transGen.1 hxp).imp_right mem_ancestors_of_path
    · rcases hplace with rfl | hplace
      · -- A statement with a part has no hint itself.
        cases hstatement : p.isStatement with
        | false => rfl
        | true =>
          rw [htx.whole hstatement] at hpart
          cases hpart
      · exact hplace

/-! ## Two hints -/

/-- Two hints of the same lambda stand behind results of the same body. -/
theorem exists_body_of_hints {g h : Hint} (hd : d.Regular) (hx : x ∈ d.nodes) (hy : y ∈ d.nodes)
    (hgx : d.ownHint? mode x = some g) (hhy : d.ownHint? mode y = some h)
    (hscope : g.scope = h.scope) :
    ∃ body, TransGen ResultStep body x ∧ TransGen ResultStep body y := by
  obtain ⟨-, -, scope, hs, -, -, ⟨l, hl, hxl⟩, label, -, rfl⟩ := (ownHint?_eq_some_iff hd hx).1 hgx
  obtain ⟨-, -, scope', hs', -, -, ⟨l', hl', hyl⟩, label', -, rfl⟩ :=
    (ownHint?_eq_some_iff hd hy).1 hhy
  obtain rfl : scope = scope' := hd.eq_of_id_eq hs hs' hscope
  obtain ⟨body, hbody, hbx, -⟩ := (mem_results_iff hd (mem_walk_of_mem_children hs hl) hx).1 hxl
  obtain ⟨body', hbody', hby, -⟩ := (mem_results_iff hd (mem_walk_of_mem_children hs hl') hy).1 hyl
  -- A lambda has one literal, and this has one body.
  have hchildren := (hd.lambda_of_functionLiteral hs hl (body?_eq_some hbody).1).2
  obtain rfl : l' = l := by
    rw [hchildren] at hl'
    exact List.mem_singleton.1 hl'
  obtain rfl : body = body' := Option.some.inj (hbody.symm.trans hbody')
  exact ⟨body, hbx, hby⟩

/-- Whether two expressions, one inside the other, have hints of the same lambda. -/
def Document.hasNestedHints (d : Document) : Bool :=
  d.nodes.any fun scope => scope.lambdaLabel?.isSome && scope.children.any fun literal =>
    let isHinted (x : Place) := d.obstacle? x == none && literal.results.contains x.id
    d.nodes.any fun y => isHinted y && y.ancestors.any isHinted

theorem exists_of_hasNestedHints (hd : d.Regular) (hmode : mode.includesFlow)
    (h : d.hasNestedHints) : ∃ x ∈ d.nodes, ∃ y ∈ d.nodes, x ∈ y.ancestors ∧
      ∃ g, d.ownHint? mode x = some g ∧ ∃ h, d.ownHint? mode y = some h ∧ g.scope = h.scope := by
  simp only [hasNestedHints, List.any_eq_true, Bool.and_eq_true, beq_iff_eq,
    List.contains_iff_mem, Option.isSome_iff_exists] at h
  obtain ⟨scope, hscope, ⟨label, hlabel⟩, literal, hliteral, y, hy, ⟨hyno, hyresult⟩, x, habove,
    hxno, hxresult⟩ := h
  have hx := hd.mem_of_mem_ancestors hy habove
  exact ⟨x, hx, y, hy, habove,
    _, ownHint?_of_mem_results hd hx hmode hxno hscope hlabel hliteral hxresult,
    _, ownHint?_of_mem_results hd hy hmode hyno hscope hlabel hliteral hyresult, rfl⟩

/-- In `f{a;(when{else->b})}` the parentheses and the `b` in them both have hints of the lambda. -/
theorem nested_hints_around_when : ∃ d, Document.parse "f{a;(when{else->b})}".toList = .ok d ∧
    ∃ x ∈ d.nodes, ∃ y ∈ d.nodes, x ∈ y.ancestors ∧
      ∃ g ∈ d.hints .enclosing none, d.ownHint? .enclosing x = some g ∧
        ∃ h ∈ d.hints .enclosing none, d.ownHint? .enclosing y = some h ∧ g.scope = h.scope := by
  have hparse : (Document.parse "f{a;(when{else->b})}".toList).toOption.any (·.hasNestedHints) := by
    decide +kernel
  obtain ⟨d, h, hp⟩ := exists_of_parse_any hparse
  have hd := regular_of_parse h
  have hmode : ResolveMode.enclosing.includesFlow := rfl
  obtain ⟨x, hx, y, hy, habove, g, hg, h', hh', hscope⟩ := exists_of_hasNestedHints hd hmode hp
  exact ⟨d, h, x, hx, y, hy, habove, g, mem_hints hd hx hg, hg, h', mem_hints hd hy hh', hh',
    hscope⟩

/-- Of two hints of the same lambda, one behind an expression inside the expression of the other,
    the other stands behind a label, annotations or parentheses; and a `when` or an `if` of several
    lines is between the two, or the inner expression begins a line as the part of a node that is
    in no place of a statement. -/
theorem wrapper_of_hints {source : List Char} {g h : Hint} (hparse : Document.parse source = .ok d)
    (hx : x ∈ d.nodes) (hy : y ∈ d.nodes) (hgx : d.ownHint? mode x = some g)
    (hhy : d.ownHint? mode y = some h) (hscope : g.scope = h.scope) (habove : x ∈ y.ancestors) :
    ((∃ label, x.kind = .labeled label) ∨ x.kind = .annotated ∨ x.kind = .parenthesized) ∧
    ((∃ z ∈ y.ancestors, x ∈ z.ancestors ∧ (z.kind = .when_ ∨ d.isManyLineIf z)) ∨
      ∃ p ∈ d.nodes, (p = x ∨ x ∈ p.ancestors) ∧ p.isStatement = false ∧
        d.statementPart? p = some y) := by
  have hd := regular_of_parse hparse
  have htx := obstacle?_eq_none.1 ((ownHint?_eq_some_iff hd hx).1 hgx).1
  have hty := obstacle?_eq_none.1 ((ownHint?_eq_some_iff hd hy).1 hhy).1
  obtain ⟨body, hbx, hby⟩ := exists_body_of_hints hd hx hy hgx hhy hscope
  have hpath := transGen_of_mem_ancestors htx.isExpression hbx hby habove
  exact ⟨NodeKind.wrapper_of_role (role_of_two_targets hd hy htx hty hpath),
    between_two_targets hd hx htx hty hpath⟩

/-- In `f{a;l@ when{else->b}}` both the label and the `b` in the `when` have a hint. -/
theorem wrapper_of_hints_around_when : ∃ d, Document.parse "f{a;l@ when{else->b}}".toList = .ok d ∧
    ∃ x ∈ d.nodes,
      ((∃ label, x.kind = .labeled label) ∨ x.kind = .annotated ∨ x.kind = .parenthesized) ∧
      ∃ y ∈ d.nodes, x ∈ y.ancestors ∧ (d.ownHint? .everything y).isSome := by
  have hparse :
      (Document.parse "f{a;l@ when{else->b}}".toList).toOption.any (·.hasNestedHints) := by
    decide +kernel
  obtain ⟨d, h, hp⟩ := exists_of_parse_any hparse
  have hmode : ResolveMode.everything.includesFlow := rfl
  obtain ⟨x, hx, y, hy, habove, g, hg, h', hh', hscope⟩ :=
    exists_of_hasNestedHints (regular_of_parse h) hmode hp
  obtain ⟨hk, -⟩ := wrapper_of_hints h hx hy hg hh' hscope habove
  exact ⟨d, h, x, hx, hk, y, hy, habove, by rw [hh']; rfl⟩

end ResultHints
