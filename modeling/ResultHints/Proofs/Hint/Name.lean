import ResultHints.Proofs.Document.Extent
import ResultHints.Proofs.Document.Made
import ResultHints.Proofs.Hint.Own
import ResultHints.Proofs.Token.Name

/-!
# Where the names in hints come from

A hint shows the name that a token of the source text is written with: a label right before
the brace of the lambda, or the name of what is called. Main statements:

- `exists_name_of_mem_hints`: this token, and that the name is empty only where there is
  nothing between two backticks;
- `display_of_empty_name`: an empty name is shown.
-/

namespace ResultHints

open Location Document

variable {d : Document} {source : List Char} {scope : Place}

namespace Document

/-- The token is a label right before the brace of a lambda. -/
structure IsLabelOf (d : Document) (t : Token) (scope : Place) : Prop where
  kind : t.kind = .labelDefinition
  brace : ∃ before brace after, d.significant = before ++ t :: brace :: after ∧
    brace.kind = .symbol .leftBrace ∧ brace.start = scope.span.start

/-- The token is the name that is called by the innermost call around a lambda, which passes the
    lambda. -/
structure IsCalleeOf (d : Document) (t : Token) (scope : Place) : Prop where
  kind : t.kind = .identifier
  callee : ∃ call ∈ d.nodes, scope.nearest? (fun n => n.kind == .call) = some call ∧
    call.passes scope ∧ ∃ callee, call.callee? = some callee ∧
      callee.kind = .nameReference (identifierName t.text) ∧ callee.span = t.span

end Document

/-- A label of a lambda is its own, or the name of what is called by the call that passes it. -/
theorem lambdaLabel?_eq_some {label : String} (h : scope.lambdaLabel? = some label) :
    ∃ call, scope.nearest? (fun n => n.kind == .call) = some call ∧ call.passes scope ∧
      (scope.ownLabel? = some label ∨ call.calleeName? = some label) := by
  simp only [lambdaLabel?, Option.bind_eq_bind, Option.bind_eq_some_iff] at h
  obtain ⟨call, hcall, h⟩ := h
  split at h
  · next hpasses =>
    rw [Option.orElse_eq_orElse, Option.orElse_eq_or, Option.or_eq_some_iff] at h
    exact ⟨call, hcall, hpasses, h.imp id And.right⟩
  · cases h

theorem ownLabel?_eq_some {label : String} (h : scope.ownLabel? = some label) :
    ∃ p, scope.parent? = some p ∧ p.kind = .labeled label := by
  simp only [ownLabel?, Option.bind_eq_bind, Option.bind_eq_some_iff] at h
  obtain ⟨p, hp, h⟩ := h
  split at h
  · next hk =>
    obtain rfl := Option.some.inj h
    exact ⟨p, hp, hk⟩
  · cases h

theorem calleeName?_eq_some {call : Place} {name : String} (h : call.calleeName? = some name) :
    ∃ callee, call.callee? = some callee ∧ callee.kind = .nameReference name := by
  simp only [calleeName?, Option.bind_eq_bind, Option.bind_eq_some_iff] at h
  obtain ⟨callee, hcallee, h⟩ := h
  split at h
  · next hk =>
    obtain rfl := Option.some.inj h
    exact ⟨callee, hcallee, hk⟩
  · cases h

/-- The tokens of a source text that have names are written as such. -/
theorem nameText_of_parse (h : Document.parse source = .ok d) {t : Token} (ht : t ∈ d.significant)
    (hk : t.kind.hasName) : ∃ name, NameText name t.kind t.text := by
  obtain ⟨tokens, u, s', htokens, -, rfl⟩ := exists_of_parse h
  exact nameText_of_mem_tokens htokens (List.mem_filter.1 ht).1 hk

/-- The label that a lambda has itself is that of a token right before its brace. -/
theorem exists_label_of_ownLabel? (h : Document.parse source = .ok d) (hscope : scope ∈ d.nodes)
    (hlambda : scope.kind = .lambda) {label : String} (hlabel : scope.ownLabel? = some label) :
    ∃ t ∈ d.significant, d.IsLabelOf t scope ∧ label = definedLabel t.text := by
  have hd := regular_of_parse h
  obtain ⟨p, hparent, hk⟩ := ownLabel?_eq_some hlabel
  obtain ⟨q, hq, hchild⟩ := hd.exists_parent hscope (by rw [hlambda]; nofun)
  obtain rfl : q = p := Option.some.inj ((parent?_of_mem_children hchild).symm.trans hparent)
  obtain ⟨t, rest, ⟨before, hbefore⟩, hkind, rfl, hbrace⟩ := (makes_of_parse h hq).labeled_inv hk
  obtain ⟨brace, after, rfl, hleft, hstart⟩ :=
    hbrace _ (tree_mem_of_mem_children hchild) hlambda
  have hsignificant : d.significant = before.map (·.toToken) ++
      t.toToken :: brace.toToken :: after.map (·.toToken) := by
    rw [Document.significant_eq, ← hbefore, List.map_append, List.map_cons, List.map_cons]
  refine ⟨t.toToken, ?_, ⟨hkind, _, _, _, hsignificant, hleft, hstart⟩, rfl⟩
  rw [hsignificant]
  exact List.mem_append_right _ List.mem_cons_self

/-- The name that a call calls is that of a token. -/
theorem exists_name_of_calleeName? (h : Document.parse source = .ok d) {call : Place}
    (hcall : call ∈ d.nodes) {name : String} (hname : call.calleeName? = some name) :
    ∃ t ∈ d.significant, t.kind = .identifier ∧ name = identifierName t.text ∧
      ∃ callee, call.callee? = some callee ∧ callee.kind = .nameReference name ∧
        callee.span = t.span := by
  obtain ⟨callee, hcallee, hk⟩ := calleeName?_eq_some hname
  have hmem : callee ∈ d.nodes := by
    rw [callee?] at hcallee
    split at hcallee
    · exact mem_walk_of_mem_children hcall (List.mem_of_head? hcallee)
    · cases hcallee
  obtain ⟨t, ht, hkind, hname, hspan⟩ := (makes_of_parse h hmem).name_inv hk
  exact ⟨t.toToken, Document.mem_significant ht, hkind, hname, callee, hcallee, hk, hspan⟩

/-- Every hint shows the name that a token is written with, which is a label right before the brace
    of the lambda that the hint is about, or the name that the call calls that passes this lambda.
    Only between backticks with nothing in between, the name is empty. -/
theorem exists_name_of_mem_hints {mode : ResolveMode} {range : Option Span} {hint : Hint}
    (h : Document.parse source = .ok d) (hmem : hint ∈ d.hints mode range) :
    ∃ scope ∈ d.nodes, scope.kind = .lambda ∧ hint.scope = scope.id ∧
      ∃ t ∈ d.significant, (d.IsLabelOf t scope ∨ d.IsCalleeOf t scope) ∧
        ∃ name, NameText name t.kind t.text ∧ hint.display = Hint.mark ++ String.ofList name ∧
          (name = [] ↔ t.text = ['`', '`'] ∨ t.text = ['`', '`', '@']) := by
  have hd := regular_of_parse h
  obtain ⟨x, hx, -, hown⟩ := exists_of_mem_hints hd hmem
  obtain ⟨-, -, scope, hscope, hlambda, -, -, label, hlabel, rfl⟩ :=
    (ownHint?_eq_some_iff hd hx).1 hown
  refine ⟨scope, hscope, hlambda, rfl, ?_⟩
  obtain ⟨call, hnearest, hpasses, hlabel | hcallee⟩ := lambdaLabel?_eq_some hlabel
  · obtain ⟨t, ht, hof, rfl⟩ := exists_label_of_ownLabel? h hscope hlambda hlabel
    obtain ⟨name, hname⟩ := nameText_of_parse h ht (by rw [hof.kind]; rfl)
    refine ⟨t, ht, .inl hof, name, hname, ?_, name_eq_nil_iff hname⟩
    rw [Hint.ofLabel, definedLabel_of_nameText (hof.kind ▸ hname)]
  · have hcall := hd.mem_of_mem_ancestors hscope (List.mem_of_find?_eq_some hnearest)
    obtain ⟨t, ht, hkind, rfl, callee, hcallee⟩ := exists_name_of_calleeName? h hcall hcallee
    obtain ⟨name, hname⟩ := nameText_of_parse h ht (by rw [hkind]; rfl)
    refine ⟨t, ht, .inr ⟨hkind, call, hcall, hnearest, hpasses, callee, hcallee⟩, name, hname, ?_,
      name_eq_nil_iff hname⟩
    rw [Hint.ofLabel, identifierName_of_nameText (hkind ▸ hname)]

/-- In ``f `l`@{a;b}`` the hint shows the label without its backticks. -/
theorem exists_name_of_quoted_label : ∃ d, Document.parse "f `l`@{a;b}".toList = .ok d ∧
    ∃ hint ∈ d.hints .everything none, hint.display = "^l" ∧ ∃ t ∈ d.significant, ∃ name,
      NameText name t.kind t.text ∧ hint.display = Hint.mark ++ String.ofList name := by
  obtain ⟨d, h, hint, hmem, hdisplay⟩ := exists_hint_of_any "f `l`@{a;b}".toList "l"
    (by decide +kernel)
  obtain ⟨-, -, -, -, t, ht, -, name, hname, hshown, -⟩ := exists_name_of_mem_hints h hmem
  exact ⟨d, h, hint, hmem, hdisplay, t, ht, name, hname, hshown⟩

/-- In ``` ``{a;b} ``` the hint shows no name. -/
theorem display_of_empty_name : ∃ d, Document.parse "``{a;b}".toList = .ok d ∧
    ∃ hint ∈ d.hints .everything none, hint.display = Hint.mark :=
  exists_hint_of_any _ "" (by decide +kernel)

end ResultHints
