import ResultHints.Proofs.Document.Regular

/-!
# Children in a regular document

The layout of the children of a node (`Document.Regular.follows`), read off place by
place for the kinds of nodes that pass values on, and told for every node of a text that
parses (`layout_of_parse`).
-/

namespace ResultHints

/-! ## What may follow -/

namespace Follows

variable {k : NodeKind} {ts : List (Tree NodeKind)}

theorem ifElse_inv (h : Follows .ifElse ts) : ∃ c t es, ts = c :: t :: es ∧
    c.label = .condition ∧ t.label = .thenBranch ∧ AtMostOne (· = .elseBranch) es := by
  cases h with
  | ifElse hc ht hes => exact ⟨_, _, _, rfl, hc, ht, hes⟩
  | controlBody hk | typing hk | value hk | leaf hk => cases hk

theorem controlBody_inv (h : Follows k ts) (hk : k.isControlBody) :
    ∃ t, ts = [t] ∧ t.label.isExpression := by
  cases h with
  | controlBody _ ht => exact ⟨_, rfl, ht⟩
  | typing hc | value hc | leaf hc => cases k <;> cases hk <;> cases hc
  | _ => cases hk

theorem whenEntry_inv (h : Follows k ts) (hk : k.isWhenEntry) :
    ∃ cs b, ts = cs ++ [b] ∧ b.label.isExpression := by
  cases h with
  | whenEntry _ _ hb => exact ⟨_, _, rfl, hb⟩
  | controlBody hc | typing hc | value hc | leaf hc =>
    cases k <;> cases hk
    cases hc
  | _ => cases hk

theorem parenthesized_inv (h : Follows .parenthesized ts) : ∃ t, ts = [t] ∧ t.label.isValue := by
  cases h with
  | value _ ht => exact ⟨_, rfl, ht⟩
  | controlBody hk | typing hk | leaf hk => cases hk

theorem labeled_inv {label : String} (h : Follows (.labeled label) ts) :
    AtMostOne (·.isValue) ts := by
  cases h with
  | labeled hts => exact hts
  | controlBody hk | typing hk | value hk | leaf hk => cases hk

theorem annotated_inv (h : Follows .annotated ts) : ∃ es us, ts = es ++ us ∧ es ≠ [] ∧
    (∀ e ∈ es, e.label.isAnnotationEntry) ∧ AtMostOne (·.isStatement) us := by
  cases h with
  | annotated hne hes hus => exact ⟨_, _, rfl, hne, hes, hus⟩
  | controlBody hk | typing hk | value hk | leaf hk => cases hk

theorem block_inv (h : Follows .block ts) : ∀ t ∈ ts, t.label.isStatement := by
  cases h with
  | block hts => exact hts
  | controlBody hk | typing hk | value hk | leaf hk => cases hk

theorem functionLiteral_inv (h : Follows .functionLiteral ts) : ∃ ps b, ts = ps ++ [b] ∧
    (∀ p ∈ ps, p.label.isParameter) ∧ b.label = .block := by
  cases h with
  | functionLiteral hps hb => exact ⟨_, _, rfl, hps, hb⟩
  | controlBody hk | typing hk | value hk | leaf hk => cases hk

/-- Only lambdas have function literals, and nothing else. -/
theorem eq_lambda_of_mem (h : Follows k ts) {t : Tree NodeKind} (ht : t ∈ ts)
    (hlabel : t.label = .functionLiteral) : k = .lambda ∧ ts = [t] := by
  cases h with
  | lambda => exact ⟨rfl, by rw [List.mem_singleton.1 ht]⟩
  | lambdaArgument hu =>
    obtain rfl := List.mem_singleton.1 ht
    have hvalue := hu.isValue
    rw [hlabel] at hvalue
    cases hvalue
  | qualified hu hv =>
    have hvalue := hv.isValue
    rcases List.mem_pair.1 ht with rfl | rfl
    · rw [hlabel] at hu
      cases hu
    · rw [hlabel] at hvalue
      cases hvalue
  | _ =>
    -- All other classes of children leave function literals out.
    grind [AtMostOne, NodeKind.isDirective, NodeKind.isStatement, NodeKind.isValue,
      NodeKind.isDeclaration, NodeKind.isExpression, NodeKind.isParameter,
      NodeKind.isTypeReference, NodeKind.isArgument, NodeKind.isAnnotationEntry,
      NodeKind.isWhenEntry, NodeKind.isWhenCondition]

end Follows

/-! ## Places -/

theorem Location.mem_children_of_base? {x y : Place} (h : x.base? = some y) : y ∈ x.children := by
  unfold base? at h
  split at h
  · exact List.mem_of_head? h
  · exact List.mem_of_find?_eq_some h
  · cases h

namespace Document.Regular

open Location

variable {d : Document} (hd : d.Regular) {x y : Place}

include hd

/-- An `if` has a condition, a then branch, and an else branch or none. -/
theorem children_of_ifElse (hx : x ∈ d.nodes) (hk : x.kind = .ifElse) :
    ∃ c t, c.kind = .condition ∧ t.kind = .thenBranch ∧
      (x.children = [c, t] ∨ ∃ e, e.kind = .elseBranch ∧ x.children = [c, t, e]) := by
  obtain ⟨c', t', es', hts, hc, ht, hle, hes⟩ := (hk ▸ hd.follows hx).ifElse_inv
  obtain ⟨c, us, hxs, rfl, hus⟩ := List.map_eq_cons_iff.1 hts
  obtain ⟨t, es, rfl, rfl, rfl⟩ := List.map_eq_cons_iff.1 hus
  rw [label_outline] at hc ht
  refine ⟨c, t, hc, ht, ?_⟩
  match es with
  | [] => exact .inl hxs
  | [e] => exact .inr ⟨e, e.label_outline ▸ hes _ (by simp), hxs⟩
  | _ :: _ :: _ => simp at hle

/-- A branch of an `if` or the body of a loop has just what it evaluates. -/
theorem children_of_controlBody (hx : x ∈ d.nodes) (hk : x.kind.isControlBody) :
    ∃ y, x.children = [y] ∧ y.kind.isExpression := by
  obtain ⟨t, hts, ht⟩ := (hd.follows hx).controlBody_inv hk
  obtain ⟨y, hxs, rfl⟩ := List.map_eq_singleton_iff.1 hts
  exact ⟨y, hxs, y.label_outline ▸ ht⟩

/-- An entry of a `when` ends with what it evaluates. -/
theorem children_of_whenEntry (hx : x ∈ d.nodes) (hk : x.kind.isWhenEntry) :
    ∃ cs y, x.children = cs ++ [y] ∧ y.kind.isExpression := by
  obtain ⟨cs', b', hts, hb⟩ := (hd.follows hx).whenEntry_inv hk
  obtain ⟨cs, bs, hxs, rfl, hbs⟩ := List.map_eq_append_iff.1 hts
  obtain ⟨y, rfl, rfl⟩ := List.map_eq_singleton_iff.1 hbs
  exact ⟨cs, y, hxs, y.label_outline ▸ hb⟩

/-- Parentheses have just the expression inside. -/
theorem children_of_parenthesized (hx : x ∈ d.nodes) (hk : x.kind = .parenthesized) :
    ∃ y, x.children = [y] ∧ y.kind.isValue := by
  obtain ⟨t, hts, ht⟩ := (hk ▸ hd.follows hx).parenthesized_inv
  obtain ⟨y, hxs, rfl⟩ := List.map_eq_singleton_iff.1 hts
  exact ⟨y, hxs, y.label_outline ▸ ht⟩

/-- What a label or annotations stand before is the last child, behind the entries of annotations
    only. -/
theorem children_of_base? (hx : x ∈ d.nodes) (h : x.base? = some y) :
    ∃ es, x.children = es ++ [y] ∧ ∀ e ∈ es, e.kind.isAnnotationEntry := by
  have hfollows := hd.follows hx
  unfold base? at h
  split at h
  · rename_i label hk
    have hle := (hk ▸ hfollows).labeled_inv.1
    obtain ⟨ys, hchildren⟩ := List.head?_eq_some_iff.1 h
    rw [hchildren, List.length_map, List.length_cons] at hle
    obtain rfl := List.length_eq_zero_iff.1 (Nat.le_zero.1 (Nat.le_of_succ_le_succ hle))
    exact ⟨[], hchildren, nofun⟩
  · rename_i hk
    obtain ⟨es, us, hts, -, hes, hle, -⟩ := (hk ▸ hfollows).annotated_inv
    obtain ⟨as, bs, hchildren, rfl, rfl⟩ := List.map_eq_append_iff.1 hts
    have hentries : ∀ a ∈ as, a.kind.isAnnotationEntry := fun a ha => by
      rw [← label_outline]
      exact hes _ (List.mem_map_of_mem ha)
    rw [hchildren, List.find?_append, List.find?_eq_none.2 fun a ha => by simp [hentries a ha],
      Option.none_or] at h
    have hy := List.mem_of_find?_eq_some h
    rw [List.length_map] at hle
    obtain ⟨z, rfl⟩ := List.length_eq_one_iff.1
      (Nat.le_antisymm hle (List.length_pos_of_mem hy))
    rw [List.mem_singleton.1 hy]
    exact ⟨as, hchildren, hentries⟩
  · cases h

/-- What a label or annotations stand before is a statement, and so no block. -/
theorem isStatement_of_base? (hx : x ∈ d.nodes) (h : x.base? = some y) : y.kind.isStatement := by
  have hfollows := hd.follows hx
  unfold base? at h
  split at h
  · rename_i label hk
    have hy := List.mem_of_head? h
    have hvalue := (hk ▸ hfollows).labeled_inv.2 _ (List.mem_map_of_mem hy)
    rw [label_outline] at hvalue
    exact NodeKind.isStatement_of_isValue hvalue
  · rename_i hk
    obtain ⟨es, us, hts, -, hes, -, hus⟩ := (hk ▸ hfollows).annotated_inv
    have hy := List.mem_map_of_mem (f := outline) (List.mem_of_find?_eq_some h)
    have hentry := List.find?_some h
    rw [hts, List.mem_append] at hy
    rcases hy with hy | hy
    · have := hes _ hy
      rw [label_outline] at this
      simp [this] at hentry
    · have := hus _ hy
      rwa [label_outline] at this
  · cases h

/-- What a label or annotations stand before begins behind them. -/
theorem start_lt_of_base? (hx : x ∈ d.nodes) (h : x.base? = some y) :
    x.span.start < y.span.start := by
  have hcovers := hd.covers_of_mem hx
  unfold base? at h
  split at h
  · rename_i label hk
    refine hcovers.labeled ?_ _ (tree_mem_of_mem_children (List.mem_of_head? h))
    rw [show x.tree.label.kind = _ from hk]
    rfl
  · rename_i hk
    obtain ⟨es, us, hts, hne, hes, -⟩ := (hk ▸ hd.follows hx).annotated_inv
    obtain ⟨e, es, rfl⟩ := List.exists_cons_of_ne_nil hne
    obtain ⟨z, zs, hchildren, rfl, -⟩ := List.map_eq_cons_iff.1 hts
    have hentry := hes _ List.mem_cons_self
    rw [label_outline] at hentry
    rw [hchildren, List.find?_cons_of_neg (by simp [hentry])] at h
    have htrees : x.tree.children = z.tree :: zs.map Location.tree := by
      rw [← map_tree_children, hchildren, List.map_cons]
    obtain ⟨hinside, hdelimited, -⟩ := hcovers
    rw [htrees] at hinside hdelimited
    obtain ⟨-, -, hlt⟩ := hdelimited z.tree List.mem_cons_self fun he =>
      NodeKind.noConfusion (hk.symm.trans he.1)
    have hle := (hinside.2.2.of_mem (List.mem_map_of_mem (List.mem_of_find?_eq_some h))).1
    exact Nat.lt_of_le_of_lt hinside.1 (Nat.lt_of_lt_of_le hlt hle)
  · cases h

/-- The node right above a function literal is a lambda, which has no other child. -/
theorem lambda_of_functionLiteral (hx : x ∈ d.nodes) (hy : y ∈ x.children)
    (hk : y.kind = .functionLiteral) : x.kind = .lambda ∧ x.children = [y] := by
  obtain ⟨hlambda, hts⟩ := (hd.follows hx).eq_lambda_of_mem (List.mem_map_of_mem hy)
    (y.label_outline.trans hk)
  refine ⟨hlambda, ?_⟩
  obtain ⟨z, hxs, -⟩ := List.map_eq_singleton_iff.1 hts
  rw [hxs] at hy ⊢
  rw [List.mem_singleton.1 hy]

/-- A function literal has a body. -/
theorem exists_body (hx : x ∈ d.nodes) (hk : x.kind = .functionLiteral) :
    ∃ body, x.body? = some body := by
  obtain ⟨ps, b, hts, -, hb⟩ := (hk ▸ hd.follows hx).functionLiteral_inv
  obtain ⟨as, bs, hchildren, -, hbs⟩ := List.map_eq_append_iff.1 hts
  obtain ⟨body, rfl, rfl⟩ := List.map_eq_singleton_iff.1 hbs
  rw [label_outline] at hb
  rw [body?, if_pos hk, ← Option.isSome_iff_exists, List.find?_isSome]
  exact ⟨body, by simp [hchildren], by rw [hb]; rfl⟩

end Document.Regular

/-! ## The layout of a source text -/

/-- The children of every node of a source text are those that its kind asks for, in their
    order. -/
theorem layout_of_parse {source : List Char} {d : Document} (h : Document.parse source = .ok d)
    {x : Place} (hx : x ∈ d.nodes) : Follows x.kind (x.children.map Location.outline) :=
  (regular_of_parse h).follows hx

/-- In `f(1)@A l@{x->}` the call has a callee, arguments and a lambda argument. -/
theorem layout_of_call_with_lambda : ∃ d, Document.parse "f(1)@A l@{x->}".toList = .ok d ∧
    ∃ x ∈ d.nodes, x.children.map Location.kind =
        [.nameReference "f", .argumentList, .lambdaArgument] ∧
      Follows x.kind (x.children.map Location.outline) := by
  have hparse : (Document.parse "f(1)@A l@{x->}".toList).toOption.any (fun d =>
      d.nodes.any fun x => x.children.map Location.kind ==
        [.nameReference "f", .argumentList, .lambdaArgument]) = true := by
    decide +kernel
  obtain ⟨d, h, hp⟩ := exists_of_parse_any hparse
  obtain ⟨x, hx, hkinds⟩ := List.any_eq_true.1 hp
  exact ⟨d, h, x, hx, beq_iff_eq.1 hkinds, layout_of_parse h hx⟩

end ResultHints
