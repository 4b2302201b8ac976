import ResultHints.Proofs.Document.Children

/-!
# Where the nodes of a document lie

The spans of a tree against the tokens of its text and against each other. A node is
delimited by two tokens that are no trivia (`Document.IsDelimited`); but the file covers
the whole text, with the blanks around it, and the body of a lambda without statements is
the point before the closing brace (`Document.IsBeforeBrace`). Main statement:

- `spans_of_parse`: the extent of every node of a source text, and the order of its
  children.
-/

namespace ResultHints

namespace Location

/-- Whether the node is the block of a lambda, and has no statements. -/
def isEmptyBody (x : Place) : Bool :=
  x.kind == .block && x.children.isEmpty && x.parent?.any fun p => p.kind == .functionLiteral

theorem isEmptyBody_iff {x p : Place} (h : x ∈ p.children) :
    x.isEmptyBody ↔ IsEmptyBody p.tree x.tree := by
  have hchildren : x.children = [] ↔ x.tree.children = [] := List.map_eq_nil_iff
  rw [isEmptyBody, parent?_of_mem_children h, Option.any_some, IsEmptyBody, ← hchildren,
    Bool.and_eq_true, Bool.and_eq_true, beq_iff_eq, beq_iff_eq, List.isEmpty_iff]
  exact ⟨fun ⟨⟨hk, hnil⟩, hp⟩ => ⟨hp, hk, hnil⟩, fun ⟨hp, hk, hnil⟩ => ⟨⟨hk, hnil⟩, hp⟩⟩

end Location

namespace Document

variable {d : Document} {x y : Place}

/-- The tokens of the document that are no trivia. -/
def significant (d : Document) : List Token := d.tokens.toList.filter fun t => !t.kind.isTrivia

/-- The node begins where a significant token begins, and ends where one ends that is the same
    or comes later. -/
def IsDelimited (d : Document) (x : Place) : Prop :=
  ∃ t ∈ d.significant, ∃ u ∈ d.significant,
    t.start = x.span.start ∧ u.stop = x.span.stop ∧ t.start ≤ u.start

/-- The node lies in the function literal of a lambda, as the point where the closing brace of
    the lambda begins. -/
def IsBeforeBrace (d : Document) (x : Place) : Prop :=
  ∃ literal scope, x.parent? = some literal ∧ literal.parent? = some scope ∧
    scope.kind = .lambda ∧ ∃ t ∈ d.significant, t.kind = .symbol .rightBrace ∧
      t.stop = scope.span.stop ∧ x.span = .point t.start

theorem significant_eq (d : Document) : d.significant = d.lexemes.map (·.toToken) :=
  (map_toToken_lexemes false d.tokens.toList).symm

theorem mem_significant {t : Lexeme} (h : t ∈ d.lexemes) : t.toToken ∈ d.significant := by
  rw [significant_eq]
  exact List.mem_map_of_mem h

namespace Regular

variable (hd : d.Regular)

include hd

theorem isDelimited_of_delimited (h : x.span.Delimited d.lexemes) : d.IsDelimited x := by
  obtain ⟨⟨t, ht, hstart⟩, ⟨u, hu, hstop⟩, hlt⟩ := h
  refine ⟨_, mem_significant ht, _, mem_significant hu, hstart, hstop, ?_⟩
  rw [← hstart, ← hstop] at hlt
  exact hd.ordered.start_le_start ht hu hlt

/-- Every node but the root is delimited by tokens, unless it is the body of a lambda without
    statements. -/
theorem isDelimited (hx : x ∈ d.nodes) (hne : x ≠ d.root) (h : ¬x.isEmptyBody) :
    d.IsDelimited x := by
  obtain ⟨p, hp, hxp⟩ := exists_parent_of_ne hx hne
  rw [Location.isEmptyBody_iff hxp] at h
  exact hd.isDelimited_of_delimited
    ((hd.covers_of_mem hp).delimited _ (Location.tree_mem_of_mem_children hxp) h)

/-- The body of a lambda without statements is a point before its closing brace. -/
theorem isBeforeBrace (hx : x ∈ d.nodes) (hne : x ≠ d.root) (h : x.isEmptyBody) :
    d.IsBeforeBrace x := by
  obtain ⟨p, hp, hxp⟩ := exists_parent_of_ne hx hne
  have hbody := (Location.isEmptyBody_iff hxp).1 h
  have hliteral : p.kind = .functionLiteral := hbody.1
  obtain ⟨s, hs, hps⟩ := hd.exists_parent hp (by rw [hliteral]; nofun)
  obtain ⟨hlambda, -⟩ := hd.lambda_of_functionLiteral hs hps hliteral
  obtain ⟨t, ht, hbrace, hpoint, hstop⟩ :=
    (hd.covers_of_mem hp).emptyBody _ (Location.tree_mem_of_mem_children hxp) hbody
  have hspan : p.span = s.span :=
    (hd.covers_of_mem hs).literal hlambda _ (Location.tree_mem_of_mem_children hps)
  refine ⟨p, s, Location.parent?_of_mem_children hxp, Location.parent?_of_mem_children hps,
    hlambda, t.toToken, mem_significant ht, hbrace, ?_, hpoint⟩
  rw [← hspan]
  exact hstop

/-- The children of a node come one after the other. -/
theorem pairwise_children (hx : x ∈ d.nodes) :
    x.children.Pairwise fun a b => a.span.stop ≤ b.span.start := by
  rw [Location.children, List.pairwise_map]
  exact (hd.covers_of_mem hx).inside.pairwise

/-- Of two children of a node one ends before the other begins. -/
theorem apart_of_mem_children {z : Place} (hx : x ∈ d.nodes) (hy : y ∈ x.children)
    (hz : z ∈ x.children) (hne : y ≠ z) :
    y.span.stop ≤ z.span.start ∨ z.span.stop ≤ y.span.start := by
  have hapart : x.children.Pairwise fun a b =>
      a.span.stop ≤ b.span.start ∨ b.span.stop ≤ a.span.start :=
    (hd.pairwise_children hx).imp fun h => .inl h
  have hsymm : Std.Symm fun a b : Place =>
      a.span.stop ≤ b.span.start ∨ b.span.stop ≤ a.span.start := ⟨fun _ _ => Or.symm⟩
  exact hapart.forall hy hz hne

/-- Of two nodes that overlap one lies below the other. -/
theorem nested_of_overlap (hx : x ∈ d.nodes) (hy : y ∈ d.nodes) (hlt : x.span.start < y.span.stop)
    (hlt' : y.span.start < x.span.stop) : x ∈ y.walk ∨ y ∈ x.walk := by
  -- Both lie below a common node, and by descent below the same child of it.
  have hbelow : ∀ r : Place, r ∈ d.nodes → x ∈ r.walk → y ∈ r.walk → x ∈ y.walk ∨ y ∈ x.walk := by
    intro r
    refine Location.descent (P := fun r => r ∈ d.nodes → x ∈ r.walk → y ∈ r.walk →
      x ∈ y.walk ∨ y ∈ x.walk) (fun r ih hr hxr hyr => ?_) r
    rcases Location.mem_walk_iff.1 hxr with rfl | ⟨b, hb, hxb⟩
    · exact .inr hyr
    rcases Location.mem_walk_iff.1 hyr with rfl | ⟨c, hc, hyc⟩
    · exact .inl hxr
    have hbr := Location.mem_walk_of_mem_children hr hb
    have hcr := Location.mem_walk_of_mem_children hr hc
    by_cases hbc : b = c
    · exact ih b (Location.mem_descendants_of_mem_children hb) hbr hxb (hbc ▸ hyc)
    · have hbx := hd.span_of_mem_walk hbr hxb
      have hcy := hd.span_of_mem_walk hcr hyc
      rcases hd.apart_of_mem_children hr hb hc hbc with h | h <;> omega
  exact hbelow d.root (Location.self_mem_walk _) hx hy

/-! ## Bases -/

variable {p z : Place}

/-- What a label or annotations stand before is delimited by lexemes, as it is no block. -/
theorem delimited_of_base? (hx : x ∈ d.nodes) (h : x.base? = some y) :
    y.span.Delimited d.lexemes := by
  have hmem := Location.mem_children_of_base? h
  have hblock : y.kind ≠ .block := by
    intro hk
    have hstatement := hd.isStatement_of_base? hx h
    rw [hk] at hstatement
    cases hstatement
  exact (hd.covers_of_mem hx).delimited _ (Location.tree_mem_of_mem_children hmem)
    fun he => hblock he.2.1

theorem start_lt_stop_of_base? (hx : x ∈ d.nodes) (h : x.base? = some y) :
    y.span.start < y.span.stop := (hd.delimited_of_base? hx h).2.2

/-- Whatever else has the base in it begins before it. -/
theorem start_lt_of_base?_mem_walk (hx : x ∈ d.nodes) (h : x.base? = some y) (hz : z ∈ d.nodes)
    (hyz : y ∈ z.walk) (hne : y ≠ z) : z.span.start < y.span.start := by
  have hancestor := (Location.mem_ancestors_of_mem_walk hyz).resolve_left hne
  rw [Location.ancestors_of_mem_children (Location.mem_children_of_base? h), List.mem_cons]
    at hancestor
  have hxz : x ∈ z.walk := (Location.mem_walk_iff_mem_ancestors hd.above hx).2 <|
    hancestor.imp_left Eq.symm
  exact (hd.span_of_mem_walk hz hxz).1.trans_lt (hd.start_lt_of_base? hx h)

/-- Two bases do not begin at the same offset. -/
theorem start_ne_of_base? (hx : x ∈ d.nodes) (h : x.base? = some y) (hp : p ∈ d.nodes)
    (hz : p.base? = some z) (hne : z ≠ y) : z.span.start ≠ y.span.start := by
  intro heq
  have hy := Location.mem_walk_of_mem_children hx (Location.mem_children_of_base? h)
  have hznode := Location.mem_walk_of_mem_children hp (Location.mem_children_of_base? hz)
  have hlt := hd.start_lt_stop_of_base? hx h
  have hlt' := hd.start_lt_stop_of_base? hp hz
  rcases hd.nested_of_overlap hznode hy (by omega) (by omega) with hzy | hyz
  · have := hd.start_lt_of_base?_mem_walk hp hz hy hzy hne
    omega
  · have := hd.start_lt_of_base?_mem_walk hx h hznode hyz hne.symm
    omega

/-- The base of a label or of annotations that are in no node of some kind begins strictly inside no
    such node. -/
theorem stop_le_of_base? {k : NodeKind} (hx : x ∈ d.nodes) (h : x.base? = some y)
    (hno : ∀ a ∈ y.ancestors, a.kind ≠ k) (hz : z ∈ d.nodes) (hk : z.kind = k)
    (hlt : z.span.start < y.span.start) : z.span.stop ≤ y.span.start := by
  by_contra hstop
  have hy := Location.mem_walk_of_mem_children hx (Location.mem_children_of_base? h)
  have hlt' := hd.start_lt_stop_of_base? hx h
  rcases hd.nested_of_overlap hz hy (by omega) (by omega) with hzy | hyz
  · have := (hd.span_of_mem_walk hy hzy).1
    omega
  · obtain rfl | hancestor := Location.mem_ancestors_of_mem_walk hyz
    · omega
    · exact hno z hancestor hk

end Regular

end Document

theorem source_of_parse {source : List Char} {d : Document} (h : Document.parse source = .ok d) :
    d.source = source := by
  obtain ⟨tokens, u, s', -, -, rfl⟩ := exists_of_parse h
  rfl

/-- The file covers the whole text, and every other node goes from the beginning of a token to
    the end of one, but the body of a lambda without statements; children lie inside their node,
    one after the other. -/
theorem spans_of_parse {source : List Char} {d : Document} (h : Document.parse source = .ok d) :
    d.root.kind = .file ∧ d.root.span = ⟨0, byteLength source⟩ ∧
    ∀ x ∈ d.nodes,
      (x ≠ d.root → ¬x.isEmptyBody → d.IsDelimited x) ∧
      (x ≠ d.root → x.isEmptyBody → d.IsBeforeBrace x) ∧
      (∀ y ∈ x.children, x.span.start ≤ y.span.start ∧ y.span.start ≤ y.span.stop ∧
        y.span.stop ≤ x.span.stop) ∧
      x.children.IsChain fun a b => a.span.stop ≤ b.span.start := by
  have hd := regular_of_parse h
  refine ⟨hd.isFile, source_of_parse h ▸ hd.span, fun x hx => ⟨hd.isDelimited hx,
    hd.isBeforeBrace hx, fun y hy => ?_, (hd.pairwise_children hx).isChain⟩⟩
  obtain ⟨hlo, hhi⟩ := hd.span_of_mem_children hx hy
  have hmem := Location.mem_walk_of_mem_children hx hy
  obtain ⟨-, -, hle⟩ := hd.span_boundary hmem (hd.child_ne_root hy)
  exact ⟨hlo, hle, hhi⟩

/-- In `f{}` the body of the lambda is a point before the brace, and the file goes from `0` to
    `3`. -/
theorem spans_of_empty_lambda : ∃ d, Document.parse "f{}".toList = .ok d ∧
    d.root.span = ⟨0, 3⟩ ∧ ∃ x ∈ d.nodes, x.isEmptyBody ∧ d.IsBeforeBrace x := by
  have hparse : (Document.parse "f{}".toList).toOption.any (fun d =>
      d.nodes.any fun x => x.isEmptyBody) = true := by
    decide +kernel
  obtain ⟨d, h, hp⟩ := exists_of_parse_any hparse
  obtain ⟨x, hx, hbody⟩ := List.any_eq_true.1 hp
  obtain ⟨hfile, hspan, hnodes⟩ := spans_of_parse h
  obtain ⟨-, hbrace, -⟩ := hnodes x hx
  refine ⟨d, h, hspan, x, hx, hbody, hbrace ?_ hbody⟩
  rintro rfl
  simp [Location.isEmptyBody, hfile] at hbody

end ResultHints
