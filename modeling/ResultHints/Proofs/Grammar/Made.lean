import ResultHints.Proofs.Grammar.Sound

/-!
# How nodes are made

A name and a label are that of a lexeme, and an operator that makes a node binds no tighter
than those that made the operand on its left, type tests aside, and less tightly than those
that made the operand on its right (`Makes`). Main statement:

- `made_of_reads`: so all nodes of a phrase are made.
-/

namespace ResultHints

/-! ## One node -/

/-- Whether nodes of the kind are neither names nor labels, nor made by an operator with a
    level. -/
def NodeKind.isPlain : NodeKind → Bool
  | nameReference _ | labeled _ => false
  | k => k.precedence?.isNone

/-- The first of some lexemes is the opening brace of a fragment. -/
def OpensAt (ts : List Lexeme) (u : Fragment) : Prop :=
  ∃ brace ts', ts = brace :: ts' ∧ brace.kind = .symbol .leftBrace ∧ brace.start = u.span.start

/-- How a node is made where some lexemes are ahead. -/
inductive Makes (ts : List Lexeme) : Fragment → Prop
  | name {t : Lexeme} {i : NodeId} : t ∈ ts → t.kind = .identifier →
    Makes ts (.node ⟨⟨.nameReference (identifierName t.text), t.span⟩, i⟩ [])
  /-- A lambda that is labeled comes right behind its label. -/
  | labeled {t : Lexeme} {rest : List Lexeme} {stop : Nat} {i : NodeId} {us : List Fragment} :
    t :: rest <:+ ts →
    t.kind = .labelDefinition → (∀ u ∈ us, u.label.kind = .lambda → OpensAt rest u) →
    Makes ts (.node ⟨⟨.labeled (definedLabel t.text), ⟨t.start, stop⟩⟩, i⟩ us)
  | operator {a : Node} {least level : Precedence} {u v : Fragment} :
    a.kind.precedence? = some level → least.Follows level u →
    (∀ other, v.label.kind.precedence? = some other → level.rank < other.rank) →
    Makes ts (.node a [u, v])
  | plain {a : Node} {us : List Fragment} : a.kind.isPlain → Makes ts (.node a us)

variable {s s₁ s₂ s' : Cursor} {t : Lexeme} {ts : List Lexeme} {n : Nat} {p : Phrase}
  {u v : Fragment} {us vs : List Fragment} {k : NodeKind} {level : Precedence}

theorem NodeKind.precedence?_of_isPlain (h : k.isPlain) : k.precedence? = none := by
  cases k <;> first | rfl | exact Option.isNone_iff_eq_none.1 h

theorem OpensAt.takes (ht : s.Takes t s') (hk : t.kind = .symbol .leftBrace)
    (h : t.start = u.span.start) : OpensAt s.rest u := by
  cases ht
  exact ⟨_, _, rfl, hk, h⟩

theorem Makes.mono {ts' : List Lexeme} (hts : ts <:+ ts') (h : Makes ts u) : Makes ts' u := by
  cases h with
  | name ht hk => exact .name (hts.subset ht) hk
  | labeled ht hk hu => exact .labeled (ht.trans hts) hk hu
  | operator hk hu hv => exact .operator hk hu hv
  | plain hk => exact .plain hk

theorem Makes.name_inv {name : String} (h : Makes ts u)
    (hk : u.label.kind = .nameReference name) : ∃ t ∈ ts, t.kind = .identifier ∧
      name = identifierName t.text ∧ u.span = t.span := by
  cases h with
  | name ht hident =>
    obtain rfl := NodeKind.nameReference.inj hk
    exact ⟨_, ht, hident, rfl, rfl⟩
  | labeled => cases hk
  | operator hlevel =>
    rw [Tree.label_node] at hk
    rw [hk] at hlevel
    cases hlevel
  | plain hplain =>
    rw [Tree.label_node] at hk
    rw [hk] at hplain
    cases hplain

theorem Makes.labeled_inv {label : String} (h : Makes ts u) (hk : u.label.kind = .labeled label) :
    ∃ t rest, t :: rest <:+ ts ∧ t.kind = .labelDefinition ∧ label = definedLabel t.text ∧
      ∀ v ∈ u.children, v.label.kind = .lambda → OpensAt rest v := by
  cases h with
  | labeled ht hlabel hus =>
    obtain rfl := NodeKind.labeled.inj hk
    exact ⟨_, _, ht, hlabel, rfl, hus⟩
  | name => cases hk
  | operator hlevel =>
    rw [Tree.label_node] at hk
    rw [hk] at hlevel
    cases hlevel
  | plain hplain =>
    rw [Tree.label_node] at hk
    rw [hk] at hplain
    cases hplain

/-- A node that an operator with a level makes has two operands. -/
theorem Makes.operands (h : Makes ts u) (hlevel : u.label.kind.precedence? = some level) :
    ∃ least v w, u.children = [v, w] ∧ Precedence.Follows least level v ∧
      ∀ other, w.label.kind.precedence? = some other → level.rank < other.rank := by
  cases h with
  | operator hk hv hw =>
    obtain rfl := Option.some.inj (hk.symm.trans hlevel)
    exact ⟨_, _, _, rfl, hv, hw⟩
  | name | labeled => cases hlevel
  | plain hk => cases (NodeKind.precedence?_of_isPlain hk).symm.trans hlevel

/-! ## Operands -/

/-- A chain is made by no operator that is looser than its level. -/
theorem rank_le_of_chain {least other : Precedence} (h : Reads n (.chain least) s [u] s')
    (hother : u.label.kind.precedence? = some other) : least.rank ≤ other.rank := by
  cases h with
  | chainStart h => cases (Inner.Sound.precedence?_of_operand h).symm.trans hother
  | binary _ _ _ hop hfollows =>
    obtain rfl := Option.some.inj (hop.symm.trans hother)
    exact hfollows.least
  | typing _ _ _ _ hmade hfollows =>
    obtain rfl := Option.some.inj (hmade.symm.trans hother)
    exact hfollows.least

/-- There is a level tighter than that of an operator between expressions. -/
theorem BinaryOperator.rank_lt_next {op : BinaryOperator} (h : op.precedence? = some level) :
    level.rank < level.next.rank := by
  cases op <;> cases h <;> decide

theorem precedence?_of_typeReference (h : Reads n .typeReference s [u] s') :
    u.label.kind.precedence? = none := by
  cases h
  rfl

theorem opensAt_of_lambda (h : Reads n .lambda s [u] s') : OpensAt s.rest u := by
  cases h with
  | lambda ht hk => exact .takes ht hk rfl

/-- An operand that is a lambda begins with its brace. -/
theorem opensAt_of_operand (h : Reads n (.maybe .operand) s us s') :
    ∀ u ∈ us, u.label.kind = .lambda → OpensAt s.rest u := by
  cases h with
  | absent => nofun
  | present h =>
    rw [List.forall_mem_singleton]
    intro hk
    cases h with
    | plainOperand h =>
      cases h with
      | suffixStart h =>
        cases h with
        | lambdaAlone h => exact opensAt_of_lambda h
        | _ => cases hk
      | _ => cases hk
    | _ => cases hk

theorem opensAt_of_wrappedLambda (h : Reads n .wrappedLambda s [u] s')
    (hk : u.label.kind = .lambda) : OpensAt s.rest u := by
  cases h with
  | plainLambda h => exact opensAt_of_lambda h
  | _ => cases hk

/-! ## From one cursor to another -/

/-- Lexemes are taken, and all nodes of some fragments are made of those that were ahead. -/
structure Made (s : Cursor) (us : List Fragment) (s' : Cursor) : Prop where
  suffix : s'.rest <:+ s.rest
  makes : ∀ u ∈ us, u.Each (Makes s.rest)

namespace Made

theorem nil : Made s [] s := ⟨List.suffix_rfl, nofun⟩

theorem append (h : Made s us s₁) (h' : Made s₁ vs s') : Made s (us ++ vs) s' :=
  ⟨h'.suffix.trans h.suffix, List.forall_mem_append.2 ⟨h.makes, fun v hv =>
    (h'.makes v hv).imp fun _ => .mono h.suffix⟩⟩

/-- Nothing is made of the lexemes before, or of those behind. -/
theorem before (h : Made s us s₁) (h' : Made s₁ [] s') : Made s us s' :=
  ⟨h'.suffix.trans h.suffix, h.makes⟩

/-- A node over what was made. -/
theorem node {a : Node} (h : Made s us s') (ha : Makes s.rest (.node a us)) :
    Made s [.node a us] s'.made :=
  ⟨h.suffix, List.forall_mem_singleton.2 (.node ha h.makes)⟩

theorem plain {a : Node} (h : Made s us s') (hk : a.kind.isPlain) :
    Made s [.node a us] s'.made :=
  h.node (.plain hk)

theorem takes (ht : s.Takes t s') : Made s [] s' := by
  cases ht
  exact ⟨List.suffix_cons _ _, nofun⟩

theorem skips {k : TokenKind} (hs : s.Skips k s') : Made s [] s' := by
  obtain ⟨t, ht, -⟩ := hs
  exact .takes ht

theorem moves (hm : s.Moves ts s') : Made s [] s' := by
  induction hm with
  | nil => exact .nil
  | cons ht _ ih => exact (takes ht).append ih

theorem refers {label : Option String} (h : s.Refers label s') : Made s [] s' := by
  cases h with
  | none => exact .nil
  | some ht => exact .takes ht

/-- A name is that of the lexeme taken. -/
theorem name {i : NodeId} (ht : s.Takes t s') (hk : t.kind = .identifier) :
    Made s [.node ⟨⟨.nameReference (identifierName t.text), t.span⟩, i⟩ []] s'.made := by
  have hmem : t ∈ s.rest := by
    cases ht
    exact List.mem_cons_self
  exact (takes ht).node (.name hmem hk)

/-- A label is that of the lexeme taken. -/
theorem labeled {stop : Nat} {i : NodeId} (ht : s.Takes t s₁) (hk : t.kind = .labelDefinition)
    (hu : ∀ u ∈ us, u.label.kind = .lambda → OpensAt s₁.rest u) (h : Made s₁ us s') :
    Made s [.node ⟨⟨.labeled (definedLabel t.text), ⟨t.start, stop⟩⟩, i⟩ us] s'.made := by
  have hrest : t :: s₁.rest <:+ s.rest := by
    cases ht
    exact List.suffix_rfl
  exact ((takes ht).append h).node (.labeled hrest hk hu)

/-- An operator between two operands. -/
theorem operator {a : Node} {least : Precedence} (ht : s₁.Takes t s₂)
    (hk : a.kind.precedence? = some level) (hfollows : least.Follows level u)
    (hv : ∀ other, v.label.kind.precedence? = some other → level.rank < other.rank)
    (hus : Made s [u] s₁) (hvs : Made s₂ [v] s') : Made s [.node a [u, v]] s'.made :=
  (hus.append ((takes ht).append hvs)).node (.operator hk hfollows hv)

end Made

theorem NodeKind.isPlain_of_isEnclosed (h : k.isEnclosed) : k.isPlain := by
  cases k <;> first | rfl | cases h

theorem NodeKind.isPlain_of_isDirective (h : k.isDirective) : k.isPlain := by
  cases k <;> first | rfl | cases h

/-- An assignment has no level. -/
theorem NodeKind.isPlain_of_assignment {sort : TokenKind} {op : BinaryOperator}
    (h : sort.assignment? = some op) : (NodeKind.binary op).isPlain := by
  cases sort with
  | symbol mark => cases mark <;> cases h <;> rfl
  | _ => cases h

/-! ## All nodes -/

/-- All nodes that are read are made in one of these ways. -/
theorem made_of_reads (h : Reads n p s us s') : Made s us s' := by
  induction h with
  | absent | unmarked | noMore | noItem | noRow | noLambdaHead => exact .nil
  | present _ ih | lastItem _ ih | chainStart _ ih | value _ ih | blockBody _ ih | valueBody _ ih
  | lambdaAlone _ ih | suffixStart _ ih | plainOperand _ ih | plainLambda _ ih
  | blockFunctionBody _ ih | valueFunctionBody _ ih | declaration _ ih
  | assignmentStatement _ ih => exact ih
  | marked hs _ ih | semicolon hs _ ih | lateElseBranch hs _ ih => exact (Made.skips hs).append ih
  | more _ _ ihu ihs | row _ _ _ ihu ihs => exact ihu.append ihs
  | item _ hs _ ihu ihs => exact (ihu.before (.skips hs)).append ihs
  | lambdaHead _ hs ih => exact ih.before (.skips hs)
  -- Names, labels and operators.
  | name ht hk | memberName ht hk => exact .name ht hk
  | memberCall ht hk _ _ _ ihus ihvs =>
    exact ((Made.name ht hk).append (ihus.append ihvs)).plain rfl
  | labeled ht hk hus ih => exact .labeled ht hk (opensAt_of_operand hus) ih
  | labeledLambda ht hk hu ih =>
    exact .labeled ht hk (List.forall_mem_singleton.2 (opensAt_of_wrappedLambda hu)) ih
  | binary _ ht _ hlevel hfollows hv ihu ihv =>
    refine .operator ht hlevel hfollows (fun other hother => ?_) ihu ihv
    exact Nat.lt_of_lt_of_le (BinaryOperator.rank_lt_next hlevel) (rank_le_of_chain hv hother)
  | typing _ ht _ _ hlevel hfollows hv ihu ihv =>
    refine .operator ht hlevel hfollows (fun other hother => ?_) ihu ihv
    cases (precedence?_of_typeReference hv).symm.trans hother
  | assignment _ ht hop _ ihu ihv =>
    exact (ihu.append ((Made.takes ht).append ihv)).plain (NodeKind.isPlain_of_assignment hop)
  -- All other nodes, over lexemes and what follows them.
  | typeReference hm => exact (Made.moves hm).plain rfl
  | literal ht => exact (Made.takes ht).plain rfl
  | this ht _ hr | break_ ht _ hr | continue_ ht _ hr =>
    exact ((Made.takes ht).append (.refers hr)).plain rfl
  | directive ht hm hk =>
    exact ((Made.takes ht).append (.moves hm)).plain (NodeKind.isPlain_of_isDirective hk)
  | namedArgument ht _ hs _ ih =>
    exact ((Made.takes ht).append ((Made.skips hs).append ih)).plain rfl
  | argumentList ht _ _ hs ih | parenthesized ht _ _ hs ih =>
    exact ((Made.takes ht).append (ih.before (.skips hs))).plain rfl
  | annotationEntry ht _ _ ih | typeCondition ht _ _ ih | membershipCondition ht _ _ ih
  | throw_ ht _ _ ih | leading ht _ _ ih => exact ((Made.takes ht).append ih).plain rfl
  | return_ ht _ hr _ ih => exact ((Made.takes ht).append ((Made.refers hr).append ih)).plain rfl
  | block ht _ _ ht' _ ih => exact ((Made.takes ht).append (ih.before (.takes ht'))).plain rfl
  | when_ ht _ _ hs _ hs' ihus ihes =>
    exact ((Made.takes ht).append (ihus.append
      ((Made.skips hs).append (ihes.before (.skips hs'))))).plain rfl
  | parameter ht _ _ _ ihus ihvs => exact ((Made.takes ht).append (ihus.append ihvs)).plain rfl
  | property ht _ hname _ _ _ ihus ihvs =>
    exact ((Made.takes ht).append ((Made.takes hname).append (ihus.append ihvs))).plain rfl
  | function ht _ hm _ _ hs _ hs' _ _ ihps ihus ihvs =>
    have hps := (Made.moves hm).append ((Made.skips hs).append (ihps.before (.skips hs')))
    exact ((Made.takes ht).append ((hps.append ihus).append ihvs)).plain rfl
  -- Over fragments.
  | argument _ ih | lambdaArgument _ _ ih | valueCondition _ ih => exact ih.plain rfl
  | enclosed hk hs _ hs' ih =>
    have hbody := ih.before (.skips hs')
    exact (Made.skips hs).append (hbody.plain (NodeKind.isPlain_of_isEnclosed hk))
  | elseBranch hs _ ih => exact (Made.skips hs).append (ih.plain rfl)
  | elseEntry hs hs' _ ih => exact ((Made.skips hs).append ((Made.skips hs').append ih)).plain rfl
  | trailing _ ht _ ih => exact (ih.before (.takes ht)).plain rfl
  | whenEntry _ _ hs _ ihcs ihb => exact (ihcs.append ((Made.skips hs).append ihb)).plain rfl
  | qualified _ hs _ ihu ihv => exact (ihu.append ((Made.skips hs).append ihv)).plain rfl
  | arrayAccess _ hs _ _ hs' ihu ihus =>
    exact (ihu.append ((Made.skips hs).append (ihus.before (.skips hs')))).plain rfl
  | call _ _ _ _ ihu ihus ihvs => exact (ihu.append (ihus.append ihvs)).plain rfl
  | annotated _ _ _ ihes ihus => exact (ihes.append ihus).plain rfl
  | annotatedLambda _ _ _ ihes ihu | annotatedDeclaration _ _ _ _ ihes ihu =>
    exact (ihes.append ihu).plain rfl
  -- Several nodes at once.
  | ifElse ht _ _ _ _ _ ihc ihb ihes =>
    exact ((Made.takes ht).append (ihc.append
      ((ihb.plain (a := ⟨⟨.thenBranch, _⟩, _⟩) rfl).append ihes))).plain rfl
  | forLoop ht _ hs hname _ hin _ hs' _ ihu ihb =>
    have hhead := (Made.skips hs).append ((Made.takes hname).append (.skips hin))
    exact ((Made.takes ht).append (hhead.append
      (((ihu.before (.skips hs')).plain (a := ⟨⟨.loopRange, _⟩, _⟩) rfl).append
        (ihb.plain (a := ⟨⟨.loopBody, _⟩, _⟩) rfl)))).plain rfl
  | whileLoop ht _ _ _ ihc ihb =>
    exact ((Made.takes ht).append (ihc.append
      (ihb.plain (a := ⟨⟨.loopBody, _⟩, _⟩) rfl))).plain rfl
  | lambda ht _ _ _ ht' _ ihps ihus =>
    exact (((Made.takes ht).append (ihps.append
      ((ihus.before (.takes ht')).plain (a := ⟨⟨.block, _⟩, _⟩) rfl))).plain
        (a := ⟨⟨.functionLiteral, _⟩, _⟩) rfl).plain rfl

theorem made_of_readsFile (h : ReadsFile n s u s') : Made s [u] s' := by
  cases h with
  | mk hps his hus =>
    exact (((made_of_reads hps).append (made_of_reads his)).append (made_of_reads hus)).plain rfl

end ResultHints
