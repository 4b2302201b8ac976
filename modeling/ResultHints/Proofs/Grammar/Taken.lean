import ResultHints.Proofs.Grammar.Reader
import ResultHints.Proofs.Tree.Each

/-!
# What a phrase takes

What is told of the lexemes that a phrase takes. Main statements:

- `begins_of_reads`: the lexeme that a statement or an expression begins with is of one of
  the kinds in `TokenKind.begins`;
- `level_of_reads`: all brackets that are opened in a phrase are closed in it;
- `took_of_reads`: the lexemes taken are the first ones ahead, at least one for each
  fragment, and the texts of types are those of their spans.
-/

namespace ResultHints

variable {s s₁ s₂ s' : Cursor} {t : Lexeme} {ts : List Lexeme} {k : TokenKind} {n : Nat}
  {p : Phrase} {u v : Fragment} {us vs : List Fragment}

/-! ## The first lexeme -/

/-- The kinds of lexemes that statements begin with. -/
def TokenKind.begins : TokenKind → Bool
  | identifier | labelDefinition | annotationName | literal _ => true
  | keyword .fun_ | keyword .val_ | keyword .var_ | keyword .if_ | keyword .when_ | keyword .for_
  | keyword .while_ | keyword .return_ | keyword .throw_ | keyword .break_ | keyword .continue_
  | keyword .this_ | keyword .null_ | keyword .true_ | keyword .false_ => true
  | symbol .leftParen | symbol .leftBrace | symbol .plus | symbol .minus | symbol .bang
  | symbol .plusPlus | symbol .minusMinus => true
  | _ => false

/-- The phrases that begin as statements do. -/
def Phrase.begins : Phrase → Bool
  | chain _ | assignment | argument | lambdaArgument | body | primary | suffixed | operand
  | wrappedLambda | lambda | block | declaration | statement | annotationEntry => true
  | _ => false

/-- The next lexeme is of a kind that statements begin with. -/
def Cursor.Begins (s : Cursor) : Prop := ∃ t ts, s.rest = t :: ts ∧ t.kind.begins

theorem Cursor.Takes.begins (ht : s.Takes t s') (hk : t.kind.begins) : s.Begins := by
  cases ht with
  | mk _ t ts => exact ⟨t, ts, rfl, hk⟩

theorem begins_of_leading {op : LeadingOperator} (h : k.leading? = some op) : k.begins := by
  cases k with
  | symbol mark => cases mark <;> first | rfl | cases h
  | _ => cases h

theorem begins_of_literal {sort : LiteralKind} (h : k.literal? = some sort) : k.begins := by
  cases k with
  | keyword word => cases word <;> first | rfl | cases h
  | literal => rfl
  | _ => cases h

/-- Annotation entries begin with the first of them. -/
theorem begins_of_entries {es : List Fragment} (h : Reads n (.many .annotationEntry) s es s')
    (hne : es ≠ []) : s.Begins := by
  cases h with
  | noMore => exact absurd rfl hne
  | more hu _ =>
    cases hu with
    | annotationEntry ht hk => exact ht.begins (by rw [hk]; rfl)

theorem begins_of_reads (h : Reads n p s us s') (hp : p.begins) : s.Begins := by
  induction h with
  | chainStart _ ih | value _ ih | blockBody _ ih | valueBody _ ih | lambdaAlone _ ih
  | suffixStart _ ih | plainOperand _ ih | plainLambda _ ih | declaration _ ih
  | assignmentStatement _ ih | argument _ ih | lambdaArgument _ _ ih => exact ih rfl
  | binary _ _ _ _ _ _ ih | typing _ _ _ _ _ _ _ ih | assignment _ _ _ _ ih | qualified _ _ _ ih
  | trailing _ _ _ ih | arrayAccess _ _ _ _ _ ih | call _ _ _ _ ih => exact ih rfl
  | namedArgument ht hk | annotationEntry ht hk | ifElse ht hk | when_ ht hk | forLoop ht hk
  | whileLoop ht hk | name ht hk | this ht hk | return_ ht hk | throw_ ht hk | break_ ht hk
  | continue_ ht hk | parenthesized ht hk | labeled ht hk | labeledLambda ht hk | lambda ht hk
  | block ht hk | function ht hk => exact ht.begins (by rw [hk]; rfl)
  | property ht hk =>
    refine ht.begins ?_
    rcases hk with hk | hk <;> rw [hk] <;> rfl
  | literal ht hk => exact ht.begins (begins_of_literal hk)
  | leading ht hk => exact ht.begins (begins_of_leading hk)
  | annotated hes hne | annotatedLambda hes hne | annotatedDeclaration _ hes hne =>
    exact begins_of_entries hes hne
  | _ => cases hp

/-! ## Brackets -/

/-- Whether a kind of token opens or closes a bracket. -/
def TokenKind.isBracket (k : TokenKind) : Bool := k.opens || k.closes

theorem not_opens_of_closes (h : k.closes) : ¬k.opens := by
  cases k with
  | symbol mark => cases mark <;> first | (cases h; done) | decide
  | _ => cases h

theorem afterAnnotations_of_opens (depth : Nat) (h : t.kind.opens) (ts : List Lexeme) :
    afterAnnotations (.arguments depth) (t :: ts) =
      afterAnnotations (.arguments (depth + 1)) ts := by
  rw [afterAnnotations.eq_def]
  exact if_pos h

theorem afterAnnotations_of_closes (depth : Nat) (h : t.kind.closes) (ts : List Lexeme) :
    afterAnnotations (.arguments (depth + 1)) (t :: ts) =
      afterAnnotations (.arguments depth) ts := by
  rw [afterAnnotations.eq_def]
  dsimp only
  rw [if_neg (not_opens_of_closes h), if_pos h]

theorem afterAnnotations_of_closes_zero (h : t.kind.closes) (ts : List Lexeme) :
    afterAnnotations (.arguments 0) (t :: ts) = afterAnnotations .before ts := by
  rw [afterAnnotations.eq_def]
  dsimp only
  rw [if_neg (not_opens_of_closes h), if_pos h]

theorem afterAnnotations_of_not_isBracket (depth : Nat) (h : t.kind.isBracket = false)
    (ts : List Lexeme) :
    afterAnnotations (.arguments depth) (t :: ts) = afterAnnotations (.arguments depth) ts := by
  obtain ⟨hopens, hcloses⟩ := Bool.or_eq_false_iff.1 h
  rw [afterAnnotations.eq_def]
  dsimp only
  rw [if_neg (by simp [hopens]), if_neg (by simp [hcloses])]

namespace Cursor

theorem Level.refl : s.Level s := fun _ => rfl

theorem Level.trans (h : s.Level s₁) (h' : s₁.Level s') : s.Level s' :=
  fun depth => (h depth).trans (h' depth)

theorem Takes.level (ht : s.Takes t s') (hk : t.kind.isBracket = false) : s.Level s' := by
  cases ht
  exact fun depth => afterAnnotations_of_not_isBracket depth hk _

theorem Skips.level (hs : s.Skips k s') (hk : k.isBracket = false) : s.Level s' := by
  obtain ⟨t, ht, rfl⟩ := hs
  exact ht.level hk

theorem Moves.level (hm : s.Moves ts s') (hts : ∀ t ∈ ts, t.kind.isBracket = false) :
    s.Level s' := by
  induction hm with
  | nil => exact .refl
  | cons ht _ ih =>
    rw [List.forall_mem_cons] at hts
    exact (ht.level hts.1).trans (ih hts.2)

theorem Refers.level {label : Option String} (h : s.Refers label s') : s.Level s' := by
  cases h with
  | none => exact .refl
  | some ht hk => exact ht.level (by rw [hk]; rfl)

/-- What is in a bracket is one bracket deeper. -/
theorem Level.enclosed {t' : Lexeme} (hopen : s.Takes t s₁) (hk : t.kind.opens)
    (h : s₁.Level s₂) (hclose : s₂.Takes t' s') (hk' : t'.kind.closes) : s.Level s' := by
  intro depth
  cases hopen
  cases hclose
  rw [afterAnnotations_of_opens depth hk, h, afterAnnotations_of_closes depth hk']

/-- To make a node does not move the cursor. -/
theorem Level.made (h : s.Level s') : s.Level s'.made := h

end Cursor

theorem isBracket_of_connective {kind : NodeKind} (h : k.connective? = some kind) :
    k.isBracket = false := by
  cases k with
  | symbol mark => cases mark <;> first | rfl | cases h
  | _ => rfl

theorem isBracket_of_assignment {op : BinaryOperator} (h : k.assignment? = some op) :
    k.isBracket = false := by
  cases k with
  | symbol mark => cases mark <;> first | rfl | cases h
  | _ => rfl

theorem isBracket_of_leading {op : LeadingOperator} (h : k.leading? = some op) :
    k.isBracket = false := by
  cases k with
  | symbol mark => cases mark <;> first | rfl | cases h
  | _ => rfl

theorem isBracket_of_trailing {op : TrailingOperator} (h : k.trailing? = some op) :
    k.isBracket = false := by
  cases k with
  | symbol mark => cases mark <;> first | rfl | cases h
  | _ => rfl

theorem isBracket_of_literal {sort : LiteralKind} (h : k.literal? = some sort) :
    k.isBracket = false := by
  cases k with
  | symbol => cases h
  | _ => rfl

/-- The phrases whose brackets are known; those of directives are not. -/
def Phrase.isLevel : Phrase → Bool
  | maybe p | many p | items p | rows p => p.isLevel
  | after k p => !k.isBracket && p.isLevel
  | directive => false
  | _ => true

/-- All brackets that are opened in a phrase are closed in it, and no others are. -/
theorem level_of_reads (h : Reads n p s us s') (hp : p.isLevel) : s.Level s' := by
  induction h with
  | absent | unmarked | noMore | noItem | noRow | noLambdaHead => exact .refl
  | present _ ih | lastItem _ ih => exact ih hp
  | chainStart _ ih | value _ ih | blockBody _ ih | valueBody _ ih
  | lambdaAlone _ ih | suffixStart _ ih | plainOperand _ ih | plainLambda _ ih
  | blockFunctionBody _ ih | valueFunctionBody _ ih | declaration _ ih
  | assignmentStatement _ ih | argument _ ih | lambdaArgument _ _ ih | valueCondition _ ih =>
    exact ih rfl
  | marked hs _ ih =>
    rw [Phrase.isLevel, Bool.and_eq_true, Bool.not_eq_true'] at hp
    exact (hs.level hp.1).trans (ih hp.2)
  | more _ _ ihu ihs | row _ _ _ ihu ihs => exact (ihu hp).trans (ihs hp)
  | item _ hs _ ihu ihs => exact (ihu hp).trans ((hs.level rfl).trans (ihs hp))
  | semicolon hs _ ih => exact (hs.level rfl).trans (ih hp)
  | lateElseBranch hs _ ih | elseBranch hs _ ih => exact (hs.level rfl).trans (ih rfl)
  | typeReference _ _ _ hlevel => exact hlevel
  -- Lexemes of some kind, then a phrase.
  | annotationEntry ht hk _ ih | throw_ ht hk _ ih | labeled ht hk _ ih
  | labeledLambda ht hk _ ih => exact (ht.level (by rw [hk]; rfl)).trans (ih rfl)
  | typeCondition ht hk _ ih | membershipCondition ht hk _ ih =>
    refine (ht.level ?_).trans (ih rfl)
    rw [hk]
    split <;> rfl
  | leading ht hk _ ih => exact (ht.level (isBracket_of_leading hk)).trans (ih rfl)
  | namedArgument ht hk hs _ ih =>
    exact (ht.level (by rw [hk]; rfl)).trans ((hs.level rfl).trans (ih rfl))
  | elseEntry hs hs' _ ih => exact (hs.level rfl).trans ((hs'.level rfl).trans (ih rfl))
  | this ht hk hr | break_ ht hk hr | continue_ ht hk hr =>
    exact (ht.level (by rw [hk]; rfl)).trans hr.level
  | return_ ht hk hr _ ih => exact (ht.level (by rw [hk]; rfl)).trans (hr.level.trans (ih rfl))
  | literal ht hk => exact ht.level (isBracket_of_literal hk)
  | name ht hk | memberName ht hk => exact ht.level (by rw [hk]; rfl)
  -- Phrases with lexemes between them.
  | binary _ ht hk _ _ _ ihu ihv =>
    exact (ihu rfl).trans ((ht.level (isBracket_of_connective hk)).trans (ihv rfl))
  | typing _ ht hk _ _ _ _ ihu ihv =>
    exact (ihu rfl).trans ((ht.level (isBracket_of_connective hk)).trans (ihv rfl))
  | assignment _ ht hk _ ihu ihv =>
    exact (ihu rfl).trans ((ht.level (isBracket_of_assignment hk)).trans (ihv rfl))
  | trailing _ ht hk ih => exact (ih rfl).trans (ht.level (isBracket_of_trailing hk))
  | qualified _ hs _ ihu ihv =>
    refine (ihu rfl).trans ((hs.level ?_).trans (ihv rfl))
    split <;> rfl
  | whenEntry _ _ hs _ ihcs ihb => exact (ihcs rfl).trans ((hs.level rfl).trans (ihb rfl))
  | lambdaHead _ hs ih => exact (ih rfl).trans (hs.level rfl)
  | annotated _ _ _ ihes ihus => exact (ihes rfl).trans (ihus rfl)
  | annotatedLambda _ _ _ ihes ihu | annotatedDeclaration _ _ _ _ ihes ihu =>
    exact (ihes rfl).trans (ihu rfl)
  | call _ _ _ _ ihu ihus ihvs => exact (ihu rfl).trans ((ihus rfl).trans (ihvs rfl))
  | memberCall ht hk _ _ _ ihus ihvs =>
    exact (ht.level (by rw [hk]; rfl)).trans (Cursor.Level.trans (ihus rfl) (ihvs rfl))
  | parameter ht hk _ _ ihus ihvs =>
    exact (ht.level (by rw [hk]; rfl)).trans ((ihus rfl).trans (ihvs rfl))
  | property ht hk hname hkname _ _ ihus ihvs =>
    have hfirst := ht.level (by rcases hk with hk | hk <;> rw [hk] <;> rfl)
    exact hfirst.trans ((hname.level (by rw [hkname]; rfl)).trans ((ihus rfl).trans (ihvs rfl)))
  -- Brackets.
  | argumentList ht hk _ hs ih | parenthesized ht hk _ hs ih =>
    obtain ⟨_, ht', hk'⟩ := hs
    exact (Cursor.Level.enclosed ht (by rw [hk]; rfl) (ih rfl) ht' (by rw [hk']; rfl)).made
  | enclosed _ hs _ hs' ih =>
    obtain ⟨_, ht, hk⟩ := hs
    obtain ⟨_, ht', hk'⟩ := hs'
    exact (Cursor.Level.enclosed ht (by rw [hk]; rfl) (ih rfl) ht' (by rw [hk']; rfl)).made
  | arrayAccess _ hs _ _ hs' ihu ihus =>
    obtain ⟨_, ht, hk⟩ := hs
    obtain ⟨_, ht', hk'⟩ := hs'
    have hindices := Cursor.Level.enclosed ht (by rw [hk]; rfl) (ihus rfl) ht' (by rw [hk']; rfl)
    exact (ihu rfl).trans hindices
  | block ht hk _ ht' hk' ih =>
    exact (Cursor.Level.enclosed ht (by rw [hk]; rfl) (ih rfl) ht' (by rw [hk']; rfl)).made
  | lambda ht hk _ _ ht' hk' ihps ihus =>
    have hinside := (ihps rfl).trans (ihus rfl)
    exact (hinside.enclosed ht (by rw [hk]; rfl) ht' (by rw [hk']; rfl)).made.made.made
  | when_ ht hk _ hs _ hs' ihus ihes =>
    obtain ⟨_, hopen, hk'⟩ := hs
    obtain ⟨_, hclose, hk''⟩ := hs'
    have hentries := Cursor.Level.enclosed hopen (by rw [hk']; rfl) (ihes rfl) hclose
      (by rw [hk'']; rfl)
    exact (ht.level (by rw [hk]; rfl)).trans ((ihus rfl).trans hentries)
  | forLoop ht hk hs hname hkname hin _ hs' _ ihu ihb =>
    obtain ⟨_, hopen, hk'⟩ := hs
    obtain ⟨_, hclose, hk''⟩ := hs'
    have hhead := (hname.level (by rw [hkname]; rfl)).trans ((hin.level rfl).trans (ihu rfl))
    have hparens := hhead.enclosed hopen (by rw [hk']; rfl) hclose (by rw [hk'']; rfl)
    exact (ht.level (by rw [hk]; rfl)).trans (hparens.trans (ihb rfl))
  | whileLoop ht hk _ _ ihc ihb =>
    exact (ht.level (by rw [hk]; rfl)).trans ((ihc rfl).trans (ihb rfl))
  | ifElse ht hk _ _ _ _ ihc ihb ihes =>
    exact (ht.level (by rw [hk]; rfl)).trans
      ((ihc rfl).trans (Cursor.Level.trans (ihb rfl) (ihes rfl)))
  | function ht hk hm hnames hname hs _ hs' _ _ ihps ihus ihvs =>
    obtain ⟨_, hopen, hk'⟩ := hs
    obtain ⟨_, hclose, hk''⟩ := hs'
    have hmoves := hm.level (Reader.forall_mem_segments hnames hname rfl rfl)
    have hparens := (ihps rfl).enclosed hopen (by rw [hk']; rfl) hclose (by rw [hk'']; rfl)
    exact (ht.level (by rw [hk]; rfl)).trans
      (hmoves.trans (hparens.trans ((ihus rfl).trans (ihvs rfl))))
  | directive => cases hp

/-- Arguments of an annotation are looked past from inside their first parenthesis. -/
theorem afterAnnotations_of_argumentList (h : Reads n .argumentList s us s') :
    ∃ t ts, s.rest = t :: ts ∧ t.kind = .symbol .leftParen ∧
      afterAnnotations (.arguments 0) ts = afterAnnotations .before s'.rest := by
  cases h with
  | argumentList ht hk hitems hclose =>
    have hlevel := level_of_reads hitems rfl 0
    obtain ⟨t', ht', hk'⟩ := hclose
    cases ht
    cases ht'
    exact ⟨_, _, rfl, hk, hlevel.trans (afterAnnotations_of_closes_zero (by rw [hk']; rfl) _)⟩

/-! ## What is taken -/

/-- The text in a node of a type is the part of the source that the node covers. -/
def HasText (source : List Char) (u : Fragment) : Prop :=
  ∀ text, u.label.kind = .typeReference text → text = String.ofList (slice source u.span)

/-- From one cursor to another, lexemes are taken, at least one for each of some fragments, and
    all types in the fragments have their texts. -/
structure Took (s : Cursor) (us : List Fragment) (s' : Cursor) : Prop where
  source : s'.source = s.source
  taken : ∃ ts, s.rest = ts ++ s'.rest ∧ us.length ≤ ts.length ∧
    s'.lastStop = (ts.getLast?.map fun t => t.stop).getD s.lastStop
  texts : ∀ u ∈ us, u.Each (HasText s.source)

namespace Took

theorem nil : Took s [] s := ⟨rfl, ⟨[], rfl, Nat.le_refl _, rfl⟩, by simp⟩

theorem append (h : Took s us s₁) (h' : Took s₁ vs s') : Took s (us ++ vs) s' := by
  obtain ⟨ts, hrest, hlength, hstop⟩ := h.taken
  obtain ⟨ts', hrest', hlength', hstop'⟩ := h'.taken
  refine ⟨h'.source.trans h.source, ⟨ts ++ ts', ?_, ?_, ?_⟩, ?_⟩
  · rw [hrest, hrest', List.append_assoc]
  · rw [List.length_append, List.length_append]
    exact Nat.add_le_add hlength hlength'
  · rw [hstop', hstop, List.getLast?_append]
    cases ts'.getLast? <;> rfl
  · exact List.forall_mem_append.2 ⟨h.texts, h.source ▸ h'.texts⟩

theorem before (h : Took s us s₁) (h' : Took s₁ [] s') : Took s us s' := by
  have h := h.append h'
  rwa [List.append_nil] at h

end Took

theorem Cursor.Takes.length_lt (ht : s.Takes t s') : s'.rest.length < s.rest.length := by
  cases ht
  exact Nat.lt_succ_self _

theorem Cursor.Takes.took (ht : s.Takes t s') : Took s [] s' := by
  cases ht
  exact ⟨rfl, ⟨[_], rfl, Nat.zero_le _, rfl⟩, by simp⟩

theorem Cursor.Moves.took (hm : s.Moves ts s') : Took s [] s' := by
  induction hm with
  | nil => exact .nil
  | cons ht _ ih => exact ht.took.append ih

theorem Cursor.Skips.took (hs : s.Skips k s') : Took s [] s' := by
  obtain ⟨t, ht, -⟩ := hs
  exact ht.took

theorem Cursor.Refers.took {label : Option String} (h : s.Refers label s') : Took s [] s' := by
  cases h with
  | none => exact .nil
  | some ht => exact ht.took

namespace Took

/-- To make a node takes nothing. -/
theorem made (h : Took s us s') : Took s us s'.made := ⟨h.source, h.taken, h.texts⟩

theorem length_le (h : Took s us s') : s'.rest.length + us.length ≤ s.rest.length := by
  obtain ⟨ts, hrest, hlength, -⟩ := h.taken
  rw [hrest, List.length_append]
  omega

/-- What was taken is enough for one node, if it was anything. -/
theorem taken_of_length_lt (h : Took s us s') (hlt : s'.rest.length < s.rest.length) :
    ∃ ts, s.rest = ts ++ s'.rest ∧ 1 ≤ ts.length ∧
      s'.lastStop = (ts.getLast?.map fun t => t.stop).getD s.lastStop := by
  obtain ⟨ts, hrest, -, hstop⟩ := h.taken
  rw [hrest, List.length_append] at hlt
  exact ⟨ts, hrest, by omega, hstop⟩

/-- The node over some fragments, if a lexeme was taken. -/
theorem node {k : NodeKind} {span : Span} {i : NodeId} (h : Took s us s')
    (hlt : s'.rest.length < s.rest.length) (hk : ∀ text, k ≠ .typeReference text) :
    Took s [.node ⟨⟨k, span⟩, i⟩ us] s'.made := by
  refine ⟨h.source, h.taken_of_length_lt hlt, ?_⟩
  rw [List.forall_mem_singleton]
  exact .node (fun text h => absurd h (hk text)) h.texts

/-- The node over some fragments, and there are some. -/
theorem above {k : NodeKind} {span : Span} {i : NodeId} (h : Took s us s') (hne : us ≠ [])
    (hk : ∀ text, k ≠ .typeReference text) : Took s [.node ⟨⟨k, span⟩, i⟩ us] s'.made := by
  have hlength := h.length_le
  have hpos := List.length_pos_iff.2 hne
  exact h.node (by omega) hk

/-- The node over a lexeme and what follows it. -/
theorem after {k : NodeKind} {span : Span} {i : NodeId} (ht : s.Takes t s₁)
    (h : Took s₁ us s') (hk : ∀ text, k ≠ .typeReference text) :
    Took s [.node ⟨⟨k, span⟩, i⟩ us] s'.made := by
  have hlength := h.length_le
  have hlt := ht.length_lt
  exact (ht.took.append h).node (by omega) hk

end Took

theorem ne_typeReference_of_isTyping {kind : NodeKind} (h : kind.isTyping) (text : String) :
    kind ≠ .typeReference text := by
  rintro rfl
  cases h

theorem ne_typeReference_of_isEnclosed {kind : NodeKind} (h : kind.isEnclosed) (text : String) :
    kind ≠ .typeReference text := by
  rintro rfl
  cases h

theorem ne_typeReference_of_isDirective {kind : NodeKind} (h : kind.isDirective) (text : String) :
    kind ≠ .typeReference text := by
  rintro rfl
  cases h

/-- The lexemes taken are the first ones ahead. -/
theorem took_of_reads (h : Reads n p s us s') : Took s us s' := by
  induction h with
  | absent | unmarked | noMore | noItem | noRow | noLambdaHead => exact .nil
  | present _ ih | lastItem _ ih | chainStart _ ih | value _ ih | blockBody _ ih | valueBody _ ih
  | lambdaAlone _ ih | suffixStart _ ih | plainOperand _ ih | plainLambda _ ih
  | blockFunctionBody _ ih | valueFunctionBody _ ih | declaration _ ih
  | assignmentStatement _ ih => exact ih
  | marked hs _ ih | semicolon hs _ ih | lateElseBranch hs _ ih => exact hs.took.append ih
  | more _ _ ihu ihs | row _ _ _ ihu ihs => exact ihu.append ihs
  | item _ hs _ ihu ihs => exact (ihu.before hs.took).append ihs
  | lambdaHead _ hs ih => exact ih.before hs.took
  | typeReference hm hne =>
    refine ⟨hm.took.source, hm.took.taken_of_length_lt ?_, ?_⟩
    · cases hm with
      | nil => exact absurd rfl hne
      | cons ht hm =>
        have hlt := ht.length_lt
        have hle := hm.took.length_le
        omega
    · rw [List.forall_mem_singleton]
      refine .node ?_ (by simp)
      intro text htext
      obtain rfl := NodeKind.typeReference.inj htext
      rw [hm.took.source]
      rfl
  -- Nodes over lexemes and what follows them.
  | literal ht | name ht | memberName ht => exact .after ht .nil nofun
  | this ht _ hr | break_ ht _ hr | continue_ ht _ hr => exact .after ht hr.took nofun
  | directive ht hm hk => exact .after ht hm.took (ne_typeReference_of_isDirective hk)
  | namedArgument ht _ hs _ ih => exact .after ht (hs.took.append ih) nofun
  | argumentList ht _ _ hs ih | parenthesized ht _ _ hs ih =>
    exact .after ht (ih.before hs.took) nofun
  | annotationEntry ht _ _ ih | typeCondition ht _ _ ih | membershipCondition ht _ _ ih
  | throw_ ht _ _ ih | leading ht _ _ ih | labeled ht _ _ ih | labeledLambda ht _ _ ih =>
    exact .after ht ih nofun
  | return_ ht _ hr _ ih => exact .after ht (hr.took.append ih) nofun
  | block hopen _ _ hclose _ ih => exact .after hopen (ih.before hclose.took) nofun
  | when_ ht _ _ hs _ hs' ihus ihes =>
    exact .after ht (ihus.append (hs.took.append (ihes.before hs'.took))) nofun
  | parameter ht _ _ _ ihus ihvs => exact .after ht (ihus.append ihvs) nofun
  | property ht _ hname _ _ _ ihus ihvs =>
    exact .after ht (hname.took.append (ihus.append ihvs)) nofun
  | function ht _ hm _ _ hopen _ hclose _ _ ihps ihus ihvs =>
    have hps := hm.took.append (hopen.took.append (ihps.before hclose.took))
    exact .after ht ((hps.append ihus).append ihvs) nofun
  -- Nodes over fragments.
  | argument _ ih | lambdaArgument _ _ ih | valueCondition _ ih => exact ih.above (by simp) nofun
  | enclosed hk hs _ hs' ih =>
    exact hs.took.append ((ih.before hs'.took).above (by simp) (ne_typeReference_of_isEnclosed hk))
  | elseBranch hs _ ih => exact hs.took.append (ih.above (by simp) nofun)
  | elseEntry hs hs' _ ih => exact (hs.took.append (hs'.took.append ih)).above (by simp) nofun
  | trailing _ ht _ ih => exact (ih.before ht.took).above (by simp) nofun
  | binary _ ht _ _ _ _ ihu ihv | assignment _ ht _ _ ihu ihv =>
    exact (ihu.append (ht.took.append ihv)).above (by simp) nofun
  | typing _ ht _ hk _ _ _ ihu ihv =>
    exact (ihu.append (ht.took.append ihv)).above (by simp) (ne_typeReference_of_isTyping hk)
  | whenEntry _ _ hs _ ihcs ihb =>
    exact (ihcs.append (hs.took.append ihb)).above (by simp) nofun
  | qualified _ hs _ ihu ihv => exact (ihu.append (hs.took.append ihv)).above (by simp) nofun
  | arrayAccess _ hs _ _ hs' ihu ihus =>
    exact (ihu.append (hs.took.append (ihus.before hs'.took))).above (by simp) nofun
  | call _ _ _ _ ihu ihus ihvs => exact (ihu.append (ihus.append ihvs)).above (by simp) nofun
  | annotated _ hne _ ihes ihus => exact (ihes.append ihus).above (by simp [hne]) nofun
  | annotatedLambda _ _ _ ihes ihu | annotatedDeclaration _ _ _ _ ihes ihu =>
    exact (ihes.append ihu).above (by simp) nofun
  -- Nodes that are made between phrases, or several at once.
  | ifElse ht _ _ _ _ _ ihc ihb ihes =>
    exact .after ht (ihc.append ((ihb.above (k := .thenBranch) (by simp) nofun).append ihes)) nofun
  | forLoop ht _ hopen hname _ hin _ hclose _ ihu ihb =>
    have hhead := hopen.took.append (hname.took.append hin.took)
    exact .after ht (hhead.append (((ihu.before hclose.took).above (k := .loopRange)
      (by simp) nofun).append (ihb.above (k := .loopBody) (by simp) nofun))) nofun
  | whileLoop ht _ _ _ ihc ihb =>
    exact .after ht (ihc.append (ihb.above (k := .loopBody) (by simp) nofun)) nofun
  | memberCall ht _ _ _ _ ihus ihvs =>
    exact ((Took.after (k := .nameReference _) ht .nil nofun).append
      (ihus.append ihvs)).above (by simp) nofun
  | lambda hopen _ _ _ hclose _ ihps ihus =>
    have hlt := hclose.length_lt
    have hle := ihus.length_le
    exact (Took.after (k := .functionLiteral) hopen (ihps.append
      ((ihus.before hclose.took).node (k := .block) (by omega) nofun)) nofun).above (by simp) nofun

theorem length_le_of_reads (h : Reads n p s us s') : s'.rest.length ≤ s.rest.length :=
  Nat.le_trans (Nat.le_add_right _ _) (took_of_reads h).length_le

end ResultHints
