import ResultHints.Proofs.Grammar.Past

/-!
# The phrases of a text

What the grammar accepts, as a relation: `Reads n p s us s'` says that with `n`
levels of nesting left, the phrase `p` leads from the cursor `s` to the cursor
`s'` and stands for the fragments `us`. Of the conditions by which a reader
chooses between phrases, line breaks and the lexemes that follow, only those are
kept that tell something of what is read; so more may be related than is read,
but nothing is read that is not related (`ResultHints.Proofs.Grammar.Sound`).
What holds of all that is read is proved by induction on the relation.
-/

namespace ResultHints

/-! ## Moving the cursor -/

namespace Cursor

/-- The cursor moves over one lexeme. -/
inductive Takes : Cursor → Lexeme → Cursor → Prop
  | mk (source : List Char) (t : Lexeme) (ts : List Lexeme) (n : Nat) (i : NodeId) :
    Takes ⟨source, t :: ts, n, i⟩ t ⟨source, ts, t.stop, i⟩

/-- The cursor moves over one lexeme of the given kind. -/
def Skips (k : TokenKind) (s s' : Cursor) : Prop := ∃ t, s.Takes t s' ∧ t.kind = k

/-- The cursor moves over some lexemes. -/
inductive Moves : Cursor → List Lexeme → Cursor → Prop
  | nil {s : Cursor} : Moves s [] s
  | cons {s s₁ s' : Cursor} {t : Lexeme} {ts : List Lexeme} :
    s.Takes t s₁ → Moves s₁ ts s' → Moves s (t :: ts) s'

/-- As many brackets are open around the one cursor as around the other: in the arguments of an
    annotation, the annotations end at the same place from both. -/
def Level (s s' : Cursor) : Prop :=
  ∀ depth, afterAnnotations (.arguments depth) s.rest = afterAnnotations (.arguments depth) s'.rest

/-- The cursor moves over a reference to a label, if there is one. -/
inductive Refers : Cursor → Option String → Cursor → Prop
  | none {s : Cursor} : Refers s none s
  | some {s s' : Cursor} {t : Lexeme} : s.Takes t s' → t.kind = .labelReference →
    Refers s (some (referredName t.text)) s'

/-- The span from an offset to the end of what was read. -/
def spanFrom (s : Cursor) (start : Nat) : Span := ⟨start, max s.lastStop start⟩

/-- The node that is made at the cursor, with the next free id. -/
def make (s : Cursor) (kind : NodeKind) (span : Span) (children : List Fragment) : Fragment :=
  .node ⟨⟨kind, span⟩, s.nextId⟩ children

/-- The cursor when a node was made at it. -/
def made (s : Cursor) : Cursor := { s with nextId := s.nextId + 1 }

/-- The node over what was read from an offset on. -/
def node (s : Cursor) (start : Nat) (kind : NodeKind) (children : List Fragment) : Fragment :=
  s.make kind (s.spanFrom start) children

/-- The node over a lexeme. -/
def leaf (s : Cursor) (kind : NodeKind) (t : Lexeme) : Fragment := s.make kind t.span []

/-- The node over two others. -/
def join (s : Cursor) (kind : NodeKind) (a b : Fragment) : Fragment :=
  s.make kind ⟨a.span.start, b.span.stop⟩ [a, b]

/-- The node that covers just what its one child does. -/
def wrap (s : Cursor) (kind : NodeKind) (t : Fragment) : Fragment := s.make kind t.span [t]

end Cursor

/-! ## Phrases -/

/-- The parts that a text is made of. -/
inductive Phrase
  /-- A phrase or nothing. -/
  | maybe (p : Phrase)
  /-- A phrase after a lexeme of the given kind, or nothing. -/
  | after (mark : TokenKind) (p : Phrase)
  | many (p : Phrase)
  /-- Phrases with commas between them. -/
  | items (p : Phrase)
  /-- Phrases one below the other. -/
  | rows (p : Phrase)
  | typeReference
  /-- Operands with operators between them, of the given level or tighter. -/
  | chain (least : Precedence)
  | assignment
  | argument
  | argumentList
  | annotationEntry
  | lambdaArgument
  /-- What a branch, a loop or an entry evaluates. -/
  | body
  /-- An expression between parentheses, in a node of the given kind. -/
  | enclosed (kind : NodeKind)
  | elseBranch
  | whenCondition
  | whenEntry
  | primary
  | member
  | suffixed
  | operand
  | wrappedLambda
  | parameter
  /-- The parameters of a lambda with the arrow after them, or nothing. -/
  | lambdaHead
  | lambda
  | block
  | functionBody
  | declaration
  | statement
  /-- A package or import directive. -/
  | directive

/-- An expression: operators of any level. -/
abbrev Phrase.expression : Phrase := .chain .disjunction

/-- The lexemes that types are made of. -/
def TokenKind.isTypePart : TokenKind → Bool
  | identifier | symbol .dot | symbol .comma | symbol .less | symbol .greater | symbol .leftParen
  | symbol .rightParen | symbol .arrow | symbol .question | symbol .star => true
  | _ => false

/-- The kinds of directives. -/
def NodeKind.isDirective : NodeKind → Bool
  | packageDirective _ | importDirective _ => true
  | _ => false

/-- The kinds of nodes over an expression whose parentheses belong to what is around it. -/
def NodeKind.isEnclosed : NodeKind → Bool
  | condition | whenSubject => true
  | _ => false

/-- The kinds of nodes over an expression and a type. -/
def NodeKind.isTyping : NodeKind → Bool
  | typeTest _ | cast _ => true
  | _ => false

/-- The kinds of nodes over an expression and the type it is tested for. -/
def NodeKind.isTypeTest : NodeKind → Bool
  | typeTest _ => true
  | _ => false

/-- In a chain of operators of level `least` or tighter, an operator of the given level may come
    behind `left`: no operator that made `left` is looser. A type test may be, as its type ends
    before any operator. -/
structure Precedence.Follows (least level : Precedence) (left : Fragment) : Prop where
  least : least.rank ≤ level.rank
  left {other : Precedence} : left.label.kind.precedence? = some other →
    left.label.kind.isTypeTest = false → level.rank ≤ other.rank

/-- A phrase leads from one cursor to another, and stands for some fragments. -/
inductive Reads : (depth : Nat) → Phrase → Cursor → List Fragment → Cursor → Prop
  -- Parts that may be missing, or come several times.
  | absent : Reads n (.maybe p) s [] s
  | present : Reads n p s [u] s' → Reads n (.maybe p) s [u] s'
  | unmarked : Reads n (.after k p) s [] s
  | marked : s.Skips k s₁ → Reads n p s₁ [u] s' → Reads n (.after k p) s [u] s'
  | noMore : Reads n (.many p) s [] s
  | more : Reads n p s [u] s₁ → Reads n (.many p) s₁ us s' → Reads n (.many p) s (u :: us) s'
  | noItem : Reads n (.items p) s [] s
  | lastItem : Reads n p s [u] s' → Reads n (.items p) s [u] s'
  | item : Reads n p s [u] s₁ → s₁.Skips (.symbol .comma) s₂ → Reads n (.items p) s₂ us s' →
    Reads n (.items p) s (u :: us) s'
  | noRow : Reads n (.rows p) s [] s
  | semicolon : s.Skips (.symbol .semicolon) s₁ → Reads n (.rows p) s₁ us s' →
    Reads n (.rows p) s us s'
  | row : ¬s.isAt (.symbol .semicolon) → Reads n p s [u] s₁ → Reads n (.rows p) s₁ us s' →
    Reads n (.rows p) s (u :: us) s'
  | typeReference : s.Moves ts s' → ts ≠ [] → (∀ t ∈ ts, t.kind.isTypePart) → s.Level s' →
    (∀ limit, n ≤ limit → kinds s'.rest = pastType limit (kinds s.rest)) →
    Reads n .typeReference s [s'.node s.position (.typeReference
      (String.ofList (slice s'.source (s'.spanFrom s.position)))) []] s'.made
  -- Expressions and assignments.
  | chainStart : Reads n .operand s [u] s' → Reads n (.chain least) s [u] s'
  | binary : Reads n (.chain least) s [u] s₁ → s₁.Takes t s₂ →
    t.kind.connective? = some (.binary op) → op.precedence? = some level →
    least.Follows level u → Reads n (.chain level.next) s₂ [v] s' →
    Reads n (.chain least) s [s'.join (.binary op) u v] s'.made
  | typing : Reads n (.chain least) s [u] s₁ → s₁.Takes t s₂ → t.kind.connective? = some made →
    made.isTyping → made.precedence? = some level → least.Follows level u →
    Reads n .typeReference s₂ [v] s' → Reads n (.chain least) s [s'.join made u v] s'.made
  | value : Reads n .expression s [u] s' → Reads n .assignment s [u] s'
  | assignment : Reads n .expression s [u] s₁ → s₁.Takes t s₂ → t.kind.assignment? = some op →
    Reads n .expression s₂ [v] s' → Reads n .assignment s [s'.join (.binary op) u v] s'.made
  -- Arguments.
  | argument : Reads n .expression s [u] s' →
    Reads n .argument s [s'.node s.position (.argument none) [u]] s'.made
  | namedArgument : s.Takes t s₁ → t.kind = .identifier → s₁.Skips (.symbol .assign) s₂ →
    Reads n .expression s₂ [u] s' →
    Reads n .argument s [s'.node s.position (.argument (some (identifierName t.text))) [u]] s'.made
  | argumentList : s.Takes t s₁ → t.kind = .symbol .leftParen →
    Reads n (.items .argument) s₁ us s₂ → s₂.Skips (.symbol .rightParen) s' →
    Reads n .argumentList s [s'.node t.start .argumentList us] s'.made
  | annotationEntry : s.Takes t s₁ → t.kind = .annotationName →
    Reads n (.maybe .argumentList) s₁ us s' →
    Reads n .annotationEntry s [s'.node t.start (.annotationEntry (referredName t.text)) us] s'.made
  | lambdaArgument : s.lambdaAhead → Reads n .wrappedLambda s [u] s' →
    Reads n .lambdaArgument s [s'.node s.position .lambdaArgument [u]] s'.made
  -- Branches and loops.
  | blockBody : Reads n .block s [u] s' → Reads n .body s [u] s'
  | valueBody : Reads n .assignment s [u] s' → Reads n .body s [u] s'
  | enclosed : kind.isEnclosed → s.Skips (.symbol .leftParen) s₁ →
    Reads n .expression s₁ [u] s₂ → s₂.Skips (.symbol .rightParen) s' →
    Reads n (.enclosed kind) s [s'.wrap kind u] s'.made
  | elseBranch : s.Skips (.keyword .else_) s₁ → Reads n .body s₁ [u] s' →
    Reads n .elseBranch s [s'.wrap .elseBranch u] s'.made
  | lateElseBranch : s.Skips (.symbol .semicolon) s₁ → Reads n .elseBranch s₁ [u] s' →
    Reads n .elseBranch s [u] s'
  | ifElse : s.Takes t s₁ → t.kind = .keyword .if_ → Reads n (.enclosed .condition) s₁ [c] s₂ →
    Reads n .body s₂ [b] s₃ → Reads n (.maybe .elseBranch) s₃.made es s' →
    (s₃.elseAhead ↔ es ≠ []) →
    Reads n .primary s [s'.node t.start .ifElse (c :: s₃.wrap .thenBranch b :: es)] s'.made
  | typeCondition : s.Takes t s₁ → t.kind = .keyword (if negated then .notIs else .is_) →
    Reads n .typeReference s₁ [u] s' →
    Reads n .whenCondition s [s'.node s.position (.whenCondition (.typeTest negated)) [u]] s'.made
  | membershipCondition : s.Takes t s₁ → t.kind = .keyword (if negated then .notIn else .in_) →
    Reads n .expression s₁ [u] s' →
    Reads n .whenCondition s [s'.node s.position (.whenCondition (.membership negated)) [u]] s'.made
  | valueCondition : Reads n .expression s [u] s' →
    Reads n .whenCondition s [s'.node s.position (.whenCondition .expression) [u]] s'.made
  | elseEntry : s.Skips (.keyword .else_) s₁ → s₁.Skips (.symbol .arrow) s₂ →
    Reads n .body s₂ [b] s' →
    Reads n .whenEntry s [s'.node s.position (.whenEntry true) [b]] s'.made
  | whenEntry : Reads n (.items .whenCondition) s cs s₁ → cs ≠ [] → s₁.Skips (.symbol .arrow) s₂ →
    Reads n .body s₂ [b] s' →
    Reads n .whenEntry s [s'.node s.position (.whenEntry false) (cs ++ [b])] s'.made
  | when_ : s.Takes t s₁ → t.kind = .keyword .when_ →
    Reads n (.maybe (.enclosed .whenSubject)) s₁ us s₂ → s₂.Skips (.symbol .leftBrace) s₃ →
    Reads n (.rows .whenEntry) s₃ es s₄ → s₄.Skips (.symbol .rightBrace) s' →
    Reads n .primary s [s'.node t.start .when_ (us ++ es)] s'.made
  | forLoop : s.Takes t s₁ → t.kind = .keyword .for_ → s₁.Skips (.symbol .leftParen) s₂ →
    s₂.Takes name s₃ → name.kind = .identifier → s₃.Skips (.keyword .in_) s₄ →
    Reads n .expression s₄ [u] s₅ → s₅.Skips (.symbol .rightParen) s₆ →
    Reads n .body s₆.made [b] s' →
    Reads n .primary s [s'.made.node t.start (.forLoop (identifierName name.text))
      [s₆.wrap .loopRange u, s'.wrap .loopBody b]] s'.made.made
  | whileLoop : s.Takes t s₁ → t.kind = .keyword .while_ →
    Reads n (.enclosed .condition) s₁ [c] s₂ → Reads n .body s₂ [b] s' →
    Reads n .primary s [s'.made.node t.start .whileLoop [c, s'.wrap .loopBody b]] s'.made.made
  -- What stands alone.
  | literal : s.Takes t s' → t.kind.literal? = some sort →
    Reads n .primary s [s'.leaf (.literal sort) t] s'.made
  | name : s.Takes t s' → t.kind = .identifier →
    Reads n .primary s [s'.leaf (.nameReference (identifierName t.text)) t] s'.made
  | this : s.Takes t s₁ → t.kind = .keyword .this_ → s₁.Refers label s' →
    Reads n .primary s [s'.node t.start (.this label) []] s'.made
  | return_ : s.Takes t s₁ → t.kind = .keyword .return_ → s₁.Refers label s₂ →
    Reads n (.maybe .expression) s₂ us s' →
    Reads n .primary s [s'.node t.start (.jump (.return_ label)) us] s'.made
  | throw_ : s.Takes t s₁ → t.kind = .keyword .throw_ → Reads n .expression s₁ [u] s' →
    Reads n .primary s [s'.node t.start (.jump .throw_) [u]] s'.made
  | break_ : s.Takes t s₁ → t.kind = .keyword .break_ → s₁.Refers label s' →
    Reads n .primary s [s'.node t.start (.jump (.break_ label)) []] s'.made
  | continue_ : s.Takes t s₁ → t.kind = .keyword .continue_ → s₁.Refers label s' →
    Reads n .primary s [s'.node t.start (.jump (.continue_ label)) []] s'.made
  | parenthesized : s.Takes t s₁ → t.kind = .symbol .leftParen → Reads n .expression s₁ [u] s₂ →
    s₂.Skips (.symbol .rightParen) s' →
    Reads n .primary s [s'.node t.start .parenthesized [u]] s'.made
  | lambdaAlone : Reads n .lambda s [u] s' → Reads n .primary s [u] s'
  -- What follows.
  | suffixStart : Reads n .primary s [u] s' → Reads n .suffixed s [u] s'
  | qualified : Reads n .suffixed s [u] s₁ →
    s₁.Skips (.symbol (if isSafe then .safeAccess else .dot)) s₂ → Reads n .member s₂ [v] s' →
    Reads n .suffixed s [s'.join (.qualified isSafe) u v] s'.made
  | trailing : Reads n .suffixed s [u] s₁ → s₁.Takes t s' → t.kind.trailing? = some op →
    Reads n .suffixed s [s'.node u.span.start (.trailing op) [u]] s'.made
  | arrayAccess : Reads n .suffixed s [u] s₁ → s₁.Skips (.symbol .leftBracket) s₂ →
    Reads n (.items .expression) s₂ us s₃ → us ≠ [] → s₃.Skips (.symbol .rightBracket) s' →
    Reads n .suffixed s [s'.node u.span.start .arrayAccess (u :: us)] s'.made
  | call : Reads n .suffixed s [u] s₁ → Reads n (.maybe .argumentList) s₁ us s₂ →
    Reads n (.maybe .lambdaArgument) s₂ vs s' → us ++ vs ≠ [] →
    Reads n .suffixed s [s'.node u.span.start .call (u :: (us ++ vs))] s'.made
  | memberName : s.Takes t s' → t.kind = .identifier →
    Reads n .member s [s'.leaf (.nameReference (identifierName t.text)) t] s'.made
  | memberCall : s.Takes t s₁ → t.kind = .identifier →
    Reads n (.maybe .argumentList) s₁.made us s₂ → Reads n (.maybe .lambdaArgument) s₂ vs s' →
    us ++ vs ≠ [] → Reads n .member s [s'.node t.start .call
      (s₁.leaf (.nameReference (identifierName t.text)) t :: (us ++ vs))] s'.made
  -- What stands before, one level of nesting further out.
  | leading : s.Takes t s₁ → t.kind.leading? = some op → Reads n .operand s₁ [u] s' →
    Reads (n + 1) .operand s [s'.node t.start (.leading op) [u]] s'.made
  | labeled : s.Takes t s₁ → t.kind = .labelDefinition → Reads n (.maybe .operand) s₁ us s' →
    Reads (n + 1) .operand s [s'.node t.start (.labeled (definedLabel t.text)) us] s'.made
  | annotated : Reads n (.many .annotationEntry) s es s₁ → es ≠ [] →
    Reads n (.maybe .operand) s₁ us s' →
    Reads (n + 1) .operand s [s'.node s.position .annotated (es ++ us)] s'.made
  | plainOperand : Reads n .suffixed s [u] s' → Reads (n + 1) .operand s [u] s'
  | labeledLambda : s.Takes t s₁ → t.kind = .labelDefinition → Reads n .wrappedLambda s₁ [u] s' →
    Reads (n + 1) .wrappedLambda s [s'.node t.start (.labeled (definedLabel t.text)) [u]] s'.made
  | annotatedLambda : Reads n (.many .annotationEntry) s es s₁ → es ≠ [] →
    Reads n .wrappedLambda s₁ [u] s' →
    Reads (n + 1) .wrappedLambda s [s'.node s.position .annotated (es ++ [u])] s'.made
  | plainLambda : Reads n .lambda s [u] s' → Reads (n + 1) .wrappedLambda s [u] s'
  -- Declarations and statements.
  | parameter : s.Takes t s₁ → t.kind = .identifier →
    Reads n (.after (.symbol .colon) .typeReference) s₁ us s₂ →
    Reads n (.after (.symbol .assign) .expression) s₂ vs s' →
    Reads n .parameter s [s'.node t.start (.parameter (identifierName t.text)) (us ++ vs)] s'.made
  | noLambdaHead : Reads n .lambdaHead s [] s
  | lambdaHead : Reads n (.items .parameter) s us s₁ → s₁.Skips (.symbol .arrow) s' →
    Reads n .lambdaHead s us s'
  | lambda : s.Takes opening s₁ → opening.kind = .symbol .leftBrace → Reads n .lambdaHead s₁ ps s₂ →
    Reads n (.rows .statement) s₂ us s₃ → s₃.Takes closing s' →
    closing.kind = .symbol .rightBrace →
    Reads (n + 1) .lambda s [s'.made.made.make .lambda ⟨opening.start, closing.stop⟩
      [s'.made.make .functionLiteral ⟨opening.start, closing.stop⟩
        (ps ++ [s'.make .block (bodySpan closing us) us])]] s'.made.made.made
  | block : s.Takes opening s₁ → opening.kind = .symbol .leftBrace →
    Reads n (.rows .statement) s₁ us s₂ → s₂.Takes closing s' →
    closing.kind = .symbol .rightBrace →
    Reads (n + 1) .block s [s'.make .block ⟨opening.start, closing.stop⟩ us] s'.made
  | blockFunctionBody : Reads n .block s [u] s' → Reads n .functionBody s [u] s'
  | valueFunctionBody : Reads n (.after (.symbol .assign) .expression) s us s' →
    Reads n .functionBody s us s'
  | function : s.Takes t s₁ → t.kind = .keyword .fun_ → s₁.Moves (names ++ [name]) s₂ →
    (∀ t ∈ names, t.kind = .identifier ∨ t.kind = .symbol .dot) → name.kind = .identifier →
    s₂.Skips (.symbol .leftParen) s₃ → Reads n (.items .parameter) s₃ ps s₄ →
    s₄.Skips (.symbol .rightParen) s₅ →
    Reads n (.after (.symbol .colon) .typeReference) s₅ us s₆ → Reads n .functionBody s₆ vs s' →
    Reads n .declaration s
      [s'.node t.start (.function (identifierName name.text)) (ps ++ us ++ vs)] s'.made
  | property : s.Takes t s₁ → t.kind = .keyword .val_ ∨ t.kind = .keyword .var_ →
    s₁.Takes name s₂ → name.kind = .identifier →
    Reads n (.after (.symbol .colon) .typeReference) s₂ us s₃ →
    Reads n (.after (.symbol .assign) .expression) s₃ vs s' →
    Reads n .declaration s
      [s'.node t.start (.property (identifierName name.text) (t.kind == .keyword .var_))
        (us ++ vs)] s'.made
  | annotatedDeclaration : s.declarationAhead → Reads n (.many .annotationEntry) s es s₁ → es ≠ [] →
    Reads n .declaration s₁ [u] s' →
    Reads n .statement s [s'.node s.position .annotated (es ++ [u])] s'.made
  | declaration : Reads n .declaration s [u] s' → Reads n .statement s [u] s'
  | assignmentStatement : Reads n .assignment s [u] s' → Reads n .statement s [u] s'
  -- Directives.
  | directive : s.Takes t s₁ → s₁.Moves ts s' → kind.isDirective →
    kinds s'.rest = pastPath ((kinds s.rest).drop 2) →
    Reads n .directive s [s'.node t.start kind []] s'.made

/-- A file leads from one cursor to another: directives, then statements. -/
inductive ReadsFile : (depth : Nat) → Cursor → Fragment → Cursor → Prop
  | mk : Reads n (.rows .directive) s ps s₁ → Reads n (.rows .directive) s₁ is s₂ →
    Reads n (.rows .statement) s₂ us s' →
    ReadsFile n s (s'.make .file ⟨0, byteLength s'.source⟩ (ps ++ is ++ us)) s'.made

end ResultHints
