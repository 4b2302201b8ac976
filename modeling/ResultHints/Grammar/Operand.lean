import ResultHints.Grammar.Argument
import ResultHints.Grammar.Control

/-!
# Operands

The operands of operators: what stands alone (`primary`), with the members,
indices, calls and trailing operators after it (`suffixes`), and with the leading
operators, labels and annotations before it (`operandLevel`). But for members,
what follows has to begin on the line where what it follows ends.
-/

namespace ResultHints

open Reader

/-- Whether nothing follows that a label or an annotation could stand before. -/
def Cursor.atClosing (s : Cursor) : Bool :=
  match s.kind? with
  | none => true
  | some (.symbol .rightBrace) | some (.symbol .rightParen) | some (.symbol .rightBracket)
  | some (.symbol .semicolon) | some (.symbol .comma) => true
  | _ => false

/-- Whether nothing follows that a `return` could carry. -/
def Cursor.atValueEnd (m : Layout) (s : Cursor) : Bool :=
  s.atBreak m || s.atClosing || s.isAt (.keyword .else_) || s.isAt (.symbol .arrow)

/-- The operator before an operand that a token stands for. -/
def TokenKind.leading? : TokenKind → Option LeadingOperator
  | symbol .minus => some .minus
  | symbol .plus => some .plus
  | symbol .bang => some .not
  | symbol .plusPlus => some .increment
  | symbol .minusMinus => some .decrement
  | _ => none

/-- The operator after an operand that a token stands for. -/
def TokenKind.trailing? : TokenKind → Option TrailingOperator
  | symbol .plusPlus => some .increment
  | symbol .minusMinus => some .decrement
  | symbol .bangBang => some .notNull
  | _ => none

/-- The literal that a token is. -/
def TokenKind.literal? : TokenKind → Option LiteralKind
  | literal .integer => some .integer
  | literal .float => some .float
  | literal .string => some .string
  | literal .char => some .char
  | keyword .true_ | keyword .false_ => some .boolean
  | keyword .null_ => some .null
  | _ => none

/-- A reference to a label, if one comes next. -/
def labelReference? : Reader (Option String) := do
  return (← accept .labelReference).map fun t => referredName t.text

variable (inner : Inner)

/-! ## What stands alone -/

/-- A `return`, after its keyword at the offset `start`. -/
def returnJump (m : Layout) (start : Nat) : Reader Fragment := do
  let label ← labelReference?
  let value ← optionally (!(← get).atValueEnd m) (expression inner m)
  close start (.jump (.return_ label)) value

/-- An expression in parentheses, after the opening one at the offset `start`. -/
def parenthesized (start : Nat) : Reader Fragment := do
  let e ← expression inner .free
  discard (symbol .rightParen)
  close start .parenthesized [e]

/-- The expression that begins with the keyword `word`. -/
def keywordExpression (m : Layout) (t : Lexeme) : Keyword → Reader Fragment
  | .this_ => do
    discard next
    close t.start (.this (← labelReference?)) []
  | .if_ => ifElse inner m
  | .when_ => whenBranches inner
  | .for_ => forLoop inner m
  | .while_ => whileLoop inner m
  | .return_ => do
    discard next
    returnJump inner m t.start
  | .throw_ => do
    discard next
    close t.start (.jump .throw_) [← expression inner m]
  | .break_ => do
    discard next
    close t.start (.jump (.break_ (← labelReference?))) []
  | .continue_ => do
    discard next
    close t.start (.jump (.continue_ (← labelReference?))) []
  | _ => unexpected

/-- An expression without what may follow it: a name, a literal, an expression in
    parentheses, a lambda, or one that begins with a keyword. -/
def primary (m : Layout) : Reader Fragment := do
  match (← get).rest with
  | [] => unexpected
  | t :: _ => match t.kind.literal?, t.kind with
    | some sort, _ => do
      discard next
      leaf (.literal sort) t
    | none, .identifier => do
      discard next
      leaf (.nameReference (identifierName t.text)) t
    | none, .symbol .leftParen => do
      discard next
      parenthesized inner t.start
    | none, .symbol .leftBrace => inner.lambda
    | none, .keyword word => keywordExpression inner m t word
    | none, _ => unexpected

/-! ## What follows -/

/-- A member after a dot: a name, or the call of a name. -/
def member (m : Layout) : Reader Fragment := do
  let t ← identifier "member name"
  let name ← leaf (.nameReference (identifierName t.text)) t
  return (← callOf? inner m name).getD name

/-- The indices after the opening bracket, which belong to `receiver`. -/
def indices (receiver : Fragment) : Reader Fragment := do
  let es ← items none (expression inner .free)
  discard (symbol .rightBracket)
  close receiver.span.start .arrayAccess (receiver :: es)

/-- An expression with what follows `e`; at most `limit` suffixes are taken. -/
def suffixesUpTo (m : Layout) : (limit : Nat) → (e : Fragment) → Reader Fragment
  | 0, e => pure e
  | limit + 1, e => do
    let s ← get
    match s.kind? with
    | some (.symbol .dot) =>
      discard next
      let name ← member inner m
      suffixesUpTo m limit (← join (.qualified false) e name)
    | some (.symbol .safeAccess) =>
      discard next
      let name ← member inner m
      suffixesUpTo m limit (← join (.qualified true) e name)
    | k =>
      if s.atBreak m then return e
      match k >>= TokenKind.trailing?, k with
      | some op, _ =>
        discard next
        let e ← close e.span.start (.trailing op) [e]
        suffixesUpTo m limit e
      | none, some (.symbol .leftBracket) =>
        discard next
        let e ← indices inner e
        suffixesUpTo m limit e
      | none, _ =>
        match ← callOf? inner m e with
        | none => pure e
        | some call => suffixesUpTo m limit call

/-- An expression with what follows it. Every suffix takes a lexeme, so none is
    left out. -/
def suffixes (m : Layout) : Reader Fragment := do
  let e ← primary inner m
  suffixesUpTo inner m (← get).size e

/-! ## What stands before -/

/-- An operand at this level of nesting. -/
def operandLevel (m : Layout) : Reader Fragment := do
  let s ← get
  let start := s.position
  match s.kind? >>= TokenKind.leading?, s.kind? with
  | some op, _ =>
    discard next
    close start (.leading op) [← inner.operand m]
  | none, some .labelDefinition =>
    let label ← next
    let base ← optionally (!(← get).atClosing) (inner.operand m)
    close start (.labeled (definedLabel label.text)) base
  | none, some .annotationName =>
    let entries ← annotationEntries inner m
    let base ← optionally (!(← get).atClosing) (inner.operand m)
    close start .annotated (entries ++ base)
  | none, _ => suffixes inner m

/-- A lambda, maybe labeled or annotated, at this level of nesting. -/
def wrappedLambdaLevel (m : Layout) : Reader Fragment := do
  let s ← get
  let start := s.position
  match s.kind? with
  | some .annotationName =>
    let entries ← annotationEntries inner m
    close start .annotated (entries ++ [← inner.wrappedLambda m])
  | some .labelDefinition =>
    let label ← next
    close start (.labeled (definedLabel label.text)) [← inner.wrappedLambda m]
  | _ => inner.lambda

end ResultHints
