import ResultHints.Parser.Expression

/-!
# Operands, statements and files by a parser

The rules of operands, declarations, statements and files, in the state of a parser. Here the
procedures that open a level are tied together (`Calls.ofFuel`): they call each other as long
as there is fuel, and there is more of it than levels.
-/

namespace ResultHints

namespace Run

variable (calls : Calls)

/-! ## What stands alone -/

/-- A reference to a label, if one comes next. -/
def labelReference? : Run (Option String) := do
  return (← accept .labelReference).map fun t => referredName t.text

/-- A `return`, after its keyword at the offset `start`. -/
def returnJump (start : Nat) : Run Fragment := do
  let label ← labelReference?
  let p ← look
  let value ← optionally (!p.cursor.atValueEnd p.layout) (expression calls)
  close start (.jump (.return_ label)) value

/-- An expression in parentheses, after the opening one at the offset `start`. -/
def parenthesized (start : Nat) : Run Fragment := do
  let e ← expressionInParentheses calls
  close start .parenthesized [e]

/-- The expression that begins with the keyword `word`. -/
def keywordExpression (t : Lexeme) : Keyword → Run Fragment
  | .this_ => do
    discard next
    close t.start (.this (← labelReference?)) []
  | .if_ => ifElse calls
  | .when_ => whenBranches calls
  | .for_ => forLoop calls
  | .while_ => whileLoop calls
  | .return_ => do
    discard next
    returnJump calls t.start
  | .throw_ => do
    discard next
    close t.start (.jump .throw_) [← expression calls]
  | .break_ => do
    discard next
    close t.start (.jump (.break_ (← labelReference?))) []
  | .continue_ => do
    discard next
    close t.start (.jump (.continue_ (← labelReference?))) []
  | _ => unexpected

/-- An expression without what may follow it. -/
def primary : Run Fragment := do
  match (← look).cursor.rest with
  | [] => unexpected
  | t :: _ => match t.kind.literal?, t.kind with
    | some sort, _ => do
      discard next
      leaf (.literal sort) t
    | none, .identifier => do
      discard next
      leaf (.nameReference (identifierName t.text)) t
    | none, .symbol .leftParen => do
      discard next
      parenthesized calls t.start
    | none, .symbol .leftBrace => calls.lambda
    | none, .keyword word => keywordExpression calls t word
    | none, _ => unexpected

/-! ## What follows -/

/-- A member after a dot: a name, or the call of a name. -/
def member : Run Fragment := do
  let t ← identifier "member name"
  let name ← leaf (.nameReference (identifierName t.text)) t
  return (← callOf? calls name).getD name

/-- Indices up to a closing bracket, which is taken. -/
def indexList : Run (List Fragment) :=
  withLayout .free do
    let es ← items none (expression calls)
    discard (symbol .rightBracket)
    return es

/-- The indices after the opening bracket, which belong to `receiver`. -/
def indices (receiver : Fragment) : Run Fragment := do
  let es ← indexList calls
  close receiver.span.start .arrayAccess (receiver :: es)

/-- An expression with what follows `e`; at most `limit` suffixes are taken. -/
def suffixesUpTo : (limit : Nat) → (e : Fragment) → Run Fragment
  | 0, e => pure e
  | limit + 1, e => do
    let p ← look
    match p.cursor.kind? with
    | some (.symbol .dot) =>
      discard next
      let name ← member calls
      suffixesUpTo limit (← join (.qualified false) e name)
    | some (.symbol .safeAccess) =>
      discard next
      let name ← member calls
      suffixesUpTo limit (← join (.qualified true) e name)
    | k =>
      if p.atBreak then return e
      match k >>= TokenKind.trailing?, k with
      | some op, _ =>
        discard next
        let e ← close e.span.start (.trailing op) [e]
        suffixesUpTo limit e
      | none, some (.symbol .leftBracket) =>
        discard next
        let e ← indices calls e
        suffixesUpTo limit e
      | none, _ =>
        match ← callOf? calls e with
        | none => pure e
        | some call => suffixesUpTo limit call

/-- An expression with what follows it. -/
def suffixes : Run Fragment := do
  let e ← primary calls
  suffixesUpTo calls (← look).cursor.size e

/-! ## What stands before -/

/-- An operand at this level of nesting. -/
def operandLevel : Run Fragment := do
  let s := (← look).cursor
  let start := s.position
  match s.kind? >>= TokenKind.leading?, s.kind? with
  | some op, _ =>
    discard next
    close start (.leading op) [← calls.operand]
  | none, some .labelDefinition =>
    let label ← next
    let base ← optionally (!(← look).cursor.atClosing) calls.operand
    close start (.labeled (definedLabel label.text)) base
  | none, some .annotationName =>
    let entries ← annotationEntries calls
    let base ← optionally (!(← look).cursor.atClosing) calls.operand
    close start .annotated (entries ++ base)
  | none, _ => suffixes calls

/-- A lambda, maybe labeled or annotated, at this level of nesting. -/
def wrappedLambdaLevel : Run Fragment := do
  let s := (← look).cursor
  let start := s.position
  match s.kind? with
  | some .annotationName =>
    let entries ← annotationEntries calls
    close start .annotated (entries ++ [← calls.wrappedLambda])
  | some .labelDefinition =>
    let label ← next
    close start (.labeled (definedLabel label.text)) [← calls.wrappedLambda]
  | _ => calls.lambda

/-! ## Declarations -/

/-- A parameter, which may have a default value if it is one of a function. -/
def parameter (hasDefault : Bool) : Run Fragment := do
  let name ← identifier "parameter name"
  let type ← after .colon (typeReference calls)
  let value ← if hasDefault then after .assign (expression calls) else pure []
  close name.start (.parameter (identifierName name.text)) (type ++ value)

/-- What a function evaluates, if that is told. -/
def functionBody : Run (List Fragment) := do
  if (← look).cursor.isAt (.symbol .leftBrace) then return [← calls.block]
  else after .assign (expression calls)

/-- A function. Of a receiver and the name after it, the name is kept. -/
def function : Run Fragment := do
  let start := (← keyword .fun_).start
  let name ← qualifiedName "function name"
  discard (symbol .leftParen)
  let parameters ← withLayout .free (itemsTo .rightParen (parameter calls true))
  let type ← after .colon (typeReference calls)
  let body ← functionBody calls
  close start (.function (identifierName name.text)) (parameters ++ type ++ body)

/-- A property, after a `val` or a `var`. -/
def property : Run Fragment := do
  let first ← next
  let name ← identifier "property name"
  let type ← after .colon (typeReference calls)
  let value ← after .assign (expression calls)
  close first.start (.property (identifierName name.text) (first.kind == .keyword .var_))
    (type ++ value)

/-! ## Statements -/

/-- A declaration with annotations. -/
def annotatedDeclaration : Run Fragment := do
  let start := (← look).cursor.position
  let entries ← annotationEntries calls
  let declaration ←
    if (← look).cursor.isAt (.keyword .fun_) then function calls else property calls
  close start .annotated (entries ++ [declaration])

/-- A statement. -/
def statement : Run Fragment := do
  let s := (← look).cursor
  match s.kind? with
  | some (.keyword .fun_) => function calls
  | some (.keyword .val_) | some (.keyword .var_) => property calls
  | some .annotationName =>
    if s.declarationAhead then annotatedDeclaration calls else assignment calls
  | _ => assignment calls

/-- Statements up to `closing`, or up to the end of the text. -/
def statements (closing : Option TokenKind) : Run (List Fragment) :=
  rows (fun k => k.isNone || k == closing) closing (statement calls)

/-- Statements up to a closing brace. -/
def statementsInBraces : Run (List Fragment) := statements calls (some (.symbol .rightBrace))

/-- A block at this level of nesting. -/
def blockLevel : Run Fragment := do
  let opening ← symbol .leftBrace
  withLayout .lines do
    let body ← statementsInBraces calls
    let closing ← symbol .rightBrace
    make .block ⟨opening.start, closing.stop⟩ body

/-- The parameters of a lambda and the arrow after them, if it has any. -/
def lambdaParameters : Run (List Fragment) := do
  if parametersAhead (← look).cursor.rest then
    let parameters ← items (some (.symbol .arrow)) (parameter calls false)
    discard (symbol .arrow)
    return parameters
  else return []

/-- A lambda at this level of nesting. -/
def lambdaLevel : Run Fragment := do
  let opening ← symbol .leftBrace
  withLayout .lines do
    let parameters ← lambdaParameters calls
    let body ← statementsInBraces calls
    let closing ← symbol .rightBrace
    let block ← make .block (bodySpan closing body) body
    let span : Span := ⟨opening.start, closing.stop⟩
    let literal ← make .functionLiteral span (parameters ++ [block])
    make .lambda span [literal]

/-- What is done without fuel. -/
def exhausted {α : Type} : Run α := fun s => .error .unexpectedEnd s

end Run

/-- The procedures that open a level, as they call each other at most `fuel` deep. -/
def Calls.ofFuel : (fuel : Nat) → Calls
  | 0 => ⟨Run.exhausted, Run.exhausted, Run.exhausted, Run.exhausted, Run.exhausted⟩
  | fuel + 1 =>
    let calls := ofFuel fuel
    { type := Run.nested (Run.typeLevel calls)
      operand := Run.nested (Run.operandLevel calls)
      wrappedLambda := Run.nested (Run.wrappedLambdaLevel calls)
      lambda := Run.nested (Run.lambdaLevel calls)
      block := Run.nested (Run.blockLevel calls) }

/-- The procedures that open a level. Each of them is at one of the levels or finds that there
    is no more, so the fuel does not end. -/
def Calls.all : Calls := .ofFuel (maxNesting + 1)

namespace Run

/-! ## Files -/

/-- The rest of a dotted path, of at most `limit` segments. A star ends it. -/
def pathFrom : (limit : Nat) → Run String
  | 0 => pure ""
  | limit + 1 => do
    if ← accepts .dot then
      if ← accepts .star then return ".*"
      let t ← identifier "name"
      return "." ++ identifierName t.text ++ (← pathFrom limit)
    else return ""

/-- A package or import directive. -/
def directive : Run Fragment := do
  let first ← next
  let t ← identifier "name"
  let path := identifierName t.text ++ (← pathFrom (← look).cursor.size)
  close first.start
    (if first.kind = .keyword .package_ then .packageDirective path else .importDirective path) []

/-- The package directive, if there is one. -/
def packageDirective : Run (List Fragment) := do
  semicolons
  if (← look).cursor.isAt (.keyword .package_) then
    let d ← directive
    rowEnd none
    return [d]
  else return []

/-- A file. -/
def file : Run Fragment := do
  let package ← packageDirective
  let imports ← rows (· != some (.keyword .import_)) none directive
  let body ← statements .all none
  let p ← look
  if p.cursor.kind?.isSome then unexpected
  else make .file ⟨0, byteLength p.source⟩ (package ++ imports ++ body)

end Run

end ResultHints
