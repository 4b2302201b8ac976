import ResultHints.Grammar.Argument

/-!
# Declarations and statements

The statements of a file, of a block and of a lambda: declarations of functions
and properties, which may be annotated, and expressions and assignments. They are
in lines, whatever the layout around them is. Whether annotations belong to a
declaration is seen before they are read (`Cursor.declarationAhead`), and so is
whether a lambda begins with parameters (`parametersAhead`).
-/

namespace ResultHints

open Reader

/-! ## Looking ahead -/

/-- Whether the lexemes after an opening brace are parameters and an arrow: only
    such lexemes come before the first arrow as may be part of parameters. -/
def parametersAhead : List Lexeme → Bool
  | [] => false
  | t :: ts => match t.kind with
    | .symbol .arrow => true
    | .identifier | .symbol .comma | .symbol .colon | .symbol .dot | .symbol .less
    | .symbol .greater | .symbol .question | .symbol .star => parametersAhead ts
    | _ => false

/-- Whether a declaration comes after the annotations at the cursor. -/
def Cursor.declarationAhead (s : Cursor) : Bool :=
  match kinds (afterAnnotations .before s.rest) with
  | .keyword .fun_ :: _ | .keyword .val_ :: _ | .keyword .var_ :: _ => true
  | _ => false

variable (inner : Inner)

/-! ## Declarations -/

/-- A parameter of a function, which may have a default value. -/
def functionParameter : Reader Fragment := do
  let name ← identifier "parameter name"
  let type ← after .colon (typeReference inner)
  let value ← after .assign (expression inner .free)
  close name.start (.parameter (identifierName name.text)) (type ++ value)

/-- A parameter of a lambda. -/
def lambdaParameter : Reader Fragment := do
  let name ← identifier "parameter name"
  let type ← after .colon (typeReference inner)
  close name.start (.parameter (identifierName name.text)) type

/-- What a function evaluates, if that is told. -/
def functionBody : Reader (List Fragment) := do
  if (← get).isAt (.symbol .leftBrace) then return [← inner.block]
  else after .assign (expression inner .lines)

/-- A function. Of a receiver and the name after it, the name is kept. -/
def function : Reader Fragment := do
  let start := (← keyword .fun_).start
  let name ← qualifiedName "function name"
  discard (symbol .leftParen)
  let parameters ← itemsTo .rightParen (functionParameter inner)
  let type ← after .colon (typeReference inner)
  let body ← functionBody inner
  close start (.function (identifierName name.text)) (parameters ++ type ++ body)

/-- A property, after a `val` or a `var`. -/
def property : Reader Fragment := do
  let first ← next
  let name ← identifier "property name"
  let type ← after .colon (typeReference inner)
  let value ← after .assign (expression inner .lines)
  close first.start (.property (identifierName name.text) (first.kind == .keyword .var_))
    (type ++ value)

/-! ## Statements -/

/-- A declaration with annotations. -/
def annotatedDeclaration : Reader Fragment := do
  let start := (← get).position
  let entries ← annotationEntries inner .lines
  let declaration ←
    if (← get).isAt (.keyword .fun_) then function inner else property inner
  close start .annotated (entries ++ [declaration])

/-- A statement. -/
def statement : Reader Fragment := do
  let s ← get
  match s.kind? with
  | some (.keyword .fun_) => function inner
  | some (.keyword .val_) | some (.keyword .var_) => property inner
  | some .annotationName =>
    if s.declarationAhead then annotatedDeclaration inner else assignment inner .lines
  | _ => assignment inner .lines

/-- Statements up to `closing`, or up to the end of the text. -/
def statements (closing : Option TokenKind) : Reader (List Fragment) :=
  rows (fun k => k.isNone || k == closing) closing (statement inner)

/-- Statements up to a closing brace. -/
def statementsInBraces : Reader (List Fragment) := statements inner (some (.symbol .rightBrace))

/-- A block at this level of nesting. -/
def blockLevel : Reader Fragment := do
  let opening ← symbol .leftBrace
  let body ← statementsInBraces inner
  let closing ← symbol .rightBrace
  make .block ⟨opening.start, closing.stop⟩ body

/-- The parameters of a lambda and the arrow after them, if it has any. -/
def lambdaParameters : Reader (List Fragment) := do
  if parametersAhead (← get).rest then
    let parameters ← items (some (.symbol .arrow)) (lambdaParameter inner)
    discard (symbol .arrow)
    return parameters
  else return []

/-- The span of the statements of a lambda; of none, the point before its closing
    brace. -/
def bodySpan (closing : Lexeme) (body : List Fragment) : Span :=
  match body.head?, body.getLast? with
  | some first, some last => ⟨first.span.start, last.span.stop⟩
  | _, _ => .point closing.start

/-- A lambda at this level of nesting. -/
def lambdaLevel : Reader Fragment := do
  let opening ← symbol .leftBrace
  let parameters ← lambdaParameters inner
  let body ← statementsInBraces inner
  let closing ← symbol .rightBrace
  let block ← make .block (bodySpan closing body) body
  let span : Span := ⟨opening.start, closing.stop⟩
  let literal ← make .functionLiteral span (parameters ++ [block])
  make .lambda span [literal]

end ResultHints
