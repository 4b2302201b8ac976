import ResultHints.Parser.Basic

/-!
# Expressions, arguments and branches by a parser

The rules of types, expressions, arguments and branches, in the state of a parser. They are
written over the procedures that open a level (`Calls`), as the readers are over what may be
read one level further in; but the level itself, and the layout, are those of the state.
-/

namespace ResultHints

/-- The procedures that open a level of nesting. -/
structure Calls where
  /-- A type; its node is made around what is read. -/
  type : Run Unit
  operand : Run Fragment
  /-- A lambda, which may be labeled or annotated. -/
  wrappedLambda : Run Fragment
  lambda : Run Fragment
  block : Run Fragment

namespace Run

variable (calls : Calls)

/-! ## Types -/

/-- The types between parentheses, after the opening one, and the result type. -/
def functionType : Run Unit := do
  discard (withLayout .free (itemsTo .rightParen calls.type))
  discard (after .arrow calls.type)
  discard (accepts .question)

/-- The types between angle brackets, after the opening one. -/
def typeArguments : Run Unit := do
  discard (items none calls.type)
  discard (symbol .greater)

/-- A name with type arguments. -/
def namedType : Run Unit := do
  discard (qualifiedName "type")
  discard (after .less (typeArguments calls))
  discard (accepts .question)

/-- A type at this level of nesting. -/
def typeLevel : Run Unit := do
  if ← accepts .leftParen then functionType calls
  else if ← accepts .star then pure ()
  else namedType calls

/-- The node of a type, with the part of the source it covers as its text. -/
def typeReference : Run Fragment := do
  let start := (← look).cursor.position
  calls.type
  let span ← spanFrom start
  make (.typeReference (String.ofList (slice (← look).source span))) span []

/-! ## Expressions and assignments -/

/-- The chain that begins with the operand `left`, of operators of level `least` or tighter;
    at most `limit` of them are taken. -/
def chain : (limit : Nat) → (least : Precedence) → (left : Fragment) → Run Fragment
  | 0, _, left => pure left
  | limit + 1, least, left => do
    let p ← look
    match p.cursor.connective? p.layout least with
    | none => pure left
    | some (made, level) =>
      discard next
      let right ← match made with
        | .typeTest _ | .cast _ => typeReference calls
        | _ => calls.operand >>= chain limit level.next
      chain limit least (← join made left right)

/-- Operands with operators of level `least` or tighter between them. -/
def binary (least : Precedence) : Run Fragment := do
  let first ← calls.operand
  chain calls (← look).cursor.size least first

/-- An expression. -/
def expression : Run Fragment := binary calls .disjunction

/-- An expression, or an assignment to it by an operator on the same line. -/
def assignment : Run Fragment := do
  let left ← expression calls
  let p ← look
  match p.cursor.kind? >>= TokenKind.assignment? with
  | none => pure left
  | some op =>
    if p.atBreak then pure left
    else do
      discard next
      join (.binary op) left (← expression calls)

/-! ## Arguments -/

/-- An argument between parentheses, with a name if an equals sign follows one. -/
def argument : Run Fragment := do
  let s := (← look).cursor
  let start := s.position
  if s.isAt .identifier && s.secondKind? == some (.symbol .assign) then
    let name ← next
    discard next
    let value ← expression calls
    close start (.argument (some (identifierName name.text))) [value]
  else
    let value ← expression calls
    close start (.argument none) [value]

/-- Arguments between parentheses. -/
def argumentList : Run Fragment := do
  let opening ← symbol .leftParen
  let arguments ← withLayout .free (itemsTo .rightParen (argument calls))
  close opening.start .argumentList arguments

/-- At most `limit` annotation entries. -/
def annotationEntriesUpTo : (limit : Nat) → Run (List Fragment)
  | 0 => pure []
  | limit + 1 => do
    match ← accept .annotationName with
    | none => pure []
    | some t =>
      let p ← look
      let hasArguments := p.cursor.isAt (.symbol .leftParen) && !p.atBreak
      let arguments ← optionally hasArguments (argumentList calls)
      let entry ← close t.start (.annotationEntry (referredName t.text)) arguments
      return entry :: (← annotationEntriesUpTo limit)

/-- All annotation entries that come next. -/
def annotationEntries : Run (List Fragment) := do
  annotationEntriesUpTo calls (← look).cursor.size

/-- A lambda after a call. -/
def lambdaArgument : Run Fragment := do
  let start := (← look).cursor.position
  let lambda ← calls.wrappedLambda
  close start .lambdaArgument [lambda]

/-- The call of `callee`, if arguments or a lambda follow on its line. -/
def callOf? (callee : Fragment) : Run (Option Fragment) := do
  let p ← look
  if p.atBreak then return none
  let arguments ← optionally (p.cursor.isAt (.symbol .leftParen)) (argumentList calls)
  let p ← look
  let lambdas ← optionally (!p.atBreak && p.cursor.lambdaAhead) (lambdaArgument calls)
  if (arguments ++ lambdas).isEmpty then return none
  return some (← close callee.span.start .call (callee :: (arguments ++ lambdas)))

/-! ## Branches and loops -/

/-- What a branch, a loop or an entry evaluates. -/
def body : Run Fragment := do
  if (← look).cursor.isAt (.symbol .leftBrace) then calls.block else assignment calls

/-- What a branch or a loop evaluates, in a node of the given kind. -/
def controlBody (kind : NodeKind) : Run Fragment := do
  wrap kind (← body calls)

/-- An expression up to a closing parenthesis, which is taken. -/
def expressionInParentheses : Run Fragment :=
  withLayout .free do
    let e ← expression calls
    discard (symbol .rightParen)
    return e

/-- An expression between parentheses, in a node of the given kind. -/
def inParentheses (kind : NodeKind) : Run Fragment := do
  discard (symbol .leftParen)
  let e ← expressionInParentheses calls
  wrap kind e

/-- The else branch of an `if`. -/
def elseBranch : Run Fragment := do
  discard (accepts .semicolon)
  discard (keyword .else_)
  controlBody calls .elseBranch

/-- An `if`. -/
def ifElse : Run Fragment := do
  let start := (← keyword .if_).start
  let condition ← inParentheses calls .condition
  let thenBranch ← controlBody calls .thenBranch
  let elseBranch ← optionally (← look).cursor.elseAhead (elseBranch calls)
  close start .ifElse (condition :: thenBranch :: elseBranch)

/-- A condition of a `when` entry. -/
def whenCondition : Run Fragment := do
  let s := (← look).cursor
  let start := s.position
  match s.kind? with
  | some (.keyword .is_) =>
    discard next
    close start (.whenCondition (.typeTest false)) [← typeReference calls]
  | some (.keyword .notIs) =>
    discard next
    close start (.whenCondition (.typeTest true)) [← typeReference calls]
  | some (.keyword .in_) =>
    discard next
    close start (.whenCondition (.membership false)) [← expression calls]
  | some (.keyword .notIn) =>
    discard next
    close start (.whenCondition (.membership true)) [← expression calls]
  | _ => close start (.whenCondition .expression) [← expression calls]

/-- An entry of a `when`. -/
def whenEntry : Run Fragment := do
  let start := (← look).cursor.position
  let isElse := (← accept (.keyword .else_)).isSome
  let conditions ← if isElse then pure [] else items none (whenCondition calls)
  discard (symbol .arrow)
  let body ← body calls
  close start (.whenEntry isElse) (conditions ++ [body])

/-- The entries of a `when` up to a closing brace, which is taken. -/
def whenEntries : Run (List Fragment) :=
  withLayout .lines do
    let close? : Option TokenKind := some (.symbol .rightBrace)
    let entries ← rows (· == close?) close? (whenEntry calls)
    discard (symbol .rightBrace)
    return entries

/-- A `when`. -/
def whenBranches : Run Fragment := do
  let start := (← keyword .when_).start
  let s := (← look).cursor
  let subject ← optionally (s.isAt (.symbol .leftParen)) (inParentheses calls .whenSubject)
  discard (symbol .leftBrace)
  let entries ← whenEntries calls
  close start .when_ (subject ++ entries)

/-- The variable of a `for` and what it goes over, up to a closing parenthesis, which is taken. -/
def loopHead : Run (Lexeme × Fragment) :=
  withLayout .free do
    let name ← identifier "loop variable"
    discard (keyword .in_)
    let iterated ← expression calls
    discard (symbol .rightParen)
    let range ← wrap .loopRange iterated
    return (name, range)

/-- A `for`. -/
def forLoop : Run Fragment := do
  let start := (← keyword .for_).start
  discard (symbol .leftParen)
  let (name, range) ← loopHead calls
  let body ← controlBody calls .loopBody
  close start (.forLoop (identifierName name.text)) [range, body]

/-- A `while`. -/
def whileLoop : Run Fragment := do
  let start := (← keyword .while_).start
  let condition ← inParentheses calls .condition
  let body ← controlBody calls .loopBody
  close start .whileLoop [condition, body]

end Run

end ResultHints
