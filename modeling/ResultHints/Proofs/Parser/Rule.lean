import ResultHints.Parser.Statement

/-!
# Rules and what they call

The procedures and the loops of a parser under one type (`Rule`), with what each of them does in
terms of those that it calls (`Rule.body`). A loop is a rule that calls itself for what is left to
do. No limit and no fuel stand in the bodies: they are the equations of a parser that calls itself
as often as it likes, and `Rule.run` is the parser that there is. What is seen ahead
(`Cursor.lambdaAhead`, `Cursor.declarationAhead`, `parametersAhead`) is found in a list of lexemes,
by its structure, and takes none of them; so it is no rule.
-/

namespace ResultHints

open Run

/-- The procedures of a parser that call others, and its loops. -/
inductive Rule
  /-- The loop over semicolons. -/
  | semicolons
  /-- The loop over names with dots before them, of which the last one so far is given. -/
  | lastSegment (name : Lexeme)
  /-- The loop over the rest of a dotted path. -/
  | path
  | type
  | typeLevel
  /-- The loops over the types between parentheses and between angle brackets. -/
  | typesInParentheses
  | typesInAngles
  | typeReference
  | binary (least : Precedence)
  /-- The loop over the operators of a level or of tighter ones, after an operand. -/
  | chain (least : Precedence) (left : Fragment)
  | expression
  | assignment
  | argument
  /-- The loop over arguments. -/
  | arguments
  | argumentList
  /-- The loop over annotation entries. -/
  | annotationEntries
  | lambdaArgument
  | callOf (callee : Fragment)
  | controlBody (kind : NodeKind)
  | inParentheses (kind : NodeKind)
  | ifElse
  | whenCondition
  /-- The loop over the conditions of an entry. -/
  | whenConditions
  | whenEntry
  /-- The loop over the entries of a `when`. -/
  | whenEntries
  | whenBranches
  | forLoop
  | whileLoop
  | primary
  | member
  /-- The loop over indices. -/
  | indices
  | suffixes
  /-- The loop over what follows an expression. -/
  | suffixesOf (e : Fragment)
  | operand
  | operandLevel
  | wrappedLambda
  | wrappedLambdaLevel
  | parameter (hasDefault : Bool)
  /-- The loop over the parameters up to a symbol. -/
  | parameters (stop : Symbol) (hasDefault : Bool)
  | function
  | property
  | statement
  /-- The loop over statements. -/
  | statements (closing : Option TokenKind)
  | block
  | blockLevel
  | lambda
  | lambdaLevel
  | directive
  /-- The loop over imports. -/
  | imports
  | file

namespace Rule

/-- What a rule gives. -/
abbrev Result : Rule → Type
  | semicolons | type | typeLevel => Unit
  | typesInParentheses | typesInAngles => List Unit
  | lastSegment _ => Lexeme
  | path => String
  | arguments | annotationEntries | whenConditions | whenEntries | indices | parameters .. |
    statements _ | imports => List Fragment
  | callOf _ => Option Fragment
  | _ => Fragment

end Rule

/-- What to do for every rule. -/
abbrev Rules := (r : Rule) → Run r.Result

namespace Rule

/-! ## Bodies -/

section Parts

variable {α : Type}

/-- One turn of the loop over semicolons. -/
def semicolonsTurn (rest : Run Unit) : Run Unit := do
  if ← accepts .semicolon then rest else pure ()

/-- One turn of the loop over items with commas between them. -/
def itemsTurn (stop : Option TokenKind) (item : Run α) (rest : Run (List α)) : Run (List α) := do
  if stop.isSome && (← look).cursor.kind? == stop then return []
  let a ← item
  if ← accepts .comma then return a :: (← rest) else return [a]

/-- One turn of the loop over items one below the other. -/
def rowsTurn (stop : Option TokenKind → Bool) (closing : Option TokenKind) (semicolons : Run Unit)
    (item : Run α) (rest : Run (List α)) : Run (List α) := do
  semicolons
  if stop (← look).cursor.kind? then return []
  let a ← item
  rowEnd closing
  return a :: (← rest)

/-- Items up to a symbol, which is taken. -/
def upTo (close : Symbol) (items : Run (List α)) : Run (List α) := do
  let as ← items
  discard (symbol close)
  return as

end Parts

variable (g : Rules)

/-- One turn of the loop over dotted names. -/
def segmentTurn (rest : Lexeme → Run Lexeme) (name : Lexeme) : Run Lexeme := do
  let s := (← look).cursor
  if s.isAt (.symbol .dot) && s.secondKind? == some .identifier then
    discard next
    rest (← next)
  else pure name

/-- Names with dots between them. -/
def qualified (role : String) : Run Lexeme := do
  let name ← identifier role
  g (.lastSegment name)

/-- One turn of the loop over the rest of a path. -/
def pathTurn (rest : Run String) : Run String := do
  if ← accepts .dot then
    if ← accepts .star then return ".*"
    let t ← identifier "name"
    return "." ++ identifierName t.text ++ (← rest)
  else return ""

/-- A type at some level of nesting. -/
def typeBody : Run Unit := do
  if ← accepts .leftParen then
    discard (withLayout .free (upTo .rightParen (g .typesInParentheses)))
    discard (after .arrow (g .type))
    discard (accepts .question)
  else if ← accepts .star then pure ()
  else
    discard (qualified g "type")
    discard (after .less do
      discard (g .typesInAngles)
      discard (symbol .greater))
    discard (accepts .question)

/-- A type, as a node. -/
def typeReferenceBody : Run Fragment := do
  let start := (← look).cursor.position
  g .type
  let span ← spanFrom start
  make (.typeReference (String.ofList (slice (← look).source span))) span []

/-- One turn of the loop over operators. -/
def chainTurn (type : Run Fragment) (binary : Precedence → Run Fragment)
    (rest : Precedence → Fragment → Run Fragment) (least : Precedence) (left : Fragment) :
    Run Fragment := do
  let p ← look
  match p.cursor.connective? p.layout least with
  | none => pure left
  | some (made, level) =>
    discard next
    let right ← match made with
      | .typeTest _ | .cast _ => type
      | _ => binary level.next
    rest least (← join made left right)

/-- An expression or an assignment. -/
def assignmentBody : Run Fragment := do
  let left ← g .expression
  let p ← look
  match p.cursor.kind? >>= TokenKind.assignment? with
  | none => pure left
  | some op =>
    if p.atBreak then pure left
    else do
      discard next
      join (.binary op) left (← g .expression)

/-- An argument. -/
def argumentBody : Run Fragment := do
  let s := (← look).cursor
  let start := s.position
  if s.isAt .identifier && s.secondKind? == some (.symbol .assign) then
    let name ← next
    discard next
    let value ← g .expression
    close start (.argument (some (identifierName name.text))) [value]
  else
    let value ← g .expression
    close start (.argument none) [value]

/-- Arguments between parentheses. -/
def argumentListBody : Run Fragment := do
  let opening ← symbol .leftParen
  let arguments ← withLayout .free (upTo .rightParen (g .arguments))
  close opening.start .argumentList arguments

/-- One turn of the loop over annotation entries. -/
def entriesTurn (argumentList : Run Fragment) (rest : Run (List Fragment)) :
    Run (List Fragment) := do
  match ← accept .annotationName with
  | none => pure []
  | some t =>
    let p ← look
    let hasArguments := p.cursor.isAt (.symbol .leftParen) && !p.atBreak
    let arguments ← optionally hasArguments argumentList
    let entry ← close t.start (.annotationEntry (referredName t.text)) arguments
    return entry :: (← rest)

/-- A lambda after a call. -/
def lambdaArgumentBody : Run Fragment := do
  let start := (← look).cursor.position
  let lambda ← g .wrappedLambda
  close start .lambdaArgument [lambda]

/-- The call of a node, if it is one. -/
def callBody (callee : Fragment) : Run (Option Fragment) := do
  let p ← look
  if p.atBreak then return none
  let arguments ← optionally (p.cursor.isAt (.symbol .leftParen)) (g .argumentList)
  let p ← look
  let lambdas ← optionally (!p.atBreak && p.cursor.lambdaAhead) (g .lambdaArgument)
  if (arguments ++ lambdas).isEmpty then return none
  return some (← close callee.span.start .call (callee :: (arguments ++ lambdas)))

/-- What a branch, a loop or an entry evaluates. -/
def branch : Run Fragment := do
  if (← look).cursor.isAt (.symbol .leftBrace) then g .block else g .assignment

/-- An expression up to a closing parenthesis, which is taken. -/
def parenthesis : Run Fragment :=
  withLayout .free do
    let e ← g .expression
    discard (symbol .rightParen)
    return e

/-- An expression between parentheses. -/
def parenthesesBody (kind : NodeKind) : Run Fragment := do
  discard (symbol .leftParen)
  let e ← parenthesis g
  wrap kind e

/-- An `if`. -/
def ifBody : Run Fragment := do
  let start := (← keyword .if_).start
  let condition ← g (.inParentheses .condition)
  let thenBranch ← g (.controlBody .thenBranch)
  let elseBranch ← optionally (← look).cursor.elseAhead do
    discard (accepts .semicolon)
    discard (keyword .else_)
    g (.controlBody .elseBranch)
  close start .ifElse (condition :: thenBranch :: elseBranch)

/-- A condition of a `when` entry. -/
def conditionBody : Run Fragment := do
  let s := (← look).cursor
  let start := s.position
  match s.kind? with
  | some (.keyword .is_) =>
    discard next
    close start (.whenCondition (.typeTest false)) [← g .typeReference]
  | some (.keyword .notIs) =>
    discard next
    close start (.whenCondition (.typeTest true)) [← g .typeReference]
  | some (.keyword .in_) =>
    discard next
    close start (.whenCondition (.membership false)) [← g .expression]
  | some (.keyword .notIn) =>
    discard next
    close start (.whenCondition (.membership true)) [← g .expression]
  | _ => close start (.whenCondition .expression) [← g .expression]

/-- An entry of a `when`. -/
def entryBody : Run Fragment := do
  let start := (← look).cursor.position
  let isElse := (← accept (.keyword .else_)).isSome
  let conditions : List Fragment ← if isElse then pure [] else g .whenConditions
  discard (symbol .arrow)
  let body ← branch g
  close start (.whenEntry isElse) (conditions ++ [body])

/-- A `when`. -/
def whenBody : Run Fragment := do
  let start := (← keyword .when_).start
  let s := (← look).cursor
  let subject ← optionally (s.isAt (.symbol .leftParen)) (g (.inParentheses .whenSubject))
  discard (symbol .leftBrace)
  let entries ← withLayout .lines (upTo .rightBrace (g .whenEntries))
  close start .when_ (subject ++ entries)

/-- A `for`. -/
def forBody : Run Fragment := do
  let start := (← keyword .for_).start
  discard (symbol .leftParen)
  let (name, range) ← withLayout .free do
    let name ← identifier "loop variable"
    discard (keyword .in_)
    let iterated ← g .expression
    discard (symbol .rightParen)
    let range ← wrap .loopRange iterated
    return (name, range)
  let body ← g (.controlBody .loopBody)
  close start (.forLoop (identifierName name.text)) [range, body]

/-- A `while`. -/
def whileBody : Run Fragment := do
  let start := (← keyword .while_).start
  let condition ← g (.inParentheses .condition)
  let body ← g (.controlBody .loopBody)
  close start .whileLoop [condition, body]

/-- The expression that begins with a keyword. -/
def keywordBody (t : Lexeme) : Keyword → Run Fragment
  | .this_ => do
    discard next
    close t.start (.this (← Run.labelReference?)) []
  | .if_ => g .ifElse
  | .when_ => g .whenBranches
  | .for_ => g .forLoop
  | .while_ => g .whileLoop
  | .return_ => do
    discard next
    let label ← Run.labelReference?
    let p ← look
    let value ← optionally (!p.cursor.atValueEnd p.layout) (g .expression)
    close t.start (.jump (.return_ label)) value
  | .throw_ => do
    discard next
    close t.start (.jump .throw_) [← g .expression]
  | .break_ => do
    discard next
    close t.start (.jump (.break_ (← Run.labelReference?))) []
  | .continue_ => do
    discard next
    close t.start (.jump (.continue_ (← Run.labelReference?))) []
  | _ => unexpected

/-- An expression without what may follow it. -/
def primaryBody : Run Fragment := do
  match (← look).cursor.rest with
  | [] => unexpected
  | t :: _ => match t.kind.literal?, t.kind with
    | some sort, _ => do
      discard next
      leaf (.literal sort) t
    | none, .identifier => do
      discard next
      leaf (.nameReference (identifierName t.text)) t
    | none, .symbol .leftParen => do
      discard next
      let e ← parenthesis g
      close t.start .parenthesized [e]
    | none, .symbol .leftBrace => g .lambda
    | none, .keyword word => keywordBody g t word
    | none, _ => unexpected

/-- A member after a dot. -/
def memberBody : Run Fragment := do
  let t ← identifier "member name"
  let name ← leaf (.nameReference (identifierName t.text)) t
  return (← g (.callOf name) : Option Fragment).getD name

/-- The indices after the opening bracket, which belong to `receiver`. -/
def indexBody (indices : Run (List Fragment)) (receiver : Fragment) : Run Fragment := do
  let es ← withLayout .free (upTo .rightBracket indices)
  close receiver.span.start .arrayAccess (receiver :: es)

/-- One turn of the loop over what follows an expression. -/
def suffixesTurn (member : Run Fragment) (indices : Run (List Fragment))
    (call : Fragment → Run (Option Fragment)) (rest : Fragment → Run Fragment) (e : Fragment) :
    Run Fragment := do
  let p ← look
  match p.cursor.kind? with
  | some (.symbol .dot) =>
    discard next
    let name ← member
    rest (← join (.qualified false) e name)
  | some (.symbol .safeAccess) =>
    discard next
    let name ← member
    rest (← join (.qualified true) e name)
  | k =>
    if p.atBreak then return e
    match k >>= TokenKind.trailing?, k with
    | some op, _ =>
      discard next
      let e ← close e.span.start (.trailing op) [e]
      rest e
    | none, some (.symbol .leftBracket) =>
      discard next
      let e ← indexBody indices e
      rest e
    | none, _ =>
      match ← call e with
      | none => pure e
      | some call => rest call

/-- An operand at some level of nesting. -/
def operandBody : Run Fragment := do
  let s := (← look).cursor
  let start := s.position
  match s.kind? >>= TokenKind.leading?, s.kind? with
  | some op, _ =>
    discard next
    close start (.leading op) [← g .operand]
  | none, some .labelDefinition =>
    let label ← next
    let base ← optionally (!(← look).cursor.atClosing) (g .operand)
    close start (.labeled (definedLabel label.text)) base
  | none, some .annotationName =>
    let entries : List Fragment ← g .annotationEntries
    let base ← optionally (!(← look).cursor.atClosing) (g .operand)
    close start .annotated (entries ++ base)
  | none, _ => g .suffixes

/-- A lambda, maybe labeled or annotated, at some level of nesting. -/
def wrappedLambdaBody : Run Fragment := do
  let s := (← look).cursor
  let start := s.position
  match s.kind? with
  | some .annotationName =>
    let entries : List Fragment ← g .annotationEntries
    close start .annotated (entries ++ [← g .wrappedLambda])
  | some .labelDefinition =>
    let label ← next
    close start (.labeled (definedLabel label.text)) [← g .wrappedLambda]
  | _ => g .lambda

/-- A parameter. -/
def parameterBody (hasDefault : Bool) : Run Fragment := do
  let name ← identifier "parameter name"
  let type ← after .colon (g .typeReference)
  let value ← if hasDefault then after .assign (g .expression) else pure []
  close name.start (.parameter (identifierName name.text)) (type ++ value)

/-- What a function evaluates, if that is told. -/
def valueBody : Run (List Fragment) := do
  if (← look).cursor.isAt (.symbol .leftBrace) then return [← g .block]
  else after .assign (g .expression)

/-- A function. -/
def functionBody : Run Fragment := do
  let start := (← keyword .fun_).start
  let name ← qualified g "function name"
  discard (symbol .leftParen)
  let parameters ← withLayout .free (upTo .rightParen (g (.parameters .rightParen true)))
  let type ← after .colon (g .typeReference)
  let body ← valueBody g
  close start (.function (identifierName name.text)) (parameters ++ type ++ body)

/-- A property. -/
def propertyBody : Run Fragment := do
  let first ← next
  let name ← identifier "property name"
  let type ← after .colon (g .typeReference)
  let value ← after .assign (g .expression)
  close first.start (.property (identifierName name.text) (first.kind == .keyword .var_))
    (type ++ value)

/-- A declaration with annotations. -/
def annotatedBody : Run Fragment := do
  let start := (← look).cursor.position
  let entries : List Fragment ← g .annotationEntries
  let declaration ←
    if (← look).cursor.isAt (.keyword .fun_) then g .function else g .property
  close start .annotated (entries ++ [declaration])

/-- A statement. -/
def statementBody : Run Fragment := do
  let s := (← look).cursor
  match s.kind? with
  | some (.keyword .fun_) => g .function
  | some (.keyword .val_) | some (.keyword .var_) => g .property
  | some .annotationName => if s.declarationAhead then annotatedBody g else g .assignment
  | _ => g .assignment

/-- A block at some level of nesting. -/
def blockBody : Run Fragment := do
  let opening ← symbol .leftBrace
  withLayout .lines do
    let body ← g (.statements (some (.symbol .rightBrace)))
    let closing ← symbol .rightBrace
    make .block ⟨opening.start, closing.stop⟩ body

/-- The parameters of a lambda and the arrow after them, if it has any. -/
def headBody : Run (List Fragment) := do
  if parametersAhead (← look).cursor.rest then upTo .arrow (g (.parameters .arrow false))
  else return []

/-- A lambda at some level of nesting. -/
def lambdaBody : Run Fragment := do
  let opening ← symbol .leftBrace
  withLayout .lines do
    let parameters ← headBody g
    let body ← g (.statements (some (.symbol .rightBrace)))
    let closing ← symbol .rightBrace
    let block ← make .block (bodySpan closing body) body
    let span : Span := ⟨opening.start, closing.stop⟩
    let literal ← make .functionLiteral span (parameters ++ [block])
    make .lambda span [literal]

/-- A package or import directive. -/
def directiveBody : Run Fragment := do
  let first ← next
  let t ← identifier "name"
  let path := identifierName t.text ++ (← g .path : String)
  close first.start
    (if first.kind = .keyword .package_ then .packageDirective path else .importDirective path) []

/-- The package directive, if there is one. -/
def packageBody : Run (List Fragment) := do
  g .semicolons
  if (← look).cursor.isAt (.keyword .package_) then
    let d ← g .directive
    rowEnd none
    return [d]
  else return []

/-- A file. -/
def fileBody : Run Fragment := do
  let package ← packageBody g
  let imports : List Fragment ← g .imports
  let body : List Fragment ← g (.statements none)
  let p ← look
  if p.cursor.kind?.isSome then unexpected
  else make .file ⟨0, byteLength p.source⟩ (package ++ imports ++ body)

/-- What a rule does, when it is told what to do for the rules that it calls. -/
def body : (r : Rule) → Run r.Result
  | semicolons => semicolonsTurn (g .semicolons)
  | lastSegment name => segmentTurn (fun name => g (.lastSegment name)) name
  | path => pathTurn (g .path)
  | type => nested (g .typeLevel)
  | typeLevel => typeBody g
  | typesInParentheses =>
    itemsTurn (some (.symbol .rightParen)) (g .type) (g .typesInParentheses)
  | typesInAngles => itemsTurn none (g .type) (g .typesInAngles)
  | typeReference => typeReferenceBody g
  | binary least => do
    let first ← g .operand
    g (.chain least first)
  | chain least left =>
    chainTurn (g .typeReference) (fun level => g (.binary level))
      (fun least left => g (.chain least left)) least left
  | expression => g (.binary .disjunction)
  | assignment => assignmentBody g
  | argument => argumentBody g
  | arguments => itemsTurn (some (.symbol .rightParen)) (g .argument) (g .arguments)
  | argumentList => argumentListBody g
  | annotationEntries => entriesTurn (g .argumentList) (g .annotationEntries)
  | lambdaArgument => lambdaArgumentBody g
  | callOf callee => callBody g callee
  | controlBody kind => do wrap kind (← branch g)
  | inParentheses kind => parenthesesBody g kind
  | ifElse => ifBody g
  | whenCondition => conditionBody g
  | whenConditions => itemsTurn none (g .whenCondition) (g .whenConditions)
  | whenEntry => entryBody g
  | whenEntries =>
    let close? : Option TokenKind := some (.symbol .rightBrace)
    rowsTurn (· == close?) close? (g .semicolons) (g .whenEntry) (g .whenEntries)
  | whenBranches => whenBody g
  | forLoop => forBody g
  | whileLoop => whileBody g
  | primary => primaryBody g
  | member => memberBody g
  | indices => itemsTurn none (g .expression) (g .indices)
  | suffixes => do
    let e ← g .primary
    g (.suffixesOf e)
  | suffixesOf e =>
    suffixesTurn (g .member) (g .indices) (fun e => g (.callOf e)) (fun e => g (.suffixesOf e)) e
  | operand => nested (g .operandLevel)
  | operandLevel => operandBody g
  | wrappedLambda => nested (g .wrappedLambdaLevel)
  | wrappedLambdaLevel => wrappedLambdaBody g
  | parameter hasDefault => parameterBody g hasDefault
  | parameters stop hasDefault =>
    itemsTurn (some (.symbol stop)) (g (.parameter hasDefault)) (g (.parameters stop hasDefault))
  | function => functionBody g
  | property => propertyBody g
  | statement => statementBody g
  | statements closing =>
    rowsTurn (fun k => k.isNone || k == closing) closing (g .semicolons) (g .statement)
      (g (.statements closing))
  | block => nested (g .blockLevel)
  | blockLevel => blockBody g
  | lambda => nested (g .lambdaLevel)
  | lambdaLevel => lambdaBody g
  | directive => directiveBody g
  | imports =>
    rowsTurn (· != some (.keyword .import_)) none (g .semicolons) (g .directive) (g .imports)
  | file => fileBody g

/-! ## The parser -/

/-- What the parser does for a rule, over the procedures that open a level. -/
def runOver (calls : Calls) : (r : Rule) → Run r.Result
  | semicolons => Run.semicolons
  | lastSegment name => do Run.lastSegmentUpTo (← look).cursor.size name
  | path => do Run.pathFrom (← look).cursor.size
  | type => calls.type
  | typeLevel => Run.typeLevel calls
  | typesInParentheses => items (some (.symbol .rightParen)) calls.type
  | typesInAngles => items none calls.type
  | typeReference => Run.typeReference calls
  | binary least => Run.binary calls least
  | chain least left => do Run.chain calls (← look).cursor.size least left
  | expression => Run.expression calls
  | assignment => Run.assignment calls
  | argument => Run.argument calls
  | arguments => items (some (.symbol .rightParen)) (Run.argument calls)
  | argumentList => Run.argumentList calls
  | annotationEntries => Run.annotationEntries calls
  | lambdaArgument => Run.lambdaArgument calls
  | callOf callee => Run.callOf? calls callee
  | controlBody kind => Run.controlBody calls kind
  | inParentheses kind => Run.inParentheses calls kind
  | ifElse => Run.ifElse calls
  | whenCondition => Run.whenCondition calls
  | whenConditions => items none (Run.whenCondition calls)
  | whenEntry => Run.whenEntry calls
  | whenEntries =>
    let close? : Option TokenKind := some (.symbol .rightBrace)
    rows (· == close?) close? (Run.whenEntry calls)
  | whenBranches => Run.whenBranches calls
  | forLoop => Run.forLoop calls
  | whileLoop => Run.whileLoop calls
  | primary => Run.primary calls
  | member => Run.member calls
  | indices => items none (Run.expression calls)
  | suffixes => Run.suffixes calls
  | suffixesOf e => do Run.suffixesUpTo calls (← look).cursor.size e
  | operand => calls.operand
  | operandLevel => Run.operandLevel calls
  | wrappedLambda => calls.wrappedLambda
  | wrappedLambdaLevel => Run.wrappedLambdaLevel calls
  | parameter hasDefault => Run.parameter calls hasDefault
  | parameters stop hasDefault => items (some (.symbol stop)) (Run.parameter calls hasDefault)
  | function => Run.function calls
  | property => Run.property calls
  | statement => Run.statement calls
  | statements closing => Run.statements calls closing
  | block => calls.block
  | blockLevel => Run.blockLevel calls
  | lambda => calls.lambda
  | lambdaLevel => Run.lambdaLevel calls
  | directive => Run.directive
  | imports => rows (· != some (.keyword .import_)) none Run.directive
  | file => Run.file

/-- What the parser does for a rule. -/
def run : Rules := runOver .all

/-! ## What a rule takes, and what it may call -/

/-- How many lexemes a rule takes at least from where a parser stands, when it gives a result:
    one, but for the loops, which may end at once, and for what may be no call. -/
def least : (r : Rule) → Parser → r.Result → Nat
  | semicolons, _, _ | lastSegment _, _, _ | path, _, _ | typesInParentheses, _, _ |
    chain .., _, _ | arguments, _, _ | whenEntries, _, _ | suffixesOf _, _, _ |
    parameters .., _, _ | statements _, _, _ | imports, _, _ | file, _, _ => 0
  | annotationEntries, p, _ => if p.cursor.isAt .annotationName then 1 else 0
  | callOf _, _, call => if call.isSome then 1 else 0
  | _, _, _ => 1

/-- The rank of a rule: those that it calls before it has taken a lexeme are of lower rank. -/
def rank : Rule → Nat
  | whenEntries | file => 11
  | whenEntry | statements _ => 10
  | controlBody _ | statement | arguments | whenConditions => 9
  | assignment | argument | whenCondition | indices => 8
  | expression => 7
  | binary _ | suffixesOf _ => 6
  | operand | callOf _ => 5
  | operandLevel | lambdaArgument => 4
  | suffixes | wrappedLambda => 3
  | typesInParentheses | typesInAngles | typeReference | primary | wrappedLambdaLevel => 2
  | type | lambda | block | parameters .. | imports => 1
  | _ => 0

/-- How many levels a rule opens. -/
def levels : Rule → Nat
  | type | operand | wrappedLambda | lambda | block => 1
  | _ => 0

/-- The rule `r` in the session `s` may call `q` in the session `s'`: a lexeme was taken before or
    the rank is lower, all other lexemes are still ahead, and there is the level that `r` opens. -/
structure MayCall (r : Rule) (s : Session) (q : Rule) (s' : Session) : Prop where
  less : s.now.pos < s'.now.pos ∨ s'.now.pos = s.now.pos ∧ q.rank < r.rank
  total : s'.now.pos + s'.now.cursor.size = s.now.pos + s.now.cursor.size
  depth : s'.now.depth = s.now.depth + r.levels
  level : s'.now.depth = s.now.depth ∨ s'.now.depth ≤ maxNesting

/-- A bound for how deep the calls of rules go: there are twelve ranks. -/
def height (r : Rule) (s : Session) : Nat := 12 * s.now.cursor.size + r.rank

end Rule

end ResultHints
