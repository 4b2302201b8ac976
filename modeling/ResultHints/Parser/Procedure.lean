import ResultHints.Parser.Statement

/-!
# The procedures of a parser

All procedures of a parser under one type, each with the nodes that it gives, and the sessions in
which a parser is asked for expressions.
-/

namespace ResultHints

/-- The procedures of a parser, with their arguments. -/
inductive Procedure
  | next
  | accept (k : TokenKind)
  | expect (what : Expectation)
  | semicolons
  | rowEnd (closing : Option TokenKind)
  | leafOfNext (kind : NodeKind)
  | labelReference
  | type
  | typeLevel
  | typeReference
  | binary (least : Precedence)
  | expression
  | assignment
  | argument
  | argumentList
  | annotationEntries
  | lambdaArgument
  | callOf (callee : Fragment)
  | controlBody (kind : NodeKind)
  | inParentheses (kind : NodeKind)
  | ifElse
  | whenCondition
  | whenEntry
  | whenBranches
  | forLoop
  | whileLoop
  | primary
  | member
  | suffixes
  | operand
  | operandLevel
  | wrappedLambda
  | wrappedLambdaLevel
  | parameter (hasDefault : Bool)
  | function
  | property
  | statement
  | statements (closing : Option TokenKind)
  | block
  | blockLevel
  | lambda
  | lambdaLevel
  | directive
  | file

/-- What is done, with the nodes that it gives as its result. -/
def Run.giving {α : Type} (nodes : α → List Fragment) (x : Run α) : Run (List Fragment) := do
  return nodes (← x)

namespace Procedure

/-- What a procedure does, and the nodes that it gives. -/
def run : Procedure → Run (List Fragment)
  | next => Run.next.giving fun _ => []
  | accept k => (Run.accept k).giving fun _ => []
  | expect what => (Run.expect what).giving fun _ => []
  | semicolons => Run.semicolons.giving fun _ => []
  | rowEnd closing => (Run.rowEnd closing).giving fun _ => []
  | leafOfNext kind => (Run.next >>= Run.leaf kind).giving fun u => [u]
  | labelReference => Run.labelReference?.giving fun _ => []
  | type => Calls.all.type.giving fun _ => []
  | typeLevel => (Run.typeLevel .all).giving fun _ => []
  | typeReference => (Run.typeReference .all).giving fun u => [u]
  | binary least => (Run.binary .all least).giving fun u => [u]
  | expression => (Run.expression .all).giving fun u => [u]
  | assignment => (Run.assignment .all).giving fun u => [u]
  | argument => (Run.argument .all).giving fun u => [u]
  | argumentList => (Run.argumentList .all).giving fun u => [u]
  | annotationEntries => (Run.annotationEntries .all).giving id
  | lambdaArgument => (Run.lambdaArgument .all).giving fun u => [u]
  | callOf callee => (Run.callOf? .all callee).giving Option.toList
  | controlBody kind => (Run.controlBody .all kind).giving fun u => [u]
  | inParentheses kind => (Run.inParentheses .all kind).giving fun u => [u]
  | ifElse => (Run.ifElse .all).giving fun u => [u]
  | whenCondition => (Run.whenCondition .all).giving fun u => [u]
  | whenEntry => (Run.whenEntry .all).giving fun u => [u]
  | whenBranches => (Run.whenBranches .all).giving fun u => [u]
  | forLoop => (Run.forLoop .all).giving fun u => [u]
  | whileLoop => (Run.whileLoop .all).giving fun u => [u]
  | primary => (Run.primary .all).giving fun u => [u]
  | member => (Run.member .all).giving fun u => [u]
  | suffixes => (Run.suffixes .all).giving fun u => [u]
  | operand => Calls.all.operand.giving fun u => [u]
  | operandLevel => (Run.operandLevel .all).giving fun u => [u]
  | wrappedLambda => Calls.all.wrappedLambda.giving fun u => [u]
  | wrappedLambdaLevel => (Run.wrappedLambdaLevel .all).giving fun u => [u]
  | parameter hasDefault => (Run.parameter .all hasDefault).giving fun u => [u]
  | function => (Run.function .all).giving fun u => [u]
  | property => (Run.property .all).giving fun u => [u]
  | statement => (Run.statement .all).giving fun u => [u]
  | statements closing => (Run.statements .all closing).giving id
  | block => Calls.all.block.giving fun u => [u]
  | blockLevel => (Run.blockLevel .all).giving fun u => [u]
  | lambda => Calls.all.lambda.giving fun u => [u]
  | lambdaLevel => (Run.lambdaLevel .all).giving fun u => [u]
  | directive => Run.directive.giving fun u => [u]
  | file => Run.file.giving fun u => [u]

/-- The nodes that a procedure is given. -/
def arguments : Procedure → List Fragment
  | callOf callee => [callee]
  | _ => []

end Procedure

/-! ## Sessions of expressions -/

/-- The session after a procedure, however that ended. -/
def Session.behind {α : Type} : EStateM.Result Fault Session α → Session
  | .ok _ s => s
  | .error _ s => s

/-- Whether a procedure has given a result. -/
def Session.succeeds {α : Type} : EStateM.Result Fault Session α → Bool
  | .ok _ _ => true
  | .error _ _ => false

/-- What the outcome of a procedure is to a reader. -/
def Session.outcome {α : Type} : EStateM.Result Fault Session α → EStateM.Result Fault Cursor α
  | .ok a s => .ok a s.now.cursor
  | .error e s => .error e s.now.cursor

/-- The sessions in which a parser is asked for expressions of a source text, one after the
    other. -/
inductive Reachable (source : List Char) : Session → Prop
  | start {tokens : List Token} : tokenize source = .ok tokens →
    Reachable source (.ofTokens source tokens)
  | expression {s : Session} : Reachable source s →
    Reachable source (.behind (Run.expression .all s))

/-- The first `count` expressions that a parser is asked for, then the file that follows and the
    session after it; up to the fault, if there is one. -/
def Run.expressionsThenFile :
    (count : Nat) → Session → List Fragment × Except Fault (Fragment × Session)
  | 0, s => match file s with
    | .ok t s => ([], .ok (t, s))
    | .error fault _ => ([], .error fault)
  | count + 1, s => match expression .all s with
    | .ok t s =>
      let (ts, outcome) := expressionsThenFile count s
      (t :: ts, outcome)
    | .error fault _ => ([], .error fault)

end ResultHints
