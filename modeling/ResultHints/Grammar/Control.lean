import ResultHints.Grammar.Expression
import ResultHints.Grammar.Naming

/-!
# Branches and loops

`if`, `when`, `for` and `while`. Parts that stand in parentheses are in free
layout, the entries of a `when` are in lines, and what is evaluated is a block or
a single expression or assignment, in the layout around it. An `else` may come
after a line break or a semicolon and belongs to the `if` that is read.
-/

namespace ResultHints

open Reader

variable (inner : Inner)

/-- What a branch, a loop or an entry evaluates. -/
def controlBody (m : Layout) : Reader Fragment := do
  if (← get).isAt (.symbol .leftBrace) then inner.block else assignment inner m

/-- An expression between parentheses, in a node of the given kind. -/
def inParentheses (kind : NodeKind) : Reader Fragment := do
  discard (symbol .leftParen)
  let e ← expression inner .free
  discard (symbol .rightParen)
  wrap kind e

/-- Whether an `else` comes next, maybe after a semicolon. -/
def Cursor.elseAhead (s : Cursor) : Bool :=
  s.isAt (.keyword .else_) ||
    (s.isAt (.symbol .semicolon) && s.secondKind? == some (.keyword .else_))

/-- The else branch of an `if`. -/
def elseBranch (m : Layout) : Reader Fragment := do
  discard (accepts .semicolon)
  discard (keyword .else_)
  wrap .elseBranch (← controlBody inner m)

/-- An `if`. -/
def ifElse (m : Layout) : Reader Fragment := do
  let start := (← keyword .if_).start
  let condition ← inParentheses inner .condition
  let thenBranch ← wrap .thenBranch (← controlBody inner m)
  let elseBranch ← optionally (← get).elseAhead (elseBranch inner m)
  close start .ifElse (condition :: thenBranch :: elseBranch)

/-- A condition of a `when` entry. -/
def whenCondition : Reader Fragment := do
  let s ← get
  let start := s.position
  match s.kind? with
  | some (.keyword .is_) =>
    discard next
    close start (.whenCondition (.typeTest false)) [← typeReference inner]
  | some (.keyword .notIs) =>
    discard next
    close start (.whenCondition (.typeTest true)) [← typeReference inner]
  | some (.keyword .in_) =>
    discard next
    close start (.whenCondition (.membership false)) [← expression inner .lines]
  | some (.keyword .notIn) =>
    discard next
    close start (.whenCondition (.membership true)) [← expression inner .lines]
  | _ => close start (.whenCondition .expression) [← expression inner .lines]

/-- An entry of a `when`. -/
def whenEntry : Reader Fragment := do
  let start := (← get).position
  let isElse := (← accept (.keyword .else_)).isSome
  let conditions ← if isElse then pure [] else items none (whenCondition inner)
  discard (symbol .arrow)
  let body ← controlBody inner .lines
  close start (.whenEntry isElse) (conditions ++ [body])

/-- A `when`. -/
def whenBranches : Reader Fragment := do
  let start := (← keyword .when_).start
  let s ← get
  let subject ← optionally (s.isAt (.symbol .leftParen)) (inParentheses inner .whenSubject)
  discard (symbol .leftBrace)
  let close? : Option TokenKind := some (.symbol .rightBrace)
  let entries ← rows (· == close?) close? (whenEntry inner)
  discard (symbol .rightBrace)
  close start .when_ (subject ++ entries)

/-- A `for`. -/
def forLoop (m : Layout) : Reader Fragment := do
  let start := (← keyword .for_).start
  discard (symbol .leftParen)
  let name ← identifier "loop variable"
  discard (keyword .in_)
  let iterated ← expression inner .free
  discard (symbol .rightParen)
  let range ← wrap .loopRange iterated
  let body ← wrap .loopBody (← controlBody inner m)
  close start (.forLoop (identifierName name.text)) [range, body]

/-- A `while`. -/
def whileLoop (m : Layout) : Reader Fragment := do
  let start := (← keyword .while_).start
  let condition ← inParentheses inner .condition
  let body ← wrap .loopBody (← controlBody inner m)
  close start .whileLoop [condition, body]

end ResultHints
