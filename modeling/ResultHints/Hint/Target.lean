import ResultHints.Document.Navigation
import ResultHints.Document.Trivia

/-!
# Where a hint may stand

Of all nodes whose value a lambda returns, hints stand behind those that a reader
takes for its last line. What a node must not be is an *obstacle*. The obstacles
are looked for in a fixed order, and the first one found is told:

1. a `when` or a block never has a hint;
2. an `if` of several lines has none, its branches have;
3. nothing inside an `if` of one line has one, the `if` has;
4. of a labeled or annotated statement whose base begins on a line of its own,
   the base has the hint; and what is no statement has one only if it is such a
   base;
5. a lambda with nothing but one expression needs no hint.
-/

namespace ResultHints

/-- Why a node may not have a hint. -/
inductive Obstacle
  | notExpression
  /-- A `when` or a block. -/
  | compound
  | manyLineIf
  | insideOneLineIf
  /-- No statement, and no base on a line of its own. -/
  | notStatementPart
  /-- A statement whose base is on a line of its own. -/
  | hintOnPart
  | noLiteral
  | noBody
  /-- The one statement of its function literal. -/
  | soleStatement
  deriving DecidableEq

namespace Document

variable (d : Document)

/-- Whether a node begins on a line of its own: white space with a line break
    stands right before it. -/
def beginsLine (x : Place) : Bool := (d.precedingTrivia? x).any fun t => t.isBlankBreak

/-- The base of a labeled or annotated node, if it begins on a line of its own. -/
def statementPart? (x : Place) : Option Place := x.base?.filter d.beginsLine

/-- Whether a node is the part of its parent that has the hint. -/
def isStatementPart (x : Place) : Bool :=
  x.parent?.any fun p => p.kind.isExpression && (d.statementPart? p).any fun y => y.id == x.id

/-- Whether a node is an `if` that goes over several lines. -/
def isManyLineIf (x : Place) : Bool := x.kind == .ifElse && !d.isOneLine x

/-- Whether the innermost `if` around a node is on one line. -/
def isInsideOneLineIf (x : Place) : Bool := (x.nearest? fun n => n.kind == .ifElse).any d.isOneLine

/-- The obstacle in the function literal around a node, if there is one. -/
def literalObstacle? (x : Place) : Option Obstacle :=
  match x.nearest? fun n => n.kind == .functionLiteral with
  | none => some .noLiteral
  | some literal => match literal.body? with
    | none => some .noBody
    | some body => if body.statements.map Location.id = [x.id] then some .soleStatement else none

/-- The first obstacle to a hint behind a node, if there is one. -/
def obstacle? (x : Place) : Option Obstacle :=
  if !x.kind.isExpression then some .notExpression
  else if x.kind == .when_ || x.kind == .block then some .compound
  else if d.isManyLineIf x then some .manyLineIf
  else if d.isInsideOneLineIf x then some .insideOneLineIf
  else if !x.isStatement && !d.isStatementPart x then some .notStatementPart
  else if x.isStatement && (d.statementPart? x).isSome then some .hintOnPart
  else literalObstacle? x

end Document

end ResultHints
