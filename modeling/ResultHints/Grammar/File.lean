import ResultHints.Grammar.Operand
import ResultHints.Grammar.Statement

/-!
# Files

A file has a package directive or none, then import directives, then statements
up to its end. Here the levels of nesting are tied together: the grammar is given
with `maxNesting` levels below the outermost.
-/

namespace ResultHints

open Reader

/-- The deepest nesting of expressions, types, lambdas and blocks. -/
def maxNesting : Nat := 80

/-- The constructs that may be read with `n` levels of nesting left. -/
def Inner.ofDepth : Nat → Inner
  | 0 => .exhausted
  | n + 1 =>
    let inner := ofDepth n
    { type := typeLevel inner
      operand := operandLevel inner
      wrappedLambda := wrappedLambdaLevel inner
      lambda := lambdaLevel inner
      block := blockLevel inner }

/-- What the outermost level may read further in. -/
def Inner.outermost : Inner := .ofDepth maxNesting

/-! ## Directives -/

/-- The rest of a dotted path, of at most `limit` segments. A star ends it. -/
def pathFrom : (limit : Nat) → Reader String
  | 0 => pure ""
  | limit + 1 => do
    if ← accepts .dot then
      if ← accepts .star then return ".*"
      let t ← identifier "name"
      return "." ++ identifierName t.text ++ (← pathFrom limit)
    else return ""

/-- A package or import directive. -/
def directive : Reader Fragment := do
  let first ← next
  let t ← identifier "name"
  let path := identifierName t.text ++ (← pathFrom (← get).size)
  close first.start
    (if first.kind = .keyword .package_ then .packageDirective path else .importDirective path) []

/-- The package directive, if there is one. -/
def packageDirective : Reader (List Fragment) := do
  semicolons
  if (← get).isAt (.keyword .package_) then
    let d ← directive
    rowEnd none
    return [d]
  else return []

/-! ## The whole text -/

/-- A file. -/
def file : Reader Fragment := do
  let package ← packageDirective
  let imports ← rows (· != some (.keyword .import_)) none directive
  let body ← statements .outermost none
  let s ← get
  make .file ⟨0, byteLength s.source⟩ (package ++ imports ++ body)

/-- The first `count` expressions of a text, then the file that follows and the
    cursor behind it; up to the fault, if there is one. -/
def expressionsThenFile : (count : Nat) → Cursor → List Fragment × Except Fault (Fragment × Cursor)
  | 0, s => match file s with
    | .ok t s => ([], .ok (t, s))
    | .error fault _ => ([], .error fault)
  | count + 1, s => match expression .outermost .lines s with
    | .ok t s =>
      let (ts, outcome) := expressionsThenFile count s
      (t :: ts, outcome)
    | .error fault _ => ([], .error fault)

/-- The cursor at the beginning of a text with the given tokens. -/
def Cursor.ofTokens (source : List Char) (tokens : List Token) : Cursor :=
  ⟨source, lexemes false tokens, 0, 0⟩

end ResultHints
