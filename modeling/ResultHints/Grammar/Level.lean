import ResultHints.Grammar.Cursor

/-!
# Levels of nesting

Expressions, types, lambdas and blocks contain each other. Wherever the grammar
comes back to itself it goes one *level* further in, and the number of levels is
bounded. The rules of the grammar are therefore written over a level (`Inner`):
what they may read one level further in. The outermost level is made from the
ones inside it, down to the level at which everything is nested too deep.
-/

namespace ResultHints

/-- The constructs that open a level of nesting, as they may be read one level
    further in. Lambdas and blocks have a layout of their own, and types have
    none. -/
structure Inner where
  /-- A type; its node is made around what is read. -/
  type : Reader Unit
  /-- An operand of an operator: an expression with what stands before it. -/
  operand : Layout → Reader Fragment
  /-- A lambda, which may be labeled or annotated. -/
  wrappedLambda : Layout → Reader Fragment
  lambda : Reader Fragment
  block : Reader Fragment

/-- The fault of a construct at a level where nothing may be read. -/
def tooDeep {α : Type} : Reader α := fun s => .error (.nestingTooDeep s.position) s

/-- The level at which nothing may be read. -/
def Inner.exhausted : Inner where
  type := tooDeep
  operand _ := tooDeep
  wrappedLambda _ := tooDeep
  lambda := tooDeep
  block := tooDeep

end ResultHints
