import ResultHints.Grammar.Level

/-!
# Types

Types are read but not analyzed: a type is a node with its text. It is a star, a
name with type arguments, or a list of types between parentheses with a result
type or without; but for a star, a question mark may follow.
-/

namespace ResultHints

open Reader

variable (inner : Inner)

/-- The types between parentheses, after the opening one, and the result type. -/
def functionType : Reader Unit := do
  discard (itemsTo .rightParen inner.type)
  discard (after .arrow inner.type)
  discard (accepts .question)

/-- The types between angle brackets, after the opening one. -/
def typeArguments : Reader Unit := do
  discard (items none inner.type)
  discard (symbol .greater)

/-- A name with type arguments. -/
def namedType : Reader Unit := do
  discard (qualifiedName "type")
  discard (after .less (typeArguments inner))
  discard (accepts .question)

/-- A type at this level of nesting. -/
def typeLevel : Reader Unit := do
  if ← accepts .leftParen then functionType inner
  else if ← accepts .star then pure ()
  else namedType inner

/-- The node of a type, with the part of the source it covers as its text. -/
def typeReference : Reader Fragment := do
  let start := (← get).position
  inner.type
  let span ← spanFrom start
  make (.typeReference (String.ofList (slice (← get).source span))) span []

end ResultHints
