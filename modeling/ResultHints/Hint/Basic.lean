import ResultHints.Document.Basic

/-!
# Hints

A hint stands behind an expression whose value a lambda returns, and shows the
label by which a `return` would refer to the lambda.
-/

namespace ResultHints

/-- A hint: the text to show, the offset to show it at, and the lambda it is
    about. -/
structure Hint where
  display : String
  anchor : Nat
  scope : NodeId
  deriving DecidableEq

namespace Hint

/-- What the text of a hint begins with. -/
def mark : String := "^"

/-- The hint with the given label. -/
def ofLabel (label : String) (anchor : Nat) (scope : NodeId) : Hint :=
  ⟨mark ++ label, anchor, scope⟩

/-- The label that the text of a hint shows: the text without the mark, if it
    begins with it. -/
def label (h : Hint) : String :=
  if mark.toList.isPrefixOf h.display.toList then
    String.ofList (h.display.toList.drop mark.toList.length)
  else h.display

end Hint

end ResultHints
