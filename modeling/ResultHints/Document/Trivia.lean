import ResultHints.Document.Basic

/-!
# Trivia before nodes

The white space or the comment that ends right where a node begins. The tokens of
a document lie one after the other, so the one that ends at an offset is found by
bisection (`trivia?`).
-/

namespace ResultHints

/-- White space or a comment, with its text. -/
structure Trivia where
  kind : TriviaKind
  text : List Char
  deriving DecidableEq

namespace Trivia

/-- Whether a line break stands in the text. -/
def hasBreak (t : Trivia) : Bool := t.text.contains '\n'

/-- White space with a line break in it. -/
def isBlankBreak (t : Trivia) : Bool := t.kind == .blank && t.hasBreak

end Trivia

/-- The trivia that a token is. -/
def Token.trivia? (t : Token) : Option Trivia :=
  match t.kind with
  | .trivia kind => some ⟨kind, t.text⟩
  | _ => none

/-- The least index from `lo` up at which `p` fails, if `p` holds up to some index
    and fails from there on, and `hi` is no less than that index. -/
def bisect {α : Type} (p : α → Bool) (xs : Array α) (lo hi : Nat) : Nat :=
  if h : lo < hi then
    let mid := (lo + hi) / 2
    if xs[mid]?.any p then bisect p xs (mid + 1) hi else bisect p xs lo mid
  else lo
  termination_by hi - lo

namespace Document

/-- The trivia token that ends at an offset. -/
def triviaBefore? (d : Document) (offset : Nat) : Option Trivia := do
  let i := bisect (fun t : Token => t.stop ≤ offset) d.tokens 0 d.tokens.size
  let t ← if i = 0 then none else d.tokens[i - 1]?
  if t.stop = offset then t.trivia? else none

/-- The trivia token right before a node. -/
def precedingTrivia? (d : Document) (x : Place) : Option Trivia := d.triviaBefore? x.span.start

end Document

end ResultHints
