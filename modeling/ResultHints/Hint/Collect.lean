import ResultHints.Facts.Analysis
import ResultHints.Hint.Basic
import ResultHints.Hint.Label
import ResultHints.Hint.Target

/-!
# The hints of a document

A node has a hint if nothing stands in its way, an analysis tells that its value
is the result of a function literal, and the innermost lambda around it has a
label (`Document.hintAt?`). The hints of a document are those of its nodes, in
the order of the offsets they are shown at (`Document.collectHints`).

Analyses are asked for by way of an *oracle*, in a monad of its own: it may keep
what it found, and it is asked only about nodes that nothing stands in the way
of.
-/

namespace ResultHints

/-- What answers with the facts about a node. -/
abbrev Oracle (m : Type → Type) := Place → ResolveMode → m Facts

/-- The oracle that analyzes the document and keeps what it finds. -/
def Oracle.analyzer : Oracle (StateM Analyzer) := fun x mode => do
  return (← Analyzer.analyze x mode).facts

namespace Document

variable {m : Type → Type} [Monad m] (d : Document) (oracle : Oracle m) (mode : ResolveMode)

/-- The hint behind a node that is the result of a function literal. -/
def hintOfResult? (x : Place) : Option Hint := do
  let lambda ← x.nearest? fun n => n.kind == .lambda
  return .ofLabel (← lambda.lambdaLabel?) x.span.stop lambda.id

/-- The hint behind a node, if it has one. -/
def hintAt? (x : Place) : m (Option Hint) := do
  if (d.obstacle? x).isSome then return none
  let facts ← oracle x mode
  if facts.get? x.id = some true then return hintOfResult? x else return none

/-- Whether a node is in the range asked for, if any is. -/
def inRange (range : Option Span) (x : Place) : Bool := range.all x.span.overlaps

mutual
/-- The places of a tree below `above` that overlap the range, in preorder. What
    does not overlap it is left out with all that is below. -/
def placesIn (range : Option Span) (above : List (Tree Node)) : Tree Node → List Place
  | .node n ts =>
    if inRange range ⟨.node n ts, above⟩ then
      ⟨.node n ts, above⟩ :: placesInAll range (.node n ts :: above) ts
    else []

/-- The places of some trees below `above` that overlap the range. -/
def placesInAll (range : Option Span) (above : List (Tree Node)) : List (Tree Node) → List Place
  | [] => []
  | t :: ts => placesIn range above t ++ placesInAll range above ts
end

/-- The hints of some nodes, one node after the other. -/
def hintsOf : List Place → m (List Hint)
  | [] => pure []
  | x :: xs => do
    let h ← hintAt? d oracle mode x
    return h.toList ++ (← hintsOf xs)

/-- The hints from the root down, in the order of their offsets. -/
def collectHints (range : Option Span) : m (List Hint) := do
  let xs := (placesIn range d.root.above d.root.tree).filter fun x => x.kind.isExpression
  return (← hintsOf d oracle mode xs).mergeSort fun a b => a.anchor ≤ b.anchor

/-- The hints that an analyzer finds which has kept nothing before. -/
def hints (range : Option Span) : List Hint :=
  (Id.run ((d.collectHints Oracle.analyzer mode range).run .empty)).1

end Document

end ResultHints
