import ResultHints.Facts.Sharing
import ResultHints.Flow.Results

/-!
# Analyses

An analysis of a node finds the result nodes of function literals: of those
around the node, or of all in its tree (`ResolveMode`). What was found is kept,
under the innermost literal around the node or under the top of its tree, and
asked for again it is not computed again (`Analyzer.analyze`).
-/

namespace ResultHints

/-- How much of a document an analysis looks at: its declarations only, which
    tells nothing of results; the function literals around a node; or all of its
    tree. -/
inductive ResolveMode
  | declarations
  | enclosing
  | everything
  deriving DecidableEq

/-- Whether an analysis tells anything of results. -/
def ResolveMode.includesFlow : ResolveMode → Bool
  | declarations => false
  | enclosing | everything => true

/-- What the facts of an analysis are kept under. -/
structure FactKey where
  node : NodeId
  mode : ResolveMode
  deriving DecidableEq

/-- The facts that the nodes in question are results of the given function
    literals. -/
def resultFacts (literals : List Place) : Facts :=
  literals.foldl (fun f x => f.recordAll x.results) .empty

/-- The literals that an analysis of a node looks at, and what its facts are kept
    under; nothing if there is nothing to look at. -/
def analysisOf? (x : Place) : ResolveMode → Option (FactKey × List Place)
  | .declarations => none
  | .enclosing => match x.enclosingLiterals with
    | [] => none
    | y :: ys => some (⟨y.id, .enclosing⟩, y :: ys)
  | .everything => some (⟨x.top.id, .everything⟩, x.top.literals)

/-- The facts that an analysis finds. -/
def factsOf (x : Place) (mode : ResolveMode) : Facts :=
  match analysisOf? x mode with
  | none => .empty
  | some (_, literals) => resultFacts literals

/-- The answer of an analysis: facts, and the storage they are in. -/
structure Context where
  storage : StorageId
  facts : Facts

/-- The facts that were found so far. -/
structure Analyzer where
  kept : Pool FactKey

namespace Analyzer

/-- Nothing was found yet. -/
def empty : Analyzer := ⟨.empty⟩

/-- The number of analyses whose facts are kept. -/
def size (a : Analyzer) : Nat := a.kept.size

/-- Forgets what was found. -/
def clear (a : Analyzer) : Analyzer := ⟨a.kept.clear⟩

/-- Analyzes a node. Facts that are kept are found again in the same storage;
    where there is nothing to look at, the answer is new every time. -/
def analyze (x : Place) (mode : ResolveMode) : StateM Analyzer Context := fun a =>
  let (kept, storage) := match analysisOf? x mode with
    | none => a.kept.alloc .empty
    | some (key, literals) => a.kept.getOrCompute key fun _ => resultFacts literals
  (⟨storage, kept.facts storage⟩, ⟨kept⟩)

end Analyzer

end ResultHints
