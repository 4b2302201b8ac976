import ResultHints.Document.Navigation
import ResultHints.Flow.Jumps

/-!
# Results of function literals

A function literal yields the value of its last statement, unless an earlier one
always jumps. The nodes whose value becomes that result are its *result nodes*:
the last statement, and further down, through blocks, branches of an `if` with an
else, entries of a `when` with an else, labels, annotations and parentheses, the
nodes whose value is passed on. Jumps, loops, assignments and declarations yield
no value, and what may end without one is no result either.
-/

namespace ResultHints

mutual
/-- The nodes of a tree whose value is the value of the tree. -/
def resultNodes : Tree Node → List NodeId
  | .node n ts => match n.kind, ts with
    | .binary op, _ => if op.isAssignment then [] else [n.id]
    | .whileLoop, _ | .forLoop _, _ | .jump _, _ => []
    | .block, ts => n.id :: liveResults ts
    | .ifElse, [_, t, e] => n.id :: (branchResults t ++ branchResults e)
    | .ifElse, _ => []
    | .when_, ts =>
      if ts.any fun t => t.label.kind == .whenEntry true then n.id :: entryResults ts else []
    | .labeled _, ts => wrappedResults (fun _ => true) n.id ts
    | .annotated, ts => wrappedResults (fun k => !k.isAnnotationEntry) n.id ts
    | .parenthesized, ts => n.id :: firstResults ts
    | k, _ => if k.isExpression then [n.id] else []

/-- The nodes whose value is the value of the last of some statements, unless an
    earlier one always jumps. -/
def liveResults : List (Tree Node) → List NodeId
  | [] => []
  | [t] => resultNodes t
  | t :: ts => if alwaysJumps t then [] else liveResults ts

/-- The nodes whose value is the value of the first of some trees. -/
def firstResults : List (Tree Node) → List NodeId
  | [] => []
  | t :: _ => resultNodes t

/-- The nodes whose value is the value of the last of some trees. -/
def lastResults : List (Tree Node) → List NodeId
  | [] => []
  | [t] => resultNodes t
  | _ :: ts => lastResults ts

/-- The nodes whose value is the value of a branch. -/
def branchResults : Tree Node → List NodeId
  | .node _ ts => firstResults ts

/-- The nodes whose value is what a `when` entry among the trees evaluates to. -/
def entryResults : List (Tree Node) → List NodeId
  | [] => []
  | .node n cs :: ts => (if n.kind.isWhenEntry then lastResults cs else []) ++ entryResults ts

/-- The node `id` and the nodes whose value is that of its base, the first of the
    trees below it with a kind of the given sort; nothing, if that is no
    expression. -/
def wrappedResults (p : NodeKind → Bool) (id : NodeId) : List (Tree Node) → List NodeId
  | [] => []
  | t :: ts =>
    if p t.label.kind then if t.label.kind.isExpression then id :: resultNodes t else []
    else wrappedResults p id ts
end

namespace Location

/-- The result nodes of a function literal. -/
def results (x : Place) : List NodeId :=
  match x.body? with
  | none => []
  | some body => liveResults body.tree.children

/-- The function literals around a node, the innermost first. -/
def enclosingLiterals (x : Place) : List Place :=
  x.ancestors.filter fun y => y.kind == .functionLiteral

/-- The function literals from a node down, in preorder. -/
def literals (x : Place) : List Place := x.walk.filter fun y => y.kind == .functionLiteral

end Location

end ResultHints
