import ResultHints.Document.Basic

/-!
# Evaluation that never ends normally

Whether the evaluation of a node always jumps out of it (`alwaysJumps`): of a
block, if a statement of it does; of an `if` with an else branch, if both its
branches do; of a `when` with an else entry, if what every entry evaluates does;
of what is labeled, annotated or in parentheses, if the node inside does. A jump
always does, and nothing else ever does.
-/

namespace ResultHints

mutual
/-- Whether the evaluation of a tree never ends normally. -/
def alwaysJumps : Tree Node → Bool
  | .node n ts => match n.kind, ts with
    | .jump _, _ => true
    | .block, ts => someJumps ts
    | .ifElse, [_, t, e] => alwaysJumps t && alwaysJumps e
    | .when_, ts => ts.any (fun t => t.label.kind == .whenEntry true) && entriesJump ts
    | .thenBranch, ts | .elseBranch, ts | .parenthesized, ts | .labeled _, ts => firstJumps ts
    | .annotated, ts => baseJumps ts
    | _, _ => false

/-- Whether some of the trees always jumps. -/
def someJumps : List (Tree Node) → Bool
  | [] => false
  | t :: ts => alwaysJumps t || someJumps ts

/-- Whether there is a first tree, and it always jumps. -/
def firstJumps : List (Tree Node) → Bool
  | [] => false
  | t :: _ => alwaysJumps t

/-- Whether there is a last tree, and it always jumps. -/
def lastJumps : List (Tree Node) → Bool
  | [] => false
  | [t] => alwaysJumps t
  | _ :: ts => lastJumps ts

/-- Whether there is a first tree that is no annotation entry, and it always
    jumps. -/
def baseJumps : List (Tree Node) → Bool
  | [] => false
  | t :: ts => if t.label.kind.isAnnotationEntry then baseJumps ts else alwaysJumps t

/-- Whether what each `when` entry among the trees evaluates always jumps. -/
def entriesJump : List (Tree Node) → Bool
  | [] => true
  | .node n cs :: ts => (!n.kind.isWhenEntry || lastJumps cs) && entriesJump ts
end

end ResultHints
