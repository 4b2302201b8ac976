import ResultHints.Document.Basic

/-!
# Ways through a document

The parts of a node that its kind gives a meaning to: the statements of a block,
the body of a function literal, the base of a label or an annotation, and what a
call passes on.
-/

namespace ResultHints

namespace Location

/-- Whether the node right above holds its children as statements. -/
def isStatement (x : Place) : Bool := x.parent?.any fun p => p.kind.holdsStatements

/-- The statements of a block; nothing else has any. -/
def statements (x : Place) : List Place := if x.kind = .block then x.children else []

/-- The block in a function literal. -/
def body? (x : Place) : Option Place :=
  if x.kind = .functionLiteral then x.children.find? fun y => y.kind == .block else none

/-- What a label or annotations stand before. -/
def base? (x : Place) : Option Place :=
  match x.kind with
  | .labeled _ => x.children.head?
  | .annotated => x.children.find? fun y => !y.kind.isAnnotationEntry
  | _ => none

/-- What a call calls. -/
def callee? (x : Place) : Option Place := if x.kind = .call then x.children.head? else none

/-- The lambda arguments of a call. -/
def lambdaArguments (x : Place) : List Place :=
  if x.kind = .call then x.children.filter fun y => y.kind == .lambdaArgument else []

mutual
/-- The lambda that a tree below `above` is, inside its labels and annotations. -/
def unwrapped? (above : List (Tree Node)) : Tree Node → Option Place
  | .node n ts => match n.kind with
    | .lambda => some ⟨.node n ts, above⟩
    | .labeled _ => unwrappedFirst? (fun _ => true) (.node n ts :: above) ts
    | .annotated => unwrappedFirst? (fun k => !k.isAnnotationEntry) (.node n ts :: above) ts
    | _ => none

/-- The lambda that the first of some trees with a kind of the given sort is,
    inside its labels and annotations. -/
def unwrappedFirst? (p : NodeKind → Bool) (above : List (Tree Node)) :
    List (Tree Node) → Option Place
  | [] => none
  | t :: ts => if p t.label.kind then unwrapped? above t else unwrappedFirst? p above ts
end

/-- The lambda of a lambda argument, inside its labels and annotations. -/
def passedLambda? (x : Place) : Option Place :=
  if x.kind = .lambdaArgument then
    unwrappedFirst? (fun _ => true) (x.tree :: x.above) x.tree.children
  else none

end Location

end ResultHints
