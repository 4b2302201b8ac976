import ResultHints.Document.Basic

/-!
# Building documents

Documents of any shape, built from the leaves up: every step makes a node above
some nodes that have no node above them yet, and gives it the next free id.
-/

namespace ResultHints

/-- The trees that are built so far, and the number of nodes that were made, which
    is the next free id. -/
structure Builder where
  trees : List (Tree Node)
  size : Nat

namespace Builder

/-- Nothing is built yet. -/
def empty : Builder := ⟨[], 0⟩

/-- The tree whose root has the given id. -/
def tree? (b : Builder) (id : NodeId) : Option (Tree Node) :=
  b.trees.find? fun t => t.label.id == id

/-- Makes a node above the roots with the given ids, in that order. -/
def node (b : Builder) (shape : Shape) (children : List NodeId) : Builder :=
  ⟨b.trees.filter (fun t => !children.contains t.label.id) ++
    [.node ⟨shape, b.size⟩ (children.filterMap b.tree?)], b.size + 1⟩

/-- The document of what is built over a source text; nothing if there is no node
    with the id of the root. -/
def finish? (b : Builder) (source : List Char) (tokens : Array Token) (root : NodeId) :
    Option Document :=
  ((Location.allIn [] b.trees).find? fun x => x.id == root).map fun x =>
    ⟨source, tokens, b.trees, b.size, x⟩

end Builder

end ResultHints
