import ResultHints.Tree.Basic

/-!
# Locations

A *location* is a node in its surroundings: the tree below it together with the
trees that contain it, the innermost first. From a location one can move down to
the children and up to the ancestors.

* `Location.all`: the locations of a tree, in preorder;
* `Location.walk` and `Location.descendants`: the locations from a node down,
  with the node and without it;
* `Location.ancestors` and `Location.nearest?`: the locations above a node.
-/

namespace ResultHints

/-- A node of a tree: the tree below it, and the trees above that contain it,
    from the innermost to the outermost. -/
structure Location (α : Type) where
  tree : Tree α
  above : List (Tree α)

namespace Location

variable {α : Type}

mutual
/-- The locations of a tree that lies below the trees `above`, in preorder. -/
def all (above : List (Tree α)) : Tree α → List (Location α)
  | .node a ts => ⟨.node a ts, above⟩ :: allIn (.node a ts :: above) ts

/-- The locations of some trees that lie below the trees `above`, one tree after
    the other. -/
def allIn (above : List (Tree α)) : List (Tree α) → List (Location α)
  | [] => []
  | t :: ts => all above t ++ allIn above ts
end

/-- The label of the node. -/
def label (x : Location α) : α := x.tree.label

/-- The locations of the children. -/
def children (x : Location α) : List (Location α) :=
  x.tree.children.map fun t => ⟨t, x.tree :: x.above⟩

/-- The node and the nodes below it, in preorder. -/
def walk (x : Location α) : List (Location α) := all x.above x.tree

/-- The nodes below a node, in preorder. -/
def descendants (x : Location α) : List (Location α) := allIn (x.tree :: x.above) x.tree.children

/-- The locations of trees each of which contains the one before it. -/
def chain : List (Tree α) → List (Location α)
  | [] => []
  | t :: ts => ⟨t, ts⟩ :: chain ts

/-- The nodes above a node, the innermost first. -/
def ancestors (x : Location α) : List (Location α) := chain x.above

/-- The node right above a node. -/
def parent? (x : Location α) : Option (Location α) := x.ancestors.head?

/-- The innermost node above a node whose label satisfies `p`. -/
def nearest? (p : α → Bool) (x : Location α) : Option (Location α) :=
  x.ancestors.find? fun y => p y.label

/-- The outermost node above a node, or the node itself. -/
def top (x : Location α) : Location α := x.ancestors.getLastD x

theorem walk_eq (x : Location α) : x.walk = x :: x.descendants := by
  obtain ⟨⟨a, ts⟩, above⟩ := x
  rfl

end Location

end ResultHints
