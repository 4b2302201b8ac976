/-!
# Ordered trees

Finite trees with a label at every node and the children of a node in a row.

* `Tree.ind`: what passes from the children of every node to the node holds of
  every tree;
* `Tree.preorder`: the labels from the root down, every node before its
  children;
* `Tree.postorder`: the labels from the leaves up, every node after its children.
-/

namespace ResultHints

/-- A tree with labels in `α`. -/
inductive Tree (α : Type)
  | node (label : α) (children : List (Tree α))

namespace Tree

variable {α β : Type}

/-- The label of the root. -/
def label : Tree α → α
  | node a _ => a

/-- The trees below the root. -/
def children : Tree α → List (Tree α)
  | node _ ts => ts

@[simp] theorem label_node (a : α) (ts : List (Tree α)) : (node a ts).label = a := rfl

@[simp] theorem children_node (a : α) (ts : List (Tree α)) : (node a ts).children = ts := rfl

/-- What passes from the children of every node to the node holds of every
    tree. -/
@[elab_as_elim]
theorem ind {P : Tree α → Prop} (node : ∀ a ts, (∀ t ∈ ts, P t) → P (.node a ts))
    (t : Tree α) : P t :=
  @Tree.rec α P (fun ts => ∀ t ∈ ts, P t) node (fun _ h => absurd h List.not_mem_nil)
    (fun _ _ ht hts _ hmem => (List.mem_cons.1 hmem).elim (fun e => e ▸ ht) (hts _)) t

/-! ## Size -/

mutual
/-- The number of nodes of a tree. -/
def size : Tree α → Nat
  | node _ ts => sizeAll ts + 1

/-- The number of nodes of some trees together. -/
def sizeAll : List (Tree α) → Nat
  | [] => 0
  | t :: ts => t.size + sizeAll ts
end

/-! ## Traversal -/

mutual
/-- The labels of a tree, every one before those below it. -/
def preorder : Tree α → List α
  | node a ts => a :: preorderAll ts

/-- The labels of some trees, one tree after the other. -/
def preorderAll : List (Tree α) → List α
  | [] => []
  | t :: ts => t.preorder ++ preorderAll ts
end

mutual
/-- The labels of a tree, every one after those below it. -/
def postorder : Tree α → List α
  | node a ts => postorderAll ts ++ [a]

/-- The labels of some trees, one tree after the other. -/
def postorderAll : List (Tree α) → List α
  | [] => []
  | t :: ts => t.postorder ++ postorderAll ts
end

mutual
/-- The tree with every label replaced. -/
def map (f : α → β) : Tree α → Tree β
  | node a ts => node (f a) (mapAll f ts)

/-- Some trees with every label replaced. -/
def mapAll (f : α → β) : List (Tree α) → List (Tree β)
  | [] => []
  | t :: ts => t.map f :: mapAll f ts
end

end Tree

end ResultHints
