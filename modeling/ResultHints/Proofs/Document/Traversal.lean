import Mathlib.Data.Set.Card
import ResultHints.Flow.Results
import ResultHints.Proofs.Document.Plan
import ResultHints.Proofs.Syntax.Render

/-!
# Traversals of documents

The nodes of a document that is built by a sound plan, told by the links of the plan. To
list the nodes below a node in document order (`Plan.Preorder`), one may as well take them
off a stack, putting the children of each in its place (`Plan.Visits`,
`Plan.Preorder.visits_iff`). Main statement:

- `Plan.IsSound.traverses`: the document of a sound plan lists just the nodes that are
  linked to its root, each once, in document order; what lies below a node stands together
  behind it; and the rendered tree and the list of function literals follow that order
  (`Document.Traverses`).
-/

namespace ResultHints

namespace Location

/-- What lies below a node lies as deep at least. -/
theorem length_above_le {α : Type} {x y : Location α} (h : y ∈ x.walk) :
    x.above.length ≤ y.above.length := by
  obtain rfl | h := mem_ancestors_of_mem_walk h
  · exact Nat.le_refl _
  · exact Nat.le_of_lt (length_above_lt h)

/-- Where no node is listed twice, those below a node stand behind it. -/
theorem descendants_eq_take {α : Type} {r x : Location α} {i : Nat} (hnd : r.walk.Nodup)
    (hx : r.walk[i]? = some x) :
    x.descendants = (r.walk.drop (i + 1)).take x.descendants.length := by
  have hinfix : x.walk <:+: r.walk := by
    obtain rfl | h := walk_infix_descendants (List.mem_of_getElem? hx)
    · exact List.infix_refl _
    · exact h.trans (walk_eq r ▸ (List.suffix_cons r _).isInfix)
  obtain ⟨front, back, heq⟩ := hinfix
  rw [walk_eq] at heq
  obtain rfl : i = front.length := by
    refine (List.getElem?_inj (List.getElem?_eq_some_iff.1 hx).1 hnd).1 (hx.trans ?_)
    rw [← heq]
    simp
  rw [← heq, show front ++ x :: x.descendants ++ back = front ++ [x] ++ (x.descendants ++ back) by
    simp, List.drop_left' (by simp), List.take_left]

theorem descendants_sublist_walk {α : Type} (x : Location α) : x.descendants.Sublist x.walk := by
  rw [walk_eq]
  exact List.sublist_cons_self x _

/-- The outline of a tree has the places below its root in preorder, each with its depth. -/
theorem outline_tree {α β : Type} (f : α → β) (n : Nat) (x : Location α) :
    (x.tree.map f).outline n =
      x.walk.map fun y => (n + (y.above.length - x.above.length), f y.label) := by
  obtain ⟨t, above⟩ := x
  induction t using Tree.ind generalizing n above with
  | node a ts ih =>
    rw [walk_eq_flatMap, List.map_cons, children, List.flatMap_map, List.map_flatMap,
      Tree.map_node, Tree.outline, Tree.outlineAll_eq_flatMap, List.flatMap_map, Nat.sub_self]
    congr 1
    refine List.flatMap_congr fun t ht => ?_
    rw [ih t ht]
    refine List.map_congr_left fun y hy => ?_
    have hle : above.length + 1 ≤ y.above.length := length_above_le hy
    rw [List.length_cons, show n + 1 + (y.above.length - (above.length + 1)) =
      n + (y.above.length - above.length) by omega]

end Location

namespace Plan

variable {p : Plan} {keep : NodeId → Bool} {i j root : NodeId} {n : Nat}
  {is js stack out out' rest : List NodeId}

/-! ## Links of a plan -/

/-- From the node `i` one comes to a node over so many links down. -/
inductive Path (p : Plan) (i : NodeId) : Nat → NodeId → Prop
  | refl : Path p i 0 i
  | child {n : Nat} {j k : NodeId} : Path p i n j → k ∈ p.children j → Path p i (n + 1) k

/-- The nodes `is` and all below them in document order: every node before those below it, and
    these before the next one. -/
inductive Preorder (p : Plan) : List NodeId → List NodeId → Prop
  | nil : Preorder p [] []
  | cons {i : NodeId} {is below after : List NodeId} : Preorder p (p.children i) below →
    Preorder p is after → Preorder p (i :: is) (i :: below ++ after)

/-- What a loop gathers that takes the uppermost node off a stack, gathers it if it is one to keep,
    and puts its children on the stack, until the stack is empty. -/
inductive Visits (p : Plan) (keep : NodeId → Bool) : List NodeId → List NodeId → Prop
  | nil : Visits p keep [] []
  | cons {i : NodeId} {stack out : List NodeId} : Visits p keep (p.children i ++ stack) out →
    Visits p keep (i :: stack) ([i].filter keep ++ out)

theorem Preorder.append (h : p.Preorder is out) (h' : p.Preorder js out') :
    p.Preorder (is ++ js) (out ++ out') := by
  induction h with
  | nil => exact h'
  | @cons i is below after hbelow _ _ ih =>
    rw [List.append_assoc]
    exact hbelow.cons ih

theorem Visits.unique (h : p.Visits keep stack out) (h' : p.Visits keep stack out') :
    out = out' := by
  induction h generalizing out' with
  | nil =>
    cases h'
    rfl
  | cons _ ih =>
    cases h' with
    | cons h' => rw [ih h']

/-- The loop gathers what lies below the uppermost nodes before it comes to the rest of the
    stack. -/
theorem Preorder.visits (h : p.Preorder is out) (hrest : p.Visits keep stack rest) :
    p.Visits keep (is ++ stack) (out.filter keep ++ rest) := by
  induction h generalizing stack rest with
  | nil => exact hrest
  | @cons i is below after _ _ ihbelow ihafter =>
    have hloop : p.Visits keep (i :: (is ++ stack))
        ([i].filter keep ++ (below.filter keep ++ (after.filter keep ++ rest))) :=
      .cons (ihbelow (ihafter hrest))
    rw [List.cons_append, show i :: below ++ after = [i] ++ (below ++ after) from rfl,
      List.filter_append, List.filter_append]
    simpa only [List.append_assoc] using hloop

/-- The loop ends, with the nodes to keep in document order. -/
theorem Preorder.visits_iff (h : p.Preorder is out) :
    p.Visits keep is out' ↔ out' = out.filter keep := by
  have hvisits : p.Visits keep (is ++ []) (out.filter keep ++ []) := h.visits .nil
  rw [List.append_nil, List.append_nil] at hvisits
  exact ⟨fun h' => h'.unique hvisits, fun heq => heq ▸ hvisits⟩

/-! ## Links of a document -/

variable {x y : Place}

theorem preorder_of_places {xs : List Place}
    (h : ∀ x ∈ xs, p.Preorder [x.id] (x.walk.map Location.id)) :
    p.Preorder (xs.map Location.id) ((xs.flatMap Location.walk).map Location.id) := by
  induction xs with
  | nil => exact .nil
  | cons x xs ih =>
    obtain ⟨hx, hxs⟩ := List.forall_mem_cons.1 h
    rw [List.flatMap_cons, List.map_append]
    exact hx.append (ih hxs)

theorem preorder_walk (h : p.Preorder (p.children x.id) (x.descendants.map Location.id)) :
    p.Preorder [x.id] (x.walk.map Location.id) := by
  rw [Location.walk_eq, List.map_cons, ← List.append_nil (x.descendants.map Location.id)]
  exact h.cons .nil

/-- The nodes below a node are listed in document order. -/
theorem preorder_descendants (h : ∀ y ∈ x.walk, p.Describes y.tree) :
    p.Preorder (p.children x.id) (x.descendants.map Location.id) := by
  refine Location.descent (P := fun x => (∀ y ∈ x.walk, p.Describes y.tree) →
    p.Preorder (p.children x.id) (x.descendants.map Location.id)) (fun x ih h => ?_) x h
  rw [children_of_describes (h x (Location.self_mem_walk x)), Location.descendants_eq_flatMap]
  exact preorder_of_places fun c hc => preorder_walk <|
    ih c (Location.mem_descendants_of_mem_children hc) fun y hy =>
      h y (Location.mem_walk_iff.2 (.inr ⟨c, hc, hy⟩))

/-- Over so many links down one comes to the nodes that lie so much deeper. -/
theorem path_iff (h : ∀ y ∈ x.walk, p.Describes y.tree) :
    p.Path x.id n j ↔ ∃ y ∈ x.walk, y.id = j ∧ y.above.length = x.above.length + n := by
  constructor
  · intro hpath
    induction hpath with
    | refl => exact ⟨x, Location.self_mem_walk x, rfl, rfl⟩
    | child _ hk ih =>
      obtain ⟨y, hy, rfl, hlength⟩ := ih
      rw [children_of_describes (h y hy), List.mem_map] at hk
      obtain ⟨c, hc, rfl⟩ := hk
      refine ⟨c, Location.mem_walk_of_mem_children hy hc, rfl, ?_⟩
      obtain ⟨t, -, rfl⟩ := Location.mem_children.1 hc
      rw [List.length_cons, hlength, Nat.add_assoc]
  · rintro ⟨y, hy, rfl, hlength⟩
    have hpath : y ∈ x.walk ∧ ∃ m, y.above.length = x.above.length + m ∧ p.Path x.id m y.id := by
      refine Location.walk_induction (P := fun y => y ∈ x.walk ∧
        ∃ m, y.above.length = x.above.length + m ∧ p.Path x.id m y.id)
        ⟨Location.self_mem_walk x, 0, rfl, .refl⟩ ?_ hy
      rintro y ⟨hy, m, hm, hpath⟩ c hc
      refine ⟨Location.mem_walk_of_mem_children hy hc, m + 1, ?_, hpath.child ?_⟩
      · obtain ⟨t, -, rfl⟩ := Location.mem_children.1 hc
        rw [List.length_cons, hm, Nat.add_assoc]
      · rw [children_of_describes (h y hy)]
        exact List.mem_map_of_mem hc
    obtain ⟨-, m, hm, hpath⟩ := hpath
    rwa [show n = m by omega]

theorem mem_walk_iff_path (h : ∀ y ∈ x.walk, p.Describes y.tree) :
    j ∈ x.walk.map Location.id ↔ ∃ n, p.Path x.id n j := by
  rw [List.mem_map]
  constructor
  · rintro ⟨y, hy, hid⟩
    exact ⟨_, (path_iff h).2 ⟨y, hy, hid,
      (Nat.add_sub_cancel' (Location.length_above_le hy)).symm⟩⟩
  · rintro ⟨n, hpath⟩
    obtain ⟨y, hy, hid, -⟩ := (path_iff h).1 hpath
    exact ⟨y, hy, hid⟩

theorem mem_descendants_iff_path (h : ∀ y ∈ x.walk, p.Describes y.tree) :
    j ∈ x.descendants.map Location.id ↔ ∃ n, p.Path x.id (n + 1) j := by
  rw [List.mem_map]
  constructor
  · rintro ⟨y, hy, hid⟩
    have hlt := Location.length_above_lt (Location.mem_ancestors_of_mem_descendants hy)
    refine ⟨y.above.length - (x.above.length + 1), (path_iff h).2 ⟨y, ?_, hid, by omega⟩⟩
    exact Location.mem_walk_of_mem_descendants (Location.self_mem_walk x) hy
  · rintro ⟨n, hpath⟩
    obtain ⟨y, hy, hid, hlength⟩ := (path_iff h).1 hpath
    rw [Location.walk_eq, List.mem_cons] at hy
    obtain rfl | hy := hy
    · omega
    · exact ⟨y, hy, hid⟩

/-- Whether a node is to be a function literal. -/
def isLiteral (p : Plan) (i : NodeId) : Bool := p[i]?.any fun s => s.shape.kind == .functionLiteral

theorem filter_isLiteral (h : ∀ y ∈ x.walk, p.Describes y.tree) :
    (x.walk.map Location.id).filter p.isLiteral = x.literals.map Location.id := by
  rw [List.filter_map, Location.literals]
  congr 1
  refine List.filter_congr fun y hy => ?_
  rw [Function.comp_apply, isLiteral,
    show p[y.id]? = some ⟨y.label.toShape, y.tree.children.map (·.label.id)⟩ from h y hy]
  rfl

end Plan

/-! ## The traversals -/

namespace Document

variable {d : Document} {p : Plan} {root : NodeId}

/-- The number of nodes that lie above a node, from the root down. -/
def depth (d : Document) (x : Place) : Nat := x.above.length - d.root.above.length

/-- The lines of a rendered tree. -/
theorem splitOn_renderTree (d : Document) :
    (renderTree (d.root.tree.map Node.toShape)).toList.splitOn '\n' =
      (d.nodes.map fun x => List.replicate (2 * d.depth x) ' ' ++ x.label.toShape.entry) ++ [[]] := by
  rw [toList_renderTree, splitOn_dumpBy, Location.outline_tree, List.map_map]
  congr 1
  refine List.map_congr_left fun x _ => ?_
  simp only [Function.comp_apply, Shape.lineBy_isHidden, Shape.line, Nat.zero_add, depth]

/-- The traversals of a document go by the links of a plan, from a root down. -/
structure Traverses (d : Document) (p : Plan) (root : NodeId) : Prop where
  /-- Every node has the shape and the children that the plan tells. -/
  planned : ∀ x ∈ d.nodes, p[x.id]? = some ⟨x.label.toShape, x.children.map Location.id⟩
  /-- The nodes stand in document order. -/
  preorder : p.Preorder [root] (d.nodes.map Location.id)
  /-- No node is listed twice. -/
  nodup : (d.nodes.map Location.id).Nodup
  /-- The nodes are those that one comes to from the root. -/
  linked : ∀ i, i ∈ d.nodes.map Location.id ↔ ∃ n, p.Path root n i
  /-- A loop that begins with the root gathers the nodes. -/
  visits : ∀ out, p.Visits (fun _ => true) [root] out ↔ out = d.nodes.map Location.id
  /-- The nodes below a node are those that one comes to from it over a link or more. -/
  below : ∀ x ∈ d.nodes, ∀ i, i ∈ x.descendants.map Location.id ↔ ∃ n, p.Path x.id (n + 1) i
  /-- They stand right behind the node, so many as there are. -/
  slice : ∀ i x, d.nodes[i]? = some x →
    x.descendants = (d.nodes.drop (i + 1)).take {j | ∃ n, p.Path x.id (n + 1) j}.ncard
  /-- A loop that begins with the children of a node gathers the nodes below it. -/
  visitsBelow : ∀ x ∈ d.nodes, ∀ out,
    p.Visits (fun _ => true) (p.children x.id) out ↔ out = x.descendants.map Location.id
  /-- The rendered tree has a line for every node, in the order of the nodes. -/
  lines : (renderTree (d.root.tree.map Node.toShape)).toList.splitOn '\n' =
    (d.nodes.map fun x => List.replicate (2 * d.depth x) ' ' ++ x.label.toShape.entry) ++ [[]]
  /-- A line is indented by just two spaces for every link from the root to the node. -/
  indented : ∀ x ∈ d.nodes, (∀ n, p.Path root n x.id ↔ n = d.depth x) ∧
    x.label.toShape.entry.head? ≠ some ' '
  /-- The function literals are those among the nodes, in the same order. -/
  literals : d.root.literals.map Location.id = (d.nodes.map Location.id).filter p.isLiteral
  /-- A loop that begins with the root and keeps function literals gathers them. -/
  visitsLiterals : ∀ out, p.Visits p.isLiteral [root] out ↔ out = d.root.literals.map Location.id

end Document

namespace Plan

theorem ncard_eq_length {is : List NodeId} {q : NodeId → Prop} (hnd : is.Nodup)
    (h : ∀ i, i ∈ is ↔ q i) : {i | q i}.ncard = is.length := by
  have hset : {i | q i} = ↑is.toFinset := by
    ext i
    rw [Finset.mem_coe, List.mem_toFinset, h i, Set.mem_ofPred_eq]
  rw [hset, Set.ncard_coe_finset, List.toFinset_card_of_nodup hnd]

/-- Whatever nodes are made by a sound plan, and whichever of them is the root, the document
    traverses the nodes linked to the root, in document order. -/
theorem IsSound.traverses {p : Plan} (h : p.IsSound) {root : NodeId} (hroot : root < p.length)
    (source : List Char) (tokens : Array Token) :
    ∃ d, (build p).finish? source tokens root = some d ∧ d.Traverses p root := by
  obtain ⟨d, hfinish, rfl, hmem, hplanned⟩ := h.exists_document hroot source tokens
  have hnodes : d.nodes.Sublist d.places := Location.walk_sublist_allIn_nil hmem
  have hnd : (d.nodes.map Location.id).Nodup :=
    (h.built.1.hasDistinctIds hfinish).sublist (hnodes.map _)
  have hwalk (x : Place) (hx : x ∈ d.nodes) : ∀ y ∈ x.walk, p.Describes y.tree := fun y hy =>
    hplanned y (hnodes.subset (Location.mem_walk_trans hy hx))
  have hall : ∀ y ∈ d.nodes, p.Describes y.tree := hwalk d.root (Location.self_mem_walk _)
  have hpreorder := preorder_walk (preorder_descendants hall)
  refine ⟨d, hfinish, ?_⟩
  constructor
  case planned =>
    intro x hx
    rw [show p[x.id]? = _ from hall x hx, Location.children, List.map_map]
    rfl
  case preorder => exact hpreorder
  case nodup => exact hnd
  case linked => exact fun i => mem_walk_iff_path hall
  case visits =>
    intro out
    rw [hpreorder.visits_iff, List.filter_true]
    rfl
  case below => exact fun x hx i => mem_descendants_iff_path (hwalk x hx)
  case slice =>
    intro i x hi
    have hx := List.mem_of_getElem? hi
    have hbelow : (x.descendants.map Location.id).Nodup :=
      hnd.sublist ((x.descendants_sublist_walk.trans (Location.walk_sublist_walk hx)).map _)
    rw [ncard_eq_length hbelow fun j => mem_descendants_iff_path (hwalk x hx), List.length_map]
    exact Location.descendants_eq_take hnd.of_map hi
  case visitsBelow =>
    intro x hx out
    rw [(preorder_descendants (hwalk x hx)).visits_iff, List.filter_true]
  case lines => exact d.splitOn_renderTree
  case indented =>
    refine fun x hx => ⟨fun n => ?_, x.label.toShape.head?_entry_ne⟩
    have hle := Location.length_above_le hx
    rw [path_iff hall, Document.depth]
    constructor
    · rintro ⟨y, hy, hid, hlength⟩
      obtain rfl := List.inj_on_of_nodup_map hnd hy hx hid
      omega
    · rintro rfl
      exact ⟨x, hx, rfl, by omega⟩
  case literals => exact (filter_isLiteral hall).symm
  case visitsLiterals =>
    intro out
    rw [hpreorder.visits_iff, filter_isLiteral hall]

/-- A name and a function literal with another name in a block, which is the root. -/
theorem traverses_block : ∃ p : Plan, p.IsSound ∧ 3 < p.length ∧
    ∃ d, (build p).finish? [] #[] 3 = some d ∧ d.Traverses p 3 ∧
      d.nodes.map Location.id = [3, 2, 1, 0] ∧ d.root.literals.map Location.id = [2] := by
  let p : Plan := [⟨⟨.nameReference "a", ⟨3, 4⟩⟩, []⟩, ⟨⟨.nameReference "b", ⟨1, 2⟩⟩, []⟩,
    ⟨⟨.functionLiteral, ⟨0, 2⟩⟩, [1]⟩, ⟨⟨.block, ⟨0, 4⟩⟩, [2, 0]⟩]
  have hsound : p.IsSound :=
    .concat (p := p.take 3) (.concat (p := p.take 2) (.concat (p := p.take 1)
      (.concat (p := []) .nil .nil nofun) .nil nofun) (by decide) (by decide)) (by decide)
      (by decide)
  have htraverses : ∃ d, (build p).finish? [] #[] 3 = some d ∧ d.Traverses p 3 :=
    hsound.traverses (by decide) [] #[]
  obtain ⟨d, hfinish, ht⟩ := htraverses
  have hids : d.nodes.map Location.id = [3, 2, 1, 0] :=
    ((ht.visits _).1 (.cons (.cons (.cons (.cons .nil))))).symm
  refine ⟨p, hsound, by decide, d, hfinish, ht, hids, ?_⟩
  rw [ht.literals, hids]
  rfl

end Plan

end ResultHints
