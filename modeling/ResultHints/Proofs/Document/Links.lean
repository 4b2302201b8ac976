import ResultHints.Proofs.Document.Traversal
import ResultHints.Proofs.Hint.Label
import ResultHints.Proofs.Parser.State

/-!
# Links up and links down

The nodes that a plan makes are stored one after the other (`Plan.cells`): a node is stored with its
links down, and those below it get their link up to it then. One goes up from a node in loops over
the links up, and down from it in loops over the links down (`Loops`). Main statement:

- `Plan.IsSound.navigates`: in what a sound plan builds the two kinds of links are inverse, links up
  lead to larger ids, and so all the loops end, with the nodes above and below as the document has
  them (`Document.Navigates`).
-/

namespace ResultHints

/-! ## Loops -/

/-- A loop comes from a state to a result: its body ends it, or goes on from another state. -/
inductive Loops {σ β : Type} (body : σ → β ⊕ σ) : σ → β → Prop
  | done {s : σ} {r : β} : body s = .inl r → Loops body s r
  | next {s s' : σ} {r : β} : body s = .inr s' → Loops body s' r → Loops body s r

theorem Loops.unique {σ β : Type} {body : σ → β ⊕ σ} {s : σ} {r r' : β} (h : Loops body s r)
    (h' : Loops body s r') : r = r' := by
  induction h with
  | done hr =>
    cases h' with
    | done hr' => exact Sum.inl.inj (hr.symm.trans hr')
    | next hs' => cases hr.symm.trans hs'
  | next hs _ ih =>
    cases h' with
    | done hr' => cases hs.symm.trans hr'
    | next hs' h' =>
      obtain rfl := Sum.inr.inj (hs.symm.trans hs')
      exact ih h'

/-- A loop that ends has just one result. -/
theorem Loops.iff {σ β : Type} {body : σ → β ⊕ σ} {s : σ} {r : β} (h : Loops body s r) (r' : β) :
    Loops body s r' ↔ r' = r :=
  ⟨fun h' => h'.unique h, fun heq => heq ▸ h⟩

namespace Plan

variable {p : Plan} {s : PlanStep} {i j : NodeId} {c : Cell}

/-! ## Nodes that are stored -/

/-- The nodes of a plan as they are stored. -/
def cells (p : Plan) : List Cell :=
  (p.foldl (fun q s => q.make s.shape s.children) (Parser.ofTokens [] [])).arena

/-- The node right above a stored node. -/
def parent? (p : Plan) (i : NodeId) : Option NodeId := p.cells[i]?.bind Cell.parent

/-- Whether a stored node is of one of the given kinds. -/
def hasKind (p : Plan) (q : NodeKind → Bool) (i : NodeId) : Bool :=
  p.cells[i]?.any fun c => q c.shape.kind

/-- What a stored node stands before as a label or as annotations. -/
def base? (p : Plan) (i : NodeId) : Option NodeId :=
  p.cells[i]?.bind fun c => match c.shape.kind with
    | .labeled _ => c.children.head?
    | .annotated => c.children.find? fun j => !p.hasKind NodeKind.isAnnotationEntry j
    | _ => none

/-- What a stored lambda argument holds first. -/
def argument? (p : Plan) (i : NodeId) : Option NodeId :=
  p.cells[i]?.bind fun c => if c.shape.kind = .lambdaArgument then c.children.head? else none

/-! ### Bodies of loops -/

/-- Goes up to the first node of one of the given kinds. -/
def seek (p : Plan) (q : NodeKind → Bool) : Option NodeId → Option NodeId ⊕ Option NodeId
  | none => .inl none
  | some i => if p.hasKind q i then .inl (some i) else .inr (p.parent? i)

/-- Goes up to the top. -/
def rise (p : Plan) (i : NodeId) : NodeId ⊕ NodeId :=
  match p.parent? i with
  | none => .inl i
  | some j => .inr j

/-- Goes up to the top and gathers the nodes of the given kinds. -/
def gather (p : Plan) (q : NodeKind → Bool) :
    Option NodeId × List NodeId → List NodeId ⊕ Option NodeId × List NodeId
  | (none, out) => .inl out
  | (some i, out) => .inr (p.parent? i, if p.hasKind q i then out ++ [i] else out)

/-- Goes down through labels and annotations to a lambda. -/
def unwrap (p : Plan) : Option NodeId → Option NodeId ⊕ Option NodeId
  | none => .inl none
  | some i => if p.hasKind (· == .lambda) i then .inl (some i) else .inr (p.base? i)

/-! ### Links of a sound plan -/

theorem children_concat (p : Plan) (s : PlanStep) (j : NodeId) :
    children (p ++ [s]) j = if j = p.length then s.children else p.children j := by
  unfold children
  split
  · next hj => rw [hj, List.getElem?_concat_length, Option.elim_some]
  · next hj =>
    rcases Nat.lt_or_ge j p.length with hlt | hge
    · rw [List.getElem?_append_left hlt]
    · have hlength : (p ++ [s]).length ≤ j := by
        rw [List.length_append]
        exact Nat.lt_of_le_of_ne hge (Ne.symm hj)
      rw [List.getElem?_eq_none hge, List.getElem?_eq_none hlength]

/-- A node is made after those below it. -/
theorem IsSound.lt_of_mem_children (h : p.IsSound) (hi : i ∈ p.children j) : i < j := by
  induction h with
  | nil => exact absurd hi List.not_mem_nil
  | @concat p s _ _ hs ih =>
    rw [children_concat] at hi
    split at hi
    · next hj => exact hj ▸ (hs i hi).1
    · exact ih hi

theorem lt_length_of_mem_children (hi : i ∈ p.children j) : j < p.length := by
  by_contra hj
  rw [children, List.getElem?_eq_none (Nat.le_of_not_lt hj)] at hi
  exact absurd hi List.not_mem_nil

/-- The nodes of a plan are stored as it tells, and the links up are inverse to the links down. -/
structure IsStored (p : Plan) : Prop where
  length : p.cells.length = p.length
  cell : ∀ (i : NodeId) (c : Cell), p.cells[i]? = some c →
    p[i]? = some ⟨c.shape, c.children⟩ ∧ ∀ j, c.parent = some j ↔ i ∈ p.children j

theorem cells_concat (p : Plan) (s : PlanStep) : cells (p ++ [s]) =
    (Parser.make { Parser.ofTokens [] [] with arena := p.cells } s.shape s.children).arena := by
  rw [cells, List.foldl_concat]
  rfl

/-- To make a node links just the nodes that it is made above. -/
theorem IsStored.concat (h : p.IsStored) (hp : p.IsSound)
    (hs : ∀ i ∈ s.children, i < p.length ∧ ∀ u ∈ p, i ∉ u.children) : IsStored (p ++ [s]) := by
  have hnot {i : NodeId} (hi : i ∈ s.children) (j : NodeId) : i ∉ p.children j := fun hmem => by
    have hj := lt_length_of_mem_children hmem
    rw [children, List.getElem?_eq_getElem hj] at hmem
    exact (hs i hi).2 _ (List.getElem_mem hj) hmem
  refine ⟨?_, fun i c hc => ?_⟩
  · rw [cells_concat, Parser.length_arena_make, List.length_append, List.length_singleton]
    exact congrArg (· + 1) h.length
  · rw [cells_concat] at hc
    rcases Nat.lt_trichotomy i p.length with hlt | rfl | hgt
    · rw [Parser.getElem?_make_of_lt _ _ (h.length.symm ▸ hlt)] at hc
      obtain ⟨c', hc', rfl⟩ := Option.map_eq_some_iff.1 hc
      obtain ⟨hstep, hlinks⟩ := h.cell i c' hc'
      rw [List.getElem?_append_left hlt]
      split
      · next hi =>
        -- The new node is the first one above this one.
        refine ⟨hstep, fun j => ?_⟩
        rw [children_concat, Option.some_inj, h.length, eq_comm]
        split
        · next hj => exact iff_of_true hj hi
        · next hj => exact iff_of_false hj (hnot hi j)
      · next hi =>
        refine ⟨hstep, fun j => ?_⟩
        rw [children_concat, hlinks]
        split
        · next hj =>
          refine iff_of_false (fun hmem => ?_) hi
          exact Nat.lt_irrefl _ (hj ▸ lt_length_of_mem_children hmem)
        · exact Iff.rfl
    · rw [← h.length, Parser.getElem?_make_self] at hc
      obtain rfl := Option.some.inj hc
      refine ⟨List.getElem?_concat_length, fun j => iff_of_false (by simp) fun hmem => ?_⟩
      rw [children_concat] at hmem
      split at hmem
      · exact Nat.lt_irrefl _ (hs _ hmem).1
      · exact Nat.lt_asymm (hp.lt_of_mem_children hmem) (lt_length_of_mem_children hmem)
    · have hlength := (List.getElem?_eq_some_iff.1 hc).1
      rw [Parser.length_arena_make] at hlength
      exact absurd hgt (Nat.not_lt_of_le (h.length ▸ Nat.le_of_lt_succ hlength))

theorem IsSound.isStored (h : p.IsSound) : p.IsStored := by
  induction h with
  | nil => exact ⟨rfl, nofun⟩
  | concat hp _ hs ih => exact ih.concat hp hs

theorem IsStored.children_eq (h : p.IsStored) (hc : p.cells[i]? = some c) :
    p.children i = c.children := by
  rw [children, (h.cell i c hc).1, Option.elim_some]

end Plan

/-! ## Links of a document -/

namespace Location

variable {α : Type} {ts : List (Tree α)} {x y : Location α}

/-- What holds of the roots and passes from nodes to their children holds of all places. -/
theorem places_induction {P : Location α → Prop} (root : ∀ t ∈ ts, P ⟨t, []⟩)
    (child : ∀ x ∈ allIn [] ts, P x → ∀ y ∈ x.children, P y) (hx : x ∈ allIn [] ts) : P x := by
  obtain ⟨t, ht, hwalk⟩ := mem_allIn_nil.1 hx
  refine (walk_induction (P := fun x => x ∈ allIn [] ts ∧ P x)
    ⟨mem_allIn_nil.2 ⟨t, ht, self_mem_walk _⟩, root t ht⟩ ?_ hwalk).2
  exact fun x ⟨hx, hP⟩ y hy => ⟨mem_allIn_nil_of_mem_children hx hy, child x hx hP y hy⟩

theorem top_of_mem_children (h : y ∈ x.children) : y.top = x.top := by
  rw [top, ancestors_of_mem_children h, List.getLastD_cons]
  rfl

/-- The nodes below a node are just those that have it above them. -/
theorem mem_descendants_iff (hy : y ∈ allIn [] ts) : y ∈ x.descendants ↔ x ∈ y.ancestors := by
  refine ⟨mem_ancestors_of_mem_descendants, fun hx => ?_⟩
  obtain ⟨t, -, hwalk⟩ := mem_allIn_nil.1 hy
  have hmem := (mem_walk_iff_mem_ancestors rfl hwalk).2 (.inr hx)
  rw [walk_eq, List.mem_cons] at hmem
  refine hmem.resolve_left ?_
  rintro rfl
  exact Nat.lt_irrefl _ (length_above_lt hx)

/-- Of two nodes above a node, the one that comes first lies below the other. -/
theorem pairwise_ancestors (hx : x ∈ allIn [] ts) :
    x.ancestors.Pairwise fun y z => y ∈ z.descendants := by
  refine places_induction (P := fun x => x.ancestors.Pairwise fun y z => y ∈ z.descendants)
    (fun t _ => .nil) (fun x hx ih y hy => ?_) hx
  rw [ancestors_of_mem_children hy]
  exact List.pairwise_cons.2 ⟨fun z hz => (mem_descendants_iff hx).2 hz, ih⟩

end Location

namespace Document

variable {d : Document} {p : Plan} {q : NodeKind → Bool} {x : Place}

/-- The nodes of the document are those that are stored, each with its links. -/
structure Stores (d : Document) (p : Plan) : Prop where
  ids : (d.places.map Location.id).Perm (List.range p.cells.length)
  cell : ∀ x ∈ d.places, p.cells[x.id]? =
    some ⟨x.label.toShape, x.children.map Location.id, x.parent?.map Location.id⟩

namespace Stores

variable (h : d.Stores p)

include h

theorem parent? (hx : x ∈ d.places) : p.parent? x.id = x.parent?.map Location.id := by
  rw [Plan.parent?, h.cell x hx]
  rfl

theorem hasKind (hx : x ∈ d.places) : p.hasKind q x.id = q x.kind := by
  rw [Plan.hasKind, h.cell x hx]
  rfl

theorem base? (hx : x ∈ d.places) : p.base? x.id = x.base?.map Location.id := by
  rw [Plan.base?, h.cell x hx, Option.bind_some, Location.base?,
    show (x.label.toShape).kind = x.kind from rfl]
  cases x.kind with
  | labeled => exact List.head?_map
  | annotated =>
    dsimp only
    rw [List.find?_map]
    congr 1
    refine List.find?_congr fun y hy => ?_
    rw [Function.comp_apply, h.hasKind (Location.mem_allIn_nil_of_mem_children hx hy)]
  | _ => rfl

theorem argument? (hx : x ∈ d.places) : p.argument? x.id =
    if x.kind = .lambdaArgument then x.children.head?.map Location.id else none := by
  rw [Plan.argument?, h.cell x hx, Option.bind_some, ← List.head?_map]
  rfl

/-! ### What the loops come to -/

theorem loops_seek (hx : x ∈ d.places) : Loops (p.seek q) (x.parent?.map Location.id)
    ((x.nearest? fun a => q a.kind).map Location.id) := by
  refine Location.places_induction (P := fun x => Loops (p.seek q) (x.parent?.map Location.id)
    ((x.nearest? fun a => q a.kind).map Location.id)) (fun t _ => .done rfl) ?_ hx
  intro x hx ih y hy
  rw [Location.parent?_of_mem_children hy, Location.nearest?_of_mem_children hy, Option.map_some]
  have hkind : p.hasKind q x.id = q x.label.kind := h.hasKind hx
  by_cases hq : q x.label.kind
  · rw [if_pos hq]
    exact .done (by rw [Plan.seek, hkind, if_pos hq]; rfl)
  · rw [if_neg hq]
    exact .next (by rw [Plan.seek, hkind, if_neg hq, h.parent? hx]) ih

theorem loops_rise (hx : x ∈ d.places) : Loops p.rise x.id x.top.id := by
  refine Location.places_induction (P := fun x => x ∈ d.places → Loops p.rise x.id x.top.id)
    (fun t _ hx => .done ?_) (fun x hx ih y hy hmem => ?_) hx hx
  · rw [Plan.rise, h.parent? hx]
    rfl
  · have hbody : p.rise y.id = .inr x.id := by
      rw [Plan.rise, h.parent? hmem, Location.parent?_of_mem_children hy]
      rfl
    rw [Location.top_of_mem_children hy]
    exact .next hbody (ih hx)

theorem loops_gather (hx : x ∈ d.places) (out : List NodeId) :
    Loops (p.gather q) (x.parent?.map Location.id, out)
      (out ++ (x.ancestors.filter fun y => q y.kind).map Location.id) := by
  refine Location.places_induction (P := fun x => ∀ out, Loops (p.gather q)
    (x.parent?.map Location.id, out)
    (out ++ (x.ancestors.filter fun y => q y.kind).map Location.id))
    (fun t _ out => .done ?_) (fun x hx ih y hy out => ?_) hx out
  · rw [show (⟨t, []⟩ : Place).ancestors = [] from rfl, List.filter_nil, List.map_nil,
      List.append_nil]
    rfl
  · rw [Location.parent?_of_mem_children hy, Location.ancestors_of_mem_children hy, Option.map_some]
    refine .next (by rw [Plan.gather, h.hasKind hx, h.parent? hx]) ?_
    rw [List.filter_cons]
    split
    · have hrest := ih (out ++ [x.id])
      rw [List.append_assoc] at hrest
      exact hrest
    · exact ih _

theorem loops_unwrap (hx : x ∈ d.places) : Loops p.unwrap (some x.id)
    ((Location.unwrapped? x.above x.tree).map Location.id) := by
  induction x using Location.descent with
  | h x ih =>
    rw [unwrapped?_eq]
    by_cases hk : x.kind = .lambda
    · rw [if_pos hk]
      exact .done (by rw [Plan.unwrap, h.hasKind hx, if_pos (beq_iff_eq.2 hk)]; rfl)
    · rw [if_neg hk]
      refine .next (by rw [Plan.unwrap, h.hasKind hx, if_neg (mt beq_iff_eq.1 hk)]) ?_
      rw [h.base? hx]
      cases hbase : x.base? with
      | none => exact .done rfl
      | some y =>
        have hy := Location.mem_children_of_base? hbase
        exact ih y (Location.mem_descendants_of_mem_children hy)
          (Location.mem_allIn_nil_of_mem_children hx hy)

theorem loops_unwrap_argument? (hx : x ∈ d.places) :
    Loops p.unwrap (p.argument? x.id) (x.passedLambda?.map Location.id) := by
  rw [h.argument? hx, Location.passedLambda?]
  split
  · obtain ⟨⟨n, _ | ⟨t, ts⟩⟩, above⟩ := x
    · exact .done rfl
    · rw [unwrappedFirst?_eq]
      exact h.loops_unwrap (Location.mem_allIn_nil_of_mem_children hx List.mem_cons_self)
  · exact .done rfl

end Stores

/-- The links up and the links down that a plan stores are inverse, and the loops over them come to
    the nodes that the document has above and below a node. -/
structure Navigates (d : Document) (p : Plan) : Prop where
  /-- The nodes of the document are those that are stored, each with its links. -/
  stores : d.Stores p
  /-- A node is linked up to another one just where that one is linked down to it. -/
  inverse : ∀ (i : NodeId) (c : Cell), p.cells[i]? = some c →
    ∀ (j : NodeId) (c' : Cell), p.cells[j]? = some c' → (c.parent = some j ↔ i ∈ c'.children)
  /-- The node above a node has a larger id. -/
  increasing : ∀ (i : NodeId) (c : Cell), p.cells[i]? = some c → ∀ j, c.parent = some j →
    i < j ∧ j < p.cells.length
  /-- The loop that looks for a node above of some kind ends with the nearest one. -/
  nearest : ∀ x ∈ d.places, ∀ q r, Loops (p.seek q) (p.parent? x.id) r ↔
    r = (x.nearest? fun a => q a.kind).map Location.id
  /-- The loop that looks for the top of the tree ends with it. -/
  top : ∀ x ∈ d.places, ∀ r, Loops p.rise x.id r ↔ r = x.top.id
  /-- The loop that gathers the nodes above of some kind, or all, ends with those. -/
  above : ∀ x ∈ d.places, ∀ q r, Loops (p.gather q) (p.parent? x.id, []) r ↔
    r = (x.ancestors.filter fun y => q y.kind).map Location.id
  /-- The loop that looks for the lambda of an argument ends with it. -/
  passed : ∀ x ∈ d.places, ∀ r, Loops p.unwrap (p.argument? x.id) r ↔
    r = x.passedLambda?.map Location.id
  /-- The loop that gathers the nodes below ends with those. -/
  below : ∀ x ∈ d.places, ∀ out,
    p.Visits (fun _ => true) (p.children x.id) out ↔ out = x.descendants.map Location.id
  /-- A node lies below another one just where that one is on the way up from it. -/
  descendants : ∀ x ∈ d.places, ∀ y ∈ d.places, y ∈ x.descendants ↔ x ∈ y.ancestors
  /-- The function literals around a node are those that it lies below, each one before those
      that it lies below itself. -/
  literals : ∀ x ∈ d.places,
    (∀ y, y ∈ x.enclosingLiterals ↔
      y ∈ d.places ∧ y.kind = .functionLiteral ∧ x ∈ y.descendants) ∧
    x.enclosingLiterals.Pairwise fun y z => y ∈ z.descendants

end Document

namespace Plan

variable {p : Plan} {root : NodeId} {d : Document} {source : List Char} {tokens : Array Token}

/-- What a sound plan builds has just the nodes that it stores. -/
theorem IsSound.stores (h : p.IsSound) (hd : (build p).finish? source tokens root = some d)
    (hplanned : ∀ x ∈ d.places, p.Describes x.tree) : d.Stores p := by
  have hids := h.built.1.hasDistinctIds hd
  have hperm : (d.places.map Location.id).Perm (List.range p.length) := by
    obtain ⟨x, -, rfl⟩ := Option.map_eq_some_iff.1 hd
    exact size_build p ▸ h.built.1.perm_ids
  refine ⟨h.isStored.length ▸ hperm, fun x hx => ?_⟩
  have hlt : x.id < p.length := List.mem_range.1 (hperm.mem_iff.1 (List.mem_map_of_mem hx))
  obtain ⟨c, hcell⟩ : ∃ c, p.cells[x.id]? = some c :=
    ⟨_, List.getElem?_eq_getElem (h.isStored.length ▸ hlt)⟩
  obtain ⟨hstep, hlinks⟩ := h.isStored.cell _ c hcell
  rw [show p[x.id]? = some ⟨x.label.toShape, x.tree.children.map (·.label.id)⟩ from hplanned x hx,
    Option.some_inj] at hstep
  obtain ⟨shape, children, parent⟩ := c
  obtain ⟨rfl, rfl⟩ := PlanStep.mk.inj hstep
  have hchildren : x.tree.children.map (·.label.id) = x.children.map Location.id := by
    rw [Location.children, List.map_map]
    rfl
  have hparent : parent = x.parent?.map Location.id := by
    refine Option.ext fun j => (hlinks j).trans ⟨fun hmem => ?_, fun hj => ?_⟩
    · -- The node with the id `j` is a place, and so the parent.
      have hj := List.mem_range.2 (lt_length_of_mem_children hmem)
      obtain ⟨y, hy, rfl⟩ := List.mem_map.1 (hperm.mem_iff.2 hj)
      rw [children_of_describes (hplanned y hy)] at hmem
      exact (hids.parent?_id hx hy).2 hmem
    · obtain ⟨y, hy, rfl⟩ := Option.map_eq_some_iff.1 hj
      obtain ⟨hmem, hxy⟩ := (Location.parent?_eq_some_iff hx).1 hy
      rw [children_of_describes (hplanned y hmem)]
      exact List.mem_map_of_mem hxy
  rw [hcell, hchildren, hparent]

/-- Whatever nodes are made by a sound plan, and whichever of them is the root: the links up and
    the links down of all nodes are inverse, and all loops over them end, with what the document
    has above and below the nodes. -/
theorem IsSound.navigates {p : Plan} (h : p.IsSound) {root : NodeId} (hroot : root < p.length)
    (source : List Char) (tokens : Array Token) :
    ∃ d, (build p).finish? source tokens root = some d ∧ d.Navigates p := by
  obtain ⟨d, hfinish, -, -, hplanned⟩ := h.exists_document hroot source tokens
  have hs : d.Stores p := h.stores hfinish hplanned
  have hwalk (x : Place) (hx : x ∈ d.places) : ∀ y ∈ x.walk, p.Describes y.tree := fun y hy =>
    hplanned y ((Location.walk_sublist_allIn_nil hx).subset hy)
  refine ⟨d, hfinish, ?_⟩
  constructor
  case stores => exact hs
  case inverse =>
    intro i c hc j c' hc'
    rw [(h.isStored.cell i c hc).2, h.isStored.children_eq hc']
  case increasing =>
    intro i c hc j hj
    have hmem := ((h.isStored.cell i c hc).2 j).1 hj
    exact ⟨h.lt_of_mem_children hmem, h.isStored.length ▸ lt_length_of_mem_children hmem⟩
  case nearest =>
    intro x hx q r
    rw [hs.parent? hx]
    exact (hs.loops_seek hx).iff r
  case top => exact fun x hx r => (hs.loops_rise hx).iff r
  case above =>
    intro x hx q r
    rw [hs.parent? hx]
    exact (hs.loops_gather hx []).iff r
  case passed => exact fun x hx r => (hs.loops_unwrap_argument? hx).iff r
  case below =>
    intro x hx out
    rw [(preorder_descendants (hwalk x hx)).visits_iff, List.filter_true]
  case descendants => exact fun x _ y hy => Location.mem_descendants_iff hy
  case literals =>
    refine fun x hx => ⟨fun y => ?_, (Location.pairwise_ancestors hx).filter _⟩
    rw [Location.enclosingLiterals, List.mem_filter, beq_iff_eq, Location.mem_descendants_iff hx]
    exact ⟨fun ⟨hy, hk⟩ => ⟨Location.mem_allIn_nil_of_mem_ancestors hx hy, hk, hy⟩,
      fun ⟨_, hk, hy⟩ => ⟨hy, hk⟩⟩

/-- A name in a function literal, whose lambda is the root, and that as a labeled argument in
    another function literal. -/
theorem navigates_nested_literals : ∃ p : Plan, p.IsSound ∧ 2 < p.length ∧
    ∃ d, (build p).finish? [] #[] 2 = some d ∧ d.Navigates p ∧
      Loops (p.gather (· == .functionLiteral)) (p.parent? 0, []) [1, 5] ∧ Loops p.rise 0 5 ∧
      Loops p.unwrap (p.argument? 4) (some 2) := by
  let p : Plan := [⟨⟨.nameReference "a", ⟨3, 4⟩⟩, []⟩, ⟨⟨.functionLiteral, ⟨2, 5⟩⟩, [0]⟩,
    ⟨⟨.lambda, ⟨2, 5⟩⟩, [1]⟩, ⟨⟨.labeled "l", ⟨0, 5⟩⟩, [2]⟩, ⟨⟨.lambdaArgument, ⟨0, 5⟩⟩, [3]⟩,
    ⟨⟨.functionLiteral, ⟨0, 5⟩⟩, [4]⟩]
  have hsound : p.IsSound :=
    .concat (p := p.take 5) (.concat (p := p.take 4) (.concat (p := p.take 3)
      (.concat (p := p.take 2) (.concat (p := p.take 1) (.concat (p := []) .nil .nil nofun)
      (by decide) (by decide)) (by decide) (by decide)) (by decide) (by decide)) (by decide)
      (by decide)) (by decide) (by decide)
  have hlt : 2 < p.length := by decide
  have hnodes : ((build p).finish? [] #[] 2).any (fun d =>
      d.places.any (fun x => x.id == 0 && x.enclosingLiterals.map Location.id == [1, 5] &&
        x.top.id == 5) &&
      d.places.any fun x => x.id == 4 && x.passedLambda?.map Location.id == some 2) = true := by
    decide +kernel
  clear_value p
  obtain ⟨d, hfinish, hn⟩ := hsound.navigates hlt [] #[]
  rw [hfinish, Option.any_some, Bool.and_eq_true, List.any_eq_true, List.any_eq_true] at hnodes
  obtain ⟨⟨x, hx, hbelow⟩, y, hy, hpassed⟩ := hnodes
  simp only [Bool.and_eq_true, beq_iff_eq] at hbelow hpassed
  obtain ⟨⟨hid, hliterals⟩, htop⟩ := hbelow
  refine ⟨p, hsound, hlt, d, hfinish, hn, ?_, ?_, ?_⟩
  · exact hid ▸ (hn.above x hx _ _).2 hliterals.symm
  · exact hid ▸ (hn.top x hx 5).2 htop.symm
  · exact hpassed.1 ▸ (hn.passed y hy _).2 hpassed.2.symm

end Plan

end ResultHints
