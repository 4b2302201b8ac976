import ResultHints.Proofs.Document.Breaks
import ResultHints.Proofs.Document.Lines

/-!
# Documents with the same tree

Texts with the same lexemes, but with other line breaks, may still have the same tree. Then
every node covers the same lexemes in both of them, since which ones it covers is told by the
tree and the lexemes alone (`counted_eq`). So the nodes of the two documents come in pairs, of
nodes that are the same but for offsets and the texts of types (`Document.Twins`).
-/

namespace ResultHints

open Location

/-! ## Lexemes by number -/

theorem lexemesUpTo_eq (L : List Lexeme) (n : Nat) :
    lexemesUpTo L n = L.length - lexemesAfter L n := by
  have hsum := List.length_eq_countP_add_countP (fun t => decide (t.stop ≤ n)) (l := L)
  have hrest : L.countP (fun t => ¬decide (t.stop ≤ n) = true) = lexemesAfter L n :=
    List.countP_congr fun t _ => by simp
  rw [lexemesUpTo]
  omega

/-- The labels of nodes that tell of their places only which lexemes they cover, and of types no
    texts. -/
def Relabeling.counting (L : List Lexeme) : Relabeling where
  kind a := a.kind.untyped
  place := lexemesUpTo L
  number := id
  untyped_kind a := by cases a.kind <;> rfl
  number_injective := Function.injective_id

/-- The tree of a document by the lexemes that its nodes cover, without a text. -/
def Document.counted (d : Document) : Document :=
  ⟨[], #[], [], 0, ⟨d.root.tree.map (Relabeling.counting d.lexemes).node, []⟩⟩

/-! ## The same tree -/

/-- The node over some of the given number of lexemes, by how many of them are left where it begins
    and where it ends. -/
def Node.at (count : Nat) (a : NodeKind × NodeId) (left : Span) : Node :=
  ⟨⟨a.1, ⟨count - left.start, count - left.stop⟩⟩, a.2⟩

theorem counting_eq (L : List Lexeme) : (Relabeling.counting L).node =
    fun a => Node.at L.length a.bare (spanAfter L a.span) := by
  funext a
  simp only [Relabeling.node, Relabeling.counting, lexemesUpTo_eq]
  rfl

/-- Which lexemes the nodes of a text cover is told by the outline of its tree and the kinds of the
    lexemes. -/
theorem measured_of_parse {source : List Char} {d : Document} (h : Document.parse source = .ok d) :
    Fragment.measured d.lexemes d.root.tree = .node ⟨d.lexemes.length, 0⟩
      (measureAll .file none d.root.outline.children (kinds d.lexemes)).1 := by
  have hd := regular_of_parse h
  have hfinish : ∀ t ∈ d.lexemes, t.stop ≤ byteLength d.source := fun t ht =>
    (hd.boundaries t ht).2.le
  have hstart : lexemesAfter d.lexemes 0 = d.lexemes.length :=
    List.countP_eq_length.2 fun t ht => by
      have := hd.ordered.start_lt_stop ht
      rw [decide_eq_true_eq]
      omega
  have hstop : lexemesAfter d.lexemes (byteLength d.source) = 0 :=
    List.countP_eq_zero.2 fun t ht => by simpa using hfinish t ht
  have hspan : spanAfter d.lexemes d.root.span = ⟨d.lexemes.length, 0⟩ := by
    rw [hd.span, spanAfter, hstart, hstop]
  obtain ⟨tokens, u, s', -, hfile, rfl⟩ := exists_of_parse h
  have hchildren := measured_of_readsFile hd.ordered (readsFile_of_file hfile)
    ⟨⟨[], rfl, rfl⟩, hfinish⟩ (Nat.le_refl _)
  rw [outline, Fragment.outline, Tree.children_map, ← hspan]
  obtain ⟨a, us⟩ := u
  exact (Tree.map_node ..).trans (congrArg (Tree.node _) hchildren.symm)

theorem exists_measure_of_mem {L : List Lexeme} {k : NodeKind} {last : Option NodeKind}
    {ks : List TokenKind} {us : List Fragment}
    (h : (measureAll k last (us.map Fragment.outline) ks).1 = us.map (Fragment.measured L)) :
    ∀ u ∈ us, ∃ ks', (measure k.hasBraces u.outline ks').1 = u.measured L := by
  induction us generalizing last ks with
  | nil => nofun
  | cons u us ih =>
    rw [List.map_cons, measureAll_cons] at h
    obtain ⟨hu, hus⟩ := List.cons.inj h
    exact List.forall_mem_cons.2 ⟨⟨_, hu⟩, ih hus⟩

/-- Every node but the root has the span that its outline and the lexemes from it on tell. -/
theorem exists_measure {source : List Char} {d : Document} {x : Place}
    (h : Document.parse source = .ok d) (hx : x ∈ d.nodes) (hne : x ≠ d.root) :
    ∃ bare ks, (measure bare x.outline ks).1 = Fragment.measured d.lexemes x.tree := by
  -- The children of each node do, and by descent the children of these.
  have hchildren : ∀ p ∈ d.nodes, ∃ ks, (measureAll p.kind none
      (p.tree.children.map Fragment.outline) ks).1 =
        p.tree.children.map (Fragment.measured d.lexemes) := by
    intro p hp
    refine walk_induction (P := fun p => ∃ ks, (measureAll p.kind none
      (p.tree.children.map Fragment.outline) ks).1 =
        p.tree.children.map (Fragment.measured d.lexemes)) ?_ ?_ hp
    · have hroot := congrArg Tree.children (measured_of_parse h)
      rw [Fragment.measured, Tree.children_map, Tree.children_node, outline, Fragment.outline,
        Tree.children_map, ← (regular_of_parse h).isFile] at hroot
      exact ⟨_, hroot.symm⟩
    · rintro p ⟨ks, hall⟩ y hy
      obtain ⟨ks', hmeasure⟩ := exists_measure_of_mem hall y.tree (tree_mem_of_mem_children hy)
      obtain ⟨⟨a, us⟩, above⟩ := y
      rw [outline_node, measure] at hmeasure
      have hus := congrArg Tree.children hmeasure
      rw [Fragment.measured, Tree.children_map] at hus
      exact ⟨_, hus⟩
  obtain ⟨p, hp, hxp⟩ := Document.Regular.exists_parent_of_ne hx hne
  obtain ⟨ks, hall⟩ := hchildren p hp
  exact ⟨_, exists_measure_of_mem hall x.tree (tree_mem_of_mem_children hxp)⟩

/-- No lexeme stands between the end of a base and that of what stands before it. -/
theorem lexemesAfter_stop_of_base? {source : List Char} {d : Document} {x y : Place}
    (h : Document.parse source = .ok d) (hx : x ∈ d.nodes) (hbase : x.base? = some y) :
    lexemesAfter d.lexemes x.span.stop = lexemesAfter d.lexemes y.span.stop := by
  have hd := regular_of_parse h
  have hwrapper : (∃ label, x.kind = .labeled label) ∨ x.kind = .annotated := by
    unfold base? at hbase
    split at hbase
    · next label hk => exact .inl ⟨label, hk⟩
    · next hk => exact .inr hk
    · cases hbase
  have hhugs (bare : Bool) : x.kind.hugs bare = false := by
    rcases hwrapper with ⟨label, hk⟩ | hk <;> rw [hk] <;> rfl
  have htail (bare : Bool) (last : Option NodeKind) (ks : List TokenKind) :
      x.kind.pastTail bare last ks = ks := by
    rcases hwrapper with ⟨label, hk⟩ | hk <;> rw [hk] <;> rfl
  have hhugs' (bare : Bool) : y.kind.hugs bare = false := by
    have hstatement := hd.isStatement_of_base? hx hbase
    cases hk : y.kind <;> rw [hk] at hstatement <;> first | rfl | cases hstatement
  obtain ⟨es, hchildren, -⟩ := hd.children_of_base? hx hbase
  have hne : x ≠ d.root := hd.ne_root fun hk => by simp [base?, hk] at hbase
  obtain ⟨bare, ks, hmeasure⟩ := exists_measure h hx hne
  have houtline : x.outline = .node x.kind (es.map outline ++ [y.outline]) := by
    have hlist := x.children_outline
    rw [hchildren, List.map_append, List.map_singleton] at hlist
    rw [← hlist, ← label_outline]
    cases x.outline
    rfl
  obtain ⟨us, ks', hlast, hbehind⟩ :=
    measure_last (htail bare) (es.map outline) y.outline ks
  rw [← houtline] at hlast hbehind
  -- The last child of what is measured is what the base is measured as.
  have hy : (measure x.kind.hasBraces y.outline ks').1 = Fragment.measured d.lexemes y.tree := by
    rw [hmeasure, Fragment.measured, Tree.children_map, ← map_tree_children, hchildren] at hlast
    simp only [List.map_append, List.map_singleton] at hlast
    exact (List.append_inj_right' hlast rfl |> List.singleton_inj.1).symm
  have hlabel (z : Place) : (Fragment.measured d.lexemes z.tree).label.stop =
      lexemesAfter d.lexemes z.span.stop := congrArg Span.stop (Tree.label_map _ _)
  rw [← hlabel, ← hlabel, ← hmeasure, ← hy, stop_measure (by rw [label_outline]; exact hhugs bare),
    stop_measure (by rw [label_outline]; exact hhugs' _), hbehind]

theorem lexemesUpTo_stop_of_base? {source : List Char} {d : Document} {x y : Place}
    (h : Document.parse source = .ok d) (hx : x ∈ d.nodes) (hbase : x.base? = some y) :
    lexemesUpTo d.lexemes x.span.stop = lexemesUpTo d.lexemes y.span.stop := by
  rw [lexemesUpTo_eq, lexemesUpTo_eq, lexemesAfter_stop_of_base? h hx hbase]

theorem Document.outline_untyped (d : Document) :
    d.root.outline.map NodeKind.untyped = (d.root.tree.map Node.bare).map Prod.fst := by
  rw [outline, Fragment.outline, Tree.map_map, Tree.map_map]
  rfl

/-- Texts with the same kinds of lexemes and the same tree, but for spans and the texts of types,
    have trees that cover the same lexemes. -/
theorem counted_eq {source source' : List Char} {d d' : Document}
    (h : Document.parse source = .ok d) (h' : Document.parse source' = .ok d')
    (hkinds : kinds d'.lexemes = kinds d.lexemes)
    (htree : d'.root.tree.map Node.bare = d.root.tree.map Node.bare) : d'.counted = d.counted := by
  have hlength : d'.lexemes.length = d.lexemes.length := by
    rw [← length_kinds, hkinds, length_kinds]
  have houtline : d'.root.outline.children.map (Tree.map NodeKind.untyped) =
      d.root.outline.children.map (Tree.map NodeKind.untyped) := by
    rw [← Tree.children_map, ← Tree.children_map, d'.outline_untyped, d.outline_untyped, htree]
  have hmeasured : Fragment.measured d'.lexemes d'.root.tree =
      Fragment.measured d.lexemes d.root.tree := by
    rw [measured_of_parse h, measured_of_parse h', hlength, hkinds,
      ← measureAll_map_untyped _ _ d.root.outline.children,
      ← measureAll_map_untyped _ _ d'.root.outline.children, Tree.mapAll_eq_map,
      Tree.mapAll_eq_map, houtline]
  have hnodes : d'.root.tree.map (Relabeling.counting d'.lexemes).node =
      d.root.tree.map (Relabeling.counting d.lexemes).node := by
    rw [counting_eq, counting_eq, hlength]
    exact Tree.map_eq_map_of_both (Node.at d.lexemes.length) htree hmeasured
  rw [Document.counted, Document.counted, hnodes]

/-! ## Pairs of nodes -/

namespace Document

/-- The node of the tree by lexemes in the place of a node. -/
def count (d : Document) (x : Place) : Place := d.counted.inside (.counting d.lexemes) x

/-- The documents have the same tree, over the same lexemes. -/
structure SameTree (d d' : Document) : Prop where
  regular : d.Regular
  regular' : d'.Regular
  counted : d'.counted = d.counted

/-- Two nodes are in the same place of the trees of two documents; they are not the roots. -/
structure Twins (d d' : Document) (x x' : Place) : Prop where
  mem : x ∈ d.nodes
  mem' : x' ∈ d'.nodes
  ne : x ≠ d.root
  ne' : x' ≠ d'.root
  count : d'.count x' = d.count x

variable {d d' : Document} {x x' y y' : Place}

theorem label_count (hd : d.Regular) (hx : x ∈ d.nodes) :
    (d.count x).label = (Relabeling.counting d.lexemes).node x.label := by
  by_cases hne : x = d.root
  · rw [hne, Document.count, inside, graft_of_above_eq_nil hd.above]
    exact Tree.label_map _ _
  · exact label_inside (Regular.above_ne_nil hx hne)

theorem kind_count (hd : d.Regular) (hx : x ∈ d.nodes) : (d.count x).kind = x.kind.untyped := by
  rw [Location.kind, label_count hd hx]
  rfl

theorem kind_counted (hd : d.Regular) : d.counted.root.kind = .file := by
  have hroot : d.counted.root = d.count d.root := by
    rw [Document.count, inside, graft_of_above_eq_nil hd.above]
    rfl
  rw [hroot, kind_count hd (self_mem_walk _), hd.isFile]
  rfl

theorem descendants_counted (hd : d.Regular) :
    d.counted.root.descendants = d.root.descendants.map d.count := by
  have hchildren : d.counted.root.children = d.root.children.map d.count := by
    refine Eq.trans ?_ (map_inside_children hd).symm
    rw [← Tree.children_map]
    rfl
  rw [descendants_eq_flatMap, hchildren, descendants_eq_flatMap]
  exact flatMap_walk_inside fun x hx => Location.above_ne_nil hx

namespace SameTree

variable (h : d.SameTree d')

include h

theorem symm : d'.SameTree d := ⟨h.regular', h.regular, h.counted.symm⟩

/-- The nodes below the roots are twins, one after the other. -/
theorem forall₂_descendants :
    List.Forall₂ (d.Twins d') d.root.descendants d'.root.descendants := by
  have hmap : d.root.descendants.map d.count = d'.root.descendants.map d'.count := by
    rw [← descendants_counted h.regular, ← descendants_counted h.regular', h.counted]
  rw [← List.forall₂_eq_eq_eq, List.forall₂_map_left_iff, List.forall₂_map_right_iff,
    List.forall₂_iff_zip] at hmap
  refine List.forall₂_iff_zip.2 ⟨hmap.1, fun {x x'} hx => ?_⟩
  obtain ⟨hmem, hmem'⟩ := List.of_mem_zip hx
  obtain ⟨hnode, hne⟩ := mem_descendants h.regular hmem
  obtain ⟨hnode', hne'⟩ := mem_descendants h.regular' hmem'
  exact ⟨hnode, hnode', hne, hne', (hmap.2 hx).symm⟩

end SameTree

namespace Twins

variable (h : d.Twins d' x x')

include h

theorem symm : d'.Twins d x' x := ⟨h.mem', h.mem, h.ne', h.ne, h.count.symm⟩

theorem label : (Relabeling.counting d'.lexemes).node x'.label =
    (Relabeling.counting d.lexemes).node x.label := by
  have hx : (d.count x).label = (Relabeling.counting d.lexemes).node x.label :=
    label_inside (Regular.above_ne_nil h.mem h.ne)
  have hx' : (d'.count x').label = (Relabeling.counting d'.lexemes).node x'.label :=
    label_inside (Regular.above_ne_nil h.mem' h.ne')
  rw [← hx, ← hx', h.count]

theorem untyped : x'.kind.untyped = x.kind.untyped := congrArg (fun a : Node => a.kind) h.label

theorem apply_kind {β : Type} {F : NodeKind → β}
    (hF : ∀ s s', F (.typeReference s) = F (.typeReference s')) : F x'.kind = F x.kind :=
  NodeKind.apply_eq hF h.untyped

theorem kind_eq_iff {k : NodeKind} (hk : ∀ s, k ≠ .typeReference s) : x'.kind = k ↔ x.kind = k := by
  have hbeq : (x'.kind == k) = (x.kind == k) := h.apply_kind (F := (· == k)) fun s s' => by
    rw [beq_eq_false_iff_ne.2 (hk s).symm, beq_eq_false_iff_ne.2 (hk s').symm]
  rw [← beq_iff_eq, hbeq, beq_iff_eq]

theorem id : x'.id = x.id := (congrArg (fun a : Node => a.id) h.label :)

theorem start : lexemesUpTo d'.lexemes x'.span.start = lexemesUpTo d.lexemes x.span.start :=
  congrArg (fun a : Node => a.span.start) h.label

theorem stop : lexemesUpTo d'.lexemes x'.span.stop = lexemesUpTo d.lexemes x.span.stop :=
  congrArg (fun a : Node => a.span.stop) h.label

end Twins

end Document

end ResultHints
