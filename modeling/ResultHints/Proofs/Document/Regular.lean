import ResultHints.Document.Navigation
import ResultHints.Proofs.Grammar.Layout
import ResultHints.Proofs.Grammar.Numbering
import ResultHints.Proofs.Grammar.Spans
import ResultHints.Proofs.Tree.Place

/-!
# Documents of source texts

What holds of every document that is read from a source text (`Document.Regular`):
one tree with a file at its root, well laid, with no id given twice, and with spans
that begin and end between characters and lie inside each other. Main statement:

- `regular_of_parse`: the document of a source text is regular.

The rest of the theory of documents is stated over regular ones.
-/

namespace ResultHints

namespace Location

/-- The kinds of the tree of a place. -/
def outline (x : Place) : Tree NodeKind := Fragment.outline x.tree

theorem label_outline (x : Place) : x.outline.label = x.kind := Tree.label_map _ _

theorem children_outline (x : Place) : x.outline.children = x.children.map outline := by
  rw [outline, Fragment.outline, Tree.children_map, ← map_tree_children, List.map_map]
  rfl

end Location

/-- The lexemes among the tokens of a document. -/
def Document.lexemes (d : Document) : List Lexeme := ResultHints.lexemes false d.tokens.toList

/-- A document of one well laid tree, with an id of its own for every node and with spans inside
    each other. -/
structure Document.Regular (d : Document) : Prop where
  above : d.root.above = []
  trees : d.trees = [d.root.tree]
  ids : (d.root.tree.preorder.map fun n => n.id).Nodup
  isFile : d.root.kind = .file
  laid : WellLaid d.root.outline
  covers : d.root.tree.Each (Covers d.lexemes)
  span : d.root.span = ⟨0, byteLength d.source⟩
  ordered : InOrder 0 d.lexemes
  boundaries : ∀ t ∈ d.lexemes, IsBoundary d.source t.start ∧ IsBoundary d.source t.stop

/-- Where ids are given in postorder, none is given twice. -/
theorem Numbered.nodup {i j : NodeId} {u : Fragment} (h : Numbered i [u] j) :
    (u.preorder.map fun n => n.id).Nodup := by
  have hids : u.postorder.map (·.id) = List.range' i (Tree.sizeAll [u]) := by
    rw [← h.ids, Tree.postorderAll, Tree.postorderAll, List.append_nil]
  rw [← (u.postorder_perm_preorder.map _).nodup_iff, hids]
  exact List.nodup_range'

theorem Cursor.isOrdered_ofTokens {source : List Char} {tokens : List Token}
    (h : tokenize source = .ok tokens) : (Cursor.ofTokens source tokens).IsOrdered :=
  inOrder_lexemes (tiling_of_tokenize h) false

theorem Cursor.isInside_ofTokens {source : List Char} {tokens : List Token}
    (h : tokenize source = .ok tokens) : (Cursor.ofTokens source tokens).IsInside :=
  ⟨Nat.zero_le _, fun _ ht => (isBoundary_of_mem_lexemes h ht).2.le⟩

/-- Parsing reads tokens and then a file. -/
theorem exists_of_parse {source : List Char} {d : Document} (h : Document.parse source = .ok d) :
    ∃ tokens u s', tokenize source = .ok tokens ∧ file (.ofTokens source tokens) = .ok u s' ∧
      d = .ofFragments source tokens [] u s'.nextId := by
  rw [Document.parse, Document.readAfter] at h
  cases htokens : tokenize source with
  | error e => simp [htokens, bind, Except.bind] at h
  | ok tokens =>
    cases hfile : file (.ofTokens source tokens) with
    | error e s' => simp [htokens, hfile, expressionsThenFile, bind, Except.bind, pure, Except.pure,
        Except.map] at h
    | ok u s' =>
      refine ⟨tokens, u, s', rfl, hfile, ?_⟩
      simp [htokens, hfile, expressionsThenFile, bind, Except.bind, pure, Except.pure,
        Except.map] at h
      exact h.symm

/-- A source text whose document passes a test has a document. -/
theorem exists_of_parse_any {source : List Char} {p : Document → Bool}
    (h : (Document.parse source).toOption.any p = true) :
    ∃ d, Document.parse source = .ok d ∧ p d = true := by
  cases hparse : Document.parse source with
  | error e => simp [hparse, Except.toOption] at h
  | ok d => exact ⟨d, rfl, by simpa [hparse, Except.toOption] using h⟩

theorem kind_of_readsFile {n : Nat} {s s' : Cursor} {u : Fragment} (h : ReadsFile n s u s') :
    u.label.kind = .file := by
  cases h
  rfl

/-- The document of a source text is regular. -/
theorem regular_of_parse {source : List Char} {d : Document} (h : Document.parse source = .ok d) :
    d.Regular := by
  obtain ⟨tokens, u, s', htokens, hfile, rfl⟩ := exists_of_parse h
  have hreads := readsFile_of_file hfile
  obtain ⟨hcovers, hspan⟩ := covers_of_readsFile hreads (Cursor.isOrdered_ofTokens htokens)
    (Cursor.isInside_ofTokens htokens)
  exact
    { above := rfl
      trees := rfl
      ids := (numbered_of_readsFile hreads).nodup
      isFile := kind_of_readsFile hreads
      laid := wellLaid_of_readsFile hreads
      covers := hcovers
      span := hspan
      ordered := Cursor.isOrdered_ofTokens htokens
      boundaries := fun _ ht => isBoundary_of_mem_lexemes htokens ht }

/-! ## Places of a regular document -/

theorem Document.mem_descendants {d : Document} {x : Place} (hd : d.Regular)
    (hx : x ∈ d.root.descendants) : x ∈ d.nodes ∧ x ≠ d.root := by
  refine ⟨by rw [nodes, Location.walk_eq]; exact List.mem_cons_of_mem _ hx, ?_⟩
  rintro rfl
  have habove := Location.mem_ancestors_of_mem_descendants hx
  rw [Location.ancestors, hd.above] at habove
  exact absurd habove List.not_mem_nil

namespace Document.Regular

variable {d : Document} {x y z : Place}

theorem exists_parent_of_ne (hx : x ∈ d.nodes) (hne : x ≠ d.root) :
    ∃ p ∈ d.nodes, x ∈ p.children :=
  (Location.exists_parent_of_mem_walk hx).resolve_left hne

variable (hd : d.Regular)

include hd

/-- The nodes of the document are found again by their ids. -/
theorem eq_of_id_eq (hx : x ∈ d.nodes) (hy : y ∈ d.nodes) (h : x.id = y.id) : x = y :=
  Location.eq_of_mem_walk hd.ids hx hy h

theorem mem_of_mem_ancestors (hx : x ∈ d.nodes) (hz : z ∈ x.ancestors) : z ∈ d.nodes :=
  Location.mem_walk_of_mem_ancestors hd.above hx hz

theorem ne_root (h : x.kind ≠ .file) : x ≠ d.root := by
  rintro rfl
  exact h hd.isFile

theorem mem_of_parent? (hx : x ∈ d.nodes) (h : x.parent? = some y) : y ∈ d.nodes :=
  hd.mem_of_mem_ancestors hx (List.mem_of_head? h)

/-- The nearest ancestor of some kind, where this is not that of the root. -/
theorem mem_of_nearest? {k : NodeKind} (hx : x ∈ d.nodes)
    (h : x.nearest? (fun n => n.kind == k) = some y) (hk : k ≠ .file) :
    y ∈ d.nodes ∧ y ≠ d.root := by
  have hkind : y.kind = k := beq_iff_eq.1 (List.find?_some h :)
  exact ⟨hd.mem_of_mem_ancestors hx (List.mem_of_find?_eq_some h), hd.ne_root (hkind ▸ hk)⟩

theorem exists_parent (hx : x ∈ d.nodes) (h : x.kind ≠ .file) : ∃ p ∈ d.nodes, x ∈ p.children :=
  exists_parent_of_ne hx (hd.ne_root h)

/-- The children of every node follow the layout of its kind. -/
theorem follows (hx : x ∈ d.nodes) : Follows x.kind (x.children.map Location.outline) := by
  have hlaid : WellLaid x.outline :=
    Location.walk_induction (P := fun x => WellLaid x.outline) hd.laid
      (fun p hp y hy => hp.child (by
        rw [Location.children_outline]
        exact List.mem_map_of_mem hy)) hx
  have hfollows := hlaid.self
  rwa [Location.label_outline, Location.children_outline] at hfollows

/-- Every node covers lexemes. -/
theorem covers_of_mem (hx : x ∈ d.nodes) : Covers d.lexemes x.tree := by
  have hall : x.tree.Each (Covers d.lexemes) :=
    Location.walk_induction (P := fun x => x.tree.Each (Covers d.lexemes)) hd.covers
      (fun p hp y hy => hp.child (Location.tree_mem_of_mem_children hy)) hx
  exact hall.self

/-- Every node but the root is delimited by lexemes, or a point where one begins. -/
theorem delimited_or_point (hx : x ∈ d.nodes) (hne : x ≠ d.root) :
    x.span.Delimited d.lexemes ∨ ∃ t ∈ d.lexemes, x.span = .point t.start := by
  obtain ⟨p, hp, hxp⟩ := exists_parent_of_ne hx hne
  have hcovers := hd.covers_of_mem hp
  have hmem := Location.tree_mem_of_mem_children hxp
  by_cases he : IsEmptyBody p.tree x.tree
  · obtain ⟨t, ht, -, hpoint, -⟩ := hcovers.emptyBody _ hmem he
    exact .inr ⟨t, ht, hpoint⟩
  · exact .inl (hcovers.delimited _ hmem he)

/-- Every node but the root begins and ends between characters, and does not end before it
    begins. -/
theorem span_boundary (hx : x ∈ d.nodes) (hne : x ≠ d.root) :
    IsBoundary d.source x.span.start ∧ IsBoundary d.source x.span.stop ∧
      x.span.start ≤ x.span.stop := by
  obtain ⟨⟨t, ht, ht'⟩, ⟨u, hu, hu'⟩, hlt⟩ | ⟨t, ht, hpoint⟩ := hd.delimited_or_point hx hne
  · exact ⟨ht' ▸ (hd.boundaries t ht).1, hu' ▸ (hd.boundaries u hu).2, Nat.le_of_lt hlt⟩
  · rw [hpoint]
    exact ⟨(hd.boundaries t ht).1, (hd.boundaries t ht).1, Nat.le_refl _⟩

/-- The children of a node lie inside it. -/
theorem span_of_mem_children (hx : x ∈ d.nodes) (hy : y ∈ x.children) :
    x.span.start ≤ y.span.start ∧ y.span.stop ≤ x.span.stop :=
  (hd.covers_of_mem hx).inside.of_mem (Location.tree_mem_of_mem_children hy)

/-- What is in a lambda lies strictly inside it. -/
theorem span_lt_of_lambda (hx : x ∈ d.nodes) (hk : x.kind = .lambda) (hy : y ∈ x.children)
    (hz : z ∈ y.children) : x.span.start < z.span.start ∧ z.span.stop < x.span.stop :=
  (hd.covers_of_mem hx).strict hk _ (Location.tree_mem_of_mem_children hy) _
    (Location.tree_mem_of_mem_children hz)

theorem child_ne_root (hy : y ∈ x.children) : y ≠ d.root := by
  rintro rfl
  obtain ⟨t, -, heq⟩ := Location.mem_children.1 hy
  have habove := congrArg Location.above heq
  rw [hd.above] at habove
  cases habove

/-- What lies below a node lies inside it. -/
theorem span_of_mem_walk (hx : x ∈ d.nodes) (hy : y ∈ x.walk) :
    x.span.start ≤ y.span.start ∧ y.span.stop ≤ x.span.stop := by
  have hinv : y ∈ d.nodes ∧ x.span.start ≤ y.span.start ∧ y.span.stop ≤ x.span.stop := by
    refine Location.walk_induction (P := fun y => y ∈ d.nodes ∧
      x.span.start ≤ y.span.start ∧ y.span.stop ≤ x.span.stop) ?_ ?_ hy
    · exact ⟨hx, Nat.le_refl _, Nat.le_refl _⟩
    · intro p ⟨hp, hlo, hhi⟩ c hc
      obtain ⟨hlo', hhi'⟩ := hd.span_of_mem_children hp hc
      exact ⟨Location.mem_walk_of_mem_children hp hc, Nat.le_trans hlo hlo',
        Nat.le_trans hhi' hhi⟩
  exact hinv.2

/-- What lies below a node of one line is of one line. -/
theorem isOneLine_of_mem_walk (hx : x ∈ d.nodes) (hne : x ≠ d.root) (hy : y ∈ x.walk)
    (h : d.isOneLine x) : d.isOneLine y := by
  -- The text below is part of the text above, with all its line breaks.
  obtain ⟨hlo, hhi⟩ := hd.span_of_mem_walk hx hy
  have hyne : y ≠ d.root := by
    obtain rfl | ⟨p, -, hp⟩ := Location.exists_parent_of_mem_walk hy
    · exact hne
    · exact hd.child_ne_root hp
  obtain ⟨hstart, hstop, -⟩ := hd.span_boundary hx hne
  obtain ⟨hstart', hstop', hle⟩ := hd.span_boundary (Location.mem_walk_trans hy hx) hyne
  have hslice : d.text y <:+: d.text x := slice_infix hstart hstart' hstop' hstop hlo hle hhi
  simp only [Document.isOneLine, Bool.not_eq_true', List.contains_eq_mem, decide_eq_false_iff_not]
    at h ⊢
  exact fun hmem => h (hslice.subset hmem)

end Document.Regular

end ResultHints
