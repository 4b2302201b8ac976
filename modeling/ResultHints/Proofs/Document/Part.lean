import ResultHints.Proofs.Document.Children
import ResultHints.Proofs.Document.Join
import ResultHints.Proofs.Document.Trivia
import ResultHints.Proofs.Syntax.Relabel
import ResultHints.Proofs.Tree.Graft

/-!
# Parts of documents

A document is a *part* of another one if the trees below its root stand below the root of
the other as well, with other labels: at other places and with other ids
(`Document.Part`). What is known of its nodes is known of the nodes of the other one in their
place (`Document.inside`). Main statements:

- `Joins.left` and `Joins.right`: the documents of two texts are parts of the document of both.
-/

namespace ResultHints

open Location

/-- The trees below the root of `d'` stand below that of `d` as well, with other labels; and there
    are line breaks in the text of the same nodes, and right before the base of the same labels and
    annotations. -/
structure Document.Part (f : Relabeling) (d' d : Document) : Prop where
  children : ∀ t ∈ d'.root.tree.children, t.map f.node ∈ d.root.tree.children
  oneLine : ∀ x ∈ d'.nodes, x ≠ d'.root →
    ('\n' ∈ slice d.source (f.node x.label).span ↔ '\n' ∈ slice d'.source x.span)
  beginsLine : ∀ x ∈ d'.nodes, ∀ y, x.base? = some y →
    (d.triviaBefore? (f.place y.span.start)).any (·.isBlankBreak) =
      (d'.triviaBefore? y.span.start).any (·.isBlankBreak)

/-- The place in the document `d` that a place in a part of it has. -/
def Document.inside (f : Relabeling) (d : Document) (x : Place) : Place :=
  x.graft f.node d.root.tree

/-- Labels further behind in a text and after other nodes. -/
def Relabeling.shift (offset ids : Nat) : Relabeling where
  kind a := a.kind
  place := (· + offset)
  number := (· + ids)
  untyped_kind _ := rfl
  number_injective _ _ := Nat.add_right_cancel

/-! ## Two texts -/

namespace Document.Joins

variable {first second : List Char} {d₁ d₂ d : Document}

/-- The document of the first text is a part of the document of both. -/
theorem left (h : d₁.Joins d₂ d) (h₁ : Document.parse first = .ok d₁)
    (hboth : Document.parse (first ++ '\n' :: second) = .ok d) : Part (.shift 0 0) d₁ d where
  children t ht := by
    have hmap : t.map (Relabeling.shift 0 0).node = t := Tree.map_id t
    rw [h.children, hmap]
    exact List.mem_append_left _ ht
  oneLine x hx hne := by
    obtain ⟨hstart, hstop, hle⟩ := (regular_of_parse h₁).span_boundary hx hne
    have hslice := slice_append_right hstart hstop hle ('\n' :: d₂.source)
    rw [h.source]
    exact iff_of_eq (congrArg (_ ∈ ·) hslice)
  beginsLine x hx y hy := by
    have hd₁ := regular_of_parse h₁
    have hchild := mem_children_of_base? hy
    obtain ⟨w, hw, hk, hstart⟩ :=
      hd₁.exists_start (mem_walk_of_mem_children hx hchild) (hd₁.child_ne_root hchild)
    obtain ⟨pre, post, post', hts, hboth'⟩ := h.tokens.split_left hw hk
    have hsame : d.triviaBefore? y.span.start = d₁.triviaBefore? y.span.start := by
      rw [← hstart, triviaBefore?_start (tiling_of_parse hboth) hboth',
        triviaBefore?_start (tiling_of_parse h₁) hts]
    exact congrArg (Option.any _) hsame

/-- The document of the second text is a part of the document of both. -/
theorem right (h : d₁.Joins d₂ d) (h₁ : Document.parse first = .ok d₁)
    (h₂ : Document.parse second = .ok d₂)
    (hboth : Document.parse (first ++ '\n' :: second) = .ok d) :
    Part (.shift (byteLength first + 1) d₁.root.id) d₂ d where
  children t ht := by
    rw [h.children, source_of_parse h₁]
    exact List.mem_append_right _ (List.mem_map_of_mem ht)
  oneLine x hx hne := by
    have hshift := slice_shift (first ++ ['\n']) second x.span
    rw [byteLength_append, List.append_assoc] at hshift
    rw [source_of_parse hboth, source_of_parse h₂]
    exact iff_of_eq (congrArg (_ ∈ ·) hshift)
  beginsLine x hx y hy := by
    have hd₂ := regular_of_parse h₂
    have htiling := tiling_of_parse h₂
    have hchild := mem_children_of_base? hy
    have hne : x ≠ d₂.root := by
      rintro rfl
      simp [base?, hd₂.isFile] at hy
    -- The label or the annotations are in the second text too, before the base.
    obtain ⟨v, hv, hkv, hvx⟩ := hd₂.exists_start hx hne
    obtain ⟨w, hw, hkw, hwy⟩ :=
      hd₂.exists_start (mem_walk_of_mem_children hx hchild) (hd₂.child_ne_root hchild)
    have hlt : v.start < w.start := by
      rw [hvx, hwy]
      exact hd₂.start_lt_of_base? hx hy
    obtain ⟨lead, front, pre, post, hpre, hus, hboth'⟩ :=
      h.tokens.split_right htiling.starts hv hkv hw hkw hlt
    rw [List.map_append, List.map_cons, ← List.append_assoc] at hboth'
    rw [← List.append_assoc] at hus
    have hthere := triviaBefore?_start (tiling_of_parse hboth) hboth'
    rw [Token.shift_start, source_of_parse h₁] at hthere
    have hsame : d.triviaBefore? (y.span.start + (byteLength first + 1)) =
        d₂.triviaBefore? y.span.start := by
      rw [← hwy, hthere, triviaBefore?_start htiling hus,
        List.getLast?_append_of_ne_nil _ (by simpa using hpre),
        List.getLast?_append_of_ne_nil _ hpre, List.getLast?_map, Option.bind_map]
      rfl
    exact congrArg (Option.any _) hsame

end Document.Joins

/-! ## Nodes of a part -/

theorem Document.Regular.above_ne_nil {d : Document} {x : Place} (hx : x ∈ d.nodes)
    (hne : x ≠ d.root) : x.above ≠ [] := by
  obtain ⟨p, -, hxp⟩ := exists_parent_of_ne hx hne
  exact Location.above_ne_nil hxp

namespace Document

variable {f : Relabeling} {d' d : Document} {x y : Place}

theorem label_inside (h : x.above ≠ []) : (d.inside f x).label = f.node x.label := label_graft h

theorem kind_inside_of_above (h : x.above ≠ []) : (d.inside f x).kind = x.kind ∨
    ∃ s s', x.kind = .typeReference s ∧ (d.inside f x).kind = .typeReference s' := by
  rw [kind, label_inside h]
  exact f.kind_node x.label

/-- What does not look at the texts of types is the same of a node and that in its place. -/
theorem apply_kind_inside_of_above {β : Type} {F : NodeKind → β}
    (hF : ∀ s s', F (.typeReference s) = F (.typeReference s')) (h : x.above ≠ []) :
    F (d.inside f x).kind = F x.kind := by
  rw [kind, label_inside h]
  exact f.apply_kind hF x.label

theorem kind_inside_eq_iff {k : NodeKind} (hk : ∀ s, k ≠ .typeReference s) (h : x.above ≠ []) :
    (d.inside f x).kind = k ↔ x.kind = k := by
  obtain he | ⟨s, s', he, he'⟩ := kind_inside_of_above (f := f) (d := d) h
  · rw [he]
  · rw [he, he']
    exact iff_of_false (hk s').symm (hk s).symm

theorem id_inside (h : x.above ≠ []) : (d.inside f x).id = f.number x.id := by
  rw [Location.id, label_inside h]
  rfl

/-- Nodes that are the same in the part are the same. -/
theorem id_beq_inside (hx : x.above ≠ []) (hy : y.above ≠ []) :
    ((d.inside f x).id == (d.inside f y).id) = (x.id == y.id) := by
  rw [id_inside hx, id_inside hy, Bool.eq_iff_iff, beq_iff_eq, beq_iff_eq,
    f.number_injective.eq_iff]

theorem span_inside (h : x.above ≠ []) :
    (d.inside f x).span = ⟨f.place x.span.start, f.place x.span.stop⟩ := by
  rw [span, label_inside h]
  rfl

theorem children_inside (h : x.above ≠ []) :
    (d.inside f x).children = x.children.map (d.inside f) := children_graft h

/-- What is below some nodes of a part is there below the nodes in their place. -/
theorem flatMap_walk_inside {xs : List Place} (h : ∀ x ∈ xs, x.above ≠ []) :
    (xs.map (d.inside f)).flatMap walk = (xs.flatMap walk).map (d.inside f) :=
  flatMap_walk_graft h

theorem map_inside_children (hd' : d'.Regular) : d'.root.children.map (d.inside f) =
    (d'.root.tree.children.map (Tree.map (f.node))).map
      fun t => ⟨t, [d.root.tree]⟩ := map_graft_children hd'.above

theorem parent?_inside (x : Place) :
    (d.inside f x).parent? = x.parent?.map (d.inside f) := parent?_graft x

/-- The roots are files. -/
theorem kind_inside (hd' : d'.Regular) (hd : d.root.kind = .file) (hx : x ∈ d'.nodes) :
    (d.inside f x).kind = x.kind ∨
      ∃ s s', x.kind = .typeReference s ∧ (d.inside f x).kind = .typeReference s' := by
  by_cases hne : x = d'.root
  · obtain rfl := hne
    rw [inside, graft_of_above_eq_nil hd'.above, hd'.isFile]
    exact .inl hd
  · exact kind_inside_of_above (Regular.above_ne_nil hx hne)

theorem apply_kind_inside {β : Type} {F : NodeKind → β}
    (hF : ∀ s s', F (.typeReference s) = F (.typeReference s')) (hd' : d'.Regular)
    (hd : d.root.kind = .file) (hx : x ∈ d'.nodes) : F (d.inside f x).kind = F x.kind := by
  obtain he | ⟨s, s', he, he'⟩ := kind_inside (f := f) hd' hd hx
  · rw [he]
  · rw [he, he', hF]

theorem nearest?_inside {k : NodeKind} (hk : ∀ s, k ≠ .typeReference s) (hd' : d'.Regular)
    (hd : d.root.kind = .file) (hx : x ∈ d'.nodes) :
    (d.inside f x).nearest? (fun n => n.kind == k) =
      (x.nearest? fun n => n.kind == k).map (d.inside f) := by
  have hF : ∀ s s', (NodeKind.typeReference s == k) = (NodeKind.typeReference s' == k) := by
    intro s s'
    rw [beq_eq_false_iff_ne.2 (hk s).symm, beq_eq_false_iff_ne.2 (hk s').symm]
  exact nearest?_graft fun _ hz =>
    apply_kind_inside (F := (· == k)) hF hd' hd (hd'.mem_of_mem_ancestors hx hz)

namespace Part

variable (h : Part f d' d)

include h

theorem mem_nodes (hd' : d'.Regular) (hd : d.Regular) (hx : x ∈ d'.nodes) :
    d.inside f x ∈ d.nodes := by
  have hroot : d.root = ⟨d.root.tree, []⟩ := by
    rw [← hd.above]
  rw [nodes, hroot]
  exact graft_mem_walk hd'.above h.children hx

theorem isOneLine_inside (hx : x ∈ d'.nodes) (hne : x ≠ d'.root) :
    d.isOneLine (d.inside f x) = d'.isOneLine x := by
  have hbreak := h.oneLine x hx hne
  rw [isOneLine, isOneLine, Document.text, Document.text, span,
    label_inside (Regular.above_ne_nil hx hne), Bool.eq_iff_iff]
  simpa using not_congr hbreak

end Part

end Document

end ResultHints
