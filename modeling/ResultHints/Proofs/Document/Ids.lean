import ResultHints.Proofs.Document.Regular

/-!
# The ids of the nodes of a document

Where no two nodes share an id (`Document.HasDistinctIds`), the links between nodes may
be told by ids. The nodes of a source text are numbered as they are made, and none that is
made gets lost. Main statement:

- `postorder_of_readAfter`: some expressions and a file after them are trees numbered in
  postorder one after the other, with just the ids below the number of nodes made.
-/

namespace ResultHints

namespace Document

/-- No two nodes of the document have the same id. -/
def HasDistinctIds (d : Document) : Prop := (d.places.map (·.id)).Nodup

namespace HasDistinctIds

variable {d : Document} (h : d.HasDistinctIds) {x y p : Place}

include h

theorem eq_of_id_eq (hx : x ∈ d.places) (hy : y ∈ d.places) (heq : x.id = y.id) : x = y :=
  List.inj_on_of_nodup_map h hx hy heq

/-- Links down, told by ids. -/
theorem id_mem_children (hx : x ∈ d.places) (hp : p ∈ d.places) :
    x.id ∈ p.children.map (·.id) ↔ x ∈ p.children := by
  refine ⟨fun hmem => ?_, List.mem_map_of_mem⟩
  obtain ⟨c, hc, heq⟩ := List.mem_map.1 hmem
  rwa [← h.eq_of_id_eq (Location.mem_allIn_nil_of_mem_children hp hc) hx heq]

/-- Links up and links down are the same, told by ids. -/
theorem parent?_id (hx : x ∈ d.places) (hp : p ∈ d.places) :
    x.parent?.map (·.id) = some p.id ↔ x.id ∈ p.children.map (·.id) := by
  rw [h.id_mem_children hx hp, Option.map_eq_some_iff]
  constructor
  · rintro ⟨q, hq, heq⟩
    obtain ⟨hmem, hxq⟩ := (Location.parent?_eq_some_iff hx).1 hq
    rwa [← h.eq_of_id_eq hmem hp heq]
  · exact fun hxp => ⟨p, Location.parent?_of_mem_children hxp, rfl⟩

/-- No node is linked twice from the same node. -/
theorem nodup_children (hp : p ∈ d.places) : (p.children.map (·.id)).Nodup := by
  have hsub : p.children.Sublist p.walk := by
    rw [Location.walk_eq]
    exact p.children_sublist_descendants.cons p
  exact h.sublist ((hsub.trans (Location.walk_sublist_allIn_nil hp)).map _)

/-- The nodes at the top are just those whose ids the roots of the trees have. -/
theorem parent?_eq_none_iff_id (hx : x ∈ d.places) :
    x.parent? = none ↔ x.id ∈ d.trees.map (·.label.id) := by
  rw [Location.parent?_eq_none_iff hx, List.mem_map]
  constructor
  · rintro ⟨t, ht, rfl⟩
    exact ⟨t, ht, rfl⟩
  · rintro ⟨t, ht, heq⟩
    have hmem : (⟨t, []⟩ : Place) ∈ d.places :=
      Location.mem_allIn_nil.2 ⟨t, ht, Location.self_mem_walk _⟩
    exact ⟨t, ht, (h.eq_of_id_eq hmem hx heq).symm⟩

/-- Every node that is not at the top has exactly one parent. -/
theorem existsUnique_parent (hx : x ∈ d.places) (hne : x.parent? ≠ none) :
    ∃! p, p ∈ d.places ∧ x.id ∈ p.children.map (·.id) := by
  obtain ⟨p, hparent⟩ := Option.ne_none_iff_exists'.1 hne
  obtain ⟨hp, hxp⟩ := (Location.parent?_eq_some_iff hx).1 hparent
  refine ⟨p, ⟨hp, List.mem_map_of_mem hxp⟩, fun q ⟨hq, hxq⟩ => ?_⟩
  rw [h.id_mem_children hx hq] at hxq
  exact Option.some.inj ((Location.parent?_of_mem_children hxq).symm.trans hparent)

end HasDistinctIds

namespace Regular

variable {d : Document} (hd : d.Regular) {x : Place}

include hd

/-- A regular document has no nodes but those from the root down. -/
theorem places_eq_nodes : d.places = d.nodes := by
  have hroot : (⟨d.root.tree, []⟩ : Place) = d.root := by
    rw [← hd.above]
  rw [places, hd.trees, Location.allIn_eq_flatMap, List.flatMap_singleton, nodes, ← hroot]
  rfl

theorem hasDistinctIds : d.HasDistinctIds := by
  rw [HasDistinctIds, hd.places_eq_nodes]
  have hids := hd.ids
  rw [← Location.map_label_walk, List.map_map] at hids
  exact hids

theorem mem_places (hx : x ∈ d.nodes) : x ∈ d.places := hd.places_eq_nodes ▸ hx

end Regular

end Document

/-! ## Documents that are read -/

theorem Numbered.places_perm {d : Document} (h : Numbered 0 d.trees d.size) :
    (d.places.map (·.id)).Perm (List.range d.size) := by
  have hids : (d.places.map (·.id)) = (Tree.preorderAll d.trees).map (·.id) := by
    rw [← Location.map_label_allIn_nil, List.map_map]
    rfl
  have hsize : d.size = Tree.sizeAll d.trees := by
    rw [h.next, Nat.zero_add]
  rw [hids, hsize, List.range_eq_range', ← h.ids]
  exact (Tree.postorderAll_perm_preorderAll d.trees).symm.map _

theorem Numbered.hasDistinctIds {d : Document} (h : Numbered 0 d.trees d.size) :
    d.HasDistinctIds :=
  h.places_perm.nodup_iff.2 List.nodup_range

/-- Reading some expressions and a file gives their trees, numbered one after the other. -/
theorem exists_of_readAfter {count : Nat} {source : List Char} {r : Reading} {d : Document}
    (h : Document.readAfter count source = .ok r) (hd : r.outcome = .ok d) :
    ∃ leading file, d.trees = leading ++ [file] ∧ leading.length = count ∧
      r.leading = leading.map (·.label.id) ∧ d.root = ⟨file, []⟩ ∧ file.label.kind = .file ∧
      file.label.id + 1 = d.size ∧ Numbered 0 d.trees d.size := by
  rw [Document.readAfter] at h
  cases htokens : tokenize source with
  | error e => simp [htokens, bind, Except.bind] at h
  | ok tokens =>
    cases hread : expressionsThenFile count (.ofTokens source tokens) with
    | mk leading outcome =>
      simp only [htokens, hread, bind, Except.bind, pure, Except.pure, Except.ok.injEq] at h
      subst h
      cases outcome with
      | error e => cases hd
      | ok result =>
        obtain ⟨file, s'⟩ := result
        obtain rfl := Except.ok.inj hd
        obtain ⟨hlength, s₁, hnumbered, hfile⟩ := readsFile_of_expressionsThenFile hread
        refine ⟨leading, file, rfl, hlength, rfl, rfl, kind_of_readsFile hfile, ?_,
          hnumbered.append (numbered_of_readsFile hfile)⟩
        cases hfile
        rfl

/-- After `count` expressions a file was read: the trees are those of the expressions and then
    that of the file, and each has the ids that come next, in postorder. All ids that were given
    are those of nodes of the document; the links up and down are the same, and the roots of the
    trees are the only nodes without a parent. Without expressions the file is all there is. -/
theorem postorder_of_readAfter {count : Nat} {source : List Char} {r : Reading} {d : Document}
    (h : Document.readAfter count source = .ok r) (hd : r.outcome = .ok d) :
    (∃ leading file, d.trees = leading ++ [file] ∧ leading.length = count ∧
      r.leading = leading.map (·.label.id) ∧ d.root = ⟨file, []⟩ ∧ file.label.kind = .file) ∧
    d.size = Tree.sizeAll d.trees ∧
    (∀ before t after, d.trees = before ++ t :: after →
      t.postorder.map (·.id) = List.range' (Tree.sizeAll before) t.size) ∧
    d.root.id + 1 = d.size ∧
    (∀ x ∈ d.places, x.parent? = none ↔ x.id ∈ r.leading ∨ x.id = d.root.id) ∧
    (∀ x ∈ d.places, ∀ p ∈ d.places,
      x.parent?.map (·.id) = some p.id ↔ x.id ∈ p.children.map (·.id)) ∧
    (∀ p ∈ d.places, (p.children.map (·.id)).Nodup) ∧
    (count = 0 →
      (∀ x ∈ d.places, x.id ≠ d.root.id → ∃! p, p ∈ d.places ∧ x.id ∈ p.children.map (·.id)) ∧
      (d.nodes.map (·.id)).Perm (List.range d.size)) := by
  obtain ⟨leading, file, htrees, hlength, hleading, hroot, hkind, hlast, hnumbered⟩ :=
    exists_of_readAfter h hd
  have hids := hnumbered.hasDistinctIds
  have hrootid : d.root.id = file.label.id := by
    rw [hroot]
    rfl
  have hsize : d.size = Tree.sizeAll d.trees := by
    rw [hnumbered.next, Nat.zero_add]
  have hconsecutive : ∀ before t after, d.trees = before ++ t :: after →
      t.postorder.map (·.id) = List.range' (Tree.sizeAll before) t.size := by
    intro before t after hts
    rw [hts] at hnumbered
    rw [hnumbered.ids_of_append_cons, Nat.zero_add]
  have htop : ∀ x ∈ d.places, x.parent? = none ↔ x.id ∈ r.leading ∨ x.id = d.root.id := by
    intro x hx
    rw [hids.parent?_eq_none_iff_id hx, htrees, List.map_append, List.mem_append, ← hleading,
      hrootid, List.map_singleton, List.mem_singleton]
  have hfile : count = 0 →
      (∀ x ∈ d.places, x.id ≠ d.root.id → ∃! p, p ∈ d.places ∧ x.id ∈ p.children.map (·.id)) ∧
      (d.nodes.map (·.id)).Perm (List.range d.size) := by
    intro hzero
    obtain rfl := List.eq_nil_of_length_eq_zero (hlength.trans hzero)
    refine ⟨fun x hx hne => hids.existsUnique_parent hx fun hnone => ?_, ?_⟩
    · simpa [hleading, hne] using (htop x hx).1 hnone
    · have hplaces : d.nodes = d.places := by
        rw [Document.nodes, Document.places, htrees, hroot, Location.allIn_eq_flatMap]
        exact (List.flatMap_singleton _ _).symm
      rw [hplaces]
      exact hnumbered.places_perm
  exact ⟨⟨leading, file, htrees, hlength, hleading, hroot, hkind⟩, hsize, hconsecutive,
    hrootid ▸ hlast, htop, fun _ hx _ hp => hids.parent?_id hx hp,
    fun _ hp => hids.nodup_children hp, hfile⟩

/-- In `a f{b}`, with the first name read as an expression, the file has the ids from `1` on. -/
theorem postorder_of_name_before_call : ∃ r d,
    Document.readAfter 1 "a f{b}".toList = .ok r ∧ r.outcome = .ok d ∧
    r.leading.length = 1 ∧ d.size = Tree.sizeAll d.trees ∧ d.root.id + 1 = d.size := by
  have hread : ((Document.readAfter 1 "a f{b}".toList).toOption.bind
      fun r => r.outcome.toOption).isSome := by
    decide +kernel
  cases h : Document.readAfter 1 "a f{b}".toList with
  | error e =>
    rw [h] at hread
    cases hread
  | ok r =>
    cases hd : r.outcome with
    | error e =>
      rw [h] at hread
      change r.outcome.toOption.isSome at hread
      rw [hd] at hread
      cases hread
    | ok d =>
      obtain ⟨⟨leading, file, -, hlength, hleading, -⟩, hsize, -, hlast, -⟩ :=
        postorder_of_readAfter h hd
      exact ⟨r, d, rfl, hd, by rw [hleading, List.length_map, hlength], hsize, hlast⟩

end ResultHints
