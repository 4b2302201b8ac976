import ResultHints.Proofs.Hint.Part

/-!
# Hints of two texts

Statements of a file do not depend on each other: where two texts are joined, the hints of
the file are those of both (`Joins.hints_eq`). Main statement:

- `analyzeSource_join`: the hints of two texts with a semicolon on a line of its own between
  them are those of the first and, further behind, those of the second.
-/

namespace ResultHints

open Location

/-- The hint, further behind in a text and about a lambda after other nodes. -/
def Hint.shift (offset ids : Nat) (h : Hint) : Hint :=
  ⟨h.display, h.anchor + offset, h.scope + ids⟩

theorem Hint.shift_shift (m n i j : Nat) :
    Hint.shift m i ∘ Hint.shift n j = Hint.shift (n + m) (j + i) := by
  funext h
  simp only [Function.comp_apply, shift, Nat.add_assoc]

namespace Document

variable {first second : List Char} {d₁ d₂ d : Document}

namespace Joins

variable (h : d₁.Joins d₂ d)

include h

/-- The nodes below the root are those of both texts. -/
theorem descendants_eq (hd₁ : d₁.Regular) (hd₂ : d₂.Regular) (hd : d.Regular) :
    d.root.descendants = d₁.root.descendants.map (d.inside (.shift 0 0)) ++
      d₂.root.descendants.map (d.inside (.shift (byteLength d₁.source + 1) d₁.root.id)) := by
  have hfirst : d₁.root.tree.children.map (Tree.map (Relabeling.shift 0 0).node) =
      d₁.root.tree.children :=
    (List.map_congr_left fun t _ => Tree.map_id t).trans (List.map_id' _)
  have hchildren : d.root.children = d₁.root.children.map (d.inside (.shift 0 0)) ++
      d₂.root.children.map (d.inside (.shift (byteLength d₁.source + 1) d₁.root.id)) := by
    have hjoined : d.root.tree.children = d₁.root.tree.children ++ d₂.root.tree.children.map
        (Tree.map (Relabeling.shift (byteLength d₁.source + 1) d₁.root.id).node) := h.children
    rw [map_inside_children hd₁, map_inside_children hd₂, hfirst, ← List.map_append, ← hjoined,
      Location.children, hd.above]
  rw [descendants_eq_flatMap, hchildren, List.flatMap_append,
    flatMap_walk_inside fun x hx => Location.above_ne_nil hx,
    flatMap_walk_inside fun x hx => Location.above_ne_nil hx, descendants_eq_flatMap,
    descendants_eq_flatMap]

/-- The hints of two texts are those of the first and, further behind, those of the second. -/
theorem hints_eq (h₁ : Document.parse first = .ok d₁) (h₂ : Document.parse second = .ok d₂)
    (hboth : Document.parse (first ++ '\n' :: second) = .ok d) (mode : ResolveMode) :
    d.hints mode none = d₁.hints mode none ++
      (d₂.hints mode none).map (Hint.shift (byteLength first + 1) d₁.root.id) := by
  have hd₁ := regular_of_parse h₁
  have hd₂ := regular_of_parse h₂
  have hd := regular_of_parse hboth
  have hsource := source_of_parse h₁
  have hbelow : d.hintsBelow mode = d₁.hintsBelow mode ++
      (d₂.hintsBelow mode).map (Hint.shift (byteLength first + 1) d₁.root.id) := by
    rw [hintsBelow, h.descendants_eq hd₁ hd₂ hd, List.filterMap_append,
      (h.left h₁ hboth).filterMap_ownHint? hd₁ hd, hsource,
      (h.right h₁ h₂ hboth).filterMap_ownHint? hd₂ hd]
    exact congrArg (· ++ _) (List.map_id' _)
  rw [hints_eq_hintsBelow hd, hints_eq_hintsBelow hd₁, hints_eq_hintsBelow hd₂, hbelow,
    mergeSort_append Hint.le_trans Hint.le_total, List.map_mergeSort]
  · intro a _ b _
    simp [Hint.le, Hint.shift]
  · -- The first text ends before the second begins.
    intro a ha b hb
    obtain ⟨b, -, rfl⟩ := List.mem_map.1 hb
    have hle := anchor_le_of_mem_hintsBelow hd₁ ha
    rw [hsource] at hle
    refine decide_eq_true (?_ : a.anchor ≤ b.anchor + (byteLength first + 1))
    omega

end Joins

end Document

/-- Between two texts, the second without directives, a semicolon on a line of its own keeps their
    hints apart. -/
theorem exists_hints_semicolon {first second : List Char} {d₁ d₂ : Document}
    (h₁ : Document.parse first = .ok d₁) (h₂ : Document.parse second = .ok d₂)
    (hno : ∀ x ∈ d₂.root.children, ¬x.kind.isDirective) (mode : ResolveMode) :
    ∃ d ids, Document.parse (first ++ '\n' :: ';' :: '\n' :: second) = .ok d ∧
      d.hints mode none =
        d₁.hints mode none ++ (d₂.hints mode none).map (Hint.shift (byteLength first + 3) ids) := by
  obtain ⟨d₀, d', h₀, hnone, h', hjoins', hno', hsemi⟩ := joins_semicolon h₂ hno
  obtain ⟨d, h, hjoins⟩ := joins_of_parse h₁ h' hno' (.inl hsemi)
  have hempty : d₀.hints mode none = [] := by
    have hchildren : d₀.root.children = [] := List.map_eq_nil_iff.2 hnone
    rw [Document.hints_eq_hintsBelow (regular_of_parse h₀), Document.hintsBelow,
      descendants_eq_flatMap, hchildren, List.flatMap_nil, List.filterMap_nil, List.mergeSort_nil]
  have hsecond := hjoins'.hints_eq h₀ h₂ h' mode
  rw [hempty, List.nil_append] at hsecond
  have hbytes : byteLength [';'] + 1 + (byteLength first + 1) = byteLength first + 3 := by
    rw [show byteLength [';'] = 1 from rfl]
    omega
  refine ⟨d, d₀.root.id + d₁.root.id, h, ?_⟩
  rw [hjoins.hints_eq h₁ h' h mode, hsecond, List.map_map, Hint.shift_shift, hbytes]

/-- Of two texts, the second without directives, with a semicolon on a line of its own between
    them, the hints are those of the first and then those of the second, shown as far behind as
    the second is. -/
theorem analyzeSource_join {settings : Settings} {first second : List Char} {d₁ d₂ : Document}
    (henabled : settings.enabled) (hvalid : settings.validate = .ok settings)
    (h₁ : Document.parse first = .ok d₁) (h₂ : Document.parse second = .ok d₂)
    (hno : ∀ x ∈ d₂.nodes, ¬x.kind.isDirective) :
    ∃ hints₁ hints₂ hints, analyzeSource settings none first = .ok hints₁ ∧
      analyzeSource settings none second = .ok hints₂ ∧
      analyzeSource settings none (first ++ "\n;\n".toList ++ second) = .ok hints ∧
      hints.map (fun h => (h.display, h.anchor)) =
        hints₁.map (fun h => (h.display, h.anchor)) ++
          hints₂.map fun h => (h.display, h.anchor + (byteLength first + 3)) := by
  have hno₂ : ∀ x ∈ d₂.root.children, ¬x.kind.isDirective := fun x hx =>
    hno x (mem_walk_of_mem_children (self_mem_walk _) hx)
  obtain ⟨d, ids, h, hhints⟩ := exists_hints_semicolon h₁ h₂ hno₂ settings.mode
  refine ⟨_, _, _, analyzeSource_eq_ok henabled hvalid h₁ none,
    analyzeSource_eq_ok henabled hvalid h₂ none,
    analyzeSource_eq_ok henabled hvalid (by rwa [List.append_assoc]) none, ?_⟩
  rw [hhints, List.map_append, List.map_map]
  rfl

/-- Between `f{a;b}` and `g{c;d}`, a semicolon on a line of its own leaves both their hints. -/
theorem analyzeSource_join_of_lambdas : ∃ hints,
    analyzeSource ⟨true, .enclosing⟩ none "f{a;b}\n;\ng{c;d}".toList = .ok hints ∧
      hints.map (fun h => (h.display, h.anchor)) = [("^f", 5), ("^g", 14)] := by
  have hparse₁ : (Document.parse "f{a;b}".toList).toOption.any (fun _ => true) = true := by
    decide +kernel
  have hparse₂ : (Document.parse "g{c;d}".toList).toOption.any (fun d =>
      d.nodes.all fun x => !x.kind.isDirective) = true := by
    decide +kernel
  obtain ⟨d₁, h₁, -⟩ := exists_of_parse_any hparse₁
  obtain ⟨d₂, h₂, hp⟩ := exists_of_parse_any hparse₂
  have hno : ∀ x ∈ d₂.nodes, ¬x.kind.isDirective := fun x hx => by
    simpa using List.all_eq_true.1 hp x hx
  obtain ⟨hints₁, hints₂, hints, hfirst, hsecond, hboth, hjoined⟩ :=
    @analyzeSource_join ⟨true, .enclosing⟩ _ _ _ _ rfl rfl h₁ h₂ hno
  have hshown₁ : (analyzeSource ⟨true, .enclosing⟩ none "f{a;b}".toList).toOption.map
      (List.map fun h => (h.display, h.anchor)) = some [("^f", 5)] := by
    decide +kernel
  have hshown₂ : (analyzeSource ⟨true, .enclosing⟩ none "g{c;d}".toList).toOption.map
      (List.map fun h => (h.display, h.anchor + (byteLength "f{a;b}".toList + 3))) =
        some [("^g", 14)] := by
    decide +kernel
  rw [hfirst] at hshown₁
  rw [hsecond] at hshown₂
  exact ⟨hints, hboth, by rw [hjoined, Option.some.inj hshown₁, Option.some.inj hshown₂]; rfl⟩

end ResultHints
