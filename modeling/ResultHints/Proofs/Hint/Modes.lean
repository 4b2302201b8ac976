import ResultHints.Proofs.Document.Builder
import ResultHints.Proofs.Hint.Own
import ResultHints.Settings

/-!
# Modes of analysis

An analysis of the literals around a node and one of all literals of its tree tell the same
of the node, whatever the shape of the tree; for what a literal has among its results lies
below it. So the hints of a text are the same in both modes. Main statement:

- `modes_agree`: what the modes have to do with each other, and that the hints of a text are
  the same whichever is set.
-/

namespace ResultHints

open Location

variable {d : Document} {mode mode' : ResolveMode} {x y : Place}

/-- Under the same top, an analysis of the whole tree tells of a node what an analysis of what is
    around the node does. -/
theorem get?_factsOf_agree (hd : d.HasDistinctIds) (hy : y ∈ d.places) (htop : x.top = y.top) :
    (factsOf x .everything).get? y.id = some true ↔
      (factsOf y .enclosing).get? y.id = some true := by
  rw [get?_factsOf_everything hd hy htop, get?_factsOf_enclosing hd hy]

namespace Document

/-- All modes that tell of results give a node the same hint. -/
theorem ownHint?_eq (hd : d.Regular) (hx : x ∈ d.nodes) (h : mode.includesFlow)
    (h' : mode'.includesFlow) : d.ownHint? mode x = d.ownHint? mode' x := by
  refine Option.ext fun hint => ?_
  rw [ownHint?_eq_some_iff hd hx, ownHint?_eq_some_iff hd hx, h, h']

/-- All modes that tell of results give the same hints. -/
theorem hints_eq_hints (hd : d.Regular) (h : mode.includesFlow) (h' : mode'.includesFlow)
    (range : Option Span) : d.hints mode range = d.hints mode' range := by
  rw [hints_eq hd, hints_eq hd]
  congr 1
  refine List.filterMap_congr fun x hx => ownHint?_eq hd ?_ h h'
  exact placesIn_subset range _ _ (List.mem_filter.1 hx).1

end Document

theorem analyzeSource_eq (enabled : Bool) (range : Option Span) (source : List Char) :
    analyzeSource ⟨enabled, .everything⟩ range source =
      analyzeSource ⟨enabled, .enclosing⟩ range source := by
  cases enabled with
  | false => rfl
  | true =>
    cases hparse : Document.parse source with
    | error fault =>
      simp [analyzeSource, hparse, Settings.validate, ResolveMode.includesFlow, Except.mapError,
        bind, Except.bind]
    | ok d =>
      have hhints : d.hints .everything range = d.hints .enclosing range :=
        Document.hints_eq_hints (regular_of_parse hparse) rfl rfl range
      simp [analyzeSource, hparse, Settings.validate, ResolveMode.includesFlow, Except.mapError,
        bind, Except.bind, hhints]

/-- In any document that is built, and whatever was analyzed before: of a node under the same
    top, an analysis of all of the tree tells that it is a result if an analysis of what is around
    that node does; all that an analysis of what is around a node tells, an analysis of all of its
    tree tells too; and an analysis of declarations tells nothing. So the hints of a text are the
    same whether all of it is analyzed or what is around each node. -/
theorem modes_agree :
    (∀ {b : Builder}, b.Built → ∀ {source : List Char} {tokens : Array Token} {root : NodeId}
      {d : Document}, b.finish? source tokens root = some d →
      ∀ {x y : Place}, x ∈ d.places → y ∈ d.places → x.top = y.top →
      ∀ {a a' : Analyzer}, a.Reached d → a'.Reached d →
        ((Analyzer.analyze x .everything a).1.facts.get? y.id = some true ↔
          (Analyzer.analyze y .enclosing a').1.facts.get? y.id = some true) ∧
        (∀ i v, (Analyzer.analyze x .enclosing a).1.facts.get? i = some v →
          (Analyzer.analyze x .everything a').1.facts.get? i = some v) ∧
        (Analyzer.analyze x .declarations a).1.facts = .empty) ∧
    ∀ (enabled : Bool) (range : Option Span) (source : List Char),
      analyzeSource ⟨enabled, .everything⟩ range source =
        analyzeSource ⟨enabled, .enclosing⟩ range source := by
  refine ⟨?_, analyzeSource_eq⟩
  intro b hb source tokens root d hfinish x y hx hy htop a a' ha ha'
  have hd := hb.hasDistinctIds hfinish
  rw [ha.facts_analyze hd hx, ha.facts_analyze hd hx, ha.facts_analyze hd hx,
    ha'.facts_analyze hd hx, ha'.facts_analyze hd hy]
  exact ⟨get?_factsOf_agree hd hy htop, fun _ _ => get?_factsOf_mono hx, rfl⟩

/-- In a function literal over a block with one name, an analysis from the literal tells that the
    name is a result. -/
theorem modes_agree_of_name : ∃ b : Builder, b.Built ∧ ∃ d, b.finish? [] #[] 2 = some d ∧
    ∃ x ∈ d.places, ∃ y ∈ d.places, y.kind = .nameReference "a" ∧ x.kind = .functionLiteral ∧
      (Analyzer.analyze x .everything .empty).1.facts.get? y.id = some true := by
  let name : Tree Node := .node ⟨⟨.nameReference "a", ⟨1, 2⟩⟩, 0⟩ []
  let block : Tree Node := .node ⟨⟨.block, ⟨1, 2⟩⟩, 1⟩ [name]
  let literal : Tree Node := .node ⟨⟨.functionLiteral, ⟨0, 3⟩⟩, 2⟩ [block]
  have hblock : (Builder.mk [block] 2).Built :=
    (Builder.Built.empty.leaf ⟨.nameReference "a", ⟨1, 2⟩⟩).over (t := name) ⟨.block, ⟨1, 2⟩⟩
      List.mem_cons_self
  have hliteral : (Builder.mk [literal] 3).Built :=
    hblock.over (t := block) ⟨.functionLiteral, ⟨0, 3⟩⟩ List.mem_cons_self
  let d : Document := ⟨[], #[], [literal], 3, ⟨literal, []⟩⟩
  have hfinish : (Builder.mk [literal] 3).finish? [] #[] 2 = some d := rfl
  have hx : (⟨literal, []⟩ : Place) ∈ d.places := List.mem_cons_self
  have hy : (⟨name, [block, literal]⟩ : Place) ∈ d.places :=
    List.mem_cons_of_mem _ (List.mem_cons_of_mem _ List.mem_cons_self)
  obtain ⟨⟨-, hagree⟩, -⟩ := modes_agree.1 hliteral hfinish hx hy rfl .empty .empty
  exact ⟨_, hliteral, d, hfinish, _, hx, _, hy, rfl, rfl, hagree (by decide)⟩

end ResultHints
