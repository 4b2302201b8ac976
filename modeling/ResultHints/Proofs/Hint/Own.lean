import ResultHints.Hint.Collect
import ResultHints.Proofs.Facts.Kept
import ResultHints.Proofs.Hint.Target

/-!
# The hint of a node

Whether a node has a hint does not depend on what was analyzed before, so that one can
speak of its own hint (`Document.ownHint?`). Main statements:

- `ownHint?_eq_some_iff`: a node has a hint if nothing stands in its way, its value is
  the result of a function literal, and the lambda of this literal has a label;
- `hints_eq`: the hints of a document are the own hints of its expressions, sorted.
-/

namespace ResultHints

open Location

namespace Document

/-- The hint behind a node, when nothing was analyzed before. -/
def ownHint? (d : Document) (mode : ResolveMode) (x : Place) : Option Hint :=
  (Id.run ((d.hintAt? Oracle.analyzer mode x).run .empty)).1

variable {d : Document} {a : Analyzer} {mode : ResolveMode} {range : Option Span}
  {x y literal : Place} {xs : List Place} {h : Hint}

/-! ## One node -/

/-- What was kept before changes nothing for the hint behind a node. -/
theorem run_hintAt? (hd : d.Regular) (ha : a.Faithful d) (hx : x ∈ d.nodes) (mode : ResolveMode) :
    (Id.run ((d.hintAt? Oracle.analyzer mode x).run a)).1 =
      (if (d.obstacle? x).isSome then none
        else if (factsOf x mode).get? x.id = some true then hintOfResult? x else none) ∧
    (Id.run ((d.hintAt? Oracle.analyzer mode x).run a)).2.Faithful d := by
  obtain ⟨hfacts, hkept⟩ := Analyzer.analyze_spec hd.hasDistinctIds ha (hd.mem_places hx) mode
  unfold hintAt?
  cases (d.obstacle? x).isSome
  · have hasked : (Oracle.analyzer x mode).run a =
        pure ((Analyzer.analyze x mode a).1.facts, (Analyzer.analyze x mode a).2) := rfl
    simp only [Bool.false_eq_true, if_false, StateT.run_bind, hasked, pure_bind, hfacts]
    split
    · exact ⟨rfl, hkept⟩
    · exact ⟨rfl, hkept⟩
  · exact ⟨rfl, ha⟩

/-- A hint is about the innermost lambda, if that has a label. -/
theorem hintOfResult?_eq_some (hy : x.nearest? (fun n => n.kind == .lambda) = some y) :
    hintOfResult? x = some h ↔
      ∃ label, y.lambdaLabel? = some label ∧ h = .ofLabel label x.span.stop y.id := by
  unfold hintOfResult?
  simp only [hy, Option.bind_eq_bind, Option.bind_some]
  cases y.lambdaLabel? with
  | none => simp
  | some label => simp [eq_comm]

/-- A node has a hint if nothing stands in its way, its value is the result of a function literal,
    and the lambda of this literal has a label. -/
theorem ownHint?_eq_some_iff (hd : d.Regular) (hx : x ∈ d.nodes) : d.ownHint? mode x = some h ↔
    d.obstacle? x = none ∧ mode.includesFlow ∧ ∃ scope ∈ d.nodes, scope.kind = .lambda ∧
      x.nearest? (fun n => n.kind == .lambda) = some scope ∧
      (∃ literal ∈ scope.children, x.id ∈ literal.results) ∧
      ∃ label, scope.lambdaLabel? = some label ∧ h = .ofLabel label x.span.stop scope.id := by
  have hown : d.ownHint? mode x = some h ↔ d.obstacle? x = none ∧
      (factsOf x mode).get? x.id = some true ∧ hintOfResult? x = some h := by
    rw [ownHint?, (run_hintAt? hd Analyzer.faithful_empty hx mode).1]
    cases d.obstacle? x <;> simp
  rw [hown, get?_factsOf hd hx]
  refine and_congr_right fun _ => ?_
  constructor
  · rintro ⟨⟨hmode, y, hy, hi⟩, hhint⟩
    obtain ⟨-, scope, hscope, hk, hmem, hnearest⟩ := nearest?_of_mem_results hd hx hy hi
    exact ⟨hmode, scope, hscope, hk, hnearest, ⟨y, hmem, hi⟩,
      (hintOfResult?_eq_some hnearest).1 hhint⟩
  · rintro ⟨hmode, scope, hscope, -, hnearest, ⟨y, hmem, hi⟩, hlabel⟩
    exact ⟨⟨hmode, y, mem_walk_of_mem_children hscope hmem, hi⟩,
      (hintOfResult?_eq_some hnearest).2 hlabel⟩

/-- The nearest lambda around a result is the one with the literal that has it. -/
theorem nearest?_lambda_of_mem_results {scope : Place} (hd : d.Regular) (hx : x ∈ d.nodes)
    (hscope : scope ∈ d.nodes) (hliteral : literal ∈ scope.children) (h : x.id ∈ literal.results) :
    x.nearest? (fun n => n.kind == .lambda) = some scope := by
  obtain ⟨-, z, -, -, hz, hnearest⟩ :=
    nearest?_of_mem_results hd hx (mem_walk_of_mem_children hscope hliteral) h
  rw [hnearest, ← parent?_of_mem_children hz, parent?_of_mem_children hliteral]

/-- A target among the results of a literal has a hint, if the lambda has a label. -/
theorem ownHint?_of_mem_results {scope : Place} {label : String} (hd : d.Regular) (hx : x ∈ d.nodes)
    (hmode : mode.includesFlow) (hno : d.obstacle? x = none) (hscope : scope ∈ d.nodes)
    (hlabel : scope.lambdaLabel? = some label) (hliteral : literal ∈ scope.children)
    (hresult : x.id ∈ literal.results) :
    d.ownHint? mode x = some (.ofLabel label x.span.stop scope.id) := by
  have hnearest := nearest?_lambda_of_mem_results hd hx hscope hliteral hresult
  exact (ownHint?_eq_some_iff hd hx).2 ⟨hno, hmode, scope, hscope,
    beq_iff_eq.1 (List.find?_some hnearest :), hnearest, ⟨literal, hliteral, hresult⟩, label,
    hlabel, rfl⟩

/-! ## All nodes -/

/-- What was kept before changes nothing for the hints of some nodes. -/
theorem run_hintsOf (hd : d.Regular) (ha : a.Faithful d) (hxs : ∀ x ∈ xs, x ∈ d.nodes)
    (mode : ResolveMode) :
    (Id.run ((d.hintsOf Oracle.analyzer mode xs).run a)).1 = xs.filterMap (d.ownHint? mode) := by
  induction xs generalizing a with
  | nil => rfl
  | cons x xs ih =>
    -- The analyzer that the first node leaves is faithful again, and does for the rest.
    have hx := hxs x List.mem_cons_self
    obtain ⟨hhint, hkept⟩ := run_hintAt? hd ha hx mode
    have hown : (Id.run ((d.hintAt? Oracle.analyzer mode x).run a)).1 = d.ownHint? mode x :=
      hhint.trans (run_hintAt? hd Analyzer.faithful_empty hx mode).1.symm
    have hrest := ih hkept fun y hy => hxs y (List.mem_cons_of_mem _ hy)
    have hcons : (Id.run ((d.hintsOf Oracle.analyzer mode (x :: xs)).run a)).1 =
        (Id.run ((d.hintAt? Oracle.analyzer mode x).run a)).1.toList ++
          (Id.run ((d.hintsOf Oracle.analyzer mode xs).run
            (Id.run ((d.hintAt? Oracle.analyzer mode x).run a)).2)).1 := rfl
    rw [hcons, hrest, hown, List.filterMap_cons]
    cases d.ownHint? mode x <;> rfl

mutual
/-- The places of a tree that overlap a range are places of the tree. -/
theorem placesIn_subset (range : Option Span) (above : List (Tree Node)) (t : Tree Node) :
    placesIn range above t ⊆ all above t := by
  obtain ⟨n, ts⟩ := t
  rw [placesIn, all]
  split
  · exact List.cons_subset_cons _ (placesInAll_subset range _ ts)
  · exact List.nil_subset _

theorem placesInAll_subset (range : Option Span) (above ts : List (Tree Node)) :
    placesInAll range above ts ⊆ allIn above ts := by
  match ts with
  | [] => exact List.nil_subset _
  | t :: ts =>
    rw [placesInAll, allIn]
    intro x hx
    rw [List.mem_append] at hx ⊢
    exact hx.imp (placesIn_subset range above t ·) (placesInAll_subset range above ts ·)
end

mutual
/-- Without a range they are all of them. -/
theorem placesIn_none (above : List (Tree Node)) (t : Tree Node) :
    placesIn none above t = all above t := by
  obtain ⟨n, ts⟩ := t
  rw [placesIn, all, placesInAll_none]
  rfl

theorem placesInAll_none (above ts : List (Tree Node)) :
    placesInAll none above ts = allIn above ts := by
  match ts with
  | [] => rfl
  | t :: ts => rw [placesInAll, allIn, placesIn_none, placesInAll_none]
end

/-- The hints that an analyzer finds which may have kept facts before. -/
def hintsFrom (d : Document) (a : Analyzer) (mode : ResolveMode) (range : Option Span) :
    List Hint :=
  (Id.run ((d.collectHints Oracle.analyzer mode range).run a)).1

/-- Whatever was kept before, the hints are those that the expressions in the range have, in the
    order of the offsets. -/
theorem hintsFrom_eq (hd : d.Regular) (ha : a.Faithful d) (mode : ResolveMode)
    (range : Option Span) : d.hintsFrom a mode range =
      (((placesIn range d.root.above d.root.tree).filter fun x => x.kind.isExpression).filterMap
        (d.ownHint? mode)).mergeSort fun a b => a.anchor ≤ b.anchor := by
  have hnodes : ∀ x ∈ (placesIn range d.root.above d.root.tree).filter fun x => x.kind.isExpression,
      x ∈ d.nodes := fun x hx => placesIn_subset range _ _ (List.mem_filter.1 hx).1
  rw [← run_hintsOf hd ha hnodes mode]
  rfl

/-- The hints of a document are the hints that its expressions in the range have, in the order of
    the offsets. -/
theorem hints_eq (hd : d.Regular) (mode : ResolveMode) (range : Option Span) :
    d.hints mode range =
      (((placesIn range d.root.above d.root.tree).filter fun x => x.kind.isExpression).filterMap
        (d.ownHint? mode)).mergeSort fun a b => a.anchor ≤ b.anchor :=
  hintsFrom_eq hd Analyzer.faithful_empty mode range

/-- Every hint is the hint of an expression. -/
theorem exists_of_mem_hints (hd : d.Regular) (hmem : h ∈ d.hints mode range) :
    ∃ x ∈ d.nodes, x.kind.isExpression ∧ d.ownHint? mode x = some h := by
  rw [hints_eq hd, List.mem_mergeSort, List.mem_filterMap] at hmem
  obtain ⟨x, hx, hown⟩ := hmem
  obtain ⟨hx, hk⟩ := List.mem_filter.1 hx
  exact ⟨x, placesIn_subset range _ _ hx, hk, hown⟩

/-- Where no range is asked for, the hints of all expressions are told. -/
theorem mem_hints (hd : d.Regular) (hx : x ∈ d.nodes) (hown : d.ownHint? mode x = some h) :
    h ∈ d.hints mode none := by
  have htarget := obstacle?_eq_none.1 ((ownHint?_eq_some_iff hd hx).1 hown).1
  rw [hints_eq hd, List.mem_mergeSort, List.mem_filterMap, placesIn_none]
  exact ⟨x, List.mem_filter.2 ⟨hx, htarget.isExpression⟩, hown⟩

/-- A source text has a hint with a label, if its document passes the test that some lambda with
    this label has a result that nothing stands in the way of. -/
theorem exists_hint_of_any (source : List Char) (label : String)
    (h : (Document.parse source).toOption.any (fun d =>
      d.nodes.any fun scope => scope.lambdaLabel? == some label &&
        scope.children.any fun literal => d.nodes.any fun x =>
          d.obstacle? x == none && literal.results.contains x.id) = true) :
    ∃ d, Document.parse source = .ok d ∧
      ∃ hint ∈ d.hints .everything none, hint.display = Hint.mark ++ label := by
  obtain ⟨d, hparse, hp⟩ := exists_of_parse_any h
  simp only [List.any_eq_true, Bool.and_eq_true, beq_iff_eq, List.contains_iff_mem] at hp
  obtain ⟨scope, hscope, hlabel, literal, hliteral, x, hx, hno, hresult⟩ := hp
  have hd := regular_of_parse hparse
  have hmode : ResolveMode.everything.includesFlow := rfl
  have hown := ownHint?_of_mem_results hd hx hmode hno hscope hlabel hliteral hresult
  exact ⟨d, hparse, _, mem_hints hd hx hown, rfl⟩

end Document

end ResultHints
