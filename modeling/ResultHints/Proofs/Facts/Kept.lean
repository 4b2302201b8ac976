import ResultHints.Facts.Analysis
import ResultHints.Proofs.Facts.Sharing
import ResultHints.Proofs.Flow.Below

/-!
# Facts that are kept

What an analysis finds is found again as it was: an analyzer that kept facts answers
as if it had kept none (`Analyzer.analyze_spec`). For what facts are kept under tells the
literals that they are the facts of (`literals_eq_of_key`). Of a node it is known that
it is a result if some literal of its tree has it among its results
(`get?_factsOf_enclosing`, `get?_factsOf_everything`).

All this needs no more of a document than that no two nodes share an id.
-/

namespace ResultHints

open Location

/-! ## What is recorded -/

theorem Facts.get?_recordAll (f : Facts) (ids : List NodeId) (i : NodeId) :
    (f.recordAll ids).get? i = if i ∈ ids then some true else f.get? i := by
  unfold recordAll
  induction ids generalizing f with
  | nil => simp
  | cons j ids ih =>
    rw [List.foldl_cons, ih, get?_record]
    by_cases hj : i = j <;> by_cases hi : i ∈ ids <;> simp [hj, hi]

/-- Of a node it is known that it is a result if one of the literals has it among its results, and
    nothing else is known. -/
theorem get?_resultFacts_eq (literals : List Place) (i : NodeId) : (resultFacts literals).get? i =
    if literals.any fun x => x.results.contains i then some true else none := by
  -- The literals add to what was known before, and take nothing away.
  have hfold (f : Facts) : (literals.foldl (fun f x => f.recordAll x.results) f).get? i =
      if literals.any fun x => x.results.contains i then some true else f.get? i := by
    induction literals generalizing f with
    | nil => rfl
    | cons x xs ih =>
      rw [List.foldl_cons, ih, Facts.get?_recordAll, List.any_cons]
      by_cases hi : i ∈ x.results <;> simp [hi]
  exact hfold .empty

theorem get?_resultFacts {literals : List Place} {i : NodeId} {v : Bool} :
    (resultFacts literals).get? i = some v ↔ v = true ∧ ∃ x ∈ literals, i ∈ x.results := by
  rw [get?_resultFacts_eq, Option.ite_none_right_eq_some, List.any_eq_true, Option.some.injEq,
    and_comm, eq_comm (a := true)]
  simp only [List.contains_iff_mem]

/-! ## Literals around a node -/

variable {x y : Place} {ys : List Place}

/-- The literals around a node but the innermost are those around the innermost. -/
theorem enclosingLiterals_tail (h : x.enclosingLiterals = y :: ys) : ys = y.enclosingLiterals := by
  obtain ⟨t, above⟩ := x
  induction above generalizing t with
  | nil => cases h
  | cons s above ih =>
    rw [enclosingLiterals, ancestors_mk, List.filter_cons] at h
    split at h
    · obtain ⟨rfl, rfl⟩ := List.cons.inj h
      rfl
    · exact ih s h

theorem mem_ancestors_of_mem_enclosingLiterals (h : y ∈ x.enclosingLiterals) : y ∈ x.ancestors :=
  (List.mem_filter.1 h).1

theorem mem_enclosingLiterals :
    y ∈ x.enclosingLiterals ↔ y ∈ x.ancestors ∧ y.kind = .functionLiteral := by
  rw [enclosingLiterals, List.mem_filter, beq_iff_eq]

variable {d : Document} {mode mode' : ResolveMode} {key : FactKey} {ls ls' : List Place}

theorem Document.top_mem (hx : x ∈ d.places) : x.top ∈ d.places := by
  obtain ⟨t, ht, hx⟩ := mem_allIn_nil.1 hx
  exact mem_allIn_nil.2 ⟨t, ht, top_of_mem_walk rfl hx ▸ self_mem_walk _⟩

/-- What facts are kept under tells the mode. -/
theorem mode_of_analysisOf? (h : analysisOf? x mode = some (key, ls)) : key.mode = mode := by
  cases mode with
  | declarations => cases h
  | enclosing =>
    rw [analysisOf?] at h
    split at h <;> cases h
    rfl
  | everything =>
    cases h
    rfl

/-- It also tells the literals. -/
theorem literals_eq_of_key (hd : d.HasDistinctIds) (hx : x ∈ d.places) (hy : y ∈ d.places)
    (h : analysisOf? x mode = some (key, ls)) (h' : analysisOf? y mode' = some (key, ls')) :
    ls = ls' := by
  obtain rfl : mode = mode' := (mode_of_analysisOf? h).symm.trans (mode_of_analysisOf? h')
  cases mode with
  | declarations => cases h
  | enclosing =>
    rw [analysisOf?] at h h'
    cases hl : x.enclosingLiterals with
    | nil => simp [hl] at h
    | cons z zs =>
      cases hl' : y.enclosingLiterals with
      | nil => simp [hl'] at h'
      | cons w ws =>
        simp only [hl, hl', Option.some.injEq, Prod.mk.injEq] at h h'
        obtain ⟨rfl, rfl⟩ := h
        obtain ⟨hkey, rfl⟩ := h'
        -- The innermost literals are the same node, and so are all further out.
        have hz : z ∈ d.places := mem_allIn_nil_of_mem_ancestors hx
          (mem_ancestors_of_mem_enclosingLiterals (by simp [hl]))
        have hw : w ∈ d.places := mem_allIn_nil_of_mem_ancestors hy
          (mem_ancestors_of_mem_enclosingLiterals (by simp [hl']))
        obtain rfl : w = z := hd.eq_of_id_eq hw hz (congrArg FactKey.node hkey)
        rw [enclosingLiterals_tail hl, enclosingLiterals_tail hl']
  | everything =>
    simp only [analysisOf?, Option.some.injEq, Prod.mk.injEq] at h h'
    obtain ⟨rfl, rfl⟩ := h
    obtain ⟨hkey, rfl⟩ := h'
    rw [hd.eq_of_id_eq (d.top_mem hy) (d.top_mem hx) (congrArg FactKey.node hkey)]

/-! ## What is kept -/

/-- Everything that is kept is what an analysis of any node of the document would find. -/
def Analyzer.Faithful (d : Document) (a : Analyzer) : Prop :=
  ∀ key s, a.kept.storage? key = some s → s < a.kept.contents.length ∧
    ∀ x ∈ d.places, ∀ mode ls, analysisOf? x mode = some (key, ls) → a.kept.facts s = resultFacts ls

namespace Analyzer

theorem faithful_empty : empty.Faithful d := fun _ _ h => nomatch h

variable {a : Analyzer}

/-- An analyzer answers with the facts of the node, whatever it kept before, and keeps nothing
    that it would not find. -/
theorem analyze_spec (hd : d.HasDistinctIds) (ha : a.Faithful d) (hx : x ∈ d.places)
    (mode : ResolveMode) :
    (analyze x mode a).1.facts = factsOf x mode ∧ (analyze x mode a).2.Faithful d := by
  unfold analyze factsOf
  cases hx' : analysisOf? x mode with
  | none =>
    -- The new storage is held by nothing, and the old ones keep their facts.
    refine ⟨Pool.facts_alloc_self _ _, fun key s hs => ?_⟩
    obtain ⟨hlt, hfacts⟩ := ha key s hs
    refine ⟨?_, fun y hy m ls h => ?_⟩
    · exact (Pool.length_alloc a.kept .empty).symm ▸ Nat.lt_succ_of_lt hlt
    · exact (Pool.facts_alloc_of_lt hlt).trans (hfacts y hy m ls h)
  | some found =>
    obtain ⟨key, ls⟩ := found
    simp only [Pool.getOrCompute]
    cases hs : a.kept.storage? key with
    | some s => exact ⟨(ha key s hs).2 x hx mode ls hx', ha⟩
    | none =>
      refine ⟨Pool.facts_alloc_self _ _, fun key' s' hs' => ?_⟩
      rw [Pool.storage?_hold] at hs'
      split at hs'
      · -- What is now kept under the key is right for all that have this key.
        next hkey =>
        obtain rfl := Option.some.inj hs'
        refine ⟨?_, fun y hy m ls' h => ?_⟩
        · exact (Pool.length_alloc a.kept (resultFacts ls)).symm ▸ Nat.lt_succ_self _
        · obtain rfl : ls = ls' := literals_eq_of_key hd hx hy hx' (hkey ▸ h)
          exact Pool.facts_alloc_self _ _
      · obtain ⟨hlt, hfacts⟩ := ha key' s' hs'
        refine ⟨?_, fun y hy m ls' h => ?_⟩
        · exact (Pool.length_alloc a.kept (resultFacts ls)).symm ▸ Nat.lt_succ_of_lt hlt
        · exact (Pool.facts_alloc_of_lt hlt).trans (hfacts y hy m ls' h)

end Analyzer

namespace Analyzer

/-- The analyzers that come of analyses of nodes of the document, one after the other. What was
    found may be forgotten in between. -/
inductive Reached (d : Document) : Analyzer → Prop
  | empty : Reached d .empty
  | analyze {a : Analyzer} {x : Place} (mode : ResolveMode) : Reached d a → x ∈ d.places →
    Reached d (analyze x mode a).2
  | clear {a : Analyzer} : Reached d a → Reached d a.clear

theorem Reached.faithful {a : Analyzer} (hd : d.HasDistinctIds) (h : Reached d a) :
    a.Faithful d := by
  induction h with
  | empty => exact faithful_empty
  | analyze mode _ hx ih => exact (analyze_spec hd ih hx mode).2
  | clear => exact fun _ _ h => nomatch h

/-- Whatever was analyzed before, the facts are those of the node. -/
theorem Reached.facts_analyze {a : Analyzer} (hd : d.HasDistinctIds) (h : Reached d a)
    (hx : x ∈ d.places) (mode : ResolveMode) :
    (Analyzer.analyze x mode a).1.facts = factsOf x mode :=
  (analyze_spec hd (h.faithful hd) hx mode).1

end Analyzer

/-! ## What an analysis tells -/

theorem factsOf_enclosing (x : Place) : factsOf x .enclosing = resultFacts x.enclosingLiterals := by
  unfold factsOf analysisOf?
  cases x.enclosingLiterals <;> rfl

theorem factsOf_everything (x : Place) : factsOf x .everything = resultFacts x.top.literals := rfl

/-- An analysis of what is around a node tells of the node whether it is a result. -/
theorem get?_factsOf_enclosing (hd : d.HasDistinctIds) (hx : x ∈ d.places) :
    (factsOf x .enclosing).get? x.id = some true ↔ ∃ z ∈ d.places, x.id ∈ z.results := by
  rw [factsOf_enclosing, get?_resultFacts, eq_self, true_and]
  constructor
  · rintro ⟨z, hz, hi⟩
    exact ⟨z, mem_allIn_nil_of_mem_ancestors hx (mem_enclosingLiterals.1 hz).1, hi⟩
  · rintro ⟨z, hz, hi⟩
    exact ⟨z, mem_enclosingLiterals.2 (mem_ancestors_of_mem_results hd hx hz hi), hi⟩

/-- What lies above a node lies below its top. -/
theorem mem_walk_top (hx : x ∈ d.places) (hz : y ∈ x.ancestors) : y ∈ x.top.walk := by
  obtain ⟨t, -, hx⟩ := mem_allIn_nil.1 hx
  rw [top_of_mem_walk rfl hx]
  exact mem_walk_of_mem_ancestors rfl hx hz

/-- What an analysis of what is around a node tells, an analysis of all of its tree tells too. -/
theorem get?_factsOf_mono {i : NodeId} {v : Bool} (hx : x ∈ d.places)
    (h : (factsOf x .enclosing).get? i = some v) : (factsOf x .everything).get? i = some v := by
  rw [factsOf_enclosing, get?_resultFacts] at h
  obtain ⟨hv, z, hz, hi⟩ := h
  obtain ⟨habove, hk⟩ := mem_enclosingLiterals.1 hz
  refine get?_resultFacts.2 ⟨hv, z, ?_, hi⟩
  rw [literals, List.mem_filter, beq_iff_eq]
  exact ⟨mem_walk_top hx habove, hk⟩

/-- An analysis of all of its tree tells of a node whether it is a result. -/
theorem get?_factsOf_everything (hd : d.HasDistinctIds) (hx : x ∈ d.places)
    (htop : y.top = x.top) :
    (factsOf y .everything).get? x.id = some true ↔ ∃ z ∈ d.places, x.id ∈ z.results := by
  rw [factsOf_everything, htop, get?_resultFacts, eq_self, true_and]
  simp only [literals, List.mem_filter, beq_iff_eq]
  constructor
  · rintro ⟨z, ⟨hz, -⟩, hi⟩
    exact ⟨z, (walk_sublist_allIn_nil (d.top_mem hx)).subset hz, hi⟩
  · rintro ⟨z, hz, hi⟩
    obtain ⟨habove, hk⟩ := mem_ancestors_of_mem_results hd hx hz hi
    exact ⟨z, ⟨mem_walk_top hx habove, hk⟩, hi⟩

/-- An analysis that looks at flow tells of the node whether its value is the result of a function
    literal, and nothing else tells it. -/
theorem get?_factsOf (hd : d.Regular) (hx : x ∈ d.nodes) :
    (factsOf x mode).get? x.id = some true ↔
      mode.includesFlow ∧ ∃ y ∈ d.nodes, x.id ∈ y.results := by
  have hmem := hd.mem_places hx
  rw [← hd.places_eq_nodes]
  cases mode with
  | declarations => exact ⟨nofun, fun h => nomatch h.1⟩
  | enclosing =>
    rw [get?_factsOf_enclosing hd.hasDistinctIds hmem, ResolveMode.includesFlow, eq_self, true_and]
  | everything =>
    rw [get?_factsOf_everything hd.hasDistinctIds hmem rfl, ResolveMode.includesFlow, eq_self,
      true_and]

end ResultHints
