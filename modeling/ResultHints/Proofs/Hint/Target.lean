import ResultHints.Hint.Target
import ResultHints.Proofs.Flow.Path

/-!
# Targets of hints

The nodes that nothing stands in the way of (`Document.IsTarget`). Main statements:

- `obstacle?_eq_none`: the rules leave out all but the targets;
- `inside_oneLine_if_iff_nearest`: of the `if`s around a node the innermost one tells whether the
  node lies in an `if` of one line;
- `exists_target_of_path`: on the way from a node in the place of a statement to a node
  with a value of its own there is a target.
-/

namespace ResultHints

open Location Relation

variable {d : Document} {x y z : Place}

/-! ## Statements and their parts -/

namespace Location

/-- What kind the parent has tells whether a node is a statement. -/
theorem isStatement_of_mem_children (h : y ∈ x.children) :
    y.isStatement = x.kind.holdsStatements := by
  rw [isStatement, parent?_of_mem_children h]
  rfl

theorem wrapped?_of_base? (h : x.base? = some y) : x.wrapped? = some y := by
  rw [wrapped?, if_neg ?_, h]
  intro hk
  rw [base?, hk] at h
  cases h

theorem holdsStatements_of_wrapper (h : x.kind.role = .wrapper) :
    x.kind.holdsStatements = false := by
  rcases NodeKind.wrapper_of_role h with ⟨label, hk⟩ | hk | hk <;> rw [hk] <;> rfl

/-- What a label, annotations or parentheses stand around is not in the place of a statement. -/
theorem isStatement_of_wrapped (h : x.wrapped? = some y) : y.isStatement = false := by
  rw [isStatement_of_mem_children (mem_children_of_wrapped? h)]
  exact holdsStatements_of_wrapper (role_of_wrapped? h)

end Location

/-- All other steps lead to statements. -/
theorem ResultStep.isStatement (h : ResultStep x y) (hx : x.kind.role ≠ .wrapper) :
    y.isStatement := by
  cases h with
  | last hk hchildren =>
    rw [isStatement_of_mem_children (x := x) (by simp [hchildren]), hk]
    rfl
  | alternative _ hy =>
    obtain ⟨b, hb, hy⟩ := mem_alternatives.1 hy
    rw [isStatement_of_mem_children (mem_children_of_content? hy)]
    rcases kind_of_mem_branches hb with hk | hk | ⟨isElse, hk⟩ <;> rw [hk] <;> rfl
  | wrapped hy => exact absurd (role_of_wrapped? hy) hx

/-- The one step to what a label, annotations or parentheses stand around is from these. -/
theorem ResultStep.eq_of_wrapped? (h : ResultStep z y) (hx : x.wrapped? = some y) : z = x := by
  have hrole : z.kind.role = .wrapper := by
    by_contra hne
    exact absurd (h.isStatement hne) (by simp [isStatement_of_wrapped hx])
  cases h with
  | last hk => rw [hk] at hrole; cases hrole
  | alternative hexhaustive => rw [role_of_isExhaustive hexhaustive] at hrole; cases hrole
  | wrapped hy =>
    have hparent := parent?_of_mem_children (mem_children_of_wrapped? hy)
    rw [parent?_of_mem_children (mem_children_of_wrapped? hx)] at hparent
    exact (Option.some.inj hparent).symm

namespace Document

theorem statementPart?_eq_some : d.statementPart? x = some y ↔ x.base? = some y ∧ d.beginsLine y :=
  Option.filter_eq_some_iff

/-- Only labels and annotations have parts. -/
theorem statementPart?_eq_none (h : x.kind.role ≠ .wrapper) : d.statementPart? x = none := by
  rw [Option.eq_none_iff_forall_ne_some]
  intro y hy
  exact h (role_of_wrapped? (wrapped?_of_base? (statementPart?_eq_some.1 hy).1))

/-- A node is a part if it is the part of its parent. -/
theorem isStatementPart_iff (hd : d.Regular) (hx : x ∈ d.nodes) (hy : y ∈ x.children) :
    d.isStatementPart y ↔ d.statementPart? x = some y := by
  rw [isStatementPart, parent?_of_mem_children hy, Option.any_some, Bool.and_eq_true]
  constructor
  · rintro ⟨-, hpart⟩
    cases hz : d.statementPart? x with
    | none => simp [hz] at hpart
    | some z =>
      have hmem := mem_children_of_wrapped? (wrapped?_of_base? (statementPart?_eq_some.1 hz).1)
      have hi : z.id = y.id := by simpa [hz] using hpart
      rw [hd.eq_of_id_eq (mem_walk_of_mem_children hx hmem) (mem_walk_of_mem_children hx hy) hi]
  · intro hpart
    refine ⟨?_, by simp [hpart]⟩
    have hrole := role_of_wrapped? (wrapped?_of_base? (statementPart?_eq_some.1 hpart).1)
    rcases NodeKind.wrapper_of_role hrole with ⟨label, hk⟩ | hk | hk <;> rw [hk] <;> rfl

/-! ## Lines -/

/-- A node is inside an `if` of one line if some `if` around it is of one line. -/
theorem isInsideOneLineIf_eq_false (hd : d.Regular) (hx : x ∈ d.nodes) :
    d.isInsideOneLineIf x = false ↔
      ∀ z ∈ x.ancestors, z.kind = .ifElse → d.isOneLine z = false := by
  constructor
  · intro h z hz hk
    obtain ⟨y, hy, hnearest⟩ := exists_nearest? (p := fun n => n.kind == .ifElse) hd.above hx hz
      (beq_iff_eq.2 hk)
    rw [isInsideOneLineIf, hnearest, Option.any_some] at h
    -- The nearest `if` lies in all others, and is of one line if one of them is.
    cases hline : d.isOneLine z with
    | false => rfl
    | true =>
      have hznode := hd.mem_of_mem_ancestors hx hz
      have hne := hd.ne_root (x := z) (by rw [hk]; nofun)
      rw [hd.isOneLine_of_mem_walk hznode hne hy hline] at h
      cases h
  · intro h
    unfold isInsideOneLineIf
    cases hnearest : x.nearest? fun n => n.kind == .ifElse with
    | none => rfl
    | some z =>
      exact h z (List.mem_of_find?_eq_some hnearest) (beq_iff_eq.1 (List.find?_some hnearest :))

/-- It is enough to ask the innermost `if` around a node: if it is of several lines, all are. -/
theorem isInsideOneLineIf_iff (hd : d.Regular) (hx : x ∈ d.nodes) :
    d.isInsideOneLineIf x ↔ ∃ y ∈ x.ancestors, y.kind = .ifElse ∧ d.isOneLine y := by
  rw [← Bool.not_eq_false, isInsideOneLineIf_eq_false hd hx]
  push Not
  simp only [ne_eq, Bool.not_eq_false]

/-- An `if` of several lines is in no `if` of one line. -/
theorem isManyLineIf_eq_false (hd : d.Regular) (hx : x ∈ d.nodes) (h : y ∈ x.ancestors)
    (hk : y.kind = .ifElse) (hline : d.isOneLine y) : d.isManyLineIf x = false := by
  have hy := hd.mem_of_mem_ancestors hx h
  have hne := hd.ne_root (x := y) (by rw [hk]; nofun)
  have hxwalk := (mem_walk_iff_mem_ancestors hd.above hx).2 (.inr h)
  have hxline := hd.isOneLine_of_mem_walk hy hne hxwalk hline
  rw [isManyLineIf, hxline, Bool.not_true, Bool.and_false]

/-! ## Targets -/

/-- A node with no obstacle to a hint behind it. -/
structure IsTarget (d : Document) (x : Place) : Prop where
  isExpression : x.kind.isExpression
  ne_when : x.kind ≠ .when_
  ne_block : x.kind ≠ .block
  isOneLine : x.kind = .ifElse → d.isOneLine x
  outside : d.isInsideOneLineIf x = false
  part : x.isStatement = false → d.isStatementPart x
  whole : x.isStatement → d.statementPart? x = none
  several : literalObstacle? x = none

/-- The rules leave out all but the targets. -/
theorem obstacle?_eq_none : d.obstacle? x = none ↔ d.IsTarget x := by
  unfold obstacle?
  constructor
  · -- The rules are asked in turn, each where the ones before have let the node pass.
    intro h
    split at h
    · cases h
    split at h
    · cases h
    split at h
    · cases h
    split at h
    · cases h
    split at h
    · cases h
    split at h
    · cases h
    next hexpression hcompound hmany hinside hpart hwhole =>
    simp only [Bool.or_eq_true, beq_iff_eq, not_or] at hcompound
    refine ⟨by simpa using hexpression, hcompound.1, hcompound.2, ?_, by simpa using hinside, ?_,
      ?_, h⟩
    · intro hk
      simpa [isManyLineIf, hk] using hmany
    · intro hstatement
      simpa [hstatement] using hpart
    · intro hstatement
      simpa [hstatement] using hwhole
  · intro h
    have hmany : d.isManyLineIf x = false := by
      rw [isManyLineIf]
      by_cases hk : x.kind = .ifElse
      · simp [h.isOneLine hk]
      · simp [hk]
    have hplaced : (!x.isStatement && !d.isStatementPart x) = false ∧
        (x.isStatement && (d.statementPart? x).isSome) = false := by
      cases hstatement : x.isStatement with
      | false => simp [h.part hstatement]
      | true => simp [h.whole hstatement]
    simp [h.isExpression, h.ne_when, h.ne_block, hmany, h.outside, hplaced, h.several]

theorem literalObstacle?_ne_insideOneLineIf : literalObstacle? x ≠ some .insideOneLineIf := by
  unfold literalObstacle?
  split
  · nofun
  split
  · nofun
  split <;> nofun

/-- When the obstacle is told to be an `if` of one line around the node. -/
theorem obstacle?_eq_insideOneLineIf :
    d.obstacle? x = some .insideOneLineIf ↔ x.kind.isExpression ∧ x.kind ≠ .when_ ∧
      x.kind ≠ .block ∧ d.isManyLineIf x = false ∧ d.isInsideOneLineIf x := by
  unfold obstacle?
  constructor
  · intro h
    split at h
    · cases h
    split at h
    · cases h
    split at h
    · cases h
    split at h
    · next hexpression hcompound hmany hinside =>
      simp only [Bool.or_eq_true, beq_iff_eq, not_or] at hcompound
      exact ⟨by simpa using hexpression, hcompound.1, hcompound.2, by simpa using hmany, hinside⟩
    -- The rules that come after tell other obstacles.
    split at h
    · cases h
    split at h
    · cases h
    exact absurd h literalObstacle?_ne_insideOneLineIf
  · rintro ⟨hexpression, hwhen, hblock, hmany, hinside⟩
    simp [hexpression, hwhen, hblock, hmany, hinside]

/-- That a node lies in some `if` of one line can be told from the innermost `if` around it, and
    of all expressions but a `when` and a block this is the obstacle told just where it is so. -/
theorem inside_oneLine_if_iff_nearest {source : List Char} (h : Document.parse source = .ok d)
    (hx : x ∈ d.nodes) :
    ((∃ y ∈ x.ancestors, y.kind = .ifElse ∧ d.isOneLine y) ↔
      ∃ y, x.nearest? (fun n => n.kind == .ifElse) = some y ∧ d.isOneLine y) ∧
    (d.isInsideOneLineIf x ↔ ∃ y ∈ x.ancestors, y.kind = .ifElse ∧ d.isOneLine y) ∧
    (d.obstacle? x = some .insideOneLineIf ↔ x.kind.isExpression ∧ x.kind ≠ .when_ ∧
      x.kind ≠ .block ∧ ∃ y ∈ x.ancestors, y.kind = .ifElse ∧ d.isOneLine y) := by
  have hd := regular_of_parse h
  have hinside := isInsideOneLineIf_iff hd hx
  refine ⟨?_, hinside, ?_⟩
  · rw [← hinside, isInsideOneLineIf, Option.any_eq_true]
  · rw [obstacle?_eq_insideOneLineIf, hinside]
    constructor
    · rintro ⟨hk, hwhen, hblock, -, hy⟩
      exact ⟨hk, hwhen, hblock, hy⟩
    · -- The node is no `if` of several lines, as it lies in one of one line.
      rintro ⟨hk, hwhen, hblock, y, hy, hyk, hline⟩
      exact ⟨hk, hwhen, hblock, isManyLineIf_eq_false hd hx hy hyk hline, y, hy, hyk, hline⟩

/-- Of two such `if`s the inner one is asked. -/
theorem inside_oneLine_if_of_nested : ∃ d, Document.parse "if(a){if(b)c}else e".toList = .ok d ∧
    ∃ x ∈ d.nodes, x.kind = .nameReference "c" ∧
      (x.ancestors.filter fun y => y.kind == .ifElse).length = 2 ∧
      d.obstacle? x = some .insideOneLineIf ∧
      ∃ y, x.nearest? (fun n => n.kind == .ifElse) = some y ∧ d.isOneLine y := by
  have hparse : (Document.parse "if(a){if(b)c}else e".toList).toOption.any (fun d =>
      d.nodes.any fun x => x.kind == .nameReference "c" &&
        (x.ancestors.filter fun y => y.kind == .ifElse).length == 2 &&
        x.ancestors.any fun y => y.kind == .ifElse && d.isOneLine y) := by
    decide +kernel
  obtain ⟨d, h, hp⟩ := exists_of_parse_any hparse
  obtain ⟨x, hx, hp⟩ := List.any_eq_true.1 hp
  simp only [Bool.and_eq_true, beq_iff_eq, List.any_eq_true] at hp
  obtain ⟨⟨hk, hlength⟩, y, hy⟩ := hp
  obtain ⟨hnearest, -, hobstacle⟩ := inside_oneLine_if_iff_nearest h hx
  refine ⟨d, h, x, hx, hk, hlength, hobstacle.2 ?_, hnearest.1 ⟨y, hy⟩⟩
  rw [hk]
  exact ⟨rfl, nofun, nofun, y, hy⟩

/-- In a body of several statements no result is the only one. -/
theorem literalObstacle?_eq_none {body : Place}
    (hliteral : x.nearest? (fun n => n.kind == .functionLiteral) = some y)
    (hbody : y.body? = some body) (hseveral : 2 ≤ body.statements.length) :
    literalObstacle? x = none := by
  simp only [literalObstacle?, hliteral, hbody]
  rw [if_neg]
  intro h
  have hlength := congrArg List.length h
  rw [List.length_map, List.length_singleton] at hlength
  omega

/-! ## Targets on a path -/

/-- A node in the place of a statement, or of a part of one, and not inside an `if` of one line. -/
structure IsCandidate (d : Document) (x : Place) : Prop where
  outside : ∀ z ∈ x.ancestors, z.kind = .ifElse → d.isOneLine z = false
  placed : x.isStatement ∨ d.isStatementPart x

/-- What lies right below a node that is no `if` of one line is not inside one either, if the node
    is not. -/
theorem outside_of_step (h : ResultStep x y) (hk : x.kind = .ifElse → d.isOneLine x = false)
    (hx : ∀ z ∈ x.ancestors, z.kind = .ifElse → d.isOneLine z = false) :
    ∀ z ∈ y.ancestors, z.kind = .ifElse → d.isOneLine z = false := by
  intro z hz
  rcases h.ancestors with hy | ⟨b, hb, -, hy⟩
  · rw [hy, List.mem_cons] at hz
    rcases hz with rfl | hz
    · exact hk
    · exact hx z hz
  · rw [hy, List.mem_cons, List.mem_cons] at hz
    rcases hz with rfl | rfl | hz
    · -- A branch is no `if`.
      intro hzk
      rcases kind_of_mem_branches hb with h | h | ⟨isElse, h⟩ <;> rw [h] at hzk <;> cases hzk
    · exact hk
    · exact hx z hz

/-- A candidate is a target, if its kind and its part allow it. -/
theorem IsCandidate.isTarget (hd : d.Regular) (hx : x ∈ d.nodes) (hc : d.IsCandidate x)
    (hyields : x.yields) (hseveral : literalObstacle? x = none) (hrole : x.kind.role ≠ .sequence)
    (hwhen : x.kind ≠ .when_) (hline : x.kind = .ifElse → d.isOneLine x)
    (hwhole : x.isStatement → d.statementPart? x = none) : d.IsTarget x where
  isExpression := isExpression_of_yields hyields
  ne_when := hwhen
  ne_block hk := hrole (by rw [hk]; rfl)
  isOneLine := hline
  outside := (isInsideOneLineIf_eq_false hd hx).2 hc.outside
  part hstatement := hc.placed.resolve_left (by simp [hstatement])
  whole := hwhole
  several := hseveral

/-- A candidate that yields a value is a target, or the path goes on to another candidate. -/
theorem IsCandidate.isTarget_or_step (hd : d.Regular) (hx : x ∈ d.nodes) (hc : d.IsCandidate x)
    (hyields : x.yields) (hseveral : literalObstacle? x = none) :
    d.IsTarget x ∨ x.kind.role ≠ .value ∧ ∀ y, ResultStep x y → d.IsCandidate y := by
  have htarget := hc.isTarget hd hx hyields hseveral
  cases hrole : x.kind.role with
  | value =>
    refine .inl (htarget (by simp [hrole]) ?_ ?_ fun _ => statementPart?_eq_none (by simp [hrole]))
    · intro hk
      rw [hk] at hrole
      cases hrole
    · intro hk
      rw [hk] at hrole
      cases hrole
  | sequence =>
    refine .inr ⟨nofun, fun y hstep => ⟨?_, .inl (hstep.isStatement (by simp [hrole]))⟩⟩
    refine outside_of_step hstep (fun hk => ?_) hc.outside
    rw [hk] at hrole
    cases hrole
  | choice =>
    -- An `if` of one line is a target; of a `when` or of many lines the branches are candidates.
    by_cases hline : x.kind = .ifElse ∧ d.isOneLine x
    · refine .inl (htarget (by simp [hrole]) ?_ (fun _ => hline.2) fun _ =>
        statementPart?_eq_none (by simp [hrole]))
      rw [hline.1]
      nofun
    · refine .inr ⟨nofun, fun y hstep => ⟨?_, .inl (hstep.isStatement (by simp [hrole]))⟩⟩
      refine outside_of_step hstep (fun hk => ?_) hc.outside
      simpa [hk] using hline
  | wrapper =>
    have hne {k : NodeKind} (hk : k.role ≠ .wrapper) : x.kind ≠ k := by
      rintro rfl
      exact hk hrole
    by_cases hpart : x.isStatement = true ∧ (d.statementPart? x).isSome = true
    · -- The part of a statement is what the step leads to.
      refine .inr ⟨nofun, fun y hstep => ?_⟩
      obtain ⟨z, hz⟩ := Option.isSome_iff_exists.1 hpart.2
      have hy := hstep.wrapped_inv hrole
      obtain rfl : z = y :=
        Option.some.inj ((wrapped?_of_base? (statementPart?_eq_some.1 hz).1).symm.trans hy)
      refine ⟨outside_of_step hstep (fun hk => absurd hk (hne nofun)) hc.outside, .inr ?_⟩
      exact (isStatementPart_iff hd hx (mem_children_of_wrapped? hy)).2 hz
    · refine .inl (htarget (by simp [hrole]) (hne nofun) (fun hk => absurd hk (hne nofun)) ?_)
      intro hstatement
      simpa [hstatement] using hpart
  | jump | branch | nothing => simp [Location.yields, hrole] at hyields

/-- On the way from a candidate to a node with a value of its own there is a target. -/
theorem exists_target_of_path (hd : d.Regular) (hx : x ∈ d.nodes) (hc : d.IsCandidate x)
    (hpath : ReflTransGen ResultStep x y) (hrole : y.kind.role = .value)
    (hseveral : ∀ z, ReflTransGen ResultStep x z → literalObstacle? z = none) :
    ∃ z, ReflTransGen ResultStep x z ∧ ReflTransGen ResultStep z y ∧ d.IsTarget z := by
  have hyields : y.yields := by rw [Location.yields, hrole]
  induction hpath using ReflTransGen.head_induction_on with
  | refl =>
    rcases hc.isTarget_or_step hd hx hyields (hseveral y .refl) with htarget | ⟨hne, -⟩
    · exact ⟨y, .refl, .refl, htarget⟩
    · exact absurd hrole hne
  | @head x w hstep hpath ih =>
    -- The first candidate is the target, or hands over to the next node.
    have hxyields := yields_of_path (hpath.head hstep) hyields
    rcases hc.isTarget_or_step hd hx hxyields (hseveral x .refl) with htarget | ⟨-, hw⟩
    · exact ⟨x, .refl, hpath.head hstep, htarget⟩
    · obtain ⟨z, hxz, hzy, htarget⟩ := ih (hstep.mem_nodes hx) (hw w hstep)
        fun z hz => hseveral z (hz.head hstep)
      exact ⟨z, hxz.head hstep, hzy, htarget⟩

end Document

end ResultHints
