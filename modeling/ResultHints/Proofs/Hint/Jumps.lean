import ResultHints.Proofs.Hint.Own

/-!
# Hints behind jumps

Results are no jumps themselves, but they may stand around jumps. Main statements:

- `alwaysJumps_of_mem_hints`: an expression with a hint always jumps just if it is an `if`
  of one line all of whose branches do, or a label, annotations or parentheses around
  what does;
- `hint_around_return`: there is a hint behind the parentheses in `f{a;(return)}`.
-/

namespace ResultHints

open Location Document

variable {d : Document} {mode : ResolveMode} {range : Option Span} {x : Place} {h : Hint}

/-- A target that yields a value always jumps just if it is an `if` of one line all of whose
    branches do, or a label, annotations or parentheses around what does. -/
theorem Document.IsTarget.alwaysJumps_iff (hd : d.Regular) (hx : x ∈ d.nodes) (ht : d.IsTarget x)
    (hyields : x.yields) : alwaysJumps x.tree ↔
      (x.kind = .ifElse ∧ d.isOneLine x ∧ x.isExhaustive ∧
        ∀ y ∈ x.alternatives, alwaysJumps y.tree) ∨
      ∃ y, x.wrapped? = some y ∧ alwaysJumps y.tree := by
  have hwrapped (hrole : x.kind.role ≠ .wrapper) :
      ¬∃ y, x.wrapped? = some y ∧ alwaysJumps y.tree := by
    rintro ⟨y, hy, -⟩
    exact hrole (role_of_wrapped? hy)
  have hif (hrole : x.kind.role ≠ .choice) : x.kind ≠ .ifElse := by
    intro hk
    exact hrole (by rw [hk]; rfl)
  cases hrole : x.kind.role with
  | value =>
    simp [alwaysJumps_of_value (.inl hrole), hif (by simp [hrole]), hwrapped (by simp [hrole])]
  | choice =>
    -- A `when` is no target, and an `if` is one only if it is of one line.
    have hk := (NodeKind.ifElse_or_when_of_role hrole).resolve_right ht.ne_when
    rw [alwaysJumps_of_choice hd hx hrole, or_iff_left (hwrapped (by simp [hrole]))]
    simp [hk, ht.isOneLine hk]
  | wrapper => simp [alwaysJumps_of_wrapper hrole, hif (by simp [hrole]), Option.any_eq_true]
  | sequence => exact absurd (NodeKind.eq_block_of_role hrole) ht.ne_block
  | jump | branch | nothing => simp [Location.yields, hrole] at hyields

/-- Behind an expression with a hint stands a target that yields a value. -/
theorem isTarget_and_yields_of_ownHint? (hd : d.Regular) (hx : x ∈ d.nodes)
    (hown : d.ownHint? mode x = some h) : d.IsTarget x ∧ x.yields := by
  obtain ⟨hno, -, scope, hscope, -, -, ⟨literal, hliteral, hresult⟩, -⟩ :=
    (ownHint?_eq_some_iff hd hx).1 hown
  obtain ⟨-, -, -, hyields⟩ :=
    (mem_results_iff hd (mem_walk_of_mem_children hscope hliteral) hx).1 hresult
  exact ⟨obstacle?_eq_none.1 hno, hyields⟩

/-- Every hint is that of an expression, and this always jumps just if it is an `if` of one line
    with an else branch, both of whose branches always jump, or a label, annotations or parentheses
    around what always jumps. No other expression with a hint ever does. -/
theorem alwaysJumps_of_mem_hints {source : List Char} (hparse : Document.parse source = .ok d)
    (hmem : h ∈ d.hints mode range) : (∃ x ∈ d.nodes, d.ownHint? mode x = some h) ∧
      ∀ x ∈ d.nodes, d.ownHint? mode x = some h → (alwaysJumps x.tree ↔
        (x.kind = .ifElse ∧ d.isOneLine x ∧ x.isExhaustive ∧
          ∀ y ∈ x.alternatives, alwaysJumps y.tree) ∨
        ∃ y, x.wrapped? = some y ∧ alwaysJumps y.tree) := by
  have hd := regular_of_parse hparse
  obtain ⟨x, hx, -, hown⟩ := exists_of_mem_hints hd hmem
  refine ⟨⟨x, hx, hown⟩, fun x hx hown => ?_⟩
  obtain ⟨htarget, hyields⟩ := isTarget_and_yields_of_ownHint? hd hx hown
  exact htarget.alwaysJumps_iff hd hx hyields

/-- Whether there is a hint behind a node of the given kind that always jumps. -/
def Document.hasHintBehindJump (d : Document) (kind : NodeKind) : Bool :=
  d.nodes.any fun scope => scope.lambdaLabel?.isSome && scope.children.any fun literal =>
    d.nodes.any fun x => x.kind == kind && d.obstacle? x == none &&
      literal.results.contains x.id && alwaysJumps x.tree

theorem exists_of_hasHintBehindJump {kind : NodeKind} (hd : d.Regular) (hmode : mode.includesFlow)
    (hp : d.hasHintBehindJump kind) : ∃ x ∈ d.nodes, x.kind = kind ∧ alwaysJumps x.tree ∧
      ∃ h ∈ d.hints mode none, d.ownHint? mode x = some h := by
  simp only [hasHintBehindJump, List.any_eq_true, Bool.and_eq_true, beq_iff_eq,
    List.contains_iff_mem, Option.isSome_iff_exists] at hp
  obtain ⟨scope, hscope, ⟨label, hlabel⟩, literal, hliteral, x, hx, ⟨⟨hk, hno⟩, hresult⟩, hjumps⟩ :=
    hp
  have hown := ownHint?_of_mem_results hd hx hmode hno hscope hlabel hliteral hresult
  exact ⟨x, hx, hk, hjumps, _, mem_hints hd hx hown, hown⟩

/-- The `if` in `f{a;if(c)return else return}` has a hint and always jumps, as all its branches
    do. -/
theorem alwaysJumps_of_if_of_returns :
    ∃ d, Document.parse "f{a;if(c)return else return}".toList = .ok d ∧ ∃ x ∈ d.nodes,
      x.kind = .ifElse ∧ alwaysJumps x.tree ∧ ∀ y ∈ x.alternatives, alwaysJumps y.tree := by
  have hparse : (Document.parse "f{a;if(c)return else return}".toList).toOption.any
      (·.hasHintBehindJump .ifElse) := by decide +kernel
  obtain ⟨d, h, hp⟩ := exists_of_parse_any hparse
  have hmode : ResolveMode.enclosing.includesFlow := rfl
  obtain ⟨x, hx, hk, hjumps, g, hmem, hown⟩ :=
    exists_of_hasHintBehindJump (regular_of_parse h) hmode hp
  refine ⟨d, h, x, hx, hk, hjumps, ?_⟩
  rcases ((alwaysJumps_of_mem_hints h hmem).2 x hx hown).1 hjumps with ⟨-, -, -, hall⟩ | ⟨y, hy, -⟩
  · exact hall
  · -- An `if` stands around nothing.
    have hrole := role_of_wrapped? hy
    rw [hk] at hrole
    cases hrole

/-- In `f{a;(return)}` there is a hint behind the parentheses, which always jump. -/
theorem hint_around_return : ∃ d, Document.parse "f{a;(return)}".toList = .ok d ∧
    ∃ x ∈ d.nodes, x.kind = .parenthesized ∧ alwaysJumps x.tree ∧
      ∃ h ∈ d.hints .enclosing none, d.ownHint? .enclosing x = some h := by
  have hparse : (Document.parse "f{a;(return)}".toList).toOption.any
      (·.hasHintBehindJump .parenthesized) := by decide +kernel
  obtain ⟨d, h, hp⟩ := exists_of_parse_any hparse
  have hmode : ResolveMode.enclosing.includesFlow := rfl
  exact ⟨d, h, exists_of_hasHintBehindJump (regular_of_parse h) hmode hp⟩

end ResultHints
