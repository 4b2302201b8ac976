import ResultHints.Proofs.Document.Trivia
import ResultHints.Proofs.Document.Part
import ResultHints.Proofs.Hint.Target

/-!
# Chains of labels and annotations

Of a statement with labels and annotations, the base that begins on a line of its own is
what hints stand behind. Main statement:

- `target_of_wrapping`: which nodes of a chain of labels and annotations are targets, and
  that only one of them is, if at most the first base begins a line.
-/

namespace ResultHints

open Location Document

variable {d : Document} {x y w : Place} {ws : List Place}

/-! ## Lines -/

/-- White space with a line break ends where a node begins. -/
def Document.FollowsBreak (d : Document) (x : Place) : Prop :=
  ∃ t ∈ d.tokens.toList, t.stop = x.span.start ∧ t.kind = .trivia .blank ∧ '\n' ∈ t.text

theorem Token.isBlankBreak_iff {t : Token} :
    t.trivia?.any (·.isBlankBreak) ↔ t.kind = .trivia .blank ∧ '\n' ∈ t.text := by
  rw [Token.trivia?]
  cases t.kind with
  | trivia k => simp [Trivia.isBlankBreak, Trivia.hasBreak]
  | _ => simp

/-- Whether a node begins a line can be told by the tokens. -/
theorem Document.beginsLine_iff {source : List Char} (h : Document.parse source = .ok d) :
    d.beginsLine x ↔ d.FollowsBreak x := by
  have htiling := tiling_of_parse h
  rw [beginsLine, precedingTrivia?, FollowsBreak]
  constructor
  · intro hbreak
    rw [Option.any_eq_true] at hbreak
    obtain ⟨v, hv, hbreak⟩ := hbreak
    obtain ⟨t, ht, hstop, hv⟩ := exists_token_of_triviaBefore? hv
    exact ⟨t, ht, hstop, Token.isBlankBreak_iff.1 (by rwa [hv, Option.any_some])⟩
  · rintro ⟨t, ht, hstop, hbreak⟩
    rw [← hstop, triviaBefore?_stop htiling ht]
    exact Token.isBlankBreak_iff.2 hbreak

/-! ## Around a chain -/

/-- Whether hints may stand behind what is around a node: it is in a function literal, and in no
    `if` of one line. -/
def Document.admitsHints (d : Document) (x : Place) : Bool :=
  (x.nearest? fun n => n.kind == .functionLiteral).isSome && !d.isInsideOneLineIf x

/-- A node that is the only statement of the function literal around it. -/
def Location.IsSoleStatement (x : Place) : Prop :=
  ∃ literal body, x.nearest? (fun n => n.kind == .functionLiteral) = some literal ∧
    literal.body? = some body ∧ body.statements.map Location.id = [x.id]

theorem literalObstacle?_eq_none_iff (hd : d.Regular) (hx : x ∈ d.nodes) :
    literalObstacle? x = none ↔
      (x.nearest? fun n => n.kind == .functionLiteral).isSome ∧ ¬x.IsSoleStatement := by
  unfold literalObstacle? IsSoleStatement
  cases hliteral : x.nearest? fun n => n.kind == .functionLiteral with
  | none => simp
  | some literal =>
    obtain ⟨hl, -⟩ := hd.mem_of_nearest? hx hliteral (by nofun)
    obtain ⟨body, hbody⟩ := hd.exists_body hl (beq_iff_eq.1 (List.find?_some hliteral :))
    simp [hbody]

/-- What a label or annotations stand around is no statement of a function literal. -/
theorem not_isSoleStatement_of_base? (hd : d.Regular) (hx : x ∈ d.nodes) (h : x.base? = some y) :
    ¬y.IsSoleStatement := by
  rintro ⟨literal, body, hliteral, hbody, hids⟩
  have hy := mem_walk_of_mem_children hx (mem_children_of_base? h)
  obtain ⟨hl, -⟩ := hd.mem_of_nearest? hy hliteral (by nofun)
  obtain ⟨-, hmem, hk⟩ := body?_eq_some hbody
  have hb := mem_walk_of_mem_children hl hmem
  obtain ⟨z, hz, hi⟩ := List.map_eq_singleton_iff.1 hids
  rw [Location.statements, if_pos hk] at hz
  have hzmem : z ∈ body.children := by simp [hz]
  obtain rfl := hd.eq_of_id_eq (mem_walk_of_mem_children hb hzmem) hy hi
  -- The statements of a body are below a block, and the base is below a label or annotations.
  have hstatement := isStatement_of_mem_children hzmem
  rw [isStatement_of_wrapped (wrapped?_of_base? h), hk] at hstatement
  cases hstatement

/-! ## One node of a chain -/

/-- Expressions that are no block, no `if` and no `when`. -/
def NodeKind.isSimple (k : NodeKind) : Bool :=
  k.isExpression && k != .block && k != .ifElse && k != .when_

theorem NodeKind.isSimple_of_wrapper {k : NodeKind} (h : k.role = .wrapper) : k.isSimple := by
  rcases wrapper_of_role h with ⟨label, rfl⟩ | rfl | rfl <;> rfl

/-- What is around a label or annotations is around their base. -/
theorem nearest?_of_base? {k : NodeKind} (h : x.base? = some y) (hk : k.role ≠ .wrapper) :
    y.nearest? (fun n => n.kind == k) = x.nearest? fun n => n.kind == k := by
  rw [nearest?_of_mem_children (mem_children_of_base? h), if_neg]
  rw [beq_iff_eq]
  rintro rfl
  exact hk (role_of_wrapped? (wrapped?_of_base? h))

theorem admitsHints_of_base? (h : x.base? = some y) : d.admitsHints y = d.admitsHints x := by
  rw [admitsHints, admitsHints, isInsideOneLineIf, isInsideOneLineIf,
    nearest?_of_base? h (by decide), nearest?_of_base? h (by decide)]

/-- Hints may stand behind simple nodes where nothing around them and no part forbids it. -/
theorem obstacle?_of_isSimple (hd : d.Regular) (hx : x ∈ d.nodes) (hk : x.kind.isSimple) :
    d.obstacle? x = none ↔ d.admitsHints x ∧ ¬x.IsSoleStatement ∧
      (x.isStatement = false → d.isStatementPart x) ∧
      (x.isStatement → d.statementPart? x = none) := by
  simp only [NodeKind.isSimple, Bool.and_eq_true, bne_iff_ne] at hk
  obtain ⟨⟨⟨hexpression, hblock⟩, hif⟩, hwhen⟩ := hk
  rw [obstacle?_eq_none, admitsHints, Bool.and_eq_true, Bool.not_eq_true']
  constructor
  · intro h
    obtain ⟨hliteral, hsole⟩ := (literalObstacle?_eq_none_iff hd hx).1 h.several
    exact ⟨⟨hliteral, h.outside⟩, hsole, h.part, h.whole⟩
  · rintro ⟨⟨hliteral, houtside⟩, hsole, hpart, hwhole⟩
    exact
      { isExpression := hexpression
        ne_when := hwhen
        ne_block := hblock
        isOneLine := fun h => absurd h hif
        outside := houtside
        part := hpart
        whole := hwhole
        several := (literalObstacle?_eq_none_iff hd hx).2 ⟨hliteral, hsole⟩ }

/-- Behind a base a hint may stand if it begins a line. -/
theorem obstacle?_of_base? (hd : d.Regular) (hx : x ∈ d.nodes) (h : x.base? = some y)
    (hk : y.kind.isSimple) : d.obstacle? y = none ↔ d.admitsHints x ∧ d.beginsLine y := by
  have hmem := mem_children_of_base? h
  have hstatement := isStatement_of_wrapped (wrapped?_of_base? h)
  have hpart : d.isStatementPart y ↔ d.beginsLine y := by
    rw [isStatementPart_iff hd hx hmem, statementPart?_eq_some, and_iff_right h]
  rw [obstacle?_of_isSimple hd (mem_walk_of_mem_children hx hmem) hk, hpart,
    admitsHints_of_base? h]
  simp [hstatement, not_isSoleStatement_of_base? hd hx h]

/-- Behind a statement a hint may stand if it is not the only one and its base does not begin a
    line. -/
theorem obstacle?_of_isStatement (hd : d.Regular) (hx : x ∈ d.nodes) (hk : x.kind.isSimple)
    (hstatement : x.isStatement) : d.obstacle? x = none ↔
      d.admitsHints x ∧ ¬x.IsSoleStatement ∧ ∀ y, x.base? = some y → d.beginsLine y = false := by
  have hwhole : d.statementPart? x = none ↔ ∀ y, x.base? = some y → d.beginsLine y = false := by
    simp [statementPart?, Option.filter_eq_none_iff]
  rw [obstacle?_of_isSimple hd hx hk, hwhole]
  simp [hstatement]

/-! ## Chains -/

/-- A chain of labels and annotations: a node, its base, the base of that, and so on to an
    expression without a base that is no block, no `if` and no `when`. -/
inductive IsWrapping : Place → List Place → Prop
  | inside {x : Place} : x.kind.isSimple → x.base? = none → IsWrapping x []
  | around {x y : Place} {ys : List Place} : x.base? = some y → IsWrapping y ys →
    IsWrapping x (y :: ys)

namespace IsWrapping

theorem isSimple (h : IsWrapping w ws) : w.kind.isSimple := by
  cases h with
  | inside hk => exact hk
  | around hbase => exact NodeKind.isSimple_of_wrapper (role_of_wrapped? (wrapped?_of_base? hbase))

theorem base?_eq (h : IsWrapping w ws) : w.base? = ws.head? := by
  cases h with
  | inside _ hbase => exact hbase
  | around hbase => exact hbase

/-- Hints may stand behind the bases that begin a line. -/
theorem obstacle?_eq_none_iff (h : IsWrapping w ws) (hd : d.Regular) (hw : w ∈ d.nodes) :
    ∀ x ∈ ws, d.obstacle? x = none ↔ d.admitsHints w ∧ d.beginsLine x := by
  induction h with
  | inside => nofun
  | @around w y ys hbase hys ih =>
    have hy := mem_walk_of_mem_children hw (mem_children_of_base? hbase)
    intro x hx
    rcases List.mem_cons.1 hx with rfl | hx
    · exact obstacle?_of_base? hd hw hbase hys.isSimple
    · rw [ih hy x hx, admitsHints_of_base? hbase]

end IsWrapping

/-- Of a statement with labels and annotations around an expression that is no block, no `if` and
    no `when`, let hints stand behind some node. Then they may stand behind the bases that begin a
    line, and behind the statement itself unless its base begins a line or it is the only statement
    of its function literal; so they stand behind the statement or a base that begins a line. They
    stand behind one node only, if no base of a base begins a line. -/
theorem target_of_wrapping {source : List Char} (h : Document.parse source = .ok d)
    (hw : w ∈ d.nodes) (hstatement : w.isStatement) (hwrapping : IsWrapping w ws)
    (hsome : ∃ x ∈ w :: ws, d.obstacle? x = none) :
    (d.obstacle? w = none ↔ ¬w.IsSoleStatement ∧ ∀ x ∈ ws.head?, ¬d.FollowsBreak x) ∧
    (∀ x ∈ ws, d.obstacle? x = none ↔ d.FollowsBreak x) ∧
    (∀ x ∈ w :: ws, d.obstacle? x = none → x = w ∨ d.FollowsBreak x) ∧
    ((∀ x ∈ ws.tail, ¬d.FollowsBreak x) → ∃! x, x ∈ w :: ws ∧ d.obstacle? x = none) := by
  have hd := regular_of_parse h
  have hbases := hwrapping.obstacle?_eq_none_iff hd hw
  have hfirst := obstacle?_of_isStatement hd hw hwrapping.isSimple hstatement
  -- What is around the chain admits hints, as some node has one.
  have hadmits : d.admitsHints w := by
    obtain ⟨x, hx, hno⟩ := hsome
    rcases List.mem_cons.1 hx with rfl | hx
    · exact (hfirst.1 hno).1
    · exact ((hbases x hx).1 hno).1
  simp only [hadmits, true_and, beginsLine_iff h] at hbases
  have hfirst : d.obstacle? w = none ↔
      ¬w.IsSoleStatement ∧ ∀ x ∈ ws.head?, ¬d.FollowsBreak x := by
    rw [hfirst, and_iff_right hadmits, hwrapping.base?_eq]
    simp only [Option.mem_def, ← beginsLine_iff h, Bool.not_eq_true]
  refine ⟨hfirst, hbases, fun x hx hno => ?_, fun htail => ?_⟩
  · exact (List.mem_cons.1 hx).imp_right fun hx => (hbases x hx).1 hno
  · cases ws with
    | nil =>
      obtain ⟨x, hx, hno⟩ := hsome
      obtain rfl := List.mem_singleton.1 hx
      exact ⟨x, ⟨hx, hno⟩, fun z hz => List.mem_singleton.1 hz.1⟩
    | cons y ys =>
      by_cases hy : d.FollowsBreak y
      · -- The base of the statement is the only one.
        refine ⟨y, ⟨by simp, (hbases y (by simp)).2 hy⟩, fun x ⟨hx, hno⟩ => ?_⟩
        rcases List.mem_cons.1 hx with rfl | hx
        · exact absurd hy ((hfirst.1 hno).2 y rfl)
        · rcases List.mem_cons.1 hx with rfl | hx
          · rfl
          · exact absurd ((hbases x (by simp [hx])).1 hno) (htail x hx)
      · -- No base begins a line, so that only the statement is left.
        have honly : ∀ x ∈ w :: y :: ys, d.obstacle? x = none → x = w := by
          intro x hx hno
          rcases List.mem_cons.1 hx with rfl | hx
          · rfl
          · have hbreak := (hbases x hx).1 hno
            rcases List.mem_cons.1 hx with rfl | hx
            · exact absurd hbreak hy
            · exact absurd hbreak (htail x hx)
        obtain ⟨x, hx, hno⟩ := hsome
        obtain rfl := honly x hx hno
        exact ⟨x, ⟨hx, hno⟩, fun z hz => honly z hz.1 hz.2⟩

/-- In `f{a;l@\nb}` the one node that hints may stand behind is `b`. -/
theorem target_of_label_before_line : ∃ d, Document.parse "f\x7ba;l@\nb\x7d".toList = .ok d ∧
    ∃ w ∈ d.nodes, ∃ x, w.base? = some x ∧ d.FollowsBreak x ∧
      ∃! y, y ∈ [w, x] ∧ d.obstacle? y = none := by
  have hparse : (Document.parse "f\x7ba;l@\nb\x7d".toList).toOption.any (fun d =>
      d.nodes.any fun w => w.isStatement && w.base?.any fun x =>
        x.kind.isSimple && x.base?.isNone && d.obstacle? x == none) = true := by
    decide +kernel
  obtain ⟨d, h, hp⟩ := exists_of_parse_any hparse
  simp only [List.any_eq_true, Option.any_eq_true, Bool.and_eq_true, beq_iff_eq,
    Option.isNone_iff_eq_none] at hp
  obtain ⟨w, hw, hstatement, x, hx, ⟨hk, hbase⟩, hno⟩ := hp
  obtain ⟨-, hbases, -, hunique⟩ :=
    target_of_wrapping h hw hstatement (.around hx (.inside hk hbase)) ⟨x, by simp, hno⟩
  exact ⟨d, h, w, hw, x, hx, (hbases x (by simp)).1 hno, hunique nofun⟩

/-- In `f{a;l@ m@\nb}` hints may stand behind the label `l` and behind `b`. -/
theorem two_targets_of_labels : ∃ d, Document.parse "f\x7ba;l@ m@\nb\x7d".toList = .ok d ∧
    ∃ w ∈ d.nodes, w.isStatement ∧ ∃ ws, IsWrapping w ws ∧
      (∃ x ∈ w :: ws, d.obstacle? x = none) ∧ ¬∃! x, x ∈ w :: ws ∧ d.obstacle? x = none := by
  have hparse : (Document.parse "f\x7ba;l@ m@\nb\x7d".toList).toOption.any (fun d =>
      d.nodes.any fun w => w.isStatement && w.base?.any fun x => x.base?.any fun y =>
        y.kind.isSimple && y.base?.isNone && d.obstacle? w == none && d.obstacle? y == none) =
      true := by
    decide +kernel
  obtain ⟨d, h, hp⟩ := exists_of_parse_any hparse
  simp only [List.any_eq_true, Option.any_eq_true, Bool.and_eq_true, beq_iff_eq,
    Option.isNone_iff_eq_none] at hp
  obtain ⟨w, hw, hstatement, x, hx, y, hy, ⟨⟨hk, hbase⟩, hwno⟩, hyno⟩ := hp
  refine ⟨d, h, w, hw, hstatement, [x, y], .around hx (.around hy (.inside hk hbase)),
    ⟨w, by simp, hwno⟩, ?_⟩
  rintro ⟨z, -, hunique⟩
  -- The label has a base, and `b` has none.
  have hwy : w = y := (hunique w ⟨by simp, hwno⟩).trans (hunique y ⟨by simp, hyno⟩).symm
  rw [hwy, hbase] at hx
  cases hx

end ResultHints
