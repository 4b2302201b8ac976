import ResultHints.Proofs.Document.Ids
import ResultHints.Proofs.Flow.Path

/-!
# Labels, annotations and parentheses

A label, annotations or parentheses whose value is looked for are results because of what
they stand around, but it is not needed that this is a result itself: it is enough that it
is an expression. Main statements:

- `wrapper_mem_results`: what is wrapped is a result just if its wrapper is one and it may
  have a value, and a wrapper is one just if it stands around an expression;
- `wrapper_around_return`: the parentheses around a `return` are a result, and the `return`
  is none.
-/

namespace ResultHints

open Location Relation

variable {d : Document} {x y w base body literal : Place}

/-- Expressions that have no value: jumps, loops, assignments, an `if` or a `when` without a branch
    for every case, and labels and annotations around no expression. -/
def Location.isValueless (x : Place) : Bool :=
  match x.kind with
  | .jump _ | .whileLoop | .forLoop _ => true
  | .binary op => op.isAssignment
  | .ifElse | .when_ => !x.isExhaustive
  | .labeled _ | .annotated => !x.base?.any fun y => y.kind.isExpression
  | _ => false

/-- An expression yields a value, unless it is one of those that have none. -/
theorem Location.yields_eq (hd : d.Regular) (hx : x ∈ d.nodes) (h : x.kind.isExpression) :
    x.yields = !x.isValueless := by
  unfold yields isValueless
  cases hk : x.kind with
  | binary op => cases op <;> rfl
  | ifElse | when_ => exact (Bool.not_not _).symm
  | labeled | annotated =>
    have hwrapped : x.wrapped? = x.base? := if_neg (by simp [hk])
    simp [NodeKind.role, hwrapped]
  | parenthesized =>
    -- Parentheses always stand around an expression.
    obtain ⟨y, hchildren, hy⟩ := hd.children_of_parenthesized hx hk
    simp [NodeKind.role, wrapped?, hk, hchildren, NodeKind.isExpression_of_isValue hy]
  | block | lambda | call | nameReference | qualified | arrayAccess | leading | trailing
  | typeTest | cast | literal | this | whileLoop | forLoop | jump => rfl
  | _ => rw [hk] at h; cases h

theorem Location.yields_of_wrapper (h : x.kind.role = .wrapper) :
    x.yields = x.wrapped?.any fun y => y.kind.isExpression := by
  rw [yields, h]

/-- What the steps from the body of a literal lead to is a result if it yields a value. -/
theorem mem_results_of_path (hd : d.Regular) (hl : literal ∈ d.nodes)
    (hbody : literal.body? = some body) (hpath : TransGen ResultStep body x) :
    x.id ∈ literal.results ↔ x.yields := by
  have hnode := mem_walk_of_mem_children hl (body?_eq_some hbody).2.1
  rw [mem_results_iff hd hl (mem_nodes_of_path hpath.to_reflTransGen hnode)]
  constructor
  · rintro ⟨_, _, _, h⟩
    exact h
  · exact fun h => ⟨body, hbody, hpath, h⟩

/-- What a label, annotations or parentheses stand around is a result just if they are and it is
    an expression with a value. -/
theorem wrapped_mem_results (hd : d.Regular) (hl : literal ∈ d.nodes)
    (hbody : literal.body? = some body) (hpath : TransGen ResultStep body w)
    (hbase : w.wrapped? = some base) :
    base.id ∈ literal.results ↔ w.id ∈ literal.results ∧ base.isValueless = false := by
  have hnode := mem_walk_of_mem_children hl (body?_eq_some hbody).2.1
  have hw := mem_nodes_of_path hpath.to_reflTransGen hnode
  have hb := (ResultStep.wrapped hbase).mem_nodes hw
  rw [mem_results_of_path hd hl hbody hpath,
    mem_results_of_path hd hl hbody (hpath.tail (.wrapped hbase)),
    yields_of_wrapper (role_of_wrapped? hbase), hbase, Option.any_some]
  cases hk : base.kind.isExpression with
  | true => simp [yields_eq hd hb hk]
  | false =>
    -- What is no expression yields nothing either.
    have hno : base.yields = false := by
      cases hy : base.yields with
      | true => exact (isExpression_of_yields hy).symm.trans hk
      | false => rfl
    simp [hno]

/-- Whether parentheses around a node of the given kind are a result of some function literal. -/
def Document.hasResultAround (d : Document) (kind : NodeKind) : Bool :=
  d.nodes.any fun literal => d.nodes.any fun w => w.kind == .parenthesized &&
    literal.results.contains w.id && w.children.any fun base => base.kind == kind

theorem exists_of_hasResultAround {kind : NodeKind} (hd : d.Regular)
    (h : d.hasResultAround kind) :
    ∃ literal ∈ d.nodes, ∃ body, literal.body? = some body ∧
      ∃ w, TransGen ResultStep body w ∧ w.kind = .parenthesized ∧ w.id ∈ literal.results ∧
        ∃ base, w.wrapped? = some base ∧ base.kind = kind := by
  simp only [Document.hasResultAround, List.any_eq_true, Bool.and_eq_true, beq_iff_eq,
    List.contains_eq_mem, decide_eq_true_eq] at h
  obtain ⟨literal, hl, w, hw, ⟨hk, hresult⟩, base, hbase, hkind⟩ := h
  obtain ⟨body, hbody, hpath, -⟩ := (mem_results_iff hd hl hw).1 hresult
  refine ⟨literal, hl, body, hbody, w, hpath, hk, hresult, base, ?_, hkind⟩
  -- Parentheses have no other child.
  obtain ⟨y, hchildren, -⟩ := hd.children_of_parenthesized hw hk
  rw [hchildren, List.mem_singleton] at hbase
  rw [wrapped?, if_pos hk, hchildren, hbase, List.head?_cons]

/-- When the results of a function literal are looked for, and a label, annotations or parentheses
    are come to: they are a result if they stand around an expression, and not otherwise. What
    they stand around is a result if they are one, unless it is an expression that has no value;
    it is never a result without them. -/
theorem wrapper_mem_results {source : List Char} (h : Document.parse source = .ok d)
    (hl : literal ∈ d.nodes) (hbody : literal.body? = some body)
    (hpath : TransGen ResultStep body w)
    (hw : (∃ label, w.kind = .labeled label) ∨ w.kind = .annotated ∨ w.kind = .parenthesized) :
    (w.id ∈ literal.results ↔ ∃ base, w.wrapped? = some base ∧ base.kind.isExpression) ∧
    ∀ base, w.wrapped? = some base →
      (base.isValueless = false → (w.id ∈ literal.results ↔ base.id ∈ literal.results)) ∧
      (base.isValueless → base.kind.isExpression →
        w.id ∈ literal.results ∧ base.id ∉ literal.results) ∧
      (base.id ∈ literal.results → w.id ∈ literal.results) := by
  have hd := regular_of_parse h
  have hrole : w.kind.role = .wrapper := by
    rcases hw with ⟨label, hk⟩ | hk | hk <;> rw [hk] <;> rfl
  have hresult : w.id ∈ literal.results ↔ ∃ base, w.wrapped? = some base ∧
      base.kind.isExpression := by
    rw [mem_results_of_path hd hl hbody hpath, yields_of_wrapper hrole, Option.any_eq_true]
  refine ⟨hresult, fun base hbase => ?_⟩
  have hiff := wrapped_mem_results hd hl hbody hpath hbase
  refine ⟨fun hvalue => ?_, fun hno hk => ⟨hresult.2 ⟨base, hbase, hk⟩, fun hmem => ?_⟩,
    fun hmem => (hiff.1 hmem).1⟩
  · rw [hiff, hvalue, and_iff_left rfl]
  · exact absurd (hno.symm.trans (hiff.1 hmem).2) nofun

/-- In `f{a;(b)}` the parentheses are a result of the function literal, and so is `b`. -/
theorem wrapper_mem_results_of_name : ∃ d, Document.parse "f{a;(b)}".toList = .ok d ∧
    ∃ literal ∈ d.nodes, ∃ body, literal.body? = some body ∧
      ∃ w, TransGen ResultStep body w ∧ w.kind = .parenthesized ∧
        ∃ base, w.wrapped? = some base ∧ base.kind = .nameReference "b" ∧
          w.id ∈ literal.results ∧ base.id ∈ literal.results := by
  have hparse : (Document.parse "f{a;(b)}".toList).toOption.any
      (·.hasResultAround (.nameReference "b")) := by decide +kernel
  obtain ⟨d, h, hp⟩ := exists_of_parse_any hparse
  obtain ⟨literal, hl, body, hbody, w, hpath, hk, hresult, base, hbase, hkind⟩ :=
    exists_of_hasResultAround (regular_of_parse h) hp
  have hvalue : base.isValueless = false := by rw [isValueless, hkind]
  have hboth := ((wrapper_mem_results h hl hbody hpath (.inr (.inr hk))).2 base hbase).1 hvalue
  exact ⟨d, h, literal, hl, body, hbody, w, hpath, hk, base, hbase, hkind, hresult,
    hboth.1 hresult⟩

/-- In `f{a;(return)}` the parentheses are a result of the function literal, and the `return` in
    them is none. -/
theorem wrapper_around_return : ∃ d, Document.parse "f{a;(return)}".toList = .ok d ∧
    ∃ literal ∈ d.nodes, ∃ body, literal.body? = some body ∧
      ∃ w, TransGen ResultStep body w ∧ w.kind = .parenthesized ∧
        ∃ base, w.wrapped? = some base ∧ base.kind = .jump (.return_ none) ∧
          w.id ∈ literal.results ∧ base.id ∉ literal.results := by
  have hparse : (Document.parse "f{a;(return)}".toList).toOption.any
      (·.hasResultAround (.jump (.return_ none))) := by decide +kernel
  obtain ⟨d, h, hp⟩ := exists_of_parse_any hparse
  have hd := regular_of_parse h
  obtain ⟨literal, hl, body, hbody, w, hpath, hk, hresult, base, hbase, hkind⟩ :=
    exists_of_hasResultAround hd hp
  refine ⟨d, h, literal, hl, body, hbody, w, hpath, hk, base, hbase, hkind, hresult, fun hmem => ?_⟩
  have hvalue := ((wrapped_mem_results hd hl hbody hpath hbase).1 hmem).2
  rw [isValueless, hkind] at hvalue
  cases hvalue

end ResultHints
