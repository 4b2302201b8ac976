import ResultHints.Proofs.Document.Regular
import ResultHints.Proofs.Grammar.Made

/-!
# How the nodes of a document are made

The names, the labels and the operators of a source text, as `Makes` tells of them. Main
statements:

- `precedence_of_parse`: the left operand of an operator is made by no looser operator, but
  perhaps by a type test, and the right operand by tighter operators only;
- `precedence_of_typeTest_times`: a type test is a looser left operand where an operator
  follows its type.
-/

namespace ResultHints

/-- Of a source text, all nodes are made of the lexemes of the text. -/
theorem makes_of_parse {source : List Char} {d : Document} (h : Document.parse source = .ok d)
    {x : Place} (hx : x ∈ d.nodes) : Makes d.lexemes x.tree := by
  obtain ⟨tokens, u, s', -, hfile, rfl⟩ := exists_of_parse h
  have hroot : u.Each (Makes (lexemes false tokens)) :=
    List.forall_mem_singleton.1 (made_of_readsFile (readsFile_of_file hfile)).makes
  have hall := Location.walk_induction (P := fun x => x.tree.Each (Makes (lexemes false tokens)))
    hroot (fun p hp y hy => hp.child (Location.tree_mem_of_mem_children hy)) hx
  exact hall.self

/-- An operator with a level has a left and a right operand. The operators that made the left one
    are as tight or tighter, unless it is a type test; those that made the right one are tighter. -/
theorem precedence_of_parse {source : List Char} {d : Document}
    (h : Document.parse source = .ok d) {x : Place} (hx : x ∈ d.nodes) {level : Precedence}
    (hlevel : x.kind.precedence? = some level) : ∃ left right, x.children = [left, right] ∧
      (∀ other, left.kind.precedence? = some other → left.kind.isTypeTest = false →
        level.rank ≤ other.rank) ∧
      ∀ other, right.kind.precedence? = some other → level.rank < other.rank := by
  obtain ⟨least, u, v, hchildren, hleft, hright⟩ := (makes_of_parse h hx).operands hlevel
  rw [← Location.map_tree_children] at hchildren
  obtain ⟨left, ys, hxs, rfl, hys⟩ := List.map_eq_cons_iff.1 hchildren
  obtain ⟨right, rfl, rfl⟩ := List.map_eq_singleton_iff.1 hys
  exact ⟨left, right, hxs, fun _ => hleft.left, hright⟩

/-- In `a + b * c == d` the left operand of `==` is made by `+`, which is tighter. -/
theorem precedence_of_sum_equal : ∃ d, Document.parse "a + b * c == d".toList = .ok d ∧
    ∃ x ∈ d.nodes, x.kind = .binary .equal ∧ ∃ left right, x.children = [left, right] ∧
      left.kind = .binary .plus ∧ Precedence.equality.rank ≤ Precedence.additive.rank := by
  have hparse : (Document.parse "a + b * c == d".toList).toOption.any (fun d =>
      d.nodes.any fun x => x.kind == .binary .equal &&
        (x.children.head?.any fun y => y.kind == .binary .plus)) = true := by
    decide +kernel
  obtain ⟨d, h, hp⟩ := exists_of_parse_any hparse
  simp only [List.any_eq_true, Option.any_eq_true, Bool.and_eq_true, beq_iff_eq] at hp
  obtain ⟨x, hx, hk, y, hy, hplus⟩ := hp
  have hlevel : x.kind.precedence? = some .equality := by rw [hk]; rfl
  obtain ⟨left, right, hchildren, hleft, -⟩ := precedence_of_parse h hx hlevel
  obtain rfl : left = y := by
    rw [hchildren] at hy
    exact Option.some.inj hy
  refine ⟨d, h, x, hx, hk, left, right, hchildren, hplus, hleft _ ?_ ?_⟩ <;> rw [hplus] <;> rfl

/-- In `a is T * b` the left operand of `*` is the type test, which is looser. -/
theorem precedence_of_typeTest_times : ∃ d, Document.parse "a is T * b".toList = .ok d ∧
    ∃ x ∈ d.nodes, ∃ left right, x.children = [left, right] ∧
      x.kind.precedence? = some .multiplicative ∧ left.kind.precedence? = some .namedCheck ∧
      Precedence.namedCheck.rank < Precedence.multiplicative.rank := by
  have hparse : (Document.parse "a is T * b".toList).toOption.any (fun d =>
      d.nodes.any fun x => x.kind.precedence? == some .multiplicative &&
        (x.children.map fun y => y.kind.precedence?) == [some .namedCheck, none]) = true := by
    decide +kernel
  obtain ⟨d, h, hp⟩ := exists_of_parse_any hparse
  simp only [List.any_eq_true, Bool.and_eq_true, beq_iff_eq] at hp
  obtain ⟨x, hx, hlevel, hchildren⟩ := hp
  obtain ⟨left, ys, hxs, hleft, hys⟩ := List.map_eq_cons_iff.1 hchildren
  obtain ⟨right, rfl, -⟩ := List.map_eq_singleton_iff.1 hys
  exact ⟨d, h, x, hx, left, right, hxs, hlevel, hleft, by decide⟩

end ResultHints
