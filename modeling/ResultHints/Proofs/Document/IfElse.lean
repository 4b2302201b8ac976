import ResultHints.Proofs.Document.Children
import ResultHints.Proofs.Grammar.IfElse

/-!
# Branches of a document

Every `else` belongs to the nearest `if` that is open before it. Main statements:

- `exists_else_iff_of_parse`: an `if` has an else branch if and only if an `else` is ahead where its
  then branch ends;
- `span_stop_ne_of_no_else`: so an `if` without one never stands at the end of the then branch of
  an `if` that has one.
-/

namespace ResultHints

variable {source : List Char} {d : Document} {x t y : Place}

/-- Every `if` of a source text was read as such. -/
theorem readAlone_of_parse (h : Document.parse source = .ok d) (hx : x ∈ d.nodes)
    (hk : x.kind = .ifElse) : ReadAlone d.lexemes x.tree := by
  have hd := regular_of_parse h
  have hfinish : ∀ t ∈ d.lexemes, t.stop ≤ byteLength d.source := fun t ht =>
    (hd.boundaries t ht).2.le
  obtain ⟨tokens, u, s', -, hfile, rfl⟩ := exists_of_parse h
  have hs : Cursor.On (lexemes false tokens) (Cursor.ofTokens source tokens) :=
    ⟨⟨[], rfl, rfl⟩, hfinish⟩
  have hroot := List.forall_mem_singleton.1
    (ifsRead_of_readsFile (readsFile_of_file hfile) hs (Nat.le_refl _))
  have hall := Location.walk_induction
    (P := fun x => x.tree.Each fun v : Fragment =>
      v.label.kind = .ifElse → ReadAlone (lexemes false tokens) v)
    hroot (fun p hp y hy => hp.child (Location.tree_mem_of_mem_children hy)) hx
  exact hall.self hk

/-- An `if` has an else branch if and only if an `else` is ahead of the place among the lexemes
    where its then branch ends. If it has none, it ends there as well. -/
theorem exists_else_iff_of_parse (h : Document.parse source = .ok d) (hx : x ∈ d.nodes)
    (hk : x.kind = .ifElse) : ∃ s : Cursor, s.On d.lexemes ∧
      (∀ t ∈ x.children, t.kind = .thenBranch →
        lexemesAfter d.lexemes t.span.stop = s.rest.length) ∧
      (s.elseAhead ↔ ∃ e ∈ x.children, e.kind = .elseBranch) ∧
      ((∀ e ∈ x.children, e.kind ≠ .elseBranch) →
        lexemesAfter d.lexemes x.span.stop = s.rest.length) := by
  have hd := regular_of_parse h
  obtain ⟨s, c₀, b₀, es₀, hs, hchildren, hstop, hiff, hend⟩ :=
    (readAlone_of_parse h hx hk).branches hd.ordered hk
  obtain ⟨c, t, hc, ht, hxs⟩ := hd.children_of_ifElse hx hk
  obtain ⟨es, hxs, hes⟩ : ∃ es, x.children = c :: t :: es ∧ ∀ e ∈ es, e.kind = .elseBranch := by
    rcases hxs with hxs | ⟨e, he, hxs⟩
    · exact ⟨[], hxs, nofun⟩
    · exact ⟨[e], hxs, List.forall_mem_singleton.2 he⟩
  rw [← Location.map_tree_children, hxs] at hchildren
  cases hchildren
  have helse : es.map Location.tree ≠ [] ↔ ∃ e ∈ x.children, e.kind = .elseBranch := by
    rw [hxs]
    cases es with
    | nil => simp [hc, ht]
    | cons e es => simp [hes e List.mem_cons_self]
  refine ⟨s, hs, ?_, hiff.trans helse, fun hno => hend ?_⟩
  · rw [hxs]
    rintro t' ht' hkind
    rcases List.mem_cons.1 ht' with rfl | ht'
    · cases hc.symm.trans hkind
    · rcases List.mem_cons.1 ht' with rfl | ht'
      · exact hstop
      · cases (hes t' ht').symm.trans hkind
  · by_contra hne
    obtain ⟨e, he, hkind⟩ := helse.1 hne
    exact hno e he hkind

/-- If an `if` has an else branch, then no `if` inside its then branch that has none ends where that
    branch does. -/
theorem span_stop_ne_of_no_else (h : Document.parse source = .ok d) (hx : x ∈ d.nodes)
    (hk : x.kind = .ifElse) (helse : ∃ e ∈ x.children, e.kind = .elseBranch) (ht : t ∈ x.children)
    (hthen : t.kind = .thenBranch) (hy : y ∈ t.descendants) (hif : y.kind = .ifElse)
    (hno : ∀ e ∈ y.children, e.kind ≠ .elseBranch) : y.span.stop ≠ t.span.stop := by
  intro hsame
  have hmem : y ∈ d.nodes :=
    Location.mem_walk_of_mem_descendants (Location.mem_walk_of_mem_children hx ht) hy
  obtain ⟨s, hs, hstop, hahead, -⟩ := exists_else_iff_of_parse h hx hk
  obtain ⟨s', hs', -, hahead', hend⟩ := exists_else_iff_of_parse h hmem hif
  -- Both stand before the same lexemes, so the `else` is ahead of both.
  have hrest : s'.rest = s.rest := by
    refine hs'.rest_eq hs ?_
    rw [← hend hno, ← hstop t ht hthen, hsame]
  obtain ⟨e, he, hkind⟩ := hahead'.1 (Cursor.elseAhead_of_rest_eq hrest ▸ hahead.2 helse)
  exact hno e he hkind

/-- In `if (a) { if (b) c } else d` the inner `if` has no else branch, and ends before the brace. -/
theorem span_stop_ne_of_inner_if : ∃ d, Document.parse "if (a) { if (b) c } else d".toList = .ok d ∧
    ∃ x ∈ d.nodes, x.kind = .ifElse ∧ (∃ e ∈ x.children, e.kind = .elseBranch) ∧
      ∃ t ∈ x.children, t.kind = .thenBranch ∧ ∃ y ∈ t.descendants, y.kind = .ifElse ∧
        (∀ e ∈ y.children, e.kind ≠ .elseBranch) ∧ y.span.stop ≠ t.span.stop := by
  have hparse : (Document.parse "if (a) { if (b) c } else d".toList).toOption.any (fun d =>
      d.nodes.any fun x => x.kind == .ifElse && x.children.any (fun e => e.kind == .elseBranch) &&
        x.children.any fun t => t.kind == .thenBranch && t.descendants.any fun y =>
          y.kind == .ifElse && y.children.all fun e => e.kind != .elseBranch) = true := by
    decide +kernel
  obtain ⟨d, h, hp⟩ := exists_of_parse_any hparse
  simp only [List.any_eq_true, List.all_eq_true, Bool.and_eq_true, beq_iff_eq, bne_iff_ne] at hp
  obtain ⟨x, hx, ⟨hk, helse⟩, t, ht, hthen, y, hy, hif, hno⟩ := hp
  exact ⟨d, h, x, hx, hk, helse, t, ht, hthen, y, hy, hif, hno,
    span_stop_ne_of_no_else h hx hk helse ht hthen hy hif hno⟩

end ResultHints
