import ResultHints.Proofs.Document.Plan
import ResultHints.Proofs.Syntax.Render

/-!
# Texts of documents

The rendered tree of a document tells the tree below its root: the kinds with all their
fields, the spans, and which node is above which. Main statement:

- `Plan.IsSound.dump_faithful`: of two documents built by sound plans, the rendered trees are
  the same just if the trees are, whatever characters are written by their code points.
-/

namespace ResultHints

namespace Plan

/-- The texts of two documents are the same just if the trees below their roots are. -/
theorem IsSound.dump_faithful {p p' : Plan} (h : p.IsSound) (h' : p'.IsSound)
    {root root' : NodeId} (hroot : root < p.length) (hroot' : root' < p'.length)
    (source source' : List Char) (tokens tokens' : Array Token) :
    ∃ d d', (build p).finish? source tokens root = some d ∧
      (build p').finish? source' tokens' root' = some d' ∧
      (∀ hidden, dumpBy hidden (d.root.tree.map Node.toShape) =
          dumpBy hidden (d'.root.tree.map Node.toShape) ↔
        d.root.tree.map Node.toShape = d'.root.tree.map Node.toShape) ∧
      (renderTree (d.root.tree.map Node.toShape) = renderTree (d'.root.tree.map Node.toShape) ↔
        d.root.tree.map Node.toShape = d'.root.tree.map Node.toShape) := by
  obtain ⟨d, hfinish, -⟩ := h.exists_document hroot source tokens
  obtain ⟨d', hfinish', -⟩ := h'.exists_document hroot' source' tokens'
  refine ⟨d, d', hfinish, hfinish', fun hidden => dumpBy_injective.eq_iff, ?_⟩
  rw [← String.toList_inj, toList_renderTree, toList_renderTree]
  exact dumpBy_injective.eq_iff

/-- A name that looks like the text of another node is not taken for it. -/
theorem dump_ne_of_name : ∃ p p' : Plan, p.IsSound ∧ p'.IsSound ∧ 0 < p.length ∧ 1 < p'.length ∧
    ∃ d d', (build p).finish? [] #[] 0 = some d ∧ (build p').finish? [] #[] 1 = some d' ∧
      renderTree (d.root.tree.map Node.toShape) ≠ renderTree (d'.root.tree.map Node.toShape) := by
  let p : Plan := [⟨⟨.labeled "a\" \x7d 0..1\n  Block 0..1\n", ⟨0, 1⟩⟩, []⟩]
  let p' : Plan := [⟨⟨.block, ⟨0, 1⟩⟩, []⟩, ⟨⟨.labeled "a", ⟨0, 1⟩⟩, [0]⟩]
  have hsound : p.IsSound := .concat (p := []) .nil .nil nofun
  have hsound' : p'.IsSound :=
    .concat (p := p'.take 1) (.concat (p := []) .nil .nil nofun) (by decide) (by decide)
  obtain ⟨d, d', hfinish, hfinish', -, hrender⟩ :=
    hsound.dump_faithful hsound' (show 0 < p.length by decide) (show 1 < p'.length by decide)
      [] [] #[] #[]
  refine ⟨p, p', hsound, hsound', by decide, by decide, d, d', hfinish, hfinish', ?_⟩
  rw [Ne, hrender]
  obtain rfl := Option.some.inj hfinish
  obtain rfl := Option.some.inj hfinish'
  intro hsame
  cases congrArg (fun t => t.children.length) hsame

end Plan

end ResultHints
