import ResultHints.Proofs.Document.Respace
import ResultHints.Proofs.Hint.Part

/-!
# Hints of texts with other white space

What tells the hints of a document sees of white space only whether line feeds stand in the
text of a node or right before it. So the nodes of two documents that differ in nothing but
white space have the same facts and obstacles (`Relaid.nodesAlike`), and the same hints,
behind the same tokens (`Relaid.hints_alike`). Main statement:

- `alike_of_respaced`: a text with other white space has the same tokens, the same tree or
  the same fault, and the same hints.
-/

namespace ResultHints

open Location

variable {d d' : Document} {mode : ResolveMode} {x : Place}

namespace Document

/-! ## Facts -/

namespace Relaid

variable (h : d.Relaid d')

include h

/-- Of the literals among some nodes the same nodes are the results. -/
theorem resultFacts_inside {xs : List Place} (hxs : ∀ x ∈ xs, x ∈ d.nodes) :
    resultFacts ((xs.map (d'.inside (d.relabeling d'))).filter (·.kind == .functionLiteral)) =
      resultFacts (xs.filter (·.kind == .functionLiteral)) := by
  have hfilter : (xs.map (d'.inside (d.relabeling d'))).filter (·.kind == .functionLiteral) =
      (xs.filter (·.kind == .functionLiteral)).map (d'.inside (d.relabeling d')) := by
    rw [List.filter_map]
    refine congrArg _ (List.filter_congr fun x hx => ?_)
    exact apply_kind_inside (F := (· == .functionLiteral)) (fun _ _ => rfl) h.regular
      h.regular'.isFile (hxs x hx)
  rw [hfilter, resultFacts, resultFacts, List.foldl_map]
  refine List.foldl_ext _ _ _ fun f x hx => ?_
  obtain ⟨hmem, hk⟩ := List.mem_filter.1 hx
  have hne : x ≠ d.root := h.regular.ne_root (by rw [beq_iff_eq.1 hk]; nofun)
  have hresults : (d'.inside (d.relabeling d') x).results = x.results :=
    (results_inside (Regular.above_ne_nil (hxs x hmem) hne)).trans (List.map_id' _)
  rw [hresults]

/-- Analyses of corresponding nodes find the same. -/
theorem factsOf_inside (hx : x ∈ d.nodes) (mode : ResolveMode) :
    factsOf (d'.inside (d.relabeling d') x) mode = factsOf x mode := by
  cases mode with
  | declarations => rfl
  | enclosing =>
    rw [factsOf_enclosing, factsOf_enclosing, enclosingLiterals, inside, ancestors_graft]
    exact h.resultFacts_inside fun y hy => h.regular.mem_of_mem_ancestors hx hy
  | everything =>
    have htop : x.top = d.root := top_of_mem_walk h.regular.above hx
    have htop' : (d'.inside (d.relabeling d') x).top = d'.root :=
      top_of_mem_walk h.regular'.above (h.part.mem_nodes h.regular h.regular' hx)
    have hnodes := h.resultFacts_inside fun y (hy : y ∈ d.nodes) => hy
    rw [← h.nodes_eq] at hnodes
    rw [factsOf_everything, factsOf_everything, htop, htop']
    exact hnodes

end Relaid

/-! ## Nodes -/

/-- The nodes stand for the same and at the same tokens; the same stands in the way of a hint, if
    anything, and analyses find the same. -/
structure NodesAlike (ts ts' : List Token) (d d' : Document) (x x' : Place) : Prop where
  id : x'.id = x.id
  kind : x'.kind.untyped = x.kind.untyped
  start : SameOffset ts ts' x.span.start x'.span.start
  stop : SameOffset ts ts' x.span.stop x'.span.stop
  obstacle? : d'.obstacle? x' = d.obstacle? x
  facts : ∀ mode, factsOf x' mode = factsOf x mode

/-- The documents have the same tree, but for the texts of types, and their nodes are alike, one
    by one. -/
structure Alike (ts ts' : List Token) (d d' : Document) : Prop where
  tree : d'.root.tree.map Node.bare = d.root.tree.map Node.bare
  nodes : List.Forall₂ (NodesAlike ts ts' d d') d.nodes d'.nodes

end Document

/-- The hints show the same, about the same lambda, and behind the same token. -/
structure Hint.Alike (ts ts' : List Token) (h h' : Hint) : Prop where
  display : h'.display = h.display
  scope : h'.scope = h.scope
  anchor : ∃ (i : Nat) (t t' : Token), ts[i]? = some t ∧ ts'[i]? = some t' ∧
    t.stop = h.anchor ∧ t'.stop = h'.anchor

namespace Document

theorem obstacle?_root (hd : d.Regular) : d.obstacle? d.root = some .notExpression := by
  rw [obstacle?, hd.isFile]
  rfl

namespace Relaid

variable (h : d.Relaid d')

include h

theorem nodesAlike (hx : x ∈ d.nodes) : NodesAlike d.tokens.toList d'.tokens.toList d d' x
    (d'.inside (d.relabeling d') x) where
  id := by
    rw [Location.id, h.label_inside hx]
    rfl
  kind := by
    rw [Location.kind, h.label_inside hx]
    exact (d.relabeling d').untyped_kind x.label
  start := by
    rw [Location.span, Location.span, h.label_inside hx]
    exact (h.sameOffset_span hx).1
  stop := by
    rw [Location.span, Location.span, h.label_inside hx]
    exact (h.sameOffset_span hx).2
  obstacle? := by
    by_cases hne : x = d.root
    · rw [hne, h.inside_root, obstacle?_root h.regular, obstacle?_root h.regular']
    · exact h.part.obstacle?_inside h.regular h.regular' hx hne
  facts := h.factsOf_inside hx

theorem alike : Alike d.tokens.toList d'.tokens.toList d d' where
  tree := by
    rw [h.tree, Tree.map_map]
    refine congrArg (Tree.map · d.root.tree) (funext fun a => ?_)
    exact congrArg (·, a.id) ((d.relabeling d').untyped_kind a)
  nodes := by
    rw [h.nodes_eq, List.forall₂_map_right_iff, List.forall₂_same]
    exact fun x hx => h.nodesAlike hx

/-! ## Hints -/

theorem hint_alike {a : Hint} (ha : a ∈ d.hintsBelow mode) :
    a.Alike d.tokens.toList d'.tokens.toList (a.relabel (d.relabeling d')) := by
  obtain ⟨t, ht, hstop⟩ := exists_token_of_mem_hintsBelow h.regular ha
  obtain ⟨i, hi⟩ := List.getElem?_of_mem ht
  have hlt : i < d'.tokens.toList.length := by
    rw [h.length_tokens]
    exact (List.getElem?_eq_some_iff.1 hi).1
  have hi' := List.getElem?_eq_getElem hlt
  have hsame := (sameOffset_of_getElem? h.tiling h.tiling' hi hi').2
  refine ⟨rfl, rfl, i, t, _, hi, hi', hstop, ?_⟩
  rw [← transfer_of_sameOffset h.tiling hsame, hstop]
  rfl

theorem sameOffset_anchor {a : Hint} (ha : a ∈ d.hintsBelow mode) :
    SameOffset d.tokens.toList d'.tokens.toList a.anchor (a.relabel (d.relabeling d')).anchor := by
  obtain ⟨i, t, t', ht, ht', hstop, hstop'⟩ := (h.hint_alike ha).anchor
  rw [← hstop, ← hstop']
  exact (sameOffset_of_getElem? h.tiling h.tiling' ht ht').2

theorem hints_eq (mode : ResolveMode) :
    d'.hints mode none = (d.hints mode none).map (Hint.relabel (d.relabeling d')) := by
  have hbelow : d'.hintsBelow mode = (d.hintsBelow mode).map (Hint.relabel (d.relabeling d')) := by
    rw [hintsBelow, h.descendants_eq]
    exact h.part.filterMap_ownHint? h.regular h.regular' mode
  rw [hints_eq_hintsBelow h.regular, hints_eq_hintsBelow h.regular', hbelow, List.map_mergeSort]
  intro a ha b hb
  rw [Hint.le, Hint.le, decide_eq_decide]
  exact (h.sameOffset_anchor ha).le_iff h.tiling h.tiling' h.length_tokens (h.sameOffset_anchor hb)

theorem hints_alike (mode : ResolveMode) :
    List.Forall₂ (Hint.Alike d.tokens.toList d'.tokens.toList) (d.hints mode none)
      (d'.hints mode none) := by
  rw [h.hints_eq, List.forall₂_map_right_iff, List.forall₂_same]
  intro a ha
  rw [hints_eq_hintsBelow h.regular, List.mem_mergeSort] at ha
  exact h.hint_alike ha

end Relaid

end Document

/-! ## Texts -/

/-- There are no hints of the texts for the same reason: of both the same fault, at the same token,
    or settings that are refused. -/
inductive HintError.Alike (ts ts' : List Token) : HintError → HintError → Prop
  | source {fault fault' : Fault} : fault.Alike ts ts' fault' →
    Alike ts ts' (.source fault) (.source fault')
  | settings {e : SettingsError} : Alike ts ts' (.settings e) (.settings e)

variable {source source' : List Char} {tokens : List Token}

/-- A text with other white space in the place of each token of white space, with a line feed
    where that one has one, is read in the same way: its tokens are the same but for that; its
    tree is the same, and stands at the same tokens, or it has the same fault at the same token;
    and the same hints are shown, behind the same tokens. -/
theorem alike_of_respaced (h : tokenize source = .ok tokens)
    (hspaced : Respaced false tokens source') :
    ∃ tokens', tokenize source' = .ok tokens' ∧ List.Forall₂ Token.Alike tokens tokens' ∧
      SameOutcome (Fault.Alike tokens tokens') (Document.Alike tokens tokens')
        (Document.parse source) (Document.parse source') ∧
      ∀ settings, SameOutcome (HintError.Alike tokens tokens')
        (List.Forall₂ (Hint.Alike tokens tokens')) (analyzeSource settings none source)
        (analyzeSource settings none source') := by
  obtain ⟨tokens', h', halike⟩ := tokenize_respaced h hspaced
  have hparse := parse_alike_of_tokens h h' halike
  refine ⟨tokens', h', halike, hparse.imp ?_, fun settings => ?_⟩
  · rintro d d' ⟨rfl, rfl, hrelaid⟩
    exact hrelaid.alike
  · rw [analyzeSource, analyzeSource]
    split
    · exact .ok .nil
    · cases settings.validate with
      | error e => exact .error .settings
      | ok s =>
        refine hparse.bind (fun _ _ => .source) ?_
        rintro d d' ⟨rfl, rfl, hrelaid⟩
        exact hrelaid.hints_alike s.mode

/-- Before `f{a;b}` a tab in the place of a blank, and an empty line behind a comment: the hint
    stays behind the token `b`. -/
theorem alike_of_respaced_comment : ∃ tokens tokens' hints hints',
    tokenize "g //c\nf{a;b}".toList = .ok tokens ∧
      tokenize "g\t//c\n\n f{a;b}".toList = .ok tokens' ∧
      Respaced false tokens "g\t//c\n\n f{a;b}".toList ∧
      analyzeSource ⟨true, .enclosing⟩ none "g //c\nf{a;b}".toList = .ok hints ∧
      analyzeSource ⟨true, .enclosing⟩ none "g\t//c\n\n f{a;b}".toList = .ok hints' ∧
      List.Forall₂ (Hint.Alike tokens tokens') hints hints' ∧ hints.map (·.anchor) = [11] := by
  have htext : "g\t//c\n\n f{a;b}".toList = ['g'] ++ (['\t'] ++ (['/', '/', 'c'] ++
      (['\n', '\n', ' '] ++ (['f'] ++ (['{'] ++ (['a'] ++ ([';'] ++ (['b'] ++ (['}'] ++
        []))))))))) := by
    decide +kernel
  obtain ⟨tokens, htokens, hspaced⟩ : ∃ tokens, tokenize "g //c\nf{a;b}".toList = .ok tokens ∧
      Respaced false tokens "g\t//c\n\n f{a;b}".toList := by
    refine ⟨[⟨.identifier, 0, ['g']⟩, ⟨.trivia .blank, 1, [' ']⟩,
      ⟨.trivia .lineComment, 2, ['/', '/', 'c']⟩, ⟨.trivia .blank, 5, ['\n']⟩,
      ⟨.identifier, 6, ['f']⟩, ⟨.symbol .leftBrace, 7, ['{']⟩, ⟨.identifier, 8, ['a']⟩,
      ⟨.symbol .semicolon, 9, [';']⟩, ⟨.identifier, 10, ['b']⟩, ⟨.symbol .rightBrace, 11, ['}']⟩],
      by decide +kernel, ?_⟩
    rw [htext]
    have htab : ∀ c ∈ ['\t'], isBlank c := List.all_eq_true.1 (by decide)
    have hbreaks : ∀ c ∈ ['\n', '\n', ' '], isBlank c := List.all_eq_true.1 (by decide)
    exact .keep nofun <| .blank rfl nofun htab (by simp) nofun <| .keep nofun <|
      .blank rfl nofun hbreaks (by simp) (fun _ => rfl) <| .keep nofun <| .keep nofun <|
      .keep nofun <| .keep nofun <| .keep nofun <| .keep nofun .nil
  obtain ⟨hints, h, hanchors⟩ : ∃ hints,
      analyzeSource ⟨true, .enclosing⟩ none "g //c\nf{a;b}".toList = .ok hints ∧
        hints.map (·.anchor) = [11] := by
    have hshown : (analyzeSource ⟨true, .enclosing⟩ none "g //c\nf{a;b}".toList).toOption.map
        (List.map (·.anchor)) = some [11] := by
      decide +kernel
    cases h : analyzeSource ⟨true, .enclosing⟩ none "g //c\nf{a;b}".toList with
    | ok hints =>
      rw [h] at hshown
      exact ⟨hints, rfl, Option.some.inj hshown⟩
    | error e =>
      rw [h] at hshown
      cases hshown
  obtain ⟨tokens', htokens', -, -, hboth⟩ := alike_of_respaced htokens hspaced
  obtain ⟨hints', h', halike⟩ := (hboth ⟨true, .enclosing⟩).exists_of_ok h
  exact ⟨tokens, tokens', hints, hints', htokens, htokens', hspaced, h, h', halike, hanchors⟩

end ResultHints
