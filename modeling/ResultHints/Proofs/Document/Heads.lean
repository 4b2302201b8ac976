import ResultHints.Proofs.Document.Extent
import ResultHints.Proofs.Grammar.FileJoin
import ResultHints.Proofs.Grammar.Heads

/-!
# Tokens that come back as nodes

Of the tokens of a source text, those that tell what they begin are the first of one node
each, and no node that begins with such a token is without it. Main statement:

- `heads_of_parse`: the tokens with heads and the nodes with heads, and the opening braces
  and the nodes that have one.
-/

namespace ResultHints

open Reader

/-! ## Opening braces by place -/

theorem ite_eq_toNat (b : Bool) : (if b = true then 1 else 0) = b.toNat := by
  cases b <;> rfl

namespace Location

/-- The block in a lambda, which has no brace of its own. -/
def isLambdaBody (x : Place) : Bool :=
  x.kind == .block && x.parent?.any fun p => p.kind == .functionLiteral

/-- Whether a node has an opening brace. -/
def opensBrace (x : Place) : Bool :=
  x.kind.opensBrace (x.parent?.any fun p => p.kind == .functionLiteral)

/-- The nodes that have a brace are the lambdas, the `when`s, and the blocks that are not in a
    lambda. -/
theorem countP_opensBrace (xs : List Place) : xs.countP opensBrace =
    xs.countP (fun x => x.kind == .lambda) + xs.countP (fun x => x.kind == .when_) +
      xs.countP (fun x => x.kind == .block && !x.isLambdaBody) := by
  induction xs with
  | nil => rfl
  | cons x xs ih =>
    have hone : x.opensBrace.toNat = (x.kind == .lambda).toNat + (x.kind == .when_).toNat +
        (x.kind == .block && !x.isLambdaBody).toNat := by
      rw [opensBrace, isLambdaBody]
      cases x.kind <;> cases (x.parent?.any fun p => p.kind == .functionLiteral) <;> rfl
    simp only [List.countP_cons, ih, ite_eq_toNat]
    omega

mutual
theorem countP_all (above : List (Tree Node)) : (t : Tree Node) →
    (all above t).countP opensBrace =
      bracesOf (above.head?.any fun s => s.label.kind == .functionLiteral) t
  | .node a ts => by
    have hparent : Location.parent? (⟨.node a ts, above⟩ : Place) =
        above.head?.map fun s => ⟨s, above.tail⟩ := by
      cases above <;> rfl
    rw [all, List.countP_cons, countP_allIn (.node a ts :: above) ts, bracesOf, Nat.add_comm,
      opensBrace, hparent, Option.any_map, ite_eq_toNat]
    rfl

theorem countP_allIn (above : List (Tree Node)) : (ts : List (Tree Node)) →
    (allIn above ts).countP opensBrace =
      bracesOfAll (above.head?.any fun s => s.label.kind == .functionLiteral) ts
  | [] => rfl
  | t :: ts => by
    rw [allIn, List.countP_append, countP_all above t, countP_allIn above ts, bracesOfAll]
end

end Location

/-! ## Tokens and nodes of a document -/

theorem rest_of_file {s s' : Cursor} {u : Fragment} (h : file s = .ok u s') : s'.rest = [] := by
  simp only [file, bind_eq_ok, get_eq_ok] at h
  obtain ⟨ps, s₁, hps, is, s₂, his, us, s₃, hus, _, _, ⟨rfl, rfl⟩, h⟩ := h
  obtain ⟨rfl, rfl⟩ := eq_of_make h
  have hend : s₃.rest = [] := rest_of_statements (Inner.sound_ofDepth maxNesting) hus
  exact hend

variable {source : List Char} {d : Document}

/-- The heads of the tokens, from left to right, are those of the nodes in preorder. -/
theorem marks_of_parse (h : Document.parse source = .ok d) :
    d.significant.filterMap Token.mark? = d.nodes.filterMap fun x => x.label.mark? := by
  obtain ⟨tokens, u, s', htokens, hfile, rfl⟩ := exists_of_parse h
  have hmarks := (conserves_of_file hfile).marks
  have hend : s'.marks = [] := by rw [Cursor.marks, rest_of_file hfile, List.filterMap_nil]
  rw [hend, List.append_nil, List.nil_append] at hmarks
  have hnodes : (Location.walk ⟨u, []⟩).filterMap (fun x => x.label.mark?) = marksOf [u] := by
    rw [marksOf, Tree.preorderAll, Tree.preorderAll, List.append_nil,
      ← Location.map_label_walk ⟨u, []⟩, List.filterMap_map]
    rfl
  rw [Document.significant_eq, List.filterMap_map]
  exact hmarks.trans hnodes.symm

/-- The opening braces among the tokens are as many as those of the nodes. -/
theorem braces_of_parse (h : Document.parse source = .ok d) :
    d.significant.countP Token.isBrace = d.nodes.countP Location.opensBrace := by
  obtain ⟨tokens, u, s', htokens, hfile, rfl⟩ := exists_of_parse h
  have hbraces := (conserves_of_file hfile).braces
  have hend : s'.braces = 0 := by rw [Cursor.braces, rest_of_file hfile, List.countP_nil]
  rw [hend, Nat.add_zero, Nat.zero_add] at hbraces
  rw [Document.significant_eq, List.countP_map, Document.nodes, Location.walk, Location.countP_all]
  exact hbraces

/-- The significant tokens of a text begin one after the other. -/
theorem starts_of_parse (h : Document.parse source = .ok d) :
    d.significant.Pairwise fun t u => t.start < u.start := by
  obtain ⟨tokens, u, s', htokens, hfile, rfl⟩ := exists_of_parse h
  exact (tiling_of_tokenize htokens).starts.filter _

theorem Head.start_extent (h : Head) (span : Span) : (h.extent span).start = span.start := by
  cases h <;> rfl

theorem Token.mark?_eq_some {t : Token} {m : Head × Span} :
    t.mark? = some m ↔ t.kind.head? = some m.1 ∧ m.1.extent t.span = m.2 := by
  obtain ⟨h, span⟩ := m
  simp only [Token.mark?, Option.map_eq_some_iff, Prod.mk.injEq]
  constructor
  · rintro ⟨h', hk, rfl, hspan⟩
    exact ⟨hk, hspan⟩
  · rintro ⟨hk, hspan⟩
    exact ⟨h, hk, rfl, hspan⟩

theorem Node.mark?_eq_some {a : Node} {m : Head × Span} :
    a.mark? = some m ↔ a.kind.head? = some m.1 ∧ m.1.extent a.span = m.2 := by
  obtain ⟨h, span⟩ := m
  simp only [Node.mark?, Option.map_eq_some_iff, Prod.mk.injEq]
  constructor
  · rintro ⟨h', hk, rfl, hspan⟩
    exact ⟨hk, hspan⟩
  · rintro ⟨hk, hspan⟩
    exact ⟨h, hk, rfl, hspan⟩

/-- What has the same head and the same extent begins at the same offset, and a literal ends at
    the same. -/
theorem Head.extent_eq {h : Head} {a b : Span} (heq : h.extent a = h.extent b) :
    a.start = b.start ∧ ∀ sort, h = .literal sort → a = b := by
  refine ⟨?_, ?_⟩
  · rw [← h.start_extent a, heq, h.start_extent]
  · rintro sort rfl
    exact heq

/-- No two nodes with heads begin at one offset. -/
theorem eq_of_start_eq (h : Document.parse source = .ok d) {x y : Place} (hx : x ∈ d.nodes)
    (hy : y ∈ d.nodes) (hkx : x.kind.head?.isSome) (hky : y.kind.head?.isSome)
    (hstart : x.span.start = y.span.start) : x = y := by
  -- The marks of the tokens begin one after the other, and so do those of the nodes.
  have hmarks : (d.significant.filterMap Token.mark?).Pairwise fun m m' =>
      m.2.start ≠ m'.2.start := by
    refine List.pairwise_filterMap.2 ((starts_of_parse h).imp fun hlt m hm m' hm' => ?_)
    rw [← (Token.mark?_eq_some.1 hm).2, ← (Token.mark?_eq_some.1 hm').2, Head.start_extent,
      Head.start_extent]
    exact Nat.ne_of_lt hlt
  rw [marks_of_parse h, List.pairwise_filterMap] at hmarks
  by_contra hne
  obtain ⟨headx, hkx⟩ := Option.isSome_iff_exists.1 hkx
  obtain ⟨heady, hky⟩ := Option.isSome_iff_exists.1 hky
  have hmarkx : x.label.mark? = some (headx, headx.extent x.span) :=
    Node.mark?_eq_some.2 ⟨hkx, rfl⟩
  have hmarky : y.label.mark? = some (heady, heady.extent y.span) :=
    Node.mark?_eq_some.2 ⟨hky, rfl⟩
  have hdiffer := @List.Pairwise.forall _ _ _
    ⟨fun a b hab m hm m' hm' => (hab m' hm' m hm).symm⟩ hmarks x hx y hy hne _ hmarkx _ hmarky
  rw [Head.start_extent, Head.start_extent] at hdiffer
  exact hdiffer hstart

/-- Each significant token that tells what it begins is the first of the one node with its head
    that begins there, a literal all of its node; every node with a head begins with such a token;
    and the opening braces are those of the lambdas, of the `when`s, and of the blocks that are
    not in a lambda. -/
theorem heads_of_parse (h : Document.parse source = .ok d) :
    (∀ t ∈ d.significant, ∀ head, t.kind.head? = some head →
      ∃ x ∈ d.nodes, x.kind.head? = some head ∧ x.span.start = t.start ∧
        (∀ sort, head = .literal sort → x.span = t.span) ∧
        ∀ y ∈ d.nodes, y.kind.head?.isSome → y.span.start = t.start → y = x) ∧
    (∀ x ∈ d.nodes, ∀ head, x.kind.head? = some head →
      ∃ t ∈ d.significant, t.kind.head? = some head ∧ t.start = x.span.start ∧
        ∀ sort, head = .literal sort → t.span = x.span) ∧
    d.significant.countP (fun t => t.kind == .symbol .leftBrace) =
      d.nodes.countP (fun x => x.kind == .lambda) + d.nodes.countP (fun x => x.kind == .when_) +
        d.nodes.countP (fun x => x.kind == .block && !x.isLambdaBody) := by
  refine ⟨fun t ht head hk => ?_, fun x hx head hk => ?_, ?_⟩
  · have hmem : (head, head.extent t.span) ∈ d.significant.filterMap Token.mark? :=
      List.mem_filterMap.2 ⟨t, ht, Token.mark?_eq_some.2 ⟨hk, rfl⟩⟩
    rw [marks_of_parse h, List.mem_filterMap] at hmem
    obtain ⟨x, hx, hmark⟩ := hmem
    obtain ⟨hkx, hextent⟩ := Node.mark?_eq_some.1 hmark
    obtain ⟨hstart, hliteral⟩ := Head.extent_eq hextent
    refine ⟨x, hx, hkx, hstart, hliteral, fun y hy hky hy' => ?_⟩
    exact eq_of_start_eq h hy hx hky (Option.isSome_of_mem hkx) (hy'.trans hstart.symm)
  · have hmem : (head, head.extent x.span) ∈ d.nodes.filterMap fun x => x.label.mark? :=
      List.mem_filterMap.2 ⟨x, hx, Node.mark?_eq_some.2 ⟨hk, rfl⟩⟩
    rw [← marks_of_parse h, List.mem_filterMap] at hmem
    obtain ⟨t, ht, hmark⟩ := hmem
    obtain ⟨hkt, hextent⟩ := Token.mark?_eq_some.1 hmark
    obtain ⟨hstart, hliteral⟩ := Head.extent_eq hextent
    exact ⟨t, ht, hkt, hstart, hliteral⟩
  · rw [← Location.countP_opensBrace]
    exact braces_of_parse h

/-- In `if(a)1 else l@{}` the `1` is all of its node, and the one brace is that of the lambda. -/
theorem heads_of_literal_in_branch : ∃ d, Document.parse "if(a)1 else l@{}".toList = .ok d ∧
    (∃ x ∈ d.nodes, x.kind.head? = some (.literal .integer) ∧ x.span = ⟨5, 6⟩) ∧
    d.significant.countP (fun t => t.kind == .symbol .leftBrace) = 1 ∧
    d.nodes.countP (fun x => x.kind == .block && !x.isLambdaBody) = 0 := by
  have hparse : (Document.parse "if(a)1 else l@{}".toList).toOption.any (fun d =>
      d.significant.any (fun t => t.kind == .literal .integer && t.span == ⟨5, 6⟩) &&
        d.significant.countP (fun t => t.kind == .symbol .leftBrace) == 1 &&
          d.nodes.countP (fun x => x.kind == .lambda) == 1) = true := by
    decide +kernel
  obtain ⟨d, h, hp⟩ := exists_of_parse_any hparse
  simp only [Bool.and_eq_true, List.any_eq_true, beq_iff_eq] at hp
  obtain ⟨⟨⟨t, ht, hk, hspan⟩, hbrace⟩, hlambda⟩ := hp
  obtain ⟨hheads, -, hbraces⟩ := heads_of_parse h
  obtain ⟨x, hx, hkx, -, hliteral, -⟩ := hheads t ht (.literal .integer) (by rw [hk]; rfl)
  exact ⟨d, h, ⟨x, hx, hkx, (hliteral _ rfl).trans hspan⟩, hbrace, by omega⟩

end ResultHints
