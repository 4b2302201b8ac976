import ResultHints.Proofs.Document.Extent
import ResultHints.Proofs.Grammar.FileJoin

/-!
# The documents of two texts

Of a text, a line break and another text, the second without directives, the file holds what
the files of both texts hold (`Document.Joins`): a line break ends a statement wherever it
may end, and after a semicolon it ends for certain. Main statement:

- `contents_of_join`: what the file of two texts holds that are parted by a semicolon on a
  line of its own, or by a line break alone.
-/

namespace ResultHints

/-! ## Parts of longer texts -/

theorem dropBytes_append_add (a b : List Char) (n : Nat) :
    dropBytes (byteLength a + n) (a ++ b) = dropBytes n b := by
  induction a with
  | nil => rw [byteLength_nil, Nat.zero_add, List.nil_append]
  | cons c a ih =>
    have hc := c.utf8Size_pos
    rw [List.cons_append, dropBytes, byteLength_cons, if_neg (by omega), Nat.add_assoc,
      Nat.add_sub_cancel_left, ih]

/-- What a span names behind other text. -/
theorem slice_shift (before text : List Char) (s : Span) :
    slice (before ++ text) (s.shift (byteLength before)) = slice text s := by
  rw [slice, slice, Span.shift, Nat.add_sub_add_right, Nat.add_comm, dropBytes_append_add]

/-- What a span between characters names before other text. -/
theorem slice_append_right {text : List Char} {s : Span} (hstart : IsBoundary text s.start)
    (hstop : IsBoundary text s.stop) (hle : s.start ≤ s.stop) (behind : List Char) :
    slice (text ++ behind) s = slice text s := by
  obtain ⟨a, b, rfl, ha⟩ := hstart
  obtain ⟨m, r, rfl, hm⟩ := hstop.advance (ha.trans_le hle)
  obtain rfl : s = ⟨byteLength a, byteLength a + byteLength m⟩ := by
    rw [byteLength_append] at hm
    rw [ha, ← ha, hm]
    cases s
    simpa using ha.symm
  have hshort := slice_append a m r
  have hlong := slice_append a m (r ++ behind)
  simp only [List.append_assoc] at hshort hlong ⊢
  rw [hshort, hlong]

/-! ## Shapes -/

/-- The node, further behind in a text and after other nodes. -/
def Node.shift (offset ids : Nat) (a : Node) : Node :=
  ⟨⟨a.kind, a.span.shift offset⟩, a.id + ids⟩

/-- The shape, further behind in a text. -/
def Shape.shift (offset : Nat) (a : Shape) : Shape := ⟨a.kind, a.span.shift offset⟩

theorem Shape.shift_shift (m n : Nat) : Shape.shift m ∘ Shape.shift n = Shape.shift (m + n) := by
  funext a
  simp only [Function.comp_apply, shift, Span.shift, Nat.add_assoc, Nat.add_comm n]

/-- What the nodes of a fragment stand for and where they lie. -/
def Fragment.shapes (u : Fragment) : Tree Shape := u.map Node.toShape

namespace Document

/-- What a file holds, with the places of all nodes in the text. -/
def contents (d : Document) : List (Tree Shape) := d.root.tree.children.map Fragment.shapes

end Document

theorem shapes_map_shift (offset ids : Nat) (u : Fragment) :
    Fragment.shapes (u.map (Node.shift offset ids)) = u.shapes.map (Shape.shift offset) := by
  rw [Fragment.shapes, Fragment.shapes, Tree.map_map, Tree.map_map]
  rfl

/-! ## Documents -/

theorem parse_eq_ok {source : List Char} {d : Document} : Document.parse source = .ok d ↔
    ∃ tokens us y, tokenize source = .ok tokens ∧
      fileContents (.ofTokens source tokens) = .ok us y ∧
      d = .ofFragments source tokens [] (y.make .file ⟨0, byteLength source⟩ us)
        (y.nextId + 1) := by
  constructor
  · intro h
    obtain ⟨tokens, u, s', htokens, hfile, rfl⟩ := exists_of_parse h
    obtain ⟨us, y, hus, rfl, rfl⟩ := file_eq_ok.1 hfile
    have hsource := (took_of_fileContents hus).source
    exact ⟨tokens, us, y, htokens, hus, by rw [hsource]; rfl⟩
  · rintro ⟨tokens, us, y, htokens, hus, rfl⟩
    have hfile := file_eq_ok.2 ⟨us, y, hus, rfl, rfl⟩
    rw [(took_of_fileContents hus).source] at hfile
    simp only [Document.parse, Document.readAfter, htokens, expressionsThenFile, hfile, bind,
      Except.bind, pure, Except.pure, Except.map]
    rfl

/-- A label or annotations before nothing, or a function that evaluates nothing. -/
def Location.isBare (x : Place) : Bool :=
  match x.kind with
  | .labeled _ | .annotated => x.base?.isNone
  | .function _ => x.children.all fun y => !y.kind.isExpression
  | _ => false

theorem Location.isBare_iff (x : Place) :
    x.isBare ↔ Fragment.isBare x.tree ∨ Fragment.isBodiless x.tree := by
  obtain ⟨⟨⟨⟨k, span⟩, i⟩, ts⟩, above⟩ := x
  cases k with
  | labeled | annotated | function =>
    simp [Fragment.isBare, Fragment.isBodiless, isBare, base?, kind, label, children]
  | _ => simp [Fragment.isBare, Fragment.isBodiless, isBare, kind, label]

namespace Document

variable {d : Document} {source : List Char} {x : Place}

/-- Types have their texts. -/
theorem hasText_of_parse (h : Document.parse source = .ok d) (hx : x ∈ d.nodes) :
    HasText source x.tree := by
  obtain ⟨tokens, us, y, -, hus, rfl⟩ := parse_eq_ok.1 h
  have hroot : Tree.Each (HasText source) (y.make .file ⟨0, byteLength source⟩ us) :=
    .node (fun _ hk => by cases hk) (took_of_fileContents hus).texts
  exact (Location.walk_induction (P := fun x => x.tree.Each (HasText source)) hroot
    (fun p hp c hc => hp.child (Location.tree_mem_of_mem_children hc)) hx).self

/-- Types have their texts where more text follows. -/
theorem hasText_append (h : Document.parse source = .ok d) (behind : List Char) (hx : x ∈ d.nodes) :
    HasText (source ++ behind) x.tree := by
  intro text hk
  have hd := regular_of_parse h
  have hne : x ≠ d.root := by
    rintro rfl
    cases hd.isFile.symm.trans hk
  obtain ⟨hstart, hstop, hle⟩ := hd.span_boundary hx hne
  rw [source_of_parse h] at hstart hstop
  rw [hasText_of_parse h hx text hk]
  exact congrArg String.ofList (slice_append_right hstart hstop hle behind).symm

/-- Behind other text, types have their texts. -/
theorem fit_of_parse (h : Document.parse source = .ok d) (before : List Char) (ids : Nat)
    (hx : x ∈ d.nodes) :
    (Frame.behind (before ++ source) (byteLength before) ids).Fit x.tree where
  text text hk := by
    rw [hasText_of_parse h hx text hk]
    exact congrArg String.ofList (slice_shift before source _).symm
  bare _ := .inl (Frame.closes_behind _ _ _)
  openIf _ := .inl nofun

/-- No node but the root ends behind the last token that is no trivia. -/
theorem Regular.stop_le (hd : d.Regular) (hx : x ∈ d.nodes) (hne : x ≠ d.root) :
    ∃ t ∈ d.lexemes.getLast?, x.span.stop ≤ t.stop := by
  obtain ⟨t, ht, hstop⟩ : ∃ t ∈ d.lexemes, x.span.stop ≤ t.stop := by
    obtain ⟨-, ⟨t, ht, hstop⟩, -⟩ | ⟨t, ht, hpoint⟩ := hd.delimited_or_point hx hne
    · exact ⟨t, ht, hstop.ge⟩
    · refine ⟨t, ht, ?_⟩
      rw [hpoint]
      exact (hd.ordered.start_lt_stop ht).le
  have hlast := List.getLast?_eq_some_getLast (List.ne_nil_of_mem ht)
  exact ⟨_, hlast, hstop.trans (hd.ordered.stop_le_getLast ht hlast)⟩

/-- A node that does not end where the last token that is no trivia does ends before that. -/
theorem Regular.stop_lt (hd : d.Regular) (hx : x ∈ d.nodes) (hne : x ≠ d.root)
    (hstop : ∀ t ∈ d.significant.getLast?, x.span.stop ≠ t.stop) :
    ∃ t ∈ d.lexemes.getLast?, x.span.stop < t.stop := by
  obtain ⟨t, ht, hle⟩ := hd.stop_le hx hne
  have hlast : t.toToken ∈ d.significant.getLast? := by
    rw [significant_eq, List.getLast?_map]
    exact Option.mem_map_of_mem _ ht
  exact ⟨t, ht, Nat.lt_of_le_of_ne hle (hstop _ hlast)⟩

/-- The document `d` holds what `d₁` does and then, in the next line, what `d₂` does. -/
structure Joins (d₁ d₂ d : Document) : Prop where
  source : d.source = d₁.source ++ '\n' :: d₂.source
  tokens : Joined (byteLength d₁.source + 1) d₁.tokens.toList d₂.tokens.toList d.tokens.toList
  children : d.root.tree.children = d₁.root.tree.children ++
    d₂.root.tree.children.map (Tree.map (Node.shift (byteLength d₁.source + 1) d₁.root.id))

/-- At the end of a document nothing stands that would go on with what follows: it ends in no
    node without a base or a body. -/
def IsClosed (d : Document) : Prop :=
  ∀ x ∈ d.nodes, x.isBare → ∀ t ∈ d.significant.getLast?, x.span.stop ≠ t.stop

/-- A closed document ends behind all nodes without a base or a body. -/
theorem IsClosed.stop_lt (hclosed : d.IsClosed) (hd : d.Regular) (hx : x ∈ d.nodes)
    (hbare : x.isBare) : ∃ t ∈ d.lexemes.getLast?, x.span.stop < t.stop := by
  refine hd.stop_lt hx ?_ (hclosed x hx hbare)
  rintro rfl
  simp [Location.isBare, hd.isFile] at hbare

theorem IsClosed.each_stop_lt (hclosed : d.IsClosed) (hd : d.Regular) {stop : Nat}
    (hstop : ∀ t ∈ d.lexemes.getLast?, t.stop = stop) :
    Tree.Each (fun u : Fragment => u.isBare ∨ u.isBodiless → u.span.stop < stop) d.root.tree := by
  refine Location.each_tree fun x hx hbare => ?_
  obtain ⟨t, ht, hlt⟩ := hclosed.stop_lt hd hx (x.isBare_iff.2 hbare)
  exact hstop t ht ▸ hlt

end Document

/-- Two texts with a line break between them are read, the second without directives, if the first
    is closed or the second begins with a semicolon. -/
theorem joins_of_parse {first second : List Char} {d₁ d₂ : Document}
    (h₁ : Document.parse first = .ok d₁) (h₂ : Document.parse second = .ok d₂)
    (hno : ∀ x ∈ d₂.root.children, ¬x.kind.isDirective)
    (hclosed : (∀ t ∈ d₂.lexemes.head?, t.kind = .symbol .semicolon) ∨ d₁.IsClosed) :
    ∃ d, Document.parse (first ++ '\n' :: second) = .ok d ∧ d₁.Joins d₂ d := by
  have hd₁ := regular_of_parse h₁
  have htext₁ := Location.each_tree fun x => Document.hasText_append (x := x) h₁ ('\n' :: second)
  have htext₂ := fun ids => Location.each_tree fun x =>
    Document.fit_of_parse (x := x) h₂ (first ++ ['\n']) ids
  obtain ⟨ts₁, us, y, htokens₁, hus, rfl⟩ := parse_eq_ok.1 h₁
  obtain ⟨ts₂, vs, z, htokens₂, hvs, rfl⟩ := parse_eq_ok.1 h₂
  obtain ⟨both, hboth, hjoined⟩ := tokenize_break htokens₁ htokens₂
  have hbare : (∀ t ∈ (lexemes true ts₂).head?, t.kind = .symbol .semicolon) ∨
      ∀ u ∈ us, Tree.Each (fun u : Fragment => u.isBare ∨ u.isBodiless →
        u.span.stop < y.lastStop) u := by
    refine hclosed.imp (fun hsemi => ?_) fun hclosed u hu => ?_
    · rw [lexemes_true false, List.head?_modifyHead]
      intro t ht
      obtain ⟨t', ht', rfl⟩ := Option.map_eq_some_iff.1 ht
      exact hsemi t' ht'
    · exact (hclosed.each_stop_lt hd₁ (lastStop_of_fileContents hus)).child hu
  have hdirectives : ∀ v ∈ vs, ¬v.label.kind.isDirective := fun v hv =>
    hno _ (Location.mem_children.2 ⟨v, hv, rfl⟩)
  have hbytes : byteLength (first ++ ['\n']) = byteLength first + 1 := by
    rw [byteLength_append]
    rfl
  rw [hbytes, List.append_assoc] at htext₂
  obtain ⟨z', hcontents, -, -⟩ := fileContents_append hus hvs hdirectives
    (fun u hu => htext₁.child hu) (fun v hv => (htext₂ y.nextId).child hv) hbare
  rw [← hjoined.lexemes_eq] at hcontents
  exact ⟨_, parse_eq_ok.2 ⟨both, _, z', hboth, hcontents, rfl⟩, rfl, hjoined, rfl⟩

/-! ## Two texts -/

namespace Document.Joins

variable {d₁ d₂ d : Document}

theorem contents_eq (h : d₁.Joins d₂ d) : d.contents =
    d₁.contents ++ d₂.contents.map (Tree.map (Shape.shift (byteLength d₁.source + 1))) := by
  rw [contents, h.children, List.map_append, contents, contents, List.map_map, List.map_map]
  exact congrArg _ (List.map_congr_left fun u _ => shapes_map_shift _ _ u)

theorem lexemes_eq (h : d₁.Joins d₂ d) : d.lexemes = d₁.lexemes ++
    (ResultHints.lexemes true d₂.tokens.toList).map (Lexeme.shift (byteLength d₁.source + 1)) :=
  h.tokens.lexemes_eq false

end Document.Joins

/-- A semicolon is a text without statements. -/
theorem exists_parse_semicolon : ∃ d, Document.parse [';'] = .ok d ∧ d.root.tree.children = [] ∧
    d.lexemes.map (·.kind) = [.symbol .semicolon] := by
  have hparse : (Document.parse [';']).toOption.any (fun d =>
      d.root.children.isEmpty && d.lexemes.map (·.kind) == [.symbol .semicolon]) = true := by
    decide +kernel
  obtain ⟨d, h, hp⟩ := exists_of_parse_any hparse
  rw [Bool.and_eq_true, List.isEmpty_iff, beq_iff_eq] at hp
  exact ⟨d, h, List.map_eq_nil_iff.1 hp.1, hp.2⟩

/-- A semicolon in the line before a text without directives adds nothing to it. -/
theorem joins_semicolon {second : List Char} {d₂ : Document}
    (h₂ : Document.parse second = .ok d₂) (hno : ∀ x ∈ d₂.root.children, ¬x.kind.isDirective) :
    ∃ d₀ d, Document.parse [';'] = .ok d₀ ∧ d₀.root.tree.children = [] ∧
      Document.parse (';' :: '\n' :: second) = .ok d ∧ d₀.Joins d₂ d ∧
      (∀ x ∈ d.root.children, ¬x.kind.isDirective) ∧
      ∀ t ∈ d.lexemes.head?, t.kind = .symbol .semicolon := by
  obtain ⟨d₀, h₀, hchildren, hlexemes⟩ := exists_parse_semicolon
  have hclosed : d₀.IsClosed := by
    intro x hx hbare
    have hnone : d₀.root.children = [] := List.map_eq_nil_iff.2 hchildren
    obtain rfl | ⟨c, hc, -⟩ := Location.mem_walk_iff.1 hx
    · simp [Location.isBare, (regular_of_parse h₀).isFile] at hbare
    · rw [hnone] at hc
      exact absurd hc List.not_mem_nil
  obtain ⟨d, h, hjoins⟩ := joins_of_parse h₀ h₂ hno (.inr hclosed)
  refine ⟨d₀, d, h₀, hchildren, h, hjoins, ?_, ?_⟩
  · intro x hx
    obtain ⟨u, hu, rfl⟩ := Location.mem_children.1 hx
    rw [hjoins.children, hchildren, List.nil_append] at hu
    obtain ⟨v, hv, rfl⟩ := List.mem_map.1 hu
    rw [Location.kind, Location.label, Tree.label_map]
    exact hno _ (Location.mem_children.2 ⟨v, hv, rfl⟩)
  · obtain ⟨t, ht, hk⟩ := List.map_eq_singleton_iff.1 hlexemes
    rw [hjoins.lexemes_eq, ht]
    rintro _ ⟨⟩
    exact hk

/-- Of two texts, the second without directives, the file holds what the files of both hold, that
    of the second further behind: with a semicolon on a line of its own between them; and with a
    line break between them, if no label or annotation without a base and no function without a
    body ends where the last token of the first does. -/
theorem contents_of_join {first second : List Char} {d₁ d₂ : Document}
    (h₁ : Document.parse first = .ok d₁) (h₂ : Document.parse second = .ok d₂)
    (hno : ∀ x ∈ d₂.nodes, ¬x.kind.isDirective) :
    (∃ d, Document.parse (first ++ "\n;\n".toList ++ second) = .ok d ∧ d.contents =
      d₁.contents ++ d₂.contents.map (Tree.map (Shape.shift (byteLength first + 3)))) ∧
    (d₁.IsClosed → ∃ d, Document.parse (first ++ '\n' :: second) = .ok d ∧ d.contents =
      d₁.contents ++ d₂.contents.map (Tree.map (Shape.shift (byteLength first + 1)))) := by
  have hno₂ : ∀ x ∈ d₂.root.children, ¬x.kind.isDirective := fun x hx =>
    hno x (Location.mem_walk_of_mem_children (Location.self_mem_walk _) hx)
  have hsource : d₁.source = first := source_of_parse h₁
  constructor
  · obtain ⟨d₀, d', h₀, hnone, h', hjoins', hno', hsemi⟩ := joins_semicolon h₂ hno₂
    obtain ⟨d, h, hjoins⟩ := joins_of_parse h₁ h' hno' (.inl hsemi)
    refine ⟨d, by rwa [List.append_assoc], ?_⟩
    rw [hjoins.contents_eq, hjoins'.contents_eq, source_of_parse h₀, hsource,
      show d₀.contents = [] from List.map_eq_nil_iff.2 hnone, List.nil_append, List.map_map]
    refine congrArg _ (List.map_congr_left fun u _ => ?_)
    rw [Function.comp_apply, Tree.map_map, Shape.shift_shift]
    rfl
  · intro hclosed
    obtain ⟨d, h, hjoins⟩ := joins_of_parse h₁ h₂ hno₂ (.inr hclosed)
    exact ⟨d, h, by rw [hjoins.contents_eq, hsource]⟩

/-- After `f{a}`, a lambda and a sign in the next lines begin statements of their own. -/
theorem contents_of_lambda_lines : ∃ d₁ d₂, Document.parse "f{a}".toList = .ok d₁ ∧
    Document.parse "{b}\n-c".toList = .ok d₂ ∧ d₂.contents.length = 2 ∧
    (∀ x ∈ d₂.nodes, ¬x.kind.isDirective) ∧ d₁.IsClosed ∧
    (∃ d, Document.parse "f{a}\n;\n{b}\n-c".toList = .ok d ∧ d.contents =
      d₁.contents ++ d₂.contents.map (Tree.map (Shape.shift 7))) ∧
    (∃ d, Document.parse "f{a}\n{b}\n-c".toList = .ok d ∧ d.contents =
      d₁.contents ++ d₂.contents.map (Tree.map (Shape.shift 5))) := by
  have hparse₁ : (Document.parse "f{a}".toList).toOption.any (fun d =>
      d.nodes.all fun x => !x.isBare) = true := by
    decide +kernel
  have hparse₂ : (Document.parse "{b}\n-c".toList).toOption.any (fun d =>
      d.contents.length == 2 && d.nodes.all fun x => !x.kind.isDirective) = true := by
    decide +kernel
  obtain ⟨d₁, h₁, hp₁⟩ := exists_of_parse_any hparse₁
  obtain ⟨d₂, h₂, hp₂⟩ := exists_of_parse_any hparse₂
  simp only [Bool.and_eq_true, beq_iff_eq, List.all_eq_true, Bool.not_eq_true'] at hp₁ hp₂
  have hclosed : d₁.IsClosed := fun x hx hbare => by simp [hp₁ x hx] at hbare
  have hno : ∀ x ∈ d₂.nodes, ¬x.kind.isDirective := fun x hx => by simp [hp₂.2 x hx]
  obtain ⟨hsemicolon, hbreak⟩ := contents_of_join h₁ h₂ hno
  exact ⟨d₁, d₂, h₁, h₂, hp₂.1, hno, hclosed, hsemicolon, hbreak hclosed⟩

end ResultHints
