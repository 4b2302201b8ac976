import ResultHints.Proofs.Document.IfElse
import ResultHints.Proofs.Document.Join

/-!
# A text as a branch

A text that is one expression (`Document.IsBranch`) can stand where a longer text has a branch. It
is read there as it is alone, if the levels of nesting suffice, and what comes in the next line may
stand behind a statement. An `else` there would be taken by an `if` at the end of the text. Main
statement:

- `controlBody_of_isBranch`: what is read as the branch is the expression of the text.
-/

namespace ResultHints

open Reader ResultHints.Frame

namespace Document

/-- The text is one expression, or an assignment. It does not begin with a brace, and no label or
    annotation without a base stands at its end. -/
structure IsBranch (d : Document) : Prop where
  single : d.root.children.length = 1
  /-- Annotations are those of an expression. -/
  isExpression : ∀ x ∈ d.root.children,
    x.kind.isExpression ∧ ∀ y ∈ x.base?, y.kind.isExpression
  spanning : ∀ x ∈ d.root.children, ∀ t ∈ d.significant,
    x.span.start ≤ t.start ∧ t.stop ≤ x.span.stop
  brace : ∀ t ∈ d.significant.head?, t.kind ≠ .symbol .leftBrace
  based : ∀ x ∈ d.nodes, x.kind.isWrapper → x.base?.isNone →
    ∀ t ∈ d.significant.getLast?, x.span.stop ≠ t.stop

instance (d : Document) : Decidable d.IsBranch :=
  decidable_of_iff (d.root.children.length = 1 ∧
    (∀ x ∈ d.root.children, x.kind.isExpression ∧ ∀ y ∈ x.base?, y.kind.isExpression) ∧
    (∀ x ∈ d.root.children, ∀ t ∈ d.significant,
      x.span.start ≤ t.start ∧ t.stop ≤ x.span.stop) ∧
    (∀ t ∈ d.significant.head?, t.kind ≠ .symbol .leftBrace) ∧
    ∀ x ∈ d.nodes, x.kind.isWrapper → x.base?.isNone →
      ∀ t ∈ d.significant.getLast?, x.span.stop ≠ t.stop)
    ⟨fun ⟨h₁, h₂, h₃, h₄, h₅⟩ => ⟨h₁, h₂, h₃, h₄, h₅⟩,
      fun ⟨h₁, h₂, h₃, h₄, h₅⟩ => ⟨h₁, h₂, h₃, h₄, h₅⟩⟩

/-- No `if` without an else branch stands at the end of the text. -/
def HasNoOpenIf (d : Document) : Prop :=
  ∀ x ∈ d.nodes, x.kind = .ifElse → (∀ e ∈ x.children, e.kind ≠ .elseBranch) →
    ∀ t ∈ d.significant.getLast?, x.span.stop ≠ t.stop

instance (d : Document) : Decidable d.HasNoOpenIf :=
  inferInstanceAs (Decidable (∀ x ∈ d.nodes, _))

/-- The text can be read with `n` levels of nesting. -/
def NestsWithin (d : Document) (n : Nat) : Prop :=
  ∃ us y, statements (.ofDepth n) none (.ofTokens d.source d.tokens.toList) = .ok us y

instance (d : Document) (n : Nat) : Decidable (d.NestsWithin n) :=
  match h : statements (.ofDepth n) none (.ofTokens d.source d.tokens.toList) with
  | .ok us y => .isTrue ⟨us, y, h⟩
  | .error _ _ => .isFalse fun ⟨us, y, hok⟩ => by
    cases h.symm.trans hok

end Document

variable {inner : Inner} {n k : Nat} {s s' y : Cursor} {u : Fragment} {us : List Fragment}

/-! ## One statement -/

theorem isExpression_of_isDirective {k : NodeKind} (h : k.isDirective) :
    k.isExpression = false := by
  cases k <;> first | rfl | cases h

theorem isExpression_of_isDeclaration {k : NodeKind} (h : k.isDeclaration) :
    k.isExpression = false := by
  cases k <;> first | rfl | cases h

theorem isDeclaration_function (h : function inner s = .ok u s') : u.label.kind.isDeclaration := by
  simp only [function, bind_eq_ok] at h
  obtain ⟨_, _, -, _, _, -, _, _, -, _, _, -, _, _, -, _, _, -, h⟩ := h
  obtain ⟨rfl, -⟩ := eq_of_close h
  rfl

theorem isDeclaration_property (h : property inner s = .ok u s') : u.label.kind.isDeclaration := by
  simp only [property, bind_eq_ok] at h
  obtain ⟨_, _, -, _, _, -, _, _, -, _, _, -, h⟩ := h
  obtain ⟨rfl, -⟩ := eq_of_close h
  rfl

/-- Annotations of a declaration stand before that. -/
theorem base?_annotatedDeclaration (hn : inner.Sound n) {x : Place}
    (h : annotatedDeclaration inner s = .ok x.tree s') : ∃ y ∈ x.base?, y.kind.isDeclaration := by
  obtain ⟨u, above⟩ := x
  simp only [annotatedDeclaration, bind_eq_ok, get_eq_ok] at h
  obtain ⟨_, _, ⟨rfl, rfl⟩, es, s₁, hes, _, _, ⟨rfl, rfl⟩, h⟩ := h
  have hentries : ∀ e ∈ es, e.label.kind.isAnnotationEntry := fun e he => by
    have hentry := (laid_of_reads (hn.reads_annotationEntries hes) e he).2
    rwa [Phrase.Admits, Phrase.Admits, Fragment.outline, Tree.label_map] at hentry
  obtain ⟨v, s₂, hv, h⟩ : ∃ v s₂, v.label.kind.isDeclaration ∧
      close s.position .annotated (es ++ [v]) s₂ = .ok u s' := by
    split at h <;> simp only [bind_eq_ok] at h
    · obtain ⟨v, s₂, hv, h⟩ := h
      exact ⟨v, s₂, isDeclaration_function hv, h⟩
    · obtain ⟨v, s₂, hv, h⟩ := h
      exact ⟨v, s₂, isDeclaration_property hv, h⟩
  obtain ⟨rfl, -⟩ := eq_of_close h
  have hentry : v.label.kind.isAnnotationEntry = false := by
    generalize v.label.kind = k at hv
    cases k <;> first | rfl | cases hv
  have hnone (above : List Fragment) :
      ((es.map fun e => (⟨e, above⟩ : Place)).find? fun y => !y.kind.isAnnotationEntry) = none := by
    simpa [Location.kind, Location.label] using hentries
  refine ⟨⟨v, s₂.node s.position .annotated (es ++ [v]) :: above⟩, ?_, hv⟩
  change List.find? _ (List.map _ (es ++ [v])) = _
  rw [List.map_append, List.find?_append, hnone, Option.none_or]
  simp [Location.kind, Location.label, hentry]

/-- A statement that is an expression, with annotations or without, is read as one. -/
theorem assignment_of_statement (hn : inner.Sound n) {x : Place}
    (h : statement inner s = .ok x.tree s') (hk : x.kind.isExpression)
    (hbase : ∀ y ∈ x.base?, y.kind.isExpression) : assignment inner .lines s = .ok x.tree s' := by
  have hno {k : NodeKind} (hk : k.isExpression) (hdeclared : k.isDeclaration) : False := by
    rw [isExpression_of_isDeclaration hdeclared] at hk
    cases hk
  simp only [statement, bind_eq_ok, get_eq_ok] at h
  obtain ⟨_, _, ⟨rfl, rfl⟩, h⟩ := h
  obtain ⟨r, hr, h⟩ := exists_eq_of_ok h
  split at hr
  · subst hr
    exact (hno hk (isDeclaration_function h)).elim
  · subst hr
    exact (hno hk (isDeclaration_property h)).elim
  · subst hr
    exact (hno hk (isDeclaration_property h)).elim
  · split at hr <;> subst hr
    · obtain ⟨y, hy, hdeclared⟩ := base?_annotatedDeclaration hn h
      exact (hno (hbase y hy) hdeclared).elim
    · exact h
  · subst hr
    exact h

/-- One statement is read behind any semicolons. -/
theorem statement_of_statements (h : statements inner none s = .ok [u] y) :
    ∃ s₁ s₂, semicolons s = .ok () s₁ ∧ statement inner s₁ = .ok u s₂ := by
  simp only [statements, rows, rowsUpTo, bind_eq_ok, get_eq_ok] at h
  obtain ⟨_, _, ⟨rfl, rfl⟩, _, s₁, hsemi, _, _, ⟨rfl, rfl⟩, h⟩ := h
  split at h
  · cases (pure_eq_ok.1 h).1
  · simp only [bind_eq_ok, pure_eq_ok] at h
    obtain ⟨v, s₂, hv, -, -, -, vs, s₄, -, heq, -⟩ := h
    obtain ⟨rfl, -⟩ := List.cons.inj heq
    exact ⟨s₁, s₂, hsemi, hv⟩

/-- More levels of nesting read the same statements. -/
theorem statements_ofDepth_mono (hnk : n ≤ k) (h : statements (.ofDepth n) none s = .ok us y) :
    statements (.ofDepth k) none s = .ok us y := by
  have hn := Inner.carries_ofDepth (Frame.behind s.source 0 0) hnk
  have htook := took_of_reads (hn.sound.reads_statements h)
  have hcloses := Frame.closes_behind s.source 0 0
  have hfits : (Frame.behind s.source 0 0).Fits us := fun u hu =>
    (htook.texts u hu).imp fun v htext => ⟨htext, fun _ => .inl hcloses, fun _ => .inl nofun⟩
  have hall := statements_cursor_append hn h
    (statements_nil _ ((rest_cursor_nil (rest_of_statements hn.sound h)).trans rfl))
    (Nat.zero_le _) hfits (fun u hu => (htook.texts u hu).imp fun _ _ _ => .inl hcloses) nofun
  -- The longer text is the text itself.
  have hself {c : Cursor} (hc : c.source = s.source) :
      (Frame.behind s.source 0 0).cursor c = c := by
    rw [cursor_eq_append rfl rfl]
    simp only [Frame.behind, List.append_nil, ← hc]
  rwa [hself rfl, hself htook.source, List.append_nil,
    List.map_congr_left fun u _ => fragment_eq_self rfl rfl u, List.map_id'] at hall

/-- A fragment that begins before all lexemes and ends behind them was read from the first to the
    last. -/
theorem rest_of_spanning {L : List Lexeme} (hL : InOrder 0 L) (hs : s.On L)
    (hspan : spanAfter L u.span = ⟨s.rest.length, s'.rest.length⟩)
    (hall : ∀ t ∈ L, u.span.start ≤ t.start ∧ t.stop ≤ u.span.stop) :
    s.rest = L ∧ s'.rest = [] := by
  have hstart : lexemesAfter L u.span.start = L.length := List.countP_eq_length.2 fun t ht =>
    decide_eq_true (Nat.lt_of_le_of_lt (hall t ht).1 (hL.start_lt_stop ht))
  have hstop : lexemesAfter L u.span.stop = 0 := List.countP_eq_zero.2 fun t ht => by
    simpa using (hall t ht).2
  obtain ⟨ts, hsplit, -⟩ := hs.passed
  refine ⟨?_, List.eq_nil_of_length_eq_zero ((congrArg Span.stop hspan).symm.trans hstop)⟩
  have hsuffix : s.rest <:+ L := ⟨ts, hsplit.symm⟩
  exact hsuffix.eq_of_length ((congrArg Span.start hspan).symm.trans hstart)

namespace Document

variable {d : Document} {text : List Char}

/-- A branch is read from the beginning of its text to the end. -/
theorem IsBranch.exists_assignment (hb : d.IsBranch) (h : parse text = .ok d) (hk : d.NestsWithin k)
    (hle : k ≤ maxNesting) : ∃ u s', d.root.tree.children = [u] ∧
      assignment (.ofDepth k) .lines (.ofTokens text d.tokens.toList) = .ok u s' ∧
      s'.rest = [] ∧ s'.On d.lexemes := by
  have hd := regular_of_parse h
  have hn := Inner.sound_ofDepth k
  obtain ⟨x, hchildren⟩ := List.length_eq_one_iff.1 hb.single
  have hx : x ∈ d.root.children := hchildren ▸ List.mem_cons_self
  obtain ⟨hexpression, hbase⟩ := hb.isExpression x hx
  have htree : d.root.tree.children = [x.tree] := by
    rw [← Location.map_tree_children, hchildren]
    rfl
  have hall : ∀ t ∈ d.lexemes, x.span.start ≤ t.start ∧ t.stop ≤ x.span.stop :=
    fun t ht => hb.spanning x hx _ (mem_significant ht)
  have hon : Cursor.On d.lexemes (.ofTokens text d.tokens.toList) := by
    refine ⟨⟨[], rfl, rfl⟩, fun t ht => ?_⟩
    rw [Cursor.ofTokens, ← source_of_parse h]
    exact (hd.boundaries t ht).2.le
  obtain ⟨vs, z, hvs⟩ := hk
  rw [source_of_parse h] at hvs
  -- What is read within the levels is the content of the file.
  have hvs' : vs = [x.tree] := by
    obtain ⟨tokens, us, y, -, hus, rfl⟩ := parse_eq_ok.1 h
    obtain rfl : us = [x.tree] := htree
    have hdirective : ¬x.kind.isDirective := fun hdirective => by
      cases (isExpression_of_isDirective hdirective).symm.trans hexpression
    have hcontents := statements_of_fileContents hus (List.forall_mem_singleton.2 hdirective)
    exact (EStateM.Result.ok.inj (hcontents.symm.trans (statements_ofDepth_mono hle hvs))).1.symm
  subst hvs'
  obtain ⟨s₁, s₂, hsemi, hread⟩ := statement_of_statements hvs
  have htook : Took _ [] s₁ := of_semicolons (P := fun s => Took s [] s₁)
    (fun _ _ hs htook => hs.took.append htook) hsemi .nil
  have hon₁ : s₁.On d.lexemes := hon.took htook
  have hstands : Stands d.lexemes s₁ x.tree s₂ :=
    measured_of_reads hd.ordered (hn.reads_statement hread) hon₁ hle _ List.mem_cons_self
  obtain ⟨hrest₁, hrest₂⟩ := rest_of_spanning hd.ordered hon₁ hstands.span hall
  -- No semicolon comes first.
  have hno : ¬(Cursor.ofTokens text d.tokens.toList).isAt (.symbol .semicolon) := by
    have hno := not_isAt_of_semicolons hsemi
    rwa [Cursor.isAt, Cursor.kind?, hrest₁] at hno
  rw [semicolons_of_not_isAt hno] at hsemi
  obtain ⟨-, rfl⟩ := EStateM.Result.ok.inj hsemi
  exact ⟨x.tree, s₂, htree, assignment_of_statement hn hread hexpression hbase, hrest₂,
    hon₁.reads (hn.reads_statement hread)⟩

theorem isBare_iff_base? (x : Place) :
    Fragment.isBare x.tree ↔ x.kind.isWrapper ∧ x.base?.isNone := by
  obtain ⟨⟨⟨⟨k, span⟩, i⟩, ts⟩, above⟩ := x
  cases k with
  | labeled | annotated =>
    simp [Fragment.isBare, Location.base?, Location.kind, Location.label, Location.children,
      NodeKind.isWrapper]
  | _ => simp [Fragment.isBare, Location.kind, Location.label, NodeKind.isWrapper]

theorem isOpenIf_iff (x : Place) :
    Fragment.isOpenIf x.tree ↔ x.kind = .ifElse ∧ ∀ e ∈ x.children, e.kind ≠ .elseBranch := by
  obtain ⟨⟨⟨⟨k, span⟩, i⟩, ts⟩, above⟩ := x
  cases k <;> simp [Fragment.isOpenIf, Location.kind, Location.label, Location.children]

/-- What stands at the end of a branch leaves what comes in the next line alone. -/
theorem IsBranch.fits {f : Frame} (hb : d.IsBranch) (h : parse text = .ok d)
    (htext : ∀ x ∈ d.nodes, ∀ name, x.kind = .typeReference name →
      name = String.ofList (slice f.source (x.span.shift f.offset)))
    (hstop : ∀ t ∈ d.lexemes.getLast?, t.stop = f.stop)
    (helse : ¬f.ElseFollows ∨ d.HasNoOpenIf) : f.Fits d.root.tree.children := by
  have hd := regular_of_parse h
  have hlt {x : Place} (hx : x ∈ d.nodes) (hk : x.kind ≠ .file)
      (hne : ∀ t ∈ d.significant.getLast?, x.span.stop ≠ t.stop) : x.span.stop < f.stop := by
    obtain ⟨t, ht, hlt⟩ := hd.stop_lt hx (fun hroot => hk (hroot ▸ hd.isFile)) hne
    exact hstop t ht ▸ hlt
  have hfit : ∀ x ∈ d.nodes, f.Fit x.tree := fun x hx => by
    refine ⟨htext x hx, fun hbare => .inr ?_, fun hopen => helse.imp id fun hclosed => ?_⟩
    · obtain ⟨hwrapper, hbase⟩ := (isBare_iff_base? x).1 hbare
      exact hlt hx (fun hk => by simp [hk, NodeKind.isWrapper] at hwrapper)
        (hb.based x hx hwrapper hbase)
    · obtain ⟨hif, hno⟩ := (isOpenIf_iff x).1 hopen
      exact hlt hx (fun hk => by simp [hk] at hif) (hclosed x hx hif hno)
  exact fun u hu => (Location.each_tree hfit).child hu

/-- Any text ends before what is in the next line and may stand behind a statement. -/
theorem exists_frame (source : List Char) (offset ids stop : Nat) {tail : List Lexeme}
    (htail : ∀ t ∈ tail.head?, t.afterBreak ∧ t.kind.follows) : ∃ f : Frame,
      f.source = source ∧ f.offset = offset ∧ f.ids = ids ∧ f.tail = tail ∧ f.stop = stop := by
  have hsemi : (tail.dropWhile fun t => t.kind == .symbol .semicolon) = tail := by
    cases tail with
    | nil => rfl
    | cons t ts =>
      refine List.dropWhile_cons_of_neg fun hsemi => ?_
      cases beq_iff_eq.1 hsemi ▸ (htail t rfl).2
  exact ⟨⟨source, offset, ids, tail, stop, fun t ht => (htail t ht).1,
    fun t ht => (htail t (hsemi ▸ ht)).2⟩, rfl, rfl, rfl, rfl, rfl⟩

/-- No `else` is ahead if none comes next, nor a semicolon. -/
theorem not_elseFollows {f : Frame} (hfollows : ∀ t ∈ f.tail.head?, t.kind.follows)
    (hno : ∀ t ∈ f.tail.head?, t.kind ≠ .keyword .else_) : ¬f.ElseFollows := by
  intro hahead
  obtain ⟨t, ts, hts, hk⟩ := rest_of_elseAhead hahead
  have ht : t ∈ f.tail.head? := by
    rw [show f.tail = _ from hts]
    rfl
  obtain hk | ⟨hk, -⟩ := hk
  · exact hno t ht hk
  · cases hk ▸ hfollows t ht

/-- Where a longer text has a text as a branch, in lines, the expression of the text is read. In the
    next line something comes that may stand behind a statement. -/
theorem controlBody_of_isBranch {before after : List Char} {tail : List Lexeme} (m i : Nat)
    (h : parse text = .ok d) (hb : d.IsBranch) (hk : d.NestsWithin k) (hle : k ≤ maxNesting)
    (hn : k ≤ n) (htail : ∀ t ∈ tail.head?, t.afterBreak ∧ t.kind.follows)
    (helse : (∀ t ∈ tail.head?, t.kind ≠ .keyword .else_) ∨ d.HasNoOpenIf) :
    ∃ u y, controlBody (.ofDepth n) .lines ⟨before ++ text ++ after,
        d.lexemes.map (Lexeme.shift (byteLength before)) ++ tail, m, i⟩ = .ok u y ∧
      y.source = before ++ text ++ after ∧ y.rest = tail ∧
      [u.shapes] = d.contents.map (Tree.map (Shape.shift (byteLength before))) := by
  obtain ⟨u, s', hchildren, hread, hrest, hon⟩ := hb.exists_assignment h hk hle
  obtain ⟨f, hsource, hoffset, rfl, rfl, hstop⟩ :=
    exists_frame (before ++ text ++ after) (byteLength before) i s'.lastStop htail
  have helse' : ¬f.ElseFollows ∨ d.HasNoOpenIf :=
    helse.imp_left (not_elseFollows fun t ht => (htail t ht).2)
  have hfits : f.Fits [u] := by
    rw [← hchildren]
    refine hb.fits h (fun x hx name hk => ?_) ?_ helse'
    · rw [hsource, hoffset, List.append_assoc, slice_shift]
      exact hasText_append h after hx name hk
    · obtain ⟨ts, hts, hlast⟩ := hon.passed
      rw [hrest, List.append_nil] at hts
      rw [hstop, hlast, hts]
      intro t ht
      rw [ht]
      rfl
  have hends : f.Ends .lines s' := ⟨fun _ => ⟨rfl, hstop.le⟩, by simp [hrest, kinds],
    by simp [hrest, kinds], by simp [Cursor.isAt_of_nil hrest]⟩
  have hread' := (Inner.carries_ofDepth f hn).assignment_cursor hread hends hfits
  have htook := took_of_reads ((Inner.sound_ofDepth k).reads_assignment hread)
  have hlength : s'.rest.length + 1 ≤ d.lexemes.length := htook.length_le
  obtain ⟨t, ts, hlexemes⟩ := List.exists_cons_of_length_pos (l := d.lexemes) (by omega)
  have hbrace : t.kind ≠ .symbol .leftBrace := by
    refine hb.brace t.toToken ?_
    rw [significant_eq, hlexemes]
    rfl
  refine ⟨f.fragment u, f.cursor s', ?_, hsource, rest_cursor_nil hrest, ?_⟩
  · -- What stands before the branch does not matter to it.
    have halike : (f.cursor (.ofTokens text d.tokens.toList)).SameButBreak
        ⟨before ++ text ++ after, d.lexemes.map (Lexeme.shift (byteLength before)) ++ f.tail, m,
          f.ids⟩ := by
      simp only [cursor, Cursor.ofTokens, hsource, hoffset, Nat.zero_add]
      change Cursor.SameButBreak ⟨_, d.lexemes.map _ ++ _, _, _⟩ _
      rw [hlexemes]
      exact .mk _ (t.shift _) t.afterBreak _ _ _ _
    simp only [controlBody, bind_eq_ok, get_eq_ok]
    refine ⟨_, _, ⟨rfl, rfl⟩, ?_⟩
    rw [if_neg (by simpa [Cursor.isAt, Cursor.kind?, hlexemes] using hbrace)]
    exact (Inner.blind_ofDepth n).blind_assignment halike hread'
  · rw [contents, hchildren, ← hoffset]
    exact congrArg (fun t => [t]) (shapes_map_shift _ _ u)

end Document

end ResultHints
