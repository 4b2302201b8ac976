import ResultHints.Proofs.Grammar.Carry.Operand

/-!
# Statements in a longer text

Declarations and statements are read in a longer text as well, and with them the bodies of
lambdas. Main statement:

- `Inner.carries_ofDepth`: the levels of nesting are carried over at every depth.
-/

namespace ResultHints

open Reader ResultHints.Frame

variable {f : Frame} {inner inner' : Inner} {n : Nat} {m : Layout} {s s₁ s' : Cursor} {t : Lexeme}
  {k : TokenKind} {u v : Fragment} {us : List Fragment}

/-! ## Bodies -/

theorem functionBody_of_nil (h : functionBody inner s = .ok us s') (hrest : s.rest = []) :
    us = [] ∧ s' = s := by
  simp only [functionBody, bind_eq_ok, get_eq_ok] at h
  obtain ⟨_, _, ⟨rfl, rfl⟩, h⟩ := h
  rw [if_neg (by simp [Cursor.isAt_of_nil hrest])] at h
  obtain ⟨rfl, rfl⟩ | ⟨_, s₁, -, hs, -⟩ := of_after h
  · exact ⟨rfl, rfl⟩
  · exact absurd hrest (hs.plain rfl).rest_ne_nil

theorem kinds_ne_dot_of_functionBody (h : functionBody inner s = .ok us s')
    (hdot : kinds s'.rest ≠ [.symbol .dot]) : kinds s.rest ≠ [.symbol .dot] := by
  simp only [functionBody, bind_eq_ok, get_eq_ok] at h
  obtain ⟨_, _, ⟨rfl, rfl⟩, h⟩ := h
  split at h
  · rename_i hbrace
    exact (Cursor.plain_of_isAt hbrace rfl).kinds_ne_dot
  · exact kinds_ne_dot_of_after h rfl hdot

theorem bodySpan_shift (closing : Lexeme) (us : List Fragment) :
    bodySpan (closing.shift f.offset) (us.map f.fragment) =
      (bodySpan closing us).shift f.offset := by
  rw [bodySpan, bodySpan, List.head?_map, List.getLast?_map]
  cases us.head? <;> cases us.getLast? <;>
    simp [span_fragment, Span.shift, Span.point]

namespace Inner.Carries

variable (hn : inner.Carries f n inner')

include hn

/-! ## Declarations and statements -/

theorem functionParameter_cursor (h : functionParameter inner s = .ok u s') (hend : s'.Plain)
    (hu : f.Fits [u]) :
    functionParameter inner' (f.cursor s) = .ok (f.fragment u) (f.cursor s') := by
  simp only [functionParameter, bind_eq_ok] at h ⊢
  obtain ⟨t, s₁, ht, us, s₂, hus, vs, s₃, hvs, h⟩ := h
  obtain ⟨rfl, rfl⟩ := eq_of_close h
  obtain ⟨htype, hvalue⟩ := fits_append.1 (fits_below hu)
  have hdot := kinds_ne_dot_of_after hvs rfl hend.kinds_ne_dot
  refine ⟨_, _, expect_cursor ht, _, _, after_cursor (g := f.fragment) hus rfl ?_, _, _,
    after_cursor (g := f.fragment) hvs rfl ?_, close_cursor t.start (by rw [List.map_append])⟩
  · exact fun _ _ hv hread => hn.typeReference_cursor hread hdot (hv ▸ htype)
  · exact fun _ _ hv hread => hn.expression_cursor hread (.of_plain hend) (hv ▸ hvalue)

theorem lambdaParameter_cursor (h : lambdaParameter inner s = .ok u s') (hend : s'.Plain)
    (hu : f.Fits [u]) : lambdaParameter inner' (f.cursor s) = .ok (f.fragment u) (f.cursor s') := by
  simp only [lambdaParameter, bind_eq_ok] at h ⊢
  obtain ⟨t, s₁, ht, us, s₂, hus, h⟩ := h
  obtain ⟨rfl, rfl⟩ := eq_of_close h
  refine ⟨_, _, expect_cursor ht, _, _, after_cursor (g := f.fragment) hus rfl ?_,
    close_cursor t.start rfl⟩
  exact fun _ _ hv hread => hn.typeReference_cursor hread hend.kinds_ne_dot (hv ▸ fits_below hu)

theorem functionBody_cursor (h : functionBody inner s = .ok us s') (hend : f.Ends .lines s')
    (hus : f.Fits us) (hcloses : s.rest = [] → f.Closes) :
    functionBody inner' (f.cursor s) = .ok (us.map f.fragment) (f.cursor s') := by
  simp only [functionBody, bind_eq_ok, get_eq_ok] at h ⊢
  obtain ⟨_, _, ⟨rfl, rfl⟩, h⟩ := h
  refine ⟨_, _, ⟨rfl, rfl⟩, ?_⟩
  rw [isAt_cursor_of_closes hcloses (by simp)]
  split at h
  · rename_i hbrace
    rw [if_pos hbrace]
    simp only [bind_eq_ok, pure_eq_ok] at h ⊢
    obtain ⟨u, s₁, hu, rfl, rfl⟩ := h
    exact ⟨_, _, hn.block hu hus, rfl, rfl⟩
  · rename_i hbrace
    rw [if_neg hbrace]
    exact after_cursor h rfl fun _ _ hv hread => hn.expression_cursor hread hend (hv ▸ hus)

/-- A function without a body has but parameters and a type below it. -/
theorem isBodiless_function {name : String} {start : Nat} {ps : List Fragment} {s₂ : Cursor}
    (hps : itemsTo .rightParen (functionParameter inner) s = .ok ps s₁)
    (hus : after .colon (typeReference inner) s₁ = .ok us s₂) :
    (s'.node start (.function name) (ps ++ us)).isBodiless := by
  obtain ⟨s₃, hps, -⟩ := reads_itemsTo (fun _ _ _ => hn.sound.reads_functionParameter) hps
  have hus := reads_after (fun _ _ _ => hn.sound.reads_typeReference) hus
  have hno : ∀ k : NodeKind, k.isParameter ∨ k.isTypeReference → k.isExpression = false := by
    rintro (_ | _) (h | h) <;> first | rfl | cases h
  change (ps ++ us).all (fun v => !v.label.kind.isExpression) = true
  rw [List.all_eq_true]
  intro v hv
  rw [Bool.not_eq_true', ← Tree.label_map (fun a : Node => a.kind)]
  refine hno _ ?_
  obtain hv | hv := List.mem_append.1 hv
  · exact .inl (laid_of_reads hps v hv).2
  · exact .inr (laid_of_reads hus v hv).2

theorem function_cursor (h : function inner s = .ok u s') (hend : f.Ends .lines s')
    (hu : f.Fits [u]) (hbodied : s'.rest = [] → u.Each f.Bodied) :
    function inner' (f.cursor s) = .ok (f.fragment u) (f.cursor s') := by
  simp only [function, bind_eq_ok, discard_eq_ok] at h ⊢
  obtain ⟨t, s₁, ht, name, s₂, hname, _, s₃, ⟨_, hopen⟩, ps, s₄, hto, us, s₅, hus, vs, s₆, hvs,
    h⟩ := h
  obtain ⟨rfl, rfl⟩ := eq_of_close h
  obtain ⟨hhead, hbody⟩ := fits_append.1 (fits_below hu)
  obtain ⟨hparameters, htype⟩ := fits_append.1 hhead
  have hend₆ := ends_made.1 hend
  have hdot := kinds_ne_dot_of_functionBody hvs hend₆.dot
  have hcloses : s₅.rest = [] → f.Closes := by
    intro hrest
    obtain ⟨rfl, rfl⟩ := functionBody_of_nil hvs hrest
    have hbodied := (hbodied hrest).self
    rw [List.append_nil] at hbodied
    exact (hbodied (hn.isBodiless_function hto hus)).resolve_right
      (not_stop_lt_of_nil hend₆ hrest)
  refine ⟨_, _, expect_cursor ht, _, _,
    qualifiedName_cursor hname ((skips_of_symbol hopen).plain rfl).kinds_ne_dot, (), _,
    ⟨_, expect_cursor hopen⟩, _, _, itemsTo_cursor (g := f.fragment) ?_ hto rfl ?_, _, _,
    after_cursor (g := f.fragment) hus rfl ?_, _, _,
    hn.functionBody_cursor hvs hend₆ hbody hcloses,
    close_cursor t.start (by rw [List.map_append, List.map_append])⟩
  · exact fun _ _ _ ha => length_le_of_reads (hn.sound.reads_functionParameter ha)
  · exact fun _ v _ hv hread hplain => hn.functionParameter_cursor hread hplain
      (hparameters.of_mem hv)
  · exact fun _ _ hv hread => hn.typeReference_cursor hread hdot (hv ▸ htype)

theorem property_cursor (h : property inner s = .ok u s') (hend : f.Ends .lines s')
    (hu : f.Fits [u]) : property inner' (f.cursor s) = .ok (f.fragment u) (f.cursor s') := by
  simp only [property, bind_eq_ok] at h ⊢
  obtain ⟨t, s₁, ht, name, s₂, hname, us, s₃, hus, vs, s₄, hvs, h⟩ := h
  obtain ⟨rfl, rfl⟩ := eq_of_close h
  obtain ⟨htype, hvalue⟩ := fits_append.1 (fits_below hu)
  have hend₄ := ends_made.1 hend
  have hdot := kinds_ne_dot_of_after hvs rfl hend₄.dot
  refine ⟨_, _, next_cursor ht, _, _, expect_cursor hname, _, _,
    after_cursor (g := f.fragment) hus rfl ?_, _, _,
    after_cursor (g := f.fragment) hvs rfl ?_, close_cursor t.start (by rw [List.map_append])⟩
  · exact fun _ _ hv hread => hn.typeReference_cursor hread hdot (hv ▸ htype)
  · exact fun _ _ hv hread => hn.expression_cursor hread hend₄ (hv ▸ hvalue)

theorem annotatedDeclaration_cursor (h : annotatedDeclaration inner s = .ok u s')
    (hat : s.isAt .annotationName) (hend : f.Ends .lines s') (hu : f.Fits [u])
    (hbodied : s'.rest = [] → u.Each f.Bodied) :
    annotatedDeclaration inner' (f.cursor s) = .ok (f.fragment u) (f.cursor s') := by
  simp only [annotatedDeclaration, bind_eq_ok, get_eq_ok] at h ⊢
  obtain ⟨_, _, ⟨rfl, rfl⟩, es, s₁, hes, _, _, ⟨rfl, rfl⟩, h⟩ := h
  have hrest : s₁.rest ≠ [] := by
    split at h
    · rename_i hfun
      exact Cursor.rest_ne_nil_of_isAt hfun
    · simp only [property, bind_eq_ok] at h
      obtain ⟨_, _, ⟨t, _, ht, -⟩, -⟩ := h
      exact (takes_of_next ht).rest_ne_nil
  have hposition := position_cursor (f := f) (Cursor.rest_ne_nil_of_isAt hat)
  split at h
  · rename_i hfun
    simp only [bind_eq_ok] at h
    obtain ⟨v, s₂, hv, h⟩ := h
    obtain ⟨rfl, rfl⟩ := eq_of_close h
    obtain ⟨hentries, hv'⟩ := fits_append.1 (fits_below hu)
    refine ⟨_, _, ⟨rfl, rfl⟩, _, _,
      hn.annotationEntries_cursor hes hentries fun hnil => absurd hnil hrest, _, _, ⟨rfl, rfl⟩, ?_⟩
    rw [isAt_cursor hrest, if_pos hfun, hposition]
    have hbodied' (hnil : s₂.rest = []) : v.Each f.Bodied :=
      (hbodied hnil).child (List.mem_append_right _ List.mem_cons_self)
    exact bind_eq_ok.2 ⟨_, _, hn.function_cursor hv (ends_made.1 hend) hv' hbodied',
      close_cursor _ (by rw [List.map_append]; rfl)⟩
  · rename_i hfun
    simp only [bind_eq_ok] at h
    obtain ⟨v, s₂, hv, h⟩ := h
    obtain ⟨rfl, rfl⟩ := eq_of_close h
    obtain ⟨hentries, hv'⟩ := fits_append.1 (fits_below hu)
    refine ⟨_, _, ⟨rfl, rfl⟩, _, _,
      hn.annotationEntries_cursor hes hentries fun hnil => absurd hnil hrest, _, _, ⟨rfl, rfl⟩, ?_⟩
    rw [isAt_cursor hrest, if_neg hfun, hposition]
    exact bind_eq_ok.2 ⟨_, _, hn.property_cursor hv (ends_made.1 hend) hv',
      close_cursor _ (by rw [List.map_append]; rfl)⟩

theorem declarationAhead_assignment (h : assignment inner .lines s = .ok u s')
    (hat : s.isAt .annotationName) (hend : f.Ends .lines s') (hu : f.Fits [u]) :
    (f.cursor s).declarationAhead = s.declarationAhead := by
  obtain ⟨left, s₁, hleft, hends, hfits⟩ := ends_of_assignment h hend hu
  simp only [expression, bind_eq_ok, get_eq_ok] at hleft
  obtain ⟨first, s₂, hfirst, _, _, ⟨rfl, rfl⟩, hchain⟩ := hleft
  exact hn.declarationAhead hfirst hat (ends_of_chain hchain hends) (fits_of_chain hchain hfits)

theorem statement_cursor (h : statement inner s = .ok u s') (hend : f.Ends .lines s')
    (hu : f.Fits [u]) (hbodied : s'.rest = [] → u.Each f.Bodied) :
    statement inner' (f.cursor s) = .ok (f.fragment u) (f.cursor s') := by
  have hrest := rest_ne_nil_of_reads (hn.sound.reads_statement h) rfl
  simp only [statement, bind_eq_ok, get_eq_ok] at h ⊢
  obtain ⟨_, _, ⟨rfl, rfl⟩, h⟩ := h
  refine ⟨_, _, ⟨rfl, rfl⟩, ?_⟩
  rw [kind?_cursor hrest]
  have hcase := h
  refine ok_of_cases hcase fun r r' => ?_
  split
  · rintro rfl rfl h
    exact hn.function_cursor h hend hu hbodied
  · rintro rfl rfl h
    exact hn.property_cursor h hend hu
  · rintro rfl rfl h
    exact hn.property_cursor h hend hu
  · rename_i hk
    have hat : s.isAt .annotationName := by rw [Cursor.isAt, hk]; rfl
    by_cases hahead : s.declarationAhead
    · rw [if_pos hahead, if_pos (declarationAhead_cursor_of_declarationAhead hahead)]
      rintro rfl rfl h
      exact hn.annotatedDeclaration_cursor h hat hend hu hbodied
    · rw [if_neg hahead]
      rintro rfl hr h
      rw [hn.declarationAhead_assignment h hat hend hu, if_neg hahead] at hr
      subst hr
      exact hn.assignment_cursor h hend hu
  · rintro rfl rfl h
    exact hn.assignment_cursor h hend hu

theorem statementsInBraces_cursor (h : statementsInBraces inner s = .ok us s')
    (hend : s'.isAt (.symbol .rightBrace)) (hus : f.Fits us) :
    statementsInBraces inner' (f.cursor s) = .ok (us.map f.fragment) (f.cursor s') :=
  rows_cursor (fun _ _ _ => hn.sound.reads_statement) h hend fun _ _ _ hv hread hends hrest =>
    hn.statement_cursor hread hends (hus.of_mem hv) fun hnil => absurd hnil hrest

theorem blockLevel_cursor (h : blockLevel inner s = .ok u s') (hu : f.Fits [u]) :
    blockLevel inner' (f.cursor s) = .ok (f.fragment u) (f.cursor s') := by
  simp only [blockLevel, bind_eq_ok] at h ⊢
  obtain ⟨opening, s₁, hopen, us, s₂, hus, closing, s₃, hclose, h⟩ := h
  obtain ⟨rfl, rfl⟩ := eq_of_make h
  refine ⟨_, _, expect_cursor hopen, _, _,
    hn.statementsInBraces_cursor hus (skips_of_symbol hclose).isAt (fits_below hu), _, _,
    expect_cursor hclose, make_cursor_between rfl⟩

theorem lambdaParameters_cursor (h : lambdaParameters inner s = .ok us s')
    (hbrace : ∃ t ∈ s.rest, t.kind = .symbol .rightBrace) (hus : f.Fits us) :
    lambdaParameters inner' (f.cursor s) = .ok (us.map f.fragment) (f.cursor s') := by
  simp only [lambdaParameters, bind_eq_ok, get_eq_ok] at h ⊢
  obtain ⟨_, _, ⟨rfl, rfl⟩, h⟩ := h
  refine ⟨_, _, ⟨rfl, rfl⟩, ?_⟩
  have hahead : parametersAhead (f.cursor s).rest = parametersAhead s.rest :=
    parametersAhead_append hbrace f.tail
  rw [hahead]
  split at h
  · rename_i hyes
    rw [if_pos hyes]
    simp only [bind_eq_ok, discard_eq_ok, pure_eq_ok] at h ⊢
    obtain ⟨ps, s₁, hps, _, s₂, ⟨_, harrow⟩, rfl, rfl⟩ := h
    refine ⟨_, _, items_cursor (g := f.fragment) ?_ hps ((skips_of_symbol harrow).plain rfl) ?_, (),
      _, ⟨_, expect_cursor harrow⟩, rfl, rfl⟩
    · exact fun _ _ _ ha => length_le_of_reads (hn.sound.reads_lambdaParameter ha)
    · exact fun _ v _ hv hread hplain => hn.lambdaParameter_cursor hread hplain
        (hus.of_mem hv)
  · rename_i hno
    obtain ⟨rfl, rfl⟩ := pure_eq_ok.1 h
    rw [if_neg hno]
    rfl

theorem lambdaLevel_cursor (h : lambdaLevel inner s = .ok u s') (hu : f.Fits [u]) :
    lambdaLevel inner' (f.cursor s) = .ok (f.fragment u) (f.cursor s') := by
  simp only [lambdaLevel, bind_eq_ok] at h ⊢
  obtain ⟨opening, s₁, hopen, ps, s₂, hps, us, s₃, hus, closing, s₄, hclose, body, s₅, hbody,
    literal, s₆, hliteral, h⟩ := h
  obtain ⟨rfl, rfl⟩ := eq_of_make hbody
  obtain ⟨rfl, rfl⟩ := eq_of_make hliteral
  obtain ⟨rfl, rfl⟩ := eq_of_make h
  obtain ⟨hparameters, hblock⟩ := fits_append.1 (fits_below (fits_below hu))
  have hat := (skips_of_symbol hclose).isAt
  have htook := (took_of_reads (hn.sound.reads_lambdaParameters hps)).append
    (took_of_reads (hn.sound.reads_statements hus))
  have hbrace : ∃ t ∈ s₁.rest, t.kind = .symbol .rightBrace := by
    obtain ⟨ts, hrest, -⟩ := htook.taken
    obtain ⟨t, ⟨source, t, ts', stop, i⟩, hk⟩ := skips_of_symbol hclose
    exact ⟨t, by rw [hrest]; simp, hk⟩
  refine ⟨_, _, expect_cursor hopen, _, _, hn.lambdaParameters_cursor hps hbrace hparameters, _, _,
    hn.statementsInBraces_cursor hus hat (fits_below hblock), _, _, expect_cursor hclose,
    f.fragment (s₄.make .block (bodySpan closing us) us), f.cursor s₄.made, ?_, _, _,
    make_cursor_between (by rw [List.map_append]; rfl), make_cursor_between rfl⟩
  rw [bodySpan_shift]
  exact make_cursor rfl

end Inner.Carries

/-- Levels of nesting are carried over to as many levels or more. -/
theorem Inner.carries_ofDepth (f : Frame) {n n' : Nat} (h : n ≤ n') :
    (Inner.ofDepth n).Carries f n (Inner.ofDepth n') := by
  induction n generalizing n' with
  | zero =>
    -- With no level left, nothing is read.
    exact
      { sound := Inner.sound_ofDepth 0
        sound' := ⟨n', Inner.sound_ofDepth n'⟩
        type := fun h => by cases h
        operand := fun h => by cases h
        wrappedLambda := fun h => by cases h
        lambda := fun h => by cases h
        block := fun h => by cases h
        declarationAhead := fun h => by cases h }
  | succ n ih =>
    obtain ⟨n', rfl⟩ : ∃ l, n' = l + 1 := ⟨n' - 1, by omega⟩
    have ih := ih (Nat.le_of_succ_le_succ h)
    exact
      { sound := Inner.sound_ofDepth (n + 1)
        sound' := ⟨n' + 1, Inner.sound_ofDepth (n' + 1)⟩
        type := ih.typeLevel_cursor
        operand := ih.operandLevel_cursor
        wrappedLambda := ih.wrappedLambdaLevel_cursor
        lambda := ih.lambdaLevel_cursor
        block := ih.blockLevel_cursor
        declarationAhead := ih.declarationAhead_operandLevel }

end ResultHints
