import ResultHints.Proofs.Grammar.Carry.Expression

/-!
# Arguments and branches in a longer text

What calls pass on, and what branches and loops evaluate, is read in a longer text as well.
-/

namespace ResultHints

open Reader ResultHints.Frame

variable {f : Frame} {inner inner' : Inner} {n : Nat} {m : Layout} {s s₁ s' : Cursor} {t : Lexeme}
  {k : TokenKind} {u v : Fragment} {us : List Fragment}

/-! ## Where a call ends -/

theorem annotationEntriesUpTo_of_not_isAt (h : s.isAt .annotationName = false) (limit : Nat) :
    annotationEntriesUpTo inner m limit s = .ok [] s := by
  cases limit with
  | zero => rfl
  | succ limit =>
    simp only [annotationEntriesUpTo, bind_eq_ok]
    exact ⟨_, _, accept_of_kind?_ne (by simpa [Cursor.isAt] using h), rfl⟩

theorem ends_of_lambdaAhead (h : s.lambdaAhead) : f.Ends m s := by
  have hno (mark : Symbol) (hmark : mark ≠ .leftBrace) : kinds s.rest ≠ [.symbol mark] := by
    intro hone
    have hkind : s.kind? = some (.symbol mark) := by
      rw [Cursor.kind?, ← List.head?_map]
      exact congrArg List.head? hone
    rw [lambdaAhead_of_plain] at h <;> simp [Cursor.isAt, hkind, hmark] at h ⊢
  exact ⟨fun hnil => absurd hnil (rest_ne_nil_of_lambdaAhead h), hno .dot (by decide),
    fun hsemi => absurd hsemi (hno .semicolon (by decide)), fun _ _ => h⟩

/-- Before arguments or a lambda, the longer text does not go on otherwise. -/
theorem ends_of_callOf? {callee : Fragment} {o : Option Fragment}
    (h : callOf? inner m callee s = .ok o s') (hend : f.Ends m s') : f.Ends m s := by
  obtain ⟨-, -, rfl⟩ | ⟨-, us, s₁, vs, s₂, hus, hvs, hcall⟩ := callOf?_eq_ok.1 h
  · exact hend
  · obtain ⟨-, rfl, rfl⟩ | ⟨hparen, -⟩ := of_optionally hus
    · obtain ⟨-, rfl, rfl⟩ | ⟨hahead, -⟩ := of_optionally hvs
      · obtain ⟨-, -, rfl⟩ | ⟨hne, -⟩ := hcall
        · exact hend
        · exact absurd rfl hne
      · rw [Bool.and_eq_true] at hahead
        exact ends_of_lambdaAhead hahead.2
    · exact .of_plain (Cursor.plain_of_isAt hparen rfl)

/-! ## Where a branch ends -/

/-- At the end of the text, a node does not end before it. -/
theorem not_stop_lt_of_nil {start : Nat} {kind : NodeKind} (hend : f.Ends m s)
    (hrest : s.rest = []) : ¬(s.node start kind us).span.stop < f.stop := by
  have hstop := (hend.layout hrest).2
  change ¬max s.lastStop start < f.stop
  omega

theorem rest_of_elseAhead (h : s.elseAhead) : ∃ t ts, s.rest = t :: ts ∧
    (t.kind = .keyword .else_ ∨
      t.kind = .symbol .semicolon ∧ ∃ t' ts', ts = t' :: ts' ∧ t'.kind = .keyword .else_) := by
  obtain ⟨source, _ | ⟨t, ts⟩, stop, i⟩ := s
  · cases h
  · refine ⟨t, ts, rfl, ?_⟩
    simp only [Cursor.elseAhead, Cursor.isAt, Cursor.kind?, Cursor.secondKind?, List.head?_cons,
      Option.map_some, Bool.or_eq_true, Bool.and_eq_true, beq_iff_eq, Option.some.injEq] at h
    refine h.imp_right (And.imp_right fun hsecond => ?_)
    obtain _ | ⟨t', ts'⟩ := ts
    · cases hsecond
    · exact ⟨t', ts', rfl, Option.some.inj hsecond⟩

theorem kind_of_inParentheses {kind : NodeKind} (h : inParentheses inner kind s = .ok u s') :
    u.label.kind = kind := by
  simp only [inParentheses, bind_eq_ok] at h
  obtain ⟨_, _, -, _, _, -, _, _, -, h⟩ := h
  obtain ⟨rfl, -⟩ := eq_of_wrap h
  rfl

/-- Before a branch there is its keyword, maybe after a semicolon. -/
theorem ends_of_elseAhead (h : s.elseAhead) : f.Ends m s := by
  obtain ⟨t, _, hrest, hk | ⟨hk, t', ts', rfl, -⟩⟩ := rest_of_elseAhead h
  · exact ends_of_isPlain hrest (by rw [hk]; rfl)
  · obtain ⟨source, _, stop, i⟩ := s
    cases hrest
    exact ends_of_next (t := t) (k := t.kind) rfl rfl (List.cons_ne_nil t' ts') (by simp [hk])
      (by simp [hk])

theorem elseAhead_cursor_of_elseAhead (h : s.elseAhead) :
    (f.cursor s).elseAhead = s.elseAhead := by
  obtain ⟨t, ts, hrest, hk⟩ := rest_of_elseAhead h
  refine elseAhead_cursor (fun hnil => ?_) fun hsemi => ?_
  · rw [hrest] at hnil
    cases hnil
  · rw [hrest] at hsemi
    obtain ⟨hsemi, hts⟩ := List.cons.inj hsemi
    rcases hk with hk | ⟨-, t', ts', rfl, -⟩
    · cases hsemi.symm.trans hk
    · cases hts

/-! ## Calls -/

theorem callOf?_of_atBreak (h : s.atBreak m) (callee : Fragment) :
    callOf? inner m callee s = .ok none s :=
  callOf?_eq_ok.2 (.inl ⟨h, rfl, rfl⟩)

/-- No call is read at the end of the text. -/
theorem callOf?_of_nil (hrest : s.rest = []) (callee : Fragment) :
    callOf? inner m callee s = .ok none s :=
  callOf?_of_not_ahead (Cursor.isAt_of_nil hrest _)
    (Bool.eq_false_iff.2 fun h => rest_ne_nil_of_lambdaAhead h hrest) callee

namespace Inner.Carries

variable (hn : inner.Carries f n inner')

include hn

/-! ## Arguments -/

theorem argument_cursor (h : argument inner s = .ok u s') (hend : s'.Plain) (hu : f.Fits [u]) :
    argument inner' (f.cursor s) = .ok (f.fragment u) (f.cursor s') := by
  have hrest := rest_ne_nil_of_reads (hn.sound.reads_argument h) rfl
  simp only [argument, bind_eq_ok, get_eq_ok] at h ⊢
  obtain ⟨_, _, ⟨rfl, rfl⟩, h⟩ := h
  refine ⟨_, _, ⟨rfl, rfl⟩, ?_⟩
  rw [isAt_cursor hrest, secondKind?_cursor hrest rfl, position_cursor hrest]
  split at h
  · rename_i hnamed
    rw [if_pos hnamed]
    simp only [bind_eq_ok, discard_eq_ok] at h ⊢
    obtain ⟨t, s₁, ht, _, s₂, ⟨_, ht'⟩, value, s₃, hvalue, h⟩ := h
    obtain ⟨rfl, rfl⟩ := eq_of_close h
    exact ⟨_, _, next_cursor ht, (), _, ⟨_, next_cursor ht'⟩, _, _,
      hn.expression_cursor hvalue (.of_plain hend) (fits_below hu), close_cursor _ rfl⟩
  · rename_i hnamed
    rw [if_neg hnamed]
    simp only [bind_eq_ok] at h ⊢
    obtain ⟨value, s₁, hvalue, h⟩ := h
    obtain ⟨rfl, rfl⟩ := eq_of_close h
    exact ⟨_, _, hn.expression_cursor hvalue (.of_plain hend) (fits_below hu), close_cursor _ rfl⟩

theorem argumentList_cursor (h : argumentList inner s = .ok u s') (hu : f.Fits [u]) :
    argumentList inner' (f.cursor s) = .ok (f.fragment u) (f.cursor s') := by
  simp only [argumentList, bind_eq_ok] at h ⊢
  obtain ⟨t, s₁, hopen, us, s₂, hto, h⟩ := h
  obtain ⟨rfl, rfl⟩ := eq_of_close h
  refine ⟨_, _, expect_cursor hopen, _, _, itemsTo_cursor (g := f.fragment) ?_ hto rfl ?_,
    close_cursor _ rfl⟩
  · exact fun _ _ _ ha => length_le_of_reads (hn.sound.reads_argument ha)
  · exact fun _ v _ hv ha hend => hn.argument_cursor ha hend
      ((fits_below hu).of_mem hv)

/-- The arguments of a call or an entry, if they begin on its line. -/
theorem arguments_cursor {b : Bool} (h : optionally b (argumentList inner) s = .ok us s')
    (hus : f.Fits us) :
    optionally b (argumentList inner') (f.cursor s) = .ok (us.map f.fragment) (f.cursor s') :=
  optionally_cursor h fun _ hu ha => hn.argumentList_cursor ha (hu ▸ hus)

theorem annotationEntriesUpTo_cursor {limit limit' : Nat} (hlimit : s.size ≤ limit)
    (hlimit' : limit ≤ limit') (h : annotationEntriesUpTo inner m limit s = .ok us s')
    (hus : f.Fits us) (hend : s'.rest = [] → f.Closes) :
    annotationEntriesUpTo inner' m limit' (f.cursor s) =
      .ok (us.map f.fragment) (f.cursor s') := by
  induction limit generalizing limit' s us with
  | zero =>
    obtain ⟨rfl, rfl⟩ := pure_eq_ok.1 h
    have hrest := Cursor.rest_eq_nil_of_size hlimit
    refine annotationEntriesUpTo_of_not_isAt ?_ _
    rw [isAt_cursor_of_closes hend (by simp), Cursor.isAt_of_nil hrest]
  | succ limit ih =>
    obtain ⟨limit', rfl⟩ : ∃ l, limit' = l + 1 := ⟨limit' - 1, by omega⟩
    simp only [annotationEntriesUpTo, bind_eq_ok] at h
    obtain ⟨o, s₁, ho, h⟩ := h
    obtain ⟨rfl, rfl, hno⟩ | ⟨t, rfl, ht, hk⟩ := takes_of_accept ho
    · obtain ⟨rfl, rfl⟩ := pure_eq_ok.1 h
      refine annotationEntriesUpTo_of_not_isAt ?_ _
      rw [isAt_cursor_of_closes hend (by simp)]
      exact Bool.eq_false_iff.2 hno
    · simp only [bind_eq_ok, get_eq_ok, pure_eq_ok] at h
      obtain ⟨_, _, ⟨rfl, rfl⟩, as, s₂, has, entry, s₃, hentry, rest, s₄, hrest, rfl, rfl⟩ := h
      obtain ⟨rfl, rfl⟩ := eq_of_close hentry
      obtain ⟨hentry, hus⟩ := fits_cons.1 hus
      have hlt := ht.length_lt
      have hle := length_le_of_reads
        (reads_optionally (fun _ _ _ => hn.sound.reads_argumentList) has)
      have hle' := length_le_of_reads (hn.sound.reads_annotationEntriesUpTo hrest)
      have hrest' := ih (s := s₂.made) (by simp only [Cursor.size, Cursor.made] at hlimit ⊢; omega)
        (Nat.le_of_succ_le_succ hlimit') hrest hus
      -- At the end of the text no arguments come, for it is cut off.
      have hclosed : s₁.rest = [] → f.Closes := by
        intro hnil
        rw [hnil, List.length_nil] at hle
        exact hend (List.eq_nil_of_length_eq_zero (Nat.le_zero.1 (hle'.trans hle)))
      have hahead : ((f.cursor s₁).isAt (.symbol .leftParen) && !(f.cursor s₁).atBreak m) =
          (s₁.isAt (.symbol .leftParen) && !s₁.atBreak m) := by
        rw [isAt_cursor_of_closes hclosed (by simp)]
        by_cases hnil : s₁.rest = []
        · simp [Cursor.isAt_of_nil hnil]
        · rw [atBreak_cursor hnil]
      simp only [annotationEntriesUpTo, bind_eq_ok]
      refine ⟨_, _, accept_of_takes (takes_cursor ht) hk, ?_⟩
      simp only [bind_eq_ok, get_eq_ok, pure_eq_ok]
      refine ⟨_, _, ⟨rfl, rfl⟩, _, _, ?_, _, _, close_cursor t.start rfl, _, _, hrest', rfl, rfl⟩
      rw [hahead]
      exact hn.arguments_cursor has (fits_below hentry)

theorem annotationEntries_cursor (h : annotationEntries inner m s = .ok us s') (hus : f.Fits us)
    (hend : s'.rest = [] → f.Closes) :
    annotationEntries inner' m (f.cursor s) = .ok (us.map f.fragment) (f.cursor s') := by
  rw [annotationEntries_apply] at h ⊢
  exact hn.annotationEntriesUpTo_cursor (Nat.le_refl _) (size_le_cursor s) h hus hend

theorem lambdaArgument_cursor (h : lambdaArgument inner m s = .ok u s') (hu : f.Fits [u]) :
    lambdaArgument inner' m (f.cursor s) = .ok (f.fragment u) (f.cursor s') := by
  simp only [lambdaArgument, bind_eq_ok, get_eq_ok] at h ⊢
  obtain ⟨_, _, ⟨rfl, rfl⟩, v, s₁, hv, h⟩ := h
  have hrest := rest_ne_nil_of_reads (hn.sound.wrappedLambda hv) rfl
  obtain ⟨rfl, rfl⟩ := eq_of_close h
  refine ⟨_, _, ⟨rfl, rfl⟩, _, _, hn.wrappedLambda hv (fits_below hu), ?_⟩
  rw [position_cursor hrest]
  exact close_cursor _ rfl

theorem callOf?_cursor {callee : Fragment} {o : Option Fragment}
    (h : callOf? inner m callee s = .ok o s') (hend : f.Ends m s') (ho : ∀ u ∈ o, f.Fits [u]) :
    callOf? inner' m (f.fragment callee) (f.cursor s) =
      .ok (o.map f.fragment) (f.cursor s') := by
  by_cases hrest : s.rest = []
  · rw [callOf?_of_nil hrest] at h
    cases h
    obtain rfl := (hend.layout hrest).1
    by_cases htail : f.tail = []
    · exact callOf?_of_nil (by rw [rest_cursor_nil hrest, htail]) _
    · exact callOf?_of_atBreak (atBreak_cursor_nil hrest htail) _
  · rw [callOf?_eq_ok, atBreak_cursor hrest, isAt_cursor hrest]
    obtain ⟨hbreak, rfl, rfl⟩ | ⟨hbreak, us, s₁, vs, s₂, hus, hvs, h⟩ := callOf?_eq_ok.1 h
    · exact .inl ⟨hbreak, rfl, rfl⟩
    · obtain ⟨hend₂, hus', hvs'⟩ : f.Ends m s₂ ∧ f.Fits us ∧ f.Fits vs := by
        obtain ⟨hempty, -, rfl⟩ | ⟨-, rfl, rfl⟩ := h
        · obtain ⟨rfl, rfl⟩ := List.append_eq_nil_iff.1 hempty
          exact ⟨hend, fits_nil, fits_nil⟩
        · exact ⟨ends_made.1 hend, fits_append.1 (fits_cons.1 (fits_below (ho _ rfl))).2⟩
      have hend₁ : f.Ends m s₁ := by
        obtain ⟨-, rfl, rfl⟩ | ⟨hahead, -⟩ := of_optionally hvs
        · exact hend₂
        · rw [Bool.and_eq_true] at hahead
          exact ends_of_lambdaAhead hahead.2
      refine .inr ⟨hbreak, us.map f.fragment, f.cursor s₁, vs.map f.fragment, f.cursor s₂,
        hn.arguments_cursor hus hus', ?_, ?_⟩
      · rw [lambdaAhead_cursor hend₁]
        exact optionally_cursor hvs fun _ hv ha => hn.lambdaArgument_cursor ha (hv ▸ hvs')
      · rw [← List.map_append, span_fragment]
        obtain ⟨hempty, rfl, rfl⟩ | ⟨hne, rfl, rfl⟩ := h
        · exact .inl ⟨congrArg _ hempty, rfl, rfl⟩
        · have hclose : close (callee.span.start + f.offset) .call
              ((callee :: (us ++ vs)).map f.fragment) (f.cursor s₂) =
                .ok (f.fragment (s₂.node callee.span.start .call (callee :: (us ++ vs))))
                  (f.cursor s₂.made) := close_cursor _ rfl
          obtain ⟨hnode, hmade⟩ := eq_of_close hclose
          exact .inr ⟨mt List.map_eq_nil_iff.1 hne, congrArg some hnode, hmade⟩

/-! ## Branches and loops -/

theorem controlBody_cursor (h : controlBody inner m s = .ok u s') (hend : f.Ends m s')
    (hu : f.Fits [u]) : controlBody inner' m (f.cursor s) = .ok (f.fragment u) (f.cursor s') := by
  have hrest := rest_ne_nil_of_reads (hn.sound.reads_controlBody h) rfl
  simp only [controlBody, bind_eq_ok, get_eq_ok] at h ⊢
  obtain ⟨_, _, ⟨rfl, rfl⟩, h⟩ := h
  refine ⟨_, _, ⟨rfl, rfl⟩, ?_⟩
  rw [isAt_cursor hrest]
  split at h
  · rename_i hbrace
    rw [if_pos hbrace]
    exact hn.block h hu
  · rename_i hbrace
    rw [if_neg hbrace]
    exact hn.assignment_cursor h hend hu

theorem inParentheses_cursor {kind : NodeKind} (h : inParentheses inner kind s = .ok u s')
    (hu : f.Fits [u]) :
    inParentheses inner' kind (f.cursor s) = .ok (f.fragment u) (f.cursor s') := by
  simp only [inParentheses, bind_eq_ok, discard_eq_ok] at h ⊢
  obtain ⟨_, s₁, ⟨_, hopen⟩, e, s₂, he, _, s₃, ⟨_, hclose⟩, h⟩ := h
  obtain ⟨rfl, rfl⟩ := eq_of_wrap h
  have hends : f.Ends .free s₂ := .of_plain ((skips_of_symbol hclose).plain rfl)
  exact ⟨(), _, ⟨_, expect_cursor hopen⟩, _, _, hn.expression_cursor he hends (fits_below hu),
    (), _, ⟨_, expect_cursor hclose⟩, wrap_cursor⟩

theorem elseBranch_cursor (h : elseBranch inner m s = .ok u s') (hend : f.Ends m s')
    (hu : f.Fits [u]) : elseBranch inner' m (f.cursor s) = .ok (f.fragment u) (f.cursor s') := by
  simp only [elseBranch, bind_eq_ok, discard_eq_ok] at h ⊢
  obtain ⟨_, s₁, ⟨b, hsemi⟩, _, s₂, ⟨_, helse⟩, body, s₃, hbody, h⟩ := h
  obtain ⟨rfl, rfl⟩ := eq_of_wrap h
  have hrest : s.rest ≠ [] := by
    obtain ⟨-, rfl⟩ | ⟨-, t, ht, -⟩ := skips_of_accepts hsemi
    · exact (takes_of_keyword helse).1.rest_ne_nil
    · exact ht.rest_ne_nil
  exact ⟨(), _, ⟨_, accepts_cursor hsemi fun hnil => absurd hnil hrest⟩, (), _,
    ⟨_, expect_cursor helse⟩, _, _,
    hn.controlBody_cursor hbody (ends_made.1 hend) (fits_below hu), wrap_cursor⟩

theorem ifElse_cursor (h : ifElse inner m s = .ok u s') (hend : f.Ends m s') (hu : f.Fits [u]) :
    ifElse inner' m (f.cursor s) = .ok (f.fragment u) (f.cursor s') := by
  simp only [ifElse, bind_eq_ok, get_eq_ok] at h ⊢
  obtain ⟨t, s₁, ht, c, s₂, hc, b, s₃, hb, branch, s₄, hwrap, _, _, ⟨rfl, rfl⟩, es, s₅, hes,
    h⟩ := h
  obtain ⟨rfl, rfl⟩ := eq_of_wrap hwrap
  obtain ⟨rfl, rfl⟩ := eq_of_close h
  obtain ⟨hcondition, hbranches⟩ := fits_cons.1 (fits_below hu)
  obtain ⟨hthen, helse⟩ := fits_cons.1 hbranches
  obtain ⟨hends, hahead'⟩ : f.Ends m s₃ ∧ (f.cursor s₃.made).elseAhead = s₃.made.elseAhead := by
    obtain ⟨-, rfl, rfl⟩ | ⟨hahead, -⟩ := of_optionally hes
    · have hends := ends_made.1 hend
      refine ⟨ends_made.1 hends, elseAhead_cursor (fun hnil => ?_) hends.semicolon⟩
      have hopen : (s₃.made.node t.start .ifElse [c, s₃.wrap .thenBranch b]).isOpenIf := by
        change ([c, s₃.wrap .thenBranch b].all fun v => v.label.kind != .elseBranch) = true
        rw [List.all_cons, kind_of_inParentheses hc]
        rfl
      exact ((fits_node.1 hu).1.openIf hopen).resolve_right (not_stop_lt_of_nil hends hnil)
    · exact ⟨ends_made.1 (ends_of_elseAhead hahead), elseAhead_cursor_of_elseAhead hahead⟩
  refine ⟨_, _, expect_cursor ht, _, _, hn.inParentheses_cursor hc hcondition, _, _,
    hn.controlBody_cursor hb hends (fits_below hthen), _, _, wrap_cursor, _, _, ⟨rfl, rfl⟩,
    es.map f.fragment, f.cursor s₅, ?_, close_cursor t.start rfl⟩
  rw [hahead']
  exact optionally_cursor hes fun _ hv hbranch =>
    hn.elseBranch_cursor hbranch (ends_made.1 hend) (hv ▸ helse)

theorem whenCondition_cursor (h : whenCondition inner s = .ok u s') (hend : s'.Plain)
    (hu : f.Fits [u]) : whenCondition inner' (f.cursor s) = .ok (f.fragment u) (f.cursor s') := by
  have hrest : s.rest ≠ [] := by
    have hle := length_le_of_reads (hn.sound.reads_whenCondition h)
    have hpos := List.length_pos_iff.2 hend.rest_ne_nil
    exact List.length_pos_iff.1 (by omega)
  simp only [whenCondition, bind_eq_ok, get_eq_ok] at h ⊢
  obtain ⟨_, _, ⟨rfl, rfl⟩, h⟩ := h
  refine ⟨_, _, ⟨rfl, rfl⟩, ?_⟩
  rw [kind?_cursor hrest, position_cursor hrest]
  refine ok_of_cases h fun r r' => ?_
  split <;> rintro rfl rfl h
  -- The test of a type and its negation, then those of membership.
  iterate 2
    · simp only [bind_eq_ok, discard_eq_ok] at h ⊢
      obtain ⟨_, s₁, ⟨t, ht⟩, v, s₂, hv, h⟩ := h
      obtain ⟨rfl, rfl⟩ := eq_of_close h
      exact ⟨(), _, ⟨_, next_cursor ht⟩, _, _,
        hn.typeReference_cursor hv hend.kinds_ne_dot (fits_below hu), close_cursor _ rfl⟩
  iterate 2
    · simp only [bind_eq_ok, discard_eq_ok] at h ⊢
      obtain ⟨_, s₁, ⟨t, ht⟩, v, s₂, hv, h⟩ := h
      obtain ⟨rfl, rfl⟩ := eq_of_close h
      exact ⟨(), _, ⟨_, next_cursor ht⟩, _, _,
        hn.expression_cursor hv (.of_plain hend) (fits_below hu), close_cursor _ rfl⟩
  · simp only [bind_eq_ok] at h ⊢
    obtain ⟨v, s₂, hv, h⟩ := h
    obtain ⟨rfl, rfl⟩ := eq_of_close h
    exact ⟨_, _, hn.expression_cursor hv (.of_plain hend) (fits_below hu), close_cursor _ rfl⟩

theorem whenEntry_cursor (h : whenEntry inner s = .ok u s') (hend : f.Ends .lines s')
    (hu : f.Fits [u]) : whenEntry inner' (f.cursor s) = .ok (f.fragment u) (f.cursor s') := by
  have hrest : s.rest ≠ [] := by
    have hlt := (took_of_reads (hn.sound.reads_whenEntry h)).length_le
    rw [List.length_singleton] at hlt
    exact List.length_pos_iff.1 (by omega)
  simp only [whenEntry, bind_eq_ok, get_eq_ok] at h ⊢
  obtain ⟨_, _, ⟨rfl, rfl⟩, o, s₁, ho, h⟩ := h
  refine ⟨_, _, ⟨rfl, rfl⟩, _, _, accept_cursor ho fun hnil => absurd hnil hrest, ?_⟩
  rw [Option.isSome_map]
  obtain ⟨rfl, rfl, -⟩ | ⟨t, rfl, ht, hk⟩ := takes_of_accept ho
  · simp only [Option.isSome_none, Bool.false_eq_true, if_false, bind_eq_ok, discard_eq_ok] at h ⊢
    obtain ⟨cs, s₂, hcs, _, s₃, ⟨_, harrow⟩, b, s₄, hb, h⟩ := h
    obtain ⟨rfl, rfl⟩ := eq_of_close h
    obtain ⟨hconditions, hbody⟩ := fits_append.1 (fits_below hu)
    have hplain := (skips_of_symbol harrow).plain rfl
    have hrest : s₁.rest ≠ [] := by
      have hle := length_le_of_reads (reads_items (fun _ _ _ => hn.sound.reads_whenCondition) hcs).1
      have hpos := List.length_pos_iff.2 hplain.rest_ne_nil
      exact List.length_pos_iff.1 (by omega)
    rw [position_cursor hrest]
    refine ⟨_, _, items_cursor (g := f.fragment) ?_ hcs hplain ?_, (), _,
      ⟨_, expect_cursor harrow⟩, _, _, hn.controlBody_cursor hb (ends_made.1 hend) hbody,
      close_cursor _ (by rw [List.map_append]; rfl)⟩
    · exact fun _ _ _ hc => length_le_of_reads (hn.sound.reads_whenCondition hc)
    · exact fun _ c _ hc hread hplain => hn.whenCondition_cursor hread hplain
        (hconditions.of_mem hc)
  · simp only [Option.isSome_some, if_true, bind_eq_ok, discard_eq_ok, pure_eq_ok] at h ⊢
    obtain ⟨_, _, ⟨rfl, rfl⟩, _, s₃, ⟨_, harrow⟩, b, s₄, hb, h⟩ := h
    obtain ⟨rfl, rfl⟩ := eq_of_close h
    rw [position_cursor ht.rest_ne_nil]
    exact ⟨_, _, ⟨rfl, rfl⟩, (), _, ⟨_, expect_cursor harrow⟩, _, _,
      hn.controlBody_cursor hb (ends_made.1 hend) (fits_below hu), close_cursor _ rfl⟩

theorem whenBranches_cursor (h : whenBranches inner s = .ok u s') (hu : f.Fits [u]) :
    whenBranches inner' (f.cursor s) = .ok (f.fragment u) (f.cursor s') := by
  simp only [whenBranches, bind_eq_ok, get_eq_ok, discard_eq_ok] at h ⊢
  obtain ⟨t, s₁, ht, _, _, ⟨rfl, rfl⟩, us, s₂, hus, _, s₃, ⟨_, hopen⟩, es, s₄, hes, _, s₅,
    ⟨_, hclose⟩, h⟩ := h
  obtain ⟨rfl, rfl⟩ := eq_of_close h
  obtain ⟨hsubject, hentries⟩ := fits_append.1 (fits_below hu)
  have hat : s₄.isAt (.symbol .rightBrace) := (skips_of_symbol hclose).isAt
  refine ⟨_, _, expect_cursor ht, _, _, ⟨rfl, rfl⟩, us.map f.fragment, f.cursor s₂, ?_, (), _,
    ⟨_, expect_cursor hopen⟩, _, _,
    rows_cursor (fun _ _ _ => hn.sound.reads_whenEntry) hes hat ?_, (), _,
    ⟨_, expect_cursor hclose⟩, close_cursor _ (by rw [List.map_append])⟩
  · have hrest : s₁.rest ≠ [] := by
      obtain ⟨-, -, rfl⟩ | ⟨hat, -⟩ := of_optionally hus
      · exact (takes_of_symbol hopen).1.rest_ne_nil
      · exact Cursor.rest_ne_nil_of_isAt hat
    rw [isAt_cursor hrest]
    exact optionally_cursor hus fun _ hv hread => hn.inParentheses_cursor hread (hv ▸ hsubject)
  · exact fun _ v _ hv hread hends _ => hn.whenEntry_cursor hread hends
      (hentries.of_mem hv)

theorem forLoop_cursor (h : forLoop inner m s = .ok u s') (hend : f.Ends m s') (hu : f.Fits [u]) :
    forLoop inner' m (f.cursor s) = .ok (f.fragment u) (f.cursor s') := by
  simp only [forLoop, bind_eq_ok, discard_eq_ok] at h ⊢
  obtain ⟨t, s₁, ht, _, s₂, ⟨_, hopen⟩, name, s₃, hname, _, s₄, ⟨_, hin⟩, e, s₅, he, _, s₆,
    ⟨_, hclose⟩, range, s₇, hrange, b, s₈, hb, body, s₉, hbody, h⟩ := h
  obtain ⟨rfl, rfl⟩ := eq_of_wrap hrange
  obtain ⟨rfl, rfl⟩ := eq_of_wrap hbody
  obtain ⟨rfl, rfl⟩ := eq_of_close h
  obtain ⟨hrange, hbody⟩ := fits_cons.1 (fits_below hu)
  have hends : f.Ends .free s₅ := .of_plain ((skips_of_symbol hclose).plain rfl)
  exact ⟨_, _, expect_cursor ht, (), _, ⟨_, expect_cursor hopen⟩, _, _, expect_cursor hname, (), _,
    ⟨_, expect_cursor hin⟩, _, _, hn.expression_cursor he hends (fits_below hrange), (), _,
    ⟨_, expect_cursor hclose⟩, _, _, wrap_cursor, _, _,
    hn.controlBody_cursor hb (ends_made.1 (ends_made.1 hend)) (fits_below hbody), _, _,
    wrap_cursor, close_cursor _ rfl⟩

theorem whileLoop_cursor (h : whileLoop inner m s = .ok u s') (hend : f.Ends m s')
    (hu : f.Fits [u]) : whileLoop inner' m (f.cursor s) = .ok (f.fragment u) (f.cursor s') := by
  simp only [whileLoop, bind_eq_ok] at h ⊢
  obtain ⟨t, s₁, ht, c, s₂, hc, b, s₃, hb, body, s₄, hbody, h⟩ := h
  obtain ⟨rfl, rfl⟩ := eq_of_wrap hbody
  obtain ⟨rfl, rfl⟩ := eq_of_close h
  obtain ⟨hcondition, hbody⟩ := fits_cons.1 (fits_below hu)
  exact ⟨_, _, expect_cursor ht, _, _, hn.inParentheses_cursor hc hcondition, _, _,
    hn.controlBody_cursor hb (ends_made.1 (ends_made.1 hend)) (fits_below hbody), _, _,
    wrap_cursor, close_cursor _ rfl⟩

end Inner.Carries

end ResultHints
