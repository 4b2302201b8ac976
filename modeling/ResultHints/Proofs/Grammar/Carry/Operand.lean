import ResultHints.Proofs.Grammar.Carry.Control

/-!
# Operands in a longer text

An operand is read in a longer text with all that follows it there (`suffixes_cursor`) and
stands before it (`operandLevel_cursor`). A label or annotations at the end of the text
stand before nothing in the longer one, for there the text is cut off (`closes_of_bare`).
-/

namespace ResultHints

open Reader ResultHints.Frame

variable {f : Frame} {inner inner' : Inner} {n : Nat} {m : Layout} {s s₁ s' : Cursor} {t : Lexeme}
  {k : TokenKind} {u v : Fragment} {us : List Fragment}

/-! ## Where an operand ends -/

theorem labelReference?_cursor {label : Option String} (h : labelReference? s = .ok label s') :
    labelReference? (f.cursor s) = .ok label (f.cursor s') := by
  simp only [labelReference?, bind_eq_ok, pure_eq_ok] at h ⊢
  obtain ⟨o, s₁, ho, rfl, rfl⟩ := h
  refine ⟨_, _, accept_cursor ho fun hnil => kind?_cursor_ne hnil rfl, ?_, rfl⟩
  rw [Option.map_map]
  rfl

theorem isPlain_of_trailing {op : TrailingOperator} (h : k.trailing? = some op) : k.isPlain := by
  cases k with
  | symbol mark => cases mark <;> first | rfl | cases h
  | _ => first | rfl | cases h

theorem rest_ne_nil_of_member (h : member inner m s = .ok u s') : s.rest ≠ [] := by
  simp only [member, bind_eq_ok] at h
  obtain ⟨t, s₁, ht, -⟩ := h
  exact (takes_of_identifier ht).1.rest_ne_nil

/-- At the end of the text nothing follows an operand, nor does it in the longer one. -/
theorem suffixesUpTo_of_nil (hrest : s.rest = []) (limit : Nat) (e : Fragment) :
    suffixesUpTo inner m limit e s = .ok e s := by
  cases limit with
  | zero => rfl
  | succ limit =>
    simp only [suffixesUpTo, bind_eq_ok, get_eq_ok]
    refine ⟨_, _, ⟨rfl, rfl⟩, ok_of_forall_eq fun q => ?_⟩
    rw [Cursor.kind?_of_nil hrest]
    dsimp only
    rw [if_neg (by simp [Cursor.atBreak, hrest])]
    rintro rfl
    exact bind_eq_ok.2 ⟨_, _, callOf?_of_nil hrest e, rfl⟩

theorem suffixesUpTo_of_atBreak (hbreak : s.atBreak m) (hdot : s.isAt (.symbol .dot) = false)
    (hsafe : s.isAt (.symbol .safeAccess) = false) (limit : Nat) (e : Fragment) :
    suffixesUpTo inner m limit e s = .ok e s := by
  cases limit with
  | zero => rfl
  | succ limit =>
    simp only [suffixesUpTo, bind_eq_ok, get_eq_ok]
    refine ⟨_, _, ⟨rfl, rfl⟩, ok_of_forall_eq fun q => ?_⟩
    split <;> rintro rfl
    · rename_i hk
      simp [Cursor.isAt, hk] at hdot
    · rename_i hk
      simp [Cursor.isAt, hk] at hsafe
    · rw [if_pos hbreak]
      rfl

theorem suffixesUpTo_cursor_of_nil (hrest : s.rest = []) (hend : f.Ends m s) (limit : Nat)
    (e : Fragment) : suffixesUpTo inner m limit e (f.cursor s) = .ok e (f.cursor s) := by
  obtain rfl := (hend.layout hrest).1
  by_cases htail : f.tail = []
  · exact suffixesUpTo_of_nil (by rw [rest_cursor_nil hrest, htail]) _ _
  · refine suffixesUpTo_of_atBreak (atBreak_cursor_nil hrest htail) ?_ ?_ _ _
    · rw [isAt_cursor_of_isInner rfl, Cursor.isAt_of_nil hrest]
    · rw [isAt_cursor_of_isInner rfl, Cursor.isAt_of_nil hrest]

/-- Before a suffix the longer text does not go on otherwise. -/
theorem ends_of_suffix {e e' : Fragment} (h : Suffix inner m e s e' s') (hend : f.Ends m s') :
    f.Ends m s := by
  cases h with
  | dot hs hv | safeAccess hs hv =>
    obtain ⟨t, ht, hk⟩ := hs
    exact ends_of_next (next_of_takes ht) (ht.kind?.trans (congrArg some hk))
      (rest_ne_nil_of_member hv) (by simp) (by simp)
  | trailing ht hop => exact .of_plain (ht.plain (isPlain_of_trailing hop))
  | indices hs hv => exact .of_plain (hs.plain rfl)
  | call ho => exact ends_of_callOf? ho hend

theorem ends_of_suffixesUpTo {limit : Nat} {e : Fragment}
    (h : suffixesUpTo inner m limit e s = .ok u s') (hend : f.Ends m s') : f.Ends m s := by
  induction limit generalizing e s with
  | zero =>
    obtain ⟨-, rfl⟩ := pure_eq_ok.1 h
    exact hend
  | succ limit ih =>
    obtain ⟨-, rfl⟩ | ⟨e', s₁, hsuffix, h⟩ := of_suffixesUpTo h
    · exact hend
    · exact ends_of_suffix hsuffix (ih h)

/-! ## Before nothing -/

/-- Where a label or annotations stand before nothing, the text is cut off from what follows. -/
theorem closes_of_bare {start : Nat} {kind : NodeKind} (hend : f.Ends m s)
    (hu : f.Fit (s.node start kind us)) (hbare : (s.node start kind us).isBare)
    (hrest : s.rest = []) : f.Closes :=
  (hu.bare hbare).resolve_right (not_stop_lt_of_nil hend hrest)

/-- Nothing stands behind a label or annotations at the end of the text. -/
theorem base_of_nil (h : optionally (!s.atClosing) (inner.operand m) s = .ok us s')
    (hrest : s.rest = []) : us = [] ∧ s' = s := by
  obtain ⟨-, rfl, rfl⟩ | ⟨hbase, -⟩ := of_optionally h
  · exact ⟨rfl, rfl⟩
  · simp [Cursor.atClosing_of_nil hrest] at hbase

theorem closes_of_labeled {start : Nat} {label : String}
    (h : optionally (!s.atClosing) (inner.operand m) s = .ok us s') (hend : f.Ends m s')
    (hu : f.Fits [s'.node start (.labeled label) us]) (hrest : s.rest = []) : f.Closes := by
  obtain ⟨rfl, rfl⟩ := base_of_nil h hrest
  exact closes_of_bare hend (fits_node.1 hu).1 rfl hrest

/-! ## Single lexemes -/

/-- A keyword with the label that it may refer to. -/
theorem referring_cursor {kind : Option String → NodeKind}
    (h : (do discard next; close t.start (kind (← labelReference?)) [] : Reader Fragment) s =
      .ok u s') :
    (do discard next; close (t.shift f.offset).start (kind (← labelReference?)) [] :
      Reader Fragment) (f.cursor s) = .ok (f.fragment u) (f.cursor s') := by
  simp only [bind_eq_ok, discard_eq_ok] at h ⊢
  obtain ⟨_, s₁, ⟨_, hnext⟩, label, s₂, hlabel, h⟩ := h
  obtain ⟨rfl, rfl⟩ := eq_of_close h
  exact ⟨(), _, ⟨_, next_cursor hnext⟩, _, _, labelReference?_cursor hlabel,
    close_cursor t.start rfl⟩

/-- A lexeme that is a node of its own. -/
theorem nextLeaf_cursor {kind : NodeKind}
    (h : (do discard next; leaf kind t : Reader Fragment) s = .ok u s') :
    (do discard next; leaf kind (t.shift f.offset) : Reader Fragment) (f.cursor s) =
      .ok (f.fragment u) (f.cursor s') := by
  simp only [bind_eq_ok, discard_eq_ok] at h ⊢
  obtain ⟨_, s₁, ⟨_, hnext⟩, h⟩ := h
  obtain ⟨rfl, rfl⟩ := eq_of_leaf h
  exact ⟨(), _, ⟨_, next_cursor hnext⟩, leaf_cursor⟩

namespace Inner.Carries

variable (hn : inner.Carries f n inner')

include hn

/-! ## Operands -/

theorem returnJump_cursor {start : Nat} (h : returnJump inner m start s = .ok u s')
    (hend : f.Ends m s') (hu : f.Fits [u]) :
    returnJump inner' m (start + f.offset) (f.cursor s) = .ok (f.fragment u) (f.cursor s') := by
  simp only [returnJump, bind_eq_ok, get_eq_ok] at h ⊢
  obtain ⟨label, s₁, hlabel, _, _, ⟨rfl, rfl⟩, us, s₂, hus, h⟩ := h
  obtain ⟨rfl, rfl⟩ := eq_of_close h
  -- At the end of the text there is no value, and a line break ends the statement.
  have hlines : s₁.rest = [] → m = .lines := by
    intro hnil
    obtain ⟨-, -, rfl⟩ | ⟨hvalue, -⟩ := of_optionally hus
    · exact (hend.layout hnil).1
    · simp [Cursor.atValueEnd, Cursor.atClosing_of_nil hnil] at hvalue
  refine ⟨_, _, labelReference?_cursor hlabel, _, _, ⟨rfl, rfl⟩, us.map f.fragment, f.cursor s₂, ?_,
    close_cursor _ rfl⟩
  rw [atValueEnd_cursor hlines]
  exact optionally_cursor hus fun _ hv hread =>
    hn.expression_cursor hread (ends_made.1 hend) (hv ▸ fits_below hu)

theorem parenthesized_cursor {start : Nat} (h : parenthesized inner start s = .ok u s')
    (hu : f.Fits [u]) :
    parenthesized inner' (start + f.offset) (f.cursor s) =
      .ok (f.fragment u) (f.cursor s') := by
  simp only [parenthesized, bind_eq_ok, discard_eq_ok] at h ⊢
  obtain ⟨e, s₁, he, _, s₂, ⟨_, hclose⟩, h⟩ := h
  obtain ⟨rfl, rfl⟩ := eq_of_close h
  have hends : f.Ends .free s₁ := .of_plain ((skips_of_symbol hclose).plain rfl)
  exact ⟨_, _, hn.expression_cursor he hends (fits_below hu), (), _, ⟨_, expect_cursor hclose⟩,
    close_cursor _ rfl⟩

theorem keywordExpression_cursor {word : Keyword}
    (h : keywordExpression inner m t word s = .ok u s') (hend : f.Ends m s') (hu : f.Fits [u]) :
    keywordExpression inner' m (t.shift f.offset) word (f.cursor s) =
      .ok (f.fragment u) (f.cursor s') := by
  unfold keywordExpression at h ⊢
  refine ok_of_cases h fun r r' => ?_
  split <;> rintro rfl rfl h
  · exact referring_cursor h
  · exact hn.ifElse_cursor h hend hu
  · exact hn.whenBranches_cursor h hu
  · exact hn.forLoop_cursor h hend hu
  · exact hn.whileLoop_cursor h hend hu
  · simp only [bind_eq_ok, discard_eq_ok] at h ⊢
    obtain ⟨_, s₁, ⟨_, hnext⟩, h⟩ := h
    exact ⟨(), _, ⟨_, next_cursor hnext⟩, hn.returnJump_cursor h hend hu⟩
  · simp only [bind_eq_ok, discard_eq_ok] at h ⊢
    obtain ⟨_, s₁, ⟨_, hnext⟩, e, s₂, he, h⟩ := h
    obtain ⟨rfl, rfl⟩ := eq_of_close h
    exact ⟨(), _, ⟨_, next_cursor hnext⟩, _, _,
      hn.expression_cursor he (ends_made.1 hend) (fits_below hu), close_cursor t.start rfl⟩
  · exact referring_cursor h
  · exact referring_cursor h
  · cases h

theorem primary_cursor (h : primary inner m s = .ok u s') (hend : f.Ends m s') (hu : f.Fits [u]) :
    primary inner' m (f.cursor s) = .ok (f.fragment u) (f.cursor s') := by
  obtain ⟨t, ts, hrest, -⟩ := begins_of_reads (hn.sound.reads_primary h) rfl
  simp only [primary, bind_eq_ok, get_eq_ok] at h ⊢
  obtain ⟨_, _, ⟨rfl, rfl⟩, h⟩ := h
  refine ⟨_, _, ⟨rfl, rfl⟩, ?_⟩
  rw [hrest] at h
  rw [rest_cursor hrest]
  refine ok_of_cases h fun r r' => ?_
  dsimp only [Lexeme.shift_kind, Lexeme.shift_text, Lexeme.shift_start]
  split <;> rintro rfl rfl h
  · exact nextLeaf_cursor h
  · exact nextLeaf_cursor h
  · simp only [bind_eq_ok, discard_eq_ok] at h ⊢
    obtain ⟨_, s₁, ⟨_, hnext⟩, h⟩ := h
    exact ⟨(), _, ⟨_, next_cursor hnext⟩, hn.parenthesized_cursor h hu⟩
  · exact hn.lambda h hu
  · exact hn.keywordExpression_cursor h hend hu
  · cases h

/-! ## What follows an operand -/

theorem member_cursor (h : member inner m s = .ok u s') (hend : f.Ends m s') (hu : f.Fits [u]) :
    member inner' m (f.cursor s) = .ok (f.fragment u) (f.cursor s') := by
  simp only [member, bind_eq_ok, pure_eq_ok] at h ⊢
  obtain ⟨t, s₁, ht, name, s₂, hname, o, s₃, ho, rfl, rfl⟩ := h
  obtain ⟨rfl, rfl⟩ := eq_of_leaf hname
  refine ⟨_, _, expect_cursor ht, _, _, leaf_cursor, _, _, hn.callOf?_cursor ho hend ?_, ?_, rfl⟩
  · rintro u rfl
    exact hu
  · rw [Option.getD_map]
    rfl

theorem indices_cursor {receiver : Fragment} (h : indices inner receiver s = .ok u s')
    (hu : f.Fits [u]) :
    indices inner' (f.fragment receiver) (f.cursor s) = .ok (f.fragment u) (f.cursor s') := by
  simp only [indices, bind_eq_ok, discard_eq_ok] at h ⊢
  obtain ⟨es, s₁, hes, _, s₂, ⟨_, hclose⟩, h⟩ := h
  obtain ⟨rfl, rfl⟩ := eq_of_close h
  have hfits := (fits_cons.1 (fits_below hu)).2
  rw [span_fragment]
  refine ⟨_, _, items_cursor (g := f.fragment) ?_ hes ((skips_of_symbol hclose).plain rfl) ?_,
    (), _, ⟨_, expect_cursor hclose⟩, close_cursor receiver.span.start rfl⟩
  · exact fun _ _ _ he => length_le_of_reads (hn.sound.reads_expression he)
  · exact fun _ v _ hv he hplain => hn.expression_cursor he (.of_plain hplain)
      (hfits.of_mem hv)

/-- What a suffix follows is below the node around both. -/
theorem fits_of_suffix {e e' : Fragment} (h : Suffix inner m e s e' s') (he : f.Fits [e']) :
    f.Fits [e] := by
  cases h with
  | dot | safeAccess => exact (fits_cons.1 (fits_below he)).1
  | trailing => exact fits_below he
  | indices _ hv =>
    simp only [indices, bind_eq_ok, discard_eq_ok] at hv
    obtain ⟨es, s₂, -, _, s₃, -, hclose⟩ := hv
    obtain ⟨rfl, -⟩ := eq_of_close hclose
    exact (fits_cons.1 (fits_below he)).1
  | call ho =>
    obtain ⟨hno, -⟩ | ⟨us, vs, s₂, s₃, -, -, -, heq, rfl⟩ := hn.sound.reads_callOf? ho
    · cases hno
    · cases heq
      exact (fits_cons.1 (fits_below he)).1

theorem fits_of_suffixesUpTo {limit : Nat} {e : Fragment}
    (h : suffixesUpTo inner m limit e s = .ok u s') (hu : f.Fits [u]) : f.Fits [e] := by
  induction limit generalizing e s with
  | zero =>
    obtain ⟨rfl, -⟩ := pure_eq_ok.1 h
    exact hu
  | succ limit ih =>
    obtain ⟨rfl, -⟩ | ⟨e', s₁, hsuffix, h⟩ := of_suffixesUpTo h
    · exact hu
    · exact hn.fits_of_suffix hsuffix (ih h)

theorem length_le_of_indices {receiver : Fragment} (h : indices inner receiver s = .ok u s') :
    s'.rest.length ≤ s.rest.length := by
  simp only [indices, bind_eq_ok, discard_eq_ok] at h
  obtain ⟨es, s₁, hes, _, s₂, ⟨_, hclose⟩, h⟩ := h
  obtain ⟨-, rfl⟩ := eq_of_close h
  have hle := length_le_of_reads (reads_items (fun _ _ _ => hn.sound.reads_expression) hes).1
  exact (takes_of_symbol hclose).1.length_lt.le.trans hle

theorem length_lt_of_callOf? {callee call : Fragment}
    (h : callOf? inner m callee s = .ok (some call) s') : s'.rest.length < s.rest.length := by
  obtain ⟨hno, -⟩ | ⟨us, vs, s₁, s₂, hus, hvs, hne, -, rfl⟩ := hn.sound.reads_callOf? h
  · cases hno
  · have hle := (took_of_reads hus).length_le
    have hle' := (took_of_reads hvs).length_le
    have hpos := List.length_pos_iff.2 hne
    rw [List.length_append] at hpos
    simp only [Cursor.made]
    omega

theorem suffixesUpTo_cursor {limit limit' : Nat} {e : Fragment} (hlimit : s.size ≤ limit)
    (hlimit' : limit ≤ limit') (h : suffixesUpTo inner m limit e s = .ok u s')
    (hend : f.Ends m s') (hu : f.Fits [u]) :
    suffixesUpTo inner' m limit' (f.fragment e) (f.cursor s) =
      .ok (f.fragment u) (f.cursor s') := by
  induction limit generalizing limit' e s with
  | zero =>
    obtain ⟨rfl, rfl⟩ := pure_eq_ok.1 h
    exact suffixesUpTo_cursor_of_nil (Cursor.rest_eq_nil_of_size hlimit) hend _ _
  | succ limit ih =>
    by_cases hrest : s.rest = []
    · rw [suffixesUpTo_of_nil hrest] at h
      cases h
      exact suffixesUpTo_cursor_of_nil hrest hend _ _
    obtain ⟨limit', rfl⟩ : ∃ l, limit' = l + 1 := ⟨limit' - 1, by omega⟩
    replace hlimit' := Nat.le_of_succ_le_succ hlimit'
    simp only [suffixesUpTo, bind_eq_ok, get_eq_ok] at h ⊢
    obtain ⟨_, _, ⟨rfl, rfl⟩, h⟩ := h
    refine ⟨_, _, ⟨rfl, rfl⟩, ?_⟩
    rw [kind?_cursor hrest, atBreak_cursor hrest]
    refine ok_of_cases h fun r r' => ?_
    split
    iterate 2
      · rintro rfl rfl h
        simp only [bind_eq_ok, discard_eq_ok] at h ⊢
        obtain ⟨_, s₁, ⟨t, hnext⟩, v, s₂, hv, both, s₃, hjoin, h⟩ := h
        obtain ⟨rfl, rfl⟩ := eq_of_join hjoin
        have hlt := (takes_of_next hnext).length_lt
        have hle := length_le_of_reads (hn.sound.reads_member hv)
        have hfits := (fits_cons.1 (fits_below (hn.fits_of_suffixesUpTo h hu))).2
        exact ⟨(), _, ⟨_, next_cursor hnext⟩, _, _,
          hn.member_cursor hv (ends_made.1 (ends_of_suffixesUpTo h hend)) hfits, _, _,
          join_cursor, ih (by simp only [Cursor.size, Cursor.made] at hlimit ⊢; omega) hlimit' h⟩
    · split
      · rintro rfl rfl h
        obtain ⟨rfl, rfl⟩ := pure_eq_ok.1 h
        rfl
      · split <;> rintro rfl rfl h
        · simp only [bind_eq_ok, discard_eq_ok] at h ⊢
          obtain ⟨_, s₁, ⟨t, hnext⟩, v, s₂, hv, h⟩ := h
          obtain ⟨rfl, rfl⟩ := eq_of_close hv
          have hlt := (takes_of_next hnext).length_lt
          rw [span_fragment]
          exact ⟨(), _, ⟨_, next_cursor hnext⟩, _, _, close_cursor e.span.start rfl,
            ih (by simp only [Cursor.size, Cursor.made] at hlimit ⊢; omega) hlimit' h⟩
        · simp only [bind_eq_ok, discard_eq_ok] at h ⊢
          obtain ⟨_, s₁, ⟨t, hnext⟩, v, s₂, hv, h⟩ := h
          have hlt := (takes_of_next hnext).length_lt
          have hle := hn.length_le_of_indices hv
          exact ⟨(), _, ⟨_, next_cursor hnext⟩, _, _,
            hn.indices_cursor hv (hn.fits_of_suffixesUpTo h hu),
            ih (by simp only [Cursor.size] at hlimit ⊢; omega) hlimit' h⟩
        · simp only [bind_eq_ok] at h ⊢
          obtain ⟨o, s₁, ho, h⟩ := h
          cases o with
          | none =>
            obtain ⟨rfl, rfl⟩ := pure_eq_ok.1 h
            exact ⟨_, _, hn.callOf?_cursor ho hend (by simp), rfl⟩
          | some call =>
            have hsize : s₁.size ≤ limit :=
              Nat.le_of_lt_succ ((hn.length_lt_of_callOf? ho).trans_le hlimit)
            exact ⟨_, _, hn.callOf?_cursor ho (ends_of_suffixesUpTo h hend)
              (by simpa using hn.fits_of_suffixesUpTo h hu), ih hsize hlimit' h⟩

theorem suffixes_cursor (h : suffixes inner m s = .ok u s') (hend : f.Ends m s')
    (hu : f.Fits [u]) : suffixes inner' m (f.cursor s) = .ok (f.fragment u) (f.cursor s') := by
  simp only [suffixes, bind_eq_ok, get_eq_ok] at h ⊢
  obtain ⟨e, s₁, he, _, _, ⟨rfl, rfl⟩, h⟩ := h
  exact ⟨_, _, hn.primary_cursor he (ends_of_suffixesUpTo h hend) (hn.fits_of_suffixesUpTo h hu),
    _, _, ⟨rfl, rfl⟩, hn.suffixesUpTo_cursor (Nat.le_refl _) (size_le_cursor s₁) h hend hu⟩

/-! ## What stands before an operand -/

theorem base_cursor (h : optionally (!s.atClosing) (inner.operand m) s = .ok us s')
    (hend : f.Ends m s') (hus : f.Fits us) (hcloses : s.rest = [] → f.Closes) :
    optionally (!(f.cursor s).atClosing) (inner'.operand m) (f.cursor s) =
      .ok (us.map f.fragment) (f.cursor s') := by
  rw [atClosing_cursor (or_iff_not_imp_left.2 fun hrest => hcloses (not_not.1 hrest))]
  exact optionally_cursor h fun _ hu hread => hn.operand hread hend (hu ▸ hus)

theorem all_isAnnotationEntry (h : annotationEntries inner m s = .ok us s') :
    us.all fun v => v.label.kind.isAnnotationEntry := by
  rw [List.all_eq_true]
  intro v hv
  have hentry := (laid_of_reads (hn.sound.reads_annotationEntries h) v hv).2
  rwa [Phrase.Admits, Phrase.Admits, Fragment.outline, Tree.label_map] at hentry

theorem closes_of_annotated {start : Nat} {es : List Fragment}
    (hes : annotationEntries inner m s₁ = .ok es s)
    (h : optionally (!s.atClosing) (inner.operand m) s = .ok us s') (hend : f.Ends m s')
    (hu : f.Fits [s'.node start .annotated (es ++ us)]) (hrest : s.rest = []) : f.Closes := by
  obtain ⟨rfl, rfl⟩ := base_of_nil h hrest
  rw [List.append_nil] at hu
  exact closes_of_bare hend (fits_node.1 hu).1 (hn.all_isAnnotationEntry hes) hrest

theorem operandLevel_cursor (h : operandLevel inner m s = .ok u s') (hend : f.Ends m s')
    (hu : f.Fits [u]) : operandLevel inner' m (f.cursor s) = .ok (f.fragment u) (f.cursor s') := by
  have hrest := rest_ne_nil_of_reads (hn.sound.reads_operandLevel h) rfl
  simp only [operandLevel, bind_eq_ok, get_eq_ok] at h ⊢
  obtain ⟨_, _, ⟨rfl, rfl⟩, h⟩ := h
  refine ⟨_, _, ⟨rfl, rfl⟩, ?_⟩
  rw [kind?_cursor hrest, position_cursor hrest]
  refine ok_of_cases h fun r r' => ?_
  split <;> rintro rfl rfl h
  · simp only [bind_eq_ok, discard_eq_ok] at h ⊢
    obtain ⟨_, s₁, ⟨t, hnext⟩, v, s₂, hv, h⟩ := h
    obtain ⟨rfl, rfl⟩ := eq_of_close h
    exact ⟨(), _, ⟨_, next_cursor hnext⟩, _, _,
      hn.operand hv (ends_made.1 hend) (fits_below hu), close_cursor _ rfl⟩
  · simp only [bind_eq_ok, get_eq_ok] at h ⊢
    obtain ⟨t, s₁, hnext, _, _, ⟨rfl, rfl⟩, us, s₂, hus, h⟩ := h
    obtain ⟨rfl, rfl⟩ := eq_of_close h
    have hcloses := closes_of_labeled hus (ends_made.1 hend) hu
    exact ⟨_, _, next_cursor hnext, _, _, ⟨rfl, rfl⟩, _, _,
      hn.base_cursor hus (ends_made.1 hend) (fits_below hu) hcloses, close_cursor _ rfl⟩
  · simp only [bind_eq_ok, get_eq_ok] at h ⊢
    obtain ⟨es, s₁, hes, _, _, ⟨rfl, rfl⟩, us, s₂, hus, h⟩ := h
    obtain ⟨rfl, rfl⟩ := eq_of_close h
    obtain ⟨hentries, hbase⟩ := fits_append.1 (fits_below hu)
    have hcloses := hn.closes_of_annotated hes hus (ends_made.1 hend) hu
    exact ⟨_, _, hn.annotationEntries_cursor hes hentries hcloses, _, _, ⟨rfl, rfl⟩, _, _,
      hn.base_cursor hus (ends_made.1 hend) hbase hcloses,
      close_cursor _ (by rw [List.map_append])⟩
  · exact hn.suffixes_cursor h hend hu

theorem wrappedLambdaLevel_cursor (h : wrappedLambdaLevel inner m s = .ok u s')
    (hu : f.Fits [u]) :
    wrappedLambdaLevel inner' m (f.cursor s) = .ok (f.fragment u) (f.cursor s') := by
  have hrest := rest_ne_nil_of_reads (hn.sound.reads_wrappedLambdaLevel h) rfl
  simp only [wrappedLambdaLevel, bind_eq_ok, get_eq_ok] at h ⊢
  obtain ⟨_, _, ⟨rfl, rfl⟩, h⟩ := h
  refine ⟨_, _, ⟨rfl, rfl⟩, ?_⟩
  rw [kind?_cursor hrest, position_cursor hrest]
  refine ok_of_cases h fun r r' => ?_
  split <;> rintro rfl rfl h
  · simp only [bind_eq_ok] at h ⊢
    obtain ⟨es, s₁, hes, v, s₂, hv, h⟩ := h
    obtain ⟨rfl, rfl⟩ := eq_of_close h
    obtain ⟨hentries, hlambda⟩ := fits_append.1 (fits_below hu)
    have hrest := rest_ne_nil_of_reads (hn.sound.wrappedLambda hv) rfl
    exact ⟨_, _, hn.annotationEntries_cursor hes hentries fun hnil => absurd hnil hrest, _, _,
      hn.wrappedLambda hv hlambda, close_cursor _ (by rw [List.map_append]; rfl)⟩
  · simp only [bind_eq_ok] at h ⊢
    obtain ⟨t, s₁, hnext, v, s₂, hv, h⟩ := h
    obtain ⟨rfl, rfl⟩ := eq_of_close h
    exact ⟨_, _, next_cursor hnext, _, _, hn.wrappedLambda hv (fits_below hu), close_cursor _ rfl⟩
  · exact hn.lambda h hu

/-- Whether the annotations before an expression are those of a declaration is seen alike, since
    they end at the same place. -/
theorem declarationAhead_operandLevel (h : operandLevel inner .lines s = .ok u s')
    (hat : s.isAt .annotationName) (hend : f.Ends .lines s') (hu : f.Fits [u]) :
    (f.cursor s).declarationAhead = s.declarationAhead := by
  simp only [operandLevel, bind_eq_ok, get_eq_ok] at h
  obtain ⟨_, _, ⟨rfl, rfl⟩, h⟩ := h
  have hk : s.kind? = some .annotationName := beq_iff_eq.1 hat
  rw [hk] at h
  simp only [Option.bind_eq_bind, Option.bind_some, TokenKind.leading?, bind_eq_ok, get_eq_ok] at h
  obtain ⟨es, s₁, hes, _, _, ⟨rfl, rfl⟩, us, s₂, hus, h⟩ := h
  obtain ⟨rfl, rfl⟩ := eq_of_close h
  have hcloses := hn.closes_of_annotated hes hus (ends_made.1 hend) hu
  have hes' := hn.annotationEntries_cursor hes (fits_append.1 (fits_below hu)).1 hcloses
  obtain ⟨n', hsound'⟩ := hn.sound'
  rw [Bool.eq_iff_iff, hn.sound.declarationAhead_iff hes, hsound'.declarationAhead_iff hes']
  have hseen (k : Keyword) :
      (f.cursor s₁).kind? = some (.keyword k) ↔ s₁.kind? = some (.keyword k) := by
    have hisAt := isAt_cursor_of_closes (k := .keyword k) hcloses (by simp)
    rwa [Cursor.isAt, Cursor.isAt, Bool.eq_iff_iff, beq_iff_eq, beq_iff_eq] at hisAt
  rw [hseen, hseen, hseen]

end Inner.Carries

end ResultHints
