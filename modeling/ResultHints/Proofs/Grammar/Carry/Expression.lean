import ResultHints.Proofs.Grammar.FrameReader

/-!
# Expressions in a longer text

Each rule of the grammar reads in a longer text (`Frame`) what it reads in the text, over a
level further in for which this holds (`Inner.Carries`). In the longer text, more levels of
nesting may be left than in the text. Brackets close in the text what
they open there; what is not in brackets must not be such that the longer text goes on with
it (`Frame.Ends`, `Frame.Fit`). Here are the rules of types, of chains of operators and of
assignments; the last operand of a chain ends where the chain does (`ends_of_chain`).
-/

namespace ResultHints

open Reader ResultHints.Frame

/-- What `inner` reads in the text, `inner'` reads in the longer text. -/
structure Inner.Carries (f : Frame) (n : Nat) (inner inner' : Inner) : Prop where
  sound : inner.Sound n
  sound' : ∃ n', inner'.Sound n'
  type {s s' : Cursor} {u : Unit} : inner.type s = .ok u s' → kinds s'.rest ≠ [.symbol .dot] →
    inner'.type (f.cursor s) = .ok u (f.cursor s')
  operand {m : Layout} {s s' : Cursor} {u : Fragment} : inner.operand m s = .ok u s' →
    f.Ends m s' → f.Fits [u] → inner'.operand m (f.cursor s) = .ok (f.fragment u) (f.cursor s')
  wrappedLambda {m : Layout} {s s' : Cursor} {u : Fragment} : inner.wrappedLambda m s = .ok u s' →
    f.Fits [u] → inner'.wrappedLambda m (f.cursor s) = .ok (f.fragment u) (f.cursor s')
  lambda {s s' : Cursor} {u : Fragment} : inner.lambda s = .ok u s' → f.Fits [u] →
    inner'.lambda (f.cursor s) = .ok (f.fragment u) (f.cursor s')
  block {s s' : Cursor} {u : Fragment} : inner.block s = .ok u s' → f.Fits [u] →
    inner'.block (f.cursor s) = .ok (f.fragment u) (f.cursor s')
  /-- The annotations of an expression do not become those of a declaration. -/
  declarationAhead {s s' : Cursor} {u : Fragment} : inner.operand .lines s = .ok u s' →
    s.isAt .annotationName → f.Ends .lines s' → f.Fits [u] →
    (f.cursor s).declarationAhead = s.declarationAhead

variable {f : Frame} {inner inner' : Inner} {n : Nat} {m : Layout} {s s₁ s' : Cursor} {t : Lexeme}
  {k : TokenKind} {u v : Fragment} {us : List Fragment}

/-! ## No dot at the end -/

theorem kinds_ne_dot_of_accepts {mark : Symbol} {b : Bool} (h : accepts mark s = .ok b s')
    (hmark : (TokenKind.symbol mark).isPlain) (hdot : kinds s'.rest ≠ [.symbol .dot]) :
    kinds s.rest ≠ [.symbol .dot] := by
  obtain ⟨-, rfl⟩ | ⟨-, hs⟩ := skips_of_accepts h
  · exact hdot
  · exact (hs.plain hmark).kinds_ne_dot

theorem kinds_ne_dot_of_after {α : Type} {item : Reader α} {as : List α} {mark : Symbol}
    (h : after mark item s = .ok as s') (hmark : (TokenKind.symbol mark).isPlain)
    (hdot : kinds s'.rest ≠ [.symbol .dot]) : kinds s.rest ≠ [.symbol .dot] := by
  obtain ⟨-, rfl⟩ | ⟨a, s₁, -, hs, -⟩ := of_after h
  · exact hdot
  · exact (hs.plain hmark).kinds_ne_dot

theorem Cursor.Spells.rest_ne_nil (h : s.Spells s') : s.rest ≠ [] := by
  obtain ⟨ts, hts, hne, -⟩ := h
  cases hts with
  | nil => exact absurd rfl hne
  | cons ht _ => exact ht.rest_ne_nil

theorem Cursor.Spells.length_le (h : s.Spells s') : s'.rest.length ≤ s.rest.length := by
  obtain ⟨ts, hts, -⟩ := h
  exact hts.took.length_le

theorem rest_ne_nil_of_reads {p : Phrase} (h : Reads n p s us s') (hp : p.begins) : s.rest ≠ [] :=
  (begins_of_reads h hp).rest_ne_nil

/-! ## Where a chain ends -/

theorem isPlain_of_assignment {op : BinaryOperator} (h : k.assignment? = some op) : k.isPlain := by
  cases k with
  | symbol mark => cases mark <;> first | rfl | cases h
  | _ => first | rfl | cases h

theorem ends_of_connective {least : Precedence} {c : NodeKind × Precedence} {s₂ : Cursor}
    (hc : s.connective? m least = some c) (h : next s = .ok t s₂) : f.Ends m s := by
  obtain ⟨made, level⟩ := c
  have ht := takes_of_next h
  obtain ⟨hmade, -⟩ := Inner.Sound.connective_of_takes hc ht
  refine .of_plain (ht.plain ?_)
  generalize t.kind = k at hmade
  cases k with
  | symbol mark => cases mark <;> first | rfl | cases hmade
  | _ => first | rfl | cases hmade

/-- Where a chain ends so that the longer text does not go on with it, its first operand does. -/
theorem ends_of_chain {limit : Nat} {least : Precedence} {left : Fragment}
    (h : chain inner m limit least left s = .ok u s') (hend : f.Ends m s') : f.Ends m s := by
  cases limit with
  | zero =>
    obtain ⟨-, rfl⟩ := pure_eq_ok.1 h
    exact hend
  | succ limit =>
    simp only [chain, bind_eq_ok, get_eq_ok] at h
    obtain ⟨_, _, ⟨rfl, rfl⟩, h⟩ := h
    cases hc : s.connective? m least with
    | none =>
      rw [hc] at h
      obtain ⟨-, rfl⟩ := pure_eq_ok.1 h
      exact hend
    | some c =>
      rw [hc] at h
      simp only [bind_eq_ok, discard_eq_ok] at h
      obtain ⟨_, s₂, ⟨t, ht⟩, -⟩ := h
      exact ends_of_connective hc ht

theorem fits_of_chain {limit : Nat} {least : Precedence} {left : Fragment}
    (h : chain inner m limit least left s = .ok u s') (hu : f.Fits [u]) : f.Fits [left] := by
  induction limit generalizing left s with
  | zero =>
    obtain ⟨rfl, -⟩ := pure_eq_ok.1 h
    exact hu
  | succ limit ih =>
    cases hc : s.connective? m least with
    | none =>
      rw [Inner.Sound.chain_of_none hc] at h
      cases h
      exact hu
    | some c =>
      obtain ⟨made, level⟩ := c
      obtain ⟨t, s₁, right, s₂, -, -, h⟩ := (Inner.Sound.chain_eq_ok hc).1 h
      exact (fits_cons.1 (fits_below (ih h))).1

/-- What an assignment begins with ends so that the longer text does not go on with it. -/
theorem ends_of_assignment (h : assignment inner m s = .ok u s') (hend : f.Ends m s')
    (hu : f.Fits [u]) :
    ∃ left s₁, expression inner m s = .ok left s₁ ∧ f.Ends m s₁ ∧ f.Fits [left] := by
  simp only [assignment, bind_eq_ok, get_eq_ok] at h
  obtain ⟨left, s₁, hleft, _, _, ⟨rfl, rfl⟩, h⟩ := h
  refine ⟨left, s₁, hleft, ?_⟩
  cases hop : s₁.kind? >>= TokenKind.assignment? with
  | none =>
    rw [hop] at h
    obtain ⟨rfl, rfl⟩ := pure_eq_ok.1 h
    exact ⟨hend, hu⟩
  | some op =>
    rw [hop] at h
    dsimp only at h
    split at h
    · obtain ⟨rfl, rfl⟩ := pure_eq_ok.1 h
      exact ⟨hend, hu⟩
    · simp only [bind_eq_ok, discard_eq_ok] at h
      obtain ⟨_, s₂, ⟨t, ht⟩, right, s₃, -, h⟩ := h
      obtain ⟨rfl, rfl⟩ := eq_of_join h
      have ht := takes_of_next ht
      rw [ht.kind?] at hop
      exact ⟨.of_plain (ht.plain (isPlain_of_assignment hop)), (fits_cons.1 (fits_below hu)).1⟩

namespace Inner.Carries

variable (hn : inner.Carries f n inner')

include hn

/-! ## Types -/

theorem typeArguments_cursor {a : Unit} (h : typeArguments inner s = .ok a s') :
    typeArguments inner' (f.cursor s) = .ok a (f.cursor s') := by
  simp only [typeArguments, bind_eq_ok, discard_eq_ok] at h ⊢
  obtain ⟨_, s₁, ⟨_, hargs⟩, _, hclose⟩ := h
  have hplain := (skips_of_symbol hclose).plain rfl
  refine ⟨(), _, ⟨_, items_cursor (g := id) ?_ hargs hplain ?_⟩, _, expect_cursor hclose⟩
  · exact fun _ _ _ ha => (hn.sound.type ha).length_le
  · exact fun _ _ _ _ ha hend => hn.type ha hend.kinds_ne_dot

theorem functionType_cursor {a : Unit} (h : functionType inner s = .ok a s')
    (hdot : kinds s'.rest ≠ [.symbol .dot]) :
    functionType inner' (f.cursor s) = .ok a (f.cursor s') := by
  simp only [functionType, bind_eq_ok, discard_eq_ok] at h ⊢
  obtain ⟨_, s₁, ⟨_, hargs⟩, _, s₂, ⟨_, hresult⟩, _, hmark⟩ := h
  have hdot₂ := kinds_ne_dot_of_accepts hmark rfl hdot
  refine ⟨(), _, ⟨_, itemsTo_cursor (g := id) ?_ hargs rfl ?_⟩, (), _,
    ⟨_, after_cursor (g := id) hresult rfl fun _ _ _ ha => hn.type ha hdot₂⟩, _,
    accepts_cursor hmark fun _ => rfl⟩
  · exact fun _ _ _ ha => (hn.sound.type ha).length_le
  · exact fun _ _ _ _ ha hend => hn.type ha hend.kinds_ne_dot

theorem namedType_cursor {a : Unit} (h : namedType inner s = .ok a s')
    (hdot : kinds s'.rest ≠ [.symbol .dot]) :
    namedType inner' (f.cursor s) = .ok a (f.cursor s') := by
  simp only [namedType, bind_eq_ok, discard_eq_ok] at h ⊢
  obtain ⟨_, s₁, ⟨_, hname⟩, _, s₂, ⟨_, hargs⟩, _, hmark⟩ := h
  have hdot₂ := kinds_ne_dot_of_accepts hmark rfl hdot
  have hdot₁ := kinds_ne_dot_of_after hargs rfl hdot₂
  exact ⟨(), _, ⟨_, qualifiedName_cursor hname hdot₁⟩, (), _,
    ⟨_, after_cursor (g := id) hargs rfl fun _ _ _ => hn.typeArguments_cursor⟩, _,
    accepts_cursor hmark fun _ => rfl⟩

theorem typeLevel_cursor {a : Unit} (h : typeLevel inner s = .ok a s')
    (hdot : kinds s'.rest ≠ [.symbol .dot]) :
    typeLevel inner' (f.cursor s) = .ok a (f.cursor s') := by
  have hrest := (hn.sound.spells_typeLevel h).rest_ne_nil
  simp only [typeLevel, bind_eq_ok] at h ⊢
  obtain ⟨b, s₁, hparen, h⟩ := h
  refine ⟨_, _, accepts_cursor hparen fun hnil => absurd hnil hrest, ?_⟩
  cases b with
  | true => exact hn.functionType_cursor h hdot
  | false =>
    simp only [Bool.false_eq_true, if_false, bind_eq_ok] at h ⊢
    obtain ⟨b, s₂, hstar, h⟩ := h
    refine ⟨_, _, accepts_cursor hstar fun _ => rfl, ?_⟩
    cases b with
    | true =>
      obtain ⟨rfl, rfl⟩ := pure_eq_ok.1 h
      rfl
    | false => exact hn.namedType_cursor h hdot

theorem typeReference_cursor (h : typeReference inner s = .ok u s')
    (hdot : kinds s'.rest ≠ [.symbol .dot]) (hu : f.Fits [u]) :
    typeReference inner' (f.cursor s) = .ok (f.fragment u) (f.cursor s') := by
  simp only [typeReference, bind_eq_ok, get_eq_ok] at h ⊢
  obtain ⟨_, _, ⟨rfl, rfl⟩, _, s₁, htype, span, s₂, hspan, _, _, ⟨rfl, rfl⟩, h⟩ := h
  obtain ⟨rfl, rfl⟩ := eq_of_spanFrom hspan
  obtain ⟨rfl, rfl⟩ := eq_of_make h
  have htext : String.ofList (slice s₂.source (s₂.spanFrom s.position)) =
      String.ofList (slice f.source ((s₂.spanFrom s.position).shift f.offset)) :=
    (fits_node.1 hu).1.text _ rfl
  refine ⟨_, _, ⟨rfl, rfl⟩, _, _, hn.type htype hdot, (s₂.spanFrom s.position).shift f.offset,
    f.cursor s₂, ?_, _, _, ⟨rfl, rfl⟩, ?_⟩
  · rw [position_cursor (hn.sound.type htype).rest_ne_nil]
    exact readSpan_cursor s.position
  · rw [htext]
    exact make_cursor rfl

/-! ## Expressions and assignments -/

theorem chain_cursor {limit limit' : Nat} {least : Precedence} {left : Fragment}
    (hlimit : s.size ≤ limit) (hlimit' : limit ≤ limit')
    (h : chain inner m limit least left s = .ok u s') (hend : f.Ends m s') (hu : f.Fits [u]) :
    chain inner' m limit' least (f.fragment left) (f.cursor s) =
      .ok (f.fragment u) (f.cursor s') := by
  induction limit generalizing limit' least left s u s' with
  | zero =>
    obtain ⟨rfl, rfl⟩ := pure_eq_ok.1 h
    have hrest := Cursor.rest_eq_nil_of_size hlimit
    refine Inner.Sound.chain_of_none ?_
    rw [connective?_cursor fun hnil => (hend.layout hnil).1]
    exact Cursor.connective?_of_nil hrest _ _
  | succ limit ih =>
    obtain ⟨limit', rfl⟩ : ∃ l, limit' = l + 1 := ⟨limit' - 1, by omega⟩
    have hends := ends_of_chain h hend
    have hc' : (f.cursor s).connective? m least = s.connective? m least :=
        connective?_cursor (fun hnil => (hends.layout hnil).1) least
    cases hc : s.connective? m least with
    | none =>
      rw [Inner.Sound.chain_of_none hc] at h
      cases h
      exact Inner.Sound.chain_of_none (hc'.trans hc)
    | some c =>
      obtain ⟨made, level⟩ := c
      obtain ⟨t, s₁, right, s₂, ht, hright, h⟩ := (Inner.Sound.chain_eq_ok hc).1 h
      have hends₂ := ends_made.1 (ends_of_chain h hend)
      have hfits := (fits_cons.1 (fits_below (fits_of_chain h hu))).2
      have hlt := (takes_of_next ht).length_lt
      have hle := hn.sound.length_le_of_rightOperand hn.sound.length_le_of_chain hright
      have hchain := ih (s := s₂.made) (by simp only [Cursor.size, Cursor.made] at hlimit ⊢; omega)
        (Nat.le_of_succ_le_succ hlimit') h hend hu
      refine (Inner.Sound.chain_eq_ok (hc'.trans hc)).2 ⟨_, _, f.fragment right, f.cursor s₂,
        next_cursor ht, ?_, ?_⟩
      · -- A type, or a chain that ends where the longer text does not go on with it.
        rw [rightOperand] at hright ⊢
        split at hright
        · rename_i htyping
          rw [if_pos htyping]
          exact hn.typeReference_cursor hright hends₂.dot hfits
        · rename_i htyping
          rw [if_neg htyping]
          obtain ⟨first, s₃, hfirst, hright⟩ := bind_eq_ok.1 hright
          have hle' := length_le_of_reads (hn.sound.operand hfirst)
          refine bind_eq_ok.2 ⟨_, _, hn.operand hfirst (ends_of_chain hright hends₂)
            (fits_of_chain hright hfits),
            ih ?_ (Nat.le_of_succ_le_succ hlimit') hright hends₂ hfits⟩
          simp only [Cursor.size] at hlimit ⊢
          omega
      · rw [← cursor_made]
        rwa [← fragment_join]

theorem expression_cursor (h : expression inner m s = .ok u s') (hend : f.Ends m s')
    (hu : f.Fits [u]) : expression inner' m (f.cursor s) = .ok (f.fragment u) (f.cursor s') := by
  simp only [expression, bind_eq_ok, get_eq_ok] at h ⊢
  obtain ⟨first, s₁, hfirst, _, _, ⟨rfl, rfl⟩, h⟩ := h
  exact ⟨_, _, hn.operand hfirst (ends_of_chain h hend) (fits_of_chain h hu), _, _, ⟨rfl, rfl⟩,
    hn.chain_cursor (Nat.le_refl _) (size_le_cursor s₁) h hend hu⟩

theorem assignment_cursor (h : assignment inner m s = .ok u s') (hend : f.Ends m s')
    (hu : f.Fits [u]) : assignment inner' m (f.cursor s) = .ok (f.fragment u) (f.cursor s') := by
  obtain ⟨left, s₁, hleft, hends, hfits⟩ := ends_of_assignment h hend hu
  have hleft' := hn.expression_cursor hleft hends hfits
  simp only [assignment, bind_eq_ok, get_eq_ok] at h ⊢
  obtain ⟨_, _, heq, _, _, ⟨rfl, rfl⟩, h⟩ := h
  obtain ⟨rfl, rfl⟩ := EStateM.Result.ok.inj (hleft.symm.trans heq)
  refine ⟨_, _, hleft', _, _, ⟨rfl, rfl⟩, ?_⟩
  rw [assignment?_cursor]
  cases hop : s₁.kind? >>= TokenKind.assignment? with
  | none =>
    rw [hop] at h
    obtain ⟨rfl, rfl⟩ := pure_eq_ok.1 h
    rfl
  | some op =>
    have hrest : s₁.rest ≠ [] := by
      intro hnil
      simp [Cursor.kind?_of_nil hnil] at hop
    rw [hop] at h
    dsimp only at h ⊢
    rw [atBreak_cursor hrest]
    split at h
    · rename_i hbreak
      obtain ⟨rfl, rfl⟩ := pure_eq_ok.1 h
      rw [if_pos hbreak]
      rfl
    · rename_i hbreak
      rw [if_neg hbreak]
      simp only [bind_eq_ok, discard_eq_ok] at h ⊢
      obtain ⟨_, s₂, ⟨t, ht⟩, right, s₃, hright, h⟩ := h
      obtain ⟨rfl, rfl⟩ := eq_of_join h
      exact ⟨(), _, ⟨_, next_cursor ht⟩, _, _, hn.expression_cursor hright (ends_made.1 hend)
        (fits_cons.1 (fits_below hu)).2, join_cursor⟩

end Inner.Carries

end ResultHints
