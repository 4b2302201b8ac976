import ResultHints.Proofs.Grammar.Frame

/-!
# Reading in a longer text

The readers of one lexeme and of several do in a longer text what they do in the text
(`Frame`), and so do those that make nodes: what they read is the same but for offsets and
ids, and they end at the same place.
-/

namespace ResultHints

open Reader

namespace Cursor

/-- The next lexeme is of a kind that tells by itself what it is. -/
def Plain (s : Cursor) : Prop := ∃ t ts, s.rest = t :: ts ∧ t.kind.isPlain

theorem Plain.rest_ne_nil {s : Cursor} (h : s.Plain) : s.rest ≠ [] := by
  obtain ⟨t, ts, hrest, -⟩ := h
  rw [hrest]
  exact List.cons_ne_nil t ts

theorem Plain.kinds_ne_dot {s : Cursor} (h : s.Plain) : kinds s.rest ≠ [.symbol .dot] := by
  obtain ⟨t, ts, hrest, hk⟩ := h
  intro hdot
  rw [hrest] at hdot
  rw [show t.kind = .symbol .dot from (List.cons.inj hdot).1] at hk
  cases hk

theorem Takes.rest_ne_nil {s s' : Cursor} {t : Lexeme} (ht : s.Takes t s') : s.rest ≠ [] := by
  cases ht
  exact List.cons_ne_nil t _

theorem Takes.plain {s s' : Cursor} {t : Lexeme} (ht : s.Takes t s') (hk : t.kind.isPlain) :
    s.Plain := by
  cases ht
  exact ⟨t, _, rfl, hk⟩

theorem Skips.plain {s s' : Cursor} {k : TokenKind} (hs : s.Skips k s') (hk : k.isPlain) :
    s.Plain := by
  obtain ⟨t, ht, rfl⟩ := hs
  exact ht.plain hk

theorem Begins.rest_ne_nil {s : Cursor} (h : s.Begins) : s.rest ≠ [] := by
  obtain ⟨t, ts, hrest, -⟩ := h
  rw [hrest]
  exact List.cons_ne_nil t ts

theorem rest_ne_nil_of_isAt {s : Cursor} {k : TokenKind} (h : s.isAt k) : s.rest ≠ [] := by
  intro hnil
  simp [isAt_of_nil hnil] at h

theorem plain_of_isAt {s : Cursor} {k : TokenKind} (h : s.isAt k) (hk : k.isPlain) : s.Plain := by
  obtain ⟨source, _ | ⟨t, ts⟩, stop, i⟩ := s
  · cases h
  · obtain rfl : t.kind = k := by simpa [Cursor.isAt, Cursor.kind?] using h
    exact ⟨t, ts, rfl, hk⟩

end Cursor

/-- A reader that chooses by a case: the cases are told apart by an equation. -/
theorem Reader.ok_of_forall_eq {α : Type} {r : Reader α} {s s' : Cursor} {a : α}
    (hcases : ∀ q, r = q → q s = .ok a s') : r s = .ok a s' :=
  hcases r rfl

/-- Two readers that choose by the same case: each case is looked at once for both. -/
theorem Reader.ok_of_cases {α β : Type} {r : Reader α} {r' : Reader β} {s s' c c' : Cursor} {a : α}
    {b : β} (h : r s = .ok a s')
    (hcases : ∀ q q', r = q → r' = q' → q s = .ok a s' → q' c = .ok b c') : r' c = .ok b c' :=
  hcases r r' rfl rfl h

namespace Frame

variable {f : Frame} {m : Layout} {s s₁ s' : Cursor} {t : Lexeme} {k : TokenKind} {b : Bool}

theorem Ends.of_plain (h : s.Plain) : f.Ends m s := by
  obtain ⟨t, ts, hrest, hk⟩ := h
  exact ends_of_isPlain hrest hk

theorem size_le_cursor (s : Cursor) : s.size ≤ (f.cursor s).size := by
  rw [Cursor.size, Cursor.size, cursor, List.length_append, List.length_map]
  exact Nat.le_add_right _ _

/-! ## One lexeme -/

theorem takes_cursor (h : s.Takes t s') :
    (f.cursor s).Takes (t.shift f.offset) (f.cursor s') := by
  obtain ⟨source, t, ts, stop, i⟩ := h
  rw [cursor, cursor, ← Lexeme.shift_stop]
  exact .mk ..

theorem next_cursor (h : next s = .ok t s') :
    next (f.cursor s) = .ok (t.shift f.offset) (f.cursor s') :=
  next_of_takes (takes_cursor (takes_of_next h))

theorem expect_cursor {what : Expectation} (h : expect what s = .ok t s') :
    expect what (f.cursor s) = .ok (t.shift f.offset) (f.cursor s') := by
  obtain ⟨ht, hk⟩ := takes_of_expect h
  exact expect_of_takes (takes_cursor ht) hk

/-- A lexeme that is not taken at the end of the text must not be there in the longer one. -/
theorem accept_cursor {o : Option Lexeme} (h : accept k s = .ok o s')
    (hs : s.rest = [] → (f.cursor s).kind? ≠ some k) :
    accept k (f.cursor s) = .ok (o.map (Lexeme.shift f.offset)) (f.cursor s') := by
  obtain ⟨rfl, rfl, hno⟩ | ⟨t, rfl, ht, hk⟩ := takes_of_accept h
  · refine accept_of_kind?_ne ?_
    by_cases hrest : s'.rest = []
    · exact hs hrest
    · rw [kind?_cursor hrest]
      simpa [Cursor.isAt] using hno
  · exact accept_of_takes (takes_cursor ht) hk

theorem accepts_cursor {mark : Symbol} (h : accepts mark s = .ok b s')
    (hs : s.rest = [] → (TokenKind.symbol mark).isInner) :
    accepts mark (f.cursor s) = .ok b (f.cursor s') := by
  simp only [accepts, bind_eq_ok, pure_eq_ok] at h ⊢
  obtain ⟨o, s₁, ho, rfl, rfl⟩ := h
  refine ⟨_, _, accept_cursor ho fun hrest => kind?_cursor_ne hrest (hs hrest), ?_, rfl⟩
  rw [Option.isSome_map]

/-- Before a dot with something after it, and before what is neither a label nor an annotation, the
    longer text goes on as the text. -/
theorem ends_of_next (h : next s = .ok t s₁) (hk : s.kind? = some k) (hrest : s₁.rest ≠ [])
    (ha : k ≠ .annotationName) (hl : k ≠ .labelDefinition) : f.Ends m s := by
  obtain ⟨ht, rfl⟩ := takes_of_next_of_kind? h hk
  have hlong (k : TokenKind) : kinds s.rest ≠ [k] := by
    obtain ⟨source, t, ts, stop, i⟩ := ht
    intro hone
    exact hrest (List.map_eq_nil_iff.1 (List.cons.inj hone).2)
  refine ⟨fun hnil => absurd hnil ht.rest_ne_nil, hlong _, fun hsemi => absurd hsemi (hlong _), ?_⟩
  · rintro - (hat | hat)
    · exact absurd (ht.isAt.1 hat) ha
    · exact absurd (ht.isAt.1 hat) hl

/-! ## Semicolons -/

theorem skips_cursor (h : s.Skips k s') : (f.cursor s).Skips k (f.cursor s') := by
  obtain ⟨t, ht, hk⟩ := h
  exact ⟨_, takes_cursor ht, hk⟩

theorem size_le_of_semicolons {u : Unit} (h : semicolons s = .ok u s') : s'.size ≤ s.size :=
  of_semicolons (P := fun s => s'.size ≤ s.size) (fun _ _ hs hle => hle.trans hs.took.length_le) h
    (Nat.le_refl _)

theorem semicolons_cursor {u : Unit} (h : semicolons s = .ok u s') (hrest : s'.rest ≠ []) :
    semicolons (f.cursor s) = .ok u (f.cursor s') := by
  have hno := not_isAt_of_semicolons h
  refine of_semicolons (P := fun s => semicolons (f.cursor s) = .ok u (f.cursor s')) ?_ h ?_
  · intro s s₁ hs h
    rw [semicolons_of_skips (skips_cursor hs), h]
  · exact semicolons_of_not_isAt (by rwa [isAt_cursor hrest])

/-! ## Several lexemes -/

section Several

variable {α : Type} {g : α → α} {item item' : Reader α} {as : List α}

theorem optionally_cursor (h : optionally b item s = .ok as s')
    (hitem : ∀ a, as = [a] → item s = .ok a s' → item' (f.cursor s) = .ok (g a) (f.cursor s')) :
    optionally b item' (f.cursor s) = .ok (as.map g) (f.cursor s') := by
  obtain ⟨rfl, rfl, rfl⟩ | ⟨rfl, a, rfl, ha⟩ := of_optionally h
  · rfl
  · simp only [optionally, if_pos, bind_eq_ok, pure_eq_ok]
    exact ⟨_, _, hitem a rfl ha, rfl, rfl⟩

theorem after_cursor {mark : Symbol} (h : after mark item s = .ok as s')
    (hmark : (TokenKind.symbol mark).isInner)
    (hitem : ∀ s₁ a, as = [a] → item s₁ = .ok a s' →
      item' (f.cursor s₁) = .ok (g a) (f.cursor s')) :
    after mark item' (f.cursor s) = .ok (as.map g) (f.cursor s') := by
  simp only [after, bind_eq_ok] at h ⊢
  obtain ⟨b, s₁, hb, h⟩ := h
  exact ⟨_, _, accepts_cursor hb fun _ => hmark, optionally_cursor h (hitem s₁)⟩

variable {stop : Option TokenKind}
  (hle : ∀ s a s', item s = .ok a s' → s'.rest.length ≤ s.rest.length)

include hle

theorem length_le_of_itemsUpTo {limit : Nat} (h : itemsUpTo stop item limit s = .ok as s') :
    s'.rest.length ≤ s.rest.length := by
  refine (of_itemsUpTo (P := fun s _ s' => s'.rest.length ≤ s.rest.length) ?_ ?_ ?_ h).1
  · exact fun _ => Nat.le_refl _
  · exact hle
  · intro s a s₁ s₂ as s' ha hs hrest
    have hlt := hs.took.length_le
    have := hle _ _ _ ha
    rw [List.length_nil] at hlt
    omega

/-- Items are read in the longer text as well if something comes after them that tells by itself
    what it is. -/
theorem itemsUpTo_cursor {limit limit' : Nat} (hlimit : s.size < limit) (hlimit' : limit ≤ limit')
    (h : itemsUpTo stop item limit s = .ok as s') (hend : s'.Plain)
    (hitem : ∀ s a s', a ∈ as → item s = .ok a s' → s'.Plain →
      item' (f.cursor s) = .ok (g a) (f.cursor s')) :
    itemsUpTo stop item' limit' (f.cursor s) = .ok (as.map g) (f.cursor s') := by
  induction limit generalizing limit' s as with
  | zero => exact absurd hlimit (Nat.not_lt_zero _)
  | succ limit ih =>
    obtain ⟨limit', rfl⟩ : ∃ l, limit' = l + 1 := ⟨limit' - 1, by omega⟩
    have hrest : s.rest ≠ [] := by
      have hlength := length_le_of_itemsUpTo hle h
      have hpos := List.length_pos_iff.2 hend.rest_ne_nil
      exact List.length_pos_iff.1 (by omega)
    simp only [itemsUpTo, bind_eq_ok, get_eq_ok] at h ⊢
    obtain ⟨_, _, ⟨rfl, rfl⟩, h⟩ := h
    refine ⟨_, _, ⟨rfl, rfl⟩, ?_⟩
    rw [kind?_cursor hrest]
    split at h
    · rename_i hstop
      obtain ⟨rfl, rfl⟩ := pure_eq_ok.1 h
      rw [if_pos hstop]
      rfl
    · rename_i hstop
      rw [if_neg hstop]
      simp only [bind_eq_ok] at h ⊢
      obtain ⟨a, s₁, ha, b, s₂, hb, h⟩ := h
      obtain ⟨rfl, rfl⟩ | ⟨rfl, hs⟩ := skips_of_accepts hb
      · obtain ⟨rfl, rfl⟩ := pure_eq_ok.1 h
        exact ⟨_, _, hitem _ _ _ List.mem_cons_self ha hend, _, _,
          accepts_cursor hb fun _ => rfl, rfl⟩
      · simp only [if_pos, bind_eq_ok, pure_eq_ok] at h
        obtain ⟨bs, s₃, hbs, rfl, rfl⟩ := h
        have hsize : s₂.size < limit := by
          obtain ⟨t, ht, -⟩ := hs
          have hlt := ht.length_lt
          have hle := hle _ _ _ ha
          simp only [Cursor.size] at hlimit ⊢
          omega
        have hbs' := ih hsize (Nat.le_of_succ_le_succ hlimit') hbs
          fun s a s' ha => hitem s a s' (List.mem_cons_of_mem _ ha)
        refine ⟨_, _, hitem _ _ _ List.mem_cons_self ha (hs.plain rfl), _, _,
          accepts_cursor hb fun _ => rfl, ?_⟩
        simp only [if_pos, bind_eq_ok, pure_eq_ok]
        exact ⟨_, _, hbs', rfl, rfl⟩

theorem items_cursor (h : items stop item s = .ok as s') (hend : s'.Plain)
    (hitem : ∀ s a s', a ∈ as → item s = .ok a s' → s'.Plain →
      item' (f.cursor s) = .ok (g a) (f.cursor s')) :
    items stop item' (f.cursor s) = .ok (as.map g) (f.cursor s') := by
  rw [items_apply] at h ⊢
  exact itemsUpTo_cursor hle (Nat.lt_succ_self _) (Nat.succ_le_succ (size_le_cursor s)) h hend hitem

theorem itemsTo_cursor {mark : Symbol} (h : itemsTo mark item s = .ok as s')
    (hmark : (TokenKind.symbol mark).isPlain)
    (hitem : ∀ s a s', a ∈ as → item s = .ok a s' → s'.Plain →
      item' (f.cursor s) = .ok (g a) (f.cursor s')) :
    itemsTo mark item' (f.cursor s) = .ok (as.map g) (f.cursor s') := by
  simp only [itemsTo, bind_eq_ok, discard_eq_ok, pure_eq_ok] at h ⊢
  obtain ⟨_, s₁, has, _, _, ⟨_, hclose⟩, rfl, rfl⟩ := h
  exact ⟨_, _, items_cursor hle has ((skips_of_symbol hclose).plain hmark) hitem, (), _,
    ⟨_, expect_cursor hclose⟩, rfl, rfl⟩

end Several

/-! ## Rows -/

theorem rowEnd_cursor {closing : Option TokenKind} {u : Unit} (h : rowEnd closing s = .ok u s') :
    rowEnd closing (f.cursor s) = .ok u (f.cursor s') := by
  simp only [rowEnd, bind_eq_ok, get_eq_ok] at h ⊢
  obtain ⟨_, _, ⟨rfl, rfl⟩, h⟩ := h
  refine ⟨_, _, ⟨rfl, rfl⟩, ?_⟩
  split at h
  · rename_i hend
    obtain ⟨rfl, rfl⟩ := pure_eq_ok.1 h
    rw [if_pos]
    · rfl
    · by_cases hrest : s.rest = []
      · by_cases htail : f.tail = []
        · simp [Cursor.kind?, rest_cursor_nil hrest, htail]
        · rw [atBreak_cursor_nil hrest htail, Bool.or_true]
      · rwa [kind?_cursor hrest, atBreak_cursor hrest]
  · cases h

/-- What ends a row ends a statement in the longer text as well. -/
theorem ends_of_rowEnd {closing : Option TokenKind} {u : Unit} (h : rowEnd closing s = .ok u s')
    (hclosing : ∀ k ∈ closing, k.isPlain) (hstop : s.rest = [] → f.stop ≤ s.lastStop)
    (hdot : kinds s.rest ≠ [.symbol .dot])
    (hsemi : kinds s.rest = [.symbol .semicolon] → ¬f.ElseFollows) : f.Ends .lines s := by
  refine ⟨fun hrest => ⟨rfl, hstop hrest⟩, hdot, hsemi, fun hbreak hat => ?_⟩
  simp only [rowEnd, bind_eq_ok, get_eq_ok] at h
  obtain ⟨_, _, ⟨rfl, rfl⟩, h⟩ := h
  split at h
  · rename_i hend
    rw [hbreak, Bool.or_false] at hend
    -- Neither a label nor an annotation ends a row.
    obtain ⟨k, hk, hplain, hne⟩ : ∃ k, s.kind? = some k ∧ k.isPlain = false ∧
        k ≠ .symbol .semicolon := by
      rcases hat with hat | hat <;> exact ⟨_, beq_iff_eq.1 hat, rfl, by decide⟩
    simp only [hk, Option.isNone_some, Bool.false_or, Bool.or_eq_true, beq_iff_eq,
      Option.some.injEq] at hend
    obtain hend | hend := hend
    · exact absurd hend hne
    · rw [hclosing k hend.symm] at hplain
      cases hplain
  · cases h

/-! ## Rows in braces -/

/-- The last lexeme is of the kind that still comes. -/
theorem kinds_ne_of_took {us : List Fragment} {last : TokenKind} (h : Took s us s')
    (hat : s'.isAt k) (hk : k ≠ last) : kinds s.rest ≠ [last] := by
  intro hlast
  obtain ⟨ts, hrest, -⟩ := h.taken
  obtain ⟨t, ts', hrest'⟩ := List.exists_cons_of_ne_nil (Cursor.rest_ne_nil_of_isAt hat)
  simp only [Cursor.isAt, Cursor.kind?, hrest', List.head?_cons, Option.map_some, beq_iff_eq,
    Option.some.injEq] at hat
  have hmem : k ∈ kinds s.rest := by
    rw [hrest, hrest', kinds, ← hat]
    exact List.mem_map_of_mem (by simp)
  rw [hlast, List.mem_singleton] at hmem
  exact hk hmem

/-- A row takes a lexeme, behind any semicolons. -/
theorem size_lt_of_row {p : Phrase} {n : Nat} {u : Fragment} {v : Unit} {s₂ : Cursor}
    (hsemi : semicolons s = .ok v s₁) (hu : Reads n p s₁ [u] s₂) : s₂.size < s.size := by
  have hlt : s₂.rest.length + 1 ≤ s₁.rest.length := by
    have := (took_of_reads hu).length_le
    rwa [List.length_singleton] at this
  exact Nat.lt_of_lt_of_le hlt (size_le_of_semicolons hsemi)

section Braces

variable {p : Phrase} {n : Nat} {item item' : Reader Fragment} {us : List Fragment}
  {stop : Option TokenKind → Bool} (hreads : ∀ s u s', item s = .ok u s' → Reads n p s [u] s')

include hreads

/-- Rows in braces are read in the longer text as well. -/
theorem rowsUpTo_cursor {limit limit' : Nat} (hlimit : s.size < limit) (hlimit' : limit ≤ limit')
    (h : rowsUpTo stop (some (.symbol .rightBrace)) item limit s = .ok us s')
    (hend : s'.isAt (.symbol .rightBrace))
    (hitem : ∀ s u s', u ∈ us → item s = .ok u s' → f.Ends .lines s' → s'.rest ≠ [] →
      item' (f.cursor s) = .ok (f.fragment u) (f.cursor s')) :
    rowsUpTo stop (some (.symbol .rightBrace)) item' limit' (f.cursor s) =
      .ok (us.map f.fragment) (f.cursor s') := by
  induction limit generalizing limit' s us with
  | zero => exact absurd hlimit (Nat.not_lt_zero _)
  | succ limit ih =>
    obtain ⟨limit', rfl⟩ : ∃ l, limit' = l + 1 := ⟨limit' - 1, by omega⟩
    simp only [rowsUpTo, bind_eq_ok, get_eq_ok] at h ⊢
    obtain ⟨_, s₁, hsemi, _, _, ⟨rfl, rfl⟩, h⟩ := h
    split at h
    · rename_i hstop
      obtain ⟨rfl, rfl⟩ := pure_eq_ok.1 h
      have hrest := Cursor.rest_ne_nil_of_isAt hend
      refine ⟨_, _, semicolons_cursor hsemi hrest, _, _, ⟨rfl, rfl⟩, ?_⟩
      rw [kind?_cursor hrest, if_pos hstop]
      rfl
    · rename_i hstop
      simp only [bind_eq_ok, pure_eq_ok] at h
      obtain ⟨u, s₂, hu, _, s₃, hrow, us, s₄, hus, rfl, rfl⟩ := h
      obtain rfl := eq_of_rowEnd hrow
      have htook := took_of_reads (reads_rowsUpTo hreads hus)
      have hpos := List.length_pos_iff.2 (Cursor.rest_ne_nil_of_isAt hend)
      have hlt := (took_of_reads (hreads _ _ _ hu)).length_le
      have hlt' := htook.length_le
      rw [List.length_singleton] at hlt
      have hrest : s₁.rest ≠ [] := List.length_pos_iff.1 (by omega)
      have hrest₃ : s₃.rest ≠ [] := List.length_pos_iff.1 (by omega)
      have hends : f.Ends .lines s₃ :=
        ends_of_rowEnd hrow (by simp [TokenKind.isPlain]) (fun hnil => absurd hnil hrest₃)
          (kinds_ne_of_took htook hend (by simp))
          (fun hsemi => absurd hsemi (kinds_ne_of_took htook hend (by simp)))
      have hsize := size_lt_of_row hsemi (hreads _ _ _ hu)
      have hus' := ih (by omega) (Nat.le_of_succ_le_succ hlimit') hus
        fun s v s' hv => hitem s v s' (List.mem_cons_of_mem _ hv)
      refine ⟨_, _, semicolons_cursor hsemi hrest, _, _, ⟨rfl, rfl⟩, ?_⟩
      rw [kind?_cursor hrest, if_neg hstop]
      simp only [bind_eq_ok, pure_eq_ok]
      exact ⟨_, _, hitem _ _ _ List.mem_cons_self hu hends hrest₃, _, _, rowEnd_cursor hrow, _, _,
        hus', rfl, rfl⟩

theorem rows_cursor (h : rows stop (some (.symbol .rightBrace)) item s = .ok us s')
    (hend : s'.isAt (.symbol .rightBrace))
    (hitem : ∀ s u s', u ∈ us → item s = .ok u s' → f.Ends .lines s' → s'.rest ≠ [] →
      item' (f.cursor s) = .ok (f.fragment u) (f.cursor s')) :
    rows stop (some (.symbol .rightBrace)) item' (f.cursor s) =
      .ok (us.map f.fragment) (f.cursor s') := by
  rw [rows_apply] at h ⊢
  exact rowsUpTo_cursor hreads (Nat.lt_succ_self _) (Nat.succ_le_succ (size_le_cursor s)) h hend
    hitem

end Braces

/-! ## Names -/

theorem qualifiedName_cursor {role : String} (h : qualifiedName role s = .ok t s')
    (hdot : kinds s'.rest ≠ [.symbol .dot]) :
    qualifiedName role (f.cursor s) = .ok (t.shift f.offset) (f.cursor s') := by
  obtain ⟨name, s₁, hname, h⟩ := bind_eq_ok.1 h
  refine bind_eq_ok.2 ⟨_, _, expect_cursor hname, ?_⟩
  obtain ⟨rfl, rfl⟩ : (lastSegment name s₁.rest).1 = t ∧ _ = s' := by simpa using h
  have hlast := lastSegment_append (f := f) name hdot
  simp only [cursor, hlast, Lexeme.shift_stop]

/-! ## Nodes -/

variable {kind : NodeKind} {span : Span} {us vs : List Fragment} {u v : Fragment}

theorem readSpan_cursor (start : Nat) : Reader.spanFrom (start + f.offset) (f.cursor s) =
    .ok ((s.spanFrom start).shift f.offset) (f.cursor s) := by
  rw [← spanFrom_cursor]
  rfl

theorem make_cursor (h : us.map f.fragment = vs) :
    make kind (span.shift f.offset) vs (f.cursor s) =
      .ok (f.fragment (s.make kind span us)) (f.cursor s.made) := by
  rw [fragment_make, cursor_made, h]
  rfl

/-- The node over all that is between two brackets. -/
theorem make_cursor_between {opening closing : Lexeme} (h : us.map f.fragment = vs) :
    make kind ⟨(opening.shift f.offset).start, (closing.shift f.offset).stop⟩ vs (f.cursor s) =
      .ok (f.fragment (s.make kind ⟨opening.start, closing.stop⟩ us)) (f.cursor s.made) := by
  rw [Lexeme.shift_stop]
  change make kind (Span.shift f.offset ⟨opening.start, closing.stop⟩) vs (f.cursor s) = _
  exact make_cursor h

theorem close_cursor (start : Nat) (h : us.map f.fragment = vs) :
    close (start + f.offset) kind vs (f.cursor s) =
      .ok (f.fragment (s.node start kind us)) (f.cursor s.made) := by
  exact bind_eq_ok.2 ⟨_, _, readSpan_cursor start, make_cursor h⟩

theorem span_shift : Token.span (t.shift f.offset).toToken = t.span.shift f.offset := by
  rw [Token.span, Token.span, Span.shift, ← Token.shift_stop]
  rfl

theorem leaf_cursor : leaf kind (t.shift f.offset) (f.cursor s) =
    .ok (f.fragment (s.leaf kind t)) (f.cursor s.made) := by
  rw [leaf, span_shift]
  exact make_cursor rfl

theorem fragment_join :
    f.fragment (s.join kind u v) = (f.cursor s).join kind (f.fragment u) (f.fragment v) := by
  rw [Cursor.join, fragment_make, Cursor.join, span_fragment, span_fragment]
  rfl

theorem join_cursor : join kind (f.fragment u) (f.fragment v) (f.cursor s) =
    .ok (f.fragment (s.join kind u v)) (f.cursor s.made) := by
  rw [fragment_join, cursor_made]
  rfl

theorem wrap_cursor : wrap kind (f.fragment u) (f.cursor s) =
    .ok (f.fragment (s.wrap kind u)) (f.cursor s.made) := by
  rw [wrap, span_fragment]
  exact make_cursor rfl

/-- What is below a node that is read in the longer text is read there as well. -/
theorem fits_below (h : f.Fits [s.make kind span us]) : f.Fits us := (fits_node.1 h).2

end Frame

end ResultHints
