import ResultHints.Proofs.Grammar.Phrase

/-!
# What readers do

A reader that succeeds has done what its parts did, one after the other: the
inversion lemmas of `>>=` and of the readers of one lexeme and of several. They
take a successful reading apart from the outside in, so that no proof about a rule
of the grammar opens a reader of another.
-/

namespace ResultHints

/-! ## The cursor -/

namespace Cursor

variable {s s₁ s₂ s' : Cursor} {t : Lexeme} {ts us : List Lexeme} {k : TokenKind}

theorem Takes.kind? (h : s.Takes t s') : s.kind? = some t.kind := by cases h; rfl

theorem Takes.position (h : s.Takes t s') : s.position = t.start := by cases h; rfl

theorem Takes.isAt (h : s.Takes t s') : s.isAt k ↔ t.kind = k := by
  simp [Cursor.isAt, h.kind?]

theorem Takes.moves (h : s.Takes t s') : s.Moves [t] s' := .cons h .nil

theorem Skips.isAt (h : s.Skips k s') : s.isAt k := by
  obtain ⟨t, h, rfl⟩ := h
  exact h.isAt.2 rfl

theorem Moves.append (h : s.Moves ts s₁) (h' : s₁.Moves us s') : s.Moves (ts ++ us) s' := by
  induction h with
  | nil => exact h'
  | cons ht _ ih => exact .cons ht (ih h')

theorem Moves.rest_eq (h : s.Moves ts s') : s.rest = ts ++ s'.rest := by
  induction h with
  | nil => rfl
  | cons ht _ ih =>
    cases ht
    exact congrArg _ ih

theorem Skips.moves (h : s.Skips k s') : ∃ t, s.Moves [t] s' ∧ t.kind = k := by
  obtain ⟨t, ht, hk⟩ := h
  exact ⟨t, ht.moves, hk⟩

end Cursor

namespace Reader

open Cursor

variable {α β : Type} {s s' : Cursor}

/-! ## One reader after another -/

@[simp]
theorem bind_eq_ok {r : Reader α} {f : α → Reader β} {b : β} :
    (r >>= f) s = .ok b s' ↔ ∃ a s₁, r s = .ok a s₁ ∧ f a s₁ = .ok b s' := by
  change EStateM.bind r f s = .ok b s' ↔ _
  unfold EStateM.bind
  cases r s with
  | ok a s₁ =>
    constructor
    · intro h
      exact ⟨a, s₁, rfl, h⟩
    · rintro ⟨_, _, ⟨⟩, h⟩
      exact h
  | error e s₁ =>
    constructor
    · intro h
      cases h
    · rintro ⟨_, _, ⟨⟩, _⟩

@[simp]
theorem pure_eq_ok {a b : α} : (pure a : Reader α) s = .ok b s' ↔ a = b ∧ s = s' := by
  change EStateM.Result.ok a s = .ok b s' ↔ _
  simp

@[simp]
theorem map_eq_ok {r : Reader α} {f : α → β} {b : β} :
    (f <$> r) s = .ok b s' ↔ ∃ a, r s = .ok a s' ∧ f a = b := by
  rw [map_eq_pure_bind, bind_eq_ok]
  simp

@[simp]
theorem get_eq_ok {s₁ : Cursor} : (get : Reader Cursor) s = .ok s₁ s' ↔ s = s₁ ∧ s = s' := by
  change EStateM.Result.ok s s = .ok s₁ s' ↔ _
  simp

@[simp]
theorem discard_eq_ok {r : Reader α} {u : Unit} :
    (discard r) s = .ok u s' ↔ ∃ a, r s = .ok a s' := by
  rw [Functor.discard, map_const, Function.comp_apply, map_eq_ok]
  simp

/-- Names the reader that succeeds, so that its cases can be told apart by an
    equation. -/
theorem exists_eq_of_ok {r : Reader α} {a : α} (h : r s = .ok a s') :
    ∃ r', r = r' ∧ r' s = .ok a s' :=
  ⟨r, rfl, h⟩

/-! ## One lexeme -/

variable {t : Lexeme} {o : Option Lexeme} {k : TokenKind} {mark : Symbol} {b : Bool}

theorem takes_of_next (h : next s = .ok t s') : s.Takes t s' := by
  obtain ⟨source, _ | ⟨u, us⟩, n, i⟩ := s
  · cases h
  · cases h
    exact .mk ..

theorem takes_of_expect {what : Expectation} (h : expect what s = .ok t s') :
    s.Takes t s' ∧ t.kind = what.kind := by
  obtain ⟨source, _ | ⟨u, us⟩, n, i⟩ := s
  · cases h
  · unfold expect at h
    dsimp only at h
    split at h
    · rename_i hk
      cases h
      exact ⟨.mk .., hk⟩
    · cases h

theorem takes_of_symbol (h : symbol mark s = .ok t s') : s.Takes t s' ∧ t.kind = .symbol mark :=
  takes_of_expect h

theorem takes_of_keyword {word : Keyword} (h : keyword word s = .ok t s') :
    s.Takes t s' ∧ t.kind = .keyword word :=
  takes_of_expect h

theorem takes_of_identifier {role : String} (h : identifier role s = .ok t s') :
    s.Takes t s' ∧ t.kind = .identifier :=
  takes_of_expect h

/-- A lexeme that is only accepted is taken if it is of the given kind. -/
theorem takes_of_accept (h : accept k s = .ok o s') :
    (o = none ∧ s' = s ∧ ¬s.isAt k) ∨ ∃ t, o = some t ∧ s.Takes t s' ∧ t.kind = k := by
  obtain ⟨source, _ | ⟨u, us⟩, n, i⟩ := s
  · cases h
    exact .inl ⟨rfl, rfl, by simp [Cursor.isAt, Cursor.kind?]⟩
  · unfold accept at h
    dsimp only at h
    split at h
    · rename_i hk
      cases h
      exact .inr ⟨u, rfl, .mk .., hk⟩
    · rename_i hk
      cases h
      exact .inl ⟨rfl, rfl, by simpa [Cursor.isAt, Cursor.kind?] using hk⟩

theorem skips_of_accepts (h : accepts mark s = .ok b s') :
    (b = false ∧ s' = s) ∨ (b = true ∧ s.Skips (.symbol mark) s') := by
  simp only [accepts, bind_eq_ok, pure_eq_ok] at h
  obtain ⟨o, s₁, ho, rfl, rfl⟩ := h
  obtain ⟨rfl, rfl, -⟩ | ⟨t, rfl, ht, hk⟩ := takes_of_accept ho
  · exact .inl ⟨rfl, rfl⟩
  · exact .inr ⟨rfl, t, ht, hk⟩

theorem next_of_takes (h : s.Takes t s') : next s = .ok t s' := by
  cases h
  rfl

theorem expect_of_takes {what : Expectation} (h : s.Takes t s') (hk : t.kind = what.kind) :
    expect what s = .ok t s' := by
  cases h
  exact if_pos hk

theorem accept_of_takes (h : s.Takes t s') (hk : t.kind = k) :
    accept k s = .ok (some t) s' := by
  cases h
  exact if_pos hk

theorem accept_of_kind?_ne (h : s.kind? ≠ some k) : accept k s = .ok none s := by
  obtain ⟨source, _ | ⟨t, ts⟩, n, i⟩ := s
  · rfl
  · exact if_neg fun hk => h (by rw [← hk]; rfl)

theorem skips_of_symbol (h : symbol mark s = .ok t s') : s.Skips (.symbol mark) s' :=
  ⟨t, takes_of_symbol h⟩

theorem skips_of_keyword {word : Keyword} (h : keyword word s = .ok t s') :
    s.Skips (.keyword word) s' :=
  ⟨t, takes_of_keyword h⟩

/-- The next lexeme is of the kind that was seen ahead. -/
theorem takes_of_next_of_kind? (h : next s = .ok t s') (hk : s.kind? = some k) :
    s.Takes t s' ∧ t.kind = k := by
  have ht := takes_of_next h
  exact ⟨ht, Option.some.inj (ht.kind?.symm.trans hk)⟩

theorem skips_of_next_of_kind? (h : next s = .ok t s') (hk : s.kind? = some k) : s.Skips k s' :=
  ⟨t, takes_of_next_of_kind? h hk⟩

/-- The next lexeme is the one that was seen ahead. -/
theorem takes_of_next_of_head? {t' : Lexeme} (h : next s = .ok t' s') (ht : s.rest.head? = some t) :
    s.Takes t s' := by
  cases takes_of_next h
  cases ht
  exact .mk ..

/-! ## Several lexemes -/

variable {item : Reader α} {as : List α}

theorem of_optionally (h : optionally b item s = .ok as s') :
    (b = false ∧ as = [] ∧ s' = s) ∨ (b = true ∧ ∃ a, as = [a] ∧ item s = .ok a s') := by
  cases b with
  | false =>
    obtain ⟨rfl, rfl⟩ : [] = as ∧ s = s' := by simpa [optionally] using h
    exact .inl ⟨rfl, rfl, rfl⟩
  | true =>
    simp only [optionally, if_pos, bind_eq_ok, pure_eq_ok] at h
    obtain ⟨a, s₁, ha, rfl, rfl⟩ := h
    exact .inr ⟨rfl, a, rfl, ha⟩

theorem of_after (h : after mark item s = .ok as s') :
    (as = [] ∧ s' = s) ∨ ∃ a s₁, as = [a] ∧ s.Skips (.symbol mark) s₁ ∧ item s₁ = .ok a s' := by
  simp only [after, bind_eq_ok] at h
  obtain ⟨b, s₁, hb, h⟩ := h
  obtain ⟨rfl, rfl, rfl⟩ | ⟨rfl, a, rfl, ha⟩ := of_optionally h
  · obtain ⟨-, rfl⟩ | ⟨⟨⟩, -⟩ := skips_of_accepts hb
    exact .inl ⟨rfl, rfl⟩
  · obtain ⟨⟨⟩, -⟩ | ⟨-, hs⟩ := skips_of_accepts hb
    exact .inr ⟨a, s₁, rfl, hs, ha⟩

/-- What holds of no item, of one item, and of an item, a comma and what follows,
    holds of all items that are read. -/
theorem of_itemsUpTo {P : Cursor → List α → Cursor → Prop} {stop : Option TokenKind}
    (nil : ∀ s, P s [] s) (single : ∀ s a s', item s = .ok a s' → P s [a] s')
    (cons : ∀ s a s₁ s₂ as s', item s = .ok a s₁ → s₁.Skips (.symbol .comma) s₂ → P s₂ as s' →
      P s (a :: as) s')
    {limit : Nat} (h : itemsUpTo stop item limit s = .ok as s') :
    P s as s' ∧ (stop = none → limit ≠ 0 → as ≠ []) := by
  induction limit generalizing s as with
  | zero =>
    obtain ⟨rfl, rfl⟩ : [] = as ∧ s = s' := by simpa [itemsUpTo] using h
    exact ⟨nil s, fun _ h => absurd rfl h⟩
  | succ limit ih =>
    simp only [itemsUpTo, bind_eq_ok, get_eq_ok] at h
    obtain ⟨_, _, ⟨rfl, rfl⟩, h⟩ := h
    split at h
    · rename_i hstop
      obtain ⟨rfl, rfl⟩ := pure_eq_ok.1 h
      refine ⟨nil _, fun hnone => ?_⟩
      simp [hnone] at hstop
    · simp only [bind_eq_ok] at h
      obtain ⟨a, s₁, ha, b, s₂, hb, h⟩ := h
      obtain ⟨rfl, rfl⟩ | ⟨rfl, hs⟩ := skips_of_accepts hb
      · obtain ⟨rfl, rfl⟩ := pure_eq_ok.1 h
        exact ⟨single _ _ _ ha, by simp⟩
      · simp only [if_pos, bind_eq_ok, pure_eq_ok] at h
        obtain ⟨bs, s₃, hbs, rfl, rfl⟩ := h
        exact ⟨cons _ _ _ _ _ _ ha hs (ih hbs).1, by simp⟩

theorem items_apply {stop : Option TokenKind} :
    items stop item s = itemsUpTo stop item (s.size + 1) s :=
  rfl

/-- As `of_itemsUpTo`, with no limit to reach. -/
theorem of_items {P : Cursor → List α → Cursor → Prop} {stop : Option TokenKind}
    (nil : ∀ s, P s [] s) (single : ∀ s a s', item s = .ok a s' → P s [a] s')
    (cons : ∀ s a s₁ s₂ as s', item s = .ok a s₁ → s₁.Skips (.symbol .comma) s₂ → P s₂ as s' →
      P s (a :: as) s')
    (h : items stop item s = .ok as s') : P s as s' ∧ (stop = none → as ≠ []) := by
  rw [items_apply] at h
  obtain ⟨hP, hne⟩ := of_itemsUpTo nil single cons h
  exact ⟨hP, fun hstop => hne hstop (Nat.succ_ne_zero _)⟩

theorem of_itemsTo (h : itemsTo mark item s = .ok as s') :
    ∃ s₁ closing, items (some (.symbol mark)) item s = .ok as s₁ ∧
      symbol mark s₁ = .ok closing s' := by
  simp only [itemsTo, bind_eq_ok, discard_eq_ok, pure_eq_ok] at h
  obtain ⟨_, s₁, has, _, _, ⟨closing, hmark⟩, rfl, rfl⟩ := h
  exact ⟨s₁, closing, has, hmark⟩

section Along

/-! What is related step by step is related from end to end. -/

variable {R : Cursor → Cursor → Prop} (refl : ∀ s, R s s)
  (trans : ∀ {s s₁ s'}, R s s₁ → R s₁ s' → R s s')

include refl

theorem along_accepts (hmark : ∀ s s', s.Skips (.symbol mark) s' → R s s')
    (h : accepts mark s = .ok b s') : R s s' := by
  obtain ⟨-, rfl⟩ | ⟨-, hs⟩ := skips_of_accepts h
  · exact refl _
  · exact hmark _ _ hs

include trans

theorem along_after (hmark : ∀ s s', s.Skips (.symbol mark) s' → R s s')
    (hitem : ∀ s a s', item s = .ok a s' → R s s') (h : after mark item s = .ok as s') :
    R s s' := by
  obtain ⟨-, rfl⟩ | ⟨a, s₁, -, hs, ha⟩ := of_after h
  · exact refl _
  · exact trans (hmark _ _ hs) (hitem _ _ _ ha)

theorem along_items (hcomma : ∀ s s', s.Skips (.symbol .comma) s' → R s s')
    (hitem : ∀ s a s', item s = .ok a s' → R s s') {stop : Option TokenKind}
    (h : items stop item s = .ok as s') : R s s' := by
  refine (of_items (P := fun s _ s' => R s s') refl hitem ?_ h).1
  exact fun _ _ _ _ _ _ ha hs hrest => trans (hitem _ _ _ ha) (trans (hcomma _ _ hs) hrest)

end Along

/-- Behind the first semicolon, the others are passed to the same cursor. -/
theorem semicolons_of_skips {s₁ : Cursor} (h : s.Skips (.symbol .semicolon) s₁) :
    semicolons s = semicolons s₁ := by
  obtain ⟨t, ⟨source, t, ts, stop, i⟩, hk⟩ := h
  cases hlast : (ts.takeWhile fun t => t.kind == .symbol .semicolon).getLast? <;>
    simp [semicolons, hk, List.getLast?_cons, hlast]

theorem semicolons_of_not_isAt (h : ¬s.isAt (.symbol .semicolon)) : semicolons s = .ok () s := by
  obtain ⟨source, _ | ⟨t, ts⟩, stop, i⟩ := s
  · rfl
  · have hk : t.kind ≠ .symbol .semicolon := by simpa [Cursor.isAt, Cursor.kind?] using h
    simp [semicolons, hk]

/-- What goes back over a semicolon goes back over all that are passed. -/
theorem of_semicolons {P : Cursor → Prop}
    (skip : ∀ s s₁, s.Skips (.symbol .semicolon) s₁ → P s₁ → P s) {u : Unit}
    (h : semicolons s = .ok u s') (hP : P s') : P s := by
  obtain ⟨source, rest, n, i⟩ := s
  induction rest generalizing n with
  | nil =>
    cases h
    exact hP
  | cons t rest ih =>
    by_cases hk : t.kind = .symbol .semicolon
    · have hs : Cursor.Skips _ ⟨source, t :: rest, n, i⟩ ⟨source, rest, t.stop, i⟩ :=
        ⟨t, .mk .., hk⟩
      exact skip _ _ hs (ih _ (semicolons_of_skips hs ▸ h))
    · rw [semicolons_of_not_isAt (by simpa [Cursor.isAt, Cursor.kind?] using hk)] at h
      cases h
      exact hP

/-- No semicolon comes after those that are passed. -/
theorem not_isAt_of_semicolons {u : Unit} (h : semicolons s = .ok u s') :
    ¬s'.isAt (.symbol .semicolon) := by
  obtain ⟨source, rest, n, i⟩ := s
  induction rest generalizing n with
  | nil =>
    cases h
    simp [Cursor.isAt, Cursor.kind?]
  | cons t rest ih =>
    by_cases hk : t.kind = .symbol .semicolon
    · exact ih _ (semicolons_of_skips ⟨t, .mk .., hk⟩ ▸ h)
    · have hno : ¬Cursor.isAt (.symbol .semicolon) ⟨source, t :: rest, n, i⟩ := by
        simpa [Cursor.isAt, Cursor.kind?] using hk
      rw [semicolons_of_not_isAt hno] at h
      cases h
      exact hno

theorem eq_of_rowEnd {closing : Option TokenKind} {u : Unit} (h : rowEnd closing s = .ok u s') :
    s' = s := by
  simp only [rowEnd, bind_eq_ok, get_eq_ok] at h
  obtain ⟨_, _, ⟨rfl, rfl⟩, h⟩ := h
  split at h
  · exact (pure_eq_ok.1 h).2.symm
  · cases h

theorem rows_apply {stop : Option TokenKind → Bool} {closing : Option TokenKind} :
    rows stop closing item s = rowsUpTo stop closing item (s.size + 1) s :=
  rfl

/-- What holds of no row, and of a row before others, holds of all rows that are
    read, if semicolons may be skipped. No row begins where rows end, and none with a semicolon. -/
theorem of_rowsUpTo {P : Cursor → List α → Cursor → Prop} {stop : Option TokenKind → Bool}
    {closing : Option TokenKind} (nil : ∀ s, P s [] s)
    (skip : ∀ s s₁ as s', s.Skips (.symbol .semicolon) s₁ → P s₁ as s' → P s as s')
    (cons : ∀ s a s₁ as s', ¬stop s.kind? → ¬s.isAt (.symbol .semicolon) → item s = .ok a s₁ →
      P s₁ as s' → P s (a :: as) s')
    {limit : Nat} (h : rowsUpTo stop closing item limit s = .ok as s') : P s as s' := by
  induction limit generalizing s as with
  | zero =>
    obtain ⟨rfl, rfl⟩ : [] = as ∧ s = s' := by simpa [rowsUpTo] using h
    exact nil s
  | succ limit ih =>
    simp only [rowsUpTo, bind_eq_ok, get_eq_ok] at h
    obtain ⟨_, s₁, hsemi, _, _, ⟨rfl, rfl⟩, h⟩ := h
    refine of_semicolons (P := fun s => P s as s') (fun _ _ => skip _ _ _ _) hsemi ?_
    split at h
    · obtain ⟨rfl, rfl⟩ := pure_eq_ok.1 h
      exact nil _
    · rename_i hstop
      simp only [bind_eq_ok, pure_eq_ok] at h
      obtain ⟨a, s₂, ha, _, s₃, hend, bs, s₄, hbs, rfl, rfl⟩ := h
      obtain rfl := eq_of_rowEnd hend
      exact cons _ _ _ _ _ hstop (not_isAt_of_semicolons hsemi) ha (ih hbs)

/-- The names before the last, with their dots, and the last. -/
theorem moves_lastSegment {name : Lexeme} {ts : List Lexeme} {source : List Char} {i : NodeId}
    {s : Cursor} (h : s.Takes name ⟨source, ts, name.stop, i⟩) (hname : name.kind = .identifier) :
    ∃ names, s.Moves (names ++ [(lastSegment name ts).1])
        ⟨source, (lastSegment name ts).2, (lastSegment name ts).1.stop, i⟩ ∧
      (∀ t ∈ names, t.kind = .identifier ∨ t.kind = .symbol .dot) ∧
      (lastSegment name ts).1.kind = .identifier := by
  -- By the recursion of the reader, which goes from one dot and name to the next.
  fun_induction lastSegment name ts generalizing s with
  | case1 name dot t ts hk ih =>
    obtain ⟨names, hnames, hall, hlast⟩ := ih (.mk source t ts dot.stop i) hk.2
    refine ⟨name :: dot :: names, .cons h (.cons (.mk ..) hnames), ?_, hlast⟩
    simp only [List.mem_cons, forall_eq_or_imp]
    exact ⟨.inl hname, .inr hk.1, hall⟩
  | case2 => exact ⟨[], h.moves, by simp, hname⟩
  | case3 => exact ⟨[], h.moves, by simp, hname⟩

theorem moves_of_qualifiedName {role : String} (h : qualifiedName role s = .ok t s') :
    ∃ names, s.Moves (names ++ [t]) s' ∧
      (∀ t ∈ names, t.kind = .identifier ∨ t.kind = .symbol .dot) ∧ t.kind = .identifier := by
  obtain ⟨name, s₁, hname, h⟩ := bind_eq_ok.1 h
  obtain ⟨ht, hk⟩ := takes_of_identifier hname
  have hs : s₁ = ⟨s₁.source, s₁.rest, name.stop, s₁.nextId⟩ := by cases ht; rfl
  rw [hs] at ht
  obtain ⟨rfl, rfl⟩ : _ ∧ _ := by simpa using h
  exact moves_lastSegment ht hk

/-- What a test says of names and of dots, it says of every lexeme of names with dots between
    them. -/
theorem forall_mem_segments {names : List Lexeme} {p : TokenKind → Bool}
    (hnames : ∀ t ∈ names, t.kind = .identifier ∨ t.kind = .symbol .dot) (ht : t.kind = .identifier)
    (hname : p .identifier = b) (hdot : p (.symbol .dot) = b) :
    ∀ t' ∈ names ++ [t], p t'.kind = b := by
  intro t' ht'
  rcases List.mem_append.1 ht' with ht' | ht'
  · obtain hk | hk := hnames t' ht'
    · rw [hk, hname]
    · rw [hk, hdot]
  · rw [List.mem_singleton.1 ht', ht, hname]

/-! ## Nodes -/

variable {start : Nat} {kind : NodeKind} {span : Span} {us : List Fragment} {u v w : Fragment}

theorem eq_of_make (h : make kind span us s = .ok u s') :
    u = s.make kind span us ∧ s' = s.made := by
  cases h
  exact ⟨rfl, rfl⟩

theorem eq_of_spanFrom (h : spanFrom start s = .ok span s') :
    span = s.spanFrom start ∧ s' = s := by
  cases h
  exact ⟨rfl, rfl⟩

theorem eq_of_close (h : close start kind us s = .ok u s') :
    u = s.node start kind us ∧ s' = s.made := by
  simp only [close, bind_eq_ok] at h
  obtain ⟨_, _, ⟨⟩, h⟩ := h
  exact eq_of_make h

theorem eq_of_leaf {t : Lexeme} (h : leaf kind t s = .ok u s') :
    u = s.leaf kind t ∧ s' = s.made :=
  eq_of_make h

theorem eq_of_join (h : join kind v w s = .ok u s') : u = s.join kind v w ∧ s' = s.made :=
  eq_of_make h

theorem eq_of_wrap (h : wrap kind v s = .ok u s') : u = s.wrap kind v ∧ s' = s.made :=
  eq_of_make h

/-! ## Types, parameters, annotations, calls and suffixes -/

section Grammar

variable {inner : Inner}

/-- A function type behind its opening parenthesis. -/
theorem of_functionType {u : Unit} (h : functionType inner s = .ok u s') :
    ∃ ps s₁ closing s₂ results s₃ nullable,
      items (some (.symbol .rightParen)) inner.type s = .ok ps s₁ ∧
      symbol .rightParen s₁ = .ok closing s₂ ∧ after .arrow inner.type s₂ = .ok results s₃ ∧
      accepts .question s₃ = .ok nullable s' := by
  simp only [functionType, bind_eq_ok, discard_eq_ok] at h
  obtain ⟨_, s₂, ⟨ps, hps⟩, _, s₃, ⟨results, hresults⟩, nullable, hmark⟩ := h
  obtain ⟨s₁, closing, hps, hclose⟩ := of_itemsTo hps
  exact ⟨ps, s₁, closing, s₂, results, s₃, nullable, hps, hclose, hresults, hmark⟩

theorem of_typeArguments {u : Unit} (h : typeArguments inner s = .ok u s') :
    ∃ arguments s₁ closing, items none inner.type s = .ok arguments s₁ ∧
      symbol .greater s₁ = .ok closing s' := by
  simp only [typeArguments, bind_eq_ok, discard_eq_ok] at h
  obtain ⟨_, s₁, ⟨arguments, harguments⟩, closing, hclose⟩ := h
  exact ⟨arguments, s₁, closing, harguments, hclose⟩

theorem of_namedType {u : Unit} (h : namedType inner s = .ok u s') :
    ∃ name s₁ arguments s₂ nullable, qualifiedName "type" s = .ok name s₁ ∧
      after .less (typeArguments inner) s₁ = .ok arguments s₂ ∧
      accepts .question s₂ = .ok nullable s' := by
  simp only [namedType, bind_eq_ok, discard_eq_ok] at h
  obtain ⟨_, s₁, ⟨name, hname⟩, _, s₂, ⟨arguments, harguments⟩, nullable, hmark⟩ := h
  exact ⟨name, s₁, arguments, s₂, nullable, hname, harguments, hmark⟩

theorem of_typeLevel {u : Unit} (h : typeLevel inner s = .ok u s') :
    (∃ s₁, s.Skips (.symbol .leftParen) s₁ ∧ functionType inner s₁ = .ok u s') ∨
      s.Skips (.symbol .star) s' ∨ namedType inner s = .ok u s' := by
  simp only [typeLevel, bind_eq_ok] at h
  obtain ⟨b, s₁, hparen, h⟩ := h
  obtain ⟨rfl, rfl⟩ | ⟨rfl, hs⟩ := skips_of_accepts hparen
  · simp only [Bool.false_eq_true, if_false, bind_eq_ok] at h
    obtain ⟨b, s₂, hstar, h⟩ := h
    obtain ⟨rfl, rfl⟩ | ⟨rfl, hs⟩ := skips_of_accepts hstar
    · exact .inr (.inr h)
    · obtain ⟨-, rfl⟩ := pure_eq_ok.1 h
      exact .inr (.inl hs)
  · exact .inl ⟨s₁, hs, h⟩

theorem of_typeReference (h : typeReference inner s = .ok u s') :
    ∃ s₁, inner.type s = .ok () s₁ ∧ s' = s₁.made ∧
      u = s₁.node s.position (.typeReference (String.ofList
        (slice s₁.source (s₁.spanFrom s.position)))) [] := by
  simp only [typeReference, bind_eq_ok, get_eq_ok] at h
  obtain ⟨_, _, ⟨rfl, rfl⟩, _, s₁, htype, _, _, ⟨⟩, _, _, ⟨rfl, rfl⟩, h⟩ := h
  obtain ⟨rfl, rfl⟩ := eq_of_make h
  exact ⟨s₁, htype, rfl, rfl⟩

theorem of_lambdaParameter (h : lambdaParameter inner s = .ok u s') :
    ∃ t s₁ types s₂, s.Takes t s₁ ∧ t.kind = .identifier ∧
      after .colon (typeReference inner) s₁ = .ok types s₂ ∧ s' = s₂.made ∧
      u = s₂.node t.start (.parameter (identifierName t.text)) types := by
  simp only [lambdaParameter, bind_eq_ok] at h
  obtain ⟨t, s₁, ht, types, s₂, htypes, h⟩ := h
  obtain ⟨ht, hk⟩ := takes_of_identifier ht
  obtain ⟨rfl, rfl⟩ := eq_of_close h
  exact ⟨t, s₁, types, s₂, ht, hk, htypes, rfl, rfl⟩

theorem annotationEntries_apply {m : Layout} :
    annotationEntries inner m s = annotationEntriesUpTo inner m s.size s :=
  rfl

/-- A call is that of arguments in parentheses, of a lambda, or of both, on the line of what is
    called. -/
theorem callOf?_eq_ok {m : Layout} {callee : Fragment} {o : Option Fragment} :
    callOf? inner m callee s = .ok o s' ↔
      (s.atBreak m ∧ o = none ∧ s' = s) ∨
      (¬s.atBreak m ∧ ∃ us s₁ vs s₂,
        optionally (s.isAt (.symbol .leftParen)) (argumentList inner) s = .ok us s₁ ∧
        optionally (!s₁.atBreak m && s₁.lambdaAhead) (lambdaArgument inner m) s₁ = .ok vs s₂ ∧
        ((us ++ vs = [] ∧ o = none ∧ s' = s₂) ∨
          (us ++ vs ≠ [] ∧ o = some (s₂.node callee.span.start .call (callee :: (us ++ vs))) ∧
            s' = s₂.made))) := by
  simp only [callOf?, bind_eq_ok, get_eq_ok]
  constructor
  · rintro ⟨_, _, ⟨rfl, rfl⟩, h⟩
    split at h
    · next hbreak =>
      obtain ⟨rfl, rfl⟩ := pure_eq_ok.1 h
      exact .inl ⟨hbreak, rfl, rfl⟩
    · next hbreak =>
      simp only [bind_eq_ok, get_eq_ok] at h
      obtain ⟨us, s₁, hus, _, _, ⟨rfl, rfl⟩, vs, s₂, hvs, h⟩ := h
      refine .inr ⟨hbreak, us, s₁, vs, s₂, hus, hvs, ?_⟩
      split at h
      · next hempty =>
        obtain ⟨rfl, rfl⟩ := pure_eq_ok.1 h
        exact .inl ⟨List.isEmpty_iff.1 hempty, rfl, rfl⟩
      · next hne =>
        simp only [bind_eq_ok, pure_eq_ok] at h
        obtain ⟨call, s₃, hcall, rfl, rfl⟩ := h
        obtain ⟨rfl, rfl⟩ := eq_of_close hcall
        exact .inr ⟨mt List.isEmpty_iff.2 hne, rfl, rfl⟩
  · rintro (⟨hbreak, rfl, rfl⟩ | ⟨hbreak, us, s₁, vs, s₂, hus, hvs, h⟩)
    · refine ⟨_, _, ⟨rfl, rfl⟩, ?_⟩
      rw [if_pos hbreak]
      rfl
    · refine ⟨_, _, ⟨rfl, rfl⟩, ?_⟩
      rw [if_neg hbreak]
      simp only [bind_eq_ok, get_eq_ok]
      refine ⟨us, s₁, hus, _, _, ⟨rfl, rfl⟩, vs, s₂, hvs, ?_⟩
      obtain ⟨hempty, rfl, rfl⟩ | ⟨hne, rfl, rfl⟩ := h
      · rw [if_pos (List.isEmpty_iff.2 hempty)]
        rfl
      · rw [if_neg (mt List.isEmpty_iff.1 hne)]
        exact bind_eq_ok.2 ⟨_, _, rfl, rfl⟩

/-- Where neither arguments nor a lambda are ahead, there is no call. -/
theorem callOf?_of_not_ahead {m : Layout} (hparen : s.isAt (.symbol .leftParen) = false)
    (hlambda : s.lambdaAhead = false) (callee : Fragment) :
    callOf? inner m callee s = .ok none s := by
  rw [callOf?_eq_ok]
  by_cases hbreak : s.atBreak m
  · exact .inl ⟨hbreak, rfl, rfl⟩
  · refine .inr ⟨hbreak, [], s, [], s, ?_, ?_, .inl ⟨rfl, rfl, rfl⟩⟩
    · rw [hparen]
      rfl
    · rw [hlambda, Bool.and_false]
      rfl

/-- What one suffix makes of the operand `e` before it, and where it ends. -/
inductive Suffix (inner : Inner) (m : Layout) (e : Fragment) (s : Cursor) :
    Fragment → Cursor → Prop
  | dot {v : Fragment} {s₁ s₂ : Cursor} : s.Skips (.symbol .dot) s₁ → member inner m s₁ = .ok v s₂ →
    Suffix inner m e s (s₂.join (.qualified false) e v) s₂.made
  | safeAccess {v : Fragment} {s₁ s₂ : Cursor} : s.Skips (.symbol .safeAccess) s₁ →
    member inner m s₁ = .ok v s₂ → Suffix inner m e s (s₂.join (.qualified true) e v) s₂.made
  | trailing {t : Lexeme} {op : TrailingOperator} {s₁ : Cursor} : s.Takes t s₁ →
    t.kind.trailing? = some op →
    Suffix inner m e s (s₁.node e.span.start (.trailing op) [e]) s₁.made
  | indices {v : Fragment} {s₁ s₂ : Cursor} : s.Skips (.symbol .leftBracket) s₁ →
    indices inner e s₁ = .ok v s₂ → Suffix inner m e s v s₂
  | call {v : Fragment} {s₁ : Cursor} : callOf? inner m e s = .ok (some v) s₁ →
    Suffix inner m e s v s₁

/-- With neither arguments nor a lambda, nothing is read. -/
theorem eq_of_callOf?_none {m : Layout} {callee : Fragment}
    (h : callOf? inner m callee s = .ok none s') : s' = s := by
  obtain ⟨-, -, rfl⟩ | ⟨-, us, s₁, vs, s₂, hus, hvs, h⟩ := callOf?_eq_ok.1 h
  · rfl
  · obtain ⟨hempty, -, rfl⟩ | ⟨-, hsome, -⟩ := h
    · obtain ⟨rfl, rfl⟩ := List.append_eq_nil_iff.1 hempty
      obtain ⟨-, -, rfl⟩ | ⟨-, _, hnil, -⟩ := of_optionally hus
      · obtain ⟨-, -, rfl⟩ | ⟨-, _, hnil, -⟩ := of_optionally hvs
        · rfl
        · cases hnil
      · cases hnil
    · cases hsome

/-- An operand ends, or one suffix follows it and then others may. -/
theorem of_suffixesUpTo {m : Layout} {limit : Nat} {e : Fragment}
    (h : suffixesUpTo inner m (limit + 1) e s = .ok u s') : (u = e ∧ s' = s) ∨
      ∃ e' s₁, Suffix inner m e s e' s₁ ∧ suffixesUpTo inner m limit e' s₁ = .ok u s' := by
  simp only [suffixesUpTo, bind_eq_ok, get_eq_ok] at h
  obtain ⟨_, _, ⟨rfl, rfl⟩, h⟩ := h
  obtain ⟨r, hr, h⟩ := exists_eq_of_ok h
  split at hr
  · next hk =>
    subst hr
    simp only [bind_eq_ok, discard_eq_ok] at h
    obtain ⟨_, s₁, ⟨_, hnext⟩, v, s₂, hv, both, s₃, hjoin, h⟩ := h
    obtain ⟨rfl, rfl⟩ := eq_of_join hjoin
    exact .inr ⟨_, _, .dot (skips_of_next_of_kind? hnext hk) hv, h⟩
  · next hk =>
    subst hr
    simp only [bind_eq_ok, discard_eq_ok] at h
    obtain ⟨_, s₁, ⟨_, hnext⟩, v, s₂, hv, both, s₃, hjoin, h⟩ := h
    obtain ⟨rfl, rfl⟩ := eq_of_join hjoin
    exact .inr ⟨_, _, .safeAccess (skips_of_next_of_kind? hnext hk) hv, h⟩
  · split at hr
    · subst hr
      obtain ⟨rfl, rfl⟩ := pure_eq_ok.1 h
      exact .inl ⟨rfl, rfl⟩
    · split at hr <;> subst hr
      · next hop =>
        simp only [bind_eq_ok, discard_eq_ok] at h
        obtain ⟨_, s₁, ⟨t, hnext⟩, v, s₂, hv, h⟩ := h
        obtain ⟨rfl, rfl⟩ := eq_of_close hv
        have ht := takes_of_next hnext
        rw [ht.kind?] at hop
        exact .inr ⟨_, _, .trailing ht hop, h⟩
      · next hk =>
        simp only [bind_eq_ok, discard_eq_ok] at h
        obtain ⟨_, s₁, ⟨_, hnext⟩, v, s₂, hv, h⟩ := h
        exact .inr ⟨_, _, .indices (skips_of_next_of_kind? hnext hk) hv, h⟩
      · simp only [bind_eq_ok] at h
        obtain ⟨o, s₁, ho, h⟩ := h
        cases o with
        | none =>
          obtain ⟨rfl, rfl⟩ := pure_eq_ok.1 h
          exact .inl ⟨rfl, eq_of_callOf?_none ho⟩
        | some call => exact .inr ⟨_, _, .call ho, h⟩

end Grammar

end Reader

end ResultHints
