import ResultHints.Proofs.Document.Join
import ResultHints.Proofs.Grammar.Grouping

/-!
# Entries of a `when`

How entries are written one below the other: a name or an `else`, an arrow, and what is evaluated
(`EntryText`). Main statements:

- `tokenize_entry`: the tokens of a line are those of its parts, whatever comes in the next line;
- `rowsUpTo_of_item`: rows one below the other are read one by one;
- `whenEntry_of_front`: the entry is read if its branch is, and holds that behind its condition.
-/

namespace ResultHints

open Reader

/-- An entry of a `when` as it is written: the name that is its condition, unless it is the else
    entry, and the text of its branch. -/
structure EntryText where
  name? : Option WordName
  branch : List Char

namespace EntryText

variable (e : EntryText)

/-- What stands before the arrow. -/
def head : List Char :=
  match e.name? with
  | none => "else".toList
  | some x => x.1

/-- The kind of the token before the arrow. -/
def headKind : TokenKind := if e.name?.isSome then .identifier else .keyword .else_

/-- What stands before the branch. -/
def front : List Char := e.head ++ " -> ".toList

/-- The line of the entry. -/
def text : List Char := e.front ++ e.branch ++ ['\n']

/-- The lexeme before the arrow, where the entry begins at the given offset. -/
def first (offset : Nat) (broken : Bool) : Lexeme := ⟨⟨e.headKind, offset, e.head⟩, broken⟩

/-- The arrow, where the entry begins at the given offset. -/
def arrow (offset : Nat) : Lexeme :=
  ⟨⟨.symbol .arrow, offset + byteLength e.head + 1, "->".toList⟩, false⟩

/-- The condition of the entry, where it begins at the given offset. -/
def conditions (offset : Nat) : List (Tree Shape) :=
  e.name?.toList.map fun x =>
    let span : Span := ⟨offset, offset + byteLength x.1⟩
    .node ⟨.whenCondition .expression, span⟩ [.node ⟨.nameReference (String.ofList x.1), span⟩ []]

variable {e}

theorem headKind_cases : e.headKind = .identifier ∨ e.headKind = .keyword .else_ := by
  rw [headKind]
  split
  · exact .inl rfl
  · exact .inr rfl

theorem name?_of_headKind (h : e.headKind = .keyword .else_) : e.name? = none := by
  obtain ⟨_ | x, branch⟩ := e
  · rfl
  · cases h

theorem headKind_ne_symbol (mark : Symbol) : e.headKind ≠ .symbol mark := by
  obtain h | h := e.headKind_cases <;> rw [h] <;> nofun

theorem follows_headKind : e.headKind.follows := by
  obtain h | h := e.headKind_cases <;> rw [h] <;> rfl

theorem isTrivia_headKind : e.headKind.isTrivia = false := by
  obtain h | h := e.headKind_cases <;> rw [h] <;> rfl

theorem soleToken?_head : soleToken? e.head = some e.headKind := by
  obtain ⟨_ | x, branch⟩ := e
  · exact show soleToken? "else".toList = some (.keyword .else_) by decide +kernel
  · exact soleToken?_name x

theorem byteLength_front : byteLength e.front = byteLength e.head + 4 := byteLength_append _ _

end EntryText

variable {e : EntryText} {more : List Char} {ts us : List Token} {limit : Nat}

/-! ## Tokens -/

theorem lexemes_cons {t : Token} (h : t.kind.isTrivia = false) (broken : Bool) (ts : List Token) :
    lexemes broken (t :: ts) = ⟨t, broken⟩ :: lexemes false ts := by
  rw [lexemes, if_neg (by rw [h]; decide)]

theorem Lexeme.shift_shift (m n : Nat) (t : Lexeme) : (t.shift n).shift m = t.shift (n + m) := by
  simp only [shift, Token.shift, Nat.add_assoc]

/-- Behind a space, the lexemes of a text are those of the text. -/
theorem exists_tokensFrom_space (hl : more.length + 1 ≤ limit) (h : tokenize more = .ok ts)
    (afterJump : Bool) (n : Nat) : ∃ us, tokensFrom limit afterJump n (' ' :: more) = (us, none) ∧
      lexemes false us = (lexemes false ts).map (Lexeme.shift (n + 1)) := by
  obtain ⟨lead, tail, rfl, hlead, hblank, htail⟩ := tokensFrom_dropWhile h
  obtain ⟨limit, rfl⟩ : ∃ l, limit = l + 1 := ⟨limit - 1, by omega⟩
  have hdrop : (' ' :: more).dropWhile isBlank = more.dropWhile isBlank :=
    List.dropWhile_cons_of_pos (by decide)
  have htake : (' ' :: more).takeWhile isBlank = ' ' :: more.takeWhile isBlank :=
    List.takeWhile_cons_of_pos (by decide)
  have hgap : consumed (' ' :: more) (more.dropWhile isBlank) = ' ' :: more.takeWhile isBlank := by
    rw [← hdrop, consumed_dropWhile, htake]
  have hnext : nextToken afterJump ' ' more =
      .ok (.trivia .blank, more.dropWhile isBlank) := by
    rw [nextToken_of_isBlank (by decide), hdrop]
  have hrest := htail limit (by omega) (n + 1)
  refine ⟨⟨.trivia .blank, n, ' ' :: more.takeWhile isBlank⟩ :: tail.map (Token.shift (n + 1)), ?_,
    ?_⟩
  · rw [tokensFrom_cons]
    refine ⟨_, _, _, hnext, ?_, by rw [hgap]⟩
    rwa [hgap, byteLength_cons, ← Nat.add_assoc]
  · rw [lexemes_cons_blank _ rfl, lexemes_blank_append hlead, hblank, lexemes_shift]
    rfl

/-- The lexemes of what stands before a branch, and of a text. -/
theorem tokenize_front (e : EntryText) (h : tokenize more = .ok ts) :
    ∃ us, tokenize (e.front ++ more) = .ok us ∧ ∀ broken, lexemes broken us =
      e.first 0 broken :: e.arrow 0 ::
        (lexemes false ts).map (Lexeme.shift (byteLength e.front)) := by
  have harrow : soleToken? "->".toList = some (.symbol .arrow) := by decide +kernel
  obtain ⟨us, hus, hlexemes⟩ := exists_tokensFrom_space
    (show more.length + 1 ≤ e.head.length + 1 + more.length by omega) h
    (TokenKind.symbol .arrow).takesLabel (0 + byteLength e.head + 1 + 2)
  have hright := tokensFrom_sole harrow rfl (by rintro d ⟨⟩; rfl) hus
  have hspace := tokensFrom_space e.headKind.takesLabel harrow rfl hright
  have hall := tokensFrom_sole e.soleToken?_head e.isTrivia_headKind (by rintro d ⟨⟩; rfl) hspace
  have htext : e.front ++ more = e.head ++ ' ' :: ("->".toList ++ ' ' :: more) :=
    List.append_assoc _ _ _
  have hlength : (e.head ++ ' ' :: ("->".toList ++ ' ' :: more)).length =
      e.head.length + 1 + more.length + 1 + 1 + 1 := by
    simp only [List.length_append, List.length_cons]
    rw [show "->".toList.length = 2 from rfl]
    omega
  rw [← hlength, ← htext] at hall
  refine ⟨_, tokenize_eq_ok.2 hall, fun broken => ?_⟩
  rw [lexemes_cons e.isTrivia_headKind, lexemes_space, lexemes_cons rfl, hlexemes,
    e.byteLength_front]
  simp [EntryText.first, EntryText.arrow]

/-- The lexemes of an entry and of what comes in the lines below it. -/
theorem tokenize_entry (hbranch : tokenize e.branch = .ok ts) (hmore : tokenize more = .ok us) :
    ∃ all, tokenize (e.text ++ more) = .ok all ∧ ∀ broken, lexemes broken all =
      e.first 0 broken :: e.arrow 0 ::
        ((lexemes false ts).map (Lexeme.shift (byteLength e.front)) ++
          (lexemes true us).map (Lexeme.shift (byteLength e.text))) := by
  obtain ⟨both, hboth, hjoined⟩ := tokenize_break hbranch hmore
  obtain ⟨all, hall, hlexemes⟩ := tokenize_front e hboth
  have htext : e.text ++ more = e.front ++ (e.branch ++ '\n' :: more) := by
    simp [EntryText.text]
  have hlength : byteLength e.text = byteLength e.branch + 1 + byteLength e.front := by
    rw [EntryText.text, byteLength_append, byteLength_append, Nat.add_assoc, Nat.add_comm]
    rfl
  refine ⟨all, htext ▸ hall, fun broken => ?_⟩
  rw [hlexemes, hjoined.lexemes_eq, List.map_append, List.map_map, hlength]
  simp only [Function.comp_def, Lexeme.shift_shift]

/-- The lexemes of an entry in a longer text, and of what comes in the lines below it. -/
theorem map_shift_entry (before : List Char) (e : EntryText) (broken : Bool) (L M : List Lexeme) :
    (e.first 0 broken :: e.arrow 0 :: (L.map (Lexeme.shift (byteLength e.front)) ++
        M.map (Lexeme.shift (byteLength e.text)))).map (Lexeme.shift (byteLength before)) =
      e.first (byteLength before) broken :: e.arrow (byteLength before) ::
        (L.map (Lexeme.shift (byteLength (before ++ e.front))) ++
          M.map (Lexeme.shift (byteLength (before ++ e.text)))) := by
  have hfirst : (e.first 0 broken).shift (byteLength before) =
      e.first (byteLength before) broken := by
    rw [EntryText.first, EntryText.first, Lexeme.shift, Token.shift, Nat.zero_add]
  have harrow : (e.arrow 0).shift (byteLength before) = e.arrow (byteLength before) := by
    rw [EntryText.arrow, EntryText.arrow, Lexeme.shift, Token.shift]
    dsimp only
    rw [Nat.zero_add, Nat.add_comm, Nat.add_assoc]
  rw [List.map_cons, List.map_cons, hfirst, harrow, List.map_append, List.map_map, List.map_map,
    byteLength_append, byteLength_append]
  simp only [Function.comp_def, Lexeme.shift_shift, Nat.add_comm]

/-! ## Rows -/

section Rows

variable {s s₁ s' : Cursor} {α : Type} {stop : Option TokenKind → Bool}
  {closing : Option TokenKind} {item : Reader α} {a : α} {as : List α}

/-- What comes in the next line ends an entry. -/
theorem rowEnd_of_afterBreak (h : ∀ t ∈ s.rest.head?, t.afterBreak) :
    rowEnd closing s = .ok () s := by
  obtain ⟨source, _ | ⟨t, ts⟩, m, i⟩ := s
  · rfl
  · have ht := h t rfl
    simp only [rowEnd, bind_eq_ok, get_eq_ok]
    refine ⟨_, _, ⟨rfl, rfl⟩, ?_⟩
    rw [if_pos]
    · rfl
    · simp [Cursor.atBreak, ht]

/-- No row is read where the rows end. -/
theorem rowsUpTo_of_stop (hsemi : ¬s.isAt (.symbol .semicolon)) (hstop : stop s.kind? = true) :
    rowsUpTo stop closing item (limit + 1) s = .ok [] s := by
  simp only [rowsUpTo, bind_eq_ok, get_eq_ok]
  refine ⟨_, _, semicolons_of_not_isAt hsemi, _, _, ⟨rfl, rfl⟩, ?_⟩
  rw [if_pos hstop]
  rfl

/-- A row that a line break ends is read, and then those behind it. -/
theorem rowsUpTo_of_item (hsemi : ¬s.isAt (.symbol .semicolon)) (hstop : ¬stop s.kind? = true)
    (hitem : item s = .ok a s₁) (hbreak : ∀ t ∈ s₁.rest.head?, t.afterBreak)
    (hmore : rowsUpTo stop closing item limit s₁ = .ok as s') :
    rowsUpTo stop closing item (limit + 1) s = .ok (a :: as) s' := by
  simp only [rowsUpTo, bind_eq_ok, get_eq_ok]
  refine ⟨_, _, semicolons_of_not_isAt hsemi, _, _, ⟨rfl, rfl⟩, ?_⟩
  rw [if_neg hstop]
  simp only [bind_eq_ok, pure_eq_ok]
  exact ⟨a, s₁, hitem, _, _, rowEnd_of_afterBreak hbreak, as, s', hmore, rfl, rfl⟩

end Rows

/-! ## Reading -/

variable {n m i : Nat} {source : List Char} {t a : Lexeme} {rest : List Lexeme}
  {s s₁ s' : Cursor} {u : Fragment}

/-- A name before an arrow is an expression. -/
theorem expression_of_name (ht : s.Takes t s₁) (hk : t.kind = .identifier)
    (harrow : s₁.kind? = some (.symbol .arrow)) (layout : Layout) :
    expression (.ofDepth (n + 1)) layout s =
      .ok (s₁.leaf (.nameReference (identifierName t.text)) t) s₁.made := by
  have hend : s₁.EndsOperand := by
    intro k hk
    cases harrow.symm.trans hk
    rfl
  have hnone : s₁.made.connective? layout .disjunction = none := by
    rw [Cursor.connective?, show s₁.made.kind? = _ from harrow]
    rfl
  simp only [expression, bind_eq_ok, get_eq_ok]
  exact ⟨_, _, operand_of_name ht hk hend, _, _, ⟨rfl, rfl⟩, Inner.Sound.chain_of_none hnone⟩

/-- A name before an arrow is a condition. -/
theorem whenCondition_of_name (ht : s.Takes t s₁) (hk : t.kind = .identifier)
    (harrow : s₁.kind? = some (.symbol .arrow)) : ∃ c,
      whenCondition (.ofDepth (n + 1)) s = .ok c s₁.made.made ∧
      c.shapes = .node ⟨.whenCondition .expression, t.span⟩
        [.node ⟨.nameReference (identifierName t.text), t.span⟩ []] := by
  have hspan : s₁.made.spanFrom t.start = t.span := by
    cases ht
    exact congrArg (Span.mk t.start) (Nat.max_eq_left (Nat.le_add_right _ _))
  refine ⟨s₁.made.node t.start (.whenCondition .expression)
    [s₁.leaf (.nameReference (identifierName t.text)) t], ?_, ?_⟩
  · simp only [whenCondition, bind_eq_ok, get_eq_ok]
    refine ⟨_, _, ⟨rfl, rfl⟩, ?_⟩
    rw [ht.kind?, hk, ht.position]
    exact bind_eq_ok.2 ⟨_, _, expression_of_name ht hk harrow .lines, rfl⟩
  · change Tree.node (Shape.mk _ (s₁.made.spanFrom t.start)) _ = _
    rw [hspan]
    rfl

/-- A name before an arrow is all that the conditions of an entry are. -/
theorem conditions_of_name (ht : s.Takes t s₁) (hk : t.kind = .identifier)
    (harrow : s₁.kind? = some (.symbol .arrow)) : ∃ c,
      items none (whenCondition (.ofDepth (n + 1))) s = .ok [c] s₁.made.made ∧
      c.shapes = .node ⟨.whenCondition .expression, t.span⟩
        [.node ⟨.nameReference (identifierName t.text), t.span⟩ []] := by
  obtain ⟨c, hc, hshapes⟩ := whenCondition_of_name (n := n) ht hk harrow
  have hcomma : accepts .comma s₁.made.made = .ok false s₁.made.made := by
    have hkind : s₁.made.made.kind? ≠ some (.symbol .comma) := by
      rw [show s₁.made.made.kind? = _ from harrow]
      nofun
    simp only [accepts, bind_eq_ok]
    exact ⟨_, _, accept_of_kind?_ne hkind, rfl⟩
  refine ⟨c, ?_, hshapes⟩
  simp only [items_apply, itemsUpTo, bind_eq_ok, get_eq_ok]
  refine ⟨_, _, ⟨rfl, rfl⟩, ?_⟩
  rw [if_neg (by simp)]
  simp only [bind_eq_ok]
  exact ⟨_, _, hc, _, _, hcomma, rfl⟩

/-- An entry is read if its branch is, and holds that behind its condition. -/
theorem whenEntry_of_front {P : Fragment → Cursor → Prop} (e : EntryText) (offset : Nat)
    (broken : Bool) (hbranch : ∀ i, ∃ u y, controlBody (.ofDepth (n + 1)) .lines
      ⟨source, rest, (e.arrow offset).stop, i⟩ = .ok u y ∧ P u y) :
    ∃ w u y, whenEntry (.ofDepth (n + 1))
        ⟨source, e.first offset broken :: e.arrow offset :: rest, m, i⟩ = .ok w y.made ∧ P u y ∧
      w.label.kind = .whenEntry e.name?.isNone ∧
      w.children.map Fragment.shapes = e.conditions offset ++ [u.shapes] := by
  have htaken (i : Nat) : symbol .arrow
      ⟨source, e.arrow offset :: rest, (e.first offset broken).stop, i⟩ =
        .ok (e.arrow offset) ⟨source, rest, (e.arrow offset).stop, i⟩ :=
    expect_of_takes (.mk ..) rfl
  obtain ⟨_ | x, branch⟩ := e
  · obtain ⟨u, y, hread, hP⟩ := hbranch i
    refine ⟨y.node offset (.whenEntry true) [u], u, y, ?_, hP, rfl, rfl⟩
    simp only [whenEntry, bind_eq_ok, get_eq_ok]
    refine ⟨_, _, ⟨rfl, rfl⟩, _, _, accept_of_takes (.mk ..) rfl, ?_⟩
    simp only [Option.isSome_some, if_true, bind_eq_ok, discard_eq_ok, pure_eq_ok]
    exact ⟨_, _, ⟨rfl, rfl⟩, (), _, ⟨_, htaken i⟩, _, _, hread, rfl⟩
  · obtain ⟨u, y, hread, hP⟩ := hbranch (i + 2)
    have ht := Cursor.Takes.mk source (EntryText.first ⟨some x, branch⟩ offset broken)
      (EntryText.arrow ⟨some x, branch⟩ offset :: rest) m i
    obtain ⟨c, hc, hshapes⟩ := conditions_of_name (n := n) ht rfl rfl
    refine ⟨y.node offset (.whenEntry false) [c, u], u, y, ?_, hP, rfl, ?_⟩
    · simp only [whenEntry, bind_eq_ok, get_eq_ok]
      refine ⟨_, _, ⟨rfl, rfl⟩, _, _, accept_of_kind?_ne (by rintro ⟨⟩), ?_⟩
      simp only [Option.isSome_none, Bool.false_eq_true, if_false, bind_eq_ok, discard_eq_ok]
      exact ⟨_, _, hc, (), _, ⟨_, htaken (i + 2)⟩, _, _, hread, rfl⟩
    · have hname : identifierName (EntryText.first ⟨some x, branch⟩ offset broken).text =
          String.ofList x.1 := identifierName_of_spelling (.word x.2)
      change [c.shapes, u.shapes] = _
      rw [hshapes, hname]
      rfl

end ResultHints
