import Mathlib.Data.Nat.PSub
import ResultHints.Proofs.Token.Number

/-!
# Code in templates

In a template between `${` and `}` of a string, braces pair up and strings are skipped as
such. So a text may stand there whose tokens pair their braces up, and the string is one
token, to any depth of strings in templates in strings. But a brace or a quote counts in a
template wherever it stands, also inside a comment, a character literal or a name in
backticks; there no quote must stand, and the braces must pair up. Main statements:

- `stringEnd_inside`: a string ends at the same place inside of what encloses it;
- `tokenize_inTemplate`: a string with such a text in a template is one token;
- `tokenize_inTemplate_brace`: a brace in a character literal, and the string is left open.
-/

namespace ResultHints

variable {text rest more : List Char} {k : TokenKind} {ts : List Token} {c : Char}
  {e f : Enclosure} {outer fs : List Enclosure} {start : List Char} {afterJump : Bool}

/-! ## Pairs -/

/-- How many are open behind `x`, if `depth` are open before it; nothing, if it closes one and none
    is open. -/
def depthAfter {α : Type} (opens closes : α → Bool) (depth : Nat) (x : α) : Option Nat :=
  if opens x then some (depth + 1) else if closes x then depth.ppred else some depth

/-- How many are open behind `xs`, if `depth` are open before; nothing, if somewhere in `xs` more
    are closed than are open. -/
def depthBehind {α : Type} (opens closes : α → Bool) (depth : Nat) (xs : List α) : Option Nat :=
  xs.foldlM (depthAfter opens closes) depth

section Pairs

variable {α : Type} {opens closes : α → Bool} {depth depth' : Nat} {x : α} {xs : List α}

theorem depthBehind_cons : depthBehind opens closes depth (x :: xs) =
    (depthAfter opens closes depth x).bind fun depth => depthBehind opens closes depth xs := rfl

theorem depthAfter_add (h : depthAfter opens closes depth x = some depth') (n : Nat) :
    depthAfter opens closes (depth + n) x = some (depth' + n) := by
  rw [depthAfter] at h ⊢
  split at h
  · obtain rfl := Option.some.inj h
    rw [if_pos ‹_›, Nat.add_right_comm]
  · rw [if_neg ‹_›]
    split at h
    · obtain rfl := Nat.ppred_eq_some.1 h
      rw [if_pos ‹_›, Nat.ppred_eq_some, Nat.succ_add]
    · obtain rfl := Option.some.inj h
      rw [if_neg ‹_›]

/-- Where more is open before, more is open behind. -/
theorem depthBehind_add (h : depthBehind opens closes depth xs = some depth') (n : Nat) :
    depthBehind opens closes (depth + n) xs = some (depth' + n) := by
  induction xs generalizing depth with
  | nil => exact congrArg some (congrArg (· + n) (Option.some.inj h))
  | cons x xs ih =>
    obtain ⟨between, hx, hxs⟩ := Option.bind_eq_some_iff.1 h
    rw [depthBehind_cons, depthAfter_add hx]
    exact ih hxs

end Pairs

/-- The braces of a text that are open behind it. -/
def bracesBehind (depth : Nat) (text : List Char) : Option Nat :=
  depthBehind (· == '{') (· == '}') depth text

/-- The tokens that are braces and are open behind some tokens. -/
def braceTokensBehind (depth : Nat) (ts : List Token) : Option Nat :=
  depthBehind (·.kind == .symbol .leftBrace) (·.kind == .symbol .rightBrace) depth ts

/-- Whether a token has marks of its own around what it holds: a comment, a character literal or a
    name in backticks. -/
def Token.isEnclosed (t : Token) : Bool :=
  match t.kind with
  | .trivia .lineComment | .trivia .blockComment | .literal .char => true
  | .identifier | .labelDefinition | .labelReference | .annotationName => t.text.contains '`'
  | _ => false

/-- Whether such a token holds a quote, or a brace without its partner. -/
def Token.hidesMark (t : Token) : Bool :=
  t.isEnclosed && (t.text.contains '\"' || bracesBehind 0 t.text != some 0)

/-! ## Strings inside -/

theorem ne_nil_of_stringEnd (h : stringEnd e outer text = .ok rest) : text ≠ [] := by
  rintro rfl
  cases e <;> cases h

theorem head?_append_of_stringEnd (h : stringEnd e outer text = .ok rest) (more : List Char) :
    (text ++ more).head? = text.head? := by
  cases text with
  | nil => exact absurd rfl (ne_nil_of_stringEnd h)
  | cons c text => rfl

/-- Two quotes lead a text that goes on only if they lead it, or one is all of it. -/
theorem ne_quotes_append (hne : text ≠ []) (h : ∀ inside, text ≠ '\"' :: '\"' :: inside)
    (hone : text = ['\"'] → more.head? ≠ some '\"') (inside : List Char) :
    text ++ more ≠ '\"' :: '\"' :: inside := by
  rcases text with _ | ⟨d, _ | ⟨d', text⟩⟩
  · exact absurd rfl hne
  · intro heq
    obtain ⟨rfl, rfl⟩ := List.cons.inj heq
    exact hone rfl rfl
  · intro heq
    cases heq
    exact h text rfl

/-- A string that is closed in a text is closed at the same place inside any enclosure, and
    what encloses it goes on from there. Only behind three quotes a quote would be taken along. -/
theorem stringEnd_inside (h : stringEnd e outer text = .ok rest)
    (hmore : rest = [] → more.head? ≠ some '\"') :
    stringEnd (e.extend more) (outer.map (Enclosure.extend more) ++ f :: fs) (text ++ more) =
      stringEnd f fs (rest ++ more) := by
  fun_induction stringEnd e outer text with
  | case1 | case4 | case5 | case6 => cases h
  | case2 | case16 =>
    cases h
    rfl
  | case3 | case8 | case13 | case15 | case17 | case18 | case19 =>
    rename_i ih
    exact ih h
  | case7 _ _ _ _ hd _ _ ih =>
    rw [List.cons_append, List.cons_append, Enclosure.extend, stringEnd_backslash, if_neg hd]
    exact ih h
  | case9 _ _ c hquote hbreak text hend hslash hdollar ih =>
    obtain ⟨d, tail, rfl⟩ := List.exists_cons_of_ne_nil (ne_nil_of_stringEnd h)
    rw [List.cons_append, List.cons_append, Enclosure.extend,
      stringEnd_quotes_cons hquote hbreak fun hc => hslash _ _ hc rfl]
    · exact ih h
    · intro _ hc heq
      obtain ⟨rfl, -⟩ := List.cons.inj heq
      exact hdollar _ hc rfl
  | case10 _ _ text hclose =>
    obtain rfl := Except.ok.inj h
    have hhead : (text ++ more).head? ≠ some '\"' := by
      cases text with
      | nil => exact hmore rfl
      | cons d text => exact hclose.2
    rw [List.cons_append, Enclosure.extend, stringEnd_tripleQuotes_quote,
      if_pos ⟨hclose.1, hhead⟩]
    rfl
  | case11 _ _ _ hclose _ _ ih =>
    rw [List.cons_append, Enclosure.extend, stringEnd_tripleQuotes_quote,
      head?_append_of_stringEnd h, if_pos hclose]
    exact ih h
  | case12 _ _ _ _ hopen ih =>
    rw [List.cons_append, Enclosure.extend, stringEnd_tripleQuotes_quote,
      head?_append_of_stringEnd h, if_neg hopen]
    exact ih h
  | case14 _ _ _ c hquote text hdollar ih =>
    obtain ⟨d, tail, rfl⟩ := List.exists_cons_of_ne_nil (ne_nil_of_stringEnd h)
    rw [List.cons_append, List.cons_append, Enclosure.extend, stringEnd_tripleQuotes_cons hquote]
    · exact ih h
    · intro _ hc heq
      obtain ⟨rfl, -⟩ := List.cons.inj heq
      exact hdollar _ hc rfl
  | case20 _ _ _ text hquotes _ _ ih =>
    have hone : text = ['\"'] → more.head? ≠ some '\"' := by
      rintro rfl
      cases h
    rw [List.cons_append, Enclosure.extend,
      stringEnd_template_quote (ne_quotes_append (ne_nil_of_stringEnd h) hquotes hone)]
    exact ih h
  | case21 _ _ _ c hopen hclose text _ hquote ih =>
    rw [List.cons_append, Enclosure.extend, stringEnd_template_cons hopen hclose hquote]
    exact ih h

/-! ## Skipped text -/

theorem stringEnd_template_of_depthAfter {depth depth' : Nat} (hc : c ≠ '\"')
    (h : depthAfter (· == '{') (· == '}') depth c = some depth') :
    stringEnd (.template depth start) outer (c :: text) =
      stringEnd (.template depth' start) outer text := by
  simp only [depthAfter, beq_iff_eq] at h
  split at h
  · next hopen =>
    obtain rfl := Option.some.inj h
    subst hopen
    rfl
  · next hopen =>
    split at h
    · next hclose =>
      obtain rfl := Nat.ppred_eq_some.1 h
      subst hclose
      rfl
    · next hclose =>
      obtain rfl := Option.some.inj h
      exact stringEnd_template_cons hopen hclose hc

/-- A template goes on behind a text without quotes, with the braces open that are open there. -/
theorem stringEnd_template_append {depth depth' : Nat} (hquote : '\"' ∉ text)
    (h : bracesBehind depth text = some depth') :
    stringEnd (.template depth start) outer (text ++ rest) =
      stringEnd (.template depth' start) outer rest := by
  induction text generalizing depth with
  | nil => rw [Option.some.inj h, List.nil_append]
  | cons c text ih =>
    obtain ⟨between, hc, htext⟩ := Option.bind_eq_some_iff.1 h
    rw [List.mem_cons, not_or] at hquote
    rw [List.cons_append, stringEnd_template_of_depthAfter (Ne.symm hquote.1) hc]
    exact ih hquote.2 htext

/-! ## Symbols -/

theorem spelling_append_of_scanSymbol {mark : Symbol}
    (h : scanSymbol c text = .ok (.symbol mark, rest)) : text = mark.spelling.toList ++ rest := by
  rw [scanSymbol] at h
  split at h <;> cases h
  exact (List.prefix_iff_eq_append.1
    (List.isPrefixOf_iff_prefix.1 (isPrefixOf_leading? ‹_›))).symm

/-- A symbol is written as it is spelled. -/
theorem spelling_append_of_nextToken {mark : Symbol}
    (h : nextToken afterJump c text = .ok (.symbol mark, rest)) :
    c :: text = mark.spelling.toList ++ rest := by
  cases firstToken_of_nextToken h with
  | quotedName h => obtain hk | hk := kind_of_scanQuotedName h <;> cases hk
  | atSign h => obtain hk | hk := kind_of_scanAt h <;> cases hk
  | number _ h => obtain hk | hk := kind_of_scanNumber h <;> cases hk
  | word _ h => obtain hk | hk | ⟨word, hk⟩ := kind_of_scanWord h <;> cases hk
  | symbol h => exact spelling_append_of_scanSymbol h

theorem text_of_symbol {mark : Symbol}
    (h : nextToken afterJump c (text ++ rest) = .ok (.symbol mark, rest)) :
    c :: text = mark.spelling.toList :=
  List.append_cancel_right (spelling_append_of_nextToken h)

/-! ## Tokens without marks -/

/-- The characters that the end of a template is told by. -/
def isTemplateMark (c : Char) : Bool := c == '\"' || c == '{' || c == '}'

theorem isTemplateMark_eq_false {p : Char → Bool} (hp : (p '\"' || p '{' || p '}') = false)
    (h : p c) : isTemplateMark c = false := by
  rw [Bool.eq_false_iff]
  intro hmark
  rw [isTemplateMark, Bool.or_eq_true, Bool.or_eq_true, beq_iff_eq, beq_iff_eq, beq_iff_eq] at hmark
  obtain (rfl | rfl) | rfl := hmark <;> simp [h] at hp

theorem bracesBehind_of_plain (h : ∀ c ∈ text, isTemplateMark c = false) :
    '\"' ∉ text ∧ bracesBehind 0 text = some 0 := by
  refine ⟨fun hquote => absurd (h _ hquote) (by decide), ?_⟩
  induction text with
  | nil => rfl
  | cons c text ih =>
    rw [List.forall_mem_cons] at h
    have hc : depthAfter (· == '{') (· == '}') 0 c = some 0 := by
      have hplain := h.1
      simp only [isTemplateMark, Bool.or_eq_false_iff] at hplain
      rw [depthAfter, hplain.1.2, hplain.2]
      rfl
    rw [bracesBehind, depthBehind_cons, hc]
    exact ih h.2

/-- What is taken of characters of a sort, and a few more, is without marks. -/
theorem plain_of_dropWhile {p : Char → Bool} (hp : (p '\"' || p '{' || p '}') = false)
    (more : List Char) (h : (text ++ rest).dropWhile p = more ++ rest)
    (hmore : ∀ d ∈ more, isTemplateMark d = false) : ∀ d ∈ text, isTemplateMark d = false := by
  have hwhole := List.takeWhile_append_dropWhile (p := p) (l := text ++ rest)
  rw [h, ← List.append_assoc] at hwhole
  rw [← List.append_cancel_right hwhole, List.forall_mem_append]
  exact ⟨fun d hd => isTemplateMark_eq_false hp (List.mem_takeWhile_imp hd), hmore⟩

theorem plain_of_scanWord (h : scanWord (text ++ rest) = (k, rest)) :
    ∀ d ∈ text, isTemplateMark d = false := by
  obtain hrest | hrest | hrest := dropWhile_of_scanWord h
  · exact plain_of_dropWhile (by decide) [] hrest (by simp)
  · exact plain_of_dropWhile (by decide) ['@'] hrest (by simp; decide)
  · exact plain_of_dropWhile (by decide) ['?'] hrest (by simp; decide)

theorem plain_of_any (h : text.any isTemplateMark = false) : ∀ d ∈ text, isTemplateMark d = false :=
  fun d hd => Bool.eq_false_iff.2 (List.any_eq_false.1 h d hd)

/-- What follows an `@` is without marks, if it is not in backticks. -/
theorem plain_of_scanAt (h : scanAt afterJump (text ++ rest) = .ok (k, rest)) (htick : '`' ∉ text) :
    ∀ d ∈ text, isTemplateMark d = false := by
  obtain ⟨-, ⟨tail, htail, hrest⟩ | ⟨c, tail, htail, hc, hrest⟩⟩ := scanAt_eq_ok.1 h
  · obtain ⟨front, hfront⟩ := hrest ▸ toBacktick_suffix tail
    have htext : text = '`' :: front ++ ['`'] := List.append_cancel_right
      (show text ++ rest = '`' :: front ++ ['`'] ++ rest by rw [htail, ← hfront]; simp)
    exact absurd (htext ▸ List.mem_append_right _ List.mem_cons_self) htick
  · rw [← List.dropWhile_cons_of_pos (isNamePart_of_isNameStart hc), ← List.singleton_append,
      ← htail] at hrest
    exact plain_of_dropWhile (by decide) [] hrest (by simp)

theorem plain_of_scanSymbol (h : scanSymbol c (text ++ rest) = .ok (k, rest))
    (hbrace : k ≠ .symbol .leftBrace ∧ k ≠ .symbol .rightBrace) :
    ∀ d ∈ text, isTemplateMark d = false := by
  have hspelling : ∀ mark : Symbol, mark ≠ .leftBrace → mark ≠ .rightBrace →
      mark.spelling.toList.any isTemplateMark = false := by
    intro mark hleft hright
    cases mark <;> first | contradiction | decide
  obtain ⟨word, rfl⟩ | ⟨mark, rfl⟩ := kind_of_scanSymbol h
  · rw [scanSymbol] at h
    split at h <;> cases h
    · next hneg =>
      rw [List.append_cancel_right (negatedWord?_eq_some_iff.1 hneg).1]
      exact plain_of_any (by decide)
    · next _ hneg =>
      rw [List.append_cancel_right (negatedWord?_eq_some_iff.1 hneg).1]
      exact plain_of_any (by decide)
  · rw [List.append_cancel_right (spelling_append_of_scanSymbol h)]
    exact plain_of_any (hspelling mark (fun hleft => hbrace.1 (congrArg _ hleft))
      fun hright => hbrace.2 (congrArg _ hright))

/-- A mark of a template stands in no other token than in strings, braces and tokens with marks of
    their own around. -/
theorem plain_of_nextToken {t : Token} {taken : List Char} (htext : t.text = c :: taken)
    (h : nextToken afterJump c (taken ++ rest) = .ok (t.kind, rest))
    (hstring : t.kind ≠ .literal .string)
    (hbrace : t.kind ≠ .symbol .leftBrace ∧ t.kind ≠ .symbol .rightBrace)
    (henclosed : t.isEnclosed = false) : ∀ d ∈ t.text, isTemplateMark d = false := by
  obtain ⟨k, n, text⟩ := t
  dsimp only at htext h hstring hbrace
  subst htext
  by_cases hnumber : k = .literal .integer ∨ k = .literal .float
  · have hcharacters : (characters (numberText k)).any isTemplateMark = false := by
      obtain rfl | rfl := hnumber <;> decide +kernel
    exact fun d hd => plain_of_any hcharacters d
      (mem_characters (mem_numberText_of_nextToken hnumber h) d hd)
  by_cases hblank : k = .trivia .blank
  · rw [hblank] at h
    obtain ⟨hc, hrest⟩ := nextToken_blank h
    rw [List.forall_mem_cons]
    exact ⟨isTemplateMark_eq_false (by decide) hc,
      plain_of_dropWhile (by decide) [] hrest.symm (by simp)⟩
  generalize hwhole : taken ++ rest = whole at h
  cases firstToken_of_nextToken h with
  | blank => exact absurd rfl hblank
  | number _ h => exact absurd (kind_of_scanNumber h) hnumber
  | lineComment | blockComment | character => cases henclosed
  | tripleQuotes | quotes => exact absurd rfl hstring
  | quotedName h =>
    obtain rfl | rfl := kind_of_scanQuotedName h <;>
      simp [Token.isEnclosed] at henclosed
  | atSign h =>
    subst hwhole
    have htick : '`' ∉ '@' :: taken := by
      obtain rfl | rfl := kind_of_scanAt h <;> simpa [Token.isEnclosed] using henclosed
    rw [List.forall_mem_cons]
    exact ⟨by decide, plain_of_scanAt h fun hmem => htick (List.mem_cons_of_mem _ hmem)⟩
  | word _ h =>
    subst hwhole
    exact plain_of_scanWord (by rwa [List.cons_append])
  | symbol h =>
    subst hwhole
    exact plain_of_scanSymbol (by rwa [List.cons_append]) hbrace

/-! ## Skipped tokens -/

/-- A template goes on behind a string. -/
theorem stringEnd_template_string {depth : Nat}
    (h : nextToken afterJump c text = .ok (.literal .string, rest))
    (hmore : rest = [] → more.head? ≠ some '\"') :
    stringEnd (.template depth start) outer (c :: (text ++ more)) =
      stringEnd (.template depth start) outer (rest ++ more) := by
  cases firstToken_of_nextToken h with
  | tripleQuotes h => exact (stringEnd_inside h hmore :)
  | quotes hquotes h =>
    have hone : text = ['\"'] → more.head? ≠ some '\"' := by
      rintro rfl
      exact hmore (Except.ok.inj h).symm
    rw [stringEnd_template_quote (ne_quotes_append (ne_nil_of_stringEnd h) hquotes hone)]
    exact (stringEnd_inside h hmore :)
  | quotedName h => obtain hk | hk := kind_of_scanQuotedName h <;> cases hk
  | atSign h => obtain hk | hk := kind_of_scanAt h <;> cases hk
  | number _ h => obtain hk | hk := kind_of_scanNumber h <;> cases hk
  | word _ h => obtain hk | hk | ⟨word, hk⟩ := kind_of_scanWord h <;> cases hk
  | symbol h => obtain ⟨word, hk⟩ | ⟨mark, hk⟩ := kind_of_scanSymbol h <;> cases hk

/-- A template goes on behind a token that does not close it, in which no mark is hidden. -/
theorem stringEnd_template_token {depth depth' : Nat} {t : Token}
    {taken : List Char} (htext : t.text = c :: taken)
    (h : nextToken afterJump c (taken ++ rest) = .ok (t.kind, rest))
    (hopen : depthAfter (·.kind == .symbol .leftBrace) (·.kind == .symbol .rightBrace) depth t =
      some depth')
    (hmarks : t.hidesMark = false) (hmore : rest = [] → more.head? ≠ some '\"') :
    stringEnd (.template depth start) outer (t.text ++ (rest ++ more)) =
      stringEnd (.template depth' start) outer (rest ++ more) := by
  rw [htext]
  by_cases hstring : t.kind = .literal .string
  · rw [hstring] at h
    obtain rfl : depth = depth' := by simpa [depthAfter, hstring] using hopen
    rw [List.cons_append, ← List.append_assoc]
    exact stringEnd_template_string h hmore
  by_cases hleft : t.kind = .symbol .leftBrace
  · rw [hleft] at h
    obtain ⟨rfl, rfl⟩ := List.cons.inj (text_of_symbol h)
    rw [depthAfter, hleft] at hopen
    exact stringEnd_template_of_depthAfter (by decide) hopen
  by_cases hright : t.kind = .symbol .rightBrace
  · rw [hright] at h
    obtain ⟨rfl, rfl⟩ := List.cons.inj (text_of_symbol h)
    rw [depthAfter, hright] at hopen
    exact stringEnd_template_of_depthAfter (by decide) hopen
  · obtain rfl : depth = depth' := by simpa [depthAfter, hleft, hright] using hopen
    have hplain : '\"' ∉ c :: taken ∧ bracesBehind 0 (c :: taken) = some 0 := by
      rw [← htext]
      cases henclosed : t.isEnclosed with
      | true => simpa [Token.hidesMark, henclosed] using hmarks
      | false => exact bracesBehind_of_plain (plain_of_nextToken htext h hstring ⟨hleft, hright⟩
        henclosed)
    have hdepth := depthBehind_add hplain.2 depth
    rw [Nat.zero_add] at hdepth
    exact stringEnd_template_append hplain.1 hdepth

/-- A template goes on behind tokens of which none closes it, in which no mark is hidden. -/
theorem stringEnd_template_tokens {depth depth' limit n : Nat}
    (hl : text.length ≤ limit) (h : tokensFrom limit afterJump n text = (ts, none))
    (hbraces : braceTokensBehind depth ts = some depth') (hmarks : ∀ t ∈ ts, t.hidesMark = false)
    (hmore : more.head? ≠ some '\"') :
    stringEnd (.template depth start) outer (text ++ more) =
      stringEnd (.template depth' start) outer more := by
  induction ts generalizing text limit afterJump n depth with
  | nil =>
    obtain rfl := tokensFrom_nil_inv hl h
    rw [Option.some.inj hbraces, List.nil_append]
  | cons t ts ih =>
    obtain ⟨c, taken, rest, limit', rfl, htext, hnext, hl', hrest⟩ := tokensFrom_inv hl h
    obtain ⟨between, ht, hts⟩ := Option.bind_eq_some_iff.1 hbraces
    rw [List.append_assoc, ← htext, stringEnd_template_token htext hnext ht
      (hmarks t List.mem_cons_self) fun _ => hmore]
    exact ih hl' hrest hts fun u hu => hmarks u (List.mem_cons_of_mem _ hu)

/-- The text in a template of a string that is nothing else. -/
def inTemplate (text : List Char) : List Char := '\"' :: '$' :: '{' :: (text ++ ['}', '\"'])

theorem tokenize_eq_singleton (h : nextToken false c text = .ok (k, [])) :
    tokenize (c :: text) = .ok [⟨k, 0, c :: text⟩] := by
  have hend (limit n : Nat) : tokensFrom limit k.takesLabel n [] = ([], none) := by
    cases limit <;> rfl
  rw [tokenize_eq_ok, tokenStream, List.length_cons, tokensFrom_cons]
  exact ⟨k, [], [], h, hend _ _, by simp [consumed]⟩

theorem nextToken_inTemplate (h : tokenize text = .ok ts)
    (hbraces : braceTokensBehind 0 ts = some 0) (hmarks : ∀ t ∈ ts, t.hidesMark = false) :
    nextToken false '\"' ('$' :: '{' :: (text ++ ['}', '\"'])) = .ok (.literal .string, []) := by
  have hskip {start : List Char} {outer : List Enclosure} :
      stringEnd (.template 0 start) outer (text ++ ['}', '\"']) =
        stringEnd (.template 0 start) outer ['}', '\"'] :=
    stringEnd_template_tokens (Nat.le_refl _) (tokenize_eq_ok.1 h) hbraces hmarks (by decide)
  exact scanString_eq_ok.2 ⟨rfl, hskip⟩

/-- A text whose braces pair up is one string in a template, and so is that string in a template
    again, to any depth. -/
theorem tokenize_inTemplate (h : tokenize text = .ok ts) (hbraces : braceTokensBehind 0 ts = some 0)
    (hmarks : ∀ t ∈ ts, t.hidesMark = false) (n : Nat) :
    tokenize (inTemplate^[n + 1] text) =
      .ok [⟨.literal .string, 0, inTemplate^[n + 1] text⟩] := by
  induction n generalizing text ts with
  | zero => exact tokenize_eq_singleton (nextToken_inTemplate h hbraces hmarks)
  | succ n ih =>
    have hstring := tokenize_eq_singleton (nextToken_inTemplate h hbraces hmarks)
    rw [Function.iterate_succ_apply]
    exact ih hstring rfl (by simp [Token.hidesMark, Token.isEnclosed])

/-- Braces in a template of a string in a template. -/
theorem tokenize_inTemplate_call :
    tokenize "f{x}".toList = .ok (tokenStream "f{x}".toList).1 ∧
      tokenize (inTemplate^[2] "f{x}".toList) =
        .ok [⟨.literal .string, 0, inTemplate^[2] "f{x}".toList⟩] := by
  have h : tokenize "f{x}".toList = .ok (tokenStream "f{x}".toList).1 := rfl
  exact ⟨h, tokenize_inTemplate h rfl (by decide) 1⟩

/-- The brace in a character literal opens another pair in a template, and the string is left
    open. -/
theorem tokenize_inTemplate_brace :
    tokenize ['\'', '{', '\''] = .ok [⟨.literal .char, 0, ['\'', '{', '\'']⟩] ∧
      braceTokensBehind 0 [⟨.literal .char, 0, ['\'', '{', '\'']⟩] = some 0 ∧
      tokenize (inTemplate ['\'', '{', '\'']) = .error (.openString 7) :=
  ⟨rfl, rfl, rfl⟩

end ResultHints
