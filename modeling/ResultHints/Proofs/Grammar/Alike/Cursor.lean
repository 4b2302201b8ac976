import Mathlib.Order.MinMax
import ResultHints.Proofs.Grammar.Taken
import ResultHints.Proofs.Syntax.Relabel

/-!
# Texts that read alike

Two texts with the same lexemes are read alike, wherever these stand in the texts and
whether or not line breaks stand before them where none counts: between parentheses and
square brackets. Only one rule looks for line breaks there, that of the arguments of an
annotation (`Cursor.lambdaAhead`). So two cursors are *alike* if the lexemes ahead of
them are the same, with the same line breaks wherever one may count (`Cursor.Alike`).

Where lexemes stand is compared through *rulers*: what has the same mark on the ruler of
each text stands at corresponding places. A ruler on which all marks are the same compares
nothing but the lexemes.

What is seen ahead of cursors that are alike is the same.
-/

namespace ResultHints

/-! ## Rulers -/

/-- A scale for the offsets of a text that keeps their order. -/
structure Ruler where
  mark : Nat → Nat
  mono : Monotone mark

namespace Ruler

variable (r : Ruler)

theorem mark_max (a b : Nat) : r.mark (max a b) = max (r.mark a) (r.mark b) :=
  r.mono.map_max

/-- The span on the scale of the ruler. -/
def span (s : Span) : Span := ⟨r.mark s.start, r.mark s.stop⟩

/-- The fault on the scale of the ruler. -/
def fault : Fault → Fault
  | .unexpectedCharacter c p => .unexpectedCharacter c (r.mark p)
  | .openString p => .openString (r.mark p)
  | .openComment p => .openComment (r.mark p)
  | .badLiteral sort text p => .badLiteral sort text (r.mark p)
  | .unexpectedToken text p => .unexpectedToken text (r.mark p)
  | .expected what found p => .expected what found (r.mark p)
  | .nestingTooDeep p => .nestingTooDeep (r.mark p)
  | .unexpectedEnd => .unexpectedEnd

/-- The node on the scale of the ruler, without the text of a type. -/
def node (a : Node) : Node := ⟨⟨a.kind.untyped, r.span a.span⟩, a.id⟩

/-- The fragment on the scale of the ruler, without the texts of types. -/
def fragment (u : Fragment) : Fragment := u.map r.node

theorem fragment_node (a : Node) (us : List Fragment) :
    r.fragment (.node a us) = .node (r.node a) (us.map r.fragment) :=
  Tree.map_node ..

theorem span_fragment (u : Fragment) : (r.fragment u).span = r.span u.span := by
  rw [Fragment.span, fragment, Tree.label_map]
  rfl

end Ruler

/-! ## Brackets -/

/-- Whether line breaks count inside the given brackets, the innermost first. -/
def breaksCount : List TokenKind → Bool
  | .symbol .leftParen :: _ | .symbol .leftBracket :: _ => false
  | _ => true

/-- The brackets that are open after a token. -/
def openAfter (opened : List TokenKind) (k : TokenKind) : List TokenKind :=
  if k.opens then k :: opened else if k.closes then opened.tail else opened

theorem openAfter_of_not_isBracket {k : TokenKind} (h : k.isBracket = false)
    (opened : List TokenKind) : openAfter opened k = opened := by
  obtain ⟨hopens, hcloses⟩ := Bool.or_eq_false_iff.1 h
  rw [openAfter, if_neg (by simp [hopens]), if_neg (by simp [hcloses])]

/-- Line breaks count in a layout inside the given brackets if they do in the text. -/
def Layout.Fits (m : Layout) (opened : List TokenKind) : Prop := m = .lines → breaksCount opened

theorem Layout.fits_free (opened : List TokenKind) : Layout.free.Fits opened := nofun

theorem Layout.fits_lines {opened : List TokenKind} (h : breaksCount opened) :
    Layout.lines.Fits opened := fun _ => h

/-! ## Lexemes -/

variable {r r' : Ruler}

/-- The lexemes are the same and stand at corresponding places. -/
structure Lexeme.Alike (r r' : Ruler) (t t' : Lexeme) : Prop where
  kind : t'.kind = t.kind
  text : t'.text = t.text
  start : r.mark t.start = r'.mark t'.start
  stop : r.mark t.stop = r'.mark t'.stop

/-- The lexemes are the same and stand at corresponding places; with the same line breaks where
    these count, and before the arguments of an annotation. Of the brackets that are open the
    innermost comes first; `named` is true after the name of an annotation. -/
inductive LexemesAlike (r r' : Ruler) :
    (opened : List TokenKind) → (named : Bool) → List Lexeme → List Lexeme → Prop
  | nil {opened : List TokenKind} {named : Bool} : LexemesAlike r r' opened named [] []
  | cons {opened : List TokenKind} {named : Bool} {t t' : Lexeme} {ts ts' : List Lexeme} :
    t.Alike r r' t' →
    (breaksCount opened ∨ named ∧ t.kind = .symbol .leftParen → t'.afterBreak = t.afterBreak) →
    LexemesAlike r r' (openAfter opened t.kind) (t.kind == .annotationName) ts ts' →
    LexemesAlike r r' opened named (t :: ts) (t' :: ts')

namespace LexemesAlike

variable {opened : List TokenKind} {named : Bool} {ts ts' : List Lexeme}

theorem kinds_eq (h : LexemesAlike r r' opened named ts ts') : kinds ts' = kinds ts := by
  induction h with
  | nil => rfl
  | cons ht _ _ ih => exact congrArg₂ List.cons ht.kind ih

theorem length_eq (h : LexemesAlike r r' opened named ts ts') : ts'.length = ts.length := by
  have hlength := congrArg List.length h.kinds_eq
  rwa [kinds, kinds, List.length_map, List.length_map] at hlength

/-- What is required behind the name of an annotation is required nowhere else. -/
theorem unnamed (h : LexemesAlike r r' opened named ts ts') :
    LexemesAlike r r' opened false ts ts' := by
  cases h with
  | nil => exact .nil
  | cons ht hbreak hts => exact .cons ht (fun hor => hbreak (hor.imp_right nofun)) hts

/-- The same lexemes come after the annotation entries. -/
theorem kinds_afterAnnotations (h : LexemesAlike r r' opened named ts ts') (place : EntryPlace)
    (hplace : place = .named → named) :
    kinds (afterAnnotations place ts') = kinds (afterAnnotations place ts) := by
  induction h generalizing place with
  | nil => rfl
  | @cons opened named t t' ts ts' ht hbreak hts ih =>
    have hall : kinds (t' :: ts') = kinds (t :: ts) := (LexemesAlike.cons ht hbreak hts).kinds_eq
    cases place with
    | before =>
      rw [afterAnnotations.eq_def .before (t' :: ts'), afterAnnotations.eq_def .before (t :: ts)]
      dsimp only
      rw [ht.kind]
      split
      · next hk => exact ih .named fun _ => beq_iff_eq.2 hk
      · exact hall
    | named =>
      rw [afterAnnotations.eq_def .named (t' :: ts'), afterAnnotations.eq_def .named (t :: ts)]
      dsimp only
      rw [ht.kind]
      split
      · next hk => exact ih .named fun _ => beq_iff_eq.2 hk
      · by_cases hk : t.kind = .symbol .leftParen
        · rw [hbreak (.inr ⟨hplace rfl, hk⟩)]
          split
          · exact ih (.arguments 0) (by simp)
          · exact hall
        · rw [if_neg fun hand => hk hand.1, if_neg fun hand => hk hand.1]
          exact hall
    | arguments depth =>
      rw [afterAnnotations.eq_def (.arguments depth) (t' :: ts'),
        afterAnnotations.eq_def (.arguments depth) (t :: ts)]
      dsimp only
      rw [ht.kind]
      split
      · exact ih _ (by simp)
      · split
        · cases depth with
          | zero => exact ih .before (by simp)
          | succ depth => exact ih (.arguments depth) (by simp)
        · exact ih _ (by simp)

end LexemesAlike

/-! ## Cursors -/

/-- The cursors stand at corresponding places of texts that read alike. -/
structure Cursor.Alike (r r' : Ruler) (opened : List TokenKind) (s s' : Cursor) : Prop where
  rest : LexemesAlike r r' opened false s.rest s'.rest
  lastStop : r.mark s.lastStop = r'.mark s'.lastStop
  nextId : s'.nextId = s.nextId
  finish : r.mark (byteLength s.source) = r'.mark (byteLength s'.source)

namespace Cursor.Alike

variable {opened : List TokenKind} {s s' : Cursor} {m : Layout}

/-- Ahead of both cursors is nothing, or the same lexeme. -/
theorem next_cases (h : s.Alike r r' opened s') :
    (s.rest = [] ∧ s'.rest = []) ∨
      ∃ t ts t' ts', s.rest = t :: ts ∧ s'.rest = t' :: ts' ∧ t.Alike r r' t' ∧
        (breaksCount opened → t'.afterBreak = t.afterBreak) ∧
        LexemesAlike r r' (openAfter opened t.kind) false ts ts' := by
  obtain ⟨source, rest, stop, i⟩ := s
  obtain ⟨source', rest', stop', i'⟩ := s'
  obtain ⟨hrest, -, -, -⟩ := h
  cases hrest with
  | nil => exact .inl ⟨rfl, rfl⟩
  | cons ht hbreak hts =>
    exact .inr ⟨_, _, _, _, rfl, rfl, ht, fun hcount => hbreak (.inl hcount), hts.unnamed⟩

theorem kinds_rest (h : s.Alike r r' opened s') : kinds s'.rest = kinds s.rest := h.rest.kinds_eq

theorem kind? (h : s.Alike r r' opened s') : s'.kind? = s.kind? := by
  rw [Cursor.kind?, Cursor.kind?, ← List.head?_map, ← List.head?_map]
  exact congrArg List.head? h.kinds_rest

theorem secondKind? (h : s.Alike r r' opened s') : s'.secondKind? = s.secondKind? := by
  rw [Cursor.secondKind?, Cursor.secondKind?, ← List.getElem?_map, ← List.getElem?_map]
  exact congrArg (·[1]?) h.kinds_rest

theorem isAt (h : s.Alike r r' opened s') (k : TokenKind) : s'.isAt k = s.isAt k := by
  rw [Cursor.isAt, Cursor.isAt, h.kind?]

theorem size (h : s.Alike r r' opened s') : s'.size = s.size := h.rest.length_eq

theorem position (h : s.Alike r r' opened s') : r.mark s.position = r'.mark s'.position := by
  rw [Cursor.position, Cursor.position]
  obtain ⟨hrest, hrest'⟩ | ⟨t, ts, t', ts', hrest, hrest', ht, -, -⟩ := h.next_cases
  · rw [hrest, hrest']
    exact h.finish
  · rw [hrest, hrest']
    exact ht.start

theorem unexpected (h : s.Alike r r' opened s') :
    r.fault s.unexpected = r'.fault s'.unexpected := by
  rw [Cursor.unexpected, Cursor.unexpected]
  obtain ⟨hrest, hrest'⟩ | ⟨t, ts, t', ts', hrest, hrest', ht, -, -⟩ := h.next_cases
  · rw [hrest, hrest']
    rfl
  · rw [hrest, hrest']
    exact congrArg₂ Fault.unexpectedToken (congrArg String.ofList ht.text.symm) ht.start

theorem atBreak (h : s.Alike r r' opened s') (hm : m.Fits opened) : s'.atBreak m = s.atBreak m := by
  cases m with
  | free => rfl
  | lines =>
    rw [Cursor.atBreak, Cursor.atBreak]
    obtain ⟨hrest, hrest'⟩ | ⟨t, ts, t', ts', hrest, hrest', -, hbreak, -⟩ := h.next_cases
    · rw [hrest, hrest']
    · rw [hrest, hrest', List.head?_cons, List.head?_cons, Option.any_some, Option.any_some,
        hbreak (hm rfl)]

theorem elseAhead (h : s.Alike r r' opened s') : s'.elseAhead = s.elseAhead := by
  rw [Cursor.elseAhead, Cursor.elseAhead, h.isAt, h.isAt, h.secondKind?]

theorem atClosing (h : s.Alike r r' opened s') : s'.atClosing = s.atClosing := by
  rw [Cursor.atClosing, Cursor.atClosing, h.kind?]

theorem atValueEnd (h : s.Alike r r' opened s') (hm : m.Fits opened) :
    s'.atValueEnd m = s.atValueEnd m := by
  rw [Cursor.atValueEnd, Cursor.atValueEnd, h.atBreak hm, h.atClosing, h.isAt, h.isAt]

theorem connective? (h : s.Alike r r' opened s') (hm : m.Fits opened) (least : Precedence) :
    s'.connective? m least = s.connective? m least := by
  rw [Cursor.connective?, Cursor.connective?, h.kind?, h.atBreak hm]

theorem lambdaAhead (h : s.Alike r r' opened s') : s'.lambdaAhead = s.lambdaAhead := by
  rw [Cursor.lambdaAhead, Cursor.lambdaAhead, h.rest.kinds_afterAnnotations .before (by simp)]

theorem declarationAhead (h : s.Alike r r' opened s') :
    s'.declarationAhead = s.declarationAhead := by
  rw [Cursor.declarationAhead, Cursor.declarationAhead,
    h.rest.kinds_afterAnnotations .before (by simp)]

/-- What parameters are told by are the kinds of lexemes. -/
theorem parametersAhead_eq (ts : List Lexeme) {ts' : List Lexeme} (h : kinds ts' = kinds ts) :
    ResultHints.parametersAhead ts' = ResultHints.parametersAhead ts := by
  induction ts generalizing ts' with
  | nil => rw [List.map_eq_nil_iff.1 h]
  | cons t ts ih =>
    obtain ⟨t', ts', rfl, hk, hts⟩ := List.map_eq_cons_iff.1 h
    rw [ResultHints.parametersAhead, ResultHints.parametersAhead, hk, ih hts]

theorem parametersAhead (h : s.Alike r r' opened s') :
    ResultHints.parametersAhead s'.rest = ResultHints.parametersAhead s.rest :=
  parametersAhead_eq s.rest h.kinds_rest

end Cursor.Alike

end ResultHints
