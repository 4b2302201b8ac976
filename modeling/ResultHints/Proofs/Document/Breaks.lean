import ResultHints.Proofs.Document.Regular
import ResultHints.Proofs.Grammar.Alike.Statement

/-!
# Line breaks in brackets

Between parentheses and square brackets a line break is a blank like any other, with one
exception: before the parenthesis that opens the arguments of an annotation it matters
where an annotation may stand before a lambda or a declaration, for what follows the
annotations is looked for without regard to brackets. Main statements:

- `parse_of_countedBreaks_eq`: texts whose lexemes are the same, and the line breaks that count,
  and those before the arguments of annotations, have the same tree but for offsets;
- `countedBreaks_eq_of_annotated_lambda`: those before the arguments do matter.
-/

namespace ResultHints

/-! ## What counts of line breaks -/

/-- The lexemes by kind and text, and whether a line break before them counts: not between
    parentheses or square brackets. The brackets `opened` are open before them. -/
def countedBreaks (opened : List TokenKind) : List Lexeme → List (TokenKind × List Char × Bool)
  | [] => []
  | t :: ts =>
    (t.kind, t.text, t.afterBreak && breaksCount opened) ::
      countedBreaks (openAfter opened t.kind) ts

/-- Of the parentheses right after the name of an annotation, whether a line break stands before
    them. -/
def argumentBreaks (named : Bool) : List Lexeme → List Bool
  | [] => []
  | t :: ts =>
    if named && t.kind == .symbol .leftParen then
      t.afterBreak :: argumentBreaks (t.kind == .annotationName) ts
    else argumentBreaks (t.kind == .annotationName) ts

/-- A ruler on which all marks are the same. -/
def Ruler.blank : Ruler := ⟨fun _ => 0, fun _ _ _ => Nat.le_refl 0⟩

/-- Lexemes that differ in no line break that matters are alike, wherever they stand. -/
theorem lexemesAlike_blank {opened : List TokenKind} {named : Bool} {ts ts' : List Lexeme}
    (h : countedBreaks opened ts' = countedBreaks opened ts)
    (harguments : argumentBreaks named ts' = argumentBreaks named ts) :
    LexemesAlike .blank .blank opened named ts ts' := by
  induction ts generalizing opened named ts' with
  | nil =>
    cases ts' with
    | nil => exact .nil
    | cons => cases h
  | cons t ts ih =>
    cases ts' with
    | nil => cases h
    | cons t' ts' =>
      simp only [countedBreaks, List.cons.injEq, Prod.mk.injEq] at h
      obtain ⟨⟨hkind, htext, hbreak⟩, hts⟩ := h
      rw [hkind] at hts
      simp only [argumentBreaks, hkind] at harguments
      refine .cons ⟨hkind, htext, rfl, rfl⟩ (fun hmatters => ?_) (ih hts ?_)
      · rcases hmatters with hcount | ⟨hnamed, hparen⟩
        · simpa [hcount] using hbreak
        · rw [hnamed, hparen] at harguments
          exact (List.cons.inj harguments).1
      · split at harguments
        · exact (List.cons.inj harguments).2
        · exact harguments

/-! ## Documents -/

variable {source source' : List Char} {tokens tokens' : List Token} {r r' : Ruler}

theorem parse_eq_ok_of_file {u : Fragment} {s : Cursor} (h : tokenize source = .ok tokens)
    (hfile : file (.ofTokens source tokens) = .ok u s) :
    Document.parse source = .ok (.ofFragments source tokens [] u s.nextId) := by
  simp only [Document.parse, Document.readAfter, h, expressionsThenFile, hfile, bind, Except.bind,
    pure, Except.pure, Except.map]

theorem parse_eq_error_of_file {fault : Fault} {s : Cursor} (h : tokenize source = .ok tokens)
    (hfile : file (.ofTokens source tokens) = .error fault s) :
    Document.parse source = .error fault := by
  simp only [Document.parse, Document.readAfter, h, expressionsThenFile, hfile, bind, Except.bind,
    pure, Except.pure, Except.map]

/-- Texts that read alike have documents that correspond to each other, or faults that do. -/
theorem parse_alike (h : tokenize source = .ok tokens) (h' : tokenize source' = .ok tokens')
    (halike : Cursor.Alike r r' [] (.ofTokens source tokens) (.ofTokens source' tokens'))
    (hzero : r.mark 0 = r'.mark 0) :
    (∃ u u' size size', Document.parse source = .ok (.ofFragments source tokens [] u size) ∧
      Document.parse source' = .ok (.ofFragments source' tokens' [] u' size') ∧
      FragmentAlike r r' u u') ∨
    ∃ fault fault', Document.parse source = .error fault ∧
      Document.parse source' = .error fault' ∧ r.fault fault = r'.fault fault' := by
  have hagree := agree_file halike hzero
  generalize hfile : file (.ofTokens source tokens) = result at hagree
  generalize hfile' : file (.ofTokens source' tokens') = result' at hagree
  cases hagree with
  | ok hu _ =>
    exact .inl ⟨_, _, _, _, parse_eq_ok_of_file h hfile, parse_eq_ok_of_file h' hfile', hu⟩
  | error hfault =>
    exact .inr ⟨_, _, parse_eq_error_of_file h hfile, parse_eq_error_of_file h' hfile', hfault⟩

/-! ## Line breaks that do not count -/

/-- What a node stands for, but for the text of a type, and its id. -/
def Node.bare (a : Node) : NodeKind × NodeId := (a.kind.untyped, a.id)

/-- Of two texts with the same lexemes, whose line breaks only differ between parentheses or square
    brackets, and not before the arguments of an annotation, both have documents, and their trees
    are the same but for spans and the texts of types; or none has. -/
theorem parse_of_countedBreaks_eq (h : tokenize source = .ok tokens)
    (h' : tokenize source' = .ok tokens')
    (hbreaks : countedBreaks [] (lexemes false tokens') = countedBreaks [] (lexemes false tokens))
    (harguments : argumentBreaks false (lexemes false tokens') =
      argumentBreaks false (lexemes false tokens)) :
    (∃ d d', Document.parse source = .ok d ∧ Document.parse source' = .ok d' ∧
      d.root.tree.map Node.bare = d'.root.tree.map Node.bare) ∨
    ∃ fault fault', Document.parse source = .error fault ∧
      Document.parse source' = .error fault' := by
  have halike : Cursor.Alike .blank .blank [] (.ofTokens source tokens)
      (.ofTokens source' tokens') := ⟨lexemesAlike_blank hbreaks harguments, rfl, rfl, rfl⟩
  obtain ⟨u, u', size, size', hparse, hparse', hu⟩ | ⟨fault, fault', hparse, hparse', -⟩ :=
    parse_alike h h' halike rfl
  · refine .inl ⟨_, _, hparse, hparse', ?_⟩
    have hbare (v : Fragment) : v.map Node.bare = (Ruler.blank.fragment v).map Node.bare := by
      rw [Ruler.fragment, Tree.map_map]
      refine congrArg (Tree.map · v) (funext fun a => ?_)
      cases hk : a.kind <;> simp [Node.bare, Ruler.node, NodeKind.untyped, hk]
    exact (hbare u).trans ((congrArg (Tree.map Node.bare) hu).trans (hbare u').symm)
  · exact .inr ⟨fault, fault', hparse, hparse'⟩

/-- Around the argument of `f({a})` line breaks change nothing. -/
theorem parse_of_breaks_around_argument : ∃ d d',
    Document.parse "f({a})".toList = .ok d ∧ Document.parse "f(\n{a}\n)".toList = .ok d' ∧
      d.root.tree.map Node.bare = d'.root.tree.map Node.bare := by
  have htokens : tokenize "f({a})".toList = .ok (tokenStream "f({a})".toList).1 := by
    decide +kernel
  have htokens' : tokenize "f(\n{a}\n)".toList = .ok (tokenStream "f(\n{a}\n)".toList).1 := by
    decide +kernel
  obtain hboth | ⟨fault, -, hparse, -⟩ := parse_of_countedBreaks_eq htokens htokens'
    (by decide +kernel) (by decide +kernel)
  · exact hboth
  · have hok : (Document.parse "f({a})".toList).isOk = true := by decide +kernel
    rw [hparse] at hok
    cases hok

/-- Before the argument of an annotation a line break between parentheses is not like any other
    blank: with it, no lambda is seen behind the annotation. -/
theorem countedBreaks_eq_of_annotated_lambda :
    ∃ tokens tokens', tokenize "(f @A(1) {b})".toList = .ok tokens ∧
      tokenize "(f @A\n(1) {b})".toList = .ok tokens' ∧
      countedBreaks [] (lexemes false tokens') = countedBreaks [] (lexemes false tokens) ∧
      (Document.parse "(f @A(1) {b})".toList).isOk = true ∧
      (Document.parse "(f @A\n(1) {b})".toList).isOk = false :=
  ⟨(tokenStream "(f @A(1) {b})".toList).1, (tokenStream "(f @A\n(1) {b})".toList).1,
    by decide +kernel, by decide +kernel, by decide +kernel, by decide +kernel, by decide +kernel⟩

end ResultHints
