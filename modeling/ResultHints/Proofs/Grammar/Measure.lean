import ResultHints.Proofs.Grammar.Layout
import ResultHints.Proofs.Syntax.Relabel

/-!
# Measuring trees

Which lexemes the nodes of a tree cover is told by the kinds of the nodes and of the lexemes:
the lexemes before the first child of a node, between its children and after the last are the
punctuation that its kind asks for (`NodeKind.pastHead`, `NodeKind.pastLink` and
`NodeKind.pastTail`), so that one can go through a tree and the lexemes side by side
(`measure`). No line break is asked for. Spans are told by the number of lexemes that are left
where a node begins and where it ends.
-/

namespace ResultHints

/-- The names and dots that functions are named by. -/
def TokenKind.isNamePart : TokenKind → Bool
  | identifier | symbol .dot => true
  | _ => false

namespace NodeKind

def isBlock : NodeKind → Bool
  | block => true
  | _ => false

/-- The kinds of nodes that blocks leave their braces to. -/
def hasBraces : NodeKind → Bool
  | functionLiteral => true
  | _ => false

/-- Passes the lexemes of a node before its first child. The braces of a bare block belong to
    what is around it. -/
def pastHead (bare : Bool) : NodeKind → List TokenKind → List TokenKind
  | block, ks => if bare then ks else ks.tail
  | function _, ks => (ks.tail.dropWhile TokenKind.isNamePart).tail
  | forLoop _, ks => ks.drop 4
  | property _ _, ks | argument (some _), ks | whenEntry true, ks => ks.drop 2
  | packageDirective _, ks | importDirective _, ks => pastPath (ks.drop 2)
  | typeReference _, ks => pastType maxNesting ks
  | elseBranch, ks => (pastSemicolons ks).tail
  | this label, ks | jump (.return_ label), ks | jump (.break_ label), ks
  | jump (.continue_ label), ks => ks.drop (label.toList.length + 1)
  | parameter _, ks | functionLiteral, ks | labeled _, ks | annotationEntry _, ks
  | argumentList, ks | nameReference _, ks | literal _, ks | ifElse, ks | condition, ks
  | when_, ks | whenSubject, ks | whenCondition (.typeTest _), ks
  | whenCondition (.membership _), ks | whileLoop, ks | leading _, ks | parenthesized, ks
  | jump .throw_, ks => ks.tail
  | _, ks => ks

/-- Passes the lexemes of a function before the body, behind the parameters or the type of its
    result. -/
def pastSignature (last : Option NodeKind) (ks : List TokenKind) : List TokenKind :=
  if last.any isTypeReference then ks else (pastMark .comma ks).tail

/-- Passes the lexemes of a node before a child, behind the child `last` or the head. -/
def pastLink (parent : NodeKind) (last : Option NodeKind) (child : NodeKind)
    (ks : List TokenKind) : List TokenKind :=
  match parent with
  | file | block => pastSemicolons ks
  | property _ _ | parameter _ => ks.tail
  | function _ =>
    if child.isParameter then if last.isSome then ks.tail else ks
    else if child.isBlock then pastSignature last ks else (pastSignature last ks).tail
  | functionLiteral =>
    if child.isParameter then if last.isSome then ks.tail else ks
    else if last.isSome then (pastMark .comma ks).tail else pastMark .arrow ks
  | whenEntry false =>
    if child.isWhenCondition then if last.isSome then ks.tail else ks
    else (pastMark .comma ks).tail
  | when_ =>
    if child.isWhenEntry then pastSemicolons (if last.any isWhenEntry then ks else ks.tail) else ks
  | argumentList | arrayAccess | qualified _ | binary _ | typeTest _ | cast _ | forLoop _ =>
    if last.isSome then ks.tail else ks
  | _ => ks

/-- Passes the lexemes of a node behind the last child, or behind the head. -/
def pastTail (bare : Bool) (k : NodeKind) (last : Option NodeKind) (ks : List TokenKind) :
    List TokenKind :=
  match k with
  | block => if bare then pastSemicolons ks else (pastSemicolons ks).tail
  | function _ => if last.all isParameter then (pastMark .comma ks).tail else ks
  | argumentList | arrayAccess => (pastMark .comma ks).tail
  | when_ => (pastSemicolons (if last.any isWhenEntry then ks else ks.tail)).tail
  | functionLiteral | condition | whenSubject | trailing _ | parenthesized => ks.tail
  | _ => ks

/-- The kinds of nodes that cover just what their children do. -/
def hugs (bare : Bool) : NodeKind → Bool
  | condition | whenSubject | elseBranch => true
  | block => bare
  | _ => false

end NodeKind

/-! ## Trees -/

/-- The span of a node between the lexemes that are left before it and behind it. -/
def spanOver (hugs : Bool) (before : List TokenKind) (us : List (Tree Span))
    (behind : List TokenKind) : Span :=
  if hugs then
    match us.head?, us.getLast? with
    | some u, some v => ⟨u.label.start, v.label.stop⟩
    | _, _ => .point behind.length
  else ⟨before.length, behind.length⟩

mutual
/-- The spans of a tree before some lexemes, and the lexemes behind it. -/
def measure (bare : Bool) : Tree NodeKind → List TokenKind → Tree Span × List TokenKind
  | .node k ts, ks =>
    let (us, inside) := measureAll k none ts (k.pastHead bare ks)
    let behind := k.pastTail bare (ts.getLast?.map Tree.label) inside
    (.node (spanOver (k.hugs bare) ks us behind) us, behind)

/-- The spans of the children of a node, those behind the child `last` or the head. -/
def measureAll (parent : NodeKind) (last : Option NodeKind) :
    List (Tree NodeKind) → List TokenKind → List (Tree Span) × List TokenKind
  | [], ks => ([], ks)
  | t :: ts, ks =>
    let (u, behind) := measure parent.hasBraces t (parent.pastLink last t.label ks)
    let (us, behind) := measureAll parent (some t.label) ts behind
    (u :: us, behind)
end

theorem measureAll_cons (parent : NodeKind) (last : Option NodeKind) (t : Tree NodeKind)
    (ts : List (Tree NodeKind)) (ks : List TokenKind) :
    measureAll parent last (t :: ts) ks =
      let (u, behind) := measure parent.hasBraces t (parent.pastLink last t.label ks)
      (u :: (measureAll parent (some t.label) ts behind).1,
        (measureAll parent (some t.label) ts behind).2) := rfl

theorem measureAll_append (parent : NodeKind) (last : Option NodeKind)
    (ts : List (Tree NodeKind)) (t : Tree NodeKind) (ks : List TokenKind) :
    ∃ ks', measureAll parent last (ts ++ [t]) ks =
      ((measureAll parent last ts ks).1 ++ [(measure parent.hasBraces t ks').1],
        (measure parent.hasBraces t ks').2) := by
  induction ts generalizing last ks with
  | nil => exact ⟨_, rfl⟩
  | cons s ts ih =>
    obtain ⟨ks', h⟩ := ih (some s.label) (measure parent.hasBraces s
      (parent.pastLink last s.label ks)).2
    refine ⟨ks', ?_⟩
    rw [List.cons_append, measureAll_cons, measureAll_cons]
    dsimp only
    rw [h]
    rfl

/-- A node ends before the lexemes that are left behind it. -/
theorem stop_measure {bare : Bool} {t : Tree NodeKind} (h : t.label.hugs bare = false)
    (ks : List TokenKind) :
    (measure bare t ks).1.label.stop = (measure bare t ks).2.length := by
  obtain ⟨k, ts⟩ := t
  have hk : ¬k.hugs bare = true := by rwa [Bool.not_eq_true]
  rw [measure]
  exact congrArg Span.stop (if_neg hk)

/-- A node without lexemes of its own behind its last child leaves what that leaves. -/
theorem measure_last {bare : Bool} {k : NodeKind}
    (htail : ∀ last ks, k.pastTail bare last ks = ks) (ts : List (Tree NodeKind))
    (t : Tree NodeKind) (ks : List TokenKind) : ∃ us ks',
      (measure bare (.node k (ts ++ [t])) ks).1.children =
        us ++ [(measure k.hasBraces t ks').1] ∧
      (measure bare (.node k (ts ++ [t])) ks).2 = (measure k.hasBraces t ks').2 := by
  obtain ⟨ks', h⟩ := measureAll_append k none ts t (k.pastHead bare ks)
  refine ⟨_, ks', congrArg Prod.fst h, ?_⟩
  rw [measure]
  exact (htail _ _).trans (congrArg Prod.snd h)

/-! ## Types -/

namespace NodeKind

variable (bare : Bool) (k child : NodeKind) (last : Option NodeKind) (ks : List TokenKind)

theorem pastHead_untyped : k.untyped.pastHead bare ks = k.pastHead bare ks := by
  cases k <;> rfl

theorem hugs_untyped : k.untyped.hugs bare = k.hugs bare := by
  cases k <;> rfl

theorem hasBraces_untyped : k.untyped.hasBraces = k.hasBraces := by
  cases k <;> rfl

theorem any_isTypeReference_untyped :
    (last.map untyped).any isTypeReference = last.any isTypeReference := by
  obtain _ | k := last
  · rfl
  · cases k <;> rfl

theorem pastSignature_untyped :
    pastSignature (last.map untyped) ks = pastSignature last ks := by
  rw [pastSignature, pastSignature, any_isTypeReference_untyped]

theorem pastLink_untyped :
    k.untyped.pastLink (last.map untyped) child.untyped ks = k.pastLink last child ks := by
  have hentry : (last.map untyped).any isWhenEntry = last.any isWhenEntry := by
    obtain _ | k := last
    · rfl
    · cases k <;> rfl
  cases k with
  | function | functionLiteral | when_ =>
    simp only [untyped, pastLink, Option.isSome_map, pastSignature_untyped, hentry]
    cases child <;> rfl
  | whenEntry isElse => cases isElse <;> cases child <;> cases last <;> rfl
  | _ => simp only [untyped, pastLink, Option.isSome_map]

theorem pastTail_untyped :
    k.untyped.pastTail bare (last.map untyped) ks = k.pastTail bare last ks := by
  obtain _ | l := last
  · cases k <;> rfl
  · cases k with
    | function | when_ => cases l <;> rfl
    | _ => rfl

end NodeKind

-- The texts of types do not matter.
mutual
theorem measure_map_untyped (bare : Bool) (t : Tree NodeKind) (ks : List TokenKind) :
    measure bare (t.map NodeKind.untyped) ks = measure bare t ks := by
  obtain ⟨k, ts⟩ := t
  have hlast : ((Tree.mapAll NodeKind.untyped ts).getLast?.map Tree.label) =
      (ts.getLast?.map Tree.label).map NodeKind.untyped := by
    rw [Tree.mapAll_eq_map, List.getLast?_map, Option.map_map, Option.map_map]
    exact congrArg (Option.map · _) (funext fun t => Tree.label_map _ t)
  have hall (ks : List TokenKind) : measureAll k.untyped none (Tree.mapAll NodeKind.untyped ts) ks =
      measureAll k none ts ks := measureAll_map_untyped k none ts ks
  rw [Tree.map, measure, measure, k.pastHead_untyped, hall, hlast]
  simp only [k.pastTail_untyped, k.hugs_untyped]

theorem measureAll_map_untyped (parent : NodeKind) (last : Option NodeKind)
    (ts : List (Tree NodeKind)) (ks : List TokenKind) :
    measureAll parent.untyped (last.map NodeKind.untyped) (Tree.mapAll NodeKind.untyped ts) ks =
      measureAll parent last ts ks := by
  match ts with
  | [] => rfl
  | t :: ts =>
    rw [Tree.mapAll, measureAll, measureAll, Tree.label_map, NodeKind.pastLink_untyped,
      NodeKind.hasBraces_untyped, measure_map_untyped]
    dsimp only
    rw [← Option.map_some, measureAll_map_untyped]
end

end ResultHints
