import ResultHints.Grammar.Expression
import ResultHints.Grammar.Naming

/-!
# Arguments

The arguments of calls and of annotations, between parentheses, and the lambda
that may follow a call. Whether a lambda follows is seen before it is read: there
may be annotations and one label before its brace (`Cursor.lambdaAhead`).
-/

namespace ResultHints

open Reader

/-! ## Looking ahead -/

/-- Whether a kind of token opens a bracket. -/
def TokenKind.opens : TokenKind → Bool
  | symbol .leftParen | symbol .leftBracket | symbol .leftBrace => true
  | _ => false

/-- Whether a kind of token closes a bracket. -/
def TokenKind.closes : TokenKind → Bool
  | symbol .rightParen | symbol .rightBracket | symbol .rightBrace => true
  | _ => false

/-- Where one is among annotation entries: before one, right after the name of
    one, or in the arguments of one, inside `depth` more brackets. -/
inductive EntryPlace
  | before
  | named
  | arguments (depth : Nat)

/-- The lexemes after the annotation entries that some lexemes begin with or are
    in the midst of. Arguments begin on the line of their entry. -/
def afterAnnotations : EntryPlace → List Lexeme → List Lexeme
  | _, [] => []
  | .arguments depth, t :: ts =>
    if t.kind.opens then afterAnnotations (.arguments (depth + 1)) ts
    else if t.kind.closes then match depth with
      | 0 => afterAnnotations .before ts
      | depth + 1 => afterAnnotations (.arguments depth) ts
    else afterAnnotations (.arguments depth) ts
  | .named, t :: ts =>
    if t.kind = .annotationName then afterAnnotations .named ts
    else if t.kind = .symbol .leftParen ∧ ¬t.afterBreak then afterAnnotations (.arguments 0) ts
    else t :: ts
  | .before, t :: ts =>
    if t.kind = .annotationName then afterAnnotations .named ts else t :: ts
  termination_by structural _ ts => ts

/-- Whether a lambda comes next, annotated or labeled or plain. -/
def Cursor.lambdaAhead (s : Cursor) : Bool :=
  match kinds (afterAnnotations .before s.rest) with
  | .labelDefinition :: .symbol .leftBrace :: _ => true
  | .symbol .leftBrace :: _ => true
  | _ => false

/-! ## Arguments -/

variable (inner : Inner)

/-- An argument between parentheses, with a name if an equals sign follows one. -/
def argument : Reader Fragment := do
  let s ← get
  let start := s.position
  if s.isAt .identifier && s.secondKind? == some (.symbol .assign) then
    let name ← next
    discard next
    let value ← expression inner .free
    close start (.argument (some (identifierName name.text))) [value]
  else
    let value ← expression inner .free
    close start (.argument none) [value]

/-- Arguments between parentheses. -/
def argumentList : Reader Fragment := do
  let opening ← symbol .leftParen
  let arguments ← itemsTo .rightParen (argument inner)
  close opening.start .argumentList arguments

/-- At most `limit` annotation entries. -/
def annotationEntriesUpTo (m : Layout) : (limit : Nat) → Reader (List Fragment)
  | 0 => pure []
  | limit + 1 => do
    match ← accept .annotationName with
    | none => pure []
    | some t =>
      let s ← get
      let hasArguments := s.isAt (.symbol .leftParen) && !s.atBreak m
      let arguments ← optionally hasArguments (argumentList inner)
      let entry ← close t.start (.annotationEntry (referredName t.text)) arguments
      return entry :: (← annotationEntriesUpTo m limit)

/-- All annotation entries that come next. -/
def annotationEntries (m : Layout) : Reader (List Fragment) := do
  annotationEntriesUpTo inner m (← get).size

/-- A lambda after a call. -/
def lambdaArgument (m : Layout) : Reader Fragment := do
  let start := (← get).position
  let lambda ← inner.wrappedLambda m
  close start .lambdaArgument [lambda]

/-- The call of `callee`, if arguments or a lambda follow on its line. -/
def callOf? (m : Layout) (callee : Fragment) : Reader (Option Fragment) := do
  let s ← get
  if s.atBreak m then return none
  let arguments ← optionally (s.isAt (.symbol .leftParen)) (argumentList inner)
  let s ← get
  let lambdas ← optionally (!s.atBreak m && s.lambdaAhead) (lambdaArgument inner m)
  if (arguments ++ lambdas).isEmpty then return none
  return some (← close callee.span.start .call (callee :: (arguments ++ lambdas)))

end ResultHints
