import ResultHints.Grammar.File

/-!
# The state of a parser

The grammar is read by a parser that goes over the lexemes of a text. In its state are
the number of lexemes it has taken, the layouts around it and the levels of nesting it
is in, and the nodes it has made, each linked to those below it and to the one above
it. The readers of the grammar have none of this in their cursor: layouts and levels are
arguments there, and nodes are trees.

A parser is run in a *session* (`Session`), which remembers the states the parser was in
before: every change of the state is one step of the session (`Session.to`). A layout
is entered for what is read in it, and left however that ends (`Run.withLayout`); and so
is a level (`Run.nested`).
-/

namespace ResultHints

/-! ## States -/

/-- A node that was made, with the ids of the nodes right below it, and of the node right
    above it once that is made. -/
structure Cell where
  shape : Shape
  children : List NodeId
  parent : Option NodeId
  deriving DecidableEq

/-- The state of a parser: its text and the lexemes of it; how many of them it has taken,
    and where the last one ends; the layouts around it, the innermost first; the number
    of levels it is in; and the nodes it has made, by id. -/
structure Parser where
  source : List Char
  lexemes : List Lexeme
  pos : Nat
  lastStop : Nat
  layouts : List Layout
  depth : Nat
  arena : List Cell
  deriving DecidableEq

namespace Parser

/-- A parser at the beginning of a text with the given tokens. -/
def ofTokens (source : List Char) (tokens : List Token) : Parser :=
  ⟨source, ResultHints.lexemes false tokens, 0, 0, [.lines], 0, []⟩

/-- The cursor where the parser stands. -/
def cursor (p : Parser) : Cursor := ⟨p.source, p.lexemes.drop p.pos, p.lastStop, p.arena.length⟩

/-- The layout that the parser is in. -/
def layout (p : Parser) : Layout := p.layouts.headD .lines

/-- Whether the next lexeme comes after a line break that counts. -/
def atBreak (p : Parser) : Bool := p.cursor.atBreak p.layout

/-- The parser behind the next lexeme. -/
def take (p : Parser) (t : Lexeme) : Parser := { p with pos := p.pos + 1, lastStop := t.stop }

/-- The parser in a layout further in. -/
def push (p : Parser) (m : Layout) : Parser := { p with layouts := m :: p.layouts }

/-- The parser in the layout further out. -/
def pop (p : Parser) : Parser := { p with layouts := p.layouts.tail }

/-- The parser one level further in. -/
def enter (p : Parser) : Parser := { p with depth := p.depth + 1 }

/-- The parser one level further out. -/
def leave (p : Parser) : Parser := { p with depth := p.depth - 1 }

/-- The parser with one more node, above the nodes with the given ids. -/
def make (p : Parser) (shape : Shape) (children : List NodeId) : Parser :=
  { p with arena := p.arena.mapIdx (fun i cell =>
      if i ∈ children then { cell with parent := some p.arena.length } else cell) ++
    [⟨shape, children, none⟩] }

end Parser

/-- A parser, and the states it was in before, the latest first. -/
structure Session where
  now : Parser
  before : List Parser

/-- The session of a parser at the beginning of a text with the given tokens. -/
def Session.ofTokens (source : List Char) (tokens : List Token) : Session :=
  ⟨.ofTokens source tokens, []⟩

/-- The session after a step to another state. -/
def Session.to (s : Session) (p : Parser) : Session := ⟨p, s.now :: s.before⟩

/-- What a parser does in a session. -/
abbrev Run := EStateM Fault Session

namespace Run

/-- The state of the parser. -/
def look : Run Parser := fun s => .ok s.now s

/-! ## Layouts and levels -/

/-- What is done between two steps; the second is taken also if it fails. -/
def between {α : Type} (enter leave : Parser → Parser) (x : Run α) : Run α := fun s =>
  match x (s.to (enter s.now)) with
  | .ok a s => .ok a (s.to (leave s.now))
  | .error e s => .error e (s.to (leave s.now))

/-- What is done in another layout. -/
def withLayout {α : Type} (m : Layout) (x : Run α) : Run α :=
  between (fun p => p.push m) Parser.pop x

/-- What is done one level further in, if there is one more level. -/
def nested {α : Type} (x : Run α) : Run α := fun s =>
  if maxNesting ≤ s.now.depth then .error (.nestingTooDeep s.now.cursor.position) s
  else between Parser.enter Parser.leave x s

/-! ## One lexeme -/

/-- The next lexeme. -/
def next : Run Lexeme := fun s =>
  match s.now.lexemes[s.now.pos]? with
  | none => .error .unexpectedEnd s
  | some t => .ok t (s.to (s.now.take t))

/-- The next lexeme if it is of the given kind. -/
def accept (k : TokenKind) : Run (Option Lexeme) := do
  if (← look).cursor.isAt k then return some (← next) else return none

/-- Takes the given symbol if it comes next, and tells whether it did. -/
def accepts (mark : Symbol) : Run Bool := do
  return (← accept (.symbol mark)).isSome

/-- The next lexeme, which has to be the expected one. -/
def expect (what : Expectation) : Run Lexeme := fun s =>
  match s.now.lexemes[s.now.pos]? with
  | none => .error .unexpectedEnd s
  | some t =>
    if t.kind = what.kind then next s else .error (.expected what t.string t.start) s

/-- The given symbol. -/
def symbol (mark : Symbol) : Run Lexeme := expect (.symbol mark)

/-- The given keyword. -/
def keyword (word : Keyword) : Run Lexeme := expect (.keyword word)

/-- An identifier in the given role. -/
def identifier (role : String) : Run Lexeme := expect (.identifier role)

/-- No rule allows the next lexeme. -/
def unexpected {α : Type} : Run α := fun s => .error s.now.cursor.unexpected s

/-! ## Several lexemes -/

/-- What `item` reads, if the condition holds. -/
def optionally {α : Type} (b : Bool) (item : Run α) : Run (List α) := do
  if b then return [← item] else return []

/-- What `item` reads after the given symbol, if that comes next. -/
def after {α : Type} (mark : Symbol) (item : Run α) : Run (List α) := do
  optionally (← accepts mark) item

/-- At most `limit` semicolons. -/
def semicolonsUpTo : (limit : Nat) → Run Unit
  | 0 => pure ()
  | limit + 1 => do if ← accepts .semicolon then semicolonsUpTo limit else pure ()

/-- All semicolons that come next. -/
def semicolons : Run Unit := do semicolonsUpTo (← look).cursor.size

/-- At most `limit` items with commas between them, up to `stop`. -/
def itemsUpTo {α : Type} (stop : Option TokenKind) (item : Run α) : (limit : Nat) → Run (List α)
  | 0 => pure []
  | limit + 1 => do
    if stop.isSome && (← look).cursor.kind? == stop then return []
    let a ← item
    if ← accepts .comma then return a :: (← itemsUpTo stop item limit) else return [a]

/-- Items with commas between them, up to `stop` or to an item with no comma after it. -/
def items {α : Type} (stop : Option TokenKind) (item : Run α) : Run (List α) := do
  itemsUpTo stop item ((← look).cursor.size + 1)

/-- Items with commas between them up to a closing bracket, which is taken. -/
def itemsTo {α : Type} (close : Symbol) (item : Run α) : Run (List α) := do
  let as ← items (some (.symbol close)) item
  discard (symbol close)
  return as

/-- The end of a statement, of a `when` entry or of a directive. -/
def rowEnd (closing : Option TokenKind) : Run Unit := do
  let p ← look
  if p.cursor.kind?.isNone || p.cursor.kind? == some (.symbol .semicolon) ||
      p.cursor.kind? == closing || p.atBreak then
    pure ()
  else unexpected

/-- At most `limit` items one below the other, up to where `stop` holds. -/
def rowsUpTo {α : Type} (stop : Option TokenKind → Bool) (closing : Option TokenKind)
    (item : Run α) : (limit : Nat) → Run (List α)
  | 0 => pure []
  | limit + 1 => do
    semicolons
    if stop (← look).cursor.kind? then return []
    let a ← item
    rowEnd closing
    return a :: (← rowsUpTo stop closing item limit)

/-- Items one below the other, up to where `stop` holds of the next lexeme. -/
def rows {α : Type} (stop : Option TokenKind → Bool) (closing : Option TokenKind)
    (item : Run α) : Run (List α) := do
  rowsUpTo stop closing item ((← look).cursor.size + 1)

/-- The last of at most `limit` more names with dots before them, or the given one. -/
def lastSegmentUpTo : (limit : Nat) → (name : Lexeme) → Run Lexeme
  | 0, name => pure name
  | limit + 1, name => do
    let s := (← look).cursor
    if s.isAt (.symbol .dot) && s.secondKind? == some .identifier then
      discard next
      lastSegmentUpTo limit (← next)
    else pure name

/-- Names with dots between them, of which the last is given. -/
def qualifiedName (role : String) : Run Lexeme := do
  let name ← identifier role
  lastSegmentUpTo (← look).cursor.size name

/-! ## Nodes -/

/-- The span from an offset to the end of what was read. -/
def spanFrom (start : Nat) : Run Span := do
  return ⟨start, max (← look).lastStop start⟩

/-- Makes a node above some others. It gets the next free id. -/
def make (kind : NodeKind) (span : Span) (children : List Fragment) : Run Fragment := fun s =>
  .ok (.node ⟨⟨kind, span⟩, s.now.arena.length⟩ children)
    (s.to (s.now.make ⟨kind, span⟩ (children.map fun u => u.label.id)))

/-- The node over what was read from an offset on. -/
def close (start : Nat) (kind : NodeKind) (children : List Fragment) : Run Fragment := do
  make kind (← spanFrom start) children

/-- The node over a lexeme. -/
def leaf (kind : NodeKind) (t : Lexeme) : Run Fragment := make kind t.span []

/-- The node over two others. -/
def join (kind : NodeKind) (a b : Fragment) : Run Fragment :=
  make kind ⟨a.span.start, b.span.stop⟩ [a, b]

/-- The node that covers just what its one child does. -/
def wrap (kind : NodeKind) (t : Fragment) : Run Fragment := make kind t.span [t]

end Run

end ResultHints
