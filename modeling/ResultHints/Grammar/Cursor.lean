import ResultHints.Syntax.Kind
import ResultHints.Token.Stream
import ResultHints.Tree.Basic

/-!
# Reading tokens

The grammar reads the tokens of a source text that are no trivia, the *lexemes*,
from left to right. A *cursor* stands between two lexemes; a *reader* moves it
forward over those it takes and gives what they stand for, or tells the fault
that stops it.

Whether a line break counts depends on the brackets around the cursor: it may
end a statement in *lines*, and is like any other blank in *free* layout
(`Layout`). Layout is an argument of the readers, never a part of the cursor, so
what is read inside brackets cannot change it for what follows them.

What is read are trees of nodes. Every node gets the next free id when it is made,
after the nodes below it (`Reader.make`); so ids tell the order in which nodes are
made, whether they end up in a tree or not.
-/

namespace ResultHints

/-- Whether a line break may end a statement (`lines`) or is a mere blank
    (`free`). -/
inductive Layout
  | lines
  | free
  deriving DecidableEq

/-- A token the grammar sees, and whether a line break stands between it and the
    one before. -/
structure Lexeme extends Token where
  afterBreak : Bool
  deriving DecidableEq

/-- The kinds of some lexemes. -/
def kinds (ts : List Lexeme) : List TokenKind := ts.map fun t => t.kind

/-- The lexemes among some tokens. `broken` tells whether a line break stands
    between them and the lexeme before. -/
def lexemes (broken : Bool) : List Token → List Lexeme
  | [] => []
  | t :: ts =>
    if t.kind.isTrivia then lexemes (broken || t.text.contains '\n') ts
    else ⟨t, broken⟩ :: lexemes false ts

/-- A tree that was read. -/
abbrev Fragment := Tree Node

/-- The span of the root of a fragment. -/
def Fragment.span (t : Fragment) : Span := t.label.span

/-- A place in a source text: the lexemes that follow, and the offset where the
    one before ends (zero before the first); and the next free id there. -/
structure Cursor where
  source : List Char
  rest : List Lexeme
  lastStop : Nat
  nextId : NodeId

/-- A reader of lexemes. -/
abbrev Reader := EStateM Fault Cursor

namespace Cursor

/-- The kind of the next lexeme. -/
def kind? (s : Cursor) : Option TokenKind := s.rest.head?.map fun t => t.kind

/-- The kind of the lexeme after the next. -/
def secondKind? (s : Cursor) : Option TokenKind := s.rest[1]?.map fun t => t.kind

/-- Whether the next lexeme is of the given kind. -/
def isAt (k : TokenKind) (s : Cursor) : Bool := s.kind? == some k

/-- The offset where the next lexeme begins; at the end, that of the text. -/
def position (s : Cursor) : Nat := (s.rest.head?.map fun t => t.start).getD (byteLength s.source)

/-- Whether the next lexeme comes after a line break that counts. -/
def atBreak (m : Layout) (s : Cursor) : Bool := m == .lines && s.rest.head?.any (·.afterBreak)

/-- The fault of a lexeme that no rule allows. -/
def unexpected (s : Cursor) : Fault :=
  match s.rest with
  | [] => .unexpectedEnd
  | t :: _ => .unexpectedToken t.string t.start

/-- A bound on the number of lexemes that can be taken. -/
def size (s : Cursor) : Nat := s.rest.length

end Cursor

/-- The kind of token that is required. -/
def Expectation.kind : Expectation → TokenKind
  | symbol mark => .symbol mark
  | keyword word => .keyword word
  | identifier _ => .identifier

namespace Reader

/-! ## One lexeme -/

/-- The next lexeme. -/
def next : Reader Lexeme := fun s =>
  match s.rest with
  | [] => .error .unexpectedEnd s
  | t :: ts => .ok t { s with rest := ts, lastStop := t.stop }

/-- The next lexeme if it is of the given kind. -/
def accept (k : TokenKind) : Reader (Option Lexeme) := fun s =>
  match s.rest with
  | [] => .ok none s
  | t :: ts =>
    if t.kind = k then .ok (some t) { s with rest := ts, lastStop := t.stop } else .ok none s

/-- Takes the given symbol if it comes next, and tells whether it did. -/
def accepts (mark : Symbol) : Reader Bool := do
  return (← accept (.symbol mark)).isSome

/-- The next lexeme, which has to be the expected one. -/
def expect (what : Expectation) : Reader Lexeme := fun s =>
  match s.rest with
  | [] => .error .unexpectedEnd s
  | t :: ts =>
    if t.kind = what.kind then .ok t { s with rest := ts, lastStop := t.stop }
    else .error (.expected what t.string t.start) s

/-- The given symbol. -/
def symbol (mark : Symbol) : Reader Lexeme := expect (.symbol mark)

/-- The given keyword. -/
def keyword (word : Keyword) : Reader Lexeme := expect (.keyword word)

/-- An identifier in the given role. -/
def identifier (role : String) : Reader Lexeme := expect (.identifier role)

/-- No rule allows the next lexeme. -/
def unexpected {α : Type} : Reader α := fun s => .error s.unexpected s

/-! ## Several lexemes -/

/-- What `item` reads, if the condition holds. -/
def optionally {α : Type} (b : Bool) (item : Reader α) : Reader (List α) := do
  if b then return [← item] else return []

/-- What `item` reads after the given symbol, if that comes next. -/
def after {α : Type} (mark : Symbol) (item : Reader α) : Reader (List α) := do
  optionally (← accepts mark) item

/-- All semicolons that come next. -/
def semicolons : Reader Unit := fun s =>
  let skipped := s.rest.takeWhile fun t => t.kind == .symbol .semicolon
  .ok () { s with
    rest := s.rest.drop skipped.length
    lastStop := (skipped.getLast?.map fun t => t.stop).getD s.lastStop }

/-- At most `limit` items with commas between them. They end at `stop`, or at an
    item with no comma after it. -/
def itemsUpTo {α : Type} (stop : Option TokenKind) (item : Reader α) :
    (limit : Nat) → Reader (List α)
  | 0 => pure []
  | limit + 1 => do
    if stop.isSome && (← get).kind? == stop then return []
    let a ← item
    if ← accepts .comma then return a :: (← itemsUpTo stop item limit) else return [a]

/-- Items with commas between them. They end at `stop`, or at an item with no
    comma after it. Every item takes a lexeme, so none is left out. -/
def items {α : Type} (stop : Option TokenKind) (item : Reader α) : Reader (List α) := do
  itemsUpTo stop item ((← get).size + 1)

/-- Items with commas between them up to a closing bracket, which is taken. There
    may be no item, and a comma after the last. -/
def itemsTo {α : Type} (close : Symbol) (item : Reader α) : Reader (List α) := do
  let as ← items (some (.symbol close)) item
  discard (symbol close)
  return as

/-- The end of a statement, of a `when` entry or of a directive: `closing`, a
    semicolon, a line break, or the end of the text. -/
def rowEnd (closing : Option TokenKind) : Reader Unit := do
  let s ← get
  if s.kind?.isNone || s.kind? == some (.symbol .semicolon) || s.kind? == closing ||
      s.atBreak .lines then
    pure ()
  else unexpected

/-- At most `limit` items one below the other, with semicolons between them or
    line breaks. They end where `stop` holds of the next lexeme. -/
def rowsUpTo {α : Type} (stop : Option TokenKind → Bool) (closing : Option TokenKind)
    (item : Reader α) : (limit : Nat) → Reader (List α)
  | 0 => pure []
  | limit + 1 => do
    semicolons
    if stop (← get).kind? then return []
    let a ← item
    rowEnd closing
    return a :: (← rowsUpTo stop closing item limit)

/-- Items one below the other, with semicolons between them or line breaks. They
    end where `stop` holds of the next lexeme. Every item takes a lexeme, so none
    is left out. -/
def rows {α : Type} (stop : Option TokenKind → Bool) (closing : Option TokenKind)
    (item : Reader α) : Reader (List α) := do
  rowsUpTo stop closing item ((← get).size + 1)

/-- The name after a name and a dot, and so on: the last of the names, which
    begin with the given one, and the lexemes after it. -/
def lastSegment (name : Lexeme) : List Lexeme → Lexeme × List Lexeme
  | dot :: t :: ts =>
    if dot.kind = .symbol .dot ∧ t.kind = .identifier then lastSegment t ts
    else (name, dot :: t :: ts)
  | ts => (name, ts)

/-- Names with dots between them, of which the last is given. -/
def qualifiedName (role : String) : Reader Lexeme := do
  let name ← identifier role
  fun s =>
    let (last, ts) := lastSegment name s.rest
    .ok last { s with rest := ts, lastStop := last.stop }

/-! ## Nodes -/

/-- The span from an offset to the end of what was read. -/
def spanFrom (start : Nat) : Reader Span := fun s => .ok ⟨start, max s.lastStop start⟩ s

/-- Makes a node above some others. It gets the next free id. -/
def make (kind : NodeKind) (span : Span) (children : List Fragment) : Reader Fragment := fun s =>
  .ok (.node ⟨⟨kind, span⟩, s.nextId⟩ children) { s with nextId := s.nextId + 1 }

/-- The node over what was read from an offset on. -/
def close (start : Nat) (kind : NodeKind) (children : List Fragment) : Reader Fragment := do
  make kind (← spanFrom start) children

/-- The node over a lexeme. -/
def leaf (kind : NodeKind) (t : Lexeme) : Reader Fragment := make kind t.span []

/-- The node over two others. -/
def join (kind : NodeKind) (a b : Fragment) : Reader Fragment :=
  make kind ⟨a.span.start, b.span.stop⟩ [a, b]

/-- The node that covers just what its one child does. -/
def wrap (kind : NodeKind) (t : Fragment) : Reader Fragment := make kind t.span [t]

end Reader

end ResultHints
