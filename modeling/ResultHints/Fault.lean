import ResultHints.Token.Kind

/-!
# Faults

What can be wrong with a source text, and how it is told. The tokens of a text
may be ill-formed, or their sequence may fit no rule of the grammar.

* `Fault.message`: the text shown for a fault;
* `Fault.position?`: the byte offset it points at, if it has one.
-/

namespace ResultHints

/-- The literals, and the quoted identifiers, that may be ill-formed. -/
inductive LiteralSort
  | number
  | character
  | identifier
  deriving DecidableEq

/-- What the grammar requires at a place: a symbol, a keyword, or an identifier
    in some role. -/
inductive Expectation
  | symbol (mark : Symbol)
  | keyword (word : Keyword)
  | identifier (role : String)
  deriving DecidableEq

/-- What is wrong with a source text. -/
inductive Fault
  /-- No token begins with this character. -/
  | unexpectedCharacter (c : Char) (position : Nat)
  /-- A string is not closed; it begins at the position. -/
  | openString (position : Nat)
  /-- A comment is not closed; it begins at the position. -/
  | openComment (position : Nat)
  /-- A literal is ill-formed; `text` is what was read of it. -/
  | badLiteral (sort : LiteralSort) (text : String) (position : Nat)
  /-- A token stands where no rule allows it. -/
  | unexpectedToken (text : String) (position : Nat)
  /-- A token stands where a certain other one is required. -/
  | expected (what : Expectation) (found : String) (position : Nat)
  /-- Constructs are nested beyond the limit. -/
  | nestingTooDeep (position : Nat)
  /-- The text ends inside a construct. -/
  | unexpectedEnd
  deriving DecidableEq

/-- The word for a sort of literal. -/
def LiteralSort.describe : LiteralSort → String
  | number => "number"
  | character => "character"
  | identifier => "identifier"

/-- What is required, in words: fixed spellings stand between quotes. -/
def Expectation.describe : Expectation → String
  | symbol mark => "'" ++ mark.spelling ++ "'"
  | keyword word => "'" ++ word.spelling ++ "'"
  | identifier role => role

namespace Fault

/-- The byte offset that a fault points at, if it has one. -/
def position? : Fault → Option Nat
  | unexpectedCharacter _ p | openString p | openComment p | badLiteral _ _ p
  | unexpectedToken _ p | expected _ _ p | nestingTooDeep p => some p
  | unexpectedEnd => none

/-- The text shown for a fault. -/
def message : Fault → String
  | unexpectedCharacter c p =>
    "Unexpected character '" ++ c.toString ++ "' at position " ++ toString p
  | openString p => "Unclosed string literal starting at position " ++ toString p
  | openComment p => "Unclosed block comment starting at position " ++ toString p
  | badLiteral sort text p =>
    "Invalid " ++ sort.describe ++ " literal at position " ++ toString p ++ ": " ++ text
  | unexpectedToken text p => "Unexpected token '" ++ text ++ "' at position " ++ toString p
  | expected what found p =>
    "Expected " ++ what.describe ++ ", found '" ++ found ++ "' at position " ++ toString p
  | nestingTooDeep p => "Nesting too deep at position " ++ toString p
  | unexpectedEnd => "Unexpected end of input"

end Fault

end ResultHints
