/-!
# Kinds of tokens

A source text of the Kotlin subset is a sequence of tokens. A token is *trivia*
(white space or a comment), a name of some sort, a literal, a *keyword* or a
*symbol*; the last two have one fixed spelling each.

* `TokenKind.isTrivia`: the tokens the grammar does not see;
* `TokenKind.takesLabel`: the tokens after which an `@` begins a reference to a
  label rather than an annotated expression.
-/

namespace ResultHints

/-- The sorts of trivia: white space, a comment up to the end of its line, and a
    comment between `/*` and `*/`. -/
inductive TriviaKind
  | blank
  | lineComment
  | blockComment
  deriving DecidableEq

/-- The sorts of literal tokens. -/
inductive LiteralToken
  | integer
  | float
  | string
  | char
  deriving DecidableEq

/-- The reserved words, with `!is`, `!in` and `as?`, which are one token each. -/
inductive Keyword
  | fun_
  | val_
  | var_
  | if_
  | else_
  | when_
  | return_
  | throw_
  | break_
  | continue_
  | this_
  | null_
  | true_
  | false_
  | is_
  | notIs
  | in_
  | notIn
  | as_
  | asSafe
  | for_
  | while_
  | package_
  | import_
  deriving DecidableEq

/-- The operators and the punctuation. -/
inductive Symbol
  | plus
  | minus
  | star
  | slash
  | percent
  | assign
  | plusAssign
  | minusAssign
  | starAssign
  | slashAssign
  | percentAssign
  | equal
  | notEqual
  | identical
  | notIdentical
  | less
  | greater
  | lessEqual
  | greaterEqual
  | andAnd
  | orOr
  | bang
  | bangBang
  | elvis
  | safeAccess
  | dot
  | rangeTo
  | arrow
  | question
  | plusPlus
  | minusMinus
  | leftParen
  | rightParen
  | leftBracket
  | rightBracket
  | leftBrace
  | rightBrace
  | comma
  | semicolon
  | colon
  deriving DecidableEq

/-- The kinds of tokens. A label is defined by `name@` and referred to by `@name`
    right after a jump or `this`; elsewhere `@name` names an annotated use. -/
inductive TokenKind
  | trivia (sort : TriviaKind)
  | identifier
  | labelDefinition
  | labelReference
  | annotationName
  | literal (sort : LiteralToken)
  | keyword (word : Keyword)
  | symbol (mark : Symbol)
  deriving DecidableEq

namespace Keyword

/-- How a keyword is written. -/
def spelling : Keyword → String
  | fun_ => "fun"
  | val_ => "val"
  | var_ => "var"
  | if_ => "if"
  | else_ => "else"
  | when_ => "when"
  | return_ => "return"
  | throw_ => "throw"
  | break_ => "break"
  | continue_ => "continue"
  | this_ => "this"
  | null_ => "null"
  | true_ => "true"
  | false_ => "false"
  | is_ => "is"
  | notIs => "!is"
  | in_ => "in"
  | notIn => "!in"
  | as_ => "as"
  | asSafe => "as?"
  | for_ => "for"
  | while_ => "while"
  | package_ => "package"
  | import_ => "import"

/-- The keywords that are spelled as words. -/
def words : List Keyword :=
  [fun_, val_, var_, if_, else_, when_, return_, throw_, break_, continue_, this_, null_, true_,
    false_, is_, in_, as_, for_, while_, package_, import_]

/-- The keyword that a word is, if it is one. -/
def ofWord? (word : List Char) : Option Keyword := words.find? fun k => k.spelling.toList == word

end Keyword

namespace Symbol

/-- How a symbol is written. -/
def spelling : Symbol → String
  | plus => "+"
  | minus => "-"
  | star => "*"
  | slash => "/"
  | percent => "%"
  | assign => "="
  | plusAssign => "+="
  | minusAssign => "-="
  | starAssign => "*="
  | slashAssign => "/="
  | percentAssign => "%="
  | equal => "=="
  | notEqual => "!="
  | identical => "==="
  | notIdentical => "!=="
  | less => "<"
  | greater => ">"
  | lessEqual => "<="
  | greaterEqual => ">="
  | andAnd => "&&"
  | orOr => "||"
  | bang => "!"
  | bangBang => "!!"
  | elvis => "?:"
  | safeAccess => "?."
  | dot => "."
  | rangeTo => ".."
  | arrow => "->"
  | question => "?"
  | plusPlus => "++"
  | minusMinus => "--"
  | leftParen => "("
  | rightParen => ")"
  | leftBracket => "["
  | rightBracket => "]"
  | leftBrace => "\x7b"
  | rightBrace => "\x7d"
  | comma => ","
  | semicolon => ";"
  | colon => ":"

/-- All symbols, the longer ones before the shorter ones. -/
def longestFirst : List Symbol :=
  [identical, notIdentical,
    equal, notEqual, lessEqual, greaterEqual, andAnd, orOr, bangBang, elvis, safeAccess, rangeTo,
    arrow, plusPlus, minusMinus, plusAssign, minusAssign, starAssign, slashAssign, percentAssign,
    plus, minus, star, slash, percent, assign, less, greater, bang, dot, question, leftParen,
    rightParen, leftBracket, rightBracket, leftBrace, rightBrace, comma, semicolon, colon]

/-- The longest symbol that a text begins with. -/
def leading? (text : List Char) : Option Symbol :=
  longestFirst.find? fun s => s.spelling.toList.isPrefixOf text

end Symbol

namespace TokenKind

/-- White space or a comment. -/
def isTrivia : TokenKind → Bool
  | trivia _ => true
  | _ => false

/-- The jumps and `this`, which may be followed by a reference to a label. -/
def takesLabel : TokenKind → Bool
  | keyword .return_ | keyword .break_ | keyword .continue_ | keyword .this_ => true
  | _ => false

end TokenKind

end ResultHints
