import ResultHints.Fault
import ResultHints.Text.Blank
import ResultHints.Text.Digit
import ResultHints.Text.Name
import ResultHints.Token.Enclosed

/-!
# The next token

What token a text begins with, and what follows it (`nextToken`). Tokens are as
long as they can be: a name takes all name characters, a symbol is the longest
one that fits, and a number that runs into a name is no token at all.

A text may begin with no token. The error then tells the cause, and the text at
the place that shows it, from which the caller finds the byte offset.
-/

namespace ResultHints

/-- Why a text begins with no token. -/
inductive ScanError
  /-- No token begins with its first character. -/
  | unexpected (c : Char)
  /-- A string is not closed; `start` is the text from its opening quote. -/
  | openString (start : List Char)
  /-- A comment is not closed. -/
  | openComment
  /-- A literal is ill-formed; `rest` is the text after what was read of it. -/
  | badLiteral (sort : LiteralSort) (rest : List Char)

/-- A kind of token, and the text after the token. -/
abbrev Scanned := Except ScanError (TokenKind × List Char)

/-! ## Numbers -/

/-- A text without its first character, if that is of the given sort. -/
def skipOne (p : Char → Bool) : List Char → List Char
  | [] => []
  | c :: cs => if p c then cs else c :: cs

/-- The digits of base ten, and the underscore that may stand among them. -/
def isNumberPart (c : Char) : Bool := c.isDigit || c == '_'

/-- The text after the suffixes of an integer: `u` or `U`, then `L`. -/
def afterIntegerSuffix (text : List Char) : List Char :=
  skipOne (· == 'L') (skipOne (fun c => c == 'u' || c == 'U') text)

/-- The text after a fraction, if the text begins with one: a point with a digit
    right after it, and the digits that follow. -/
def afterFraction? : List Char → Option (List Char)
  | '.' :: c :: rest => if c.isDigit then some (rest.dropWhile isNumberPart) else none
  | _ => none

/-- The text after the mark and the sign of an exponent, if it begins with one. -/
def afterExponentMark? : List Char → Option (List Char)
  | c :: rest =>
    if c == 'e' || c == 'E' then some (skipOne (fun c => c == '+' || c == '-') rest) else none
  | [] => none

/-- The number in base sixteen or two after its `0x` or `0b`. The digits of both
    are read alike. -/
def scanRadix (digits : List Char) : Scanned :=
  let isPart c := isHexDigit c || c == '_'
  if digits.head?.any isPart then
    .ok (.literal .integer, afterIntegerSuffix (digits.dropWhile isPart))
  else .error (.badLiteral .number digits)

/-- The rest of a number after its exponent: a suffix, and no name character. -/
def scanNumberEnd (isFloat : Bool) (text : List Char) : Scanned :=
  let hasMark := text.head?.any fun c => c == 'f' || c == 'F'
  let rest := if hasMark then text.drop 1 else if isFloat then text else afterIntegerSuffix text
  if rest.head?.any isNamePart then .error (.badLiteral .number (rest.dropWhile isNamePart))
  else .ok (.literal (if isFloat || hasMark then .float else .integer), rest)

/-- The number in base ten that a text begins with. -/
def scanDecimal (text : List Char) : Scanned :=
  let whole := text.dropWhile isNumberPart
  let fraction := afterFraction? whole
  let mantissa := fraction.getD whole
  match afterExponentMark? mantissa with
  | none => scanNumberEnd fraction.isSome mantissa
  | some digits =>
    if digits.head?.any Char.isDigit then scanNumberEnd true (digits.dropWhile Char.isDigit)
    else .error (.badLiteral .number digits)

/-- The number that a text begins with. -/
def scanNumber : List Char → Scanned
  | '0' :: c :: digits =>
    if c == 'x' || c == 'X' || c == 'b' || c == 'B' then scanRadix digits
    else scanDecimal ('0' :: c :: digits)
  | text => scanDecimal text

/-! ## Characters -/

/-- The text after `n` hexadecimal digits, or from the first character that is
    none. -/
def afterHexDigits : Nat → List Char → Except (List Char) (List Char)
  | 0, text => .ok text
  | _ + 1, [] => .error []
  | n + 1, c :: rest => if isHexDigit c then afterHexDigits n rest else .error (c :: rest)

/-- The text after the one character, plain or with a backslash, between the
    quotes of a character literal. -/
def afterCharacter : List Char → Except (List Char) (List Char)
  | '\\' :: 'u' :: rest => afterHexDigits 4 rest
  | '\\' :: c :: rest => if c = '\n' then .error (c :: rest) else .ok rest
  | ['\\'] => .error []
  | c :: rest => if c = '\'' ∨ c = '\n' then .error (c :: rest) else .ok rest
  | [] => .error []

/-- The character literal after its opening quote. -/
def scanCharacter (text : List Char) : Scanned :=
  match afterCharacter text with
  | .ok ('\'' :: rest) => .ok (.literal .char, rest)
  | .ok rest | .error rest => .error (.badLiteral .character rest)

/-! ## Names -/

/-- The text from the closing backtick of a quoted name, or from the end of the
    line if there is none. -/
def toBacktick (text : List Char) : List Char := text.dropWhile fun c => c != '`' && c != '\n'

/-- An identifier, or the definition of a label if an `@` touches it. -/
def scanNameEnd : List Char → TokenKind × List Char
  | '@' :: rest => (.labelDefinition, rest)
  | rest => (.identifier, rest)

/-- The identifier in backticks after the opening one. -/
def scanQuotedName (text : List Char) : Scanned :=
  match toBacktick text with
  | '`' :: rest => .ok (scanNameEnd rest)
  | rest => .error (.badLiteral .identifier rest)

/-- The word that a text begins with: a keyword or an identifier. `as` takes a
    question mark along, unless that one begins a `?.`. -/
def scanWord (text : List Char) : TokenKind × List Char :=
  let rest := text.dropWhile isNamePart
  match Keyword.ofWord? (text.takeWhile isNamePart), rest with
  | none, rest => scanNameEnd rest
  | some .as_, '?' :: '.' :: rest => (.keyword .as_, '?' :: '.' :: rest)
  | some .as_, '?' :: rest => (.keyword .asSafe, rest)
  | some k, rest => (.keyword k, rest)

/-- The token after an `@`: a name, plain or in backticks, that refers to a label
    if the `@` touches a jump. -/
def scanAt (afterJump : Bool) (text : List Char) : Scanned :=
  let kind := if afterJump then .labelReference else .annotationName
  match text with
  | '`' :: text => match toBacktick text with
    | '`' :: rest => .ok (kind, rest)
    | _ => .error (.unexpected '@')
  | c :: rest =>
    if isNameStart c then .ok (kind, rest.dropWhile isNamePart) else .error (.unexpected '@')
  | [] => .error (.unexpected '@')

/-! ## Symbols -/

/-- The text after `!is` or `!in`, if the text begins with it and no name goes on
    there. -/
def negatedWord? (k : Keyword) (text : List Char) : Option (List Char) :=
  if k.spelling.toList.isPrefixOf text then
    let rest := text.drop k.spelling.toList.length
    if rest.head?.any isNamePart then none else some rest
  else none

/-- The symbol that a text beginning with `c` begins with, or a negated word. -/
def scanSymbol (c : Char) (text : List Char) : Scanned :=
  match negatedWord? .notIs text, negatedWord? .notIn text, Symbol.leading? text with
  | some rest, _, _ => .ok (.keyword .notIs, rest)
  | none, some rest, _ => .ok (.keyword .notIn, rest)
  | none, none, some s => .ok (.symbol s, text.drop s.spelling.toList.length)
  | none, none, none => .error (.unexpected c)

/-! ## All tokens -/

/-- The string literal after its opening quotes. -/
def scanString (e : Enclosure) (text : List Char) : Scanned :=
  match stringEnd e [] text with
  | .ok rest => .ok (.literal .string, rest)
  | .error start => .error (.openString start)

/-- The comment between `/*` and `*/` after its opening. -/
def scanBlockComment (text : List Char) : Scanned :=
  match commentEnd 0 text with
  | some rest => .ok (.trivia .blockComment, rest)
  | none => .error .openComment

/-- The token that the text `c :: rest` begins with. `afterJump` tells whether a
    token that takes a label ends right before it. -/
def nextToken (afterJump : Bool) (c : Char) (rest : List Char) : Scanned :=
  if isBlank c then .ok (.trivia .blank, rest.dropWhile isBlank)
  else match c, rest with
    | '/', '/' :: rest => .ok (.trivia .lineComment, rest.dropWhile (· != '\n'))
    | '/', '*' :: rest => scanBlockComment rest
    | '\"', '\"' :: '\"' :: inside => scanString (.tripleQuotes 0 (c :: rest)) inside
    | '\"', rest => scanString (.quotes (c :: rest)) rest
    | '\'', rest => scanCharacter rest
    | '`', rest => scanQuotedName rest
    | '@', rest => scanAt afterJump rest
    | c, rest =>
      if c.isDigit then scanNumber (c :: rest)
      else if isNameStart c then .ok (scanWord (c :: rest))
      else scanSymbol c (c :: rest)

end ResultHints
