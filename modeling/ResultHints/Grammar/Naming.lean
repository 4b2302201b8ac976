/-!
# Names and their texts

The names that the texts of tokens stand for: a quoted identifier without its
backticks, and a label or an annotation without its `@`.
-/

namespace ResultHints

/-- A text without the characters at its end that satisfy `p`. -/
def trimEnd (p : Char → Bool) (text : List Char) : List Char :=
  (text.reverse.dropWhile p).reverse

/-- The name that an identifier stands for. -/
def identifierName (text : List Char) : String :=
  String.ofList (trimEnd (· == '`') (text.dropWhile (· == '`')))

/-- The label that `name@` defines. -/
def definedLabel (text : List Char) : String := identifierName (trimEnd (· == '@') text)

/-- The label or annotation that `@name` refers to. -/
def referredName (text : List Char) : String := identifierName (text.dropWhile (· == '@'))

end ResultHints
