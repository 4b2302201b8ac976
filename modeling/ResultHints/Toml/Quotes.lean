import ResultHints.Text.Digit

/-!
# Strings in TOML

The four forms of strings: in double quotes, where a backslash begins an escape,
and in single quotes, where every character stands for itself; on one line, or
over several between three quotes. Every function here takes the text after the
opening quotes and gives the string and the text after the closing ones.
-/

namespace ResultHints.Toml

/-- Whether a character may stand in a string or a comment: a tabulator, or none
    of the controls of ASCII. -/
def isPrintable (c : Char) : Bool := c == '\t' || (0x20 ≤ c.toNat && c.toNat != 0x7F)

/-- A space or a tabulator. -/
def isSpace (c : Char) : Bool := c == ' ' || c == '\t'

/-- The text after a line break, if the text begins with one. -/
def afterBreak? : List Char → Option (List Char)
  | '\n' :: cs => some cs
  | '\r' :: '\n' :: cs => some cs
  | _ => none

/-- The character whose code point the first `count` characters of a text write in
    base sixteen. -/
def codePoint (count : Nat) (cs : List Char) : Option (Char × List Char) :=
  let digits := cs.take count
  let n := hexValue digits
  if digits.length = count && digits.all isHexDigit && n.isValidChar then
    some (Char.ofNat n, cs.drop count)
  else none

/-- The character that an escape stands for, after the backslash. -/
def escape : List Char → Option (Char × List Char)
  | 'b' :: cs => some ('\x08', cs)
  | 't' :: cs => some ('\t', cs)
  | 'n' :: cs => some ('\n', cs)
  | 'e' :: cs => some ('\x1b', cs)
  | 'f' :: cs => some ('\x0c', cs)
  | 'r' :: cs => some ('\r', cs)
  | '\"' :: cs => some ('\"', cs)
  | '\\' :: cs => some ('\\', cs)
  | 'x' :: cs => codePoint 2 cs
  | 'u' :: cs => codePoint 4 cs
  | 'U' :: cs => codePoint 8 cs
  | _ => none

/-- The text after the blanks and line breaks that a text begins with. -/
def skipBlanks : List Char → List Char
  | ' ' :: cs => skipBlanks cs
  | '\t' :: cs => skipBlanks cs
  | '\n' :: cs => skipBlanks cs
  | '\r' :: '\n' :: cs => skipBlanks cs
  | cs => cs

/-- A string in double quotes on one line. No more than `limit` characters are
    read. -/
def basicString : (limit : Nat) → List Char → Option (List Char × List Char)
  | 0, _ => none
  | limit + 1, cs => match cs with
    | [] => none
    | '\"' :: cs => some ([], cs)
    | '\\' :: cs => do
      let (c, cs) ← escape cs
      let (s, cs) ← basicString limit cs
      return (c :: s, cs)
    | c :: cs => do
      if !isPrintable c then none
      let (s, cs) ← basicString limit cs
      return (c :: s, cs)

/-- A string in single quotes on one line. -/
def literalString (cs : List Char) : Option (List Char × List Char) :=
  let s := cs.takeWhile (· != '\'')
  if s.all isPrintable && s.length < cs.length then some (s, cs.drop (s.length + 1)) else none

/-- The closing of a string over several lines, by three quotes of the given sort.
    Up to two more of them before belong to the string. -/
def closing? (quote : Char) (cs : List Char) : Option (List Char × List Char) :=
  let run := (cs.takeWhile (· == quote)).length
  if 3 ≤ run then
    let kept := min run 5 - 3
    some (List.replicate kept quote, cs.drop (kept + 3))
  else none

/-- A string over several lines, in double quotes if `escapes` is set and else in
    single ones. No more than `limit` characters are read. A backslash at the end
    of a line joins it to the text that follows. -/
def manyLines (escapes : Bool) : (limit : Nat) → List Char → Option (List Char × List Char)
  | 0, _ => none
  | limit + 1, cs =>
    match closing? (if escapes then '\"' else '\'') cs, afterBreak? cs, cs with
    | some r, _, _ => some r
    | none, some cs, _ => do
      let (s, cs) ← manyLines escapes limit cs
      return ('\n' :: s, cs)
    | none, none, [] => none
    | none, none, c :: cs =>
      if escapes && c == '\\' then
        if (afterBreak? (cs.dropWhile isSpace)).isSome then manyLines escapes limit (skipBlanks cs)
        else do
          let (c, cs) ← escape cs
          let (s, cs) ← manyLines escapes limit cs
          return (c :: s, cs)
      else do
        if !isPrintable c then none
        let (s, cs) ← manyLines escapes limit cs
        return (c :: s, cs)

/-- A string of any form, if a text begins with one. A line break right after
    three opening quotes is left out. -/
def string : List Char → Option (String × List Char)
  | '\"' :: '\"' :: '\"' :: cs => wrap (manyLines true (cs.length + 1) ((afterBreak? cs).getD cs))
  | '\'' :: '\'' :: '\'' :: cs => wrap (manyLines false (cs.length + 1) ((afterBreak? cs).getD cs))
  | '\"' :: cs => wrap (basicString (cs.length + 1) cs)
  | '\'' :: cs => wrap (literalString cs)
  | _ => none
where
  wrap (r : Option (List Char × List Char)) : Option (String × List Char) :=
    r.map fun (s, cs) => (String.ofList s, cs)

end ResultHints.Toml
