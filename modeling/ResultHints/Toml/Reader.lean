import ResultHints.Toml.DateTime
import ResultHints.Toml.Number
import ResultHints.Toml.Quotes
import ResultHints.Toml.Value

/-!
# Reading TOML

A TOML text is a sequence of lines: blank ones, keys with values, and headers,
which tell to what table the keys below them belong. `Toml.read?` gives the
entries of the table that the whole text is, or nothing if some line is not well
formed or does not fit the lines before it.
-/

namespace ResultHints.Toml

/-! ## Keys -/

/-- The characters of keys that are not quoted. -/
def isKeyChar (c : Char) : Bool := c.isAlphanum || c == '-' || c == '_'

/-- A key without dots. -/
def simpleKey : List Char → Option (String × List Char)
  | '\"' :: cs => (basicString (cs.length + 1) cs).map fun (s, cs) => (String.ofList s, cs)
  | '\'' :: cs => (literalString cs).map fun (s, cs) => (String.ofList s, cs)
  | cs =>
    let s := cs.takeWhile isKeyChar
    if s.isEmpty then none else some (String.ofList s, cs.drop s.length)

/-- The parts that a key has at most, and the brackets and braces that a value is
    in at most. -/
def maxDepth : Nat := 80

/-- A key of at most `limit` parts with dots between them: the path, the last part,
    and the text after the blanks that follow. -/
def keyParts : (limit : Nat) → List Char → Option ((List String × String) × List Char)
  | 0, _ => none
  | limit + 1, cs => do
    let (k, cs) ← simpleKey (cs.dropWhile isSpace)
    match cs.dropWhile isSpace with
    | '.' :: cs =>
      let ((path, last), cs) ← keyParts limit cs
      return ((k :: path, last), cs)
    | cs => return (([], k), cs)

/-- A key, with dots or without. -/
def key (cs : List Char) : Option ((List String × String) × List Char) := keyParts maxDepth cs

/-! ## Values -/

/-- The characters of numbers, dates and times, blanks aside. -/
def isWordChar (c : Char) : Bool := c.isAlphanum || ['+', '-', '_', '.', ':'].contains c

/-- A number, a date or a time. -/
def isPlainWord (w : List Char) : Bool := isNumber w || isDate w || isTime w || isDateTime w

/-- A truth value, a number, a date or a time. A date and a time may have a blank
    between them. -/
def word (cs : List Char) : Option (Value × List Char) := do
  let w := cs.takeWhile isWordChar
  let rest := cs.drop w.length
  let time := (rest.drop 1).takeWhile isWordChar
  if w == ['t', 'r', 'u', 'e'] then return (.boolean true, rest)
  else if w == ['f', 'a', 'l', 's', 'e'] then return (.boolean false, rest)
  else if isDate w && rest.head? == some ' ' && time.head?.any Char.isDigit then
    if isDateTime (w ++ ' ' :: time) then
      return (.plain (String.ofList (w ++ ' ' :: time)), rest.drop (time.length + 1))
    else none
  else if isPlainWord w then return (.plain (String.ofList w), rest)
  else none

/-- The text after a comment, up to the end of its line. -/
def skipComment : List Char → Option (List Char)
  | '#' :: cs =>
    let s := cs.takeWhile isPrintable
    some (cs.drop s.length)
  | cs => some cs

/-- The text after blanks, line breaks and comments. At most `limit` of them are
    skipped. -/
def skipLines : (limit : Nat) → List Char → Option (List Char)
  | 0, cs => some cs
  | limit + 1, cs => do
    let cs ← skipComment (cs.dropWhile isSpace)
    match afterBreak? cs with
    | some cs => skipLines limit cs
    | none => return cs

mutual
/-- A value, at most `limit` values deep and long, with at most `depth` brackets and
    braces around what it holds. -/
def value : (limit depth : Nat) → List Char → Option (Value × List Char)
  | 0, _, _ => none
  | limit + 1, depth, cs => match depth, cs with
    | 0, '[' :: _ | 0, '{' :: _ => none
    | depth + 1, '[' :: cs => (arrayItems limit depth cs).map fun (vs, cs) => (.array vs, cs)
    | depth + 1, '{' :: cs =>
      (inlineEntries limit depth [] cs).map fun (es, cs) => (.table .inline es, cs)
    | _, '\"' :: _ | _, '\'' :: _ => (string cs).map fun (s, cs) => (.string s, cs)
    | _, _ => word cs

/-- The items of an array, after the opening bracket or a comma. -/
def arrayItems : (limit depth : Nat) → List Char → Option (List Value × List Char)
  | 0, _, _ => none
  | limit + 1, depth, cs => do
    match ← skipLines cs.length cs with
    | ']' :: cs => return ([], cs)
    | cs =>
      let (v, cs) ← value limit depth cs
      match ← skipLines cs.length cs with
      | ',' :: cs =>
        let (vs, cs) ← arrayItems limit depth cs
        return (v :: vs, cs)
      | ']' :: cs => return ([v], cs)
      | _ => none

/-- The entries of an inline table, after the opening brace or a comma, added to
    those before. Lines may end at any place but within a key. -/
def inlineEntries : (limit depth : Nat) → Entries → List Char → Option (Entries × List Char)
  | 0, _, _, _ => none
  | limit + 1, depth, es, cs => do
    match ← skipLines cs.length cs with
    | '}' :: cs => return (es, cs)
    | cs =>
      let ((path, k), cs) ← key cs
      match ← skipLines cs.length cs with
      | '=' :: cs =>
        let (v, cs) ← value limit depth (← skipLines cs.length cs)
        let es ← insertDotted k v path es
        match ← skipLines cs.length cs with
        | ',' :: cs => inlineEntries limit depth es cs
        | '}' :: cs => return (es, cs)
        | _ => none
      | _ => none
end

/-! ## Lines -/

/-- What is read so far: the entries of the whole text, and the path of the table
    that keys belong to. -/
structure State where
  entries : Entries
  here : List String

/-- The rest of a header, after its closing brackets are read off. -/
def header (close : List Char) (define : String → Entries → Option Entries) (st : State)
    (cs : List Char) : Option (State × List Char) := do
  let ((path, k), cs) ← key cs
  if close.isPrefixOf cs then
    return (⟨← within (define k) path st.entries, path ++ [k]⟩, cs.drop close.length)
  else none

/-- A key with its value. -/
def entry (st : State) (cs : List Char) : Option (State × List Char) := do
  let ((path, k), cs) ← key cs
  match cs with
  | '=' :: cs =>
    let cs := cs.dropWhile isSpace
    let (v, cs) ← value (2 * cs.length + 1) maxDepth cs
    return (⟨← within (insertDotted k v path) st.here st.entries, st.here⟩, cs)
  | _ => none

/-- What a line holds but for blanks and a comment. -/
def lineContent (st : State) : List Char → Option (State × List Char)
  | '[' :: '[' :: cs => header [']', ']'] appendTable st cs
  | '[' :: cs => header [']'] defineTable st cs
  | cs =>
    if cs.isEmpty || cs.head? == some '#' || (afterBreak? cs).isSome then some (st, cs)
    else entry st cs

/-- At most `limit` lines. -/
def lines : (limit : Nat) → State → List Char → Option State
  | 0, _, _ => none
  | limit + 1, st, cs => do
    let (st, cs) ← lineContent st (cs.dropWhile isSpace)
    let cs ← skipComment (cs.dropWhile isSpace)
    match cs, afterBreak? cs with
    | [], _ => return st
    | _, some cs => lines limit st cs
    | _, none => none

/-- The entries of a TOML text. A byte order mark at its beginning is left out. -/
def read? (text : List Char) : Option Entries := do
  let text := match text with
    | '\uFEFF' :: cs => cs
    | cs => cs
  return (← lines (text.length + 1) ⟨[], []⟩ text).entries

end ResultHints.Toml
