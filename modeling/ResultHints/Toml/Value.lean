/-!
# TOML values and tables

The values of a TOML text, and the ways in which its lines add to its tables. A
table knows how it came to be (`TableForm`), as that decides what may still be
added to it:

* a key with dots adds to the tables it goes through, unless they have a header
  or are written inline (`insertDotted`);
* a header goes through all tables but inline ones, and may define a table that
  so far only other headers went through (`defineTable`), or add one to an array
  of tables (`appendTable`);
* no key is given a value twice.
-/

namespace ResultHints.Toml

/-- How a table came to be: written between braces, by a header of its own, by
    headers that go through it, or by keys that go through it. -/
inductive TableForm
  | inline
  | defined
  | implied
  | dotted
  deriving DecidableEq

/-- A value. Numbers, dates and times are kept as they are written. -/
inductive Value
  | string (s : String)
  | boolean (b : Bool)
  | plain (written : String)
  | array (items : List Value)
  | table (form : TableForm) (entries : List (String × Value))
  /-- An array that grows with each header in double brackets. -/
  | tables (items : List (List (String × Value)))

/-- The keys of a table with their values. -/
abbrev Entries := List (String × Value)

/-- The entries with the value of a key altered. The alteration is given the value
    so far, if there is one, and may fail. -/
def alter (key : String) (f : Option Value → Option Value) : Entries → Option Entries
  | [] => (f none).map fun v => [(key, v)]
  | (k, v) :: es =>
    if k = key then (f (some v)).map fun v => (k, v) :: es
    else (alter key f es).map fun es => (k, v) :: es

/-- The entries with a value for a key that has none. -/
def insert (key : String) (v : Value) : Entries → Option Entries :=
  alter key fun | none => some v | some _ => none

/-- Some tables with the last one altered. -/
def alterLast (f : Entries → Option Entries) (items : List Entries) : Option (List Entries) := do
  let last ← items.getLast?
  return items.dropLast ++ [← f last]

/-- The entries with a value for a key with dots: `path`, then `key`. -/
def insertDotted (key : String) (v : Value) : (path : List String) → Entries → Option Entries
  | [] => insert key v
  | [k] => alter k fun
    | none => some (.table .dotted [(key, v)])
    | some (.table .dotted es) => (insert key v es).map (.table .dotted)
    | some _ => none
  | k :: path => alter k fun
    | none => (insertDotted key v path []).map (.table .dotted)
    | some (.table .dotted es) => (insertDotted key v path es).map (.table .dotted)
    | some (.table .implied es) => (insertDotted key v path es).map (.table .implied)
    | some (.tables items) => (alterLast (insertDotted key v path) items).map .tables
    | some _ => none

/-- The entries with the table altered that the path of a header leads to. -/
def within (f : Entries → Option Entries) : (path : List String) → Entries → Option Entries
  | [] => f
  | k :: path => alter k fun
    | none => (within f path []).map (.table .implied)
    | some (.table .inline _) => none
    | some (.table form es) => (within f path es).map (.table form)
    | some (.tables items) => (alterLast (within f path) items).map .tables
    | some _ => none

/-- The entries with a table of its own under a key: a new one, or one that only
    headers went through. -/
def defineTable (key : String) : Entries → Option Entries :=
  alter key fun
    | none => some (.table .defined [])
    | some (.table .implied es) => some (.table .defined es)
    | some _ => none

/-- The entries with one more table in the array of tables under a key. -/
def appendTable (key : String) : Entries → Option Entries :=
  alter key fun
    | none => some (.tables [[]])
    | some (.tables items) => some (.tables (items ++ [[]]))
    | some _ => none

end ResultHints.Toml
