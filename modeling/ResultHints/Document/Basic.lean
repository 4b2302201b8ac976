import ResultHints.Grammar.File
import ResultHints.Tree.Location

/-!
# Documents

A *document* is a source text with its tokens and the syntax trees over it. Every
node has a number of its own, its *id*, by which answers refer to it. One node is
the *root*, at which traversals begin; there may be nodes above it and trees
beside its own.

* `Document.parse`: the document of a source text;
* `Document.readAfter`: the same, after some expressions at its beginning;
* `Document.nodes`: the nodes from the root down, in preorder.
-/

namespace ResultHints

/-- A place in a document. -/
abbrev Place := Location Node

namespace Location

/-- The id of the node at a place. -/
def id (x : Place) : NodeId := x.label.id

/-- What the node at a place stands for. -/
def kind (x : Place) : NodeKind := x.label.kind

/-- The part of the source that the node at a place covers. -/
def span (x : Place) : Span := x.label.span

end Location

/-- A source text with its tokens and its trees, and the number of nodes that were
    made for them. -/
structure Document where
  source : List Char
  tokens : Array Token
  trees : List (Tree Node)
  size : Nat
  root : Place

namespace Document

/-- All places of the document, tree after tree, in preorder. -/
def places (d : Document) : List Place := Location.allIn [] d.trees

/-- The place of the node with the given id. -/
def place? (d : Document) (id : NodeId) : Option Place := d.places.find? fun x => x.id == id

/-- The places from the root down, in preorder. -/
def nodes (d : Document) : List Place := d.root.walk

/-- The part of the source that a node covers. -/
def text (d : Document) (x : Place) : List Char := slice d.source x.span

/-- Whether no line break stands in the text of a node. -/
def isOneLine (d : Document) (x : Place) : Bool := !(d.text x).contains '\n'

end Document

/-! ## Reading -/

/-- What comes of reading some expressions and then a file: the ids of the
    expressions that were read, and the document or the fault. -/
structure Reading where
  leading : List NodeId
  outcome : Except Fault Document

namespace Document

/-- The document of a source text whose trees are `leading` and then `file`, which
    is the root; `size` nodes were made for them. -/
def ofFragments (source : List Char) (tokens : List Token) (leading : List Fragment)
    (file : Fragment) (size : Nat) : Document :=
  ⟨source, tokens.toArray, leading ++ [file], size, ⟨file, []⟩⟩

/-- Reads `count` expressions from the beginning of a text, and the rest of it as
    a file. The expressions are trees of the document beside that of the file.
    Nothing is read of a text that cannot be split into tokens. -/
def readAfter (count : Nat) (source : List Char) : Except Fault Reading := do
  let tokens ← tokenize source
  let (leading, outcome) := expressionsThenFile count (.ofTokens source tokens)
  return ⟨leading.map fun t => t.label.id,
    outcome.map fun (file, s) => ofFragments source tokens leading file s.nextId⟩

/-- The document of a source text. -/
def parse (source : List Char) : Except Fault Document := do
  (← readAfter 0 source).outcome

end Document

end ResultHints
