import ResultHints.Grammar.File

/-!
# Passing lexemes

Names, types and semicolons are read without nodes for their parts. Where they end is told
by the kinds of the lexemes ahead alone: by no line break, and by no level of nesting, if
there are enough levels. Each of the functions here gives the kinds that are left.
-/

namespace ResultHints

/-- Passes a symbol if it comes next, and an item after it. -/
def pastAfter (mark : Symbol) (item : List TokenKind → List TokenKind) :
    List TokenKind → List TokenKind
  | [] => []
  | k :: ks => if k = .symbol mark then item ks else k :: ks

/-- Passes a symbol if it comes next. -/
abbrev pastMark (mark : Symbol) : List TokenKind → List TokenKind := pastAfter mark id

/-- Passes all semicolons that come next. -/
def pastSemicolons (ks : List TokenKind) : List TokenKind :=
  ks.dropWhile (· == .symbol .semicolon)

/-- Passes at most `limit` items with commas between them, up to `stop`. -/
def pastItems (stop : Option TokenKind) (item : List TokenKind → List TokenKind) :
    (limit : Nat) → List TokenKind → List TokenKind
  | 0, ks => ks
  | limit + 1, ks =>
    if stop.isSome && ks.head? == stop then ks
    else pastAfter .comma (pastItems stop item limit) (item ks)

/-- Passes a dot and a name, and so on. -/
def pastSegments : List TokenKind → List TokenKind
  | .symbol .dot :: .identifier :: ks => pastSegments ks
  | ks => ks

/-- Passes a dot and a name, and so on; a dot and a star end it. -/
def pastPath : List TokenKind → List TokenKind
  | .symbol .dot :: .symbol .star :: ks => ks
  | .symbol .dot :: .identifier :: ks => pastPath ks
  | ks => ks

/-- Passes a type with at most `limit` levels of types in it. -/
def pastType : (limit : Nat) → List TokenKind → List TokenKind
  | 0, ks => ks
  | limit + 1, .symbol .leftParen :: ks =>
    pastMark .question (pastAfter .arrow (pastType limit)
      (pastItems (some (.symbol .rightParen)) (pastType limit) (ks.length + 1) ks).tail)
  | _ + 1, .symbol .star :: ks => ks
  | limit + 1, ks =>
    pastMark .question (pastAfter .less
      (fun ks => (pastItems none (pastType limit) (ks.length + 1) ks).tail)
      (pastSegments ks.tail))

end ResultHints
