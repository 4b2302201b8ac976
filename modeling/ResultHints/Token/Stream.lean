import ResultHints.Text.Bytes
import ResultHints.Token.Scan

/-!
# Token streams

The tokens of a source text, in order and without gaps: the texts of the tokens,
joined, are the source again. If at some place no token begins, the stream ends
there, with the fault.

* `tokenStream`: the tokens of a text, and the fault that ends them, if any;
* `tokenize`: the tokens of a text that has no fault.
-/

namespace ResultHints

/-- A token: its kind, the byte offset where it begins, and its text. -/
structure Token where
  kind : TokenKind
  start : Nat
  text : List Char
  deriving DecidableEq

namespace Token

/-- The byte offset where a token ends. -/
def stop (t : Token) : Nat := t.start + byteLength t.text

/-- The span of a token. -/
def span (t : Token) : Span := ⟨t.start, t.stop⟩

/-- The text of a token, as a string. -/
def string (t : Token) : String := String.ofList t.text

end Token

/-- What a text begins with, before the rest that it ends in. -/
def consumed (text rest : List Char) : List Char := text.take (text.length - rest.length)

/-- The fault for a text at the offset `position` that begins with no token. -/
def ScanError.toFault (text : List Char) (position : Nat) : ScanError → Fault
  | unexpected c => .unexpectedCharacter c position
  | openString start => .openString (position + byteLength (consumed text start))
  | openComment => .openComment position
  | badLiteral sort rest => .badLiteral sort (String.ofList (consumed text rest)) position

/-- The tokens of a text that begins at the offset `position`, at most `limit` of
    them, and the fault that ends them. `afterJump` tells whether a token that
    takes a label ends right before the text. -/
def tokensFrom : (limit : Nat) → (afterJump : Bool) → (position : Nat) → List Char →
    List Token × Option Fault
  | 0, _, _, _ => ([], none)
  | _ + 1, _, _, [] => ([], none)
  | limit + 1, afterJump, position, c :: cs =>
    match nextToken afterJump c cs with
    | .error e => ([], some (e.toFault (c :: cs) position))
    | .ok (kind, rest) =>
      let t : Token := ⟨kind, position, consumed (c :: cs) rest⟩
      let (ts, fault) := tokensFrom limit kind.takesLabel t.stop rest
      (t :: ts, fault)

/-- The tokens of a source text, and the fault that ends them, if there is one.
    A token has a character at least, so there are no more tokens than
    characters. -/
def tokenStream (source : List Char) : List Token × Option Fault :=
  tokensFrom source.length false 0 source

/-- The tokens of a source text. -/
def tokenize (source : List Char) : Except Fault (List Token) :=
  match tokenStream source with
  | (ts, none) => .ok ts
  | (_, some fault) => .error fault

end ResultHints
