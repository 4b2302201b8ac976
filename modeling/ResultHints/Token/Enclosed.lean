/-!
# Comments, strings and characters

The ends of the tokens that have an opening and a closing mark. Every function
here takes the text after what was already read and gives the text after the
token, or, if the token is not closed, the text at the place that tells so.

* A comment is closed when every comment inside it is closed (`commentEnd`).
* A string is in single or in triple quotes. It may hold templates between
  `${` and `}`, in which braces pair up and strings are strings again; so the
  end of a string is found with the list of what is still open around the place
  that is read (`stringEnd`).
-/

namespace ResultHints

/-- The text after a comment inside which `depth` more comments are open;
    nothing if some comment is not closed. -/
def commentEnd : (depth : Nat) → List Char → Option (List Char)
  | depth, '*' :: '/' :: rest => match depth with
    | 0 => some rest
    | depth + 1 => commentEnd depth rest
  | depth, '/' :: '*' :: rest => commentEnd (depth + 1) rest
  | depth, _ :: rest => commentEnd depth rest
  | _, [] => none

/-- What a place inside a string may be enclosed by: the quotes of a string, or
    the braces of a template with `depth` more pairs of braces open inside it.
    `start` is the text from the opening quote of the innermost string, for a
    template of the string around it. In triple quotes, `run` quotes stand right
    before the place, not counting the opening ones. -/
inductive Enclosure
  | quotes (start : List Char)
  | tripleQuotes (run : Nat) (start : List Char)
  | template (depth : Nat) (start : List Char)

/-- The text from the opening quote of the string that a place is in. -/
def Enclosure.start : Enclosure → List Char
  | quotes start | tripleQuotes _ start | template _ start => start

/-- The text after a string, from a place inside it that is enclosed by the given
    enclosure, and by the others around that one. An error is the text from the
    opening quote of the string that is not closed.

    A run of three quotes or more closes a string in triple quotes by its last
    three. A line feed never stands in a string in single quotes, and only there
    does a backslash take the next character along. -/
def stringEnd : Enclosure → List Enclosure → List Char → Except (List Char) (List Char)
  | e, _, [] => .error e.start
  | .quotes start, outer, c :: rest =>
    if c = '\"' then match outer with
      | [] => .ok rest
      | e :: outer => stringEnd e outer rest
    else if c = '\n' then .error start
    else match c, rest with
      | '\\', [] => .error start
      | '\\', d :: rest =>
        if d = '\n' then .error start else stringEnd (.quotes start) outer rest
      | '$', '{' :: rest => stringEnd (.template 0 start) (.quotes start :: outer) rest
      | _, rest => stringEnd (.quotes start) outer rest
  | .tripleQuotes run start, outer, c :: rest =>
    if c = '\"' then
      if 2 ≤ run ∧ rest.head? ≠ some '\"' then match outer with
        | [] => .ok rest
        | e :: outer => stringEnd e outer rest
      else stringEnd (.tripleQuotes (run + 1) start) outer rest
    else match c, rest with
      | '$', '{' :: rest => stringEnd (.template 0 start) (.tripleQuotes 0 start :: outer) rest
      | _, rest => stringEnd (.tripleQuotes 0 start) outer rest
  | .template depth start, outer, c :: rest =>
    if c = '{' then stringEnd (.template (depth + 1) start) outer rest
    else if c = '}' then match depth, outer with
      | 0, [] => .ok rest
      | 0, e :: outer => stringEnd e outer rest
      | depth + 1, outer => stringEnd (.template depth start) outer rest
    else match c, rest with
      | '\"', '\"' :: '\"' :: inside =>
        stringEnd (.tripleQuotes 0 (c :: rest)) (.template depth start :: outer) inside
      | '\"', rest => stringEnd (.quotes (c :: rest)) (.template depth start :: outer) rest
      | _, rest => stringEnd (.template depth start) outer rest
  termination_by structural _ _ text => text

end ResultHints
