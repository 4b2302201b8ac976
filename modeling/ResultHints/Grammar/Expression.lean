import ResultHints.Grammar.TypeReference

/-!
# Expressions and assignments

An expression is a chain of operands with operators between them, grouped by
precedence (`chain`): the right operand of an operator takes all operators that
are tighter, so operators of one level group to the left. A line break ends the
chain, unless the operator after it is `&&`, `||` or `?:`.
-/

namespace ResultHints

open Reader

/-- The node that an operator between operands makes. -/
def TokenKind.connective? : TokenKind → Option NodeKind
  | symbol .orOr => some (.binary .or)
  | symbol .andAnd => some (.binary .and)
  | symbol .equal => some (.binary .equal)
  | symbol .notEqual => some (.binary .notEqual)
  | symbol .identical => some (.binary .identical)
  | symbol .notIdentical => some (.binary .notIdentical)
  | symbol .less => some (.binary .less)
  | symbol .greater => some (.binary .greater)
  | symbol .lessEqual => some (.binary .lessOrEqual)
  | symbol .greaterEqual => some (.binary .greaterOrEqual)
  | keyword .in_ => some (.binary .in_)
  | keyword .notIn => some (.binary .notIn)
  | keyword .is_ => some (.typeTest false)
  | keyword .notIs => some (.typeTest true)
  | symbol .elvis => some (.binary .elvis)
  | symbol .rangeTo => some (.binary .range)
  | symbol .plus => some (.binary .plus)
  | symbol .minus => some (.binary .minus)
  | symbol .star => some (.binary .times)
  | symbol .slash => some (.binary .div)
  | symbol .percent => some (.binary .rem)
  | keyword .as_ => some (.cast false)
  | keyword .asSafe => some (.cast true)
  | _ => none

/-- The assignment that a token stands for. -/
def TokenKind.assignment? : TokenKind → Option BinaryOperator
  | symbol .assign => some .assign
  | symbol .plusAssign => some .plusAssign
  | symbol .minusAssign => some .minusAssign
  | symbol .starAssign => some .timesAssign
  | symbol .slashAssign => some .divAssign
  | symbol .percentAssign => some .remAssign
  | _ => none

/-- The operators that may begin a line and go on with the expression before. -/
def TokenKind.continuesLine : TokenKind → Bool
  | symbol .andAnd | symbol .orOr | symbol .elvis => true
  | _ => false

/-- The node that the operator at the cursor makes, and its level, if that is
    `least` or tighter and the chain does not end here. -/
def Cursor.connective? (m : Layout) (least : Precedence) (s : Cursor) :
    Option (NodeKind × Precedence) := do
  let k ← s.kind?
  let made ← k.connective?
  let level ← made.precedence?
  if least.rank ≤ level.rank && (k.continuesLine || !s.atBreak m) then some (made, level)
  else none

variable (inner : Inner)

/-- The chain that begins with the operand `left`, of operators of level `least`
    or tighter; at most `limit` of them are taken. -/
def chain (m : Layout) :
    (limit : Nat) → (least : Precedence) → (left : Fragment) → Reader Fragment
  | 0, _, left => pure left
  | limit + 1, least, left => do
    match (← get).connective? m least with
    | none => pure left
    | some (made, level) =>
      discard next
      let right ← match made with
        | .typeTest _ | .cast _ => typeReference inner
        | _ => inner.operand m >>= chain m limit level.next
      chain m limit least (← join made left right)

/-- An expression. Every operator is a lexeme, so none is left out. -/
def expression (m : Layout) : Reader Fragment := do
  let first ← inner.operand m
  chain inner m (← get).size .disjunction first

/-- An expression, or an assignment to it by an operator on the same line. -/
def assignment (m : Layout) : Reader Fragment := do
  let left ← expression inner m
  let s ← get
  match s.kind? >>= TokenKind.assignment? with
  | none => pure left
  | some op =>
    if s.atBreak m then pure left
    else do
      discard next
      join (.binary op) left (← expression inner m)

end ResultHints
