/-!
# Operators

The operators of expressions: those between two operands (`BinaryOperator`),
before their operand (`LeadingOperator`), and after it (`TrailingOperator`). The
operators between operands have a precedence each, assignments aside, which are
no part of expressions.

* `Precedence.rank`: the levels, from the loosest to the tightest;
* `BinaryOperator.precedence?`: the level of an operator.
-/

namespace ResultHints

/-- The operators between two expressions. -/
inductive BinaryOperator
  | assign
  | plusAssign
  | minusAssign
  | timesAssign
  | divAssign
  | remAssign
  | or
  | and
  | equal
  | notEqual
  | identical
  | notIdentical
  | less
  | greater
  | lessOrEqual
  | greaterOrEqual
  | in_
  | notIn
  | elvis
  | range
  | plus
  | minus
  | times
  | div
  | rem
  deriving DecidableEq

/-- The operators before their operand. -/
inductive LeadingOperator
  | minus
  | plus
  | not
  | increment
  | decrement
  deriving DecidableEq

/-- The operators after their operand. -/
inductive TrailingOperator
  | increment
  | decrement
  | notNull
  deriving DecidableEq

/-- The levels of precedence, from the loosest to the tightest. -/
inductive Precedence
  | disjunction
  | conjunction
  | equality
  | comparison
  | namedCheck
  | elvis
  | range
  | additive
  | multiplicative
  | cast
  deriving DecidableEq

namespace BinaryOperator

/-- The assignments, plain and combined with an operation. -/
def isAssignment : BinaryOperator → Bool
  | assign | plusAssign | minusAssign | timesAssign | divAssign | remAssign => true
  | _ => false

/-- How an operator is written. -/
def spelling : BinaryOperator → String
  | assign => "="
  | plusAssign => "+="
  | minusAssign => "-="
  | timesAssign => "*="
  | divAssign => "/="
  | remAssign => "%="
  | or => "||"
  | and => "&&"
  | equal => "=="
  | notEqual => "!="
  | identical => "==="
  | notIdentical => "!=="
  | less => "<"
  | greater => ">"
  | lessOrEqual => "<="
  | greaterOrEqual => ">="
  | in_ => "in"
  | notIn => "!in"
  | elvis => "?:"
  | range => ".."
  | plus => "+"
  | minus => "-"
  | times => "*"
  | div => "/"
  | rem => "%"

end BinaryOperator

namespace Precedence

/-- The position of a level, counted from one. -/
def rank : Precedence → Nat
  | disjunction => 1
  | conjunction => 2
  | equality => 3
  | comparison => 4
  | namedCheck => 5
  | elvis => 6
  | range => 7
  | additive => 8
  | multiplicative => 9
  | cast => 10

/-- The next tighter level; the tightest is its own. -/
def next : Precedence → Precedence
  | disjunction => conjunction
  | conjunction => equality
  | equality => comparison
  | comparison => namedCheck
  | namedCheck => elvis
  | elvis => range
  | range => additive
  | additive => multiplicative
  | multiplicative => cast
  | cast => cast

theorem rank_le_cast (p : Precedence) : p.rank ≤ cast.rank := by cases p <;> decide

theorem rank_next_le (p : Precedence) : p.next.rank ≤ p.rank + 1 := by cases p <;> decide

end Precedence

/-- The level of an operator; an assignment has none. -/
def BinaryOperator.precedence? : BinaryOperator → Option Precedence
  | or => some .disjunction
  | and => some .conjunction
  | equal | notEqual | identical | notIdentical => some .equality
  | less | greater | lessOrEqual | greaterOrEqual => some .comparison
  | in_ | notIn => some .namedCheck
  | elvis => some .elvis
  | range => some .range
  | plus | minus => some .additive
  | times | div | rem => some .multiplicative
  | assign | plusAssign | minusAssign | timesAssign | divAssign | remAssign => none

end ResultHints
