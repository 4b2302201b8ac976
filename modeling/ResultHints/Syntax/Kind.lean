import ResultHints.Syntax.Operator
import ResultHints.Text.Span

/-!
# Kinds of nodes

What a node of a syntax tree stands for. The kind of a node fixes the kinds of
its children and their order; it is told with every kind.

* `NodeKind.isExpression`: the kinds of nodes that can yield a value;
* `NodeKind.isJump`: the kinds of nodes whose evaluation never ends normally;
* `NodeKind.holdsStatements`: the kinds of nodes whose children are statements.
-/

namespace ResultHints

/-- The sorts of literals. -/
inductive LiteralKind
  | integer
  | float
  | string
  | char
  | boolean
  | null
  deriving DecidableEq

/-- What the condition of a `when` entry tests: whether an expression holds (or
    equals the subject), or whether the subject is of a type, or in a range. -/
inductive WhenTest
  | expression
  | typeTest (negated : Bool)
  | membership (negated : Bool)
  deriving DecidableEq

/-- The jumps, with the label they refer to. -/
inductive Jump
  | return_ (label : Option String)
  | throw_
  | break_ (label : Option String)
  | continue_ (label : Option String)
  deriving DecidableEq

/-- What a node of a syntax tree stands for. -/
inductive NodeKind
  /-- A whole source text: directives, then statements. -/
  | file
  | packageDirective (path : String)
  | importDirective (path : String)
  /-- A function: parameters, a result type or none, and a block, an expression
      or no body. -/
  | function (name : String)
  /-- A `val` or `var`: a type or none, and an initial value or none. -/
  | property (name : String) (isMutable : Bool)
  /-- A parameter: a type or none, and a default value or none. -/
  | parameter (name : String)
  /-- A type, as it is written. -/
  | typeReference (text : String)
  /-- Statements, between braces or in a lambda. -/
  | block
  /-- A lambda: its function literal. -/
  | lambda
  /-- The inside of a lambda: parameters, then a block. -/
  | functionLiteral
  /-- A label before an expression, or before nothing. -/
  | labeled (label : String)
  /-- Annotation entries before an expression or a declaration, or before
      nothing. -/
  | annotated
  /-- The name of an annotation, with arguments or without. -/
  | annotationEntry (name : String)
  /-- A call: what is called, arguments or none, and a lambda argument or none. -/
  | call
  | argumentList
  /-- An argument, with the name of its parameter or without. -/
  | argument (name : Option String)
  /-- A lambda after a call, which may be labeled or annotated. -/
  | lambdaArgument
  | nameReference (name : String)
  /-- A receiver and a member, after `?.` if safe. -/
  | qualified (isSafe : Bool)
  /-- A receiver, then indices. -/
  | arrayAccess
  /-- An `if`: a condition, a then branch, and an else branch or none. -/
  | ifElse
  /-- A `when`: a subject or none, then entries. -/
  | when_
  /-- An entry of a `when`: conditions (none if it is the else entry), then what
      is evaluated. -/
  | whenEntry (isElse : Bool)
  | whenCondition (test : WhenTest)
  | whenSubject
  | condition
  | thenBranch
  | elseBranch
  /-- A `while`: a condition, then a body. -/
  | whileLoop
  /-- A `for`: what is iterated over, then a body. -/
  | forLoop (name : String)
  | loopRange
  | loopBody
  | binary (op : BinaryOperator)
  | leading (op : LeadingOperator)
  | trailing (op : TrailingOperator)
  /-- An expression, then the type it is tested for. -/
  | typeTest (negated : Bool)
  /-- An expression, then the type it is cast to, by `as?` if safe. -/
  | cast (isSafe : Bool)
  | parenthesized
  | literal (sort : LiteralKind)
  | this (label : Option String)
  /-- A jump, with the value it carries if there is one. -/
  | jump (sort : Jump)
  deriving DecidableEq

namespace NodeKind

/-- Whether nodes of the kind can yield a value. -/
def isExpression : NodeKind → Bool
  | block | lambda | labeled _ | annotated | call | nameReference _ | qualified _ | arrayAccess
  | ifElse | when_ | whileLoop | forLoop _ | binary _ | leading _ | trailing _ | typeTest _ | cast _
  | parenthesized | literal _ | this _ | jump _ => true
  | file | packageDirective _ | importDirective _ | function _ | property _ _ | parameter _
  | typeReference _ | functionLiteral | annotationEntry _ | argumentList | argument _
  | lambdaArgument | whenEntry _ | whenCondition _ | whenSubject | condition | thenBranch
  | elseBranch | loopRange | loopBody => false

/-- The branches of an `if` and the bodies of loops. -/
def isControlBody : NodeKind → Bool
  | thenBranch | elseBranch | loopBody => true
  | _ => false

/-- Whether expressions right below nodes of the kind are statements. -/
def holdsStatements : NodeKind → Bool
  | block | whenEntry _ => true
  | k => k.isControlBody

/-- Whether the evaluation of nodes of the kind never ends normally. -/
def isJump : NodeKind → Bool
  | jump _ => true
  | _ => false

/-- Labels and annotations, which wrap a base. -/
def isWrapper : NodeKind → Bool
  | labeled _ | annotated => true
  | _ => false

/-- The entries before the base of an annotated node. -/
def isAnnotationEntry : NodeKind → Bool
  | annotationEntry _ => true
  | _ => false

/-- The entries of a `when`. -/
def isWhenEntry : NodeKind → Bool
  | whenEntry _ => true
  | _ => false

/-- The level of the operator that makes nodes of the kind out of operands; an
    assignment has none. -/
def precedence? : NodeKind → Option Precedence
  | binary op => op.precedence?
  | typeTest _ => some .namedCheck
  | cast _ => some .cast
  | _ => none

/-- A kind in a few words. -/
def describe : NodeKind → String
  | file => "file"
  | packageDirective _ => "package directive"
  | importDirective _ => "import directive"
  | function _ => "function"
  | property _ _ => "property"
  | parameter _ => "parameter"
  | typeReference _ => "type reference"
  | block => "block"
  | lambda => "lambda"
  | functionLiteral => "function literal"
  | labeled _ => "labeled expression"
  | annotated => "annotated expression"
  | annotationEntry _ => "annotation entry"
  | call => "call"
  | argumentList => "value argument list"
  | argument _ => "value argument"
  | lambdaArgument => "lambda argument"
  | nameReference _ => "name reference"
  | qualified _ => "qualified expression"
  | arrayAccess => "array access"
  | ifElse => "if"
  | when_ => "when"
  | whenEntry _ => "when entry"
  | whenCondition _ => "when condition"
  | whenSubject => "when subject"
  | condition => "condition"
  | thenBranch => "then branch"
  | elseBranch => "else branch"
  | whileLoop => "while"
  | forLoop _ => "for"
  | loopRange => "loop range"
  | loopBody => "loop body"
  | binary _ => "binary expression"
  | leading _ => "prefix expression"
  | trailing _ => "postfix expression"
  | typeTest _ => "is expression"
  | cast _ => "cast"
  | parenthesized => "parenthesized expression"
  | literal _ => "literal"
  | this _ => "this"
  | jump (.return_ _) => "return"
  | jump .throw_ => "throw"
  | jump (.break_ _) => "break"
  | jump (.continue_ _) => "continue"

end NodeKind

/-- What a node stands for, and the part of the source it covers. -/
structure Shape where
  kind : NodeKind
  span : Span
  deriving DecidableEq

/-- The number of a node among all that are made. -/
abbrev NodeId := Nat

/-- A node of a syntax tree. -/
structure Node extends Shape where
  id : NodeId
  deriving DecidableEq

end ResultHints
