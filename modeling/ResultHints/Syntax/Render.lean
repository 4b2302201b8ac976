import ResultHints.Syntax.Kind
import ResultHints.Text.Quoted
import ResultHints.Tree.Basic

/-!
# Rendered trees

A syntax tree as text, one line for each node in preorder, indented by two
spaces for each node above it (`renderTree`). A line tells the kind of the node,
with its fields as a record between braces, and its span. Names are quoted, so
that a tree can be told from its text.
-/

namespace ResultHints

/-- A record: its title, then its fields between braces, if there are any. -/
def renderRecord (title : String) : List (String × String) → String
  | [] => title
  | fields =>
    let written := fields.map fun (name, value) => name ++ ": " ++ value
    title ++ " \x7b " ++ String.intercalate ", " written ++ " \x7d"

/-- A truth value, as it stands in a record. -/
def renderBool (b : Bool) : String := if b then "true" else "false"

/-- A name that may be missing, as it stands in a record. -/
def renderName? : Option String → String
  | none => "None"
  | some s => "Some(" ++ quoted s ++ ")"

/-- An operator between operands, as it stands in a record. -/
def BinaryOperator.title : BinaryOperator → String
  | assign => "Assign"
  | plusAssign => "PlusAssign"
  | minusAssign => "MinusAssign"
  | timesAssign => "TimesAssign"
  | divAssign => "DivAssign"
  | remAssign => "RemAssign"
  | or => "Or"
  | and => "And"
  | equal => "Equal"
  | notEqual => "NotEqual"
  | identical => "Identical"
  | notIdentical => "NotIdentical"
  | less => "Less"
  | greater => "Greater"
  | lessOrEqual => "LessOrEqual"
  | greaterOrEqual => "GreaterOrEqual"
  | in_ => "In"
  | notIn => "NotIn"
  | elvis => "Elvis"
  | range => "Range"
  | plus => "Plus"
  | minus => "Minus"
  | times => "Times"
  | div => "Div"
  | rem => "Rem"

/-- An operator before its operand, as it stands in a record. -/
def LeadingOperator.title : LeadingOperator → String
  | minus => "Minus"
  | plus => "Plus"
  | not => "Not"
  | increment => "Increment"
  | decrement => "Decrement"

/-- An operator after its operand, as it stands in a record. -/
def TrailingOperator.title : TrailingOperator → String
  | increment => "Increment"
  | decrement => "Decrement"
  | notNull => "NotNull"

/-- A sort of literal, as it stands in a record. -/
def LiteralKind.title : LiteralKind → String
  | integer => "Integer"
  | float => "Float"
  | string => "String"
  | char => "Char"
  | boolean => "Boolean"
  | null => "Null"

/-- A test of a `when` entry, as it stands in a record. -/
def WhenTest.render : WhenTest → String
  | expression => "Expression"
  | typeTest negated => renderRecord "Is" [("negated", renderBool negated)]
  | membership negated => renderRecord "In" [("negated", renderBool negated)]

/-- The title of the record of a kind, and its fields. -/
def NodeKind.fields : NodeKind → String × List (String × String)
  | file => ("File", [])
  | packageDirective path => ("PackageDirective", [("path", quoted path)])
  | importDirective path => ("ImportDirective", [("path", quoted path)])
  | function name => ("Function", [("name", quoted name)])
  | property name isMutable =>
    ("Property", [("name", quoted name), ("mutable", renderBool isMutable)])
  | parameter name => ("Parameter", [("name", quoted name)])
  | typeReference text => ("TypeReference", [("text", quoted text)])
  | block => ("Block", [])
  | lambda => ("Lambda", [])
  | functionLiteral => ("FunctionLiteral", [])
  | labeled label => ("Labeled", [("label", quoted label)])
  | annotated => ("Annotated", [])
  | annotationEntry name => ("AnnotationEntry", [("name", quoted name)])
  | call => ("Call", [])
  | argumentList => ("ValueArgumentList", [])
  | argument name => ("ValueArgument", [("name", renderName? name)])
  | lambdaArgument => ("LambdaArgument", [])
  | nameReference name => ("NameReference", [("name", quoted name)])
  | qualified isSafe => ("DotQualified", [("safe", renderBool isSafe)])
  | arrayAccess => ("ArrayAccess", [])
  | ifElse => ("If", [])
  | when_ => ("When", [])
  | whenEntry isElse => ("WhenEntry", [("is_else", renderBool isElse)])
  | whenCondition test => ("WhenCondition", [("test", test.render)])
  | whenSubject => ("WhenSubject", [])
  | condition => ("Condition", [])
  | thenBranch => ("ThenBranch", [])
  | elseBranch => ("ElseBranch", [])
  | whileLoop => ("While", [])
  | forLoop name => ("For", [("variable", quoted name)])
  | loopRange => ("LoopRange", [])
  | loopBody => ("LoopBody", [])
  | binary op => ("Binary", [("op", op.title)])
  | leading op => ("Prefix", [("op", op.title)])
  | trailing op => ("Postfix", [("op", op.title)])
  | typeTest negated => ("Is", [("negated", renderBool negated)])
  | cast isSafe => ("Cast", [("safe", renderBool isSafe)])
  | parenthesized => ("Parenthesized", [])
  | literal sort => ("Literal", [("kind", sort.title)])
  | this label => ("This", [("label", renderName? label)])
  | jump (.return_ label) => ("Return", [("label", renderName? label)])
  | jump .throw_ => ("Throw", [])
  | jump (.break_ label) => ("Break", [("label", renderName? label)])
  | jump (.continue_ label) => ("Continue", [("label", renderName? label)])

/-- A kind as a record. -/
def NodeKind.render (k : NodeKind) : String := renderRecord k.fields.1 k.fields.2

/-- The line of a node below `depth` others. -/
def Shape.renderLine (depth : Nat) (s : Shape) : String :=
  String.ofList (List.replicate (2 * depth) ' ') ++ s.kind.render ++ " " ++ s.span.render ++ "\n"

mutual
/-- The lines of a tree whose root lies below `depth` others. -/
def renderFrom (depth : Nat) : Tree Shape → String
  | .node s ts => s.renderLine depth ++ renderAll (depth + 1) ts

/-- The lines of some trees whose roots lie below `depth` others. -/
def renderAll (depth : Nat) : List (Tree Shape) → String
  | [] => ""
  | t :: ts => renderFrom depth t ++ renderAll depth ts
end

/-- A tree as text. -/
def renderTree (t : Tree Shape) : String := renderFrom 0 t

end ResultHints
