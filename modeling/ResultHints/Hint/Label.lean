import ResultHints.Document.Navigation

/-!
# Labels of lambdas

The label by which a `return` refers to a lambda that is passed to a call after
its arguments: the label the lambda has itself, or else the name of the function
that takes it.
-/

namespace ResultHints

/-- The name shown for a lambda that has no label. -/
def fallbackLabel : String := "lambda"

namespace Location

/-- Whether a call passes a lambda after its arguments. -/
def passes (call lambda : Place) : Bool :=
  call.lambdaArguments.any fun a => a.passedLambda?.any fun l => l.id == lambda.id

/-- The label right before a node. -/
def ownLabel? (x : Place) : Option String := do
  match (← x.parent?).kind with
  | .labeled label => some label
  | _ => none

/-- The name that a call calls. -/
def calleeName? (call : Place) : Option String := do
  match (← call.callee?).kind with
  | .nameReference name => some name
  | _ => none

/-- The label of a lambda, if the innermost call around it passes it. -/
def lambdaLabel? (lambda : Place) : Option String := do
  let call ← lambda.nearest? fun n => n.kind == .call
  if call.passes lambda then lambda.ownLabel? <|> call.calleeName? else none

/-- The name shown for a lambda. -/
def displayName (lambda : Place) : String := lambda.lambdaLabel?.getD fallbackLabel

end Location

end ResultHints
