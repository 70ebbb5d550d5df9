import Yul.Span

/-!
# Diagnostics

A finding in its final form: how serious it is, what sort of rule it breaks, what to say, and
where. A run is a success if none of its diagnostics is an error.
-/

namespace Yul

inductive Severity where
  | warning
  | error
deriving DecidableEq, Repr

namespace Severity

def text : Severity → String
  | warning => "warning"
  | error => "error"

end Severity

/-- The sort of rule that a diagnostic is about. -/
inductive Category where
  /-- a name that nothing declares -/
  | undeclaredIdentifier
  /-- a name that may not be declared, or not again -/
  | declarationError
  | typeMismatch
  /-- a wrong number of values or arguments -/
  | arityMismatch
  /-- a call of what is no function -/
  | notCallable
  /-- a value or default that a switch has twice, or a switch that has nothing but a default -/
  | duplicateCase
  /-- a jump that leads nowhere -/
  | invalidControlFlow
  /-- an instruction that the version does not have -/
  | unsupportedInstruction
  | invalidLiteral
deriving DecidableEq, Repr

namespace Category

def text : Category → String
  | undeclaredIdentifier => "undeclared identifier"
  | declarationError => "declaration error"
  | typeMismatch => "type error"
  | arityMismatch => "arity mismatch"
  | notCallable => "not callable"
  | duplicateCase => "duplicate case"
  | invalidControlFlow => "invalid control flow"
  | unsupportedInstruction => "unsupported instruction"
  | invalidLiteral => "invalid literal"

end Category

structure Diagnostic where
  severity : Severity
  category : Category
  message : String
  span : Span
deriving DecidableEq, Repr

namespace Diagnostic

def isError (d : Diagnostic) : Bool :=
  d.severity == .error

/-- The diagnostic in one line. -/
def text (d : Diagnostic) : String :=
  s!"{d.severity.text} ({d.category.text}) at {d.span.text}: {d.message}"

/-- The errors among diagnostics. -/
def errors (ds : List Diagnostic) : List Diagnostic :=
  ds.filter isError

def hasErrors (ds : List Diagnostic) : Bool :=
  ds.any isError

/-- Number of errors of one category. -/
def countOf (c : Category) (ds : List Diagnostic) : Nat :=
  (errors ds).countP (·.category == c)

end Diagnostic

end Yul
