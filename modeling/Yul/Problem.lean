import Yul.Diagnostic
import Yul.Evm.Dialect

/-!
# Problems of code

What the analysis of code can find, one constructor for each rule. The category, severity and
wording of a problem follow from its constructor.
-/

namespace Yul

/-- What a name is declared as. -/
inductive Declared where
  | function
  | variable
deriving DecidableEq, Repr

namespace Declared

def text : Declared → String
  | function => "Function"
  | «variable» => "Variable"

end Declared

/-- Jumps that need a loop around them. -/
inductive LoopJump where
  | breakLoop
  | continueLoop
deriving DecidableEq, Repr

namespace LoopJump

def text : LoopJump → String
  | breakLoop => "break"
  | continueLoop => "continue"

end LoopJump

inductive Problem where
  /-- a declared name that a builtin has -/
  | builtinName (name : Name)
  /-- a declared name that is kept for builtins to come -/
  | reservedName (name : Name)
  | alreadyTaken (what : Declared) (name : Name)
  | repeatedTarget (name : Name)
  | functionInInit
  | unusedValues (count : Nat)
  | assignmentCount (targets : List Name) (values : Nat)
  | declarationCount (declared : List Name) (values : Nat)
  | notOneValue (count : Nat)
  | argumentCount (function : Name) (expected given : Nat)
  | usedBeforeDeclared (name : Name)
  | notAssignable
  | identifierNotFound (name : Name)
  | functionNotFound (name : Name)
  | unknownData (name : String)
  | assignmentToFunction
  | assignmentType (given declared : Label)
  | initialType (given declared : Label)
  | functionNotCalled (name : Name)
  | builtinNotCalled (name : Name)
  | conditionType (expected given : Label)
  | valueType (expected given : Label)
  | notAType (label : Label)
  | callOfVariable
  | onlyDefault
  | secondDefault
  | repeatedCase (literal : String)
  | jumpOutsideLoop (jump : LoopJump)
  | leaveOutsideFunction
  | tooNew (builtin : Name) (first version : EvmVersion)
  | tooOld (builtin : Name) (last version : EvmVersion)
  | deprecated (builtin : Name) (first : EvmVersion)
  | numberTooLarge
  | stringTooLong (length greatest : Nat)
  | literalType (label : Label) (literal : String)
  | notAString
deriving DecidableEq, Repr

namespace Problem

def category : Problem → Category
  | builtinName _ | reservedName _ | alreadyTaken _ _ | repeatedTarget _ | functionInInit =>
    .declarationError
  | unusedValues _ | assignmentCount _ _ | declarationCount _ _ | notOneValue _
  | argumentCount _ _ _ => .arityMismatch
  | usedBeforeDeclared _ | notAssignable | identifierNotFound _ | functionNotFound _
  | unknownData _ => .undeclaredIdentifier
  | assignmentToFunction | assignmentType _ _ | initialType _ _ | functionNotCalled _
  | builtinNotCalled _ | conditionType _ _ | valueType _ _ | notAType _ => .typeMismatch
  | callOfVariable => .notCallable
  | onlyDefault | secondDefault | repeatedCase _ => .duplicateCase
  | jumpOutsideLoop _ | leaveOutsideFunction => .invalidControlFlow
  | tooNew _ _ _ | tooOld _ _ _ | deprecated _ _ => .unsupportedInstruction
  | numberTooLarge | stringTooLong _ _ | literalType _ _ | notAString => .invalidLiteral

/-- Two problems are mere warnings. -/
def severity : Problem → Severity
  | onlyDefault | deprecated _ _ => .warning
  | _ => .error

def message : Problem → String
  | builtinName name => s!"Cannot use builtin function name \"{name}\" as identifier name."
  | reservedName name => s!"The identifier \"{name}\" is reserved and can not be used."
  | alreadyTaken what name => s!"{what.text} name {name} already taken in this scope."
  | repeatedTarget name =>
    s!"Variable {name} occurs multiple times on the left-hand side of the assignment."
  | functionInInit => "Functions cannot be defined inside a for-loop init block."
  | unusedValues count =>
    let noun := if count = 1 then "value" else "values"
    s!"Top-level expressions are not supposed to return values (this expression returns {count} "
      ++ s!"{noun}). Use ``pop()`` or assign them."
  | assignmentCount targets values =>
    s!"Variable count for assignment to \"{joinNames targets}\" does not match number of values "
      ++ s!"({targets.length} vs. {values})"
  | declarationCount declared values =>
    s!"Variable count mismatch for declaration of \"{joinNames declared}\": "
      ++ s!"{declared.length} variables and {values} values."
  | notOneValue count =>
    s!"Expected expression to evaluate to one value, but got {count} values instead."
  | argumentCount function expected given =>
    s!"Function \"{function}\" expects {expected} arguments but got {given}."
  | usedBeforeDeclared name => s!"Variable {name} used before it was declared."
  | notAssignable => "Variable not found or variable not lvalue."
  | identifierNotFound name => s!"Identifier \"{name}\" not found."
  | functionNotFound name => s!"Function \"{name}\" not found."
  | unknownData name => s!"Unknown data object \"{name}\"."
  | assignmentToFunction => "Assignment requires variable."
  | assignmentType given declared =>
    s!"Assigning a value of type \"{showLabel given}\" to a variable of type "
      ++ s!"\"{showLabel declared}\"."
  | initialType given declared =>
    s!"Assigning value of type \"{showLabel given}\" to variable of type "
      ++ s!"\"{showLabel declared}\"."
  | functionNotCalled name => s!"Function {name} used without being called."
  | builtinNotCalled name => s!"Builtin function \"{name}\" must be called."
  | conditionType expected given =>
    s!"Expected a value of boolean type \"{showLabel expected}\" but got \"{showLabel given}\""
  | valueType expected given =>
    s!"Expected a value of type \"{showLabel expected}\" but got \"{showLabel given}\""
  | notAType label =>
    s!"\"{label}\" is not a valid type (user defined types are not yet supported)."
  | callOfVariable => "Attempt to call variable instead of function."
  | onlyDefault => "Switch statement with only a default case."
  | secondDefault => "Only one default case allowed."
  | repeatedCase literal => s!"Duplicate case \"{literal}\" defined."
  | jumpOutsideLoop jump => s!"Keyword \"{jump.text}\" needs to be inside a for-loop body."
  | leaveOutsideFunction => "Keyword \"leave\" can only be used inside a function."
  | tooNew builtin first version =>
    s!"The \"{builtin}\" instruction is only available for {first.forkName}-compatible VMs "
      ++ s!"(you are currently compiling for \"{version.name}\")."
  | tooOld builtin last version =>
    s!"The \"{builtin}\" instruction is only available up to {last.forkName}-compatible VMs "
      ++ s!"(you are currently compiling for \"{version.name}\")."
  | deprecated builtin first =>
    s!"\"{builtin}\" has been deprecated since {first.forkName} and may change or be removed."
  | numberTooLarge => "Number literal too large (> 256 bits)"
  | stringTooLong length greatest => s!"String literal too long ({length} > {greatest})"
  | literalType label literal =>
    s!"Invalid type \"{showLabel label}\" for literal \"{literal}\"."
  | notAString => "Function expects direct string literals as arguments."

end Problem

/-- A problem and the place where it was found. -/
structure Finding where
  problem : Problem
  span : Span
deriving DecidableEq, Repr

namespace Finding

def isError (f : Finding) : Bool :=
  f.problem.severity == .error

def diagnostic (f : Finding) : Diagnostic :=
  ⟨f.problem.severity, f.problem.category, f.problem.message, f.span⟩

end Finding

end Yul
