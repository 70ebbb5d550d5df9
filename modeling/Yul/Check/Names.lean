import Yul.Check.Labels
import Yul.Check.Run

/-!
# Declaring and finding names
-/

namespace Yul

namespace Check

/-- What a name stands for in a scope. -/
inductive Meaning where
  | variable (scope : ScopeId) (type : Label)
  | function (f : FunctionId) (parameters returns : List Label)
  | missing
deriving DecidableEq, Repr

/-- What `name` stands for in `scope`, builtins aside. -/
def meaning (t : ScopeTable) (scope : ScopeId) (name : Name) : Meaning :=
  match t.lookup scope name with
  | some (home, .variable type) => .variable home type
  | some (home, .function parameters returns) => .function ⟨home, name⟩ parameters returns
  | none => .missing

def findMeaning (scope : ScopeId) (name : Name) : Check Meaning := do
  emit (.look scope name)
  return meaning (← get).record.scopes scope name

/-- Reports a variable that cannot be used yet. -/
def checkActive (home : ScopeId) (x : Identifier) : Check Unit := do
  unless (← get).active.contains (home, x.name) do
    report (.usedBeforeDeclared x.name) x.span

/-- Reports what speaks against declaring `x`. A name that belongs to builtins is declared all the
same; one that is taken is not. -/
def declare (what : Declared) (scope : ScopeId) (x : Identifier) (symbol : Symbol) :
    Check Unit := do
  reportAll (Dialect.namingProblems x.name) x.span
  emit (.look scope x.name)
  if (← get).record.scopes.isTaken scope x.name then report (.alreadyTaken what x.name) x.span
  else emit (.declare scope x.name symbol)

/-- Declares a variable of a known type. -/
def declareVariable (scope : ScopeId) (x : TypedName) (type : Label) : Check Unit :=
  declare .variable scope ⟨x.name, x.span⟩ (.variable type)

/-- The ends of names that ask where a variable lies. -/
def locationSuffixes : List String := [".slot", ".offset", ".address"]

def asksForLocation (name : Name) : Bool :=
  locationSuffixes.any fun suffix => suffix.toList.isSuffixOf name.toList

/-- How a name from outside that is read is really used. -/
def readKind (name : Name) : AccessKind :=
  if asksForLocation name then .addressOf else .read

section Setting

variable (cfg : Setting)

/-- Asks outside for the type of a name. -/
def askOutside (access : Access) : Check (Option Label) := do
  match cfg.resolver with
  | none => return none
  | some resolve =>
    emit (.ask access)
    return resolve access

/-- The labels of variables that are declared together; annotations that are no types are
reported. -/
def declaredTypes (xs : List TypedName) : Check (List Label) :=
  xs.mapM fun x => do
    reportAll (cfg.dialect.writtenProblems x.type) x.span
    return cfg.dialect.declaredType x.type

/-- Declares a function in the scope of the block that defines it. -/
def declareFunction (scope : ScopeId) (f : FunctionDef) : Check Unit := do
  let parameters ← declaredTypes cfg f.parameters
  let returns ← declaredTypes cfg f.returns
  declare .function scope f.name (.function parameters returns)

/-- Opens the scope of a block and declares its functions. -/
def openBlock (id : BlockId) (statements : List Stmt) (parent : Option ScopeId) :
    Check ScopeId := do
  let scope ← enterBlock id parent
  (functionsOf statements).forM (declareFunction cfg scope)
  return scope

end Setting

end Check

end Yul
