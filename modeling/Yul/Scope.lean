import Yul.NameTable

/-!
# Scopes

A scope holds the names that one block declares, or the parameters and results of one function.
Scopes are numbered in the order in which they are opened, and each but an outermost one hangs
below another one. `ScopeTable.chain` lists the scopes from a given one outward; looking a name up
and asking whether it is taken are walks along that list. A chain that leads back to a scope it
has passed holds no further names, so it is cut off at as many scopes as there are.

A function sees functions around it, but no variables: a scope of parameters hides the variables
beyond it. A name that is hidden is still taken.

A walk outward ends at the first scope that declares the name looked for. A walk that comes to a
number without a scope has no result (`ScopeTable.missing?`).
-/

namespace Yul

/-- The number of a scope. -/
abbrev ScopeId := Nat

/-- What a name stands for. -/
inductive Symbol where
  | variable (type : Label)
  | function (parameters returns : List Label)
deriving DecidableEq, Repr

namespace Symbol

def isVariable : Symbol → Bool
  | «variable» _ => true
  | function _ _ => false

end Symbol

structure Scope where
  parent : Option ScopeId
  /-- whether the scope holds the parameters of a function -/
  ofFunction : Bool
  /-- the declared names, in order of declaration -/
  symbols : List (Name × Symbol)
deriving DecidableEq, Repr

namespace Scope

def find? (s : Scope) (name : Name) : Option Symbol :=
  s.symbols.lookup name

def declares (s : Scope) (name : Name) : Bool :=
  (s.find? name).isSome

/-- `s` with `name` declared; the first declaration of a name stays. -/
def declare (s : Scope) (name : Name) (symbol : Symbol) : Scope :=
  if s.declares name then s else { s with symbols := s.symbols ++ [(name, symbol)] }

/-- The variables that a scope declares. -/
def variableNames (s : Scope) : List Name :=
  (s.symbols.filter fun (_, symbol) => symbol.isVariable).map (·.1)

end Scope

/-- All scopes that have been opened. -/
structure ScopeTable where
  scopes : Array Scope := #[]
deriving DecidableEq, Repr, Inhabited

namespace ScopeTable

def size (t : ScopeTable) : Nat :=
  t.scopes.size

def get? (t : ScopeTable) (id : ScopeId) : Option Scope :=
  t.scopes[id]?

/-- Opens a scope below `parent`; its number is the size of the table before. -/
def add (t : ScopeTable) (parent : Option ScopeId) (ofFunction : Bool) : ScopeTable :=
  ⟨t.scopes.push ⟨parent, ofFunction, []⟩⟩

/-- Declares `name` in scope `id`. -/
def declare (t : ScopeTable) (id : ScopeId) (name : Name) (symbol : Symbol) : ScopeTable :=
  ⟨t.scopes.modify id (·.declare name symbol)⟩

/-- The scopes from `id` outward, up to `n` of them. -/
def chainWithin (t : ScopeTable) : Nat → ScopeId → List (ScopeId × Scope)
  | 0, _ => []
  | n + 1, id =>
    match t.get? id with
    | none => []
    | some scope =>
      (id, scope) ::
        match scope.parent with
        | none => []
        | some parent => t.chainWithin n parent

/-- The scopes from `id` outward. -/
def chain (t : ScopeTable) (id : ScopeId) : List (ScopeId × Scope) :=
  t.chainWithin t.size id

/-- The number without a scope that a walk from `id` outward comes to before it finds `name`,
within `n` scopes. -/
def missingWithin (t : ScopeTable) (name : Name) : Nat → ScopeId → Option ScopeId
  | 0, _ => none
  | n + 1, id =>
    match t.get? id with
    | none => some id
    | some scope =>
      if scope.declares name then none
      else match scope.parent with
        | none => none
        | some parent => t.missingWithin name n parent

/-- The number without a scope that a walk from `id` outward comes to before it finds `name`. -/
def missing? (t : ScopeTable) (id : ScopeId) (name : Name) : Option ScopeId :=
  t.missingWithin name (t.size + 1) id

/-- What `name` stands for at the inner end of a row of scopes. `hidden` says that variables
cannot be seen from there. -/
def visible (name : Name) (hidden : Bool) : List (ScopeId × Scope) → Option (ScopeId × Symbol)
  | [] => none
  | (id, scope) :: outer =>
    match scope.find? name with
    | some symbol => if hidden && symbol.isVariable then none else some (id, symbol)
    | none => visible name (hidden || scope.ofFunction) outer

/-- What `name` stands for in scope `id`, and the scope that declares it. -/
def lookup (t : ScopeTable) (id : ScopeId) (name : Name) : Option (ScopeId × Symbol) :=
  visible name false (t.chain id)

/-- Whether `name` is declared in scope `id` or one around it, seen or not. -/
def isTaken (t : ScopeTable) (id : ScopeId) (name : Name) : Bool :=
  (t.chain id).any fun (_, scope) => scope.declares name

end ScopeTable

/-- The identity of a function: the scope that declares it, and its name. -/
structure FunctionId where
  scope : ScopeId
  name : Name
deriving DecidableEq, Repr

namespace FunctionId

instance : Ord FunctionId :=
  ⟨compareLex (compareOn FunctionId.scope) (compareOn FunctionId.name)⟩

end FunctionId

end Yul
