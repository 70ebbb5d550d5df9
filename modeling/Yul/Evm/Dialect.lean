import Yul.Evm.Builtin

/-!
# Dialects

A dialect fixes the version of the machine and the type labels. The untyped dialect has one label,
the empty one, for every value. The typed dialect tells numbers from truth values.
-/

namespace Yul

/-- Whether values carry type labels. -/
inductive Flavour where
  | untyped
  | typed
deriving DecidableEq, Repr, Inhabited

namespace Flavour

def text : Flavour → String
  | untyped => "untyped"
  | typed => "typed"

end Flavour

structure Dialect where
  version : EvmVersion := .latest
  flavour : Flavour := .untyped
deriving DecidableEq, Repr, Inhabited

namespace Dialect

/-- Label of values without an annotation. -/
def defaultType (d : Dialect) : Label :=
  match d.flavour with
  | .untyped => ""
  | .typed => "u256"

/-- Label of truth values. -/
def boolType (d : Dialect) : Label :=
  match d.flavour with
  | .untyped => ""
  | .typed => "bool"

/-- The labels that may be written. -/
def types (d : Dialect) : List Label :=
  match d.flavour with
  | .untyped => [d.defaultType]
  | .typed => [d.defaultType, d.boolType]

def isType (d : Dialect) (label : Label) : Bool :=
  d.types.contains label

/-- Labels of the arguments that a builtin takes. -/
def parameterTypes (d : Dialect) (b : Builtin) : List Label :=
  List.replicate b.arity d.defaultType

/-- Labels of the values that a builtin yields. -/
def returnTypes (d : Dialect) (b : Builtin) : List Label :=
  List.replicate b.results (if b.yieldsTruth then d.boolType else d.defaultType)

end Dialect

/-- The names that a dialect makes known. -/
def NameTable.ofDialect (d : Dialect) : NameTable :=
  addAll ⟨#[]⟩ (d.defaultType :: d.boolType :: d.types ++ Builtin.names)

end Yul
