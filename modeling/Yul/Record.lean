import Std.Data.TreeMap.Basic
import Yul.Effects.Collector
import Yul.NameTable

/-!
# What is known about analyzed code

A record holds every scope that was opened, the scope of each block and of the parameters of each
function, and what blocks and functions may do. It can serve several analyses one after the other:
each adds its own entries.
-/

namespace Yul

structure Record where
  scopes : ScopeTable := {}
  /-- the scope of each block -/
  blockScopes : Std.TreeMap BlockId ScopeId := {}
  /-- the scope of each function's parameters, under the number of its body -/
  functionScopes : Std.TreeMap BlockId ScopeId := {}
  /-- what each block may do, called functions included -/
  blockEffects : Std.TreeMap BlockId SideEffects := {}
  /-- what each function may do, called functions included -/
  functionEffects : Std.TreeMap FunctionId SideEffects := {}
  /-- what all of the code may do -/
  sideEffects : SideEffects := .none
deriving Inhabited

namespace Record

/-- The scope of a block. -/
def scopeOf? (r : Record) (block : BlockId) : Option Scope :=
  r.blockScopes[block]?.bind r.scopes.get?

/-- Opens the scope of a block. -/
def openBlock (r : Record) (block : BlockId) (parent : Option ScopeId) : Record :=
  { r with
    scopes := r.scopes.add parent false
    blockScopes := r.blockScopes.insert block r.scopes.size }

/-- Opens the scope of the parameters of the function with the given body. -/
def openParameters (r : Record) (body : BlockId) (parent : ScopeId) : Record :=
  { r with
    scopes := r.scopes.add (some parent) true
    functionScopes := r.functionScopes.insert body r.scopes.size }

/-- Declares a name. -/
def declare (r : Record) (scope : ScopeId) (name : Name) (symbol : Symbol) : Record :=
  { r with scopes := r.scopes.declare scope name symbol }

/-- Adds what an analysis found out about effects. -/
def addEffects (r : Record) (s : EffectSummary) : Record :=
  { r with
    blockEffects := s.blocks.foldl (fun m (id, e) => m.insert id e) r.blockEffects
    functionEffects := s.functions.foldl (fun m (f, e) => m.insert f e) r.functionEffects
    sideEffects := r.sideEffects.join s.total }

/-! ## Listing -/

/-- The key of a value in a map from blocks. -/
def keyOf? (m : Std.TreeMap BlockId ScopeId) (scope : ScopeId) : Option BlockId :=
  (m.toList.find? fun (_, s) => s = scope).map (·.1)

/-- One line for a symbol. -/
def symbolLine (name : Name) : Symbol → String
  | .variable type => s!"  let {name}: {showLabel type}\n"
  | .function parameters returns =>
    s!"  function {name}({parameters.length}) -> ({returns.length})\n"

/-- The lines for a scope. -/
def scopeLines (r : Record) (names : NameTable) (id : ScopeId) (scope : Scope) : String :=
  let parent := (scope.parent.map fun p => s!" (parent {p})").getD ""
  let block := ((keyOf? r.blockScopes id).map fun b => s!" block {b}").getD ""
  let function := ((keyOf? r.functionScopes id).map fun b =>
    s!" parameters of function body {b}").getD ""
  s!"scope {id}{parent}{block}{function}\n"
    ++ String.join ((names.sortOn (·.1) scope.symbols).map fun (name, symbol) =>
      symbolLine name symbol)

/-- All scopes with what they declare, names in the order of `names`. -/
def listing (r : Record) (names : NameTable) : String :=
  String.join (r.scopes.scopes.toList.zipIdx.map fun (scope, id) => r.scopeLines names id scope)

end Record

end Yul
