import Yul.Effects
import Yul.Scope

/-!
# Effects of functions that call each other

A call graph records for each function what its body does itself and which functions it calls. The
summary of a function joins what the function and all functions within its reach do themselves. A
function within reach of itself may never return, and so may every function that reaches it.
-/

namespace Yul

/-- `fs` with the functions `more` put in, each once. -/
def withFunctions (fs more : List FunctionId) : List FunctionId :=
  more.foldr List.insert fs

theorem mem_withFunctions {f : FunctionId} {fs more : List FunctionId} :
    f ∈ withFunctions fs more ↔ f ∈ more ∨ f ∈ fs := by
  induction more with
  | nil => simp [withFunctions]
  | cons g more ih =>
    rw [withFunctions, List.foldr_cons, List.mem_insert_iff, ← withFunctions, ih, List.mem_cons,
      or_assoc]

/-- What a piece of code does itself, and the functions that it calls, each once. -/
structure Facts where
  effects : SideEffects := .none
  callees : List FunctionId := []
deriving DecidableEq, Repr, Inhabited

namespace Facts

def none : Facts := {}

def join (a b : Facts) : Facts :=
  ⟨a.effects.join b.effects, withFunctions a.callees b.callees⟩

end Facts

/-- The facts of each function, each function once. -/
structure CallGraph where
  facts : List (FunctionId × Facts) := []
deriving DecidableEq, Repr, Inhabited

namespace CallGraph

def functions (g : CallGraph) : List FunctionId :=
  g.facts.map (·.1)

/-- The facts of `f`; a function without a body does nothing. -/
def factsOf (g : CallGraph) (f : FunctionId) : Facts :=
  (g.facts.lookup f).getD .none

/-- Joins `facts` to those of `f`. -/
def record (g : CallGraph) (f : FunctionId) (facts : Facts) : CallGraph :=
  if g.functions.contains f then
    ⟨g.facts.map fun (h, old) => if h = f then (h, old.join facts) else (h, old)⟩
  else ⟨g.facts ++ [(f, Facts.none.join facts)]⟩

/-- The functions that `f` calls. -/
def callees (g : CallGraph) (f : FunctionId) : List FunctionId :=
  (g.factsOf f).callees

/-- `fs` and all functions that they reach by up to `n` calls one after the other. -/
def closure (g : CallGraph) : Nat → List FunctionId → List FunctionId
  | 0, fs => fs
  | n + 1, fs =>
    let wider := withFunctions fs (fs.flatMap g.callees)
    if wider.length = fs.length then fs else g.closure n wider

/-- The functions that `f` reaches by one or more calls. -/
def reachable (g : CallGraph) (f : FunctionId) : List FunctionId :=
  g.closure (g.facts.length + 1) (g.callees f)

/-- The functions that reach themselves. -/
def recursive (g : CallGraph) : List FunctionId :=
  g.functions.filter fun f => (g.reachable f).contains f

/-- What a call of `f` may do, where `recursive` are the functions that reach themselves. -/
def summary (g : CallGraph) (recursive : List FunctionId) (f : FunctionId) : SideEffects :=
  let reached := f :: g.reachable f
  let own := reached.foldl (fun e h => e.join (g.factsOf h).effects) .none
  if reached.any recursive.contains then own.join .looping else own

/-- What a call of each function may do. -/
def summaries (g : CallGraph) : List (FunctionId × SideEffects) :=
  let recursive := g.recursive
  g.functions.map fun f => (f, g.summary recursive f)

end CallGraph

end Yul
