import Yul.Problem
import Yul.Record

/-!
# The run of an analysis

An analysis walks through code and does nothing but take *events*: it enters and leaves blocks and
functions, looks names up and declares them, notes effects and calls, asks for names from outside,
and reports problems. The state of a run follows from its events alone (`Run.take`), and the
journal keeps them all, so every point of a run is the state after some part of its journal.

A block can be entered only once, and every scope that is used has to be there. A run with an event
that cannot happen has a fault and is over: it takes no further event.
-/

namespace Yul

/-- How a name from outside is used. -/
inductive AccessKind where
  | read
  | write
  /-- asks where a variable lies -/
  | addressOf
deriving DecidableEq, Repr

/-- A use of a name that the code does not declare. -/
structure Access where
  name : Name
  kind : AccessKind
  span : Span
deriving DecidableEq, Repr

/-- The types of names from outside; a use without a type is refused. -/
abbrev Resolver := Access → Option Label

/-- What an analysis is told besides the code. -/
structure Setting where
  dialect : Dialect := {}
  /-- names of the data that the code may refer to -/
  dataNames : List String := []
  resolver : Option Resolver := none

/-- A variable: the scope that declares it, and its name. -/
abbrev VariableId := ScopeId × Name

/-- Why an analysis has no result. -/
inductive Fault where
  | enteredTwice (id : BlockId)
  /-- a scope that is used but not there; `count` are there -/
  | noScope (id : ScopeId) (count : Nat)
  /-- a value that is assigned but not there; `count` are there -/
  | noValue (index count : Nat)
  | unbalanced (i : Imbalance)
deriving DecidableEq, Repr

namespace Fault

def message : Fault → String
  | enteredTwice id => s!"block {id} entered twice"
  | noScope index count | noValue index count =>
    s!"index out of bounds: the len is {count} but the index is {index}"
  | unbalanced i => i.message

end Fault

/-- A step of an analysis. -/
inductive Event where
  | enterBlock (id : BlockId) (parent : Option ScopeId)
  | exitBlock (id : BlockId) (scope : ScopeId)
  /-- opens the scope of the parameters of the function with the given body -/
  | openParameters (body : BlockId) (parent : ScopeId)
  | enterFunction (f : FunctionId)
  | exitFunction (f : FunctionId)
  /-- looks for a name, from a scope outward -/
  | look (scope : ScopeId) (name : Name)
  | declare (scope : ScopeId) (name : Name) (symbol : Symbol)
  | effects (effects : SideEffects)
  | call (f : FunctionId)
  | ask (access : Access)
  | report (finding : Finding)
deriving DecidableEq, Repr

namespace Event

/-- What an event means for the effects of the code. -/
def collectorStep? : Event → Option Collector.Step
  | enterBlock id _ => some (.enterBlock id)
  | exitBlock id _ => some (.exitBlock id)
  | enterFunction f => some (.enterFunction f)
  | exitFunction f => some (.exitFunction f)
  | effects e => some (.add e)
  | call f => some (.call f)
  | openParameters _ _ | look _ _ | declare _ _ _ | ask _ | report _ => none

/-- The problem that an event reports. -/
def finding? : Event → Option Finding
  | report f => some f
  | _ => none

end Event

/-- The state of an analysis. -/
structure Run where
  /-- what is known about the code -/
  record : Record
  /-- the variables that can be used -/
  active : List VariableId := []
  /-- those of the code around the functions being walked through, the innermost first -/
  suspended : List (List VariableId) := []
  /-- the events so far, the latest first -/
  journal : List Event := []
  /-- why the run is over before its end -/
  fault : Option Fault := none

namespace Run

/-- The fault of using a scope: it is not there. -/
def scopeFault (r : Run) (id : ScopeId) : Fault :=
  .noScope id r.record.scopes.size

/-- Why an event cannot happen. -/
def clash (r : Run) : Event → Option Fault
  | .enterBlock id _ => if r.record.blockScopes.contains id then some (.enteredTwice id) else none
  | .exitBlock _ scope | .declare scope _ _ =>
    if scope < r.record.scopes.size then none else some (r.scopeFault scope)
  | .look scope name => (r.record.scopes.missing? scope name).map r.scopeFault
  | .openParameters _ _ | .enterFunction _ | .exitFunction _ | .effects _ | .call _ | .ask _
  | .report _ => none

/-- What an event changes besides the journal. A variable can be used once it is declared, until
its block is left; inside a function only those of the function can be used. -/
def change (r : Run) : Event → Run
  | .enterBlock id parent => { r with record := r.record.openBlock id parent }
  | .exitBlock _ scope => { r with active := r.active.filter fun v => v.1 ≠ scope }
  | .openParameters body parent =>
    { r with
      record := r.record.openParameters body parent
      active := []
      suspended := r.active :: r.suspended }
  | .exitFunction _ =>
    match r.suspended with
    | [] => r
    | outer :: suspended => { r with active := outer, suspended }
  | .declare scope name symbol =>
    { r with
      record := r.record.declare scope name symbol
      active := if symbol.isVariable then (scope, name) :: r.active else r.active }
  | .enterFunction _ | .look _ _ | .effects _ | .call _ | .ask _ | .report _ => r

/-- The state after a fault; the first one stays. -/
def stop (r : Run) (f : Fault) : Run :=
  if r.fault.isSome then r else { r with fault := some f }

/-- The state after an event. -/
def take (r : Run) (e : Event) : Run :=
  if r.fault.isSome then r
  else match r.clash e with
    | some f => r.stop f
    | none => { r.change e with journal := e :: r.journal }

/-- The events in their order. -/
def events (r : Run) : List Event :=
  r.journal.reverse

/-- The problems found, in order. -/
def findings (r : Run) : List Finding :=
  r.events.filterMap Event.finding?

/-- The names asked for, in order. -/
def accesses (r : Run) : List Access :=
  r.events.filterMap fun
    | .ask a => some a
    | _ => none

/-- The events that bear on effects, in order. -/
def collectorSteps (r : Run) : List Collector.Step :=
  r.events.filterMap Event.collectorStep?

end Run

/-- A part of an analysis. -/
abbrev Check := StateM Run

namespace Check

def emit (e : Event) : Check Unit :=
  modify (·.take e)

/-- Ends the run. -/
def stop (f : Fault) : Check Unit :=
  modify (·.stop f)

def report (p : Problem) (span : Span) : Check Unit :=
  emit (.report ⟨p, span⟩)

/-- Reports problems of one place. -/
def reportAll (ps : List Problem) (span : Span) : Check Unit :=
  ps.forM (report · span)

/-- Enters a block, and gives the scope of its names. -/
def enterBlock (id : BlockId) (parent : Option ScopeId) : Check ScopeId := do
  let scope := (← get).record.scopes.size
  emit (.enterBlock id parent)
  return scope

/-- Opens the scope of a function's parameters. -/
def openParameters (body : BlockId) (parent : ScopeId) : Check ScopeId := do
  let scope := (← get).record.scopes.size
  emit (.openParameters body parent)
  return scope

end Check

end Yul
