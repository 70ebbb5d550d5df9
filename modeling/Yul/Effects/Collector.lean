import Yul.Code
import Yul.Effects.CallGraph

/-!
# Collecting side effects

While code is walked through, every block and every function body has a frame that gathers what is
done and called in it. The frame of a block that is left is merged into the frame around it; that
of a function body is kept as the facts of the function, since a definition does nothing by
itself. `Collector.summarize` adds what the called functions do.

A frame can only be closed by the block or function that opened it.
-/

namespace Yul

/-- What a frame was opened for. -/
inductive FrameOwner where
  | block (id : BlockId)
  | function (f : FunctionId)
deriving DecidableEq, Repr

structure Frame where
  owner : FrameOwner
  facts : Facts
deriving DecidableEq, Repr

/-- A frame that should be closed but is not the innermost one. -/
structure Imbalance where
  expected : FrameOwner
  found : Option FrameOwner
deriving DecidableEq, Repr

namespace Imbalance

def message (i : Imbalance) : String :=
  match i.expected, i.found with
  | .block a, some (.block b) =>
    s!"unbalanced effect frames: expected Block(BlockId({a})), found Some(Block(BlockId({b})))"
  | .block a, none => s!"unbalanced effect frames: expected Block(BlockId({a})), found None"
  | _, _ => "unbalanced effect frames"

end Imbalance

/-- What has been gathered so far. -/
structure Collector where
  /-- the open frames, the innermost first -/
  frames : List Frame := []
  /-- the facts of the blocks that have been left, the latest first -/
  blocks : List (BlockId × Facts) := []
  /-- the facts of the functions whose bodies have been left -/
  functions : CallGraph := {}
  /-- everything that was done anywhere -/
  total : SideEffects := .none
deriving DecidableEq, Repr, Inhabited

/-- What happens to a collector. -/
inductive Collector.Step where
  | enterBlock (id : BlockId)
  | exitBlock (id : BlockId)
  | enterFunction (f : FunctionId)
  | exitFunction (f : FunctionId)
  | add (effects : SideEffects)
  | call (f : FunctionId)
deriving DecidableEq, Repr

/-- What blocks, functions and all code together may do, called functions included. -/
structure EffectSummary where
  blocks : List (BlockId × SideEffects)
  functions : List (FunctionId × SideEffects)
  total : SideEffects
deriving DecidableEq, Repr

namespace Collector

/-- Opens a frame. -/
def push (c : Collector) (owner : FrameOwner) : Collector :=
  { c with frames := ⟨owner, .none⟩ :: c.frames }

/-- Joins `facts` to those of the innermost frame. -/
def gather (c : Collector) (facts : Facts) : Collector :=
  match c.frames with
  | [] => c
  | frame :: outer => { c with frames := { frame with facts := frame.facts.join facts } :: outer }

/-- Closes the frame of `owner` and hands out its facts. -/
def pop (c : Collector) (owner : FrameOwner) : Except Imbalance (Facts × Collector) :=
  match c.frames with
  | [] => .error ⟨owner, none⟩
  | frame :: outer =>
    if frame.owner = owner then .ok (frame.facts, { c with frames := outer })
    else .error ⟨owner, some frame.owner⟩

def step (c : Collector) : Step → Except Imbalance Collector
  | .enterBlock id => .ok (c.push (.block id))
  | .exitBlock id => do
    let (facts, c) ← c.pop (.block id)
    let c := c.gather facts
    return { c with blocks := (id, facts) :: c.blocks }
  | .enterFunction f => .ok (c.push (.function f))
  | .exitFunction f => do
    let (facts, c) ← c.pop (.function f)
    return { c with functions := c.functions.record f facts }
  | .add effects =>
    let c := { c with total := c.total.join effects }
    .ok (c.gather ⟨effects, []⟩)
  | .call f => .ok (c.gather ⟨.none, [f]⟩)

/-- The collector after a row of steps, or the first that does not fit. -/
def run (c : Collector) (steps : List Step) : Except Imbalance Collector :=
  steps.foldlM step c

/-- What the code that was walked through may do, in the order in which its blocks were left. -/
def summarize (c : Collector) : EffectSummary :=
  let functions := c.functions.summaries
  let withCallees (facts : Facts) : SideEffects :=
    facts.callees.foldl (fun e f => e.join ((functions.lookup f).getD .none)) facts.effects
  { blocks := c.blocks.reverse.map fun (id, facts) => (id, withCallees facts)
    functions
    total := functions.foldl (fun e (_, summary) => e.join summary) c.total }

end Collector

end Yul
