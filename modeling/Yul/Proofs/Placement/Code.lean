import Yul.Proofs.Run.Plain

/-!
# Where statements stand

A jump needs the body of a loop around it, `leave` needs a function, and a function must not be
defined in the first block of a loop. What counts are the parts of loops and the function bodies
that stand around, read off the code alone: `Block.placed` lists all statements that care about
their place, in the order in which they are visited, each with what stands around it.
-/

namespace Yul

/-- What can stand around a statement, as far as its place is concerned. -/
inductive Enclosure where
  /-- the first block of a loop -/
  | init
  | loopBody
  | post
  | functionBody
deriving DecidableEq, Repr

/-- What has to stand in the right place. -/
inductive PlaceBound where
  | jump (jump : LoopJump)
  | leave
  /-- the definition of a function -/
  | definition
deriving DecidableEq, Repr

/-- A statement that cares about its place. -/
structure Placed where
  what : PlaceBound
  /-- the place of the statement, or that of the name that is defined -/
  span : Span
  /-- what stands around it, the innermost first -/
  around : List Enclosure
deriving DecidableEq, Repr

/-- The innermost part of a loop inside the innermost function. -/
def loopPart? : List Enclosure → Option Enclosure
  | [] => none
  | .functionBody :: _ => none
  | part :: _ => some part

namespace Placed

/-- The problem of a jump outside the body of a loop, or of `leave` outside a function. -/
def stray? (p : Placed) : Option Finding :=
  match p.what with
  | .jump jump =>
    if loopPart? p.around = some .loopBody then none else some ⟨.jumpOutsideLoop jump, p.span⟩
  | .leave => if .functionBody ∈ p.around then none else some ⟨.leaveOutsideFunction, p.span⟩
  | .definition => none

/-- The problem of a function that is defined in the first block of a loop. -/
def inInit? (p : Placed) : Option Finding :=
  match p.what with
  | .definition => if loopPart? p.around = some .init then some ⟨.functionInInit, p.span⟩ else none
  | .jump _ | .leave => none

/-- What is wrong with the place of a statement. -/
def problem? (p : Placed) : Option Finding :=
  p.stray?.or p.inInit?

end Placed

mutual

/-- The statements that care about their place, where `around` stands around the code. -/
def Stmt.placed (around : List Enclosure) : Stmt → List Placed
  | .function f _ => f.placed around
  | .ifThen _ body _ => body.placed around
  | .switch _ arms _ => placedOfCases around arms
  | .forLoop init _ post body _ =>
    init.placed (.init :: around) ++ body.placed (.loopBody :: around) ++
      post.placed (.post :: around)
  | .breakLoop span => [⟨.jump .breakLoop, span, around⟩]
  | .continueLoop span => [⟨.jump .continueLoop, span, around⟩]
  | .leave span => [⟨.leave, span, around⟩]
  | .block b => b.placed around
  | .expression _ | .assignment _ _ _ | .declaration _ _ _ => []

def FunctionDef.placed (around : List Enclosure) : FunctionDef → List Placed
  | ⟨name, _, _, body⟩ =>
    ⟨.definition, name.span, around⟩ :: body.placed (.functionBody :: around)

def placedOfStmts (around : List Enclosure) : List Stmt → List Placed
  | [] => []
  | s :: rest => s.placed around ++ placedOfStmts around rest

def placedOfCases (around : List Enclosure) : List Case → List Placed
  | [] => []
  | ⟨_, body, _⟩ :: rest => body.placed around ++ placedOfCases around rest

def Block.placed (around : List Enclosure) : Block → List Placed
  | ⟨_, statements, _⟩ => placedOfStmts around statements

end

/-- All that is wrong with the places of statements in a piece of code. -/
def misplaced (ps : List Placed) : List Finding :=
  ps.filterMap Placed.problem?

theorem misplaced_append (ps ps' : List Placed) :
    misplaced (ps ++ ps') = misplaced ps ++ misplaced ps' :=
  List.filterMap_append

/-- The jumps of a block that stand outside the body of a loop or outside a function. -/
def Block.strayJumps (b : Block) : List Finding :=
  (b.placed []).filterMap Placed.stray?

/-- The definitions of functions that stand in the first block of a loop. -/
def Block.definitionsInInit (b : Block) : List Finding :=
  (b.placed []).filterMap Placed.inInit?

end Yul
