import Yul.Proofs.WellFormed.Judgement

/-!
# The scopes that code asks for

Each block of a piece of code has a scope of its own, and so have the parameters and results of each
function. `Block.sites` reads these scopes off the tree, in the order in which they are opened: who a
scope belongs to, which one it hangs below, and what is declared in it. The first block of a loop
stays open over the loop, so the other two blocks of the loop hang below it; the body of a function
hangs below the function's parameters.
-/

namespace Yul

/-- Who a scope belongs to. -/
inductive Holder where
  | block (id : BlockId)
  /-- the parameters and results of the function with the given body -/
  | parameters (body : BlockId)
deriving DecidableEq, Repr

namespace Holder

def isParameters : Holder → Bool
  | block _ => false
  | parameters _ => true

/-- The block that a scope belongs to. -/
def block? : Holder → Option BlockId
  | block id => some id
  | parameters _ => none

/-- The body of the function whose parameters a scope holds. -/
def body? : Holder → Option BlockId
  | block _ => none
  | parameters body => some body

end Holder

/-- A scope that code asks for. -/
structure Site where
  holder : Holder
  /-- who the scope around it belongs to -/
  parent : Option Holder
  /-- what is declared in it, in order -/
  symbols : List (Name × Symbol)
deriving DecidableEq, Repr

section Dialect

variable (d : Dialect)

/-- Variables as a scope holds them. -/
def variableSymbols (xs : List TypedName) : List (Name × Symbol) :=
  xs.map fun x => (x.name, .variable (x.type.getD d.defaultType))

/-- A function as the scope of the block that defines it holds it. -/
def functionSymbol (f : FunctionDef) : Name × Symbol :=
  (f.name.name, .function (d.declaredLabels f.parameters) (d.declaredLabels f.returns))

/-- The variables that a statement declares for the statements behind it. -/
def Stmt.variableSymbols : Stmt → List (Name × Symbol)
  | .declaration xs _ _ => Yul.variableSymbols d xs
  | _ => []

/-- What statements declare directly: functions first, since they are declared throughout. -/
def symbolsOf (statements : List Stmt) : List (Name × Symbol) :=
  (functionsOf statements).map (functionSymbol d) ++ statements.flatMap (Stmt.variableSymbols d)

mutual

/-- The scopes inside a statement; `around` is whose scope the statement stands in. -/
def Stmt.sites (around : Holder) : Stmt → List Site
  | .expression _ | .assignment _ _ _ | .declaration _ _ _ | .breakLoop _ | .continueLoop _
  | .leave _ => []
  | .function f _ => f.sites around
  | .ifThen _ body _ => body.sites around
  | .switch _ cases _ => sitesOfCases around cases
  | .forLoop ⟨id, statements, _⟩ _ post body _ =>
    ⟨.block id, around, symbolsOf d statements⟩ :: (sitesOfStmts (.block id) statements ++
      (body.sites (.block id) ++ post.sites (.block id)))
  | .block b => b.sites around

/-- The scopes of the definition of a function: its parameters, its body, and those inside. -/
def FunctionDef.sites (around : Holder) : FunctionDef → List Site
  | ⟨_, params, returns, body⟩ =>
    ⟨.parameters body.id, around, variableSymbols d (params ++ returns)⟩ ::
      body.sites (.parameters body.id)

/-- The scopes of a block and of what is inside it. -/
def Block.sites (around : Holder) : Block → List Site
  | ⟨id, statements, _⟩ =>
    ⟨.block id, around, symbolsOf d statements⟩ :: sitesOfStmts (.block id) statements

def sitesOfStmts (around : Holder) : List Stmt → List Site
  | [] => []
  | s :: rest => s.sites around ++ sitesOfStmts around rest

def sitesOfCases (around : Holder) : List Case → List Site
  | [] => []
  | ⟨_, body, _⟩ :: rest => body.sites around ++ sitesOfCases around rest

end

/-- The scopes of a block that nothing stands around. -/
def Block.rootSites (b : Block) : List Site :=
  ⟨.block b.id, none, symbolsOf d b.statements⟩ :: sitesOfStmts d (.block b.id) b.statements

end Dialect

/-! ## The order of visits -/

mutual

/-- The numbers of the blocks of a statement in the order in which they are visited. -/
def Stmt.visited : Stmt → List BlockId
  | .expression _ | .assignment _ _ _ | .declaration _ _ _ | .breakLoop _ | .continueLoop _
  | .leave _ => []
  | .function f _ => f.visited
  | .ifThen _ body _ => body.visited
  | .switch _ cases _ => visitedOfCases cases
  | .forLoop init _ post body _ => init.visited ++ (body.visited ++ post.visited)
  | .block b => b.visited

def FunctionDef.visited : FunctionDef → List BlockId
  | ⟨_, _, _, body⟩ => body.visited

def Case.visited : Case → List BlockId
  | ⟨_, body, _⟩ => body.visited

/-- The numbers of a block and the blocks inside it in the order in which they are visited. -/
def Block.visited : Block → List BlockId
  | ⟨id, statements, _⟩ => id :: visitedOfStmts statements

def visitedOfStmts : List Stmt → List BlockId
  | [] => []
  | s :: rest => s.visited ++ visitedOfStmts rest

def visitedOfCases : List Case → List BlockId
  | [] => []
  | c :: rest => c.visited ++ visitedOfCases rest

end

theorem Block.visited_cons (b : Block) : b.visited = b.id :: visitedOfStmts b.statements := by
  cases b
  rfl

/-- The blocks among the scopes that are opened. -/
def visitedOfSites (sites : List Site) : List BlockId :=
  sites.filterMap fun site => site.holder.block?

theorem visitedOfSites_block (id : BlockId) (parent : Option Holder)
    (symbols : List (Name × Symbol)) (sites : List Site) :
    visitedOfSites (⟨.block id, parent, symbols⟩ :: sites) = id :: visitedOfSites sites := rfl

theorem visitedOfSites_parameters (body : BlockId) (parent : Option Holder)
    (symbols : List (Name × Symbol)) (sites : List Site) :
    visitedOfSites (⟨.parameters body, parent, symbols⟩ :: sites) = visitedOfSites sites := rfl

theorem visitedOfSites_append (sites sites' : List Site) :
    visitedOfSites (sites ++ sites') = visitedOfSites sites ++ visitedOfSites sites' :=
  List.filterMap_append

section Visited

variable (d : Dialect)

mutual

theorem Stmt.visited_eq (holder : Holder) (s : Stmt) :
    visitedOfSites (s.sites d holder) = s.visited := by
  match s with
  | .expression _ | .assignment _ _ _ | .declaration _ _ _ | .breakLoop _ | .continueLoop _
  | .leave _ => rfl
  | .function f _ => exact f.visited_eq holder
  | .ifThen _ body _ => exact body.visited_eq holder
  | .switch _ cases _ => exact visitedOfCases_eq holder cases
  | .forLoop ⟨id, statements, _⟩ _ post body _ =>
    rw [Stmt.sites, visitedOfSites_block, visitedOfSites_append, visitedOfSites_append,
      visitedOfStmts_eq, body.visited_eq, post.visited_eq]
    rfl
  | .block b => exact b.visited_eq holder

theorem FunctionDef.visited_eq (holder : Holder) (f : FunctionDef) :
    visitedOfSites (f.sites d holder) = f.visited := by
  match f with
  | ⟨_, _, _, body⟩ => exact body.visited_eq (.parameters body.id)

theorem Block.visited_eq (holder : Holder) (b : Block) :
    visitedOfSites (b.sites d holder) = b.visited := by
  match b with
  | ⟨id, statements, _⟩ => exact congrArg (id :: ·) (visitedOfStmts_eq (.block id) statements)

theorem visitedOfStmts_eq (holder : Holder) (ss : List Stmt) :
    visitedOfSites (sitesOfStmts d holder ss) = visitedOfStmts ss := by
  match ss with
  | [] => rfl
  | s :: rest =>
    rw [sitesOfStmts, visitedOfSites_append, s.visited_eq, visitedOfStmts_eq holder rest]
    rfl

theorem visitedOfCases_eq (holder : Holder) (cs : List Case) :
    visitedOfSites (sitesOfCases d holder cs) = visitedOfCases cs := by
  match cs with
  | [] => rfl
  | ⟨_, body, _⟩ :: rest =>
    rw [sitesOfCases, visitedOfSites_append, body.visited_eq, visitedOfCases_eq holder rest]
    rfl

end

end Visited

end Yul
