import Yul.Evm.Builtin
import Yul.Object

/-!
# Where control leaves

Facts about code that need no analysis: whether the size of memory is asked for anywhere, and which
statement of a row is the first after which the rest is never reached.
-/

namespace Yul

/-! ## Calls in code -/

mutual

/-- Whether a call in an expression has a head that satisfies `p`. -/
def Expr.anyCall (p : Name → Bool) : Expr → Bool
  | .literal _ | .identifier _ => false
  | .call f args _ => anyCallOfExprs p args || p f.name

def anyCallOfExprs (p : Name → Bool) : List Expr → Bool
  | [] => false
  | e :: rest => e.anyCall p || anyCallOfExprs p rest

end

mutual

/-- Whether a call anywhere in a statement has a head that satisfies `p`. -/
def Stmt.anyCall (p : Name → Bool) : Stmt → Bool
  | .expression e | .assignment _ e _ | .declaration _ (some e) _ => e.anyCall p
  | .declaration _ none _ | .breakLoop _ | .continueLoop _ | .leave _ => false
  | .function f _ => f.anyCall p
  | .ifThen e body _ => e.anyCall p || body.anyCall p
  | .switch e cases _ => e.anyCall p || anyCallOfCases p cases
  | .forLoop init e post body _ =>
    init.anyCall p || e.anyCall p || body.anyCall p || post.anyCall p
  | .block b => b.anyCall p

def FunctionDef.anyCall (p : Name → Bool) : FunctionDef → Bool
  | ⟨_, _, _, body⟩ => body.anyCall p

def Case.anyCall (p : Name → Bool) : Case → Bool
  | ⟨_, body, _⟩ => body.anyCall p

/-- Whether a call anywhere in a block has a head that satisfies `p`. -/
def Block.anyCall (p : Name → Bool) : Block → Bool
  | ⟨_, statements, _⟩ => anyCallOfStmts p statements

def anyCallOfStmts (p : Name → Bool) : List Stmt → Bool
  | [] => false
  | s :: rest => s.anyCall p || anyCallOfStmts p rest

def anyCallOfCases (p : Name → Bool) : List Case → Bool
  | [] => false
  | c :: rest => c.anyCall p || anyCallOfCases p rest

end

/-- Whether a name is that of the builtin that asks for the size of memory. -/
def isMsizeName (name : Name) : Bool :=
  (Builtin.find? name).any (·.isMsize)

/-- Whether code asks for the size of memory. Code that does not may drop memory accesses whose
result is not used. -/
def Block.containsMsize (b : Block) : Bool :=
  b.anyCall isMsizeName

mutual

/-- Whether the code of an object, or of one inside it, asks for the size of memory. -/
def Object.containsMsize : Object → Bool
  | ⟨_, code, objects, _, _⟩ => code.containsMsize || containsMsizeOfObjects objects

def containsMsizeOfObjects : List Object → Bool
  | [] => false
  | o :: rest => o.containsMsize || containsMsizeOfObjects rest

end

/-! ## Leaving a row of statements -/

/-- How a statement leaves the row in which it stands. -/
inductive ControlFlow where
  /-- the next statement follows -/
  | flowOut
  | breakLoop
  | continueLoop
  | leave
  /-- the whole call ends -/
  | terminate
deriving DecidableEq, Repr

/-- How calls of user functions may end, as far as it is known. -/
abbrev KnownExits := List (Name × CallExits)

/-- What is known about the functions that code calls. -/
structure Callees where
  /-- the builtins of the dialect -/
  builtin? : Name → Option Builtin := Builtin.find?
  /-- how calls of user functions may end, if anything is known of them -/
  known : Option KnownExits := none

/-- What is known of user functions goes with the builtins of the table. -/
instance : Coe KnownExits Callees := ⟨fun known => { known := some known }⟩

/-- Whether a call of `name` can return. A builtin's own facts win; functions about which nothing
is known return. -/
def callCanContinue (callees : Callees) (name : Name) : Bool :=
  match callees.builtin? name with
  | some b => b.exits.canContinue
  | none =>
    ((callees.known.bind fun known => known.lookup name).map CallExits.canContinue).getD true

/-- Whether evaluating an expression always ends the call. -/
def Expr.terminates (callees : Callees) (e : Expr) : Bool :=
  e.anyCall fun name => !callCanContinue callees name

/-- How a statement leaves its row, whatever the values are. Blocks inside the statement do not
count. -/
def Stmt.controlFlow (callees : Callees) : Stmt → ControlFlow
  | .expression e | .assignment _ e _ | .declaration _ (some e) _ =>
    if e.terminates callees then .terminate else .flowOut
  | .breakLoop _ => .breakLoop
  | .continueLoop _ => .continueLoop
  | .leave _ => .leave
  | .declaration _ none _ | .function _ _ | .ifThen _ _ _ | .switch _ _ _ | .forLoop _ _ _ _ _
  | .block _ => .flowOut

/-- The first statement after which the next one does not follow: how it leaves, and its index. -/
def firstChange (callees : Callees) (statements : List Stmt) : ControlFlow × Option Nat :=
  match statements.findIdx? fun s => s.controlFlow callees ≠ .flowOut with
  | none => (.flowOut, none)
  | some i => (((statements[i]?).map (Stmt.controlFlow callees)).getD .flowOut, some i)

end Yul
