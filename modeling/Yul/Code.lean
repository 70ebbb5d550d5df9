import Yul.Literal

/-!
# Code

The tree of a piece of code: expressions, statements and blocks. Each block of a source has a
number of its own. Nodes carry the span from their first to their last token; that of an
expression statement or a nested block is the span of what it holds.
-/

namespace Yul

/-- The number of a block. -/
abbrev BlockId := Nat

/-- A name where it stands in the source. -/
structure Identifier where
  name : Name
  span : Span
deriving DecidableEq, Repr

/-- A name that is declared, with the type written behind it. -/
structure TypedName where
  name : Name
  type : Option Label
  span : Span
deriving DecidableEq, Repr

inductive Expr where
  | literal (l : Literal)
  | identifier (x : Identifier)
  | call (callee : Identifier) (arguments : List Expr) (span : Span)
deriving Repr

namespace Expr

def span : Expr → Span
  | literal l => l.span
  | identifier x => x.span
  | call _ _ span => span

/-- The string that an expression is, if it is one. -/
def string? : Expr → Option (Literal × List UInt8)
  | literal l =>
    match l.value with
    | .bytes bytes => some (l, bytes)
    | .number _ | .truth _ => none
  | identifier _ | call _ _ _ => none

end Expr

mutual

/-- A statement. -/
inductive Stmt where
  | expression (e : Expr)
  | assignment (targets : List Identifier) (value : Expr) (span : Span)
  | declaration (declared : List TypedName) (value : Option Expr) (span : Span)
  | function (f : FunctionDef) (span : Span)
  | ifThen (condition : Expr) (body : Block) (span : Span)
  | switch (subject : Expr) (cases : List Case) (span : Span)
  | forLoop (init : Block) (condition : Expr) (post body : Block) (span : Span)
  | breakLoop (span : Span)
  | continueLoop (span : Span)
  | leave (span : Span)
  | block (b : Block)

/-- The definition of a function. -/
structure FunctionDef where
  name : Identifier
  parameters : List TypedName
  returns : List TypedName
  body : Block

/-- An arm of a switch; the default arm has no value. -/
structure Case where
  value : Option Literal
  body : Block
  span : Span

/-- Statements between braces. -/
structure Block where
  id : BlockId
  statements : List Stmt
  span : Span

end

instance : Inhabited Block := ⟨⟨0, [], default⟩⟩

namespace Case

def isDefault (c : Case) : Bool :=
  c.value.isNone

end Case

namespace Stmt

def span : Stmt → Span
  | expression e => e.span
  | assignment _ _ span | declaration _ _ span | function _ span | ifThen _ _ span
  | switch _ _ span | forLoop _ _ _ _ span | breakLoop span | continueLoop span | leave span =>
    span
  | block b => b.span

end Stmt

/-- The functions that are defined directly among statements. -/
def functionsOf : List Stmt → List FunctionDef :=
  List.filterMap fun
    | .function f _ => some f
    | _ => none

mutual

/-- The blocks of a statement, those inside others included. -/
def Stmt.blocks : Stmt → List Block
  | .expression _ | .assignment _ _ _ | .declaration _ _ _ | .breakLoop _ | .continueLoop _
  | .leave _ => []
  | .function f _ => f.blocks
  | .ifThen _ body _ => body.blocks
  | .switch _ cases _ => blocksOfCases cases
  | .forLoop init _ post body _ => init.blocks ++ post.blocks ++ body.blocks
  | .block b => b.blocks

def FunctionDef.blocks : FunctionDef → List Block
  | ⟨_, _, _, body⟩ => body.blocks

def Case.blocks : Case → List Block
  | ⟨_, body, _⟩ => body.blocks

/-- A block and the blocks inside it, in the order of their opening braces. -/
def Block.blocks : Block → List Block
  | ⟨id, statements, span⟩ => ⟨id, statements, span⟩ :: blocksOfStmts statements

def blocksOfStmts : List Stmt → List Block
  | [] => []
  | s :: rest => s.blocks ++ blocksOfStmts rest

def blocksOfCases : List Case → List Block
  | [] => []
  | c :: rest => c.blocks ++ blocksOfCases rest

end

end Yul
