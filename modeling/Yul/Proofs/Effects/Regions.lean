import Yul.Evm.Builtin
import Yul.Proofs.Effects.Account

/-!
# What code does, read off its tree

`Block.account` lists the calls of builtins, the loops and the calls of functions in each block of a
piece of code and in the body of each function, without walking through it. A call belongs to every
block around it up to the next function; a loop belongs to the blocks around it and to its own first
block, which takes in the whole loop. A function that is called is the one that the innermost block
around the call defines under the name.
-/

namespace Yul

/-- A function: the block that defines it, and its name. -/
structure FunctionKey where
  home : BlockId
  name : Name
deriving DecidableEq, Repr

/-- The innermost block around a piece of code that defines a function of a name. -/
abbrev Homes := Name → Option BlockId

namespace Homes

/-- No block at all. -/
def none : Homes := fun _ => .none

/-- With a function that block `id` defines. -/
def define (home : Homes) (id : BlockId) (name : Name) : Homes :=
  fun x => if x = name then some id else home x

/-- For the statements of block `id`. -/
def enter (home : Homes) (id : BlockId) (statements : List Stmt) : Homes :=
  (functionsOf statements).foldl (fun home f => home.define id f.name.name) home

end Homes

/-- What the head of a call does. -/
def actsOfHead (home : Homes) (f : Name) : List (Act FunctionKey) :=
  match Builtin.find? f with
  | some b => [.effects b.effects]
  | none => ((home f).map fun id => Act.call ⟨id, f⟩).toList

mutual

def Expr.acts (home : Homes) : Expr → List (Act FunctionKey)
  | .literal _ | .identifier _ => []
  | .call f args _ => actsOfHead home f.name ++ actsOfArguments home args

def actsOfArguments (home : Homes) : List Expr → List (Act FunctionKey)
  | [] => []
  | a :: rest => a.acts home ++ actsOfArguments home rest

end

theorem Expr.acts_of_string {home : Homes} {e : Expr} {found : Literal × List UInt8}
    (h : e.string? = some found) : e.acts home = [] := by
  cases e with
  | literal l => rfl
  | identifier | call => exact absurd h (by simp [Expr.string?])

/-- What is done outside of blocks and functions. -/
def Account.ofActs {φ : Type} (acts : List (Act φ)) : Account φ where
  acts := acts

/-- The account of an expression. -/
def Expr.account (home : Homes) (e : Expr) : Account FunctionKey :=
  .ofActs (e.acts home)

mutual

/-- The account of a statement; `here` is the innermost block around it. -/
def Stmt.account (home : Homes) (here : BlockId) : Stmt → Account FunctionKey
  | .expression e => e.account home
  | .assignment _ value _ => value.account home
  | .declaration _ none _ => {}
  | .declaration _ (some value) _ => value.account home
  | .function f _ => f.account home here
  | .ifThen e body _ => (e.account home).append (body.account home)
  | .switch subject arms _ => (subject.account home).append (accountOfCases home arms)
  | .forLoop ⟨id, statements, _⟩ e post body _ =>
    let inner := home.enter id statements
    .inBlock id <| (accountOfStmts inner id statements).append <| (e.account inner).append <|
      (body.account inner).append <| (post.account inner).append (.ofActs [.effects .looping])
  | .breakLoop _ | .continueLoop _ | .leave _ => {}
  | .block b => b.account home

def FunctionDef.account (home : Homes) (here : BlockId) : FunctionDef → Account FunctionKey
  | ⟨name, _, _, body⟩ => (body.account home).inFunction ⟨here, name.name⟩

/-- The account of a block. -/
def Block.account (home : Homes) : Block → Account FunctionKey
  | ⟨id, statements, _⟩ => (accountOfStmts (home.enter id statements) id statements).inBlock id

def accountOfStmts (home : Homes) (here : BlockId) : List Stmt → Account FunctionKey
  | [] => {}
  | s :: rest => (s.account home here).append (accountOfStmts home here rest)

def accountOfCases (home : Homes) : List Case → Account FunctionKey
  | [] => {}
  | ⟨_, body, _⟩ :: rest => (body.account home).append (accountOfCases home rest)

end

/-! ## Functions under other names -/

def Act.map {φ ψ : Type} (g : φ → ψ) : Act φ → Act ψ
  | effects e => effects e
  | call f => call (g f)

namespace Account

variable {φ ψ : Type} (g : φ → ψ)

/-- An account with its functions renamed. -/
@[simps] def map (a : Account φ) : Account ψ where
  acts := a.acts.map (Act.map g)
  blocks := a.blocks.map fun (id, acts) => (id, acts.map (Act.map g))
  functions := a.functions.map fun (f, acts) => (g f, acts.map (Act.map g))

theorem keys_map_functions (a : Account φ) :
    (a.map g).functions.map (·.1) = (a.functions.map (·.1)).map g := by
  simp [map]

theorem keys_map_blocks (a : Account φ) :
    (a.map g).blocks.map (·.1) = a.blocks.map (·.1) := by
  simp [map, Function.comp_def]

@[simp] theorem map_append (a b : Account φ) : (a.append b).map g = (a.map g).append (b.map g) := by
  simp [append, map]

@[simp] theorem map_inBlock (id : BlockId) (a : Account φ) :
    (a.inBlock id).map g = (a.map g).inBlock id := by
  simp [inBlock, map]

@[simp] theorem map_inFunction (f : φ) (a : Account φ) :
    (a.inFunction f).map g = (a.map g).inFunction (g f) := by
  simp [inFunction, map]

end Account

end Yul
