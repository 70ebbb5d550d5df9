import Mathlib.Data.List.Basic
import Yul.Proofs.Effects.Regions

/-!
# What code does, correct or not

`Block.account` says what correct code does. An analysis goes on behind a problem, so code with
problems has side effects as well, and `Block.deeds` says what it does: a name that is taken is not
declared again, a call of what is no function does nothing but evaluate its arguments, and an
argument that has to be a string is not evaluated, whatever it is.

The names around a piece of code are told by `Surroundings`, which say less than the environment of
a judgement but say it of all code. A variable beyond a function cannot be used in the function, and
its name cannot be declared there.
-/

namespace Yul

/-- What a name stands for as far as calls and declarations go. -/
inductive Standing where
  | variable
  /-- a variable beyond a function -/
  | hidden
  | function (home : BlockId)
deriving DecidableEq, Repr

namespace Standing

/-- What a name stands for inside a function that is defined where it is `s`. -/
def hide : Standing → Standing
  | «variable» | hidden => hidden
  | function home => function home

/-- The block that defines the function. -/
def home? : Standing → Option BlockId
  | «variable» | hidden => none
  | function home => some home

end Standing

/-- What names stand for around a piece of code. -/
abbrev Surroundings := Name → Option Standing

namespace Surroundings

/-- No name at all. -/
def none : Surroundings := fun _ => .none

/-- With one more name, unless it is taken. -/
def accept (around : Surroundings) (name : Name) (s : Standing) : Surroundings :=
  fun x => (around x).or (if x = name then some s else .none)

/-- With variables that are declared together. -/
def acceptVariables (around : Surroundings) (xs : List TypedName) : Surroundings :=
  xs.foldl (fun around x => around.accept x.name .variable) around

/-- With functions of block `id`. -/
def acceptFunctions (around : Surroundings) (id : BlockId) (fs : List FunctionDef) : Surroundings :=
  fs.foldl (fun around f => around.accept f.name.name (.function id)) around

/-- For the statements of block `id`. -/
def inBlock (around : Surroundings) (id : BlockId) (statements : List Stmt) : Surroundings :=
  around.acceptFunctions id (functionsOf statements)

/-- For the parameters of a function. -/
def inFunction (around : Surroundings) : Surroundings :=
  fun x => (around x).map Standing.hide

/-- Behind a statement. -/
def after (around : Surroundings) : Stmt → Surroundings
  | .declaration xs _ _ => around.acceptVariables xs
  | _ => around

/-- The blocks that define the functions that can be called. -/
def homes (around : Surroundings) : Homes :=
  fun x => (around x).bind Standing.home?

section

variable {around : Surroundings} {name : Name}

theorem accept_of_taken (h : around name ≠ .none) (s : Standing) : around.accept name s = around := by
  funext x
  rw [accept]
  by_cases hx : x = name
  · obtain ⟨s', hs'⟩ := Option.ne_none_iff_exists'.mp h
    rw [hx, hs', Option.some_or]
  · rw [if_neg hx, Option.or_none]

/-- The functions of a block are seen throughout it, in whichever order they are defined. -/
theorem acceptFunctions_apply (around : Surroundings) (id : BlockId) (fs : List FunctionDef)
    (x : Name) : around.acceptFunctions id fs x =
      (around x).or (if x ∈ fs.map (·.name.name) then some (.function id) else .none) := by
  induction fs generalizing around with
  | nil => exact (Option.or_none).symm
  | cons f fs ih =>
    rw [acceptFunctions, List.foldl_cons]
    refine (ih _).trans ?_
    rw [accept, Option.or_assoc, List.map_cons]
    congr 1
    by_cases hx : x = f.name.name
    · rw [if_pos hx, Option.some_or, if_pos (hx ▸ List.mem_cons_self)]
    · rw [if_neg hx, Option.none_or]
      exact if_congr (List.mem_cons.trans (or_iff_right hx)).symm rfl rfl

theorem acceptFunctions_perm (around : Surroundings) (id : BlockId) {fs fs' : List FunctionDef}
    (h : (fs.map (·.name.name)).Perm (fs'.map (·.name.name))) :
    around.acceptFunctions id fs = around.acceptFunctions id fs' := by
  funext x
  rw [acceptFunctions_apply, acceptFunctions_apply]
  exact congrArg (around x).or (if_congr h.mem_iff rfl rfl)

end

end Surroundings

/-! ## Deeds -/

mutual

/-- What is done when an expression is evaluated. -/
def Expr.deeds (home : Homes) : Expr → List (Act FunctionKey)
  | .literal _ | .identifier _ => []
  | .call f args _ => actsOfHead home f.name ++ deedsOfArguments home (Builtin.find? f.name) 0 args

/-- What is done for the arguments of a call from `index` on. -/
def deedsOfArguments (home : Homes) (builtin : Option Builtin) (index : Nat) :
    List Expr → List (Act FunctionKey)
  | [] => []
  | e :: rest =>
    (match builtin.bind (·.literalArgument? index) with
      | some _ => []
      | none => e.deeds home) ++ deedsOfArguments home builtin (index + 1) rest

end

/-- What is done when an expression is evaluated, as an account. -/
def Expr.deedsAccount (home : Homes) (e : Expr) : Account FunctionKey :=
  .ofActs (e.deeds home)

mutual

/-- What a statement does; `here` is the innermost block around it. -/
def Stmt.deeds (around : Surroundings) (here : BlockId) : Stmt → Account FunctionKey
  | .expression e => e.deedsAccount around.homes
  | .assignment _ value _ => value.deedsAccount around.homes
  | .declaration _ none _ => {}
  | .declaration _ (some value) _ => value.deedsAccount around.homes
  | .function f _ => f.deeds around here
  | .ifThen e body _ => (e.deedsAccount around.homes).append (body.deeds around)
  | .switch subject arms _ => (subject.deedsAccount around.homes).append (deedsOfCases around arms)
  | .forLoop ⟨id, statements, _⟩ e post body _ =>
    let start := around.inBlock id statements
    let inner := statements.foldl Surroundings.after start
    .inBlock id <| (deedsOfStmts start id statements).append <|
      (e.deedsAccount inner.homes).append <| (body.deeds inner).append <|
        (post.deeds inner).append (.ofActs [.effects .looping])
  | .breakLoop _ | .continueLoop _ | .leave _ => {}
  | .block b => b.deeds around

/-- What the body of a function does. -/
def FunctionDef.deeds (around : Surroundings) (here : BlockId) : FunctionDef → Account FunctionKey
  | ⟨name, parameters, returns, body⟩ =>
    (body.deeds (around.inFunction.acceptVariables (parameters ++ returns))).inFunction
      ⟨here, name.name⟩

/-- What a block does. -/
def Block.deeds (around : Surroundings) : Block → Account FunctionKey
  | ⟨id, statements, _⟩ => (deedsOfStmts (around.inBlock id statements) id statements).inBlock id

def deedsOfStmts (around : Surroundings) (here : BlockId) : List Stmt → Account FunctionKey
  | [] => {}
  | s :: rest => (s.deeds around here).append (deedsOfStmts (around.after s) here rest)

def deedsOfCases (around : Surroundings) : List Case → Account FunctionKey
  | [] => {}
  | ⟨_, body, _⟩ :: rest => (body.deeds around).append (deedsOfCases around rest)

end

end Yul
