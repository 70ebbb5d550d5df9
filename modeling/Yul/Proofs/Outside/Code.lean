import Yul.Check.Names
import Yul.Proofs.Effects.Deeds
import Yul.Proofs.WellFormed.Judgement

/-!
# What code mentions

`Block.mentions` lists what a piece of code mentions, in the order in which it is visited: the names
that are read, assigned to, called and declared, each with whether it stands for something that can
be seen from there, and the names of data. A name is free if nothing can be seen under it and no
builtin has it; the free names that are read or assigned to are those that only the outside can know
(`Mention.access?`).

The names around a piece of code are told by `Surroundings`, so all of this is read off the code
alone.
-/

namespace Yul

/-- Something that code mentions. -/
inductive Mention where
  /-- a name that is read or assigned to -/
  | use (x : Identifier) (kind : AccessKind) (seen : Bool)
  /-- the head of a call that no builtin has -/
  | head (f : Identifier) (seen : Bool)
  /-- a name that is to be declared -/
  | declaration (name : Name) (seen : Bool)
  /-- the name of data -/
  | data (name : String) (span : Span)
deriving DecidableEq, Repr

/-- The problem of a name that is not known outside either. -/
def Access.refusal (a : Access) : Finding :=
  match a.kind with
  | .read | .addressOf => ⟨.identifierNotFound a.name, a.span⟩
  | .write => ⟨.notAssignable, a.span⟩

theorem Access.refusal_of_read (name : Name) (span : Span) :
    Access.refusal ⟨name, Check.readKind name, span⟩ = ⟨.identifierNotFound name, span⟩ := by
  rw [Check.readKind]
  split <;> rfl

namespace Mention

/-- The name that is looked for, and whether something can be seen under it. -/
def sought? : Mention → Option (Name × Bool)
  | use x _ seen | head x seen => some (x.name, seen)
  | declaration name seen => some (name, seen)
  | data _ _ => none

/-- The use of a free name. -/
def access? : Mention → Option Access
  | use x kind seen =>
    if seen || (Builtin.find? x.name).isSome then none else some ⟨x.name, kind, x.span⟩
  | head _ _ | declaration _ _ | data _ _ => none

/-- The problem of a name that is declared nowhere. -/
def undeclared? (cfg : Setting) (m : Mention) : Option Finding :=
  match m with
  | use _ _ _ =>
    m.access?.bind fun a => if (cfg.outsideType? a).isNone then some a.refusal else none
  | head f seen => if seen then none else some ⟨.functionNotFound f.name, f.span⟩
  | declaration _ _ => none
  | data name span => if cfg.dataNames.contains name then none else some ⟨.unknownData name, span⟩

end Mention

namespace Surroundings

/-- Whether a name stands for something that can be seen. -/
def sees (around : Surroundings) (name : Name) : Bool :=
  match around name with
  | some .variable | some (.function _) => true
  | some .hidden | .none => false

/-- The mentions of names that are assigned to. -/
def mentionsOfTargets (around : Surroundings) (xs : List Identifier) : List Mention :=
  xs.map fun x => .use x .write (around.sees x.name)

/-- The mentions of variables that are declared one after the other. -/
def mentionsOfVariables (around : Surroundings) : List TypedName → List Mention
  | [] => []
  | x :: xs =>
    .declaration x.name (around.sees x.name) ::
      (around.accept x.name .variable).mentionsOfVariables xs

/-- The mentions of functions that block `id` declares one after the other. -/
def mentionsOfFunctions (around : Surroundings) (id : BlockId) : List FunctionDef → List Mention
  | [] => []
  | f :: fs =>
    .declaration f.name.name (around.sees f.name.name) ::
      (around.accept f.name.name (.function id)).mentionsOfFunctions id fs

/-- The mention of the head of a call. -/
def mentionsOfHead (around : Surroundings) (f : Identifier) : List Mention :=
  if (Builtin.find? f.name).isSome then [] else [.head f (around.sees f.name)]

end Surroundings

/-- The mention of data by an argument that has to be a string. -/
def mentionsOfString (kind : LiteralArgument) (e : Expr) : List Mention :=
  match kind, e.string? with
  | .dataName, some (l, bytes) => [.data (Text.decodeLossy bytes) l.span]
  | _, _ => []

mutual

/-- What an expression mentions, where `around` are the names around it. -/
def Expr.mentions (around : Surroundings) : Expr → List Mention
  | .literal _ => []
  | .identifier x => [.use x (Check.readKind x.name) (around.sees x.name)]
  | .call f args _ =>
    around.mentionsOfHead f ++ mentionsOfArguments around (Builtin.find? f.name) 0 args

/-- What the arguments of a call mention from `index` on. -/
def mentionsOfArguments (around : Surroundings) (builtin : Option Builtin) (index : Nat) :
    List Expr → List Mention
  | [] => []
  | e :: rest =>
    (match builtin.bind (·.literalArgument? index) with
      | some kind => mentionsOfString kind e
      | none => e.mentions around) ++ mentionsOfArguments around builtin (index + 1) rest

end

mutual

/-- What a statement mentions. -/
def Stmt.mentions (around : Surroundings) : Stmt → List Mention
  | .expression e => e.mentions around
  | .assignment xs value _ => value.mentions around ++ around.mentionsOfTargets xs
  | .declaration xs none _ => around.mentionsOfVariables xs
  | .declaration xs (some value) _ => value.mentions around ++ around.mentionsOfVariables xs
  | .function f _ => f.mentions around
  | .ifThen e body _ => e.mentions around ++ body.mentions around
  | .switch subject arms _ => subject.mentions around ++ mentionsOfCases around arms
  | .forLoop ⟨id, statements, _⟩ e post body _ =>
    let start := around.inBlock id statements
    let inner := statements.foldl Surroundings.after start
    around.mentionsOfFunctions id (functionsOf statements) ++ (mentionsOfStmts start statements ++
      (e.mentions inner ++ (body.mentions inner ++ post.mentions inner)))
  | .breakLoop _ | .continueLoop _ | .leave _ => []
  | .block b => b.mentions around

/-- What the parameters and the body of a function mention. -/
def FunctionDef.mentions (around : Surroundings) : FunctionDef → List Mention
  | ⟨_, parameters, returns, body⟩ =>
    around.inFunction.mentionsOfVariables (parameters ++ returns) ++
      body.mentions (around.inFunction.acceptVariables (parameters ++ returns))

/-- What a block mentions, its functions first. -/
def Block.mentions (around : Surroundings) : Block → List Mention
  | ⟨id, statements, _⟩ =>
    around.mentionsOfFunctions id (functionsOf statements) ++
      mentionsOfStmts (around.inBlock id statements) statements

def mentionsOfStmts (around : Surroundings) : List Stmt → List Mention
  | [] => []
  | s :: rest => s.mentions around ++ mentionsOfStmts (around.after s) rest

def mentionsOfCases (around : Surroundings) : List Case → List Mention
  | [] => []
  | ⟨_, body, _⟩ :: rest => body.mentions around ++ mentionsOfCases around rest

end

end Yul
