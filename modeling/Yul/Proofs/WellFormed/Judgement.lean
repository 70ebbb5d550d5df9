import Mathlib.Algebra.Group.Nat.Defs
import Mathlib.Data.List.Forall2
import Yul.Check.Stmt

/-!
# Well-formed code

When code is well-formed, said without problems, reports and recovery. A piece of code is judged in
the names around it (`Env`): what each name stands for that can be used there, and which names are
declared, seen or not.

* `Yields cfg env e types`: the expression yields one value for each of the labels.
* `Stmt.WellFormed cfg env place s`: the statement is well-formed at its place; `Env.after` adds
  what it declares.
* `Block.WellFormed cfg env place b`: the functions of the block are declared throughout it.
-/

namespace Yul

/-! ## Literals and annotations -/

/-- The number that digits denote: hexadecimal ones behind `0x`, else decimal ones. -/
def numberValue? : List Char → Option Nat
  | '0' :: 'x' :: digits => Text.numeral? 16 digits
  | digits => Text.numeral? 10 digits

/-- Whether a value fits into a word. -/
def LiteralValue.FitsWord : LiteralValue → Prop
  | number digits => ∃ n, numberValue? digits.toList = some n ∧ n < 2 ^ 256
  | bytes bs => bs.length ≤ 32
  | truth _ => True

/-- Whether an annotation is a type, if there is one. -/
def Dialect.Annotates (d : Dialect) (written : Option Label) : Prop :=
  ∀ label, written = some label → d.isType label = true

/-- The label of a literal: its annotation, or else the label of values of its kind. -/
def Literal.label (d : Dialect) (l : Literal) : Label :=
  l.type.getD (match l.value with
    | .truth _ => d.boolType
    | .number _ | .bytes _ => d.defaultType)

/-- A literal that can be used as a value. In the typed dialect truth values carry the label of
truth values, and other values do not. -/
structure Literal.WellFormed (d : Dialect) (l : Literal) : Prop where
  label : d.Annotates l.type
  fits : l.value.FitsWord
  truth : ∀ value, l.value = .truth value → l.label d = d.boolType
  other : (∀ value, l.value ≠ .truth value) → d.flavour = .typed → l.label d ≠ d.boolType

/-- Whether all annotations of declared names are types. -/
def Dialect.AnnotatesAll (d : Dialect) (xs : List TypedName) : Prop :=
  ∀ x ∈ xs, d.Annotates x.type

/-- The labels of declared names: their annotations, or else the default. -/
def Dialect.declaredLabels (d : Dialect) (xs : List TypedName) : List Label :=
  xs.map fun x => x.type.getD d.defaultType

/-! ## Names -/

/-- What a name stands for. Functions are told apart by the block that defines them. -/
inductive Entity where
  | variable (type : Label)
  | function (home : BlockId) (parameters returns : List Label)
deriving DecidableEq, Repr

def Entity.isVariable : Entity → Bool
  | «variable» _ => true
  | function _ _ _ => false

/-- The names around a piece of code. -/
structure Env where
  /-- what can be used -/
  visible : Name → Option Entity := fun _ => none
  /-- all names that are declared, those of variables beyond a function included -/
  taken : List Name := []

/-- Whether a name may be declared as far as builtins are concerned. -/
def Allowed (name : Name) : Prop :=
  Builtin.find? name = none ∧ ¬"verbatim".toList <+: name.toList

namespace Env

/-- `env` with one more name. -/
def declare (env : Env) (name : Name) (e : Entity) : Env where
  visible x := if x = name then some e else env.visible x
  taken := name :: env.taken

/-- `env` with more names, one after the other. -/
def declareAll (env : Env) (names : List (Name × Entity)) : Env :=
  names.foldl (fun env (name, e) => env.declare name e) env

/-- Whether names may be declared one after the other. -/
def Declarable (env : Env) : List (Name × Entity) → Prop
  | [] => True
  | (name, e) :: rest =>
    (Allowed name ∧ name ∉ env.taken) ∧ (env.declare name e).Declarable rest

/-- What the body of a function sees: the functions around it, but no variables. -/
def inFunction (env : Env) : Env where
  visible x := (env.visible x).filter (!·.isVariable)
  taken := env.taken

end Env

/-! ## Expressions -/

section Setting

variable (cfg : Setting)

/-- The label that a name from outside has when it is used. -/
def Setting.outsideType? (a : Access) : Option Label :=
  cfg.resolver.bind (· a)

/-- A name that is used as a variable: a variable that can be seen, or a name that stands for
nothing else and has a label outside. -/
inductive Refers (env : Env) (kind : AccessKind) (x : Identifier) : Label → Prop where
  | seen {type : Label} (h : env.visible x.name = some (.variable type)) : Refers env kind x type
  | outside {type : Label} (h : env.visible x.name = none) (hbuiltin : Builtin.find? x.name = none)
      (htype : cfg.outsideType? ⟨x.name, kind, x.span⟩ = some type) : Refers env kind x type

/-- A string that may stand where a builtin asks for one. -/
structure StringArgument (kind : LiteralArgument) (l : Literal) (bytes : List UInt8) : Prop where
  label : cfg.dialect.Annotates l.type
  known : kind = .dataName → Text.decodeLossy bytes ∈ cfg.dataNames

mutual

/-- An expression that yields values with the given labels. -/
inductive Yields (env : Env) : Expr → List Label → Prop where
  | literal {l : Literal} (h : l.WellFormed cfg.dialect) :
      Yields env (.literal l) [l.label cfg.dialect]
  | identifier {x : Identifier} {type : Label} (h : Refers cfg env (Check.readKind x.name) x type) :
      Yields env (.identifier x) [type]
  | builtin {f : Identifier} {b : Builtin} {args : List Expr} {span : Span}
      (hbuiltin : Builtin.find? f.name = some b)
      (hversion : b.tooNewFor cfg.dialect.version = false ∧ b.tooOldFor cfg.dialect.version = false)
      (hargs : Takes env (some b) 0 (cfg.dialect.parameterTypes b) args) :
      Yields env (.call f args span) (cfg.dialect.returnTypes b)
  | function {f : Identifier} {home : BlockId} {parameters returns : List Label}
      {args : List Expr} {span : Span} (hbuiltin : Builtin.find? f.name = none)
      (h : env.visible f.name = some (.function home parameters returns))
      (hargs : Takes env none 0 parameters args) : Yields env (.call f args span) returns

/-- Arguments of a call from `index` on that have the given labels, one value each. Where a builtin
asks for a string, a string stands. -/
inductive Takes (env : Env) : Option Builtin → Nat → List Label → List Expr → Prop where
  | nil {b : Option Builtin} {index : Nat} : Takes env b index [] []
  | string {b : Option Builtin} {index : Nat} {type : Label} {types : List Label} {a : Expr}
      {rest : List Expr} {kind : LiteralArgument} {l : Literal} {bytes : List UInt8}
      (hkind : b.bind (·.literalArgument? index) = some kind) (ha : a.string? = some (l, bytes))
      (hstring : StringArgument cfg kind l bytes) (hrest : Takes env b (index + 1) types rest) :
      Takes env b index (type :: types) (a :: rest)
  | value {b : Option Builtin} {index : Nat} {type : Label} {types : List Label} {a : Expr}
      {rest : List Expr} (hkind : b.bind (·.literalArgument? index) = none)
      (ha : Yields env a [type]) (hrest : Takes env b (index + 1) types rest) :
      Takes env b index (type :: types) (a :: rest)

end

/-! ## Statements -/

/-- Where a statement stands. -/
structure Place where
  /-- in the body of the innermost loop, and not in its header -/
  inLoopBody : Bool := false
  inFunction : Bool := false
  /-- in the first block of the innermost loop -/
  inInit : Bool := false
deriving DecidableEq, Repr

/-- The variables that are declared together. -/
def variablesOf (xs : List TypedName) : List (Name × Entity) :=
  xs.map fun x => (x.name, .variable (x.type.getD cfg.dialect.defaultType))

/-- What the functions of a block are declared as. -/
def signaturesOf (home : BlockId) (statements : List Stmt) : List (Name × Entity) :=
  (functionsOf statements).map fun f =>
    (f.name.name, .function home (cfg.dialect.declaredLabels f.parameters)
      (cfg.dialect.declaredLabels f.returns))

namespace Env

/-- The names behind a statement. -/
def after (env : Env) : Stmt → Env
  | .declaration xs _ _ => env.declareAll (variablesOf cfg xs)
  | _ => env

/-- The names at the start of a block: its functions are declared throughout it. -/
def inBlock (env : Env) (id : BlockId) (statements : List Stmt) : Env :=
  env.declareAll (signaturesOf cfg id statements)

/-- Whether the functions of a block can be declared. -/
def OpensBlock (env : Env) (id : BlockId) (statements : List Stmt) : Prop :=
  (∀ f ∈ functionsOf statements,
    cfg.dialect.AnnotatesAll f.parameters ∧ cfg.dialect.AnnotatesAll f.returns) ∧
    env.Declarable (signaturesOf cfg id statements)

end Env

/-- The values of the arms of a switch are values of the subject's type, no two the same, and there
is one default arm at most. -/
structure ArmsMatch (type : Label) (arms : List Case) : Prop where
  values : ∀ l ∈ arms.filterMap Case.value, l.WellFormed cfg.dialect ∧ l.label cfg.dialect = type
  distinct : ((arms.filterMap Case.value).map Literal.word?).Nodup
  default : arms.countP Case.isDefault ≤ 1

mutual

/-- A statement that is well-formed among the names around it. -/
def Stmt.WellFormed (env : Env) (place : Place) : Stmt → Prop
  | .expression e => Yields cfg env e []
  | .assignment xs value _ =>
    (xs.map Identifier.name).Nodup ∧
      ∃ types, List.Forall₂ (Refers cfg env .write) xs types ∧ Yields cfg env value types
  | .declaration xs value _ =>
    cfg.dialect.AnnotatesAll xs ∧
      (∀ e, value = some e → Yields cfg env e (cfg.dialect.declaredLabels xs)) ∧
      env.Declarable (variablesOf cfg xs)
  | .function f _ => place.inInit = false ∧ f.WellFormed env
  | .ifThen e body _ => Yields cfg env e [cfg.dialect.boolType] ∧ body.WellFormed env place
  | .switch subject arms _ =>
    (∃ type, Yields cfg env subject [type] ∧ ArmsMatch cfg type arms) ∧
      WellFormedCases env place arms
  | .forLoop ⟨id, statements, _⟩ e post body _ =>
    -- the names of the first block are there in the whole loop
    let start := env.inBlock cfg id statements
    let inner := statements.foldl (Env.after cfg) start
    env.OpensBlock cfg id statements ∧
      WellFormedStmts start { place with inLoopBody := false, inInit := true } statements ∧
      Yields cfg inner e [cfg.dialect.boolType] ∧
      body.WellFormed inner { place with inLoopBody := true, inInit := false } ∧
      post.WellFormed inner { place with inLoopBody := false, inInit := false }
  | .breakLoop _ | .continueLoop _ => place.inLoopBody = true
  | .leave _ => place.inFunction = true
  | .block b => b.WellFormed env place

/-- A function that is well-formed among the names around it. -/
def FunctionDef.WellFormed (env : Env) : FunctionDef → Prop
  | ⟨_, parameters, returns, body⟩ =>
    let names := variablesOf cfg (parameters ++ returns)
    env.inFunction.Declarable names ∧
      body.WellFormed (env.inFunction.declareAll names) { inFunction := true }

/-- A block that is well-formed among the names around it. -/
def Block.WellFormed (env : Env) (place : Place) : Block → Prop
  | ⟨id, statements, _⟩ =>
    env.OpensBlock cfg id statements ∧
      WellFormedStmts (env.inBlock cfg id statements) place statements

def WellFormedStmts (env : Env) (place : Place) : List Stmt → Prop
  | [] => True
  | s :: rest => s.WellFormed env place ∧ WellFormedStmts (env.after cfg s) place rest

def WellFormedCases (env : Env) (place : Place) : List Case → Prop
  | [] => True
  | ⟨_, body, _⟩ :: rest => body.WellFormed env place ∧ WellFormedCases env place rest

end

end Setting

end Yul
