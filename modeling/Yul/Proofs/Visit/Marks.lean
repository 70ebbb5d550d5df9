import Yul.Proofs.Switch.Arms

/-!
# What a visit leaves behind

Some events of a run are the same whatever the names in the code stand for: every name is looked for
where it stands, every block is entered and left, and what is wrong with a literal, an annotation or
an arm of a switch is told without the code around. They are the *marks* of a visit, events without
the scopes in them. `Block.marks` reads off the code alone which marks a visit of all its parts
leaves, in order.
-/

namespace Yul

/-- What a visit leaves behind. -/
inductive Mark where
  | enterBlock (id : BlockId)
  | exitBlock (id : BlockId)
  | openParameters (body : BlockId)
  | enterFunction (name : Name)
  | exitFunction (name : Name)
  | name (name : Name)
  | effects (effects : SideEffects)
  | problem (finding : Finding)
deriving DecidableEq, Repr

/-- The problem that is left behind. -/
def Mark.problem? : Mark → Option Finding
  | .problem f => some f
  | _ => none

/-- Whether a problem is told from a piece of code and the setting, whatever stands around. -/
def Problem.isTold : Problem → Bool
  | .builtinName _ | .reservedName _ | .repeatedTarget _ | .unknownData _ | .notAType _
  | .onlyDefault | .secondDefault | .repeatedCase _ | .tooNew _ _ _ | .tooOld _ _ _
  | .deprecated _ _ | .numberTooLarge | .stringTooLong _ _ | .literalType _ _ | .notAString => true
  | _ => false

/-- Whether a problem is that an arm of a switch is there twice. -/
def Problem.isDoubled : Problem → Bool
  | .secondDefault | .repeatedCase _ => true
  | _ => false

/-- The mark that an event is. -/
def Event.mark? : Event → Option Mark
  | .enterBlock id _ => some (.enterBlock id)
  | .exitBlock id _ => some (.exitBlock id)
  | .openParameters body _ => some (.openParameters body)
  | .enterFunction f => some (.enterFunction f.name)
  | .exitFunction f => some (.exitFunction f.name)
  | .look _ name => some (.name name)
  | .effects e => some (.effects e)
  | .report f => if f.problem.isTold then some (.problem f) else none
  | .declare _ _ _ | .call _ | .ask _ => none

/-- Problems of one place. -/
def marksOf (ps : List Problem) (span : Span) : List Mark :=
  ps.map fun p => .problem ⟨p, span⟩

section Setting

variable (cfg : Setting)

/-! ## Expressions -/

/-- The head of a call: builtins are known by their names, other names are looked for. -/
def headMarks (f : Identifier) : List Mark :=
  match Builtin.find? f.name with
  | some b => marksOf (cfg.dialect.builtinProblems b) f.span ++ [.effects b.effects]
  | none => [.name f.name]

/-- An argument that has to be a string. -/
def stringMarks (kind : LiteralArgument) (argument : Expr) : List Mark :=
  match argument.string? with
  | none => [.problem ⟨.notAString, argument.span⟩]
  | some (l, bytes) =>
    marksOf (cfg.dialect.writtenProblems l.type) l.span ++
      if kind = .dataName ∧ Text.decodeLossy bytes ∉ cfg.dataNames then
        [.problem ⟨.unknownData (Text.decodeLossy bytes), l.span⟩]
      else []

mutual

def Expr.marks : Expr → List Mark
  | .literal l => marksOf (cfg.dialect.literalProblems l) l.span
  | .identifier x => [.name x.name]
  | .call f args _ => headMarks cfg f ++ marksOfArguments (Builtin.find? f.name) 0 args

/-- The marks of the arguments of a call from `index` on. -/
def marksOfArguments (builtin : Option Builtin) (index : Nat) : List Expr → List Mark
  | [] => []
  | a :: rest =>
    (match builtin.bind (·.literalArgument? index) with
      | some kind => stringMarks cfg kind a
      | none => a.marks) ++ marksOfArguments builtin (index + 1) rest

end

/-! ## Names that are declared -/

def annotationMarks (xs : List TypedName) : List Mark :=
  xs.flatMap fun x => marksOf (cfg.dialect.writtenProblems x.type) x.span

/-- A name that is declared is looked for as well. -/
def namingMarks (x : Identifier) : List Mark :=
  marksOf (Dialect.namingProblems x.name) x.span ++ [.name x.name]

def variableMarks (xs : List TypedName) : List Mark :=
  xs.flatMap fun x => namingMarks ⟨x.name, x.span⟩

/-- A function where its block is entered. -/
def FunctionDef.headerMarks (f : FunctionDef) : List Mark :=
  annotationMarks cfg f.parameters ++ annotationMarks cfg f.returns ++ namingMarks f.name

/-- The entry into a block. -/
def openingMarks (id : BlockId) (statements : List Stmt) : List Mark :=
  .enterBlock id :: (functionsOf statements).flatMap (FunctionDef.headerMarks cfg)

/-! ## Statements -/

/-- The targets of an assignment that are among those before them. -/
def targetMarks (before : List Name) : List Identifier → List Mark
  | [] => []
  | x :: rest =>
    (if x.name ∈ before then [.problem ⟨.repeatedTarget x.name, x.span⟩] else []) ++
      targetMarks (x.name :: before) rest

/-- An arm of a switch. -/
def Arm.marks (a : Arm) : List Mark :=
  (match a.value with
    | none => []
    | some l => marksOf (cfg.dialect.literalProblems l) l.span) ++
    ((a.finding? cfg.dialect).map Mark.problem).toList

/-- A switch that has nothing but a default. -/
def onlyDefaultMarks (cases : List Case) (span : Span) : List Mark :=
  if cases.all Case.isDefault && cases.length = 1 then [.problem ⟨.onlyDefault, span⟩] else []

mutual

def Stmt.marks : Stmt → List Mark
  | .expression e => e.marks cfg
  | .assignment xs value _ =>
    targetMarks [] xs ++ value.marks cfg ++ xs.map fun x => .name x.name
  | .declaration xs value _ =>
    annotationMarks cfg xs ++ (value.map (Expr.marks cfg)).getD [] ++ variableMarks xs
  | .function f _ => f.marks
  | .ifThen e body _ => e.marks cfg ++ body.marks
  | .switch subject cases span =>
    subject.marks cfg ++ onlyDefaultMarks cases span ++ marksOfCases [] cases
  | .forLoop ⟨id, statements, _⟩ e post body _ =>
    openingMarks cfg id statements ++ marksOfStmts statements ++ e.marks cfg ++ body.marks ++
      post.marks ++ [.effects .looping, .exitBlock id]
  | .breakLoop _ | .continueLoop _ | .leave _ => []
  | .block b => b.marks

def FunctionDef.marks : FunctionDef → List Mark
  | ⟨name, parameters, returns, body⟩ =>
    .openParameters body.id :: variableMarks (parameters ++ returns) ++
      .enterFunction name.name :: body.marks ++ [.exitFunction name.name]

def marksOfStmts : List Stmt → List Mark
  | [] => []
  | s :: rest => s.marks ++ marksOfStmts rest

/-- The arms of a switch that stand behind others. -/
def marksOfCases (before : List Case) : List Case → List Mark
  | [] => []
  | ⟨value, body, span⟩ :: rest =>
    Arm.marks cfg ⟨before, value, span⟩ ++ body.marks ++
      marksOfCases (before ++ [⟨value, body, span⟩]) rest

def Block.marks : Block → List Mark
  | ⟨id, statements, _⟩ =>
    openingMarks cfg id statements ++ marksOfStmts statements ++ [.exitBlock id]

end

end Setting

end Yul
