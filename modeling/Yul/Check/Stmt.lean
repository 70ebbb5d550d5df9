import Yul.Check.Expr

/-!
# Checking statements

Functions are declared when their block is opened, variables where they stand. The first block of
a loop stays open over the whole loop. A problem never ends the walk: the statement counts as if
it were right, so that what follows is checked as well.
-/

namespace Yul

namespace Check

section Setting

variable (cfg : Setting)

/-- Reports targets that occur twice in one assignment. -/
def checkTargets (seen : List Name) : List Identifier → Check Unit
  | [] => return
  | x :: rest => do
    if seen.contains x.name then report (.repeatedTarget x.name) x.span
    checkTargets (x.name :: seen) rest

/-- The type of a variable that is assigned to. -/
def targetType (scope : ScopeId) (x : Identifier) : Check (Option Label) :=
  typeOfUse cfg scope x .write .assignmentToFunction .assignmentToFunction .notAssignable

/-- A target and the label of the value assigned to it, if it is known. -/
def target (scope : ScopeId) (x : Identifier) (given : Option Label) : Check Unit := do
  match ← targetType cfg scope x, given with
  | some declared, some given =>
    unless declared = given do
      report (.assignmentType given declared) x.span
  | _, _ => return

/-- The label at `index` among those of the assigned values, if they are known. -/
def valueAt (given : Option (List Label)) (index : Nat) : Check (Option Label) := do
  match given with
  | none => return none
  | some types =>
    if types[index]?.isNone then stop (.noValue index types.length)
    return types[index]?

/-- Targets from `index` on, where `given` are the labels of all assigned values, if they are
known. -/
def targets (scope : ScopeId) (given : Option (List Label)) (index : Nat) :
    List Identifier → Check Unit
  | [] => return
  | x :: rest => do
    target cfg scope x (← valueAt given index)
    targets scope given (index + 1) rest

def assignment (scope : ScopeId) (xs : List Identifier) (value : Expr) (span : Span) :
    Check Unit := do
  checkTargets [] xs
  match ← expression cfg scope value with
  | some types =>
    if types.length = xs.length then targets cfg scope (some types) 0 xs
    else
      report (.assignmentCount (xs.map Identifier.name) types.length) span
      targets cfg scope none 0 xs
  | none => targets cfg scope none 0 xs

/-- Compares the labels of initial values with those of the variables. -/
def checkInitial : List TypedName → List Label → List Label → Check Unit
  | x :: xs, declared :: ds, given :: gs => do
    unless declared = given do
      report (.initialType given declared) x.span
    checkInitial xs ds gs
  | _, _, _ => return

/-- Declares variables with their labels. -/
def declareVariables (scope : ScopeId) : List TypedName → List Label → Check Unit
  | x :: xs, type :: types => do
    declareVariable scope x type
    declareVariables scope xs types
  | _, _ => return

/-- The initial value of variables with the given labels, if there is one. -/
def initialValue (scope : ScopeId) (xs : List TypedName) (types : List Label)
    (value : Option Expr) (span : Span) : Check Unit := do
  if let some value := value then
    if let some given := ← expression cfg scope value then
      if given.length = xs.length then checkInitial xs types given
      else report (.declarationCount (xs.map TypedName.name) given.length) span

/-- A declaration of variables. The initial value does not see them. -/
def declaration (scope : ScopeId) (xs : List TypedName) (value : Option Expr) (span : Span) :
    Check Unit := do
  let types ← declaredTypes cfg xs
  initialValue cfg scope xs types value span
  declareVariables scope xs types

/-- An expression that stands for itself, which must yield nothing. -/
def expressionStatement (scope : ScopeId) (e : Expr) : Check Unit := do
  if let some types := ← expression cfg scope e then
    unless types = [] do
      report (.unusedValues types.length) e.span

/-- Reports a jump that does not stand in the body of a loop. -/
def loopJump (ctx : Context) (jump : LoopJump) (span : Span) : Check Unit :=
  unless ctx.inLoopBody do report (.jumpOutsideLoop jump) span

/-- The parameters and results of a function in their own scope. -/
def parameters (scope : ScopeId) (f : FunctionDef) : Check Unit :=
  (f.parameters ++ f.returns).forM fun x =>
    declareVariable scope x (cfg.dialect.declaredType x.type)

/-- The value of a case, or a default. -/
def caseValue (subject : Option Label) (seen : List (Label × Word)) (hasDefault : Bool)
    (value : Option Literal) (span : Span) : Check Unit :=
  match value with
  | none => if hasDefault then report .secondDefault span else return
  | some l => reportAll (cfg.dialect.caseProblems subject seen l) l.span

/-- The labels and words of the cases so far. -/
def seenWith (seen : List (Label × Word)) (value : Option Literal) : List (Label × Word) :=
  match value with
  | none => seen
  | some l =>
    match l.word? with
    | some w => (cfg.dialect.literalType l, w) :: seen
    | none => seen

mutual

def stmt (ctx : Context) : Stmt → Check Unit
  | .expression e => expressionStatement cfg ctx.scope e
  | .assignment xs value span => assignment cfg ctx.scope xs value span
  | .declaration xs value span => declaration cfg ctx.scope xs value span
  | .function f _ => function ctx f
  | .ifThen e body _ => do
    condition cfg ctx.scope e
    block ctx body
  | .switch subject arms span => do
    let type ← valueOf cfg ctx.scope subject
    if arms.all Case.isDefault && arms.length = 1 then report .onlyDefault span
    cases ctx type [] false arms
  | .forLoop ⟨id, statements, _⟩ e post body _ => do
    let scope ← openBlock cfg id statements (some ctx.scope)
    let header := { ctx with scope, inLoopBody := false, inInit := false }
    stmts { header with inInit := true } statements
    condition cfg scope e
    block { header with inLoopBody := true } body
    block header post
    emit (.effects .looping)
    emit (.exitBlock id scope)
  | .breakLoop span => loopJump ctx .breakLoop span
  | .continueLoop span => loopJump ctx .continueLoop span
  | .leave span => unless ctx.inFunction do report .leaveOutsideFunction span
  | .block b => block ctx b

/-- The definition of a function. Its body is walked through on its own, apart from the code
around it. -/
def function (ctx : Context) : FunctionDef → Check Unit
  | ⟨name, params, returns, body⟩ => do
    if ctx.inInit then report .functionInInit name.span
    let scope ← openParameters body.id ctx.scope
    parameters cfg scope ⟨name, params, returns, body⟩
    emit (.enterFunction ⟨ctx.scope, name.name⟩)
    block { scope, inFunction := true } body
    emit (.exitFunction ⟨ctx.scope, name.name⟩)

def block (ctx : Context) : Block → Check Unit
  | ⟨id, statements, _⟩ => do
    let scope ← openBlock cfg id statements (some ctx.scope)
    stmts { ctx with scope } statements
    emit (.exitBlock id scope)

def stmts (ctx : Context) : List Stmt → Check Unit
  | [] => return
  | s :: rest => do
    stmt ctx s
    stmts ctx rest

/-- The arms of a switch, each told what the arms before it hold. -/
def cases (ctx : Context) (subject : Option Label) (seen : List (Label × Word))
    (hasDefault : Bool) : List Case → Check Unit
  | [] => return
  | ⟨value, body, span⟩ :: rest => do
    caseValue cfg subject seen hasDefault value span
    block ctx body
    cases ctx subject (seenWith cfg seen value) (hasDefault || value.isNone) rest

end

/-- A block that nothing stands around. -/
def rootBlock : Block → Check Unit
  | ⟨id, statements, _⟩ => do
    let scope ← openBlock cfg id statements none
    stmts cfg { scope } statements
    emit (.exitBlock id scope)

end Setting

end Check

end Yul
