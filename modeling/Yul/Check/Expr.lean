import Yul.Check.Names

/-!
# Checking expressions

`expression` gives the labels of the values that an expression yields, or nothing if its head
stands for nothing that yields values. In that case the problem has been reported, and whatever
the expression is part of asks no more of it.
-/

namespace Yul

namespace Check

/-- Where a statement stands. -/
structure Context where
  scope : ScopeId
  /-- in the body of the innermost loop, and not in its header -/
  inLoopBody : Bool := false
  inFunction : Bool := false
  /-- in the first block of the innermost loop, or in a block inside it -/
  inInit : Bool := false
deriving DecidableEq, Repr

/-- The label of the only value of an expression. -/
def oneValue (values : Option (List Label)) (span : Span) : Check (Option Label) := do
  match values with
  | none => return none
  | some [type] => return some type
  | some types =>
    report (.notOneValue types.length) span
    return none

theorem oneValue_cases (values : Option (List Label)) (span : Span) :
    (∃ given, oneValue values span = pure given) ∨ ∃ count, oneValue values span = do
      report (.notOneValue count) span
      return none := by
  match values with
  | none => exact .inl ⟨none, rfl⟩
  | some [type] => exact .inl ⟨some type, rfl⟩
  | some [] => exact .inr ⟨0, rfl⟩
  | some (_ :: _ :: types) => exact .inr ⟨types.length + 2, rfl⟩

/-- Reports a value whose label is not the expected one, where both are known. -/
def checkValue (expected given : Option Label) (span : Span) : Check Unit :=
  match expected, given with
  | some expected, some given => reportAll (Dialect.valueProblems expected given) span
  | _, _ => return

theorem checkValue_cases (expected given : Option Label) (span : Span) :
    checkValue expected given span = pure () ∨ ∃ type type',
      checkValue expected given span = reportAll (Dialect.valueProblems type type') span := by
  match expected, given with
  | some type, some type' => exact .inr ⟨type, type', rfl⟩
  | some _, none | none, some _ | none, none => exact .inl rfl

/-- What a call can be made of: the labels of the arguments and of the results. -/
structure Signature where
  parameters : List Label
  returns : List Label
deriving DecidableEq, Repr

section Setting

variable (cfg : Setting)

/-- The type of a name that is used as a variable. Its uses differ in the problems that they report
of functions, of builtins and of names that are not known. -/
def typeOfUse (scope : ScopeId) (x : Identifier) (kind : AccessKind)
    (ofFunction ofBuiltin unknown : Problem) : Check (Option Label) := do
  match ← findMeaning scope x.name with
  | .variable home type =>
    checkActive home x
    return some type
  | .function _ _ _ =>
    report ofFunction x.span
    return none
  | .missing =>
    if (Builtin.find? x.name).isSome then
      report ofBuiltin x.span
      return none
    else
      let type ← askOutside cfg ⟨x.name, kind, x.span⟩
      if type.isNone then report unknown x.span
      return type

/-- A name that is read. -/
def identifier (scope : ScopeId) (x : Identifier) : Check (Option Label) :=
  typeOfUse cfg scope x (readKind x.name) (.functionNotCalled x.name) (.builtinNotCalled x.name)
    (.identifierNotFound x.name)

/-- The head of a call, which is a builtin or a function. -/
def callee (scope : ScopeId) (f : Identifier) (builtin : Option Builtin) :
    Check (Option Signature) := do
  match builtin with
  | some b =>
    reportAll (cfg.dialect.builtinProblems b) f.span
    emit (.effects b.effects)
    return some ⟨cfg.dialect.parameterTypes b, cfg.dialect.returnTypes b⟩
  | none =>
    match ← findMeaning scope f.name with
    | .function id parameters returns =>
      emit (.call id)
      return some ⟨parameters, returns⟩
    | .variable _ _ =>
      report .callOfVariable f.span
      return none
    | .missing =>
      report (.functionNotFound f.name) f.span
      return none

/-- Reports a number of arguments that the callee does not take. -/
def checkCount (f : Identifier) (signature : Option Signature) (given : Nat) : Check Unit := do
  if let some s := signature then
    unless s.parameters.length = given do
      report (.argumentCount f.name s.parameters.length given) f.span

/-- An argument that has to be a string. It names a thing, so it may be longer than a word. -/
def stringArgument (kind : LiteralArgument) (argument : Expr) : Check Unit := do
  match argument.string? with
  | none => report .notAString argument.span
  | some (l, bytes) =>
    reportAll (cfg.dialect.writtenProblems l.type) l.span
    if kind = .dataName then
      let name := Text.decodeLossy bytes
      unless cfg.dataNames.contains name do
        report (.unknownData name) l.span

mutual

/-- The labels of the values that an expression yields. -/
def expression (scope : ScopeId) : Expr → Check (Option (List Label))
  | .literal l => do
    reportAll (cfg.dialect.literalProblems l) l.span
    return some [cfg.dialect.literalType l]
  | .identifier x => do
    return (← identifier cfg scope x).map fun type => [type]
  | .call f args _ => do
    let builtin := Builtin.find? f.name
    let signature ← callee cfg scope f builtin
    checkCount f signature args.length
    arguments scope builtin ((signature.map Signature.parameters).getD []) 0 args
    return signature.map Signature.returns

/-- The arguments of a call from `index` on; `expected` are the labels that are left for them. -/
def arguments (scope : ScopeId) (builtin : Option Builtin) (expected : List Label)
    (index : Nat) : List Expr → Check Unit
  | [] => return
  | a :: rest => do
    match builtin.bind (·.literalArgument? index) with
    | some kind => stringArgument cfg kind a
    | none =>
      let given ← oneValue (← expression scope a) a.span
      checkValue expected.head? given a.span
    arguments scope builtin expected.tail (index + 1) rest

end

/-- An expression that has to yield one value. -/
def valueOf (scope : ScopeId) (e : Expr) : Check (Option Label) := do
  oneValue (← expression cfg scope e) e.span

/-- An expression that has to yield a truth value. -/
def condition (scope : ScopeId) (e : Expr) : Check Unit := do
  if let some type := ← valueOf cfg scope e then
    unless type = cfg.dialect.boolType do
      report (.conditionType cfg.dialect.boolType type) e.span

end Setting

end Check

end Yul
