import Mathlib.Logic.Basic
import Yul.Check.Run

/-!
# Code at other places

`Block.mapSpans f` is a block whose parts stand where `f` says. It differs from the block in nothing
but its spans. `Block.heads` lists the names that are called in a block.
-/

namespace Yul

/-! ## Other spans -/

section Spans

variable (f : Span → Span)

def Identifier.mapSpans (x : Identifier) : Identifier :=
  { x with span := f x.span }

def TypedName.mapSpans (x : TypedName) : TypedName :=
  { x with span := f x.span }

def Literal.mapSpans (l : Literal) : Literal :=
  { l with span := f l.span }

mutual

def Expr.mapSpans : Expr → Expr
  | .literal l => .literal (l.mapSpans f)
  | .identifier x => .identifier (x.mapSpans f)
  | .call callee args span => .call (callee.mapSpans f) (mapSpansOfExprs args) (f span)

def mapSpansOfExprs : List Expr → List Expr
  | [] => []
  | e :: rest => e.mapSpans :: mapSpansOfExprs rest

end

mutual

/-- A statement whose parts stand at other places. -/
def Stmt.mapSpans : Stmt → Stmt
  | .expression e => .expression (e.mapSpans f)
  | .assignment xs value span =>
    .assignment (xs.map (Identifier.mapSpans f)) (value.mapSpans f) (f span)
  | .declaration xs value span =>
    .declaration (xs.map (TypedName.mapSpans f)) (value.map (Expr.mapSpans f)) (f span)
  | .function g span => .function g.mapSpans (f span)
  | .ifThen e body span => .ifThen (e.mapSpans f) body.mapSpans (f span)
  | .switch subject arms span => .switch (subject.mapSpans f) (mapSpansOfCases arms) (f span)
  | .forLoop init e post body span =>
    .forLoop init.mapSpans (e.mapSpans f) post.mapSpans body.mapSpans (f span)
  | .breakLoop span => .breakLoop (f span)
  | .continueLoop span => .continueLoop (f span)
  | .leave span => .leave (f span)
  | .block b => .block b.mapSpans

def FunctionDef.mapSpans : FunctionDef → FunctionDef
  | ⟨name, parameters, returns, body⟩ =>
    ⟨name.mapSpans f, parameters.map (TypedName.mapSpans f), returns.map (TypedName.mapSpans f),
      body.mapSpans⟩

/-- A block whose parts stand at other places. -/
def Block.mapSpans : Block → Block
  | ⟨id, statements, span⟩ => ⟨id, mapSpansOfStmts statements, f span⟩

def mapSpansOfStmts : List Stmt → List Stmt
  | [] => []
  | s :: rest => s.mapSpans :: mapSpansOfStmts rest

def mapSpansOfCases : List Case → List Case
  | [] => []
  | ⟨value, body, span⟩ :: rest =>
    ⟨value.map (Literal.mapSpans f), body.mapSpans, f span⟩ :: mapSpansOfCases rest

end

def Access.mapSpans (a : Access) : Access :=
  { a with span := f a.span }

def Finding.mapSpans (g : Finding) : Finding :=
  { g with span := f g.span }

/-- An event of an analysis of code that stands at other places. -/
def Event.mapSpans : Event → Event
  | .ask a => .ask (a.mapSpans f)
  | .report g => .report (g.mapSpans f)
  | e => e

@[simp] theorem Expr.span_mapSpans (e : Expr) : (e.mapSpans f).span = f e.span := by
  cases e <;> rfl

theorem Expr.string?_mapSpans (e : Expr) :
    (e.mapSpans f).string? = e.string?.map fun found => (found.1.mapSpans f, found.2) := by
  cases e with
  | literal l =>
    obtain ⟨value, type, span⟩ := l
    cases value <;> rfl
  | identifier | call => rfl

theorem length_mapSpansOfExprs (es : List Expr) : (mapSpansOfExprs f es).length = es.length := by
  induction es with
  | nil => rfl
  | cons e es ih => exact congrArg (· + 1) ih

theorem functionsOf_mapSpans (ss : List Stmt) :
    functionsOf (mapSpansOfStmts f ss) = (functionsOf ss).map (FunctionDef.mapSpans f) := by
  induction ss with
  | nil => rfl
  | cons s ss ih =>
    cases s with
    | function g _ => exact congrArg (g.mapSpans f :: ·) ih
    | _ => exact ih

theorem isDefault_mapSpansOfCases (arms : List Case) :
    (mapSpansOfCases f arms).all Case.isDefault = arms.all Case.isDefault ∧
      (mapSpansOfCases f arms).length = arms.length := by
  induction arms with
  | nil => exact ⟨rfl, rfl⟩
  | cons arm arms ih =>
    obtain ⟨value, body, span⟩ := arm
    refine ⟨?_, congrArg (· + 1) ih.2⟩
    rw [mapSpansOfCases, List.all_cons, List.all_cons, ih.1]
    cases value <;> rfl

end Spans

/-! ## The same spans -/

mutual

theorem Expr.mapSpans_id (e : Expr) : e.mapSpans id = e := by
  match e with
  | .literal _ | .identifier _ => rfl
  | .call callee args span => exact congrArg (Expr.call callee · span) (mapSpansOfExprs_id args)

theorem mapSpansOfExprs_id (es : List Expr) : mapSpansOfExprs id es = es := by
  match es with
  | [] => rfl
  | e :: rest => exact congrArg₂ List.cons e.mapSpans_id (mapSpansOfExprs_id rest)

end

theorem TypedName.map_mapSpans_id (xs : List TypedName) : xs.map (TypedName.mapSpans id) = xs :=
  List.map_id xs

mutual

theorem Stmt.mapSpans_id (s : Stmt) : s.mapSpans id = s := by
  match s with
  | .expression e => exact congrArg Stmt.expression e.mapSpans_id
  | .assignment xs value span =>
    exact congrArg₂ (Stmt.assignment · · span) (List.map_id xs) value.mapSpans_id
  | .declaration xs none span =>
    exact congrArg (Stmt.declaration · none span) (TypedName.map_mapSpans_id xs)
  | .declaration xs (some value) span =>
    exact congrArg₂ (Stmt.declaration · · span) (TypedName.map_mapSpans_id xs)
      (congrArg some value.mapSpans_id)
  | .function g span => exact congrArg (Stmt.function · span) g.mapSpans_id
  | .ifThen e body span => exact congrArg₂ (Stmt.ifThen · · span) e.mapSpans_id body.mapSpans_id
  | .switch subject arms span =>
    exact congrArg₂ (Stmt.switch · · span) subject.mapSpans_id (mapSpansOfCases_id arms)
  | .forLoop init e post body span =>
    rw [Stmt.mapSpans, init.mapSpans_id, e.mapSpans_id, post.mapSpans_id, body.mapSpans_id]
    rfl
  | .breakLoop _ | .continueLoop _ | .leave _ => rfl
  | .block b => exact congrArg Stmt.block b.mapSpans_id

theorem FunctionDef.mapSpans_id (g : FunctionDef) : g.mapSpans id = g := by
  match g with
  | ⟨name, parameters, returns, body⟩ =>
    rw [FunctionDef.mapSpans, TypedName.map_mapSpans_id, TypedName.map_mapSpans_id,
      body.mapSpans_id]
    rfl

theorem Block.mapSpans_id (b : Block) : b.mapSpans id = b := by
  match b with
  | ⟨bid, statements, span⟩ => exact congrArg (Block.mk bid · span) (mapSpansOfStmts_id statements)

theorem mapSpansOfStmts_id (ss : List Stmt) : mapSpansOfStmts id ss = ss := by
  match ss with
  | [] => rfl
  | s :: rest => exact congrArg₂ List.cons s.mapSpans_id (mapSpansOfStmts_id rest)

theorem mapSpansOfCases_id (arms : List Case) : mapSpansOfCases id arms = arms := by
  match arms with
  | [] => rfl
  | ⟨value, body, span⟩ :: rest =>
    rw [mapSpansOfCases, body.mapSpans_id, mapSpansOfCases_id rest]
    cases value <;> rfl

end

theorem Event.mapSpans_id (e : Event) : e.mapSpans id = e := by
  cases e <;> rfl

/-! ## Names that are called -/

mutual

/-- The names that are called in an expression. -/
def Expr.heads : Expr → List Name
  | .literal _ | .identifier _ => []
  | .call callee args _ => callee.name :: headsOfExprs args

def headsOfExprs : List Expr → List Name
  | [] => []
  | e :: rest => e.heads ++ headsOfExprs rest

end

mutual

def Stmt.heads : Stmt → List Name
  | .expression e | .assignment _ e _ | .declaration _ (some e) _ => e.heads
  | .declaration _ none _ | .breakLoop _ | .continueLoop _ | .leave _ => []
  | .function g _ => g.heads
  | .ifThen e body _ => e.heads ++ body.heads
  | .switch subject arms _ => subject.heads ++ headsOfCases arms
  | .forLoop init e post body _ => init.heads ++ e.heads ++ body.heads ++ post.heads
  | .block b => b.heads

def FunctionDef.heads : FunctionDef → List Name
  | ⟨_, _, _, body⟩ => body.heads

/-- The names that are called in a block. -/
def Block.heads : Block → List Name
  | ⟨_, statements, _⟩ => headsOfStmts statements

def headsOfStmts : List Stmt → List Name
  | [] => []
  | s :: rest => s.heads ++ headsOfStmts rest

def headsOfCases : List Case → List Name
  | [] => []
  | ⟨_, body, _⟩ :: rest => body.heads ++ headsOfCases rest

end

/-- Whether all builtins among names satisfy `P`. -/
def BuiltinsAmong (P : Builtin → Prop) (names : List Name) : Prop :=
  ∀ x ∈ names, ∀ b, Builtin.find? x = some b → P b

theorem builtinsAmong_append {P : Builtin → Prop} {names names' : List Name} :
    BuiltinsAmong P (names ++ names') ↔ BuiltinsAmong P names ∧ BuiltinsAmong P names' :=
  List.forall_mem_append

theorem builtinsAmong_cons {P : Builtin → Prop} {x : Name} {names : List Name} :
    BuiltinsAmong P (x :: names) ↔
      (∀ b, Builtin.find? x = some b → P b) ∧ BuiltinsAmong P names :=
  List.forall_mem_cons

end Yul
