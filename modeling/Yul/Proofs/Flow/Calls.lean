import Mathlib.Data.List.Basic
import Yul.Flow
import Yul.Proofs.Places.Nodes

/-!
# Calls anywhere in code

`Node.Calls` says that a tree holds a call of a name with some property, at whatever node. The walk
over calls decides it for expressions (`Expr.anyCall_iff`) and for blocks (`Block.anyCall_iff`), so
it passes over no position in which an expression can stand. Code asks for the size of memory
exactly if it holds a call of a builtin that tells it (`containsMsize_exact`).
-/

namespace Yul

theorem exists_reflTransGen_iff {α : Type} {r : α → α → Prop} {P : α → Prop} {a : α} :
    (∃ b, Relation.ReflTransGen r a b ∧ P b) ↔
      P a ∨ ∃ c, r a c ∧ ∃ b, Relation.ReflTransGen r c b ∧ P b := by
  constructor
  · intro ⟨b, hb, hP⟩
    rcases Relation.ReflTransGen.cases_head hb with rfl | ⟨c, hc, hb⟩
    · exact .inl hP
    · exact .inr ⟨c, hc, b, hb, hP⟩
  · intro h
    rcases h with hP | ⟨c, hc, b, hb, hP⟩
    · exact ⟨a, .refl, hP⟩
    · exact ⟨b, .head hc hb, hP⟩

section Calls

variable {p : Name → Bool}

/-! ## Calls at a node and below it -/

namespace Node

/-- A node is a call of a name with `p`. -/
inductive IsCall (p : Name → Bool) : Node → Prop where
  | mk {f : Identifier} {args : List Expr} {span : Span} (h : p f.name = true) :
      IsCall p (.expression (.call f args span))

/-- A call of a name with `p` is part of a tree. -/
def Calls (p : Name → Bool) (root : Node) : Prop :=
  ∃ n, root.Within n ∧ n.IsCall p

theorem calls_iff_exists {root : Node} : root.Calls p ↔
    ∃ f args span, root.Within (.expression (.call f args span)) ∧ p f.name = true := by
  constructor
  · rintro ⟨_, hwithin, ⟨hf⟩⟩
    exact ⟨_, _, _, hwithin, hf⟩
  · intro ⟨f, args, span, hwithin, hf⟩
    exact ⟨_, hwithin, .mk hf⟩

theorem calls_iff_children {root : Node} :
    root.Calls p ↔ root.IsCall p ∨ ∃ child ∈ root.children, child.Calls p :=
  exists_reflTransGen_iff

theorem calls_of_not_isCall {root : Node} (h : ¬root.IsCall p) :
    root.Calls p ↔ ∃ child ∈ root.children, child.Calls p := by
  rw [calls_iff_children, or_iff_right h]

theorem not_calls_of_childless {root : Node} (h : ¬root.IsCall p) (hchildren : root.children = []) :
    ¬root.Calls p := by
  rw [calls_of_not_isCall h, hchildren]
  simp

@[simp] theorem not_calls_literal (l : Literal) : ¬(literal l).Calls p :=
  not_calls_of_childless nofun rfl

@[simp] theorem not_calls_typedName (x : TypedName) : ¬(typedName x).Calls p :=
  not_calls_of_childless nofun rfl

@[simp] theorem not_calls_identifier (x : Identifier) : ¬(identifier x).Calls p :=
  not_calls_of_childless nofun rfl

theorem calls_call (f : Identifier) (args : List Expr) (span : Span) :
    (expression (.call f args span)).Calls p ↔
      p f.name = true ∨ ∃ e ∈ args, (expression e).Calls p := by
  have hcall : (expression (.call f args span)).IsCall p ↔ p f.name = true :=
    ⟨fun ⟨h⟩ => h, .mk⟩
  rw [calls_iff_children, hcall]
  simp [children, Expr.children]

theorem calls_statement (s : Stmt) :
    (statement s).Calls p ↔ ∃ child ∈ s.children, child.Calls p :=
  calls_of_not_isCall nofun

theorem calls_arm (c : Case) : (arm c).Calls p ↔ (block c.body).Calls p := by
  rw [calls_of_not_isCall (by nofun)]
  simp [children, or_and_right, exists_or]

theorem calls_block (b : Block) :
    (block b).Calls p ↔ ∃ s ∈ b.statements, (statement s).Calls p := by
  rw [calls_of_not_isCall (by nofun)]
  simp [children]

end Node

/-! ## The walk over calls -/

mutual

theorem Expr.anyCall_iff (e : Expr) : e.anyCall p = true ↔ (Node.expression e).Calls p := by
  match e with
  | .literal l | .identifier x =>
    rw [Node.calls_of_not_isCall (by nofun)]
    simp [Expr.anyCall, Node.children, Expr.children]
  | .call f args span =>
    rw [Expr.anyCall, Bool.or_eq_true, anyCallOfExprs_iff args, Node.calls_call, or_comm]

theorem anyCallOfExprs_iff (es : List Expr) :
    anyCallOfExprs p es = true ↔ ∃ e ∈ es, (Node.expression e).Calls p := by
  match es with
  | [] => simp [anyCallOfExprs]
  | e :: rest =>
    rw [anyCallOfExprs, Bool.or_eq_true, e.anyCall_iff, anyCallOfExprs_iff rest,
      List.exists_mem_cons_iff]

end

mutual

theorem Stmt.anyCall_iff (s : Stmt) : s.anyCall p = true ↔ (Node.statement s).Calls p := by
  rw [Node.calls_statement]
  match s with
  | .expression e | .assignment _ e _ | .declaration _ (some e) _ =>
    rw [Stmt.anyCall, e.anyCall_iff]
    simp [Stmt.children, or_and_right, exists_or]
  | .declaration _ none _ | .breakLoop _ | .continueLoop _ | .leave _ =>
    simp [Stmt.anyCall, Stmt.children]
  | .function f _ =>
    rw [Stmt.anyCall, f.anyCall_iff]
    simp [Stmt.children, or_and_right, exists_or]
  | .ifThen e body _ =>
    rw [Stmt.anyCall, Bool.or_eq_true, e.anyCall_iff, body.anyCall_iff]
    simp [Stmt.children]
  | .switch e cases _ =>
    rw [Stmt.anyCall, Bool.or_eq_true, e.anyCall_iff, anyCallOfCases_iff cases]
    simp [Stmt.children]
  | .forLoop init e post body _ =>
    -- the walk looks into the body before it looks into `post`, which stands in front of the body
    rw [Stmt.anyCall, Bool.or_eq_true, Bool.or_eq_true, Bool.or_eq_true, init.anyCall_iff,
      e.anyCall_iff, body.anyCall_iff, post.anyCall_iff, or_right_comm]
    simp [Stmt.children, or_assoc]
  | .block b =>
    rw [Stmt.anyCall, b.anyCall_iff]
    simp [Stmt.children]

theorem FunctionDef.anyCall_iff (f : FunctionDef) :
    f.anyCall p = true ↔ (Node.block f.body).Calls p := by
  match f with
  | ⟨_, _, _, body⟩ => exact body.anyCall_iff

theorem Block.anyCall_iff (b : Block) : b.anyCall p = true ↔ (Node.block b).Calls p := by
  match b with
  | ⟨id, statements, span⟩ =>
    rw [Block.anyCall, anyCallOfStmts_iff statements, Node.calls_block]

theorem anyCallOfStmts_iff (ss : List Stmt) :
    anyCallOfStmts p ss = true ↔ ∃ s ∈ ss, (Node.statement s).Calls p := by
  match ss with
  | [] => simp [anyCallOfStmts]
  | s :: rest =>
    rw [anyCallOfStmts, Bool.or_eq_true, s.anyCall_iff, anyCallOfStmts_iff rest,
      List.exists_mem_cons_iff]

theorem anyCallOfCases_iff (cases : List Case) :
    anyCallOfCases p cases = true ↔ ∃ c ∈ cases, (Node.arm c).Calls p := by
  match cases with
  | [] => simp [anyCallOfCases]
  | ⟨value, body, span⟩ :: rest =>
    rw [anyCallOfCases, Bool.or_eq_true, Case.anyCall, body.anyCall_iff, anyCallOfCases_iff rest,
      List.exists_mem_cons_iff, Node.calls_arm]

end

end Calls

/-! ## The size of memory -/

/-- A call in a block asks for the size of memory: its head is a builtin that tells it. -/
def Block.AsksSize (b : Block) : Prop :=
  ∃ f args span builtin, (Node.block b).Within (.expression (.call f args span)) ∧
    Builtin.find? f.name = some builtin ∧ builtin.isMsize = true

/-- An object is another one or lies in it, at whatever depth. -/
def Object.Contains (o inner : Object) : Prop :=
  Relation.ReflTransGen (fun outer inner => inner ∈ outer.objects) o inner

theorem Object.exists_contains_iff {P : Object → Prop} {o : Object} :
    (∃ inner, o.Contains inner ∧ P inner) ↔
      P o ∨ ∃ child ∈ o.objects, ∃ inner, child.Contains inner ∧ P inner :=
  exists_reflTransGen_iff

theorem isMsizeName_iff {name : Name} :
    isMsizeName name = true ↔ ∃ b, Builtin.find? name = some b ∧ b.isMsize = true :=
  Option.any_eq_true _ _

theorem Block.containsMsize_iff (b : Block) : b.containsMsize = true ↔ b.AsksSize := by
  rw [Block.containsMsize, b.anyCall_iff, Node.calls_iff_exists, Block.AsksSize]
  simp only [isMsizeName_iff, exists_and_left]

mutual

theorem Object.containsMsize_iff (o : Object) :
    o.containsMsize = true ↔ ∃ inner, o.Contains inner ∧ inner.code.AsksSize := by
  match o with
  | ⟨name, code, objects, data, span⟩ =>
    rw [Object.containsMsize, Bool.or_eq_true, code.containsMsize_iff,
      containsMsizeOfObjects_iff objects, Object.exists_contains_iff]

theorem containsMsizeOfObjects_iff (os : List Object) : containsMsizeOfObjects os = true ↔
    ∃ o ∈ os, ∃ inner, o.Contains inner ∧ inner.code.AsksSize := by
  match os with
  | [] => simp [containsMsizeOfObjects]
  | o :: rest =>
    rw [containsMsizeOfObjects, Bool.or_eq_true, o.containsMsize_iff,
      containsMsizeOfObjects_iff rest, List.exists_mem_cons_iff]

end

/-- A block asks for the size of memory exactly if some call in it does, wherever it stands; an
object does exactly if the code of it or of an object inside it does. -/
theorem containsMsize_exact :
    (∀ b : Block, b.containsMsize = true ↔ b.AsksSize) ∧
    ∀ o : Object, o.containsMsize = true ↔ ∃ inner, o.Contains inner ∧ inner.code.AsksSize :=
  ⟨Block.containsMsize_iff, Object.containsMsize_iff⟩

/-- An object asks for the size of memory if a function that nothing calls does, in an object inside
it. -/
example :
    let block (statements : List Stmt) : Block := ⟨0, statements, default⟩
    let size : Expr := .call ⟨"msize", default⟩ [] default
    let drop : Stmt := .expression (.call ⟨"pop", default⟩ [size] default)
    let f : FunctionDef := ⟨⟨"f", default⟩, [], [], block [drop]⟩
    let inner : Object := ⟨"B", block [.function f default], [], [], default⟩
    let o : Object := ⟨"A", block [], [inner], [], default⟩
    o.containsMsize = true := by
  decide

end Yul
