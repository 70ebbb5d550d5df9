import Mathlib.Logic.Relation
import Yul.Proofs.Parse.Grammar

/-!
# Nodes of a tree and their tokens

A tree is made of nodes: objects, data, blocks, statements, arms, expressions, literals and names.
`Node.children` lists the nodes directly below a node in the order of the source, `DerivesNode` says
from which tokens a node is read. Its span is that of these tokens (`DerivesNode.spans`).
-/

namespace Yul

/-! ## Nodes -/

/-- A part of a tree that has a span. -/
inductive Node where
  | object (o : Object)
  | data (d : DataSection)
  | block (b : Block)
  | statement (s : Stmt)
  | arm (c : Case)
  | expression (e : Expr)
  | literal (l : Literal)
  | typedName (x : TypedName)
  | identifier (x : Identifier)

namespace Node

def span : Node → Span
  | object o => o.span
  | data d => d.span
  | block b => b.span
  | statement s => s.span
  | arm c => c.span
  | expression e => e.span
  | literal l => l.span
  | typedName x => x.span
  | identifier x => x.span

end Node

/-- Objects and data in the order in which they start. -/
def siblings (objects : List Object) (data : List DataSection) : List Node :=
  (objects.map Node.object).merge (data.map Node.data) fun a b => a.span.start ≤ b.span.start

def Expr.children : Expr → List Node
  | literal l => [.literal l]
  | identifier x => [.identifier x]
  | call f args _ => .identifier f :: args.map .expression

def Stmt.children : Stmt → List Node
  | expression e => [.expression e]
  | assignment targets value _ => targets.map .identifier ++ [.expression value]
  | declaration declared value _ =>
    declared.map .typedName ++ (value.map Node.expression).toList
  | function f _ =>
    .identifier f.name ::
      (f.parameters.map .typedName ++ (f.returns.map .typedName ++ [.block f.body]))
  | ifThen condition body _ => [.expression condition, .block body]
  | switch subject cases _ => .expression subject :: cases.map .arm
  | forLoop init condition post body _ =>
    [.block init, .expression condition, .block post, .block body]
  | breakLoop _ | continueLoop _ | leave _ => []
  | block b => [.block b]

namespace Node

/-- The nodes directly below a node, in the order of the source. -/
def children : Node → List Node
  | object o => .block o.code :: siblings o.objects o.data
  | block b => b.statements.map .statement
  | statement s => s.children
  | arm c => (c.value.map Node.literal).toList ++ [.block c.body]
  | expression e => e.children
  | data _ | literal _ | typedName _ | identifier _ => []

/-- A node is part of another one, directly or through others. -/
def Within (root n : Node) : Prop :=
  Relation.ReflTransGen (fun parent child => child ∈ parent.children) root n

end Node

/-- The tokens that a node is read from. -/
inductive DerivesNode : List Lexeme → Node → Prop where
  | object {n : Nat} {ts : List Lexeme} {o : Object} (h : DerivesObject n ts o) :
      DerivesNode ts (.object o)
  /-- a lone block in place of an object -/
  | lone {n : Nat} {ts : List Lexeme} {b : Block} (h : DerivesBlock n ts b) :
      DerivesNode ts (.object ⟨"", b, [], [], b.span⟩)
  | data {ts : List Lexeme} {d : DataSection} (h : DerivesData ts d) : DerivesNode ts (.data d)
  | block {n : Nat} {ts : List Lexeme} {b : Block} (h : DerivesBlock n ts b) :
      DerivesNode ts (.block b)
  | statement {n : Nat} {ts : List Lexeme} {s : Stmt} (h : DerivesStmt n ts s) :
      DerivesNode ts (.statement s)
  | arm {n : Nat} {ts : List Lexeme} {c : Case} (h : DerivesArms n ts [c]) : DerivesNode ts (.arm c)
  | expression {ts : List Lexeme} {e : Expr} (h : DerivesExpr ts e) : DerivesNode ts (.expression e)
  | literal {ts : List Lexeme} {l : Literal} (h : DerivesLiteral ts l) : DerivesNode ts (.literal l)
  | typedName {ts : List Lexeme} {x : TypedName} (h : DerivesTypedName ts x) :
      DerivesNode ts (.typedName x)
  | identifier {ts : List Lexeme} {x : Identifier} (h : DerivesIdentifier ts x) :
      DerivesNode ts (.identifier x)

/-! ## Spans of nodes -/

/-- A span is that of a row of tokens. -/
def Spans (ts : List Lexeme) (s : Span) : Prop :=
  ts ≠ [] ∧ s = spanOf ts

section Spans

variable {n : Nat} {ts : List Lexeme}

theorem DerivesIdentifier.spans {x : Identifier} (h : DerivesIdentifier ts x) : Spans ts x.span := by
  cases h with
  | mk x =>
    refine ⟨List.cons_ne_nil _ _, ?_⟩
    simp [spanOf, lastSpan, Span.merge, Identifier.lexeme]

theorem DerivesTypedName.spans {x : TypedName} (h : DerivesTypedName ts x) : Spans ts x.span := by
  cases h with
  | mk x h hts => exact ⟨hts ▸ List.cons_ne_nil _ _, rfl⟩

theorem DerivesLiteral.spans {l : Literal} (h : DerivesLiteral ts l) : Spans ts l.span := by
  cases h with
  | mk l hvalue h hts => exact ⟨hts ▸ List.cons_ne_nil _ _, rfl⟩

theorem DerivesExpr.spans {e : Expr} (h : DerivesExpr ts e) : Spans ts e.span := by
  cases h with
  | literal h => exact h.spans
  | identifier h => exact h.spans
  | call f opening closing h hts => exact ⟨hts ▸ List.cons_ne_nil _ _, rfl⟩

theorem DerivesBlock.spans {b : Block} (h : DerivesBlock n ts b) : Spans ts b.span := by
  cases h with
  | mk opening closing h hts => exact ⟨hts ▸ List.cons_ne_nil _ _, rfl⟩

theorem DerivesStmt.spans {s : Stmt} (h : DerivesStmt n ts s) : Spans ts s.span := by
  cases h with
  | block h => exact h.spans
  | expression h => exact h.spans
  | assignment assign htargets hvalue hts =>
    exact ⟨hts ▸ List.append_ne_nil_of_right_ne_nil _ (List.cons_ne_nil _ _), rfl⟩
  | function _ _ _ _ _ _ _ hts | declaration _ _ _ hts | ifThen _ _ _ hts | switch _ _ _ _ hts
  | forLoop _ _ _ _ _ hts | breakLoop _ hts | continueLoop _ hts | leave _ hts =>
    exact ⟨hts ▸ List.cons_ne_nil _ _, rfl⟩

theorem DerivesArms.spans {c : Case} (h : DerivesArms n ts [c]) : Spans ts c.span := by
  cases h with
  | default k hbody hts => exact ⟨hts ▸ List.cons_ne_nil _ _, rfl⟩
  | case k hvalue hbody hrest hts =>
    cases hrest
    rw [List.append_nil]
    exact ⟨hts ▸ List.cons_ne_nil _ _, rfl⟩

theorem DerivesData.spans {d : DataSection} (h : DerivesData ts d) : Spans ts d.span := by
  cases h with
  | mk k l hname hbytes hts => exact ⟨hts ▸ List.cons_ne_nil _ _, rfl⟩

theorem DerivesObject.spans {o : Object} (h : DerivesObject n ts o) : Spans ts o.span := by
  cases h with
  | mk k opening word closing hname hcode hparts hts => exact ⟨hts ▸ List.cons_ne_nil _ _, rfl⟩

/-- The span of a node is that of its tokens. -/
theorem DerivesNode.spans {m : Node} (h : DerivesNode ts m) : Spans ts m.span := by
  cases h with
  | object h => exact h.spans
  | lone h => exact h.spans
  | data h => exact h.spans
  | block h => exact h.spans
  | statement h => exact h.spans
  | arm h => exact h.spans
  | expression h => exact h.spans
  | literal h => exact h.spans
  | typedName h => exact h.spans
  | identifier h => exact h.spans

end Spans

end Yul
