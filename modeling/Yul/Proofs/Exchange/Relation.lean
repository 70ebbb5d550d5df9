import Mathlib.Data.List.Perm.Basic
import Yul.Proofs.Effects.Deeds
import Yul.Proofs.Effects.Total

/-!
# Exchanging neighbours

`Block.Exchanged b b'`: one row of statements anywhere in `b` has two neighbours, neither of which
declares variables, and `b'` has them the other way round. A function definition declares no
variables, so it may move past every other definition and past every statement but a declaration of
variables.

The two blocks have the same blocks inside them, and do the same (`Block.Exchanged.deeds`): functions
are seen throughout their block, so neither they nor the code around them notice where they stand.
-/

namespace Yul

/-- Whether a statement declares variables. -/
def Stmt.isDeclaration : Stmt → Bool
  | .declaration _ _ _ => true
  | _ => false

mutual

/-- A statement with two neighbours somewhere inside it exchanged. -/
inductive Stmt.Exchanged : Stmt → Stmt → Prop where
  | function {f f' : FunctionDef} {span : Span} (h : FunctionDef.Exchanged f f') :
      Stmt.Exchanged (.function f span) (.function f' span)
  | ifThen {e : Expr} {body body' : Block} {span : Span} (h : Block.Exchanged body body') :
      Stmt.Exchanged (.ifThen e body span) (.ifThen e body' span)
  | switch {subject : Expr} {arms arms' : List Case} {span : Span} (h : ExchangedCases arms arms') :
      Stmt.Exchanged (.switch subject arms span) (.switch subject arms' span)
  | loopInit {init init' post body : Block} {e : Expr} {span : Span} (h : Block.Exchanged init init') :
      Stmt.Exchanged (.forLoop init e post body span) (.forLoop init' e post body span)
  | loopPost {init post post' body : Block} {e : Expr} {span : Span} (h : Block.Exchanged post post') :
      Stmt.Exchanged (.forLoop init e post body span) (.forLoop init e post' body span)
  | loopBody {init post body body' : Block} {e : Expr} {span : Span} (h : Block.Exchanged body body') :
      Stmt.Exchanged (.forLoop init e post body span) (.forLoop init e post body' span)
  | block {b b' : Block} (h : Block.Exchanged b b') : Stmt.Exchanged (.block b) (.block b')

inductive FunctionDef.Exchanged : FunctionDef → FunctionDef → Prop where
  | body {name : Identifier} {parameters returns : List TypedName} {body body' : Block}
      (h : Block.Exchanged body body') :
      FunctionDef.Exchanged ⟨name, parameters, returns, body⟩ ⟨name, parameters, returns, body'⟩

/-- A block with two neighbours somewhere inside it exchanged. -/
inductive Block.Exchanged : Block → Block → Prop where
  | statements {id : BlockId} {ss ss' : List Stmt} {span : Span} (h : ExchangedStmts ss ss') :
      Block.Exchanged ⟨id, ss, span⟩ ⟨id, ss', span⟩

/-- Statements with two neighbours among them, or inside one of them, exchanged. -/
inductive ExchangedStmts : List Stmt → List Stmt → Prop where
  | swap {s t : Stmt} {rest : List Stmt} (hs : s.isDeclaration = false)
      (ht : t.isDeclaration = false) : ExchangedStmts (s :: t :: rest) (t :: s :: rest)
  | head {s s' : Stmt} {rest : List Stmt} (h : Stmt.Exchanged s s') :
      ExchangedStmts (s :: rest) (s' :: rest)
  | tail {s : Stmt} {rest rest' : List Stmt} (h : ExchangedStmts rest rest') :
      ExchangedStmts (s :: rest) (s :: rest')

inductive ExchangedCases : List Case → List Case → Prop where
  | head {value : Option Literal} {body body' : Block} {span : Span} {rest : List Case}
      (h : Block.Exchanged body body') :
      ExchangedCases (⟨value, body, span⟩ :: rest) (⟨value, body', span⟩ :: rest)
  | tail {arm : Case} {rest rest' : List Case} (h : ExchangedCases rest rest') :
      ExchangedCases (arm :: rest) (arm :: rest')

end

/-! ## Back again -/

mutual

theorem Stmt.Exchanged.symm {s s' : Stmt} (h : s.Exchanged s') : s'.Exchanged s := by
  match h with
  | .function h => exact .function h.symm
  | .ifThen h => exact .ifThen h.symm
  | .switch h => exact .switch h.symm
  | .loopInit h => exact .loopInit h.symm
  | .loopPost h => exact .loopPost h.symm
  | .loopBody h => exact .loopBody h.symm
  | .block h => exact .block h.symm

theorem FunctionDef.Exchanged.symm {f f' : FunctionDef} (h : f.Exchanged f') : f'.Exchanged f := by
  match h with
  | .body h => exact .body h.symm

theorem Block.Exchanged.symm {b b' : Block} (h : b.Exchanged b') : b'.Exchanged b := by
  match h with
  | .statements h => exact .statements h.symm

theorem ExchangedStmts.symm {ss ss' : List Stmt} (h : ExchangedStmts ss ss') :
    ExchangedStmts ss' ss := by
  match h with
  | .swap hs ht => exact .swap ht hs
  | .head h => exact .head h.symm
  | .tail h => exact .tail h.symm

theorem ExchangedCases.symm {arms arms' : List Case} (h : ExchangedCases arms arms') :
    ExchangedCases arms' arms := by
  match h with
  | .head h => exact .head h.symm
  | .tail h => exact .tail h.symm

end

/-! ## What stays the same -/

/-- What can be seen of a function from outside. -/
def FunctionDef.header (f : FunctionDef) : Name × List TypedName × List TypedName :=
  (f.name.name, f.parameters, f.returns)

theorem FunctionDef.Exchanged.header {f f' : FunctionDef} (h : f.Exchanged f') :
    f.header = f'.header := by
  cases h
  rfl

theorem functionsOf_cons_of_function (f : FunctionDef) (span : Span) (ss : List Stmt) :
    functionsOf (.function f span :: ss) = f :: functionsOf ss := rfl

theorem ExchangedStmts.headers {ss ss' : List Stmt} (h : ExchangedStmts ss ss') :
    ((functionsOf ss).map FunctionDef.header).Perm ((functionsOf ss').map FunctionDef.header) := by
  match h with
  | @ExchangedStmts.swap s t rest _ _ => exact ((List.Perm.swap t s rest).filterMap _).map _
  | @ExchangedStmts.head s s' rest h =>
    cases h with
    | function h =>
      rw [functionsOf_cons_of_function, functionsOf_cons_of_function, List.map_cons, List.map_cons,
        h.header]
    | _ => exact .refl _
  | @ExchangedStmts.tail s rest rest' h =>
    have hrest := h.headers
    rw [← List.singleton_append, ← List.singleton_append (l := rest')]
    unfold functionsOf at hrest ⊢
    rw [List.filterMap_append, List.filterMap_append, List.map_append, List.map_append]
    exact hrest.append_left _

mutual

theorem Stmt.Exchanged.ids {s s' : Stmt} (h : s.Exchanged s') :
    (s.blocks.map Block.id).Perm (s'.blocks.map Block.id) := by
  match h with
  | .function h => exact h.ids
  | .ifThen h => exact h.ids
  | .switch h => exact h.ids
  | .loopInit h =>
    simp only [Stmt.blocks, List.map_append]
    exact (h.ids.append_right _).append_right _
  | .loopPost h =>
    simp only [Stmt.blocks, List.map_append]
    exact (h.ids.append_left _).append_right _
  | .loopBody h =>
    simp only [Stmt.blocks, List.map_append]
    exact h.ids.append_left _
  | .block h => exact h.ids

theorem FunctionDef.Exchanged.ids {f f' : FunctionDef} (h : f.Exchanged f') :
    (f.blocks.map Block.id).Perm (f'.blocks.map Block.id) := by
  match h with
  | .body h => exact h.ids

theorem Block.Exchanged.ids {b b' : Block} (h : b.Exchanged b') :
    (b.blocks.map Block.id).Perm (b'.blocks.map Block.id) := by
  match h with
  | .statements h => exact h.ids.cons _

theorem ExchangedStmts.ids {ss ss' : List Stmt} (h : ExchangedStmts ss ss') :
    ((blocksOfStmts ss).map Block.id).Perm ((blocksOfStmts ss').map Block.id) := by
  match h with
  | .swap _ _ =>
    simp only [blocksOfStmts, List.map_append]
    rw [← List.append_assoc, ← List.append_assoc]
    exact List.perm_append_comm.append_right _
  | .head h =>
    simp only [blocksOfStmts, List.map_append]
    exact h.ids.append_right _
  | .tail h =>
    simp only [blocksOfStmts, List.map_append]
    exact h.ids.append_left _

theorem ExchangedCases.ids {arms arms' : List Case} (h : ExchangedCases arms arms') :
    ((blocksOfCases arms).map Block.id).Perm ((blocksOfCases arms').map Block.id) := by
  match h with
  | .head h =>
    simp only [blocksOfCases, Case.blocks, List.map_append]
    exact h.ids.append_right _
  | .tail h =>
    simp only [blocksOfCases, List.map_append]
    exact h.ids.append_left _

end

/-! ## What is done -/

section Deeds

variable {around : Surroundings}

theorem Surroundings.after_of_not_declaration {s : Stmt} (h : s.isDeclaration = false) :
    around.after s = around := by
  cases s with
  | declaration => exact absurd h (by simp [Stmt.isDeclaration])
  | _ => rfl

theorem Stmt.Exchanged.isDeclaration {s s' : Stmt} (h : s.Exchanged s') :
    s.isDeclaration = false ∧ s'.isDeclaration = false := by
  cases h <;> exact ⟨rfl, rfl⟩

theorem ExchangedStmts.inBlock {ss ss' : List Stmt} (h : ExchangedStmts ss ss') (id : BlockId) :
    around.inBlock id ss = around.inBlock id ss' := by
  refine Surroundings.acceptFunctions_perm around id ?_
  simpa [Function.comp_def, FunctionDef.header] using h.headers.map (·.1)

theorem ExchangedStmts.foldl_after {ss ss' : List Stmt} (h : ExchangedStmts ss ss')
    (around : Surroundings) :
    ss.foldl Surroundings.after around = ss'.foldl Surroundings.after around := by
  match h with
  | .swap hs ht =>
    simp only [List.foldl_cons, Surroundings.after_of_not_declaration hs,
      Surroundings.after_of_not_declaration ht]
  | .head h =>
    simp only [List.foldl_cons, Surroundings.after_of_not_declaration h.isDeclaration.1,
      Surroundings.after_of_not_declaration h.isDeclaration.2]
  | .tail h => exact h.foldl_after _

mutual

theorem Stmt.Exchanged.deeds {s s' : Stmt} (h : s.Exchanged s') (around : Surroundings)
    (here : BlockId) : (s.deeds around here).SameActs (s'.deeds around here) := by
  match h with
  | .function h => exact h.deeds around here
  | .ifThen h => exact (h.deeds around).append_left _
  | .switch h => exact (h.deeds around).append_left _
  | .loopInit (.statements h) =>
    simp only [Stmt.deeds]
    rw [← h.inBlock, ← h.foldl_after]
    exact ((h.deeds _ _).append_right _).inBlock _
  | @Stmt.Exchanged.loopPost ⟨_, _, _⟩ _ _ _ _ _ h =>
    exact (((((h.deeds _).append_right _).append_left _).append_left _).append_left _).inBlock _
  | @Stmt.Exchanged.loopBody ⟨_, _, _⟩ _ _ _ _ _ h =>
    exact ((((h.deeds _).append_right _).append_left _).append_left _).inBlock _
  | .block h => exact h.deeds around

theorem FunctionDef.Exchanged.deeds {f f' : FunctionDef} (h : f.Exchanged f')
    (around : Surroundings) (here : BlockId) :
    (f.deeds around here).SameActs (f'.deeds around here) := by
  match h with
  | .body h => exact (h.deeds _).inFunction _

/-- What a block does does not depend on the order of its functions. -/
theorem Block.Exchanged.deeds {b b' : Block} (h : b.Exchanged b') (around : Surroundings) :
    (b.deeds around).SameActs (b'.deeds around) := by
  match h with
  | .statements h =>
    rw [Block.deeds, Block.deeds, ← h.inBlock]
    exact (h.deeds _ _).inBlock _

theorem ExchangedStmts.deeds {ss ss' : List Stmt} (h : ExchangedStmts ss ss')
    (around : Surroundings) (here : BlockId) :
    (deedsOfStmts around here ss).SameActs (deedsOfStmts around here ss') := by
  match h with
  | .swap hs ht =>
    simp only [deedsOfStmts, Surroundings.after_of_not_declaration hs,
      Surroundings.after_of_not_declaration ht]
    exact .append_left_comm _ _ _
  | .head h =>
    simp only [deedsOfStmts, Surroundings.after_of_not_declaration h.isDeclaration.1,
      Surroundings.after_of_not_declaration h.isDeclaration.2]
    exact (h.deeds around here).append_right _
  | .tail h => exact (h.deeds _ here).append_left _

theorem ExchangedCases.deeds {arms arms' : List Case} (h : ExchangedCases arms arms')
    (around : Surroundings) : (deedsOfCases around arms).SameActs (deedsOfCases around arms') := by
  match h with
  | .head h => exact (h.deeds around).append_right _
  | @ExchangedCases.tail ⟨_, _, _⟩ _ _ h =>
    exact (h.deeds around).append_left _

end

end Deeds

end Yul
