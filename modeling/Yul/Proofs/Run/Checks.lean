import Yul.Proofs.Run.Quiet
import Yul.Proofs.Run.Tour

/-!
# Every part of an analysis is a tour

Statements and blocks are tours that open the scopes `Stmt.sites` and `Block.sites`, and so walks
that enter the blocks inside them in the order of `Stmt.visited` and `Block.visited`: a loop's body
before its last block.
-/

namespace Yul

namespace Check

section Setting

variable (cfg : Setting) (scope : ScopeId)

/-! ## Declarations -/

theorem declare_declaring (what : Declared) (x : Identifier) (symbol : Symbol) :
    Declaring scope [(x.name, symbol)] (declare what scope x symbol) := by
  have hnaming := reportAll_silently scope (Dialect.local_namingProblems x.name) x.span
  refine .quietly_bind hnaming.quietly fun _ => ?_
  refine .quietly_bind (.emit (e := .look scope x.name) rfl rfl) fun _ r => ?_
  rw [after_bind, value_get, after_get]
  cases htaken : r.record.scopes.isTaken scope x.name with
  | true => exact .refuse htaken .done
  | false => exact .declare htaken .done

theorem declareVariable_declaring (x : TypedName) (type : Label) :
    Declaring scope [(x.name, .variable type)] (declareVariable scope x type) :=
  declare_declaring scope _ ⟨x.name, x.span⟩ _

theorem value_declaredTypes (xs : List TypedName) (r : Run) :
    (declaredTypes cfg xs).value r = cfg.dialect.declaredLabels xs := by
  unfold declaredTypes
  induction xs generalizing r with
  | nil => rfl
  | cons x xs ih =>
    rw [List.mapM_cons, value_bind, value_bind, value_pure, ih]
    rfl

theorem declareVariables_declaring (xs : List TypedName) :
    Declaring scope (variableSymbols cfg.dialect xs)
      (declareVariables scope xs (cfg.dialect.declaredLabels xs)) := by
  induction xs with
  | nil => exact (Quietly.pure _).declaring
  | cons x xs ih => exact .bind (declareVariable_declaring scope x _) fun _ => ih

theorem declaration_declaring (xs : List TypedName) (value : Option Expr) (span : Span) :
    Declaring scope (variableSymbols cfg.dialect xs) (declaration cfg scope xs value span) := by
  intro r
  have htypes := (declaredTypes_silently cfg scope xs).quietly.declaring r
  rw [declaration, after_bind, value_declaredTypes]
  refine htypes.trans (Declaring.quietly_bind ?_ (fun _ => ?_) _)
  · exact initialValue_quietly cfg scope xs _ value span
  · exact declareVariables_declaring cfg scope xs

theorem declareFunction_declaring (f : FunctionDef) :
    Declaring scope [functionSymbol cfg.dialect f] (declareFunction cfg scope f) := by
  intro r
  have hparams := (declaredTypes_silently cfg scope f.parameters).quietly.declaring r
  have hreturns := (declaredTypes_silently cfg scope f.returns).quietly.declaring
    ((declaredTypes cfg f.parameters).after r)
  rw [declareFunction, after_bind, value_declaredTypes, after_bind, value_declaredTypes]
  exact hparams.trans (hreturns.trans (declare_declaring scope _ _ _ _))

theorem declareFunctions_declaring (statements : List Stmt) :
    Declaring scope ((functionsOf statements).map (functionSymbol cfg.dialect))
      ((functionsOf statements).forM (declareFunction cfg scope)) :=
  .forM (declareFunction_declaring cfg scope)

theorem parameters_declaring (f : FunctionDef) :
    Declaring scope (variableSymbols cfg.dialect (f.parameters ++ f.returns))
      (parameters cfg scope f) :=
  .forM fun x => declareVariable_declaring scope x _

theorem variableSymbols_isVariable (xs : List TypedName) :
    ∀ entry ∈ variableSymbols cfg.dialect xs, entry.2.isVariable = true :=
  List.forall_mem_map.mpr fun _ _ => rfl

theorem declare_walks (what : Declared) (x : Identifier) (symbol : Symbol) :
    Walks scope [] (declare what scope x symbol) :=
  (declare_declaring scope what x symbol).walks

theorem declareVariables_walks (xs : List TypedName) (types : List Label) :
    Walks scope [] (declareVariables scope xs types) := by
  induction xs generalizing types with
  | nil => exact .pure ()
  | cons x xs ih =>
    cases types with
    | nil => exact .pure ()
    | cons type types => exact .bind (declare_walks scope _ _ _) fun _ => ih types

theorem declareFunction_walks (f : FunctionDef) : Walks scope [] (declareFunction cfg scope f) :=
  (declareFunction_declaring cfg scope f).walks

theorem parameters_walks (f : FunctionDef) : Walks scope [] (parameters cfg scope f) :=
  (parameters_declaring cfg scope f).walks

/-! ## Statements -/

theorem block_tours {holder : Holder} {id : BlockId} {statements : List Stmt}
    {own : List (Name × Symbol)} {inner : List Site} {inside : ScopeId → Check Unit}
    (hinside : ∀ s, Tours (.block id) s own inner (inside s)) :
    Tours holder scope [] (⟨.block id, holder,
        (functionsOf statements).map (functionSymbol cfg.dialect) ++ own⟩ :: inner) (do
      let s ← openBlock cfg id statements (some scope)
      inside s
      emit (.exitBlock id s)) := by
  intro r
  rw [← List.append_nil inner]
  exact .block (declareFunctions_declaring cfg _ statements _) (hinside _ _) .done

theorem function_tours {holder : Holder} (name : Name) (body : BlockId)
    {symbols : List (Name × Symbol)} {inner : List Site} {params inside : ScopeId → Check Unit}
    (hparams : ∀ s, Declaring s symbols (params s))
    (hvariables : ∀ entry ∈ symbols, entry.2.isVariable = true)
    (hinside : ∀ s, Tours (.parameters body) s [] inner (inside s)) :
    Tours holder scope [] (⟨.parameters body, holder, symbols⟩ :: inner) (do
      let s ← openParameters body scope
      params s
      emit (.enterFunction ⟨scope, name⟩)
      inside s
      emit (.exitFunction ⟨scope, name⟩)) := by
  intro r
  rw [← List.append_nil inner]
  exact .function (hparams _ _) hvariables (hinside _ _) .done

theorem function_walks (name : Name) (body : BlockId) {inner : List BlockId}
    {params inside : ScopeId → Check Unit} (hparams : ∀ s, Walks s [] (params s))
    (hinside : ∀ s, Walks s inner (inside s)) :
    Walks scope inner (do
      let s ← openParameters body scope
      params s
      emit (.enterFunction ⟨scope, name⟩)
      inside s
      emit (.exitFunction ⟨scope, name⟩)) := by
  intro r
  rw [← List.append_nil inner]
  exact .function (hparams _ _) (hinside _ _) .done

theorem loop_walks (e : Expr) {is bs ps : List BlockId} {inits bodies posts : Check Unit}
    (hinit : Walks scope is inits) (hbody : Walks scope bs bodies) (hpost : Walks scope ps posts) :
    Walks scope (is ++ (bs ++ ps)) (do
      inits
      condition cfg scope e
      bodies
      posts
      emit (.effects .looping)) := by
  refine .bind hinit fun _ => .quietly_bind (condition_quietly cfg scope e) fun _ => ?_
  exact .bind hbody fun _ => .bind_quietly hpost fun _ => .emit trivial rfl

theorem after_function (name : Name) (body : BlockId) {params inside : ScopeId → Check Unit}
    {r r₁ r₂ : Run}
    (hparams : (params r.record.scopes.size).after (r.take (.openParameters body scope)) = r₁)
    (hinside :
      (inside r.record.scopes.size).after (r₁.take (.enterFunction ⟨scope, name⟩)) = r₂) :
    (do
      let s ← openParameters body scope
      params s
      emit (.enterFunction ⟨scope, name⟩)
      inside s
      emit (.exitFunction ⟨scope, name⟩) : Check Unit).after r =
        r₂.take (.exitFunction ⟨scope, name⟩) := by
  rw [← hinside, ← hparams]
  rfl

mutual

/-- Checking a statement is a tour, whatever problems are found. -/
theorem stmt_tours (ctx : Context) (holder : Holder) (s : Stmt) :
    Tours holder ctx.scope (s.variableSymbols cfg.dialect) (s.sites cfg.dialect holder)
      (stmt cfg ctx s) := by
  match s with
  | .expression e => exact (expressionStatement_quietly cfg _ e).tours
  | .assignment xs value span => exact (assignment_quietly cfg _ xs value span).tours
  | .declaration xs value span =>
    exact (declaration_declaring cfg _ xs value span).tours (variableSymbols_isVariable cfg xs)
  | .function f _ => exact functionDef_tours ctx holder f
  | .ifThen e body _ =>
    exact .quietly_bind (condition_quietly cfg _ e) fun _ => codeBlock_tours ctx holder body
  | .switch subject arms span =>
    rw [stmt]
    refine .quietly_bind (valueOf_quietly cfg _ subject) fun type => ?_
    have harms := cases_tours ctx holder type [] false arms
    exact .ite (.quietly_bind (.report _ _ rfl) fun _ => harms) harms
  | .forLoop ⟨id, statements, _⟩ e post body _ =>
    have hinside : ∀ scope, Tours (.block id) scope
        (statements.flatMap (Stmt.variableSymbols cfg.dialect))
        (sitesOfStmts cfg.dialect (.block id) statements ++
          (body.sites cfg.dialect (.block id) ++ post.sites cfg.dialect (.block id)))
        (do
          stmts cfg { ctx with scope, inLoopBody := false, inInit := true } statements
          condition cfg scope e
          block cfg { ctx with scope, inLoopBody := true, inInit := false } body
          block cfg { ctx with scope, inLoopBody := false, inInit := false } post
          emit (.effects .looping)) := by
      intro scope
      rw [← List.append_nil (statements.flatMap _)]
      refine .bind (stmts_tours { ctx with scope, inLoopBody := false, inInit := true }
        (.block id) statements) fun _ => ?_
      refine .quietly_bind (condition_quietly cfg scope e) fun _ => ?_
      refine .apart_bind
        (codeBlock_tours { ctx with scope, inLoopBody := true, inInit := false } (.block id) body)
        fun _ => ?_
      exact .bind_quietly (codeBlock_tours
        { ctx with scope, inLoopBody := false, inInit := false } (.block id) post)
        fun _ => .emit trivial rfl
    rw [stmt]
    exact block_tours cfg ctx.scope hinside
  | .breakLoop span => exact (loopJump_silently _ ctx _ span).quietly.tours
  | .continueLoop span => exact (loopJump_silently _ ctx _ span).quietly.tours
  | .leave span =>
    rw [stmt]
    exact .ite (Quietly.pure ()).tours (Quietly.report _ _ rfl).tours
  | .block b => exact codeBlock_tours ctx holder b

theorem functionDef_tours (ctx : Context) (holder : Holder) (f : FunctionDef) :
    Tours holder ctx.scope [] (f.sites cfg.dialect holder) (function cfg ctx f) := by
  match f with
  | ⟨name, params, returns, body⟩ =>
    have hparams := fun s => parameters_declaring cfg s ⟨name, params, returns, body⟩
    have hvariables := variableSymbols_isVariable cfg (params ++ returns)
    have hinside := fun scope =>
      codeBlock_tours { scope, inFunction := true } (.parameters body.id) body
    have hbody : Tours holder ctx.scope [] _ _ :=
      function_tours ctx.scope name.name body.id hparams hvariables hinside
    exact .ite (.quietly_bind (.report _ _ rfl) fun _ => hbody) hbody

theorem codeBlock_tours (ctx : Context) (holder : Holder) (b : Block) :
    Tours holder ctx.scope [] (b.sites cfg.dialect holder) (block cfg ctx b) := by
  match b with
  | ⟨id, statements, _⟩ =>
    rw [block]
    exact block_tours cfg ctx.scope fun scope =>
      stmts_tours { ctx with scope } (.block id) statements

theorem stmts_tours (ctx : Context) (holder : Holder) (ss : List Stmt) :
    Tours holder ctx.scope (ss.flatMap (Stmt.variableSymbols cfg.dialect))
      (sitesOfStmts cfg.dialect holder ss) (stmts cfg ctx ss) := by
  match ss with
  | [] => exact (Quietly.pure ()).tours
  | s :: rest => exact .bind (stmt_tours ctx holder s) fun _ => stmts_tours ctx holder rest

theorem cases_tours (ctx : Context) (holder : Holder) (subject : Option Label)
    (seen : List (Label × Word)) (hasDefault : Bool) (cs : List Case) :
    Tours holder ctx.scope [] (sitesOfCases cfg.dialect holder cs)
      (cases cfg ctx subject seen hasDefault cs) := by
  match cs with
  | [] => exact (Quietly.pure ()).tours
  | ⟨value, body, span⟩ :: rest =>
    have hvalue := (caseValue_silently cfg ctx.scope subject seen hasDefault value span).quietly
    rw [cases]
    refine .quietly_bind hvalue fun _ => ?_
    exact .apart_bind (codeBlock_tours ctx holder body) fun _ =>
      cases_tours ctx holder subject _ _ rest

end

theorem stmts_walks (ctx : Context) (ss : List Stmt) :
    Walks ctx.scope (visitedOfStmts ss) (stmts cfg ctx ss) := by
  rw [← visitedOfStmts_eq cfg.dialect (.block 0)]
  exact (stmts_tours cfg ctx _ ss).walks

theorem codeBlock_walks (ctx : Context) (b : Block) : Walks ctx.scope b.visited (block cfg ctx b) := by
  rw [← b.visited_eq cfg.dialect (.block 0)]
  exact (codeBlock_tours cfg ctx _ b).walks

theorem cases_walks (ctx : Context) (subject : Option Label) (seen : List (Label × Word))
    (hasDefault : Bool) (cs : List Case) :
    Walks ctx.scope (visitedOfCases cs) (cases cfg ctx subject seen hasDefault cs) := by
  rw [← visitedOfCases_eq cfg.dialect (.block 0)]
  exact (cases_tours cfg ctx _ subject seen hasDefault cs).walks

end Setting

end Check

end Yul
