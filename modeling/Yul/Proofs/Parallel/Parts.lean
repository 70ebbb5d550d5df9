import Yul.Analysis
import Yul.Proofs.Parallel.Logic
import Yul.Proofs.Scope.Lookup

/-!
# The same code at other places and for another version

For each part of an analysis, what it does with some code goes side by side with what it does with
the same code at other places, for another version of the machine. The version shows only where a
builtin is called, and a place only in what is reported there and in what is asked outside. A part
of an analysis of code whose names belong to an own scope uses own scopes only.
-/

namespace Yul

def Dialect.atVersion (d : Dialect) (v : EvmVersion) : Dialect :=
  { d with version := v }

/-- The same setting for another version of the machine. -/
def Setting.atVersion (cfg : Setting) (v : EvmVersion) : Setting :=
  { cfg with dialect := cfg.dialect.atVersion v }

/-- The same setting for another version of the machine and with another outside. -/
def Setting.beside (cfg : Setting) (v : EvmVersion) (resolver : Option Resolver) : Setting :=
  { cfg with dialect := cfg.dialect.atVersion v, resolver }

/-- Moving a name with `f` does not change its type outside. -/
def Setting.Overlooks (cfg : Setting) (f : Span → Span) : Prop :=
  ∀ resolve, cfg.resolver = some resolve → ∀ a, resolve (a.mapSpans f) = resolve a

theorem Setting.overlooks_id (cfg : Setting) : cfg.Overlooks id :=
  fun _ _ _ => rfl

namespace Check

/-! ## Names -/

section Names

variable {f : Span → Span} {d d' : Dialect} {P : Builtin → Prop} (R : Journals f d d' P)
variable {scope : ScopeId}

/-- Whether a meaning belongs to an own scope. -/
def Meaning.IsOwn (own : ScopeId → Prop) : Meaning → Prop
  | .variable home _ => own home
  | .function g _ _ => own g.scope
  | .missing => True

theorem isOwn_meaning {r r' : Run} (h : Twins R r r') (hscope : R.outlook.own scope) (name : Name) :
    (meaning r.record.scopes scope name).IsOwn R.outlook.own := by
  unfold meaning
  cases hfound : r.record.scopes.lookup scope name with
  | none => trivial
  | some found =>
    obtain ⟨home, symbol⟩ := found
    obtain ⟨s, hs⟩ := ScopeTable.mem_of_visible hfound
    have hhome : R.outlook.own home := R.outlook.outward h.records hscope (home, s) hs
    cases symbol <;> exact hhome

theorem findMeaning_parallel (hscope : R.outlook.own scope) (name : Name) :
    ParallelTo R (Meaning.IsOwn R.outlook.own) (findMeaning scope name) (findMeaning scope name) := by
  intro r r' h
  have hlook := h.take (.look scope name) (List.forall_mem_singleton.mpr hscope)
  refine ⟨⟨?_, isOwn_meaning R hlook hscope name⟩, hlook⟩
  change meaning (r'.take ((Event.look scope name).mapSpans f)).record.scopes scope name =
    meaning (r.take (.look scope name)).record.scopes scope name
  rw [meaning, hlook.lookup_eq hscope, meaning]

theorem checkActive_parallel (home : ScopeId) (x : Identifier) :
    Parallel R (checkActive home x) (checkActive home (x.mapSpans f)) := by
  unfold checkActive
  refine .read fun r r' h => ?_
  rw [h.active]
  exact .ite (.pure _) (.report _ _)

theorem declare_parallel (what : Declared) (hscope : R.outlook.own scope) (x : Identifier)
    (symbol : Symbol) :
    Parallel R (declare what scope x symbol) (declare what scope (x.mapSpans f) symbol) := by
  have hown := List.forall_mem_singleton.mpr hscope
  unfold declare
  apply Parallel.bind (.reportAll _ _)
  intro _
  apply Parallel.bind (.emit (.look scope x.name) hown)
  intro _
  refine .read fun r r' h => ?_
  rw [Identifier.mapSpans, h.isTaken_eq hscope]
  exact .ite (.report _ _) (.emit (.declare scope x.name symbol) hown)

theorem declareVariable_parallel (hscope : R.outlook.own scope) (x : TypedName) (type : Label) :
    Parallel R (declareVariable scope x type) (declareVariable scope (x.mapSpans f) type) :=
  declare_parallel R .variable hscope ⟨x.name, x.span⟩ (.variable type)

theorem declareVariables_parallel (hscope : R.outlook.own scope) (xs : List TypedName)
    (types : List Label) :
    Parallel R (declareVariables scope xs types)
      (declareVariables scope (xs.map (TypedName.mapSpans f)) types) := by
  induction xs generalizing types with
  | nil => exact .pure _
  | cons x xs ih =>
    cases types with
    | nil => exact .pure _
    | cons type types =>
      exact .bind (declareVariable_parallel R hscope x type) fun _ => ih types

theorem enterBlock_parallel (bid : BlockId) {parent : Option ScopeId}
    (hparent : ∀ p ∈ parent.toList, R.outlook.own p) :
    ParallelTo R R.outlook.own (enterBlock bid parent) (enterBlock bid parent) :=
  fun _ _ h => ⟨⟨R.outlook.size h.records, R.outlook.next h.records⟩,
    h.take (.enterBlock bid parent) hparent⟩

theorem openParameters_parallel (body : BlockId) {parent : ScopeId}
    (hparent : R.outlook.own parent) :
    ParallelTo R R.outlook.own (openParameters body parent) (openParameters body parent) :=
  fun _ _ h => ⟨⟨R.outlook.size h.records, R.outlook.next h.records⟩,
    h.take (.openParameters body parent) (List.forall_mem_singleton.mpr hparent)⟩

/-! ## Comparing labels -/

theorem oneValue_parallel (values : Option (List Label)) (span : Span) :
    Parallel R (oneValue values span) (oneValue values (f span)) := by
  unfold oneValue
  split
  · exact .pure _
  · exact .pure _
  · exact .bind (.report _ _) fun _ => .pure _

theorem checkValue_parallel (expected given : Option Label) (span : Span) :
    Parallel R (checkValue expected given span) (checkValue expected given (f span)) := by
  unfold checkValue
  split
  · exact .reportAll _ _
  · exact .pure _

theorem checkCount_parallel (x : Identifier) (signature : Option Signature) (given : Nat) :
    Parallel R (checkCount x signature given) (checkCount (x.mapSpans f) signature given) := by
  unfold checkCount
  split
  · exact .ite (.pure _) (.report _ _)
  · exact .pure _

theorem checkTargets_parallel (seen : List Name) (xs : List Identifier) :
    Parallel R (checkTargets seen xs) (checkTargets seen (xs.map (Identifier.mapSpans f))) := by
  induction xs generalizing seen with
  | nil => exact .pure _
  | cons x xs ih =>
    rw [List.map_cons, checkTargets, checkTargets]
    exact .ite (.bind (.report _ _) fun _ => ih _) (ih _)

theorem valueAt_parallel (given : Option (List Label)) (index : Nat) :
    Parallel R (valueAt given index) (valueAt given index) := by
  unfold valueAt
  split
  · exact .pure _
  · exact .ite (.bind (.stop _) fun _ => .pure _) (.pure _)

theorem checkInitial_parallel (xs : List TypedName) (types given : List Label) :
    Parallel R (checkInitial xs types given)
      (checkInitial (xs.map (TypedName.mapSpans f)) types given) := by
  induction xs generalizing types given with
  | nil => exact .pure _
  | cons x xs ih =>
    match types, given with
    | [], _ | _ :: _, [] => exact .pure _
    | type :: types, label :: given =>
      rw [List.map_cons, checkInitial, checkInitial]
      exact .ite (ih types given) (.bind (.report _ _) fun _ => ih types given)

theorem loopJump_parallel (ctx : Context) (jump : LoopJump) (span : Span) :
    Parallel R (loopJump ctx jump span) (loopJump ctx jump (f span)) :=
  .ite (.pure _) (.report _ _)

end Names

section Setting

variable {f : Span → Span} {cfg : Setting} {v : EvmVersion} {P : Builtin → Prop}
variable {ρ : Option Resolver} (R : Journals f cfg.dialect (cfg.dialect.atVersion v) P)
variable {scope : ScopeId}

/-! ## Names from outside -/

/-- Whether asking outside goes side by side with asking another outside. -/
def AsksAlike (ρ : Option Resolver) : Prop :=
  ∀ a, Parallel R (askOutside cfg a) (askOutside (cfg.beside v ρ) (a.mapSpans f))

theorem asksAlike_of_overlooks (hf : cfg.Overlooks f) : AsksAlike R cfg.resolver := by
  intro a
  have hresolver : (cfg.beside v cfg.resolver).resolver = cfg.resolver := rfl
  unfold askOutside
  rw [hresolver]
  cases h : cfg.resolver with
  | none => exact .pure _
  | some resolve =>
    dsimp only
    rw [hf resolve h a]
    exact .bind (.emit (.ask a) (List.forall_mem_nil _)) fun _ => .pure _

/-! ## Declared labels -/

theorem declaredTypes_parallel (xs : List TypedName) :
    Parallel R (declaredTypes cfg xs)
      (declaredTypes (cfg.beside v ρ) (xs.map (TypedName.mapSpans f))) := by
  unfold declaredTypes
  induction xs with
  | nil => exact .pure _
  | cons x xs ih =>
    rw [List.map_cons, List.mapM_cons, List.mapM_cons]
    exact .bind (.bind (.reportAll _ _) fun _ => .pure _) fun _ => .bind ih fun _ => .pure _

theorem declareFunction_parallel (hscope : R.outlook.own scope) (g : FunctionDef) :
    Parallel R (declareFunction cfg scope g)
      (declareFunction (cfg.beside v ρ) scope (g.mapSpans f)) := by
  obtain ⟨name, parameters, returns, body⟩ := g
  exact .bind (declaredTypes_parallel R parameters) fun _ =>
    .bind (declaredTypes_parallel R returns) fun _ => declare_parallel R _ hscope name _

theorem openBlock_parallel (bid : BlockId) (statements : List Stmt) (parent : Option ScopeId)
    (hparent : ∀ p ∈ parent.toList, R.outlook.own p) :
    ParallelTo R R.outlook.own (openBlock cfg bid statements parent)
      (openBlock (cfg.beside v ρ) bid (mapSpansOfStmts f statements) parent) := by
  unfold openBlock
  rw [functionsOf_mapSpans]
  exact .bind_return (enterBlock_parallel R bid hparent) fun scope hscope =>
    .forM fun g _ => declareFunction_parallel R hscope g

theorem parameters_parallel (hscope : R.outlook.own scope) (g : FunctionDef) :
    Parallel R (parameters cfg scope g) (parameters (cfg.beside v ρ) scope (g.mapSpans f)) := by
  obtain ⟨name, params, returns, body⟩ := g
  unfold parameters FunctionDef.mapSpans
  rw [← List.map_append]
  exact .forM fun x _ => declareVariable_parallel R hscope x _

/-! ## Expressions -/

theorem typeOfUse_parallel (hask : AsksAlike R ρ) (hscope : R.outlook.own scope) (x : Identifier)
    (kind : AccessKind) (p q unknown : Problem) :
    Parallel R (typeOfUse cfg scope x kind p q unknown)
      (typeOfUse (cfg.beside v ρ) scope (x.mapSpans f) kind p q unknown) := by
  unfold typeOfUse
  apply ParallelTo.bind (findMeaning_parallel R hscope x.name)
  intro m hm
  cases m with
  | «variable» home type => exact .bind (checkActive_parallel R home x) fun _ => .pure _
  | function => exact .bind (.report _ _) fun _ => .pure _
  | missing =>
    apply Parallel.ite
    · exact .bind (.report _ _) fun _ => .pure _
    · exact .bind (hask ⟨x.name, kind, x.span⟩) fun type =>
        .ite (.bind (.report _ _) fun _ => .pure _) (.pure _)

theorem identifier_parallel (hask : AsksAlike R ρ) (hscope : R.outlook.own scope) (x : Identifier) :
    Parallel R (identifier cfg scope x) (identifier (cfg.beside v ρ) scope (x.mapSpans f)) :=
  typeOfUse_parallel R hask hscope x (readKind x.name) (.functionNotCalled x.name)
    (.builtinNotCalled x.name) (.identifierNotFound x.name)

theorem callee_parallel (hscope : R.outlook.own scope) (x : Identifier) (builtin : Option Builtin)
    (h : ∀ b, builtin = some b → P b) :
    Parallel R (callee cfg scope x builtin)
      (callee (cfg.beside v ρ) scope (x.mapSpans f) builtin) := by
  unfold callee
  cases builtin with
  | some b =>
    exact .bind (.use (h b rfl) x.span) fun _ =>
      .bind (.emit (.effects b.effects) (List.forall_mem_nil _)) fun _ => .pure _
  | none =>
    apply ParallelTo.bind (findMeaning_parallel R hscope x.name)
    intro m hm
    cases m with
    | function id => exact .bind (.emit (.call id) (List.forall_mem_singleton.mpr hm)) fun _ => .pure _
    | «variable» | missing => exact .bind (.report _ _) fun _ => .pure _

theorem stringArgument_parallel (kind : LiteralArgument) (e : Expr) :
    Parallel R (stringArgument cfg kind e)
      (stringArgument (cfg.beside v ρ) kind (e.mapSpans f)) := by
  unfold stringArgument
  rw [Expr.string?_mapSpans, Expr.span_mapSpans]
  cases e.string? with
  | none => exact .report _ _
  | some found =>
    exact .bind (.reportAll _ _) fun _ => .ite (.ite (.pure _) (.report _ _)) (.pure _)

mutual

theorem expression_parallel (hask : AsksAlike R ρ) (hscope : R.outlook.own scope) (e : Expr)
    (h : BuiltinsAmong P e.heads) :
    Parallel R (expression cfg scope e)
      (expression (cfg.beside v ρ) scope (e.mapSpans f)) := by
  match e with
  | .literal l => exact .bind (.reportAll _ _) fun _ => .pure _
  | .identifier x => exact .bind (identifier_parallel R hask hscope x) fun _ => .pure _
  | .call x args span =>
    rw [Expr.heads, builtinsAmong_cons] at h
    rw [Expr.mapSpans, expression, expression, length_mapSpansOfExprs]
    exact .bind (callee_parallel R hscope x _ h.1) fun signature =>
      .bind (checkCount_parallel R x signature _) fun _ =>
      .bind (arguments_parallel hask hscope _ _ 0 args h.2) fun _ => .pure _

theorem arguments_parallel (hask : AsksAlike R ρ) (hscope : R.outlook.own scope)
    (builtin : Option Builtin) (expected : List Label) (index : Nat) (es : List Expr)
    (h : BuiltinsAmong P (headsOfExprs es)) :
    Parallel R (arguments cfg scope builtin expected index es)
      (arguments (cfg.beside v ρ) scope builtin expected index (mapSpansOfExprs f es)) := by
  match es with
  | [] => exact .pure _
  | e :: rest =>
    rw [headsOfExprs, builtinsAmong_append] at h
    rw [mapSpansOfExprs, arguments, arguments, Expr.span_mapSpans]
    have hrest := arguments_parallel hask hscope builtin expected.tail (index + 1) rest h.2
    cases builtin.bind (·.literalArgument? index) with
    | some kind => exact .bind (stringArgument_parallel R kind e) fun _ => hrest
    | none =>
      exact .bind (expression_parallel hask hscope e h.1) fun values =>
        .bind (oneValue_parallel R values e.span) fun given =>
        .bind (checkValue_parallel R _ given e.span) fun _ => hrest

end

theorem valueOf_parallel (hask : AsksAlike R ρ) (hscope : R.outlook.own scope) (e : Expr)
    (h : BuiltinsAmong P e.heads) :
    Parallel R (valueOf cfg scope e) (valueOf (cfg.beside v ρ) scope (e.mapSpans f)) := by
  unfold valueOf
  rw [Expr.span_mapSpans]
  exact .bind (expression_parallel R hask hscope e h) fun values => oneValue_parallel R values e.span

theorem condition_parallel (hask : AsksAlike R ρ) (hscope : R.outlook.own scope) (e : Expr)
    (h : BuiltinsAmong P e.heads) :
    Parallel R (condition cfg scope e) (condition (cfg.beside v ρ) scope (e.mapSpans f)) := by
  unfold condition
  rw [Expr.span_mapSpans]
  apply Parallel.bind (valueOf_parallel R hask hscope e h)
  intro type
  cases type with
  | none => exact .pure _
  | some type => exact .ite (.pure _) (.report _ _)

/-! ## Statements -/

theorem targetType_parallel (hask : AsksAlike R ρ) (hscope : R.outlook.own scope) (x : Identifier) :
    Parallel R (targetType cfg scope x) (targetType (cfg.beside v ρ) scope (x.mapSpans f)) :=
  typeOfUse_parallel R hask hscope x .write .assignmentToFunction .assignmentToFunction .notAssignable

theorem target_parallel (hask : AsksAlike R ρ) (hscope : R.outlook.own scope) (x : Identifier)
    (given : Option Label) :
    Parallel R (target cfg scope x given)
      (target (cfg.beside v ρ) scope (x.mapSpans f) given) := by
  unfold target
  apply Parallel.bind (targetType_parallel R hask hscope x)
  intro declared
  match declared, given with
  | some _, some _ => exact .ite (.pure _) (.report _ _)
  | none, _ | some _, none => exact .pure _

theorem targets_parallel (hask : AsksAlike R ρ) (hscope : R.outlook.own scope)
    (given : Option (List Label)) (index : Nat) (xs : List Identifier) :
    Parallel R (targets cfg scope given index xs)
      (targets (cfg.beside v ρ) scope given index (xs.map (Identifier.mapSpans f))) := by
  induction xs generalizing index with
  | nil => exact .pure _
  | cons x xs ih =>
    exact .bind (valueAt_parallel R given index) fun _ =>
      .bind (target_parallel R hask hscope x _) fun _ => ih (index + 1)

theorem assignment_parallel (hask : AsksAlike R ρ) (hscope : R.outlook.own scope) (xs : List Identifier)
    (value : Expr) (span : Span) (h : BuiltinsAmong P value.heads) :
    Parallel R (assignment cfg scope xs value span)
      (assignment (cfg.beside v ρ) scope (xs.map (Identifier.mapSpans f)) (value.mapSpans f)
        (f span)) := by
  have hnames : (xs.map (Identifier.mapSpans f)).map Identifier.name = xs.map Identifier.name :=
    List.map_map
  unfold assignment
  rw [List.length_map, hnames]
  apply Parallel.bind (checkTargets_parallel R [] xs)
  intro _
  apply Parallel.bind (expression_parallel R hask hscope value h)
  intro values
  cases values with
  | none => exact targets_parallel R hask hscope none 0 xs
  | some types =>
    exact .ite (targets_parallel R hask hscope (some types) 0 xs)
      (.bind (.report _ _) fun _ => targets_parallel R hask hscope none 0 xs)

theorem initialValue_parallel (hask : AsksAlike R ρ) (hscope : R.outlook.own scope) (xs : List TypedName)
    (types : List Label) (value : Option Expr) (span : Span)
    (h : ∀ e ∈ value, BuiltinsAmong P e.heads) :
    Parallel R (initialValue cfg scope xs types value span)
      (initialValue (cfg.beside v ρ) scope (xs.map (TypedName.mapSpans f)) types
        (value.map (Expr.mapSpans f)) (f span)) := by
  have hnames : (xs.map (TypedName.mapSpans f)).map TypedName.name = xs.map TypedName.name :=
    List.map_map
  unfold initialValue
  rw [List.length_map, hnames]
  cases value with
  | none => exact .pure _
  | some value =>
    apply Parallel.bind (expression_parallel R hask hscope value (h value rfl))
    intro values
    cases values with
    | none => exact .pure _
    | some given => exact .ite (checkInitial_parallel R xs types given) (.report _ _)

theorem declaration_parallel (hask : AsksAlike R ρ) (hscope : R.outlook.own scope) (xs : List TypedName)
    (value : Option Expr) (span : Span) (h : ∀ e ∈ value, BuiltinsAmong P e.heads) :
    Parallel R (declaration cfg scope xs value span)
      (declaration (cfg.beside v ρ) scope (xs.map (TypedName.mapSpans f))
        (value.map (Expr.mapSpans f)) (f span)) :=
  .bind (declaredTypes_parallel R xs) fun types =>
    .bind (initialValue_parallel R hask hscope xs types value span h) fun _ =>
    declareVariables_parallel R hscope xs types

theorem expressionStatement_parallel (hask : AsksAlike R ρ) (hscope : R.outlook.own scope) (e : Expr)
    (h : BuiltinsAmong P e.heads) :
    Parallel R (expressionStatement cfg scope e)
      (expressionStatement (cfg.beside v ρ) scope (e.mapSpans f)) := by
  unfold expressionStatement
  rw [Expr.span_mapSpans]
  apply Parallel.bind (expression_parallel R hask hscope e h)
  intro values
  cases values with
  | none => exact .pure _
  | some types => exact .ite (.pure _) (.report _ _)

theorem caseValue_parallel (subject : Option Label) (seen : List (Label × Word)) (hasDefault : Bool)
    (value : Option Literal) (span : Span) :
    Parallel R (caseValue cfg subject seen hasDefault value span)
      (caseValue (cfg.beside v ρ) subject seen hasDefault (value.map (Literal.mapSpans f))
        (f span)) := by
  cases value with
  | none => exact .ite (.report _ _) (.pure _)
  | some l => exact .reportAll _ _

mutual

theorem stmt_parallel (hask : AsksAlike R ρ) (ctx : Context) (hctx : R.outlook.own ctx.scope) (s : Stmt)
    (h : BuiltinsAmong P s.heads) :
    Parallel R (stmt cfg ctx s) (stmt (cfg.beside v ρ) ctx (s.mapSpans f)) := by
  match s with
  | .expression e => exact expressionStatement_parallel R hask hctx e h
  | .assignment xs value span => exact assignment_parallel R hask hctx xs value span h
  | .declaration xs none span =>
    exact declaration_parallel R hask hctx xs none span fun _ he => nomatch he
  | .declaration xs (some value) span =>
    exact declaration_parallel R hask hctx xs (some value) span fun _ he =>
      Option.some.inj he ▸ h
  | .function g _ => exact function_parallel hask ctx hctx g h
  | .ifThen e body _ =>
    rw [Stmt.heads, builtinsAmong_append] at h
    exact .bind (condition_parallel R hask hctx e h.1) fun _ =>
      block_parallel hask ctx hctx body h.2
  | .switch subject arms span =>
    rw [Stmt.heads, builtinsAmong_append] at h
    rw [Stmt.mapSpans, stmt, stmt, (isDefault_mapSpansOfCases f arms).1,
      (isDefault_mapSpansOfCases f arms).2]
    apply Parallel.bind (valueOf_parallel R hask hctx subject h.1)
    intro type
    have harms := cases_parallel hask ctx hctx type [] false arms h.2
    exact .ite (.bind (.report _ _) fun _ => harms) harms
  | .forLoop ⟨bid, statements, _⟩ e post body _ =>
    rw [Stmt.heads, Block.heads, builtinsAmong_append, builtinsAmong_append,
      builtinsAmong_append] at h
    obtain ⟨⟨⟨hinit, he⟩, hbody⟩, hpost⟩ := h
    have hopen := openBlock_parallel (ρ := ρ) R bid statements (some ctx.scope)
      (List.forall_mem_singleton.mpr hctx)
    exact ParallelTo.bind hopen fun scope hown =>
      .bind (stmts_parallel hask _ hown statements hinit) fun _ =>
      .bind (condition_parallel R hask hown e he) fun _ =>
      .bind (block_parallel hask _ hown body hbody) fun _ =>
      .bind (block_parallel hask _ hown post hpost) fun _ =>
      .bind (.emit (.effects .looping) (List.forall_mem_nil _)) fun _ =>
      .emit (.exitBlock bid scope) (List.forall_mem_singleton.mpr hown)
  | .breakLoop span => exact loopJump_parallel R ctx .breakLoop span
  | .continueLoop span => exact loopJump_parallel R ctx .continueLoop span
  | .leave span => exact .ite (.pure _) (.report _ _)
  | .block b => exact block_parallel hask ctx hctx b h

theorem function_parallel (hask : AsksAlike R ρ) (ctx : Context)
    (hctx : R.outlook.own ctx.scope) (g : FunctionDef) (h : BuiltinsAmong P g.heads) :
    Parallel R (function cfg ctx g) (function (cfg.beside v ρ) ctx (g.mapSpans f)) := by
  match g with
  | ⟨name, params, returns, ⟨bid, statements, span⟩⟩ =>
    let g : FunctionDef := ⟨name, params, returns, ⟨bid, statements, span⟩⟩
    have hparams {scope : ScopeId} (hown : R.outlook.own scope) : Parallel R (parameters cfg scope g)
        (parameters (cfg.beside v ρ) scope (g.mapSpans f)) := parameters_parallel R hown g
    have hhome := List.forall_mem_singleton.mpr hctx
    have hbody : Parallel R _ _ :=
      ParallelTo.bind (openParameters_parallel R bid hctx) fun scope hown =>
      .bind (hparams hown) fun _ =>
      .bind (.emit (.enterFunction ⟨ctx.scope, name.name⟩) hhome) fun _ =>
      .bind (block_parallel hask { scope, inFunction := true } hown
        ⟨bid, statements, span⟩ h) fun _ =>
      .emit (.exitFunction ⟨ctx.scope, name.name⟩) hhome
    exact .ite (.bind (.report _ _) fun _ => hbody) hbody

/-- A block goes side by side with itself at other places and for another version. -/
theorem block_parallel (hask : AsksAlike R ρ) (ctx : Context) (hctx : R.outlook.own ctx.scope)
    (b : Block) (h : BuiltinsAmong P b.heads) :
    Parallel R (block cfg ctx b) (block (cfg.beside v ρ) ctx (b.mapSpans f)) := by
  match b with
  | ⟨bid, statements, _⟩ =>
    have hopen := openBlock_parallel (ρ := ρ) R bid statements (some ctx.scope)
      (List.forall_mem_singleton.mpr hctx)
    exact ParallelTo.bind hopen fun scope hown =>
      .bind (stmts_parallel hask _ hown statements h) fun _ =>
      .emit (.exitBlock bid scope) (List.forall_mem_singleton.mpr hown)

theorem stmts_parallel (hask : AsksAlike R ρ) (ctx : Context) (hctx : R.outlook.own ctx.scope)
    (ss : List Stmt) (h : BuiltinsAmong P (headsOfStmts ss)) :
    Parallel R (stmts cfg ctx ss) (stmts (cfg.beside v ρ) ctx (mapSpansOfStmts f ss)) := by
  match ss with
  | [] => exact .pure _
  | s :: rest =>
    rw [headsOfStmts, builtinsAmong_append] at h
    exact .bind (stmt_parallel hask ctx hctx s h.1) fun _ => stmts_parallel hask ctx hctx rest h.2

theorem cases_parallel (hask : AsksAlike R ρ) (ctx : Context) (hctx : R.outlook.own ctx.scope)
    (subject : Option Label) (seen : List (Label × Word)) (hasDefault : Bool) (arms : List Case)
    (h : BuiltinsAmong P (headsOfCases arms)) :
    Parallel R (cases cfg ctx subject seen hasDefault arms)
      (cases (cfg.beside v ρ) ctx subject seen hasDefault (mapSpansOfCases f arms)) := by
  match arms with
  | [] => exact .pure _
  | ⟨value, body, span⟩ :: rest =>
    rw [headsOfCases, builtinsAmong_append] at h
    have hseen : seenWith (cfg.beside v ρ) seen (value.map (Literal.mapSpans f)) =
        seenWith cfg seen value := by
      cases value <;> rfl
    have hdefault : (value.map (Literal.mapSpans f)).isNone = value.isNone := by
      cases value <;> rfl
    rw [mapSpansOfCases, cases, cases, hseen, hdefault]
    exact .bind (caseValue_parallel R subject seen hasDefault value span) fun _ =>
      .bind (block_parallel hask ctx hctx body h.1) fun _ =>
      cases_parallel hask ctx hctx subject _ _ rest h.2

end

theorem rootBlock_parallel (hask : AsksAlike R ρ) (b : Block) (h : BuiltinsAmong P b.heads) :
    Parallel R (rootBlock cfg b) (rootBlock (cfg.beside v ρ) (b.mapSpans f)) := by
  match b with
  | ⟨bid, statements, _⟩ =>
    have hopen := openBlock_parallel (ρ := ρ) R bid statements none (List.forall_mem_nil _)
    exact ParallelTo.bind hopen fun scope hown =>
      .bind (stmts_parallel R hask _ hown statements h) fun _ =>
      .emit (.exitBlock bid scope) (List.forall_mem_singleton.mpr hown)

end Setting

end Check

end Yul
