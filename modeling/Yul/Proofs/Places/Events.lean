import Yul.Analysis
import Yul.Proofs.Places.Code
import Yul.Proofs.Run.Walk

/-!
# Where events come from

An analysis reports problems at places that its code has, asks outside for names that stand in the
code, and notes the effects of builtins and of loops but no others (`runBlock_stems`). This holds of
every run, whatever it starts from, whatever it is told besides the code, and also of one that ends
before its time.
-/

namespace Yul

/-! ## Events that a part of an analysis adds -/

theorem Run.mem_journal_take {r : Run} {e e' : Event} (h : e' ∈ (r.take e).journal) :
    e' ∈ r.journal ∨ e' = e := by
  by_cases hr : r.fault = none
  · cases hclash : r.clash e with
    | none =>
      rw [take_of_fits hr hclash] at h
      exact (List.mem_cons.mp h).symm
    | some f =>
      rw [take_of_clash hr hclash] at h
      exact .inl h
  · rw [take_of_fault hr] at h
    exact .inl h

namespace Check

variable {α β : Type} {E : Event → Prop}

/-- Whether a part of an analysis takes no events but those with `E`. -/
def Emits (E : Event → Prop) (m : Check α) : Prop :=
  ∀ r : Run, ∀ e ∈ (m.after r).journal, e ∈ r.journal ∨ E e

namespace Emits

theorem pure (a : α) : Emits E (pure a : Check α) :=
  fun _ _ => .inl

theorem bind {m : Check α} {f : α → Check β} (hm : Emits E m) (hf : ∀ a, Emits E (f a)) :
    Emits E (m >>= f) :=
  fun r e he => (hf _ _ e he).elim (hm r e) .inr

theorem get : Emits E (get : Check Run) :=
  fun _ _ => .inl

theorem emit {e : Event} (he : E e) : Emits E (emit e) := by
  intro r e' he'
  rcases Run.mem_journal_take he' with hold | rfl
  · exact .inl hold
  · exact .inr he

theorem stop (f : Fault) : Emits E (stop f) := by
  intro r e he
  rw [after_stop, Run.stop] at he
  split at he <;> exact .inl he

theorem ite {c : Prop} [Decidable c] {m m' : Check α} (hm : Emits E m) (hm' : Emits E m') :
    Emits E (if c then m else m') := by
  split
  · exact hm
  · exact hm'

theorem forM {xs : List α} {f : α → Check PUnit} (hf : ∀ x ∈ xs, Emits E (f x)) :
    Emits E (xs.forM f) := by
  induction xs with
  | nil => exact .pure _
  | cons x xs ih =>
    rw [List.forall_mem_cons] at hf
    exact .bind hf.1 fun _ => ih hf.2

theorem mapM {xs : List α} {f : α → Check β} (hf : ∀ x ∈ xs, Emits E (f x)) :
    Emits E (xs.mapM f) := by
  induction xs with
  | nil => exact .pure _
  | cons x xs ih =>
    rw [List.forall_mem_cons] at hf
    rw [List.mapM_cons]
    exact .bind hf.1 fun _ => .bind (ih hf.2) fun _ => .pure _

end Emits

end Check

/-! ## Events of code -/

/-- Whether an event is one of code whose spans have `P`: it reports or asks at one of them, and
effects are those of a builtin or of a loop. -/
def Event.StemsFrom (P : Span → Prop) : Event → Prop
  | .report f => P f.span
  | .ask a => P a.span
  | .effects e => e = .looping ∨ ∃ b ∈ Builtin.table, e = b.effects
  | .enterBlock _ _ | .exitBlock _ _ | .openParameters _ _ | .enterFunction _ | .exitFunction _
  | .look _ _ | .declare _ _ _ | .call _ => True

namespace Check

/-- Whether a part of an analysis takes no events but those of code whose spans have `P`. -/
abbrev Stems {α : Type} (P : Span → Prop) (m : Check α) : Prop :=
  Emits (Event.StemsFrom P) m

variable {P : Span → Prop}

theorem report_stems (p : Problem) {span : Span} (h : P span) : Stems P (report p span) :=
  .emit h

theorem reportAll_stems (ps : List Problem) {span : Span} (h : P span) :
    Stems P (reportAll ps span) :=
  .forM fun p _ => report_stems p h

theorem findMeaning_stems (scope : ScopeId) (name : Name) : Stems P (findMeaning scope name) :=
  .bind (.emit trivial) fun _ => .bind .get fun _ => .pure _

theorem checkActive_stems (home : ScopeId) {x : Identifier} (h : P x.span) :
    Stems P (checkActive home x) :=
  .bind .get fun _ => .ite (.pure ()) (report_stems _ h)

theorem declare_stems (what : Declared) (scope : ScopeId) {x : Identifier} (symbol : Symbol)
    (h : P x.span) : Stems P (declare what scope x symbol) :=
  .bind (reportAll_stems _ h) fun _ => .bind (.emit trivial) fun _ => .bind .get fun _ =>
    .ite (report_stems _ h) (.emit trivial)

section Setting

variable (cfg : Setting)

theorem askOutside_stems {access : Access} (h : P access.span) :
    Stems P (askOutside cfg access) := by
  obtain ⟨dialect, dataNames, resolver⟩ := cfg
  cases resolver with
  | none => exact .pure none
  | some resolve => exact .bind (.emit h) fun _ => .pure _

theorem declaredTypes_stems {xs : List TypedName} (h : ∀ span ∈ xs.map TypedName.span, P span) :
    Stems P (declaredTypes cfg xs) :=
  .mapM fun _ hx => .bind (reportAll_stems _ (h _ (List.mem_map_of_mem hx))) fun _ => .pure _

theorem declareFunction_stems (scope : ScopeId) (f : FunctionDef) (h : ∀ span ∈ f.spans, P span) :
    Stems P (declareFunction cfg scope f) := by
  obtain ⟨name, parameters, returns, body⟩ := f
  simp only [FunctionDef.spans, List.cons_append, List.append_assoc, List.forall_mem_cons,
    List.forall_mem_append] at h
  obtain ⟨hname, hparameters, hreturns, -⟩ := h
  exact .bind (declaredTypes_stems cfg hparameters) fun _ =>
    .bind (declaredTypes_stems cfg hreturns) fun _ => declare_stems _ _ _ hname

theorem spans_of_mem_functionsOf {ss : List Stmt} (h : ∀ span ∈ spansOfStmts ss, P span) :
    ∀ f ∈ functionsOf ss, ∀ span ∈ f.spans, P span := by
  induction ss with
  | nil => exact List.forall_mem_nil _
  | cons s ss ih =>
    rw [spansOfStmts, List.forall_mem_append] at h
    cases s with
    | function f span =>
      refine List.forall_mem_cons.mpr ⟨?_, ih h.2⟩
      exact (List.forall_mem_cons.mp h.1).2
    | _ => exact ih h.2

theorem openBlock_stems (id : BlockId) {statements : List Stmt} (parent : Option ScopeId)
    (h : ∀ span ∈ spansOfStmts statements, P span) :
    Stems P (openBlock cfg id statements parent) :=
  .bind (.bind .get fun _ => .bind (.emit trivial) fun _ => .pure _) fun _ =>
    .bind (.forM fun f hf => declareFunction_stems cfg _ f (spans_of_mem_functionsOf h f hf))
      fun _ => .pure _

/-! ### Expressions -/

theorem oneValue_stems (values : Option (List Label)) {span : Span} (h : P span) :
    Stems P (oneValue values span) := by
  rcases oneValue_cases values span with ⟨given, heq⟩ | ⟨count, heq⟩ <;> rw [heq]
  · exact .pure given
  · exact .bind (report_stems _ h) fun _ => .pure none

theorem checkValue_stems (expected given : Option Label) {span : Span} (h : P span) :
    Stems P (checkValue expected given span) := by
  rcases checkValue_cases expected given span with heq | ⟨type, type', heq⟩ <;> rw [heq]
  · exact .pure ()
  · exact reportAll_stems _ h

theorem typeOfUse_stems (scope : ScopeId) {x : Identifier} (h : P x.span) (kind : AccessKind)
    (p q unknown : Problem) : Stems P (typeOfUse cfg scope x kind p q unknown) := by
  refine .bind (findMeaning_stems _ _) fun m => ?_
  cases m with
  | «variable» => exact .bind (checkActive_stems _ h) fun _ => .pure _
  | function => exact .bind (report_stems _ h) fun _ => .pure _
  | missing =>
    refine .ite (.bind (report_stems _ h) fun _ => .pure _) ?_
    exact .bind (askOutside_stems cfg h) fun _ =>
      .ite (.bind (report_stems _ h) fun _ => .pure _) (.pure _)

theorem identifier_stems (scope : ScopeId) {x : Identifier} (h : P x.span) :
    Stems P (identifier cfg scope x) :=
  typeOfUse_stems cfg scope h _ _ _ _

theorem callee_stems (scope : ScopeId) {f : Identifier} (h : P f.span) :
    Stems P (callee cfg scope f (Builtin.find? f.name)) := by
  cases hb : Builtin.find? f.name with
  | some b =>
    have heffects : Event.StemsFrom P (.effects b.effects) :=
      .inr ⟨b, List.mem_of_find?_eq_some hb, rfl⟩
    exact .bind (reportAll_stems _ h) fun _ => .bind (.emit heffects) fun _ => .pure _
  | none =>
    refine .bind (findMeaning_stems _ _) fun m => ?_
    cases m with
    | function => exact .bind (.emit trivial) fun _ => .pure _
    | «variable» | missing => exact .bind (report_stems _ h) fun _ => .pure _

theorem checkCount_stems {f : Identifier} (signature : Option Signature) (given : Nat)
    (h : P f.span) : Stems P (checkCount f signature given) := by
  cases signature with
  | none => exact .pure ()
  | some s => exact .ite (.pure ()) (report_stems _ h)

theorem span_of_string? {e : Expr} {l : Literal} {bytes : List UInt8}
    (h : e.string? = some (l, bytes)) : l.span = e.span := by
  cases e with
  | literal l' =>
    obtain ⟨value, type, span⟩ := l'
    cases value with
    | bytes bytes' =>
      obtain ⟨rfl, -⟩ := Prod.mk.inj (Option.some.inj h)
      rfl
    | number | truth => exact nomatch h
  | identifier | call => exact nomatch h

theorem stringArgument_stems (kind : LiteralArgument) {e : Expr} (h : P e.span) :
    Stems P (stringArgument cfg kind e) := by
  unfold stringArgument
  cases hstring : e.string? with
  | none => exact report_stems _ h
  | some found =>
    obtain ⟨l, bytes⟩ := found
    have hl : P l.span := span_of_string? hstring ▸ h
    refine .bind (reportAll_stems _ hl) fun _ => ?_
    exact .ite (.ite (.pure ()) (report_stems _ hl)) (.pure ())

mutual

theorem expression_stems (scope : ScopeId) (e : Expr) (h : ∀ span ∈ e.spans, P span) :
    Stems P (expression cfg scope e) := by
  match e with
  | .literal l =>
    exact .bind (reportAll_stems _ (h _ List.mem_cons_self)) fun _ => .pure _
  | .identifier x =>
    exact .bind (identifier_stems cfg scope (h _ List.mem_cons_self)) fun _ => .pure _
  | .call f args span =>
    rw [Expr.spans, List.forall_mem_cons, List.forall_mem_cons] at h
    obtain ⟨-, hf, hargs⟩ := h
    exact .bind (callee_stems cfg scope hf) fun _ => .bind (checkCount_stems _ _ hf) fun _ =>
      .bind (arguments_stems scope _ _ 0 args hargs) fun _ => .pure _

theorem arguments_stems (scope : ScopeId) (builtin : Option Builtin) (expected : List Label)
    (index : Nat) (args : List Expr) (h : ∀ span ∈ spansOfExprs args, P span) :
    Stems P (arguments cfg scope builtin expected index args) := by
  match args with
  | [] => exact .pure _
  | a :: rest =>
    rw [spansOfExprs, List.forall_mem_append] at h
    have hspan := h.1 _ a.span_mem_spans
    have hrest := arguments_stems scope builtin expected.tail (index + 1) rest h.2
    rw [arguments]
    cases builtin.bind (·.literalArgument? index) with
    | some kind => exact .bind (stringArgument_stems cfg kind hspan) fun _ => hrest
    | none =>
      exact .bind (expression_stems scope a h.1) fun _ => .bind (oneValue_stems _ hspan) fun _ =>
        .bind (checkValue_stems _ _ hspan) fun _ => hrest

end

theorem valueOf_stems (scope : ScopeId) {e : Expr} (h : ∀ span ∈ e.spans, P span) :
    Stems P (valueOf cfg scope e) :=
  .bind (expression_stems cfg scope e h) fun _ => oneValue_stems _ (h _ e.span_mem_spans)

theorem condition_stems (scope : ScopeId) {e : Expr} (h : ∀ span ∈ e.spans, P span) :
    Stems P (condition cfg scope e) := by
  refine .bind (valueOf_stems cfg scope h) fun type => ?_
  cases type with
  | none => exact .pure _
  | some type => exact .ite (.pure ()) (report_stems _ (h _ e.span_mem_spans))

/-! ### Statements -/

theorem checkTargets_stems (seen : List Name) {xs : List Identifier}
    (h : ∀ span ∈ xs.map Identifier.span, P span) : Stems P (checkTargets seen xs) := by
  induction xs generalizing seen with
  | nil => exact .pure _
  | cons x xs ih =>
    rw [List.map_cons, List.forall_mem_cons] at h
    exact .ite (.bind (report_stems _ h.1) fun _ => ih _ h.2) (ih _ h.2)

theorem targetType_stems (scope : ScopeId) {x : Identifier} (h : P x.span) :
    Stems P (targetType cfg scope x) :=
  typeOfUse_stems cfg scope h _ _ _ _

theorem target_stems (scope : ScopeId) {x : Identifier} (given : Option Label) (h : P x.span) :
    Stems P (target cfg scope x given) := by
  refine .bind (targetType_stems cfg scope h) fun declared => ?_
  match declared, given with
  | some declared, some given => exact .ite (.pure ()) (report_stems _ h)
  | some _, none | none, some _ | none, none => exact .pure ()

theorem valueAt_stems (given : Option (List Label)) (index : Nat) :
    Stems P (valueAt given index) := by
  cases given with
  | none => exact .pure none
  | some types => exact .ite (.bind (.stop _) fun _ => .pure _) (.pure _)

theorem targets_stems (scope : ScopeId) (given : Option (List Label)) (index : Nat)
    {xs : List Identifier} (h : ∀ span ∈ xs.map Identifier.span, P span) :
    Stems P (targets cfg scope given index xs) := by
  induction xs generalizing index with
  | nil => exact .pure _
  | cons x xs ih =>
    rw [List.map_cons, List.forall_mem_cons] at h
    exact .bind (valueAt_stems _ _) fun _ => .bind (target_stems cfg scope _ h.1) fun _ =>
      ih _ h.2

theorem assignment_stems (scope : ScopeId) {xs : List Identifier} {value : Expr} {span : Span}
    (hspan : P span) (hxs : ∀ span ∈ xs.map Identifier.span, P span)
    (hvalue : ∀ span ∈ value.spans, P span) :
    Stems P (assignment cfg scope xs value span) := by
  refine .bind (checkTargets_stems _ hxs) fun _ => ?_
  refine .bind (expression_stems cfg scope value hvalue) fun types => ?_
  cases types with
  | none => exact targets_stems cfg scope none 0 hxs
  | some types =>
    refine .ite (targets_stems cfg scope _ 0 hxs) ?_
    exact .bind (report_stems _ hspan) fun _ => targets_stems cfg scope none 0 hxs

theorem checkInitial_stems {xs : List TypedName} (declared given : List Label)
    (h : ∀ span ∈ xs.map TypedName.span, P span) : Stems P (checkInitial xs declared given) := by
  induction xs generalizing declared given with
  | nil => exact .pure _
  | cons x xs ih =>
    rw [List.map_cons, List.forall_mem_cons] at h
    cases declared with
    | nil => exact .pure ()
    | cons d declared =>
      cases given with
      | nil => exact .pure ()
      | cons g given =>
        exact .ite (ih _ _ h.2) (.bind (report_stems _ h.1) fun _ => ih _ _ h.2)

theorem declareVariables_stems (scope : ScopeId) {xs : List TypedName} (types : List Label)
    (h : ∀ span ∈ xs.map TypedName.span, P span) :
    Stems P (declareVariables scope xs types) := by
  induction xs generalizing types with
  | nil => exact .pure _
  | cons x xs ih =>
    rw [List.map_cons, List.forall_mem_cons] at h
    cases types with
    | nil => exact .pure _
    | cons type types => exact .bind (declare_stems _ scope _ h.1) fun _ => ih types h.2

theorem initialValue_stems (scope : ScopeId) {xs : List TypedName} (types : List Label)
    {value : Expr} {span : Span} (hspan : P span) (hxs : ∀ span ∈ xs.map TypedName.span, P span)
    (hvalue : ∀ span ∈ value.spans, P span) :
    Stems P (initialValue cfg scope xs types (some value) span) := by
  refine .bind (expression_stems cfg scope value hvalue) fun given => ?_
  cases given with
  | none => exact .pure _
  | some given => exact .ite (checkInitial_stems _ _ hxs) (report_stems _ hspan)

theorem expressionStatement_stems (scope : ScopeId) {e : Expr} (h : ∀ span ∈ e.spans, P span) :
    Stems P (expressionStatement cfg scope e) := by
  refine .bind (expression_stems cfg scope e h) fun types => ?_
  cases types with
  | none => exact .pure _
  | some types => exact .ite (.pure ()) (report_stems _ (h _ e.span_mem_spans))

theorem loopJump_stems (ctx : Context) (jump : LoopJump) {span : Span} (h : P span) :
    Stems P (loopJump ctx jump span) :=
  .ite (.pure ()) (report_stems _ h)

theorem parameters_stems (scope : ScopeId) (f : FunctionDef) (h : ∀ span ∈ f.spans, P span) :
    Stems P (parameters cfg scope f) := by
  obtain ⟨name, params, returns, body⟩ := f
  simp only [FunctionDef.spans, List.cons_append, List.append_assoc, List.forall_mem_cons,
    List.forall_mem_append] at h
  obtain ⟨-, hparams, hreturns, -⟩ := h
  refine .forM fun x hx => declare_stems _ _ _ ?_
  rcases List.mem_append.mp hx with hx | hx
  · exact hparams _ (List.mem_map_of_mem hx)
  · exact hreturns _ (List.mem_map_of_mem hx)

mutual

theorem stmt_stems (ctx : Context) (s : Stmt) (h : ∀ span ∈ s.spans, P span) :
    Stems P (stmt cfg ctx s) := by
  match s with
  | .expression e => exact expressionStatement_stems cfg _ h
  | .assignment xs value span =>
    rw [Stmt.spans, List.cons_append, List.forall_mem_cons, List.forall_mem_append] at h
    exact assignment_stems cfg _ h.1 h.2.1 h.2.2
  | .declaration xs none span =>
    rw [Stmt.spans, List.forall_mem_cons] at h
    exact .bind (declaredTypes_stems cfg h.2) fun types => .bind (.pure _) fun _ =>
      declareVariables_stems _ types h.2
  | .declaration xs (some value) span =>
    rw [Stmt.spans, List.cons_append, List.forall_mem_cons, List.forall_mem_append] at h
    obtain ⟨hspan, hxs, hvalue⟩ := h
    exact .bind (declaredTypes_stems cfg hxs) fun types =>
      .bind (initialValue_stems cfg _ types hspan hxs hvalue) fun _ =>
        declareVariables_stems _ types hxs
  | .function f span =>
    rw [Stmt.spans, List.forall_mem_cons] at h
    exact function_stems ctx f h.2
  | .ifThen e body span =>
    rw [Stmt.spans, List.cons_append, List.forall_mem_cons, List.forall_mem_append] at h
    exact .bind (condition_stems cfg _ h.2.1) fun _ => block_stems ctx body h.2.2
  | .switch subject arms span =>
    rw [Stmt.spans, List.cons_append, List.forall_mem_cons, List.forall_mem_append] at h
    obtain ⟨hspan, hsubject, harms⟩ := h
    have hcases (type : Option Label) := cases_stems ctx type [] false arms harms
    rw [stmt]
    refine .bind (valueOf_stems cfg _ hsubject) fun type => ?_
    exact .ite (.bind (report_stems _ hspan) fun _ => hcases type) (hcases type)
  | .forLoop ⟨id, statements, initSpan⟩ e post body span =>
    simp only [Stmt.spans, Block.spans, List.cons_append, List.append_assoc, List.forall_mem_cons,
      List.forall_mem_append] at h
    obtain ⟨-, -, hstatements, he, hpost, hbody⟩ := h
    exact .bind (openBlock_stems cfg id _ hstatements) fun _ =>
      .bind (stmts_stems _ statements hstatements) fun _ =>
      .bind (condition_stems cfg _ he) fun _ => .bind (block_stems _ body hbody) fun _ =>
      .bind (block_stems _ post hpost) fun _ => .bind (.emit (.inl rfl)) fun _ => .emit trivial
  | .breakLoop span => exact loopJump_stems ctx _ (h _ List.mem_cons_self)
  | .continueLoop span => exact loopJump_stems ctx _ (h _ List.mem_cons_self)
  | .leave span => exact .ite (.pure ()) (report_stems _ (h _ List.mem_cons_self))
  | .block b => exact block_stems ctx b h

theorem function_stems (ctx : Context) (f : FunctionDef) (h : ∀ span ∈ f.spans, P span) :
    Stems P (function cfg ctx f) := by
  match f with
  | ⟨name, params, returns, body⟩ =>
    have hparams (scope : ScopeId) := parameters_stems cfg scope ⟨name, params, returns, body⟩ h
    simp only [FunctionDef.spans, List.cons_append, List.append_assoc, List.forall_mem_cons,
      List.forall_mem_append] at h
    obtain ⟨hname, -, -, hbody⟩ := h
    have hinside : Stems P (do
        let scope ← openParameters body.id ctx.scope
        parameters cfg scope ⟨name, params, returns, body⟩
        emit (.enterFunction ⟨ctx.scope, name.name⟩)
        block cfg { scope, inFunction := true } body
        emit (.exitFunction ⟨ctx.scope, name.name⟩)) :=
      .bind (.bind .get fun _ => .bind (.emit trivial) fun _ => .pure _) fun _ =>
        .bind (hparams _) fun _ => .bind (.emit trivial) fun _ =>
        .bind (block_stems _ body hbody) fun _ => .emit trivial
    exact .ite (.bind (report_stems _ hname) fun _ => hinside) hinside

theorem block_stems (ctx : Context) (b : Block) (h : ∀ span ∈ b.spans, P span) :
    Stems P (block cfg ctx b) := by
  match b with
  | ⟨id, statements, span⟩ =>
    have hstatements := (List.forall_mem_cons.mp h).2
    exact .bind (openBlock_stems cfg id _ hstatements) fun _ =>
      .bind (stmts_stems _ statements hstatements) fun _ => .emit trivial

theorem stmts_stems (ctx : Context) (ss : List Stmt) (h : ∀ span ∈ spansOfStmts ss, P span) :
    Stems P (stmts cfg ctx ss) := by
  match ss with
  | [] => exact .pure _
  | s :: rest =>
    rw [spansOfStmts, List.forall_mem_append] at h
    exact .bind (stmt_stems ctx s h.1) fun _ => stmts_stems ctx rest h.2

theorem cases_stems (ctx : Context) (subject : Option Label) (seen : List (Label × Word))
    (hasDefault : Bool) (arms : List Case) (h : ∀ span ∈ spansOfCases arms, P span) :
    Stems P (cases cfg ctx subject seen hasDefault arms) := by
  match arms with
  | [] => exact .pure _
  | ⟨none, body, span⟩ :: rest =>
    rw [spansOfCases, List.cons_append, List.forall_mem_cons, List.forall_mem_append] at h
    obtain ⟨hspan, hbody, hrest⟩ := h
    exact .bind (.ite (report_stems _ hspan) (.pure ())) fun _ =>
      .bind (block_stems ctx body hbody) fun _ => cases_stems ctx subject _ _ rest hrest
  | ⟨some l, body, span⟩ :: rest =>
    rw [spansOfCases, List.cons_append, List.cons_append, List.forall_mem_cons,
      List.forall_mem_cons, List.forall_mem_append] at h
    obtain ⟨-, hl, hbody, hrest⟩ := h
    exact .bind (reportAll_stems _ hl) fun _ => .bind (block_stems ctx body hbody) fun _ =>
      cases_stems ctx subject _ _ rest hrest

end

theorem rootBlock_stems (b : Block) : Stems (· ∈ b.spans) (rootBlock cfg b) := by
  obtain ⟨id, statements, span⟩ := b
  have hstatements : ∀ s ∈ spansOfStmts statements, s ∈ Block.spans ⟨id, statements, span⟩ :=
    fun _ => List.mem_cons_of_mem _
  exact .bind (openBlock_stems cfg id _ hstatements) fun _ =>
    .bind (stmts_stems cfg _ statements hstatements) fun _ => .emit trivial

end Setting

end Check

/-! ## Runs and analyses -/

section Setting

variable (cfg : Setting) (record : Record) (b : Block)

/-- Every event of a run is one of its code. -/
theorem runBlock_stems : ∀ e ∈ (runBlock cfg record b).journal, e.StemsFrom (· ∈ b.spans) :=
  fun e he => (Check.rootBlock_stems cfg b { record } e he).resolve_left List.not_mem_nil

theorem span_of_mem_findings {f : Finding} (hf : f ∈ (analyze cfg record b).findings) :
    f.span ∈ b.spans := by
  rw [analyze, ofRun_findings, Run.findings, List.mem_filterMap] at hf
  obtain ⟨e, he, hfinding⟩ := hf
  have hstems := runBlock_stems cfg record b e (List.mem_reverse.mp he)
  cases e with
  | report g => exact Option.some.inj hfinding ▸ hstems
  | _ => exact nomatch hfinding

end Setting

end Yul
