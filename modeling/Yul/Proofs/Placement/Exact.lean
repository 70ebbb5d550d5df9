import Yul.Proofs.Placement.Code
import Yul.Proofs.Run.Faults

/-!
# Placement is checked exactly

The problems that an analysis finds about the places of statements are those of `Block.placed`, in
the order in which the statements are visited, and one for each. They depend on nothing else: neither
on other problems, nor on the dialect or on names from outside, nor on what is known before
(`placement_exact`). An analysis that comes to a fault has found a beginning of them.
-/

namespace Yul

/-! ## Messages -/

theorem append_ne_of_isPrefixOf {start chars : List Char} {rest : String}
    (h : start.isPrefixOf chars = false) : String.ofList start ++ rest ≠ String.ofList chars := by
  intro heq
  have hchars := congrArg String.toList heq
  rw [String.toList_append, String.toList_ofList, String.toList_ofList] at hchars
  rw [← hchars, List.isPrefixOf_iff_prefix.mpr (List.prefix_append _ _)] at h
  exact nomatch h

namespace Problem

/-- No other problem has the message of a function in the first block of a loop. -/
theorem message_eq_functionInInit_iff {p : Problem} :
    p.message = functionInInit.message ↔ p = .functionInInit := by
  refine ⟨fun h => ?_, congrArg message⟩
  by_contra hp
  revert h
  cases p with
  | functionInInit => exact absurd rfl hp
  | alreadyTaken what name =>
    unfold message
    simp only [String.append_assoc]
    cases what with
    | function =>
      have hstart : Declared.function.text ++ (" name " ++ (name ++ " already taken in this scope.")) =
          "Function name " ++ (name ++ " already taken in this scope.") :=
        (String.append_assoc ..).symm
      exact ne_of_eq_of_ne hstart (append_ne_of_isPrefixOf (by rfl))
    | «variable» => exact append_ne_of_isPrefixOf (by rfl)
  | notAssignable | assignmentToFunction | callOfVariable | onlyDefault | secondDefault
  | leaveOutsideFunction | numberTooLarge | notAString => decide +kernel
  | _ =>
    unfold message
    simp only [String.append_assoc]
    exact append_ne_of_isPrefixOf (by rfl)

end Problem

/-! ## What is noted about places -/

/-- The problem about a place that an event reports. -/
def Event.placement? (e : Event) : Option Finding :=
  e.finding?.filter (·.problem.isPlacement)

/-- Whether an event reports nothing about a place. -/
def Event.IsUnplaced (e : Event) : Prop :=
  e.placement? = none

theorem Event.IsPlain.unplaced {e : Event} (h : e.IsPlain) : e.IsUnplaced := by
  cases e with
  | report f =>
    have hplacement : f.problem.isPlacement = false :=
      (Bool.not_eq_true' _).mp (Bool.and_eq_true_iff.mp h).1
    exact Option.filter_some_neg (by simp [hplacement])
  | look | ask => exact h.elim
  | _ => rfl

namespace Check

variable {α β : Type}

/-- Whether a part of an analysis reports nothing about places. -/
abbrev Unplaced (m : Check α) : Prop :=
  TakesOnly Event.IsUnplaced m

theorem Plain.unplaced {m : Check α} (hm : Plain m) : Unplaced m :=
  hm.mono fun _ => Event.IsPlain.unplaced

/-- Whether a part of an analysis reports exactly `xs` about places. -/
abbrev Places (m : Check α) (xs : List Finding) : Prop :=
  Notes (fun _ => Event.placement?) (fun _ => True) (fun _ => True) m xs

variable {xs : List Finding}

theorem Unplaced.places {m : Check α} (hm : Unplaced m) : Places m [] :=
  hm.notes (fun _ _ => id) fun _ _ _ => trivial

theorem Unplaced.places_bind {m : Check α} {f : α → Check β} (hm : Unplaced m)
    (hf : ∀ a, Places (f a) xs) : Places (m >>= f) xs :=
  .bind hm.places hf (List.nil_append xs).symm

theorem Places.bind_unplaced {m : Check α} {f : α → Check β} (hm : Places m xs)
    (hf : ∀ a, Unplaced (f a)) : Places (m >>= f) xs :=
  .bind hm (fun a => (hf a).places) (List.append_nil xs).symm

theorem pure_places (a : α) : Places (pure a) [] :=
  .pure a fun _ => id

theorem report_places {p : Problem} (h : p.isPlacement = true) (span : Span) :
    Places (report p span) [⟨p, span⟩] := by
  have hplacement : Event.placement? (.report ⟨p, span⟩) = some ⟨p, span⟩ :=
    Option.filter_some_pos h
  exact .emit (fun _ _ => congrArg Option.toList hplacement) fun _ _ _ => trivial

/-! ## Parts without statements -/

theorem report_unplaced {p : Problem} (h : p.isPlacement = false) (span : Span) :
    Unplaced (report p span) :=
  .emit (Option.filter_some_neg (by simp [h]))

theorem findMeaning_unplaced (scope : ScopeId) (name : Name) : Unplaced (findMeaning scope name) :=
  .bind (.emit rfl) fun _ => .bind .get fun _ => .pure _

theorem checkActive_unplaced (home : ScopeId) (x : Identifier) : Unplaced (checkActive home x) :=
  .bind .get fun _ => .ite (.pure ()) (report_unplaced rfl _)

theorem declare_unplaced (what : Declared) (scope : ScopeId) (x : Identifier) (symbol : Symbol) :
    Unplaced (declare what scope x symbol) :=
  .bind (reportAll_plain (Dialect.local_namingProblems _) _).unplaced fun _ =>
    .bind (.emit rfl) fun _ => .bind .get fun _ => .ite (report_unplaced rfl _) (.emit rfl)

theorem declareVariables_unplaced (scope : ScopeId) (xs : List TypedName) (types : List Label) :
    Unplaced (declareVariables scope xs types) := by
  induction xs generalizing types with
  | nil => exact .pure ()
  | cons x xs ih =>
    cases types with
    | nil => exact .pure ()
    | cons type types => exact .bind (declare_unplaced _ _ _ _) fun _ => ih types

section Setting

variable (cfg : Setting)

theorem declareFunction_unplaced (scope : ScopeId) (f : FunctionDef) :
    Unplaced (declareFunction cfg scope f) :=
  .bind (declaredTypes_plain cfg _).unplaced fun _ =>
    .bind (declaredTypes_plain cfg _).unplaced fun _ => declare_unplaced _ _ _ _

theorem openBlock_unplaced (id : BlockId) (statements : List Stmt) (parent : Option ScopeId) :
    Unplaced (openBlock cfg id statements parent) :=
  .bind (enterBlock_plain id parent).unplaced fun _ =>
    .bind (.forM fun f _ => declareFunction_unplaced cfg _ f) fun _ => .pure _

theorem parameters_unplaced (scope : ScopeId) (f : FunctionDef) : Unplaced (parameters cfg scope f) :=
  .forM fun _ _ => declare_unplaced _ _ _ _

theorem callee_unplaced (scope : ScopeId) (f : Identifier) (builtin : Option Builtin) :
    Unplaced (callee cfg scope f builtin) := by
  cases builtin with
  | some b =>
    exact .bind (reportAll_plain (cfg.dialect.local_builtinProblems b) _).unplaced fun _ =>
      .bind (.emit rfl) fun _ => .pure _
  | none =>
    refine .bind (findMeaning_unplaced _ _) fun m => ?_
    cases m with
    | function => exact .bind (.emit rfl) fun _ => .pure _
    | «variable» => exact .bind (report_unplaced rfl _) fun _ => .pure _
    | missing => exact .bind (report_unplaced rfl _) fun _ => .pure _

theorem stringArgument_unplaced (kind : LiteralArgument) (e : Expr) :
    Unplaced (stringArgument cfg kind e) := by
  unfold stringArgument
  cases e.string? with
  | none => exact report_unplaced rfl _
  | some found =>
    refine .bind (reportAll_plain (cfg.dialect.local_writtenProblems _) _).unplaced fun _ => ?_
    exact .ite (.ite (.pure ()) (report_unplaced rfl _)) (.pure ())

theorem askOutside_unplaced (access : Access) : Unplaced (askOutside cfg access) := by
  obtain ⟨dialect, dataNames, resolver⟩ := cfg
  cases resolver with
  | none => exact .pure none
  | some resolve => exact .bind (.emit rfl) fun _ => .pure _

theorem typeOfUse_unplaced (scope : ScopeId) (x : Identifier) (kind : AccessKind)
    {p q unknown : Problem} (hp : p.isPlacement = false) (hq : q.isPlacement = false)
    (hunknown : unknown.isPlacement = false) :
    Unplaced (typeOfUse cfg scope x kind p q unknown) := by
  refine .bind (findMeaning_unplaced scope x.name) fun m => ?_
  cases m with
  | «variable» home => exact .bind (checkActive_unplaced home x) fun _ => .pure _
  | function => exact .bind (report_unplaced hp _) fun _ => .pure _
  | missing =>
    refine .ite (.bind (report_unplaced hq _) fun _ => .pure _) ?_
    exact .bind (askOutside_unplaced cfg _) fun _ =>
      .ite (.bind (report_unplaced hunknown _) fun _ => .pure _) (.pure _)

theorem identifier_unplaced (scope : ScopeId) (x : Identifier) :
    Unplaced (identifier cfg scope x) :=
  typeOfUse_unplaced cfg scope x _ rfl rfl rfl

mutual

theorem expression_unplaced (scope : ScopeId) (e : Expr) : Unplaced (expression cfg scope e) := by
  match e with
  | .literal l =>
    have hproblems := reportAll_plain (cfg.dialect.local_literalProblems l) l.span
    exact .bind hproblems.unplaced fun _ => .pure _
  | .identifier x => exact .bind (identifier_unplaced cfg scope x) fun _ => .pure _
  | .call f args _ =>
    exact .bind (callee_unplaced cfg scope f _) fun signature =>
      .bind (checkCount_plain f signature _).unplaced fun _ =>
      .bind (arguments_unplaced scope _ _ 0 args) fun _ => .pure _

theorem arguments_unplaced (scope : ScopeId) (builtin : Option Builtin) (expected : List Label)
    (index : Nat) (args : List Expr) :
    Unplaced (arguments cfg scope builtin expected index args) := by
  match args with
  | [] => exact .pure _
  | a :: rest =>
    have hrest := arguments_unplaced scope builtin expected.tail (index + 1) rest
    rw [arguments]
    cases builtin.bind (·.literalArgument? index) with
    | some kind => exact .bind (stringArgument_unplaced cfg kind a) fun _ => hrest
    | none =>
      exact .bind (expression_unplaced scope a) fun values =>
        .bind (oneValue_plain values _).unplaced fun given =>
        .bind (checkValue_plain _ given _).unplaced fun _ => hrest

end

theorem valueOf_unplaced (scope : ScopeId) (e : Expr) : Unplaced (valueOf cfg scope e) :=
  .bind (expression_unplaced cfg scope e) fun values => (oneValue_plain values _).unplaced

theorem condition_unplaced (scope : ScopeId) (e : Expr) : Unplaced (condition cfg scope e) := by
  refine .bind (valueOf_unplaced cfg scope e) fun type => ?_
  cases type with
  | none => exact .pure _
  | some type => exact .ite (.pure ()) (report_unplaced rfl _)

theorem targetType_unplaced (scope : ScopeId) (x : Identifier) :
    Unplaced (targetType cfg scope x) :=
  typeOfUse_unplaced cfg scope x _ rfl rfl rfl

theorem target_unplaced (scope : ScopeId) (x : Identifier) (given : Option Label) :
    Unplaced (target cfg scope x given) := by
  refine .bind (targetType_unplaced cfg scope x) fun declared => ?_
  match declared, given with
  | some declared, some given => exact .ite (.pure ()) (report_unplaced rfl _)
  | some _, none | none, some _ | none, none => exact .pure ()

theorem targets_unplaced (scope : ScopeId) (given : Option (List Label)) (index : Nat)
    (xs : List Identifier) : Unplaced (targets cfg scope given index xs) := by
  induction xs generalizing index with
  | nil => exact .pure _
  | cons x xs ih =>
    exact .bind (valueAt_plain given index).unplaced fun value =>
      .bind (target_unplaced cfg scope x value) fun _ => ih _

theorem assignment_unplaced (scope : ScopeId) (xs : List Identifier) (value : Expr) (span : Span) :
    Unplaced (assignment cfg scope xs value span) := by
  refine .bind (checkTargets_plain [] xs).unplaced fun _ => ?_
  refine .bind (expression_unplaced cfg scope value) fun types => ?_
  cases types with
  | none => exact targets_unplaced cfg scope none 0 xs
  | some types =>
    refine .ite (targets_unplaced cfg scope _ 0 xs) ?_
    exact .bind (report_unplaced rfl _) fun _ => targets_unplaced cfg scope none 0 xs

theorem initialValue_unplaced (scope : ScopeId) (xs : List TypedName) (types : List Label)
    (value : Option Expr) (span : Span) :
    Unplaced (initialValue cfg scope xs types value span) := by
  cases value with
  | none => exact .pure _
  | some value =>
    refine .bind (expression_unplaced cfg scope value) fun given => ?_
    cases given with
    | none => exact .pure _
    | some given => exact .ite (checkInitial_plain xs types given).unplaced (report_unplaced rfl _)

theorem declaration_unplaced (scope : ScopeId) (xs : List TypedName) (value : Option Expr)
    (span : Span) : Unplaced (declaration cfg scope xs value span) :=
  .bind (declaredTypes_plain cfg xs).unplaced fun types =>
    .bind (initialValue_unplaced cfg scope xs types value span) fun _ =>
      (declareVariables_unplaced scope xs types)

theorem expressionStatement_unplaced (scope : ScopeId) (e : Expr) :
    Unplaced (expressionStatement cfg scope e) := by
  refine .bind (expression_unplaced cfg scope e) fun types => ?_
  cases types with
  | none => exact .pure _
  | some types => exact .ite (.pure ()) (report_unplaced rfl _)

/-! ## Statements -/

/-- A context says of a place what stands around it. -/
structure Context.Describes (ctx : Context) (around : List Enclosure) : Prop where
  inLoopBody : ctx.inLoopBody = true ↔ loopPart? around = some .loopBody
  inInit : ctx.inInit = true ↔ loopPart? around = some .init
  inFunction : ctx.inFunction = true ↔ .functionBody ∈ around

namespace Context.Describes

variable {ctx : Context} {around : List Enclosure}

theorem of_scope (h : ctx.Describes around) (scope : ScopeId) :
    Describes { ctx with scope } around :=
  ⟨h.inLoopBody, h.inInit, h.inFunction⟩

theorem first (scope : ScopeId) : Describes { scope } [] :=
  ⟨by simp [loopPart?], by simp [loopPart?], by simp⟩

theorem inside_init (h : ctx.Describes around) (scope : ScopeId) :
    Describes { ctx with scope, inLoopBody := false, inInit := true } (.init :: around) :=
  ⟨by simp [loopPart?], by simp [loopPart?], by simp [h.inFunction]⟩

theorem inside_loopBody (h : ctx.Describes around) (scope : ScopeId) :
    Describes { ctx with scope, inLoopBody := true, inInit := false } (.loopBody :: around) :=
  ⟨by simp [loopPart?], by simp [loopPart?], by simp [h.inFunction]⟩

theorem inside_post (h : ctx.Describes around) (scope : ScopeId) :
    Describes { ctx with scope, inLoopBody := false, inInit := false } (.post :: around) :=
  ⟨by simp [loopPart?], by simp [loopPart?], by simp [h.inFunction]⟩

theorem inside_function (scope : ScopeId) (around : List Enclosure) :
    Describes { scope, inFunction := true } (.functionBody :: around) :=
  ⟨by simp [loopPart?], by simp [loopPart?], by simp⟩

end Context.Describes

theorem loopJump_places {ctx : Context} {around : List Enclosure} (h : ctx.Describes around)
    (jump : LoopJump) (span : Span) :
    Places (loopJump ctx jump span) (misplaced [⟨.jump jump, span, around⟩]) := by
  by_cases hbody : loopPart? around = some .loopBody
  · rw [loopJump, if_pos (h.inLoopBody.mpr hbody)]
    simp only [misplaced, List.filterMap_cons, Placed.problem?, Placed.stray?, if_pos hbody,
      Placed.inInit?, Option.or_none]
    exact pure_places ()
  · rw [loopJump, if_neg (mt h.inLoopBody.mp hbody)]
    simp only [misplaced, List.filterMap_cons, Placed.problem?, Placed.stray?, if_neg hbody,
      Option.some_or]
    exact report_places rfl span

theorem leave_places {ctx : Context} {around : List Enclosure} (h : ctx.Describes around)
    (span : Span) :
    Places (if ctx.inFunction then pure () else report .leaveOutsideFunction span)
      (misplaced [⟨.leave, span, around⟩]) := by
  by_cases hfunction : .functionBody ∈ around
  · rw [if_pos (h.inFunction.mpr hfunction)]
    simp only [misplaced, List.filterMap_cons, Placed.problem?, Placed.stray?, if_pos hfunction,
      Placed.inInit?, Option.or_none]
    exact pure_places ()
  · rw [if_neg (mt h.inFunction.mp hfunction)]
    simp only [misplaced, List.filterMap_cons, Placed.problem?, Placed.stray?, if_neg hfunction,
      Option.some_or]
    exact report_places rfl span

mutual

theorem stmt_places {ctx : Context} {around : List Enclosure} (h : ctx.Describes around)
    (s : Stmt) :
    Places (stmt cfg ctx s) (misplaced (s.placed around)) := by
  match s with
  | .expression e => exact (expressionStatement_unplaced cfg ctx.scope e).places
  | .assignment xs value span => exact (assignment_unplaced cfg ctx.scope xs value span).places
  | .declaration xs value span => exact (declaration_unplaced cfg ctx.scope xs value span).places
  | .function f span =>
    rw [stmt, Stmt.placed]
    exact function_places h f
  | .ifThen e body span =>
    rw [stmt, Stmt.placed]
    exact (condition_unplaced cfg ctx.scope e).places_bind fun _ => block_places h body
  | .switch subject arms span =>
    rw [stmt, Stmt.placed]
    have hcases (type : Option Label) := cases_places h type [] false arms
    refine (valueOf_unplaced cfg ctx.scope subject).places_bind fun type => ?_
    exact .ite (fun _ => (report_unplaced rfl span).places_bind fun _ => hcases type)
      fun _ => hcases type
  | .forLoop ⟨id, statements, _⟩ e post body span =>
    rw [stmt, Stmt.placed, Block.placed, misplaced_append, misplaced_append, List.append_assoc]
    refine (openBlock_unplaced cfg id statements _).places_bind fun scope => ?_
    refine .bind (stmts_places (h.inside_init scope) statements) (fun _ => ?_) rfl
    refine (condition_unplaced cfg scope e).places_bind fun _ => ?_
    refine .bind (block_places (h.inside_loopBody scope) body) (fun _ => ?_) rfl
    refine (block_places (h.inside_post scope) post).bind_unplaced fun _ => ?_
    exact .bind (.emit rfl) fun _ => .emit rfl
  | .breakLoop span => exact loopJump_places h _ span
  | .continueLoop span => exact loopJump_places h _ span
  | .leave span => exact leave_places h span
  | .block b => exact block_places h b

theorem function_places {ctx : Context} {around : List Enclosure} (h : ctx.Describes around)
    (f : FunctionDef) :
    Places (function cfg ctx f) (misplaced (f.placed around)) := by
  match f with
  | ⟨name, params, returns, body⟩ =>
    have hinside : Places (do
        let scope ← openParameters body.id ctx.scope
        parameters cfg scope ⟨name, params, returns, body⟩
        emit (.enterFunction ⟨ctx.scope, name.name⟩)
        block cfg { scope, inFunction := true } body
        emit (.exitFunction ⟨ctx.scope, name.name⟩))
        (misplaced (body.placed (.functionBody :: around))) := by
      refine (openParameters_plain body.id ctx.scope).unplaced.places_bind fun scope => ?_
      refine (parameters_unplaced cfg scope _).places_bind fun _ => ?_
      refine Unplaced.places_bind (.emit rfl) fun _ => ?_
      exact (block_places (.inside_function scope around) body).bind_unplaced fun _ => .emit rfl
    rw [function, FunctionDef.placed]
    by_cases hinit : loopPart? around = some .init
    · rw [if_pos (h.inInit.mpr hinit)]
      refine .bind (report_places rfl name.span) (fun _ => hinside) ?_
      simp only [misplaced, List.filterMap_cons, Placed.problem?, Placed.stray?, Placed.inInit?,
        if_pos hinit, Option.none_or, List.singleton_append]
    · rw [if_neg (mt h.inInit.mp hinit)]
      have hnone : misplaced (⟨.definition, name.span, around⟩ ::
          body.placed (.functionBody :: around)) =
            misplaced (body.placed (.functionBody :: around)) := by
        simp only [misplaced, List.filterMap_cons, Placed.problem?, Placed.stray?, Placed.inInit?,
          if_neg hinit, Option.none_or]
      exact hnone ▸ hinside

theorem block_places {ctx : Context} {around : List Enclosure} (h : ctx.Describes around)
    (b : Block) :
    Places (block cfg ctx b) (misplaced (b.placed around)) := by
  match b with
  | ⟨id, statements, span⟩ =>
    rw [block, Block.placed]
    refine (openBlock_unplaced cfg id statements _).places_bind fun scope => ?_
    exact (stmts_places (h.of_scope scope) statements).bind_unplaced fun _ => .emit rfl

theorem stmts_places {ctx : Context} {around : List Enclosure} (h : ctx.Describes around)
    (ss : List Stmt) :
    Places (stmts cfg ctx ss) (misplaced (placedOfStmts around ss)) := by
  match ss with
  | [] => exact pure_places ()
  | s :: rest =>
    rw [stmts, placedOfStmts, misplaced_append]
    exact .bind (stmt_places h s) (fun _ => stmts_places h rest) rfl

theorem cases_places {ctx : Context} {around : List Enclosure} (h : ctx.Describes around)
    (subject : Option Label) (seen : List (Label × Word)) (hasDefault : Bool) (arms : List Case) :
    Places (cases cfg ctx subject seen hasDefault arms) (misplaced (placedOfCases around arms)) := by
  match arms with
  | [] => exact pure_places ()
  | ⟨value, body, span⟩ :: rest =>
    rw [cases, placedOfCases, misplaced_append]
    refine (caseValue_plain cfg subject seen hasDefault value span).unplaced.places_bind fun _ => ?_
    exact .bind (block_places h body) (fun _ => cases_places h _ _ _ rest) rfl

end

theorem rootBlock_places (b : Block) : Places (rootBlock cfg b) (misplaced (b.placed [])) := by
  obtain ⟨id, statements, span⟩ := b
  rw [rootBlock, Block.placed]
  refine (openBlock_unplaced cfg id statements _).places_bind fun scope => ?_
  exact (stmts_places cfg (.first scope) statements).bind_unplaced fun _ => .emit rfl

end Setting

end Check

/-! ## Diagnostics -/

/-- The diagnostics about jumps that lead nowhere. -/
def Analysis.aboutJumps (a : Analysis) : List Diagnostic :=
  a.diagnostics.filter (·.category = .invalidControlFlow)

/-- The diagnostics about functions in the first block of a loop. -/
def Analysis.aboutInit (a : Analysis) : List Diagnostic :=
  a.diagnostics.filter (·.message = "Functions cannot be defined inside a for-loop init block.")

namespace Finding

theorem isPlacement_of_category {f : Finding} (h : f.diagnostic.category = .invalidControlFlow) :
    f.problem.isPlacement = true := by
  obtain ⟨p, span⟩ := f
  cases p with
  | jumpOutsideLoop | leaveOutsideFunction => rfl
  | _ => exact nomatch h

theorem isAboutInit_iff {f : Finding} :
    f.diagnostic.message = "Functions cannot be defined inside a for-loop init block." ↔
      f.problem = .functionInInit :=
  Problem.message_eq_functionInInit_iff

theorem isPlacement_of_message {f : Finding}
    (h : f.diagnostic.message = "Functions cannot be defined inside a for-loop init block.") :
    f.problem.isPlacement = true := by
  rw [isAboutInit_iff.mp h]
  rfl

end Finding

theorem strayJumps_eq (b : Block) : b.strayJumps =
    (misplaced (b.placed [])).filter (·.diagnostic.category = .invalidControlFlow) := by
  rw [Block.strayJumps, misplaced, List.filter_filterMap]
  refine List.filterMap_congr fun p _ => ?_
  obtain ⟨what, span, around⟩ := p
  cases what with
  | jump jump =>
    simp only [Placed.problem?, Placed.stray?, Placed.inInit?, Option.or_none]
    split <;> rfl
  | leave =>
    simp only [Placed.problem?, Placed.stray?, Placed.inInit?, Option.or_none]
    split <;> rfl
  | definition =>
    simp only [Placed.problem?, Placed.stray?, Placed.inInit?, Option.none_or]
    split <;> rfl

theorem definitionsInInit_eq (b : Block) : b.definitionsInInit =
    (misplaced (b.placed [])).filter fun f =>
      f.diagnostic.message = "Functions cannot be defined inside a for-loop init block." := by
  rw [Block.definitionsInInit, misplaced, List.filter_filterMap]
  simp only [Finding.isAboutInit_iff]
  refine List.filterMap_congr fun p _ => ?_
  obtain ⟨what, span, around⟩ := p
  cases what with
  | jump jump =>
    simp only [Placed.problem?, Placed.stray?, Placed.inInit?, Option.or_none]
    split <;> rfl
  | leave =>
    simp only [Placed.problem?, Placed.stray?, Placed.inInit?, Option.or_none]
    split <;> rfl
  | definition =>
    simp only [Placed.problem?, Placed.stray?, Placed.inInit?, Option.none_or]
    split <;> rfl

section Setting

variable (cfg : Setting) (record : Record) (b : Block)

/-- The problems about places are those that the code has, or a beginning of them if there is a
fault. -/
theorem findings_placement :
    (analyze cfg record b).findings.filter (·.problem.isPlacement) <+: misplaced (b.placed []) ∧
      ((analyze cfg record b).fault = none →
        (analyze cfg record b).findings.filter (·.problem.isPlacement) = misplaced (b.placed [])) := by
  obtain ⟨ys, hbegins, hnoted, hend⟩ :=
    (Check.rootBlock_places cfg b).filterMap_events (r := { record }) trivial
  have hfindings : (analyze cfg record b).findings.filter (·.problem.isPlacement) = ys := by
    rw [analyze, ofRun_findings, Run.findings, List.filter_filterMap]
    exact hnoted
  rw [hfindings]
  exact ⟨hbegins, fun hfault => hend (fault_of_ofRun hfault)⟩

/-- Placement is checked exactly, whatever else is wrong: the diagnostics about jumps that lead
nowhere are those of the jumps that stand outside the body of a loop or outside a function, and the
diagnostics about functions in the first block of a loop are those of the functions that are defined
there, each in the order in which the statements are visited. An analysis with a fault has a
beginning of them, and code whose blocks have numbers of their own is analyzed without a fault. -/
theorem placement_exact :
    ((analyze cfg record b).aboutJumps <+: b.strayJumps.map Finding.diagnostic ∧
      (analyze cfg record b).aboutInit <+: b.definitionsInInit.map Finding.diagnostic) ∧
    ((analyze cfg record b).fault = none →
      (analyze cfg record b).aboutJumps = b.strayJumps.map Finding.diagnostic ∧
        (analyze cfg record b).aboutInit = b.definitionsInInit.map Finding.diagnostic) ∧
    ((b.blocks.map Block.id).Nodup → (analyze cfg {} b).fault = none) := by
  obtain ⟨hbegins, hexact⟩ := findings_placement cfg record b
  have hpart {q : Diagnostic → Bool}
      (hq : ∀ f : Finding, q f.diagnostic = true → f.problem.isPlacement = true) :
      (analyze cfg record b).diagnostics.filter q =
        (((analyze cfg record b).findings.filter (·.problem.isPlacement)).filter
          (q ·.diagnostic)).map Finding.diagnostic := by
    rw [Analysis.diagnostics, List.filter_map, List.filter_filter]
    refine congrArg (List.map _) (List.filter_congr fun f _ => ?_)
    rw [Function.comp_apply, Bool.eq_iff_iff, Bool.and_eq_true_iff]
    exact ⟨fun hf => ⟨hf, hq f hf⟩, And.left⟩
  rw [strayJumps_eq, definitionsInInit_eq, Analysis.aboutJumps, Analysis.aboutInit,
    hpart fun f hf => f.isPlacement_of_category (of_decide_eq_true hf),
    hpart fun f hf => f.isPlacement_of_message (of_decide_eq_true hf)]
  refine ⟨⟨(hbegins.filter _).map _, (hbegins.filter _).map _⟩, fun hfault => ?_,
    (analyze_fault_eq_none_iff cfg b).mpr⟩
  rw [hexact hfault]
  exact ⟨rfl, rfl⟩

end Setting

/-- The code `{ for { function f() { break leave } } 1 { continue } { break leave } }`. -/
def wrongPlaces : Block where
  id := 0
  statements := [
    .forLoop
      ⟨1, [.function ⟨⟨"f", ⟨17, 18⟩⟩, [], [],
        ⟨2, [.breakLoop ⟨23, 28⟩, .leave ⟨29, 34⟩], default⟩⟩ default], default⟩
      (.literal ⟨.number "1", none, default⟩)
      ⟨3, [.continueLoop ⟨43, 51⟩], default⟩
      ⟨4, [.breakLoop ⟨56, 61⟩, .leave ⟨62, 67⟩], default⟩
      default]
  span := default

/-- The jump in the body of the loop and `leave` in the function stand where they may. -/
theorem wrongPlaces_found :
    (wrongPlaces.blocks.map Block.id).Nodup ∧
      (analyze {} {} wrongPlaces).aboutJumps =
        [⟨.jumpOutsideLoop .breakLoop, ⟨23, 28⟩⟩, ⟨.leaveOutsideFunction, ⟨62, 67⟩⟩,
          ⟨.jumpOutsideLoop .continueLoop, ⟨43, 51⟩⟩].map Finding.diagnostic ∧
      (analyze {} {} wrongPlaces).aboutInit = [Finding.diagnostic ⟨.functionInInit, ⟨17, 18⟩⟩] := by
  have hdistinct : (wrongPlaces.blocks.map Block.id).Nodup := by decide
  obtain ⟨-, hexact, hfault⟩ := placement_exact {} {} wrongPlaces
  obtain ⟨hjumps, hinit⟩ := hexact (hfault hdistinct)
  have hstray : wrongPlaces.strayJumps =
      [⟨.jumpOutsideLoop .breakLoop, ⟨23, 28⟩⟩, ⟨.leaveOutsideFunction, ⟨62, 67⟩⟩,
        ⟨.jumpOutsideLoop .continueLoop, ⟨43, 51⟩⟩] := by decide
  have hdefined : wrongPlaces.definitionsInInit = [⟨.functionInInit, ⟨17, 18⟩⟩] := by decide
  exact ⟨hdistinct, hjumps.trans (congrArg _ hstray), hinit.trans (congrArg _ hdefined)⟩

end Yul
