import Yul.Proofs.Run.Faults
import Yul.Proofs.Visit.Exprs

/-!
# Everything is visited

A run leaves exactly the marks of its code, in order, whatever is wrong with the code: no problem ends
the walk or makes it leave something out (`runBlock_marks`). A run that comes to a fault leaves a
beginning of them.
-/

namespace Yul

namespace Check

/-! ## Names that are declared -/

section Setting

variable (cfg : Setting)

theorem declaredTypes_marks (xs : List TypedName) :
    Marks (declaredTypes cfg xs) (annotationMarks cfg xs) :=
  mapM_marks fun x =>
    (told_marks (cfg.dialect.told_writtenProblems x.type) x.span).bind_unmarked fun _ => pure_marks _

theorem declare_marks (what : Declared) (scope : ScopeId) (x : Identifier) (symbol : Symbol) :
    Marks (declare what scope x symbol) (namingMarks x) := by
  refine .bind (told_marks (Dialect.told_namingProblems x.name) x.span) (fun _ => ?_) rfl
  refine (emit_marks (.look scope x.name)).bind_unmarked fun _ => get_marks.unmarked_bind fun _ => ?_
  exact .ite (fun _ => report_unmarked rfl _) fun _ => emit_marks (.declare scope x.name symbol)

theorem declareVariables_marks (scope : ScopeId) {xs : List TypedName} {types : List Label}
    (h : types.length = xs.length) :
    Marks (declareVariables scope xs types) (variableMarks xs) := by
  induction xs generalizing types with
  | nil => exact pure_marks _
  | cons x xs ih =>
    obtain _ | ⟨type, types⟩ := types
    · cases h
    · exact .bind (declare_marks _ _ _ _) (fun _ => ih (Nat.succ.inj h)) List.flatMap_cons

theorem declareFunction_marks (scope : ScopeId) (f : FunctionDef) :
    Marks (declareFunction cfg scope f) (f.headerMarks cfg) := by
  rw [FunctionDef.headerMarks, List.append_assoc]
  exact .bind (declaredTypes_marks cfg _) (fun _ => .bind (declaredTypes_marks cfg _)
    (fun _ => declare_marks _ _ _ _) rfl) rfl

theorem openBlock_marks (id : BlockId) (statements : List Stmt) (parent : Option ScopeId) :
    Marks (openBlock cfg id statements parent) (openingMarks cfg id statements) := by
  have henter : Marks (enterBlock id parent) [.enterBlock id] :=
    get_marks.unmarked_bind fun _ => (emit_marks _).bind_unmarked fun _ => pure_marks _
  refine .bind henter (fun scope => ?_) rfl
  exact (forM_marks (declareFunction_marks cfg scope)).bind_unmarked fun _ => pure_marks _

theorem parameters_marks (scope : ScopeId) (f : FunctionDef) :
    Marks (parameters cfg scope f) (variableMarks (f.parameters ++ f.returns)) :=
  forM_marks fun _ => declare_marks _ _ _ _

/-! ## Statements without blocks -/

theorem checkTargets_marks (before : List Name) (xs : List Identifier) :
    Marks (checkTargets before xs) (targetMarks before xs) := by
  induction xs generalizing before with
  | nil => exact pure_marks _
  | cons x xs ih =>
    rw [checkTargets, targetMarks]
    by_cases h : x.name ∈ before
    · simp only [List.contains_eq_mem, h, decide_true, if_true]
      exact .bind (report_marks rfl _) (fun _ => ih _) rfl
    · simp only [List.contains_eq_mem, h, decide_false, if_false, Bool.false_eq_true]
      exact ih _

theorem targetType_marks (scope : ScopeId) (x : Identifier) :
    Marks (targetType cfg scope x) [.name x.name] :=
  typeOfUse_marks cfg scope x _ rfl rfl rfl

theorem target_marks (scope : ScopeId) (x : Identifier) (given : Option Label) :
    Marks (target cfg scope x given) [.name x.name] := by
  refine (targetType_marks cfg scope x).bind_unmarked fun declared => ?_
  match declared, given with
  | some declared, some given =>
    exact .ite (fun _ => pure_marks _) fun _ => report_unmarked rfl _
  | some _, none | none, some _ | none, none => exact pure_marks _

theorem valueAt_unmarked (given : Option (List Label)) (index : Nat) :
    Marks (valueAt given index) [] := by
  cases given with
  | none => exact pure_marks _
  | some types =>
    exact .ite (fun _ => (stop_marks _).bind_unmarked fun _ => pure_marks _) fun _ => pure_marks _

theorem targets_marks (scope : ScopeId) (given : Option (List Label)) (index : Nat)
    (xs : List Identifier) :
    Marks (targets cfg scope given index xs) (xs.map fun x => .name x.name) := by
  induction xs generalizing index with
  | nil => exact pure_marks _
  | cons x xs ih =>
    refine (valueAt_unmarked given index).unmarked_bind fun value => ?_
    exact .bind (target_marks cfg scope x value) (fun _ => ih _) rfl

theorem assignment_marks (scope : ScopeId) (xs : List Identifier) (value : Expr) (span : Span) :
    Marks (assignment cfg scope xs value span)
      (targetMarks [] xs ++ value.marks cfg ++ xs.map fun x => .name x.name) := by
  rw [List.append_assoc]
  refine .bind (checkTargets_marks [] xs) (fun _ => ?_) rfl
  refine .bind (expression_marks cfg scope value) (fun types => ?_) rfl
  cases types with
  | none => exact targets_marks cfg scope none 0 xs
  | some types =>
    exact .ite (fun _ => targets_marks cfg scope _ 0 xs) fun _ =>
      (report_unmarked rfl _).unmarked_bind fun _ => targets_marks cfg scope none 0 xs

theorem checkInitial_unmarked (xs : List TypedName) (declared given : List Label) :
    Marks (checkInitial xs declared given) [] := by
  induction xs generalizing declared given with
  | nil => exact pure_marks _
  | cons x xs ih =>
    cases declared with
    | nil => exact pure_marks _
    | cons d declared =>
      cases given with
      | nil => exact pure_marks _
      | cons g given =>
        exact .ite (fun _ => ih _ _) fun _ => (report_unmarked rfl _).unmarked_bind fun _ => ih _ _

theorem initialValue_marks (scope : ScopeId) (xs : List TypedName) (types : List Label)
    (value : Option Expr) (span : Span) :
    Marks (initialValue cfg scope xs types value span) ((value.map (Expr.marks cfg)).getD []) := by
  cases value with
  | none => exact pure_marks _
  | some value =>
    refine (expression_marks cfg scope value).bind_unmarked fun given => ?_
    cases given with
    | none => exact pure_marks _
    | some given => exact .ite (fun _ => checkInitial_unmarked _ _ _) fun _ => report_unmarked rfl _

theorem declaration_marks (scope : ScopeId) (xs : List TypedName) (value : Option Expr)
    (span : Span) : Marks (declaration cfg scope xs value span)
      (annotationMarks cfg xs ++ (value.map (Expr.marks cfg)).getD [] ++ variableMarks xs) := by
  rw [List.append_assoc]
  refine .bind_of (P := fun types => types.length = xs.length) (fun r => ?_)
    (declaredTypes_marks cfg xs) (fun types htypes => ?_) rfl
  · rw [value_declaredTypes, Dialect.declaredLabels, List.length_map]
  · exact .bind (initialValue_marks cfg scope xs types value span)
      (fun _ => declareVariables_marks scope htypes) rfl

theorem expressionStatement_marks (scope : ScopeId) (e : Expr) :
    Marks (expressionStatement cfg scope e) (e.marks cfg) := by
  refine (expression_marks cfg scope e).bind_unmarked fun types => ?_
  cases types with
  | some types => exact .ite (fun _ => pure_marks _) fun _ => report_unmarked rfl _
  | none => exact pure_marks _

/-! ## Arms of a switch -/

/-- What is kept while the arms of a switch are visited tells of the arms before. -/
structure Keeps (d : Dialect) (before : List Case) (seen : List (Label × Word))
    (hasDefault : Bool) : Prop where
  seen : ∀ label w, (label, w) ∈ seen ↔
    ∃ l ∈ before.filterMap Case.value, l.label d = label ∧ l.word? = some w
  default : hasDefault = true ↔ ∃ c ∈ before, c.isDefault = true

theorem Keeps.nil (d : Dialect) : Keeps d [] [] false :=
  ⟨by simp, by simp⟩

theorem Keeps.concat {before : List Case} {seen : List (Label × Word)} {hasDefault : Bool}
    (h : Keeps cfg.dialect before seen hasDefault) (value : Option Literal) (body : Block)
    (span : Span) : Keeps cfg.dialect (before ++ [⟨value, body, span⟩]) (seenWith cfg seen value)
      (hasDefault || value.isNone) where
  seen label w := by
    rw [List.filterMap_append]
    cases value with
    | none => simpa [seenWith] using h.seen label w
    | some l =>
      cases hw : l.word? with
      | none => simpa [seenWith, hw, or_and_right, exists_or] using h.seen label w
      | some v =>
        simp only [seenWith_of_word cfg seen hw, hw, List.mem_cons, Prod.mk.injEq, h.seen label w,
          List.filterMap_cons, List.filterMap_nil, List.mem_append, List.not_mem_nil, or_false,
          or_and_right, exists_or, exists_eq_left, Option.some.injEq]
        rw [or_comm, eq_comm (a := label), eq_comm (a := w)]
  default := by
    simp [Bool.or_eq_true, h.default, or_and_right, exists_or, Case.isDefault]

/-- An arm repeats one before it if and only if its label and word are among those that are kept. -/
theorem Keeps.repeats_iff {before : List Case} {seen : List (Label × Word)} {hasDefault : Bool}
    (h : Keeps cfg.dialect before seen hasDefault) (l : Literal) :
    (∃ w, l.word? = some w ∧ (l.label cfg.dialect, w) ∈ seen) ↔
      Arm.Repeats cfg.dialect before l := by
  simp only [h.seen, Arm.Repeats, Option.isSome_iff_exists]
  constructor
  · rintro ⟨w, hw, l', hl', htype, hw'⟩
    exact ⟨⟨w, hw⟩, l', hl', htype, hw'.trans hw.symm⟩
  · rintro ⟨⟨w, hw⟩, l', hl', htype, hw'⟩
    exact ⟨w, hw, l', hl', htype, hw'.trans hw⟩

theorem caseValue_marks {before : List Case} {seen : List (Label × Word)} {hasDefault : Bool}
    (h : Keeps cfg.dialect before seen hasDefault) (subject : Option Label) (value : Option Literal)
    (span : Span) : Marks (caseValue cfg subject seen hasDefault value span)
      (Arm.marks cfg ⟨before, value, span⟩) := by
  cases value with
  | none =>
    simp only [caseValue, Arm.marks, Arm.finding?, List.nil_append, ← h.default]
    cases hasDefault with
    | true => exact report_marks rfl span
    | false => exact pure_marks ()
  | some l =>
    have hmarks := reportAll_marks (cfg.dialect.caseProblems subject seen l) l.span
    simp only [Dialect.filter_caseProblems, h.repeats_iff] at hmarks
    simp only [caseValue, Arm.marks, Arm.finding?]
    split at hmarks
    · next hrepeats =>
      rw [if_pos hrepeats]
      rwa [marksOf, List.map_append] at hmarks
    · next hrepeats =>
      rw [if_neg hrepeats]
      rwa [marksOf, List.map_append] at hmarks

/-! ## Statements -/

mutual

theorem stmt_marks (ctx : Context) (s : Stmt) : Marks (stmt cfg ctx s) (s.marks cfg) := by
  match s with
  | .expression e => exact expressionStatement_marks cfg ctx.scope e
  | .assignment xs value span => exact assignment_marks cfg ctx.scope xs value span
  | .declaration xs value span => exact declaration_marks cfg ctx.scope xs value span
  | .function f span => exact function_marks ctx f
  | .ifThen e body span =>
    rw [stmt, Stmt.marks]
    exact .bind (condition_marks cfg ctx.scope e) (fun _ => block_marks ctx body) rfl
  | .switch subject arms span =>
    rw [stmt, Stmt.marks, List.append_assoc, onlyDefaultMarks]
    refine .bind (valueOf_marks cfg ctx.scope subject) (fun type => ?_) rfl
    have harms := cases_marks ctx type (.nil cfg.dialect) arms
    split
    · exact .bind (report_marks rfl span) (fun _ => harms) rfl
    · exact harms
  | .forLoop ⟨id, statements, _⟩ e post body span =>
    rw [stmt, Stmt.marks]
    simp only [List.append_assoc]
    refine .bind (openBlock_marks cfg id statements _) (fun scope => ?_) rfl
    refine .bind (stmts_marks _ statements) (fun _ => ?_) rfl
    refine .bind (condition_marks cfg scope e) (fun _ => ?_) rfl
    refine .bind (block_marks _ body) (fun _ => ?_) rfl
    refine .bind (block_marks _ post) (fun _ => ?_) rfl
    exact .bind (emit_marks (.effects .looping)) (fun _ => emit_marks (.exitBlock id scope)) rfl
  | .breakLoop span | .continueLoop span =>
    exact .ite (fun _ => pure_marks ()) fun _ => report_unmarked rfl span
  | .leave span => exact .ite (fun _ => pure_marks ()) fun _ => report_unmarked rfl span
  | .block b => exact block_marks ctx b

theorem function_marks (ctx : Context) (f : FunctionDef) :
    Marks (function cfg ctx f) (f.marks cfg) := by
  match f with
  | ⟨name, params, returns, body⟩ =>
    have hinside : Marks (do
        let scope ← openParameters body.id ctx.scope
        parameters cfg scope ⟨name, params, returns, body⟩
        emit (.enterFunction ⟨ctx.scope, name.name⟩)
        block cfg { scope, inFunction := true } body
        emit (.exitFunction ⟨ctx.scope, name.name⟩))
        (FunctionDef.marks cfg ⟨name, params, returns, body⟩) := by
      have hopen : Marks (openParameters body.id ctx.scope) [.openParameters body.id] :=
        get_marks.unmarked_bind fun _ => (emit_marks _).bind_unmarked fun _ => pure_marks _
      simp only [FunctionDef.marks, List.cons_append, List.append_assoc]
      refine .bind hopen (fun scope => ?_) rfl
      refine .bind (parameters_marks cfg scope _) (fun _ => ?_) rfl
      refine .bind (emit_marks (.enterFunction _)) (fun _ => ?_) rfl
      exact .bind (block_marks _ body) (fun _ => emit_marks (.exitFunction _)) rfl
    rw [function]
    split
    · exact (report_unmarked rfl name.span).unmarked_bind fun _ => hinside
    · exact hinside

theorem block_marks (ctx : Context) (b : Block) : Marks (block cfg ctx b) (b.marks cfg) := by
  match b with
  | ⟨id, statements, span⟩ =>
    rw [block, Block.marks, List.append_assoc]
    refine .bind (openBlock_marks cfg id statements _) (fun scope => ?_) rfl
    exact .bind (stmts_marks _ statements) (fun _ => emit_marks (.exitBlock id scope)) rfl

theorem stmts_marks (ctx : Context) (ss : List Stmt) :
    Marks (stmts cfg ctx ss) (marksOfStmts cfg ss) := by
  match ss with
  | [] => exact pure_marks ()
  | s :: rest => exact .bind (stmt_marks ctx s) (fun _ => stmts_marks ctx rest) rfl

theorem cases_marks (ctx : Context) (subject : Option Label) {before : List Case}
    {seen : List (Label × Word)} {hasDefault : Bool}
    (h : Keeps cfg.dialect before seen hasDefault) (arms : List Case) :
    Marks (cases cfg ctx subject seen hasDefault arms) (marksOfCases cfg before arms) := by
  match arms with
  | [] => exact pure_marks ()
  | ⟨value, body, span⟩ :: rest =>
    rw [cases, marksOfCases, List.append_assoc]
    refine .bind (caseValue_marks cfg h subject value span) (fun _ => ?_) rfl
    have hkeeps := h.concat cfg value body span
    exact .bind (block_marks ctx body) (fun _ => cases_marks ctx subject hkeeps rest) rfl

end

theorem rootBlock_marks (b : Block) : Marks (rootBlock cfg b) (b.marks cfg) := by
  obtain ⟨id, statements, span⟩ := b
  rw [rootBlock, Block.marks, List.append_assoc]
  refine .bind (openBlock_marks cfg id statements _) (fun scope => ?_) rfl
  exact .bind (stmts_marks cfg _ statements) (fun _ => emit_marks (.exitBlock id scope)) rfl

end Setting

end Check

/-- The marks of a run are those of its code, or a beginning of them if it comes to a fault. -/
theorem runBlock_marks (cfg : Setting) (record : Record) (b : Block) :
    (runBlock cfg record b).events.filterMap Event.mark? <+: b.marks cfg ∧
      ((runBlock cfg record b).fault = none →
        (runBlock cfg record b).events.filterMap Event.mark? = b.marks cfg) := by
  obtain ⟨ys, hbegins, hmarks, hend⟩ :=
    (Check.rootBlock_marks cfg b).filterMap_events (r := { record }) trivial
  have hys : (runBlock cfg record b).events.filterMap Event.mark? = ys := hmarks
  rw [hys]
  exact ⟨hbegins, hend⟩

theorem findings_told (r : Run) : r.findings.filter (·.problem.isTold) =
    (r.events.filterMap Event.mark?).filterMap Mark.problem? := by
  rw [Run.findings, List.filter_filterMap, List.filterMap_filterMap]
  refine List.filterMap_congr fun e _ => ?_
  cases e with
  | report f => cases h : f.problem.isTold <;> simp [Event.finding?, Event.mark?, Mark.problem?, h]
  | _ => rfl

theorem mem_findings_of_mark {cfg : Setting} {record : Record} {b : Block}
    (hfault : (analyze cfg record b).fault = none) {f : Finding}
    (hf : Mark.problem f ∈ b.marks cfg) : f ∈ (analyze cfg record b).findings := by
  have hmarks := (runBlock_marks cfg record b).2 (fault_of_ofRun hfault)
  have htold := findings_told (runBlock cfg record b)
  rw [hmarks] at htold
  have hmem : f ∈ (runBlock cfg record b).findings.filter (·.problem.isTold) := by
    rw [htold]
    exact List.mem_filterMap.mpr ⟨_, hf, rfl⟩
  rw [analyze, ofRun_findings]
  exact (List.mem_filter.mp hmem).1

theorem mark_of_mem_findings {cfg : Setting} {record : Record} {b : Block} {f : Finding}
    (hf : f ∈ (analyze cfg record b).findings) (htold : f.problem.isTold = true) :
    Mark.problem f ∈ b.marks cfg := by
  rw [analyze, ofRun_findings] at hf
  have hmem : f ∈ (runBlock cfg record b).findings.filter (·.problem.isTold) :=
    List.mem_filter.mpr ⟨hf, htold⟩
  rw [findings_told, List.mem_filterMap] at hmem
  obtain ⟨m, hm, hproblem⟩ := hmem
  cases m with
  | problem g =>
    obtain rfl := Option.some.inj hproblem
    exact (runBlock_marks cfg record b).1.subset hm
  | _ => cases hproblem

end Yul
