import Yul.Proofs.Effects.Bounded
import Yul.Proofs.Visit.Exact

/-!
# Switches are checked exactly

The arms that an analysis reports as doubled are those that `Arm.finding?` names, in the order in which
the arms are visited, whatever else is wrong (`findings_doubled`). In code that is accepted no two
cases of a switch have the same word: their labels are that of the subject, so an arm with the word of
one before it would have been reported (`switches_exact`).
-/

namespace Yul

/-! ## Marks of doubled arms -/

/-- The problem of a doubled arm that is left behind. -/
def Mark.doubled? (m : Mark) : Option Finding :=
  m.problem?.filter (·.problem.isDoubled)

/-- The doubled arms among marks. -/
def doubledIn (ms : List Mark) : List Finding :=
  ms.filterMap Mark.doubled?

@[simp] theorem doubledIn_nil : doubledIn [] = [] := rfl

@[simp] theorem doubledIn_append (ms ms' : List Mark) :
    doubledIn (ms ++ ms') = doubledIn ms ++ doubledIn ms' :=
  List.filterMap_append

theorem doubledIn_flatMap {α : Type} {f : α → List Mark} (hf : ∀ a, doubledIn (f a) = [])
    (as : List α) : doubledIn (as.flatMap f) = [] := by
  rw [doubledIn, List.filterMap_eq_nil_iff]
  intro m hm
  obtain ⟨a, -, hm⟩ := List.mem_flatMap.mp hm
  exact List.filterMap_eq_nil_iff.mp (hf a) m hm

theorem doubledIn_marksOf {ps : List Problem} (h : Told ps) (span : Span) :
    doubledIn (marksOf ps span) = [] := by
  rw [doubledIn, List.filterMap_eq_nil_iff]
  intro m hm
  obtain ⟨p, hp, rfl⟩ := List.mem_map.mp hm
  exact Option.filter_some_neg (by simp [(h p hp).2])

section Setting

variable (cfg : Setting)

theorem doubledIn_headMarks (f : Identifier) : doubledIn (headMarks cfg f) = [] := by
  unfold headMarks
  split
  · rw [doubledIn_append, doubledIn_marksOf (cfg.dialect.told_builtinProblems _)]
    rfl
  · rfl

theorem doubledIn_stringMarks (kind : LiteralArgument) (argument : Expr) :
    doubledIn (stringMarks cfg kind argument) = [] := by
  unfold stringMarks
  split
  · rfl
  · rw [doubledIn_append, doubledIn_marksOf (cfg.dialect.told_writtenProblems _)]
    split <;> rfl

mutual

theorem Expr.doubledIn_marks (e : Expr) : doubledIn (e.marks cfg) = [] := by
  match e with
  | .literal l => exact doubledIn_marksOf (cfg.dialect.told_literalProblems l) l.span
  | .identifier x => rfl
  | .call f args _ =>
    rw [Expr.marks, doubledIn_append, doubledIn_headMarks, doubledIn_marksOfArguments]
    rfl

theorem doubledIn_marksOfArguments (builtin : Option Builtin) (index : Nat) (args : List Expr) :
    doubledIn (marksOfArguments cfg builtin index args) = [] := by
  match args with
  | [] => rfl
  | a :: rest =>
    rw [marksOfArguments, doubledIn_append, doubledIn_marksOfArguments builtin (index + 1) rest,
      List.append_nil]
    split
    · exact doubledIn_stringMarks cfg _ a
    · exact a.doubledIn_marks

end

theorem doubledIn_annotationMarks (xs : List TypedName) : doubledIn (annotationMarks cfg xs) = [] := by
  refine doubledIn_flatMap (fun x : TypedName => ?_) xs
  exact doubledIn_marksOf (cfg.dialect.told_writtenProblems x.type) x.span

theorem doubledIn_namingMarks (x : Identifier) : doubledIn (namingMarks x) = [] := by
  rw [namingMarks, doubledIn_append, doubledIn_marksOf (Dialect.told_namingProblems x.name)]
  rfl

theorem doubledIn_variableMarks (xs : List TypedName) : doubledIn (variableMarks xs) = [] :=
  doubledIn_flatMap (fun _ => doubledIn_namingMarks _) xs

theorem doubledIn_openingMarks (id : BlockId) (statements : List Stmt) :
    doubledIn (openingMarks cfg id statements) = [] := by
  refine doubledIn_flatMap (fun f => ?_) (functionsOf statements)
  rw [FunctionDef.headerMarks, doubledIn_append, doubledIn_append, doubledIn_annotationMarks,
    doubledIn_annotationMarks, doubledIn_namingMarks]
  rfl

theorem doubledIn_targetMarks (before : List Name) (xs : List Identifier) :
    doubledIn (targetMarks before xs) = [] := by
  induction xs generalizing before with
  | nil => rfl
  | cons x xs ih =>
    rw [targetMarks, doubledIn_append, ih]
    split <;> rfl

theorem doubledIn_names (xs : List Identifier) :
    doubledIn (xs.map fun x => .name x.name) = [] := by
  rw [doubledIn, List.filterMap_map]
  exact List.filterMap_eq_nil_iff.mpr fun _ _ => rfl

theorem doubledIn_onlyDefaultMarks (cases : List Case) (span : Span) :
    doubledIn (onlyDefaultMarks cases span) = [] := by
  unfold onlyDefaultMarks
  split <;> rfl

theorem doubledIn_armMarks (a : Arm) :
    doubledIn (a.marks cfg) = (a.finding? cfg.dialect).toList := by
  obtain ⟨before, value, span⟩ := a
  cases value with
  | none =>
    rw [Arm.marks, doubledIn_append, doubledIn_nil, List.nil_append, Arm.finding?]
    dsimp only
    split <;> rfl
  | some l =>
    rw [Arm.marks, doubledIn_append, doubledIn_marksOf (cfg.dialect.told_literalProblems l),
      List.nil_append, Arm.finding?]
    dsimp only
    split <;> rfl

mutual

theorem Stmt.doubledIn_marks (s : Stmt) :
    doubledIn (s.marks cfg) = s.arms.filterMap (Arm.finding? cfg.dialect) := by
  match s with
  | .expression e => exact e.doubledIn_marks cfg
  | .assignment xs value span =>
    rw [Stmt.marks, doubledIn_append, doubledIn_append, doubledIn_targetMarks,
      value.doubledIn_marks, doubledIn_names]
    rfl
  | .declaration xs value span =>
    have hvalue : doubledIn ((value.map (Expr.marks cfg)).getD []) = [] := by
      cases value with
      | none => rfl
      | some e => exact e.doubledIn_marks cfg
    rw [Stmt.marks, doubledIn_append, doubledIn_append, doubledIn_annotationMarks, hvalue,
      doubledIn_variableMarks]
    rfl
  | .function f span => exact f.doubledIn_marks
  | .ifThen e body span =>
    rw [Stmt.marks, doubledIn_append, e.doubledIn_marks, body.doubledIn_marks]
    rfl
  | .switch subject cases span =>
    rw [Stmt.marks, doubledIn_append, doubledIn_append, subject.doubledIn_marks,
      doubledIn_onlyDefaultMarks, doubledIn_marksOfCases]
    rfl
  | .forLoop ⟨id, statements, _⟩ e post body span =>
    have hend : doubledIn [.effects .looping, .exitBlock id] = [] := rfl
    simp only [Stmt.marks, doubledIn_append, doubledIn_openingMarks, doubledIn_marksOfStmts,
      e.doubledIn_marks, body.doubledIn_marks, post.doubledIn_marks, hend, Stmt.arms, Block.arms,
      List.filterMap_append, List.nil_append, List.append_nil]
  | .breakLoop span | .continueLoop span | .leave span => rfl
  | .block b => exact b.doubledIn_marks

theorem FunctionDef.doubledIn_marks (f : FunctionDef) :
    doubledIn (f.marks cfg) = f.arms.filterMap (Arm.finding? cfg.dialect) := by
  match f with
  | ⟨name, parameters, returns, body⟩ =>
    have hopen : doubledIn (.openParameters body.id :: variableMarks (parameters ++ returns)) = [] :=
      doubledIn_variableMarks _
    have hbody : doubledIn (.enterFunction name.name :: body.marks cfg) =
        body.arms.filterMap (Arm.finding? cfg.dialect) := body.doubledIn_marks
    have hend : doubledIn [.exitFunction name.name] = [] := rfl
    rw [FunctionDef.marks, doubledIn_append, doubledIn_append, hopen, hbody, hend, List.nil_append,
      List.append_nil]
    rfl

theorem doubledIn_marksOfStmts (ss : List Stmt) :
    doubledIn (marksOfStmts cfg ss) = (armsOfStmts ss).filterMap (Arm.finding? cfg.dialect) := by
  match ss with
  | [] => rfl
  | s :: rest =>
    rw [marksOfStmts, armsOfStmts, doubledIn_append, List.filterMap_append, s.doubledIn_marks,
      doubledIn_marksOfStmts rest]

theorem doubledIn_marksOfCases (before cases : List Case) :
    doubledIn (marksOfCases cfg before cases) =
      (armsOfCases before cases).filterMap (Arm.finding? cfg.dialect) := by
  match cases with
  | [] => rfl
  | ⟨value, body, span⟩ :: rest =>
    rw [marksOfCases, armsOfCases, doubledIn_append, doubledIn_append, doubledIn_armMarks,
      body.doubledIn_marks, doubledIn_marksOfCases _ rest, List.filterMap_append,
      List.filterMap_cons]
    cases Arm.finding? cfg.dialect ⟨before, value, span⟩ <;> rfl

theorem Block.doubledIn_marks (b : Block) :
    doubledIn (b.marks cfg) = b.arms.filterMap (Arm.finding? cfg.dialect) := by
  match b with
  | ⟨id, statements, span⟩ =>
    have hend : doubledIn [.exitBlock id] = [] := rfl
    rw [Block.marks, Block.arms, doubledIn_append, doubledIn_append, doubledIn_openingMarks,
      doubledIn_marksOfStmts statements, hend, List.nil_append, List.append_nil]

end

/-! ## Every arm is visited -/

mutual

theorem Stmt.mem_marks_of_arm (s : Stmt) : ∀ a ∈ s.arms, ∀ m ∈ a.marks cfg, m ∈ s.marks cfg := by
  intro a ha m hm
  match s with
  | .expression _ | .assignment _ _ _ | .declaration _ _ _ | .breakLoop _ | .continueLoop _
  | .leave _ => exact absurd ha List.not_mem_nil
  | .function f span => exact f.mem_marks_of_arm a ha m hm
  | .ifThen e body span => exact List.mem_append_right _ (body.mem_marks_of_arm a ha m hm)
  | .switch subject cases span =>
    exact List.mem_append_right _ (mem_marks_of_arm_cases [] cases a ha m hm)
  | .forLoop ⟨id, statements, _⟩ e post body span =>
    simp only [Stmt.arms, Block.arms, List.mem_append] at ha
    rcases ha with (ha | ha) | ha
    · simp [Stmt.marks, mem_marks_of_arm_stmts statements a ha m hm]
    · simp [Stmt.marks, body.mem_marks_of_arm a ha m hm]
    · simp [Stmt.marks, post.mem_marks_of_arm a ha m hm]
  | .block b => exact b.mem_marks_of_arm a ha m hm

theorem FunctionDef.mem_marks_of_arm (f : FunctionDef) :
    ∀ a ∈ f.arms, ∀ m ∈ a.marks cfg, m ∈ f.marks cfg := by
  intro a ha m hm
  match f with
  | ⟨name, parameters, returns, body⟩ =>
    simp [FunctionDef.marks, body.mem_marks_of_arm a ha m hm]

theorem mem_marks_of_arm_stmts (ss : List Stmt) :
    ∀ a ∈ armsOfStmts ss, ∀ m ∈ a.marks cfg, m ∈ marksOfStmts cfg ss := by
  intro a ha m hm
  match ss with
  | [] => exact absurd ha List.not_mem_nil
  | s :: rest =>
    rcases List.mem_append.mp ha with ha | ha
    · exact List.mem_append_left _ (s.mem_marks_of_arm a ha m hm)
    · exact List.mem_append_right _ (mem_marks_of_arm_stmts rest a ha m hm)

theorem mem_marks_of_arm_cases (before cases : List Case) :
    ∀ a ∈ armsOfCases before cases, ∀ m ∈ a.marks cfg, m ∈ marksOfCases cfg before cases := by
  intro a ha m hm
  match cases with
  | [] => exact absurd ha List.not_mem_nil
  | ⟨value, body, span⟩ :: rest =>
    simp only [armsOfCases, List.cons_append, List.mem_cons, List.mem_append] at ha
    rcases ha with rfl | ha | ha
    · simp [marksOfCases, hm]
    · simp [marksOfCases, body.mem_marks_of_arm a ha m hm]
    · simp [marksOfCases, mem_marks_of_arm_cases _ rest a ha m hm]

theorem Block.mem_marks_of_arm (b : Block) :
    ∀ a ∈ b.arms, ∀ m ∈ a.marks cfg, m ∈ b.marks cfg := by
  intro a ha m hm
  match b with
  | ⟨id, statements, span⟩ => simp [Block.marks, mem_marks_of_arm_stmts statements a ha m hm]

end

theorem mem_findings_of_arm {record : Record} {b : Block}
    (hfault : (analyze cfg record b).fault = none) {a : Arm} (ha : a ∈ b.arms) {l : Literal}
    (hl : a.value = some l) {p : Problem} (hp : p ∈ cfg.dialect.literalProblems l) :
    ⟨p, l.span⟩ ∈ (analyze cfg record b).findings := by
  have hmark : Mark.problem ⟨p, l.span⟩ ∈ a.marks cfg := by
    rw [Arm.marks, hl]
    exact List.mem_append_left _ (List.mem_map.mpr ⟨p, hp, rfl⟩)
  exact mem_findings_of_mark hfault (b.mem_marks_of_arm cfg a ha _ hmark)

/-- The problems of doubled arms are those of the code, or a beginning of them if there is a fault. -/
theorem findings_doubled (record : Record) (b : Block) :
    (analyze cfg record b).findings.filter (·.problem.isDoubled) <+:
        b.arms.filterMap (Arm.finding? cfg.dialect) ∧
      ((analyze cfg record b).fault = none →
        (analyze cfg record b).findings.filter (·.problem.isDoubled) =
          b.arms.filterMap (Arm.finding? cfg.dialect)) := by
  have hfilter (fs : List Finding) : fs.filter (·.problem.isDoubled) =
      (fs.filter (·.problem.isTold)).filter (·.problem.isDoubled) := by
    rw [List.filter_filter]
    refine List.filter_congr fun f _ => ?_
    cases f.problem <;> rfl
  have hdoubled (ms : List Mark) :
      (ms.filterMap Mark.problem?).filter (·.problem.isDoubled) = doubledIn ms :=
    List.filter_filterMap
  obtain ⟨hbegins, hend⟩ := runBlock_marks cfg record b
  rw [analyze, ofRun_findings, hfilter, findings_told, hdoubled, ← b.doubledIn_marks cfg]
  exact ⟨hbegins.filterMap _, fun hfault => by rw [hend (fault_of_ofRun hfault)]⟩

/-! ## Switches of accepted code -/

/-- The switches that stand directly in blocks. -/
def switchesIn (bs : List Block) : List (List Case) :=
  bs.flatMap fun b => b.statements.filterMap Stmt.cases?

theorem mem_switchesIn_append {bs bs' : List Block} {cases : List Case} :
    cases ∈ switchesIn (bs ++ bs') ↔ cases ∈ switchesIn bs ∨ cases ∈ switchesIn bs' := by
  rw [switchesIn, List.flatMap_append, List.mem_append]
  rfl

theorem mem_switchesOfStmts_cons {s : Stmt} {rest : List Stmt} {cases : List Case} :
    cases ∈ (s :: rest).filterMap Stmt.cases? ++ switchesIn (blocksOfStmts (s :: rest)) ↔
      (s.cases? = some cases ∨ cases ∈ switchesIn s.blocks) ∨
        cases ∈ rest.filterMap Stmt.cases? ++ switchesIn (blocksOfStmts rest) := by
  rw [blocksOfStmts, List.mem_append, mem_switchesIn_append, List.mem_append, List.filterMap_cons]
  cases s.cases? <;> simp [or_assoc, or_left_comm, eq_comm]

/-- The arms of a switch have values of one type. -/
abbrev Typed (cases : List Case) : Prop :=
  ∃ type, ArmsMatch cfg type cases

mutual

theorem Stmt.WellFormed.typed {env : Env} {place : Place} {s : Stmt} (h : s.WellFormed cfg env place) :
    (∀ cases, s.cases? = some cases → Typed cfg cases) ∧
      ∀ cases ∈ switchesIn s.blocks, Typed cfg cases := by
  match s with
  | .expression _ | .assignment _ _ _ | .declaration _ _ _ | .breakLoop _ | .continueLoop _
  | .leave _ => exact ⟨nofun, List.forall_mem_nil _⟩
  | .function f span => exact ⟨nofun, FunctionDef.WellFormed.typed h.2⟩
  | .ifThen e body span => exact ⟨nofun, Block.WellFormed.typed h.2⟩
  | .switch subject cases span =>
    obtain ⟨⟨type, -, harms⟩, hbodies⟩ := h
    refine ⟨?_, typed_of_wellFormedCases hbodies⟩
    rintro _ ⟨⟩
    exact ⟨type, harms⟩
  | .forLoop ⟨id, statements, _⟩ e post body span =>
    obtain ⟨-, hstatements, -, hbody, hpost⟩ := h
    refine ⟨nofun, fun cases hcases => ?_⟩
    rw [Stmt.blocks, mem_switchesIn_append, mem_switchesIn_append] at hcases
    rcases hcases with (hcases | hcases) | hcases
    · exact typed_of_wellFormedStmts hstatements cases hcases
    · exact Block.WellFormed.typed hpost cases hcases
    · exact Block.WellFormed.typed hbody cases hcases
  | .block b => exact ⟨nofun, Block.WellFormed.typed h⟩

theorem FunctionDef.WellFormed.typed {env : Env} {f : FunctionDef} (h : f.WellFormed cfg env) :
    ∀ cases ∈ switchesIn f.blocks, Typed cfg cases := by
  match f with
  | ⟨name, parameters, returns, body⟩ => exact Block.WellFormed.typed h.2

theorem Block.WellFormed.typed {env : Env} {place : Place} {b : Block}
    (h : b.WellFormed cfg env place) : ∀ cases ∈ switchesIn b.blocks, Typed cfg cases := by
  match b with
  | ⟨id, statements, span⟩ => exact typed_of_wellFormedStmts h.2

theorem typed_of_wellFormedStmts {env : Env} {place : Place} {ss : List Stmt}
    (h : WellFormedStmts cfg env place ss) :
    ∀ cases ∈ ss.filterMap Stmt.cases? ++ switchesIn (blocksOfStmts ss), Typed cfg cases := by
  match ss with
  | [] => exact List.forall_mem_nil _
  | s :: rest =>
    obtain ⟨hdirect, hinside⟩ := Stmt.WellFormed.typed h.1
    intro cases hcases
    rcases mem_switchesOfStmts_cons.mp hcases with (hcases | hcases) | hcases
    · exact hdirect cases hcases
    · exact hinside cases hcases
    · exact typed_of_wellFormedStmts h.2 cases hcases

theorem typed_of_wellFormedCases {env : Env} {place : Place} {cs : List Case}
    (h : WellFormedCases cfg env place cs) :
    ∀ cases ∈ switchesIn (blocksOfCases cs), Typed cfg cases := by
  match cs with
  | [] => exact List.forall_mem_nil _
  | ⟨_, body, _⟩ :: rest =>
    intro cases hcases
    rcases mem_switchesIn_append.mp hcases with hcases | hcases
    · exact Block.WellFormed.typed h.1 cases hcases
    · exact typed_of_wellFormedCases h.2 cases hcases

end

/-! ## Arms and switches -/

theorem mem_armsOfCases (before cases : List Case) (i : Nat) (hi : i < cases.length) :
    ⟨before ++ cases.take i, cases[i].value, cases[i].span⟩ ∈ armsOfCases before cases := by
  induction cases generalizing before i with
  | nil => cases hi
  | cons c rest ih =>
    obtain ⟨value, body, span⟩ := c
    cases i with
    | zero => simp [armsOfCases]
    | succ i =>
      have hrest := ih (before ++ [⟨value, body, span⟩]) i (Nat.lt_of_succ_lt_succ hi)
      rw [List.append_assoc, List.singleton_append] at hrest
      exact List.mem_append_right _ hrest

mutual

theorem Stmt.mem_arms_of_switch (s : Stmt) {a : Arm} {cases : List Case}
    (h : s.cases? = some cases ∨ cases ∈ switchesIn s.blocks) (ha : a ∈ armsOfCases [] cases) :
    a ∈ s.arms := by
  match s with
  | .expression _ | .assignment _ _ _ | .declaration _ _ _ | .breakLoop _ | .continueLoop _
  | .leave _ => exact (h.elim nofun List.not_mem_nil).elim
  | .function f span => exact f.mem_arms_of_switch (h.resolve_left nofun) ha
  | .ifThen e body span => exact body.mem_arms_of_switch (h.resolve_left nofun) ha
  | .switch subject arms span =>
    rcases h with ⟨⟨⟩⟩ | h
    · exact ha
    · exact mem_arms_of_switch_cases [] arms h ha
  | .forLoop ⟨id, statements, _⟩ e post body span =>
    have h := h.resolve_left nofun
    rw [Stmt.blocks, mem_switchesIn_append, mem_switchesIn_append] at h
    rw [Stmt.arms, List.mem_append, List.mem_append]
    rcases h with (h | h) | h
    · exact .inl (.inl (mem_arms_of_switch_stmts statements h ha))
    · exact .inr (post.mem_arms_of_switch h ha)
    · exact .inl (.inr (body.mem_arms_of_switch h ha))
  | .block b => exact b.mem_arms_of_switch (h.resolve_left nofun) ha

theorem FunctionDef.mem_arms_of_switch (f : FunctionDef) {a : Arm} {cases : List Case}
    (h : cases ∈ switchesIn f.blocks) (ha : a ∈ armsOfCases [] cases) : a ∈ f.arms := by
  match f with
  | ⟨name, parameters, returns, body⟩ => exact body.mem_arms_of_switch h ha

theorem Block.mem_arms_of_switch (b : Block) {a : Arm} {cases : List Case}
    (h : cases ∈ switchesIn b.blocks) (ha : a ∈ armsOfCases [] cases) : a ∈ b.arms := by
  match b with
  | ⟨id, statements, span⟩ => exact mem_arms_of_switch_stmts statements h ha

theorem mem_arms_of_switch_stmts (ss : List Stmt) {a : Arm} {cases : List Case}
    (h : cases ∈ ss.filterMap Stmt.cases? ++ switchesIn (blocksOfStmts ss))
    (ha : a ∈ armsOfCases [] cases) : a ∈ armsOfStmts ss := by
  match ss with
  | [] => cases h
  | s :: rest =>
    rcases mem_switchesOfStmts_cons.mp h with h | h
    · exact List.mem_append_left _ (s.mem_arms_of_switch h ha)
    · exact List.mem_append_right _ (mem_arms_of_switch_stmts rest h ha)

theorem mem_arms_of_switch_cases (before cs : List Case) {a : Arm} {cases : List Case}
    (h : cases ∈ switchesIn (blocksOfCases cs)) (ha : a ∈ armsOfCases [] cases) :
    a ∈ armsOfCases before cs := by
  match cs with
  | [] => cases h
  | ⟨value, body, span⟩ :: rest =>
    rcases mem_switchesIn_append.mp h with h | h
    · exact List.mem_append_left _ (List.mem_cons_of_mem _ (body.mem_arms_of_switch h ha))
    · exact List.mem_append_right _ (mem_arms_of_switch_cases _ rest h ha)

end

end Setting

/-! ## Main result -/

/-- The errors about cases and defaults that a switch has twice. -/
def Analysis.aboutArms (a : Analysis) : List Diagnostic :=
  a.diagnostics.filter fun d => d.isError && d.category = .duplicateCase

theorem Finding.isDoubled_eq (f : Finding) :
    (f.diagnostic.isError && decide (f.diagnostic.category = .duplicateCase)) =
      f.problem.isDoubled := by
  obtain ⟨p, span⟩ := f
  cases p <;> rfl

theorem aboutArms_eq (a : Analysis) :
    a.aboutArms = (a.findings.filter (·.problem.isDoubled)).map Finding.diagnostic := by
  rw [Analysis.aboutArms, Analysis.diagnostics, List.filter_map]
  exact congrArg (List.map _) (List.filter_congr fun f _ => f.isDoubled_eq)

/-- Every switch of accepted code has at most one default, and no two of its cases have the same
word, however they are written. Of any code the doubled arms are reported, and nothing else is: each
case whose label and word are those of a case before it in the same switch, and each default behind
another one, in the order in which they are visited. A literal has no word if and only if it is
reported as too large or too long wherever it stands as a case. An analysis with a fault has a
beginning of the reports, and code whose blocks have numbers of their own is analyzed without a
fault. -/
theorem switches_exact (cfg : Setting) (record : Record) (b : Block) :
    (∀ l w, Literal.word? l = some w ↔ l.value.StandsFor w.toNat) ∧
    (record.Served → (analyze cfg record b).fault = none →
      (analyze cfg record b).succeeded = true → ∀ cases ∈ b.switches,
        (∀ l ∈ cases.filterMap Case.value, ∃ w, l.word? = some w) ∧
        ((cases.filterMap Case.value).map Literal.word?).Nodup ∧
        cases.countP Case.isDefault ≤ 1) ∧
    (∀ cases ∈ b.switches, ∀ (i : Nat) (hi : i < cases.length),
      ⟨cases.take i, cases[i].value, cases[i].span⟩ ∈ b.arms) ∧
    ((analyze cfg record b).aboutArms <+:
        (b.arms.filterMap (Arm.finding? cfg.dialect)).map Finding.diagnostic ∧
      ((analyze cfg record b).fault = none → (analyze cfg record b).aboutArms =
        (b.arms.filterMap (Arm.finding? cfg.dialect)).map Finding.diagnostic)) ∧
    (∀ l : Literal, l.word? = none ↔ .numberTooLarge ∈ cfg.dialect.literalProblems l ∨
      ∃ length greatest, .stringTooLong length greatest ∈ cfg.dialect.literalProblems l) ∧
    ((analyze cfg record b).fault = none → ∀ a ∈ b.arms, ∀ l, a.value = some l →
      ∀ p ∈ cfg.dialect.literalProblems l, ⟨p, l.span⟩ ∈ (analyze cfg record b).findings) ∧
    ((b.blocks.map Block.id).Nodup → (analyze cfg {} b).fault = none) := by
  obtain ⟨hbegins, hend⟩ := findings_doubled cfg record b
  refine ⟨fun l w => Literal.word?_eq_some_iff, fun hrecord hfault hsucceeded cases hcases => ?_,
    fun cases hcases i hi => ?_, ⟨?_, fun hfault => ?_⟩,
    fun l => Literal.word?_eq_none_iff cfg.dialect,
    fun hfault a ha l hl p hp => mem_findings_of_arm cfg hfault ha hl hp,
    (analyze_fault_eq_none_iff cfg b).mpr⟩
  · have hclean := (analyze_succeeded_iff cfg b).mp hsucceeded
    have hwell := (runBlock_decides_of_regular cfg hrecord.regular b (fault_of_ofRun hfault)).1.mp
      hclean
    obtain ⟨type, harms⟩ := Block.WellFormed.typed cfg hwell cases hcases
    exact ⟨fun l hl => Check.word?_isSome (harms.values l hl).1, harms.distinct, harms.default⟩
  · exact b.mem_arms_of_switch hcases (mem_armsOfCases [] cases i hi)
  · rw [aboutArms_eq]
    exact hbegins.map _
  · rw [aboutArms_eq, hend hfault]

/-- The code `{ switch calldataload(0) case 1 { } case 0x2 { } case "\x03" { } default { } }`. -/
def fourArms : Block where
  id := 0
  statements := [
    .switch (.call ⟨"calldataload", default⟩ [.literal ⟨.number "0", none, default⟩] default) [
      ⟨some ⟨.number "1", none, default⟩, ⟨1, [], default⟩, default⟩,
      ⟨some ⟨.number "0x2", none, default⟩, ⟨2, [], default⟩, default⟩,
      ⟨some ⟨.bytes [3], none, default⟩, ⟨3, [], default⟩, default⟩,
      ⟨none, ⟨4, [], default⟩, default⟩] default]
  span := default

/-- Its code is accepted, so its three cases have words of their own. -/
theorem fourArms_distinct : ∃ cases ∈ fourArms.switches, cases.length = 4 ∧
    ((cases.filterMap Case.value).map Literal.word?).Nodup ∧ cases.countP Case.isDefault ≤ 1 := by
  have hfault := (switches_exact {} {} fourArms).2.2.2.2.2.2 (by decide)
  have hsucceeded : (analyze {} {} fourArms).succeeded = true := by decide +kernel
  refine ⟨_, List.mem_singleton.mpr rfl, rfl, ?_⟩
  exact ((switches_exact {} {} fourArms).2.1 .new hfault hsucceeded _
    (List.mem_singleton.mpr rfl)).2

end Yul
