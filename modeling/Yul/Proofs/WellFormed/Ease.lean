import Yul.Proofs.WellFormed.Judgement

/-!
# Well-formed code among fewer names

Code stays well-formed where the same can be seen and no more names are taken
(`Block.WellFormed.ease`).
-/

namespace Yul

namespace Env

/-- What can be seen is the same, and no more names are taken. -/
structure Eases (env env' : Env) : Prop where
  visible : env'.visible = env.visible
  taken : env'.taken ⊆ env.taken

namespace Eases

variable {env env' : Env}

theorem declare (h : env.Eases env') (name : Name) (e : Entity) :
    (env.declare name e).Eases (env'.declare name e) where
  visible := by
    unfold Env.declare
    rw [h.visible]
  taken := List.cons_subset_cons name h.taken

theorem declareAll (h : env.Eases env') (names : List (Name × Entity)) :
    (env.declareAll names).Eases (env'.declareAll names) := by
  induction names generalizing env env' with
  | nil => exact h
  | cons entry names ih => exact ih (h.declare entry.1 entry.2)

theorem declarable (h : env.Eases env') {names : List (Name × Entity)}
    (hnames : env.Declarable names) : env'.Declarable names := by
  induction names generalizing env env' with
  | nil => trivial
  | cons entry names ih =>
    obtain ⟨⟨hallowed, hfree⟩, hrest⟩ := hnames
    exact ⟨⟨hallowed, fun hmem => hfree (h.taken hmem)⟩, ih (h.declare _ _) hrest⟩

theorem inFunction (h : env.Eases env') : env.inFunction.Eases env'.inFunction where
  visible := by
    unfold Env.inFunction
    rw [h.visible]
  taken := h.taken

theorem after (h : env.Eases env') (cfg : Setting) (s : Stmt) :
    (env.after cfg s).Eases (env'.after cfg s) := by
  cases s with
  | declaration xs _ _ => exact h.declareAll (variablesOf cfg xs)
  | _ => exact h

theorem foldl_after (h : env.Eases env') (cfg : Setting) (ss : List Stmt) :
    (ss.foldl (Env.after cfg) env).Eases (ss.foldl (Env.after cfg) env') := by
  induction ss generalizing env env' with
  | nil => exact h
  | cons s ss ih => exact ih (h.after cfg s)

end Eases

end Env

section Setting

variable {cfg : Setting} {env env' : Env}

theorem Refers.ease {kind : AccessKind} {x : Identifier} {type : Label}
    (h : Refers cfg env kind x type) (henv : env.Eases env') : Refers cfg env' kind x type := by
  cases h with
  | seen h => exact .seen (henv.visible ▸ h)
  | outside h hbuiltin htype => exact .outside (henv.visible ▸ h) hbuiltin htype

mutual

theorem Yields.ease {e : Expr} {types : List Label} (h : Yields cfg env e types)
    (henv : env.Eases env') : Yields cfg env' e types := by
  match h with
  | .literal h => exact .literal h
  | .identifier h => exact .identifier (h.ease henv)
  | .builtin hbuiltin hversion hargs => exact .builtin hbuiltin hversion (hargs.ease henv)
  | .function hbuiltin h hargs => exact .function hbuiltin (henv.visible ▸ h) (hargs.ease henv)

theorem Takes.ease {b : Option Builtin} {index : Nat} {types : List Label} {args : List Expr}
    (h : Takes cfg env b index types args) (henv : env.Eases env') :
    Takes cfg env' b index types args := by
  match h with
  | .nil => exact .nil
  | .string hkind ha hstring hrest => exact .string hkind ha hstring (hrest.ease henv)
  | .value hkind ha hrest => exact .value hkind (ha.ease henv) (hrest.ease henv)

end

mutual

theorem Stmt.WellFormed.ease {env env' : Env} {place : Place} {s : Stmt} (h : s.WellFormed cfg env place)
    (henv : env.Eases env') : s.WellFormed cfg env' place := by
  match s with
  | .expression e => exact Yields.ease h henv
  | .assignment xs value _ =>
    obtain ⟨hdistinct, types, htargets, hvalue⟩ := h
    exact ⟨hdistinct, types, htargets.imp fun _ _ hx => hx.ease henv, hvalue.ease henv⟩
  | .declaration xs value _ =>
    exact ⟨h.1, fun e he => (h.2.1 e he).ease henv, henv.declarable h.2.2⟩
  | .function f _ => exact ⟨h.1, h.2.ease henv⟩
  | .ifThen e body _ => exact ⟨h.1.ease henv, h.2.ease henv⟩
  | .switch subject arms _ =>
    obtain ⟨⟨type, hsubject, hmatch⟩, harms⟩ := h
    exact ⟨⟨type, hsubject.ease henv, hmatch⟩, WellFormedCases.ease harms henv⟩
  | .forLoop ⟨id, statements, _⟩ e post body _ =>
    have hstart := henv.declareAll (signaturesOf cfg id statements)
    have hinner := hstart.foldl_after cfg statements
    obtain ⟨⟨hlabels, hopens⟩, hstatements, hcondition, hbody, hpost⟩ := h
    exact ⟨⟨hlabels, henv.declarable hopens⟩, WellFormedStmts.ease hstatements hstart,
      hcondition.ease hinner, hbody.ease hinner, hpost.ease hinner⟩
  | .breakLoop _ | .continueLoop _ | .leave _ => exact h
  | .block b => exact Block.WellFormed.ease h henv

theorem FunctionDef.WellFormed.ease {env env' : Env} {f : FunctionDef}
    (h : f.WellFormed cfg env) (henv : env.Eases env') : f.WellFormed cfg env' := by
  match f with
  | ⟨_, parameters, returns, body⟩ =>
    exact ⟨henv.inFunction.declarable h.1, h.2.ease (henv.inFunction.declareAll _)⟩

/-- A block stays well-formed where the same can be seen and no more names are taken. -/
theorem Block.WellFormed.ease {env env' : Env} {place : Place} {b : Block}
    (h : b.WellFormed cfg env place) (henv : env.Eases env') : b.WellFormed cfg env' place := by
  match b with
  | ⟨id, statements, _⟩ =>
    exact ⟨⟨h.1.1, henv.declarable h.1.2⟩, WellFormedStmts.ease h.2 (henv.declareAll _)⟩

theorem WellFormedStmts.ease {env env' : Env} {place : Place} {ss : List Stmt}
    (h : WellFormedStmts cfg env place ss) (henv : env.Eases env') :
    WellFormedStmts cfg env' place ss := by
  match ss with
  | [] => trivial
  | s :: rest => exact ⟨h.1.ease henv, WellFormedStmts.ease h.2 (henv.after cfg s)⟩

theorem WellFormedCases.ease {env env' : Env} {place : Place} {arms : List Case}
    (h : WellFormedCases cfg env place arms) (henv : env.Eases env') :
    WellFormedCases cfg env' place arms := by
  match arms with
  | [] => trivial
  | ⟨_, _, _⟩ :: rest => exact ⟨h.1.ease henv, WellFormedCases.ease h.2 henv⟩

end

end Setting

end Yul
