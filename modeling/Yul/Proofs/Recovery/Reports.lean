import Yul.Proofs.Recovery.Heads
import Yul.Proofs.Visit.Exprs

/-!
# What is reported of heads

`Check.Reports P t scope m fs` says that, from any state with the scopes `t`, a part `m` of an analysis
takes quiet events only and that `fs` are the problems with `P` among those that it reports. The rules
of this logic join the lists as the parts are joined.

A head that fails is reported once, at any depth: the problems of heads that checking an expression
reports are those of the parts of the expression that are visited, in order
(`Check.expression_reports`). Where nothing is known about a value, nothing is said about whether it
fits (`Check.targetType_lenient`, `Check.caseValue_lenient`).
-/

namespace Yul

/-- Whether a problem is that the head of an expression stands for nothing that yields values. -/
def Problem.isOfHead : Problem → Bool
  | .functionNotCalled _ | .builtinNotCalled _ | .identifierNotFound _ | .callOfVariable
  | .functionNotFound _ => true
  | _ => false

/-- Whether a problem is that values do not fit where they stand: there are too few or too many of
them, or they have other labels. -/
def Problem.isMismatch : Problem → Bool
  | .unusedValues _ | .assignmentCount _ _ | .declarationCount _ _ | .notOneValue _
  | .argumentCount _ _ _ | .assignmentType _ _ | .initialType _ _ | .conditionType _ _
  | .valueType _ _ => true
  | _ => false

theorem Problem.isOfHead_of_isLocal {p : Problem} (h : p.isLocal = true) : p.isOfHead = false := by
  cases p <;> first | rfl | exact nomatch h

theorem Problem.isMismatch_of_isTold {p : Problem} (h : p.isTold = true) : p.isMismatch = false := by
  cases p <;> first | rfl | exact nomatch h

theorem Expr.HeadFails.isOfHead {cfg : Setting} {t : ScopeTable} {scope : ScopeId} {e : Expr}
    {f : Finding} (h : e.HeadFails cfg t scope f) : f.problem.isOfHead = true := by
  cases h <;> rfl

theorem Expr.HeadFails.isError {cfg : Setting} {t : ScopeTable} {scope : ScopeId} {e : Expr}
    {f : Finding} (h : e.HeadFails cfg t scope f) : f.isError = true := by
  cases h <;> rfl

/-! ## Quiet events one after the other -/

/-- Whether events are quiet. -/
def QuietEvents (scope : ScopeId) (es : List Event) : Prop :=
  ∀ e ∈ es, e.IsQuiet scope

theorem QuietEvents.alike {scope : ScopeId} {es : List Event} (h : QuietEvents scope es) (r : Run) :
    r.Alike (es.foldl Run.take r) := by
  induction es generalizing r with
  | nil => exact .refl r
  | cons e es ih =>
    obtain ⟨he, hes⟩ := List.forall_mem_cons.mp h
    exact (he.alike r).trans (ih hes _)

namespace Check

variable {α β : Type}

/-- The problems with `P` among those that events report. -/
def reported (P : Problem → Bool) (es : List Event) : List Finding :=
  (es.filterMap Event.finding?).filter (P ·.problem)

theorem reported_append (P : Problem → Bool) (es es' : List Event) :
    reported P (es ++ es') = reported P es ++ reported P es' := by
  rw [reported, List.filterMap_append, List.filter_append]
  rfl

/-- From any state with the scopes `t`, a part of an analysis takes quiet events only, and `fs` are
the problems with `P` among those that it reports. -/
def Reports (P : Problem → Bool) (t : ScopeTable) (scope : ScopeId) (m : Check α)
    (fs : List Finding) : Prop :=
  ∀ r : Run, r.record.scopes = t → ∃ es, QuietEvents scope es ∧ m.after r = es.foldl Run.take r ∧
    reported P es = fs

section Rules

variable {P : Problem → Bool} {t : ScopeTable} {scope : ScopeId} {fs fs' : List Finding}

theorem Reports.pure (a : α) : Reports P t scope (pure a : Check α) [] :=
  fun _ _ => ⟨[], List.forall_mem_nil _, rfl, rfl⟩

theorem Reports.bind_value {m : Check α} {f : α → Check β} (hm : Reports P t scope m fs)
    (hf : ∀ r : Run, r.record.scopes = t → Reports P t scope (f (m.value r)) fs') :
    Reports P t scope (m >>= f) (fs ++ fs') := by
  intro r hr
  obtain ⟨es, hes, hafter, hfs⟩ := hm r hr
  have hr' : (m.after r).record.scopes = t := by
    rw [hafter, (hes.alike r).record, hr]
  obtain ⟨es', hes', hafter', hfs'⟩ := hf r hr _ hr'
  refine ⟨es ++ es', List.forall_mem_append.mpr ⟨hes, hes'⟩, ?_, ?_⟩
  · rw [after_bind, hafter', hafter, List.foldl_append]
  · rw [reported_append, hfs, hfs']

theorem Reports.bind {m : Check α} {f : α → Check β} (hm : Reports P t scope m fs)
    (hf : ∀ a, Reports P t scope (f a) fs') : Reports P t scope (m >>= f) (fs ++ fs') :=
  hm.bind_value fun _ _ => hf _

theorem Reports.silent_bind {m : Check α} {f : α → Check β} (hm : Reports P t scope m [])
    (hf : ∀ a, Reports P t scope (f a) fs) : Reports P t scope (m >>= f) fs :=
  hm.bind hf

theorem Reports.bind_silent {m : Check α} {f : α → Check β} (hm : Reports P t scope m fs)
    (hf : ∀ a, Reports P t scope (f a) []) : Reports P t scope (m >>= f) fs :=
  List.append_nil fs ▸ hm.bind hf

theorem Reports.ite {c : Prop} [Decidable c] {m m' : Check α} (hm : Reports P t scope m fs)
    (hm' : Reports P t scope m' fs) : Reports P t scope (if c then m else m') fs := by
  split
  · exact hm
  · exact hm'

theorem Reports.emit {e : Event} (he : e.IsQuiet scope) (hfinding : e.finding? = none) :
    Reports P t scope (emit e) [] :=
  fun _ _ => ⟨[e], List.forall_mem_singleton.mpr he, rfl, by simp [reported, hfinding]⟩

theorem Reports.get : Reports P t scope (get : Check Run) [] :=
  fun _ _ => ⟨[], List.forall_mem_nil _, rfl, rfl⟩

theorem Reports.report {p : Problem} (h : P p = true) (span : Span) :
    Reports P t scope (report p span) [⟨p, span⟩] :=
  fun _ _ => ⟨[.report ⟨p, span⟩], List.forall_mem_singleton.mpr trivial, rfl,
    by simp [reported, Event.finding?, h]⟩

theorem Reports.report_other {p : Problem} (h : P p = false) (span : Span) :
    Reports P t scope (Check.report p span) [] :=
  fun _ _ => ⟨[.report ⟨p, span⟩], List.forall_mem_singleton.mpr trivial, rfl,
    by simp [reported, Event.finding?, h]⟩

theorem Reports.refuse {p : Problem} (h : P p = false) (span : Span) (a : α) :
    Reports P t scope (do Check.report p span; return a) [] :=
  (report_other h span).silent_bind fun _ => .pure a

theorem Reports.reportAll {ps : List Problem} (h : ∀ p ∈ ps, P p = false) (span : Span) :
    Reports P t scope (reportAll ps span) [] := by
  induction ps with
  | nil => exact .pure _
  | cons p ps ih =>
    obtain ⟨hp, hps⟩ := List.forall_mem_cons.mp h
    exact (report_other hp span).silent_bind fun _ => ih hps

theorem Reports.find {name : Name} {k : Meaning → Check α}
    (hk : Reports P t scope (k (meaning t scope name)) fs) :
    Reports P t scope (findMeaning scope name >>= k) fs := by
  have hfind : Reports P t scope (findMeaning scope name) [] :=
    (emit (e := .look scope name) rfl rfl).silent_bind fun _ => get.silent_bind fun _ => .pure _
  refine hfind.bind_value fun r hr => ?_
  rwa [value_findMeaning, hr]

theorem Reports.askOutside {cfg : Setting} {a : Access} {k : Option Label → Check α}
    (hk : Reports P t scope (k (cfg.outsideType? a)) fs) :
    Reports P t scope (Check.askOutside cfg a >>= k) fs := by
  have hask : Reports P t scope (Check.askOutside cfg a) [] := by
    unfold Check.askOutside
    cases cfg.resolver with
    | none => exact .pure _
    | some resolve => exact (emit (e := .ask a) trivial rfl).silent_bind fun _ => .pure _
  refine hask.bind_value fun r _ => ?_
  rwa [value_askOutside]

theorem Reports.checkActive (h : ∀ name, P (.usedBeforeDeclared name) = false) (home : ScopeId)
    (x : Identifier) : Reports P t scope (checkActive home x) [] :=
  get.silent_bind fun _ => .ite (.pure _) (report_other (h _) _)

end Rules

/-- No local problem is one of a head. -/
theorem local_clear {t : ScopeTable} {scope : ScopeId} {ps : List Problem} (h : Local ps)
    (span : Span) : Reports Problem.isOfHead t scope (reportAll ps span) [] :=
  .reportAll (fun p hp => Problem.isOfHead_of_isLocal (h p hp)) span

theorem Reports.told {t : ScopeTable} {scope : ScopeId} {ps : List Problem} (h : Told ps)
    (span : Span) : Reports Problem.isMismatch t scope (Check.reportAll ps span) [] :=
  .reportAll (fun p hp => Problem.isMismatch_of_isTold (h p hp).1) span

/-! ## Heads -/

section Setting

variable {P : Problem → Bool} {cfg : Setting} {t : ScopeTable} {scope : ScopeId}

theorem identifier_reports {x : Identifier} {f : Finding}
    (h : (Expr.identifier x).HeadFails cfg t scope f) (hP : P f.problem = true) :
    Reports P t scope (identifier cfg scope x) [f] := by
  refine .find ?_
  cases h with
  | function h =>
    rw [meaning_function t scope h]
    exact (Reports.report hP x.span).bind_silent fun _ => .pure _
  | builtin h hbuiltin =>
    rw [meaning_missing t scope h]
    simp only [hbuiltin, if_true]
    exact (Reports.report hP x.span).bind_silent fun _ => .pure _
  | refused h hbuiltin htype =>
    rw [meaning_missing t scope h]
    simp only [hbuiltin, Option.isSome_none, Bool.false_eq_true, if_false]
    refine .askOutside ?_
    rw [htype]
    exact (Reports.report hP x.span).bind_silent fun _ => .pure _

theorem callee_reports {f : Identifier} {args : List Expr} {span : Span} {finding : Finding}
    (h : (Expr.call f args span).HeadFails cfg t scope finding) (hP : P finding.problem = true) :
    Builtin.find? f.name = none ∧ Reports P t scope (callee cfg scope f none) [finding] := by
  cases h with
  | callOfVariable hbuiltin h =>
    refine ⟨hbuiltin, .find ?_⟩
    rw [meaning_variable t scope h]
    exact (Reports.report hP f.span).bind_silent fun _ => .pure _
  | callOfMissing hbuiltin h =>
    refine ⟨hbuiltin, .find ?_⟩
    rw [meaning_missing t scope h]
    exact (Reports.report hP f.span).bind_silent fun _ => .pure _

theorem identifier_clear {x : Identifier} {types : List Label}
    (h : (Expr.identifier x).HeadYields cfg t scope types) :
    Reports Problem.isOfHead t scope (identifier cfg scope x) [] := by
  refine .find ?_
  cases h with
  | «variable» h =>
    rw [meaning_variable t scope h]
    exact (Reports.checkActive (fun _ => rfl) _ x).silent_bind fun _ => .pure _
  | outside h hbuiltin htype =>
    rw [meaning_missing t scope h]
    simp only [hbuiltin, Option.isSome_none, Bool.false_eq_true, if_false]
    refine .askOutside ?_
    rw [htype]
    exact .pure _

theorem callee_clear {f : Identifier} {args : List Expr} {span : Span} {types : List Label}
    (h : (Expr.call f args span).HeadYields cfg t scope types) :
    Reports Problem.isOfHead t scope (callee cfg scope f (Builtin.find? f.name)) [] := by
  cases h with
  | @builtin f b args span h =>
    rw [h]
    refine (local_clear (cfg.dialect.local_builtinProblems b) f.span).silent_bind fun _ => ?_
    exact (Reports.emit (e := .effects b.effects) trivial rfl).silent_bind fun _ => .pure _
  | function hbuiltin h =>
    rw [hbuiltin]
    refine .find ?_
    rw [meaning_function t scope h]
    exact (Reports.emit (e := .call _) trivial rfl).silent_bind fun _ => .pure _

theorem failure_identifier_reports (x : Identifier) :
    Reports Problem.isOfHead t scope (identifier cfg scope x)
      ((Expr.identifier x).failure? cfg t scope).toList := by
  rcases (Expr.identifier x).headYields_or_headFails cfg t scope with ⟨types, h⟩ | ⟨f, h⟩
  · rw [h.failure?_eq]
    exact identifier_clear h
  · rw [h.failure?_eq]
    exact identifier_reports h h.isOfHead

theorem failure_callee_reports (f : Identifier) (args : List Expr) (span : Span) :
    Reports Problem.isOfHead t scope (callee cfg scope f (Builtin.find? f.name))
      ((Expr.call f args span).failure? cfg t scope).toList := by
  rcases (Expr.call f args span).headYields_or_headFails cfg t scope with ⟨types, h⟩ | ⟨finding, h⟩
  · rw [h.failure?_eq]
    exact callee_clear h
  · obtain ⟨hbuiltin, hreports⟩ := callee_reports h h.isOfHead
    rw [h.failure?_eq, hbuiltin]
    exact hreports

end Setting

/-! ## Whole expressions -/

theorem oneValue_clear {t : ScopeTable} {scope : ScopeId} (values : Option (List Label))
    (span : Span) : Reports Problem.isOfHead t scope (oneValue values span) [] := by
  rcases oneValue_cases values span with ⟨given, h⟩ | ⟨count, h⟩ <;> rw [h]
  · exact .pure given
  · exact .refuse rfl span none

theorem checkValue_clear {t : ScopeTable} {scope : ScopeId} (expected given : Option Label)
    (span : Span) : Reports Problem.isOfHead t scope (checkValue expected given span) [] := by
  rcases checkValue_cases expected given span with h | ⟨type, type', h⟩ <;> rw [h]
  · exact .pure ()
  · exact local_clear (Dialect.local_valueProblems type type') span

theorem checkCount_clear {t : ScopeTable} {scope : ScopeId} (f : Identifier)
    (signature : Option Signature) (given : Nat) :
    Reports Problem.isOfHead t scope (checkCount f signature given) [] := by
  cases signature with
  | none => exact .pure _
  | some s => exact .ite (.pure _) (.report_other rfl _)

section Setting

variable (cfg : Setting)

theorem stringArgument_clear {t : ScopeTable} {scope : ScopeId} (kind : LiteralArgument)
    (argument : Expr) : Reports Problem.isOfHead t scope (stringArgument cfg kind argument) [] := by
  unfold stringArgument
  split
  · exact .report_other rfl _
  · refine (local_clear (cfg.dialect.local_writtenProblems _) _).silent_bind fun _ => ?_
    exact .ite (.ite (.pure _) (.report_other rfl _)) (.pure _)

end Setting

end Check

mutual

/-- The parts of an expression that are visited, the expression itself first. An argument that has to
be a string is none of them. -/
def Expr.parts : Expr → List Expr
  | .literal l => [.literal l]
  | .identifier x => [.identifier x]
  | .call f args span => .call f args span :: partsOfArguments (Builtin.find? f.name) 0 args

/-- The parts of the arguments of a call from `index` on. -/
def partsOfArguments (builtin : Option Builtin) (index : Nat) : List Expr → List Expr
  | [] => []
  | a :: rest =>
    (if (builtin.bind (·.literalArgument? index)).isSome then [] else a.parts) ++
      partsOfArguments builtin (index + 1) rest

end

namespace Check

section Setting

variable (cfg : Setting) (t : ScopeTable) (scope : ScopeId)

mutual

/-- Each part of an expression whose head fails is reported once, whatever stands around it, and no
other part is. -/
theorem expression_reports (e : Expr) :
    Reports Problem.isOfHead t scope (expression cfg scope e)
      (e.parts.filterMap (Expr.failure? cfg t scope)) := by
  match e with
  | .literal l =>
    exact (local_clear (cfg.dialect.local_literalProblems l) l.span).silent_bind fun _ => .pure _
  | .identifier x =>
    have hparts : (Expr.identifier x).parts.filterMap (Expr.failure? cfg t scope) =
        ((Expr.identifier x).failure? cfg t scope).toList := by
      rw [Expr.parts, List.filterMap_cons]
      cases (Expr.identifier x).failure? cfg t scope <;> rfl
    rw [hparts]
    exact (failure_identifier_reports x).bind_silent fun _ => .pure _
  | .call f args span =>
    have hparts : (Expr.call f args span).parts.filterMap (Expr.failure? cfg t scope) =
        ((Expr.call f args span).failure? cfg t scope).toList ++
          (partsOfArguments (Builtin.find? f.name) 0 args).filterMap (Expr.failure? cfg t scope) := by
      rw [Expr.parts, List.filterMap_cons]
      cases (Expr.call f args span).failure? cfg t scope <;> rfl
    rw [hparts, expression]
    refine (failure_callee_reports f args span).bind fun signature => ?_
    refine (checkCount_clear f signature _).silent_bind fun _ => ?_
    exact (arguments_reports _ _ 0 args).bind_silent fun _ => .pure _

theorem arguments_reports (builtin : Option Builtin) (expected : List Label) (index : Nat)
    (args : List Expr) :
    Reports Problem.isOfHead t scope (arguments cfg scope builtin expected index args)
      ((partsOfArguments builtin index args).filterMap (Expr.failure? cfg t scope)) := by
  match args with
  | [] => exact .pure _
  | a :: rest =>
    have hrest := arguments_reports builtin expected.tail (index + 1) rest
    rw [arguments, partsOfArguments, List.filterMap_append]
    cases builtin.bind (·.literalArgument? index) with
    | some kind => exact (stringArgument_clear cfg kind a).bind fun _ => hrest
    | none =>
      refine (expression_reports a).bind fun values => ?_
      refine (oneValue_clear values _).silent_bind fun given => ?_
      exact (checkValue_clear _ given _).silent_bind fun _ => hrest

end

/-! ## Nothing about values that are not known -/

theorem outside_lenient (a : Access) {p : Problem} (hp : p.isMismatch = false) (span : Span) :
    Reports Problem.isMismatch t scope (do
      let type ← askOutside cfg a
      if type.isNone then report p span
      return type) [] :=
  .askOutside (.ite (.refuse hp span _) (.pure _))

theorem typeOfUse_lenient (x : Identifier) (kind : AccessKind) {p q unknown : Problem}
    (hp : p.isMismatch = false) (hq : q.isMismatch = false) (hunknown : unknown.isMismatch = false) :
    Reports Problem.isMismatch t scope (typeOfUse cfg scope x kind p q unknown) [] := by
  refine .find ?_
  cases meaning t scope x.name with
  | «variable» home type =>
    exact (Reports.checkActive (fun _ => rfl) home x).silent_bind fun _ => .pure _
  | function => exact .refuse hp x.span none
  | missing => exact .ite (.refuse hq x.span none) (outside_lenient cfg t scope _ hunknown x.span)

theorem targetType_lenient (x : Identifier) :
    Reports Problem.isMismatch t scope (targetType cfg scope x) [] :=
  typeOfUse_lenient cfg t scope x _ rfl rfl rfl

theorem caseValue_lenient (seen : List (Label × Word)) (hasDefault : Bool) (value : Option Literal)
    (span : Span) :
    Reports Problem.isMismatch t scope (caseValue cfg none seen hasDefault value span) [] := by
  cases value with
  | none => exact .ite (.report_other rfl _) (.pure _)
  | some l =>
    refine .reportAll (fun p hp => ?_) l.span
    simp only [Dialect.caseProblems, Option.map_none, Option.getD_none, List.append_nil,
      List.mem_append] at hp
    rcases hp with hp | hp
    · exact Problem.isMismatch_of_isTold (cfg.dialect.told_literalProblems l p hp).1
    · split at hp
      · split at hp
        · rw [List.mem_singleton.mp hp]
          rfl
        · exact absurd hp List.not_mem_nil
      · exact absurd hp List.not_mem_nil

end Setting

end Check

end Yul
