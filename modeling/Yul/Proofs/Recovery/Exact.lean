import Yul.Proofs.Effects.Bounded
import Yul.Proofs.Placement.Exact
import Yul.Proofs.Recovery.Misfits
import Yul.Proofs.Scope.Rows
import Yul.Proofs.Visit.Exact

/-!
# Problems are neither hidden nor repeated

An expression yields values unless its head fails, whatever is wrong with its arguments. A head
that fails is reported once, and whatever the expression stands in passes over it: it goes on behind
the expression and says nothing about its values (`Check.PassesOver`). Inside the expression, all that
is said about values is about parts whose heads yield some. All of the code is visited all the same
(`recovery_exact`).
-/

namespace Yul

/-! ## States of an analysis -/

/-- A state that an analysis comes to, and a scope that is there. -/
def Run.Reached (cfg : Setting) (scope : Nat) (r : Run) : Prop :=
  ∃ (record : Record) (b : Block) (es : List Event), record.Served ∧
    es <+: (runBlock cfg record b).events ∧ r = ((Point.start record).after es).run ∧
    scope < r.record.scopes.size

/-- What holds of every point of a run. -/
structure Point.Sound (p : Point) : Prop where
  fault : p.run.fault = none
  regular : p.run.Regular
  stands : ∃ row, p.Stands row

theorem Point.Sound.innermost_lt {p : Point} (h : p.Sound) {scope : Nat}
    (hscope : p.innermost? = some scope) : scope < p.run.record.scopes.size := by
  obtain ⟨row, hrow⟩ := h.stands
  obtain ⟨s, outer, rfl⟩ := hrow.eq_cons hscope
  cases hrow.links with
  | cons hs => exact ScopeTable.lt_of_get? hs

theorem Point.Sound.take {p : Point} (h : p.Sound) {e : Event} (he : p.Happens e) :
    (p.take e).Sound := by
  obtain ⟨row, hrow⟩ := h.stands
  obtain ⟨row', hrow', -⟩ := hrow.step he
  have hfault : (p.run.take e).fault = none := Run.fault_take he.fault he.clash
  refine ⟨hfault, ?_, row', hrow'⟩
  cases he.fits with
  | quiet _ hquiet _ => exact h.regular.of_alike (hquiet.alike p.run)
  | declare => exact h.regular.declare hfault
  | enterBlock hparent =>
    exact h.regular.enterBlock (fun scope hscope => h.innermost_lt (hparent.trans hscope)) hfault
  | exitBlock => exact h.regular.of_record (Run.record_exitBlock hfault)
  | openParameters hparent => exact h.regular.openParameters (h.innermost_lt hparent) hfault
  | enterFunction => exact h.regular.of_record (Run.record_enterFunction hfault)
  | exitFunction => exact h.regular.of_record (Run.record_exitFunction hfault)

theorem Run.Reached.ready {cfg : Setting} {scope : Nat} {r : Run} (h : r.Reached cfg scope) :
    r.Ready scope := by
  obtain ⟨record, b, es, hrecord, hes, rfl, hscope⟩ := h
  have hstart : (Point.start record).Sound := ⟨rfl, hrecord.regular, [], .start record⟩
  have hsound : ((Point.start record).after es).Sound :=
    (goes_at_point cfg hes).invariant (fun _ _ hp he => hp.take he) hstart
  exact ⟨hsound.fault, hsound.regular, hscope⟩

theorem Run.Ready.quietEvents {scope : Nat} {r : Run} (h : r.Ready scope) {es : List Event}
    (hes : QuietEvents scope es) :
    (es.foldl Run.take r).Ready scope ∧ (es.foldl Run.take r).events = r.events ++ es := by
  induction es generalizing r with
  | nil => exact ⟨h, (List.append_nil _).symm⟩
  | cons e es ih =>
    obtain ⟨he, hes⟩ := List.forall_mem_cons.mp hes
    obtain ⟨hready, hevents⟩ := ih (h.quiet he) hes
    have htake : (r.take e).events = r.events ++ [e] := by
      rw [Run.take_eq (h.quiet he).fault]
      exact List.reverse_cons
    refine ⟨hready, ?_⟩
    rw [List.foldl_cons, hevents, htake, List.append_assoc]
    rfl

namespace Check

section Setting

variable (cfg : Setting) (scope : ScopeId)

/-! ## What stands around an expression -/

/-- Whatever an expression stands in does nothing about its values: it goes on as if the expression
were an end in itself. -/
structure PassesOver (r : Run) (e : Expr) : Prop where
  /-- an argument of a call, unless the builtin asks for a string there -/
  argument : ∀ (builtin : Option Builtin) (expected : List Label) (index : Nat) (rest : List Expr),
    builtin.bind (·.literalArgument? index) = none →
    (arguments cfg scope builtin expected index (e :: rest)).after r =
      (arguments cfg scope builtin expected.tail (index + 1) rest).after
        ((expression cfg scope e).after r)
  condition : (condition cfg scope e).after r = (expression cfg scope e).after r
  statement : (expressionStatement cfg scope e).after r = (expression cfg scope e).after r
  /-- the initial value of a declaration -/
  declaration : ∀ (xs : List TypedName) (span : Span),
    (declaration cfg scope xs (some e) span).after r =
      (declareVariables scope xs (cfg.dialect.declaredLabels xs)).after
        ((expression cfg scope e).after ((declaredTypes cfg xs).after r))
  /-- the value of an assignment -/
  assignment : ∀ (xs : List Identifier) (span : Span),
    (assignment cfg scope xs e span).after r =
      xs.foldl (fun r x => (targetType cfg scope x).after r)
        ((expression cfg scope e).after ((checkTargets [] xs).after r))
  /-- the subject of a switch, with which no label of a case is compared -/
  switch : ∀ (ctx : Context) (arms : List Case) (span : Span), ctx.scope = scope →
    (stmt cfg ctx (.switch e arms span)).after r =
      (cases cfg ctx none [] false arms).after
        (if arms.all Case.isDefault && arms.length = 1 then
          ((expression cfg scope e).after r).take (.report ⟨.onlyDefault, span⟩)
        else (expression cfg scope e).after r)

variable {cfg scope} {r : Run} {e : Expr}

theorem valueOf_of_none (h : (expression cfg scope e).value r = none) :
    (valueOf cfg scope e).value r = none ∧
      (valueOf cfg scope e).after r = (expression cfg scope e).after r := by
  simp [valueOf, h, oneValue]

theorem after_targets_none (xs : List Identifier) (index : Nat) (r : Run) :
    (targets cfg scope none index xs).after r =
      xs.foldl (fun r x => (targetType cfg scope x).after r) r := by
  have htarget (x : Identifier) (r : Run) :
      (target cfg scope x none).after r = (targetType cfg scope x).after r := by
    rw [target, after_bind]
    cases (targetType cfg scope x).value r <;> rfl
  induction xs generalizing index r with
  | nil => rfl
  | cons x xs ih =>
    rw [targets, after_bind, after_bind, ih, List.foldl_cons, ← htarget x r]
    rfl

/-- Before the same names an expression yields the same. -/
theorem value_eq_none_of_alike {r' : Run} (h : (expression cfg scope e).value r = none)
    (halike : r.Alike r') : (expression cfg scope e).value r' = none := by
  rw [value_expression_eq_none_iff] at h ⊢
  rwa [halike.record]

theorem PassesOver.of_none (h : (expression cfg scope e).value r = none) :
    PassesOver cfg scope r e := by
  obtain ⟨hvalue, hafter⟩ := valueOf_of_none h
  constructor
  case argument =>
    intro builtin expected index rest hkind
    have hgiven (expected : Option Label) : checkValue expected none e.span = pure () := by
      cases expected <;> rfl
    rw [arguments, hkind, after_bind, after_bind, h]
    simp only [oneValue, value_pure, after_pure, after_bind, hgiven]
  case condition =>
    rw [Check.condition, after_bind, hvalue]
    exact hafter
  case statement =>
    rw [expressionStatement, after_bind, h]
    rfl
  case declaration =>
    intro xs span
    have halike := (declaredTypes_silently cfg scope xs r).quiet.alike
    rw [Check.declaration, after_bind, value_declaredTypes, after_bind, initialValue, after_bind,
      value_eq_none_of_alike h halike]
    rfl
  case assignment =>
    intro xs span
    have halike := (checkTargets_silently scope [] xs r).quiet.alike
    rw [Check.assignment, after_bind, after_bind, value_eq_none_of_alike h halike]
    exact after_targets_none xs 0 _
  case switch =>
    rintro ctx arms span rfl
    rw [stmt, after_bind, hvalue, hafter]
    split <;> rfl

/-! ## Heads that fail -/

theorem after_arguments_nil (args : List Expr) (index : Nat) (r : Run) :
    (arguments cfg scope none [] index args).after r =
      args.foldl (fun r a => (valueOf cfg scope a).after r) r := by
  have hnothing (given : Option Label) (span : Span) : checkValue none given span = pure () := by
    cases given <;> rfl
  induction args generalizing index r with
  | nil => rfl
  | cons a rest ih =>
    rw [arguments, List.foldl_cons, ← ih (index + 1)]
    simp only [Option.bind_none, after_bind, List.head?_nil, hnothing, after_pure, List.tail_nil,
      valueOf]

/-- A head that fails is all that is reported before the arguments are visited. -/
theorem after_of_headFails {f : Finding} (h : e.HeadFails cfg r.record.scopes scope f) :
    ∃ es, QuietEvents scope es ∧ es.filterMap Event.finding? = [f] ∧
      (expression cfg scope e).after r =
        e.callArguments.foldl (fun r a => (valueOf cfg scope a).after r) (es.foldl Run.take r) := by
  have hall (es : List Event) : reported (fun _ => true) es = es.filterMap Event.finding? :=
    List.filter_eq_self.mpr fun _ _ => rfl
  match e with
  | .literal l => cases h
  | .identifier x =>
    obtain ⟨es, hes, hafter, hfs⟩ := identifier_reports (P := fun _ => true) h rfl r rfl
    exact ⟨es, hes, (hall es).symm.trans hfs, hafter⟩
  | .call g args span =>
    obtain ⟨hbuiltin, hreports⟩ := callee_reports (P := fun _ => true) h rfl
    obtain ⟨es, hes, hafter, hfs⟩ := hreports r rfl
    have hsignature : (callee cfg scope g none).value r = none := by
      have hvalue := value_of_headFails h
      rwa [value_call, hbuiltin, Option.map_eq_none_iff] at hvalue
    refine ⟨es, hes, (hall es).symm.trans hfs, ?_⟩
    rw [expression, hbuiltin, after_bind, hsignature, after_bind, after_bind, hafter]
    exact after_arguments_nil args 0 _

end Setting

/-! ## Expressions in states of an analysis -/

/-- What an expression is found to yield, in any state whatever. -/
structure Recovers (cfg : Setting) (scope : ScopeId) (r : Run) (e : Expr) : Prop where
  fails : (expression cfg scope e).value r = none ↔
    ∃ f, e.HeadFails cfg r.record.scopes scope f
  yields : ∀ types, (expression cfg scope e).value r = some types ↔
    e.HeadYields cfg r.record.scopes scope types
  failure : ∀ f, e.failure? cfg r.record.scopes scope = some f ↔
    e.HeadFails cfg r.record.scopes scope f
  passesOver : (expression cfg scope e).value r = none → PassesOver cfg scope r e

/-- What checking an expression adds to a run. -/
structure Visits (cfg : Setting) (scope : ScopeId) (r : Run) (e : Expr) : Prop where
  ready : ((expression cfg scope e).after r).Ready scope
  alike : r.Alike ((expression cfg scope e).after r)
  /-- a head that fails is reported first, and nothing else is until the arguments are visited -/
  once : ∀ f, e.HeadFails cfg r.record.scopes scope f → f.isError = true ∧
    ∃ es, (es.foldl Run.take r).events = r.events ++ es ∧ es.filterMap Event.finding? = [f] ∧
      (expression cfg scope e).after r =
        e.callArguments.foldl (fun r a => (valueOf cfg scope a).after r) (es.foldl Run.take r)
  /-- all parts are visited, and each whose head fails is reported once -/
  everywhere : ∃ es, ((expression cfg scope e).after r).events = r.events ++ es ∧
    es.filterMap Event.mark? = e.marks cfg ∧
    reported Problem.isOfHead es = e.parts.filterMap (Expr.failure? cfg r.record.scopes scope)
  /-- what is said about values is about those of a part whose head yields some -/
  misfits : ∃ es, ((expression cfg scope e).after r).events = r.events ++ es ∧
    ∀ f ∈ reported Problem.isMismatch es, MisfitIn cfg r.record.scopes scope e.parts f

theorem recovers (cfg : Setting) (scope : ScopeId) (r : Run) (e : Expr) :
    Recovers cfg scope r e where
  fails := value_expression_eq_none_iff
  yields _ := value_expression_eq_some_iff
  failure _ := Expr.failure?_eq_some_iff
  passesOver := .of_none

theorem visits (cfg : Setting) {scope : Nat} {r : Run} (h : r.Ready scope) (e : Expr) :
    Visits cfg scope r e where
  ready := by
    obtain ⟨es, hes, hafter, -⟩ := expression_reports cfg r.record.scopes scope e r rfl
    rw [hafter]
    exact (h.quietEvents hes).1
  alike := (expression_quietly cfg scope e r).alike
  once f hf := by
    obtain ⟨es, hes, hfinding, hafter⟩ := after_of_headFails hf
    exact ⟨hf.isError, es, (h.quietEvents hes).2, hfinding, hafter⟩
  everywhere := by
    obtain ⟨es, hes, hafter, hreported⟩ := expression_reports cfg r.record.scopes scope e r rfl
    obtain ⟨hready, hevents⟩ := h.quietEvents hes
    obtain ⟨es', halong, -, hend⟩ := (expression_marks cfg scope e).notes r trivial
    have hsame : es' = es := by
      refine List.append_cancel_left (halong.events.symm.trans ?_)
      rw [hafter, hevents]
    have hmarks := (hend (hafter ▸ hready.fault)).2
    rw [hsame, Run.notesOf_eq_filterMap] at hmarks
    exact ⟨es, hafter ▸ hevents, hmarks, hreported⟩
  misfits := by
    obtain ⟨es, hes, hafter, hall⟩ := expression_misfits cfg r.record.scopes scope e r rfl
    exact ⟨es, hafter ▸ (h.quietEvents hes).2, hall⟩

end Check

/-! ## Main result -/

/-- An expression yields the values that its head stands for, whatever is wrong with its arguments,
and is found to yield nothing if and only if its head fails. Then the head is reported once, as an
error, and whatever the expression stands in says nothing about its values. In every state that an
analysis comes to, all parts of an expression are visited, and mismatches are reported only of parts
whose heads yield values. All of the code is visited in an analysis without a fault. Code whose blocks
have numbers of their own is analyzed without one. -/
theorem recovery_exact (cfg : Setting) (scope : Nat) :
    (∀ r e, Check.Recovers cfg scope r e) ∧
    ((∀ r : Run, r.Reached cfg scope → r.Ready scope) ∧
      ∀ r : Run, r.Ready scope → ∀ e, Check.Visits cfg scope r e) ∧
    (∀ t, (∀ x, Check.Reports Problem.isMismatch t scope (Check.targetType cfg scope x) []) ∧
      ∀ seen hasDefault value span, Check.Reports Problem.isMismatch t scope
        (Check.caseValue cfg none seen hasDefault value span) []) ∧
    (∀ record b, (analyze cfg record b).fault = none →
      (runBlock cfg record b).events.filterMap Event.mark? = b.marks cfg ∧
        (analyze cfg record b).findings.filter (·.problem.isPlacement) =
          misplaced (b.placed [])) ∧
    ∀ b, (b.blocks.map Block.id).Nodup → (analyze cfg {} b).fault = none := by
  refine ⟨Check.recovers cfg scope, ⟨fun r => Run.Reached.ready, fun r => Check.visits cfg⟩,
    fun t => ⟨Check.targetType_lenient cfg t scope, Check.caseValue_lenient cfg t scope⟩,
    fun record b hfault => ⟨?_, (findings_placement cfg record b).2 hfault⟩,
    fun b => (analyze_fault_eq_none_iff cfg b).mpr⟩
  exact (runBlock_marks cfg record b).2 (fault_of_ofRun hfault)

/-- The code `{ pop(f(g, 1)) }`, where nothing is called `f` or `g`. -/
def popOfNothing : Block where
  id := 0
  statements := [.expression (.call ⟨"pop", default⟩ [.call ⟨"f", default⟩
    [.identifier ⟨"g", default⟩, .literal ⟨.number "1", none, default⟩] default] default)]
  span := default

/-- The call of `f` in this code. -/
def callOfNothing : Expr :=
  .call ⟨"f", default⟩
    [.identifier ⟨"g", default⟩, .literal ⟨.number "1", none, default⟩] default

/-- The state in which this code is visited. -/
def insidePop : Run :=
  ((Point.start {}).after [.enterBlock 0 none]).run

theorem callOfNothing_recovers : insidePop.Reached {} 0 ∧
    (Check.expression {} 0 callOfNothing).value insidePop = none ∧
    (∃ es, ((Check.expression {} 0 callOfNothing).after insidePop).events = insidePop.events ++ es ∧
      Check.reported Problem.isOfHead es =
        [⟨.functionNotFound "f", default⟩, ⟨.identifierNotFound "g", default⟩]) ∧
    (runBlock {} {} popOfNothing).events.filterMap Event.mark? = popOfNothing.marks {} := by
  obtain ⟨hrecovers, ⟨hready, hvisits⟩, -, hvisited, hfault⟩ := recovery_exact {} 0
  have hreached : insidePop.Reached {} 0 :=
    ⟨{}, popOfNothing, _, .new, by decide +kernel, rfl, by decide +kernel⟩
  have hfails : callOfNothing.HeadFails {} insidePop.record.scopes 0
      ⟨.functionNotFound "f", default⟩ := .callOfMissing (by decide +kernel) (by decide +kernel)
  obtain ⟨es, hevents, -, hreported⟩ := (hvisits _ (hready _ hreached) callOfNothing).everywhere
  have hparts : callOfNothing.parts.filterMap
      (Expr.failure? {} insidePop.record.scopes 0) =
        [⟨.functionNotFound "f", default⟩, ⟨.identifierNotFound "g", default⟩] := by decide +kernel
  exact ⟨hreached, (hrecovers insidePop callOfNothing).fails.mpr ⟨_, hfails⟩,
    ⟨es, hevents, hreported.trans hparts⟩, (hvisited {} popOfNothing (hfault _ (by decide))).1⟩

end Yul
