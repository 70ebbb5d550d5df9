import Yul.Proofs.Run.Local
import Yul.Proofs.Run.Walk

/-!
# Quiet parts of an analysis

Expressions are checked by quiet events alone: the look-ups, calls and reports change no scope and
no variable. What is checked besides the expressions of a statement means nothing for effects
either. A variable is reported as one that cannot be used yet only where it is found and cannot be
used, and no other problem says so.
-/

namespace Yul

theorem Problem.timely_of_isLocal {p : Problem} (h : p.isLocal = true) : p.isUntimely = false := by
  cases p with
  | usedBeforeDeclared x => exact nomatch h
  | _ => rfl

namespace Check

section Setting

variable (cfg : Setting) (scope : ScopeId)

/-! ## Quiet parts -/

theorem reportAll_silently {ps : List Problem} (hps : Local ps) (span : Span) :
    Silently scope (reportAll ps span) := by
  induction ps with
  | nil => exact .pure ()
  | cons p ps ih =>
    rw [local_cons] at hps
    exact .bind (.report p span (Problem.timely_of_isLocal hps.1)) fun _ => ih hps.2

theorem find_silently {α : Type} {name : Name} {k : Meaning → Check α}
    (hk : ∀ r : Run, Silent scope r ((k (meaning r.record.scopes scope name)).after r)) :
    Silently scope (findMeaning scope name >>= k) := by
  intro r
  have hlook : Silently scope (emit (.look scope name)) := .emit rfl rfl rfl
  exact (hlook r).trans (hk (r.take (.look scope name)))

theorem lookup_of_meaning {t : ScopeTable} {name : Name} {home : ScopeId} {type : Label}
    (h : meaning t scope name = .variable home type) :
    t.lookup scope name = some (home, .variable type) := by
  unfold meaning at h
  rcases hfound : t.lookup scope name with _ | ⟨home', symbol⟩
  · rw [hfound] at h
    exact Meaning.noConfusion h
  · rw [hfound] at h
    cases symbol with
    | «variable» type' =>
      obtain ⟨rfl, rfl⟩ := Meaning.variable.inj h
      rfl
    | function parameters returns => exact Meaning.noConfusion h

/-- A variable is reported as one that cannot be used only if it is found and cannot be used. -/
theorem checkActive_silent {r : Run} {home : ScopeId} {type : Label} {x : Identifier}
    (h : meaning r.record.scopes scope x.name = .variable home type) :
    Silent scope r ((checkActive home x).after r) := by
  show Silent scope r ((if r.active.contains ⟨home, x.name⟩ then pure ()
    else report (.usedBeforeDeclared x.name) x.span).after r)
  split
  · exact .refl
  · next hactive =>
    refine .single ⟨.report ⟨.usedBeforeDeclared x.name, x.span⟩, trivial, rfl, ?_, rfl⟩
    intro y span heq
    have hname : x.name = y := Problem.usedBeforeDeclared.inj
      (Finding.mk.inj (Event.report.inj heq)).1
    exact ⟨home, type, hname ▸ lookup_of_meaning scope h, by simpa [hname] using hactive⟩

theorem askOutside_silently (access : Access) : Silently scope (askOutside cfg access) := by
  obtain ⟨dialect, dataNames, resolver⟩ := cfg
  cases resolver with
  | none => exact .pure none
  | some resolve => exact .bind (.emit trivial rfl rfl) fun _ => .pure _

theorem oneValue_silently (values : Option (List Label)) (span : Span) :
    Silently scope (oneValue values span) := by
  rcases oneValue_cases values span with ⟨given, h⟩ | ⟨count, h⟩ <;> rw [h]
  · exact .pure given
  · exact .bind (.report _ span rfl) fun _ => .pure none

theorem checkValue_silently (expected given : Option Label) (span : Span) :
    Silently scope (checkValue expected given span) := by
  rcases checkValue_cases expected given span with h | ⟨type, type', h⟩ <;> rw [h]
  · exact .pure ()
  · exact reportAll_silently scope (Dialect.local_valueProblems type type') span

theorem outside_silently (access : Access) {p : Problem} (htimely : p.isUntimely = false)
    (span : Span) :
    Silently scope (do
      let type ← askOutside cfg access
      if type.isNone then report p span
      return type) := by
  refine .bind (askOutside_silently cfg scope access) fun type => ?_
  exact .ite (.bind (.report p span htimely) fun _ => .pure type) (.pure type)

theorem typeOfUse_silently (x : Identifier) (kind : AccessKind) {p q unknown : Problem}
    (hp : p.isUntimely = false) (hq : q.isUntimely = false) (hunknown : unknown.isUntimely = false) :
    Silently scope (typeOfUse cfg scope x kind p q unknown) := by
  refine find_silently scope fun r => ?_
  cases hmeaning : meaning r.record.scopes scope x.name with
  | «variable» home type => exact (checkActive_silent scope hmeaning).trans .refl
  | function f parameters returns =>
    exact Silently.bind (.report p x.span hp) (fun _ => .pure _) r
  | missing =>
    refine Silently.ite ?_ (outside_silently cfg scope _ hunknown _) r
    exact .bind (.report q x.span hq) fun _ => .pure _

theorem identifier_silently (x : Identifier) : Silently scope (identifier cfg scope x) :=
  typeOfUse_silently cfg scope x _ rfl rfl rfl

theorem findMeaning_quietly (name : Name) : Quietly scope (findMeaning scope name) :=
  .bind (.emit rfl rfl) fun _ => .bind .get fun _ => .pure _

theorem callee_quietly (f : Identifier) (builtin : Option Builtin) :
    Quietly scope (callee cfg scope f builtin) := by
  cases builtin with
  | some b =>
    have hproblems := reportAll_silently scope (cfg.dialect.local_builtinProblems b) f.span
    exact .bind hproblems.quietly fun _ => .bind (.emit trivial rfl) fun _ => .pure _
  | none =>
    refine .bind (findMeaning_quietly scope f.name) fun meaning => ?_
    cases meaning with
    | function id parameters returns => exact .bind (.emit trivial rfl) fun _ => .pure _
    | «variable» home type => exact .bind (.report .callOfVariable f.span rfl) fun _ => .pure none
    | missing => exact .bind (.report (.functionNotFound f.name) f.span rfl) fun _ => .pure none

theorem checkCount_silently (f : Identifier) (signature : Option Signature) (given : Nat) :
    Silently scope (checkCount f signature given) := by
  cases signature with
  | none => exact .pure ()
  | some s => exact .ite (.pure ()) (.report _ _ rfl)

theorem stringArgument_silently (kind : LiteralArgument) (argument : Expr) :
    Silently scope (stringArgument cfg kind argument) := by
  unfold stringArgument
  cases argument.string? with
  | none => exact .report _ _ rfl
  | some found =>
    obtain ⟨l, bytes⟩ := found
    have hlabel := cfg.dialect.local_writtenProblems l.type
    refine .bind (reportAll_silently scope hlabel l.span) fun _ => ?_
    exact .ite (.ite (.pure ()) (.report _ _ rfl)) (.pure ())

mutual

/-- Checking an expression changes no scope and no variable. -/
theorem expression_quietly (e : Expr) : Quietly scope (expression cfg scope e) := by
  match e with
  | .literal l =>
    have hproblems := reportAll_silently scope (cfg.dialect.local_literalProblems l) l.span
    exact .bind hproblems.quietly fun _ => .pure _
  | .identifier x => exact .bind (identifier_silently cfg scope x).quietly fun _ => .pure _
  | .call f args _ =>
    rw [expression]
    refine .bind (callee_quietly cfg scope f _) fun signature => ?_
    refine .bind (checkCount_silently scope f signature _).quietly fun _ => ?_
    exact .bind (arguments_quietly _ _ _ args) fun _ => .pure _

theorem arguments_quietly (builtin : Option Builtin) (expected : List Label) (index : Nat)
    (args : List Expr) : Quietly scope (arguments cfg scope builtin expected index args) := by
  match args with
  | [] => exact .pure ()
  | a :: rest =>
    have hrest := arguments_quietly builtin expected.tail (index + 1) rest
    rw [arguments]
    cases builtin.bind (·.literalArgument? index) with
    | some kind => exact .bind (stringArgument_silently cfg scope kind a).quietly fun _ => hrest
    | none =>
      refine .bind (expression_quietly a) fun values => ?_
      refine .bind (oneValue_silently scope values _).quietly fun given => ?_
      exact .bind (checkValue_silently scope _ given _).quietly fun _ => hrest

end

theorem valueOf_quietly (e : Expr) : Quietly scope (valueOf cfg scope e) :=
  .bind (expression_quietly cfg scope e) fun values => (oneValue_silently scope values _).quietly

theorem condition_quietly (e : Expr) : Quietly scope (condition cfg scope e) := by
  refine .bind (valueOf_quietly cfg scope e) fun type => ?_
  cases type with
  | some type => exact .ite (.pure ()) (.report _ _ rfl)
  | none => exact .pure ()

theorem declaredTypes_silently (xs : List TypedName) : Silently scope (declaredTypes cfg xs) := by
  induction xs with
  | nil => exact .pure []
  | cons x xs ih =>
    show Silently scope ((x :: xs).mapM _)
    rw [List.mapM_cons]
    refine .bind ?_ fun type => .bind ih fun types => .pure _
    have hlabel := cfg.dialect.local_writtenProblems x.type
    exact .bind (reportAll_silently scope hlabel x.span) fun _ => .pure _

theorem checkTargets_silently (seen : List Name) (xs : List Identifier) :
    Silently scope (checkTargets seen xs) := by
  induction xs generalizing seen with
  | nil => exact .pure ()
  | cons x xs ih =>
    exact .ite (.bind (.report _ _ rfl) fun _ => ih _) (ih _)

theorem targetType_silently (x : Identifier) : Silently scope (targetType cfg scope x) :=
  typeOfUse_silently cfg scope x _ rfl rfl rfl

theorem target_silently (x : Identifier) (given : Option Label) :
    Silently scope (target cfg scope x given) := by
  refine .bind (targetType_silently cfg scope x) fun declared => ?_
  match declared, given with
  | some declared, some given => exact .ite (.pure ()) (.report _ _ rfl)
  | some _, none | none, some _ | none, none => exact .pure ()

theorem valueAt_silently {given : Option (List Label)} {index : Nat}
    (h : ∀ types, given = some types → index < types.length) :
    Silently scope (valueAt given index) := by
  cases given with
  | none => exact .pure none
  | some types =>
    rw [valueAt, List.getElem?_eq_getElem (h types rfl)]
    exact .pure _

theorem targets_silently {given : Option (List Label)} {index : Nat} {xs : List Identifier}
    (h : ∀ types, given = some types → index + xs.length ≤ types.length) :
    Silently scope (targets cfg scope given index xs) := by
  induction xs generalizing index with
  | nil => exact .pure ()
  | cons x xs ih =>
    have hlen : ∀ types, given = some types → index + 1 + xs.length ≤ types.length := by
      intro types htypes
      have := h types htypes
      simp only [List.length_cons] at this
      omega
    refine .bind (valueAt_silently scope fun types htypes => ?_) fun value => ?_
    · have := hlen types htypes
      omega
    · exact .bind (target_silently cfg scope x value) fun _ => ih hlen

theorem assignment_quietly (xs : List Identifier) (value : Expr) (span : Span) :
    Quietly scope (assignment cfg scope xs value span) := by
  refine .bind (checkTargets_silently scope [] xs).quietly fun _ => ?_
  refine .bind (expression_quietly cfg scope value) fun types => ?_
  have hunknown : Quietly scope (targets cfg scope none 0 xs) :=
    (targets_silently cfg scope (by simp)).quietly
  cases types with
  | none => exact hunknown
  | some types =>
    dsimp only
    split
    · refine (targets_silently cfg scope fun given hgiven => ?_).quietly
      obtain rfl := Option.some.inj hgiven
      omega
    · exact .bind (.report _ _ rfl) fun _ => hunknown

theorem checkInitial_silently (xs : List TypedName) (declared given : List Label) :
    Silently scope (checkInitial xs declared given) := by
  induction xs generalizing declared given with
  | nil => exact .pure ()
  | cons x xs ih =>
    cases declared with
    | nil => exact .pure ()
    | cons d declared =>
      cases given with
      | nil => exact .pure ()
      | cons g given =>
        exact .ite (ih declared given) (.bind (.report _ _ rfl) fun _ => ih declared given)

theorem initialValue_quietly (xs : List TypedName) (types : List Label) (value : Option Expr)
    (span : Span) : Quietly scope (initialValue cfg scope xs types value span) := by
  cases value with
  | none => exact .pure ()
  | some value =>
    refine .bind (expression_quietly cfg scope value) fun given => ?_
    cases given with
    | none => exact .pure ()
    | some given =>
      exact .ite (checkInitial_silently scope xs types given).quietly (.report _ _ rfl)

theorem expressionStatement_quietly (e : Expr) :
    Quietly scope (expressionStatement cfg scope e) := by
  refine .bind (expression_quietly cfg scope e) fun types => ?_
  cases types with
  | some types => exact .ite (.pure ()) (.report _ _ rfl)
  | none => exact .pure ()

theorem loopJump_silently (ctx : Context) (jump : LoopJump) (span : Span) :
    Silently scope (loopJump ctx jump span) :=
  .ite (.pure ()) (.report _ _ rfl)

theorem caseValue_silently (subject : Option Label) (seen : List (Label × Word))
    (hasDefault : Bool) (value : Option Literal) (span : Span) :
    Silently scope (caseValue cfg subject seen hasDefault value span) := by
  cases value with
  | none => exact .ite (.report _ _ rfl) (.pure ())
  | some l => exact reportAll_silently scope (cfg.dialect.local_caseProblems _ _ l) l.span

end Setting

end Check

end Yul
