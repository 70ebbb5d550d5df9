import Yul.Proofs.Check.Labels
import Yul.Proofs.Check.Logic

/-!
# Checking expressions is exact

`expression_decides`: checking an expression finds an error unless the expression yields values, and
gives the labels of these values. The names that the expression uses are found as they are visible,
and what it does is what its tree says.
-/

namespace Yul

namespace Finding

theorem isError_eq_false (p : Problem) (span : Span) :
    (Finding.mk p span).isError = false ↔ p.severity ≠ .error := by
  simp [isError]

end Finding

namespace Check

section Setting

variable {α : Type} (cfg : Setting) {here : Option BlockId} {home : Homes} {env : Env} {scope : Nat}

/-- The specification of a part of an analysis that declares nothing. -/
abbrev DecidesIn (here : Option BlockId) (home : Homes) (env : Env) (scope : Nat) (m : Check α)
    (R : α → Prop) (a : Account FunctionKey) : Prop :=
  Decides (Models here home env scope) (Models here home env scope) m R a

/-! ## Reports and effects -/

theorem report_decides (p : Problem) (span : Span) :
    DecidesIn here home env scope (report p span) (fun _ => p.severity ≠ .error) {} where
  reaches := reaches_report p span
  decides r hr := by
    rw [← Finding.isError_eq_false p span]
    have htake := hr.quiet (e := .report ⟨p, span⟩) trivial
    constructor
    · intro hfault hclean
      have hfinding := ((Run.clean_take htake.ready.fault).mp hclean).2 ⟨p, span⟩ rfl
      exact ⟨hfinding, htake, .of_take rfl htake.ready.fault (.refl _)⟩
    · intro _ _ hclean hp
      refine ⟨(Run.clean_take htake.ready.fault).mpr ⟨hclean, ?_⟩, rfl⟩
      rintro _ ⟨⟩
      exact hp

theorem require_decides {b : Prop} [Decidable b] {p : Problem} (hp : p.severity = .error)
    (span : Span) :
    DecidesIn here home env scope (unless b do report p span) (fun _ => b) {} := by
  split
  · next h => exact Decides.done.congr fun _ => (iff_true_intro h).symm
  · next h => exact (report_decides _ _).congr fun _ => by simp [hp, h]

/-- What a part finds has to be `want`, and anything else that is found is reported. -/
theorem Decides.expect [DecidableEq α] {I : Run → Prop} {m : Check (Option α)}
    {f : Option α → Check Unit} {P : α → Prop} {want : α} {p : α → Problem} {span : Span}
    {a : Account FunctionKey}
    (hm : Decides I (Models here home env scope) m (fun o => ∃ x, o = some x ∧ P x) a)
    (hp : ∀ x, (p x).severity = .error) (hnone : f none = Pure.pure ())
    (hsome : ∀ x, f (some x) = unless x = want do report (p x) span) :
    Decides I (Models here home env scope) (m >>= f) (fun _ => P want) a := by
  refine .bind_of (S := fun o _ => o = some want) (b := {}) hm ?_ ?_ (fun _ => ?_)
    (Account.append_nil _).symm
  · intro o
    cases o with
    | none => exact hnone ▸ reaches_pure ()
    | some x =>
      rw [hsome]
      split
      · exact reaches_pure ()
      · exact reaches_report _ _
  · rintro _ ⟨x, rfl, -⟩
    rw [hsome]
    exact (require_decides (hp x) span).congr fun _ => Option.some_inj.symm
  · constructor
    · exact fun h => ⟨_, ⟨_, rfl, h⟩, rfl⟩
    · rintro ⟨_, ⟨_, rfl, h⟩, ⟨⟩⟩
      exact h

theorem reportAll_decides (ps : List Problem) (span : Span) :
    DecidesIn here home env scope (reportAll ps span) (fun _ => Harmless ps) {} := by
  induction ps with
  | nil => exact Decides.done.congr fun _ => by simp
  | cons p ps ih => exact .seq (report_decides p span) ih (fun _ => harmless_cons p ps) rfl

theorem effects_decides (e : SideEffects) :
    DecidesIn here home env scope (emit (.effects e)) (fun _ => True) (.ofActs [.effects e]) where
  reaches := reaches_emit _
  decides r hr := by
    have htake := hr.quiet (e := .effects e) trivial
    refine ⟨fun hfault _ => ⟨trivial, htake, .effects hfault⟩, fun _ _ hclean _ => ⟨?_, rfl⟩⟩
    exact (Run.clean_take htake.ready.fault).mpr ⟨hclean, fun _ h => absurd h (by simp [Event.finding?])⟩

/-! ## Names -/

/-- What a name is found to mean in a state, and what it stands for. -/
inductive Means (env : Env) (x : Name) (r : Run) : Meaning → Prop where
  | variable {s : ScopeId} {type : Label} (h : env.visible x = some (.variable type))
      (hactive : (s, x) ∈ r.active) : Means env x r (.variable s type)
  | function {s : ScopeId} {id : BlockId} {parameters returns : List Label}
      (h : env.visible x = some (.function id parameters returns))
      (hid : r.record.blockScopes[id]? = some s) :
      Means env x r (.function ⟨s, x⟩ parameters returns)
  | missing (h : env.visible x = none) : Means env x r .missing

theorem means_of_models {r : Run} (h : Models here home env scope r) (x : Name) :
    Means env x r (meaning r.record.scopes scope x) := by
  have hdenotes := h.visible x
  have htracked := h.tracked x
  rw [meaning]
  generalize r.record.scopes.lookup scope x = found at hdenotes htracked ⊢
  generalize hvisible : env.visible x = e at hdenotes
  cases hdenotes with
  | none => exact .missing hvisible
  | «variable» => exact .variable hvisible (htracked _ _ rfl)
  | function hid => exact .function hvisible hid

theorem find_decides {x : Name} {k : Meaning → Check α} {R : α → Prop} {a : Account FunctionKey}
    (hquiet : Quietly scope (findMeaning scope x >>= k))
    (hk : ∀ (r : Run) (meaning : Meaning), Models here home env scope r → Means env x r meaning →
      DecidesAt r (Models here home env scope) (k meaning) R a) :
    DecidesIn here home env scope (findMeaning scope x >>= k) R a where
  reaches := hquiet.reaches
  decides r hr := by
    have hlook := hr.quiet (e := .look scope x) rfl
    refine .of_take hlook.ready.fault (fun g hg => absurd hg (by simp [Event.finding?])) rfl
      (n := k (meaning (r.take (.look scope x)).record.scopes scope x)) rfl rfl ?_
    exact hk _ _ hlook (means_of_models hlook x)

theorem after_checkActive {r : Run} {s : ScopeId} {x : Identifier} (h : (s, x.name) ∈ r.active) :
    (checkActive s x).after r = r := by
  simp [checkActive, h]

theorem askOutside_decides (access : Access) :
    DecidesIn here home env scope (askOutside cfg access) (· = cfg.outsideType? access) {} where
  reaches := (askOutside_silently cfg scope access).quietly.reaches
  decides r hr := by
    unfold askOutside Setting.outsideType?
    cases cfg.resolver with
    | none => exact .of_eq rfl rfl hr
    | some resolve =>
      have hask := hr.quiet (e := .ask access) trivial
      exact .of_take hask.ready.fault (fun g hg => absurd hg (by simp [Event.finding?])) rfl
        (n := Pure.pure (resolve access)) rfl rfl (.of_eq rfl rfl hask)

theorem not_refers_function {kind : AccessKind} {x : Identifier} {type : Label} {id : BlockId}
    {parameters returns : List Label}
    (h : env.visible x.name = some (.function id parameters returns)) :
    ¬Refers cfg env kind x type := by
  rintro (h' | h') <;> exact absurd h (by simp [h'])

theorem not_refers_builtin {kind : AccessKind} {x : Identifier} {type : Label}
    (hnone : env.visible x.name = none) (hbuiltin : (Builtin.find? x.name).isSome = true) :
    ¬Refers cfg env kind x type := by
  rintro (h | ⟨-, h⟩)
  · exact absurd h (by simp [hnone])
  · exact absurd hbuiltin (by simp [h])

theorem outside_decides {kind : AccessKind} {x : Identifier} (h : env.visible x.name = none)
    (hbuiltin : Builtin.find? x.name = none) {p : Problem} (hp : p.severity = .error) :
    DecidesIn here home env scope
      (do
        let type ← askOutside cfg ⟨x.name, kind, x.span⟩
        if type.isNone then report p x.span
        return type)
      (fun o => ∃ type, o = some type ∧ Refers cfg env kind x type) {} := by
  refine .bind (S := fun type o => ∃ t, type = some t ∧ o = some t) (b := {})
    (askOutside_decides cfg ⟨x.name, kind, x.span⟩) (fun type => ?_) (fun o => ?_) rfl
  · cases type with
    | none => exact (Decides.error _ hp fun _ => .refl).congr fun o => by simp
    | some type => exact (Decides.pure (some type)).congr fun o => by simp
  · constructor
    · rintro ⟨type, rfl, hrefers⟩
      cases hrefers with
      | seen h' => exact absurd h' (by simp [h])
      | outside _ _ htype => exact ⟨_, htype.symm, type, rfl, rfl⟩
    · rintro ⟨_, htype, type, rfl, rfl⟩
      exact ⟨type, rfl, .outside h hbuiltin htype.symm⟩

theorem seen_decidesAt {r : Run} (hr : Models here home env scope r) {kind : AccessKind}
    {x : Identifier} {s : ScopeId} {type : Label} (h : env.visible x.name = some (.variable type))
    (hactive : (s, x.name) ∈ r.active) :
    DecidesAt r (Models here home env scope)
      (do
        checkActive s x
        return some type)
      (fun o => ∃ type, o = some type ∧ Refers cfg env kind x type) {} := by
  have hafter : (do checkActive s x; return some type : Check (Option Label)).after r = r :=
    after_checkActive hactive
  refine (DecidesAt.of_eq (x := some type) hafter rfl hr).congr fun o => ?_
  constructor
  · rintro rfl
    exact ⟨type, rfl, .seen h⟩
  · rintro ⟨type', rfl, hrefers⟩
    cases hrefers with
    | seen h' =>
      rw [h, Option.some.injEq, Entity.variable.injEq] at h'
      rw [h']
    | outside h' => exact absurd h (by simp [h'])

theorem typeOfUse_decides (x : Identifier) (kind : AccessKind) {p q unknown : Problem}
    (hquiet : Quietly scope (typeOfUse cfg scope x kind p q unknown)) (hp : p.severity = .error)
    (hq : q.severity = .error) (hunknown : unknown.severity = .error) :
    DecidesIn here home env scope (typeOfUse cfg scope x kind p q unknown)
      (fun o => ∃ type, o = some type ∧ Refers cfg env kind x type) {} := by
  refine find_decides hquiet fun r meaning hr hmeans => ?_
  cases hmeans with
  | «variable» h hactive => exact seen_decidesAt cfg hr h hactive
  | function h hid =>
    refine ((Decides.error _ hp fun _ => .refl).decides r hr).congr fun o => ?_
    exact iff_of_false id fun ⟨_, _, hrefers⟩ => not_refers_function cfg h hrefers
  | missing h =>
    dsimp only
    split
    · next hbuiltin =>
      refine ((Decides.error _ hq fun _ => .refl).decides r hr).congr fun o => ?_
      exact iff_of_false id fun ⟨_, _, hrefers⟩ => not_refers_builtin cfg h hbuiltin hrefers
    · next hbuiltin =>
      exact (outside_decides cfg h (Option.not_isSome_iff_eq_none.mp hbuiltin) hunknown).decides r hr

theorem identifier_decides (x : Identifier) :
    DecidesIn here home env scope (identifier cfg scope x)
      (fun o => ∃ type, o = some type ∧ Refers cfg env (readKind x.name) x type) {} :=
  typeOfUse_decides cfg x _ (identifier_silently cfg scope x).quietly rfl rfl rfl

/-! ## Calls -/

/-- What a call can be made of: a builtin of the version at hand, or a function that can be seen. -/
def Callable (env : Env) (f : Name) (builtin : Option Builtin) (s : Signature) : Prop :=
  match builtin with
  | some b =>
    (b.tooNewFor cfg.dialect.version = false ∧ b.tooOldFor cfg.dialect.version = false) ∧
      s = ⟨cfg.dialect.parameterTypes b, cfg.dialect.returnTypes b⟩
  | none => ∃ id, env.visible f = some (.function id s.parameters s.returns)

theorem call_decidesAt {r : Run} (hr : Models here home env scope r) {f : Name} {s : ScopeId}
    {id : BlockId} {parameters returns : List Label} (hid : r.record.blockScopes[id]? = some s) :
    DecidesAt r (Models here home env scope)
      (do emit (.call ⟨s, f⟩); return some ⟨parameters, returns⟩ : Check (Option Signature))
      (· = some ⟨parameters, returns⟩) (.ofActs [.call ⟨id, f⟩]) := by
  have htake := hr.quiet (e := .call ⟨s, f⟩) trivial
  have hdoes := Run.Does.call (f := ⟨s, f⟩) hid htake.ready.fault
  refine ⟨fun _ _ => ⟨rfl, htake, hdoes⟩, fun o _ hclean ho => ?_⟩
  refine ⟨(Run.clean_take htake.ready.fault).mpr ⟨hclean, fun _ h => ?_⟩, ho.symm⟩
  exact absurd h (by simp [Event.finding?])

theorem callee_decides (f : Identifier) :
    DecidesIn here home env scope (callee cfg scope f (Builtin.find? f.name))
      (fun o => ∃ s, o = some s ∧ Callable cfg env f.name (Builtin.find? f.name) s)
      (.ofActs (actsOfHead home f.name)) := by
  have hquietly := callee_quietly cfg scope f (Builtin.find? f.name)
  rw [actsOfHead]
  cases hbuiltin : Builtin.find? f.name with
  | some b =>
    refine .seq (reportAll_decides _ _) (.seq (effects_decides b.effects) (.pure _)
      (fun _ => Iff.rfl) rfl) (fun o => ?_) rfl
    rw [Dialect.harmless_builtinProblems]
    exact ⟨fun ⟨_, ho, hversion, hs⟩ => ⟨hversion, trivial, hs ▸ ho⟩,
      fun ⟨hversion, _, ho⟩ => ⟨_, ho, hversion, rfl⟩⟩
  | none =>
    rw [hbuiltin] at hquietly
    refine find_decides hquietly fun r meaning hr hmeans => ?_
    cases hmeans with
    | «variable» h hactive =>
      refine ((Decides.error _ rfl fun _ => .refl).decides r hr).congr fun o => ?_
      exact iff_of_false id fun ⟨_, _, id, h'⟩ => absurd h (by simp [h'])
    | @function s id parameters returns h hid =>
      rw [hr.homes _ _ _ _ h]
      refine (call_decidesAt hr hid).congr fun o => ?_
      constructor
      · exact fun ho => ⟨_, ho, id, h⟩
      · rintro ⟨⟨parameters', returns'⟩, rfl, id', h'⟩
        rw [h, Option.some.injEq, Entity.function.injEq] at h'
        rw [h'.2.1, h'.2.2]
    | missing h =>
      refine ((Decides.error _ rfl fun _ => .refl).decides r hr).congr fun o => ?_
      exact iff_of_false id fun ⟨_, _, id, h'⟩ => absurd h (by simp [h'])

theorem checkCount_decides (f : Identifier) (s : Signature) (given : Nat) :
    DecidesIn here home env scope (checkCount f (some s) given)
      (fun _ => s.parameters.length = given) {} := by
  unfold checkCount
  exact require_decides rfl f.span

theorem stringArgument_decides (kind : LiteralArgument) (a : Expr) :
    DecidesIn here home env scope (stringArgument cfg kind a)
      (fun _ => ∃ l bytes, a.string? = some (l, bytes) ∧ StringArgument cfg kind l bytes) {} := by
  unfold stringArgument
  split
  · next h => exact (report_decides _ _).congr fun _ => by simp [Problem.severity, h]
  · next l bytes h =>
    have hknown : DecidesIn here home env scope
        (if kind = .dataName then
          if cfg.dataNames.contains (Text.decodeLossy bytes) then Pure.pure ()
          else report (.unknownData (Text.decodeLossy bytes)) l.span
        else Pure.pure ())
        (fun _ => kind = .dataName → Text.decodeLossy bytes ∈ cfg.dataNames) {} := by
      split
      · next hkind =>
        split
        · next hmem => exact Decides.done.congr fun _ => by simpa [hkind] using hmem
        · next hmem =>
          refine (report_decides _ _).congr fun _ => ?_
          simpa [Problem.severity, hkind] using hmem
      · next hkind => exact Decides.done.congr fun _ => by simp [hkind]
    refine .seq (reportAll_decides _ _) hknown (fun _ => ?_) rfl
    rw [h, Dialect.harmless_writtenProblems]
    constructor
    · rintro ⟨_, _, heq, hlabel, hmem⟩
      obtain ⟨rfl, rfl⟩ := Prod.mk.inj (Option.some.inj heq)
      exact ⟨hlabel, hmem⟩
    · exact fun hknown => ⟨l, bytes, rfl, hknown.1, hknown.2⟩

theorem oneValue_decides (types : List Label) (span : Span) :
    DecidesIn here home env scope (oneValue (some types) span)
      (fun o => ∃ type, o = some type ∧ types = [type]) {} := by
  unfold oneValue
  split
  · next h => exact absurd h (by simp)
  · next type h =>
    obtain rfl := Option.some.inj h
    exact (Decides.pure (some type)).congr fun o => by simp
  · next types' hne h =>
    obtain rfl := Option.some.inj h
    refine (Decides.error _ rfl fun _ => .refl).congr fun o => iff_of_false id ?_
    rintro ⟨type, -, rfl⟩
    exact hne type rfl

theorem valueOf_decides_of {e : Expr} {a : Account FunctionKey}
    (h : DecidesIn here home env scope (expression cfg scope e)
      (fun o => ∃ types, o = some types ∧ Yields cfg env e types) a) (span : Span) :
    DecidesIn here home env scope (do oneValue (← expression cfg scope e) span)
      (fun o => ∃ type, o = some type ∧ Yields cfg env e [type]) a := by
  refine .bind_of (S := fun types o => ∃ type, o = some type ∧ types = some [type]) (b := {}) h
    (fun _ => (oneValue_silently scope _ _).quietly.reaches) ?_ ?_ (Account.append_nil a).symm
  · rintro _ ⟨types, rfl, -⟩
    exact (oneValue_decides types span).congr fun o => by simp
  · intro o
    constructor
    · rintro ⟨type, rfl, hyields⟩
      exact ⟨_, ⟨[type], rfl, hyields⟩, type, rfl, rfl⟩
    · rintro ⟨_, ⟨types, rfl, hyields⟩, type, rfl, htypes⟩
      obtain rfl := Option.some.inj htypes
      exact ⟨type, rfl, hyields⟩

theorem checkValue_decides (expected given : Label) (span : Span) :
    DecidesIn here home env scope (checkValue (some expected) (some given) span)
      (fun _ => expected = given) {} :=
  (reportAll_decides _ _).congr fun _ => Dialect.harmless_valueProblems expected given

theorem takes_string {b : Option Builtin} {index : Nat} {type : Label} {types : List Label}
    {e : Expr} {rest : List Expr} {kind : LiteralArgument}
    (hkind : b.bind (·.literalArgument? index) = some kind) :
    Takes cfg env b index (type :: types) (e :: rest) ↔
      (∃ l bytes, e.string? = some (l, bytes) ∧ StringArgument cfg kind l bytes) ∧
        Takes cfg env b (index + 1) types rest := by
  constructor
  · intro h
    cases h with
    | string hkind' he hstring hrest =>
      obtain rfl := Option.some.inj (hkind.symm.trans hkind')
      exact ⟨⟨_, _, he, hstring⟩, hrest⟩
    | value hnone => exact absurd (hkind.symm.trans hnone) (by simp)
  · exact fun ⟨⟨_, _, he, hstring⟩, hrest⟩ => .string hkind he hstring hrest

theorem takes_value {b : Option Builtin} {index : Nat} {type : Label} {types : List Label}
    {e : Expr} {rest : List Expr} (hkind : b.bind (·.literalArgument? index) = none) :
    Takes cfg env b index (type :: types) (e :: rest) ↔
      Yields cfg env e [type] ∧ Takes cfg env b (index + 1) types rest := by
  constructor
  · intro h
    cases h with
    | string hsome => exact absurd (hkind.symm.trans hsome) (by simp)
    | value _ he hrest => exact ⟨he, hrest⟩
  · exact fun ⟨he, hrest⟩ => .value hkind he hrest

theorem Takes.length_eq {b : Option Builtin} {index : Nat} {types : List Label} {args : List Expr}
    (h : Takes cfg env b index types args) : types.length = args.length := by
  induction args generalizing index types with
  | nil =>
    cases h
    rfl
  | cons e rest ih =>
    cases h with
    | string _ _ _ hrest => exact congrArg (· + 1) (ih hrest)
    | value _ _ hrest => exact congrArg (· + 1) (ih hrest)

/-- What the head and the arguments of a call have to be. -/
theorem yields_call_iff {f : Identifier} {args : List Expr} {span : Span} {types : List Label} :
    Yields cfg env (.call f args span) types ↔
      ∃ s, Callable cfg env f.name (Builtin.find? f.name) s ∧
        Takes cfg env (Builtin.find? f.name) 0 s.parameters args ∧ types = s.returns := by
  constructor
  · intro h
    cases h with
    | builtin hbuiltin hversion hargs =>
      rw [hbuiltin]
      exact ⟨⟨_, _⟩, ⟨hversion, rfl⟩, hargs, rfl⟩
    | @function _ id _ _ _ _ hbuiltin h hargs =>
      rw [hbuiltin]
      exact ⟨⟨_, _⟩, ⟨id, h⟩, hargs, rfl⟩
  · rintro ⟨⟨parameters, returns⟩, hcallable, hargs, rfl⟩
    cases hbuiltin : Builtin.find? f.name with
    | some b =>
      rw [hbuiltin] at hcallable hargs
      obtain ⟨hversion, hs⟩ := hcallable
      obtain ⟨rfl, rfl⟩ := Signature.mk.inj hs
      exact .builtin hbuiltin hversion hargs
    | none =>
      rw [hbuiltin] at hcallable hargs
      obtain ⟨id, h⟩ := hcallable
      exact .function hbuiltin h hargs

mutual

/-- Checking an expression finds an error unless the expression yields values. -/
theorem expression_decides (e : Expr) :
    DecidesIn here home env scope (expression cfg scope e)
      (fun o => ∃ types, o = some types ∧ Yields cfg env e types) (e.account home) := by
  match e with
  | .literal l =>
    refine .seq (reportAll_decides _ _) (.pure _) (fun o => ?_) rfl
    rw [Dialect.harmless_literalProblems, Dialect.literalType_eq]
    constructor
    · rintro ⟨types, rfl, hyields⟩
      cases hyields with
      | literal h => exact ⟨h, rfl⟩
    · rintro ⟨h, rfl⟩
      exact ⟨_, rfl, .literal h⟩
  | .identifier x =>
    refine .bind (identifier_decides cfg x) (fun type => .pure _) (fun o => ?_) rfl
    constructor
    · rintro ⟨types, rfl, hyields⟩
      cases hyields with
      | identifier h => exact ⟨_, ⟨_, rfl, h⟩, rfl⟩
    · rintro ⟨_, ⟨type, rfl, h⟩, rfl⟩
      exact ⟨[type], rfl, .identifier h⟩
  | .call f args span =>
    rw [expression]
    refine .bind_of (S := fun signature o => ∃ s, signature = some s ∧
        Takes cfg env (Builtin.find? f.name) 0 s.parameters args ∧ o = some s.returns)
      (b := .ofActs (actsOfArguments home args)) (callee_decides cfg f) ?_ ?_ (fun o => ?_) ?_
    · intro signature
      exact ((checkCount_silently scope f signature args.length).quietly.bind fun _ =>
        (arguments_quietly cfg scope _ _ _ args).bind fun _ => .pure _).reaches
    · rintro _ ⟨s, rfl, -⟩
      refine .seq_of (S := fun o => Takes cfg env (Builtin.find? f.name) 0 s.parameters args ∧
          o = some s.returns) (b := .ofActs (actsOfArguments home args))
        (checkCount_decides f s args.length) ?_ (fun hcount => ?_) (fun o => ?_) rfl
      · exact ((arguments_quietly cfg scope _ _ _ args).bind fun _ => .pure _).reaches
      · exact .seq (arguments_decides _ hcount 0) (.pure (some s.returns)) (fun _ => Iff.rfl)
          (Account.append_nil _).symm
      · constructor
        · rintro ⟨_, ⟨⟩, hargs, rfl⟩
          exact ⟨Takes.length_eq cfg hargs, hargs, rfl⟩
        · exact fun ⟨_, hargs, ho⟩ => ⟨s, rfl, hargs, ho⟩
    · simp only [yields_call_iff]
      constructor
      · rintro ⟨_, rfl, s, hcallable, hargs, rfl⟩
        exact ⟨_, ⟨s, rfl, hcallable⟩, s, rfl, hargs, rfl⟩
      · rintro ⟨_, ⟨s, rfl, hcallable⟩, _, ⟨⟩, hargs, rfl⟩
        exact ⟨_, rfl, s, hcallable, hargs, rfl⟩
    · rw [Expr.account, Expr.acts, Account.ofActs_append]

theorem arguments_decides (builtin : Option Builtin) {expected : List Label} {args : List Expr}
    (hcount : expected.length = args.length) (index : Nat) :
    DecidesIn here home env scope (arguments cfg scope builtin expected index args)
      (fun _ => Takes cfg env builtin index expected args) (.ofActs (actsOfArguments home args)) := by
  match args, expected with
  | [], [] => exact Decides.done.congr fun _ => iff_of_true trivial .nil
  | e :: rest, type :: types =>
    have hrest := arguments_decides builtin (Nat.succ.inj hcount) (index + 1)
    rw [arguments]
    split
    · next kind hkind =>
      refine (Decides.seq (stringArgument_decides cfg kind e) hrest
        (fun _ => takes_string cfg hkind) rfl).congr_account fun _ htakes => ?_
      obtain ⟨⟨l, bytes, hstring, -⟩, -⟩ := (takes_string cfg hkind).mp htakes
      rw [actsOfArguments, Expr.acts_of_string hstring, List.nil_append, Account.nil_append]
    · next hkind =>
      rw [← bind_assoc]
      refine .bind_of (S := fun given _ => given = some type ∧
          Takes cfg env builtin (index + 1) types rest) (b := .ofActs (actsOfArguments home rest))
        (valueOf_decides_of cfg (expression_decides e) e.span) ?_ ?_ (fun _ => ?_) ?_
      · intro given
        exact ((checkValue_silently scope _ given e.span).quietly.bind fun _ =>
          arguments_quietly cfg scope _ _ _ rest).reaches
      · rintro _ ⟨type', rfl, -⟩
        exact .seq (checkValue_decides type type' e.span) hrest (fun _ => by simp [eq_comm]) rfl
      · rw [takes_value cfg hkind]
        constructor
        · exact fun ⟨he, hrest⟩ => ⟨_, ⟨type, rfl, he⟩, rfl, hrest⟩
        · rintro ⟨_, ⟨_, rfl, he⟩, ⟨⟩, hrest⟩
          exact ⟨he, hrest⟩
      · rw [Expr.account, actsOfArguments, Account.ofActs_append]

end

theorem valueOf_decides (e : Expr) :
    DecidesIn here home env scope (valueOf cfg scope e)
      (fun o => ∃ type, o = some type ∧ Yields cfg env e [type]) (e.account home) :=
  valueOf_decides_of cfg (expression_decides cfg e) e.span

theorem condition_decides (e : Expr) :
    DecidesIn here home env scope (condition cfg scope e)
      (fun _ => Yields cfg env e [cfg.dialect.boolType]) (e.account home) := by
  exact .expect (valueOf_decides cfg e) (p := fun type => .conditionType cfg.dialect.boolType type)
    (fun _ => rfl) rfl fun _ => rfl

end Setting

end Check

end Yul
