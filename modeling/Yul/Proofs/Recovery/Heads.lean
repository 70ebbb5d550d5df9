import Yul.Proofs.Check.Labels
import Yul.Proofs.Run.Quiet

/-!
# Heads of expressions

The head of an expression alone decides which values the expression yields: a literal, a name that is
read, or the name that is called. `Expr.HeadYields` gives the labels of the values as they are
declared, `Expr.HeadFails` the problem of a head that stands for nothing that yields values. One of
them holds of every expression (`Expr.headYields_or_headFails`), and checking the expression gives the
labels or nothing accordingly (`Check.value_expression_eq_some_iff`,
`Check.value_expression_eq_none_iff`), whatever is wrong with the arguments.
-/

namespace Yul

section Setting

variable (cfg : Setting) (t : ScopeTable) (scope : ScopeId)

namespace Expr

/-- Values with the given labels are what the head of an expression stands for. -/
inductive HeadYields : Expr → List Label → Prop where
  | literal {l : Literal} : HeadYields (.literal l) [l.label cfg.dialect]
  | variable {x : Identifier} {home : ScopeId} {type : Label}
      (h : t.lookup scope x.name = some (home, .variable type)) : HeadYields (.identifier x) [type]
  | outside {x : Identifier} {type : Label} (h : t.lookup scope x.name = none)
      (hbuiltin : Builtin.find? x.name = none)
      (htype : cfg.outsideType? ⟨x.name, Check.readKind x.name, x.span⟩ = some type) :
      HeadYields (.identifier x) [type]
  | builtin {f : Identifier} {b : Builtin} {args : List Expr} {span : Span}
      (h : Builtin.find? f.name = some b) :
      HeadYields (.call f args span) (cfg.dialect.returnTypes b)
  | function {f : Identifier} {home : ScopeId} {parameters returns : List Label} {args : List Expr}
      {span : Span} (hbuiltin : Builtin.find? f.name = none)
      (h : t.lookup scope f.name = some (home, .function parameters returns)) :
      HeadYields (.call f args span) returns

/-- The head of an expression stands for nothing that yields values, which is the given problem. -/
inductive HeadFails : Expr → Finding → Prop where
  | function {x : Identifier} {home : ScopeId} {parameters returns : List Label}
      (h : t.lookup scope x.name = some (home, .function parameters returns)) :
      HeadFails (.identifier x) ⟨.functionNotCalled x.name, x.span⟩
  | builtin {x : Identifier} (h : t.lookup scope x.name = none)
      (hbuiltin : (Builtin.find? x.name).isSome) :
      HeadFails (.identifier x) ⟨.builtinNotCalled x.name, x.span⟩
  | refused {x : Identifier} (h : t.lookup scope x.name = none)
      (hbuiltin : Builtin.find? x.name = none)
      (htype : cfg.outsideType? ⟨x.name, Check.readKind x.name, x.span⟩ = none) :
      HeadFails (.identifier x) ⟨.identifierNotFound x.name, x.span⟩
  | callOfVariable {f : Identifier} {home : ScopeId} {type : Label} {args : List Expr} {span : Span}
      (hbuiltin : Builtin.find? f.name = none)
      (h : t.lookup scope f.name = some (home, .variable type)) :
      HeadFails (.call f args span) ⟨.callOfVariable, f.span⟩
  | callOfMissing {f : Identifier} {args : List Expr} {span : Span}
      (hbuiltin : Builtin.find? f.name = none) (h : t.lookup scope f.name = none) :
      HeadFails (.call f args span) ⟨.functionNotFound f.name, f.span⟩

theorem headYields_or_headFails (e : Expr) :
    (∃ types, e.HeadYields cfg t scope types) ∨ ∃ f, e.HeadFails cfg t scope f := by
  cases e with
  | literal l => exact .inl ⟨_, .literal⟩
  | identifier x =>
    rcases h : t.lookup scope x.name with _ | ⟨home, type | ⟨parameters, returns⟩⟩
    · cases hbuiltin : Builtin.find? x.name with
      | some b => exact .inr ⟨_, .builtin h (hbuiltin ▸ rfl)⟩
      | none =>
        cases htype : cfg.outsideType? ⟨x.name, Check.readKind x.name, x.span⟩ with
        | some type => exact .inl ⟨_, .outside h hbuiltin htype⟩
        | none => exact .inr ⟨_, .refused h hbuiltin htype⟩
    · exact .inl ⟨_, .variable h⟩
    · exact .inr ⟨_, .function h⟩
  | call f args span =>
    cases hbuiltin : Builtin.find? f.name with
    | some b => exact .inl ⟨_, .builtin hbuiltin⟩
    | none =>
      rcases h : t.lookup scope f.name with _ | ⟨home, type | ⟨parameters, returns⟩⟩
      · exact .inr ⟨_, .callOfMissing hbuiltin h⟩
      · exact .inr ⟨_, .callOfVariable hbuiltin h⟩
      · exact .inl ⟨_, .function hbuiltin h⟩

/-- The problem of a head that fails. -/
def failure? : Expr → Option Finding
  | .literal _ => none
  | .identifier x =>
    match t.lookup scope x.name with
    | some (_, .variable _) => none
    | some (_, .function _ _) => some ⟨.functionNotCalled x.name, x.span⟩
    | none =>
      if (Builtin.find? x.name).isSome then some ⟨.builtinNotCalled x.name, x.span⟩
      else if (cfg.outsideType? ⟨x.name, Check.readKind x.name, x.span⟩).isSome then none
      else some ⟨.identifierNotFound x.name, x.span⟩
  | .call f _ _ =>
    match Builtin.find? f.name, t.lookup scope f.name with
    | some _, _ | none, some (_, .function _ _) => none
    | none, some (_, .variable _) => some ⟨.callOfVariable, f.span⟩
    | none, none => some ⟨.functionNotFound f.name, f.span⟩

variable {cfg t scope} {e : Expr}

theorem HeadFails.failure?_eq {f : Finding} (h : e.HeadFails cfg t scope f) :
    e.failure? cfg t scope = some f := by
  cases h with
  | function h => simp [failure?, h]
  | builtin h hbuiltin => simp [failure?, h, hbuiltin]
  | refused h hbuiltin htype => simp [failure?, h, hbuiltin, htype]
  | callOfVariable hbuiltin h | callOfMissing hbuiltin h => simp [failure?, h, hbuiltin]

theorem HeadYields.failure?_eq {types : List Label} (h : e.HeadYields cfg t scope types) :
    e.failure? cfg t scope = none := by
  cases h with
  | literal => rfl
  | «variable» h => simp [failure?, h]
  | outside h hbuiltin htype => simp [failure?, h, hbuiltin, htype]
  | builtin h => simp [failure?, h]
  | function hbuiltin h => simp [failure?, h, hbuiltin]

theorem failure?_eq_some_iff {f : Finding} :
    e.failure? cfg t scope = some f ↔ e.HeadFails cfg t scope f := by
  refine ⟨fun h => ?_, HeadFails.failure?_eq⟩
  rcases e.headYields_or_headFails cfg t scope with ⟨types, hyields⟩ | ⟨f', hfails⟩
  · exact nomatch h.symm.trans hyields.failure?_eq
  · obtain rfl := Option.some.inj (h.symm.trans hfails.failure?_eq)
    exact hfails

/-- The arguments of a call. -/
def callArguments : Expr → List Expr
  | .literal _ | .identifier _ => []
  | .call _ args _ => args

end Expr

namespace Check

/-! ## Names -/

theorem record_take_look (r : Run) (name : Name) :
    (r.take (.look scope name)).record = r.record := by
  have hquiet : Event.IsQuiet scope (.look scope name) := rfl
  exact (hquiet.alike r).record

theorem value_findMeaning (name : Name) (r : Run) :
    (findMeaning scope name).value r = meaning r.record.scopes scope name :=
  congrArg (fun record : Record => meaning record.scopes scope name) (record_take_look scope r name)

theorem value_askOutside (a : Access) (r : Run) :
    (askOutside cfg a).value r = cfg.outsideType? a := by
  unfold askOutside Setting.outsideType?
  cases cfg.resolver <;> rfl

theorem meaning_variable {name : Name} {home : ScopeId} {type : Label}
    (h : t.lookup scope name = some (home, .variable type)) :
    meaning t scope name = .variable home type := by
  rw [meaning, h]

theorem meaning_function {name : Name} {home : ScopeId} {parameters returns : List Label}
    (h : t.lookup scope name = some (home, .function parameters returns)) :
    meaning t scope name = .function ⟨home, name⟩ parameters returns := by
  rw [meaning, h]

theorem meaning_missing {name : Name} (h : t.lookup scope name = none) :
    meaning t scope name = .missing := by
  rw [meaning, h]

/-! ## Values of expressions -/

variable {cfg scope} {r : Run} {e : Expr}

theorem value_identifier (x : Identifier) : (expression cfg scope (.identifier x)).value r =
    ((identifier cfg scope x).value r).map fun type => [type] := rfl

theorem value_call (f : Identifier) (args : List Expr) (span : Span) :
    (expression cfg scope (.call f args span)).value r =
      ((callee cfg scope f (Builtin.find? f.name)).value r).map Signature.returns := by
  rw [expression]
  rfl

theorem value_of_headYields {types : List Label}
    (h : e.HeadYields cfg r.record.scopes scope types) :
    (expression cfg scope e).value r = some types := by
  cases h with
  | @literal l =>
    rw [← cfg.dialect.literalType_eq l]
    rfl
  | «variable» h =>
    rw [value_identifier, identifier, typeOfUse, value_bind, value_findMeaning, meaning_variable _ _ h]
    rfl
  | outside h hbuiltin htype =>
    rw [value_identifier, identifier, typeOfUse, value_bind, value_findMeaning, meaning_missing _ _ h]
    simp [hbuiltin, value_askOutside, htype]
  | builtin h =>
    rw [value_call, h]
    rfl
  | function hbuiltin h =>
    rw [value_call, hbuiltin, callee, value_bind, value_findMeaning, meaning_function _ _ h]
    rfl

theorem value_of_headFails {f : Finding} (h : e.HeadFails cfg r.record.scopes scope f) :
    (expression cfg scope e).value r = none := by
  cases h with
  | function h =>
    rw [value_identifier, identifier, typeOfUse, value_bind, value_findMeaning, meaning_function _ _ h]
    rfl
  | builtin h hbuiltin =>
    rw [value_identifier, identifier, typeOfUse, value_bind, value_findMeaning, meaning_missing _ _ h]
    simp [hbuiltin]
  | refused h hbuiltin htype =>
    rw [value_identifier, identifier, typeOfUse, value_bind, value_findMeaning, meaning_missing _ _ h]
    simp [hbuiltin, value_askOutside, htype]
  | callOfVariable hbuiltin h =>
    rw [value_call, hbuiltin, callee, value_bind, value_findMeaning, meaning_variable _ _ h]
    rfl
  | callOfMissing hbuiltin h =>
    rw [value_call, hbuiltin, callee, value_bind, value_findMeaning, meaning_missing _ _ h]
    rfl

/-- An expression is found to yield values if and only if its head does. -/
theorem value_expression_eq_some_iff {types : List Label} :
    (expression cfg scope e).value r = some types ↔
      e.HeadYields cfg r.record.scopes scope types := by
  refine ⟨fun h => ?_, value_of_headYields⟩
  rcases e.headYields_or_headFails cfg r.record.scopes scope with ⟨types', hyields⟩ | ⟨f, hfails⟩
  · obtain rfl := Option.some.inj (h.symm.trans (value_of_headYields hyields))
    exact hyields
  · exact nomatch h.symm.trans (value_of_headFails hfails)

theorem value_expression_eq_none_iff :
    (expression cfg scope e).value r = none ↔ ∃ f, e.HeadFails cfg r.record.scopes scope f := by
  refine ⟨fun h => ?_, fun ⟨_, hfails⟩ => value_of_headFails hfails⟩
  rcases e.headYields_or_headFails cfg r.record.scopes scope with ⟨types, hyields⟩ | hfails
  · exact nomatch h.symm.trans (value_of_headYields hyields)
  · exact hfails

end Check

end Setting

end Yul
