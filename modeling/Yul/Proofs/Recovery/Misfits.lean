import Yul.Proofs.Recovery.Reports

/-!
# What is said about values

A mismatch that checking an expression reports is always about a part of the expression whose head
yields values: a call with a wrong number of arguments, or an argument that yields too few or too many
values or one with another label (`Expr.Misfit`). So nothing follows from a head that fails, at
whatever depth it stands (`Check.expression_misfits`).
-/

namespace Yul

section Setting

variable (cfg : Setting) (t : ScopeTable) (scope : ScopeId)

/-- A mismatch of an expression whose head yields values. -/
inductive Expr.Misfit : Expr → Finding → Prop where
  | argumentCount {f : Identifier} {args : List Expr} {span : Span} {types : List Label}
      {count : Nat} (h : (Expr.call f args span).HeadYields cfg t scope types)
      (hne : count ≠ args.length) :
      Misfit (.call f args span) ⟨.argumentCount f.name count args.length, f.span⟩
  | notOneValue {e : Expr} {types : List Label} (h : e.HeadYields cfg t scope types)
      (hne : types.length ≠ 1) : Misfit e ⟨.notOneValue types.length, e.span⟩
  | valueType {e : Expr} {expected type : Label} (h : e.HeadYields cfg t scope [type])
      (hne : expected ≠ type) : Misfit e ⟨.valueType expected type, e.span⟩

namespace Check

variable {α β : Type} {cfg t scope} {Q Q' : Finding → Prop}

/-! ## Parts that report mismatches of one sort -/

/-- From any state with the scopes `t`, a part of an analysis takes quiet events only, and all
mismatches that it reports have `Q`. -/
def Blames (Q : Finding → Prop) (t : ScopeTable) (scope : ScopeId) (m : Check α) : Prop :=
  ∀ r : Run, r.record.scopes = t → ∃ es, QuietEvents scope es ∧ m.after r = es.foldl Run.take r ∧
    ∀ f ∈ reported Problem.isMismatch es, Q f

theorem Reports.blames {m : Check α} {fs : List Finding}
    (hm : Reports Problem.isMismatch t scope m fs) (hfs : ∀ f ∈ fs, Q f) : Blames Q t scope m := by
  intro r hr
  obtain ⟨es, hes, hafter, hreported⟩ := hm r hr
  exact ⟨es, hes, hafter, hreported ▸ hfs⟩

theorem Reports.blames_nobody {m : Check α} (hm : Reports Problem.isMismatch t scope m []) :
    Blames Q t scope m :=
  hm.blames (List.forall_mem_nil _)

namespace Blames

theorem mono {m : Check α} (hm : Blames Q t scope m) (hQ : ∀ f, Q f → Q' f) :
    Blames Q' t scope m := by
  intro r hr
  obtain ⟨es, hes, hafter, hall⟩ := hm r hr
  exact ⟨es, hes, hafter, fun f hf => hQ f (hall f hf)⟩

theorem bind_value {m : Check α} {f : α → Check β} (hm : Blames Q t scope m)
    (hf : ∀ r : Run, r.record.scopes = t → Blames Q t scope (f (m.value r))) :
    Blames Q t scope (m >>= f) := by
  intro r hr
  obtain ⟨es, hes, hafter, hall⟩ := hm r hr
  have hr' : (m.after r).record.scopes = t := by
    rw [hafter, (hes.alike r).record, hr]
  obtain ⟨es', hes', hafter', hall'⟩ := hf r hr _ hr'
  refine ⟨es ++ es', List.forall_mem_append.mpr ⟨hes, hes'⟩, ?_, ?_⟩
  · rw [after_bind, hafter', hafter, List.foldl_append]
  · rw [reported_append]
    exact List.forall_mem_append.mpr ⟨hall, hall'⟩

theorem pure (a : α) : Blames Q t scope (pure a : Check α) :=
  (Reports.pure a).blames_nobody

theorem report {p : Problem} (hp : p.isMismatch = true) {span : Span} (h : Q ⟨p, span⟩) :
    Blames Q t scope (report p span) :=
  (Reports.report hp span).blames (List.forall_mem_singleton.mpr h)

end Blames

/-! ## Heads -/

theorem identifier_lenient (x : Identifier) :
    Reports Problem.isMismatch t scope (identifier cfg scope x) [] :=
  typeOfUse_lenient cfg t scope x _ rfl rfl rfl

theorem callee_lenient (f : Identifier) (builtin : Option Builtin) :
    Reports Problem.isMismatch t scope (callee cfg scope f builtin) [] := by
  cases builtin with
  | some b =>
    refine (Reports.told (cfg.dialect.told_builtinProblems b) f.span).silent_bind fun _ => ?_
    exact (Reports.emit (e := .effects b.effects) trivial rfl).silent_bind fun _ => .pure _
  | none =>
    refine .find ?_
    cases meaning t scope f.name with
    | function => exact (Reports.emit (e := .call _) trivial rfl).silent_bind fun _ => .pure _
    | «variable» | missing => exact .refuse rfl f.span none

theorem stringArgument_lenient (kind : LiteralArgument) (argument : Expr) :
    Reports Problem.isMismatch t scope (stringArgument cfg kind argument) [] := by
  unfold stringArgument
  split
  · exact .report_other rfl _
  · refine (Reports.told (cfg.dialect.told_writtenProblems _) _).silent_bind fun _ => ?_
    exact .ite (.ite (.pure _) (.report_other rfl _)) (.pure _)

/-! ## Values -/

variable {e : Expr}

theorem oneValue_misfits {values : Option (List Label)}
    (h : ∀ types, values = some types → e.HeadYields cfg t scope types) :
    Blames (e.Misfit cfg t scope) t scope (oneValue values e.span) := by
  match values with
  | none => exact .pure none
  | some [type] => exact .pure (some type)
  | some [] =>
    exact (Blames.report rfl (.notOneValue (h [] rfl) (by simp))).bind_value fun _ _ => .pure none
  | some (type :: type' :: types) =>
    exact (Blames.report rfl (.notOneValue (h _ rfl) (by simp))).bind_value fun _ _ => .pure none

theorem value_oneValue_eq_some {values : Option (List Label)} {span : Span} {type : Label} {r : Run}
    (h : (oneValue values span).value r = some type) : values = some [type] := by
  match values with
  | some [type'] => exact congrArg (fun type => some [type]) (Option.some.inj h)
  | none | some [] | some (_ :: _ :: _) => exact nomatch h

theorem checkValue_misfits {expected given : Option Label}
    (h : ∀ type, given = some type → e.HeadYields cfg t scope [type]) :
    Blames (e.Misfit cfg t scope) t scope (checkValue expected given e.span) := by
  match expected, given with
  | some expected, some type =>
    rw [checkValue, Dialect.valueProblems]
    split
    · exact .pure _
    · next hne =>
      exact (Blames.report rfl (.valueType (h type rfl) hne)).bind_value fun _ _ => .pure _
  | some _, none | none, some _ | none, none => exact .pure _

theorem checkCount_misfits {f : Identifier} {args : List Expr} {span : Span}
    {signature : Option Signature}
    (h : ∀ s, signature = some s → (Expr.call f args span).HeadYields cfg t scope s.returns) :
    Blames ((Expr.call f args span).Misfit cfg t scope) t scope
      (checkCount f signature args.length) := by
  cases signature with
  | none => exact .pure _
  | some s =>
    rw [checkCount]
    split
    · exact .pure _
    · next hne => exact .report rfl (.argumentCount (h s rfl) hne)

/-! ## Whole expressions -/

theorem mem_parts (e : Expr) : e ∈ e.parts := by
  cases e <;> exact List.mem_cons_self

end Check

end Setting

namespace Check

section Setting

variable (cfg : Setting) (t : ScopeTable) (scope : ScopeId)

/-- Whether a problem is a mismatch of one of the given expressions. -/
abbrev MisfitIn (parts : List Expr) (f : Finding) : Prop :=
  ∃ part ∈ parts, part.Misfit cfg t scope f

mutual

/-- Every mismatch that checking an expression reports is one of a part whose head yields values. -/
theorem expression_misfits (e : Expr) :
    Blames (MisfitIn cfg t scope e.parts) t scope (expression cfg scope e) := by
  match e with
  | .literal l =>
    exact ((Reports.told (cfg.dialect.told_literalProblems l) l.span).silent_bind
      fun _ => .pure _).blames_nobody
  | .identifier x => exact ((identifier_lenient x).silent_bind fun _ => .pure _).blames_nobody
  | .call f args span =>
    rw [expression]
    refine (callee_lenient f _).blames_nobody.bind_value fun r hr => ?_
    have hyields (s : Signature)
        (hs : (callee cfg scope f (Builtin.find? f.name)).value r = some s) :
        (Expr.call f args span).HeadYields cfg t scope s.returns := by
      rw [← hr, ← value_expression_eq_some_iff, value_call, hs]
      rfl
    have hcount : Blames (MisfitIn cfg t scope (Expr.call f args span).parts) t scope
        (checkCount f ((callee cfg scope f (Builtin.find? f.name)).value r) args.length) :=
      (checkCount_misfits hyields).mono fun f hf => ⟨_, mem_parts _, hf⟩
    refine hcount.bind_value fun _ _ => .bind_value ?_ fun _ _ => .pure _
    refine (arguments_misfits _ _ 0 args).mono fun f ⟨part, hpart, hf⟩ => ⟨part, ?_, hf⟩
    exact List.mem_cons_of_mem _ hpart

theorem arguments_misfits (builtin : Option Builtin) (expected : List Label) (index : Nat)
    (args : List Expr) :
    Blames (MisfitIn cfg t scope (partsOfArguments builtin index args)) t scope
      (arguments cfg scope builtin expected index args) := by
  match args with
  | [] => exact .pure _
  | a :: rest =>
    have hrest := arguments_misfits builtin expected.tail (index + 1) rest
    rw [arguments, partsOfArguments]
    cases builtin.bind (·.literalArgument? index) with
    | some kind => exact (stringArgument_lenient kind a).blames_nobody.bind_value fun _ _ => hrest
    | none =>
      have hhere (f : Finding) (hf : MisfitIn cfg t scope a.parts f) :
          MisfitIn cfg t scope (a.parts ++ partsOfArguments builtin (index + 1) rest) f := by
        obtain ⟨part, hpart, hf⟩ := hf
        exact ⟨part, List.mem_append_left _ hpart, hf⟩
      have hself (f : Finding) (hf : a.Misfit cfg t scope f) :
          MisfitIn cfg t scope (a.parts ++ partsOfArguments builtin (index + 1) rest) f :=
        hhere f ⟨a, mem_parts a, hf⟩
      refine ((expression_misfits a).mono hhere).bind_value fun r hr => ?_
      have hyields (types : List Label) (htypes : (expression cfg scope a).value r = some types) :
          a.HeadYields cfg t scope types := hr ▸ value_expression_eq_some_iff.mp htypes
      refine ((oneValue_misfits hyields).mono hself).bind_value fun r' _ => ?_
      refine ((checkValue_misfits fun type htype => ?_).mono hself).bind_value fun _ _ => ?_
      · exact hyields _ (value_oneValue_eq_some htype)
      · refine hrest.mono fun f ⟨part, hpart, hf⟩ => ⟨part, ?_, hf⟩
        exact List.mem_append_right _ hpart

end

end Setting

end Check

end Yul
