import Yul.Proofs.Check.Performs
import Yul.Proofs.Outside.Code
import Yul.Proofs.Run.Plain

/-!
# What an analysis does about names

What is noted here of a run are the names that it looks for and whether it finds something, the names
that it asks for outside, and the problems that it reports of names that are declared nowhere. An
analysis notes exactly what the mentions of its code give (`Mention.notes`), in their order, whatever
else is wrong with the code (`runBlock_notes`).
-/

namespace Yul

/-- What is noted about names. -/
inductive Note where
  | look (name : Name) (found : Bool)
  | ask (access : Access)
  | undeclared (finding : Finding)
deriving DecidableEq, Repr

/-- What is noted of an event that comes in a state. -/
def Run.note? (r : Run) : Event → Option Note
  | .look scope name => some (.look name (r.record.scopes.lookup scope name).isSome)
  | .ask a => some (.ask a)
  | .report f => if f.problem.isUndeclared then some (.undeclared f) else none
  | .enterBlock _ _ | .exitBlock _ _ | .openParameters _ _ | .enterFunction _ | .exitFunction _
  | .declare _ _ _ | .effects _ | .call _ => none

theorem Event.IsPlain.note?_eq {e : Event} (h : e.IsPlain) (r : Run) : r.note? e = none := by
  cases e with
  | report f =>
    have hdeclared : f.problem.isUndeclared = false :=
      (Bool.not_eq_true' _).mp (Bool.and_eq_true_iff.mp h).2
    rw [Run.note?, hdeclared]
    rfl
  | look | ask => exact h.elim
  | _ => rfl

section

variable (cfg : Setting)

/-- What is noted when a free name is used. -/
def Access.notes (a : Access) : List Note :=
  (if cfg.resolver.isSome then [.ask a] else []) ++
    if (cfg.outsideType? a).isNone then [.undeclared a.refusal] else []

/-- What is noted of a mention. -/
def Mention.notes : Mention → List Note
  | .use x kind seen =>
    .look x.name seen ::
      if seen || (Builtin.find? x.name).isSome then [] else Access.notes cfg ⟨x.name, kind, x.span⟩
  | .head f seen =>
    .look f.name seen :: if seen then [] else [.undeclared ⟨.functionNotFound f.name, f.span⟩]
  | .declaration name seen => [.look name seen]
  | .data name span =>
    if cfg.dataNames.contains name then [] else [.undeclared ⟨.unknownData name, span⟩]

/-- What is noted of mentions. -/
def notesOfMentions (ms : List Mention) : List Note :=
  ms.flatMap (Mention.notes cfg)

theorem notesOfMentions_append (ms ms' : List Mention) :
    notesOfMentions cfg (ms ++ ms') = notesOfMentions cfg ms ++ notesOfMentions cfg ms' :=
  List.flatMap_append

theorem notesOfMentions_cons (m : Mention) (ms : List Mention) :
    notesOfMentions cfg (m :: ms) = m.notes cfg ++ notesOfMentions cfg ms :=
  List.flatMap_cons

theorem notesOfMentions_singleton (m : Mention) : notesOfMentions cfg [m] = m.notes cfg :=
  List.flatMap_singleton _ _

end

/-! ## Names that are seen -/

theorem Env.sees_standing (env : Env) (x : Name) :
    Surroundings.sees env.standing x = (env.visible x).isSome := by
  rw [Surroundings.sees, standing]
  cases env.visible x with
  | none => by_cases hx : x ∈ env.taken <;> simp [hx]
  | some e => cases e <;> rfl

theorem Sees.lookup_isSome {here : Option BlockId} {around : Surroundings} {scope : Nat} {r : Run}
    (h : Sees here around scope r) (x : Name) :
    (r.record.scopes.lookup scope x).isSome = around.sees x := by
  obtain ⟨env, hr, rfl⟩ := h
  have hdenotes := hr.visible x
  rw [env.sees_standing]
  generalize r.record.scopes.lookup scope x = found at hdenotes ⊢
  generalize env.visible x = e at hdenotes ⊢
  cases hdenotes <;> rfl

namespace Check

variable {α β : Type} {here : Option BlockId} {around : Surroundings} {scope : Nat}

/-- Among the names around it, a part of an analysis that declares nothing adds `xs` to what is
noted. -/
abbrev NotesIn (here : Option BlockId) (around : Surroundings) (scope : Nat) (m : Check α)
    (xs : List Note) : Prop :=
  Notes Run.note? (Sees here around scope) (Sees here around scope) m xs

theorem Plain.notes {I J : Run → Prop} {m : Check α} (hm : Plain m)
    (hJ : ∀ r, I r → (m.after r).fault = none → J (m.after r)) : Notes Run.note? I J m [] :=
  TakesOnly.notes hm (fun r _ he => he.note?_eq r) hJ

theorem Plain.notesIn {m : Check α} (hm : Plain m) (hquietly : Quietly scope m) :
    NotesIn here around scope m [] :=
  hm.notes fun r hr hfault => hr.of_alike (hquietly r).alike hfault

theorem Notes.nothing_bind {I I₁ J : Run → Prop} {m : Check α} {f : α → Check β} {xs : List Note}
    (hm : Notes Run.note? I I₁ m []) (hf : ∀ a, Notes Run.note? I₁ J (f a) xs) :
    Notes Run.note? I J (m >>= f) xs :=
  hm.bind hf (List.nil_append xs).symm

theorem Notes.bind_nothing {I I₁ J : Run → Prop} {m : Check α} {f : α → Check β} {xs : List Note}
    (hm : Notes Run.note? I I₁ m xs) (hf : ∀ a, Notes Run.note? I₁ J (f a) []) :
    Notes Run.note? I J (m >>= f) xs :=
  hm.bind hf (List.append_nil xs).symm

theorem emit_notes {e : Event} {xs : List Note} (he : e.IsQuiet scope)
    (hnote : ∀ r, Sees here around scope r → (r.note? e).toList = xs) :
    NotesIn here around scope (emit e) xs :=
  .emit hnote fun r hr hfault => hr.of_alike (he.alike r) hfault

theorem look_notes (x : Name) :
    NotesIn here around scope (emit (.look scope x)) [.look x (around.sees x)] := by
  have hquiet : Event.IsQuiet scope (.look scope x) := rfl
  refine emit_notes hquiet fun r hr => ?_
  rw [Run.note?, hr.lookup_isSome x]
  rfl

theorem report_notes {p : Problem} (h : p.isUndeclared = true) (span : Span) :
    NotesIn here around scope (report p span) [.undeclared ⟨p, span⟩] := by
  have hquiet : Event.IsQuiet scope (.report ⟨p, span⟩) := trivial
  refine emit_notes hquiet fun r _ => ?_
  rw [Run.note?, if_pos h]
  rfl

theorem report_notesIn {p : Problem} (h : p.isUndeclared = false) (span : Span) :
    NotesIn here around scope (report p span) [] := by
  have hquiet : Event.IsQuiet scope (.report ⟨p, span⟩) := trivial
  refine emit_notes hquiet fun r _ => ?_
  rw [Run.note?, h]
  rfl

theorem pure_notes (a : α) : NotesIn here around scope (pure a) [] :=
  .pure a fun _ => id

theorem find_notes {x : Name} {k : Meaning → Check α} {xs : List Note}
    (hquietly : Quietly scope (findMeaning scope x >>= k))
    (hk : ∀ (env : Env) (r : Run) (m : Meaning), env.standing = around → Sees here around scope r →
      Means env x r m → NotesAt Run.note? (Sees here around scope) r (k m) xs) :
    NotesIn here around scope (findMeaning scope x >>= k) (.look x (around.sees x) :: xs) where
  ended r hr := (Walk.of_quiet (hquietly r)).eq_of_fault hr
  notes r hr := by
    have hlook : Event.IsQuiet scope (.look scope x) := rfl
    have hfault := (hr.ready.quiet hlook).fault
    have hsees : Sees here around scope (r.take (.look scope x)) := hr.of_alike (hlook.alike r) hfault
    obtain ⟨env, henv, hmeans⟩ := hsees.means x
    obtain ⟨es, hes, hbegins, hend⟩ := hk env _ _ henv hsees hmeans
    obtain ⟨-, hadded⟩ := (Run.Along.take r (.look scope x)).resolve_right fun h => h.1 hfault
    have hnotes : r.notesOf Run.note? (.look scope x :: es) =
        .look x (around.sees x) :: (r.take (.look scope x)).notesOf Run.note? es := by
      rw [Run.notesOf, Run.note?, hr.lookup_isSome x]
      rfl
    exact ⟨.look scope x :: es, hadded.trans hes, hnotes ▸ List.cons_prefix_cons.mpr ⟨rfl, hbegins⟩,
      fun hlast => ⟨(hend hlast).1, hnotes.trans (congrArg _ (hend hlast).2)⟩⟩

section Setting

variable (cfg : Setting)

/-! ## Uses of names -/

theorem outside_notes {a : Access} {p : Problem} (hp : a.refusal = ⟨p, a.span⟩)
    (hundeclared : p.isUndeclared = true) :
    NotesIn here around scope
      (do
        let type ← askOutside cfg a
        if type.isNone then report p a.span
        return type)
      (a.notes cfg) := by
  have hrefused (type : Option Label) : NotesIn here around scope
      (if type.isNone then report p a.span >>= fun _ => pure type else pure type)
      (if type.isNone then [.undeclared a.refusal] else []) := by
    cases type with
    | none => exact (hp ▸ report_notes hundeclared a.span).bind_nothing fun _ => pure_notes none
    | some type => exact pure_notes (some type)
  have hquiet : Event.IsQuiet scope (.ask a) := trivial
  unfold askOutside Access.notes Setting.outsideType?
  cases cfg.resolver with
  | none => exact hrefused none
  | some resolve =>
    have hask : NotesIn here around scope (emit (.ask a)) [.ask a] := emit_notes hquiet fun _ _ => rfl
    exact hask.bind (fun _ => hrefused (resolve a)) rfl

theorem unseen_notes {x : Identifier} {kind : AccessKind} {p misuse : Problem}
    (hp : Access.refusal ⟨x.name, kind, x.span⟩ = ⟨p, x.span⟩) (hundeclared : p.isUndeclared = true)
    (hmisuse : misuse.isUndeclared = false) :
    NotesIn here around scope
      (if (Builtin.find? x.name).isSome then do
        report misuse x.span
        return none
      else do
        let type ← askOutside cfg ⟨x.name, kind, x.span⟩
        if type.isNone then report p x.span
        return type)
      (if (Builtin.find? x.name).isSome then [] else Access.notes cfg ⟨x.name, kind, x.span⟩) := by
  by_cases hbuiltin : (Builtin.find? x.name).isSome = true
  · rw [if_pos hbuiltin, if_pos hbuiltin]
    exact (report_notesIn hmisuse _).bind_nothing fun _ => pure_notes none
  · rw [if_neg hbuiltin, if_neg hbuiltin]
    exact outside_notes cfg hp hundeclared

/-- A use of a name. The outside is asked if nothing is seen under the name and it is no builtin. -/
theorem typeOfUse_notes {x : Identifier} {kind : AccessKind} {p q unknown : Problem}
    (hquietly : Quietly scope (typeOfUse cfg scope x kind p q unknown))
    (hp : p.isUndeclared = false) (hq : q.isUndeclared = false)
    (hunknown : Access.refusal ⟨x.name, kind, x.span⟩ = ⟨unknown, x.span⟩)
    (hundeclared : unknown.isUndeclared = true) :
    NotesIn here around scope (typeOfUse cfg scope x kind p q unknown)
      (Mention.notes cfg (.use x kind (around.sees x.name))) := by
  refine find_notes hquietly fun env r m henv hr hmeans => ?_
  have hsees : around.sees x.name = (env.visible x.name).isSome := henv ▸ env.sees_standing x.name
  cases hmeans with
  | @«variable» home type h hactive =>
    have hafter : (do checkActive home x; return some type : Check (Option Label)).after r = r :=
      after_checkActive hactive
    rw [hsees, h]
    exact ⟨[], hafter.symm ▸ .refl r, List.prefix_rfl, fun _ => ⟨hafter.symm ▸ hr, rfl⟩⟩
  | function h =>
    rw [hsees, h]
    exact ((report_notesIn hp _).bind_nothing fun _ => pure_notes none).notes r hr
  | missing h =>
    rw [hsees, h]
    exact (unseen_notes cfg hunknown hundeclared hq).notes r hr

theorem identifier_notes (x : Identifier) :
    NotesIn here around scope (identifier cfg scope x)
      (Mention.notes cfg (.use x (readKind x.name) (around.sees x.name))) :=
  typeOfUse_notes cfg (identifier_silently cfg scope x).quietly rfl rfl
    (Access.refusal_of_read x.name x.span) rfl

theorem targetType_notes (x : Identifier) :
    NotesIn here around scope (targetType cfg scope x)
      (Mention.notes cfg (.use x .write (around.sees x.name))) :=
  typeOfUse_notes cfg (targetType_silently cfg scope x).quietly rfl rfl rfl rfl

/-! ## Expressions -/

theorem callee_notes (f : Identifier) :
    NotesIn here around scope (callee cfg scope f (Builtin.find? f.name))
      (notesOfMentions cfg (around.mentionsOfHead f)) := by
  have hquietly := callee_quietly cfg scope f (Builtin.find? f.name)
  rw [Surroundings.mentionsOfHead]
  cases hbuiltin : Builtin.find? f.name with
  | some b =>
    have hplain : Plain (callee cfg scope f (some b)) :=
      .bind (reportAll_plain (cfg.dialect.local_builtinProblems b) _) fun _ =>
        .bind (.emit trivial) fun _ => .pure _
    exact hplain.notesIn (hbuiltin ▸ hquietly)
  | none =>
    rw [hbuiltin] at hquietly
    rw [Option.isSome_none, if_neg Bool.false_ne_true, notesOfMentions_singleton]
    refine find_notes hquietly fun env r m henv hr hmeans => ?_
    have hsees : around.sees f.name = (env.visible f.name).isSome := henv ▸ env.sees_standing f.name
    cases hmeans with
    | «variable» h =>
      rw [hsees, h]
      have hreport : NotesIn here around scope (report .callOfVariable f.span) [] :=
        report_notesIn rfl _
      exact (hreport.bind_nothing fun _ => pure_notes none).notes r hr
    | @function s id parameters returns h hid =>
      rw [hsees, h]
      have hcall : Event.IsQuiet scope (.call ⟨s, f.name⟩) := trivial
      have hemit : NotesIn here around scope (emit (.call ⟨s, f.name⟩)) [] :=
        emit_notes hcall fun _ _ => rfl
      have hcalled := hemit.bind_nothing fun _ => pure_notes (some (Signature.mk parameters returns))
      exact hcalled.notes r hr
    | missing h =>
      rw [hsees, h]
      have hreport : NotesIn here around scope (report (.functionNotFound f.name) f.span)
          [.undeclared ⟨.functionNotFound f.name, f.span⟩] := report_notes rfl _
      exact (hreport.bind_nothing fun _ => pure_notes none).notes r hr

theorem stringArgument_notes (kind : LiteralArgument) (e : Expr) :
    NotesIn here around scope (stringArgument cfg kind e)
      (notesOfMentions cfg (mentionsOfString kind e)) := by
  unfold stringArgument mentionsOfString
  cases e.string? with
  | none =>
    have hreport : NotesIn here around scope (report .notAString e.span) [] :=
      report_notesIn rfl _
    cases kind <;> exact hreport
  | some found =>
    obtain ⟨l, bytes⟩ := found
    have hlabel := cfg.dialect.local_writtenProblems l.type
    have hreports : NotesIn here around scope (reportAll (cfg.dialect.writtenProblems l.type) l.span)
        [] := (reportAll_plain hlabel _).notesIn (reportAll_silently scope hlabel _).quietly
    refine hreports.nothing_bind fun _ => ?_
    cases kind with
    | dataName =>
      rw [if_pos rfl, notesOfMentions_singleton, Mention.notes]
      refine .ite (fun h => ?_) fun h => ?_
      · rw [if_pos h]
        exact pure_notes ()
      · rw [if_neg h]
        exact report_notes rfl _
    | _ => exact pure_notes ()

mutual

theorem expression_notes (e : Expr) :
    NotesIn here around scope (expression cfg scope e)
      (notesOfMentions cfg (e.mentions around)) := by
  match e with
  | .literal l =>
    have hlocal := cfg.dialect.local_literalProblems l
    have hreports : NotesIn here around scope (reportAll (cfg.dialect.literalProblems l) l.span) [] :=
      (reportAll_plain hlocal _).notesIn (reportAll_silently scope hlocal _).quietly
    exact hreports.nothing_bind fun _ => pure_notes _
  | .identifier x =>
    rw [Expr.mentions, notesOfMentions_singleton]
    exact (identifier_notes cfg x).bind_nothing fun _ => pure_notes _
  | .call f args _ =>
    rw [expression, Expr.mentions, notesOfMentions_append]
    refine .bind (callee_notes cfg f) (fun signature => ?_) rfl
    have hcount : NotesIn here around scope (checkCount f signature args.length) [] :=
      (checkCount_plain f signature _).notesIn (checkCount_silently scope f signature _).quietly
    refine hcount.nothing_bind fun _ => ?_
    exact (arguments_notes _ _ _ args).bind_nothing fun _ => pure_notes _

theorem arguments_notes (builtin : Option Builtin) (expected : List Label) (index : Nat)
    (args : List Expr) :
    NotesIn here around scope (arguments cfg scope builtin expected index args)
      (notesOfMentions cfg (mentionsOfArguments around builtin index args)) := by
  match args with
  | [] => exact pure_notes ()
  | e :: rest =>
    have hrest := arguments_notes builtin expected.tail (index + 1) rest
    rw [arguments, mentionsOfArguments, notesOfMentions_append]
    cases builtin.bind (·.literalArgument? index) with
    | some kind => exact .bind (stringArgument_notes cfg kind e) (fun _ => hrest) rfl
    | none =>
      refine .bind (expression_notes e) (fun values => ?_) rfl
      have hvalue : NotesIn here around scope (oneValue values e.span) [] :=
        (oneValue_plain values _).notesIn (oneValue_silently scope values _).quietly
      refine hvalue.nothing_bind fun given => ?_
      have hcheck : NotesIn here around scope (checkValue expected.head? given e.span) [] :=
        (checkValue_plain _ given _).notesIn (checkValue_silently scope _ given _).quietly
      exact hcheck.nothing_bind fun _ => hrest

end

theorem valueOf_notes (e : Expr) :
    NotesIn here around scope (valueOf cfg scope e) (notesOfMentions cfg (e.mentions around)) :=
  (expression_notes cfg e).bind_nothing fun values =>
    (oneValue_plain values _).notesIn (oneValue_silently scope values _).quietly

theorem condition_notes (e : Expr) :
    NotesIn here around scope (condition cfg scope e) (notesOfMentions cfg (e.mentions around)) := by
  refine (valueOf_notes cfg e).bind_nothing fun type => ?_
  cases type with
  | some type => exact .ite (fun _ => pure_notes ()) fun _ => report_notesIn rfl _
  | none => exact pure_notes ()

/-! ## Statements -/

theorem target_notes (x : Identifier) (given : Option Label) :
    NotesIn here around scope (target cfg scope x given)
      (Mention.notes cfg (.use x .write (around.sees x.name))) := by
  refine (targetType_notes cfg x).bind_nothing fun declared => ?_
  match declared, given with
  | some declared, some given => exact .ite (fun _ => pure_notes ()) fun _ => report_notesIn rfl _
  | some _, none | none, some _ | none, none => exact pure_notes ()

theorem targets_notes {given : Option (List Label)} {index : Nat} {xs : List Identifier}
    (h : ∀ types, given = some types → index + xs.length ≤ types.length) :
    NotesIn here around scope (targets cfg scope given index xs)
      (notesOfMentions cfg (around.mentionsOfTargets xs)) := by
  induction xs generalizing index with
  | nil => exact pure_notes ()
  | cons x xs ih =>
    have hlength : ∀ types, given = some types → index + 1 + xs.length ≤ types.length := by
      intro types htypes
      have := h types htypes
      simp only [List.length_cons] at this
      omega
    have hvalue : NotesIn here around scope (valueAt given index) [] := by
      refine (valueAt_plain given index).notesIn (valueAt_silently scope fun types htypes => ?_).quietly
      have := hlength types htypes
      omega
    refine hvalue.nothing_bind fun value => ?_
    exact .bind (target_notes cfg x value) (fun _ => ih hlength) (notesOfMentions_cons cfg _ _)

theorem assignment_notes (xs : List Identifier) (value : Expr) (span : Span) :
    NotesIn here around scope (assignment cfg scope xs value span)
      (notesOfMentions cfg (value.mentions around ++ around.mentionsOfTargets xs)) := by
  have hunknown : NotesIn here around scope (targets cfg scope none 0 xs)
      (notesOfMentions cfg (around.mentionsOfTargets xs)) := targets_notes cfg nofun
  have htargets : NotesIn here around scope (checkTargets [] xs) [] :=
    (checkTargets_plain [] xs).notesIn (checkTargets_silently scope [] xs).quietly
  rw [notesOfMentions_append]
  refine htargets.nothing_bind fun _ => ?_
  refine .bind (expression_notes cfg value) (fun types => ?_) rfl
  cases types with
  | none => exact hunknown
  | some types =>
    refine .ite (fun hlength => targets_notes cfg fun given hgiven => ?_) fun _ => ?_
    · obtain rfl := Option.some.inj hgiven
      omega
    · exact (report_notesIn rfl span).nothing_bind fun _ => hunknown

theorem declare_notes {what : Declared} {x : Identifier} {symbol : Symbol} {e : Entity}
    (hdenotes : ∀ r, Sees here around scope r → r.record.Denotes (some (scope, symbol)) (some e)) :
    Notes Run.note? (Sees here around scope) (Sees here (around.accept x.name e.standing) scope)
      (declare what scope x symbol)
      (Mention.notes cfg (.declaration x.name (around.sees x.name))) := by
  have hperforms : Performs (Sees here around scope) (Sees here (around.accept x.name e.standing) scope)
      (declare what scope x symbol) {} := declare_performs hdenotes
  have hlocal := Dialect.local_namingProblems x.name
  have hreports : NotesIn here around scope (reportAll (Dialect.namingProblems x.name) x.span) [] :=
    (reportAll_plain hlocal _).notesIn (reportAll_silently scope hlocal _).quietly
  have hrest : Plain (do
      if (← get).record.scopes.isTaken scope x.name then report (.alreadyTaken what x.name) x.span
      else emit (.declare scope x.name symbol)) :=
    .bind .get fun _ => .ite (report_plain rfl _) (.emit trivial)
  have hnotes : Notes Run.note? (Sees here around scope) (fun _ => True)
      (declare what scope x symbol) [.look x.name (around.sees x.name)] :=
    hreports.nothing_bind fun _ => (look_notes x.name).bind_nothing fun _ =>
      hrest.notes fun _ _ _ => trivial
  exact hnotes.leading fun r hr hfault => (hperforms.performs r hr hfault).1

theorem declareVariable_notes (x : TypedName) (type : Label) :
    Notes Run.note? (Sees here around scope) (Sees here (around.accept x.name .variable) scope)
      (declareVariable scope x type)
      (Mention.notes cfg (.declaration x.name (around.sees x.name))) :=
  declare_notes cfg (x := ⟨x.name, x.span⟩) (e := .variable type) fun _ _ => .variable

theorem declareVariables_notes (xs : List TypedName) :
    Notes Run.note? (Sees here around scope) (Sees here (around.acceptVariables xs) scope)
      (declareVariables scope xs (cfg.dialect.declaredLabels xs))
      (notesOfMentions cfg (around.mentionsOfVariables xs)) := by
  induction xs generalizing around with
  | nil => exact pure_notes ()
  | cons x xs ih =>
    exact .bind (declareVariable_notes cfg x _) (fun _ => ih) (notesOfMentions_cons cfg _ _)

theorem parameters_notes (f : FunctionDef) :
    Notes Run.note? (Sees here around scope)
      (Sees here (around.acceptVariables (f.parameters ++ f.returns)) scope) (parameters cfg scope f)
      (notesOfMentions cfg (around.mentionsOfVariables (f.parameters ++ f.returns))) := by
  rw [parameters]
  generalize f.parameters ++ f.returns = xs
  induction xs generalizing around with
  | nil => exact pure_notes _
  | cons x xs ih =>
    exact .bind (declareVariable_notes cfg x _) (fun _ => ih) (notesOfMentions_cons cfg _ _)

theorem initialValue_notes (xs : List TypedName) (types : List Label) (value : Option Expr)
    (span : Span) : NotesIn here around scope (initialValue cfg scope xs types value span)
      (notesOfMentions cfg ((value.map (·.mentions around)).getD [])) := by
  cases value with
  | none => exact pure_notes ()
  | some value =>
    refine (expression_notes cfg value).bind_nothing fun given => ?_
    cases given with
    | none => exact pure_notes ()
    | some given =>
      refine .ite (fun _ => ?_) fun _ => report_notesIn rfl _
      exact (checkInitial_plain xs types given).notesIn
        (checkInitial_silently scope xs types given).quietly

theorem declaration_notes (xs : List TypedName) (value : Option Expr) (span : Span) :
    Notes Run.note? (Sees here around scope) (Sees here (around.acceptVariables xs) scope)
      (declaration cfg scope xs value span)
      (notesOfMentions cfg
        ((value.map (·.mentions around)).getD [] ++ around.mentionsOfVariables xs)) := by
  have htypes : NotesIn here around scope (declaredTypes cfg xs) [] :=
    (declaredTypes_plain cfg xs).notesIn (declaredTypes_silently cfg scope xs).quietly
  refine .bind_of (P := (· = cfg.dialect.declaredLabels xs)) (value_declaredTypes cfg xs) htypes ?_
    (List.nil_append _).symm
  rintro _ rfl
  exact .bind (initialValue_notes cfg xs _ value span) (fun _ => declareVariables_notes cfg xs)
    (notesOfMentions_append cfg _ _)

theorem expressionStatement_notes (e : Expr) :
    NotesIn here around scope (expressionStatement cfg scope e)
      (notesOfMentions cfg (e.mentions around)) := by
  refine (expression_notes cfg e).bind_nothing fun types => ?_
  cases types with
  | none => exact pure_notes ()
  | some types => exact .ite (fun _ => pure_notes ()) fun _ => report_notesIn rfl _

theorem declareFunction_notes {id : BlockId} (f : FunctionDef) :
    Notes Run.note? (Sees (some id) around scope)
      (Sees (some id) (around.accept f.name.name (.function id)) scope) (declareFunction cfg scope f)
      (Mention.notes cfg (.declaration f.name.name (around.sees f.name.name))) := by
  have htypes (xs : List TypedName) : NotesIn (some id) around scope (declaredTypes cfg xs) [] :=
    (declaredTypes_plain cfg xs).notesIn (declaredTypes_silently cfg scope xs).quietly
  refine (htypes f.parameters).nothing_bind fun parameters => ?_
  refine (htypes f.returns).nothing_bind fun returns => ?_
  refine declare_notes cfg (e := .function id parameters returns) fun r hr => ?_
  obtain ⟨env, hmodels, -⟩ := hr
  exact .function (hmodels.here id rfl)

theorem functions_notes (id : BlockId) (fs : List FunctionDef) :
    Notes Run.note? (Sees (some id) around scope)
      (Sees (some id) (around.acceptFunctions id fs) scope) (fs.forM (declareFunction cfg scope))
      (notesOfMentions cfg (around.mentionsOfFunctions id fs)) := by
  induction fs generalizing around with
  | nil => exact pure_notes _
  | cons f fs ih =>
    exact .bind (declareFunction_notes cfg f) (fun _ => ih) (notesOfMentions_cons cfg _ _)

/-! ## Blocks and functions -/

theorem bracket_notes {id : BlockId} {mid : ScopeId → Check Unit} {J : Nat → Run → Prop}
    {xs : List Note}
    (hmid : ∀ s, Notes Run.note? (Sees (some id) around s) (J s) (mid s) xs) :
    Notes Run.note? (Sees here around scope) (fun _ => True)
      (do
        let s ← enterBlock id (some scope)
        mid s
        emit (.exitBlock id s)) xs := by
  refine Notes.opening (p := Run.note?) (m := enterBlock id (some scope))
    (K := fun s => Sees (some id) around s) (fun _ => ⟨rfl, rfl⟩) (fun _ => rfl)
    (fun r hr hfault => ?_) fun s => ?_
  · obtain ⟨env, hmodels, rfl⟩ := hr
    refine (hmodels.enterBlock (Bool.eq_false_iff.mpr fun hold => ?_)).sees
    have hclash := (Run.fits_of_take hfault).2
    rw [Run.clash, if_pos hold] at hclash
    exact Option.some_ne_none _ hclash
  · have hexit : Plain (emit (.exitBlock id s)) := .emit trivial
    exact (hmid s).bind_nothing fun _ => hexit.notes fun _ _ _ => trivial

theorem block_notes {id : BlockId} {statements : List Stmt} {inside : ScopeId → Check Unit}
    {J : Nat → Run → Prop} {xs : List Note}
    (hinside : ∀ s, Notes Run.note? (Sees (some id) (around.inBlock id statements) s) (J s)
      (inside s) xs) :
    Notes Run.note? (Sees here around scope) (fun _ => True)
      (do
        let s ← openBlock cfg id statements (some scope)
        inside s
        emit (.exitBlock id s))
      (notesOfMentions cfg (around.mentionsOfFunctions id (functionsOf statements)) ++ xs) :=
  bracket_notes fun s => .bind (functions_notes cfg id _) (fun _ => hinside s) rfl

theorem function_notes (f : FunctionDef) {inside : ScopeId → Check Unit} {J : Nat → Run → Prop}
    {xs : List Note}
    (hinside : ∀ s, Notes Run.note?
      (Sees none (around.inFunction.acceptVariables (f.parameters ++ f.returns)) s) (J s)
      (inside s) xs) :
    Notes Run.note? (Sees here around scope) (fun _ => True)
      (do
        let s ← openParameters f.body.id scope
        parameters cfg s f
        emit (.enterFunction ⟨scope, f.name.name⟩)
        inside s
        emit (.exitFunction ⟨scope, f.name.name⟩))
      (notesOfMentions cfg
        (around.inFunction.mentionsOfVariables (f.parameters ++ f.returns)) ++ xs) := by
  refine Notes.opening (p := Run.note?) (m := openParameters f.body.id scope)
    (K := fun s => Sees none around.inFunction s) (fun _ => ⟨rfl, rfl⟩) (fun _ => rfl)
    (fun r hr _ => hr.openParameters f.body.id) fun s => ?_
  have henter : Plain (emit (.enterFunction ⟨scope, f.name.name⟩)) := .emit trivial
  have hexit : Plain (emit (.exitFunction ⟨scope, f.name.name⟩)) := .emit trivial
  refine .bind (parameters_notes cfg f) (fun _ => ?_) rfl
  refine (henter.notes fun r hr _ => hr.enterFunction _).nothing_bind fun _ => ?_
  exact (hinside s).bind_nothing fun _ => hexit.notes fun _ _ _ => trivial

/-! ## The whole walk -/

mutual

/-- What is noted of a statement is what it mentions. -/
theorem stmt_notes (ctx : Context) (id : BlockId) (around : Surroundings) (s : Stmt) :
    Notes Run.note? (Sees (some id) around ctx.scope) (Sees (some id) (around.after s) ctx.scope)
      (stmt cfg ctx s) (notesOfMentions cfg (s.mentions around)) := by
  match s with
  | .expression e => exact expressionStatement_notes cfg e
  | .assignment xs value span => exact assignment_notes cfg xs value span
  | .declaration xs none span => exact declaration_notes cfg xs none span
  | .declaration xs (some value) span => exact declaration_notes cfg xs (some value) span
  | .function f _ => exact functionDef_notes ctx id around f
  | .ifThen e body _ =>
    exact .bind (condition_notes cfg e) (fun _ => codeBlock_notes ctx (some id) around body)
      (notesOfMentions_append cfg _ _)
  | .switch subject arms span =>
    rw [stmt]
    refine .bind (valueOf_notes cfg subject) (fun type => ?_) (notesOfMentions_append cfg _ _)
    have harms := cases_notes ctx (some id) around type [] false arms
    exact .ite (fun _ => (report_notesIn rfl span).nothing_bind fun _ => harms) fun _ => harms
  | .forLoop ⟨bid, statements, bspan⟩ e post body span =>
    let inner := statements.foldl Surroundings.after (around.inBlock bid statements)
    have hperforms := (stmt_performs cfg ctx id around
      (.forLoop ⟨bid, statements, bspan⟩ e post body span)).performs
    have hlooping (s : Nat) : NotesIn (some bid) inner s (emit (.effects .looping)) [] :=
      have hquiet : Event.IsQuiet s (.effects .looping) := trivial
      emit_notes hquiet fun _ _ => rfl
    have hinside (s : Nat) : Notes Run.note? (Sees (some bid) (around.inBlock bid statements) s)
        (Sees (some bid) inner s)
        (do
          stmts cfg { ctx with scope := s, inLoopBody := false, inInit := true } statements
          condition cfg s e
          block cfg { ctx with scope := s, inLoopBody := true, inInit := false } body
          block cfg { ctx with scope := s, inLoopBody := false, inInit := false } post
          emit (.effects .looping))
        (notesOfMentions cfg (mentionsOfStmts (around.inBlock bid statements) statements ++
          (e.mentions inner ++ (body.mentions inner ++ post.mentions inner)))) := by
      rw [notesOfMentions_append, notesOfMentions_append, notesOfMentions_append]
      refine .bind (stmts_notes { ctx with scope := s, inLoopBody := false, inInit := true } bid _
        statements) (fun _ => ?_) rfl
      refine .bind (condition_notes cfg e) (fun _ => ?_) rfl
      refine .bind (codeBlock_notes { ctx with scope := s, inLoopBody := true, inInit := false }
        (some bid) inner body) (fun _ => ?_) rfl
      exact (codeBlock_notes { ctx with scope := s, inLoopBody := false, inInit := false }
        (some bid) inner post).bind_nothing fun _ => hlooping s
    rw [Stmt.mentions, notesOfMentions_append]
    exact (block_notes cfg hinside).leading fun r hr hfault => (hperforms r hr hfault).1
  | .breakLoop span | .continueLoop span =>
    exact .ite (fun _ => pure_notes ()) fun _ => report_notesIn rfl _
  | .leave span => exact .ite (fun _ => pure_notes ()) fun _ => report_notesIn rfl _
  | .block b => exact codeBlock_notes ctx (some id) around b

theorem functionDef_notes (ctx : Context) (id : BlockId) (around : Surroundings) (f : FunctionDef) :
    NotesIn (some id) around ctx.scope (function cfg ctx f)
      (notesOfMentions cfg (f.mentions around)) := by
  match f with
  | ⟨name, params, returns, body⟩ =>
    have hperforms := (functionDef_performs cfg ctx id around ⟨name, params, returns, body⟩).performs
    have hbody (s : Nat) := codeBlock_notes { scope := s, inFunction := true } none
      (around.inFunction.acceptVariables (params ++ returns)) body
    have hinside : Notes Run.note? (Sees (some id) around ctx.scope) (fun _ => True) _ _ :=
      function_notes cfg ⟨name, params, returns, body⟩ hbody
    have hnotes : Notes Run.note? (Sees (some id) around ctx.scope) (fun _ => True)
        (function cfg ctx ⟨name, params, returns, body⟩) _ :=
      .ite (fun _ => (report_notesIn rfl name.span).nothing_bind fun _ => hinside) fun _ => hinside
    rw [FunctionDef.mentions, notesOfMentions_append]
    exact hnotes.leading fun r hr hfault => (hperforms r hr hfault).1

theorem codeBlock_notes (ctx : Context) (here : Option BlockId) (around : Surroundings) (b : Block) :
    NotesIn here around ctx.scope (block cfg ctx b) (notesOfMentions cfg (b.mentions around)) := by
  match b with
  | ⟨id, statements, span⟩ =>
    have hperforms := (codeBlock_performs cfg ctx here around ⟨id, statements, span⟩).performs
    rw [Block.mentions, notesOfMentions_append]
    exact (block_notes cfg fun s => stmts_notes { ctx with scope := s } id _ statements).leading
      fun r hr hfault => (hperforms r hr hfault).1

theorem stmts_notes (ctx : Context) (id : BlockId) (around : Surroundings) (ss : List Stmt) :
    Notes Run.note? (Sees (some id) around ctx.scope)
      (Sees (some id) (ss.foldl Surroundings.after around) ctx.scope) (stmts cfg ctx ss)
      (notesOfMentions cfg (mentionsOfStmts around ss)) := by
  match ss with
  | [] => exact pure_notes ()
  | s :: rest =>
    exact .bind (stmt_notes ctx id around s) (fun _ => stmts_notes ctx id _ rest)
      (notesOfMentions_append cfg _ _)

theorem cases_notes (ctx : Context) (here : Option BlockId) (around : Surroundings)
    (subject : Option Label) (seen : List (Label × Word)) (hasDefault : Bool) (arms : List Case) :
    NotesIn here around ctx.scope (cases cfg ctx subject seen hasDefault arms)
      (notesOfMentions cfg (mentionsOfCases around arms)) := by
  match arms with
  | [] => exact pure_notes ()
  | ⟨value, body, span⟩ :: rest =>
    rw [cases]
    have hvalue : NotesIn here around ctx.scope
        (caseValue cfg subject seen hasDefault value span) [] :=
      (caseValue_plain cfg subject seen hasDefault value span).notesIn
        (caseValue_silently cfg ctx.scope subject seen hasDefault value span).quietly
    refine hvalue.nothing_bind fun _ => ?_
    exact .bind (codeBlock_notes ctx here around body)
      (fun _ => cases_notes ctx here around subject _ _ rest) (notesOfMentions_append cfg _ _)

end

end Setting

end Check

/-! ## The analysis of a block -/

/-- What is noted of the analysis of a block is what the block mentions, or a beginning of it if there
is a fault. -/
theorem runBlock_notes (cfg : Setting) {record : Record}
    (hrecord : (Run.mk record [] [] [] none).Regular) (b : Block) :
    (Run.mk record [] [] [] none).notesOf Run.note? (runBlock cfg record b).events <+:
        notesOfMentions cfg (b.mentions .none) ∧
      ((runBlock cfg record b).fault = none →
        (Run.mk record [] [] [] none).notesOf Run.note? (runBlock cfg record b).events =
          notesOfMentions cfg (b.mentions .none)) := by
  obtain ⟨id, statements, span⟩ := b
  have hmid (s : Nat) : Check.Notes Run.note? (Sees (some id) .none s) (fun _ => True)
      (do
        (functionsOf statements).forM (Check.declareFunction cfg s)
        Check.stmts cfg { scope := s } statements
        Check.emit (.exitBlock id s))
      (notesOfMentions cfg (Block.mentions .none ⟨id, statements, span⟩)) := by
    have hexit : Check.Plain (Check.emit (.exitBlock id s)) := .emit trivial
    rw [Block.mentions, notesOfMentions_append]
    refine .bind (Check.functions_notes cfg id _) (fun _ => ?_) rfl
    exact (Check.stmts_notes cfg { scope := s } id _ statements).bind_nothing fun _ =>
      hexit.notes fun _ _ _ => trivial
  have hroot := Check.Notes.opening (p := Run.note?) (m := Check.enterBlock id none)
    (I := fun r => r = Run.mk record [] [] [] none) (fun _ => ⟨rfl, rfl⟩) (fun _ => rfl)
    (fun r hr hfault => by
      subst hr
      exact (Models.enterFirst hrecord hfault).sees) hmid
  obtain ⟨es, hes, hbegins, hend⟩ := hroot.notes _ rfl
  have hevents : (runBlock cfg record ⟨id, statements, span⟩).events = es := hes.events
  rw [hevents]
  exact ⟨hbegins, fun hfault => (hend hfault).2⟩

end Yul
