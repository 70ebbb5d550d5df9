import Yul.Proofs.Check.Exprs
import Yul.Proofs.Run.Checks
import Yul.Proofs.Effects.Deeds

/-!
# What an analysis makes of code with problems

`Performs I J m a` is the specification of a part `m` of an analysis that may find problems: started
from a state with `I`, it leads to a state with `J` unless the run has a fault, and does what the
account `a` says. The parts of an analysis do what `Stmt.deeds` and `Block.deeds` say of their code,
whatever is wrong with it (`stmt_performs`, `codeBlock_performs`).
-/

namespace Yul

/-! ## What names stand for -/

/-- What an entity is as far as calls and declarations go. -/
def Entity.standing : Entity → Standing
  | «variable» _ => .variable
  | function home _ _ => .function home

namespace Env

/-- What a name stands for; a name that is taken but cannot be seen is that of a variable beyond a
function. -/
def standing (env : Env) (x : Name) : Option Standing :=
  ((env.visible x).map Entity.standing).or (if x ∈ env.taken then some .hidden else none)

variable {env : Env} {x : Name}

theorem standing_eq_none_iff : env.standing x = none ↔ env.visible x = none ∧ x ∉ env.taken := by
  rw [standing, Option.or_eq_none_iff, Option.map_eq_none_iff]
  refine and_congr_right fun _ => ?_
  split <;> simp [*]

theorem standing_declare (env : Env) (name : Name) (e : Entity) (x : Name) :
    (env.declare name e).standing x = if x = name then some e.standing else env.standing x := by
  by_cases hx : x = name
  · simp [standing, declare, hx]
  · simp [standing, declare, hx]

theorem standing_inFunction (htaken : (env.visible x).isSome → x ∈ env.taken) :
    env.inFunction.standing x = (env.standing x).map Standing.hide := by
  rw [standing, standing, inFunction]
  dsimp only
  cases h : env.visible x with
  | none =>
    by_cases hx : x ∈ env.taken
    · simp [hx, Standing.hide]
    · simp [hx]
  | some e =>
    have hx := htaken (h ▸ rfl)
    cases e <;> simp [hx, Entity.isVariable, Entity.standing, Standing.hide, Option.filter_some]

theorem home_of_standing (env : Env) (x : Name) :
    (env.standing x).bind Standing.home? = (env.visible x).bind (·.standing.home?) := by
  rw [standing]
  cases env.visible x with
  | some e => rfl
  | none => split <;> rfl

end Env

namespace ScopeTable

theorem isTaken_of_lookup {t : ScopeTable} {id : ScopeId} {x : Name} {found : ScopeId × Symbol}
    (h : t.lookup id x = some found) : t.isTaken id x = true := by
  rw [lookup] at h
  rw [isTaken]
  generalize false = hidden at h
  generalize t.chain id = row at h ⊢
  induction row generalizing hidden with
  | nil => exact absurd h (by simp [visible])
  | cons entry outer ih =>
    obtain ⟨i, s⟩ := entry
    rw [visible] at h
    rw [List.any_cons, Bool.or_eq_true]
    split at h
    · next symbol hfind => exact .inl (by simp [Scope.declares, hfind])
    · exact .inr (ih _ h)

end ScopeTable

/-- A state of a run agrees with what names stand for around the code at hand. If `here` is a
block, then `scope` is its scope. -/
def Sees (here : Option BlockId) (around : Surroundings) (scope : Nat) (r : Run) : Prop :=
  ∃ env, Models here around.homes env scope r ∧ env.standing = around

section Sees

variable {here : Option BlockId} {home : Homes} {env : Env} {around : Surroundings} {scope : Nat}
  {r : Run}

theorem Models.taken_of_visible (h : Models here home env scope r) (x : Name)
    (hx : (env.visible x).isSome) : x ∈ env.taken := by
  have hdenotes := h.visible x
  rw [← h.taken x]
  generalize hfound : r.record.scopes.lookup scope x = found at hdenotes
  generalize env.visible x = e at hdenotes hx
  cases hdenotes with
  | none => exact absurd hx (by simp)
  | «variable» | function _ => exact ScopeTable.isTaken_of_lookup hfound

theorem Models.sees (h : Models here home env scope r) : Sees here env.standing scope r := by
  refine ⟨env, { h with homes := fun x id parameters returns hx => ?_ }, rfl⟩
  rw [Surroundings.homes, env.home_of_standing, hx]
  rfl

namespace Sees

theorem ready (h : Sees here around scope r) : r.Ready scope := by
  obtain ⟨env, hr, -⟩ := h
  exact hr.ready

theorem of_alike (h : Sees here around scope r) {r' : Run} (halike : r.Alike r')
    (hfault : r'.fault = none) : Sees here around scope r' := by
  obtain ⟨env, hr, henv⟩ := h
  exact ⟨env, hr.of_alike halike hfault, henv⟩

theorem taken_iff (h : Sees here around scope r) (x : Name) :
    r.record.scopes.isTaken scope x = true ↔ around x ≠ none := by
  obtain ⟨env, hr, rfl⟩ := h
  rw [hr.taken x, Ne, Env.standing_eq_none_iff]
  constructor
  · exact fun hx hnone => hnone.2 hx
  · intro hsome
    by_contra hx
    refine hsome ⟨?_, hx⟩
    by_contra hvisible
    exact hx (hr.taken_of_visible x (Option.isSome_iff_ne_none.mpr hvisible))

theorem declare (h : Sees here around scope r) {name : Name} {symbol : Symbol} {e : Entity}
    (hfree : r.record.scopes.isTaken scope name = false)
    (hdenotes : r.record.Denotes (some (scope, symbol)) (some e)) :
    Sees here (around.accept name e.standing) scope (r.take (.declare scope name symbol)) := by
  have hnone : around name = none := by
    by_contra hsome
    rw [(h.taken_iff name).mpr hsome] at hfree
    exact absurd hfree (by simp)
  obtain ⟨env, hr, rfl⟩ := h
  have hhome (x : Name) (id : BlockId) (parameters returns : List Label)
      (hx : (env.declare name e).visible x = some (.function id parameters returns)) :
      Surroundings.homes (env.declare name e).standing x = some id := by
    rw [Surroundings.homes, Env.home_of_standing, hx]
    rfl
  refine cast (congrArg (Sees here · scope _) ?_) (hr.declare hfree hdenotes hhome).sees
  funext x
  rw [Env.standing_declare, Surroundings.accept]
  by_cases hx : x = name
  · rw [if_pos hx, if_pos hx, hx, hnone, Option.none_or]
  · rw [if_neg hx, if_neg hx, Option.or_none]

theorem openParameters (h : Sees here around scope r) (body : BlockId) :
    Sees none around.inFunction r.record.scopes.size (r.take (.openParameters body scope)) := by
  obtain ⟨env, hr, rfl⟩ := h
  have hnew := (hr.openParameters body).sees
  refine cast (congrArg (Sees none · _ _) ?_) hnew
  funext x
  exact Env.standing_inFunction (hr.taken_of_visible x)

theorem enterFunction (h : Sees here around scope r) (f : FunctionId) :
    Sees here around scope (r.take (.enterFunction f)) := by
  obtain ⟨env, hr, henv⟩ := h
  exact ⟨env, hr.enterFunction f, henv⟩

theorem means (h : Sees here around scope r) (x : Name) :
    ∃ env : Env, env.standing = around ∧
      Check.Means env x r (Check.meaning r.record.scopes scope x) := by
  obtain ⟨env, hr, henv⟩ := h
  exact ⟨env, henv, Check.means_of_models hr x⟩

end Sees

end Sees

/-! ## Specifications -/

theorem Silent.does {scope : ScopeId} {r r' : Run} (h : Silent scope r r') (hfault : r'.fault = none) :
    r.Does r' {} := by
  induction h using Relation.ReflTransGen.head_induction_on with
  | refl => exact .refl r'
  | head hstep hrest ih =>
    obtain ⟨e, -, hnone, -, rfl⟩ := hstep
    exact .of_take hnone ((Walk.of_quiet (Silent.quiet hrest)).fault_eq_none hfault) ih

namespace Check

variable {α β : Type} {I I₁ J : Run → Prop} {a b c : Account FunctionKey}

/-- Started from a state with `I`, a part of an analysis does what `a` says and leads to a state with
`J`, unless the run has a fault. -/
structure Performs (I J : Run → Prop) (m : Check α) (a : Account FunctionKey) : Prop where
  reaches : ∀ r : Run, r.Reaches (m.after r)
  performs : ∀ r, I r → (m.after r).fault = none → J (m.after r) ∧ r.Does (m.after r) a

namespace Performs

theorem bind_of {m : Check α} {f : α → Check β} {P : α → Prop} (hvalue : ∀ r, P (m.value r))
    (hm : Performs I I₁ m a) (hf : ∀ x, P x → Performs I₁ J (f x) b) (hc : c = a.append b) :
    Performs I J (m >>= f) c where
  reaches r := (hm.reaches r).trans ((hf _ (hvalue r)).reaches _)
  performs r hI hfault := by
    have hf := hf _ (hvalue r)
    have hreaches := hf.reaches (m.after r)
    obtain ⟨hI₁, hdoes⟩ := hm.performs r hI (hreaches.fault_eq_none hfault)
    obtain ⟨hJ, hdoes'⟩ := hf.performs _ hI₁ hfault
    exact ⟨hJ, hc ▸ hdoes.trans hdoes' hreaches hfault⟩

theorem bind {m : Check α} {f : α → Check β} (hm : Performs I I₁ m a)
    (hf : ∀ x, Performs I₁ J (f x) b) (hc : c = a.append b) : Performs I J (m >>= f) c :=
  hm.bind_of (P := fun _ => True) (fun _ => trivial) (fun x _ => hf x) hc

end Performs

section Setting

variable (cfg : Setting) {here : Option BlockId} {around : Surroundings} {scope : Nat}

/-- The specification of a part of an analysis that declares nothing. -/
abbrev PerformsIn (here : Option BlockId) (around : Surroundings) (scope : Nat) (m : Check α)
    (a : Account FunctionKey) : Prop :=
  Performs (Sees here around scope) (Sees here around scope) m a

theorem Silently.performs {m : Check α} (hm : Silently scope m) : PerformsIn here around scope m {} where
  reaches := hm.quietly.reaches
  performs r hr hfault := ⟨hr.of_alike (hm r).quiet.alike hfault, (hm r).does hfault⟩

theorem Silently.performs_bind {m : Check α} {f : α → Check β} (hm : Silently scope m)
    (hf : ∀ x, Performs (Sees here around scope) J (f x) a) :
    Performs (Sees here around scope) J (m >>= f) a :=
  .bind hm.performs hf rfl

theorem Performs.bind_silently {m : Check α} {f : α → Check β}
    (hm : PerformsIn here around scope m a) (hf : ∀ x, Silently scope (f x)) :
    PerformsIn here around scope (m >>= f) a :=
  .bind hm (fun x => (hf x).performs) (Account.append_nil a).symm

theorem effects_performs (e : SideEffects) :
    PerformsIn here around scope (emit (.effects e)) (.ofActs [.effects e]) where
  reaches := reaches_emit _
  performs r hr hfault := by
    have hquiet : Event.IsQuiet scope (.effects e) := trivial
    exact ⟨hr.of_alike (hquiet.alike r) hfault, .effects hfault⟩

/-! ## Expressions -/

/-- What follows on finding a name is told by what the name stands for. -/
theorem find_performs {x : Name} {k : Meaning → Check α}
    (hquietly : Quietly scope (findMeaning scope x >>= k))
    (hk : ∀ (env : Env) (r : Run) (meaning : Meaning), env.standing = around →
      Means env x r meaning → ((k meaning).after r).fault = none → r.Does ((k meaning).after r) a) :
    PerformsIn here around scope (findMeaning scope x >>= k) a where
  reaches := hquietly.reaches
  performs r hr hfault := by
    have hlook : Event.IsQuiet scope (.look scope x) := rfl
    have hsees : Sees here around scope (r.take (.look scope x)) :=
      hr.of_alike (hlook.alike r) (hr.ready.quiet hlook).fault
    obtain ⟨env, henv, hmeans⟩ := hsees.means x
    exact ⟨hr.of_alike (hquietly r).alike hfault,
      .of_take rfl hsees.ready.fault (hk env _ _ henv hmeans hfault)⟩

theorem callee_performs (f : Identifier) :
    PerformsIn here around scope (callee cfg scope f (Builtin.find? f.name))
      (.ofActs (actsOfHead around.homes f.name)) := by
  have hquietly := callee_quietly cfg scope f (Builtin.find? f.name)
  rw [actsOfHead]
  cases hbuiltin : Builtin.find? f.name with
  | some b =>
    have hproblems := reportAll_silently scope (cfg.dialect.local_builtinProblems b) f.span
    exact hproblems.performs_bind fun _ => (effects_performs b.effects).bind_silently fun _ => .pure _
  | none =>
    rw [hbuiltin] at hquietly
    refine find_performs hquietly fun env r meaning henv hmeans hfault => ?_
    have hhome : around.homes f.name = (env.visible f.name).bind (·.standing.home?) := by
      rw [← env.home_of_standing, henv]
      rfl
    cases hmeans with
    | «variable» h =>
      rw [hhome, h]
      have hreport : Silently scope (report .callOfVariable f.span) := .report _ _ rfl
      exact (hreport r).does hfault
    | function h hid =>
      rw [hhome, h]
      exact .call hid hfault
    | missing h =>
      rw [hhome, h]
      have hreport : Silently scope (report (.functionNotFound f.name) f.span) := .report _ _ rfl
      exact (hreport r).does hfault

mutual

theorem expression_performs (e : Expr) :
    PerformsIn here around scope (expression cfg scope e) (e.deedsAccount around.homes) := by
  match e with
  | .literal l =>
    have hproblems := reportAll_silently scope (cfg.dialect.local_literalProblems l) l.span
    exact (hproblems.bind fun _ => .pure _).performs
  | .identifier x => exact ((identifier_silently cfg scope x).bind fun _ => .pure _).performs
  | .call f args _ =>
    rw [expression, Expr.deedsAccount, Expr.deeds, ← Account.ofActs_append]
    refine .bind (callee_performs cfg f) (fun signature => ?_) rfl
    refine (checkCount_silently scope f signature _).performs_bind fun _ => ?_
    exact (arguments_performs _ _ _ args).bind_silently fun _ => .pure _

theorem arguments_performs (builtin : Option Builtin) (expected : List Label) (index : Nat)
    (args : List Expr) :
    PerformsIn here around scope (arguments cfg scope builtin expected index args)
      (.ofActs (deedsOfArguments around.homes builtin index args)) := by
  match args with
  | [] => exact (Silently.pure ()).performs
  | e :: rest =>
    have hrest := arguments_performs builtin expected.tail (index + 1) rest
    rw [arguments, deedsOfArguments]
    cases builtin.bind (·.literalArgument? index) with
    | some kind => exact (stringArgument_silently cfg scope kind e).performs_bind fun _ => hrest
    | none =>
      refine .bind (expression_performs e) (fun values => ?_) (Account.ofActs_append _ _).symm
      refine (oneValue_silently scope values _).performs_bind fun given => ?_
      exact (checkValue_silently scope _ given _).performs_bind fun _ => hrest

end

theorem valueOf_performs (e : Expr) :
    PerformsIn here around scope (valueOf cfg scope e) (e.deedsAccount around.homes) :=
  (expression_performs cfg e).bind_silently fun values => oneValue_silently scope values _

theorem condition_performs (e : Expr) :
    PerformsIn here around scope (condition cfg scope e) (e.deedsAccount around.homes) := by
  refine (valueOf_performs cfg e).bind_silently fun type => ?_
  cases type with
  | some type => exact .ite (.pure ()) (.report _ _ rfl)
  | none => exact .pure ()

/-! ## Statements -/

theorem assignment_performs (xs : List Identifier) (value : Expr) (span : Span) :
    PerformsIn here around scope (assignment cfg scope xs value span)
      (value.deedsAccount around.homes) := by
  have hnone : Silently scope (targets cfg scope none 0 xs) :=
    targets_silently cfg scope fun _ h => absurd h (by simp)
  refine (checkTargets_silently scope [] xs).performs_bind fun _ => ?_
  refine (expression_performs cfg value).bind_silently fun types => ?_
  cases types with
  | none => exact hnone
  | some types =>
    dsimp only
    split
    · next hlength =>
      refine targets_silently cfg scope fun types' htypes => ?_
      obtain rfl := Option.some.inj htypes
      omega
    · exact .bind (.report _ _ rfl) fun _ => hnone

theorem declare_performs {what : Declared} {x : Identifier} {symbol : Symbol} {e : Entity}
    (hdenotes : ∀ r, Sees here around scope r → r.record.Denotes (some (scope, symbol)) (some e)) :
    Performs (Sees here around scope) (Sees here (around.accept x.name e.standing) scope)
      (declare what scope x symbol) {} := by
  have hnaming := reportAll_silently scope (Dialect.local_namingProblems x.name) x.span
  refine hnaming.performs_bind fun _ => ?_
  refine Silently.performs_bind (m := emit (.look scope x.name)) (.emit rfl rfl rfl) fun _ => ?_
  constructor
  · intro r
    rw [after_bind, value_get, after_get]
    split
    · exact reaches_report _ _ _
    · exact reaches_emit _ _
  · intro r hr
    rw [after_bind, value_get, after_get]
    split
    · next htaken =>
      rw [Surroundings.accept_of_taken ((hr.taken_iff _).mp htaken)]
      exact (Silently.report (.alreadyTaken what x.name) x.span rfl).performs.performs r hr
    · next hfree =>
      intro hfault
      exact ⟨hr.declare (Bool.eq_false_iff.mpr hfree) (hdenotes r hr),
        .of_take rfl hfault (.refl _)⟩

theorem declareVariable_performs (x : TypedName) (type : Label) :
    Performs (Sees here around scope) (Sees here (around.accept x.name .variable) scope)
      (declareVariable scope x type) {} :=
  declare_performs (x := ⟨x.name, x.span⟩) (e := .variable type) fun _ _ => .variable

theorem declareVariables_performs (xs : List TypedName) :
    Performs (Sees here around scope) (Sees here (around.acceptVariables xs) scope)
      (declareVariables scope xs (cfg.dialect.declaredLabels xs)) {} := by
  induction xs generalizing around with
  | nil => exact (Silently.pure ()).performs
  | cons x xs ih => exact .bind (declareVariable_performs x _) (fun _ => ih) rfl

theorem parameters_performs (f : FunctionDef) :
    Performs (Sees here around scope)
      (Sees here (around.acceptVariables (f.parameters ++ f.returns)) scope)
      (parameters cfg scope f) {} := by
  rw [parameters]
  generalize f.parameters ++ f.returns = xs
  induction xs generalizing around with
  | nil => exact (Silently.pure ()).performs
  | cons x xs ih => exact .bind (declareVariable_performs x _) (fun _ => ih) rfl

theorem initialValue_performs (xs : List TypedName) (types : List Label) (value : Option Expr)
    (span : Span) : PerformsIn here around scope (initialValue cfg scope xs types value span)
      ((value.map (·.deedsAccount around.homes)).getD {}) := by
  cases value with
  | none => exact (Silently.pure ()).performs
  | some value =>
    refine (expression_performs cfg value).bind_silently fun given => ?_
    cases given with
    | none => exact .pure ()
    | some given => exact .ite (checkInitial_silently scope xs types given) (.report _ _ rfl)

theorem declaration_performs (xs : List TypedName) (value : Option Expr) (span : Span) :
    Performs (Sees here around scope) (Sees here (around.acceptVariables xs) scope)
      (declaration cfg scope xs value span)
      ((value.map (·.deedsAccount around.homes)).getD {}) := by
  refine .bind_of (P := (· = cfg.dialect.declaredLabels xs)) (value_declaredTypes cfg xs)
    (declaredTypes_silently cfg scope xs).performs ?_ rfl
  rintro _ rfl
  exact .bind (initialValue_performs cfg xs _ value span)
    (fun _ => declareVariables_performs cfg xs) (Account.append_nil _).symm

theorem expressionStatement_performs (e : Expr) :
    PerformsIn here around scope (expressionStatement cfg scope e) (e.deedsAccount around.homes) := by
  refine (expression_performs cfg e).bind_silently fun types => ?_
  cases types with
  | none => exact .pure ()
  | some types => exact .ite (.pure ()) (.report _ _ rfl)

theorem declareFunction_performs {id : BlockId} (f : FunctionDef) :
    Performs (Sees (some id) around scope)
      (Sees (some id) (around.accept f.name.name (.function id)) scope)
      (declareFunction cfg scope f) {} := by
  refine (declaredTypes_silently cfg scope f.parameters).performs_bind fun parameters => ?_
  refine (declaredTypes_silently cfg scope f.returns).performs_bind fun returns => ?_
  refine declare_performs (e := .function id parameters returns) fun r hr => ?_
  obtain ⟨env, hmodels, -⟩ := hr
  exact .function (hmodels.here id rfl)

theorem functions_performs (id : BlockId) (statements : List Stmt) :
    Performs (Sees (some id) around scope) (Sees (some id) (around.inBlock id statements) scope)
      ((functionsOf statements).forM (declareFunction cfg scope)) {} := by
  rw [Surroundings.inBlock]
  generalize functionsOf statements = fs
  induction fs generalizing around with
  | nil => exact (Silently.pure ()).performs
  | cons f fs ih => exact .bind (declareFunction_performs cfg f) (fun _ => ih) rfl

/-! ## Blocks and functions -/

theorem bracket_performs {id : BlockId} {inner : List BlockId} {mid : ScopeId → Check Unit}
    {J : Nat → Run → Prop} (hwalks : ∀ s, Walks s inner (mid s))
    (hmid : ∀ s, Performs (Sees (some id) around s) (J s) (mid s) a) :
    PerformsIn here around scope
      (do
        let s ← enterBlock id (some scope)
        mid s
        emit (.exitBlock id s))
      (a.inBlock id) where
  reaches r := .head ⟨_, rfl⟩ (((hmid _).reaches _).tail ⟨_, rfl⟩)
  performs r hr hfault := by
    have hwalk := hwalks r.record.scopes.size (r.take (.enterBlock id (some scope)))
    have hlast := (Run.fits_of_take hfault).1
    obtain ⟨env, hmodels, rfl⟩ := hr
    have hentered := hmodels.entered hwalk hlast
    obtain ⟨-, hdoes⟩ := (hmid _).performs _ hentered.sees hlast
    exact ⟨(hmodels.exited hwalk hfault).sees, .block hdoes hentered.ready.fault hfault⟩

theorem block_performs {id : BlockId} {statements : List Stmt} {inner : List BlockId}
    {inside : ScopeId → Check Unit} {J : Nat → Run → Prop} (hwalks : ∀ s, Walks s inner (inside s))
    (hinside : ∀ s, Performs (Sees (some id) (around.inBlock id statements) s) (J s) (inside s) a) :
    PerformsIn here around scope
      (do
        let s ← openBlock cfg id statements (some scope)
        inside s
        emit (.exitBlock id s))
      (a.inBlock id) := by
  have hfunctions (s : Nat) : Walks s []
      ((functionsOf statements).forM (declareFunction cfg s)) :=
    .forM fun f => declareFunction_walks cfg s f
  exact bracket_performs (fun s => (hfunctions s).bind fun _ => hwalks s)
    fun s => .bind (functions_performs cfg id statements) (fun _ => hinside s) rfl

theorem function_performs {id : BlockId} (name : Name) (body : BlockId) {inner : List BlockId}
    {params inside : ScopeId → Check Unit} {around' : Surroundings} {J : Nat → Run → Prop}
    (hparamWalks : ∀ s, Walks s [] (params s)) (hwalks : ∀ s, Walks s inner (inside s))
    (hparams : ∀ s, Performs (Sees none around.inFunction s) (Sees none around' s) (params s) {})
    (hinside : ∀ s, Performs (Sees none around' s) (J s) (inside s) a) :
    PerformsIn (some id) around scope
      (do
        let s ← openParameters body scope
        params s
        emit (.enterFunction ⟨scope, name⟩)
        inside s
        emit (.exitFunction ⟨scope, name⟩))
      (a.inFunction ⟨id, name⟩) where
  reaches := (function_walks scope name body hparamWalks hwalks).reaches
  performs r hr hfault := by
    have hparams := (hparams r.record.scopes.size).performs _ (hr.openParameters body)
    have hparamWalk := hparamWalks r.record.scopes.size (r.take (.openParameters body scope))
    generalize hr₁ : (params r.record.scopes.size).after (r.take (.openParameters body scope)) = r₁
      at hparams hparamWalk
    have hinside := (hinside r.record.scopes.size).performs (r₁.take (.enterFunction ⟨scope, name⟩))
    have hwalk := hwalks r.record.scopes.size (r₁.take (.enterFunction ⟨scope, name⟩))
    generalize hr₂ : (inside r.record.scopes.size).after (r₁.take (.enterFunction ⟨scope, name⟩)) = r₂
      at hinside hwalk
    rw [after_function scope name body hr₁ hr₂] at hfault ⊢
    have hfault₂ := (Run.fits_of_take hfault).1
    have henter := hwalk.fault_eq_none hfault₂
    obtain ⟨hsees, hdoes₁⟩ := hparams (Run.fits_of_take henter).1
    obtain ⟨-, hdoes₂⟩ := hinside (hsees.enterFunction _) hfault₂
    have hopen := hr.openParameters body
    obtain ⟨env, hmodels, rfl⟩ := hr
    have hreaches : r.Reaches r₂ :=
      .head ⟨_, rfl⟩ (hparamWalk.reaches.trans (.head ⟨_, rfl⟩ hwalk.reaches))
    exact ⟨(hmodels.exitedFunction hparamWalk hwalk hfault).sees,
      .function hdoes₁ hdoes₂ (hreaches.blockScopes hfault₂ (hmodels.here id rfl))
        hopen.ready.fault henter hwalk.reaches hfault⟩

theorem forLoop_performs (e : Expr) {id : BlockId} {statements : List Stmt}
    {inits bodies posts : ScopeId → Check Unit} {is bs ps : List BlockId} {inner : Surroundings}
    (hinitWalks : ∀ s, Walks s is (inits s)) (hbodyWalks : ∀ s, Walks s bs (bodies s))
    (hpostWalks : ∀ s, Walks s ps (posts s))
    (hinit : ∀ s, Performs (Sees (some id) (around.inBlock id statements) s)
      (Sees (some id) inner s) (inits s) a)
    (hbody : ∀ s, PerformsIn (some id) inner s (bodies s) b)
    (hpost : ∀ s, PerformsIn (some id) inner s (posts s) c) :
    PerformsIn here around scope
      (do
        let s ← openBlock cfg id statements (some scope)
        inits s
        condition cfg s e
        bodies s
        posts s
        emit (.effects .looping)
        emit (.exitBlock id s))
      (Account.inBlock id <| a.append <| (e.deedsAccount inner.homes).append <| b.append <|
        c.append (.ofActs [.effects .looping])) := by
  have hwalks (s : Nat) := loop_walks cfg s e (hinitWalks s) (hbodyWalks s) (hpostWalks s)
  refine block_performs cfg (J := Sees (some id) inner) hwalks fun s => ?_
  refine .bind (hinit s) (fun _ => ?_) rfl
  refine .bind (condition_performs cfg e) (fun _ => ?_) rfl
  refine .bind (hbody s) (fun _ => ?_) rfl
  exact .bind (hpost s) (fun _ => effects_performs .looping) rfl

/-! ## The whole walk -/

mutual

/-- Checking a statement does what the statement does, and leads to the names behind it. -/
theorem stmt_performs (ctx : Context) (id : BlockId) (around : Surroundings) (s : Stmt) :
    Performs (Sees (some id) around ctx.scope) (Sees (some id) (around.after s) ctx.scope)
      (stmt cfg ctx s) (s.deeds around id) := by
  match s with
  | .expression e => exact expressionStatement_performs cfg e
  | .assignment xs value span => exact assignment_performs cfg xs value span
  | .declaration xs none span => exact declaration_performs cfg xs none span
  | .declaration xs (some value) span => exact declaration_performs cfg xs (some value) span
  | .function f _ => exact functionDef_performs ctx id around f
  | .ifThen e body _ =>
    exact .bind (condition_performs cfg e) (fun _ => codeBlock_performs ctx (some id) around body) rfl
  | .switch subject arms span =>
    rw [stmt]
    refine .bind (valueOf_performs cfg subject) (fun type => ?_) rfl
    have harms := cases_performs ctx (some id) around type [] false arms
    dsimp only
    split
    · exact (Silently.report .onlyDefault span rfl).performs_bind fun _ => harms
    · exact harms
  | .forLoop ⟨bid, statements, _⟩ e post body _ =>
    let inits (scope : Nat) : Context := { ctx with scope, inLoopBody := false, inInit := true }
    let bodies (scope : Nat) : Context := { ctx with scope, inLoopBody := true, inInit := false }
    let posts (scope : Nat) : Context := { ctx with scope, inLoopBody := false, inInit := false }
    exact forLoop_performs cfg e (fun scope => stmts_walks cfg (inits scope) statements)
      (fun scope => codeBlock_walks cfg (bodies scope) body)
      (fun scope => codeBlock_walks cfg (posts scope) post)
      (fun scope => stmts_performs (inits scope) bid _ statements)
      (fun scope => codeBlock_performs (bodies scope) (some bid) _ body)
      (fun scope => codeBlock_performs (posts scope) (some bid) _ post)
  | .breakLoop span => exact (loopJump_silently ctx.scope ctx _ span).performs
  | .continueLoop span => exact (loopJump_silently ctx.scope ctx _ span).performs
  | .leave span =>
    have hleave : Silently ctx.scope (unless ctx.inFunction do report .leaveOutsideFunction span) :=
      .ite (.pure ()) (.report _ _ rfl)
    exact hleave.performs
  | .block b => exact codeBlock_performs ctx (some id) around b

theorem functionDef_performs (ctx : Context) (id : BlockId) (around : Surroundings)
    (f : FunctionDef) :
    PerformsIn (some id) around ctx.scope (function cfg ctx f) (f.deeds around id) := by
  match f with
  | ⟨name, params, returns, body⟩ =>
    have hparams (scope : Nat) := parameters_walks cfg scope ⟨name, params, returns, body⟩
    have hwalks (scope : Nat) := codeBlock_walks cfg { scope, inFunction := true } body
    let inner := around.inFunction.acceptVariables (params ++ returns)
    have hinside (scope : Nat) : PerformsIn none inner scope
        (block cfg { scope, inFunction := true } body) (body.deeds inner) :=
      codeBlock_performs { scope, inFunction := true } none inner body
    have hfunction : PerformsIn (some id) around ctx.scope _
        ((body.deeds inner).inFunction ⟨id, name.name⟩) :=
      function_performs name.name body.id hparams hwalks
        (fun scope => parameters_performs cfg ⟨name, params, returns, body⟩) hinside
    rw [function]
    dsimp only
    split
    · exact (Silently.report .functionInInit name.span rfl).performs_bind fun _ => hfunction
    · exact hfunction

theorem codeBlock_performs (ctx : Context) (here : Option BlockId) (around : Surroundings)
    (b : Block) : PerformsIn here around ctx.scope (block cfg ctx b) (b.deeds around) := by
  match b with
  | ⟨id, statements, _⟩ =>
    exact block_performs cfg (fun s => stmts_walks cfg { ctx with scope := s } statements)
      fun s => stmts_performs { ctx with scope := s } id _ statements

theorem stmts_performs (ctx : Context) (id : BlockId) (around : Surroundings) (ss : List Stmt) :
    Performs (Sees (some id) around ctx.scope)
      (Sees (some id) (ss.foldl Surroundings.after around) ctx.scope) (stmts cfg ctx ss)
      (deedsOfStmts around id ss) := by
  match ss with
  | [] => exact (Silently.pure ()).performs
  | s :: rest =>
    exact .bind (stmt_performs ctx id around s) (fun _ => stmts_performs ctx id _ rest) rfl

theorem cases_performs (ctx : Context) (here : Option BlockId) (around : Surroundings)
    (subject : Option Label) (seen : List (Label × Word)) (hasDefault : Bool) (arms : List Case) :
    PerformsIn here around ctx.scope (cases cfg ctx subject seen hasDefault arms)
      (deedsOfCases around arms) := by
  match arms with
  | [] => exact (Silently.pure ()).performs
  | ⟨value, body, span⟩ :: rest =>
    rw [cases]
    refine (caseValue_silently cfg ctx.scope subject seen hasDefault value span).performs_bind
      fun _ => ?_
    exact .bind (codeBlock_performs ctx here around body)
      (fun _ => cases_performs ctx here around subject _ _ rest) rfl

end

end Setting

end Check

end Yul
