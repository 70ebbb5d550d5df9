import Yul.Proofs.Effects.Exact
import Yul.Proofs.Erase.Code
import Yul.Proofs.Scope.Mirror

/-!
# Typed code is untyped code

Code that is correct in the typed dialect is correct in the untyped one once its annotations are
erased, and what its blocks and functions may do is the same (`untyped_of_typed`). In the untyped
dialect all labels are empty, so labels that fit still fit; the values of the arms of a switch differ
because in the typed dialect all of them have the label of the subject.
-/

namespace Yul

/-! ## Labels -/

/-- As many labels of the untyped dialect. -/
def blank (types : List Label) : List Label :=
  types.map fun _ => ""

theorem blank_replicate (n : Nat) (label : Label) : blank (.replicate n label) = .replicate n "" :=
  List.map_replicate

def Entity.erase : Entity → Entity
  | «variable» _ => .variable ""
  | function home parameters returns => .function home (blank parameters) (blank returns)

theorem Entity.isVariable_erase (e : Entity) : e.erase.isVariable = e.isVariable := by
  cases e <;> rfl

/-- A setting with the same builtins and data whose dialect is untyped, without names from outside. -/
structure Setting.Untypes (cfg cfg' : Setting) : Prop where
  version : cfg'.dialect.version = cfg.dialect.version
  flavour : cfg'.dialect.flavour = .untyped
  dataNames : cfg'.dataNames = cfg.dataNames
  resolver : cfg.resolver = none

namespace Dialect

variable {d d' : Dialect}

theorem defaultType_of_untyped (h : d.flavour = .untyped) : d.defaultType = "" := by
  rw [defaultType, h]

theorem boolType_of_untyped (h : d.flavour = .untyped) : d.boolType = "" := by
  rw [boolType, h]

theorem annotates_none (d : Dialect) : d.Annotates none :=
  fun _ h => absurd h (by simp)

theorem annotatesAll_erase (d : Dialect) (xs : List TypedName) :
    d.AnnotatesAll (xs.map TypedName.erase) :=
  List.forall_mem_map.mpr fun _ _ => d.annotates_none

theorem label_erase (h : d.flavour = .untyped) (l : Literal) : l.erase.label d = "" := by
  obtain ⟨value, type, span⟩ := l
  cases value with
  | truth => exact boolType_of_untyped h
  | number | bytes => exact defaultType_of_untyped h

theorem declaredLabels_erase (h : d'.flavour = .untyped) (xs : List TypedName) :
    d'.declaredLabels (xs.map TypedName.erase) = blank (d.declaredLabels xs) := by
  rw [declaredLabels, declaredLabels, blank, List.map_map, List.map_map]
  exact List.map_congr_left fun _ _ => defaultType_of_untyped h

theorem parameterTypes_untyped (h : d'.flavour = .untyped) (b : Builtin) :
    d'.parameterTypes b = blank (d.parameterTypes b) := by
  rw [parameterTypes, parameterTypes, blank_replicate, defaultType_of_untyped h]

theorem returnTypes_untyped (h : d'.flavour = .untyped) (b : Builtin) :
    d'.returnTypes b = blank (d.returnTypes b) := by
  rw [returnTypes, returnTypes, blank_replicate, defaultType_of_untyped h, boolType_of_untyped h,
    ite_self]

end Dialect

theorem Literal.WellFormed.erase {d d' : Dialect} {l : Literal} (hl : l.WellFormed d)
    (h : d'.flavour = .untyped) : l.erase.WellFormed d' where
  label := d'.annotates_none
  fits := hl.fits
  truth _ _ := (Dialect.label_erase h l).trans (Dialect.boolType_of_untyped h).symm
  other _ htyped := absurd (h.symm.trans htyped) (by simp)

/-! ## Names -/

namespace Env

/-- The same names, with their labels erased. -/
structure Erases (env env' : Env) : Prop where
  visible : ∀ x, env'.visible x = (env.visible x).map Entity.erase
  taken : env'.taken = env.taken

/-- Names that are declared, with their labels erased. -/
abbrev eraseNames (names : List (Name × Entity)) : List (Name × Entity) :=
  names.map fun (x, e) => (x, e.erase)

namespace Erases

variable {env env' : Env}

theorem declare (h : env.Erases env') (name : Name) (e : Entity) :
    (env.declare name e).Erases (env'.declare name e.erase) where
  visible x := by
    unfold Env.declare
    dsimp only
    rw [h.visible x, apply_ite (Option.map Entity.erase), Option.map_some]
  taken := congrArg (name :: ·) h.taken

theorem declareAll (h : env.Erases env') (names : List (Name × Entity)) :
    (env.declareAll names).Erases (env'.declareAll (eraseNames names)) := by
  induction names generalizing env env' with
  | nil => exact h
  | cons entry names ih => exact ih (h.declare entry.1 entry.2)

theorem declarable (h : env.Erases env') {names : List (Name × Entity)}
    (hnames : env.Declarable names) : env'.Declarable (eraseNames names) := by
  induction names generalizing env env' with
  | nil => trivial
  | cons entry names ih =>
    obtain ⟨⟨hallowed, hfree⟩, hrest⟩ := hnames
    exact ⟨⟨hallowed, h.taken ▸ hfree⟩, ih (h.declare _ _) hrest⟩

theorem inFunction (h : env.Erases env') : env.inFunction.Erases env'.inFunction where
  visible x := by
    unfold Env.inFunction
    dsimp only
    rw [h.visible x, Option.filter_map]
    congr 2
    funext e
    exact congrArg not e.isVariable_erase
  taken := h.taken

end Erases

end Env

section Setting

variable {cfg cfg' : Setting} {env env' : Env}

theorem variablesOf_erase (h : cfg.Untypes cfg') (xs : List TypedName) :
    variablesOf cfg' (xs.map TypedName.erase) = Env.eraseNames (variablesOf cfg xs) := by
  rw [variablesOf, variablesOf, Env.eraseNames, List.map_map, List.map_map]
  refine List.map_congr_left fun x _ => ?_
  exact congrArg (fun label => (x.name, Entity.variable label))
    (Dialect.defaultType_of_untyped h.flavour)

theorem signaturesOf_erase (h : cfg.Untypes cfg') (id : BlockId) (ss : List Stmt) :
    signaturesOf cfg' id (eraseStmts ss) = Env.eraseNames (signaturesOf cfg id ss) := by
  rw [signaturesOf, signaturesOf, functionsOf_eraseStmts, Env.eraseNames, List.map_map, List.map_map]
  refine List.map_congr_left fun f _ => ?_
  obtain ⟨name, parameters, returns, body⟩ := f
  exact congrArg₂ (fun ps rs => (name.name, Entity.function id ps rs))
    (Dialect.declaredLabels_erase h.flavour parameters)
    (Dialect.declaredLabels_erase h.flavour returns)

theorem Env.Erases.after (henv : env.Erases env') (h : cfg.Untypes cfg') (s : Stmt) :
    (env.after cfg s).Erases (env'.after cfg' s.erase) := by
  cases s with
  | declaration xs _ _ =>
    rw [Stmt.erase, Env.after, Env.after, variablesOf_erase h]
    exact henv.declareAll _
  | _ => exact henv

theorem Env.Erases.foldl_after (henv : env.Erases env') (h : cfg.Untypes cfg') (ss : List Stmt) :
    (ss.foldl (Env.after cfg) env).Erases ((eraseStmts ss).foldl (Env.after cfg') env') := by
  induction ss generalizing env env' with
  | nil => exact henv
  | cons s ss ih => exact ih (henv.after h s)

theorem Env.Erases.inBlock (henv : env.Erases env') (h : cfg.Untypes cfg') (id : BlockId)
    (ss : List Stmt) : (env.inBlock cfg id ss).Erases (env'.inBlock cfg' id (eraseStmts ss)) := by
  rw [Env.inBlock, Env.inBlock, signaturesOf_erase h]
  exact henv.declareAll _

theorem Env.Erases.opensBlock (henv : env.Erases env') (h : cfg.Untypes cfg') {id : BlockId}
    {ss : List Stmt} (hopens : env.OpensBlock cfg id ss) :
    env'.OpensBlock cfg' id (eraseStmts ss) := by
  rw [Env.OpensBlock, functionsOf_eraseStmts, signaturesOf_erase h]
  refine ⟨List.forall_mem_map.mpr fun f _ => ?_, henv.declarable hopens.2⟩
  cases f
  exact ⟨Dialect.annotatesAll_erase _ _, Dialect.annotatesAll_erase _ _⟩

/-! ## Expressions -/

theorem Refers.erase {kind : AccessKind} {x : Identifier} {type : Label}
    (hx : Refers cfg env kind x type) (h : cfg.Untypes cfg') (henv : env.Erases env') :
    Refers cfg' env' kind x "" := by
  cases hx with
  | seen hx => exact .seen (by rw [henv.visible, hx]; rfl)
  | outside _ _ htype =>
    rw [Setting.outsideType?, h.resolver] at htype
    exact absurd htype (by simp)

mutual

theorem Yields.erase {e : Expr} {types : List Label} (he : Yields cfg env e types)
    (h : cfg.Untypes cfg') (henv : env.Erases env') : Yields cfg' env' e.erase (blank types) := by
  match he with
  | @Yields.literal _ _ l hl =>
    have hliteral : Yields cfg' env' (.literal l.erase) [l.erase.label cfg'.dialect] :=
      .literal (hl.erase h.flavour)
    rwa [Dialect.label_erase h.flavour] at hliteral
  | .identifier hx => exact .identifier (hx.erase h henv)
  | @Yields.builtin _ _ f b args span hbuiltin hversion hargs =>
    have hargs := hargs.erase h henv
    rw [← h.version] at hversion
    rw [← Dialect.parameterTypes_untyped h.flavour] at hargs
    have hreturns : cfg'.dialect.returnTypes b = blank (cfg.dialect.returnTypes b) :=
      Dialect.returnTypes_untyped h.flavour b
    rw [← hreturns]
    exact .builtin hbuiltin hversion hargs
  | .function hbuiltin hf hargs =>
    exact .function hbuiltin (by rw [henv.visible, hf]; rfl) (hargs.erase h henv)

theorem Takes.erase {b : Option Builtin} {index : Nat} {types : List Label} {args : List Expr}
    (hargs : Takes cfg env b index types args) (h : cfg.Untypes cfg') (henv : env.Erases env') :
    Takes cfg' env' b index (blank types) (eraseExprs args) := by
  match hargs with
  | .nil => exact .nil
  | @Takes.string _ _ _ _ _ _ a _ _ l bytes hkind ha hstring hrest =>
    have herased : a.erase.string? = some (l.erase, bytes) := by
      rw [a.string?_erase, ha]
      rfl
    exact .string hkind herased ⟨Dialect.annotates_none _, h.dataNames ▸ hstring.known⟩
      (hrest.erase h henv)
  | .value hkind ha hrest => exact .value hkind (ha.erase h henv) (hrest.erase h henv)

end

theorem Yields.condition {e : Expr} (he : Yields cfg env e [cfg.dialect.boolType])
    (h : cfg.Untypes cfg') (henv : env.Erases env') :
    Yields cfg' env' e.erase [cfg'.dialect.boolType] := by
  rw [Dialect.boolType_of_untyped h.flavour]
  exact he.erase h henv

/-! ## Statements -/

theorem values_eraseCases (arms : List Case) :
    (eraseCases arms).filterMap Case.value = (arms.filterMap Case.value).map Literal.erase := by
  induction arms with
  | nil => rfl
  | cons arm arms ih =>
    obtain ⟨value, body, span⟩ := arm
    cases value with
    | none => exact ih
    | some l => exact congrArg (l.erase :: ·) ih

theorem countDefaults_eraseCases (arms : List Case) :
    (eraseCases arms).countP Case.isDefault = arms.countP Case.isDefault := by
  induction arms with
  | nil => rfl
  | cons arm arms ih =>
    obtain ⟨value, body, span⟩ := arm
    rw [eraseCases, List.countP_cons, List.countP_cons, ih]
    cases value <;> rfl

theorem ArmsMatch.erase {type : Label} {arms : List Case} (harms : ArmsMatch cfg type arms)
    (h : cfg.Untypes cfg') : ArmsMatch cfg' "" (eraseCases arms) where
  values := by
    rw [values_eraseCases, List.forall_mem_map]
    exact fun l hl => ⟨(harms.values l hl).1.erase h.flavour, Dialect.label_erase h.flavour l⟩
  distinct := by
    rw [values_eraseCases, List.map_map]
    exact harms.distinct
  default := (countDefaults_eraseCases arms).trans_le harms.default

mutual

theorem Stmt.WellFormed.erase {env env' : Env} {place : Place} {s : Stmt}
    (hs : s.WellFormed cfg env place) (h : cfg.Untypes cfg') (henv : env.Erases env') :
    s.erase.WellFormed cfg' env' place := by
  match s with
  | .expression e => exact Yields.erase hs h henv
  | .assignment xs value _ =>
    obtain ⟨hdistinct, types, htargets, hvalue⟩ := hs
    refine ⟨hdistinct, blank types, ?_, hvalue.erase h henv⟩
    exact List.forall₂_map_right_iff.mpr (htargets.imp fun _ _ hx => hx.erase h henv)
  | .declaration xs value _ =>
    refine ⟨Dialect.annotatesAll_erase _ xs, fun e he => ?_, ?_⟩
    · obtain ⟨e', he', rfl⟩ := Option.map_eq_some_iff.mp he
      rw [Dialect.declaredLabels_erase h.flavour]
      exact (hs.2.1 e' he').erase h henv
    · rw [variablesOf_erase h]
      exact henv.declarable hs.2.2
  | .function f _ => exact ⟨hs.1, hs.2.erase h henv⟩
  | .ifThen e body _ => exact ⟨hs.1.condition h henv, hs.2.erase h henv⟩
  | .switch subject arms _ =>
    obtain ⟨⟨type, hsubject, hmatch⟩, hbodies⟩ := hs
    exact ⟨⟨"", hsubject.erase h henv, hmatch.erase h⟩, WellFormedCases.erase hbodies h henv⟩
  | .forLoop ⟨id, statements, _⟩ e post body _ =>
    have hstart := henv.inBlock h id statements
    have hinner := hstart.foldl_after h statements
    obtain ⟨hopens, hstatements, hcondition, hbody, hpost⟩ := hs
    exact ⟨henv.opensBlock h hopens, WellFormedStmts.erase hstatements h hstart,
      hcondition.condition h hinner, hbody.erase h hinner, hpost.erase h hinner⟩
  | .breakLoop _ | .continueLoop _ | .leave _ => exact hs
  | .block b => exact Block.WellFormed.erase hs h henv

theorem FunctionDef.WellFormed.erase {env env' : Env} {f : FunctionDef}
    (hf : f.WellFormed cfg env) (h : cfg.Untypes cfg') (henv : env.Erases env') :
    f.erase.WellFormed cfg' env' := by
  match f with
  | ⟨_, parameters, returns, body⟩ =>
    rw [FunctionDef.erase, FunctionDef.WellFormed, ← List.map_append, variablesOf_erase h]
    exact ⟨henv.inFunction.declarable hf.1, hf.2.erase h (henv.inFunction.declareAll _)⟩

/-- A well-formed block is well-formed without its annotations. -/
theorem Block.WellFormed.erase {env env' : Env} {place : Place} {b : Block}
    (hb : b.WellFormed cfg env place) (h : cfg.Untypes cfg') (henv : env.Erases env') :
    b.erase.WellFormed cfg' env' place := by
  match b with
  | ⟨id, statements, _⟩ =>
    exact ⟨henv.opensBlock h hb.1, WellFormedStmts.erase hb.2 h (henv.inBlock h id statements)⟩

theorem WellFormedStmts.erase {env env' : Env} {place : Place} {ss : List Stmt}
    (hss : WellFormedStmts cfg env place ss) (h : cfg.Untypes cfg') (henv : env.Erases env') :
    WellFormedStmts cfg' env' place (eraseStmts ss) := by
  match ss with
  | [] => trivial
  | s :: rest => exact ⟨hss.1.erase h henv, WellFormedStmts.erase hss.2 h (henv.after h s)⟩

theorem WellFormedCases.erase {env env' : Env} {place : Place} {arms : List Case}
    (harms : WellFormedCases cfg env place arms) (h : cfg.Untypes cfg') (henv : env.Erases env') :
    WellFormedCases cfg' env' place (eraseCases arms) := by
  match arms with
  | [] => trivial
  | ⟨_, _, _⟩ :: rest => exact ⟨harms.1.erase h henv, WellFormedCases.erase harms.2 h henv⟩

end

/-! ## The analysis -/

theorem blockScopes_erase {b : Block} (hdistinct : (b.blocks.map Block.id).Nodup)
    (hfault : (runBlock cfg {} b).fault = none) (hfault' : (runBlock cfg' {} b.erase).fault = none)
    {id : BlockId} {s : ScopeId} (hs : (runBlock cfg' {} b.erase).record.blockScopes[id]? = some s) :
    (runBlock cfg {} b).record.blockScopes[id]? = some s := by
  have hcharted := runBlock_charts cfg hdistinct hfault
  have hcharted' := runBlock_charts cfg' (b.ids_erase ▸ hdistinct) hfault'
  refine (hcharted.place (.block id) s).mpr ?_
  obtain ⟨site, hsite, hholder⟩ := (hcharted'.place (.block id) s).mp hs
  have hholders := congrArg (·[s]?) (b.rootHolders_erase cfg.dialect cfg'.dialect)
  simp only [List.getElem?_map, hsite, Option.map_some] at hholders
  obtain ⟨site', hsite', hholder'⟩ := Option.map_eq_some_iff.mp hholders.symm
  exact ⟨site', hsite', hholder'.trans hholder⟩

/-- What correct code reports about effects is the same once its annotations are erased. -/
theorem effects_erase {b : Block} (hfault : (analyze cfg {} b).fault = none)
    (hsucceeded : (analyze cfg {} b).succeeded = true)
    (hfault' : (analyze cfg' {} b.erase).fault = none)
    (hsucceeded' : (analyze cfg' {} b.erase).succeeded = true) :
    (analyze cfg' {} b.erase).record.blockEffects = (analyze cfg {} b).record.blockEffects ∧
      (analyze cfg' {} b.erase).record.functionEffects =
          (analyze cfg {} b).record.functionEffects ∧
        (analyze cfg' {} b.erase).sideEffects = (analyze cfg {} b).sideEffects := by
  have hdistinct := (analyze_fault_eq_none_iff cfg b).mp hfault
  have hrun := fault_of_ofRun hfault
  have hrun' := fault_of_ofRun hfault'
  have hdoes := (runBlock_decides cfg b hrun).2 ((analyze_succeeded_iff cfg b).mp hsucceeded)
  have hdoes' := (runBlock_decides cfg' b.erase hrun').2
    ((analyze_succeeded_iff cfg' b.erase).mp hsucceeded')
  rw [b.account_erase] at hdoes'
  have hplaces' : (runBlock cfg' {} b.erase).record.Places (runBlock cfg {} b).scopeOf :=
    fun id s hs => (runBlock cfg {} b).places_scopeOf id s (blockScopes_erase hdistinct hrun hrun' hs)
  have hcollected := collected_of_does hdoes (runBlock cfg {} b).places_scopeOf
  have hcollected' := collected_of_does hdoes' hplaces'
  obtain ⟨-, -, hreaches⟩ := runBlock_ready cfg b hrun
  obtain ⟨-, -, hreaches'⟩ := runBlock_ready cfg' b.erase hrun'
  obtain ⟨hblocks, hfunctions, -⟩ := hreaches.effects
  obtain ⟨hblocks', hfunctions', -⟩ := hreaches'.effects
  rw [analyze, analyze, ofRun_of_collected hrun hcollected, ofRun_of_collected hrun' hcollected']
  simp only [Record.addEffects, hblocks, hblocks', hfunctions, hfunctions', and_self]

theorem accepted_erase {b : Block} (h : cfg.Untypes cfg') (hfault : (analyze cfg {} b).fault = none)
    (hsucceeded : (analyze cfg {} b).succeeded = true) :
    (analyze cfg' {} b.erase).fault = none ∧ (analyze cfg' {} b.erase).succeeded = true := by
  have hdistinct := (analyze_fault_eq_none_iff cfg b).mp hfault
  have hwellFormed := (succeeded_iff_wellFormed cfg b hdistinct).2.mp hsucceeded
  obtain ⟨hfault', hiff⟩ := succeeded_iff_wellFormed cfg' b.erase (b.ids_erase ▸ hdistinct)
  exact ⟨hfault', hiff.mpr (hwellFormed.erase h ⟨fun _ => rfl, rfl⟩)⟩

end Setting

/-- Code that is accepted in the typed dialect, with names of data but no names from outside, is
accepted in the untyped dialect once all its annotations are erased. Its blocks, its functions and
all of it may do the same. -/
theorem untyped_of_typed (version : EvmVersion) (dataNames : List String) (b : Block)
    (hfault : (analyze { dialect := { version, flavour := .typed }, dataNames } {} b).fault = none)
    (hsucceeded :
      (analyze { dialect := { version, flavour := .typed }, dataNames } {} b).succeeded = true) :
    let typed := analyze { dialect := { version, flavour := .typed }, dataNames } {} b
    let untyped := analyze { dialect := { version, flavour := .untyped }, dataNames } {} b.erase
    untyped.fault = none ∧ untyped.succeeded = true ∧
      untyped.record.blockEffects = typed.record.blockEffects ∧
        untyped.record.functionEffects = typed.record.functionEffects ∧
          untyped.sideEffects = typed.sideEffects := by
  have h : Setting.Untypes { dialect := { version, flavour := .typed }, dataNames }
      { dialect := { version, flavour := .untyped }, dataNames } := ⟨rfl, rfl, rfl, rfl⟩
  obtain ⟨hfault', hsucceeded'⟩ := accepted_erase h hfault hsucceeded
  exact ⟨hfault', hsucceeded', effects_erase hfault hsucceeded hfault' hsucceeded'⟩

/-- The code `{ let x:bool := true  switch x case true { sstore(1, 2) } }`. -/
def typedSwitch : Block where
  id := 0
  statements := [
    .declaration [⟨"x", some "bool", default⟩] (some (.literal ⟨.truth true, none, default⟩)) default,
    .switch (.identifier ⟨"x", default⟩)
      [⟨some ⟨.truth true, none, default⟩, ⟨1, [.expression (.call ⟨"sstore", default⟩
        [.literal ⟨.number "1", none, default⟩, .literal ⟨.number "2", some "u256", default⟩]
        default)], default⟩, default⟩] default]
  span := default

theorem typedSwitch_untyped :
    (analyze { dialect := { flavour := .typed } } {} typedSwitch).succeeded = true ∧
      (analyze {} {} typedSwitch.erase).succeeded = true := by
  have hsucceeded : (analyze { dialect := { flavour := .typed } } {} typedSwitch).succeeded = true := by
    decide +kernel
  exact ⟨hsucceeded, (untyped_of_typed .latest [] typedSwitch (by decide +kernel) hsucceeded).2.1⟩

end Yul
