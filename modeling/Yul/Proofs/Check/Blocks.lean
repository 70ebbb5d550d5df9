import Yul.Proofs.Check.Stmts

/-!
# Checking blocks is exact

A block and a function have a scope of their own, so they lead back to a state that agrees with the
names before them. `stmt_decides` and `codeBlock_decides` are the specifications of the whole
walk.
-/

namespace Yul

namespace Check

section Setting

variable (cfg : Setting) {here : Option BlockId} {home : Homes} {env : Env} {scope : Nat}

/-! ## Blocks and functions -/

/-- What happens between the first and the last event of a block has no bearing on the names around
the block. -/
theorem bracket_decides {id : BlockId} {inner : List BlockId} {mid : ScopeId → Check Unit}
    {P : Prop} {a : Account FunctionKey} {J : Nat → Run → Prop}
    (hwalks : ∀ s, Walks s inner (mid s))
    (hmid : ∀ s, Decides (Models (some id) home env s) (J s) (mid s) (fun _ => P) a) :
    DecidesIn here home env scope
      (do
        let s ← enterBlock id (some scope)
        mid s
        emit (.exitBlock id s))
      (fun _ => P) (a.inBlock id) where
  reaches r := .head ⟨_, rfl⟩ (((hmid _).reaches _).tail ⟨_, rfl⟩)
  decides r hr := by
    have hwalk := hwalks r.record.scopes.size (r.take (.enterBlock id (some scope)))
    have hmid := hmid r.record.scopes.size
    generalize hlast : (mid r.record.scopes.size).after (r.take (.enterBlock id (some scope))) = last
      at hwalk
    have hafter : (do
        let s ← enterBlock id (some scope)
        mid s
        emit (.exitBlock id s) : Check Unit).after r =
          last.take (.exitBlock id r.record.scopes.size) := by
      rw [← hlast]
      rfl
    have henter (hfault : last.fault = none) := hr.entered hwalk hfault
    constructor
    · intro hfault hclean
      rw [hafter] at hfault hclean ⊢
      have hlastFault := (Run.fits_of_take hfault).1
      have hlastClean := ((Run.clean_take hfault).mp hclean).1
      obtain ⟨hP, -, hdoes⟩ := (hmid.decides _ (henter hlastFault)).sound
        (hlast ▸ hlastFault) (hlast ▸ hlastClean)
      rw [hlast] at hdoes
      exact ⟨hP, hr.exited hwalk hfault, .block hdoes (henter hlastFault).ready.fault hfault⟩
    · intro _ hfault hclean hP
      rw [hafter] at hfault ⊢
      have hlastFault := (Run.fits_of_take hfault).1
      have hentered := henter hlastFault
      have hclean₁ : (r.take (.enterBlock id (some scope))).Clean :=
        (Run.clean_take hentered.ready.fault).mpr
          ⟨hclean, fun _ h => absurd h (by simp [Event.finding?])⟩
      obtain ⟨hlastClean, -⟩ := (hmid.decides _ hentered).complete ()
        (hlast ▸ hlastFault) hclean₁ hP
      refine ⟨(Run.clean_take hfault).mpr ⟨hlast ▸ hlastClean, fun _ h => ?_⟩, rfl⟩
      exact absurd h (by simp [Event.finding?])

theorem block_decides {id : BlockId} {statements : List Stmt} {inner : List BlockId}
    {inside : ScopeId → Check Unit} {P : Prop} {a : Account FunctionKey} {J : Nat → Run → Prop}
    (hwalks : ∀ s, Walks s inner (inside s))
    (hinside : ∀ s, Decides (Models (some id) (home.enter id statements)
      (env.inBlock cfg id statements) s) (J s) (inside s) (fun _ => P) a) :
    DecidesIn here home env scope
      (do
        let s ← openBlock cfg id statements (some scope)
        inside s
        emit (.exitBlock id s))
      (fun _ => env.OpensBlock cfg id statements ∧ P) (a.inBlock id) := by
  have hfunctions (s : Nat) : Walks s []
      ((functionsOf statements).forM (declareFunction cfg s)) :=
    .forM fun f => declareFunction_walks cfg s f
  exact bracket_decides (fun s => (hfunctions s).bind fun _ => hwalks s)
    fun s => .seq (functions_decides cfg id statements) (hinside s) (fun _ => Iff.rfl) rfl

theorem function_decides {id : BlockId} {name : Name} {body : BlockId} {inner : List BlockId}
    {params inside : ScopeId → Check Unit} {P Q : Prop} {env' : Env} {a : Account FunctionKey}
    {J : Nat → Run → Prop} (hparamWalks : ∀ s, Walks s [] (params s))
    (hwalks : ∀ s, Walks s inner (inside s))
    (hparams : ∀ s, Decides (Models none home env.inFunction s) (Models none home env' s) (params s)
      (fun _ => P) {})
    (hinside : ∀ s, Decides (Models none home env' s) (J s) (inside s) (fun _ => Q) a) :
    DecidesIn (some id) home env scope
      (do
        let s ← openParameters body scope
        params s
        emit (.enterFunction ⟨scope, name⟩)
        inside s
        emit (.exitFunction ⟨scope, name⟩))
      (fun _ => P ∧ Q) (a.inFunction ⟨id, name⟩) where
  reaches := (function_walks scope name body hparamWalks hwalks).reaches
  decides r hr := by
    have hparams := hparams r.record.scopes.size
    have hinside := hinside r.record.scopes.size
    have hparamWalk := hparamWalks r.record.scopes.size (r.take (.openParameters body scope))
    have hopen := hr.openParameters body
    generalize hr₁ : (params r.record.scopes.size).after (r.take (.openParameters body scope)) = r₁
      at hparamWalk
    have hwalk := hwalks r.record.scopes.size (r₁.take (.enterFunction ⟨scope, name⟩))
    generalize hr₂ : (inside r.record.scopes.size).after (r₁.take (.enterFunction ⟨scope, name⟩)) = r₂
      at hwalk
    have hafter := after_function scope name body hr₁ hr₂
    -- a run without a fault at the end has none in between
    have henter (hfault : (r₂.take (.exitFunction ⟨scope, name⟩)).fault = none) :
        (r₁.take (.enterFunction ⟨scope, name⟩)).fault = none :=
      hwalk.fault_eq_none (Run.fits_of_take hfault).1
    constructor
    · intro hfault hclean
      rw [hafter] at hfault hclean ⊢
      have hfault₂ := (Run.fits_of_take hfault).1
      have hfault₁ := (Run.fits_of_take (henter hfault)).1
      have hclean₂ := ((Run.clean_take hfault).mp hclean).1
      have hclean₁ := ((Run.clean_take (henter hfault)).mp (hwalk.reaches.clean hfault₂ hclean₂)).1
      obtain ⟨hP, hM₁, hdoes₁⟩ := (hparams.decides _ hopen).sound (hr₁ ▸ hfault₁) (hr₁ ▸ hclean₁)
      rw [hr₁] at hM₁ hdoes₁
      obtain ⟨hQ, -, hdoes₂⟩ := (hinside.decides _ (hM₁.enterFunction ⟨scope, name⟩)).sound
        (hr₂ ▸ hfault₂) (hr₂ ▸ hclean₂)
      rw [hr₂] at hdoes₂
      have hreaches : r.Reaches r₂ :=
        .head ⟨_, rfl⟩ (hparamWalk.reaches.trans (.head ⟨_, rfl⟩ hwalk.reaches))
      exact ⟨⟨hP, hQ⟩, hr.exitedFunction hparamWalk hwalk hfault, .function hdoes₁ hdoes₂
        (hreaches.blockScopes hfault₂ (hr.here id rfl)) hopen.ready.fault (henter hfault)
        hwalk.reaches hfault⟩
    · rintro _ hfault hclean ⟨hP, hQ⟩
      rw [hafter] at hfault ⊢
      have hfault₂ := (Run.fits_of_take hfault).1
      have hfault₁ := (Run.fits_of_take (henter hfault)).1
      have hno (e : Event) (he : e.finding? = none) : ∀ g, e.finding? = some g → g.isError = false :=
        fun g hg => absurd (he.symm.trans hg) (by simp)
      have hcleanOpen := (Run.clean_take hopen.ready.fault).mpr ⟨hclean, hno _ rfl⟩
      obtain ⟨hclean₁, -⟩ := (hparams.decides _ hopen).complete () (hr₁ ▸ hfault₁) hcleanOpen hP
      have hM₁ := ((hparams.decides _ hopen).sound (hr₁ ▸ hfault₁) hclean₁).2.1
      rw [hr₁] at hclean₁ hM₁
      have hcleanEnter := (Run.clean_take (henter hfault)).mpr ⟨hclean₁, hno _ rfl⟩
      obtain ⟨hclean₂, -⟩ := (hinside.decides _ (hM₁.enterFunction ⟨scope, name⟩)).complete ()
        (hr₂ ▸ hfault₂) hcleanEnter hQ
      exact ⟨(Run.clean_take hfault).mpr ⟨hr₂ ▸ hclean₂, hno _ rfl⟩, rfl⟩

/-! ## Arms of a switch -/

/-- What the arms of a switch have to be, one after the other, behind arms with the values `seen`. -/
def ArmsFit (type : Label) (seen : List (Label × Word)) (hasDefault : Bool) : List Case → Prop
  | [] => True
  | ⟨none, _, _⟩ :: rest => hasDefault = false ∧ ArmsFit type seen true rest
  | ⟨some l, _, _⟩ :: rest =>
    (l.WellFormed cfg.dialect ∧ type = l.label cfg.dialect ∧
      ∀ w, l.word? = some w → (l.label cfg.dialect, w) ∉ seen) ∧
      ArmsFit type (seenWith cfg seen (some l)) hasDefault rest

theorem word?_isSome {d : Dialect} {l : Literal} (h : l.WellFormed d) : ∃ w, l.word? = some w := by
  have hfits := h.fits
  rw [← Option.isSome_iff_exists, Literal.word?]
  unfold LiteralValue.FitsWord at hfits
  cases hvalue : l.value with
  | number digits =>
    rw [hvalue] at hfits
    exact (Dialect.literal?_isSome _).mpr hfits
  | bytes bytes =>
    rw [hvalue] at hfits
    simp [Word.leftAligned?, Word.maxBytes, Nat.not_lt.mpr hfits]
  | truth value => cases value <;> rfl

theorem armsFit_iff {type : Label} {seen : List (Label × Word)} {hasDefault : Bool}
    {arms : List Case} (hseen : ∀ entry ∈ seen, entry.1 = type) :
    ArmsFit cfg type seen hasDefault arms ↔
      (∀ l ∈ arms.filterMap Case.value,
        l.WellFormed cfg.dialect ∧ l.label cfg.dialect = type) ∧
      ((arms.filterMap Case.value).map Literal.word?).Nodup ∧
      (∀ l ∈ arms.filterMap Case.value, ∀ w, l.word? = some w → (type, w) ∉ seen) ∧
      arms.countP Case.isDefault + hasDefault.toNat ≤ 1 := by
  induction arms generalizing seen hasDefault with
  | nil => cases hasDefault <;> simp [ArmsFit]
  | cons arm rest ih =>
    obtain ⟨value, body, span⟩ := arm
    cases value with
    | none =>
      rw [ArmsFit, ih hseen]
      have hcount : (Case.mk none body span :: rest).countP Case.isDefault =
          rest.countP Case.isDefault + 1 :=
        List.countP_cons_of_pos rfl
      have hvalues : (Case.mk none body span :: rest).filterMap Case.value =
          rest.filterMap Case.value := rfl
      rw [hcount, hvalues]
      cases hasDefault with
      | true => exact iff_of_false (by simp) (by simp)
      | false => simp
    | some l =>
      have hcount : (Case.mk (some l) body span :: rest).countP Case.isDefault =
          rest.countP Case.isDefault :=
        List.countP_cons_of_neg (by simp [Case.isDefault])
      have hvalues : (Case.mk (some l) body span :: rest).filterMap Case.value =
          l :: rest.filterMap Case.value := rfl
      rw [ArmsFit, hcount, hvalues, List.forall_mem_cons, List.map_cons, List.nodup_cons,
        List.forall_mem_cons]
      constructor
      · rintro ⟨⟨hl, rfl, hnew⟩, hrest⟩
        obtain ⟨w, hw⟩ := word?_isSome hl
        rw [seenWith_of_word cfg seen hw, ih (List.forall_mem_cons.mpr ⟨rfl, hseen⟩)] at hrest
        obtain ⟨hvalues, hnodup, hfresh, hdefault⟩ := hrest
        refine ⟨⟨⟨hl, rfl⟩, hvalues⟩, ⟨fun hmem => ?_, hnodup⟩, ⟨hnew, fun l' hl' w' hw' => ?_⟩,
          hdefault⟩
        · obtain ⟨l', hl', heq⟩ := List.mem_map.mp hmem
          exact hfresh l' hl' w (heq.trans hw) List.mem_cons_self
        · exact fun hmem => hfresh l' hl' w' hw' (List.mem_cons_of_mem _ hmem)
      · rintro ⟨⟨⟨hl, rfl⟩, hvalues⟩, ⟨hnot, hnodup⟩, ⟨hnew, hfresh⟩, hdefault⟩
        obtain ⟨w, hw⟩ := word?_isSome hl
        rw [seenWith_of_word cfg seen hw, ih (List.forall_mem_cons.mpr ⟨rfl, hseen⟩)]
        refine ⟨⟨hl, rfl, hw ▸ hnew⟩, hvalues, hnodup, fun l' hl' w' hw' hmem => ?_, hdefault⟩
        rcases List.mem_cons.mp hmem with heq | hmem
        · obtain rfl := (Prod.mk.inj heq).2
          exact hnot (List.mem_map.mpr ⟨l', hl', hw'.trans hw.symm⟩)
        · exact hfresh l' hl' w' hw' hmem

theorem armsFit_iff_match {type : Label} {arms : List Case} :
    ArmsFit cfg type [] false arms ↔ ArmsMatch cfg type arms := by
  rw [armsFit_iff cfg (List.forall_mem_nil _)]
  exact ⟨fun ⟨hvalues, hdistinct, _, hdefault⟩ => ⟨hvalues, hdistinct, hdefault⟩,
    fun ⟨hvalues, hdistinct, hdefault⟩ => ⟨hvalues, hdistinct, by simp, hdefault⟩⟩

theorem caseValue_decides (type : Label) (seen : List (Label × Word)) (hasDefault : Bool)
    (value : Option Literal) (span : Span) :
    DecidesIn here home env scope (caseValue cfg (some type) seen hasDefault value span)
      (fun _ => match value with
        | none => hasDefault = false
        | some l => l.WellFormed cfg.dialect ∧ type = l.label cfg.dialect ∧
          ∀ w, l.word? = some w → (l.label cfg.dialect, w) ∉ seen) {} := by
  unfold caseValue
  cases value with
  | none =>
    dsimp only
    split
    · next h => exact (report_decides _ _).congr fun _ => by simp [Problem.severity, h]
    · next h => exact Decides.done.congr fun _ => by simpa using h
  | some l =>
    refine (reportAll_decides _ _).congr fun _ => ?_
    simp [Dialect.harmless_caseProblems]

/-! ## The whole walk -/

/-- Where the statements of a context stand. -/
def Context.place (ctx : Context) : Place where
  inLoopBody := ctx.inLoopBody
  inFunction := ctx.inFunction
  inInit := ctx.inInit

theorem leave_decides (ctx : Context) (span : Span) :
    DecidesIn here home env scope (unless ctx.inFunction do report .leaveOutsideFunction span)
      (fun _ => ctx.inFunction = true) {} :=
  require_decides rfl span

theorem loopJump_decides (ctx : Context) (jump : LoopJump) (span : Span) :
    DecidesIn here home env scope (loopJump ctx jump span) (fun _ => ctx.inLoopBody = true) {} := by
  unfold loopJump
  exact require_decides rfl span

/-- A switch is well-formed if its subject yields one value that its arms match, and their bodies
are. -/
theorem switch_decides (subject : Expr) (span : Span) {arms : List Case} {inner : List BlockId}
    {checkArms : Option Label → Check Unit} {P : Prop} {a : Account FunctionKey}
    (hwalks : ∀ type, Walks scope inner (checkArms type))
    (harms : ∀ type, DecidesIn here home env scope (checkArms (some type))
      (fun _ => ArmsFit cfg type [] false arms ∧ P) a) :
    DecidesIn here home env scope
      (do
        let type ← valueOf cfg scope subject
        if arms.all Case.isDefault && arms.length = 1 then report .onlyDefault span
        checkArms type)
      (fun _ => (∃ type, Yields cfg env subject [type] ∧ ArmsMatch cfg type arms) ∧ P)
      ((subject.account home).append a) := by
  refine .bind_of (S := fun o _ => ∃ type, o = some type ∧ ArmsMatch cfg type arms ∧ P) (b := a)
    (valueOf_decides cfg subject) ?_ ?_ (fun _ => ?_) rfl
  · intro type
    dsimp only
    split
    · exact (Walks.quietly_bind (.report _ _ rfl) fun _ => hwalks type).reaches
    · exact (hwalks type).reaches
  · rintro _ ⟨type, rfl, -⟩
    have harms := (harms type).congr
      (S := fun _ => ∃ type', some type = some type' ∧ ArmsMatch cfg type' arms ∧ P)
      fun _ => by simp [armsFit_iff_match]
    dsimp only
    split
    · exact .seq (report_decides _ _) harms (fun _ => by simp [Problem.severity]) rfl
    · exact harms
  · constructor
    · rintro ⟨⟨type, hsubject, hmatch⟩, hbodies⟩
      exact ⟨_, ⟨type, rfl, hsubject⟩, type, rfl, hmatch, hbodies⟩
    · rintro ⟨_, ⟨type, rfl, hsubject⟩, _, ⟨⟩, hmatch, hbodies⟩
      exact ⟨⟨type, hsubject, hmatch⟩, hbodies⟩

theorem forLoop_decides (e : Expr) {id : BlockId} {statements : List Stmt}
    {inits bodies posts : ScopeId → Check Unit} {is bs ps : List BlockId} {inner : Env}
    {P Q R : Prop} {a b c : Account FunctionKey}
    (hinitWalks : ∀ s, Walks s is (inits s)) (hbodyWalks : ∀ s, Walks s bs (bodies s))
    (hpostWalks : ∀ s, Walks s ps (posts s))
    (hinit : ∀ s, Decides (Models (some id) (home.enter id statements)
      (env.inBlock cfg id statements) s) (Models (some id) (home.enter id statements) inner s)
      (inits s) (fun _ => P) a)
    (hbody : ∀ s, DecidesIn (some id) (home.enter id statements) inner s (bodies s) (fun _ => Q) b)
    (hpost : ∀ s, DecidesIn (some id) (home.enter id statements) inner s (posts s) (fun _ => R) c) :
    DecidesIn here home env scope
      (do
        let s ← openBlock cfg id statements (some scope)
        inits s
        condition cfg s e
        bodies s
        posts s
        emit (.effects .looping)
        emit (.exitBlock id s))
      (fun _ => env.OpensBlock cfg id statements ∧ P ∧ Yields cfg inner e [cfg.dialect.boolType] ∧
        Q ∧ R)
      (Account.inBlock id <| a.append <| (e.account (home.enter id statements)).append <|
        b.append <| c.append (.ofActs [.effects .looping])) := by
  have hwalks (s : Nat) := loop_walks cfg s e (hinitWalks s) (hbodyWalks s) (hpostWalks s)
  refine block_decides cfg (J := Models (some id) (home.enter id statements) inner) hwalks fun s => ?_
  refine .seq (hinit s) ?_ (fun _ => Iff.rfl) rfl
  refine .seq (condition_decides cfg e) ?_ (fun _ => Iff.rfl) rfl
  refine .seq (hbody s) ?_ (fun _ => Iff.rfl) rfl
  exact .seq (hpost s) (effects_decides .looping) (fun _ => (and_iff_left trivial).symm) rfl

mutual

/-- Checking a statement finds an error unless the statement is well-formed. -/
theorem stmt_decides (ctx : Context) (id : BlockId) (home : Homes) (env : Env) (s : Stmt) :
    Decides (Models (some id) home env ctx.scope) (Models (some id) home (env.after cfg s) ctx.scope)
      (stmt cfg ctx s) (fun _ => s.WellFormed cfg env ctx.place) (s.account home id) := by
  match s with
  | .expression e => exact expressionStatement_decides cfg e
  | .assignment xs value span => exact assignment_decides cfg xs value span
  | .declaration xs value span =>
    cases value with
    | none => exact declaration_decides cfg xs none span
    | some value => exact declaration_decides cfg xs (some value) span
  | .function f _ => exact functionDef_decides ctx id home env f
  | .ifThen e body _ =>
    exact .seq (condition_decides cfg e) (codeBlock_decides ctx (some id) home env body)
      (fun _ => Iff.rfl) rfl
  | .switch subject arms span =>
    exact switch_decides cfg subject span (cases_walks cfg ctx · [] false arms)
      fun type => cases_decides ctx (some id) home env type [] false arms
  | .forLoop ⟨bid, statements, _⟩ e post body _ =>
    let inits (scope : Nat) : Context := { ctx with scope, inLoopBody := false, inInit := true }
    let bodies (scope : Nat) : Context := { ctx with scope, inLoopBody := true, inInit := false }
    let posts (scope : Nat) : Context := { ctx with scope, inLoopBody := false, inInit := false }
    exact forLoop_decides cfg e (fun scope => stmts_walks cfg (inits scope) statements)
      (fun scope => codeBlock_walks cfg (bodies scope) body)
      (fun scope => codeBlock_walks cfg (posts scope) post)
      (fun scope => stmts_decides (inits scope) bid _ _ statements)
      (fun scope => codeBlock_decides (bodies scope) (some bid) _ _ body)
      (fun scope => codeBlock_decides (posts scope) (some bid) _ _ post)
  | .breakLoop span => exact loopJump_decides ctx _ span
  | .continueLoop span => exact loopJump_decides ctx _ span
  | .leave span => exact leave_decides ctx span
  | .block b => exact codeBlock_decides ctx (some id) home env b

theorem functionDef_decides (ctx : Context) (id : BlockId) (home : Homes) (env : Env)
    (f : FunctionDef) :
    DecidesIn (some id) home env ctx.scope (function cfg ctx f)
      (fun _ => ctx.inInit = false ∧ f.WellFormed cfg env) (f.account home id) := by
  match f with
  | ⟨name, params, returns, body⟩ =>
    have hparams (scope : Nat) := parameters_walks cfg scope ⟨name, params, returns, body⟩
    have hwalks (scope : Nat) := codeBlock_walks cfg { scope, inFunction := true } body
    rw [function]
    dsimp only
    split
    · next hinit =>
      have hrest : Walks ctx.scope body.visited _ :=
        function_walks ctx.scope name.name body.id hparams hwalks
      refine (Decides.error _ rfl hrest.reaches).congr fun _ => iff_of_false not_false ?_
      exact fun ⟨hnot, _⟩ => absurd hinit (by simp [hnot])
    · next hinit =>
      let inner := env.inFunction.declareAll (variablesOf cfg (params ++ returns))
      have hinside (scope : Nat) : Decides (Models none home inner scope)
          (Models none home inner scope) (block cfg { scope, inFunction := true } body)
          (fun _ => body.WellFormed cfg inner { inFunction := true }) (body.account home) :=
        codeBlock_decides { scope, inFunction := true } none home inner body
      refine (function_decides hparams hwalks
        (fun scope => parameters_decides cfg ⟨name, params, returns, body⟩) hinside).congr
        fun _ => ?_
      exact (and_iff_right (Bool.not_eq_true _ ▸ hinit)).symm

theorem codeBlock_decides (ctx : Context) (here : Option BlockId) (home : Homes) (env : Env)
    (b : Block) :
    DecidesIn here home env ctx.scope (block cfg ctx b) (fun _ => b.WellFormed cfg env ctx.place)
      (b.account home) := by
  match b with
  | ⟨id, statements, _⟩ =>
    exact block_decides cfg (fun s => stmts_walks cfg { ctx with scope := s } statements)
      fun s => stmts_decides { ctx with scope := s } id _ _ statements

theorem stmts_decides (ctx : Context) (id : BlockId) (home : Homes) (env : Env) (ss : List Stmt) :
    Decides (Models (some id) home env ctx.scope)
      (Models (some id) home (ss.foldl (Env.after cfg) env) ctx.scope) (stmts cfg ctx ss)
      (fun _ => WellFormedStmts cfg env ctx.place ss) (accountOfStmts home id ss) := by
  match ss with
  | [] => exact .done
  | s :: rest =>
    exact .seq (stmt_decides ctx id home env s) (stmts_decides ctx id home _ rest)
      (fun _ => Iff.rfl) rfl

theorem cases_decides (ctx : Context) (here : Option BlockId) (home : Homes) (env : Env)
    (type : Label) (seen : List (Label × Word)) (hasDefault : Bool) (arms : List Case) :
    DecidesIn here home env ctx.scope (cases cfg ctx (some type) seen hasDefault arms)
      (fun _ => ArmsFit cfg type seen hasDefault arms ∧ WellFormedCases cfg env ctx.place arms)
      (accountOfCases home arms) := by
  match arms with
  | [] => exact Decides.done.congr fun _ => by simp [ArmsFit, WellFormedCases]
  | ⟨none, body, span⟩ :: rest =>
    have hrest := cases_decides ctx here home env type seen true rest
    rw [cases, Option.isNone_none, Bool.or_true]
    refine .seq (caseValue_decides cfg type seen hasDefault none span)
      (.seq (codeBlock_decides ctx here home env body) hrest (fun _ => Iff.rfl) rfl) (fun _ => ?_) rfl
    rw [ArmsFit, WellFormedCases, and_assoc]
    exact and_congr_right fun _ => and_left_comm
  | ⟨some l, body, span⟩ :: rest =>
    have hrest := cases_decides ctx here home env type (seenWith cfg seen (some l)) hasDefault rest
    rw [cases, Option.isNone_some, Bool.or_false]
    refine .seq (caseValue_decides cfg type seen hasDefault (some l) span)
      (.seq (codeBlock_decides ctx here home env body) hrest (fun _ => Iff.rfl) rfl) (fun _ => ?_) rfl
    rw [ArmsFit, WellFormedCases, and_assoc]
    exact and_congr_right fun _ => and_left_comm

end

end Setting

end Check

end Yul
