import Yul.Proofs.Scope.Lookup
import Yul.Proofs.Scope.Rows

/-!
# The variables that can be used

A run keeps the variables that can be used beside the scopes. `Usable` ties the two: outside functions
they are the variables of the open scopes, inside a function those of the open scopes up to the
function's parameters, and the variables of the code around each open function are set aside in turn.
Every event preserves this (`Usable.shift`), so a variable that is found can be used
(`Usable.mem_of_visible`): looking up hides the variables beyond the parameters of a function, just
as the run sets them aside.
-/

namespace Yul

/-- Whether a variable is one of those that a scope holds. -/
def HoldsVariable (entry : ScopeId × Scope) (v : VariableId) : Prop :=
  v.1 = entry.1 ∧ ∃ type, entry.2.find? v.2 = some (.variable type)

theorem not_holdsVariable_empty (id : ScopeId) (parent : Option ScopeId) (ofFunction : Bool)
    (v : VariableId) : ¬ HoldsVariable (id, ⟨parent, ofFunction, []⟩) v := by
  rintro ⟨-, type, hfind⟩
  exact nomatch hfind

theorem holdsVariable_declare {id : ScopeId} {s : Scope} {name : Name} {symbol : Symbol}
    (hfree : s.declares name = false) (v : VariableId) :
    HoldsVariable (id, s.declare name symbol) v ↔
      HoldsVariable (id, s) v ∨ symbol.isVariable = true ∧ v = (id, name) := by
  obtain ⟨home, x⟩ := v
  have hnone : s.find? name = none :=
    Option.isNone_iff_eq_none.mp (Option.isSome_eq_false_iff.mp hfree)
  simp only [HoldsVariable, Scope.find?_declare hfree, Prod.mk.injEq]
  by_cases hx : x = name
  · subst hx
    rw [if_pos rfl, hnone]
    cases symbol with
    | «variable» type => simp [Symbol.isVariable]
    | function params returns => simp [Symbol.isVariable]
  · simp [hx]

/-! ## Usable variables -/

/-- The variables `active` can be used where the given scopes are open, and `suspended` are those of
the code around each open function, the innermost first. -/
inductive Usable : List VariableId → List (List VariableId) → List (ScopeId × Scope) → Prop where
  | nil : Usable [] [] []
  | block {active inner : List VariableId} {suspended : List (List VariableId)} {id : ScopeId}
      {s : Scope} {outer : List (ScopeId × Scope)} (hblock : s.ofFunction = false)
      (hinner : ∀ v, v ∈ inner ↔ v ∈ active ∨ HoldsVariable (id, s) v)
      (next : Usable active suspended outer) : Usable inner suspended ((id, s) :: outer)
  | function {active inner : List VariableId} {suspended : List (List VariableId)} {id : ScopeId}
      {s : Scope} {outer : List (ScopeId × Scope)} (hfunction : s.ofFunction = true)
      (hinner : ∀ v, v ∈ inner ↔ HoldsVariable (id, s) v)
      (next : Usable active suspended outer) : Usable inner (active :: suspended) ((id, s) :: outer)

/-- The open scopes of the innermost function's body, its parameters included; outside functions,
all open scopes. -/
def scopesOfBody : List (ScopeId × Holder) → List (ScopeId × Holder)
  | [] => []
  | o :: around => if o.2.isParameters then [o] else o :: scopesOfBody around

namespace Usable

variable {active active' : List VariableId} {suspended : List (List VariableId)}
  {row row' outer : List (ScopeId × Scope)}

theorem congr (h : Usable active suspended row) (hsame : ∀ v, v ∈ active' ↔ v ∈ active) :
    Usable active' suspended row := by
  cases h with
  | nil =>
    have hnil : active' = [] :=
      List.eq_nil_iff_forall_not_mem.mpr fun v hv => List.not_mem_nil ((hsame v).mp hv)
    rw [hnil]
    exact .nil
  | block hblock hinner next => exact .block hblock (fun v => (hsame v).trans (hinner v)) next
  | function hfunction hinner next =>
    exact .function hfunction (fun v => (hsame v).trans (hinner v)) next

theorem eq_nil (h : Usable active suspended []) : active = [] := by
  cases h
  rfl

theorem holds (h : Usable active suspended row) {v : VariableId} (hv : v ∈ active)
    {opens : List (ScopeId × Holder)}
    (hopens : opens.map (fun o => (o.1, o.2.isParameters)) =
      row.map fun entry => (entry.1, entry.2.ofFunction)) :
    ∃ o ∈ scopesOfBody opens, ∃ s, (o.1, s) ∈ row ∧ HoldsVariable (o.1, s) v := by
  induction h generalizing opens with
  | nil => exact absurd hv List.not_mem_nil
  | @block active inner suspended id s outer hblock hinner _ ih =>
    cases opens with
    | nil => exact nomatch hopens
    | cons o around =>
      obtain ⟨ho, haround⟩ := List.cons.inj hopens
      obtain ⟨rfl, hflag⟩ := Prod.mk.inj ho
      rw [hblock] at hflag
      rw [scopesOfBody, if_neg (Bool.eq_false_iff.mp hflag)]
      rcases (hinner v).mp hv with hv | hv
      · obtain ⟨o', ho', s', hs', hholds⟩ := ih hv haround
        exact ⟨o', List.mem_cons_of_mem _ ho', s', List.mem_cons_of_mem _ hs', hholds⟩
      · exact ⟨o, List.mem_cons_self, s, List.mem_cons_self, hv⟩
  | @function active inner suspended id s outer hfunction hinner _ _ =>
    cases opens with
    | nil => exact nomatch hopens
    | cons o around =>
      obtain ⟨ho, -⟩ := List.cons.inj hopens
      obtain ⟨rfl, hflag⟩ := Prod.mk.inj ho
      rw [hfunction] at hflag
      rw [scopesOfBody, if_pos hflag]
      exact ⟨o, List.mem_cons_self, s, List.mem_cons_self, (hinner v).mp hv⟩

theorem mem_row (h : Usable active suspended row) {v : VariableId} (hv : v ∈ active) :
    ∃ entry ∈ row, v.1 = entry.1 := by
  induction h with
  | nil => exact absurd hv List.not_mem_nil
  | block _ hinner _ ih =>
    rcases (hinner v).mp hv with hv | hv
    · obtain ⟨entry, hentry, heq⟩ := ih hv
      exact ⟨entry, List.mem_cons_of_mem _ hentry, heq⟩
    · exact ⟨_, List.mem_cons_self, hv.1⟩
  | function _ hinner _ _ => exact ⟨_, List.mem_cons_self, ((hinner v).mp hv).1⟩

theorem mem_of_visible (h : Usable active suspended row) {x : Name} {home : ScopeId} {type : Label}
    (hfound : ScopeTable.visible x false row = some (home, .variable type)) :
    (home, x) ∈ active := by
  induction h with
  | nil => exact nomatch hfound
  | @block active inner suspended id s outer hblock hinner _ ih =>
    rw [ScopeTable.visible, hblock] at hfound
    rw [hinner]
    cases hfind : s.find? x with
    | some symbol =>
      rw [hfind] at hfound
      obtain ⟨rfl, rfl⟩ := Prod.mk.inj (Option.some.inj hfound)
      exact .inr ⟨rfl, type, hfind⟩
    | none =>
      rw [hfind] at hfound
      exact .inl (ih hfound)
  | @function active inner suspended id s outer hfunction hinner _ _ =>
    rw [ScopeTable.visible, hfunction] at hfound
    rw [hinner]
    cases hfind : s.find? x with
    | some symbol =>
      rw [hfind] at hfound
      obtain ⟨rfl, rfl⟩ := Prod.mk.inj (Option.some.inj hfound)
      exact ⟨rfl, type, hfind⟩
    | none =>
      -- variables beyond the parameters are hidden
      rw [hfind] at hfound
      have hvisible := ScopeTable.visible_true x outer
      rw [Bool.false_or, hvisible, Option.filter_eq_some_iff] at hfound
      exact absurd hfound.2 (by simp [Symbol.isVariable])

/-- Every event preserves which variables can be used. -/
theorem shift {p p' : Point} (h : Usable p.run.active p.run.suspended row)
    (hrow : p.run.record.scopes.Row row) (hshift : Point.Shift p p' row row') :
    Usable p'.run.active p'.run.suspended row' := by
  cases hshift with
  | quiet _ hactive hsuspended =>
    rw [hactive, hsuspended]
    exact h
  | @declare id s outer name symbol hfree _ _ _ hactive hsuspended =>
    have hmem (v : VariableId) : v ∈ p'.run.active ↔
        v ∈ p.run.active ∨ symbol.isVariable = true ∧ v = (id, name) := by
      rw [hactive]
      split
      · next hvariable => rw [List.mem_cons, or_comm, and_iff_right hvariable]
      · next hfunction => rw [or_iff_left fun hv => hfunction hv.1]
    have hdeclare (v : VariableId) : HoldsVariable (id, s.declare name symbol) v ↔
        HoldsVariable (id, s) v ∨ symbol.isVariable = true ∧ v = (id, name) :=
      holdsVariable_declare (hfree (id, s) List.mem_cons_self) v
    rw [hsuspended]
    generalize p.run.active = active, p.run.suspended = suspended at h hmem
    cases h with
    | block hblock hinner next =>
      refine .block (s.ofFunction_declare name symbol ▸ hblock) (fun v => ?_) next
      rw [hmem, hinner, hdeclare, or_assoc]
    | function hfunction hinner next =>
      refine .function (s.ofFunction_declare name symbol ▸ hfunction) (fun v => ?_) next
      rw [hmem, hinner, hdeclare]
  | enterBlock _ hactive hsuspended =>
    rw [hactive, hsuspended]
    exact .block rfl (fun v => (or_iff_left (not_holdsVariable_empty _ _ _ v)).symm) h
  | openParameters _ hactive hsuspended =>
    rw [hactive, hsuspended]
    refine .function rfl (fun v => ?_) h
    exact iff_of_false List.not_mem_nil (not_holdsVariable_empty _ _ _ v)
  | @exitBlock id s outer hblock _ hactive hsuspended =>
    rw [hactive, hsuspended]
    generalize p.run.active = active, p.run.suspended = suspended at h
    cases h with
    | function hfunction => exact absurd (hblock.symm.trans hfunction) Bool.false_ne_true
    | block _ hinner next =>
      refine next.congr fun v => ?_
      rw [List.mem_filter, decide_eq_true_eq, hinner]
      constructor
      · rintro ⟨hv | hv, hne⟩
        · exact hv
        · exact absurd hv.1 hne
      · intro hv
        obtain ⟨entry, hentry, heq⟩ := next.mem_row hv
        exact ⟨.inl hv, heq ▸ Nat.ne_of_lt (hrow.lt_head entry hentry)⟩
  | @exitFunction id s outer hfunction _ hrestored =>
    generalize p.run.active = active, hsuspended : p.run.suspended = suspended at h
    cases h with
    | block hblock => exact absurd (hblock.symm.trans hfunction) Bool.false_ne_true
    | function _ _ next =>
      obtain ⟨hactive, hsuspended'⟩ := hrestored _ _ hsuspended
      rw [hactive, hsuspended']
      exact next

end Usable

theorem Point.usable {record : Record} {es : List Event} (hgoes : (Point.start record).Goes es) :
    ∃ row, ((Point.start record).after es).Stands row ∧
      Usable ((Point.start record).after es).run.active
        ((Point.start record).after es).run.suspended row := by
  refine hgoes.invariant (I := fun p => ∃ row, p.Stands row ∧
    Usable p.run.active p.run.suspended row) (fun p e h he => ?_) ⟨[], .start record, .nil⟩
  obtain ⟨row, hstands, husable⟩ := h
  obtain ⟨row', hstands', hshift⟩ := hstands.step he
  exact ⟨row', hstands', husable.shift hstands.links hshift⟩

theorem Point.mem_active_of_lookup {record : Record} {es : List Event}
    (hgoes : (Point.start record).Goes es) {scope : ScopeId}
    (hscope : ((Point.start record).after es).innermost? = some scope) {x : Name} {home : ScopeId}
    {type : Label} (hfound : ((Point.start record).after es).run.record.scopes.lookup scope x =
      some (home, .variable type)) :
    (home, x) ∈ ((Point.start record).after es).run.active := by
  obtain ⟨row, hstands, husable⟩ := Point.usable hgoes
  obtain ⟨s, outer, rfl⟩ := hstands.eq_cons hscope
  rw [hstands.links.lookup_eq] at hfound
  exact husable.mem_of_visible hfound

/-- No event of a run reports a variable as one that cannot be used yet. -/
theorem Point.not_usedBeforeDeclared {record : Record} {es : List Event}
    (hgoes : (Point.start record).Goes es) {x : Name} {span : Span} :
    .report ⟨.usedBeforeDeclared x, span⟩ ∉ es := by
  intro hmem
  obtain ⟨before, behind, rfl⟩ := List.append_of_mem hmem
  obtain ⟨hbefore, hhappens, -⟩ := Point.goes_append.mp hgoes
  cases hhappens.fits with
  | quiet hscope _ hgrounds =>
    obtain ⟨home, type, hfound, hmissing⟩ := hgrounds x span rfl
    exact hmissing (Point.mem_active_of_lookup hbefore hscope hfound)

/-! ## Functions -/

theorem Run.take_exitFunction {r : Run} {f : FunctionId} {active : List VariableId}
    {suspended : List (List VariableId)} (hfault : (r.take (.exitFunction f)).fault = none)
    (h : r.suspended = active :: suspended) :
    (r.take (.exitFunction f)).active = active ∧
      (r.take (.exitFunction f)).suspended = suspended := by
  rw [Run.take_eq hfault]
  simp only [Run.change, h, and_self]

theorem Walk.suspended_eq {scope : ScopeId} {ids : List BlockId} {r r' : Run}
    (h : Walk scope ids r r') (hfault : r'.fault = none) : r'.suspended = r.suspended := by
  induction h with
  | done => rfl
  | @quiet scope ids e r r' he next ih => exact (ih hfault).trans (he.alike r).suspended
  | declare hfree next ih =>
    rw [ih hfault, Run.take_eq (next.fault_eq_none hfault)]
    rfl
  | @block scope id inner ids r r₁ r' inside next ihInside ihNext =>
    obtain ⟨henter, hr₁, hexit⟩ := inside.bracket_faults next hfault
    rw [ihNext hfault, Run.take_eq hexit]
    change r₁.suspended = _
    rw [ihInside hr₁, Run.take_eq henter]
    rfl
  | @function scope name body inner ids r r₁ r₂ r' parameters inside next ihParams ihInside ihNext =>
    obtain ⟨henter, hr₂, hexit⟩ := inside.bracket_faults next hfault
    obtain ⟨hopen, hr₁, -⟩ := parameters.bracket_faults inside hr₂
    have hset : r₂.suspended = r.active :: r.suspended := by
      rw [ihInside hr₂, Run.take_eq henter]
      change r₁.suspended = _
      rw [ihParams hr₁, Run.take_eq hopen]
      rfl
    rw [ihNext hfault, (Run.take_exitFunction hexit hset).2]

namespace Check

variable (cfg : Setting)

theorem function_bracket_active {scope : ScopeId} (name : Name) (body : BlockId)
    {inner : List BlockId} {params inside : ScopeId → Check Unit}
    (hparams : ∀ s, Walks s [] (params s)) (hinside : ∀ s, Walks s inner (inside s)) {r r' : Run}
    (hr' : r' = Check.after (do
      let s ← openParameters body scope
      params s
      emit (.enterFunction ⟨scope, name⟩)
      inside s
      emit (.exitFunction ⟨scope, name⟩)) r)
    (hfault : r'.fault = none) : r'.active = r.active := by
  subst hr'
  have hparamWalk := hparams r.record.scopes.size (r.take (.openParameters body scope))
  simp only [after_bind, value_openParameters, after_openParameters, after_emit] at hfault ⊢
  generalize (params r.record.scopes.size).after (r.take (.openParameters body scope)) = r₁ at *
  have hwalk := hinside r.record.scopes.size (r₁.take (.enterFunction ⟨scope, name⟩))
  generalize (inside r.record.scopes.size).after (r₁.take (.enterFunction ⟨scope, name⟩)) = r₂ at *
  have hr₂ := (Run.fits_of_take hfault).1
  have henter := hwalk.fault_eq_none hr₂
  have hr₁ := (Run.fits_of_take henter).1
  have hset : r₂.suspended = r.active :: r.suspended := by
    rw [hwalk.suspended_eq hr₂, Run.take_eq henter]
    change r₁.suspended = _
    rw [hparamWalk.suspended_eq hr₁, Run.take_eq (hparamWalk.fault_eq_none hr₁)]
    rfl
  exact (Run.take_exitFunction hfault hset).1

/-- Whatever the state in which a definition of a function is walked through, the same variables can
be used behind it. -/
theorem function_active (ctx : Context) (f : FunctionDef) {r : Run}
    (hfault : ((function cfg ctx f).after r).fault = none) :
    ((function cfg ctx f).after r).active = r.active := by
  obtain ⟨name, params, returns, body⟩ := f
  have hparams := fun s => parameters_walks cfg s ⟨name, params, returns, body⟩
  have hinside := fun scope => codeBlock_walks cfg { scope, inFunction := true } body
  rw [function] at hfault ⊢
  dsimp only at hfault ⊢
  split at hfault
  · next hinit =>
    rw [if_pos hinit]
    rw [after_bind] at hfault ⊢
    have hquiet : Quietly ctx.scope (report .functionInInit name.span) := .report _ _ rfl
    rw [function_bracket_active name.name body.id hparams hinside rfl hfault, (hquiet r).alike.active]
  · next hinit =>
    rw [if_neg hinit]
    exact function_bracket_active name.name body.id hparams hinside rfl hfault

end Check

/-! ## The analysis of a block -/

/-- What can be used at the points of an analysis. -/
structure TracksVariables (cfg : Setting) (record : Record) (b : Block) : Prop where
  /-- a variable that is found from the innermost open scope can be used -/
  found : ∀ es, es <+: (runBlock cfg record b).events →
    ∀ scope, ((Point.start record).after es).innermost? = some scope → ∀ x home type,
      ((Point.start record).after es).run.record.scopes.lookup scope x =
          some (home, .variable type) →
        (home, x) ∈ ((Point.start record).after es).run.active
  /-- whatever can be used is a variable of an open scope of the function at hand -/
  held : ∀ es, es <+: (runBlock cfg record b).events →
    ∀ v ∈ ((Point.start record).after es).run.active,
      v.1 ∈ (scopesOfBody ((Point.start record).after es).openScopes).map (·.1) ∧
        ∃ s type, ((Point.start record).after es).run.record.scopes.get? v.1 = some s ∧
          s.find? v.2 = some (.variable type)
  /-- no variable is ever reported as used before it was declared -/
  never_reported : ∀ x span, ⟨.usedBeforeDeclared x, span⟩ ∉ (analyze cfg record b).findings
  /-- what could be used before the definition of a function can be used behind it -/
  restored : ∀ ctx f r, ((Check.function cfg ctx f).after r).fault = none →
    ((Check.function cfg ctx f).after r).active = r.active
  /-- nothing can be used in the end -/
  empty : (analyze cfg record b).fault = none → (runBlock cfg record b).active = []

/-- Looking names up and the variables that can be used agree at every point of an analysis. -/
theorem tracks_variables (cfg : Setting) (record : Record) (b : Block) :
    TracksVariables cfg record b := by
  constructor
  · intro es hes scope hscope x home type hfound
    exact Point.mem_active_of_lookup (goes_at_point cfg hes) hscope hfound
  · intro es hes v hv
    obtain ⟨row, hstands, husable⟩ := Point.usable (goes_at_point cfg hes)
    obtain ⟨o, ho, s, hs, hhome, type, hfind⟩ := husable.holds hv hstands.openScopes
    refine ⟨List.mem_map.mpr ⟨o, ho, hhome.symm⟩, s, type, ?_, hfind⟩
    rw [hhome]
    exact hstands.links.get? hs
  · intro x span hreported
    rw [analyze, ofRun_findings, Run.findings, List.mem_filterMap] at hreported
    obtain ⟨e, he, hfinding⟩ := hreported
    cases e with
    | report f =>
      obtain rfl := Option.some.inj hfinding
      exact Point.not_usedBeforeDeclared (runBlock_goes cfg record b).1 he
    | _ => exact nomatch hfinding
  · exact fun ctx f r => Check.function_active cfg ctx f
  · intro hfault
    have hlast := after_runBlock_events cfg (fault_of_ofRun hfault)
    obtain ⟨row, hstands, husable⟩ := Point.usable (runBlock_goes cfg record b).1
    rw [hlast] at hstands husable
    have hrow : row = [] := List.map_eq_nil_iff.mp hstands.map_openScopes.symm
    rw [hrow] at husable
    exact husable.eq_nil

/-- The code `{ let x }`. -/
def oneVariable : Block where
  id := 0
  statements := [.declaration [⟨"x", none, default⟩] none default]
  span := default

theorem oneVariable_active :
    ((Point.start {}).after ((runBlock {} {} oneVariable).events.take 3)).innermost? = some 0 ∧
      (0, "x") ∈
        ((Point.start {}).after ((runBlock {} {} oneVariable).events.take 3)).run.active := by
  have hscope : ((Point.start {}).after
      ((runBlock {} {} oneVariable).events.take 3)).innermost? = some 0 := by decide +kernel
  exact ⟨hscope, (tracks_variables {} {} oneVariable).found _ (List.take_prefix _ _) 0 hscope "x" 0 ""
    (by decide +kernel)⟩

end Yul
