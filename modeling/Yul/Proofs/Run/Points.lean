import Yul.Proofs.Run.Checks
import Yul.Proofs.Run.Confined

/-!
# The points of a run

A run passes through one point behind each of its events. `Point.after` replays events from the start
of a run; besides the state, a point shows which scopes are open there. The events of a run are not
just any events: `Point.Fits` says which ones can come next, given the scopes that are open. Every
name belongs to the innermost open scope, a name that is declared is not taken, a function is declared
before anything is opened in its scope, and scopes are left in the order in which they were opened.

`runBlock_goes`: the events of an analysis fit one after the other, whatever the code. So what holds
at the start and is preserved by every event that fits holds at every point (`Point.Goes.invariant`).
-/

namespace Yul

/-- A state, its fault aside. -/
def Run.unstopped (r : Run) : Run :=
  { r with fault := none }

/-- A point of a run. -/
structure Point where
  /-- the state of the run -/
  run : Run
  /-- the scopes that are open, the innermost first, and whose scopes they are -/
  openScopes : List (ScopeId × Holder)

namespace Point

/-- The start of a run. -/
def start (record : Record) : Point :=
  ⟨{ record }, []⟩

/-- The scopes that are open behind an event. -/
def openBehind (p : Point) : Event → List (ScopeId × Holder)
  | .enterBlock id _ => (p.run.record.scopes.size, .block id) :: p.openScopes
  | .openParameters body _ => (p.run.record.scopes.size, .parameters body) :: p.openScopes
  | .exitBlock _ _ | .exitFunction _ => p.openScopes.tail
  | .enterFunction _ | .look _ _ | .declare _ _ _ | .effects _ | .call _ | .ask _ | .report _ =>
    p.openScopes

/-- The point behind an event. -/
def take (p : Point) (e : Event) : Point :=
  ⟨p.run.take e, p.openBehind e⟩

/-- The point behind events. -/
def after (p : Point) (es : List Event) : Point :=
  es.foldl take p

@[simp] theorem after_nil (p : Point) : p.after [] = p := rfl

@[simp] theorem after_cons (p : Point) (e : Event) (es : List Event) :
    p.after (e :: es) = (p.take e).after es := rfl

theorem after_append (p : Point) (es es' : List Event) :
    p.after (es ++ es') = (p.after es).after es' :=
  List.foldl_append

/-! ## Events that can come next -/

/-- The number of the innermost open scope. -/
def innermost? (p : Point) : Option ScopeId :=
  p.openScopes.head?.map (·.1)

/-- An event that can come next, as far as scopes and names are concerned. -/
inductive Fits (p : Point) : Event → Prop where
  | quiet {scope : ScopeId} {e : Event} (hscope : p.innermost? = some scope)
      (he : e.IsQuiet scope) (hgrounds : p.run.Grounds scope e) : Fits p e
  | declare {scope : ScopeId} {name : Name} {symbol : Symbol} (hscope : p.innermost? = some scope)
      (hfree : p.run.record.scopes.isTaken scope name = false)
      (hnew : symbol.isVariable = false → p.run.record.scopes.size = scope + 1) :
      Fits p (.declare scope name symbol)
  | enterBlock {id : BlockId} {parent : Option ScopeId} (hparent : p.innermost? = parent) :
      Fits p (.enterBlock id parent)
  | exitBlock {id : BlockId} {scope : ScopeId} {around : List (ScopeId × Holder)}
      (hopen : p.openScopes = (scope, .block id) :: around) : Fits p (.exitBlock id scope)
  | openParameters {body : BlockId} {parent : ScopeId} (hparent : p.innermost? = some parent) :
      Fits p (.openParameters body parent)
  | enterFunction {f : FunctionId} : Fits p (.enterFunction f)
  | exitFunction {f : FunctionId} {scope : ScopeId} {body : BlockId}
      {around : List (ScopeId × Holder)}
      (hopen : p.openScopes = (scope, .parameters body) :: around) : Fits p (.exitFunction f)

/-- An event that happens next. -/
structure Happens (p : Point) (e : Event) : Prop where
  fault : p.run.fault = none
  clash : p.run.clash e = none
  fits : p.Fits e

namespace Happens

variable {p : Point} {e : Event}

theorem take_run (h : p.Happens e) :
    (p.take e).run = { p.run.change e with journal := e :: p.run.journal } :=
  Run.take_of_fits h.fault h.clash

theorem events (h : p.Happens e) : (p.take e).run.events = p.run.events ++ [e] := by
  rw [h.take_run]
  exact List.reverse_cons

theorem scopes (h : p.Happens e) :
    (p.take e).run.record.scopes = (p.run.change e).record.scopes := by
  rw [h.take_run]

theorem active (h : p.Happens e) : (p.take e).run.active = (p.run.change e).active := by
  rw [h.take_run]

theorem suspended (h : p.Happens e) : (p.take e).run.suspended = (p.run.change e).suspended := by
  rw [h.take_run]

end Happens

/-- Whether events happen one after the other. -/
def Goes (p : Point) : List Event → Prop
  | [] => True
  | e :: es => p.Happens e ∧ (p.take e).Goes es

theorem goes_append {p : Point} {es es' : List Event} :
    p.Goes (es ++ es') ↔ p.Goes es ∧ (p.after es).Goes es' := by
  induction es generalizing p with
  | nil => simp [Goes]
  | cons e es ih => rw [List.cons_append, Goes, Goes, ih, after_cons, and_assoc]

/-- What every event that happens preserves holds at every point behind one where it holds. -/
theorem Goes.invariant {I : Point → Prop} (hstep : ∀ p e, I p → p.Happens e → I (p.take e))
    {p : Point} {es : List Event} (h : p.Goes es) (hp : I p) : I (p.after es) := by
  induction es generalizing p with
  | nil => exact hp
  | cons e es ih => exact ih h.2 (hstep p e hp h.1)

theorem Goes.events {p : Point} {es : List Event} (h : p.Goes es) :
    (p.after es).run.events = p.run.events ++ es := by
  induction es generalizing p with
  | nil => exact (List.append_nil _).symm
  | cons e es ih =>
    rw [after_cons, ih h.2, h.1.events, List.append_assoc]
    rfl

/-! ## From one point to another -/

/-- A run that is at `p` goes on to `p'`, where the last event may have ended it with a fault. -/
def Leads (p p' : Point) : Prop :=
  ∃ es, p.Goes es ∧ p'.run.unstopped = (p.after es).run.unstopped ∧
    (p'.run.fault = none → p.after es = p')

namespace Leads

variable {p p₁ p₂ p' : Point}

theorem refl (p : Point) : p.Leads p :=
  ⟨[], trivial, rfl, fun _ => rfl⟩

theorem trans (h : p.Leads p₁) (h' : p₁.Leads p₂) : p.Leads p₂ := by
  obtain ⟨es, hgoes, hrun, heq⟩ := h
  obtain ⟨es', hgoes', hrun', heq'⟩ := h'
  cases es' with
  | nil =>
    refine ⟨es, hgoes, hrun'.trans hrun, fun hfault => ?_⟩
    have hsame : p₁ = p₂ := heq' hfault
    rw [← hsame] at hfault ⊢
    exact heq hfault
  | cons e es' =>
    have hp₁ := heq hgoes'.1.fault
    refine ⟨es ++ e :: es', goes_append.mpr ⟨hgoes, hp₁ ▸ hgoes'⟩, ?_, fun hfault => ?_⟩
    · rw [after_append, hp₁, hrun']
    · rw [after_append, hp₁, heq' hfault]

theorem take {e : Event} (hfits : p.run.fault = none → p.Fits e) : p.Leads (p.take e) := by
  by_cases hfault : p.run.fault = none
  · cases hclash : p.run.clash e with
    | none => exact ⟨[e], ⟨⟨hfault, hclash, hfits hfault⟩, trivial⟩, rfl, fun _ => rfl⟩
    | some f =>
      have hrun : (p.take e).run = { p.run with fault := some f } :=
        Run.take_of_clash hfault hclash
      refine ⟨[], trivial, ?_, fun h => ?_⟩
      · rw [hrun]
        rfl
      · rw [hrun] at h
        exact absurd h (by simp)
  · have hrun : (p.take e).run = p.run := Run.take_of_fault hfault e
    refine ⟨[], trivial, ?_, fun h => ?_⟩
    · rw [hrun]
      rfl
    · rw [hrun] at h
      exact absurd h hfault

end Leads

end Point

/-! ## Tours pass through points -/

theorem Run.size_enterBlock {r : Run} {id : BlockId} {parent : Option ScopeId}
    (hfault : (r.take (.enterBlock id parent)).fault = none) :
    (r.take (.enterBlock id parent)).record.scopes.size = r.record.scopes.size + 1 := by
  rw [Run.take_eq hfault]
  exact r.record.scopes.size_add parent false

theorem Declares.leads {scope : ScopeId} {symbols : List (Name × Symbol)} {r r' : Run}
    (h : Declares scope symbols r r') (holder : Holder) (around : List (ScopeId × Holder))
    (hnew : r.fault = none → (∀ entry ∈ symbols, entry.2.isVariable = true) ∨
      r.record.scopes.size = scope + 1) :
    (Point.mk r ((scope, holder) :: around)).Leads ⟨r', (scope, holder) :: around⟩ := by
  induction h with
  | done => exact .refl _
  | @quiet symbols e r r' he hgrounds next ih =>
    have hopen : Point.take ⟨r, (scope, holder) :: around⟩ e =
        ⟨r.take e, (scope, holder) :: around⟩ := by
      cases e <;> first | rfl | exact he.elim
    refine Point.Leads.trans (.take fun _ => .quiet rfl he hgrounds) ?_
    rw [hopen]
    refine ih fun hfault => ?_
    rw [(he.alike r).record]
    exact hnew (Run.fits_of_take hfault).1
  | @declare symbols name symbol r r' hfree next ih =>
    refine Point.Leads.trans (.take fun hfault => .declare rfl hfree fun hsymbol => ?_) (ih ?_)
    · refine (hnew hfault).resolve_left fun hvariables => ?_
      rw [hvariables _ List.mem_cons_self] at hsymbol
      exact absurd hsymbol (by simp)
    · intro hfault
      have hsize : (r.take (.declare scope name symbol)).record.scopes.size =
          r.record.scopes.size := by
        rw [Run.take_eq hfault]
        exact r.record.scopes.size_declare scope name symbol
      rw [hsize]
      exact (hnew (Run.fits_of_take hfault).1).imp_left fun hvariables entry hentry =>
        hvariables entry (List.mem_cons_of_mem _ hentry)
  | @refuse symbols name symbol what span r r' htaken next ih =>
    have hquiet : (Event.report ⟨.alreadyTaken what name, span⟩).IsQuiet scope := trivial
    refine Point.Leads.trans (.take fun _ => .quiet rfl hquiet (Run.grounds_of_timely rfl)) (ih ?_)
    intro hfault
    rw [(hquiet.alike r).record]
    exact (hnew (Run.fits_of_take hfault).1).imp_left fun hvariables entry hentry =>
      hvariables entry (List.mem_cons_of_mem _ hentry)

/-- A tour passes through points, and leaves every scope that it opens. -/
theorem Tour.leads {holder : Holder} {scope : ScopeId} {own : List (Name × Symbol)}
    {sites : List Site} {r r' : Run} (h : Tour holder scope own sites r r')
    {around : List (ScopeId × Holder)} :
    (Point.mk r ((scope, holder) :: around)).Leads ⟨r', (scope, holder) :: around⟩ := by
  induction h generalizing around with
  | done => exact .refl _
  | declares here hvariables _ ih => exact (here.leads _ _ fun _ => .inl hvariables).trans ih
  | @block holder scope id functions inside own inner sites r r₁ r₂ r' opening within _ ihWithin
      ihNext =>
    have henter : (Point.mk r ((scope, holder) :: around)).Leads
        ⟨r.take (.enterBlock id (some scope)),
          (r.record.scopes.size, .block id) :: (scope, holder) :: around⟩ :=
      .take fun _ => .enterBlock rfl
    have hexit : (Point.mk r₂ ((r.record.scopes.size, .block id) :: (scope, holder) :: around)).Leads
        ⟨r₂.take (.exitBlock id r.record.scopes.size), (scope, holder) :: around⟩ :=
      .take fun _ => .exitBlock rfl
    have hopening := opening.leads (.block id) ((scope, holder) :: around)
      fun hfault => .inr (Run.size_enterBlock hfault)
    exact henter.trans (hopening.trans (ihWithin.trans (hexit.trans ihNext)))
  | @function holder scope name body params own inner sites r r₁ r₂ r' opening hvariables within _
      ihWithin ihNext =>
    have hopen : (Point.mk r ((scope, holder) :: around)).Leads
        ⟨r.take (.openParameters body scope),
          (r.record.scopes.size, .parameters body) :: (scope, holder) :: around⟩ :=
      .take fun _ => .openParameters rfl
    have henter : (Point.mk r₁
        ((r.record.scopes.size, .parameters body) :: (scope, holder) :: around)).Leads
        ⟨r₁.take (.enterFunction ⟨scope, name⟩),
          (r.record.scopes.size, .parameters body) :: (scope, holder) :: around⟩ :=
      .take fun _ => .enterFunction
    have hexit : (Point.mk r₂
        ((r.record.scopes.size, .parameters body) :: (scope, holder) :: around)).Leads
        ⟨r₂.take (.exitFunction ⟨scope, name⟩), (scope, holder) :: around⟩ :=
      .take fun _ => .exitFunction rfl
    have hparams := opening.leads (.parameters body) ((scope, holder) :: around)
      fun _ => .inl hvariables
    exact hopen.trans (hparams.trans (henter.trans (ihWithin.trans (hexit.trans ihNext))))

/-! ## The analysis of a block -/

section Root

variable (cfg : Setting)

theorem runBlock_tour (record : Record) (b : Block) :
    ∃ r₁ r₂, Declares record.scopes.size
        ((functionsOf b.statements).map (functionSymbol cfg.dialect))
        ((Run.mk record [] [] [] none).take (.enterBlock b.id none)) r₁ ∧
      Tour (.block b.id) record.scopes.size
        (b.statements.flatMap (Stmt.variableSymbols cfg.dialect))
        (sitesOfStmts cfg.dialect (.block b.id) b.statements) r₁ r₂ ∧
      runBlock cfg record b = r₂.take (.exitBlock b.id record.scopes.size) := by
  obtain ⟨id, statements, span⟩ := b
  have hfunctions := Check.declareFunctions_declaring cfg record.scopes.size statements
  have hinside := Check.stmts_tours cfg { scope := record.scopes.size } (.block id) statements
  exact ⟨_, _, hfunctions _, hinside _, rfl⟩

theorem runBlock_leads (record : Record) (b : Block) :
    (Point.start record).Leads ⟨runBlock cfg record b, []⟩ := by
  obtain ⟨r₁, r₂, hfunctions, htour, hrun⟩ := runBlock_tour cfg record b
  have henter : (Point.start record).Leads
      ⟨(Run.mk record [] [] [] none).take (.enterBlock b.id none),
        [(record.scopes.size, .block b.id)]⟩ :=
    .take fun _ => .enterBlock rfl
  have hexit : (Point.mk r₂ [(record.scopes.size, .block b.id)]).Leads
      ⟨runBlock cfg record b, []⟩ := by
    rw [hrun]
    exact .take fun _ => .exitBlock rfl
  have hopening := hfunctions.leads (.block b.id) []
    fun hfault => .inr (Run.size_enterBlock hfault)
  exact henter.trans (hopening.trans (htour.leads.trans hexit))

theorem runBlock_goes (record : Record) (b : Block) :
    (Point.start record).Goes (runBlock cfg record b).events ∧
      (runBlock cfg record b).unstopped =
        ((Point.start record).after (runBlock cfg record b).events).run.unstopped := by
  obtain ⟨es, hgoes, hrun, -⟩ := runBlock_leads cfg record b
  have hevents : (runBlock cfg record b).events = es :=
    (congrArg Run.events hrun).trans hgoes.events
  rw [hevents]
  exact ⟨hgoes, hrun⟩

theorem after_runBlock_events {record : Record} {b : Block}
    (hfault : (runBlock cfg record b).fault = none) :
    (Point.start record).after (runBlock cfg record b).events = ⟨runBlock cfg record b, []⟩ := by
  obtain ⟨es, hgoes, hrun, heq⟩ := runBlock_leads cfg record b
  have hevents : (runBlock cfg record b).events = es :=
    (congrArg Run.events hrun).trans hgoes.events
  rw [hevents]
  exact heq hfault

theorem goes_at_point {record : Record} {b : Block} {es : List Event}
    (hes : es <+: (runBlock cfg record b).events) : (Point.start record).Goes es := by
  obtain ⟨rest, hrest⟩ := hes
  have hgoes := (runBlock_goes cfg record b).1
  rw [← hrest, Point.goes_append] at hgoes
  exact hgoes.1

end Root

end Yul
