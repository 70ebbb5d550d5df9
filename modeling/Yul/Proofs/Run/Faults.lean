import Yul.Proofs.Effects.Account
import Yul.Proofs.Run.Checks
import Yul.Proofs.Run.Confined

/-!
# Faults of a run

A walk through code comes to a fault only where it enters a block a second time: the scopes that it
uses are there, and so are the values that it assigns (`Walk.fault_eq`). It also leaves every block
and every function that it enters (`Walk.nested`), so collecting the effects of a run without a
fault succeeds.

* `firstRepeat`: the first number of a list that stands there before.
* `runBlock_walk`: the analysis of a block as a walk between its first and its last event.
* `analyze_fault`: the fault of an analysis with an empty record.
-/

namespace Yul

/-! ## Repeated numbers -/

/-- The first number of a list that stands in `seen` or further to the front. -/
def firstRepeat (seen : List BlockId) : List BlockId → Option BlockId
  | [] => none
  | id :: rest => if id ∈ seen then some id else firstRepeat (id :: seen) rest

theorem firstRepeat_append (seen ids ids' : List BlockId) :
    firstRepeat seen (ids ++ ids') =
      (firstRepeat seen ids).or (firstRepeat (ids.reverse ++ seen) ids') := by
  induction ids generalizing seen with
  | nil => rfl
  | cons id ids ih =>
    rw [List.cons_append, firstRepeat, firstRepeat]
    split
    · rfl
    · rw [ih, List.reverse_cons, List.append_assoc, List.singleton_append]

theorem firstRepeat_eq_none_iff {seen ids : List BlockId} :
    firstRepeat seen ids = none ↔ ids.Nodup ∧ ∀ id ∈ ids, id ∉ seen := by
  induction ids generalizing seen with
  | nil => simp [firstRepeat]
  | cons id ids ih =>
    rw [firstRepeat, List.nodup_cons, List.forall_mem_cons]
    split
    · next hseen => simp [hseen]
    · next hseen =>
      simp only [ih, List.mem_cons, not_or, hseen, not_false_eq_true, true_and]
      constructor
      · rintro ⟨hnodup, hnot⟩
        exact ⟨⟨fun hid => (hnot id hid).1 rfl, hnodup⟩, fun x hx => (hnot x hx).2⟩
      · rintro ⟨⟨hid, hnodup⟩, hnot⟩
        exact ⟨hnodup, fun x hx => ⟨fun heq => hid (heq ▸ hx), hnot x hx⟩⟩

/-- The first repeated number stands behind numbers that are all different, and is one of them. -/
theorem firstRepeat_eq_some_iff {ids : List BlockId} {id : BlockId} :
    firstRepeat [] ids = some id ↔
      ∃ before after, ids = before ++ id :: after ∧ before.Nodup ∧ id ∈ before := by
  have hgeneral : ∀ seen : List BlockId, firstRepeat seen ids = some id ↔
      ∃ before after, ids = before ++ id :: after ∧ firstRepeat seen before = none ∧
        (id ∈ before ∨ id ∈ seen) := by
    induction ids with
    | nil => simp [firstRepeat]
    | cons x ids ih =>
      intro seen
      rw [firstRepeat]
      split
      · next hx =>
        constructor
        · rintro ⟨⟩
          exact ⟨[], ids, rfl, rfl, .inr hx⟩
        · rintro ⟨before, after, heq, hnone, -⟩
          cases before with
          | nil => rw [(List.cons.inj heq).1]
          | cons y before =>
            rw [firstRepeat, ← (List.cons.inj heq).1, if_pos hx] at hnone
            exact absurd hnone (by simp)
      · next hx =>
        rw [ih]
        constructor
        · rintro ⟨before, after, rfl, hnone, hid⟩
          refine ⟨x :: before, after, rfl, ?_, ?_⟩
          · rw [firstRepeat, if_neg hx, hnone]
          · rw [List.mem_cons, or_assoc, or_left_comm]
            exact hid.imp_right List.mem_cons.mp
        · rintro ⟨before, after, heq, hnone, hid⟩
          cases before with
          | nil =>
            obtain rfl := (List.cons.inj heq).1
            exact absurd (hid.resolve_left List.not_mem_nil) hx
          | cons y before =>
            obtain ⟨rfl, rfl⟩ := List.cons.inj heq
            rw [firstRepeat, if_neg hx] at hnone
            refine ⟨before, after, rfl, hnone, ?_⟩
            rw [List.mem_cons, or_assoc, or_left_comm] at hid
            exact hid.imp_right List.mem_cons.mpr
  simp [hgeneral, firstRepeat_eq_none_iff]

/-! ## Runs that can go on -/

/-- A run without a fault in which `scope` is there. -/
structure Run.Ready (r : Run) (scope : Nat) : Prop where
  fault : r.fault = none
  regular : r.Regular
  scope_lt : scope < r.record.scopes.size

theorem Walk.ready {scope : Nat} {ids : List BlockId} {r r' : Run} (h : Walk scope ids r r')
    (hr : r.Ready scope) (hfault : r'.fault = none) : r'.Ready scope := by
  obtain ⟨hreg, hconf⟩ := h.confined hfault hr.regular hr.scope_lt
  exact ⟨hfault, hreg, Nat.lt_of_lt_of_le hr.scope_lt hconf.size_le⟩

namespace Run

theorem fault_take {r : Run} {e : Event} (hfault : r.fault = none) (hfits : r.clash e = none) :
    (r.take e).fault = none := by
  rw [take_of_fits hfault hfits]
  exact (r.change_fault e).trans hfault

namespace Ready

variable {r r₁ : Run} {scope : Nat}

theorem of_record (h : r.Ready scope) (hfault : r₁.fault = none) (hrecord : r₁.record = r.record) :
    r₁.Ready scope :=
  ⟨hfault, h.regular.of_record hrecord, hrecord ▸ h.scope_lt⟩

theorem quiet (h : r.Ready scope) {e : Event} (he : e.IsQuiet scope) : (r.take e).Ready scope := by
  have hfits : r.clash e = none := by
    cases e with
    | look home name =>
      obtain rfl : home = scope := he
      rw [clash, ScopeTable.missing?_eq_none h.regular.parentsFirst h.scope_lt, Option.map_none]
    | effects | call | ask | report => rfl
    | enterBlock | exitBlock | openParameters | enterFunction | exitFunction | declare =>
      exact he.elim
  exact h.of_record (fault_take h.fault hfits) (he.alike r).record

theorem declare (h : r.Ready scope) (name : Name) (symbol : Symbol) :
    (r.take (.declare scope name symbol)).Ready scope := by
  have hstep := fault_take h.fault (e := .declare scope name symbol) (if_pos h.scope_lt)
  exact ⟨hstep, h.regular.declare hstep,
    Nat.lt_of_lt_of_le h.scope_lt (Confined.declare hstep).size_le⟩

theorem enterBlock (h : r.Ready scope) {id : BlockId}
    (hnew : r.record.blockScopes.contains id = false) :
    (r.take (.enterBlock id (some scope))).Ready r.record.scopes.size := by
  have hfits : r.clash (.enterBlock id (some scope)) = none := by
    rw [clash, hnew, if_neg Bool.false_ne_true]
  have hstep := fault_take h.fault hfits
  have hparent : ∀ p, some scope = some p → p < r.record.scopes.size := by
    rintro p ⟨rfl⟩
    exact h.scope_lt
  refine ⟨hstep, h.regular.enterBlock hparent hstep, ?_⟩
  rw [take_eq hstep]
  simp only [change, Record.openBlock, ScopeTable.size_add, Nat.lt_succ_self]

theorem enterBlock_of_fits (h : r.Ready scope) {id : BlockId}
    (hfault : (r.take (.enterBlock id (some scope))).fault = none) :
    (r.take (.enterBlock id (some scope))).Ready r.record.scopes.size := by
  refine h.enterBlock (Bool.eq_false_iff.mpr fun hentered => ?_)
  have hclash := (fits_of_take hfault).2
  rw [clash, if_pos hentered] at hclash
  exact Option.some_ne_none _ hclash

theorem exitBlock {home : Nat} (h : r.Ready home) (id : BlockId)
    (hscope : scope < r.record.scopes.size) :
    (r.take (.exitBlock id home)).Ready scope := by
  have hstep := fault_take h.fault (e := .exitBlock id home) (if_pos h.scope_lt)
  have hrecord : (r.take (.exitBlock id home)).record = r.record := by
    rw [take_eq hstep]
    rfl
  exact ⟨hstep, h.regular.of_record hrecord, hrecord ▸ hscope⟩

theorem openParameters (h : r.Ready scope) (body : BlockId) :
    (r.take (.openParameters body scope)).Ready r.record.scopes.size := by
  have hstep := fault_take h.fault (e := .openParameters body scope) rfl
  refine ⟨hstep, h.regular.openParameters h.scope_lt hstep, ?_⟩
  rw [take_eq hstep]
  simp only [change, Record.openParameters, ScopeTable.size_add, Nat.lt_succ_self]

theorem enterFunction (h : r.Ready scope) (f : FunctionId) :
    (r.take (.enterFunction f)).Ready scope := by
  have hstep := fault_take h.fault (e := .enterFunction f) rfl
  exact h.of_record hstep (by rw [take_eq hstep]; rfl)

theorem exitFunction {home : Nat} (h : r.Ready home) (f : FunctionId)
    (hscope : scope < r.record.scopes.size) : (r.take (.exitFunction f)).Ready scope := by
  have hstep := fault_take h.fault (e := .exitFunction f) rfl
  have hrecord : (r.take (.exitFunction f)).record = r.record := by
    rw [take_eq hstep, change_exitFunction_record]
  exact ⟨hstep, h.regular.of_record hrecord, hrecord ▸ hscope⟩

end Ready

/-! ## The blocks that have been entered -/

/-- The blocks that have been entered. -/
def Entered (r : Run) (ids : List BlockId) : Prop :=
  ∀ id, r.record.blockScopes.contains id = true ↔ id ∈ ids

theorem Entered.of_record {r r' : Run} {ids : List BlockId} (h : r.Entered ids)
    (hrecord : r'.record.blockScopes = r.record.blockScopes) : r'.Entered ids := by
  intro id
  rw [hrecord]
  exact h id

theorem Entered.enterBlock {r : Run} {ids : List BlockId} (h : r.Entered ids) {id : BlockId}
    {parent : Option ScopeId} (hfault : (r.take (.enterBlock id parent)).fault = none) :
    (r.take (.enterBlock id parent)).Entered (id :: ids) := by
  intro x
  rw [take_eq hfault, List.mem_cons, ← h x]
  simp only [change, Record.openBlock, Std.TreeMap.contains_insert, Bool.or_eq_true, beq_iff_eq,
    Std.LawfulEqCmp.compare_eq_iff_eq]
  exact or_congr_left eq_comm

end Run

theorem Walk.entered {scope : ScopeId} {ids seen : List BlockId} {r r' : Run}
    (h : Walk scope ids r r') (hfault : r'.fault = none) (hr : r.Entered seen) :
    r'.Entered (ids.reverse ++ seen) := by
  induction h generalizing seen with
  | done => exact hr
  | @quiet scope ids e r r' he next ih =>
    have halike := he.alike r
    exact ih hfault (hr.of_record (by rw [halike.record]))
  | declare hfree next ih =>
    refine ih hfault (hr.of_record ?_)
    rw [Run.take_eq (next.fault_eq_none hfault)]
    rfl
  | @block scope id inner ids r r₁ r' inside next ihInside ihNext =>
    obtain ⟨henter, hr₁, hexit⟩ := inside.bracket_faults next hfault
    have hinside := ihInside hr₁ (hr.enterBlock henter)
    have hnext := ihNext hfault (hinside.of_record (by rw [Run.take_eq hexit]; rfl))
    simpa using hnext
  | function parameters inside next ihParams ihInside ihNext =>
    obtain ⟨henter, hr₂, hexit⟩ := inside.bracket_faults next hfault
    obtain ⟨hopen, hr₁, -⟩ := parameters.bracket_faults inside hr₂
    have hparams := ihParams hr₁ (hr.of_record (by rw [Run.take_eq hopen]; rfl))
    have hinside := ihInside hr₂ (hparams.of_record (by rw [Run.take_eq henter]; rfl))
    have hnext := ihNext hfault (hinside.of_record (by
      rw [Run.take_eq hexit, Run.change_exitFunction_record]))
    simpa using hnext

/-! ## Faults -/

namespace Walk

variable {scope : Nat} {ids seen : List BlockId} {r r₁ r' : Run}

theorem fault_of_take {e : Event} (h : Walk scope ids (r.take e) r') {f : Fault}
    (hfault : r.fault = some f) : r'.fault = some f := by
  have hne := hfault ▸ Option.some_ne_none f
  rw [Run.take_of_fault hne] at h
  rw [h.eq_of_fault hne, hfault]

theorem fault_append {e : Event} {inner : List BlockId} (h : Walk scope ids (r.take e) r')
    (hinside : r.fault = (firstRepeat seen inner).map .enteredTwice)
    (hnext : r.fault = none →
      r'.fault = (firstRepeat (inner.reverse ++ seen) ids).map .enteredTwice) :
    r'.fault = (firstRepeat seen (inner ++ ids)).map .enteredTwice := by
  rw [firstRepeat_append]
  cases hfirst : firstRepeat seen inner with
  | some x =>
    rw [hfirst] at hinside
    exact h.fault_of_take hinside
  | none =>
    rw [hfirst] at hinside
    exact hnext hinside

/-- A walk comes to a fault where it enters a block for the second time, and nowhere else. -/
theorem fault_eq (h : Walk scope ids r r') (hr : r.Ready scope) (hseen : r.Entered seen) :
    r'.fault = (firstRepeat seen ids).map .enteredTwice := by
  induction h generalizing seen with
  | done => exact hr.fault
  | @quiet scope ids e r r' he next ih =>
    exact ih (hr.quiet he) (hseen.of_record (by rw [(he.alike r).record]))
  | @declare scope ids name symbol r r' hfree next ih =>
    have hstep := hr.declare name symbol
    exact ih hstep (hseen.of_record (by rw [Run.take_eq hstep.fault]; rfl))
  | @block scope id inner ids r r₁ r' inside next ihInside ihNext =>
    rw [List.cons_append, firstRepeat]
    split
    · next hid =>
      -- the second visit of a block ends the run on the spot
      have hclash : r.clash (.enterBlock id (some scope)) = some (.enteredTwice id) := by
        rw [Run.clash, if_pos ((hseen id).mpr hid)]
      have hstep : (r.take (.enterBlock id (some scope))).fault = some (.enteredTwice id) := by
        rw [Run.take_of_clash hr.fault hclash]
      have hne := hstep ▸ Option.some_ne_none (Fault.enteredTwice id)
      exact next.fault_of_take (inside.eq_of_fault hne ▸ hstep)
    · next hid =>
      have hnew : r.record.blockScopes.contains id = false := by
        rw [← Bool.not_eq_true, hseen id]
        exact hid
      have henter := hr.enterBlock hnew
      have hentered := hseen.enterBlock henter.fault
      have hinside := ihInside henter hentered
      refine next.fault_append hinside fun hinside => ?_
      have hready := inside.ready henter hinside
      have hexit := hready.exitBlock id (Nat.lt_trans hr.scope_lt hready.scope_lt)
      refine ihNext hexit ((inside.entered hinside hentered).of_record ?_)
      rw [Run.take_eq hexit.fault]
      rfl
  | @function scope name body inner ids r r₁ r₂ r' parameters inside next ihParams ihInside ihNext =>
    have hopen := hr.openParameters body
    have hentered : (r.take (.openParameters body scope)).Entered seen :=
      hseen.of_record (by rw [Run.take_eq hopen.fault]; rfl)
    have hparams : r₁.fault = none := ihParams hopen hentered
    have henter := (parameters.ready hopen hparams).enterFunction ⟨scope, name⟩
    have hentered₁ : (r₁.take (.enterFunction ⟨scope, name⟩)).Entered seen := by
      refine (parameters.entered hparams hentered).of_record ?_
      rw [Run.take_eq henter.fault]
      rfl
    have hinside := ihInside henter hentered₁
    refine next.fault_append hinside fun hinside => ?_
    have hready := inside.ready henter hinside
    have hexit := hready.exitFunction ⟨scope, name⟩ (Nat.lt_trans hr.scope_lt hready.scope_lt)
    refine ihNext hexit ((inside.entered hinside hentered₁).of_record ?_)
    rw [Run.take_eq hexit.fault, Run.change_exitFunction_record]

end Walk

/-! ## Nested steps of a walk -/

theorem Run.collectorSteps_take {r : Run} {e : Event} (h : (r.take e).fault = none) :
    (r.take e).collectorSteps = r.collectorSteps ++ e.collectorStep?.toList :=
  filterMap_events_take Event.collectorStep? h

theorem Walk.nested {scope : ScopeId} {ids : List BlockId} {r r' : Run} (h : Walk scope ids r r')
    (hfault : r'.fault = none) :
    ∃ steps a, r'.collectorSteps = r.collectorSteps ++ steps ∧ Nested steps a := by
  induction h with
  | done => exact ⟨[], {}, (List.append_nil _).symm, .nil⟩
  | @quiet scope ids e r r' he next ih =>
    obtain ⟨steps, a, hsteps, ha⟩ := ih hfault
    rw [Run.collectorSteps_take (next.fault_eq_none hfault), List.append_assoc] at hsteps
    cases e with
    | effects e => exact ⟨_, _, hsteps, .append (.add e) ha⟩
    | call f => exact ⟨_, _, hsteps, .append (.call f) ha⟩
    | look | ask | report => exact ⟨steps, a, hsteps, ha⟩
    | enterBlock | exitBlock | openParameters | enterFunction | exitFunction | declare =>
      exact he.elim
  | declare hfree next ih =>
    obtain ⟨steps, a, hsteps, ha⟩ := ih hfault
    rw [Run.collectorSteps_take (next.fault_eq_none hfault), List.append_assoc] at hsteps
    exact ⟨steps, a, hsteps, ha⟩
  | @block scope id inner ids r r₁ r' inside next ihInside ihNext =>
    obtain ⟨henter, hr₁, hexit⟩ := inside.bracket_faults next hfault
    obtain ⟨steps, a, hsteps, ha⟩ := ihInside hr₁
    obtain ⟨steps', a', hsteps', ha'⟩ := ihNext hfault
    refine ⟨_, _, ?_, .append (.block id ha) ha'⟩
    rw [hsteps', Run.collectorSteps_take hexit, hsteps, Run.collectorSteps_take henter]
    simp [Event.collectorStep?]
  | @function scope name body inner ids r r₁ r₂ r' parameters inside next ihParams ihInside ihNext =>
    obtain ⟨henter, hr₂, hexit⟩ := inside.bracket_faults next hfault
    obtain ⟨hopen, hr₁, -⟩ := parameters.bracket_faults inside hr₂
    obtain ⟨steps₁, a₁, hsteps₁, ha₁⟩ := ihParams hr₁
    obtain ⟨steps, a, hsteps, ha⟩ := ihInside hr₂
    obtain ⟨steps', a', hsteps', ha'⟩ := ihNext hfault
    refine ⟨_, _, ?_, .append ha₁ (.append (.function ⟨scope, name⟩ ha) ha')⟩
    rw [hsteps', Run.collectorSteps_take hexit, hsteps, Run.collectorSteps_take henter, hsteps₁,
      Run.collectorSteps_take hopen]
    simp [Event.collectorStep?]

/-! ## The analysis of a block -/

section Root

variable (cfg : Setting)

theorem runBlock_walk (record : Record) (b : Block) :
    ∃ r, Walk record.scopes.size (visitedOfStmts b.statements)
        ((Run.mk record [] [] [] none).take (.enterBlock b.id none)) r ∧
      runBlock cfg record b = r.take (.exitBlock b.id record.scopes.size) := by
  obtain ⟨id, statements, span⟩ := b
  have hfunctions : Check.Walks record.scopes.size []
      ((functionsOf statements).forM (Check.declareFunction cfg record.scopes.size)) :=
    .forM fun f => Check.declareFunction_walks cfg _ f
  exact ⟨_, (hfunctions _).trans (Check.stmts_walks cfg { scope := record.scopes.size } statements _),
    rfl⟩

theorem Run.Regular.enterFirst {record : Record} (h : (Run.mk record [] [] [] none).Regular)
    {id : BlockId} (hnew : record.blockScopes.contains id = false) :
    ((Run.mk record [] [] [] none).take (.enterBlock id none)).Ready record.scopes.size := by
  have hfits : (Run.mk record [] [] [] none).clash (.enterBlock id none) = none := by
    rw [clash, hnew, if_neg Bool.false_ne_true]
  have hstep := fault_take rfl hfits
  refine ⟨hstep, h.enterBlock (fun p hp => absurd hp (by simp)) hstep, ?_⟩
  rw [take_eq hstep]
  simp only [change, Record.openBlock, ScopeTable.size_add, Nat.lt_succ_self]

theorem Run.Regular.enterFirst_of_fits {record : Record}
    (h : (Run.mk record [] [] [] none).Regular) {id : BlockId}
    (hfault : ((Run.mk record [] [] [] none).take (.enterBlock id none)).fault = none) :
    ((Run.mk record [] [] [] none).take (.enterBlock id none)).Ready record.scopes.size := by
  refine h.enterFirst (Bool.eq_false_iff.mpr fun hentered => ?_)
  have hclash := (fits_of_take hfault).2
  rw [clash, if_pos hentered] at hclash
  exact Option.some_ne_none _ hclash

theorem Run.regular_empty : (Run.mk {} [] [] [] none).Regular :=
  ⟨.empty, fun _ _ h => absurd h (by simp), fun _ _ _ h => absurd h (by simp)⟩

theorem Run.ready_first (id : BlockId) :
    ((Run.mk {} [] [] [] none).take (.enterBlock id none)).Ready 0 :=
  regular_empty.enterFirst Std.TreeMap.contains_emptyc

theorem Run.entered_first (id : BlockId) :
    ((Run.mk {} [] [] [] none).take (.enterBlock id none)).Entered [id] := by
  have hnone : (Run.mk {} [] [] [] none).Entered [] := fun id => by simp
  exact hnone.enterBlock (ready_first id).fault

theorem Run.entered_keys (record : Record) :
    (Run.mk record [] [] [] none).Entered record.blockScopes.keys := fun id => by
  rw [Std.TreeMap.contains_iff_mem, Std.TreeMap.mem_keys]

theorem runBlock_fault_from {record : Record} (hrecord : (Run.mk record [] [] [] none).Regular)
    (b : Block) : (runBlock cfg record b).fault =
      (firstRepeat record.blockScopes.keys b.visited).map .enteredTwice := by
  obtain ⟨r, hwalk, hrun⟩ := runBlock_walk cfg record b
  have hvisited : b.visited = b.id :: visitedOfStmts b.statements := by
    cases b
    rfl
  rw [hrun, hvisited, firstRepeat]
  split
  · next hold =>
    have hclash : (Run.mk record [] [] [] none).clash (.enterBlock b.id none) =
        some (.enteredTwice b.id) :=
      if_pos ((Run.entered_keys record b.id).mpr hold)
    have hfault := congrArg Run.fault (Run.take_of_clash rfl hclash)
    have hover : ((Run.mk record [] [] [] none).take (.enterBlock b.id none)).fault ≠ none :=
      hfault ▸ Option.some_ne_none _
    rw [hwalk.eq_of_fault hover, Run.take_of_fault hover, hfault, Option.map_some]
  · next hnew =>
    have hready := hrecord.enterFirst (Bool.eq_false_iff.mpr fun h =>
      hnew ((Run.entered_keys record b.id).mp h))
    have hfault := hwalk.fault_eq hready ((Run.entered_keys record).enterBlock hready.fault)
    cases hfirst : firstRepeat (b.id :: record.blockScopes.keys) (visitedOfStmts b.statements) with
    | some id =>
      rw [hfirst, Option.map_some] at hfault
      rw [Run.take_of_fault (hfault ▸ Option.some_ne_none _), hfault, Option.map_some]
    | none =>
      rw [hfirst, Option.map_none] at hfault
      rw [Option.map_none]
      exact ((hwalk.ready hready hfault).exitBlock b.id (hwalk.ready hready hfault).scope_lt).fault

theorem runBlock_fault (b : Block) :
    (runBlock cfg {} b).fault = (firstRepeat [] b.visited).map .enteredTwice :=
  runBlock_fault_from cfg Run.regular_empty b

theorem runBlock_nested (record : Record) (b : Block)
    (hfault : (runBlock cfg record b).fault = none) :
    ∃ a, Nested (runBlock cfg record b).collectorSteps a := by
  obtain ⟨r, hwalk, hrun⟩ := runBlock_walk cfg record b
  rw [hrun] at hfault ⊢
  have hr := (Run.fits_of_take hfault).1
  obtain ⟨steps, a, hsteps, ha⟩ := hwalk.nested hr
  refine ⟨a.inBlock b.id, ?_⟩
  rw [Run.collectorSteps_take hfault, hsteps, Run.collectorSteps_take (hwalk.fault_eq_none hr)]
  exact .block b.id ha

theorem runBlock_collected (record : Record) (b : Block)
    (hfault : (runBlock cfg record b).fault = none) :
    ∃ c, Collector.run {} (runBlock cfg record b).collectorSteps = .ok c := by
  obtain ⟨a, ha⟩ := runBlock_nested cfg record b hfault
  exact ⟨_, ha.run {}⟩

theorem analyze_fault_eq (record : Record) (b : Block) :
    (analyze cfg record b).fault = (runBlock cfg record b).fault := by
  rw [analyze, Analysis.ofRun]
  cases hfault : (runBlock cfg record b).fault with
  | some f => rfl
  | none =>
    obtain ⟨c, hc⟩ := runBlock_collected cfg record b hfault
    simp only [hc]

theorem analyze_fault (b : Block) :
    (analyze cfg {} b).fault = (firstRepeat [] b.visited).map .enteredTwice :=
  (analyze_fault_eq cfg {} b).trans (runBlock_fault cfg b)

end Root

/-! ## Blocks and visits -/

mutual

theorem Stmt.visited_perm (s : Stmt) : s.visited.Perm (s.blocks.map Block.id) := by
  match s with
  | .expression _ | .assignment _ _ _ | .declaration _ _ _ | .breakLoop _ | .continueLoop _
  | .leave _ => exact .nil
  | .function ⟨_, _, _, body⟩ _ => exact body.visited_perm
  | .ifThen _ body _ => exact body.visited_perm
  | .switch _ cases _ => exact visitedOfCases_perm cases
  | .forLoop init _ post body _ =>
    rw [Stmt.visited, Stmt.blocks, List.append_assoc, List.map_append, List.map_append]
    exact init.visited_perm.append
      ((body.visited_perm.append post.visited_perm).trans List.perm_append_comm)
  | .block b => exact b.visited_perm

theorem Block.visited_perm (b : Block) : b.visited.Perm (b.blocks.map Block.id) := by
  match b with
  | ⟨id, statements, _⟩ => exact (visitedOfStmts_perm statements).cons id

theorem visitedOfStmts_perm (ss : List Stmt) :
    (visitedOfStmts ss).Perm ((blocksOfStmts ss).map Block.id) := by
  match ss with
  | [] => exact .nil
  | s :: rest =>
    rw [visitedOfStmts, blocksOfStmts, List.map_append]
    exact s.visited_perm.append (visitedOfStmts_perm rest)

theorem visitedOfCases_perm (cs : List Case) :
    (visitedOfCases cs).Perm ((blocksOfCases cs).map Block.id) := by
  match cs with
  | [] => exact .nil
  | ⟨_, body, _⟩ :: rest =>
    rw [visitedOfCases, blocksOfCases, List.map_append]
    exact body.visited_perm.append (visitedOfCases_perm rest)

end

/-- An analysis has no fault if and only if no two of its blocks have the same number, and none has
the number of a block that has been entered before. -/
theorem analyze_fault_from_eq_none_iff (cfg : Setting) {record : Record}
    (hrecord : (Run.mk record [] [] [] none).Regular) (b : Block) :
    (analyze cfg record b).fault = none ↔ (b.blocks.map Block.id).Nodup ∧
      ∀ id ∈ b.blocks.map Block.id, id ∉ record.blockScopes := by
  rw [analyze_fault_eq, runBlock_fault_from cfg hrecord, Option.map_eq_none_iff,
    firstRepeat_eq_none_iff, b.visited_perm.nodup_iff]
  simp only [b.visited_perm.mem_iff, Std.TreeMap.mem_keys]

theorem analyze_fault_eq_none_iff (cfg : Setting) (b : Block) :
    (analyze cfg {} b).fault = none ↔ (b.blocks.map Block.id).Nodup := by
  rw [analyze_fault, Option.map_eq_none_iff, firstRepeat_eq_none_iff, b.visited_perm.nodup_iff]
  simp

theorem runBlock_distinct (cfg : Setting) {record : Record} {b : Block}
    (hrecord : (Run.mk record [] [] [] none).Regular)
    (hfault : (runBlock cfg record b).fault = none) : (b.blocks.map Block.id).Nodup :=
  ((analyze_fault_from_eq_none_iff cfg hrecord b).mp
    ((analyze_fault_eq cfg record b).trans hfault)).1

end Yul
