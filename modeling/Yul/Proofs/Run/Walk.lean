import Mathlib.Logic.Relation
import Mathlib.Tactic.ByContra
import Yul.Analysis

/-!
# Walks

The events of a run are nested as the code is. `Walk scope ids r r'` says that a piece of code whose
names belong to `scope` takes the run from `r` to `r'` and enters the blocks `ids` in this order:
what happens inside a block lies between its first and its last event, and so does what happens
inside a function. Every part of an analysis is a walk, whatever problems it finds, so an invariant
of runs needs one case for each sort of event and none for the code.

* `Check.after`, `Check.value`: the state and the value that a part of an analysis ends with.
* `Quiet scope r r'`: nothing but events that leave scopes, variables and frames alone.
* `Walk.trans`: walks one after the other.
-/

namespace Yul

/-! ## Parts of an analysis -/

namespace Check

variable {α β : Type}

/-- The state that a part of an analysis leads to. -/
def after (m : Check α) (r : Run) : Run := (m.run r).2

/-- The value that a part of an analysis gives. -/
def value (m : Check α) (r : Run) : α := (m.run r).1

@[simp] theorem after_pure (a : α) (r : Run) : (pure a : Check α).after r = r := rfl

@[simp] theorem value_pure (a : α) (r : Run) : (pure a : Check α).value r = a := rfl

@[simp] theorem after_bind (m : Check α) (f : α → Check β) (r : Run) :
    (m >>= f).after r = (f (m.value r)).after (m.after r) := rfl

@[simp] theorem value_bind (m : Check α) (f : α → Check β) (r : Run) :
    (m >>= f).value r = (f (m.value r)).value (m.after r) := rfl

@[simp] theorem after_map (g : α → β) (m : Check α) (r : Run) : (g <$> m).after r = m.after r := rfl

@[simp] theorem value_map (g : α → β) (m : Check α) (r : Run) :
    (g <$> m).value r = g (m.value r) := rfl

@[simp] theorem after_get (r : Run) : (get : Check Run).after r = r := rfl

@[simp] theorem value_get (r : Run) : (get : Check Run).value r = r := rfl

@[simp] theorem after_emit (e : Event) (r : Run) : (emit e).after r = r.take e := rfl

@[simp] theorem after_stop (f : Fault) (r : Run) : (stop f).after r = r.stop f := rfl

@[simp] theorem after_report (p : Problem) (span : Span) (r : Run) :
    (report p span).after r = r.take (.report ⟨p, span⟩) := rfl

@[simp] theorem after_enterBlock (id : BlockId) (parent : Option ScopeId) (r : Run) :
    (enterBlock id parent).after r = r.take (.enterBlock id parent) := rfl

@[simp] theorem value_enterBlock (id : BlockId) (parent : Option ScopeId) (r : Run) :
    (enterBlock id parent).value r = r.record.scopes.size := rfl

@[simp] theorem after_openParameters (body : BlockId) (parent : ScopeId) (r : Run) :
    (openParameters body parent).after r = r.take (.openParameters body parent) := rfl

@[simp] theorem value_openParameters (body : BlockId) (parent : ScopeId) (r : Run) :
    (openParameters body parent).value r = r.record.scopes.size := rfl

end Check

/-! ## Events and states -/

namespace Run

theorem take_of_fault {r : Run} (h : r.fault ≠ none) (e : Event) : r.take e = r := by
  rw [take, if_pos (Option.isSome_iff_ne_none.mpr h)]

theorem take_of_clash {r : Run} {e : Event} {f : Fault} (h : r.fault = none)
    (hclash : r.clash e = some f) : r.take e = { r with fault := some f } := by
  simp [take, stop, h, hclash]

theorem take_of_fits {r : Run} {e : Event} (h : r.fault = none) (hfits : r.clash e = none) :
    r.take e = { r.change e with journal := e :: r.journal } := by
  simp [take, h, hfits]

@[simp] theorem change_fault (r : Run) (e : Event) : (r.change e).fault = r.fault := by
  cases e <;> simp only [change]
  split <;> rfl

@[simp] theorem change_journal (r : Run) (e : Event) : (r.change e).journal = r.journal := by
  cases e <;> simp only [change]
  split <;> rfl

theorem fits_of_take {r : Run} {e : Event} (h : (r.take e).fault = none) :
    r.fault = none ∧ r.clash e = none := by
  by_cases hr : r.fault = none
  · refine ⟨hr, ?_⟩
    cases hclash : r.clash e with
    | none => rfl
    | some f =>
      rw [take_of_clash hr hclash] at h
      exact absurd h (by simp)
  · rw [take_of_fault hr] at h
    exact absurd h hr

end Run

/-! ## What an analysis takes from its run -/

theorem ofRun_findings (run : Run) : (Analysis.ofRun run).findings = run.findings := by
  unfold Analysis.ofRun
  dsimp only
  split
  · rfl
  · split <;> rfl

theorem ofRun_accesses (run : Run) : (Analysis.ofRun run).accesses = run.accesses := by
  unfold Analysis.ofRun
  dsimp only
  split
  · rfl
  · split <;> rfl

/-- Of a run's journal an analysis needs the problems found, the names asked for and the events that
bear on effects. -/
theorem ofRun_eq {r r' : Run} (hrecord : r'.record = r.record) (hfault : r'.fault = r.fault)
    (hsteps : r'.collectorSteps = r.collectorSteps) :
    Analysis.ofRun r' =
      { Analysis.ofRun r with findings := r'.findings, accesses := r'.accesses } := by
  unfold Analysis.ofRun
  dsimp only
  rw [hrecord, hfault, hsteps]
  split
  · rfl
  · split <;> rfl

theorem ofRun_congr {r r' : Run} (hrecord : r'.record = r.record) (hfault : r'.fault = r.fault)
    (haccesses : r'.accesses = r.accesses) (hsteps : r'.collectorSteps = r.collectorSteps) :
    Analysis.ofRun r' = { Analysis.ofRun r with findings := r'.findings } := by
  rw [ofRun_eq hrecord hfault hsteps, haccesses, ← ofRun_accesses r]

theorem ofRun_record (run : Run) :
    (Analysis.ofRun run).record.scopes = run.record.scopes ∧
      (Analysis.ofRun run).record.blockScopes = run.record.blockScopes ∧
      (Analysis.ofRun run).record.functionScopes = run.record.functionScopes := by
  unfold Analysis.ofRun
  dsimp only
  split
  · exact ⟨rfl, rfl, rfl⟩
  · split <;> exact ⟨rfl, rfl, rfl⟩

theorem fault_of_ofRun {run : Run} (h : (Analysis.ofRun run).fault = none) : run.fault = none := by
  unfold Analysis.ofRun at h
  dsimp only at h
  split at h
  · exact nomatch h
  · next hfault => exact hfault

/-! ## Quiet events -/

/-- Whether an event leaves scopes, variables and frames alone. Names are looked up from `scope`. -/
def Event.IsQuiet (scope : ScopeId) : Event → Prop
  | .look s _ => s = scope
  | .effects _ | .call _ | .ask _ | .report _ => True
  | .enterBlock _ _ | .exitBlock _ _ | .openParameters _ _ | .enterFunction _ | .exitFunction _
  | .declare _ _ _ => False

/-- Whether a problem is that a variable cannot be used yet. -/
def Problem.isUntimely : Problem → Bool
  | .usedBeforeDeclared _ => true
  | _ => false

/-- Whether an event reports a variable as one that cannot be used yet. -/
def Event.isUntimely : Event → Bool
  | .report f => f.problem.isUntimely
  | _ => false

/-- Whether an event does not report a variable as one that cannot be used, unless the variable
that is found from `scope` cannot. -/
def Run.Grounds (r : Run) (scope : ScopeId) (e : Event) : Prop :=
  ∀ x span, e = .report ⟨.usedBeforeDeclared x, span⟩ → ∃ home type,
    r.record.scopes.lookup scope x = some (home, .variable type) ∧ (home, x) ∉ r.active

theorem Run.grounds_of_timely {r : Run} {scope : ScopeId} {e : Event} (h : e.isUntimely = false) :
    r.Grounds scope e := by
  rintro x span rfl
  exact absurd h.symm Bool.false_ne_true

/-- The run goes on by one quiet event. -/
def QuietStep (scope : ScopeId) (r r' : Run) : Prop :=
  ∃ e : Event, e.IsQuiet scope ∧ r.Grounds scope e ∧ r' = r.take e

/-- The run goes on by quiet events. -/
abbrev Quiet (scope : ScopeId) : Run → Run → Prop :=
  Relation.ReflTransGen (QuietStep scope)

theorem Quiet.take {scope : ScopeId} {e : Event} (h : e.IsQuiet scope) {r : Run}
    (hgrounds : r.Grounds scope e) : Quiet scope r (r.take e) :=
  .single ⟨e, h, hgrounds, rfl⟩

/-- The run goes on by one quiet event that means nothing for the effects of the code. -/
def SilentStep (scope : ScopeId) (r r' : Run) : Prop :=
  ∃ e : Event, e.IsQuiet scope ∧ e.collectorStep? = none ∧ r.Grounds scope e ∧ r' = r.take e

/-- The run goes on by quiet events that mean nothing for the effects of the code. -/
abbrev Silent (scope : ScopeId) : Run → Run → Prop :=
  Relation.ReflTransGen (SilentStep scope)

theorem Silent.quiet {scope : ScopeId} {r r' : Run} (h : Silent scope r r') : Quiet scope r r' :=
  Relation.ReflTransGen.mono (fun _ _ ⟨e, he, _, hgrounds, hr⟩ => ⟨e, he, hgrounds, hr⟩) _ _ h

theorem Event.IsQuiet.change_eq {scope : ScopeId} {e : Event} (h : e.IsQuiet scope) (r : Run) :
    r.change e = r := by
  cases e <;> first | rfl | exact h.elim

/-- What stays as it is over quiet events. -/
structure Run.Alike (r r' : Run) : Prop where
  record : r'.record = r.record
  active : r'.active = r.active
  suspended : r'.suspended = r.suspended

theorem Run.Alike.refl (r : Run) : r.Alike r := ⟨rfl, rfl, rfl⟩

theorem Run.Alike.trans {r r₁ r₂ : Run} (h : r.Alike r₁) (h' : r₁.Alike r₂) : r.Alike r₂ :=
  ⟨h'.record.trans h.record, h'.active.trans h.active, h'.suspended.trans h.suspended⟩

theorem Event.IsQuiet.alike {scope : ScopeId} {e : Event} (he : e.IsQuiet scope) (r : Run) :
    r.Alike (r.take e) := by
  by_cases hr : r.fault = none
  · cases hclash : r.clash e with
    | none =>
      rw [Run.take_of_fits hr hclash, he.change_eq]
      exact ⟨rfl, rfl, rfl⟩
    | some f =>
      rw [Run.take_of_clash hr hclash]
      exact ⟨rfl, rfl, rfl⟩
  · rw [Run.take_of_fault hr]
    exact .refl r

theorem Quiet.alike {scope : ScopeId} {r r' : Run} (h : Quiet scope r r') : r.Alike r' := by
  induction h with
  | refl => exact .refl r
  | tail _ hstep ih =>
    obtain ⟨e, he, -, rfl⟩ := hstep
    exact ih.trans (he.alike _)

namespace Check

variable {α β : Type}

/-- Whether a part of an analysis takes nothing but quiet events. -/
def Quietly (scope : ScopeId) (m : Check α) : Prop :=
  ∀ r : Run, Quiet scope r (m.after r)

variable {scope : ScopeId}

theorem Quietly.pure (a : α) : Quietly scope (pure a : Check α) :=
  fun _ => .refl

theorem Quietly.bind {m : Check α} {f : α → Check β} (hm : Quietly scope m)
    (hf : ∀ a, Quietly scope (f a)) : Quietly scope (m >>= f) :=
  fun r => (hm r).trans (hf _ _)

theorem Quietly.get : Quietly scope (get : Check Run) :=
  fun _ => .refl

theorem Quietly.emit {e : Event} (he : e.IsQuiet scope) (htimely : e.isUntimely = false) :
    Quietly scope (emit e) :=
  fun _ => Quiet.take he (Run.grounds_of_timely htimely)

theorem Quietly.report (p : Problem) (span : Span) (htimely : p.isUntimely = false) :
    Quietly scope (report p span) :=
  .emit trivial htimely

theorem Quietly.ite {c : Prop} [Decidable c] {m m' : Check α} (hm : Quietly scope m)
    (hm' : Quietly scope m') : Quietly scope (if c then m else m') := by
  split
  · exact hm
  · exact hm'

/-- Whether a part of an analysis takes nothing but quiet events that mean nothing for effects. -/
def Silently (scope : ScopeId) (m : Check α) : Prop :=
  ∀ r : Run, Silent scope r (m.after r)

theorem Silently.quietly {m : Check α} (hm : Silently scope m) : Quietly scope m :=
  fun r => (hm r).quiet

theorem Silently.pure (a : α) : Silently scope (pure a : Check α) :=
  fun _ => .refl

theorem Silently.bind {m : Check α} {f : α → Check β} (hm : Silently scope m)
    (hf : ∀ a, Silently scope (f a)) : Silently scope (m >>= f) :=
  fun r => (hm r).trans (hf _ _)

theorem Silently.ite {c : Prop} [Decidable c] {m m' : Check α} (hm : Silently scope m)
    (hm' : Silently scope m') : Silently scope (if c then m else m') := by
  split
  · exact hm
  · exact hm'

theorem Silently.emit {e : Event} (he : e.IsQuiet scope) (hstep : e.collectorStep? = none)
    (htimely : e.isUntimely = false) : Silently scope (emit e) :=
  fun _ => .single ⟨e, he, hstep, Run.grounds_of_timely htimely, rfl⟩

theorem Silently.report (p : Problem) (span : Span) (htimely : p.isUntimely = false) :
    Silently scope (report p span) :=
  .emit trivial rfl htimely

end Check

/-! ## Walks -/

/-- A piece of code whose names belong to `scope` leads from one state to another, and enters blocks
in the given order. -/
inductive Walk : ScopeId → List BlockId → Run → Run → Prop where
  | done {scope : ScopeId} {r : Run} : Walk scope [] r r
  | quiet {scope : ScopeId} {ids : List BlockId} {e : Event} {r r' : Run} (he : e.IsQuiet scope)
      (next : Walk scope ids (r.take e) r') : Walk scope ids r r'
  | declare {scope : ScopeId} {ids : List BlockId} {name : Name} {symbol : Symbol} {r r' : Run}
      (hfree : r.record.scopes.isTaken scope name = false)
      (next : Walk scope ids (r.take (.declare scope name symbol)) r') : Walk scope ids r r'
  | block {scope : ScopeId} {id : BlockId} {inner ids : List BlockId} {r r₁ r' : Run}
      (inside : Walk r.record.scopes.size inner (r.take (.enterBlock id (some scope))) r₁)
      (next : Walk scope ids (r₁.take (.exitBlock id r.record.scopes.size)) r') :
      Walk scope (id :: inner ++ ids) r r'
  | function {scope : ScopeId} {name : Name} {body : BlockId} {inner ids : List BlockId}
      {r r₁ r₂ r' : Run}
      (parameters : Walk r.record.scopes.size [] (r.take (.openParameters body scope)) r₁)
      (inside : Walk r.record.scopes.size inner (r₁.take (.enterFunction ⟨scope, name⟩)) r₂)
      (next : Walk scope ids (r₂.take (.exitFunction ⟨scope, name⟩)) r') :
      Walk scope (inner ++ ids) r r'

namespace Walk

variable {scope : ScopeId} {ids ids' : List BlockId} {r r' r₁ r₂ : Run}

theorem trans (h : Walk scope ids r r₁) (h' : Walk scope ids' r₁ r₂) :
    Walk scope (ids ++ ids') r r₂ := by
  induction h with
  | done => exact h'
  | quiet he _ ih => exact .quiet he (ih h')
  | declare hfree _ ih => exact .declare hfree (ih h')
  | block inside _ _ ih =>
    rw [List.append_assoc]
    exact .block inside (ih h')
  | function parameters inside _ _ _ ih =>
    rw [List.append_assoc]
    exact .function parameters inside (ih h')

theorem of_quiet (h : Quiet scope r r') : Walk scope [] r r' := by
  induction h using Relation.ReflTransGen.head_induction_on with
  | refl => exact .done
  | head hstep _ ih =>
    obtain ⟨e, he, -, rfl⟩ := hstep
    exact .quiet he ih

theorem eq_of_fault (h : Walk scope ids r r') (hr : r.fault ≠ none) : r' = r := by
  induction h with
  | done => rfl
  | quiet _ _ ih | declare _ _ ih =>
    rw [Run.take_of_fault hr] at ih
    exact ih hr
  | block _ _ ih₁ ih₂ =>
    rw [Run.take_of_fault hr] at ih₁
    rw [ih₁ hr, Run.take_of_fault hr] at ih₂
    exact ih₂ hr
  | function _ _ _ ih₁ ih₂ ih₃ =>
    rw [Run.take_of_fault hr] at ih₁
    rw [ih₁ hr, Run.take_of_fault hr] at ih₂
    rw [ih₂ hr, Run.take_of_fault hr] at ih₃
    exact ih₃ hr

theorem fault_eq_none (h : Walk scope ids r r') (hr' : r'.fault = none) : r.fault = none := by
  by_contra hr
  rw [h.eq_of_fault hr] at hr'
  exact hr hr'

theorem bracket_faults {scope' : ScopeId} {e e' : Event} (inside : Walk scope' ids' (r.take e) r₁)
    (next : Walk scope ids (r₁.take e') r') (hr' : r'.fault = none) :
    (r.take e).fault = none ∧ r₁.fault = none ∧ (r₁.take e').fault = none := by
  have hlast := next.fault_eq_none hr'
  have hr₁ := (Run.fits_of_take hlast).1
  exact ⟨inside.fault_eq_none hr₁, hr₁, hlast⟩

end Walk

namespace Check

variable {α β : Type}

/-- Whether a part of an analysis is a walk that enters the given blocks. -/
def Walks (scope : ScopeId) (ids : List BlockId) (m : Check α) : Prop :=
  ∀ r : Run, Walk scope ids r (m.after r)

variable {scope : ScopeId} {ids ids' : List BlockId}

theorem Quietly.walks {m : Check α} (hm : Quietly scope m) : Walks scope [] m :=
  fun r => .of_quiet (hm r)

theorem Walks.pure (a : α) : Walks scope [] (pure a : Check α) :=
  fun _ => .done

theorem Walks.bind {m : Check α} {f : α → Check β} (hm : Walks scope ids m)
    (hf : ∀ a, Walks scope ids' (f a)) : Walks scope (ids ++ ids') (m >>= f) :=
  fun r => (hm r).trans (hf _ _)

theorem Walks.quietly_bind {m : Check α} {f : α → Check β} (hm : Quietly scope m)
    (hf : ∀ a, Walks scope ids (f a)) : Walks scope ids (m >>= f) :=
  .bind hm.walks hf

theorem Walks.bind_quietly {m : Check α} {f : α → Check β} (hm : Walks scope ids m)
    (hf : ∀ a, Quietly scope (f a)) : Walks scope ids (m >>= f) := by
  rw [← List.append_nil ids]
  exact .bind hm fun a => (hf a).walks

theorem Walks.forM {xs : List α} {f : α → Check PUnit} (hf : ∀ x, Walks scope [] (f x)) :
    Walks scope [] (xs.forM f) := by
  induction xs with
  | nil => exact .pure _
  | cons x xs ih => exact .bind (hf x) fun _ => ih

end Check

end Yul
