import Yul.Proofs.Parallel.Code
import Yul.Proofs.Run.Walk

/-!
# Two runs side by side

`Twins R r r'`: two states agree on all but their records and journals. `Check.Parallel R m m'` says
that two parts of an analysis lead from twins to twins and give the same value.

A run looks at its record only through the scopes that it uses, so twins may have different records as
long as these look the same from there (`Outlook`). What happens in a run depends on its journal
nowhere; the relation `R` holds of the two journals. So a part is parallel to itself, and parts of
analyses of the same code at other places, for another version of the machine, or with other scopes
out of sight, are parallel as well.
-/

namespace Yul

/-- The scopes that an event names. -/
def Event.scopes : Event → List ScopeId
  | .enterBlock _ parent => parent.toList
  | .exitBlock _ scope | .openParameters _ scope | .look scope _ | .declare scope _ _ => [scope]
  | .enterFunction f | .exitFunction f | .call f => [f.scope]
  | .effects _ | .ask _ | .report _ => []

/-- Records that look the same to runs which use no scopes but their own. -/
structure Outlook where
  /-- how the records of the two runs are related -/
  rel : Record → Record → Prop
  /-- the scopes that the runs use -/
  own : ScopeId → Prop
  entered : ∀ {r r' : Record}, rel r r' → ∀ id,
    r'.blockScopes.contains id = r.blockScopes.contains id
  size : ∀ {r r' : Record}, rel r r' → r'.scopes.size = r.scopes.size
  /-- the scope that is opened next is an own one -/
  next : ∀ {r r' : Record}, rel r r' → own r.scopes.size
  missing : ∀ {r r' : Record}, rel r r' → ∀ {scope : ScopeId}, own scope → ∀ x,
    r'.scopes.missing? scope x = r.scopes.missing? scope x
  chain : ∀ {r r' : Record}, rel r r' → ∀ {scope : ScopeId}, own scope →
    r'.scopes.chain scope = r.scopes.chain scope
  /-- own scopes hang below own scopes -/
  outward : ∀ {r r' : Record}, rel r r' → ∀ {scope : ScopeId}, own scope →
    ∀ entry ∈ r.scopes.chain scope, own entry.1
  openBlock : ∀ {r r' : Record}, rel r r' → ∀ id {parent : Option ScopeId},
    (∀ p ∈ parent.toList, own p) → rel (r.openBlock id parent) (r'.openBlock id parent)
  openParameters : ∀ {r r' : Record}, rel r r' → ∀ body {parent : ScopeId}, own parent →
    rel (r.openParameters body parent) (r'.openParameters body parent)
  declare : ∀ {r r' : Record}, rel r r' → ∀ {scope : ScopeId}, own scope → ∀ name symbol,
    rel (r.declare scope name symbol) (r'.declare scope name symbol)

/-- All scopes are in sight. -/
def Outlook.whole : Outlook where
  rel r r' := r' = r
  own _ := True
  entered h _ := by rw [h]
  size h := by rw [h]
  next _ := trivial
  missing h _ _ _ := by rw [h]
  chain h _ _ := by rw [h]
  outward _ _ _ _ _ := trivial
  openBlock h _ _ _ := by rw [h]
  openParameters h _ _ _ := by rw [h]
  declare h _ _ _ _ := by rw [h]

/-- The events that tell what is wrong with using a builtin, the latest first. -/
def Dialect.usage (d : Dialect) (b : Builtin) (span : Span) : List Event :=
  ((d.builtinProblems b).map fun p => .report ⟨p, span⟩).reverse

/-- What is the same and what may differ in two runs whose spans are related by `f`. The same events
can be added to both journals, and what the two dialects say of using a builtin with `P`. -/
structure Journals (f : Span → Span) (d d' : Dialect) (P : Builtin → Prop) where
  outlook : Outlook := .whole
  rel : List Event → List Event → Prop
  cons : ∀ (e : Event) {j j' : List Event}, (∀ scope ∈ e.scopes, outlook.own scope) → rel j j' →
    rel (e :: j) (e.mapSpans f :: j')
  use : ∀ (b : Builtin) (span : Span) {j j' : List Event}, P b → rel j j' →
    rel (d.usage b span ++ j) (d'.usage b (f span) ++ j')

section Twins

variable {f : Span → Span} {d d' : Dialect} {P : Builtin → Prop} (R : Journals f d d' P)

/-- Two states whose records look the same and whose journals are related, and which agree on all
else. -/
def Twins (r r' : Run) : Prop :=
  ∃ record j, r' = { r with record, journal := j } ∧ R.outlook.rel r.record record ∧
    R.rel r.journal j

variable {R} {r r' : Run}

namespace Twins

theorem fault (h : Twins R r r') : r'.fault = r.fault := by
  obtain ⟨record, j, rfl, _⟩ := h
  rfl

theorem active (h : Twins R r r') : r'.active = r.active := by
  obtain ⟨record, j, rfl, _⟩ := h
  rfl

theorem records (h : Twins R r r') : R.outlook.rel r.record r'.record := by
  obtain ⟨record, j, rfl, hrecord, -⟩ := h
  exact hrecord

theorem clash_eq {record : Record} (j : List Event) (h : R.outlook.rel r.record record) {e : Event}
    (hown : ∀ scope ∈ e.scopes, R.outlook.own scope) :
    ({ r with record, journal := j } : Run).clash (e.mapSpans f) = r.clash e := by
  have hsize : (fun id => Fault.noScope id record.scopes.size) =
      fun id => Fault.noScope id r.record.scopes.size := by
    rw [R.outlook.size h]
  cases e with
  | enterBlock id parent =>
    change (if record.blockScopes.contains id then _ else _) = _
    rw [R.outlook.entered h id]
    rfl
  | exitBlock id scope | declare scope name symbol =>
    change (if scope < record.scopes.size then _ else some (Fault.noScope scope record.scopes.size)) = _
    rw [R.outlook.size h]
    rfl
  | look scope x =>
    change (record.scopes.missing? scope x).map (fun id => Fault.noScope id record.scopes.size) = _
    rw [R.outlook.missing h (hown scope (List.mem_singleton_self scope)) x, hsize]
    rfl
  | openParameters | enterFunction | exitFunction | effects | call | ask | report => rfl

theorem change_eq {record : Record} (j : List Event) (h : R.outlook.rel r.record record) {e : Event}
    (hown : ∀ scope ∈ e.scopes, R.outlook.own scope) :
    ∃ record', ({ r with record, journal := j } : Run).change (e.mapSpans f) =
        { r.change e with record := record', journal := j } ∧
      R.outlook.rel (r.change e).record record' := by
  cases e with
  | enterBlock id parent => exact ⟨_, rfl, R.outlook.openBlock h id hown⟩
  | openParameters body parent =>
    exact ⟨_, rfl, R.outlook.openParameters h body (hown parent (List.mem_singleton_self parent))⟩
  | declare scope name symbol =>
    exact ⟨_, rfl, R.outlook.declare h (hown scope (List.mem_singleton_self scope)) name symbol⟩
  | exitFunction g =>
    obtain ⟨record₀, active, suspended, journal, fault⟩ := r
    cases suspended <;> exact ⟨_, rfl, h⟩
  | exitBlock | enterFunction | look | effects | call | ask | report => exact ⟨_, rfl, h⟩

/-- The same event takes twins to twins. -/
theorem take (h : Twins R r r') (e : Event) (hown : ∀ scope ∈ e.scopes, R.outlook.own scope) :
    Twins R (r.take e) (r'.take (e.mapSpans f)) := by
  obtain ⟨record, j, rfl, hrecord, hj⟩ := h
  have hclash' := clash_eq j hrecord hown
  by_cases hr : r.fault = none
  · cases hclash : r.clash e with
    | some g =>
      rw [Run.take_of_clash hr hclash,
        Run.take_of_clash (r := { r with record, journal := j }) hr (hclash'.trans hclash)]
      exact ⟨record, j, rfl, hrecord, hj⟩
    | none =>
      obtain ⟨record', hchange, hrecord'⟩ := change_eq j hrecord hown
      rw [Run.take_of_fits hr hclash,
        Run.take_of_fits (r := { r with record, journal := j }) hr (hclash'.trans hclash), hchange]
      exact ⟨record', _, rfl, hrecord', R.cons e hown hj⟩
  · rw [Run.take_of_fault hr, Run.take_of_fault (r := { r with record, journal := j }) hr]
    exact ⟨record, j, rfl, hrecord, hj⟩

theorem stop (h : Twins R r r') (g : Fault) : Twins R (r.stop g) (r'.stop g) := by
  obtain ⟨record, j, rfl, hrecord, hj⟩ := h
  unfold Run.stop
  dsimp only
  split
  · exact ⟨record, j, rfl, hrecord, hj⟩
  · exact ⟨record, j, rfl, hrecord, hj⟩

theorem lookup_eq (h : Twins R r r') {scope : ScopeId} (hscope : R.outlook.own scope) (x : Name) :
    r'.record.scopes.lookup scope x = r.record.scopes.lookup scope x := by
  rw [ScopeTable.lookup, R.outlook.chain h.records hscope, ScopeTable.lookup]

theorem isTaken_eq (h : Twins R r r') {scope : ScopeId} (hscope : R.outlook.own scope) (x : Name) :
    r'.record.scopes.isTaken scope x = r.record.scopes.isTaken scope x := by
  rw [ScopeTable.isTaken, R.outlook.chain h.records hscope, ScopeTable.isTaken]

end Twins

end Twins

namespace Check

variable {α β : Type} {f : Span → Span} {d d' : Dialect} {P : Builtin → Prop}

/-- Two parts of analyses lead from twins to twins and give the same value, which `Q` holds of. -/
def ParallelTo (R : Journals f d d' P) (Q : α → Prop) (m m' : Check α) : Prop :=
  ∀ r r' : Run, Twins R r r' →
    (m'.value r' = m.value r ∧ Q (m.value r)) ∧ Twins R (m.after r) (m'.after r')

/-- Two parts of analyses lead from twins to twins and give the same value. -/
def Parallel (R : Journals f d d' P) (m m' : Check α) : Prop :=
  ∀ r r' : Run, Twins R r r' → m'.value r' = m.value r ∧ Twins R (m.after r) (m'.after r')

variable {R : Journals f d d' P}

namespace ParallelTo

variable {Q : α → Prop} {m m' : Check α}

theorem bind {k k' : α → Check β} (hm : ParallelTo R Q m m')
    (hk : ∀ x, Q x → Parallel R (k x) (k' x)) : Parallel R (m >>= k) (m' >>= k') := by
  intro r r' h
  obtain ⟨⟨hvalue, hQ⟩, hafter⟩ := hm r r' h
  rw [value_bind, value_bind, after_bind, after_bind, hvalue]
  exact hk _ hQ _ _ hafter

theorem bind_return {k k' : α → Check PUnit} (hm : ParallelTo R Q m m')
    (hk : ∀ x, Q x → Parallel R (k x) (k' x)) :
    ParallelTo R Q (m >>= fun x => k x >>= fun _ => Pure.pure x)
      (m' >>= fun x => k' x >>= fun _ => Pure.pure x) := by
  intro r r' h
  obtain ⟨⟨hvalue, hQ⟩, hafter⟩ := hm r r' h
  refine ⟨⟨hvalue, hQ⟩, ?_⟩
  change Twins R _ ((k' (m'.value r')).after _)
  rw [hvalue]
  exact (hk _ hQ _ _ hafter).2

end ParallelTo

namespace Parallel

theorem pure (x : α) : Parallel R (pure x) (pure x) :=
  fun _ _ h => ⟨rfl, h⟩

theorem bind {m m' : Check α} {k k' : α → Check β} (hm : Parallel R m m')
    (hk : ∀ x, Parallel R (k x) (k' x)) : Parallel R (m >>= k) (m' >>= k') := by
  intro r r' h
  obtain ⟨hvalue, hafter⟩ := hm r r' h
  rw [value_bind, value_bind, after_bind, after_bind, hvalue]
  exact hk _ _ _ hafter

theorem ite {c : Prop} [Decidable c] {m m' n n' : Check α} (hm : Parallel R m m')
    (hn : Parallel R n n') : Parallel R (if c then m else n) (if c then m' else n') := by
  split
  · exact hm
  · exact hn

theorem read {k k' : Run → Check α}
    (hk : ∀ r r' : Run, Twins R r r' → Parallel R (k r) (k' r')) :
    Parallel R (get >>= k) (get >>= k') :=
  fun r r' h => hk r r' h r r' h

theorem emit (e : Event) (hown : ∀ scope ∈ e.scopes, R.outlook.own scope) :
    Parallel R (emit e) (emit (e.mapSpans f)) :=
  fun _ _ h => ⟨rfl, h.take e hown⟩

theorem stop (g : Fault) : Parallel R (stop g) (stop g) :=
  fun _ _ h => ⟨rfl, h.stop g⟩

theorem report (p : Problem) (span : Span) : Parallel R (report p span) (report p (f span)) :=
  emit (.report ⟨p, span⟩) (List.forall_mem_nil _)

theorem forM {k k' : β → Check PUnit} {g : β → β} {xs : List β}
    (hk : ∀ x ∈ xs, Parallel R (k x) (k' (g x))) : Parallel R (xs.forM k) ((xs.map g).forM k') := by
  induction xs with
  | nil => exact .pure _
  | cons x xs ih =>
    rw [List.forall_mem_cons] at hk
    exact .bind hk.1 fun _ => ih hk.2

theorem reportAll (ps : List Problem) (span : Span) :
    Parallel R (reportAll ps span) (reportAll ps (f span)) := by
  induction ps with
  | nil => exact .pure _
  | cons p ps ih => exact .bind (.report p span) fun _ => ih

end Parallel

theorem after_reportAll {r : Run} (h : r.fault = none) (ps : List Problem) (span : Span) :
    (reportAll ps span).after r =
      { r with journal := (ps.map fun p => Event.report ⟨p, span⟩).reverse ++ r.journal } := by
  induction ps generalizing r with
  | nil => rfl
  | cons p ps ih =>
    have hstep : r.take (.report ⟨p, span⟩) =
        { r with journal := .report ⟨p, span⟩ :: r.journal } :=
      Run.take_of_fits h rfl
    refine (ih (r := r.take (.report ⟨p, span⟩)) (hstep ▸ h)).trans ?_
    rw [hstep, List.map_cons, List.reverse_cons, List.append_assoc]
    rfl

theorem after_reportAll_of_fault {r : Run} (h : r.fault ≠ none) (ps : List Problem) (span : Span) :
    (reportAll ps span).after r = r := by
  induction ps with
  | nil => rfl
  | cons p ps ih =>
    refine Eq.trans ?_ ih
    exact congrArg (Check.reportAll ps span).after (Run.take_of_fault h _)

/-- The two dialects differ in what they say of using a builtin, and in nothing else. -/
theorem Parallel.use {b : Builtin} (hb : P b) (span : Span) :
    Parallel R (Check.reportAll (d.builtinProblems b) span)
      (Check.reportAll (d'.builtinProblems b) (f span)) := by
  intro r r' h
  refine ⟨rfl, ?_⟩
  by_cases hr : r.fault = none
  · rw [after_reportAll hr, after_reportAll (h.fault.trans hr)]
    obtain ⟨record, j, rfl, hrecord, hj⟩ := h
    exact ⟨record, _, rfl, hrecord, R.use b span hb hj⟩
  · rw [after_reportAll_of_fault hr, after_reportAll_of_fault (h.fault ▸ hr)]
    exact h

end Check

end Yul
