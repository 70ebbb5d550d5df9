import Std.Data.TreeMap.Lemmas
import Yul.Proofs.Run.Walk
import Yul.Proofs.Scope.Chain

/-!
# What a walk leaves alone

`Walk.confined`: a piece of code that belongs to one scope declares names in this scope and in scopes
that it opens itself. All other scopes stay as they are, variables of other scopes can be used
behind it if and only if they could be used before, and no block changes its scope. The state keeps
the order of its scopes all the while (`Run.Regular`).
-/

namespace Yul

/-! ## States after one event -/

namespace Run

variable {r : Run}

theorem take_eq {e : Event} (h : (r.take e).fault = none) :
    r.take e = { r.change e with journal := e :: r.journal } :=
  take_of_fits (fits_of_take h).1 (fits_of_take h).2

theorem filterMap_events_take {β : Type} (g : Event → Option β) {e : Event}
    (h : (r.take e).fault = none) :
    (r.take e).events.filterMap g = r.events.filterMap g ++ (g e).toList := by
  rw [take_eq h]
  simp only [events, List.reverse_cons, List.filterMap_append]
  cases hg : g e <;> simp [hg]

/-- What holds of the scopes in every state of a run. -/
structure Regular (r : Run) : Prop where
  parentsFirst : r.record.scopes.ParentsFirst
  /-- the scope of a block is there -/
  scope_lt : ∀ (id : BlockId) (s : Nat), r.record.blockScopes[id]? = some s →
    s < r.record.scopes.size
  /-- no two blocks share a scope -/
  scope_inj : ∀ (id id' : BlockId) (s : Nat), r.record.blockScopes[id]? = some s →
    r.record.blockScopes[id']? = some s → id = id'

theorem Regular.of_record {r' : Run} (h : r.Regular) (hrecord : r'.record = r.record) :
    r'.Regular := by
  obtain ⟨h₁, h₂, h₃⟩ := h
  constructor <;> rw [hrecord] <;> assumption

theorem Regular.of_alike {r' : Run} (h : r.Regular) (halike : r.Alike r') : r'.Regular :=
  h.of_record halike.record

@[simp] theorem change_exitFunction_record (r : Run) (f : FunctionId) :
    (r.change (.exitFunction f)).record = r.record := by
  cases h : r.suspended <;> simp only [change, h]

theorem record_exitBlock {id : BlockId} {scope : ScopeId}
    (hfault : (r.take (.exitBlock id scope)).fault = none) :
    (r.take (.exitBlock id scope)).record = r.record := by
  rw [take_eq hfault]
  rfl

theorem record_enterFunction {f : FunctionId} (hfault : (r.take (.enterFunction f)).fault = none) :
    (r.take (.enterFunction f)).record = r.record := by
  rw [take_eq hfault]
  rfl

theorem record_exitFunction {f : FunctionId} (hfault : (r.take (.exitFunction f)).fault = none) :
    (r.take (.exitFunction f)).record = r.record := by
  rw [take_eq hfault]
  exact change_exitFunction_record r f

theorem Regular.openParameters (h : r.Regular) {body : BlockId} {parent : Nat}
    (hparent : parent < r.record.scopes.size)
    (hfault : (r.take (.openParameters body parent)).fault = none) :
    (r.take (.openParameters body parent)).Regular := by
  rw [take_eq hfault]
  refine ⟨?_, ?_, h.scope_inj⟩
  · refine h.parentsFirst.add (fun p hp => ?_) true
    obtain rfl := Option.some.inj hp
    exact hparent
  · intro id s hs
    have := h.scope_lt id s hs
    simp only [change, Record.openParameters, ScopeTable.size_add]
    omega

theorem Regular.enterBlock (h : r.Regular) {id : BlockId} {parent : Option ScopeId}
    (hparent : ∀ p, parent = some p → p < r.record.scopes.size)
    (hfault : (r.take (.enterBlock id parent)).fault = none) :
    (r.take (.enterBlock id parent)).Regular := by
  rw [take_eq hfault]
  refine ⟨h.parentsFirst.add hparent false, ?_, ?_⟩
  · intro id' s hs
    simp only [change, Record.openBlock, ScopeTable.size_add, Std.TreeMap.getElem?_insert] at hs ⊢
    split at hs
    · obtain rfl := Option.some.inj hs
      exact Nat.lt_succ_self _
    · exact Nat.lt_succ_of_lt (h.scope_lt id' s hs)
  · intro id₁ id₂ s h₁ h₂
    simp only [change, Record.openBlock, Std.TreeMap.getElem?_insert] at h₁ h₂
    split at h₁ <;> split at h₂
    · next e₁ e₂ => rw [← Std.LawfulEqCmp.eq_of_compare e₁, ← Std.LawfulEqCmp.eq_of_compare e₂]
    · obtain rfl := Option.some.inj h₁
      exact absurd (h.scope_lt id₂ _ h₂) (Nat.lt_irrefl _)
    · obtain rfl := Option.some.inj h₂
      exact absurd (h.scope_lt id₁ _ h₁) (Nat.lt_irrefl _)
    · exact h.scope_inj id₁ id₂ s h₁ h₂

theorem Regular.declare (h : r.Regular) {scope : ScopeId} {name : Name} {symbol : Symbol}
    (hfault : (r.take (.declare scope name symbol)).fault = none) :
    (r.take (.declare scope name symbol)).Regular := by
  rw [take_eq hfault]
  refine ⟨h.parentsFirst.declare scope name symbol, ?_, h.scope_inj⟩
  intro id s hs
  simpa only [change, Record.declare, ScopeTable.size_declare] using h.scope_lt id s hs

end Run

/-! ## Confined changes -/

/-- Between two states nothing changes but scopes that are opened in between. -/
structure Apart (r r' : Run) : Prop where
  size_le : r.record.scopes.size ≤ r'.record.scopes.size
  scopes : ∀ i : Nat, i < r.record.scopes.size →
    r'.record.scopes.get? i = r.record.scopes.get? i
  active : ∀ v : VariableId, v.1 < r.record.scopes.size → (v ∈ r'.active ↔ v ∈ r.active)
  suspended : r'.suspended = r.suspended
  blockScopes : ∀ (id : BlockId) (s : ScopeId), r.record.blockScopes[id]? = some s →
    r'.record.blockScopes[id]? = some s

/-- Between two states nothing changes but `scope` and scopes that are opened in between. -/
structure Confined (scope : ScopeId) (r r' : Run) : Prop where
  size_le : r.record.scopes.size ≤ r'.record.scopes.size
  others : ∀ i : Nat, i < r.record.scopes.size → i ≠ scope →
    r'.record.scopes.get? i = r.record.scopes.get? i
  own : ∀ s, r.record.scopes.get? scope = some s → ∃ s', r'.record.scopes.get? scope = some s' ∧
    s'.parent = s.parent ∧ s'.ofFunction = s.ofFunction ∧ s.symbols <+: s'.symbols
  active : ∀ v : VariableId, v.1 < r.record.scopes.size → v.1 ≠ scope →
    (v ∈ r'.active ↔ v ∈ r.active)
  suspended : r'.suspended = r.suspended
  blockScopes : ∀ (id : BlockId) (s : ScopeId), r.record.blockScopes[id]? = some s →
    r'.record.blockScopes[id]? = some s

namespace Confined

variable {scope : Nat} {r r₁ r₂ r' : Run}

theorem of_alike (h : r.Alike r') : Confined scope r r' := by
  obtain ⟨hrecord, hactive, hsuspended⟩ := h
  refine ⟨hrecord ▸ Nat.le_refl _, ?_, ?_, ?_, hsuspended, ?_⟩
  · intro i _ _
    rw [hrecord]
  · intro s hs
    rw [hrecord]
    exact ⟨s, hs, rfl, rfl, List.prefix_rfl⟩
  · intro v _ _
    rw [hactive]
  · intro id s hs
    rwa [hrecord]

theorem trans (h : Confined scope r r₁) (h' : Confined scope r₁ r₂) : Confined scope r r₂ where
  size_le := Nat.le_trans h.size_le h'.size_le
  others i hi hne := by
    rw [h'.others i (Nat.lt_of_lt_of_le hi h.size_le) hne, h.others i hi hne]
  own s hs := by
    obtain ⟨s₁, hs₁, hparent₁, hfun₁, hpre₁⟩ := h.own s hs
    obtain ⟨s₂, hs₂, hparent₂, hfun₂, hpre₂⟩ := h'.own s₁ hs₁
    exact ⟨s₂, hs₂, hparent₂.trans hparent₁, hfun₂.trans hfun₁, hpre₁.trans hpre₂⟩
  active v hv hne :=
    (h'.active v (Nat.lt_of_lt_of_le hv h.size_le) hne).trans (h.active v hv hne)
  suspended := h'.suspended.trans h.suspended
  blockScopes id s hs := h'.blockScopes id s (h.blockScopes id s hs)

theorem declare {name : Name} {symbol : Symbol}
    (hfault : (r.take (.declare scope name symbol)).fault = none) :
    Confined scope r (r.take (.declare scope name symbol)) := by
  rw [Run.take_eq hfault]
  refine ⟨?_, ?_, ?_, ?_, rfl, fun id s hs => hs⟩
  · simp only [Run.change, Record.declare, ScopeTable.size_declare, Nat.le_refl]
  · intro i _ hne
    simp only [Run.change, Record.declare, ScopeTable.get?_declare, if_neg (Ne.symm hne)]
  · intro s hs
    simp only [Run.change, Record.declare, ScopeTable.get?_declare, if_true, hs, Option.map_some]
    refine ⟨_, rfl, s.parent_declare name symbol, s.ofFunction_declare name symbol, ?_⟩
    unfold Scope.declare
    split
    · exact List.prefix_rfl
    · exact List.prefix_append _ _
  · intro v _ hne
    simp only [Run.change]
    split
    · have hv : v ≠ (scope, name) := fun h => hne (h ▸ rfl)
      simp only [List.mem_cons, hv, false_or]
    · exact Iff.rfl

/-- A change that happens apart from a scope is confined to it. -/
theorem of_apart (h : Apart r r') (hscope : scope < r.record.scopes.size) : Confined scope r r' where
  size_le := h.size_le
  others i hi _ := h.scopes i hi
  own s hs := ⟨s, (h.scopes scope hscope).trans hs, rfl, rfl, List.prefix_rfl⟩
  active v hv _ := h.active v hv
  suspended := h.suspended
  blockScopes := h.blockScopes

end Confined

namespace Apart

variable {r r₁ r₂ : Run}

theorem block {id : BlockId} {parent : Option ScopeId}
    (hinside : Confined r.record.scopes.size (r.take (.enterBlock id parent)) r₁)
    (hfault : (r.take (.enterBlock id parent)).fault = none)
    (hfault' : (r₁.take (.exitBlock id r.record.scopes.size)).fault = none) :
    Apart r (r₁.take (.exitBlock id r.record.scopes.size)) := by
  have hnew := Run.fits_of_take hfault
  rw [Run.take_eq hfault] at hinside
  obtain ⟨hsize, hothers, -, hactive, hsuspended, hblocks⟩ := hinside
  simp only [Run.change, Record.openBlock, ScopeTable.size_add] at hsize hothers hactive hblocks
  rw [Run.take_eq hfault']
  refine ⟨Nat.le_of_succ_le hsize, ?_, ?_, hsuspended, ?_⟩
  · intro i hi
    change r₁.record.scopes.get? i = _
    rw [hothers i (Nat.lt_succ_of_lt hi) (Nat.ne_of_lt hi), ScopeTable.get?_add,
      if_neg (Nat.ne_of_lt hi)]
  · intro v hv
    have hne := Nat.ne_of_lt hv
    simp only [Run.change, List.mem_filter, decide_eq_true_eq]
    rw [hactive v (Nat.lt_succ_of_lt hv) hne]
    exact and_iff_left hne
  · intro id' s hs
    refine hblocks id' s ?_
    rw [Std.TreeMap.getElem?_insert]
    split
    · next heq =>
      obtain rfl := Std.LawfulEqCmp.eq_of_compare heq
      simp only [Run.clash, Std.TreeMap.contains_eq_isSome_getElem?, hs] at hnew
      exact absurd hnew.2 (by simp)
    · exact hs

theorem function {scope : Nat} {body : BlockId} {f : FunctionId}
    (hparams : Confined r.record.scopes.size (r.take (.openParameters body scope)) r₁)
    (hinside : Confined r.record.scopes.size (r₁.take (.enterFunction f)) r₂)
    (hfault : (r.take (.openParameters body scope)).fault = none)
    (hfault₁ : (r₁.take (.enterFunction f)).fault = none)
    (hfault₂ : (r₂.take (.exitFunction f)).fault = none) :
    Apart r (r₂.take (.exitFunction f)) := by
  have henter : Confined r.record.scopes.size r₁ (r₁.take (.enterFunction f)) := by
    rw [Run.take_eq hfault₁]
    exact .of_alike ⟨rfl, rfl, rfl⟩
  obtain ⟨hsize, hothers, -, -, hsuspended, hblocks⟩ := (hparams.trans henter).trans hinside
  rw [Run.take_eq hfault] at hsize hothers hsuspended hblocks
  dsimp only [Run.change, Record.openParameters] at hsize hothers hblocks hsuspended
  rw [ScopeTable.size_add] at hsize hothers
  rw [Run.take_eq hfault₂]
  simp only [Run.change, hsuspended]
  refine ⟨Nat.le_of_succ_le hsize, ?_, fun v _ => Iff.rfl, rfl, hblocks⟩
  intro i hi
  change r₂.record.scopes.get? i = _
  rw [hothers i (Nat.lt_succ_of_lt hi) (Nat.ne_of_lt hi), ScopeTable.get?_add,
    if_neg (Nat.ne_of_lt hi)]

end Apart

/-! ## Walks are confined -/

namespace Walk

variable {scope : Nat} {ids : List BlockId} {r r' : Run}

/-- A walk that ends without a fault keeps the order of the scopes, and changes nothing but its own
scope and those that it opens. -/
theorem confined (h : Walk scope ids r r') (hfault : r'.fault = none) (hr : r.Regular)
    (hscope : scope < r.record.scopes.size) : r'.Regular ∧ Confined scope r r' := by
  induction h with
  | done => exact ⟨hr, .of_alike (.refl _)⟩
  | @quiet scope ids e r r' he next ih =>
    have halike := he.alike r
    have hconf : Confined scope r (r.take e) := .of_alike halike
    obtain ⟨hreg, hnext⟩ := ih hfault (hr.of_alike halike)
      (Nat.lt_of_lt_of_le hscope hconf.size_le)
    exact ⟨hreg, hconf.trans hnext⟩
  | @declare scope ids name symbol r r' hfree next ih =>
    have hstep := next.fault_eq_none hfault
    have hconf := Confined.declare hstep
    obtain ⟨hreg, hnext⟩ := ih hfault (hr.declare hstep) (Nat.lt_of_lt_of_le hscope hconf.size_le)
    exact ⟨hreg, hconf.trans hnext⟩
  | @block scope id inner ids r r₁ r' inside next ihInside ihNext =>
    obtain ⟨henter, hr₁, hexit⟩ := inside.bracket_faults next hfault
    have hparent : ∀ p, some scope = some p → p < r.record.scopes.size := by
      rintro p ⟨rfl⟩
      exact hscope
    have hsize : r.record.scopes.size < (r.take (.enterBlock id (some scope))).record.scopes.size := by
      rw [Run.take_eq henter]
      simp only [Run.change, Record.openBlock, ScopeTable.size_add, Nat.lt_succ_self]
    obtain ⟨hreg₁, hinside⟩ := ihInside hr₁ (hr.enterBlock hparent henter) hsize
    have hconf := Confined.of_apart (.block hinside henter hexit) hscope
    have hreg₂ : (r₁.take (.exitBlock id r.record.scopes.size)).Regular := by
      rw [Run.take_eq hexit]
      exact ⟨hreg₁.parentsFirst, hreg₁.scope_lt, hreg₁.scope_inj⟩
    obtain ⟨hreg, hnext⟩ := ihNext hfault hreg₂ (Nat.lt_of_lt_of_le hscope hconf.size_le)
    exact ⟨hreg, hconf.trans hnext⟩
  | @function scope name body inner ids r r₁ r₂ r' parameters inside next ihParams ihInside ihNext =>
    obtain ⟨henter, hr₂, hexit⟩ := inside.bracket_faults next hfault
    obtain ⟨hopen, hr₁, -⟩ := parameters.bracket_faults inside hr₂
    have hsize : r.record.scopes.size < (r.take (.openParameters body scope)).record.scopes.size := by
      rw [Run.take_eq hopen]
      simp only [Run.change, Record.openParameters, ScopeTable.size_add, Nat.lt_succ_self]
    obtain ⟨hreg₁, hparams⟩ := ihParams hr₁ (hr.openParameters hscope hopen) hsize
    have halike : r₁.Alike (r₁.take (.enterFunction ⟨scope, name⟩)) := by
      rw [Run.take_eq henter]
      exact ⟨rfl, rfl, rfl⟩
    obtain ⟨hreg₂, hinside⟩ := ihInside hr₂ (hreg₁.of_alike halike)
      (halike.record ▸ Nat.lt_of_lt_of_le hsize hparams.size_le)
    have hconf := Confined.of_apart (.function hparams hinside hopen henter hexit) hscope
    have hreg₃ : (r₂.take (.exitFunction ⟨scope, name⟩)).Regular := by
      refine hreg₂.of_record ?_
      rw [Run.take_eq hexit, Run.change_exitFunction_record]
    obtain ⟨hreg, hnext⟩ := ihNext hfault hreg₃ (Nat.lt_of_lt_of_le hscope hconf.size_le)
    exact ⟨hreg, hconf.trans hnext⟩

end Walk

end Yul
