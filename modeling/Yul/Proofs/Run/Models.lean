import Yul.Proofs.Effects.Regions
import Yul.Proofs.Run.Faults
import Yul.Proofs.Scope.Lookup
import Yul.Proofs.WellFormed.Judgement

/-!
# Runs that agree with the names around them

`Models here home env scope r` ties a state of a run to the names around the code at hand: what is
found from `scope` is what the names stand for in `env`, what is taken there is declared in `env`,
and every variable that is found can be used. Each event has a lemma that says what the state after
it agrees with; code that has a scope of its own changes nothing (`Models.of_apart`).
-/

namespace Yul

/-! ## Later states -/

namespace Run

/-- The run goes on from one state to another. -/
abbrev Reaches : Run → Run → Prop :=
  Relation.ReflTransGen fun r r' => ∃ e, r' = r.take e

theorem Reaches.take (r : Run) (e : Event) : r.Reaches (r.take e) :=
  .single ⟨e, rfl⟩

/-- Whether no error has been found. -/
def Clean (r : Run) : Prop :=
  ∀ f ∈ r.findings, f.isError = false

theorem findings_take {r : Run} {e : Event} (h : (r.take e).fault = none) :
    (r.take e).findings = r.findings ++ e.finding?.toList :=
  filterMap_events_take Event.finding? h

theorem clean_take {r : Run} {e : Event} (h : (r.take e).fault = none) :
    (r.take e).Clean ↔ r.Clean ∧ ∀ f, e.finding? = some f → f.isError = false := by
  rw [Clean, findings_take h, List.forall_mem_append]
  simp [Clean]

namespace Reaches

variable {r r' : Run}

theorem fault_eq_none (h : r.Reaches r') (hfault : r'.fault = none) : r.fault = none := by
  induction h with
  | refl => exact hfault
  | tail _ hstep ih =>
    obtain ⟨e, rfl⟩ := hstep
    exact ih (fits_of_take hfault).1

theorem clean (h : r.Reaches r') (hfault : r'.fault = none) (hclean : r'.Clean) : r.Clean := by
  induction h with
  | refl => exact hclean
  | tail _ hstep ih =>
    obtain ⟨e, rfl⟩ := hstep
    exact ih (fits_of_take hfault).1 ((clean_take hfault).mp hclean).1

theorem blockScopes (h : r.Reaches r') (hfault : r'.fault = none) {id : BlockId} {s : ScopeId}
    (hs : r.record.blockScopes[id]? = some s) : r'.record.blockScopes[id]? = some s := by
  induction h with
  | refl => exact hs
  | @tail r₁ r₂ hsteps hstep ih =>
    obtain ⟨e, rfl⟩ := hstep
    have hr₁ := fits_of_take hfault
    have hs₁ := ih hr₁.1
    rw [take_eq hfault]
    cases e with
    | enterBlock id' parent =>
      simp only [change, Record.openBlock, Std.TreeMap.getElem?_insert]
      split
      · next heq =>
        obtain rfl := Std.LawfulEqCmp.eq_of_compare heq
        simp only [clash, Std.TreeMap.contains_eq_isSome_getElem?, hs₁] at hr₁
        exact absurd hr₁.2 (by simp)
      · exact hs₁
    | exitFunction f =>
      change (r₁.change (.exitFunction f)).record.blockScopes[id]? = some s
      rwa [change_exitFunction_record]
    | _ => exact hs₁

end Reaches

end Run

theorem Walk.reaches {scope : ScopeId} {ids : List BlockId} {r r' : Run}
    (h : Walk scope ids r r') : r.Reaches r' := by
  induction h with
  | done => exact .refl
  | quiet _ _ ih | declare _ _ ih => exact .head ⟨_, rfl⟩ ih
  | block _ _ ihInside ihNext =>
    exact .head ⟨_, rfl⟩ (ihInside.trans (.head ⟨_, rfl⟩ ihNext))
  | function _ _ _ ihParams ihInside ihNext =>
    exact .head ⟨_, rfl⟩ (ihParams.trans (.head ⟨_, rfl⟩
      (ihInside.trans (.head ⟨_, rfl⟩ ihNext))))

theorem runBlock_reaches (cfg : Setting) (record : Record) (b : Block) :
    (Run.mk record [] [] [] none).Reaches (runBlock cfg record b) := by
  obtain ⟨r, hwalk, hrun⟩ := runBlock_walk cfg record b
  rw [hrun]
  exact .head ⟨_, rfl⟩ (hwalk.reaches.tail ⟨_, rfl⟩)

/-! ## Agreement -/

/-- Every variable that is found from `scope` can be used. -/
def Run.Tracked (r : Run) (scope : ScopeId) : Prop :=
  ∀ (x : Name) (home : ScopeId) (type : Label),
    r.record.scopes.lookup scope x = some (home, .variable type) → (home, x) ∈ r.active

/-- What is found under a name is what the name stands for. -/
inductive Record.Denotes (record : Record) : Option (ScopeId × Symbol) → Option Entity → Prop where
  | none : Denotes record none none
  | variable {home : ScopeId} {type : Label} :
      Denotes record (some (home, .variable type)) (some (.variable type))
  | function {home : ScopeId} {id : BlockId} {parameters returns : List Label}
      (h : record.blockScopes[id]? = some home) :
      Denotes record (some (home, .function parameters returns))
        (some (.function id parameters returns))

theorem Record.Denotes.mono {record record' : Record} {found : Option (ScopeId × Symbol)}
    {e : Option Entity} (h : record.Denotes found e)
    (hmono : ∀ (id : BlockId) (s : ScopeId), record.blockScopes[id]? = some s →
      record'.blockScopes[id]? = some s) : record'.Denotes found e := by
  cases h with
  | none => exact .none
  | «variable» => exact .variable
  | function h => exact .function (hmono _ _ h)

/-- A state of a run agrees with the names around the code at hand. If `here` is a block, then
`scope` is its scope; `home` gives the block of each function that can be called. -/
structure Models (here : Option BlockId) (home : Homes) (env : Env) (scope : Nat) (r : Run) :
    Prop where
  ready : r.Ready scope
  tracked : r.Tracked scope
  visible : ∀ x, r.record.Denotes (r.record.scopes.lookup scope x) (env.visible x)
  taken : ∀ x, r.record.scopes.isTaken scope x = true ↔ x ∈ env.taken
  homes : ∀ x id parameters returns, env.visible x = some (.function id parameters returns) →
    home x = some id
  here : ∀ id, here = some id → r.record.blockScopes[id]? = some scope

namespace Models

variable {here : Option BlockId} {home : Homes} {env : Env} {scope : Nat} {r r' : Run}

theorem of_alike (h : Models here home env scope r) (halike : r.Alike r')
    (hfault : r'.fault = none) : Models here home env scope r' := by
  have hready := h.ready.of_record hfault halike.record
  obtain ⟨-, htracked, hvisible, htaken, hhomes, hhere⟩ := h
  rw [← halike.record] at hvisible htaken hhere
  refine ⟨hready, ?_, hvisible, htaken, hhomes, hhere⟩
  intro x i type hfound
  rw [halike.active]
  exact htracked x i type (halike.record ▸ hfound)

theorem quiet (h : Models here home env scope r) {e : Event} (he : e.IsQuiet scope) :
    Models here home env scope (r.take e) :=
  h.of_alike (he.alike r) (h.ready.quiet he).fault

theorem enterFunction (h : Models here home env scope r) (f : FunctionId) :
    Models here home env scope (r.take (.enterFunction f)) := by
  have hready := h.ready.enterFunction f
  refine h.of_alike ?_ hready.fault
  rw [Run.take_eq hready.fault]
  exact ⟨rfl, rfl, rfl⟩

theorem declare (h : Models here home env scope r) {name : Name} {symbol : Symbol} {e : Entity}
    (hfree : r.record.scopes.isTaken scope name = false)
    (hdenotes : r.record.Denotes (some (scope, symbol)) (some e)) {home' : Homes}
    (hhome : ∀ x id parameters returns,
      (env.declare name e).visible x = some (.function id parameters returns) → home' x = some id) :
    Models here home' (env.declare name e) scope (r.take (.declare scope name symbol)) := by
  have hready := h.ready.declare name symbol
  have hparents := h.ready.regular.parentsFirst
  have hstep := Run.take_eq hready.fault
  rw [hstep] at hready ⊢
  refine ⟨hready, ?_, ?_, ?_, hhome, h.here⟩
  · intro x i type hfound
    simp only [Run.change, Record.declare] at hfound ⊢
    rw [ScopeTable.lookup_declare hparents h.ready.scope_lt hfree] at hfound
    split at hfound
    · next hx =>
      obtain ⟨rfl, rfl⟩ := Prod.mk.inj (Option.some.inj hfound)
      rw [hx]
      exact List.mem_cons_self
    · have hactive := h.tracked x i type hfound
      split
      · exact List.mem_cons_of_mem _ hactive
      · exact hactive
  · intro x
    simp only [Run.change, Record.declare, Env.declare]
    rw [ScopeTable.lookup_declare hparents h.ready.scope_lt hfree]
    split
    · exact hdenotes.mono fun _ _ hs => hs
    · exact (h.visible x).mono fun _ _ hs => hs
  · intro x
    simp only [Run.change, Record.declare, Env.declare]
    rw [ScopeTable.isTaken_declare hparents h.ready.scope_lt, Bool.or_eq_true, beq_iff_eq,
      h.taken x, List.mem_cons]

theorem declareVariable (h : Models here home env scope r) {name : Name} (type : Label)
    (hfree : r.record.scopes.isTaken scope name = false) :
    Models here home (env.declare name (.variable type)) scope
      (r.take (.declare scope name (.variable type))) := by
  refine h.declare hfree .variable fun x id parameters returns hx => ?_
  simp only [Env.declare] at hx
  split at hx
  · exact absurd hx (by simp)
  · exact h.homes x id parameters returns hx

theorem declareFunction {id : BlockId} (h : Models (some id) home env scope r) {name : Name}
    (parameters returns : List Label) (hfree : r.record.scopes.isTaken scope name = false) :
    Models (some id) (home.define id name) (env.declare name (.function id parameters returns)) scope
      (r.take (.declare scope name (.function parameters returns))) := by
  refine h.declare hfree (.function (h.here id rfl)) fun x id' parameters' returns' hx => ?_
  simp only [Env.declare] at hx
  rw [Homes.define]
  split at hx
  · next hname =>
    simp only [Option.some.injEq, Entity.function.injEq] at hx
    rw [if_pos hname, hx.1]
  · next hname =>
    rw [if_neg hname]
    exact h.homes x id' parameters' returns' hx

/-! ## Scopes around each other -/

theorem enterBlock (h : Models here home env scope r) {id : BlockId}
    (hnew : r.record.blockScopes.contains id = false) :
    Models (some id) home env r.record.scopes.size (r.take (.enterBlock id (some scope))) := by
  have hready := h.ready.enterBlock hnew
  have hparents := h.ready.regular.parentsFirst
  have hlookup (x : Name) : (r.record.scopes.add (some scope) false).lookup r.record.scopes.size x =
      r.record.scopes.lookup scope x := by
    rw [ScopeTable.lookup_add hparents h.ready.scope_lt]
    cases r.record.scopes.lookup scope x <;> rfl
  have hmono : ∀ (i : BlockId) (s : ScopeId), r.record.blockScopes[i]? = some s →
      (r.take (.enterBlock id (some scope))).record.blockScopes[i]? = some s :=
    fun _ _ hs => (Run.Reaches.take r _).blockScopes hready.fault hs
  have hstep := Run.take_eq hready.fault
  rw [hstep] at hready hmono ⊢
  refine ⟨hready, ?_, ?_, ?_, h.homes, ?_⟩
  · intro x i type hfound
    exact h.tracked x i type ((hlookup x).symm.trans hfound)
  · intro x
    exact (congrArg (fun found => Record.Denotes _ found _) (hlookup x)).mpr
      ((h.visible x).mono hmono)
  · intro x
    rw [← h.taken x]
    exact iff_of_eq (congrArg (· = true)
      (ScopeTable.isTaken_add hparents h.ready.scope_lt false x))
  · rintro id' ⟨rfl⟩
    exact Std.TreeMap.getElem?_insert_self

theorem openParameters (h : Models here home env scope r) (body : BlockId) :
    Models none home env.inFunction r.record.scopes.size
      (r.take (.openParameters body scope)) := by
  have hready := h.ready.openParameters body
  have hparents := h.ready.regular.parentsFirst
  have hstep := Run.take_eq hready.fault
  rw [hstep] at hready ⊢
  have hlookup (x : Name) : (r.record.scopes.add (some scope) true).lookup r.record.scopes.size x =
      (r.record.scopes.lookup scope x).filter (!·.2.isVariable) :=
    ScopeTable.lookup_add hparents h.ready.scope_lt true x
  refine ⟨hready, ?_, ?_, ?_, ?_, fun id hid => absurd hid (by simp)⟩
  · intro x i type hfound
    have hnone := (hlookup x).symm.trans hfound
    cases hl : r.record.scopes.lookup scope x with
    | none => simp [hl] at hnone
    | some found =>
      rw [hl, Option.filter_some] at hnone
      split at hnone
      · next hvar =>
        obtain rfl := Option.some.inj hnone
        exact absurd hvar (by simp [Symbol.isVariable])
      · exact absurd hnone (by simp)
  · intro x
    change Record.Denotes _ ((r.record.scopes.add (some scope) true).lookup r.record.scopes.size x)
      ((env.visible x).filter (!·.isVariable))
    rw [hlookup x]
    have hdenotes := h.visible x
    generalize r.record.scopes.lookup scope x = found at hdenotes ⊢
    generalize env.visible x = e at hdenotes ⊢
    cases hdenotes with
    | none => exact .none
    | «variable» => exact .none
    | function hid => exact .function hid
  · intro x
    rw [Env.inFunction, ← h.taken x]
    exact iff_of_eq (congrArg (· = true)
      (ScopeTable.isTaken_add hparents h.ready.scope_lt true x))
  · intro x id parameters returns hx
    exact h.homes x id parameters returns (Option.filter_eq_some_iff.mp hx).1

/-- What happens in scopes of its own makes no difference. -/
theorem of_apart (h : Models here home env scope r) (hapart : Apart r r') (hready : r'.Ready scope) :
    Models here home env scope r' := by
  have hscope := h.ready.scope_lt
  have hchain : r'.record.scopes.chain scope = r.record.scopes.chain scope := by
    refine ScopeTable.chain_congr hready.regular.parentsFirst h.ready.regular.parentsFirst
      hready.scope_lt hscope fun i hi => ?_
    exact hapart.scopes i (Nat.lt_of_le_of_lt hi hscope)
  have hlookup (x : Name) :
      r'.record.scopes.lookup scope x = r.record.scopes.lookup scope x := by
    rw [ScopeTable.lookup, hchain, ScopeTable.lookup]
  refine ⟨hready, ?_, ?_, ?_, h.homes, fun id hid => hapart.blockScopes id scope (h.here id hid)⟩
  · intro x i type hfound
    rw [hlookup] at hfound
    have hle := ScopeTable.lookup_lt h.ready.regular.parentsFirst hscope hfound
    exact (hapart.active (i, x) (Nat.lt_of_le_of_lt hle hscope)).mpr (h.tracked x i type hfound)
  · intro x
    rw [hlookup]
    exact (h.visible x).mono hapart.blockScopes
  · intro x
    rw [ScopeTable.isTaken, hchain, ← ScopeTable.isTaken]
    exact h.taken x

theorem entered (h : Models here home env scope r) {id : BlockId} {inner : List BlockId} {last : Run}
    (hwalk : Walk r.record.scopes.size inner (r.take (.enterBlock id (some scope))) last)
    (hfault : last.fault = none) :
    Models (some id) home env r.record.scopes.size (r.take (.enterBlock id (some scope))) := by
  have hclash := (Run.fits_of_take (hwalk.fault_eq_none hfault)).2
  refine h.enterBlock ?_
  rw [Run.clash] at hclash
  exact Bool.eq_false_iff.mpr fun hold => absurd hclash (by simp [hold])

theorem exited (h : Models here home env scope r) {id : BlockId} {inner : List BlockId} {last : Run}
    (hwalk : Walk r.record.scopes.size inner (r.take (.enterBlock id (some scope))) last)
    (hfault : (last.take (.exitBlock id r.record.scopes.size)).fault = none) :
    Models here home env scope (last.take (.exitBlock id r.record.scopes.size)) := by
  have hlast := (Run.fits_of_take hfault).1
  have hentered := (h.entered hwalk hlast).ready
  have hconfined := (hwalk.confined hlast hentered.regular hentered.scope_lt).2
  have hready := hwalk.ready hentered hlast
  exact h.of_apart (.block hconfined hentered.fault hfault)
    (hready.exitBlock id (Nat.lt_trans h.ready.scope_lt hready.scope_lt))

theorem exitedFunction (h : Models here home env scope r) {body : BlockId} {name : Name}
    {inner : List BlockId} {r₁ r₂ : Run}
    (hparams : Walk r.record.scopes.size [] (r.take (.openParameters body scope)) r₁)
    (hwalk : Walk r.record.scopes.size inner (r₁.take (.enterFunction ⟨scope, name⟩)) r₂)
    (hfault : (r₂.take (.exitFunction ⟨scope, name⟩)).fault = none) :
    Models here home env scope (r₂.take (.exitFunction ⟨scope, name⟩)) := by
  have hopen := (h.openParameters body).ready
  have hfault₂ := (Run.fits_of_take hfault).1
  have hfault₁ := (Run.fits_of_take (hwalk.fault_eq_none hfault₂)).1
  have hready₁ := (hparams.ready hopen hfault₁).enterFunction ⟨scope, name⟩
  have hready₂ := hwalk.ready hready₁ hfault₂
  exact h.of_apart (.function (hparams.confined hfault₁ hopen.regular hopen.scope_lt).2
    (hwalk.confined hfault₂ hready₁.regular hready₁.scope_lt).2 hopen.fault hready₁.fault hfault)
    (hready₂.exitFunction _ (Nat.lt_trans h.ready.scope_lt hready₂.scope_lt))

theorem enterFirst {record : Record} (hrecord : (Run.mk record [] [] [] none).Regular) {id : BlockId}
    (hfault : ((Run.mk record [] [] [] none).take (.enterBlock id none)).fault = none) :
    Models (some id) .none {} record.scopes.size
      ((Run.mk record [] [] [] none).take (.enterBlock id none)) := by
  have hready := hrecord.enterFirst_of_fits hfault
  have hstep := Run.take_eq hready.fault
  rw [hstep] at hready ⊢
  have hlookup (x : Name) : (record.scopes.add none false).lookup record.scopes.size x = none :=
    ScopeTable.lookup_add_none hrecord.parentsFirst false x
  refine ⟨hready, ?_, ?_, ?_, ?_, ?_⟩
  · intro x i type hfound
    exact absurd ((hlookup x).symm.trans hfound) (by simp)
  · intro x
    exact (congrArg (fun found => Record.Denotes _ found _) (hlookup x)).mpr .none
  · intro x
    refine iff_of_false (fun htaken => ?_) List.not_mem_nil
    have hnone := ScopeTable.isTaken_add_none hrecord.parentsFirst false x
    exact Bool.false_ne_true (hnone.symm.trans htaken)
  · intro x id parameters returns hx
    exact absurd hx (by simp)
  · rintro id' ⟨rfl⟩
    exact Std.TreeMap.getElem?_insert_self

theorem first (id : BlockId) :
    Models (some id) .none {} 0 ((Run.mk {} [] [] [] none).take (.enterBlock id none)) :=
  enterFirst Run.regular_empty (Run.ready_first id).fault

end Models

end Yul
