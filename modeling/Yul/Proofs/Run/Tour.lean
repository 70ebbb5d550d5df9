import Yul.Proofs.Run.Walk
import Yul.Proofs.Scope.Sites

/-!
# Tours

A tour is a walk together with what it declares and the scopes that it opens. `Tour holder scope own
sites r r'` says that a piece of code that stands in the scope of `holder` takes the run from `r` to
`r'`, declares the variables `own` in `scope`, and opens the scopes `sites` in this order. The
functions of a block are declared right behind the event that enters it, before anything else
happens inside; a name that is taken is reported instead of declared.

* `Declares`: names that are declared in a row, with nothing but quiet events in between.
* `Tour.walk`: every tour is a walk.
* `Check.Tours`: a part of an analysis that is a tour from every state.
-/

namespace Yul

/-! ## Declarations in a row -/

/-- The run declares names in `scope`, as far as they are not taken, and does nothing else there. -/
inductive Declares (scope : ScopeId) : List (Name × Symbol) → Run → Run → Prop where
  | done {r : Run} : Declares scope [] r r
  | quiet {symbols : List (Name × Symbol)} {e : Event} {r r' : Run} (he : e.IsQuiet scope)
      (hgrounds : r.Grounds scope e) (next : Declares scope symbols (r.take e) r') :
      Declares scope symbols r r'
  | declare {symbols : List (Name × Symbol)} {name : Name} {symbol : Symbol} {r r' : Run}
      (hfree : r.record.scopes.isTaken scope name = false)
      (next : Declares scope symbols (r.take (.declare scope name symbol)) r') :
      Declares scope ((name, symbol) :: symbols) r r'
  | refuse {symbols : List (Name × Symbol)} {name : Name} {symbol : Symbol} {what : Declared}
      {span : Span} {r r' : Run} (htaken : r.record.scopes.isTaken scope name = true)
      (next : Declares scope symbols (r.take (.report ⟨.alreadyTaken what name, span⟩)) r') :
      Declares scope ((name, symbol) :: symbols) r r'

namespace Declares

variable {scope : ScopeId} {symbols symbols' : List (Name × Symbol)} {r r₁ r₂ r' : Run}

theorem trans (h : Declares scope symbols r r₁) (h' : Declares scope symbols' r₁ r₂) :
    Declares scope (symbols ++ symbols') r r₂ := by
  induction h with
  | done => exact h'
  | quiet he hgrounds _ ih => exact .quiet he hgrounds (ih h')
  | declare hfree _ ih => exact .declare hfree (ih h')
  | refuse htaken _ ih => exact .refuse htaken (ih h')

theorem of_quiet (h : Quiet scope r r') : Declares scope [] r r' := by
  induction h using Relation.ReflTransGen.head_induction_on with
  | refl => exact .done
  | head hstep _ ih =>
    obtain ⟨e, he, hgrounds, rfl⟩ := hstep
    exact .quiet he hgrounds ih

theorem walk (h : Declares scope symbols r r') : Walk scope [] r r' := by
  induction h with
  | done => exact .done
  | quiet he _ _ ih => exact .quiet he ih
  | declare hfree _ ih => exact .declare hfree ih
  | refuse _ _ ih => exact .quiet (e := .report _) trivial ih

end Declares

/-! ## Tours -/

/-- A piece of code that stands in the scope of a holder leads from one state to another, declares
variables in this scope, and opens scopes in the given order. -/
inductive Tour : Holder → ScopeId → List (Name × Symbol) → List Site → Run → Run → Prop where
  | done {holder : Holder} {scope : ScopeId} {r : Run} : Tour holder scope [] [] r r
  | declares {holder : Holder} {scope : ScopeId} {symbols own : List (Name × Symbol)}
      {sites : List Site} {r r₁ r' : Run} (here : Declares scope symbols r r₁)
      (hvariables : ∀ entry ∈ symbols, entry.2.isVariable = true)
      (next : Tour holder scope own sites r₁ r') :
      Tour holder scope (symbols ++ own) sites r r'
  | block {holder : Holder} {scope : ScopeId} {id : BlockId}
      {functions inside own : List (Name × Symbol)} {inner sites : List Site} {r r₁ r₂ r' : Run}
      (opening : Declares r.record.scopes.size functions (r.take (.enterBlock id (some scope))) r₁)
      (within : Tour (.block id) r.record.scopes.size inside inner r₁ r₂)
      (next : Tour holder scope own sites (r₂.take (.exitBlock id r.record.scopes.size)) r') :
      Tour holder scope own (⟨.block id, holder, functions ++ inside⟩ :: (inner ++ sites)) r r'
  | function {holder : Holder} {scope : ScopeId} {name : Name} {body : BlockId}
      {params own : List (Name × Symbol)} {inner sites : List Site} {r r₁ r₂ r' : Run}
      (opening : Declares r.record.scopes.size params (r.take (.openParameters body scope)) r₁)
      (hvariables : ∀ entry ∈ params, entry.2.isVariable = true)
      (within : Tour (.parameters body) r.record.scopes.size [] inner
        (r₁.take (.enterFunction ⟨scope, name⟩)) r₂)
      (next : Tour holder scope own sites (r₂.take (.exitFunction ⟨scope, name⟩)) r') :
      Tour holder scope own (⟨.parameters body, holder, params⟩ :: (inner ++ sites)) r r'

namespace Tour

variable {holder : Holder} {scope : ScopeId} {own own' : List (Name × Symbol)}
  {sites sites' : List Site} {r r₁ r₂ r' : Run}

theorem trans (h : Tour holder scope own sites r r₁) (h' : Tour holder scope own' sites' r₁ r₂) :
    Tour holder scope (own ++ own') (sites ++ sites') r r₂ := by
  induction h with
  | done => exact h'
  | declares here hvariables _ ih =>
    rw [List.append_assoc]
    exact .declares here hvariables (ih h')
  | block opening within _ _ ih =>
    rw [List.cons_append, List.append_assoc]
    exact .block opening within (ih h')
  | function opening hvariables within _ _ ih =>
    rw [List.cons_append, List.append_assoc]
    exact .function opening hvariables within (ih h')

theorem of_declares (h : Declares scope own r r')
    (hvariables : ∀ entry ∈ own, entry.2.isVariable = true) : Tour holder scope own [] r r' := by
  rw [← List.append_nil own]
  exact .declares h hvariables .done

theorem of_quiet (h : Quiet scope r r') : Tour holder scope [] [] r r' :=
  .of_declares (.of_quiet h) (List.forall_mem_nil _)

/-- A tour is a walk that enters the blocks whose scopes it opens. -/
theorem walk (h : Tour holder scope own sites r r') : Walk scope (visitedOfSites sites) r r' := by
  induction h with
  | done => exact .done
  | declares here _ _ ih => exact here.walk.trans ih
  | block opening _ _ ihWithin ihNext =>
    have hinside := opening.walk.trans ihWithin
    rw [visitedOfSites_block, visitedOfSites_append]
    exact .block hinside ihNext
  | function opening _ _ _ ihWithin ihNext =>
    rw [visitedOfSites_parameters, visitedOfSites_append]
    exact .function opening.walk ihWithin ihNext

end Tour

/-! ## Parts of an analysis that are tours -/

namespace Check

variable {α β : Type} {holder : Holder} {scope : ScopeId} {own own' : List (Name × Symbol)}
  {sites sites' : List Site}

/-- Whether a part of an analysis declares the given names and does nothing else that matters. -/
def Declaring (scope : ScopeId) (symbols : List (Name × Symbol)) (m : Check α) : Prop :=
  ∀ r : Run, Declares scope symbols r (m.after r)

theorem Quietly.declaring {m : Check α} (hm : Quietly scope m) : Declaring scope [] m :=
  fun r => .of_quiet (hm r)

theorem Declaring.bind {m : Check α} {f : α → Check β} (hm : Declaring scope own m)
    (hf : ∀ a, Declaring scope own' (f a)) : Declaring scope (own ++ own') (m >>= f) :=
  fun r => (hm r).trans (hf _ _)

theorem Declaring.quietly_bind {m : Check α} {f : α → Check β} (hm : Quietly scope m)
    (hf : ∀ a, Declaring scope own (f a)) : Declaring scope own (m >>= f) :=
  .bind hm.declaring hf

theorem Declaring.forM {xs : List α} {f : α → Check PUnit} {g : α → Name × Symbol}
    (hf : ∀ x, Declaring scope [g x] (f x)) : Declaring scope (xs.map g) (xs.forM f) := by
  induction xs with
  | nil => exact (Quietly.pure _).declaring
  | cons x xs ih => exact .bind (hf x) fun _ => ih

theorem Declaring.walks {m : Check α} (hm : Declaring scope own m) : Walks scope [] m :=
  fun r => (hm r).walk

/-- Whether a part of an analysis is a tour that opens the given scopes. -/
def Tours (holder : Holder) (scope : ScopeId) (own : List (Name × Symbol)) (sites : List Site)
    (m : Check α) : Prop :=
  ∀ r : Run, Tour holder scope own sites r (m.after r)

theorem Quietly.tours {m : Check α} (hm : Quietly scope m) : Tours holder scope [] [] m :=
  fun r => .of_quiet (hm r)

theorem Declaring.tours {m : Check α} (hm : Declaring scope own m)
    (hvariables : ∀ entry ∈ own, entry.2.isVariable = true) : Tours holder scope own [] m :=
  fun r => .of_declares (hm r) hvariables

theorem Tours.bind {m : Check α} {f : α → Check β} (hm : Tours holder scope own sites m)
    (hf : ∀ a, Tours holder scope own' sites' (f a)) :
    Tours holder scope (own ++ own') (sites ++ sites') (m >>= f) :=
  fun r => (hm r).trans (hf _ _)

theorem Tours.apart_bind {m : Check α} {f : α → Check β} (hm : Tours holder scope [] sites m)
    (hf : ∀ a, Tours holder scope own sites' (f a)) :
    Tours holder scope own (sites ++ sites') (m >>= f) :=
  .bind hm hf

theorem Tours.quietly_bind {m : Check α} {f : α → Check β} (hm : Quietly scope m)
    (hf : ∀ a, Tours holder scope own sites (f a)) : Tours holder scope own sites (m >>= f) :=
  .bind hm.tours hf

theorem Tours.bind_quietly {m : Check α} {f : α → Check β} (hm : Tours holder scope own sites m)
    (hf : ∀ a, Quietly scope (f a)) : Tours holder scope own sites (m >>= f) := by
  rw [← List.append_nil own, ← List.append_nil sites]
  exact .bind hm fun a => (hf a).tours

theorem Tours.ite {c : Prop} [Decidable c] {m m' : Check α} (hm : Tours holder scope own sites m)
    (hm' : Tours holder scope own sites m') :
    Tours holder scope own sites (if c then m else m') := by
  split
  · exact hm
  · exact hm'

theorem Tours.walks {m : Check α} (hm : Tours holder scope own sites m) :
    Walks scope (visitedOfSites sites) m :=
  fun r => (hm r).walk

end Check

end Yul
