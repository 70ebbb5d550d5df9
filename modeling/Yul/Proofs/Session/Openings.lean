import Yul.Proofs.Scope.Mirror
import Yul.Proofs.Session.Growth

/-!
# What a run writes

A run opens one scope for each site of its code, in the order of the sites (`runBlock_opened`), and
nobody gets a second scope. So at every point of a run an event adds to the record, if the numbers
of the blocks are new to the record that the run starts with: `Point.isChain_records`.
-/

namespace Yul

/-! ## Scopes in the order in which they are opened -/

/-- Whose scope an event opens. -/
def Event.holder? : Event → Option Holder
  | .enterBlock id _ => some (.block id)
  | .openParameters body _ => some (.parameters body)
  | .exitBlock _ _ | .enterFunction _ | .exitFunction _ | .look _ _ | .declare _ _ _ | .effects _
  | .call _ | .ask _ | .report _ => none

/-- Whose scopes a run has opened, in order. -/
def Run.opened (r : Run) : List Holder :=
  r.events.filterMap Event.holder?

theorem Run.opened_take {r : Run} {e : Event} (h : (r.take e).fault = none) :
    (r.take e).opened = r.opened ++ e.holder?.toList :=
  filterMap_events_take Event.holder? h

theorem Event.IsQuiet.holder?_eq {scope : ScopeId} {e : Event} (h : e.IsQuiet scope) :
    e.holder? = none := by
  cases e <;> first | rfl | exact h.elim

theorem Declares.opened_eq {scope : ScopeId} {symbols : List (Name × Symbol)} {r r' : Run}
    (h : Declares scope symbols r r') (hfault : r'.fault = none) : r'.opened = r.opened := by
  induction h with
  | done => rfl
  | quiet he _ next ih =>
    rw [ih hfault, Run.opened_take (next.walk.fault_eq_none hfault), he.holder?_eq]
    exact List.append_nil _
  | declare _ next ih | refuse _ next ih =>
    rw [ih hfault, Run.opened_take (next.walk.fault_eq_none hfault)]
    exact List.append_nil _

theorem Tour.opened_eq {holder : Holder} {scope : ScopeId} {own : List (Name × Symbol)}
    {sites : List Site} {r r' : Run} (h : Tour holder scope own sites r r')
    (hfault : r'.fault = none) : r'.opened = r.opened ++ sites.map Site.holder := by
  induction h with
  | done => exact (List.append_nil _).symm
  | declares here _ next ih =>
    rw [ih hfault, here.opened_eq (next.walk.fault_eq_none hfault)]
  | @block holder scope id functions inside own inner sites r r₁ r₂ r' opening within next ihWithin
      ihNext =>
    obtain ⟨henter, hr₂, hexit⟩ :=
      (opening.walk.trans within.walk).bracket_faults next.walk hfault
    have hr₁ := within.walk.fault_eq_none hr₂
    rw [ihNext hfault, Run.opened_take hexit, ihWithin hr₂, opening.opened_eq hr₁,
      Run.opened_take henter]
    simp [Event.holder?]
  | @function holder scope name body params own inner sites r r₁ r₂ r' opening hvariables within next
      ihWithin ihNext =>
    obtain ⟨henter, hr₂, hexit⟩ := within.walk.bracket_faults next.walk hfault
    obtain ⟨hopen, hr₁, -⟩ := opening.walk.bracket_faults within.walk hr₂
    rw [ihNext hfault, Run.opened_take hexit, ihWithin hr₂, Run.opened_take henter,
      opening.opened_eq hr₁, Run.opened_take hopen]
    simp [Event.holder?]

section Root

variable (cfg : Setting) {record : Record} {b : Block}

theorem runBlock_opened (hfault : (runBlock cfg record b).fault = none) :
    (runBlock cfg record b).opened = (b.rootSites cfg.dialect).map Site.holder := by
  obtain ⟨r₁, r₂, hfunctions, htour, hrun⟩ := runBlock_tour cfg record b
  rw [hrun] at hfault ⊢
  have hr₂ := (Run.fits_of_take hfault).1
  have hr₁ := htour.walk.fault_eq_none hr₂
  rw [Run.opened_take hfault, htour.opened_eq hr₂, hfunctions.opened_eq hr₁,
    Run.opened_take (hfunctions.walk.fault_eq_none hr₁)]
  exact List.append_nil _

/-- The block that a scope is opened for. -/
def Holder.id : Holder → BlockId
  | .block id => id
  | .parameters body => body

theorem Block.id_mem_of_rootSites {d : Dialect} {b : Block} {h : Holder}
    (hh : h ∈ (b.rootSites d).map Site.holder) : h.id ∈ b.blocks.map Block.id := by
  obtain ⟨site, hsite, rfl⟩ := List.mem_map.mp hh
  rw [← b.visited_perm.mem_iff]
  cases hholder : site.holder with
  | block id =>
    rw [← b.visitedOfSites_rootSites d]
    exact List.mem_filterMap.mpr ⟨site, hsite, by rw [hholder]; rfl⟩
  | parameters body =>
    have hbody : body ∈ bodiesOfSites (b.rootSites d) :=
      List.mem_filterMap.mpr ⟨site, hsite, by rw [hholder]; rfl⟩
    rw [b.visited_cons]
    exact List.mem_cons_of_mem _ ((bodiesOfStmts_sublist d (.block b.id) b.statements).subset hbody)

end Root

/-! ## Writes of a run -/

theorem Run.place?_change (r : Run) {e : Event} {h : Holder} (hne : e.holder? ≠ some h) :
    (r.change e).record.place? h = r.record.place? h := by
  cases e with
  | enterBlock id parent =>
    refine (r.record.place?_openBlock id parent h).trans (if_neg ?_)
    rintro rfl
    exact hne rfl
  | openParameters body parent =>
    refine (r.record.place?_openParameters body parent h).trans (if_neg ?_)
    rintro rfl
    exact hne rfl
  | declare scope name symbol => exact r.record.place?_declare scope name symbol h
  | exitFunction f => rw [change_exitFunction_record]
  | exitBlock | enterFunction | look | effects | call | ask | report => rfl

theorem ScopeTable.declares_eq_false {t : ScopeTable} {id : ScopeId} {s : Scope} {x : Name}
    (hs : t.get? id = some s) (hfree : t.isTaken id x = false) : s.declares x = false := by
  obtain ⟨n, hn⟩ := Nat.exists_eq_succ_of_ne_zero (Nat.ne_zero_of_lt (lt_of_get? hs))
  rw [isTaken, chain, hn, chainWithin, hs, List.any_cons, Bool.or_eq_false_iff] at hfree
  exact hfree.1

namespace Point

variable {p : Point} {e : Event} {es : List Event}

theorem Happens.place?_take (he : p.Happens e) {h : Holder} (hne : e.holder? ≠ some h) :
    (p.take e).run.record.place? h = p.run.record.place? h := by
  rw [he.take_run]
  exact p.run.place?_change hne

theorem Goes.place?_after (hgoes : p.Goes es) {h : Holder}
    (hnot : h ∉ es.filterMap Event.holder?) :
    (p.after es).run.record.place? h = p.run.record.place? h :=
  value?_foldl (fun p => p.run.record.place?) (I := Goes) (fun _ _ _ h => h.2)
    (fun _ _ _ h _ => h.1.place?_take) hgoes hnot

/-- An event that happens writes nothing, or adds to the record if the holder of the scope that it
opens has none. -/
theorem Happens.step (he : p.Happens e)
    (hnew : ∀ h ∈ e.holder?, p.run.record.place? h = none) :
    p.run.record.Step (p.take e).run.record := by
  rw [he.take_run]
  cases e with
  | enterBlock id parent => exact .inr (.openBlock parent (hnew (.block id) rfl))
  | openParameters body parent => exact .inr (.openParameters parent (hnew (.parameters body) rfl))
  | declare scope name symbol =>
    have hclash := he.clash
    rw [Run.clash, ite_eq_left_iff] at hclash
    obtain ⟨s, hs⟩ := ScopeTable.get?_of_lt
      (by_contra fun hlt => Option.some_ne_none _ (hclash hlt))
    cases he.fits with
    | quiet _ hquiet => exact hquiet.elim
    | declare _ hfree => exact .inr (.declare symbol hs (ScopeTable.declares_eq_false hs hfree))
  | exitFunction f => exact .inl (p.run.change_exitFunction_record f)
  | exitBlock | enterFunction | look | effects | call | ask | report => exact .inl rfl

theorem isChain_records (hgoes : p.Goes es)
    (hfresh : Fresh Event.holder? p.run.record.place? es) :
    ((es.scanl take p).map (·.run.record)).IsChain Record.Step := by
  rw [List.isChain_map]
  exact isChain_scanl (I := Goes) (fun _ _ _ h => h.2) (fun _ _ _ h _ => h.1.place?_take)
    (fun _ _ _ h => h.1.step) hgoes hfresh

end Point

end Yul
