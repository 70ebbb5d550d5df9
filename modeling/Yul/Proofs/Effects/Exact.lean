import Std.Data.TreeMap.Lemmas
import Yul.Proofs.Effects.Definitions
import Yul.Proofs.Effects.Summary
import Yul.Proofs.WellFormed.Exact

/-!
# What is reported about effects

The record of correct code says for each block and function of the code, and for all of it, what it
may do: the join of what it does itself and of the summaries of the functions that it calls
(`effects_of_succeeded`).
-/

namespace Yul

namespace FunctionId

instance : Std.TransOrd FunctionId :=
  inferInstanceAs (Std.TransCmp (compareLex (compareOn FunctionId.scope) (compareOn FunctionId.name)))

instance : Std.LawfulEqOrd FunctionId where
  compare_self := Std.ReflCmp.compare_self
  eq_of_compare {f g} h := by
    obtain ⟨hscope, hname⟩ : compare f.scope g.scope = .eq ∧ compare f.name g.name = .eq :=
      compareLex_eq_eq.mp h
    exact congrArg₂ FunctionId.mk (Std.LawfulEqCmp.eq_of_compare hscope)
      (Std.LawfulEqCmp.eq_of_compare hname)

end FunctionId

/-! ## Entries of tables -/

section Tables

variable {α β : Type} {cmp : α → α → Ordering} [Std.TransCmp cmp] [Std.LawfulEqCmp cmp]
  {entries : List (α × β)} {m : Std.TreeMap α β cmp} {k : α} {v : β}

theorem mem_foldl_insert :
    k ∈ entries.foldl (fun m (k, v) => m.insert k v) m ↔ k ∈ entries.map (·.1) ∨ k ∈ m := by
  induction entries generalizing m with
  | nil => simp
  | cons entry entries ih =>
    rw [List.foldl_cons, ih, List.map_cons, List.mem_cons, Std.TreeMap.mem_insert,
      Std.LawfulEqCmp.compare_eq_iff_eq, eq_comm]
    tauto

theorem getElem?_foldl_insert_of_not_mem (h : k ∉ entries.map (·.1)) :
    (entries.foldl (fun m (k, v) => m.insert k v) m)[k]? = m[k]? := by
  induction entries generalizing m with
  | nil => rfl
  | cons entry entries ih =>
    rw [List.map_cons, List.mem_cons, not_or] at h
    rw [List.foldl_cons, ih h.2, Std.TreeMap.getElem?_insert, if_neg]
    exact fun heq => h.1 (Std.LawfulEqCmp.eq_of_compare heq).symm

theorem getElem?_foldl_insert (hdistinct : (entries.map (·.1)).Nodup) (h : (k, v) ∈ entries) :
    (entries.foldl (fun m (k, v) => m.insert k v) m)[k]? = some v := by
  induction entries generalizing m with
  | nil => exact absurd h List.not_mem_nil
  | cons entry entries ih =>
    rw [List.map_cons, List.nodup_cons] at hdistinct
    rcases List.mem_cons.mp h with rfl | hrest
    · rw [List.foldl_cons, getElem?_foldl_insert_of_not_mem hdistinct.1,
        Std.TreeMap.getElem?_insert_self]
    · exact ih hdistinct.2 hrest

theorem keys_foldl_insert (hdistinct : (entries.map (·.1)).Nodup) :
    (entries.foldl (fun m (k, v) => m.insert k v) (∅ : Std.TreeMap α β cmp)).keys.Perm
      (entries.map (·.1)) := by
  refine (List.perm_ext_iff_of_nodup Std.TreeMap.nodup_keys hdistinct).mpr fun k => ?_
  rw [Std.TreeMap.mem_keys, mem_foldl_insert]
  simp

end Tables

/-! ## Runs -/

theorem Run.take_effects (r : Run) (e : Event) :
    (r.take e).record.blockEffects = r.record.blockEffects ∧
      (r.take e).record.functionEffects = r.record.functionEffects ∧
      (r.take e).record.sideEffects = r.record.sideEffects := by
  rw [take]
  split
  · exact ⟨rfl, rfl, rfl⟩
  · split
    · rw [stop]
      split <;> exact ⟨rfl, rfl, rfl⟩
    · cases e with
      | exitFunction f =>
        dsimp only
        rw [change_exitFunction_record]
        exact ⟨rfl, rfl, rfl⟩
      | _ => exact ⟨rfl, rfl, rfl⟩

theorem Run.Reaches.effects {r r' : Run} (h : r.Reaches r') :
    r'.record.blockEffects = r.record.blockEffects ∧
      r'.record.functionEffects = r.record.functionEffects ∧
      r'.record.sideEffects = r.record.sideEffects := by
  induction h with
  | refl => exact ⟨rfl, rfl, rfl⟩
  | tail _ hstep ih =>
    obtain ⟨e, rfl⟩ := hstep
    obtain ⟨hblocks, hfunctions, htotal⟩ := take_effects _ e
    exact ⟨hblocks.trans ih.1, hfunctions.trans ih.2.1, htotal.trans ih.2.2⟩

/-! ## What a record says -/

/-- The function that a key stands for in a record. -/
def Record.functionOf (record : Record) (f : FunctionKey) : FunctionId :=
  f.id fun id => record.blockScopes.getD id 0

/-- A record says what code with an account may do: each of its blocks and each of its functions has
one entry, and no other entries are there. -/
structure Record.Reports (record : Record) (a : Account FunctionKey) : Prop where
  homes : ∀ f ∈ a.functions.map (·.1),
    record.blockScopes[f.home]? = some (record.functionOf f).scope
  blockKeys : record.blockEffects.keys.Perm (a.blocks.map (·.1))
  functionKeys : record.functionEffects.keys.Perm
    ((a.functions.map (·.1)).map record.functionOf)
  blocks : ∀ id acts, (id, acts) ∈ a.blocks →
    ∃ e, record.blockEffects[id]? = some e ∧ a.IsSummaryOf acts e
  functions : ∀ f ∈ a.functions.map (·.1),
    ∃ e, record.functionEffects[record.functionOf f]? = some e ∧ a.IsSummary f e
  total : a.IsSummaryOfAll record.sideEffects

theorem map_fst_eq_of_forall₂ {α β γ : Type} {P : α → β → γ → Prop} {entries : List (α × β)}
    {entries' : List (α × γ)}
    (h : List.Forall₂ (fun x y => y.1 = x.1 ∧ P x.1 x.2 y.2) entries entries') :
    entries'.map (·.1) = entries.map (·.1) := by
  induction h with
  | nil => rfl
  | cons hxy _ ih => exact congrArg₂ List.cons hxy.1 ih

theorem exists_of_forall₂ {α β γ : Type} {P : α → β → γ → Prop} {entries : List (α × β)}
    {entries' : List (α × γ)} (h : List.Forall₂ (fun x y => y.1 = x.1 ∧ P x.1 x.2 y.2) entries entries')
    {k : α} {v : β} (hmem : (k, v) ∈ entries) : ∃ w, (k, w) ∈ entries' ∧ P k v w := by
  induction h with
  | nil => exact absurd hmem List.not_mem_nil
  | @cons x y _ _ hxy _ ih =>
    rcases List.mem_cons.mp hmem with rfl | hrest
    · obtain ⟨hkey, hP⟩ := hxy
      exact ⟨y.2, List.mem_cons.mpr (.inl (Prod.ext hkey.symm rfl)), hP⟩
    · obtain ⟨w, hw, hP⟩ := ih hrest
      exact ⟨w, List.mem_cons_of_mem _ hw, hP⟩

section Reports

variable {record : Record} {a : Account FunctionKey} {g : FunctionKey → FunctionId}

/-- Adding what has been collected from an account tells for each of its blocks what it may do. -/
theorem Record.blockEffects_addEffects (hg : Function.Injective g)
    (hblockKeys : (a.blocks.map (·.1)).Nodup) (hfunctionKeys : (a.functions.map (·.1)).Nodup)
    {id : BlockId} {acts : List (Act FunctionKey)} (hmem : (id, acts) ∈ a.blocks) :
    ∃ e, (record.addEffects (Collector.absorb {} (a.map g)).summarize).blockEffects[id]? = some e ∧
      a.IsSummaryOf acts e := by
  have hblocks := Account.summarize_blocks (a.keys_map_functions g ▸ hfunctionKeys.map hg)
  have hblocksFst := map_fst_eq_of_forall₂ (P := fun _ acts e => (a.map g).IsSummaryOf acts e) hblocks
  have hmem' : (id, acts.map (Act.map g)) ∈ (a.map g).blocks := List.mem_map.mpr ⟨_, hmem, rfl⟩
  obtain ⟨e, he, hsummary⟩ := exists_of_forall₂
    (P := fun _ acts e => (a.map g).IsSummaryOf acts e) hblocks hmem'
  refine ⟨e, ?_, (Account.map_isSummaryOf_iff hg).mp hsummary⟩
  exact getElem?_foldl_insert (by rwa [hblocksFst, Account.keys_map_blocks]) he

theorem Record.addEffects_reports (hg : Function.Injective g)
    (hfunctions : ∀ f ∈ a.functions.map (·.1), record.functionOf f = g f ∧
      record.blockScopes[f.home]? = some (record.functionOf f).scope)
    (hblockKeys : (a.blocks.map (·.1)).Nodup) (hfunctionKeys : (a.functions.map (·.1)).Nodup)
    (hempty : record.blockEffects = ∅ ∧ record.functionEffects = ∅ ∧ record.sideEffects = .none) :
    (record.addEffects (Collector.absorb {} (a.map g)).summarize).Reports a := by
  obtain ⟨hnoBlocks, hnoFunctions, hnoEffects⟩ := hempty
  have hdistinct : ((a.map g).functions.map (·.1)).Nodup :=
    a.keys_map_functions g ▸ hfunctionKeys.map hg
  have hblocks := Account.summarize_blocks hdistinct
  have hbodies := Account.summarize_functions hdistinct
  have htotal := Account.summarize_total hdistinct
  have hentries : ∀ id acts, (id, acts) ∈ a.blocks → _ := fun id acts hmem =>
    record.blockEffects_addEffects hg hblockKeys hfunctionKeys hmem
  generalize (Collector.absorb {} (a.map g)).summarize = summary at hblocks hbodies htotal hentries ⊢
  have hblocksFst := map_fst_eq_of_forall₂ (P := fun _ acts e => (a.map g).IsSummaryOf acts e) hblocks
  have hbodiesFst := map_fst_eq_of_forall₂ (P := fun f _ e => (a.map g).IsSummary f e) hbodies
  have hsame : (a.functions.map (·.1)).map record.functionOf = (a.functions.map (·.1)).map g :=
    List.map_congr_left fun f hf => (hfunctions f hf).1
  constructor
  · exact fun f hf => (hfunctions f hf).2
  · change (summary.blocks.foldl (fun m entry => m.insert entry.1 entry.2)
      record.blockEffects).keys.Perm _
    rw [hnoBlocks, ← a.keys_map_blocks g, ← hblocksFst]
    exact keys_foldl_insert (by rwa [hblocksFst, Account.keys_map_blocks])
  · change (summary.functions.foldl (fun m entry => m.insert entry.1 entry.2)
      record.functionEffects).keys.Perm ((a.functions.map (·.1)).map record.functionOf)
    rw [hnoFunctions, hsame, ← a.keys_map_functions g, ← hbodiesFst]
    exact keys_foldl_insert (by rwa [hbodiesFst])
  · exact hentries
  · intro f hf
    obtain ⟨body, hbody, rfl⟩ := List.mem_map.mp hf
    have hmem' : (g body.1, body.2.map (Act.map g)) ∈ (a.map g).functions :=
      List.mem_map.mpr ⟨_, hbody, rfl⟩
    obtain ⟨e, he, hsummary⟩ := exists_of_forall₂
      (P := fun f _ e => (a.map g).IsSummary f e) hbodies hmem'
    refine ⟨e, ?_, (Account.map_isSummary_iff hg).mp hsummary⟩
    change (summary.functions.foldl (fun m entry => m.insert entry.1 entry.2)
      record.functionEffects)[record.functionOf body.1]? = some e
    rw [(hfunctions _ hf).1]
    exact getElem?_foldl_insert (by rwa [hbodiesFst]) he
  · change a.IsSummaryOfAll (record.sideEffects.join summary.total)
    rw [hnoEffects, SideEffects.none_join]
    exact (Account.map_isSummaryOfAll_iff hg).mp htotal

end Reports

section Setting

variable (cfg : Setting)

theorem runBlock_ready_of_regular {record : Record}
    (hrecord : (Run.mk record [] [] [] none).Regular) (b : Block)
    (hfault : (runBlock cfg record b).fault = none) :
    (runBlock cfg record b).Ready record.scopes.size := by
  obtain ⟨r, hwalk, hrun⟩ := runBlock_walk cfg record b
  rw [hrun] at hfault ⊢
  have hr := (Run.fits_of_take hfault).1
  have hready := hwalk.ready (hrecord.enterFirst_of_fits (hwalk.fault_eq_none hr)) hr
  exact hready.exitBlock b.id hready.scope_lt

theorem runBlock_ready (b : Block) (hfault : (runBlock cfg {} b).fault = none) :
    (runBlock cfg {} b).Ready 0 ∧ (runBlock cfg {} b).Entered b.visited.reverse ∧
      (Run.mk {} [] [] [] none).Reaches (runBlock cfg {} b) := by
  refine ⟨runBlock_ready_of_regular cfg Run.regular_empty b hfault, ?_,
    runBlock_reaches cfg {} b⟩
  obtain ⟨r, hwalk, hrun⟩ := runBlock_walk cfg {} b
  rw [hrun] at hfault ⊢
  have hr := (Run.fits_of_take hfault).1
  have hentered := hwalk.entered hr (Run.entered_first b.id)
  have hvisited : b.visited.reverse = (visitedOfStmts b.statements).reverse ++ [b.id] := by
    cases b
    rw [Block.visited, List.reverse_cons]
  rw [hvisited]
  refine hentered.of_record ?_
  rw [Run.take_eq hfault]
  rfl

/-- The scopes of blocks, and other numbers for everything else. -/
def Run.scopeOf (r : Run) (id : BlockId) : ScopeId :=
  (r.record.blockScopes[id]?).getD (r.record.scopes.size + id)

theorem Run.scopeOf_injective {r : Run} (h : r.Regular) : Function.Injective r.scopeOf := by
  intro id id' heq
  unfold scopeOf at heq
  cases hid : r.record.blockScopes[id]? with
  | some s =>
    have hs := h.scope_lt id s hid
    cases hid' : r.record.blockScopes[id']? with
    | some s' =>
      rw [hid, hid', Option.getD_some, Option.getD_some] at heq
      exact h.scope_inj id id' s hid (heq ▸ hid')
    | none =>
      rw [hid, hid', Option.getD_some, Option.getD_none] at heq
      exact absurd hs (by rw [heq]; exact Nat.not_lt.mpr (Nat.le_add_right _ _))
  | none =>
    cases hid' : r.record.blockScopes[id']? with
    | some s' =>
      have hs' := h.scope_lt id' s' hid'
      rw [hid, hid', Option.getD_some, Option.getD_none] at heq
      exact absurd hs' (by rw [← heq]; exact Nat.not_lt.mpr (Nat.le_add_right _ _))
    | none =>
      rw [hid, hid', Option.getD_none, Option.getD_none] at heq
      exact Nat.add_left_cancel heq

theorem ofRun_of_collected {run : Run} {c : Collector} (hfault : run.fault = none)
    (hc : Collector.run {} run.collectorSteps = .ok c) :
    Analysis.ofRun run = ⟨run.record.addEffects c.summarize, run.findings, run.accesses,
      c.summarize.total, none⟩ := by
  rw [Analysis.ofRun, hfault]
  dsimp only
  rw [hc]

theorem FunctionKey.id_injective {scopeOf : BlockId → ScopeId} (h : Function.Injective scopeOf) :
    Function.Injective (FunctionKey.id scopeOf) := by
  rintro ⟨id, x⟩ ⟨id', x'⟩ heq
  obtain ⟨hs, hx⟩ := FunctionId.mk.inj heq
  exact congrArg₂ FunctionKey.mk (h hs) hx

theorem Run.places_scopeOf (r : Run) : r.record.Places r.scopeOf := by
  intro id s hs
  rw [Run.scopeOf, hs, Option.getD_some]

/-- What is collected in a run follows from what the run does. -/
theorem collected_of_does {record : Record} {run : Run} {a : Account FunctionKey}
    {scopeOf : BlockId → ScopeId} (hdoes : (Run.mk record [] [] [] none).Does run a)
    (hplaces : run.record.Places scopeOf) :
    Collector.run {} run.collectorSteps =
      .ok (Collector.absorb {} (a.map (FunctionKey.id scopeOf))) := by
  obtain ⟨steps, hsteps, hnested⟩ := hdoes
  rw [hsteps]
  exact (hnested _ hplaces).run {}

/-- The record of correct code says what each block and each function of the code may do, and all of
it together. -/
theorem effects_of_succeeded (b : Block) (hdistinct : (b.blocks.map Block.id).Nodup)
    (hsucceeded : (analyze cfg {} b).succeeded = true) :
    (analyze cfg {} b).record.Reports (b.account .none) ∧
      (analyze cfg {} b).sideEffects = (analyze cfg {} b).record.sideEffects ∧
      (b.account .none).Covers [] b.blocks ∧ b.definitions.Nodup ∧
      (b.account .none).CallsAmong b.definitions := by
  have hfault : (runBlock cfg {} b).fault = none := by
    rw [runBlock_fault, ← analyze_fault cfg b]
    exact (analyze_fault_eq_none_iff cfg b).mpr hdistinct
  obtain ⟨hiff, hdoes⟩ := runBlock_decides cfg b hfault
  have hclean := (analyze_succeeded_iff cfg b).mp hsucceeded
  have hwellFormed := hiff.mp hclean
  have hcovers := b.account_covers .none
  have hdefinitions := hwellFormed.definitions_nodup hdistinct
  obtain ⟨hready, hentered, hreaches⟩ := runBlock_ready cfg b hfault
  have hempty := hreaches.effects
  obtain ⟨steps, hsteps, hnested⟩ := hdoes hclean
  rw [analyze]
  generalize runBlock cfg {} b = run at *
  have hscope (id : BlockId) (hid : id ∈ b.blocks.map Block.id) :
      run.record.blockScopes[id]? = some (run.scopeOf id) := by
    have hvisited : id ∈ b.visited.reverse :=
      List.mem_reverse.mpr (b.visited_perm.mem_iff.mpr hid)
    have hin := (hentered id).mpr hvisited
    rw [Std.TreeMap.contains_eq_isSome_getElem?] at hin
    obtain ⟨s, hs⟩ := Option.isSome_iff_exists.mp hin
    rw [Run.scopeOf, hs, Option.getD_some]
  have hplaces : run.record.Places run.scopeOf := by
    intro id s hs
    rw [Run.scopeOf, hs, Option.getD_some]
  have hinjective : Function.Injective (FunctionKey.id run.scopeOf) := by
    rintro ⟨id, x⟩ ⟨id', x'⟩ heq
    obtain ⟨hs, hx⟩ := FunctionId.mk.inj heq
    exact congrArg₂ FunctionKey.mk (Run.scopeOf_injective hready.regular hs) hx
  have hcollected := (hnested _ hplaces).run {}
  rw [show steps = run.collectorSteps from hsteps.symm] at hcollected
  rw [ofRun_of_collected hfault hcollected]
  refine ⟨Record.addEffects_reports hinjective (fun f hf => ?_)
    (hcovers.blocks.nodup_iff.mpr hdistinct) (hcovers.functions.nodup_iff.mpr hdefinitions) hempty,
    ?_, hcovers, hdefinitions, b.account_callsAmong⟩
  · have hf := hcovers.functions.mem_iff.mp hf
    obtain ⟨b', hb', hown⟩ := List.mem_flatMap.mp hf
    have hhome := hscope f.home (List.mem_map.mpr ⟨b', hb', (home_of_mem_ownFunctions hown).symm⟩)
    have hfunctionOf : run.record.functionOf f = f.id run.scopeOf := by
      rw [Record.functionOf, FunctionKey.id, FunctionKey.id, Std.TreeMap.getD_eq_getD_getElem?, hhome,
        Option.getD_some]
    exact ⟨hfunctionOf, hfunctionOf ▸ hhome⟩
  · change _ = SideEffects.join run.record.sideEffects _
    rw [hempty.2.2]
    exact (SideEffects.none_join _).symm

end Setting

theorem countdown_reports :
    (analyze {} {} countdown).succeeded = true ∧
      (analyze {} {} countdown).record.Reports (countdown.account .none) :=
  ⟨by decide +kernel, (effects_of_succeeded {} countdown (by decide) (by decide +kernel)).1⟩

end Yul
