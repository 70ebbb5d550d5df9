import Yul.Proofs.Effects.Bracketed
import Yul.Proofs.Effects.Exact

/-!
# Summaries as a least solution

For every well bracketed trace `Collector.summarize` finds the least summaries of functions that
allow for what the functions do themselves, for what the functions that they call may do, and for
looping where a function reaches itself (`Collector.Allows`). A function may have several frames,
and functions that are called need not have any. The summary of a block joins what is recorded in
its frame and the summaries of the functions that are called in it.

What is found depends on nothing but which acts are recorded in which frames, so parts of a trace
that stand next to each other in the same frame may change places
(`summarize_of_wellBracketed`).
-/

namespace Yul

open Relation (TransGen ReflTransGen)
open Collector (Step)

namespace CallGraph

variable {g : CallGraph} {f h : FunctionId} {facts : Facts}

theorem functions_record (g : CallGraph) (f : FunctionId) (facts : Facts) :
    (g.record f facts).functions = if f ∈ g.functions then g.functions else g.functions ++ [f] := by
  by_cases hmem : f ∈ g.functions
  · rw [if_pos hmem, record, if_pos (List.contains_iff_mem.mpr hmem), functions, List.map_map]
    refine List.map_congr_left ?_
    rintro ⟨h, old⟩ -
    by_cases hentry : h = f <;> simp [hentry]
  · rw [if_neg hmem, record_of_not_mem hmem, functions, List.map_append]
    rfl

theorem mem_functions_record : h ∈ (g.record f facts).functions ↔ h ∈ g.functions ∨ h = f := by
  rw [functions_record]
  split
  · next hmem => exact (or_iff_left_of_imp fun heq => heq ▸ hmem).symm
  · rw [List.mem_append, List.mem_singleton]

theorem nodup_functions_record (hg : g.functions.Nodup) : (g.record f facts).functions.Nodup := by
  rw [functions_record]
  split
  · exact hg
  · next hmem =>
    exact List.nodup_append.mpr ⟨hg, List.nodup_singleton f, fun x hx y hy =>
      List.mem_singleton.mp hy ▸ ne_of_mem_of_not_mem hx hmem⟩

section Fold

variable {entries : List (FunctionId × Facts)}

theorem nodup_functions_foldl (hg : g.functions.Nodup) :
    (entries.foldl (fun g (f, facts) => g.record f facts) g).functions.Nodup := by
  induction entries generalizing g with
  | nil => exact hg
  | cons entry entries ih => exact ih (nodup_functions_record hg)

theorem mem_functions_foldl :
    f ∈ (entries.foldl (fun g (f, facts) => g.record f facts) g).functions ↔
      f ∈ g.functions ∨ f ∈ entries.map (·.1) := by
  induction entries generalizing g with
  | nil => simp
  | cons entry entries ih =>
    rw [List.foldl_cons, ih, mem_functions_record, List.map_cons, List.mem_cons, or_assoc]

end Fold

theorem summary_of_not_mem (hf : f ∉ g.functions) : g.summary g.recursive f = .none := by
  refine (g.isLUB_summary f).unique ⟨?_, fun b _ => SideEffects.none_le b⟩
  have hnone {h : FunctionId} (hreach : ReflTransGen g.Calls f h) : h = f := by
    rcases hreach.cases_head with rfl | ⟨_, hcall, -⟩
    · rfl
    · exact absurd hcall.mem_functions hf
  rintro _ (hreach | ⟨hreach, hcycle⟩)
  · rw [hnone hreach, factsOf, lookup_of_not_mem hf]
    exact le_rfl
  · obtain ⟨_, hcall, -⟩ := TransGen.head'_iff.mp hcycle
    exact absurd (hnone hreach ▸ hcall.mem_functions) hf

end CallGraph

namespace Account

variable (a : Account FunctionId) {f : FunctionId}

theorem nodup_graph_functions : a.graph.functions.Nodup := by
  rw [graph_eq_foldl]
  exact CallGraph.nodup_functions_foldl List.nodup_nil

theorem mem_graph_functions_iff : f ∈ a.graph.functions ↔ f ∈ a.functions.map (·.1) := by
  have hnone : f ∉ CallGraph.functions {} := List.not_mem_nil
  rw [graph_eq_foldl, CallGraph.mem_functions_foldl, or_iff_right hnone, List.map_map]
  rfl

theorem keys_summaries : a.graph.summaries.map (·.1) = a.graph.functions := by
  rw [CallGraph.summaries, List.map_map]
  exact List.map_id _

theorem summaryOf_eq (f : FunctionId) : a.summaryOf f = a.graph.summary a.graph.recursive f := by
  rw [summaryOf]
  by_cases hf : f ∈ a.graph.functions
  · have hentry : (f, a.graph.summary a.graph.recursive f) ∈ a.graph.summaries :=
      List.mem_map_of_mem hf
    rw [lookup_of_mem (a.keys_summaries ▸ a.nodup_graph_functions) hentry, Option.getD_some]
  · rw [lookup_of_not_mem (a.keys_summaries ▸ hf), CallGraph.summary_of_not_mem hf]
    rfl

end Account

/-! ## Summaries that allow for a trace -/

namespace Collector

/-- In a body of `f` a call of `h` is recorded. -/
def RecordsCall (steps : List Step) (f h : FunctionId) : Prop :=
  Records steps (.function f) (.call h)

/-- Summaries that allow for everything that is recorded in the bodies of functions. -/
structure Allows (steps : List Step) (S : FunctionId → SideEffects) : Prop where
  /-- each function may do what it does itself, in any of its frames -/
  own : ∀ f e, Records steps (.function f) (.effects e) → e ≤ S f
  /-- and what the functions that it calls may do -/
  calls : ∀ f h, RecordsCall steps f h → S h ≤ S f
  /-- a function that reaches itself may loop -/
  circles : ∀ f, TransGen (RecordsCall steps) f f → .looping ≤ S f

/-- What is recorded in the frame of a block, and what the functions may do that are called there. -/
def BlockEffects (steps : List Step) (S : FunctionId → SideEffects) (id : BlockId) :
    Set SideEffects :=
  {e | Records steps (.block id) (.effects e)} ∪ S '' {f | Records steps (.block id) (.call f)}

/-- Everything that is recorded anywhere, and what the functions with frames may do. -/
def AllEffects (steps : List Step) (S : FunctionId → SideEffects) : Set SideEffects :=
  {e | .add e ∈ steps} ∪ S '' {f | .enterFunction f ∈ steps}

/-- `record'` is `record` with what is found out about a trace: the least summaries `S` of functions
that allow for it, and what its blocks and all of it may do. -/
structure Stores (steps : List Step) (record record' : Record) (S : FunctionId → SideEffects)
    (total : SideEffects) : Prop where
  least : IsLeast {S | Allows steps S} S
  frameless : ∀ f, .enterFunction f ∉ steps → S f = .none
  functions : ∀ f, record'.functionEffects[f]? =
    if .enterFunction f ∈ steps then some (S f) else record.functionEffects[f]?
  blocks : ∀ id, .enterBlock id ∈ steps →
    ∃ e, record'.blockEffects[id]? = some e ∧ IsLUB (BlockEffects steps S id) e
  otherBlocks : ∀ id, .enterBlock id ∉ steps → record'.blockEffects[id]? = record.blockEffects[id]?
  all : IsLUB (AllEffects steps S) total
  sideEffects : record'.sideEffects = record.sideEffects.join total

end Collector

theorem mem_enteredBlocks_iff {steps : List Step} {id : BlockId} :
    id ∈ Collector.enteredBlocks steps ↔ .enterBlock id ∈ steps := by
  rw [Collector.enteredBlocks, List.mem_filterMap]
  constructor
  · rintro ⟨s, hs, hid⟩
    split at hid
    · exact Option.some.inj hid ▸ hs
    · contradiction
  · exact fun hs => ⟨_, hs, rfl⟩

namespace Nested

open Collector

variable {steps : List Step} {a : Account FunctionId}

theorem total_le_iff (h : Nested steps a) {b : SideEffects} :
    a.total ≤ b ↔ ∀ e, .add e ∈ steps → e ≤ b := by
  induction h with
  | nil => simp [Account.total, SideEffects.none_le]
  | add e => simp [Account.total]
  | call f => simp [Account.total, SideEffects.none_le]
  | append _ _ ih ih' =>
    rw [Account.total_append, SideEffects.join_eq_sup, sup_le_iff, ih, ih']
    simp only [List.mem_append, or_imp, forall_and]
  | block id _ ih => exact ih.trans (by simp)
  | function f _ ih =>
    rw [Account.total_inFunction, ih]
    simp

theorem recordsCall_eq (h : Nested steps a) : RecordsCall steps = a.graph.Calls := by
  funext f g
  rw [eq_iff_iff, Account.calls_graph_iff, Account.calls_iff_inBody, RecordsCall, h.records_iff]
  rfl

/-- The summaries that are found are the least ones that allow for the trace. -/
theorem isLeast_summaryOf (h : Nested steps a) : IsLeast {S | Allows steps S} a.summaryOf := by
  have hcalls := h.recordsCall_eq
  have hown (f : FunctionId) (b : SideEffects) : (a.graph.factsOf f).effects ≤ b ↔
      ∀ e, Records steps (.function f) (.effects e) → e ≤ b := by
    simp only [h.records_iff]
    exact Account.effects_factsOf_graph_le_iff
  have hlub (f : FunctionId) : IsLUB {e | a.graph.Adds f e} (a.summaryOf f) :=
    a.summaryOf_eq f ▸ a.graph.isLUB_summary f
  constructor
  · constructor
    · exact fun f => (hown f _).mp ((hlub f).1 (.own .refl))
    · intro f g hcall
      rw [hcalls] at hcall
      refine (hlub g).2 ?_
      rintro e (hreach | ⟨hreach, hcycle⟩)
      · exact (hlub f).1 (.own (.head hcall hreach))
      · exact (hlub f).1 (.cycle (.head hcall hreach) hcycle)
    · exact fun f hcycle => (hlub f).1 (.cycle .refl (hcalls ▸ hcycle))
  · intro S hS f
    -- whatever is in reach of a function is allowed for by its summary
    have hreached {f g : FunctionId} (hreach : ReflTransGen a.graph.Calls f g) : S g ≤ S f := by
      induction hreach with
      | refl => exact le_rfl
      | tail _ hcall ih => exact (hS.calls _ _ (hcalls ▸ hcall)).trans ih
    refine (hlub f).2 ?_
    rintro e (@⟨g, hreach⟩ | @⟨g, hreach, hcycle⟩)
    · exact ((hown g _).mpr (hS.own g)).trans (hreached hreach)
    · exact (hS.circles g (hcalls ▸ hcycle)).trans (hreached hreach)

theorem mem_summarize_blocks (h : Nested steps a) {id : BlockId} {acts : List (Act FunctionId)}
    (hmem : (id, acts) ∈ a.blocks) (hdistinct : (enteredBlocks steps).Nodup) :
    ∃ e, (id, e) ∈ (Collector.absorb {} a).summarize.blocks ∧
      IsLUB (BlockEffects steps a.summaryOf id) e := by
  -- the block has been entered once, so there are no other acts of it
  have hrecords (act : Act FunctionId) : Records steps (.block id) act ↔ act ∈ acts := by
    rw [h.records_iff]
    refine ⟨?_, fun hact => ⟨acts, hmem, hact⟩⟩
    rintro ⟨acts', hmem', hact⟩
    have hkeys : (a.blocks.map (·.1)).Nodup := h.blocks_perm.nodup_iff.mpr hdistinct
    have hsame := (lookup_of_mem hkeys hmem').symm.trans (lookup_of_mem hkeys hmem)
    exact Option.some.inj hsame ▸ hact
  let facts := Facts.none.join (.ofActs acts)
  have hfacts : (id, facts) ∈ (Collector.absorb {} a).blocks.reverse := by
    rw [Collector.reverse_blocks_absorb]
    exact List.mem_map.mpr ⟨_, hmem, rfl⟩
  refine ⟨_, List.mem_map.mpr ⟨_, hfacts, rfl⟩, ?_⟩
  change IsLUB _ (facts.callees.foldl (fun e f => e.join (a.summaryOf f)) facts.effects)
  have hcallees (f : FunctionId) : f ∈ facts.callees ↔ .call f ∈ acts :=
    Facts.mem_callees_none_join_ofActs.trans mem_calleesOf
  rw [SideEffects.foldl_join_map, Facts.effects_none_join_ofActs, isLUB_iff_le_iff]
  intro b
  rw [sup_le_iff, effectsOf_le_iff, SideEffects.all_le_iff, List.forall_mem_map, BlockEffects,
    upperBounds_union]
  refine and_congr ?_ ?_
  · simp only [mem_upperBounds, Set.mem_ofPred_eq, hrecords]
  · simp only [mem_upperBounds, Set.forall_mem_image, Set.mem_ofPred_eq, hrecords, hcallees]

theorem keys_summarize_blocks (h : Nested steps a) :
    ((Collector.absorb {} a).summarize.blocks.map (·.1)).Perm (enteredBlocks steps) := by
  have hkeys : (Collector.absorb {} a).summarize.blocks.map (·.1) = a.blocks.map (·.1) := by
    rw [Collector.summarize]
    dsimp only
    rw [Collector.reverse_blocks_absorb, List.map_map, List.map_map]
    rfl
  exact hkeys ▸ h.blocks_perm

theorem isLUB_summarize_total (h : Nested steps a) :
    IsLUB (AllEffects steps a.summaryOf) (Collector.absorb {} a).summarize.total := by
  have htotal : (Collector.absorb {} a).summarize.total =
      a.total ⊔ .all (a.graph.functions.map a.summaryOf) := by
    have hsummaries : a.graph.summaries = a.graph.functions.map fun f => (f, a.summaryOf f) :=
      List.map_congr_left fun f _ => Prod.ext rfl (a.summaryOf_eq f).symm
    rw [Account.total_summarize, hsummaries, List.map_map]
    rfl
  rw [htotal, AllEffects]
  have hadded : IsLUB {e | .add e ∈ steps} a.total := isLUB_iff_le_iff.mpr fun b => h.total_le_iff
  refine hadded.union ?_
  have himage : a.summaryOf '' {f | .enterFunction f ∈ steps} =
      {e | e ∈ a.graph.functions.map a.summaryOf} := by
    ext e
    simp only [Set.mem_image, Set.mem_ofPred_eq, List.mem_map, ← h.mem_functions_iff,
      a.mem_graph_functions_iff]
  exact himage ▸ SideEffects.isLUB_all _

/-- What is collected from nested steps, put into a record. -/
theorem stores (h : Nested steps a) (hdistinct : (enteredBlocks steps).Nodup) (record : Record) :
    Stores steps record (record.addEffects (Collector.absorb {} a).summarize) a.summaryOf
      (Collector.absorb {} a).summarize.total where
  least := h.isLeast_summaryOf
  frameless f hf := by
    rw [a.summaryOf_eq, CallGraph.summary_of_not_mem]
    exact fun hmem => hf (h.mem_functions_iff.mp (a.mem_graph_functions_iff.mp hmem))
  functions f := by
    change (a.graph.summaries.foldl (fun m entry => m.insert entry.1 entry.2)
      record.functionEffects)[f]? = _
    have hkeys : f ∈ a.graph.summaries.map (·.1) ↔ .enterFunction f ∈ steps := by
      rw [a.keys_summaries, a.mem_graph_functions_iff, h.mem_functions_iff]
    split
    · next hf =>
      rw [a.summaryOf_eq]
      refine getElem?_foldl_insert (a.keys_summaries ▸ a.nodup_graph_functions) ?_
      exact List.mem_map_of_mem (a.keys_summaries ▸ hkeys.mpr hf)
    · next hf => exact getElem?_foldl_insert_of_not_mem fun hmem => hf (hkeys.mp hmem)
  blocks id hid := by
    have hentered : id ∈ a.blocks.map (·.1) :=
      h.blocks_perm.mem_iff.mpr (mem_enteredBlocks_iff.mpr hid)
    obtain ⟨⟨_, acts⟩, hmem, rfl⟩ := List.mem_map.mp hentered
    obtain ⟨e, he, hlub⟩ := h.mem_summarize_blocks hmem hdistinct
    exact ⟨e, getElem?_foldl_insert (h.keys_summarize_blocks.nodup_iff.mpr hdistinct) he, hlub⟩
  otherBlocks id hid := getElem?_foldl_insert_of_not_mem fun hmem =>
    hid (mem_enteredBlocks_iff.mp (h.keys_summarize_blocks.mem_iff.mp hmem))
  all := h.isLUB_summarize_total
  sideEffects := rfl

end Nested

/-! ## The order of a trace -/

namespace Collector

/-- Two parts of a trace that stand next to each other in the same frame change places: frames with
all that is in them, effects and calls. -/
inductive Swaps : List Step → List Step → Prop where
  | swap (before after : List Step) {first next : List Step} (hfirst : WellBracketed first)
      (hnext : WellBracketed next) :
      Swaps (before ++ (first ++ next) ++ after) (before ++ (next ++ first) ++ after)

/-- Traces that record the same in another order. -/
def Reordered : List Step → List Step → Prop :=
  ReflTransGen Swaps

/-- Well bracketed traces that record the same. -/
structure SameRecords (steps steps' : List Step) : Prop where
  wellBracketed : WellBracketed steps'
  records : ∀ owner act, Records steps owner act ↔ Records steps' owner act
  perm : steps.Perm steps'

variable {steps steps' : List Step}

theorem Swaps.sameRecords (h : Swaps steps steps') (hwell : WellBracketed steps) :
    SameRecords steps steps' := by
  obtain ⟨before, after, hfirst, hnext⟩ := h
  rename_i first next
  -- both parts stand in the same frames, and leave them as they are
  rw [WellBracketed, openedAfter_append, openedAfter_append] at hwell
  obtain ⟨mid, hmid, hafter⟩ := Option.bind_eq_some_iff.mp hwell
  obtain ⟨frames, hbefore, hparts⟩ := Option.bind_eq_some_iff.mp hmid
  have hboth : openedAfter frames (first ++ next) = some frames := by
    rw [openedAfter_append, hfirst.openedAfter, Option.bind_some, hnext.openedAfter]
  have hboth' : openedAfter frames (next ++ first) = some frames := by
    rw [openedAfter_append, hnext.openedAfter, Option.bind_some, hfirst.openedAfter]
  obtain rfl := Option.some.inj (hboth.symm.trans hparts)
  have hupTo {parts : List Step} (h : openedAfter frames parts = some frames) :
      openedAfter [] (before ++ parts) = some frames := by
    rw [openedAfter_append, hbefore, Option.bind_some, h]
  refine ⟨?_, fun owner act => ?_, ?_⟩
  · rw [WellBracketed, openedAfter_append, hupTo hboth']
    exact hafter
  · rw [Records, Records, recordsFrom_append (hupTo hboth), recordsFrom_append (hupTo hboth'),
      recordsFrom_append hbefore, recordsFrom_append hbefore,
      recordsFrom_append (hfirst.openedAfter frames), recordsFrom_append (hnext.openedAfter frames),
      or_comm (a := RecordsFrom frames first owner act)]
  · exact (List.perm_append_comm.append_left before).append_right after

theorem Reordered.sameRecords (h : Reordered steps steps') (hwell : WellBracketed steps) :
    SameRecords steps steps' := by
  induction h with
  | refl => exact ⟨hwell, fun _ _ => Iff.rfl, .refl _⟩
  | tail _ hswap ih =>
    have hnext := hswap.sameRecords ih.wellBracketed
    exact ⟨hnext.wellBracketed, fun owner act => (ih.records owner act).trans (hnext.records owner act),
      ih.perm.trans hnext.perm⟩

end Collector

/-- The records say the same about effects. -/
structure Record.SameEffects (r r' : Record) : Prop where
  functions : ∀ f : FunctionId, r.functionEffects[f]? = r'.functionEffects[f]?
  blocks : ∀ id : BlockId, r.blockEffects[id]? = r'.blockEffects[id]?
  sideEffects : r.sideEffects = r'.sideEffects

namespace Collector

variable {steps steps' : List Step} {record r r' : Record} {S S' : FunctionId → SideEffects}
  {total total' : SideEffects}

/-- What is stored follows from what is recorded. -/
theorem Stores.unique (h : Stores steps record r S total) (h' : Stores steps' record r' S' total')
    (hsame : SameRecords steps steps') : S = S' ∧ total = total' ∧ r.SameEffects r' := by
  have hrecords : Records steps = Records steps' := by
    funext owner act
    exact propext (hsame.records owner act)
  have hcalls : RecordsCall steps = RecordsCall steps' := by
    funext f g
    exact propext (hsame.records _ _)
  have hallows (S : FunctionId → SideEffects) : Allows steps S ↔ Allows steps' S := by
    constructor
    · exact fun ⟨hown, hc, hcircles⟩ => ⟨hrecords ▸ hown, hcalls ▸ hc, hcalls ▸ hcircles⟩
    · exact fun ⟨hown, hc, hcircles⟩ => ⟨hrecords ▸ hown, hcalls ▸ hc, hcalls ▸ hcircles⟩
  have hS : S = S' := by
    refine h.least.unique ?_
    simpa only [hallows] using h'.least
  subst hS
  have hmem (s : Step) : s ∈ steps ↔ s ∈ steps' := hsame.perm.mem_iff
  have htotal : total = total' := by
    refine h.all.unique ?_
    have hall : AllEffects steps S = AllEffects steps' S := by
      simp only [AllEffects, hmem]
    exact hall ▸ h'.all
  refine ⟨rfl, htotal, fun f => ?_, fun id => ?_, ?_⟩
  · rw [h.functions, h'.functions]
    simp only [hmem]
  · by_cases hid : .enterBlock id ∈ steps
    · obtain ⟨e, he, hlub⟩ := h.blocks id hid
      obtain ⟨e', he', hlub'⟩ := h'.blocks id ((hmem _).mp hid)
      have hblock : BlockEffects steps S id = BlockEffects steps' S id := by
        simp only [BlockEffects, hrecords]
      rw [he, he', hlub.unique (hblock ▸ hlub')]
    · rw [h.otherBlocks id hid, h'.otherBlocks id fun hid' => hid ((hmem _).mpr hid')]
  · rw [h.sideEffects, h'.sideEffects, htotal]

end Collector

open Collector in
/-- Every well bracketed trace that enters no block twice is collected, and leaves no frame open.
What is stored about it, in whatever record, are the least summaries of functions that allow for it,
with what its blocks and all of it may do. Its parts may change places. -/
theorem summarize_of_wellBracketed (steps : List Step) (hwell : WellBracketed steps)
    (hdistinct : (enteredBlocks steps).Nodup) :
    ∃ c S, Collector.run {} steps = .ok c ∧ c.frames = [] ∧
      (∀ record : Record,
        Stores steps record (record.addEffects c.summarize) S c.summarize.total) ∧
      ∀ steps', Reordered steps steps' → ∃ c', Collector.run {} steps' = .ok c' ∧ c'.frames = [] ∧
        c'.summarize.total = c.summarize.total ∧
        ∀ record : Record,
          (record.addEffects c'.summarize).SameEffects (record.addEffects c.summarize) := by
  obtain ⟨a, hnested⟩ := hwell.nested
  refine ⟨_, a.summaryOf, hnested.run {}, rfl, hnested.stores hdistinct, fun steps' hreordered => ?_⟩
  have hsame := hreordered.sameRecords hwell
  obtain ⟨a', hnested'⟩ := hsame.wellBracketed.nested
  have hdistinct' : (enteredBlocks steps').Nodup :=
    (hsame.perm.filterMap _).nodup_iff.mp hdistinct
  have hunique (record : Record) :=
    (hnested.stores hdistinct record).unique (hnested'.stores hdistinct' record) hsame
  refine ⟨_, hnested'.run {}, rfl, (hunique {}).2.1.symm, fun record => ?_⟩
  obtain ⟨-, -, hfunctions, hblocks, hall⟩ := hunique record
  exact ⟨fun f => (hfunctions f).symm, fun id => (hblocks id).symm, hall.symm⟩

/-- A function with two bodies, the second of which calls the function itself and one that has no
body. It is called in a block of its own. -/
def twoBodies : List Step :=
  let f : FunctionId := ⟨0, "f"⟩
  [.enterBlock 0, .enterFunction f, .add .volatile, .exitFunction f, .enterFunction f, .call f,
    .call ⟨0, "g"⟩, .exitFunction f, .enterBlock 1, .call f, .exitBlock 1, .exitBlock 0]

/-- The same, with the call before both bodies. -/
def calledFirst : List Step :=
  let f : FunctionId := ⟨0, "f"⟩
  [.enterBlock 0, .enterBlock 1, .call f, .exitBlock 1, .enterFunction f, .add .volatile,
    .exitFunction f, .enterFunction f, .call f, .call ⟨0, "g"⟩, .exitFunction f, .exitBlock 0]

open Collector in
/-- The function may loop, and so may the block that calls it, wherever that block stands. -/
theorem twoBodies_summarized :
    WellBracketed twoBodies ∧ (enteredBlocks twoBodies).Nodup ∧ Reordered twoBodies calledFirst ∧
      ∃ c c', Collector.run {} twoBodies = .ok c ∧ Collector.run {} calledFirst = .ok c' ∧
        (Record.addEffects {} c.summarize).functionEffects[(⟨0, "f"⟩ : FunctionId)]? =
          some (SideEffects.looping.join .volatile) ∧
        (Record.addEffects {} c'.summarize).blockEffects[1]? =
          some (SideEffects.looping.join .volatile) ∧
        (Record.addEffects {} c'.summarize).SameEffects (Record.addEffects {} c.summarize) := by
  have hwell : WellBracketed twoBodies := by decide
  have hdistinct : (enteredBlocks twoBodies).Nodup := by decide
  have hreordered : Reordered twoBodies calledFirst :=
    have hbodies : WellBracketed ((twoBodies.drop 1).take 7) := by decide
    have hcall : WellBracketed ((twoBodies.drop 8).take 3) := by decide
    .single (.swap [.enterBlock 0] [.exitBlock 0] hbodies hcall)
  obtain ⟨c, S, hc, -, -, hothers⟩ := summarize_of_wellBracketed twoBodies hwell hdistinct
  obtain ⟨c', hc', -, -, hsame⟩ := hothers calledFirst hreordered
  refine ⟨hwell, hdistinct, hreordered, c, c', hc, hc', ?_, ?_, hsame {}⟩
  · obtain rfl := Except.ok.inj hc
    decide +kernel
  · obtain rfl := Except.ok.inj hc'
    decide +kernel

end Yul
