import Yul.Proofs.Effects.Reach
import Yul.Proofs.Effects.Regions

/-!
# Summaries of what code does

An account says what code does itself. `Account.IsSummary` and `Account.IsSummaryOf` say what
functions and pieces of code may do when the functions that they call are counted in: they are
joins over everything within reach, whatever order the calls are in. `Collector.summarize` finds
these joins (`summarize_functions`, `summarize_blocks`, `summarize_total`).
-/

namespace Yul

open Relation (TransGen ReflTransGen)

namespace Account

section Spec

variable {φ : Type} (a : Account φ)

/-- The body of `f` calls `h`. -/
def Calls (f h : φ) : Prop :=
  ∃ acts, (f, acts) ∈ a.functions ∧ h ∈ calleesOf acts

/-- What one function within reach of `f` adds to what a call of `f` may do: what it does itself,
and looping if it reaches itself. -/
inductive Adds (f : φ) : SideEffects → Prop where
  | own {h : φ} {acts : List (Act φ)} (hreach : ReflTransGen a.Calls f h)
      (hbody : (h, acts) ∈ a.functions) : Adds f (effectsOf acts)
  | cycle {h : φ} (hreach : ReflTransGen a.Calls f h) (hcycle : TransGen a.Calls h h) :
      Adds f .looping

/-- What a call of `f` may do. -/
def IsSummary (f : φ) (e : SideEffects) : Prop :=
  IsLUB {e | a.Adds f e} e

/-- What code that does `acts` may do. -/
def IsSummaryOf (acts : List (Act φ)) (e : SideEffects) : Prop :=
  IsLUB ({effectsOf acts} ∪ {e | ∃ f ∈ calleesOf acts, a.IsSummary f e}) e

/-- What the code may do, and all of its functions, called or not. -/
def IsSummaryOfAll (e : SideEffects) : Prop :=
  IsLUB ({e | a.IsSummaryOf a.acts e} ∪ {e | ∃ f ∈ a.functions.map (·.1), a.IsSummary f e}) e

end Spec

/-! ## Functions under other names -/

section Rename

variable {φ ψ : Type} {g : φ → ψ} {a : Account φ} {f h : φ}

@[simp] theorem effectsOf_map (acts : List (Act φ)) :
    effectsOf (acts.map (Act.map g)) = effectsOf acts := by
  induction acts with
  | nil => rfl
  | cons act acts ih =>
    cases act with
    | effects e => exact congrArg e.join ih
    | call f => exact ih

@[simp] theorem calleesOf_map (acts : List (Act φ)) :
    calleesOf (acts.map (Act.map g)) = (calleesOf acts).map g := by
  induction acts with
  | nil => rfl
  | cons act acts ih =>
    cases act with
    | effects e => exact ih
    | call f => exact congrArg (g f :: ·) ih

theorem mem_map_functions {f' : ψ} {acts' : List (Act ψ)} :
    (f', acts') ∈ (a.map g).functions ↔
      ∃ f acts, (f, acts) ∈ a.functions ∧ g f = f' ∧ acts.map (Act.map g) = acts' := by
  simp [map]

variable (hg : Function.Injective g)

include hg

theorem map_calls_iff {h' : ψ} : (a.map g).Calls (g f) h' ↔ ∃ h, g h = h' ∧ a.Calls f h := by
  constructor
  · rintro ⟨_, hmem, hcallee⟩
    obtain ⟨f', acts, hbody, hf, rfl⟩ := mem_map_functions.mp hmem
    obtain rfl := hg hf
    rw [calleesOf_map] at hcallee
    obtain ⟨h, hh, rfl⟩ := List.mem_map.mp hcallee
    exact ⟨h, rfl, acts, hbody, hh⟩
  · rintro ⟨h, rfl, acts, hbody, hh⟩
    refine ⟨_, mem_map_functions.mpr ⟨f, acts, hbody, rfl, rfl⟩, ?_⟩
    rw [calleesOf_map]
    exact List.mem_map_of_mem hh

theorem map_reflTransGen_iff {h' : ψ} :
    ReflTransGen (a.map g).Calls (g f) h' ↔ ∃ h, g h = h' ∧ ReflTransGen a.Calls f h := by
  constructor
  · intro hreach
    induction hreach with
    | refl => exact ⟨f, rfl, .refl⟩
    | tail _ hcall ih =>
      obtain ⟨h, rfl, hreach⟩ := ih
      obtain ⟨h', hh', hcall'⟩ := (map_calls_iff hg).mp hcall
      exact ⟨h', hh', hreach.tail hcall'⟩
  · rintro ⟨h, rfl, hreach⟩
    exact hreach.lift g fun _ _ hcall => (map_calls_iff hg).mpr ⟨_, rfl, hcall⟩

theorem map_transGen_iff : TransGen (a.map g).Calls (g f) (g h) ↔ TransGen a.Calls f h := by
  constructor
  · intro hreach
    obtain ⟨_, hfirst, hrest⟩ := TransGen.head'_iff.mp hreach
    obtain ⟨f', rfl, hfirst'⟩ := (map_calls_iff hg).mp hfirst
    obtain ⟨h', hh, hrest'⟩ := (map_reflTransGen_iff hg).mp hrest
    exact hg hh ▸ TransGen.head' hfirst' hrest'
  · exact fun hreach => hreach.lift g fun _ _ hcall => (map_calls_iff hg).mpr ⟨_, rfl, hcall⟩

theorem map_adds_iff {e : SideEffects} : (a.map g).Adds (g f) e ↔ a.Adds f e := by
  constructor
  · rintro (⟨hreach, hbody⟩ | ⟨hreach, hcycle⟩)
    · obtain ⟨h, rfl, hreach'⟩ := (map_reflTransGen_iff hg).mp hreach
      obtain ⟨h', acts, hbody', hh, rfl⟩ := mem_map_functions.mp hbody
      rw [effectsOf_map]
      exact .own hreach' (hg hh ▸ hbody')
    · obtain ⟨h, rfl, hreach'⟩ := (map_reflTransGen_iff hg).mp hreach
      exact .cycle hreach' ((map_transGen_iff hg).mp hcycle)
  · rintro (⟨hreach, hbody⟩ | ⟨hreach, hcycle⟩)
    · rw [← effectsOf_map (g := g)]
      exact .own ((map_reflTransGen_iff hg).mpr ⟨_, rfl, hreach⟩)
        (mem_map_functions.mpr ⟨_, _, hbody, rfl, rfl⟩)
    · exact .cycle ((map_reflTransGen_iff hg).mpr ⟨_, rfl, hreach⟩) ((map_transGen_iff hg).mpr hcycle)

theorem map_isSummary_iff {e : SideEffects} : (a.map g).IsSummary (g f) e ↔ a.IsSummary f e := by
  rw [IsSummary, IsSummary]
  simp only [map_adds_iff hg]

theorem map_isSummaryOf_iff {acts : List (Act φ)} {e : SideEffects} :
    (a.map g).IsSummaryOf (acts.map (Act.map g)) e ↔ a.IsSummaryOf acts e := by
  rw [IsSummaryOf, IsSummaryOf]
  simp only [effectsOf_map, calleesOf_map, List.mem_map, exists_exists_and_eq_and,
    map_isSummary_iff hg]

theorem map_isSummaryOfAll_iff {e : SideEffects} :
    (a.map g).IsSummaryOfAll e ↔ a.IsSummaryOfAll e := by
  have hfunctions : (a.map g).functions.map (·.1) = (a.functions.map (·.1)).map g := by
    simp [map]
  rw [IsSummaryOfAll, IsSummaryOfAll, hfunctions, map_acts]
  simp only [map_isSummaryOf_iff hg, List.mem_map (f := g), exists_exists_and_eq_and,
    map_isSummary_iff hg]

end Rename

end Account

/-! ## The call graph of an account -/

namespace CallGraph

theorem record_of_not_mem {g : CallGraph} {f : FunctionId} (h : f ∉ g.functions) (facts : Facts) :
    g.record f facts = ⟨g.facts ++ [(f, Facts.none.join facts)]⟩ := by
  rw [record, if_neg (by simpa using h)]

theorem facts_foldl_record {entries : List (FunctionId × Facts)} {g : CallGraph}
    (hdistinct : (g.functions ++ entries.map (·.1)).Nodup) :
    (entries.foldl (fun g (f, facts) => g.record f facts) g).facts =
      g.facts ++ entries.map fun (f, facts) => (f, Facts.none.join facts) := by
  induction entries generalizing g with
  | nil => exact (List.append_nil _).symm
  | cons entry entries ih =>
    obtain ⟨f, facts⟩ := entry
    rw [List.map_cons, List.append_cons] at hdistinct
    have hnew : f ∉ g.functions := by
      have hfirst := (List.nodup_append.mp hdistinct).1
      exact fun hmem => (List.nodup_append.mp hfirst).2.2 f hmem f List.mem_cons_self rfl
    have hfunctions : (g.record f facts).functions = g.functions ++ [f] := by
      rw [record_of_not_mem hnew, functions, List.map_append]
      rfl
    rw [← hfunctions] at hdistinct
    rw [List.foldl_cons, ih hdistinct, record_of_not_mem hnew, List.append_assoc]
    rfl

end CallGraph

namespace Account

variable {a : Account FunctionId} {f h : FunctionId} {acts : List (Act FunctionId)}

/-- The call graph that is collected. -/
def graph (a : Account FunctionId) : CallGraph :=
  (Collector.absorb {} a).functions

theorem graph_facts (hdistinct : (a.functions.map (·.1)).Nodup) :
    a.graph.facts = a.functions.map fun (f, acts) =>
      (f, Facts.none.join (Facts.none.join (.ofActs acts))) := by
  have hentries : a.graph = (a.functions.map fun (f, acts) =>
      (f, Facts.none.join (.ofActs acts))).foldl (fun g (f, facts) => g.record f facts) {} := by
    rw [List.foldl_map]
    rfl
  rw [hentries, CallGraph.facts_foldl_record]
  · simp
  · simpa [CallGraph.functions, Function.comp_def] using hdistinct

theorem graph_functions (hdistinct : (a.functions.map (·.1)).Nodup) :
    a.graph.functions = a.functions.map (·.1) := by
  rw [CallGraph.functions, graph_facts hdistinct, List.map_map]
  rfl

theorem factsOf_graph (hdistinct : (a.functions.map (·.1)).Nodup) (hmem : (f, acts) ∈ a.functions) :
    a.graph.factsOf f = Facts.none.join (Facts.none.join (.ofActs acts)) := by
  have hkeys : a.graph.functions.Nodup := (graph_functions hdistinct).symm ▸ hdistinct
  have hfacts : (f, Facts.none.join (Facts.none.join (.ofActs acts))) ∈ a.graph.facts := by
    rw [graph_facts hdistinct]
    exact List.mem_map.mpr ⟨_, hmem, rfl⟩
  rw [CallGraph.factsOf, lookup_of_mem hkeys hfacts, Option.getD_some]

theorem factsOf_graph_of_not_mem (hdistinct : (a.functions.map (·.1)).Nodup)
    (hmem : f ∉ a.functions.map (·.1)) : a.graph.factsOf f = .none := by
  have hkeys : f ∉ a.graph.functions := (graph_functions hdistinct).symm ▸ hmem
  rw [CallGraph.factsOf, lookup_of_not_mem hkeys, Option.getD_none]

theorem effects_factsOf_graph (hdistinct : (a.functions.map (·.1)).Nodup)
    (hmem : (f, acts) ∈ a.functions) : (a.graph.factsOf f).effects = effectsOf acts := by
  rw [factsOf_graph hdistinct hmem]
  change SideEffects.none.join (SideEffects.none.join (Facts.ofActs acts).effects) = _
  rw [SideEffects.none_join, SideEffects.none_join, Facts.effects_ofActs]

theorem graph_calls_iff (hdistinct : (a.functions.map (·.1)).Nodup) :
    a.graph.Calls f h ↔ a.Calls f h := by
  have hcallees {acts : List (Act FunctionId)} (hmem : (f, acts) ∈ a.functions) :
      h ∈ a.graph.callees f ↔ h ∈ calleesOf acts := by
    rw [CallGraph.callees, factsOf_graph hdistinct hmem]
    change h ∈ withFunctions [] (withFunctions [] (Facts.ofActs acts).callees) ↔ _
    simp [mem_withFunctions, Facts.mem_callees_ofActs]
  constructor
  · intro hcall
    have hf := hcall.mem_functions
    rw [graph_functions hdistinct] at hf
    obtain ⟨⟨_, acts⟩, hmem, rfl⟩ := List.mem_map.mp hf
    exact ⟨acts, hmem, (hcallees hmem).mp hcall⟩
  · rintro ⟨acts, hmem, hcall⟩
    exact (hcallees hmem).mpr hcall

/-- The summary of the call graph is what a call may do. -/
theorem isSummary_graph (hdistinct : (a.functions.map (·.1)).Nodup) (f : FunctionId) :
    a.IsSummary f (a.graph.summary a.graph.recursive f) := by
  have hcalls : a.graph.Calls = a.Calls :=
    funext fun f => funext fun h => propext (graph_calls_iff hdistinct)
  have hlub := a.graph.isLUB_summary f
  -- functions without a body add nothing
  have hbounds : upperBounds {e | a.graph.Adds f e} = upperBounds {e | a.Adds f e} := by
    ext b
    constructor
    · rintro hb _ (⟨hreach, hbody⟩ | ⟨hreach, hcycle⟩)
      · rw [← effects_factsOf_graph hdistinct hbody]
        exact hb (.own (hcalls ▸ hreach))
      · exact hb (.cycle (hcalls ▸ hreach) (hcalls ▸ hcycle))
    · rintro hb _ (@⟨h, hreach⟩ | ⟨hreach, hcycle⟩)
      · by_cases hmem : h ∈ a.functions.map (·.1)
        · obtain ⟨⟨_, acts⟩, hbody, rfl⟩ := List.mem_map.mp hmem
          rw [effects_factsOf_graph hdistinct hbody]
          exact hb (.own (hcalls ▸ hreach) hbody)
        · rw [factsOf_graph_of_not_mem hdistinct hmem]
          exact SideEffects.none_le b
      · exact hb (.cycle (hcalls ▸ hreach) (hcalls ▸ hcycle))
  rw [IsSummary, IsLUB, ← hbounds]
  exact hlub

/-! ## What is collected -/

/-- The summary that is looked up for a function. -/
def summaryOf (a : Account FunctionId) (f : FunctionId) : SideEffects :=
  (a.graph.summaries.lookup f).getD .none

theorem summaries_graph (hdistinct : (a.functions.map (·.1)).Nodup) :
    a.graph.summaries =
      a.functions.map fun (f, _) => (f, a.graph.summary a.graph.recursive f) := by
  rw [CallGraph.summaries, graph_functions hdistinct, List.map_map]
  rfl

theorem Calls.mem_functions (hcall : a.Calls f h) : f ∈ a.functions.map (·.1) := by
  obtain ⟨acts, hmem, -⟩ := hcall
  exact List.mem_map.mpr ⟨_, hmem, rfl⟩

theorem summaryOf_of_mem (hdistinct : (a.functions.map (·.1)).Nodup)
    (hmem : f ∈ a.functions.map (·.1)) :
    a.summaryOf f = a.graph.summary a.graph.recursive f := by
  have hkeys : (a.graph.summaries.map (·.1)).Nodup := by
    rwa [summaries_graph hdistinct, List.map_map]
  have hentry : (f, a.graph.summary a.graph.recursive f) ∈ a.graph.summaries := by
    obtain ⟨body, hbody, rfl⟩ := List.mem_map.mp hmem
    rw [summaries_graph hdistinct]
    exact List.mem_map.mpr ⟨body, hbody, rfl⟩
  rw [summaryOf, lookup_of_mem hkeys hentry, Option.getD_some]

theorem summaryOf_of_not_mem (hdistinct : (a.functions.map (·.1)).Nodup)
    (hmem : f ∉ a.functions.map (·.1)) : a.summaryOf f = .none := by
  have hkeys : f ∉ a.graph.summaries.map (·.1) := by
    rwa [summaries_graph hdistinct, List.map_map]
  rw [summaryOf, lookup_of_not_mem hkeys, Option.getD_none]

theorem isSummary_summaryOf (hdistinct : (a.functions.map (·.1)).Nodup) (f : FunctionId) :
    a.IsSummary f (a.summaryOf f) := by
  by_cases hmem : f ∈ a.functions.map (·.1)
  · rw [summaryOf_of_mem hdistinct hmem]
    exact isSummary_graph hdistinct f
  · rw [summaryOf_of_not_mem hdistinct hmem]
    -- a function without a body calls none
    have hnone (e : SideEffects) : ¬a.Adds f e := by
      rintro (⟨hreach, hbody⟩ | ⟨hreach, hcycle⟩)
      · rcases ReflTransGen.cases_head hreach with rfl | ⟨_, hcall, -⟩
        · exact hmem (List.mem_map.mpr ⟨_, hbody, rfl⟩)
        · exact hmem hcall.mem_functions
      · obtain ⟨_, hcall, -⟩ := TransGen.head'_iff.mp (TransGen.trans_right hreach hcycle)
        exact hmem hcall.mem_functions
    exact ⟨fun e he => absurd he (hnone e), fun b _ => SideEffects.none_le b⟩

theorem total_summarize (a : Account FunctionId) :
    (Collector.absorb {} a).summarize.total = a.total ⊔ .all (a.graph.summaries.map (·.2)) := by
  change a.graph.summaries.foldl (fun e entry => e.join entry.2) (SideEffects.none.join a.total) = _
  rw [SideEffects.none_join, SideEffects.foldl_join_map]

theorem isSummary_iff (hdistinct : (a.functions.map (·.1)).Nodup) {e : SideEffects} :
    a.IsSummary f e ↔ e = a.summaryOf f :=
  ⟨fun h => h.unique (isSummary_summaryOf hdistinct f),
    fun h => h ▸ isSummary_summaryOf hdistinct f⟩

theorem summarize_functions (hdistinct : (a.functions.map (·.1)).Nodup) :
    List.Forall₂ (fun body summary => summary.1 = body.1 ∧ a.IsSummary body.1 summary.2)
      a.functions (Collector.absorb {} a).summarize.functions := by
  change List.Forall₂ _ _ a.graph.summaries
  rw [summaries_graph hdistinct, List.forall₂_map_right_iff, List.forall₂_same]
  exact fun body _ => ⟨rfl, isSummary_graph hdistinct body.1⟩

theorem isSummaryOf_foldl (hdistinct : (a.functions.map (·.1)).Nodup)
    (acts : List (Act FunctionId)) (callees : List FunctionId)
    (hcallees : ∀ f, f ∈ callees ↔ f ∈ calleesOf acts) :
    a.IsSummaryOf acts (callees.foldl (fun e f => e.join (a.summaryOf f)) (effectsOf acts)) := by
  have hset : {e | ∃ f ∈ calleesOf acts, a.IsSummary f e} = {e | e ∈ callees.map a.summaryOf} := by
    ext e
    simp [isSummary_iff hdistinct, hcallees, eq_comm]
  rw [IsSummaryOf, SideEffects.foldl_join_map, hset]
  exact isLUB_singleton.union (SideEffects.isLUB_all _)

theorem summarize_blocks (hdistinct : (a.functions.map (·.1)).Nodup) :
    List.Forall₂ (fun block summary => summary.1 = block.1 ∧ a.IsSummaryOf block.2 summary.2)
      a.blocks (Collector.absorb {} a).summarize.blocks := by
  rw [Collector.summarize]
  dsimp only
  rw [Collector.reverse_blocks_absorb, List.map_map, List.forall₂_map_right_iff, List.forall₂_same]
  refine fun block _ => ⟨rfl, ?_⟩
  have hsummary := isSummaryOf_foldl hdistinct block.2
    (Facts.none.join (.ofActs block.2)).callees fun _ => Facts.mem_callees_none_join_ofActs
  rw [← Facts.effects_none_join_ofActs] at hsummary
  exact hsummary

theorem summarize_total (hdistinct : (a.functions.map (·.1)).Nodup) :
    a.IsSummaryOfAll (Collector.absorb {} a).summarize.total := by
  have hsummaries : a.graph.summaries = a.functions.map fun body => (body.1, a.summaryOf body.1) := by
    rw [summaries_graph hdistinct]
    refine List.map_congr_left fun body hbody => Prod.ext rfl ?_
    exact (summaryOf_of_mem hdistinct (List.mem_map.mpr ⟨body, hbody, rfl⟩)).symm
  have htotal : (Collector.absorb {} a).summarize.total =
      a.total ⊔ .all (a.functions.map fun body => a.summaryOf body.1) := by
    rw [total_summarize, hsummaries, List.map_map]
    rfl
  have hcode := isSummaryOf_foldl hdistinct a.acts (calleesOf a.acts) fun _ => Iff.rfl
  rw [IsSummaryOfAll, isLUB_iff_le_iff, htotal]
  intro b
  rw [sup_le_iff, total, SideEffects.join_eq_sup, sup_le_iff, SideEffects.all_le_iff,
    SideEffects.all_le_iff, List.forall_mem_map, List.forall_mem_map]
  constructor
  · rintro ⟨⟨hacts, -⟩, hfunctions⟩ e (he | ⟨f, hf, he⟩)
    · refine he.2 ?_
      rintro _ (rfl | ⟨f, -, hf⟩)
      · exact hacts
      · obtain rfl := (isSummary_iff hdistinct).mp hf
        by_cases hmem : f ∈ a.functions.map (·.1)
        · obtain ⟨body, hbody, rfl⟩ := List.mem_map.mp hmem
          exact hfunctions body hbody
        · rw [summaryOf_of_not_mem hdistinct hmem]
          exact SideEffects.none_le b
    · obtain rfl := (isSummary_iff hdistinct).mp he
      obtain ⟨body, hbody, rfl⟩ := List.mem_map.mp hf
      exact hfunctions body hbody
  · intro hb
    have hfunctions (body : FunctionId × List (Act FunctionId)) (hbody : body ∈ a.functions) :
        a.summaryOf body.1 ≤ b :=
      hb (.inr ⟨_, List.mem_map.mpr ⟨body, hbody, rfl⟩, isSummary_summaryOf hdistinct _⟩)
    refine ⟨⟨(hcode.1 (.inl rfl)).trans (hb (.inl hcode)), fun body hbody => ?_⟩, hfunctions⟩
    exact ((isSummary_summaryOf hdistinct body.1).1 (.own .refl hbody)).trans (hfunctions body hbody)

end Account

end Yul
