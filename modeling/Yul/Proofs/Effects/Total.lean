import Yul.Proofs.Effects.Summary

/-!
# The total of an account

`Collector.summarize` also tells a total: what all of the code may do, whatever it calls. The total
is the worst of what is done anywhere, and looping if functions call each other in a circle
(`isLUB_total`). It depends neither on the order in which things are done nor on how often, and a
function may have one body or several: accounts of the same acts in the same functions have the same
total (`SameActs.involves_iff`).
-/

namespace Yul

open Relation (TransGen ReflTransGen)

/-! ## Functions that are recorded more than once -/

namespace CallGraph

theorem lookup_changed (entries : List (FunctionId × Facts)) (f h : FunctionId)
    (change : Facts → Facts) :
    (entries.map fun (k, old) => if k = f then (k, change old) else (k, old)).lookup h =
      (entries.lookup h).map fun old => if h = f then change old else old := by
  induction entries with
  | nil => rfl
  | cons entry entries ih =>
    obtain ⟨k, old⟩ := entry
    rw [List.map_cons]
    dsimp only
    by_cases hk : h = k
    · subst hk
      by_cases hf : h = f <;> simp [hf]
    · have hne : (h == k) = false := beq_false_of_ne hk
      by_cases hf : k = f
      · rw [if_pos hf, List.lookup_cons, List.lookup_cons, hne]
        exact ih
      · rw [if_neg hf, List.lookup_cons, List.lookup_cons, hne]
        exact ih

theorem factsOf_record (g : CallGraph) (f h : FunctionId) (facts : Facts) :
    (g.record f facts).factsOf h = if h = f then (g.factsOf h).join facts else g.factsOf h := by
  by_cases hmem : f ∈ g.functions
  · rw [record, if_pos (List.contains_iff_mem.mpr hmem)]
    show ((g.facts.map fun (k, old) => if k = f then (k, old.join facts) else (k, old)).lookup h).getD
      .none = _
    rw [lookup_changed g.facts f h (·.join facts), factsOf]
    cases hfound : g.facts.lookup h with
    | some old =>
      by_cases hh : h = f <;> simp [hh]
    | none =>
      have hne : h ≠ f := by
        rintro rfl
        obtain ⟨entry, hentry, rfl⟩ := List.mem_map.mp hmem
        simpa using List.lookup_eq_none_iff.mp hfound entry hentry
      rw [if_neg hne]
      rfl
  · rw [record_of_not_mem hmem, factsOf, factsOf, List.lookup_append]
    by_cases hh : h = f
    · subst hh
      rw [lookup_of_not_mem hmem, if_pos rfl, Option.none_or, List.lookup_cons_self]
      rfl
    · rw [if_neg hh, List.lookup_cons, beq_false_of_ne hh, List.lookup_nil, Option.or_none]

theorem mem_callees_record {g : CallGraph} {f h k : FunctionId} {facts : Facts} :
    k ∈ (g.record f facts).callees h ↔ k ∈ g.callees h ∨ f = h ∧ k ∈ facts.callees := by
  rw [callees, factsOf_record]
  by_cases hh : h = f
  · rw [if_pos hh, Facts.join, mem_withFunctions, or_comm]
    simp only [callees, hh, true_and]
  · rw [if_neg hh, callees]
    simp only [Ne.symm hh, false_and, or_false]

theorem effects_record_le_iff {g : CallGraph} {f h : FunctionId} {facts : Facts} {b : SideEffects} :
    ((g.record f facts).factsOf h).effects ≤ b ↔
      (g.factsOf h).effects ≤ b ∧ (f = h → facts.effects ≤ b) := by
  rw [factsOf_record]
  by_cases hh : h = f
  · rw [if_pos hh, Facts.join, SideEffects.join_eq_sup, sup_le_iff]
    simp only [hh, forall_const]
  · rw [if_neg hh]
    simp only [Ne.symm hh, false_implies, and_true]

section Fold

variable {entries : List (FunctionId × Facts)} {g : CallGraph} {h k : FunctionId} {b : SideEffects}

theorem mem_callees_foldl :
    k ∈ (entries.foldl (fun g (f, facts) => g.record f facts) g).callees h ↔
      k ∈ g.callees h ∨ ∃ facts, (h, facts) ∈ entries ∧ k ∈ facts.callees := by
  induction entries generalizing g with
  | nil => simp
  | cons entry entries ih =>
    obtain ⟨f, facts⟩ := entry
    rw [List.foldl_cons, ih, mem_callees_record, or_assoc]
    refine or_congr_right ?_
    constructor
    · rintro (⟨rfl, hk⟩ | ⟨facts', hmem, hk⟩)
      · exact ⟨facts, List.mem_cons_self, hk⟩
      · exact ⟨facts', List.mem_cons_of_mem _ hmem, hk⟩
    · rintro ⟨facts', hmem, hk⟩
      rcases List.mem_cons.mp hmem with heq | hmem
      · obtain ⟨rfl, rfl⟩ := Prod.mk.inj heq
        exact .inl ⟨rfl, hk⟩
      · exact .inr ⟨facts', hmem, hk⟩

theorem effects_foldl_le_iff :
    ((entries.foldl (fun g (f, facts) => g.record f facts) g).factsOf h).effects ≤ b ↔
      (g.factsOf h).effects ≤ b ∧ ∀ facts, (h, facts) ∈ entries → facts.effects ≤ b := by
  induction entries generalizing g with
  | nil => simp
  | cons entry entries ih =>
    obtain ⟨f, facts⟩ := entry
    rw [List.foldl_cons, ih, effects_record_le_iff, and_assoc]
    refine and_congr_right fun _ => ?_
    constructor
    · rintro ⟨hfirst, hrest⟩ facts' hmem
      rcases List.mem_cons.mp hmem with heq | hmem
      · obtain ⟨rfl, rfl⟩ := Prod.mk.inj heq
        exact hfirst rfl
      · exact hrest facts' hmem
    · intro hall
      refine ⟨?_, fun facts' hmem => hall facts' (List.mem_cons_of_mem _ hmem)⟩
      rintro rfl
      exact hall facts List.mem_cons_self

end Fold

end CallGraph

/-! ## The total -/

theorem mem_calleesOf {φ : Type} {acts : List (Act φ)} {f : φ} :
    f ∈ calleesOf acts ↔ .call f ∈ acts := by
  rw [calleesOf, List.mem_filterMap]
  constructor
  · rintro ⟨act, hmem, hact⟩
    cases act with
    | effects e => exact absurd hact (by simp [Act.callee?])
    | call g =>
      obtain rfl := Option.some.inj hact
      exact hmem
  · exact fun hmem => ⟨_, hmem, rfl⟩

theorem effectsOf_le_iff {φ : Type} {acts : List (Act φ)} {b : SideEffects} :
    effectsOf acts ≤ b ↔ ∀ e, .effects e ∈ acts → e ≤ b := by
  rw [effectsOf, SideEffects.all_le_iff]
  constructor
  · exact fun hall e he => hall e (List.mem_filterMap.mpr ⟨_, he, rfl⟩)
  · intro hall e he
    obtain ⟨act, hmem, hact⟩ := List.mem_filterMap.mp he
    cases act with
    | effects e' =>
      obtain rfl := Option.some.inj hact
      exact hall _ hmem
    | call f => exact absurd hact (by simp [Act.effects?])

namespace Account

variable {φ ψ : Type}

/-- An act stands in a body of `f`. -/
def InBody (a : Account φ) (f : φ) (act : Act φ) : Prop :=
  ∃ acts, (f, acts) ∈ a.functions ∧ act ∈ acts

theorem calls_iff_inBody {a : Account φ} {f h : φ} : a.Calls f h ↔ a.InBody f (.call h) := by
  simp only [Calls, InBody, mem_calleesOf]

/-- What the total of an account is the worst of. -/
inductive Involves (a : Account φ) : SideEffects → Prop where
  | outside {e : SideEffects} (h : .effects e ∈ a.acts) : Involves a e
  | inBody {f : φ} {e : SideEffects} (h : a.InBody f (.effects e)) : Involves a e
  | circle {f : φ} (h : TransGen a.Calls f f) : Involves a .looping

theorem total_le_iff {a : Account φ} {b : SideEffects} :
    a.total ≤ b ↔ (∀ e, .effects e ∈ a.acts → e ≤ b) ∧
      ∀ f e, a.InBody f (.effects e) → e ≤ b := by
  rw [total, SideEffects.join_eq_sup, sup_le_iff, effectsOf_le_iff, SideEffects.all_le_iff,
    List.forall_mem_map]
  refine and_congr_right fun _ => ?_
  constructor
  · rintro hall f e ⟨acts, hmem, he⟩
    exact effectsOf_le_iff.mp (hall _ hmem) e he
  · exact fun hall body hmem => effectsOf_le_iff.mpr fun e he => hall body.1 e ⟨_, hmem, he⟩

section Graph

variable {a : Account FunctionId} {f h : FunctionId} {b : SideEffects}

theorem graph_eq_foldl (a : Account FunctionId) :
    a.graph = (a.functions.map fun (f, acts) => (f, Facts.none.join (.ofActs acts))).foldl
      (fun g (f, facts) => g.record f facts) {} := by
  rw [List.foldl_map]
  rfl

/-- Functions call each other in the graph as they do in the account. -/
theorem calls_graph_iff : a.graph.Calls f h ↔ a.Calls f h := by
  rw [CallGraph.Calls, graph_eq_foldl, CallGraph.mem_callees_foldl, calls_iff_inBody]
  constructor
  · rintro (hnone | ⟨facts, hmem, hh⟩)
    · exact absurd hnone List.not_mem_nil
    · obtain ⟨body, hbody, heq⟩ := List.mem_map.mp hmem
      obtain ⟨rfl, rfl⟩ := Prod.mk.inj heq
      exact ⟨_, hbody, mem_calleesOf.mp (Facts.mem_callees_none_join_ofActs.mp hh)⟩
  · rintro ⟨acts, hbody, hh⟩
    refine .inr ⟨_, List.mem_map.mpr ⟨_, hbody, rfl⟩, ?_⟩
    exact Facts.mem_callees_none_join_ofActs.mpr (mem_calleesOf.mpr hh)

theorem effects_factsOf_graph_le_iff :
    (a.graph.factsOf f).effects ≤ b ↔ ∀ e, a.InBody f (.effects e) → e ≤ b := by
  have hbody (acts : List (Act FunctionId)) :
      (Facts.none.join (.ofActs acts)).effects ≤ b ↔ ∀ e, .effects e ∈ acts → e ≤ b := by
    rw [Facts.effects_none_join_ofActs, effectsOf_le_iff]
  rw [graph_eq_foldl, CallGraph.effects_foldl_le_iff,
    and_iff_right (show (CallGraph.factsOf {} f).effects ≤ b from SideEffects.none_le b)]
  constructor
  · rintro hall e ⟨acts, hmem, he⟩
    exact (hbody acts).mp (hall _ (List.mem_map.mpr ⟨_, hmem, rfl⟩)) e he
  · intro hall facts hmem
    obtain ⟨body, hentry, heq⟩ := List.mem_map.mp hmem
    obtain ⟨rfl, rfl⟩ := Prod.mk.inj heq
    exact (hbody _).mpr fun e he => hall e ⟨_, hentry, he⟩

/-- The total is the worst of what is done anywhere, and looping if there is a circle of calls. -/
theorem isLUB_total (a : Account FunctionId) :
    IsLUB {e | a.Involves e} (Collector.absorb {} a).summarize.total := by
  have hcalls : a.graph.Calls = a.Calls := by
    funext f h
    exact propext calls_graph_iff
  have htotal : (Collector.absorb {} a).summarize.total =
      a.total ⊔ .all (a.graph.functions.map (a.graph.summary a.graph.recursive)) := by
    rw [total_summarize, CallGraph.summaries, List.map_map]
    rfl
  rw [isLUB_iff_le_iff, htotal]
  intro b
  rw [sup_le_iff, total_le_iff, SideEffects.all_le_iff, List.forall_mem_map]
  constructor
  · rintro ⟨⟨hacts, hbodies⟩, hsummaries⟩ e (hact | hbody | hcircle)
    · exact hacts e hact
    · exact hbodies _ e hbody
    · rw [← hcalls] at hcircle
      obtain ⟨h, hcall, -⟩ := TransGen.head'_iff.mp hcircle
      have hsummary := hsummaries _ hcall.mem_functions
      exact ((a.graph.isLUB_summary _).1 (.cycle .refl hcircle)).trans hsummary
  · intro hb
    refine ⟨⟨fun e he => hb (.outside he), fun f e he => hb (.inBody he)⟩, fun f _ => ?_⟩
    refine (a.graph.isLUB_summary f).2 ?_
    rintro _ (hreach | ⟨hreach, hcycle⟩)
    · exact effects_factsOf_graph_le_iff.mpr fun e he => hb (.inBody he)
    · exact hb (.circle (hcalls ▸ hcycle))

end Graph

/-! ## Accounts of the same acts -/

/-- Two accounts hold the same acts, outside of functions and in each function. -/
structure SameActs (a a' : Account φ) : Prop where
  outside : ∀ act, act ∈ a.acts ↔ act ∈ a'.acts
  inBody : ∀ f act, a.InBody f act ↔ a'.InBody f act

section SameActs

variable {a a' b b' : Account φ} {f : φ} {act : Act φ}

theorem inBody_append : (a.append b).InBody f act ↔ a.InBody f act ∨ b.InBody f act := by
  simp only [InBody, append_functions, List.mem_append, or_and_right, exists_or]

theorem inBody_inFunction {h : φ} :
    (a.inFunction h).InBody f act ↔ a.InBody f act ∨ f = h ∧ act ∈ a.acts := by
  simp only [InBody, inFunction_functions, List.mem_append, List.mem_singleton, Prod.mk.injEq,
    or_and_right, exists_or]
  refine or_congr_right ?_
  constructor
  · rintro ⟨acts, ⟨hf, rfl⟩, hact⟩
    exact ⟨hf, hact⟩
  · exact fun ⟨hf, hact⟩ => ⟨_, ⟨hf, rfl⟩, hact⟩

namespace SameActs

theorem refl (a : Account φ) : a.SameActs a :=
  ⟨fun _ => Iff.rfl, fun _ _ => Iff.rfl⟩

theorem append (h : a.SameActs a') (h' : b.SameActs b') :
    (a.append b).SameActs (a'.append b') where
  outside act := by
    rw [append_acts, append_acts, List.mem_append, List.mem_append]
    exact or_congr (h.outside act) (h'.outside act)
  inBody f act := by
    rw [inBody_append, inBody_append]
    exact or_congr (h.inBody f act) (h'.inBody f act)

theorem append_left (a : Account φ) (h : b.SameActs b') : (a.append b).SameActs (a.append b') :=
  (refl a).append h

theorem append_right (h : a.SameActs a') (b : Account φ) : (a.append b).SameActs (a'.append b) :=
  h.append (refl b)

theorem append_left_comm (a b c : Account φ) :
    (a.append (b.append c)).SameActs (b.append (a.append c)) where
  outside act := by
    simp only [append_acts, List.mem_append]
    exact or_left_comm
  inBody f act := by
    simp only [inBody_append]
    exact or_left_comm

theorem inBlock (h : a.SameActs a') (id : BlockId) : (a.inBlock id).SameActs (a'.inBlock id) :=
  ⟨h.outside, h.inBody⟩

theorem inFunction (h : a.SameActs a') (f : φ) : (a.inFunction f).SameActs (a'.inFunction f) where
  outside _ := Iff.rfl
  inBody g act := by
    rw [inBody_inFunction, inBody_inFunction]
    exact or_congr (h.inBody g act) (and_congr_right fun _ => h.outside act)

theorem involves_iff (h : a.SameActs a') {e : SideEffects} : a.Involves e ↔ a'.Involves e := by
  have hcalls : a.Calls = a'.Calls := by
    funext f g
    rw [eq_iff_iff, calls_iff_inBody, calls_iff_inBody]
    exact h.inBody f _
  constructor
  · rintro (hact | hbody | hcircle)
    · exact .outside ((h.outside _).mp hact)
    · exact .inBody ((h.inBody _ _).mp hbody)
    · exact .circle (hcalls ▸ hcircle)
  · rintro (hact | hbody | hcircle)
    · exact .outside ((h.outside _).mpr hact)
    · exact .inBody ((h.inBody _ _).mpr hbody)
    · exact .circle (hcalls ▸ hcircle)

end SameActs

end SameActs

theorem map_involves_iff {g : φ → ψ} (hg : Function.Injective g) {a : Account φ} {e : SideEffects} :
    (a.map g).Involves e ↔ a.Involves e := by
  have hact (acts : List (Act φ)) : .effects e ∈ acts.map (Act.map g) ↔ .effects e ∈ acts := by
    rw [List.mem_map]
    constructor
    · rintro ⟨act, hmem, hact⟩
      cases act with
      | effects e' =>
        obtain rfl := Act.effects.inj hact
        exact hmem
      | call f => exact absurd hact (by simp [Act.map])
    · exact fun hmem => ⟨_, hmem, rfl⟩
  constructor
  · rintro (hmem | ⟨acts, hmem, he⟩ | hcircle)
    · exact .outside ((hact _).mp hmem)
    · obtain ⟨body, hbody, heq⟩ := List.mem_map.mp hmem
      obtain ⟨rfl, rfl⟩ := Prod.mk.inj heq
      exact .inBody ⟨_, hbody, (hact _).mp he⟩
    · obtain ⟨_, hcall, -⟩ := TransGen.head'_iff.mp hcircle
      obtain ⟨acts, hmem, -⟩ := hcall
      obtain ⟨body, -, heq⟩ := List.mem_map.mp hmem
      obtain ⟨rfl, -⟩ := Prod.mk.inj heq
      exact .circle ((map_transGen_iff hg).mp hcircle)
  · rintro (hmem | ⟨acts, hmem, he⟩ | hcircle)
    · exact .outside ((hact _).mpr hmem)
    · exact .inBody ⟨_, List.mem_map.mpr ⟨_, hmem, rfl⟩, (hact _).mpr he⟩
    · exact .circle ((map_transGen_iff hg).mpr hcircle)

end Account

end Yul
