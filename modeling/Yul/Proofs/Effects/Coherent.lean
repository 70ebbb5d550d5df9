import Yul.Proofs.Effects.Exact
import Yul.Proofs.Parallel.Objects
import Yul.Proofs.Places.Events

/-!
# Summaries that fit together

The parts of a summary are joined one by one, but they are not independent: what may be evaluated at
any other point must not touch any state, what writes must stay, and so on. `SideEffects.Coherent`
lists these rules. They hold of every builtin and of a loop, a join keeps them
(`SideEffects.Coherent.join`), and each step of a collector does (`Collector.Coherent.step`), so
whatever an analysis says about effects is coherent, of correct code or not (`effects_coherent`).
-/

namespace Yul

/-! ## Coherent summaries -/

/-- The parts of a summary fit together. -/
structure SideEffects.Coherent (e : SideEffects) : Prop where
  movable : e.movable = true → e.movableApartFromEffects = true
  removable : e.canBeRemoved = true → e.canBeRemovedIfNoMsize = true
  /-- code that touches state stays where it is -/
  touching : ∀ l, e.effectOn l ≠ .none → e.movable = false
  /-- code that changes state is not dropped -/
  writing : ∀ l, e.effectOn l = .write → e.canBeRemovedIfNoMsize = false
  /-- code that touches memory may enlarge it, which its size shows -/
  memory : e.memory ≠ .none → e.canBeRemoved = false
  looping : e.cannotLoop = false → e.movable = false ∧ e.canBeRemovedIfNoMsize = false

theorem Location.forall_iff {P : Location → Prop} :
    (∀ l, P l) ↔ P .storage ∧ P .transientStorage ∧ P .memory ∧ P .otherState := by
  refine ⟨fun h => ⟨h _, h _, h _, h _⟩, fun ⟨hs, ht, hm, ho⟩ l => ?_⟩
  cases l <;> assumption

instance {P : Location → Prop} [DecidablePred P] : Decidable (∀ l, P l) :=
  decidable_of_iff' _ Location.forall_iff

namespace SideEffects

theorem coherent_iff (e : SideEffects) : e.Coherent ↔
    (e.movable = true → e.movableApartFromEffects = true) ∧
      (e.canBeRemoved = true → e.canBeRemovedIfNoMsize = true) ∧
      (∀ l, e.effectOn l ≠ .none → e.movable = false) ∧
      (∀ l, e.effectOn l = .write → e.canBeRemovedIfNoMsize = false) ∧
      (e.memory ≠ .none → e.canBeRemoved = false) ∧
      (e.cannotLoop = false → e.movable = false ∧ e.canBeRemovedIfNoMsize = false) :=
  ⟨fun ⟨h₁, h₂, h₃, h₄, h₅, h₆⟩ => ⟨h₁, h₂, h₃, h₄, h₅, h₆⟩,
    fun ⟨h₁, h₂, h₃, h₄, h₅, h₆⟩ => ⟨h₁, h₂, h₃, h₄, h₅, h₆⟩⟩

instance (e : SideEffects) : Decidable e.Coherent :=
  decidable_of_iff' _ e.coherent_iff

theorem coherent_none : none.Coherent := by decide

theorem coherent_looping : looping.Coherent := by decide

end SideEffects

theorem Builtin.coherent_of_mem_table : ∀ b ∈ table, b.effects.Coherent := by
  decide +kernel

theorem Effect.join_eq_none_iff {a b : Effect} : a.join b = .none ↔ a = .none ∧ b = .none := by
  cases a <;> cases b <;> decide

theorem Effect.join_eq_write_iff {a b : Effect} : a.join b = .write ↔ a = .write ∨ b = .write := by
  cases a <;> cases b <;> decide

theorem SideEffects.effectOn_join (a b : SideEffects) (l : Location) :
    (a.join b).effectOn l = (a.effectOn l).join (b.effectOn l) := by
  cases l <;> rfl

namespace SideEffects.Coherent

variable {a b : SideEffects}

theorem join (ha : a.Coherent) (hb : b.Coherent) : (a.join b).Coherent where
  movable h := by
    obtain ⟨hma, hmb⟩ := Bool.and_eq_true_iff.mp h
    exact Bool.and_eq_true_iff.mpr ⟨ha.movable hma, hb.movable hmb⟩
  removable h := by
    obtain ⟨hra, hrb⟩ := Bool.and_eq_true_iff.mp h
    exact Bool.and_eq_true_iff.mpr ⟨ha.removable hra, hb.removable hrb⟩
  touching l h := by
    rw [effectOn_join, Ne, Effect.join_eq_none_iff, not_and_or] at h
    exact Bool.and_eq_false_iff.mpr (h.imp (ha.touching l) (hb.touching l))
  writing l h := by
    rw [effectOn_join, Effect.join_eq_write_iff] at h
    exact Bool.and_eq_false_iff.mpr (h.imp (ha.writing l) (hb.writing l))
  memory h := by
    change ¬a.memory.join b.memory = .none at h
    rw [Effect.join_eq_none_iff, not_and_or] at h
    exact Bool.and_eq_false_iff.mpr (h.imp ha.memory hb.memory)
  looping h := by
    rcases Bool.and_eq_false_iff.mp h with h | h
    · obtain ⟨hm, hr⟩ := ha.looping h
      exact ⟨Bool.and_eq_false_iff.mpr (.inl hm), Bool.and_eq_false_iff.mpr (.inl hr)⟩
    · obtain ⟨hm, hr⟩ := hb.looping h
      exact ⟨Bool.and_eq_false_iff.mpr (.inr hm), Bool.and_eq_false_iff.mpr (.inr hr)⟩

theorem foldl {α : Type} {f : α → SideEffects} {xs : List α} (ha : a.Coherent)
    (hf : ∀ x ∈ xs, (f x).Coherent) : (xs.foldl (fun e x => e.join (f x)) a).Coherent := by
  induction xs generalizing a with
  | nil => exact ha
  | cons x xs ih =>
    rw [List.forall_mem_cons] at hf
    exact ih (ha.join hf.1) hf.2

end SideEffects.Coherent

theorem coherent_getD {o : Option SideEffects} (h : ∀ e, o = some e → e.Coherent) :
    (o.getD .none).Coherent := by
  cases o with
  | none => exact SideEffects.coherent_none
  | some e => exact h e rfl

theorem mem_of_lookup {α β : Type} [BEq α] [LawfulBEq α] {entries : List (α × β)} {k : α} {v : β}
    (h : entries.lookup k = some v) : (k, v) ∈ entries := by
  obtain ⟨before, after, rfl, -⟩ := List.lookup_eq_some_iff.mp h
  exact List.mem_append_right _ List.mem_cons_self

/-! ## Facts of functions -/

namespace CallGraph

/-- What the functions of a call graph do themselves is coherent. -/
def Coherent (g : CallGraph) : Prop :=
  ∀ entry ∈ g.facts, entry.2.effects.Coherent

namespace Coherent

variable {g : CallGraph} (h : g.Coherent)

include h

theorem record {facts : Facts} (hfacts : facts.effects.Coherent) (f : FunctionId) :
    (g.record f facts).Coherent := by
  rw [CallGraph.record]
  split
  · refine List.forall_mem_map.mpr fun entry hentry => ?_
    dsimp only
    split
    · exact (h entry hentry).join hfacts
    · exact h entry hentry
  · refine List.forall_mem_append.mpr ⟨h, List.forall_mem_singleton.mpr ?_⟩
    exact SideEffects.coherent_none.join hfacts

theorem factsOf (f : FunctionId) : (g.factsOf f).effects.Coherent := by
  rw [CallGraph.factsOf]
  cases hlookup : g.facts.lookup f with
  | none => exact SideEffects.coherent_none
  | some facts => exact h _ (mem_of_lookup hlookup)

/-- A summary is coherent, also that of a function that reaches itself. -/
theorem summary (recursive : List FunctionId) (f : FunctionId) :
    (g.summary recursive f).Coherent := by
  have hfacts : ∀ k ∈ f :: g.reachable f, (g.factsOf k).effects.Coherent := fun k _ => h.factsOf k
  have hown := SideEffects.coherent_none.foldl hfacts
  rw [CallGraph.summary]
  split
  · exact hown.join SideEffects.coherent_looping
  · exact hown

theorem summaries : ∀ entry ∈ g.summaries, entry.2.Coherent :=
  List.forall_mem_map.mpr fun f _ => h.summary g.recursive f

end Coherent

end CallGraph

/-! ## Collecting -/

/-- What is gathered in a summary of code is coherent. -/
structure EffectSummary.Coherent (s : EffectSummary) : Prop where
  blocks : ∀ entry ∈ s.blocks, entry.2.Coherent
  functions : ∀ entry ∈ s.functions, entry.2.Coherent
  total : s.total.Coherent

namespace Collector

/-- What has been gathered so far is coherent. -/
structure Coherent (c : Collector) : Prop where
  frames : ∀ frame ∈ c.frames, frame.facts.effects.Coherent
  blocks : ∀ entry ∈ c.blocks, entry.2.effects.Coherent
  functions : c.functions.Coherent
  total : c.total.Coherent

theorem coherent_first : Coherent {} :=
  ⟨List.forall_mem_nil _, List.forall_mem_nil _, List.forall_mem_nil _, SideEffects.coherent_none⟩

/-- Whether the effects that a step adds are coherent. -/
def Step.IsCoherent (s : Step) : Prop :=
  ∀ e, s = .add e → e.Coherent

namespace Coherent

variable {c c' : Collector}

theorem push (h : c.Coherent) (owner : FrameOwner) : (c.push owner).Coherent :=
  { h with frames := List.forall_mem_cons.mpr ⟨SideEffects.coherent_none, h.frames⟩ }

theorem gather (h : c.Coherent) {facts : Facts} (hfacts : facts.effects.Coherent) :
    (c.gather facts).Coherent := by
  rw [Collector.gather]
  split
  · exact h
  · next frame outer hframes =>
    obtain ⟨hframe, houter⟩ := List.forall_mem_cons.mp (hframes ▸ h.frames)
    exact { h with frames := List.forall_mem_cons.mpr ⟨hframe.join hfacts, houter⟩ }

theorem pop (h : c.Coherent) {owner : FrameOwner} {facts : Facts}
    (hpop : c.pop owner = .ok (facts, c')) : facts.effects.Coherent ∧ c'.Coherent := by
  rw [Collector.pop] at hpop
  split at hpop
  · cases hpop
  · next frame outer hframes =>
    obtain ⟨hframe, houter⟩ := List.forall_mem_cons.mp (hframes ▸ h.frames)
    split at hpop
    · obtain ⟨rfl, rfl⟩ := Prod.mk.inj (Except.ok.inj hpop)
      exact ⟨hframe, { h with frames := houter }⟩
    · cases hpop

/-- A step that adds coherent effects keeps everything coherent. -/
theorem step (h : c.Coherent) {s : Step} (hs : s.IsCoherent) (hstep : c.step s = .ok c') :
    c'.Coherent := by
  cases s with
  | enterBlock id => exact Except.ok.inj hstep ▸ h.push _
  | exitBlock id =>
    obtain ⟨⟨facts, c₁⟩, hpop, hrest⟩ := eq_ok_of_bind hstep
    obtain ⟨hfacts, h₁⟩ := h.pop hpop
    have h₂ := h₁.gather hfacts
    exact Except.ok.inj hrest ▸ { h₂ with blocks := List.forall_mem_cons.mpr ⟨hfacts, h₂.blocks⟩ }
  | enterFunction f => exact Except.ok.inj hstep ▸ h.push _
  | exitFunction f =>
    obtain ⟨⟨facts, c₁⟩, hpop, hrest⟩ := eq_ok_of_bind hstep
    obtain ⟨hfacts, h₁⟩ := h.pop hpop
    exact Except.ok.inj hrest ▸ { h₁ with functions := h₁.functions.record hfacts f }
  | add e =>
    have he := hs e rfl
    have h₁ : Coherent { c with total := c.total.join e } := { h with total := h.total.join he }
    exact Except.ok.inj hstep ▸ h₁.gather he
  | call f => exact Except.ok.inj hstep ▸ h.gather SideEffects.coherent_none

theorem run (h : c.Coherent) {steps : List Step} (hsteps : ∀ s ∈ steps, s.IsCoherent)
    (hrun : c.run steps = .ok c') : c'.Coherent := by
  induction steps generalizing c with
  | nil => exact Except.ok.inj hrun ▸ h
  | cons s steps ih =>
    rw [List.forall_mem_cons] at hsteps
    obtain ⟨c₁, hstep, hrest⟩ := eq_ok_of_bind hrun
    exact ih (h.step hsteps.1 hstep) hsteps.2 hrest

theorem summarize (h : c.Coherent) : c.summarize.Coherent := by
  have hfunctions := h.functions.summaries
  refine ⟨List.forall_mem_map.mpr fun entry hentry => ?_, hfunctions, h.total.foldl hfunctions⟩
  have hown := h.blocks entry (List.mem_reverse.mp hentry)
  exact hown.foldl fun f _ => coherent_getD fun e he => hfunctions _ (mem_of_lookup he)

end Coherent

end Collector

/-! ## Records and analyses -/

/-- What a record says about effects is coherent. -/
structure Record.Coherent (r : Record) : Prop where
  blocks : ∀ (id : BlockId) (e : SideEffects), r.blockEffects[id]? = some e → e.Coherent
  functions : ∀ (f : FunctionId) (e : SideEffects), r.functionEffects[f]? = some e → e.Coherent
  total : r.sideEffects.Coherent

theorem Record.coherent_new : Coherent {} :=
  ⟨fun _ _ h => by simp at h, fun _ _ h => by simp at h, SideEffects.coherent_none⟩

theorem mem_or_of_foldl_insert {α β : Type} {cmp : α → α → Ordering} [Std.TransCmp cmp]
    [Std.LawfulEqCmp cmp] {entries : List (α × β)} {m : Std.TreeMap α β cmp} {k : α} {v : β}
    (h : (entries.foldl (fun m (k, v) => m.insert k v) m)[k]? = some v) :
    (k, v) ∈ entries ∨ m[k]? = some v := by
  induction entries generalizing m with
  | nil => exact .inr h
  | cons entry entries ih =>
    rcases ih h with hmem | hbefore
    · exact .inl (List.mem_cons_of_mem _ hmem)
    · rw [Std.TreeMap.getElem?_insert] at hbefore
      split at hbefore
      · next heq =>
        obtain rfl := Option.some.inj hbefore
        obtain rfl := Std.LawfulEqCmp.eq_of_compare heq
        exact .inl List.mem_cons_self
      · exact .inr hbefore

theorem Record.Coherent.addEffects {r : Record} (h : r.Coherent) {s : EffectSummary}
    (hs : s.Coherent) : (r.addEffects s).Coherent where
  blocks _ _ he := (mem_or_of_foldl_insert he).elim (hs.blocks _) (h.blocks _ _)
  functions _ _ he := (mem_or_of_foldl_insert he).elim (hs.functions _) (h.functions _ _)
  total := h.total.join hs.total

/-- What an analysis says about effects is coherent. -/
structure Analysis.Coherent (a : Analysis) : Prop where
  record : a.record.Coherent
  sideEffects : a.sideEffects.Coherent

/-- The effects that a run notes are coherent. -/
theorem collectorSteps_coherent (cfg : Setting) (record : Record) (b : Block) :
    ∀ s ∈ (runBlock cfg record b).collectorSteps, s.IsCoherent := by
  rintro s hs e rfl
  obtain ⟨event, hevent, hstep⟩ := List.mem_filterMap.mp hs
  have hstems := runBlock_stems cfg record b event (List.mem_reverse.mp hevent)
  cases event with
  | effects e' =>
    obtain rfl := Collector.Step.add.inj (Option.some.inj hstep)
    rcases hstems with rfl | ⟨builtin, hbuiltin, rfl⟩
    · exact SideEffects.coherent_looping
    · exact Builtin.coherent_of_mem_table builtin hbuiltin
  | enterBlock | exitBlock | openParameters | enterFunction | exitFunction | look | declare | call |
    ask | report => exact nomatch hstep

theorem analyze_coherent (cfg : Setting) {record : Record} (h : record.Coherent) (b : Block) :
    (analyze cfg record b).Coherent := by
  have hrecord : (runBlock cfg record b).record.Coherent := by
    obtain ⟨hblocks, hfunctions, htotal⟩ := (runBlock_reaches cfg record b).effects
    exact ⟨hblocks ▸ h.blocks, hfunctions ▸ h.functions, htotal ▸ h.total⟩
  have hsteps := collectorSteps_coherent cfg record b
  rw [analyze, Analysis.ofRun]
  dsimp only
  split
  · exact ⟨hrecord, SideEffects.coherent_none⟩
  · split
    · exact ⟨hrecord, SideEffects.coherent_none⟩
    · next collector hrun =>
      have hsummary := (Collector.coherent_first.run hsteps hrun).summarize
      exact ⟨hrecord.addEffects hsummary, hsummary.total⟩

theorem analyzeAll_coherent (cfg : Setting) {record : Record} (h : record.Coherent)
    (bs : List Block) : ∀ a ∈ analyzeAll cfg record bs, a.Coherent := by
  induction bs generalizing record with
  | nil => exact List.forall_mem_nil _
  | cons b bs ih =>
    have hfirst := analyze_coherent cfg h b
    refine List.forall_mem_cons.mpr ⟨hfirst, ?_⟩
    split
    · exact List.forall_mem_nil _
    · exact ih hfirst.record

/-- Whatever is analyzed, correct or not, what is said about the effects of its blocks, of its
functions and of all of it is coherent: in a record that was coherent before, in a record that
serves one analysis after the other, and for each object of a source. -/
theorem effects_coherent :
    (∀ (cfg : Setting) (record : Record) (b : Block),
      record.Coherent → (analyze cfg record b).Coherent) ∧
      (∀ (cfg : Setting) (bs : List Block), ∀ a ∈ analyzeAll cfg {} bs, a.Coherent) ∧
      ∀ (s : Settings) (source : String) (outcome : Outcome),
        s.analyzeSource source = .ok outcome → ∀ o ∈ outcome.objects, o.analysis.Coherent := by
  refine ⟨fun cfg record b h => analyze_coherent cfg h b,
    fun cfg bs => analyzeAll_coherent cfg Record.coherent_new bs, fun s source outcome h => ?_⟩
  obtain ⟨object, names, -, rfl⟩ := s.eq_objectwise_of_analyzeSource h
  exact List.forall_mem_map.mpr fun located _ =>
    analyze_coherent (s.forObject located.2) Record.coherent_new located.2.code

/-- One object of this source asks for a base fee that its version does not have. -/
theorem nested_coherent :
    ∃ outcome,
      Settings.analyzeSource { dialect := { version := .istanbul } } nestedSource = .ok outcome ∧
      outcome.objects.map (·.succeeded) = [true, false] ∧
      ∀ o ∈ outcome.objects, o.analysis.Coherent := by
  let s : Settings := { dialect := { version := .istanbul } }
  obtain ⟨names, hparse⟩ := nested_parses (.ofDialect s.dialect)
  have hanalyze := s.analyzeSource_eq hparse
  have hsucceeded : ((nested.located "").map s.alone).map (·.succeeded) = [true, false] := by
    decide +kernel
  exact ⟨_, hanalyze, hsucceeded, effects_coherent.2.2 _ _ _ hanalyze⟩

end Yul
