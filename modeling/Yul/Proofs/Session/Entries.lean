import Yul.Proofs.Effects.Least
import Yul.Proofs.Session.Openings
import Yul.Proofs.Session.Sight

/-!
# What an analysis writes behind its run

Behind its last event a run writes down what blocks, functions and all code may do: one entry for
each block that was visited and each function that was entered (`runBlock_owners`). Functions are
known by the scope that declares them, and a run declares functions only in scopes of its own; so its
entries are new to the record (`runBlock_entries_fresh`).
-/

namespace Yul

/-- The entries that are written behind a run. -/
def Run.entries (r : Run) : List Entry :=
  match r.fault, Collector.run {} r.collectorSteps with
  | none, .ok c => c.summarize.entries
  | _, _ => []

theorem ofRun_record_eq (r : Run) :
    (Analysis.ofRun r).record = r.entries.foldl Record.enter r.record := by
  unfold Analysis.ofRun Run.entries
  dsimp only
  cases r.fault with
  | some f => rfl
  | none =>
    cases Collector.run {} r.collectorSteps with
    | error i => rfl
    | ok c => exact r.record.addEffects_eq c.summarize

theorem EffectSummary.owners_entries (s : EffectSummary) :
    s.entries.filterMap Entry.owner? =
      (s.blocks.map (·.1)).map FrameOwner.block ++
        (s.functions.map (·.1)).map FrameOwner.function := by
  rw [EffectSummary.entries, List.filterMap_append, List.filterMap_append, List.filterMap_map,
    List.filterMap_map, List.map_map, List.map_map, ← List.filterMap_eq_map, ← List.filterMap_eq_map]
  exact List.append_nil _

/-! ## Where functions are declared -/

/-- Every function that has been entered is declared in a scope that is there. -/
def Run.Homed (r : Run) : Prop :=
  ∀ f, .enterFunction f ∈ r.events → f.scope < r.record.scopes.size

theorem Run.size_le_change (r : Run) (e : Event) :
    r.record.scopes.size ≤ (r.change e).record.scopes.size := by
  cases e with
  | enterBlock id parent =>
    exact (Nat.le_succ _).trans_eq (r.record.scopes.size_add parent false).symm
  | openParameters body parent =>
    exact (Nat.le_succ _).trans_eq (r.record.scopes.size_add (some parent) true).symm
  | declare scope name symbol => exact (r.record.scopes.size_declare scope name symbol).ge
  | exitFunction f => rw [change_exitFunction_record]
  | exitBlock | enterFunction | look | effects | call | ask | report => exact Nat.le_refl _

theorem Run.Homed.take {r : Run} (h : r.Homed) {e : Event}
    (he : ∀ f, e = .enterFunction f → f.scope < r.record.scopes.size)
    (hfault : (r.take e).fault = none) : (r.take e).Homed := by
  intro f hf
  rw [Run.take_eq hfault] at hf ⊢
  refine Nat.lt_of_lt_of_le ?_ (r.size_le_change e)
  rw [Run.events, List.mem_reverse, List.mem_cons] at hf
  rcases hf with hf | hf
  · exact he f hf.symm
  · exact h f (List.mem_reverse.mpr hf)

theorem Walk.homed {scope : Nat} {ids : List BlockId} {r r' : Run} (h : Walk scope ids r r')
    (hfault : r'.fault = none) (hready : r.Ready scope) (hr : r.Homed) : r'.Homed := by
  induction h with
  | done => exact hr
  | @quiet scope ids e r r' he next ih =>
    refine ih hfault (hready.quiet he) (hr.take ?_ (next.fault_eq_none hfault))
    rintro f rfl
    exact he.elim
  | declare hfree next ih =>
    exact ih hfault (hready.declare _ _) (hr.take nofun (next.fault_eq_none hfault))
  | @block scope id inner ids r r₁ r' inside next ihInside ihNext =>
    obtain ⟨henter, hr₁, hexit⟩ := inside.bracket_faults next hfault
    have hready₀ := hready.enterBlock_of_fits henter
    have hready₁ := inside.ready hready₀ hr₁
    have hinside := ihInside hr₁ hready₀ (hr.take nofun henter)
    have hscope := Nat.lt_trans hready.scope_lt hready₁.scope_lt
    exact ihNext hfault (hready₁.exitBlock id hscope) (hinside.take nofun hexit)
  | @function scope name body inner ids r r₁ r₂ r' parameters inside next ihParams ihInside ihNext =>
    obtain ⟨henter, hr₂, hexit⟩ := inside.bracket_faults next hfault
    obtain ⟨hopen, hr₁, -⟩ := parameters.bracket_faults inside hr₂
    have hready₀ := hready.openParameters body
    have hready₁ := parameters.ready hready₀ hr₁
    have hparams := ihParams hr₁ hready₀ (hr.take nofun hopen)
    have hscope := Nat.lt_trans hready.scope_lt hready₁.scope_lt
    have hentered := hparams.take (e := .enterFunction ⟨scope, name⟩)
      (fun f hf => Event.enterFunction.inj hf ▸ hscope) henter
    have hready₂ := inside.ready (hready₁.enterFunction ⟨scope, name⟩) hr₂
    have hinside := ihInside hr₂ (hready₁.enterFunction ⟨scope, name⟩) hentered
    exact ihNext hfault
      (hready₂.exitFunction ⟨scope, name⟩ (Nat.lt_trans hready.scope_lt hready₂.scope_lt))
      (hinside.take nofun hexit)

/-! ## Whose entries are written -/

section Root

variable (cfg : Setting) {record : Record} {b : Block}

theorem runBlock_homed (hrecord : (Run.mk record [] [] [] none).Regular)
    (hfault : (runBlock cfg record b).fault = none) : (runBlock cfg record b).Homed := by
  obtain ⟨r, hwalk, hrun⟩ := runBlock_walk cfg record b
  rw [hrun] at hfault ⊢
  have hr := (Run.fits_of_take hfault).1
  have henter := hwalk.fault_eq_none hr
  have hstart : (Run.mk record [] [] [] none).Homed := fun _ hf => absurd hf List.not_mem_nil
  have hbehind := hwalk.homed hr (hrecord.enterFirst_of_fits henter) (hstart.take nofun henter)
  exact hbehind.take nofun hfault

theorem enteredBlocks_runBlock (hfault : (runBlock cfg record b).fault = none) :
    Collector.enteredBlocks (runBlock cfg record b).collectorSteps = b.visited := by
  have hsites : visitedOfSites (b.rootSites cfg.dialect) =
      ((b.rootSites cfg.dialect).map Site.holder).filterMap Holder.block? := by
    rw [List.filterMap_map]
    rfl
  rw [← b.visitedOfSites_rootSites cfg.dialect, hsites, ← runBlock_opened cfg hfault, Run.opened,
    List.filterMap_filterMap, Collector.enteredBlocks, Run.collectorSteps, List.filterMap_filterMap]
  refine List.filterMap_congr fun e _ => ?_
  cases e <;> rfl

theorem runBlock_owners (hfault : (runBlock cfg record b).fault = none) :
    ∃ fs : List FunctionId, fs.Nodup ∧
      (∀ f ∈ fs, .enterFunction f ∈ (runBlock cfg record b).events) ∧
      ((runBlock cfg record b).entries.filterMap Entry.owner?).Perm
        ((b.blocks.map Block.id).map FrameOwner.block ++ fs.map FrameOwner.function) := by
  obtain ⟨a, ha⟩ := runBlock_nested cfg record b hfault
  have hentries : (runBlock cfg record b).entries =
      (Collector.absorb {} a).summarize.entries := by
    rw [Run.entries, hfault, ha.run {}]
  refine ⟨a.graph.functions, a.nodup_graph_functions, fun f hf => ?_, ?_⟩
  · have hstep := ha.mem_functions_iff.mp (a.mem_graph_functions_iff.mp hf)
    obtain ⟨e, he, hf⟩ := List.mem_filterMap.mp hstep
    cases e with
    | enterFunction g =>
      obtain rfl := Collector.Step.enterFunction.inj (Option.some.inj hf)
      exact he
    | _ => exact nomatch hf
  · have hblocks := ha.keys_summarize_blocks
    rw [enteredBlocks_runBlock cfg hfault] at hblocks
    rw [hentries, EffectSummary.owners_entries]
    refine ((hblocks.trans b.visited_perm).map _).append (.of_eq (congrArg _ ?_))
    exact a.keys_summaries

theorem runBlock_effectsOf? (owner : FrameOwner) :
    (runBlock cfg record b).record.effectsOf? owner = record.effectsOf? owner := by
  obtain ⟨hblocks, hfunctions, -⟩ := (runBlock_reaches cfg record b).effects
  cases owner with
  | block id => exact congrArg (·[id]?) hblocks
  | function f => exact congrArg (·[f]?) hfunctions

/-- The entries behind a run are new, if those of its blocks are, and if functions that have an entry
are declared in scopes that were there before the run. -/
theorem runBlock_entries_fresh (hfault : (runBlock cfg record b).fault = none)
    (hdistinct : (b.blocks.map Block.id).Nodup)
    (hblocks : ∀ id ∈ b.blocks.map Block.id, record.blockEffects[id]? = none)
    (hfunctions : ∀ f : FunctionId, record.functionEffects[f]? ≠ none →
      f.scope < record.scopes.size) :
    Fresh Entry.owner? (runBlock cfg record b).record.effectsOf? (runBlock cfg record b).entries := by
  obtain ⟨fs, hnodup, hentered, howners⟩ := runBlock_owners cfg hfault
  refine ⟨howners.nodup_iff.mpr ?_, fun owner howner => ?_⟩
  · refine .append (hdistinct.map fun _ _ h => FrameOwner.block.inj h)
      (hnodup.map fun _ _ h => FrameOwner.function.inj h) ?_
    intro owner hblock hfunction
    obtain ⟨id, -, rfl⟩ := List.mem_map.mp hblock
    obtain ⟨f, -, hf⟩ := List.mem_map.mp hfunction
    exact nomatch hf
  · rw [runBlock_effectsOf?]
    rcases List.mem_append.mp (howners.mem_iff.mp howner) with hmem | hmem
    · obtain ⟨id, hid, rfl⟩ := List.mem_map.mp hmem
      exact hblocks id hid
    · obtain ⟨f, hf, rfl⟩ := List.mem_map.mp hmem
      by_contra hentry
      have hown := (runBlock_keepsApart cfg record b).unnamed _ (hentered f hf) f.scope
        (List.mem_singleton_self f.scope)
      exact absurd (hfunctions f hentry) (Nat.not_lt.mpr hown)

end Root

end Yul
