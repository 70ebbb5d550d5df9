import Yul.Proofs.Check.Blocks

/-!
# The analysis is exact

An analysis with an empty record succeeds if and only if its block is well-formed by the judgement
of `Block.WellFormed`, which says nothing of problems, of scopes, or of an order in which code is
walked through.
-/

namespace Yul

section Setting

variable (cfg : Setting)

theorem runBlock_decides_of_regular {record : Record}
    (hrecord : (Run.mk record [] [] [] none).Regular) (b : Block)
    (hfault : (runBlock cfg record b).fault = none) :
    ((runBlock cfg record b).Clean ↔ b.WellFormed cfg {} {}) ∧
      ((runBlock cfg record b).Clean →
        (Run.mk record [] [] [] none).Does (runBlock cfg record b) (b.account .none)) := by
  obtain ⟨id, statements, span⟩ := b
  have henter : ((Run.mk record [] [] [] none).take (.enterBlock id none)).fault = none := by
    obtain ⟨r, hwalk, hrun⟩ := runBlock_walk cfg record ⟨id, statements, span⟩
    exact hwalk.fault_eq_none (Run.fits_of_take (hrun ▸ hfault)).1
  have hfirst := Models.enterFirst hrecord henter
  let scope := record.scopes.size
  let names := Homes.none.enter id statements
  let start := ({} : Env).inBlock cfg id statements
  have hinside : Check.Decides (Models (some id) .none {} scope)
      (Models (some id) names (statements.foldl (Env.after cfg) start) scope)
      (do
        (functionsOf statements).forM (Check.declareFunction cfg scope)
        Check.stmts cfg { scope } statements)
      (fun _ => ({} : Env).OpensBlock cfg id statements ∧ WellFormedStmts cfg start {} statements)
      (accountOfStmts names id statements) :=
    .seq (Check.functions_decides cfg id statements)
      (Check.stmts_decides cfg { scope } id names start statements) (fun _ => Iff.rfl) rfl
  have hdecides := hinside.decides _ hfirst
  generalize hrun : runBlock cfg record ⟨id, statements, span⟩ = run at hfault ⊢
  have hlast : run = ((do
      (functionsOf statements).forM (Check.declareFunction cfg scope)
      Check.stmts cfg { scope } statements : Check Unit).after
        ((Run.mk record [] [] [] none).take (.enterBlock id none))).take (.exitBlock id scope) :=
    hrun.symm
  rw [hlast] at hfault ⊢
  have hno (e : Event) (he : e.finding? = none) : ∀ g, e.finding? = some g → g.isError = false :=
    fun g hg => absurd (he.symm.trans hg) (by simp)
  have hbefore := (Run.fits_of_take hfault).1
  have hclean : (Run.mk record [] [] [] none).Clean := List.forall_mem_nil _
  have hfirstClean := (Run.clean_take hfirst.ready.fault).mpr ⟨hclean, hno _ rfl⟩
  refine ⟨⟨fun h => ?_, fun h => ?_⟩, fun h => ?_⟩
  · exact (hdecides.sound hbefore ((Run.clean_take hfault).mp h).1).1
  · exact (Run.clean_take hfault).mpr ⟨(hdecides.complete () hbefore hfirstClean h).1, hno _ rfl⟩
  · have hdoes := (hdecides.sound hbefore ((Run.clean_take hfault).mp h).1).2.2
    exact .block hdoes hfirst.ready.fault hfault

theorem runBlock_decides (b : Block) (hfault : (runBlock cfg {} b).fault = none) :
    ((runBlock cfg {} b).Clean ↔ b.WellFormed cfg {} {}) ∧
      ((runBlock cfg {} b).Clean →
        (Run.mk {} [] [] [] none).Does (runBlock cfg {} b) (b.account .none)) :=
  runBlock_decides_of_regular cfg Run.regular_empty b hfault

theorem analyze_succeeded_iff {record : Record} (b : Block) :
    (analyze cfg record b).succeeded = true ↔ (runBlock cfg record b).Clean := by
  rw [Analysis.succeeded, analyze, ofRun_findings, Run.Clean]
  simp

/-- The analysis of a block whose blocks have different numbers succeeds if and only if the block is
well-formed. -/
theorem succeeded_iff_wellFormed (b : Block) (hdistinct : (b.blocks.map Block.id).Nodup) :
    (analyze cfg {} b).fault = none ∧
      ((analyze cfg {} b).succeeded = true ↔ b.WellFormed cfg {} {}) := by
  have hfault := (analyze_fault_eq_none_iff cfg b).mpr hdistinct
  have hrun : (runBlock cfg {} b).fault = none := by
    rwa [runBlock_fault, ← analyze_fault cfg b]
  exact ⟨hfault, (analyze_succeeded_iff cfg b).trans (runBlock_decides cfg b hrun).1⟩

end Setting

/-- The code
`{ function f(a) -> b { b := sub(a, 1) } for { let x := f(2) } x { x := f(x) } { sstore(x, 1) } }`. -/
def countdown : Block where
  id := 0
  statements := [
    .function ⟨⟨"f", default⟩, [⟨"a", none, default⟩], [⟨"b", none, default⟩],
      ⟨1, [.assignment [⟨"b", default⟩] (.call ⟨"sub", default⟩
        [.identifier ⟨"a", default⟩, .literal ⟨.number "1", none, default⟩] default) default],
        default⟩⟩ default,
    .forLoop
      ⟨2, [.declaration [⟨"x", none, default⟩] (some (.call ⟨"f", default⟩
        [.literal ⟨.number "2", none, default⟩] default)) default], default⟩
      (.identifier ⟨"x", default⟩)
      ⟨3, [.assignment [⟨"x", default⟩] (.call ⟨"f", default⟩
        [.identifier ⟨"x", default⟩] default) default], default⟩
      ⟨4, [.expression (.call ⟨"sstore", default⟩
        [.identifier ⟨"x", default⟩, .literal ⟨.number "1", none, default⟩] default)], default⟩
      default]
  span := default

theorem countdown_wellFormed :
    (countdown.blocks.map Block.id).Nodup ∧ countdown.WellFormed {} {} {} :=
  ⟨by decide, (succeeded_iff_wellFormed {} countdown (by decide)).2.mp (by decide +kernel)⟩

end Yul
