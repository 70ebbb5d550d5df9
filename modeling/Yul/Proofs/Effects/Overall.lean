import Yul.Proofs.Check.Performs
import Yul.Proofs.Effects.Exact
import Yul.Proofs.Effects.Total

/-!
# The side effects of any code

An analysis without a fault tells what all of the code may do, whatever problems it finds: the worst
of what the code does anywhere by `Block.deeds`, and looping if functions call each other in a circle
(`isLUB_sideEffects`).
-/

namespace Yul

section Setting

variable (cfg : Setting) (b : Block)

/-- An analysis does what its block does, correct or not. -/
theorem runBlock_performs (hfault : (runBlock cfg {} b).fault = none) :
    (Run.mk {} [] [] [] none).Does (runBlock cfg {} b) (b.deeds .none) := by
  obtain ⟨id, statements, span⟩ := b
  have hfirst := Models.first id
  have hinside : Check.Performs (Sees (some id) .none 0) (Sees (some id) _ 0)
      (do
        (functionsOf statements).forM (Check.declareFunction cfg 0)
        Check.stmts cfg { scope := 0 } statements)
      (deedsOfStmts (Surroundings.none.inBlock id statements) id statements) :=
    .bind (Check.functions_performs cfg id statements)
      (fun _ => Check.stmts_performs cfg { scope := 0 } id _ statements) rfl
  have hlast := (Run.fits_of_take hfault).1
  obtain ⟨-, hdoes⟩ := hinside.performs _ hfirst.sees hlast
  exact .block hdoes hfirst.ready.fault hfault

/-- The side effects of code are the worst of what is done anywhere in it, and looping if there is a
circle of calls. -/
theorem isLUB_sideEffects (hfault : (analyze cfg {} b).fault = none) :
    IsLUB {e | (b.deeds .none).Involves e} (analyze cfg {} b).sideEffects := by
  have hrun := fault_of_ofRun hfault
  have hregular := (runBlock_ready cfg b hrun).1.regular
  have hinjective := FunctionKey.id_injective (Run.scopeOf_injective hregular)
  have hcollected := collected_of_does (runBlock_performs cfg b hrun)
    (runBlock cfg {} b).places_scopeOf
  have hsame : {e | (b.deeds .none).Involves e} =
      {e | ((b.deeds .none).map (FunctionKey.id (runBlock cfg {} b).scopeOf)).Involves e} :=
    Set.ext fun e => (Account.map_involves_iff hinjective).symm
  rw [analyze, ofRun_of_collected hrun hcollected, hsame]
  exact Account.isLUB_total _

end Setting

end Yul
