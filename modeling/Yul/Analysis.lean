import Yul.Check.Stmt
import Yul.Object

/-!
# Analyzing code

`analyze` walks through a block, adds what it finds to a record, and gives the problems found. The
analysis of correct code has no error among them. An analysis with a fault has no result.

* `analyze` analyzes one block.
* `analyzeAll` analyzes blocks one after the other into one record.
* `analyzeCorrect` is for code that has to be correct.
-/

namespace Yul

/-- What an analysis found out. -/
structure Analysis where
  /-- the record with what was found -/
  record : Record
  findings : List Finding
  /-- the names that were asked for outside -/
  accesses : List Access
  /-- what all of the code may do -/
  sideEffects : SideEffects
  fault : Option Fault

namespace Analysis

/-- Whether no error was found. -/
def succeeded (a : Analysis) : Bool :=
  !a.findings.any Finding.isError

def diagnostics (a : Analysis) : List Diagnostic :=
  a.findings.map Finding.diagnostic

/-- What follows from a run that is over. -/
def ofRun (run : Run) : Analysis :=
  let result (record : Record) (sideEffects : SideEffects) (fault : Option Fault) : Analysis :=
    ⟨record, run.findings, run.accesses, sideEffects, fault⟩
  match run.fault with
  | some fault => result run.record .none (some fault)
  | none =>
    match Collector.run {} run.collectorSteps with
    | .error i => result run.record .none (some (.unbalanced i))
    | .ok collector =>
      let summary := collector.summarize
      result (run.record.addEffects summary) summary.total none

end Analysis

/-- The run that walks through a block, starting from what a record holds. -/
def runBlock (cfg : Setting) (record : Record) (b : Block) : Run :=
  ((Check.rootBlock cfg b).run { record }).2

/-- The run that walks through a block where problems were reported before: it adds to them. -/
def runBlockAfter (cfg : Setting) (record : Record) (reported : List Finding) (b : Block) : Run :=
  ((Check.rootBlock cfg b).run { record, journal := (reported.map Event.report).reverse }).2

/-- Analyzes a block. -/
def analyze (cfg : Setting) (record : Record) (b : Block) : Analysis :=
  .ofRun (runBlock cfg record b)

/-- Analyzes blocks one after the other into one record, up to the first fault. -/
def analyzeAll (cfg : Setting) (record : Record) : List Block → List Analysis
  | [] => []
  | b :: rest =>
    let a := analyze cfg record b
    a :: if a.fault.isSome then [] else analyzeAll cfg a.record rest

/-- What is said about code that should have been correct. -/
def incorrectMessage (ds : List Diagnostic) : String :=
  "invalid Yul code:\n" ++ "\n".intercalate (ds.map Diagnostic.text)

/-- The record of a block that has to be correct, or what is wrong with it. -/
def analyzeCorrect (cfg : Setting) (b : Block) : Except String Record :=
  let a := analyze cfg {} b
  match a.fault with
  | some fault => .error fault.message
  | none => if a.succeeded then .ok a.record else .error (incorrectMessage a.diagnostics)

/-- The record of the code of an object that has to be correct. -/
def analyzeCorrectObject (d : Dialect) (o : Object) : Except String Record :=
  analyzeCorrect { dialect := d, dataNames := o.dataNames } o.code

end Yul
