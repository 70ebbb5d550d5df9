import Yul.Analysis
import Yul.Flow
import Yul.Parse.Object

/-!
# Analyzing a source

A source holds an object with further objects inside it, or a lone block. The code of every object
is analyzed on its own, an object before the objects inside it. Each analysis has a record of its
own and may refer to the data that its object can see; what it finds is added to what was reported
before.
-/

namespace Yul

/-- What is asked for besides the source. -/
structure Settings where
  dialect : Dialect := {}
  /-- data names that every object may refer to -/
  dataNames : List String := []
deriving DecidableEq, Repr, Inhabited

/-- The analysis of the code of one object. -/
structure ObjectAnalysis where
  /-- the names that lead from the outermost object to this one, separated by dots -/
  path : String
  /-- what was found out, with the problems of this object alone -/
  analysis : Analysis
  /-- whether there were no more errors after the analysis than before it -/
  succeeded : Bool

/-- What is known after the analysis of some objects. -/
structure Progress where
  /-- what the analyses have reported so far -/
  findings : List Finding := []
  objects : List ObjectAnalysis := []

/-- Everything that is known about a source. -/
structure Outcome where
  object : Object
  /-- the names in the source, in the order of listings -/
  names : NameTable
  objects : List ObjectAnalysis
  findings : List Finding
  containsMsize : Bool

namespace Outcome

def diagnostics (o : Outcome) : List Diagnostic :=
  o.findings.map Finding.diagnostic

def succeeded (o : Outcome) : Bool :=
  o.objects.all (·.succeeded)

def errorCount (o : Outcome) : Nat :=
  (Diagnostic.errors o.diagnostics).length

def warningCount (o : Outcome) : Nat :=
  o.diagnostics.countP fun d => d.severity == .warning

/-- The first fault of an analysis; a source that can be read has none. -/
def fault? (o : Outcome) : Option Fault :=
  o.objects.findSome? (·.analysis.fault)

end Outcome

/-- The path of an object inside the object at `path`. -/
def innerPath (path name : String) : String :=
  if path = "" then name else path ++ "." ++ name

namespace Settings

variable (s : Settings)

/-- What an object is analyzed with: it may refer to the data that it can see. -/
def forObject (o : Object) : Setting :=
  { dialect := s.dialect, dataNames := o.dataNames ++ s.dataNames }

/-- Analyzes the code of the object at `path`. -/
def analyzeCode (path : String) (o : Object) (p : Progress) : Progress :=
  let a := Analysis.ofRun (runBlockAfter (s.forObject o) {} p.findings o.code)
  let succeeded := a.findings.countP Finding.isError == p.findings.countP Finding.isError
  let own := { a with findings := a.findings.drop p.findings.length }
  { findings := a.findings, objects := p.objects ++ [⟨path, own, succeeded⟩] }

mutual

/-- Analyzes an object and the objects inside it. -/
def analyzeObject (path : String) : Object → Progress → Progress
  | ⟨name, code, objects, data, span⟩, p =>
    analyzeObjects path objects (s.analyzeCode path ⟨name, code, objects, data, span⟩ p)

/-- Analyzes the objects inside the object at `path`. -/
def analyzeObjects (path : String) : List Object → Progress → Progress
  | [], p => p
  | o :: rest, p => analyzeObjects path rest (analyzeObject (innerPath path o.name) o p)

end

/-- Reads and analyzes a source. -/
def analyzeSource (source : String) : Except SourceError Outcome := do
  let (object, names) ← parseSource (.ofDialect s.dialect) source
  let progress := s.analyzeObject "" object {}
  return ⟨object, names, progress.objects, progress.findings, object.containsMsize⟩

end Settings

end Yul
