import Yul.CommandLine.Options
import Yul.Report.Snippet
import Yul.Report.TreeDump
import Yul.Token.Listing

/-!
# Running the command

`execute` turns arguments and the contents of files into what the command prints and the code with
which it ends: 0 if the source is correct, 1 if it is not or cannot be read, 2 if the arguments do
not fit. Problems and dumps go to the error stream, side effects to the output.
-/

namespace Yul

namespace CommandLine

/-- Why a file cannot be read as text. -/
inductive ReadFailure where
  | notFound
  | isDirectory
  | notADirectory
  | nameTooLong
  | notUtf8
  | other (text : String)
deriving DecidableEq, Repr

namespace ReadFailure

def message : ReadFailure → String
  | notFound => "No such file or directory (os error 2)"
  | isDirectory => "Is a directory (os error 21)"
  | notADirectory => "Not a directory (os error 20)"
  | nameTooLong => "File name too long (os error 36)"
  | notUtf8 => "stream did not contain valid UTF-8"
  | other text => text

end ReadFailure

/-- What the command leaves behind. -/
structure Output where
  code : Nat
  stdout : String := ""
  stderr : String := ""
deriving DecidableEq, Repr

def helpText : String :=
  "\n".intercalate
    ["Semantic analyzer for the Yul intermediate assembly language",
      "",
      "Usage: yulc [OPTIONS] <INPUT>",
      "",
      "Arguments:",
      "  <INPUT>  Input source file (a code block or an object)",
      "",
      "Options:",
      "      --evm-version <EVM_VERSION>  Target EVM version (homestead ... prague) "
        ++ "[default: cancun]",
      "      --typed                      Use the typed dialect (u256 and bool)",
      "      --data-name <NAME>           Extra data object name accepted by "
        ++ "datasize/dataoffset (repeatable)",
      "      --side-effects               Print the side effects of each analyzed object",
      "  -v, --verbose                    Verbose output",
      "      --dump-scopes                Dump scopes (for debugging)",
      "      --dump-ast                   Dump AST (for debugging)",
      "      --dump-tokens                Dump tokens (for debugging)",
      "  -h, --help                       Print help",
      "  -V, --version                    Print version",
      ""]

def versionText : String := "yulc 0.1.0\n"

/-- What is said about arguments that do not fit. -/
def usageText : String :=
  "error: unexpected arguments\n\nUsage: yulc [OPTIONS] <INPUT>\n\n"
    ++ "For more information, try '--help'.\n"

/-! ## Parts of the output -/

/-- A dump between its two rulers. -/
def framed (title endTitle body : String) : String :=
  s!"=== {title} ===\n{body}=== End {endTitle} ===\n\n"

/-- A part that is printed only if it is asked for. -/
def onlyIf (asked : Bool) (text : String) : String :=
  if asked then text else ""

mutual

/-- A line for each object that has a name, an object before those inside it. -/
def objectLines : Object → String
  | ⟨name, _, objects, _, _⟩ =>
    onlyIf (name ≠ "") s!"  object {name}\n" ++ objectListLines objects

def objectListLines : List Object → String
  | [] => ""
  | o :: rest => objectLines o ++ objectListLines rest

end

/-- What an object and its functions may do; functions only where the code is correct. -/
def effectLines (o : ObjectAnalysis) : String :=
  let a := o.analysis
  let label := if o.path = "" then "<code>" else o.path
  let functions := (a.record.functionEffects.toList.map fun (f, e) => (f.name, e)).mergeSort
    fun x y => decide (x.1 ≤ y.1)
  s!"{label}: {a.sideEffects.text}\n"
    ++ onlyIf o.succeeded
      (String.join (functions.map fun (name, e) => s!"  function {name}: {e.text}\n"))

/-- The report of a source that cannot be read to its end. -/
def failureText (file source : String) (e : SourceError) : String :=
  (Report.ofSourceError e).render file source ++ s!"error: could not analyze '{file}': {e.text}\n"

/-- What is printed before the source is parsed. -/
def openingText (o : Options) (tokens : String) : String :=
  onlyIf o.display.verbose s!"Input: {o.input}\n"
    ++ onlyIf o.display.tokens (framed "Yul Tokens" "Tokens" tokens)
    ++ onlyIf o.display.verbose "Parsing Yul...\n"

/-- What is printed about a source that has been analyzed. -/
def outcomeOutput (o : Options) (source opening : String) (r : Outcome) : Output :=
  let d := o.settings.dialect
  let reports := r.diagnostics.map fun p => (Report.ofDiagnostic p).render o.input source
  let scopes := r.objects.map fun a =>
    framed s!"Scopes {a.path}" "Scopes" (a.analysis.record.listing r.names)
  { code := if r.succeeded then 0 else 1
    stdout := onlyIf o.display.sideEffects
      (String.join (r.objects.map effectLines) ++ onlyIf r.containsMsize "msize: used\n")
    stderr := opening
      ++ onlyIf o.display.tree
        (framed "Yul AST" "AST" ((r.names.objectFields r.object).text ++ "\n"))
      ++ onlyIf o.display.verbose
        (s!"Analyzing for {d.version.name} ({d.flavour.text} dialect)...\n"
          ++ objectLines r.object)
      ++ String.join reports
      ++ onlyIf o.display.scopes (String.join scopes)
      ++ onlyIf o.display.verbose
        s!"Done: {r.errorCount} error(s), {r.warningCount} warning(s)\n"
      ++ onlyIf (!r.succeeded) s!"error: Analysis failed with {r.errorCount} error(s)\n" }

/-- Analyzes a source as the options ask for. -/
def runOn (o : Options) (source : String) : Output :=
  match listTokens source with
  | .error e =>
    if o.display.tokens then
      { code := 1
        stderr := onlyIf o.display.verbose s!"Input: {o.input}\n"
          ++ failureText o.input source e }
    else parsed ""
  | .ok tokens => parsed tokens
where
  /-- The rest of the run, once the tokens have been listed. -/
  parsed (tokens : String) : Output :=
    let opening := openingText o tokens
    match o.settings.analyzeSource source with
    | .error e => { code := 1, stderr := opening ++ failureText o.input source e }
    | .ok r => outcomeOutput o source opening r

/-- What the command does for its arguments, where `contents` are those of the files. -/
def execute (args : List String) (contents : String → Except ReadFailure String) : Output :=
  match read args with
  | .help => { code := 0, stdout := helpText }
  | .version => { code := 0, stdout := versionText }
  | .refuse => { code := 2, stderr := usageText }
  | .run o =>
    match contents o.input with
    | .error f => { code := 1, stderr := s!"error: failed to read '{o.input}': {f.message}\n" }
    | .ok source => runOn o source

end CommandLine

end Yul
