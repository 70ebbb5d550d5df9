import Yul.Program

/-!
# Arguments of the command line

Arguments are read one by one; the first one that does not fit ends the reading, as does a request
for help. An option takes its value from behind an equals sign or from the next argument. Only
`--data-name` may be given more than once.
-/

namespace Yul

namespace CommandLine

/-- What to print besides the problems of the source. -/
structure Display where
  sideEffects : Bool := false
  verbose : Bool := false
  scopes : Bool := false
  tree : Bool := false
  tokens : Bool := false
deriving DecidableEq, Repr

/-- What a run is asked to do. -/
structure Options where
  input : String
  settings : Settings := {}
  display : Display := {}
deriving DecidableEq, Repr

/-- What the arguments ask for. -/
inductive Request where
  | run (options : Options)
  | help
  | version
  /-- arguments that do not fit -/
  | refuse
deriving DecidableEq, Repr

/-- The arguments read so far. -/
structure Draft where
  input : Option String := none
  version : Option EvmVersion := none
  typed : Bool := false
  dataNames : List String := []
  display : Display := {}
deriving DecidableEq, Repr

namespace Draft

/-- The request, once all arguments have been read. -/
def finish (d : Draft) : Request :=
  match d.input with
  | none => .refuse
  | some input =>
    .run {
      input
      settings := {
        dialect := ⟨d.version.getD .latest, if d.typed then .typed else .untyped⟩
        dataNames := d.dataNames }
      display := d.display }

/-- Takes the name of the input. -/
def withInput (d : Draft) (text : String) : Option Draft :=
  if d.input.isSome || text = "" then none else some { d with input := some text }

/-- Sets the flag of the given name, once. -/
def withFlag (d : Draft) (name : String) : Option Draft :=
  match name with
  | "typed" => if d.typed then none else some { d with typed := true }
  | "side-effects" =>
    if d.display.sideEffects then none
    else some { d with display := { d.display with sideEffects := true } }
  | "verbose" =>
    if d.display.verbose then none
    else some { d with display := { d.display with verbose := true } }
  | "dump-scopes" =>
    if d.display.scopes then none
    else some { d with display := { d.display with scopes := true } }
  | "dump-ast" =>
    if d.display.tree then none
    else some { d with display := { d.display with tree := true } }
  | "dump-tokens" =>
    if d.display.tokens then none
    else some { d with display := { d.display with tokens := true } }
  | _ => none

/-- Whether the option of the given name takes a value. -/
def takesValue (name : String) : Bool :=
  name = "evm-version" || name = "data-name"

/-- Takes the value of an option. -/
def withValue (d : Draft) (name value : String) : Option Draft :=
  match name with
  | "data-name" => some { d with dataNames := d.dataNames ++ [value] }
  | "evm-version" =>
    if d.version.isSome then none
    else (EvmVersion.ofName? value).map fun v => { d with version := some v }
  | _ => none

end Draft

/-- Arguments that are all inputs. -/
def readInputs (d : Draft) : List String → Request
  | [] => d.finish
  | text :: rest =>
    match d.withInput text with
    | some d => readInputs d rest
    | none => .refuse

/-- The letters of an argument with one dash. -/
inductive Letters where
  | draft (d : Draft)
  | done (r : Request)
deriving DecidableEq, Repr

def readLetters (d : Draft) : List Char → Letters
  | [] => .draft d
  | 'v' :: cs =>
    match d.withFlag "verbose" with
    | some d => readLetters d cs
    | none => .done .refuse
  | 'h' :: _ => .done .help
  | 'V' :: _ => .done .version
  | _ :: _ => .done .refuse

/-- The name of a long option, and the value behind its equals sign. -/
def splitOption (cs : List Char) : String × Option String :=
  match cs.dropWhile (· ≠ '=') with
  | [] => (String.ofList cs, none)
  | _ :: value => (String.ofList (cs.takeWhile (· ≠ '=')), some (String.ofList value))

/-- Whether an argument is an option and not a value. A lone dash is a value. -/
def isOption (text : String) : Bool :=
  match text.toList with
  | '-' :: _ :: _ => true
  | _ => false

/-- Reads arguments. -/
def readFrom (d : Draft) : List String → Request
  | [] => d.finish
  | text :: rest =>
    match text.toList with
    | ['-', '-'] => readInputs d rest
    | '-' :: '-' :: cs =>
      match splitOption cs, rest with
      | ("help", none), _ => .help
      | ("version", none), _ => .version
      | (name, some value), rest =>
        match d.withValue name value with
        | some d => readFrom d rest
        | none => .refuse
      | (name, none), [] =>
        match d.withFlag name with
        | some d => d.finish
        | none => .refuse
      | (name, none), value :: rest =>
        if Draft.takesValue name then
          if isOption value then .refuse
          else match d.withValue name value with
            | some d => readFrom d rest
            | none => .refuse
        else match d.withFlag name with
          | some d => readFrom d (value :: rest)
          | none => .refuse
    | '-' :: c :: cs =>
      match readLetters d (c :: cs) with
      | .draft d => readFrom d rest
      | .done r => r
    | _ =>
      match d.withInput text with
      | some d => readFrom d rest
      | none => .refuse

/-- What a list of arguments asks for. -/
def read (args : List String) : Request :=
  readFrom {} args

end CommandLine

end Yul
