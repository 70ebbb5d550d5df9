import Yul.Effects
import Yul.Evm.Version
import Yul.NameTable

/-!
# Builtin functions

The instructions that code may call by name. An entry says how many values a builtin takes and
yields and which of them are truth values; their type labels are up to the dialect.
-/

namespace Yul

/-- An argument that has to be written as a string. -/
inductive LiteralArgument where
  /-- the name of a data object -/
  | dataName
  /-- any string, however long -/
  | unlimited
deriving DecidableEq, Repr

/-- A builtin function. -/
structure Builtin where
  name : Name
  /-- number of arguments -/
  arity : Nat
  /-- number of results -/
  results : Nat
  /-- whether the results are truth values -/
  yieldsTruth : Bool := false
  effects : SideEffects := .none
  exits : CallExits := .continuing
  /-- the argument that has to be a string, if there is one -/
  stringArgument : Option (Nat × LiteralArgument) := none
  /-- whether the size of memory is the result -/
  isMsize : Bool := false
  /-- the first version that has the builtin -/
  since : Option EvmVersion := none
  /-- the last version that has the builtin -/
  lastIn : Option EvmVersion := none
  /-- the version from which on its use is discouraged -/
  deprecatedFrom : Option EvmVersion := none
deriving DecidableEq, Repr

namespace Builtin

/-- How the argument at `index` has to be written, if it has to be a string. -/
def literalArgument? (b : Builtin) (index : Nat) : Option LiteralArgument :=
  match b.stringArgument with
  | some (i, kind) => if i = index then some kind else none
  | none => none

/-- Whether `v` comes before the first version that has the builtin. -/
def tooNewFor (b : Builtin) (v : EvmVersion) : Bool :=
  b.since.any fun first => v < first

/-- Whether `v` comes after the last version that has the builtin. -/
def tooOldFor (b : Builtin) (v : EvmVersion) : Bool :=
  b.lastIn.any fun last => last < v

def isAvailableIn (b : Builtin) (v : EvmVersion) : Bool :=
  !b.tooNewFor v && !b.tooOldFor v

/-! ## The table -/

/-- A builtin without side effects that yields one value. -/
def value (arity : Nat) (name : Name) : Builtin :=
  { name, arity, results := 1 }

/-- A builtin without side effects that yields a truth value. -/
def truth (arity : Nat) (name : Name) : Builtin :=
  { name, arity, results := 1, yieldsTruth := true }

/-- A builtin that yields one value and has side effects. -/
def query (arity : Nat) (name : Name) (effects : SideEffects) : Builtin :=
  { name, arity, results := 1, effects }

/-- A builtin that yields nothing. -/
def action (arity : Nat) (name : Name) (effects : SideEffects) : Builtin :=
  { name, arity, results := 0, effects }

def availableSince (b : Builtin) (v : EvmVersion) : Builtin :=
  { b with since := some v }

def availableUntil (b : Builtin) (v : EvmVersion) : Builtin :=
  { b with lastIn := some v }

def withString (b : Builtin) (index : Nat) (kind : LiteralArgument) : Builtin :=
  { b with stringArgument := some (index, kind) }

def leaving (b : Builtin) (exits : CallExits) : Builtin :=
  { b with exits }

/-- Arithmetic, comparison and operations on bits. -/
def operations : List Builtin :=
  ["add", "sub", "mul", "div", "sdiv", "mod", "smod", "exp", "and", "or", "xor", "byte",
    "signextend"].map (value 2)
  ++ ["lt", "gt", "slt", "sgt", "eq"].map (truth 2)
  ++ [value 1 "not", truth 1 "iszero", value 3 "addmod", value 3 "mulmod"]
  ++ ["shl", "shr", "sar"].map (fun name => (value 2 name).availableSince .constantinople)
  ++ [action 1 "pop" .none]

/-- The transaction, the block and the running machine. -/
def environment : List Builtin :=
  ["address", "origin", "caller", "callvalue", "calldatasize", "codesize", "gasprice",
    "coinbase", "timestamp", "number", "gaslimit"].map (value 0)
  ++ [value 1 "calldataload",
    value 1 "blockhash",
    (value 0 "chainid").availableSince .istanbul,
    (value 0 "basefee").availableSince .london,
    (value 0 "difficulty").availableUntil .london,
    (value 0 "prevrandao").availableSince .paris,
    (value 1 "blobhash").availableSince .cancun,
    (value 0 "blobbasefee").availableSince .cancun,
    query 0 "gas" .volatile,
    { query 0 "msize" .volatile with isMsize := true }]

/-- State outside the call. -/
def outside : List Builtin :=
  [query 1 "balance" (.reading .otherState),
    (query 0 "selfbalance" (.reading .otherState)).availableSince .istanbul,
    query 1 "extcodesize" (.reading .otherState),
    (query 1 "extcodehash" (.reading .otherState)).availableSince .constantinople,
    (query 0 "returndatasize" (.reading .otherState)).availableSince .byzantium]

/-- Effects of code that fills memory from state outside the call. -/
def fetching : SideEffects :=
  (SideEffects.writing .memory).touching .otherState .read

/-- Memory. -/
def memory : List Builtin :=
  [query 1 "mload" (.reading .memory),
    query 2 "keccak256" (.reading .memory),
    action 2 "mstore" (.writing .memory),
    action 2 "mstore8" (.writing .memory),
    (action 3 "mcopy" (.writing .memory)).availableSince .cancun,
    action 3 "calldatacopy" (.writing .memory),
    action 3 "codecopy" (.writing .memory),
    action 3 "datacopy" (.writing .memory),
    (action 3 "returndatacopy" fetching).availableSince .byzantium,
    action 4 "extcodecopy" fetching]

/-- Storage, lasting and transient. -/
def storage : List Builtin :=
  [query 1 "sload" (.reading .storage),
    action 2 "sstore" (.writing .storage),
    (query 1 "tload" (.reading .transientStorage)).availableSince .cancun,
    (action 2 "tstore" (.writing .transientStorage)).availableSince .cancun]

/-- Logs, with up to four topics. -/
def logs : List Builtin :=
  let effects := (SideEffects.writing .otherState).touching .memory .read
  [action 2 "log0" effects, action 3 "log1" effects, action 4 "log2" effects,
    action 5 "log3" effects, action 6 "log4" effects]

/-- Effects of a call that may read everything but changes memory only. -/
def readOnlyCall : SideEffects :=
  ((fetching.touching .storage .read).touching .transientStorage .read)

/-- Effects of creating a contract. -/
def creating : SideEffects :=
  ((SideEffects.writing .otherState).touching .storage .write).touching .memory .read

/-- Calls of other contracts, and their creation. -/
def calls : List Builtin :=
  [query 7 "call" .worst,
    query 7 "callcode" .worst,
    query 6 "delegatecall" .worst,
    (query 6 "staticcall" readOnlyCall).availableSince .byzantium,
    query 3 "create" creating,
    (query 4 "create2" creating).availableSince .constantinople]

/-- Ends of the call. -/
def endings : List Builtin :=
  [(action 0 "stop" .halting).leaving .terminating,
    (action 2 "return" (SideEffects.halting.touching .memory .read)).leaving .terminating,
    ((action 2 "revert" (SideEffects.halting.touching .memory .read)).leaving .reverting
      ).availableSince .byzantium,
    (action 0 "invalid" .halting).leaving .reverting,
    { (action 1 "selfdestruct" (SideEffects.halting.touching .otherState .write)).leaving
        .terminating with deprecatedFrom := some .cancun }]

/-- Helpers for objects and the linker, which take the name of a thing. -/
def naming : List Builtin :=
  [(value 1 "datasize").withString 0 .dataName,
    (value 1 "dataoffset").withString 0 .dataName,
    (value 1 "linkersymbol").withString 0 .unlimited,
    (value 1 "loadimmutable").withString 0 .unlimited,
    (action 3 "setimmutable" (.writing .memory)).withString 1 .unlimited]

/-- Every builtin, whatever the version. -/
def table : List Builtin :=
  operations ++ environment ++ outside ++ memory ++ storage ++ logs ++ calls ++ endings ++ naming

/-- The builtin of a name. -/
def find? (name : Name) : Option Builtin :=
  table.find? (·.name == name)

/-- The names of all builtins in alphabetical order. -/
def names : List Name :=
  (table.map (·.name)).mergeSort fun a b => decide (a ≤ b)

end Builtin

end Yul
