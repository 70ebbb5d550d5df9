import Yul.Object
import Yul.Parse.Stmt

/-!
# Reading objects

The words `object`, `code` and `data` are identifiers elsewhere. A source that starts with none of
them is a lone block of code.

* `parseSource` reads a source that holds an object or a block.
* `parseBlock` reads a source that holds a block.
-/

namespace Yul

namespace Parser

/-- The name of an object or of data. -/
def stringName : Parser String := do
  match (← current).token with
  | .string raw =>
    let l ← advance
    return Text.decodeLossy (← decoded (Text.decodeString raw.toList) l.span)
  | _ => unexpected .string

/-- The bytes of a token that is data. -/
def dataValue (l : Lexeme) : Parser (List UInt8) :=
  match l.token with
  | .string raw => decoded (Text.decodeString raw.toList) l.span
  | .hexString raw => decoded (Text.decodeHexString raw.toList) l.span
  | found => fail (.expected .dataValue found) l.span

def dataSection : Parser DataSection := do
  let start ← word "data"
  let name ← stringName
  let l ← advance
  let value ← dataValue l
  return ⟨name, value, ← spanFrom start.span⟩

/-- What stands behind the code of an object, each inner object read by `object`; `n` is more than
the parts that can come. -/
def objectItems (object : Parser Object) : Nat → Parser (List Object × List DataSection)
  | 0 => return ([], [])
  | n + 1 => do
    match (← current).token with
    | .punct .rbrace => return ([], [])
    | .identifier "object" =>
      let o ← object
      let (objects, data) ← objectItems object n
      return (o :: objects, data)
    | .identifier "data" =>
      let d ← dataSection
      let (objects, data) ← objectItems object n
      return (objects, d :: data)
    | _ => unexpected .objectItem

/-- An object in which fewer than `depth` objects stand inside one another. -/
def objectWithin : Nat → Parser Object
  | 0 => unexpected (.word "object")
  | depth + 1 => do
    let start ← word "object"
    let name ← stringName
    let _ ← mark .lbrace
    let _ ← word "code"
    let code ← block
    let (objects, data) ← objectItems (objectWithin depth) (← bound)
    let _ ← mark .rbrace
    return ⟨name, code, objects, data, ← spanFrom start.span⟩

def object : Parser Object := do
  objectWithin (← bound)

/-- An object, or a lone block in place of one. -/
def objectOrBlock : Parser Object := do
  if (← current).token = .identifier "object" then object
  else
    let code ← block
    return ⟨"", code, [], [], code.span⟩

/-- An object or a lone block, with nothing behind it. -/
def wholeObject : Parser Object := do
  let o ← objectOrBlock
  endOfInput
  return o

/-- A block with nothing behind it. -/
def wholeBlock : Parser Block := do
  let b ← block
  endOfInput
  return b

/-- Runs a parser on a source; the names that are known already come first in their order. -/
def parse {α : Type} (p : Parser α) (names : NameTable) (source : String) :
    Except SourceError (α × NameTable) := do
  match p.run (← Cursor.ofSource names source) with
  | .ok a cursor => return (a, cursor.names)
  | .error e _ => throw e

end Parser

/-- The object that a source holds, and the names in it. -/
def parseSource (names : NameTable) (source : String) : Except SourceError (Object × NameTable) :=
  Parser.wholeObject.parse names source

/-- The block that a source holds, and the names in it. -/
def parseBlock (names : NameTable) (source : String) : Except SourceError (Block × NameTable) :=
  Parser.wholeBlock.parse names source

end Yul
