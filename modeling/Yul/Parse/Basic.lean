import Yul.Code
import Yul.NameTable
import Yul.SourceError

/-!
# Reading a row of tokens

A parser works on a cursor: the token at hand and the items behind it. Moving on fetches the next
token first, so a bad piece of the source is reported before anything is said about the token at
hand. The cursor also numbers the blocks and keeps the names that have been read, in order; both
outlive a failure.
-/

namespace Yul

/-- A place in a row of tokens, and what has been read up to it. -/
structure Cursor where
  /-- the token at hand -/
  current : Lexeme
  /-- the items behind it -/
  rest : List Item
  /-- span of the token before it -/
  previous : Span
  /-- number of the next block -/
  nextBlock : BlockId
  /-- the names read so far -/
  names : NameTable
deriving DecidableEq, Repr

namespace Cursor

/-- The first token of a row of items. -/
def ofItems (names : NameTable) : List Item → Except SourceError Cursor
  | .bad text span :: _ => .error ⟨.unexpectedText text, span⟩
  | .lexeme l :: rest => .ok ⟨l, rest, ⟨0, 0⟩, 0, names⟩
  | [] => .ok ⟨⟨.endOfInput, ⟨0, 0⟩⟩, [], ⟨0, 0⟩, 0, names⟩

/-- The first token of a source. -/
def ofSource (names : NameTable) (source : String) : Except SourceError Cursor :=
  ofItems names (items source)

end Cursor

/-- A reader of tokens that fails with an error of the source. -/
abbrev Parser := EStateM SourceError Cursor

namespace Parser

def fail {α : Type} (cause : SourceError.Cause) (span : Span) : Parser α :=
  throw ⟨cause, span⟩

/-- The token at hand. -/
def current : Parser Lexeme := do
  return (← get).current

/-- Takes the token at hand and fetches the next one. The end of the input is never left behind. -/
def advance : Parser Lexeme := do
  let cursor ← get
  match cursor.rest with
  | .bad text span :: _ => fail (.unexpectedText text) span
  | .lexeme l :: rest =>
    set { cursor with current := l, rest, previous := cursor.current.span }
    return cursor.current
  | [] =>
    set { cursor with previous := cursor.current.span }
    return cursor.current

/-- Fails because the token at hand is not what may stand there. -/
def unexpected {α : Type} (what : Expectation) : Parser α := do
  let found ← current
  fail (.expected what found.token) found.span

/-- Takes the token at hand if it is `token`. -/
def accept (token : Token) : Parser Bool := do
  if (← current).token = token then
    let _ ← advance
    return true
  else return false

/-- Takes the token at hand, which has to be `token`. -/
def expect (token : Token) (what : Expectation) : Parser Lexeme := do
  if (← current).token = token then advance else unexpected what

def mark (p : Punct) : Parser Lexeme :=
  expect (.punct p) (.mark p)

def keyword (k : Keyword) : Parser Lexeme :=
  expect (.keyword k) (.keyword k)

/-- Takes an identifier that is a keyword in its place. -/
def word (text : String) : Parser Lexeme :=
  expect (.identifier text) (.word text)

def endOfInput : Parser Unit := do
  let _ ← expect .endOfInput .endOfInput

/-- The span from `start` to the last token taken. -/
def spanFrom (start : Span) : Parser Span := do
  return start.merge (← get).previous

/-- A number that no block has. -/
def freshBlock : Parser BlockId :=
  modifyGet fun cursor => (cursor.nextBlock, { cursor with nextBlock := cursor.nextBlock + 1 })

/-- Remembers a name that has been read. -/
def remember (name : Name) : Parser Unit :=
  modify fun cursor => { cursor with names := cursor.names.add name }

/-- More than the tokens that can still be taken. -/
def bound : Parser Nat := do
  return (← get).rest.length + 1

/-- What `p` reads behind each comma; `n` is more than the commas that can come. -/
def afterCommas {α : Type} (p : Parser α) : Nat → Parser (List α)
  | 0 => return []
  | n + 1 => do
    if ← accept (.punct .comma) then
      let a ← p
      return a :: (← afterCommas p n)
    else return []

/-- What `p` reads once, and again behind each comma. -/
def commaList {α : Type} (p : Parser α) : Parser (List α) := do
  let first ← p
  return first :: (← afterCommas p (← bound))

/-- As `commaList`, or nothing in front of a closing parenthesis. -/
def optionalList {α : Type} (p : Parser α) : Parser (List α) := do
  if (← current).token = .punct .rparen then return [] else commaList p

/-- The bytes of a literal, or its error in place of the token. -/
def decoded (bytes : Except Text.LiteralError (List UInt8)) (span : Span) : Parser (List UInt8) :=
  match bytes with
  | .ok bytes => return bytes
  | .error e => fail (.badLiteral e) span

end Parser

end Yul
