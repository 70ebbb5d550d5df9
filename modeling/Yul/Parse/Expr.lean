import Yul.Code
import Yul.Parse.Basic

/-!
# Reading expressions

A literal is one token and may carry a type; an identifier is called if a parenthesis follows.
-/

namespace Yul

namespace Parser

def identifier : Parser Identifier := do
  let l ← advance
  match l.token with
  | .identifier name =>
    remember name
    return ⟨name, l.span⟩
  | found => fail (.expected .identifier found) l.span

/-- A type behind a colon, if there is one. -/
def optionalType : Parser (Option Label) := do
  if ← accept (.punct .colon) then return some (← identifier).name else return none

def typedName : Parser TypedName := do
  let x ← identifier
  let type ← optionalType
  return ⟨x.name, type, ← spanFrom x.span⟩

/-- Names that are declared together. -/
def typedNames : Parser (List TypedName) :=
  commaList typedName

/-- The value of a token that is a literal. -/
def literalValue (l : Lexeme) : Parser LiteralValue :=
  match l.token with
  | .decimalNumber digits | .hexNumber digits => return .number digits
  | .string raw => return .bytes (← decoded (Text.decodeString raw.toList) l.span)
  | .hexString raw => return .bytes (← decoded (Text.decodeHexString raw.toList) l.span)
  | .keyword .trueValue => return .truth true
  | .keyword .falseValue => return .truth false
  | found => fail (.expected .literal found) l.span

def literal : Parser Literal := do
  let l ← advance
  let value ← literalValue l
  let type ← optionalType
  return ⟨value, type, ← spanFrom l.span⟩

/-- The arguments of a call up to the closing parenthesis, each read by `argument`. -/
def arguments (argument : Parser Expr) : Parser (List Expr) := do
  let args ← optionalList argument
  let _ ← mark .rparen
  return args

/-- The expression that starts with the identifier `x`, which has been taken. -/
def afterIdentifier (argument : Parser Expr) (x : Identifier) : Parser Expr := do
  if ← accept (.punct .lparen) then
    let args ← arguments argument
    return .call x args (← spanFrom x.span)
  else return .identifier x

/-- An expression in which fewer than `depth` calls stand inside one another. -/
def expressionWithin : Nat → Parser Expr
  | 0 => unexpected .identifier
  | depth + 1 => do
    if (← current).token.startsLiteral then return .literal (← literal)
    else afterIdentifier (expressionWithin depth) (← identifier)

def expression : Parser Expr := do
  expressionWithin (← bound)

end Parser

end Yul
