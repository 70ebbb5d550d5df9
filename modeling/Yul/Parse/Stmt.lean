import Yul.Parse.Expr

/-!
# Reading statements

Every form of statement is told by its first token, except for assignments: they start with an
identifier as expressions do, and are told by the comma or `:=` behind it. The parsers of
statements are given the parser of the blocks inside them.
-/

namespace Yul

namespace Parser

/-- Statements up to a closing brace; `n` is more than the statements that can come. -/
def statements (statement : Parser Stmt) : Nat → Parser (List Stmt)
  | 0 => return []
  | n + 1 => do
    match (← current).token with
    | .punct .rbrace => return []
    | .endOfInput => unexpected (.mark .rbrace)
    | _ =>
      let s ← statement
      return s :: (← statements statement n)

/-- A block whose statements are read by `statement`. -/
def blockOf (statement : Parser Stmt) : Parser Block := do
  let l ← mark .lbrace
  let id ← freshBlock
  let body ← statements statement (← bound)
  let _ ← mark .rbrace
  return ⟨id, body, ← spanFrom l.span⟩

/-- The results of a function behind an arrow, if there are any. -/
def returns : Parser (List TypedName) := do
  if ← accept (.punct .arrow) then typedNames else return []

/-- The initial value of a declaration, if there is one. -/
def initialValue : Parser (Option Expr) := do
  if ← accept (.punct .assign) then return some (← expression) else return none

section Statements

variable (block : Parser Block)

def functionDef : Parser FunctionDef := do
  let _ ← keyword .function
  let name ← identifier
  let _ ← mark .lparen
  let parameters ← optionalList typedName
  let _ ← mark .rparen
  let returns ← returns
  let body ← block
  return ⟨name, parameters, returns, body⟩

/-- The rest of an arm of a switch that starts at `start`, its keyword taken. -/
def armBody (value : Option Literal) (start : Span) : Parser Case := do
  let body ← block
  return ⟨value, body, ← spanFrom start⟩

/-- The arms of a switch; `n` is more than the arms that can come. Nothing may follow the default
arm. -/
def arms : Nat → Parser (List Case)
  | 0 => return []
  | n + 1 => do
    let start := (← current).span
    if ← accept (.keyword .caseArm) then
      let value ← literal
      let arm ← armBody block (some value) start
      return arm :: (← arms n)
    else if ← accept (.keyword .defaultArm) then
      let arm ← armBody block none start
      let next ← current
      if next.token = .keyword .caseArm || next.token = .keyword .defaultArm then
        fail .defaultNotLast next.span
      return [arm]
    else return []

/-- The statement that starts with the identifier at hand. -/
def identifierStatement : Parser Stmt := do
  let first ← identifier
  let next := (← current).token
  if next = .punct .comma || next = .punct .assign then
    let others ← afterCommas identifier (← bound)
    let _ ← mark .assign
    let value ← expression
    return .assignment (first :: others) value (← spanFrom first.span)
  else
    return .expression (← afterIdentifier expression first)

def statement : Parser Stmt := do
  let start ← current
  match start.token with
  | .punct .lbrace => return .block (← block)
  | .keyword .function =>
    let f ← functionDef block
    return .function f (← spanFrom start.span)
  | .keyword .letVar =>
    let _ ← advance
    let declared ← typedNames
    let value ← initialValue
    return .declaration declared value (← spanFrom start.span)
  | .keyword .ifTest =>
    let _ ← advance
    let condition ← expression
    let body ← block
    return .ifThen condition body (← spanFrom start.span)
  | .keyword .switch =>
    let _ ← advance
    let subject ← expression
    let cases ← arms block (← bound)
    let span ← spanFrom start.span
    if cases.isEmpty then fail .switchWithoutCases span
    return .switch subject cases span
  | .keyword .forLoop =>
    let _ ← advance
    let init ← block
    let condition ← expression
    let post ← block
    let body ← block
    return .forLoop init condition post body (← spanFrom start.span)
  | .keyword .breakLoop =>
    let _ ← advance
    return .breakLoop (← spanFrom start.span)
  | .keyword .continueLoop =>
    let _ ← advance
    return .continueLoop (← spanFrom start.span)
  | .keyword .leave =>
    let _ ← advance
    return .leave (← spanFrom start.span)
  | .identifier _ => identifierStatement
  | token =>
    if token.startsLiteral then return .expression (← expression)
    else unexpected .statement

end Statements

/-- A block in which fewer than `depth` blocks stand inside one another. -/
def blockWithin : Nat → Parser Block
  | 0 => unexpected (.mark .lbrace)
  | depth + 1 => blockOf (statement (blockWithin depth))

def block : Parser Block := do
  blockWithin (← bound)

end Parser

end Yul
