import Yul.Text.Escape
import Yul.Token.Tiling

/-!
# Errors of a source text

Reading a source stops at its first error. `SourceError.Cause` says what is wrong; whether the
words of the source or their order is at fault follows from the cause.
-/

namespace Yul

/-- What may stand at a place instead of what stands there. -/
inductive Expectation where
  | mark (p : Punct)
  | keyword (k : Keyword)
  /-- an identifier that is a keyword in its place -/
  | word (text : String)
  | string
  | endOfInput
  | statement
  | identifier
  | literal
  | dataValue
  /-- a part of an object behind its code, or its end -/
  | objectItem
deriving DecidableEq, Repr

namespace Expectation

/-- The expectation as messages name it. -/
def description : Expectation → String
  | mark p => (Token.punct p).description
  | keyword k => (Token.keyword k).description
  | word text => s!"'{text}'"
  | string => (Token.string "").description
  | endOfInput => Token.endOfInput.description
  | statement => "statement"
  | identifier => "identifier"
  | literal => "literal"
  | dataValue => "data value"
  | objectItem => "'object', 'data' or '\x7d'"

end Expectation

namespace SourceError

inductive Cause where
  /-- a piece of the source that starts no token -/
  | unexpectedText (text : String)
  | badLiteral (e : Text.LiteralError)
  | expected (what : Expectation) (found : Token)
  | defaultNotLast
  | switchWithoutCases
deriving DecidableEq, Repr

/-- Which rules an error breaks: those of the words or those of their order. -/
inductive Stage where
  | lexical
  | syntactic
deriving DecidableEq, Repr

namespace Cause

def stage : Cause → Stage
  | unexpectedText _ | badLiteral _ => .lexical
  | expected _ _ | defaultNotLast | switchWithoutCases => .syntactic

def message : Cause → String
  | unexpectedText text => s!"unexpected character '{text}'"
  | badLiteral e => e.message
  | expected what found => s!"expected {what.description}, found {found.description}"
  | defaultNotLast => "the default case must be the last case of a switch"
  | switchWithoutCases => "switch statement without any cases"

end Cause

end SourceError

/-- The first error of a source text and the place where it stands. -/
structure SourceError where
  cause : SourceError.Cause
  span : Span
deriving DecidableEq, Repr

namespace SourceError

def stage (e : SourceError) : Stage :=
  e.cause.stage

def message (e : SourceError) : String :=
  e.cause.message

/-- The error in one line. -/
def text (e : SourceError) : String :=
  match e.stage with
  | .lexical => s!"Lexer error at {e.span.fieldText}: {e.message}"
  | .syntactic => s!"Parser error at {e.span.fieldText}: {e.message}"

end SourceError

end Yul
