import Yul.Span

/-!
# Tokens

The words of the language. A token that carries text keeps it as it stands in the source: numbers
with their `0x`, strings with their quotes. `object`, `code` and `data` are identifiers; only the
place where they stand makes them more.
-/

namespace Yul

/-- A reserved word. -/
inductive Keyword where
  | function
  | letVar
  | ifTest
  | switch
  | caseArm
  | defaultArm
  | forLoop
  | breakLoop
  | continueLoop
  | leave
  | trueValue
  | falseValue
deriving DecidableEq, Repr

namespace Keyword

def all : List Keyword :=
  [function, letVar, ifTest, switch, caseArm, defaultArm, forLoop, breakLoop, continueLoop, leave,
    trueValue, falseValue]

/-- The word itself. -/
def text : Keyword → String
  | function => "function"
  | letVar => "let"
  | ifTest => "if"
  | switch => "switch"
  | caseArm => "case"
  | defaultArm => "default"
  | forLoop => "for"
  | breakLoop => "break"
  | continueLoop => "continue"
  | leave => "leave"
  | trueValue => "true"
  | falseValue => "false"

/-- The keyword spelled `text`, if it is one. -/
def ofText? (text : String) : Option Keyword :=
  all.find? (·.text == text)

end Keyword

/-- A mark of punctuation. -/
inductive Punct where
  | lbrace
  | rbrace
  | lparen
  | rparen
  | comma
  | assign
  | arrow
  | colon
deriving DecidableEq, Repr

namespace Punct

/-- The mark itself. -/
def text : Punct → String
  | lbrace => "\x7b"
  | rbrace => "\x7d"
  | lparen => "("
  | rparen => ")"
  | comma => ","
  | assign => ":="
  | arrow => "->"
  | colon => ":"

end Punct

/-- A token of the language, or the end of the source behind the last one. -/
inductive Token where
  | keyword (k : Keyword)
  | punct (p : Punct)
  | hexNumber (digits : String)
  | decimalNumber (digits : String)
  | string (raw : String)
  | hexString (raw : String)
  | identifier (name : String)
  | endOfInput
deriving DecidableEq, Repr

namespace Token

/-- Whether a literal starts with this token; every literal has one token. -/
def startsLiteral : Token → Bool
  | keyword k => k = .trueValue || k = .falseValue
  | hexNumber _ | decimalNumber _ | string _ | hexString _ => true
  | punct _ | identifier _ | endOfInput => false

/-- The text that a token carries, as it stands in the source. -/
def payload? : Token → Option String
  | hexNumber text | decimalNumber text | string text | hexString text | identifier text =>
    some text
  | keyword _ | punct _ | endOfInput => none

/-- The token as messages name it. -/
def description : Token → String
  | keyword k => s!"'{k.text}'"
  | punct p => s!"'{p.text}'"
  | hexNumber text | decimalNumber text => s!"number '{text}'"
  | string raw => s!"string {raw}"
  | hexString raw => s!"hex string {raw}"
  | identifier text => s!"identifier '{text}'"
  | endOfInput => "end of file"

end Token

/-- A token and the place where it stands. -/
structure Lexeme where
  token : Token
  span : Span
deriving DecidableEq, Repr

end Yul
