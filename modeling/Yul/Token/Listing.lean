import Yul.SourceError
import Yul.Text.Unseen
import Yul.Token.Tiling

/-!
# Listing the tokens of a source

One line for each token, the end of the input included, with the name of the token's kind and the
text that it carries. A source with a bad piece has no listing.
-/

namespace Yul

namespace Keyword

/-- Name of the keyword's kind in a dump. -/
def kindName : Keyword → String
  | function => "Function"
  | letVar => "Let"
  | ifTest => "If"
  | switch => "Switch"
  | caseArm => "Case"
  | defaultArm => "Default"
  | forLoop => "For"
  | breakLoop => "Break"
  | continueLoop => "Continue"
  | leave => "Leave"
  | trueValue => "True"
  | falseValue => "False"

end Keyword

namespace Punct

/-- Name of the mark's kind in a dump. -/
def kindName : Punct → String
  | lbrace => "LBrace"
  | rbrace => "RBrace"
  | lparen => "LParen"
  | rparen => "RParen"
  | comma => "Comma"
  | assign => "Assign"
  | arrow => "Arrow"
  | colon => "Colon"

end Punct

namespace Token

/-- Name of the token's kind in a dump. -/
def kindName : Token → String
  | keyword k => k.kindName
  | punct p => p.kindName
  | hexNumber _ => "HexNumber"
  | decimalNumber _ => "DecimalNumber"
  | string _ => "StringLiteral"
  | hexString _ => "HexString"
  | identifier _ => "Identifier"
  | endOfInput => "Eof"

/-- The token with the name of its kind and its text in quotes. -/
def fieldText (t : Token) : String :=
  match t.payload? with
  | some text => s!"{t.kindName}({Text.quote text})"
  | none => t.kindName

end Token

namespace Lexeme

def fieldText (l : Lexeme) : String :=
  s!"Token \x7b kind: {l.token.fieldText}, span: {l.span.fieldText} \x7d"

end Lexeme

/-- The tokens of a row of items, or its first bad piece. -/
def lexemes : List Item → Except SourceError (List Lexeme)
  | [] => .ok []
  | .lexeme l :: rest => (l :: ·) <$> lexemes rest
  | .bad text span :: _ => .error ⟨.unexpectedText text, span⟩

/-- The tokens of a source, one line each. -/
def listTokens (source : String) : Except SourceError String :=
  (fun ls => String.join (ls.map fun l => l.fieldText ++ "\n")) <$> lexemes (items source)

end Yul
