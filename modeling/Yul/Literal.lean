import Yul.NameTable
import Yul.Span
import Yul.Text.Utf8
import Yul.Word

/-!
# Literals

A literal keeps its value as it is written and the type written behind it. The word that it
denotes is computed where it is asked for.
-/

namespace Yul

/-- The value of a literal as it is written. -/
inductive LiteralValue where
  /-- decimal digits, or hexadecimal ones behind `0x` -/
  | number (digits : String)
  /-- the bytes of a string -/
  | bytes (bytes : List UInt8)
  | truth (value : Bool)
deriving DecidableEq, Repr

structure Literal where
  value : LiteralValue
  type : Option Label
  span : Span
deriving DecidableEq, Repr

namespace Literal

def isString (l : Literal) : Bool :=
  match l.value with
  | .bytes _ => true
  | .number _ | .truth _ => false

/-- The literal as messages show it. -/
def text (l : Literal) : String :=
  match l.value with
  | .number digits => digits
  | .bytes bytes => s!"\"{Text.decodeLossy bytes}\""
  | .truth value => toString value

/-- The word that a literal denotes; none if it does not fit. -/
def word? (l : Literal) : Option Word :=
  match l.value with
  | .number digits => Word.literal? digits.toList
  | .bytes bytes => Word.leftAligned? bytes
  | .truth true => some .one
  | .truth false => some .zero

end Literal

end Yul
