import Yul.Text.Numeral
import Yul.Text.Utf8

/-!
# String literals

The bytes that a string literal denotes. Between its quotes a character stands for its UTF-8
bytes, and a backslash starts an escape: a letter or mark for one byte, `\x` with two digits for a
byte, `\u` with four digits for the UTF-8 bytes of a character. A hexadecimal literal is a row of
pairs of digits behind `hex`.

The digits of an escape are the next two or four characters, or fewer at the end of the literal,
and may have a plus sign in front.
-/

namespace Yul.Text

/-- Why a literal denotes no bytes. -/
inductive LiteralError where
  /-- no quotes around a string -/
  | malformedString
  | badByteEscape
  | badCharEscape
  | unknownEscape
  /-- no `hex` and quotes, or a character that is no digit -/
  | malformedHexString
  | oddHexString
deriving DecidableEq, Repr

namespace LiteralError

def message : LiteralError → String
  | malformedString => "malformed string literal"
  | badByteEscape => "invalid \\x escape"
  | badCharEscape => "invalid \\u escape"
  | unknownEscape => "invalid escape sequence"
  | malformedHexString => "malformed hex string"
  | oddHexString => "hex string needs an even number of digits"

end LiteralError

/-- The character of a code point, if there is one. -/
def charOfCode? (n : Nat) : Option Char :=
  if n.isValidChar then some (Char.ofNat n) else none

/-- The bytes of the escape that `cs` starts with, behind its backslash, and its length. -/
def escape : List Char → Except LiteralError (List UInt8 × Nat)
  | 'n' :: _ => .ok ([10], 1)
  | 'r' :: _ => .ok ([13], 1)
  | 't' :: _ => .ok ([9], 1)
  | '\\' :: _ => .ok ([92], 1)
  | '"' :: _ => .ok ([34], 1)
  | '\'' :: _ => .ok ([39], 1)
  | 'x' :: cs =>
    match signedNumeral? 16 (cs.take 2) with
    | some n => .ok ([UInt8.ofNat n], 3)
    | none => .error .badByteEscape
  | 'u' :: cs =>
    match (signedNumeral? 16 (cs.take 4)).bind charOfCode? with
    | some c => .ok (encodeChar c, 5)
    | none => .error .badCharEscape
  | _ => .error .unknownEscape

/-- The bytes that the characters between two quotes denote. -/
def unescape : List Char → Except LiteralError (List UInt8)
  | [] => .ok []
  | c :: cs =>
    if c = '\\' then do
      let (bytes, length) ← escape cs
      return bytes ++ (← unescape (cs.drop length))
    else return encodeChar c ++ (← unescape cs)
termination_by cs => cs.length
decreasing_by
  · simp only [List.length_drop, List.length_cons]; omega
  · simp

/-- `cs` without `opening` in front and a quote at the end. -/
def unquote? (opening : List Char) (cs : List Char) : Option (List Char) := do
  let tail ← if opening.isPrefixOf cs then some (cs.drop opening.length) else none
  if tail.getLast? = some '"' then some tail.dropLast else none

/-- The bytes of a string literal, quotes included. -/
def decodeString (raw : List Char) : Except LiteralError (List UInt8) :=
  match unquote? ['"'] raw with
  | some cs => unescape cs
  | none => .error .malformedString

/-- The bytes that pairs of digits denote. -/
def hexBytes : List Char → Except LiteralError (List UInt8)
  | [] => .ok []
  | [_] => .error .oddHexString
  | a :: b :: cs =>
    match signedNumeral? 16 [a, b] with
    | some n => return UInt8.ofNat n :: (← hexBytes cs)
    | none => .error .malformedHexString

/-- The bytes of a hexadecimal literal, `hex` and quotes included. -/
def decodeHexString (raw : List Char) : Except LiteralError (List UInt8) :=
  match unquote? ['h', 'e', 'x', '"'] raw with
  | some cs => if byteLength cs % 2 = 0 then hexBytes cs else .error .oddHexString
  | none => .error .malformedHexString

end Yul.Text
