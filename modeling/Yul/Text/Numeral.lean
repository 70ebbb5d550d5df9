/-!
# Classes of characters and numerals

A class of characters is given by ranges of code points in ascending order. A search ends at the
first range that starts behind the character.

Digits of a radix up to 36 and the natural number that a row of them denotes: letters of either
case stand for the digits from ten on.
-/

namespace Yul.Text

/-- Ranges of code points in ascending order, both ends included. -/
abbrev CharTable := List (Nat × Nat)

namespace CharTable

/-- Whether a code point lies in one of the ranges. -/
def hasCode (n : Nat) : CharTable → Bool
  | [] => false
  | (least, greatest) :: rest => least ≤ n && (n ≤ greatest || hasCode n rest)

def has (table : CharTable) (c : Char) : Bool :=
  table.hasCode c.toNat

end CharTable

/-- The value of `c` as a digit, whatever the radix. -/
def digitValue? (c : Char) : Option Nat :=
  if '0' ≤ c ∧ c ≤ '9' then some (c.toNat - '0'.toNat)
  else if 'a' ≤ c ∧ c ≤ 'z' then some (c.toNat - 'a'.toNat + 10)
  else if 'A' ≤ c ∧ c ≤ 'Z' then some (c.toNat - 'A'.toNat + 10)
  else none

/-- The value of `c` as a digit of `radix`. -/
def digit? (radix : Nat) (c : Char) : Option Nat :=
  (digitValue? c).filter (· < radix)

/-- The number that a non-empty row of digits denotes. -/
def numeral? (radix : Nat) : List Char → Option Nat
  | [] => none
  | cs => cs.foldlM (fun n c => (digit? radix c).map (n * radix + ·)) 0

/-- As `numeral?`, with one plus sign allowed in front of the digits. -/
def signedNumeral? (radix : Nat) : List Char → Option Nat
  | '+' :: cs => numeral? radix cs
  | cs => numeral? radix cs

/-- The lower-case hexadecimal spelling of `n`, without leading zeros. -/
def hexDigits (n : Nat) : List Char :=
  Nat.toDigits 16 n

/-- `cs` with zeros in front, at least `width` characters long. -/
def padZeros (width : Nat) (cs : List Char) : List Char :=
  List.replicate (width - cs.length) '0' ++ cs

end Yul.Text
