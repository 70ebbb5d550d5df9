import Yul.Text.Numeral

/-!
# Words

The machine's values are words of 256 bits. A word is kept as four limbs of 64 bits, the least
significant first, so that every operation works limb by limb with a carry.

* `Word.ofDigits?` reads digits of a radix and refuses a number that does not fit.
* `Word.literal?` reads a number as Yul writes it.
* `Word.leftAligned?` lays up to 32 bytes into the most significant end of a word.
* `Word.text` writes a word in hexadecimal without leading zeros.
-/

namespace Yul

/-- A 256-bit value; `limb0` is the least significant limb. -/
structure Word where
  limb0 : UInt64
  limb1 : UInt64
  limb2 : UInt64
  limb3 : UInt64
deriving DecidableEq, Repr, Inhabited

namespace Word

/-- Number of values of a limb. -/
def limbBase : Nat := UInt64.size

/-- The number that a word stands for. -/
def toNat (w : Word) : Nat :=
  w.limb0.toNat + limbBase * (w.limb1.toNat + limbBase * (w.limb2.toNat
    + limbBase * w.limb3.toNat))

def zero : Word := ⟨0, 0, 0, 0⟩

def one : Word := ⟨1, 0, 0, 0⟩

def ofUInt64 (n : UInt64) : Word := ⟨n, 0, 0, 0⟩

def isZero (w : Word) : Bool :=
  w.limb0 == 0 && w.limb1 == 0 && w.limb2 == 0 && w.limb3 == 0

/-- One limb of a product: its low part and the carry into the next limb. -/
def mulAddLimb (limb : UInt64) (factor carry : Nat) : UInt64 × Nat :=
  let wide := limb.toNat * factor + carry
  (UInt64.ofNat (wide % limbBase), wide / limbBase)

/-- `w * factor + summand`, if that is a word. -/
def mulAdd? (w : Word) (factor summand : Nat) : Option Word :=
  let (limb0, carry0) := mulAddLimb w.limb0 factor summand
  let (limb1, carry1) := mulAddLimb w.limb1 factor carry0
  let (limb2, carry2) := mulAddLimb w.limb2 factor carry1
  let (limb3, carry3) := mulAddLimb w.limb3 factor carry2
  if carry3 = 0 then some ⟨limb0, limb1, limb2, limb3⟩ else none

/-- The word that a non-empty row of digits denotes; none if the number does not fit. -/
def ofDigits? (radix : Nat) : List Char → Option Word
  | [] => none
  | cs => cs.foldlM (fun w c => (Text.digit? radix c).bind (w.mulAdd? radix ·)) zero

/-- A number as it stands in a source text: hexadecimal behind `0x`, else decimal. -/
def literal? : List Char → Option Word
  | '0' :: 'x' :: digits => ofDigits? 16 digits
  | digits => ofDigits? 10 digits

/-- Number of bytes of a word. -/
def maxBytes : Nat := 32

/-- The number that bytes denote, the most significant first. -/
def bigEndian (bytes : List UInt8) : Nat :=
  bytes.foldl (fun n b => n * 256 + b.toNat) 0

/-- The word whose most significant bytes are `bytes`, followed by zeros. -/
def leftAligned? (bytes : List UInt8) : Option Word :=
  if bytes.length > maxBytes then none
  else
    let padded := bytes ++ List.replicate (maxBytes - bytes.length) 0
    let limb (k : Nat) : UInt64 := UInt64.ofNat (bigEndian ((padded.drop (8 * k)).take 8))
    some ⟨limb 3, limb 2, limb 1, limb 0⟩

/-- The order of the numbers, decided at the most significant limb that differs. -/
def compare (a b : Word) : Ordering :=
  (Ord.compare a.limb3 b.limb3).then <| (Ord.compare a.limb2 b.limb2).then <|
    (Ord.compare a.limb1 b.limb1).then (Ord.compare a.limb0 b.limb0)

instance : Ord Word := ⟨compare⟩

/-- The hexadecimal digits of a row of limbs, the most significant first: limbs that are zero are
left out up to the first that is not, and every later limb is written in full. -/
def limbDigits : List UInt64 → List Char
  | [] => ['0']
  | limb :: rest =>
    if limb == 0 then limbDigits rest
    else Text.hexDigits limb.toNat
      ++ rest.flatMap fun l => Text.padZeros 16 (Text.hexDigits l.toNat)

/-- A word in hexadecimal, without leading zeros. -/
def text (w : Word) : String :=
  String.ofList ('0' :: 'x' :: limbDigits [w.limb3, w.limb2, w.limb1, w.limb0])

end Word

end Yul
