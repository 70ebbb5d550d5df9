/-!
# UTF-8

`decodeLossy` reads bytes as UTF-8 and never fails: each longest piece that starts a character
without completing it, and each byte that starts none, becomes one replacement character.

A character of several bytes is read by a small machine. After its first byte `Partial` holds how
many continuation bytes are owed, the least and the greatest value that the next one may have,
and the bits read so far; the narrower range after the first byte rules out overlong forms,
surrogates and values beyond the last code point.
-/

namespace Yul.Text

/-- The character that stands for bytes that are not UTF-8. -/
def replacement : Char := '\uFFFD'

/-- A character whose first bytes have been read. -/
structure Partial where
  /-- continuation bytes still owed -/
  owed : Nat
  least : Nat
  greatest : Nat
  /-- value of the bits read so far -/
  bits : Nat
deriving DecidableEq, Repr

/-- What the first byte of a character leads to. -/
inductive Lead where
  | whole (c : Char)
  | begun (p : Partial)
  | bad
deriving DecidableEq, Repr

/-- The machine's first step. -/
def lead (byte : UInt8) : Lead :=
  let b := byte.toNat
  if b < 0x80 then .whole (Char.ofNat b)
  else if b < 0xC2 then .bad
  else if b < 0xE0 then .begun ⟨1, 0x80, 0xBF, b - 0xC0⟩
  else if b < 0xF0 then
    .begun ⟨2, if b = 0xE0 then 0xA0 else 0x80, if b = 0xED then 0x9F else 0xBF, b - 0xE0⟩
  else if b < 0xF5 then
    .begun ⟨3, if b = 0xF0 then 0x90 else 0x80, if b = 0xF4 then 0x8F else 0xBF, b - 0xF0⟩
  else .bad

/-- Decodes `bytes` behind an unfinished character, if there is one. -/
def decodeFrom : Option Partial → List UInt8 → List Char
  | none, [] => []
  | some _, [] => [replacement]
  | none, b :: bs => restart b bs
  | some p, b :: bs =>
    if p.least ≤ b.toNat ∧ b.toNat ≤ p.greatest then
      let bits := p.bits * 64 + (b.toNat - 0x80)
      if p.owed ≤ 1 then Char.ofNat bits :: decodeFrom none bs
      else decodeFrom (some ⟨p.owed - 1, 0x80, 0xBF, bits⟩) bs
    else replacement :: restart b bs
where
  /-- Takes `b` as the first byte of a character. -/
  restart (b : UInt8) (bs : List UInt8) : List Char :=
    match lead b with
    | .whole c => c :: decodeFrom none bs
    | .begun p => decodeFrom (some p) bs
    | .bad => replacement :: decodeFrom none bs

/-- The text that `bytes` encode, with a replacement character for every piece that is not
UTF-8. -/
def decodeLossy (bytes : List UInt8) : String :=
  String.ofList (decodeFrom none bytes)

/-- The bytes of one character. -/
def encodeChar (c : Char) : List UInt8 :=
  String.utf8EncodeChar c

/-- Number of bytes that `cs` take up in UTF-8. -/
def byteLength : List Char → Nat
  | [] => 0
  | c :: cs => c.utf8Size + byteLength cs

@[simp] theorem byteLength_nil : byteLength [] = 0 := rfl

@[simp] theorem byteLength_cons (c : Char) (cs : List Char) :
    byteLength (c :: cs) = c.utf8Size + byteLength cs := rfl

theorem byteLength_append (a b : List Char) :
    byteLength (a ++ b) = byteLength a + byteLength b := by
  induction a with
  | nil => simp
  | cons c cs ih => simp [ih, Nat.add_assoc]

end Yul.Text
