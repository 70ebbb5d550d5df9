import Yul.Token.Tiling

/-!
# Reading tokens one by one

A reader hands out the items of a source in order and can look one token ahead. Looking ahead
keeps the token for the next read; a bad piece that is met while looking ahead is handed out at
once and not kept. Behind the last item the end of the input is read for ever.
-/

namespace Yul

/-- A source that is being read. -/
structure Reader where
  source : String
  /-- items that have not been read -/
  pending : List Item
  /-- a token that has been looked at -/
  peeked : Option Lexeme
deriving DecidableEq, Repr

namespace Reader

def ofSource (source : String) : Reader :=
  ⟨source, items source, none⟩

/-- The end of the input. -/
def endItem (r : Reader) : Item :=
  .lexeme ⟨.endOfInput, ⟨r.source.utf8ByteSize, r.source.utf8ByteSize⟩⟩

/-- Reads the next item. -/
def next (r : Reader) : Item × Reader :=
  match r.peeked with
  | some l => (.lexeme l, { r with peeked := none })
  | none =>
    match r.pending with
    | [] => (r.endItem, r)
    | i :: rest => (i, { r with pending := rest })

/-- Shows the next item, and keeps it if it is a token. -/
def peek (r : Reader) : Item × Reader :=
  match r.next with
  | (.lexeme l, r) => (.lexeme l, { r with peeked := some l })
  | (.bad text span, r) => (.bad text span, r)

end Reader

end Yul
