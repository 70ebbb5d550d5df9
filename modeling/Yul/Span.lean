/-!
# Spans of a source text

A span is a half-open range of byte positions in the UTF-8 form of a source text. Every token,
tree node and finding carries one.
-/

namespace Yul

/-- The bytes from `start` up to, not including, `stop`. -/
structure Span where
  start : Nat
  stop : Nat
deriving DecidableEq, Repr, Inhabited

namespace Span

/-- The smallest span that covers both. -/
def merge (a b : Span) : Span :=
  ⟨min a.start b.start, max a.stop b.stop⟩

/-- Number of bytes; a reversed pair counts as empty. -/
def length (s : Span) : Nat :=
  s.stop - s.start

def isEmpty (s : Span) : Bool :=
  s.length == 0

/-- The range as findings write it: `4..9`. -/
def text (s : Span) : String :=
  s!"{s.start}..{s.stop}"

/-- The range as dumps and syntax errors write it, with its field names. -/
def fieldText (s : Span) : String :=
  s!"Span \x7b start: {s.start}, end: {s.stop} \x7d"

theorem merge_comm (a b : Span) : a.merge b = b.merge a := by
  simp [merge, Nat.min_comm, Nat.max_comm]

theorem merge_assoc (a b c : Span) : (a.merge b).merge c = a.merge (b.merge c) := by
  simp [merge, Nat.min_assoc, Nat.max_assoc]

end Span

end Yul
