import Yul.Diagnostic
import Yul.SourceError
import Yul.Text.Utf8
import Yul.Text.Width

/-!
# Showing a place in a source

A report prints a message and, below it, the lines of the source that it is about, with marks
under the span. A span within one line has carets below it. A longer span has a bar along its
lines that bends to its first and last character; of many lines only the first ones and the last
two are shown.

Every printed line starts with a gutter that is wide enough for the line numbers.
-/

namespace Yul

/-- What is said about a place in a source. -/
structure Report where
  severity : Severity
  message : String
  span : Span
  /-- text behind the mark -/
  label : String := ""
  /-- text below the lines of the source -/
  note : Option String := none
deriving DecidableEq, Repr

namespace Report

def ofDiagnostic (d : Diagnostic) : Report where
  severity := d.severity
  message := d.message
  span := d.span
  note := some s!"kind: {d.category.text}"

def ofSourceError (e : SourceError) : Report where
  severity := .error
  message := match e.stage with
    | .lexical => "Lexer error"
    | .syntactic => "Syntax error"
  span := e.span
  label := e.message

/-! ## Lines -/

/-- A line of the source. -/
structure Line where
  number : Nat
  /-- offset of its first byte -/
  start : Nat
  /-- its characters, the end of the line included -/
  text : List Char
deriving DecidableEq, Repr

/-- Cuts a text behind every end of a line. -/
def splitLines : List Char → List (List Char)
  | [] => [[]]
  | c :: cs =>
    if c = '\n' then [c] :: splitLines cs
    else match splitLines cs with
      | [] => [[c]]
      | l :: ls => (c :: l) :: ls

/-- Numbers lines from `number` on; the first starts at byte `start`. -/
def numberLines (number start : Nat) : List (List Char) → List Line
  | [] => []
  | l :: ls => ⟨number, start, l⟩ :: numberLines (number + 1) (start + Text.byteLength l) ls

def linesOf (source : String) : List Line :=
  numberLines 1 0 (splitLines source.toList)

/-- The line that a byte lies in; a byte behind the end lies in the last line. -/
def lineAt (lines : List Line) (offset : Nat) : Line :=
  ((lines.filter fun l => l.start ≤ offset).getLast?).getD ⟨1, 0, []⟩

/-- A character of a line as it is shown. -/
structure Cell where
  /-- offset of its first byte in the line -/
  byte : Nat
  char : Char
  /-- number of columns that it fills -/
  width : Nat
deriving DecidableEq, Repr

def cellsFrom (byte column : Nat) : List Char → List Cell
  | [] => []
  | c :: cs =>
    let width := Text.charWidth column c
    ⟨byte, c, width⟩ :: cellsFrom (byte + c.utf8Size) (column + width) cs

namespace Line

/-- The characters that are shown: the end of the line is not. -/
def shown (l : Line) : List Char :=
  (l.text.reverse.dropWhile fun c => c = '\n' || c = '\r' || c = '\x00').reverse

def cells (l : Line) : List Cell :=
  cellsFrom 0 0 l.shown

/-- Number of bytes that are shown. -/
def shownBytes (l : Line) : Nat :=
  Text.byteLength l.shown

/-- The text of the line, with blanks for tabs. -/
def display (l : Line) : String :=
  String.ofList (l.cells.flatMap fun c =>
    if c.char = '\t' then List.replicate c.width ' ' else [c.char])

/-- Whether `c` is white space at the start of a line. -/
def isSpace (c : Char) : Bool :=
  let n := c.toNat
  (9 ≤ n && n ≤ 13) || n = 0x20 || n = 0x85 || n = 0xA0 || n = 0x1680
    || (0x2000 ≤ n && n ≤ 0x200A) || n = 0x2028 || n = 0x2029 || n = 0x202F || n = 0x205F
    || n = 0x3000

/-- Number of bytes before the first character that is not white space. -/
def indentBytes (l : Line) : Nat :=
  Text.byteLength (l.shown.takeWhile isSpace)

/-- The column, counted in characters from one, of a byte of the line. -/
def columnOf (l : Line) (byte : Nat) : Nat :=
  (cellsFrom 0 0 l.text).countP (·.byte < byte) + 1

/-- `mark` once for each column of the characters that satisfy `p`. -/
def underline (l : Line) (mark : Char) (p : Cell → Bool) : String :=
  String.ofList ((l.cells.takeWhile p).flatMap fun c => List.replicate c.width mark)

/-- Carets under the bytes from `start` up to `stop`, one at least; a place behind the last
character counts as a character. -/
def carets (l : Line) (start stop : Nat) : String :=
  let stop := max stop (start + 1)
  let cells := l.cells ++ [⟨l.shownBytes, '\x00', 1⟩]
  String.ofList (cells.flatMap fun c =>
    if max start c.byte < min stop (c.byte + c.char.utf8Size) then List.replicate c.width '^'
    else if c.byte < stop then List.replicate c.width ' '
    else [])

end Line

/-! ## Printing -/

/-- `n` with blanks in front, `width` characters wide. -/
def alignRight (width n : Nat) : String :=
  let digits := toString n
  String.ofList (List.replicate (width - digits.length) ' ') ++ digits

/-- A text behind the mark of a report. -/
def labelText (label : String) : String :=
  if label = "" then "" else " " ++ label

/-- How many lines are shown behind the first one of a long span. -/
def leadingLines : Nat := 3

/-- How many lines are shown before the last one of a long span. -/
def trailingLines : Nat := 1

/-- How the bar beside a long span meets a line. -/
inductive Bar where
  /-- bends to the character at a byte of the line -/
  | starts (byte : Nat)
  | passes
  /-- bends to the character before a byte of the line -/
  | ends (byte : Nat)
  | absent
deriving DecidableEq, Repr

/-- The bar of a span that starts in line `first` and stops in line `last`, at line `l`. The bar
of a span that stops before it starts has no part between its ends. -/
def barAt (span : Span) (first last l : Line) : Bar :=
  if l.number = first.number then .starts (span.start - first.start)
  else if l.number = last.number then .ends (span.stop - last.start)
  else if first.number < l.number && l.number < last.number then .passes
  else .absent

/-- Whether a line is shown for the sake of a span from line `first` to line `last`. -/
def isShown (first last number : Nat) : Bool :=
  number = first || number = last
    || (first < number && number < last
      && (number - first ≤ leadingLines || last - number ≤ trailingLines))

section Printing

variable (pad : Nat)

/-- A gutter without number. -/
def gutter : String :=
  String.ofList (List.replicate (pad + 1) ' ')

/-- A line of the source behind its number. -/
def sourceLine (l : Line) (bar : String) : String :=
  s!"{alignRight pad l.number} │{bar} {l.display}"

/-- The lines that show a span within one line. -/
def shortSpan (r : Report) (l : Line) : List String :=
  [sourceLine pad l "",
    s!"{gutter pad}│ {l.carets (r.span.start - l.start) (r.span.stop - l.start)}"
      ++ labelText r.label]

/-- A line of the source beside the bar of a long span. The bar starts beside a line in which
only white space stands before the span, else below it. -/
def barLines (label : String) (l : Line) : Bar → List String
  | .starts byte =>
    if byte ≤ l.indentBytes then [sourceLine pad l " ╭"]
    else [sourceLine pad l "  ",
      gutter pad ++ "│ ╭" ++ l.underline '─' (·.byte ≤ byte) ++ "^"]
  | .passes => [sourceLine pad l " │"]
  | .ends byte =>
    [sourceLine pad l " │",
      gutter pad ++ "│ ╰" ++ l.underline '─' (·.byte < byte) ++ "^" ++ labelText label]
  | .absent => [sourceLine pad l "  "]

/-- The lines that show a span over several lines. Of the lines that are not shown, a single one is
printed all the same, and more are marked by one line together. -/
def longSpan (r : Report) (lines : List Line) (first last : Line) : List String :=
  let touched := lines.filter fun l =>
    min first.number last.number ≤ l.number && l.number ≤ max first.number last.number
  let shown := fun l => isShown first.number last.number l.number
  let print := fun l => barLines pad r.label l (barAt r.span first last l)
  let rest := touched.dropWhile shown
  let left := match rest.takeWhile fun l => !shown l with
    | [] => []
    | [l] => print l
    | _ => [s!"{gutter pad}· │"]
  (touched.takeWhile shown).flatMap print ++ left
    ++ (rest.dropWhile fun l => !shown l).flatMap print

end Printing

/-- The whole report about a source of the given name. -/
def render (r : Report) (file source : String) : String :=
  let lines := linesOf source
  let first := lineAt lines r.span.start
  let last := lineAt lines r.span.stop
  let pad := (toString (max first.number last.number)).length
  let column := first.columnOf (r.span.start - first.start)
  let isLong := first.number ≠ last.number
  let empty := gutter pad ++ "│" ++ if isLong then "  " else ""
  let body := if isLong then longSpan pad r lines first last else shortSpan pad r first
  let note := match r.note with
    | some text => [empty, s!"{gutter pad}= {text}"]
    | none => []
  String.join
    (([s!"{r.severity.text}: {r.message}",
      s!"{gutter pad}┌─ {file}:{first.number}:{column}",
      empty] ++ body ++ note ++ [""]).map (· ++ "\n"))

end Report

end Yul
