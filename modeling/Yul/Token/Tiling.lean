import Yul.Text.Utf8
import Yul.Token

/-!
# Cutting a source text into pieces

`tile` cuts a text into pieces that follow each other without a gap: blanks and comments, tokens,
and pieces that start no token. At each place the longest piece that fits a pattern is cut off.
Every pattern is given by the number of characters that it takes behind the first one, so a piece
is never empty and nothing of the text is lost or read twice (`flatMap_text_tile`).

`items` keeps the tokens and the bad pieces, each with its span, and closes the list with the end
of the input.
-/

namespace Yul

/-! ## Characters -/

def isBlank (c : Char) : Bool :=
  c = ' ' || c = '\t' || c = '\n' || c = '\r' || c = '\x0c'

def isDigit (c : Char) : Bool :=
  '0' ≤ c && c ≤ '9'

def isHexDigit (c : Char) : Bool :=
  isDigit c || ('a' ≤ c && c ≤ 'f') || ('A' ≤ c && c ≤ 'F')

/-- Whether an identifier may start with `c`. -/
def isNameStart (c : Char) : Bool :=
  ('a' ≤ c && c ≤ 'z') || ('A' ≤ c && c ≤ 'Z') || c = '_' || c = '$'

/-- Whether an identifier may go on with `c`. -/
def isNamePart (c : Char) : Bool :=
  isNameStart c || isDigit c || c = '.'

/-! ## Lengths of patterns -/

/-- Length of a comment's text behind its opening, the closing mark included. -/
def commentLength? : List Char → Option Nat
  | '*' :: '/' :: _ => some 2
  | _ :: cs => (commentLength? cs).map (1 + ·)
  | [] => none

/-- Length of a string behind its opening quote, the closing quote included. A backslash takes the
character behind it along; neither may be followed by the end of the line. -/
def stringLength? : List Char → Option Nat
  | '"' :: _ => some 1
  | '\\' :: c :: cs => if c = '\n' then none else (stringLength? cs).map (2 + ·)
  | c :: cs => if c = '\n' || c = '\\' then none else (stringLength? cs).map (1 + ·)
  | [] => none

/-- Length of the rest of a line that a string without closing quote takes along: up to the end of
the line, or to a backslash that stands there. -/
def openStringLength : List Char → Nat
  | '\\' :: c :: cs => if c = '\n' then 0 else 2 + openStringLength cs
  | c :: cs => if c = '\n' || c = '\\' then 0 else 1 + openStringLength cs
  | [] => 0

/-- Length of a hexadecimal string behind its opening quote, the closing quote included. -/
def hexStringLength? : List Char → Option Nat
  | '"' :: _ => some 1
  | a :: b :: cs =>
    if isHexDigit a && isHexDigit b then (hexStringLength? cs).map (2 + ·) else none
  | _ => none

/-- Length of the pairs of digits that a hexadecimal string without closing quote takes along; a
pair at the end of the text is left. -/
def openHexLength : List Char → Nat
  | a :: b :: c :: cs =>
    if isHexDigit a && isHexDigit b then 2 + openHexLength (c :: cs) else 0
  | _ => 0

/-! ## Pieces -/

/-- What a piece of the source is. -/
inductive Shape where
  /-- blanks or a comment -/
  | trivia
  | punct (p : Punct)
  | decimal
  | hex
  | string
  | hexString
  /-- a keyword or an identifier -/
  | word
  /-- the start of no token -/
  | unknown
deriving DecidableEq, Repr

/-- The shape of the piece that starts with `c`, and how many of the characters `cs` behind `c`
belong to it. -/
def shapeOf (c : Char) (cs : List Char) : Shape × Nat :=
  if isBlank c then (.trivia, (cs.takeWhile isBlank).length)
  else if isDigit c then
    match c, cs with
    | '0', 'x' :: r =>
      match r.takeWhile isHexDigit with
      | [] => (.decimal, 0)
      | digits => (.hex, 1 + digits.length)
    | _, _ => (.decimal, (cs.takeWhile isDigit).length)
  else if isNameStart c then
    match c, cs with
    | 'h', 'e' :: 'x' :: '"' :: r =>
      match hexStringLength? r with
      | some n => (.hexString, 3 + n)
      | none => (.unknown, 3 + openHexLength r)
    | _, _ => (.word, (cs.takeWhile isNamePart).length)
  else
    match c, cs with
    | '{', _ => (.punct .lbrace, 0)
    | '}', _ => (.punct .rbrace, 0)
    | '(', _ => (.punct .lparen, 0)
    | ')', _ => (.punct .rparen, 0)
    | ',', _ => (.punct .comma, 0)
    | ':', '=' :: _ => (.punct .assign, 1)
    | ':', _ => (.punct .colon, 0)
    | '-', '>' :: _ => (.punct .arrow, 1)
    | '/', '/' :: r => (.trivia, 1 + (r.takeWhile (· ≠ '\n')).length)
    | '/', '*' :: r =>
      match commentLength? r with
      | some n => (.trivia, 1 + n)
      | none => (.unknown, cs.length)
    | '"', _ =>
      match stringLength? cs with
      | some n => (.string, n)
      | none => (.unknown, openStringLength cs)
    | _, _ => (.unknown, 0)

/-- A piece of the source. -/
structure Piece where
  shape : Shape
  text : List Char
deriving DecidableEq, Repr

/-- Cuts a text into its pieces. -/
def tile : List Char → List Piece
  | [] => []
  | c :: cs =>
    let (shape, n) := shapeOf c cs
    ⟨shape, c :: cs.take n⟩ :: tile (cs.drop n)
termination_by cs => cs.length
decreasing_by simp only [List.length_drop, List.length_cons]; omega

theorem flatMap_text_tile (cs : List Char) : (tile cs).flatMap Piece.text = cs := by
  fun_induction tile cs with
  | case1 => rfl
  | case2 c cs shape n _ ih => simp [ih]

theorem text_ne_nil_of_mem_tile {p : Piece} {cs : List Char} (h : p ∈ tile cs) :
    p.text ≠ [] := by
  fun_induction tile cs with
  | case1 => cases h
  | case2 c cs shape n _ ih =>
    rcases List.mem_cons.mp h with rfl | h
    · simp
    · exact ih h

/-! ## Items -/

/-- A token, or a piece of the source that starts none. -/
inductive Item where
  | lexeme (l : Lexeme)
  | bad (text : String) (span : Span)
deriving DecidableEq, Repr

/-- The token or bad piece that a piece amounts to. -/
def Piece.item? (p : Piece) (span : Span) : Option Item :=
  let text := String.ofList p.text
  match p.shape with
  | .trivia => none
  | .unknown => some (.bad text span)
  | .punct mark => token (.punct mark)
  | .decimal => token (.decimalNumber text)
  | .hex => token (.hexNumber text)
  | .string => token (.string text)
  | .hexString => token (.hexString text)
  | .word =>
    match Keyword.ofText? text with
    | some k => token (.keyword k)
    | none => token (.identifier text)
where
  token (t : Token) : Option Item := some (.lexeme ⟨t, span⟩)

/-- The items of a row of pieces that starts at byte `offset`, and the end behind them. -/
def locate (offset : Nat) : List Piece → List Item
  | [] => [.lexeme ⟨.endOfInput, ⟨offset, offset⟩⟩]
  | p :: ps =>
    let stop := offset + Text.byteLength p.text
    (p.item? ⟨offset, stop⟩).toList ++ locate stop ps

/-- The items of a source text. -/
def items (source : String) : List Item :=
  locate 0 (tile source.toList)

end Yul
