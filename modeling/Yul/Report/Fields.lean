import Yul.Text.Unseen

/-!
# Dumps of values

A value is dumped with the names of its parts, one part a line, each level indented by four
blanks. A value without parts takes no extra line.
-/

namespace Yul

/-- The parts of a value. -/
inductive Fields where
  | plain (text : String)
  | quoted (text : String)
  /-- named parts between braces -/
  | record (name : String) (parts : List (String × Fields))
  /-- parts between parentheses -/
  | wrapped (name : String) (part : Fields)
  | list (parts : List Fields)

namespace Fields

def ofNat (n : Nat) : Fields :=
  .plain (toString n)

def ofOption : Option Fields → Fields
  | none => .plain "None"
  | some part => .wrapped "Some" part

/-- The start of a line at the given depth. -/
def indent (depth : Nat) : String :=
  String.ofList (List.replicate (4 * depth) ' ')

mutual

/-- A value at the given depth; the first line carries no indent. -/
def textAt (depth : Nat) : Fields → String
  | .plain text => text
  | .quoted text => Text.quote text
  | .record name parts =>
    s!"{name} \x7b\n" ++ recordText (depth + 1) parts ++ indent depth ++ "\x7d"
  | .wrapped name part =>
    s!"{name}(\n" ++ indent (depth + 1) ++ textAt (depth + 1) part ++ ",\n" ++ indent depth ++ ")"
  | .list [] => "[]"
  | .list (part :: parts) =>
    "[\n" ++ listText (depth + 1) (part :: parts) ++ indent depth ++ "]"

def recordText (depth : Nat) : List (String × Fields) → String
  | [] => ""
  | (name, part) :: rest =>
    indent depth ++ name ++ ": " ++ textAt depth part ++ ",\n" ++ recordText depth rest

def listText (depth : Nat) : List Fields → String
  | [] => ""
  | part :: rest => indent depth ++ textAt depth part ++ ",\n" ++ listText depth rest

end

def text (f : Fields) : String :=
  f.textAt 0

end Fields

end Yul
