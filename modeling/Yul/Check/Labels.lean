import Yul.Literal
import Yul.Problem

/-!
# Labels of literals and declared names

What is wrong with an annotation, a literal, a case of a switch or the use of a builtin can be
told without looking at the code around it. Each function here gives the problems in the order in
which they are reported.
-/

namespace Yul

namespace Dialect

/-- The label of a declared name. A label that is no type is kept, so that later comparisons with
it fail alike. -/
def declaredType (d : Dialect) (written : Option Label) : Label :=
  written.getD d.defaultType

/-- The problem of a written label: it is no type. -/
def labelProblems (d : Dialect) (label : Label) : List Problem :=
  if d.isType label then [] else [.notAType label]

/-- The problem of an annotation, if there is one. -/
def writtenProblems (d : Dialect) (written : Option Label) : List Problem :=
  (written.map d.labelProblems).getD []

/-- The label of a literal. -/
def literalType (d : Dialect) (l : Literal) : Label :=
  match l.type, l.value with
  | some type, _ => type
  | none, .truth _ => d.boolType
  | none, .number _ | none, .bytes _ => d.defaultType

/-- Whether a literal may carry a label: truth values carry the label of truth values, and in the
typed dialect nothing else does. -/
def canCarry (d : Dialect) (l : Literal) (label : Label) : Bool :=
  match l.value with
  | .truth _ => label = d.boolType
  | .number _ | .bytes _ => label ≠ d.boolType || d.boolType = d.defaultType

/-- The problem of a literal's value: it does not fit into a word. -/
def sizeProblems (l : Literal) : List Problem :=
  match l.value with
  | .number digits => if (Word.literal? digits.toList).isNone then [.numberTooLarge] else []
  | .bytes bytes =>
    if bytes.length > Word.maxBytes then [.stringTooLong bytes.length Word.maxBytes] else []
  | .truth _ => []

/-- The problems of a literal that is used as a value. -/
def literalProblems (d : Dialect) (l : Literal) : List Problem :=
  d.writtenProblems l.type ++ sizeProblems l
    ++ if d.canCarry l (d.literalType l) then [] else [.literalType (d.literalType l) l.text]

/-- The problem of a value whose label is not the expected one. -/
def valueProblems (expected given : Label) : List Problem :=
  if expected = given then [] else [.valueType expected given]

/-- The problems of using a builtin at all. -/
def builtinProblems (d : Dialect) (b : Builtin) : List Problem :=
  let unavailable := match b.since.filter (d.version < ·), b.lastIn.filter (· < d.version) with
    | some first, _ => [.tooNew b.name first d.version]
    | none, some last => [.tooOld b.name last d.version]
    | none, none => []
  unavailable ++ (b.deprecatedFrom.filter (· ≤ d.version)).toList.map (.deprecated b.name)

/-- The problem of a declared name: it belongs to builtins. -/
def namingProblems (name : Name) : List Problem :=
  if (Builtin.find? name).isSome then [.builtinName name]
  else if "verbatim".toList.isPrefixOf name.toList then [.reservedName name]
  else []

/-- The problems of the value of a case, where `subject` is the label of what is compared, if it
is known, and `seen` are the labels and words of the cases before. -/
def caseProblems (d : Dialect) (subject : Option Label) (seen : List (Label × Word))
    (l : Literal) : List Problem :=
  d.literalProblems l
    ++ (subject.map fun expected => valueProblems expected (d.literalType l)).getD []
    ++ match l.word? with
      | some w => if seen.contains (d.literalType l, w) then [.repeatedCase l.text] else []
      | none => []

end Dialect

end Yul
