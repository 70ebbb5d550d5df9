/-!
# Names and their order

Identifiers and type labels are texts. The empty label is the one type of the untyped dialect;
messages call it `default`.

Listings show names in the order in which they became known: first the labels and builtins of the
dialect, then identifiers as they are read. A name keeps its first place.
-/

namespace Yul

/-- An identifier. -/
abbrev Name := String

/-- The label of a type. -/
abbrev Label := String

/-- A label as messages show it. -/
def showLabel (label : Label) : String :=
  if label = "" then "default" else label

/-- Names separated by commas. -/
def joinNames (names : List Name) : String :=
  ", ".intercalate names

/-- The known names in order, each once. -/
structure NameTable where
  names : Array Name
deriving DecidableEq, Repr

namespace NameTable

def contains (t : NameTable) (name : Name) : Bool :=
  t.names.contains name

/-- `t` with `name` at its end, unless it is known. -/
def add (t : NameTable) (name : Name) : NameTable :=
  if t.contains name then t else ⟨t.names.push name⟩

def addAll (t : NameTable) (names : List Name) : NameTable :=
  names.foldl add t

/-- Place of a name; unknown names come last. -/
def rank (t : NameTable) (name : Name) : Nat :=
  t.names.toList.idxOf name

/-- `xs` in the order of their names. -/
def sortOn {α : Type} (t : NameTable) (name : α → Name) (xs : List α) : List α :=
  xs.mergeSort fun a b => t.rank (name a) ≤ t.rank (name b)

end NameTable

end Yul
