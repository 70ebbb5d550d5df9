import Yul.Code

/-!
# Objects

An object holds code, named data, and further objects. Its code refers to data and objects by
name: the object's own name, the names of what it holds, and paths into the objects inside it,
whose parts are separated by dots. A name that holds a dot itself is never part of a path.
-/

namespace Yul

/-- Named bytes of an object. -/
structure DataSection where
  name : String
  value : List UInt8
  span : Span
deriving DecidableEq, Repr

/-- Code with named data and objects. A lone block of code is an object without a name. -/
structure Object where
  name : String
  code : Block
  objects : List Object
  data : List DataSection
  span : Span

/-- Whether a name can be part of a path. -/
def isPlainName (name : String) : Bool :=
  !name.toList.contains '.'

mutual

/-- The names and paths that the code of an object can refer to. -/
def Object.dataNames : Object → List String
  | ⟨name, _, objects, data, _⟩ =>
    (if name ≠ "" && isPlainName name then [name] else [])
      ++ (data.map DataSection.name).filter isPlainName
      ++ dataNamesOfObjects objects

/-- The names of objects, and the paths that lead into them. -/
def dataNamesOfObjects : List Object → List String
  | [] => []
  | o :: rest =>
    (if isPlainName o.name then
      o.name :: (o.dataNames.filter (· ≠ o.name)).map (o.name ++ "." ++ ·)
    else []) ++ dataNamesOfObjects rest

end

/-- `names` in alphabetical order, each once. -/
def sortedNames (names : List String) : List String :=
  names.eraseDups.mergeSort fun a b => decide (a ≤ b)

end Yul
