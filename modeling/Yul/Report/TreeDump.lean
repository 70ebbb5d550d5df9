import Yul.NameTable
import Yul.Object
import Yul.Report.Fields

/-!
# Dumps of objects

The tree of an object with all of its parts. A name is shown by its place among the known names,
counted from one.
-/

namespace Yul

namespace Span

def fields (s : Span) : Fields :=
  .record "Span" [("start", .ofNat s.start), ("end", .ofNat s.stop)]

end Span

namespace NameTable

variable (t : NameTable)

def nameFields (name : Name) : Fields :=
  .wrapped "Name" (.record "SymbolU32" [("value", .ofNat (t.rank name + 1))])

def typeFields (type : Option Label) : Fields :=
  .ofOption (type.map t.nameFields)

def identifierFields (x : Identifier) : Fields :=
  .record "Identifier" [("name", t.nameFields x.name), ("span", x.span.fields)]

def typedNameFields (x : TypedName) : Fields :=
  .record "TypedName"
    [("name", t.nameFields x.name), ("ty", t.typeFields x.type), ("span", x.span.fields)]

def valueFields : LiteralValue → Fields
  | .number digits => .wrapped "Number" (.quoted digits)
  | .bytes bytes => .wrapped "String" (.list (bytes.map fun b => .ofNat b.toNat))
  | .truth value => .wrapped "Boolean" (.plain (toString value))

def literalFields (l : Literal) : Fields :=
  .record "Literal"
    [("value", valueFields l.value), ("ty", t.typeFields l.type), ("span", l.span.fields)]

mutual

def exprFields : Expr → Fields
  | .literal l => kind (.wrapped "Literal" (t.literalFields l)) l.span
  | .identifier x => kind (.wrapped "Identifier" (t.identifierFields x)) x.span
  | .call f args span =>
    kind (.wrapped "FunctionCall" (.record "FunctionCall"
      [("function_name", t.identifierFields f), ("arguments", .list (exprListFields args))])) span
where
  kind (what : Fields) (span : Span) : Fields :=
    .record "Expr" [("kind", what), ("span", span.fields)]

def exprListFields : List Expr → List Fields
  | [] => []
  | e :: rest => exprFields e :: exprListFields rest

end

def typedNamesFields (xs : List TypedName) : Fields :=
  .list (xs.map t.typedNameFields)

mutual

def stmtFields : Stmt → Fields
  | .expression e => kind (.wrapped "Expression" (t.exprFields e)) e.span
  | .assignment targets value span =>
    kind (.record "Assignment" [("variables", .list (targets.map t.identifierFields)),
      ("value", t.exprFields value)]) span
  | .declaration declared value span =>
    kind (.record "VariableDeclaration" [("variables", t.typedNamesFields declared),
      ("value", .ofOption (value.map t.exprFields))]) span
  | .function f span => kind (.wrapped "FunctionDefinition" (functionFields f)) span
  | .ifThen condition body span =>
    kind (.record "If" [("condition", t.exprFields condition), ("body", blockFields body)]) span
  | .switch subject cases span =>
    kind (.record "Switch" [("expression", t.exprFields subject),
      ("cases", .list (caseListFields cases))]) span
  | .forLoop init condition post body span =>
    kind (.wrapped "ForLoop" (.record "ForLoop" [("pre", blockFields init),
      ("condition", t.exprFields condition), ("post", blockFields post),
      ("body", blockFields body)])) span
  | .breakLoop span => kind (.plain "Break") span
  | .continueLoop span => kind (.plain "Continue") span
  | .leave span => kind (.plain "Leave") span
  | .block b => kind (.wrapped "Block" (blockFields b)) b.span
where
  kind (what : Fields) (span : Span) : Fields :=
    .record "Stmt" [("kind", what), ("span", span.fields)]

def functionFields : FunctionDef → Fields
  | ⟨name, parameters, returns, body⟩ =>
    .record "FunctionDefinition" [("name", t.nameFields name.name),
      ("name_span", name.span.fields), ("parameters", t.typedNamesFields parameters),
      ("returns", t.typedNamesFields returns), ("body", blockFields body)]

def caseFields : Case → Fields
  | ⟨value, body, span⟩ =>
    .record "Case" [("value", .ofOption (value.map t.literalFields)), ("body", blockFields body),
      ("span", span.fields)]

def blockFields : Block → Fields
  | ⟨id, statements, span⟩ =>
    .record "Block" [("id", .wrapped "BlockId" (.ofNat id)),
      ("statements", .list (stmtListFields statements)), ("span", span.fields)]

def stmtListFields : List Stmt → List Fields
  | [] => []
  | s :: rest => stmtFields s :: stmtListFields rest

def caseListFields : List Case → List Fields
  | [] => []
  | c :: rest => caseFields c :: caseListFields rest

end

def dataFields (d : DataSection) : Fields :=
  .record "Data" [("name", .quoted d.name),
    ("value", .list (d.value.map fun b => .ofNat b.toNat)), ("span", d.span.fields)]

mutual

def objectFields : Object → Fields
  | ⟨name, code, objects, data, span⟩ =>
    .record "Object" [("name", .quoted name), ("code", t.blockFields code),
      ("objects", .list (objectListFields objects)), ("data", .list (data.map dataFields)),
      ("span", span.fields)]

def objectListFields : List Object → List Fields
  | [] => []
  | o :: rest => objectFields o :: objectListFields rest

end

end NameTable

end Yul
