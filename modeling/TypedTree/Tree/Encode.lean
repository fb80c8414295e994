import TypedTree.Tree
import TypedTree.Json.Writer
/-! The JSON form of program trees. Fields come in a fixed order; an absent type, initializer,
else-branch or parameter list is left out; the programs behind imports are never written. -/

namespace TypedTree

def optionalField (name : String) : Option Json → List (String × Json)
  | none => []
  | some value => [(name, value)]

mutual

def Ty.encode : Ty → Json
  | ⟨name, isArray, params⟩ =>
    .object ([("name", .text name), ("isArray", .bool isArray)] ++ optionalField "params" (encodeParams params))

def Ty.encodeParams : Option (List Ty) → Option Json
  | none => none
  | some params => some (.list (encodeList params))

def Ty.encodeList : List Ty → List Json
  | [] => []
  | type :: types => type.encode :: encodeList types

end

def typeField (type : Option Ty) : List (String × Json) :=
  optionalField "type" (type.map Ty.encode)

/-- Reals that are not finite have no JSON number. -/
def encodeReal (value : Float) : Json := if value.isFinite then .real value else .null

def Json.node (kind : String) (fields : List (String × Json)) : Json :=
  .object (("kind", .text kind) :: fields)

mutual

def Expr.encode : Expr → Json
  | .call callee args type =>
    .node "methodCall" ([("from", callee.encode), ("args", .list (encodeArgs args))] ++ typeField type)
  | .arithmetic operator left right type =>
    .node "arithmetic" ([("operator", .text operator.symbol), ("left", left.encode),
      ("right", right.encode)] ++ typeField type)
  | .var name type => .node "variable" ([("name", .text name)] ++ typeField type)
  | .index base position type =>
    .node "indexing" ([("from", base.encode), ("index", position.encode)] ++ typeField type)
  | .property base name type =>
    .node "propertyAccess" ([("from", base.encode), ("to", .text name)] ++ typeField type)
  | .string value type => .node "stringValue" ([("value", .text value)] ++ typeField type)
  | .int value type => .node "intValue" ([("value", .int value.toInt)] ++ typeField type)
  | .bool value type => .node "boolValue" ([("value", .bool value)] ++ typeField type)
  | .real value type => .node "realValue" ([("value", encodeReal value)] ++ typeField type)

def encodeArgs : List Expr → List Json
  | [] => []
  | arg :: args => arg.encode :: encodeArgs args

end

mutual

def Stmt.encode : Stmt → Json
  | .declare name type value =>
    .node "let" ([("name", .text name), ("type", type.encode)] ++
      optionalField "assignment" (value.map Expr.encode))
  | .assign target value => .node "assignment" [("to", target.encode), ("value", value.encode)]
  | .branch condition thenBranch elseBranch =>
    .node "if" ([("condition", condition.encode), ("then", thenBranch.encode)] ++
      optionalField "elseThen" (encodeElse elseBranch))
  | .call callee args type => (Expr.call callee args type).encode
  | .block lines => .node "scope" [("lines", .list (encodeLines lines))]

def encodeElse : Option Stmt → Option Json
  | none => none
  | some branch => some branch.encode

def encodeLines : List Stmt → List Json
  | [] => []
  | line :: lines => line.encode :: encodeLines lines

end

def encodeScope (lines : List Stmt) : Json := .object [("lines", .list (encodeLines lines))]

def TypedName.encode (entry : TypedName) : Json :=
  .object [("name", .text entry.name), ("type", entry.type.encode)]

def FunctionDecl.encodeFields (declaration : FunctionDecl) : List (String × Json) :=
  [("exported", .bool declaration.exported), ("name", .text declaration.name),
    ("type", declaration.returns.encode),
    ("params", .list (declaration.params.map TypedName.encode)), ("body", encodeScope declaration.body)]

def Decl.encode : Decl → Json
  | .function declaration => .node "function" declaration.encodeFields
  | .object declaration =>
    .node "object" [("exported", .bool declaration.exported), ("name", .text declaration.name),
      ("properties", .list (declaration.properties.map TypedName.encode))]

def Import.encode (entry : Import) : Json := .object [("path", .text entry.path)]

def Program.encode (program : Program) : Json :=
  .object [("imports", .list (program.imports.map Import.encode)),
    ("nodes", .list (program.decls.map Decl.encode))]

def Program.emit (program : Program) : String := program.encode.pretty 0

end TypedTree
