import TypedTree.Tree
import TypedTree.Decimal.Layout
/-! The canonical text of tree nodes, which diagnostics quote. Inferred types never show in it. -/

namespace TypedTree

mutual

def Expr.render : Expr → String
  | .call callee args _ => callee.render ++ "(" ++ ", ".intercalate (renderArgs args) ++ ")"
  | .arithmetic operator left right _ =>
    "(" ++ left.render ++ " " ++ operator.symbol ++ " " ++ right.render ++ ")"
  | .var name _ => name
  | .index base position _ => base.render ++ "[" ++ position.render ++ "]"
  | .property base name _ => base.render ++ "." ++ name
  | .string value _ => "\"" ++ value ++ "\""
  | .int value _ => toString value.toInt
  | .bool value _ => if value then "true" else "false"
  | .real value _ => Decimal.plain value

def renderArgs : List Expr → List String
  | [] => []
  | arg :: args => arg.render :: renderArgs args

end

mutual

def Stmt.render : Stmt → String
  | .declare name type value => type.render ++ " " ++ name ++ renderInitializer value
  | .assign target value => target.render ++ " = " ++ value.render
  | .branch condition thenBranch elseBranch =>
    "if (" ++ condition.render ++ ")\nthen " ++ thenBranch.render ++ renderElse elseBranch
  | .call callee args type => (Expr.call callee args type).render
  | .block lines => "\x7b\n" ++ renderLines lines ++ "\x7d"

def renderInitializer : Option Expr → String
  | none => ""
  | some value => " = " ++ value.render

def renderElse : Option Stmt → String
  | none => ""
  | some branch => "\nelse " ++ branch.render

def renderLines : List Stmt → String
  | [] => ""
  | line :: lines => line.render ++ "\n" ++ renderLines lines

end

namespace TypedName

def renderParameter (parameter : TypedName) : String :=
  parameter.type.render ++ " " ++ parameter.name

def renderProperty (property : TypedName) : String :=
  property.type.render ++ " " ++ property.name ++ ";"

end TypedName

def Decl.render : Decl → String
  | .function declaration =>
    exportMark declaration.exported ++ declaration.returns.render ++ " " ++ declaration.name ++ "(" ++
      ", ".intercalate (declaration.params.map TypedName.renderParameter) ++ ")"
  | .object declaration => exportMark declaration.exported ++ "type " ++ declaration.name
where
  exportMark (exported : Bool) : String := if exported then "export " else ""

def Import.render (entry : Import) : String := "import \"" ++ entry.path ++ "\""

end TypedTree
