import TypedTree.Tree.Render
import TypedTree.Error
/-! Nodes of every sort as one type, with the parts directly below a node. -/

namespace TypedTree

inductive NodeKind where
  | program
  | importEntry
  | function
  | object
  | parameter
  | property
  | block
  | declare
  | assign
  | branch
  | call
  | arithmetic
  | var
  | index
  | propertyAccess
  | string
  | int
  | bool
  | real
deriving DecidableEq

namespace NodeKind

def all : List NodeKind :=
  [program, importEntry, function, object, parameter, property, block, declare, assign, branch, call,
    arithmetic, var, index, propertyAccess, string, int, bool, real]

def isStatement : NodeKind → Bool
  | block | declare | assign | branch | call => true
  | _ => false

/-- The kinds that occur as expressions. Calls are both. -/
def isExpression : NodeKind → Bool
  | call | arithmetic | var | index | propertyAccess | string | int | bool | real => true
  | _ => false

def name : NodeKind → String
  | program => "program"
  | importEntry => "import"
  | function => "function"
  | object => "object"
  | parameter => "parameter"
  | property => "property"
  | block => "scope"
  | declare => "let"
  | assign => "assignment"
  | branch => "if"
  | call => "methodCall"
  | arithmetic => "arithmetic"
  | var => "variable"
  | index => "indexing"
  | propertyAccess => "propertyAccess"
  | string => "stringValue"
  | int => "intValue"
  | bool => "boolValue"
  | real => "realValue"

def ofName? (text : String) : Option NodeKind := all.find? fun kind => kind.name == text

end NodeKind

def Expr.kind : Expr → NodeKind
  | .call .. => .call
  | .arithmetic .. => .arithmetic
  | .var .. => .var
  | .index .. => .index
  | .property .. => .propertyAccess
  | .string .. => .string
  | .int .. => .int
  | .bool .. => .bool
  | .real .. => .real

def Stmt.kind : Stmt → NodeKind
  | .declare .. => .declare
  | .assign .. => .assign
  | .branch .. => .branch
  | .call .. => .call
  | .block .. => .block

theorem Expr.isExpression_kind (expr : Expr) : expr.kind.isExpression = true := by
  cases expr <;> rfl

theorem Stmt.isStatement_kind (stmt : Stmt) : stmt.kind.isStatement = true := by
  cases stmt <;> rfl

inductive Node where
  | program (program : Program)
  | importEntry (entry : Import)
  | decl (decl : Decl)
  | parameter (parameter : TypedName)
  | property (property : TypedName)
  | stmt (stmt : Stmt)
  | expr (expr : Expr)

namespace Node

def kind : Node → NodeKind
  | .program _ => .program
  | .importEntry _ => .importEntry
  | .decl (.function _) => .function
  | .decl (.object _) => .object
  | .parameter _ => .parameter
  | .property _ => .property
  | .stmt line => line.kind
  | .expr value => value.kind

/-- The canonical text of a node; that of a program is a mere placeholder. -/
def render : Node → String
  | .program _ => "program"
  | .importEntry entry => entry.render
  | .decl declaration => declaration.render
  | .parameter named => named.renderParameter
  | .property named => named.renderProperty
  | .stmt line => line.render
  | .expr value => value.render

def unexpected (expected : String) (found : Node) : Error :=
  .malformed ("expected " ++ expected ++ ", found " ++ found.kind.name)

def toProgram : Node → Except Error Program
  | .program found => .ok found
  | other => .error (unexpected "program" other)

def toImport : Node → Except Error Import
  | .importEntry found => .ok found
  | other => .error (unexpected "import" other)

def toDecl : Node → Except Error Decl
  | .decl found => .ok found
  | other => .error (unexpected "declaration" other)

def toParameter : Node → Except Error TypedName
  | .parameter found => .ok found
  | other => .error (unexpected "parameter" other)

def toProperty : Node → Except Error TypedName
  | .property found => .ok found
  | other => .error (unexpected "property" other)

def toStmt : Node → Except Error Stmt
  | .stmt found => .ok found
  | .expr (.call callee args type) => .ok (.call callee args type)
  | other => .error (unexpected "statement" other)

def toScope : Node → Except Error (List Stmt)
  | .stmt (.block lines) => .ok lines
  | other => .error (unexpected "scope" other)

def toExpr : Node → Except Error Expr
  | .expr found => .ok found
  | .stmt (.call callee args type) => .ok (.call callee args type)
  | other => .error (unexpected "expression" other)

/-- Whether a node of one of the kinds can stand strictly below the node. -/
def mayContain (kinds : List NodeKind) : Node → Bool
  | .program _ | .importEntry _ => true
  | .decl (.function _) =>
    kinds.any fun kind => kind == .parameter || kind.isStatement || kind.isExpression
  | .decl (.object _) => kinds.contains .property
  | .parameter _ | .property _ => false
  | .stmt _ => kinds.any fun kind => kind.isStatement || kind.isExpression
  | .expr _ => kinds.any NodeKind.isExpression

end Node

def Stmt.children : Stmt → List Node
  | .declare _ _ value => value.toList.map .expr
  | .assign target value => [.expr target, .expr value]
  | .branch condition thenBranch elseBranch =>
    .expr condition :: .stmt thenBranch :: elseBranch.toList.map .stmt
  | .call callee args _ => .expr callee :: args.map .expr
  | .block lines => lines.map .stmt

def Expr.children : Expr → List Node
  | .call callee args _ => .expr callee :: args.map .expr
  | .arithmetic _ left right _ => [.expr left, .expr right]
  | .index base position _ => [.expr base, .expr position]
  | .property base _ _ => [.expr base]
  | .var .. | .string .. | .int .. | .bool .. | .real .. => []

/-- The parts of a node, in source order. The program behind an import is not a part of the import. -/
def Node.children : Node → List Node
  | .program tree => tree.imports.map .importEntry ++ tree.decls.map .decl
  | .importEntry _ => []
  | .decl (.function declaration) =>
    declaration.params.map .parameter ++ [.stmt (.block declaration.body)]
  | .decl (.object declaration) => declaration.properties.map .property
  | .parameter _ | .property _ => []
  | .stmt line => line.children
  | .expr value => value.children

abbrev Rebuild (α : Type) := StateT (List Node) (Except Error) α

namespace Rebuild

def next {α : Type} (read : Node → Except Error α) : Rebuild α := fun nodes =>
  match nodes with
  | [] => .error (.malformed "missing child node")
  | node :: rest => do
    let value ← read node
    return (value, rest)

def nextAll {α β : Type} (read : Node → Except Error α) : List β → Rebuild (List α)
  | [] => return []
  | _ :: old => do
    let value ← next read
    return value :: (← nextAll read old)

def nextIf {α β : Type} (read : Node → Except Error α) : Option β → Rebuild (Option α)
  | none => return none
  | some _ => do return some (← next read)

end Rebuild

open Rebuild in
def Stmt.rebuild : Stmt → Rebuild Stmt
  | .declare name type value => do return .declare name type (← nextIf Node.toExpr value)
  | .assign _ _ => do return .assign (← next Node.toExpr) (← next Node.toExpr)
  | .branch _ _ elseBranch => do
    return .branch (← next Node.toExpr) (← next Node.toStmt) (← nextIf Node.toStmt elseBranch)
  | .call _ args type => do return .call (← next Node.toExpr) (← nextAll Node.toExpr args) type
  | .block lines => do return .block (← nextAll Node.toStmt lines)

open Rebuild in
def Expr.rebuild : Expr → Rebuild Expr
  | .call _ args type => do return .call (← next Node.toExpr) (← nextAll Node.toExpr args) type
  | .arithmetic operator _ _ type => do
    return .arithmetic operator (← next Node.toExpr) (← next Node.toExpr) type
  | .index _ _ type => do return .index (← next Node.toExpr) (← next Node.toExpr) type
  | .property _ name type => do return .property (← next Node.toExpr) name type
  | .var name type => return .var name type
  | .string value type => return .string value type
  | .int value type => return .int value type
  | .bool value type => return .bool value type
  | .real value type => return .real value type

open Rebuild in
def Node.rebuild : Node → Rebuild Node
  | .program tree => do
    return .program ⟨← nextAll Node.toImport tree.imports, ← nextAll Node.toDecl tree.decls⟩
  | .decl (.function declaration) => do
    let params ← nextAll Node.toParameter declaration.params
    let body ← next Node.toScope
    return .decl (.function { declaration with params, body })
  | .decl (.object declaration) => do
    let properties ← nextAll Node.toProperty declaration.properties
    return .decl (.object { declaration with properties })
  | .importEntry entry => return .importEntry entry
  | .parameter named => return .parameter named
  | .property named => return .property named
  | .stmt line => do return .stmt (← line.rebuild)
  | .expr value => do return .expr (← value.rebuild)

/-- The node with the given parts in place of its own, which must be as many and of fitting sorts. -/
def Node.withChildren (node : Node) (children : List Node) : Except Error Node := do
  match ← node.rebuild children with
  | (rebuilt, []) => .ok rebuilt
  | (_, extra :: _) => .error (.malformed ("unexpected extra child " ++ extra.kind.name))

end TypedTree
