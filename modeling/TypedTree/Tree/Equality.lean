import TypedTree.Tree
/-! Equality of trees by content. Reals are compared as numbers, so that a tree with a NaN differs from
itself, and imports by the programs behind them, whichever way these are shared. -/

namespace TypedTree

mutual

def Expr.same : Expr → Expr → Bool
  | .call callee args type, .call callee' args' type' =>
    callee.same callee' && sameArgs args args' && type == type'
  | .arithmetic operator left right type, .arithmetic operator' left' right' type' =>
    operator == operator' && left.same left' && right.same right' && type == type'
  | .var name type, .var name' type' => name == name' && type == type'
  | .index base position type, .index base' position' type' =>
    base.same base' && position.same position' && type == type'
  | .property base name type, .property base' name' type' =>
    base.same base' && name == name' && type == type'
  | .string value type, .string value' type' => value == value' && type == type'
  | .int value type, .int value' type' => value == value' && type == type'
  | .bool value type, .bool value' type' => value == value' && type == type'
  | .real value type, .real value' type' => value == value' && type == type'
  | _, _ => false

def sameArgs : List Expr → List Expr → Bool
  | [], [] => true
  | arg :: args, arg' :: args' => arg.same arg' && sameArgs args args'
  | _, _ => false

end

def sameInitializer : Option Expr → Option Expr → Bool
  | none, none => true
  | some value, some value' => value.same value'
  | _, _ => false

mutual

def Stmt.same : Stmt → Stmt → Bool
  | .declare name type value, .declare name' type' value' =>
    name == name' && type == type' && sameInitializer value value'
  | .assign target value, .assign target' value' => target.same target' && value.same value'
  | .branch condition thenBranch elseBranch, .branch condition' thenBranch' elseBranch' =>
    condition.same condition' && thenBranch.same thenBranch' && sameElse elseBranch elseBranch'
  | .call callee args type, .call callee' args' type' =>
    callee.same callee' && sameArgs args args' && type == type'
  | .block lines, .block lines' => sameLines lines lines'
  | _, _ => false

def sameElse : Option Stmt → Option Stmt → Bool
  | none, none => true
  | some branch, some branch' => branch.same branch'
  | _, _ => false

def sameLines : List Stmt → List Stmt → Bool
  | [], [] => true
  | line :: lines, line' :: lines' => line.same line' && sameLines lines lines'
  | _, _ => false

end

def Decl.same : Decl → Decl → Bool
  | .function left, .function right =>
    left.exported == right.exported && left.name == right.name && left.returns == right.returns &&
      left.params == right.params && sameLines left.body right.body
  | .object left, .object right =>
    left.exported == right.exported && left.name == right.name && left.properties == right.properties
  | _, _ => false

def sameDecls : List Decl → List Decl → Bool
  | [], [] => true
  | decl :: decls, decl' :: decls' => decl.same decl' && sameDecls decls decls'
  | _, _ => false

mutual

def Program.same : Program → Program → Bool
  | ⟨imports, decls⟩, ⟨imports', decls'⟩ => sameImports imports imports' && sameDecls decls decls'

def sameImports : List Import → List Import → Bool
  | [], [] => true
  | entry :: imports, entry' :: imports' => Import.same entry entry' && sameImports imports imports'
  | _, _ => false

def Import.same : Import → Import → Bool
  | ⟨path, target⟩, ⟨path', target'⟩ => path == path' && sameTarget target target'

def sameTarget : Option Module → Option Module → Bool
  | none, none => true
  | some shared, some shared' => Module.same shared shared'
  | _, _ => false

def Module.same : Module → Module → Bool
  | ⟨_, program⟩, ⟨_, program'⟩ => program.same program'

end

end TypedTree
