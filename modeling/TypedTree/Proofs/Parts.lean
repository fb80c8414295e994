import TypedTree.Tree
/-! The expressions in a tree with all their parts, listed in the order in which a check completes them:
parts before the whole, and the value of an assignment before its target. -/

namespace TypedTree

mutual

/-- An expression and all its parts, in the order in which a check completes them. -/
def Expr.parts : Expr → List Expr
  | .call callee args type => callee.parts ++ argsParts args ++ [.call callee args type]
  | .arithmetic operator left right type =>
    left.parts ++ right.parts ++ [.arithmetic operator left right type]
  | .var name type => [.var name type]
  | .index base position type => base.parts ++ position.parts ++ [.index base position type]
  | .property base name type => base.parts ++ [.property base name type]
  | .string value type => [.string value type]
  | .int value type => [.int value type]
  | .bool value type => [.bool value type]
  | .real value type => [.real value type]

def argsParts : List Expr → List Expr
  | [] => []
  | arg :: args => arg.parts ++ argsParts args

end

theorem Expr.self_mem_parts (expr : Expr) : expr ∈ expr.parts := by
  cases expr <;> simp [parts]

mutual

/-- The expressions in a statement with all their parts, in the order in which a check completes them. -/
def Stmt.exprs : Stmt → List Expr
  | .declare _ _ value => value.elim [] Expr.parts
  | .assign target value => value.parts ++ target.parts
  | .branch condition thenBranch elseBranch =>
    condition.parts ++ thenBranch.exprs ++ elseExprs elseBranch
  | .call callee args type => (Expr.call callee args type).parts
  | .block lines => linesExprs lines

def elseExprs : Option Stmt → List Expr
  | none => []
  | some branch => branch.exprs

def linesExprs : List Stmt → List Expr
  | [] => []
  | line :: lines => line.exprs ++ linesExprs lines

end

def Decl.exprs : Decl → List Expr
  | .function declaration => linesExprs declaration.body
  | .object _ => []

/-- The expressions in the bodies of a program, those of its imports left out. -/
def Program.exprs (program : Program) : List Expr := program.decls.flatMap Decl.exprs

end TypedTree
