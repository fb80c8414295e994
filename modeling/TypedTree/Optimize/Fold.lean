import TypedTree.Tree
/-! Constant folding: arithmetic on literals is replaced by the literal of its value, from the leaves
up. Only function bodies of the program itself are folded; imported programs are shared and stay as
they are. -/

namespace TypedTree

inductive Constant where
  | int (value : Int64)
  | real (value : Float)
  | string (value : String)
  | bool (value : Bool)

namespace Constant

def ofExpr? : Expr → Option Constant
  | .int value _ => some (.int value)
  | .real value _ => some (.real value)
  | .string value _ => some (.string value)
  | .bool value _ => some (.bool value)
  | .call .. | .arithmetic .. | .var .. | .index .. | .property .. => none

def literal : Constant → Expr
  | int value => .int value (some .int32)
  | real value => .real value (some .real64)
  | string value => .string value (some .string)
  | bool value => .bool value (some .bool)

def real? : Constant → Option Float
  | int value => some (Float.ofInt value.toInt)
  | real value => some value
  | string _ | bool _ => none

def checked? (result : Int) : Option Int64 :=
  if Int64.minValue.toInt ≤ result ∧ result ≤ Int64.maxValue.toInt then some (Int64.ofInt result)
  else none

def int32? (value : Int64) : Option Constant :=
  if Int32.minValue.toInt ≤ value.toInt ∧ value.toInt ≤ Int32.maxValue.toInt then some (int value)
  else none

/-- Operators on two whole numbers. Sums, differences and products must not overflow, and must be in the
range of `int32`; a quotient is always a real. -/
def combineInts? (operator : Operator) (left right : Int64) : Option Constant :=
  match operator with
  | .add => (checked? (left.toInt + right.toInt)).bind int32?
  | .subtract => (checked? (left.toInt - right.toInt)).bind int32?
  | .multiply => (checked? (left.toInt * right.toInt)).bind int32?
  | .divide =>
    if right = 0 then none else some (real (Float.ofInt left.toInt / Float.ofInt right.toInt))
  | _ => (operator.holds? (compare left.toInt right.toInt)).map bool

def realOrder? (left right : Float) : Option Ordering :=
  if left < right then some .lt
  else if left == right then some .eq
  else if right < left then some .gt
  else none

def combineReals? (operator : Operator) (left right : Float) : Option Constant :=
  match operator with
  | .add => some (real (left + right))
  | .subtract => some (real (left - right))
  | .multiply => some (real (left * right))
  | .divide => if right == 0 then none else some (real (left / right))
  | _ => ((realOrder? left right).bind operator.holds?).map bool

/-- The value of an operator on two literals. Texts and truth values can only be compared, truth
values only for equality; a whole number next to a real counts as a real. -/
def combine? (operator : Operator) : Constant → Constant → Option Constant
  | int left, int right => combineInts? operator left right
  | string left, string right => (operator.holds? (compare left right)).map bool
  | bool left, bool right =>
    match operator with
    | .equal => some (bool (left == right))
    | .notEqual => some (bool (left != right))
    | _ => none
  | left, right => do combineReals? operator (← left.real?) (← right.real?)

@[simp] theorem ofExpr?_literal (constant : Constant) : ofExpr? constant.literal = some constant := by
  cases constant <;> rfl

end Constant

def foldOperands? (operator : Operator) (left right : Expr) : Option Constant := do
  Constant.combine? operator (← Constant.ofExpr? left) (← Constant.ofExpr? right)

mutual

def Expr.fold : Expr → Expr × Bool
  | .call callee args type =>
    let callee := callee.fold
    let args := foldArgs args
    (.call callee.1 args.1 type, callee.2 || args.2)
  | .arithmetic operator left right type =>
    let left := left.fold
    let right := right.fold
    match foldOperands? operator left.1 right.1 with
    | some constant => (constant.literal, true)
    | none => (.arithmetic operator left.1 right.1 type, left.2 || right.2)
  | .index base position type =>
    let base := base.fold
    let position := position.fold
    (.index base.1 position.1 type, base.2 || position.2)
  | .property base name type =>
    let base := base.fold
    (.property base.1 name type, base.2)
  | .var name type => (.var name type, false)
  | .string value type => (.string value type, false)
  | .int value type => (.int value type, false)
  | .bool value type => (.bool value type, false)
  | .real value type => (.real value type, false)

def foldArgs : List Expr → List Expr × Bool
  | [] => ([], false)
  | arg :: args =>
    let arg := arg.fold
    let args := foldArgs args
    (arg.1 :: args.1, arg.2 || args.2)

end

def foldInitializer : Option Expr → Option Expr × Bool
  | none => (none, false)
  | some value =>
    let value := value.fold
    (some value.1, value.2)

mutual

def Stmt.fold : Stmt → Stmt × Bool
  | .declare name type value =>
    let value := foldInitializer value
    (.declare name type value.1, value.2)
  | .assign target value =>
    let target := target.fold
    let value := value.fold
    (.assign target.1 value.1, target.2 || value.2)
  | .branch condition thenBranch elseBranch =>
    let condition := condition.fold
    let thenBranch := thenBranch.fold
    let elseBranch := foldElse elseBranch
    (.branch condition.1 thenBranch.1 elseBranch.1, condition.2 || thenBranch.2 || elseBranch.2)
  | .call callee args type =>
    let callee := callee.fold
    let args := foldArgs args
    (.call callee.1 args.1 type, callee.2 || args.2)
  | .block lines =>
    let lines := foldLines lines
    (.block lines.1, lines.2)

def foldElse : Option Stmt → Option Stmt × Bool
  | none => (none, false)
  | some branch =>
    let branch := branch.fold
    (some branch.1, branch.2)

def foldLines : List Stmt → List Stmt × Bool
  | [] => ([], false)
  | line :: lines =>
    let line := line.fold
    let lines := foldLines lines
    (line.1 :: lines.1, line.2 || lines.2)

end

def Decl.fold : Decl → Decl × Bool
  | .function declaration =>
    let body := foldLines declaration.body
    (.function { declaration with body := body.1 }, body.2)
  | .object declaration => (.object declaration, false)

def foldDecls : List Decl → List Decl × Bool
  | [] => ([], false)
  | decl :: decls =>
    let decl := decl.fold
    let decls := foldDecls decls
    (decl.1 :: decls.1, decl.2 || decls.2)

def Program.fold (program : Program) : Program × Bool :=
  let decls := foldDecls program.decls
  ({ program with decls := decls.1 }, decls.2)

end TypedTree
