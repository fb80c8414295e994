/-! The binary operators of expressions. -/

namespace TypedTree

inductive Operator where
  | add
  | subtract
  | multiply
  | divide
  | equal
  | notEqual
  | greater
  | less
  | greaterEqual
  | lessEqual
deriving DecidableEq

namespace Operator

/-- Comparisons yield a truth value, the other operators a number. -/
def isComparison : Operator → Bool
  | add | subtract | multiply | divide => false
  | equal | notEqual | greater | less | greaterEqual | lessEqual => true

def symbol : Operator → String
  | add => "+"
  | subtract => "-"
  | multiply => "*"
  | divide => "/"
  | equal => "=="
  | notEqual => "!="
  | greater => ">"
  | less => "<"
  | greaterEqual => ">="
  | lessEqual => "<="

def all : List Operator :=
  [add, subtract, multiply, divide, equal, notEqual, greater, less, greaterEqual, lessEqual]

def ofSymbol? (text : String) : Option Operator :=
  all.find? fun operator => operator.symbol == text

theorem ofSymbol?_symbol (operator : Operator) : ofSymbol? operator.symbol = some operator := by
  cases operator <;> decide

def holds? : Operator → Ordering → Option Bool
  | equal, order => some (order == .eq)
  | notEqual, order => some (order != .eq)
  | greater, order => some (order == .gt)
  | less, order => some (order == .lt)
  | greaterEqual, order => some (order != .lt)
  | lessEqual, order => some (order != .gt)
  | add, _ | subtract, _ | multiply, _ | divide, _ => none

theorem isSome_holds? (operator : Operator) (order : Ordering) :
    (operator.holds? order).isSome = operator.isComparison := by
  cases operator <;> rfl

end Operator

end TypedTree
