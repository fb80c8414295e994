import TypedTree.Proofs.Check.Carried
import TypedTree.Proofs.Optimize.FixedPoint
/-! The types of folded expressions. Folding keeps the type of an expression, with one exception: the
quotient of two whole numbers is a real, and so is every number that is computed from it. -/

namespace TypedTree

/-- The types that the value of an expression of some type can have: the same type, but reals as well
where the type is the one of whole numbers. -/
def Ty.FoldsTo (type folded : Ty) : Prop := folded = type ∨ type = .int32 ∧ folded = .real64

namespace Ty

theorem FoldsTo.refl (type : Ty) : type.FoldsTo type := .inl rfl

theorem FoldsTo.trans {type between folded : Ty} (first : type.FoldsTo between)
    (second : between.FoldsTo folded) : type.FoldsTo folded := by
  rcases first with rfl | ⟨rfl, rfl⟩
  · exact second
  · rcases second with rfl | ⟨whole, -⟩
    · exact .inr ⟨rfl, rfl⟩
    · exact absurd whole (by decide)

theorem real64_agrees_of_int32_agrees {expected : Ty} (agrees : int32.agrees expected = true) :
    real64.agrees expected = false := by
  obtain ⟨sameName, -⟩ := (Ty.agrees_iff _ _).mp agrees
  apply eq_false_of_ne_true
  intro agrees
  obtain ⟨otherName, -⟩ := (Ty.agrees_iff _ _).mp agrees
  exact absurd (sameName.trans otherName.symm) (by decide)

theorem FoldsTo.agrees_iff {type folded expected : Ty} (folds : type.FoldsTo folded)
    (agrees : type.agrees expected = true) : folded.agrees expected = true ↔ folded = type := by
  rcases folds with rfl | ⟨rfl, rfl⟩
  · exact iff_of_true agrees rfl
  · have refused := real64_agrees_of_int32_agrees agrees
    exact iff_of_false (ne_true_of_eq_false refused) (by decide)

theorem FoldsTo.isIndexer_iff {type folded : Ty} (folds : type.FoldsTo folded)
    (indexer : type.isIndexer = true) : folded.isIndexer = true ↔ folded = type := by
  rcases folds with rfl | ⟨rfl, rfl⟩
  · exact iff_of_true indexer rfl
  · exact iff_of_false (by decide) (by decide)

/-- Operands that agree still do after folding, with the same type for the whole, if both keep their
types. A comparison also has its type if both lose theirs. -/
theorem FoldsTo.operands_iff (operator : Operator) {leftType rightType leftFolded rightFolded : Ty}
    (left : leftType.FoldsTo leftFolded) (right : rightType.FoldsTo rightFolded)
    (agrees : rightType.agrees leftType = true) :
    (rightFolded.agrees leftFolded = true ∧
      (if operator.isComparison then bool else leftType) =
        if operator.isComparison then bool else leftFolded) ↔
      leftFolded = leftType ∧ rightFolded = rightType ∨
        operator.isComparison = true ∧ leftFolded ≠ leftType ∧ rightFolded ≠ rightType := by
  rcases left with rfl | ⟨rfl, rfl⟩
  · rw [right.agrees_iff agrees]
    constructor
    · exact fun kept => .inl ⟨rfl, kept.left⟩
    · intro operands
      rcases operands with kept | ⟨-, changed, -⟩
      · exact ⟨kept.right, rfl⟩
      · exact absurd rfl changed
  · rcases right with rfl | ⟨rfl, rfl⟩
    · rw [agrees_comm] at agrees ⊢
      rw [real64_agrees_of_int32_agrees agrees]
      refine iff_of_false (fun same => nomatch same.left) ?_
      intro operands
      rcases operands with ⟨kept, -⟩ | ⟨-, -, changed⟩
      · exact absurd kept (by decide)
      · exact changed rfl
    · cases operator.isComparison <;> decide

end Ty

namespace Constant

def type : Constant → Ty
  | int _ => .int32
  | real _ => .real64
  | string _ => .string
  | bool _ => .bool

@[simp] theorem type?_literal (constant : Constant) : constant.literal.type? = some constant.type := by
  cases constant <;> rfl

theorem carries_literal (context : Context) (constant : Constant) :
    constant.literal.Carries context constant.type := by
  cases constant <;> exact ⟨rfl, rfl⟩

theorem type_int32? {result : Option Int64} {constant : Constant} (folded : result.bind int32? = some constant) :
    constant.type = .int32 := by
  obtain ⟨value, -, folded⟩ := Option.bind_eq_some_iff.mp folded
  unfold int32? at folded
  split at folded
  · cases folded
    rfl
  · cases folded

theorem type_map_bool {verdict : Option Bool} {constant : Constant}
    (folded : verdict.map bool = some constant) : constant.type = .bool := by
  obtain ⟨_, -, rfl⟩ := Option.map_eq_some_iff.mp folded
  rfl

theorem foldsTo_combineInts? {operator : Operator} {left right : Int64} {constant : Constant}
    (folded : combineInts? operator left right = some constant) :
    (if operator.isComparison then Ty.bool else Ty.int32).FoldsTo constant.type := by
  cases operator with
  | add | subtract | multiply => exact .inl (type_int32? folded)
  | divide =>
    simp only [combineInts?] at folded
    split at folded
    · cases folded
    · cases folded
      exact .inr ⟨rfl, rfl⟩
  | _ =>
    simp only [combineInts?] at folded
    exact .inl (type_map_bool folded)

theorem type_combineReals? {operator : Operator} {left right : Float} {constant : Constant}
    (folded : combineReals? operator left right = some constant) :
    constant.type = if operator.isComparison then .bool else .real64 := by
  cases operator with
  | add | subtract | multiply =>
    cases folded
    rfl
  | divide =>
    simp only [combineReals?] at folded
    split at folded
    · cases folded
    · cases folded
      rfl
  | _ => exact type_map_bool folded

/-- A value has the type of the left operand or, if that is whole, is a real; comparisons are true or
false. -/
theorem foldsTo_combine? {operator : Operator} {left right constant : Constant}
    (folded : combine? operator left right = some constant) :
    (if operator.isComparison then .bool else left.type).FoldsTo constant.type := by
  match left, right with
  | int _, int _ => exact foldsTo_combineInts? folded
  | int _, real _ =>
    rw [type_combineReals? folded]
    split
    · exact .refl .bool
    · exact .inr ⟨rfl, rfl⟩
  | real _, int _ | real _, real _ => exact .inl (type_combineReals? folded)
  | string left, string right =>
    obtain ⟨truth, held, rfl⟩ := Option.map_eq_some_iff.mp folded
    have kind := operator.isSome_holds? (compare left right)
    rw [held] at kind
    rw [← kind]
    exact .refl .bool
  | bool _, bool _ =>
    cases operator with
    | equal | notEqual =>
      cases folded
      exact .refl .bool
    | _ => cases folded
  | int _, string _ | int _, bool _ | real _, string _ | real _, bool _ | string _, int _
  | string _, real _ | string _, bool _ | bool _, int _ | bool _, real _ | bool _, string _ => cases folded

end Constant

def Expr.KeepsType (expr : Expr) : Prop := expr.fold.1.type? = expr.type?

namespace Expr

theorem fold_arithmetic_of_some {operator : Operator} {left right : Expr} {constant : Constant}
    (written : Option Ty) (value : foldOperands? operator left.fold.1 right.fold.1 = some constant) :
    (arithmetic operator left right written).fold.1 = constant.literal := by
  simp only [fold, value]

theorem fold_arithmetic_of_none {operator : Operator} {left right : Expr} (written : Option Ty)
    (value : foldOperands? operator left.fold.1 right.fold.1 = none) :
    (arithmetic operator left right written).fold.1 =
      .arithmetic operator left.fold.1 right.fold.1 written := by
  simp only [fold, value]

@[simp] theorem isPropertyBase_literal (constant : Constant) :
    constant.literal.isPropertyBase = false := by
  cases constant <;> rfl

@[simp] theorem isPlace_literal (constant : Constant) : constant.literal.isPlace = false := by
  cases constant <;> rfl

@[simp] theorem isPlace_fold (expr : Expr) : expr.fold.1.isPlace = expr.isPlace := by
  cases expr with
  | arithmetic operator left right written =>
    cases value : foldOperands? operator left.fold.1 right.fold.1 with
    | some constant => rw [fold_arithmetic_of_some written value, isPlace_literal]; rfl
    | none => rw [fold_arithmetic_of_none written value]; rfl
  | _ => rfl

@[simp] theorem isPropertyBase_fold (expr : Expr) : expr.fold.1.isPropertyBase = expr.isPropertyBase := by
  cases expr with
  | arithmetic operator left right written =>
    cases value : foldOperands? operator left.fold.1 right.fold.1 with
    | some constant => rw [fold_arithmetic_of_some written value, isPropertyBase_literal]; rfl
    | none => rw [fold_arithmetic_of_none written value]; rfl
  | _ => rfl

theorem keepsType_of_isPlace {expr : Expr} (place : expr.isPlace = true) : expr.KeepsType := by
  cases expr with
  | arithmetic => cases place
  | _ => rfl

theorem keepsType_of_isPropertyBase {expr : Expr} (base : expr.isPropertyBase = true) :
    expr.KeepsType := by
  cases expr with
  | arithmetic => cases base
  | _ => rfl

variable {context : Context}

theorem Carries.fold_eq_literal {expr : Expr} {type : Ty} {constant : Constant}
    (carries : expr.Carries context type) (value : Constant.ofExpr? expr.fold.1 = some constant) :
    expr.fold.1 = constant.literal := by
  cases expr with
  | arithmetic operator left right written =>
    cases inner : foldOperands? operator left.fold.1 right.fold.1 with
    | some found =>
      rw [fold_arithmetic_of_some written inner, Constant.ofExpr?_literal] at value
      rw [fold_arithmetic_of_some written inner, Option.some.inj value]
    | none =>
      rw [fold_arithmetic_of_none written inner] at value
      cases value
  | string | int | bool | real =>
    cases value
    exact carries.right.symm
  | _ => cases value

theorem Carries.foldsTo {expr : Expr} {type : Ty} (carries : expr.Carries context type) :
    ∃ folded, expr.fold.1.type? = some folded ∧ type.FoldsTo folded := by
  match expr with
  | .arithmetic operator left right written =>
    obtain ⟨decorated, leftType, rightType, leftCarries, -, -, result⟩ :=
      (carries_arithmetic_iff operator left right written type).mp carries
    cases value : foldOperands? operator left.fold.1 right.fold.1 with
    | none =>
      rw [fold_arithmetic_of_none written value]
      exact ⟨type, decorated, .refl type⟩
    | some constant =>
      obtain ⟨leftConstant, leftValue, rest⟩ := Option.bind_eq_some_iff.mp value
      obtain ⟨rightConstant, -, combined⟩ := Option.bind_eq_some_iff.mp rest
      obtain ⟨leftFolded, leftDecorated, leftFolds⟩ := leftCarries.foldsTo
      rw [leftCarries.fold_eq_literal leftValue, Constant.type?_literal] at leftDecorated
      cases leftDecorated
      rw [fold_arithmetic_of_some written value, Constant.type?_literal]
      refine ⟨constant.type, rfl, ?_⟩
      have folds := Constant.foldsTo_combine? combined
      rw [result]
      cases kind : operator.isComparison with
      | true =>
        rw [kind] at folds
        exact folds
      | false =>
        rw [kind] at folds
        exact leftFolds.trans folds
  | .call .. | .index .. | .property .. | .var .. | .string .. | .int .. | .bool .. | .real .. =>
    exact ⟨type, carries.type?_eq, .refl type⟩

theorem Carries.keepsType_iff {expr : Expr} {type folded : Ty} (carries : expr.Carries context type)
    (foldedCarries : expr.fold.1.Carries context folded) : expr.KeepsType ↔ folded = type := by
  rw [KeepsType, carries.type?_eq, foldedCarries.type?_eq, Option.some.injEq]

theorem Carries.foldsTo_of_fold {expr : Expr} {type folded : Ty} (carries : expr.Carries context type)
    (foldedCarries : expr.fold.1.Carries context folded) : type.FoldsTo folded := by
  obtain ⟨other, decorated, folds⟩ := carries.foldsTo
  rw [foldedCarries.type?_eq] at decorated
  cases decorated
  exact folds

end Expr

end TypedTree
