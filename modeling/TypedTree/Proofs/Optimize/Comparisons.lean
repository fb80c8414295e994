import TypedTree.Proofs.Decimal.Whole
import TypedTree.Proofs.Optimize.Values
/-! Comparisons of a whole number with a real. The whole number is made a real first. The answer is the one for
the numbers themselves, except where rounding has made two different numbers equal. -/

namespace TypedTree

open Decimal (number)

section Relations

variable {operator : Operator}

theorem Operator.relates_congr {α β : Type} [LinearOrder α] [LinearOrder β] {left right : α} {left' right' : β}
    (operator : Operator) (same : compare left right = compare left' right') :
    operator.Relates left right ↔ operator.Relates left' right' := by
  have less : left < right ↔ left' < right' := by rw [← compare_lt_iff_lt, same, compare_lt_iff_lt]
  have equal : left = right ↔ left' = right' := by rw [← compare_eq_iff_eq, same, compare_eq_iff_eq]
  have greater : right < left ↔ right' < left' := by rw [← compare_gt_iff_gt, same, compare_gt_iff_gt]
  cases operator with
  | equal => exact equal
  | notEqual => exact equal.not
  | greater => exact greater
  | less => exact less
  | greaterEqual => exact not_lt.symm.trans (less.not.trans not_lt)
  | lessEqual => exact not_lt.symm.trans (greater.not.trans not_lt)
  | add | subtract | multiply | divide => exact Iff.rfl

theorem Operator.relatesReals_iff {x y : Float} (comparison : operator.isComparison = true)
    (leftFinite : x.isFinite = true) (rightFinite : y.isFinite = true) :
    operator.relatesReals x y = true ↔ operator.Relates (number x) (number y) :=
  have ordered := Decimal.compare_unpack leftFinite rightFinite
  ((holds?_compare_eq_some_iff _ _ _ _).mp (holds?_orderOfReals comparison ordered)).right

theorem Operator.combineReals?_of_isFinite {x y : Float} (comparison : operator.isComparison = true)
    (leftFinite : x.isFinite = true) (rightFinite : y.isFinite = true) :
    Constant.combineReals? operator x y = some (.bool (operator.relatesReals x y)) := by
  have ordered : orderOfReals x y ≠ none := by
    rw [orderOfReals, Decimal.compare_unpack leftFinite rightFinite]
    exact Option.some_ne_none _
  rw [combineReals?_of_isComparison comparison, if_neg ((orderOfReals_eq_none_iff x y).not.mp ordered)]

end Relations

section Rounding

variable {operator : Operator} {whole : Int64} {real : Float}

theorem natAbs_toInt_lt (whole : Int64) : whole.toInt.natAbs < 2 ^ 64 := by
  have low := whole.le_toInt
  have high := whole.toInt_lt
  omega

/-- A whole number is on the same side of a real as the real that it is made, unless that is the real itself. -/
theorem compare_ofInt (finite : real.isFinite = true)
    (apart : number (Float.ofInt whole.toInt) ≠ number real) :
    compare (number (Float.ofInt whole.toInt)) (number real) = compare (whole.toInt : ℚ) (number real) := by
  have room := natAbs_toInt_lt whole
  rcases apart.lt_or_gt with less | more
  · rw [compare_lt_iff_lt.mpr less, compare_lt_iff_lt.mpr (Decimal.lt_number_of_ofInt room finite less)]
  · rw [compare_gt_iff_gt.mpr more, compare_gt_iff_gt.mpr (Decimal.number_lt_of_ofInt room finite more)]

theorem Operator.relates_ofInt_iff (operator : Operator) (finite : real.isFinite = true)
    (apart : number (Float.ofInt whole.toInt) ≠ number real) :
    (operator.Relates (number (Float.ofInt whole.toInt)) (number real) ↔
        operator.Relates (whole.toInt : ℚ) (number real)) ∧
      (operator.Relates (number real) (number (Float.ofInt whole.toInt)) ↔
        operator.Relates (number real) (whole.toInt : ℚ)) := by
  have same := compare_ofInt finite apart
  have swap : ∀ x y : ℚ, compare x y = (compare y x).swap := fun _ _ => Std.OrientedCmp.eq_swap
  have swapped : compare (number real) (number (Float.ofInt whole.toInt)) =
      compare (number real) (whole.toInt : ℚ) := by
    rw [swap, same, ← swap]
  exact ⟨operator.relates_congr same, operator.relates_congr swapped⟩

/-- Rounding changes nothing that is said of a number, unless the number is rounded to `other` and is told apart
from it. -/
theorem iff_of_rounded {rounded value other : ℚ} (holds : ℚ → Prop)
    (apart : rounded ≠ other → (holds rounded ↔ holds value)) :
    (holds rounded ↔ holds value) ↔ (rounded = other → (holds other ↔ holds value)) := by
  by_cases same : rounded = other
  · rw [same]
    exact (imp_iff_right rfl).symm
  · exact iff_of_true (apart same) fun equal => absurd equal same

theorem Expr.fold_comparison {left right : Expr} {truth : Bool} (written : Option Ty)
    (value : foldOperands? operator left.fold.1 right.fold.1 = some (.bool truth)) :
    (arithmetic operator left right written).fold = (.bool truth (some .bool), true) := by
  simp only [fold, value]
  rfl

end Rounding

/-- An integer and a finite real, in either order, fold to a truth value: that of the comparison of the real
that the integer is rounded to. It is the truth about the two numbers unless the integer is rounded to the very
real next to it and the operator tells the two numbers apart, which never happens up to `2 ^ 53`. -/
theorem Operator.fold_int_real (operator : Operator) (whole : Int64) (real : Float)
    (written intWritten realWritten : Option Ty) (comparison : operator.isComparison = true)
    (finite : real.isFinite = true) :
    let value : ℚ := whole.toInt
    let rounded := number (Float.ofInt whole.toInt)
    let other := number real
    ∃ before behind : Bool,
      (Expr.arithmetic operator (.int whole intWritten) (.real real realWritten) written).fold =
        (.bool before (some .bool), true) ∧
      (Expr.arithmetic operator (.real real realWritten) (.int whole intWritten) written).fold =
        (.bool behind (some .bool), true) ∧
      (before = true ↔ operator.Relates rounded other) ∧ (behind = true ↔ operator.Relates other rounded) ∧
      ((before = true ↔ operator.Relates value other) ↔
        (rounded = other → (operator.Relates other other ↔ operator.Relates value other))) ∧
      ((behind = true ↔ operator.Relates other value) ↔
        (rounded = other → (operator.Relates other other ↔ operator.Relates other value))) ∧
      (whole.toInt.natAbs ≤ 2 ^ 53 →
        (before = true ↔ operator.Relates value other) ∧ (behind = true ↔ operator.Relates other value)) := by
  intro value rounded other
  have wholeFinite := Decimal.isFinite_ofInt (natAbs_toInt_lt whole)
  have before := relatesReals_iff comparison wholeFinite finite
  have behind := relatesReals_iff comparison finite wholeFinite
  have folded := combineReals?_of_isFinite comparison wholeFinite finite
  have swapped := combineReals?_of_isFinite comparison finite wholeFinite
  refine ⟨_, _, Expr.fold_comparison written folded, Expr.fold_comparison written swapped, before, behind, ?_, ?_, ?_⟩
  · rw [before]
    exact iff_of_rounded (operator.Relates · other) fun apart => (operator.relates_ofInt_iff finite apart).left
  · rw [behind]
    exact iff_of_rounded (operator.Relates other ·) fun apart => (operator.relates_ofInt_iff finite apart).right
  · intro small
    have same : rounded = value := Decimal.number_ofInt_of_le small
    rw [before, behind, ← same]
    exact ⟨Iff.rfl, Iff.rfl⟩

/-- The first integer that is no real is equal to the real below it, for the folded program. -/
theorem Operator.fold_int_real_rounded :
    Operator.equal.isComparison = true ∧ (9007199254740992.0 : Float).isFinite = true ∧
      (Expr.arithmetic .equal (.int 9007199254740993 none) (.real 9007199254740992.0 none) none).fold =
        (.bool true (some .bool), true) ∧
      ¬Operator.equal.Relates (9007199254740993 : ℚ) (number 9007199254740992.0) := by
  have finite : (9007199254740992.0 : Float).isFinite = true := by decide +kernel
  have rounded : Float.ofInt (9007199254740993 : Int64).toInt = 9007199254740992.0 := by decide +kernel
  have written : (9007199254740992.0 : Float) = Float.ofInt 9007199254740992 := by decide +kernel
  have value : number 9007199254740992.0 = 9007199254740992 := by
    rw [written]
    exact Decimal.number_ofInt_of_le (by decide)
  obtain ⟨before, -, folded, -, truth, -⟩ :=
    Operator.fold_int_real .equal 9007199254740993 9007199254740992.0 none none none rfl finite
  rw [rounded, Relates] at truth
  rw [truth.mpr rfl] at folded
  refine ⟨rfl, finite, folded, ?_⟩
  rw [Relates, value]
  norm_num

end TypedTree
