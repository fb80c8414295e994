import TypedTree.Optimize.Fold
import Mathlib.Data.String.Basic
/-! The values of operators on literals: exact on whole numbers, by code points on texts, and by the rules of
64-bit reals as soon as one operand is a real. Folding computes these values and no others. -/

namespace TypedTree

open Float.Model (UnpackedFloat)

def Operator.Relates {α : Type} [LT α] [LE α] : Operator → α → α → Prop
  | .equal, left, right => left = right
  | .notEqual, left, right => left ≠ right
  | .greater, left, right => right < left
  | .less, left, right => left < right
  | .greaterEqual, left, right => right ≤ left
  | .lessEqual, left, right => left ≤ right
  | .add, _, _ | .subtract, _, _ | .multiply, _, _ | .divide, _, _ => False

/-- What a comparison says of two reals. Zeros of either sign are equal. -/
def Operator.relatesReals : Operator → Float → Float → Bool
  | .equal, left, right => left == right
  | .notEqual, left, right => left != right
  | .greater, left, right => right < left
  | .less, left, right => left < right
  | .greaterEqual, left, right => right ≤ left
  | .lessEqual, left, right => left ≤ right
  | .add, _, _ | .subtract, _, _ | .multiply, _, _ | .divide, _, _ => false

def FitsInt32 (value : Int) : Prop := -0x80000000 ≤ value ∧ value ≤ 0x7fffffff

instance (value : Int) : Decidable (FitsInt32 value) :=
  inferInstanceAs (Decidable (-0x80000000 ≤ value ∧ value ≤ 0x7fffffff))

inductive Constant.AsReals : Constant → Constant → Float → Float → Prop where
  | reals {left right : Float} : AsReals (.real left) (.real right) left right
  | intLeft {left : Int64} {right : Float} :
      AsReals (.int left) (.real right) (Float.ofInt left.toInt) right
  | intRight {left : Float} {right : Int64} :
      AsReals (.real left) (.int right) left (Float.ofInt right.toInt)

/-- The value of an operator on two values. There is none where no rule gives one. -/
inductive Operator.Gives : Operator → Constant → Constant → Constant → Prop where
  | sum {left right value : Int64} : value.toInt = left.toInt + right.toInt → FitsInt32 value.toInt →
      Gives .add (.int left) (.int right) (.int value)
  | difference {left right value : Int64} : value.toInt = left.toInt - right.toInt →
      FitsInt32 value.toInt → Gives .subtract (.int left) (.int right) (.int value)
  | product {left right value : Int64} : value.toInt = left.toInt * right.toInt →
      FitsInt32 value.toInt → Gives .multiply (.int left) (.int right) (.int value)
  | quotient {left right : Int64} : right ≠ 0 → Gives .divide (.int left) (.int right)
      (.real (Float.ofInt left.toInt / Float.ofInt right.toInt))
  | compareInts {operator : Operator} {left right : Int64} {truth : Bool} : operator.isComparison = true →
      (truth = true ↔ operator.Relates left.toInt right.toInt) →
      Gives operator (.int left) (.int right) (.bool truth)
  | compareTexts {operator : Operator} {left right : String} {truth : Bool} :
      operator.isComparison = true → (truth = true ↔ operator.Relates left.toList right.toList) →
      Gives operator (.string left) (.string right) (.bool truth)
  | equalBools {left right : Bool} : Gives .equal (.bool left) (.bool right) (.bool (left == right))
  | unequalBools {left right : Bool} :
      Gives .notEqual (.bool left) (.bool right) (.bool (left != right))
  | sumReals {left right : Constant} {x y : Float} : left.AsReals right x y →
      Gives .add left right (.real (x + y))
  | differenceReals {left right : Constant} {x y : Float} : left.AsReals right x y →
      Gives .subtract left right (.real (x - y))
  | productReals {left right : Constant} {x y : Float} : left.AsReals right x y →
      Gives .multiply left right (.real (x * y))
  | quotientReals {left right : Constant} {x y : Float} : left.AsReals right x y → (y == 0) = false →
      Gives .divide left right (.real (x / y))
  | compareReals {operator : Operator} {left right : Constant} {x y : Float} :
      operator.isComparison = true → left.AsReals right x y → x.isNaN = false → y.isNaN = false →
      Gives operator left right (.bool (operator.relatesReals x y))

section Reals

def orderOfReals (left right : Float) : Option Ordering :=
  left.toModel.unpack.compare right.toModel.unpack

theorem compare_swap (left right : UnpackedFloat) :
    right.compare left = (left.compare right).map Ordering.swap := by
  cases left with
  | infinity sign =>
    cases right with
    | infinity other => cases sign <;> cases other <;> rfl
    | _ => cases sign <;> rfl
  | notANumber => cases right <;> rfl
  | zero sign =>
    cases right with
    | infinity other | finite other => cases other <;> rfl
    | notANumber | zero => rfl
  | finite sign mantissa exponent _ =>
    cases right with
    | infinity other => cases sign <;> cases other <;> rfl
    | notANumber | zero => cases sign <;> rfl
    | finite other otherMantissa otherExponent _ =>
      have magnitudes : (compare otherExponent exponent).then (compare otherMantissa mantissa) =
          ((compare exponent otherExponent).then (compare mantissa otherMantissa)).swap := by
        rw [Ordering.swap_then, Int.compare_swap, Nat.compare_swap]
      -- of two negative reals the larger one is closer to zero
      cases sign with
      | negative =>
        cases other with
        | negative => exact congrArg (fun order => some order.swap) magnitudes
        | positive => rfl
      | positive =>
        cases other with
        | negative => rfl
        | positive => exact congrArg some magnitudes

theorem isNone_compare (left right : UnpackedFloat) :
    (left.compare right).isNone = (left.isNaN || right.isNaN) := by
  cases left with
  | notANumber => cases right <;> rfl
  | infinity sign => cases right <;> cases sign <;> rfl
  | zero sign =>
    cases right with
    | infinity other | finite other => cases other <;> rfl
    | _ => rfl
  | finite sign =>
    cases right with
    | infinity other | finite other => cases sign <;> cases other <;> rfl
    | _ => cases sign <;> rfl

theorem orderOfReals_eq_none_iff (left right : Float) :
    orderOfReals left right = none ↔ left.isNaN = true ∨ right.isNaN = true := by
  rw [← Option.isNone_iff_eq_none, ← Bool.or_eq_true]
  exact Bool.eq_iff_iff.mp (isNone_compare left.toModel.unpack right.toModel.unpack)

theorem lt_iff_orderOfReals (left right : Float) : left < right ↔ orderOfReals left right = some .lt := by
  change decide (left.toModel < right.toModel) = true ↔ _
  rw [decide_eq_true_iff]
  exact beq_iff_eq

theorem orderOfReals_swap (left right : Float) :
    orderOfReals right left = (orderOfReals left right).map Ordering.swap :=
  compare_swap left.toModel.unpack right.toModel.unpack

theorem gt_iff_orderOfReals (left right : Float) : right < left ↔ orderOfReals left right = some .gt := by
  rw [lt_iff_orderOfReals, orderOfReals_swap]
  rcases orderOfReals left right with _ | _ | _ | _ <;> simp

theorem beq_iff_orderOfReals (left right : Float) :
    (left == right) = true ↔ orderOfReals left right = some .eq := by
  change (left.toModel.unpack.compare right.toModel.unpack == some .eq) = true ↔ _
  rw [beq_iff_eq]
  rfl

theorem le_iff_orderOfReals (left right : Float) :
    left ≤ right ↔ (orderOfReals left right).any Ordering.isLE = true := by
  change decide (left.toModel ≤ right.toModel) = true ↔ _
  rw [decide_eq_true_iff]
  rfl

theorem ge_iff_orderOfReals (left right : Float) :
    right ≤ left ↔ (orderOfReals left right).any Ordering.isGE = true := by
  rw [le_iff_orderOfReals, orderOfReals_swap]
  rcases orderOfReals left right with _ | _ | _ | _ <;> simp

theorem realOrder?_eq_orderOfReals (left right : Float) :
    Constant.realOrder? left right = orderOfReals left right := by
  simp only [Constant.realOrder?, lt_iff_orderOfReals left, beq_iff_orderOfReals,
    gt_iff_orderOfReals left]
  rcases orderOfReals left right with _ | _ | _ | _ <;> rfl

theorem Operator.holds?_orderOfReals {operator : Operator} {left right : Float} {order : Ordering}
    (comparison : operator.isComparison = true) (ordered : orderOfReals left right = some order) :
    operator.holds? order = some (operator.relatesReals left right) := by
  have less := lt_iff_orderOfReals left right
  have equal := beq_iff_orderOfReals left right
  have greater := gt_iff_orderOfReals left right
  have lessEqual := le_iff_orderOfReals left right
  have greaterEqual := ge_iff_orderOfReals left right
  rw [ordered] at less equal greater lessEqual greaterEqual
  cases operator with
  | add | subtract | multiply | divide => cases comparison
  | _ => cases order <;> simp_all [Operator.holds?, Operator.relatesReals, bne]

theorem Operator.holds?_realOrder? {operator : Operator} (left right : Float)
    (comparison : operator.isComparison = true) :
    (Constant.realOrder? left right).bind operator.holds? =
      if left.isNaN = true ∨ right.isNaN = true then none else some (operator.relatesReals left right) := by
  rw [realOrder?_eq_orderOfReals]
  cases ordered : orderOfReals left right with
  | none => rw [if_pos ((orderOfReals_eq_none_iff left right).mp ordered), Option.bind_none]
  | some order =>
    have defined : ¬(left.isNaN = true ∨ right.isNaN = true) := by
      rw [← orderOfReals_eq_none_iff, ordered]
      exact Option.some_ne_none order
    rw [if_neg defined, Option.bind_some, holds?_orderOfReals comparison ordered]

end Reals

section Comparisons

theorem Operator.holds?_compare_eq_some_iff {α : Type} [LinearOrder α] (operator : Operator)
    (left right : α) (truth : Bool) :
    operator.holds? (compare left right) = some truth ↔
      operator.isComparison = true ∧ (truth = true ↔ operator.Relates left right) := by
  have less := @compare_lt_iff_lt _ _ left right
  have equal := @compare_eq_iff_eq _ _ left right
  have greater := @compare_gt_iff_gt _ _ left right
  cases operator with
  | add | subtract | multiply | divide => simp [Operator.holds?, Operator.isComparison]
  | _ =>
    cases truth <;>
      simp [Operator.holds?, Operator.isComparison, Operator.Relates, less, equal, greater]

theorem Operator.relates_toList (operator : Operator) (left right : String) :
    operator.Relates left.toList right.toList ↔ operator.Relates left right := by
  cases operator with
  | equal => exact String.toList_inj
  | notEqual => exact not_congr String.toList_inj
  | greater | less => exact String.lt_iff_toList_lt.symm
  | greaterEqual | lessEqual => exact String.le_iff_toList_le.symm
  | add | subtract | multiply | divide => exact Iff.rfl

end Comparisons

/-- What overflows is out of the range of `int32` anyway. -/
theorem Constant.bind_checked?_int32? (number : Int) :
    (checked? number).bind int32? = if FitsInt32 number then some (int (Int64.ofInt number)) else none := by
  have narrower (fits : FitsInt32 number) :
      Int64.minValue.toInt ≤ number ∧ number ≤ Int64.maxValue.toInt :=
    ⟨Int.le_trans (by decide) fits.left, Int.le_trans fits.right (by decide)⟩
  rw [checked?]
  split
  · rename_i sound
    have exact : (Int64.ofInt number).toInt = number :=
      Int64.toInt_ofInt_of_le (Int.le_trans (by decide) sound.left) (Int.lt_of_le_of_lt sound.right (by decide))
    rw [Option.bind_some, int32?, exact]
    rfl
  · rename_i overflow
    rw [if_neg (mt narrower overflow), Option.bind_none]

theorem Constant.bind_int32?_eq_some_iff (number : Int) (value : Constant) :
    (checked? number).bind int32? = some value ↔
      ∃ result : Int64, value = .int result ∧ result.toInt = number ∧ FitsInt32 result.toInt := by
  rw [bind_checked?_int32?]
  constructor
  · intro written
    split at written
    · rename_i fits
      cases written
      have exact : (Int64.ofInt number).toInt = number :=
        Int64.toInt_ofInt_of_le (by have := fits.left; omega) (by have := fits.right; omega)
      exact ⟨Int64.ofInt number, rfl, exact, exact.symm ▸ fits⟩
    · cases written
  · intro result
    obtain ⟨result, rfl, rfl, fits⟩ := result
    rw [if_pos fits, Int64.ofInt_toInt]

namespace Operator

variable {operator : Operator} {left right value : Constant}

theorem combine?_of_asReals {x y : Float} (operands : left.AsReals right x y) :
    Constant.combine? operator left right = Constant.combineReals? operator x y := by
  cases operands <;> rfl

theorem combineReals?_of_isComparison (comparison : operator.isComparison = true) (x y : Float) :
    Constant.combineReals? operator x y =
      if x.isNaN = true ∨ y.isNaN = true then none else some (.bool (operator.relatesReals x y)) := by
  have unfolded : Constant.combineReals? operator x y =
      ((Constant.realOrder? x y).bind operator.holds?).map .bool := by
    cases operator with
    | add | subtract | multiply | divide => cases comparison
    | _ => rfl
  rw [unfolded, holds?_realOrder? x y comparison]
  split <;> rfl

theorem combineInts?_of_isComparison (comparison : operator.isComparison = true) (left right : Int64) :
    Constant.combineInts? operator left right =
      (operator.holds? (compare left.toInt right.toInt)).map .bool := by
  cases operator with
  | add | subtract | multiply | divide => cases comparison
  | _ => rfl

theorem Gives.combine?_eq (given : operator.Gives left right value) :
    Constant.combine? operator left right = some value := by
  cases given with
  | sum same fits | difference same fits | product same fits =>
    exact (Constant.bind_int32?_eq_some_iff _ _).mpr ⟨_, rfl, same, fits⟩
  | quotient nonzero => exact if_neg nonzero
  | compareInts comparison related =>
    have held := (holds?_compare_eq_some_iff _ _ _ _).mpr ⟨comparison, related⟩
    rw [Constant.combine?, combineInts?_of_isComparison comparison, held, Option.map_some]
  | compareTexts comparison related =>
    have held := (holds?_compare_eq_some_iff _ _ _ _).mpr ⟨comparison, related.trans (relates_toList _ _ _)⟩
    rw [Constant.combine?, held, Option.map_some]
  | equalBools | unequalBools => rfl
  | sumReals operands | differenceReals operands | productReals operands => exact combine?_of_asReals operands
  | quotientReals operands nonzero =>
    rw [combine?_of_asReals operands, Constant.combineReals?, nonzero]
    rfl
  | compareReals comparison operands leftDefined rightDefined =>
    rw [combine?_of_asReals operands, combineReals?_of_isComparison comparison, leftDefined, rightDefined]
    rfl

theorem gives_of_combineInts? {left right : Int64}
    (computed : Constant.combineInts? operator left right = some value) :
    operator.Gives (.int left) (.int right) value := by
  cases kind : operator.isComparison with
  | true =>
    rw [combineInts?_of_isComparison kind] at computed
    obtain ⟨truth, held, rfl⟩ := Option.map_eq_some_iff.mp computed
    exact .compareInts kind ((holds?_compare_eq_some_iff _ _ _ _).mp held).right
  | false =>
    cases operator with
    | add =>
      obtain ⟨_, rfl, same, fits⟩ := (Constant.bind_int32?_eq_some_iff _ _).mp computed
      exact .sum same fits
    | subtract =>
      obtain ⟨_, rfl, same, fits⟩ := (Constant.bind_int32?_eq_some_iff _ _).mp computed
      exact .difference same fits
    | multiply =>
      obtain ⟨_, rfl, same, fits⟩ := (Constant.bind_int32?_eq_some_iff _ _).mp computed
      exact .product same fits
    | divide =>
      rw [Constant.combineInts?, Option.ite_none_left_eq_some, Option.some.injEq] at computed
      obtain ⟨nonzero, rfl⟩ := computed
      exact .quotient nonzero
    | _ => cases kind

theorem gives_of_combineReals? {x y : Float} (operands : left.AsReals right x y)
    (computed : Constant.combineReals? operator x y = some value) : operator.Gives left right value := by
  cases kind : operator.isComparison with
  | true =>
    rw [combineReals?_of_isComparison kind, Option.ite_none_left_eq_some, Option.some.injEq, not_or,
      Bool.not_eq_true, Bool.not_eq_true] at computed
    obtain ⟨⟨leftDefined, rightDefined⟩, rfl⟩ := computed
    exact .compareReals kind operands leftDefined rightDefined
  | false =>
    cases operator with
    | add =>
      cases computed
      exact .sumReals operands
    | subtract =>
      cases computed
      exact .differenceReals operands
    | multiply =>
      cases computed
      exact .productReals operands
    | divide =>
      rw [Constant.combineReals?, Option.ite_none_left_eq_some, Option.some.injEq, Bool.not_eq_true] at computed
      obtain ⟨nonzero, rfl⟩ := computed
      exact .quotientReals operands nonzero
    | _ => cases kind

theorem gives_of_combine? (computed : Constant.combine? operator left right = some value) :
    operator.Gives left right value := by
  match left, right with
  | .int _, .int _ => exact gives_of_combineInts? computed
  | .int _, .real _ => exact gives_of_combineReals? .intLeft computed
  | .real _, .int _ => exact gives_of_combineReals? .intRight computed
  | .real _, .real _ => exact gives_of_combineReals? .reals computed
  | .string left, .string right =>
    obtain ⟨truth, held, rfl⟩ := Option.map_eq_some_iff.mp computed
    have ⟨comparison, related⟩ := (holds?_compare_eq_some_iff _ _ _ _).mp held
    exact .compareTexts comparison (related.trans (relates_toList _ _ _).symm)
  | .bool _, .bool _ =>
    cases operator with
    | equal =>
      cases computed
      exact .equalBools
    | notEqual =>
      cases computed
      exact .unequalBools
    | _ => cases computed
  | .int _, .string _ | .int _, .bool _ | .real _, .string _ | .real _, .bool _ | .string _, .int _
  | .string _, .real _ | .string _, .bool _ | .bool _, .int _ | .bool _, .real _ | .bool _, .string _ =>
    cases computed

theorem gives_iff : operator.Gives left right value ↔ Constant.combine? operator left right = some value :=
  ⟨Gives.combine?_eq, gives_of_combine?⟩

end Operator

end TypedTree
