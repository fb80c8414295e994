import TypedTree.Proofs.Optimize.Safety
import TypedTree.Proofs.Optimize.Values
/-! What folding replaces, told from the top of an expression: the largest parts that have a value become the
literal of that value, and everything around them stays. -/

namespace TypedTree

/-- The value of an expression made of literals. Most expressions have none. -/
inductive Expr.HasValue : Expr → Constant → Prop where
  | int {value : Int64} {written : Option Ty} : HasValue (.int value written) (.int value)
  | real {value : Float} {written : Option Ty} : HasValue (.real value written) (.real value)
  | string {value : String} {written : Option Ty} : HasValue (.string value written) (.string value)
  | bool {value : Bool} {written : Option Ty} : HasValue (.bool value written) (.bool value)
  | arithmetic {operator : Operator} {left right : Expr} {written : Option Ty}
      {leftValue rightValue value : Constant} : left.HasValue leftValue → right.HasValue rightValue →
      operator.Gives leftValue rightValue value → HasValue (.arithmetic operator left right written) value

/-- Arithmetic that has no value. Its operands may still have one. -/
def Expr.Undetermined (expr : Expr) : Prop := ∀ value, ¬expr.HasValue value

mutual

/-- Arithmetic with a value is replaced by its literal, and nothing in it is looked at. Outside of such parts
nothing changes; the types written there stay, or stay absent. -/
inductive Expr.Folds : Expr → Expr → Prop where
  | toInt {operator : Operator} {left right : Expr} {written : Option Ty} {value : Int64} :
      (Expr.arithmetic operator left right written).HasValue (.int value) →
      Expr.Folds (.arithmetic operator left right written) (.int value (some .int32))
  | toReal {operator : Operator} {left right : Expr} {written : Option Ty} {value : Float} :
      (Expr.arithmetic operator left right written).HasValue (.real value) →
      Expr.Folds (.arithmetic operator left right written) (.real value (some .real64))
  | toBool {operator : Operator} {left right : Expr} {written : Option Ty} {value : Bool} :
      (Expr.arithmetic operator left right written).HasValue (.bool value) →
      Expr.Folds (.arithmetic operator left right written) (.bool value (some .bool))
  | arithmetic {operator : Operator} {left right leftFolded rightFolded : Expr} {written : Option Ty} :
      (Expr.arithmetic operator left right written).Undetermined →
      left.Folds leftFolded → right.Folds rightFolded →
      Expr.Folds (.arithmetic operator left right written) (.arithmetic operator leftFolded rightFolded written)
  | call {callee calleeFolded : Expr} {args argsFolded : List Expr} {written : Option Ty} :
      callee.Folds calleeFolded → ArgsFold args argsFolded →
      Expr.Folds (.call callee args written) (.call calleeFolded argsFolded written)
  | index {base position baseFolded positionFolded : Expr} {written : Option Ty} :
      base.Folds baseFolded → position.Folds positionFolded →
      Expr.Folds (.index base position written) (.index baseFolded positionFolded written)
  | property {base baseFolded : Expr} {name : String} {written : Option Ty} : base.Folds baseFolded →
      Expr.Folds (.property base name written) (.property baseFolded name written)
  | var {name : String} {written : Option Ty} : Expr.Folds (.var name written) (.var name written)
  | string {value : String} {written : Option Ty} : Expr.Folds (.string value written) (.string value written)
  | int {value : Int64} {written : Option Ty} : Expr.Folds (.int value written) (.int value written)
  | bool {value : Bool} {written : Option Ty} : Expr.Folds (.bool value written) (.bool value written)
  | real {value : Float} {written : Option Ty} : Expr.Folds (.real value written) (.real value written)

inductive ArgsFold : List Expr → List Expr → Prop where
  | nil : ArgsFold [] []
  | cons {arg argFolded : Expr} {args argsFolded : List Expr} : arg.Folds argFolded → ArgsFold args argsFolded →
      ArgsFold (arg :: args) (argFolded :: argsFolded)

end

mutual

def Stmt.mapExprs (change : Expr → Expr) : Stmt → Stmt
  | .declare name type value => .declare name type (value.map change)
  | .assign target value => .assign (change target) (change value)
  | .branch condition thenBranch elseBranch =>
    .branch (change condition) (thenBranch.mapExprs change) (elseMapExprs change elseBranch)
  | .call callee args written => .call (change callee) (args.map change) written
  | .block lines => .block (linesMapExprs change lines)

def elseMapExprs (change : Expr → Expr) : Option Stmt → Option Stmt
  | none => none
  | some branch => some (branch.mapExprs change)

def linesMapExprs (change : Expr → Expr) : List Stmt → List Stmt
  | [] => []
  | line :: lines => line.mapExprs change :: linesMapExprs change lines

end

def Decl.mapExprs (change : Expr → Expr) : Decl → Decl
  | .function declaration => .function { declaration with body := linesMapExprs change declaration.body }
  | .object declaration => .object declaration

/-- A program with every expression of its own functions changed. The programs it imports stay. -/
def Program.mapExprs (change : Expr → Expr) (program : Program) : Program :=
  { program with decls := program.decls.map (Decl.mapExprs change) }

theorem Operator.not_gives_string (operator : Operator) (left right : Constant) (text : String) :
    ¬operator.Gives left right (.string text) := nofun

section Expressions

theorem foldOperands?_eq_some_iff (operator : Operator) (left right : Expr) (value : Constant) :
    foldOperands? operator left right = some value ↔ ∃ leftValue, Constant.ofExpr? left = some leftValue ∧
      ∃ rightValue, Constant.ofExpr? right = some rightValue ∧
        operator.Gives leftValue rightValue value := by
  simp only [foldOperands?, Option.bind_eq_bind, Option.bind_eq_some_iff, Operator.gives_iff]

theorem Expr.hasValue_iff {expr : Expr} (value : Constant) :
    expr.HasValue value ↔ Constant.ofExpr? expr.fold.1 = some value := by
  match expr with
  | .arithmetic operator left right written =>
    have operands : (Expr.arithmetic operator left right written).HasValue value ↔
        foldOperands? operator left.fold.1 right.fold.1 = some value := by
      simp only [foldOperands?_eq_some_iff, ← hasValue_iff]
      constructor
      · intro valued
        cases valued with
        | arithmetic leftValued rightValued given => exact ⟨_, leftValued, _, rightValued, given⟩
      · intro valued
        obtain ⟨_, leftValued, _, rightValued, given⟩ := valued
        exact .arithmetic leftValued rightValued given
    rw [operands]
    cases found : foldOperands? operator left.fold.1 right.fold.1 with
    | some constant => rw [fold_arithmetic_of_some written found, Constant.ofExpr?_literal]
    | none =>
      rw [fold_arithmetic_of_none written found]
      exact Iff.rfl
  | .int .. | .real .. | .string .. | .bool .. =>
    constructor
    · intro valued
      cases valued
      rfl
    · intro found
      cases found
      constructor
  | .call .. | .index .. | .property .. | .var .. =>
    exact iff_of_false (fun valued => nomatch valued) (fun found => nomatch found)

theorem Expr.folds_literal {operator : Operator} {left right : Expr} {written : Option Ty} {value : Constant}
    (valued : (arithmetic operator left right written).HasValue value) :
    (arithmetic operator left right written).Folds value.literal := by
  cases value with
  | int => exact .toInt valued
  | real => exact .toReal valued
  | bool => exact .toBool valued
  | string text =>
    cases valued with
    | arithmetic _ _ given => exact absurd given (operator.not_gives_string _ _ text)

mutual

/-- An expression folds to what the fold of it from the leaves up yields. -/
theorem Expr.folds_fold (expr : Expr) : expr.Folds expr.fold.1 := by
  match expr with
  | .arithmetic operator left right written =>
    cases found : foldOperands? operator left.fold.1 right.fold.1 with
    | some constant =>
      rw [Expr.fold_arithmetic_of_some written found]
      apply Expr.folds_literal
      rw [Expr.hasValue_iff, Expr.fold_arithmetic_of_some written found, Constant.ofExpr?_literal]
    | none =>
      rw [Expr.fold_arithmetic_of_none written found]
      refine .arithmetic ?_ left.folds_fold right.folds_fold
      intro value valued
      rw [Expr.hasValue_iff, Expr.fold_arithmetic_of_none written found] at valued
      cases valued
  | .call callee args written => exact .call callee.folds_fold (argsFold_foldArgs args)
  | .index base position written => exact .index base.folds_fold position.folds_fold
  | .property base name written => exact .property base.folds_fold
  | .var .. => exact .var
  | .string .. => exact .string
  | .int .. => exact .int
  | .bool .. => exact .bool
  | .real .. => exact .real

theorem argsFold_foldArgs (args : List Expr) : ArgsFold args (foldArgs args).1 := by
  match args with
  | [] => exact .nil
  | arg :: args => exact .cons arg.folds_fold (argsFold_foldArgs args)

end

theorem Expr.HasValue.unique {expr : Expr} {value other : Constant} (valued : expr.HasValue value)
    (again : expr.HasValue other) : value = other := by
  rw [hasValue_iff] at valued again
  exact Option.some.inj (valued.symm.trans again)

theorem Expr.Folds.eq_literal {operator : Operator} {left right folded : Expr} {written : Option Ty}
    {value : Constant} (folds : (Expr.arithmetic operator left right written).Folds folded)
    (valued : (Expr.arithmetic operator left right written).HasValue value) : folded = value.literal := by
  cases folds with
  | toInt again | toReal again | toBool again =>
    cases valued.unique again
    rfl
  | arithmetic undetermined => exact absurd valued (undetermined value)

mutual

theorem Expr.Folds.unique {expr folded other : Expr} (folds : expr.Folds folded) (again : expr.Folds other) :
    folded = other := by
  match folds with
  | .toInt valued | .toReal valued | .toBool valued => exact (again.eq_literal valued).symm
  | .arithmetic undetermined leftFolds rightFolds =>
    cases again with
    | toInt valued | toReal valued | toBool valued => exact absurd valued (undetermined _)
    | arithmetic _ leftAgain rightAgain => rw [leftFolds.unique leftAgain, rightFolds.unique rightAgain]
  | .call calleeFolds argsFold =>
    cases again with
    | call calleeAgain argsAgain => rw [calleeFolds.unique calleeAgain, argsFold.unique argsAgain]
  | .index baseFolds positionFolds =>
    cases again with
    | index baseAgain positionAgain => rw [baseFolds.unique baseAgain, positionFolds.unique positionAgain]
  | .property baseFolds =>
    cases again with
    | property baseAgain => rw [baseFolds.unique baseAgain]
  | .var | .string | .int | .bool | .real =>
    cases again
    rfl

theorem ArgsFold.unique {args folded other : List Expr} (folds : ArgsFold args folded)
    (again : ArgsFold args other) : folded = other := by
  match folds with
  | .nil =>
    cases again
    rfl
  | .cons argFolds argsFold =>
    cases again with
    | cons argAgain argsAgain => rw [argFolds.unique argAgain, argsFold.unique argsAgain]

end

theorem Expr.folds_iff (expr folded : Expr) : expr.Folds folded ↔ expr.fold.1 = folded := by
  constructor
  · exact expr.folds_fold.unique
  · intro same
    rw [← same]
    exact expr.folds_fold

end Expressions

section Bodies

theorem foldArgs_eq_map (args : List Expr) : (foldArgs args).1 = args.map fun arg => arg.fold.1 := by
  induction args with
  | nil => rfl
  | cons arg args ih => rw [foldArgs, ih, List.map_cons]

theorem foldInitializer_eq_map (value : Option Expr) :
    (foldInitializer value).1 = value.map fun value => value.fold.1 := by
  cases value <;> rfl

mutual

theorem Stmt.fold_eq_mapExprs (stmt : Stmt) : stmt.fold.1 = stmt.mapExprs fun expr => expr.fold.1 := by
  match stmt with
  | .declare name type value => simp only [Stmt.fold, Stmt.mapExprs, foldInitializer_eq_map]
  | .assign target value => simp only [Stmt.fold, Stmt.mapExprs]
  | .branch condition thenBranch elseBranch =>
    simp only [Stmt.fold, Stmt.mapExprs, thenBranch.fold_eq_mapExprs, foldElse_eq_mapExprs elseBranch]
  | .call callee args written => simp only [Stmt.fold, Stmt.mapExprs, foldArgs_eq_map]
  | .block lines => simp only [Stmt.fold, Stmt.mapExprs, foldLines_eq_mapExprs lines]

theorem foldElse_eq_mapExprs (branch : Option Stmt) :
    (foldElse branch).1 = elseMapExprs (fun expr => expr.fold.1) branch := by
  match branch with
  | none => rfl
  | some branch => simp only [foldElse, elseMapExprs, branch.fold_eq_mapExprs]

theorem foldLines_eq_mapExprs (lines : List Stmt) :
    (foldLines lines).1 = linesMapExprs (fun expr => expr.fold.1) lines := by
  match lines with
  | [] => rfl
  | line :: lines => simp only [foldLines, linesMapExprs, line.fold_eq_mapExprs, foldLines_eq_mapExprs lines]

end

theorem Decl.fold_eq_mapExprs (decl : Decl) : decl.fold.1 = decl.mapExprs fun expr => expr.fold.1 := by
  cases decl with
  | function declaration => simp only [fold, mapExprs, foldLines_eq_mapExprs]
  | object declaration => rfl

/-- Folding is exact. The fold of an expression has the literals of their values for the largest parts that have
one, and is the expression otherwise; a program is folded in every expression of its functions, and nowhere
else. -/
theorem Program.fold_exact (program : Program) :
    (∀ expr folded : Expr, expr.Folds folded ↔ expr.fold.1 = folded) ∧
      (Pass.folding.run program).1 = program.mapExprs fun expr => expr.fold.1 := by
  refine ⟨Expr.folds_iff, ?_⟩
  change ({ program with decls := (foldDecls program.decls).1 } : Program) = _
  rw [foldDecls_eq_map, mapExprs]
  simp only [Decl.fold_eq_mapExprs]

end Bodies

end TypedTree
