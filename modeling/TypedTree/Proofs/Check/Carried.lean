import TypedTree.Proofs.Check.Verdict
/-! Trees that a check leaves as they are: they are accepted, and every expression in them carries the
type that is inferred for it. -/

namespace TypedTree

/-- The expression has the type, and it and all its parts carry the types they have. -/
def Expr.Carries (context : Context) (expr : Expr) (type : Ty) : Prop :=
  expr.infer context = .ok type ∧ expr.annotate context = expr

def ArgsCarry (context : Context) : List Ty → List Expr → Prop
  | _, [] => True
  | [], _ :: _ => False
  | param :: params, arg :: args =>
    (∃ found, arg.Carries context found ∧ found.agrees param = true) ∧ ArgsCarry context params args

section Expressions

variable {context : Context}

theorem Expr.Carries.type?_eq {expr : Expr} {type : Ty} (carries : expr.Carries context type) :
    expr.type? = some type := by
  rw [← carries.right]
  exact expr.type?_annotate context carries.left

theorem argsCarry_iff (whole : Expr) (params : List Ty) (args : List Expr) :
    inferArgs context whole params args = .ok () ∧ annotateArgs context args = args ↔
      ArgsCarry context params args := by
  induction args generalizing params with
  | nil => exact ⟨fun _ => by simp only [ArgsCarry], fun _ => ⟨inferArgs_nil context whole params, rfl⟩⟩
  | cons arg args ih =>
    cases params with
    | nil => exact ⟨fun fits => absurd fits.left (inferArgs_surplus_ne_ok context whole arg args), nofun⟩
    | cons param params =>
      rw [inferArgs_cons_eq_ok_iff, annotateArgs, List.cons.injEq, ArgsCarry, ← ih params]
      constructor
      · intro carries
        obtain ⟨⟨found, argFound, agrees, rest⟩, argSame, restSame⟩ := carries
        exact ⟨⟨found, ⟨argFound, argSame⟩, agrees⟩, rest, restSame⟩
      · intro parts
        obtain ⟨⟨found, ⟨argFound, argSame⟩, agrees⟩, rest, restSame⟩ := parts
        exact ⟨⟨found, argFound, agrees, rest⟩, argSame, restSame⟩

namespace Expr

theorem carries_call_iff (callee : Expr) (args : List Expr) (written : Option Ty) (type : Ty) :
    (call callee args written).Carries context type ↔
      written = some type ∧ callee.isPlace = true ∧ callee.Carries context type ∧
        ∃ params, type.params = some params ∧ ArgsCarry context params args := by
  simp only [← argsCarry_iff (call callee args written)]
  constructor
  · intro carries
    have decorated := carries.type?_eq
    obtain ⟨found, same⟩ := carries
    obtain ⟨place, calleeFound, params, signature, fits⟩ :=
      (infer_call_eq_ok_iff context callee args written type).mp found
    obtain ⟨calleeSame, argsSame, -⟩ := Expr.call.inj same
    exact ⟨decorated, place, ⟨calleeFound, calleeSame⟩, params, signature, fits, argsSame⟩
  · intro parts
    obtain ⟨rfl, place, ⟨calleeFound, calleeSame⟩, params, signature, fits, argsSame⟩ := parts
    have found := (infer_call_eq_ok_iff context callee args (some type) type).mpr
      ⟨place, calleeFound, params, signature, fits⟩
    refine ⟨found, ?_⟩
    rw [annotate, found, calleeSame, argsSame]
    rfl

theorem carries_arithmetic_iff (operator : Operator) (left right : Expr) (written : Option Ty)
    (type : Ty) :
    (arithmetic operator left right written).Carries context type ↔
      written = some type ∧ ∃ leftType rightType, left.Carries context leftType ∧
        right.Carries context rightType ∧ rightType.agrees leftType = true ∧
          type = if operator.isComparison then .bool else leftType := by
  constructor
  · intro carries
    have decorated := carries.type?_eq
    obtain ⟨found, same⟩ := carries
    obtain ⟨leftType, rightType, leftFound, rightFound, agrees, result⟩ :=
      (infer_arithmetic_eq_ok_iff context operator left right written type).mp found
    obtain ⟨-, leftSame, rightSame, -⟩ := Expr.arithmetic.inj same
    exact ⟨decorated, leftType, rightType, ⟨leftFound, leftSame⟩, ⟨rightFound, rightSame⟩, agrees, result⟩
  · intro parts
    obtain ⟨rfl, leftType, rightType, ⟨leftFound, leftSame⟩, ⟨rightFound, rightSame⟩, agrees, result⟩ :=
      parts
    have found := (infer_arithmetic_eq_ok_iff context operator left right (some type) type).mpr
      ⟨leftType, rightType, leftFound, rightFound, agrees, result⟩
    refine ⟨found, ?_⟩
    rw [annotate, found, leftSame, rightSame]
    rfl

theorem carries_index_iff (base position : Expr) (written : Option Ty) (type : Ty) :
    (index base position written).Carries context type ↔
      written = some type ∧ base.isPlace = true ∧ ∃ baseType positionType,
        base.Carries context baseType ∧ position.Carries context positionType ∧
          baseType.isArray = true ∧ positionType.isIndexer = true ∧ type = baseType.element := by
  constructor
  · intro carries
    have decorated := carries.type?_eq
    obtain ⟨found, same⟩ := carries
    obtain ⟨place, baseType, positionType, baseFound, positionFound, indexable⟩ :=
      (infer_index_eq_ok_iff context base position written type).mp found
    obtain ⟨baseSame, positionSame, -⟩ := Expr.index.inj same
    exact ⟨decorated, place, baseType, positionType, ⟨baseFound, baseSame⟩,
      ⟨positionFound, positionSame⟩, indexable⟩
  · intro parts
    obtain ⟨rfl, place, baseType, positionType, ⟨baseFound, baseSame⟩, ⟨positionFound, positionSame⟩,
      indexable⟩ := parts
    have found := (infer_index_eq_ok_iff context base position (some type) type).mpr
      ⟨place, baseType, positionType, baseFound, positionFound, indexable⟩
    refine ⟨found, ?_⟩
    rw [annotate, found, baseSame, positionSame]
    rfl

theorem carries_property_iff (base : Expr) (name : String) (written : Option Ty) (type : Ty) :
    (property base name written).Carries context type ↔
      written = some type ∧ base.isPropertyBase = true ∧ ∃ baseType, base.Carries context baseType ∧
        baseType.isArray = false ∧ ∃ object, context.environment.object? baseType.name = some object ∧
          object.property? name = some type := by
  constructor
  · intro carries
    have decorated := carries.type?_eq
    obtain ⟨found, same⟩ := carries
    obtain ⟨place, baseType, baseFound, owned⟩ :=
      (infer_property_eq_ok_iff context base name written type).mp found
    obtain ⟨baseSame, -⟩ := Expr.property.inj same
    exact ⟨decorated, place, baseType, ⟨baseFound, baseSame⟩, owned⟩
  · intro parts
    obtain ⟨rfl, place, baseType, ⟨baseFound, baseSame⟩, owned⟩ := parts
    have found := (infer_property_eq_ok_iff context base name (some type) type).mpr
      ⟨place, baseType, baseFound, owned⟩
    refine ⟨found, ?_⟩
    rw [annotate, found, baseSame]
    rfl

end Expr

end Expressions

section Statements

variable (environment : Environment) (scopes : Scopes)

def Stmt.Carries (stmt : Stmt) : Prop :=
  stmt.verdict environment scopes = .ok () ∧ stmt.annotate environment scopes = stmt

def ElseCarries (branch : Option Stmt) : Prop :=
  elseVerdict environment scopes branch = .ok () ∧ annotateElse environment scopes branch = branch

def LinesCarry (lines : List Stmt) : Prop :=
  linesVerdict environment scopes lines = .ok () ∧ annotateLines environment scopes lines = lines

theorem Stmt.carries_define_iff (name : String) (type : Ty) (value : Expr) :
    (declare name type (some value)).Carries environment scopes ↔
      scopes.lookup name = none ∧
        ∃ found, value.Carries ⟨environment, scopes⟩ found ∧ found.agrees type = true := by
  rw [Carries, verdict_declare_eq_ok_iff, initializerVerdict_some_eq_ok_iff, annotate, Option.map,
    declare.injEq]
  constructor
  · intro carries
    obtain ⟨⟨fresh, found, valueFound, agrees⟩, -, -, valueSame⟩ := carries
    exact ⟨fresh, found, ⟨valueFound, Option.some.inj valueSame⟩, agrees⟩
  · intro parts
    obtain ⟨fresh, found, ⟨valueFound, valueSame⟩, agrees⟩ := parts
    exact ⟨⟨fresh, found, valueFound, agrees⟩, rfl, rfl, congrArg some valueSame⟩

theorem Stmt.carries_assign_iff (target value : Expr) :
    (assign target value).Carries environment scopes ↔
      ∃ found expected, value.Carries ⟨environment, scopes⟩ found ∧ target.isPlace = true ∧
        target.Carries ⟨environment, scopes⟩ expected ∧ found.agrees expected = true := by
  rw [Carries, verdict_assign_eq_ok_iff, annotate, assign.injEq]
  constructor
  · intro carries
    obtain ⟨⟨found, expected, valueFound, place, targetFound, agrees⟩, targetSame, valueSame⟩ := carries
    exact ⟨found, expected, ⟨valueFound, valueSame⟩, place, ⟨targetFound, targetSame⟩, agrees⟩
  · intro parts
    obtain ⟨found, expected, ⟨valueFound, valueSame⟩, place, ⟨targetFound, targetSame⟩, agrees⟩ := parts
    exact ⟨⟨found, expected, valueFound, place, targetFound, agrees⟩, targetSame, valueSame⟩

theorem Stmt.carries_branch_iff (condition : Expr) (thenBranch : Stmt) (elseBranch : Option Stmt) :
    (branch condition thenBranch elseBranch).Carries environment scopes ↔
      (∃ conditionType, condition.Carries ⟨environment, scopes⟩ conditionType ∧
        conditionType.agrees .bool = true) ∧
          thenBranch.Carries environment scopes.enter ∧ ElseCarries environment scopes elseBranch := by
  rw [Carries, verdict_branch_eq_ok_iff, annotate, branch.injEq]
  constructor
  · intro carries
    obtain ⟨⟨conditionType, found, thenAccepted, elseAccepted, agrees⟩, same, thenSame, elseSame⟩ :=
      carries
    exact ⟨⟨conditionType, ⟨found, same⟩, agrees⟩, ⟨thenAccepted, thenSame⟩, elseAccepted, elseSame⟩
  · intro parts
    obtain ⟨⟨conditionType, ⟨found, same⟩, agrees⟩, ⟨thenAccepted, thenSame⟩, elseAccepted, elseSame⟩ :=
      parts
    exact ⟨⟨conditionType, found, thenAccepted, elseAccepted, agrees⟩, same, thenSame, elseSame⟩

theorem Stmt.carries_call_iff (callee : Expr) (args : List Expr) (written : Option Ty) :
    (call callee args written).Carries environment scopes ↔
      ∃ found, (Expr.call callee args written).Carries ⟨environment, scopes⟩ found := by
  rw [Carries, verdict_call_eq_ok_iff, annotate, call.injEq]
  simp only [Expr.Carries, Expr.annotate, Expr.call.injEq, exists_and_right]

theorem Stmt.carries_block_iff (lines : List Stmt) :
    (block lines).Carries environment scopes ↔ LinesCarry environment scopes.enter lines := by
  rw [Carries, verdict_block, annotate, block.injEq, LinesCarry]

theorem elseCarries_some_iff (branch : Stmt) :
    ElseCarries environment scopes (some branch) ↔ branch.Carries environment scopes.enter := by
  rw [ElseCarries, elseVerdict_some, annotateElse, Option.some.injEq, Stmt.Carries]

theorem linesCarry_cons_iff (line : Stmt) (lines : List Stmt) :
    LinesCarry environment scopes (line :: lines) ↔
      line.Carries environment scopes ∧ LinesCarry environment (line.scopesAfter scopes) lines := by
  rw [LinesCarry, linesVerdict_cons_eq_ok_iff, annotateLines, List.cons.injEq, Stmt.Carries, LinesCarry,
    and_and_and_comm]

end Statements

end TypedTree
