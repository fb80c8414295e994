import TypedTree.Check.Body
/-! The type a check finds for an expression, apart from the tree it leaves behind. Inference has one
equation for each form of expression; a successful check leaves behind the tree in which every part
carries the type inferred for it. -/

namespace TypedTree

namespace Checked

variable {α β γ δ : Type}

theorem outcome_andThen (part : Checked α β) (rebuild : α → γ) (next : α → β → Checked γ δ)
    (after : β → Except Problem δ) (apart : ∀ tree value, (next tree value).outcome = after value) :
    (part.andThen rebuild next).outcome = part.outcome >>= after := by
  cases found : part.outcome with
  | error problem => simp only [andThen, found]; rfl
  | ok value => simp only [andThen, found, apart]; rfl

@[simp] theorem outcome_finish (expr : Expr) (type : Except Problem Ty) :
    (finish expr type).outcome = type := by
  cases type <;> rfl

end Checked

/-- What a check finds out about an expression. -/
def Expr.infer (context : Context) (expr : Expr) : Except Problem Ty := (expr.check context).outcome

def Expr.inferPlace (context : Context) (expr : Expr) : Except Problem Ty :=
  if expr.isPlace then expr.infer context else .error (.notAddressable expr.render)

def Expr.inferPropertyBase (context : Context) (expr : Expr) : Except Problem Ty :=
  match expr with
  | .call .. => expr.infer context
  | _ => expr.inferPlace context

def inferArgs (context : Context) (whole : Expr) (params : List Ty) (args : List Expr) :
    Except Problem Unit := (checkArgs context whole params args).outcome

theorem outcome_asPlace (context : Context) (expr : Expr) :
    (Checked.asPlace expr (expr.check context)).outcome = expr.inferPlace context := by
  unfold Checked.asPlace Expr.inferPlace
  split <;> rfl

theorem outcome_asPropertyBase (context : Context) (expr : Expr) :
    (Checked.asPropertyBase expr (expr.check context)).outcome = expr.inferPropertyBase context := by
  cases expr with
  | call callee args type => rfl
  | _ => exact outcome_asPlace context _

namespace Expr

variable (context : Context)

theorem infer_call (callee : Expr) (args : List Expr) (type : Option Ty) :
    (call callee args type).infer context = (do
      let calleeType ← callee.inferPlace context
      match calleeType.params with
      | none => .error (.notAMethod callee.render)
      | some params =>
        inferArgs context (.call callee args type) params args
        return calleeType) := by
  unfold infer
  rw [check, Checked.outcome_andThen, outcome_asPlace]
  intro tree calleeType
  cases calleeType.params with
  | none => rfl
  | some params => exact Checked.outcome_andThen _ _ _ _ fun _ _ => rfl

theorem infer_arithmetic (operator : Operator) (left right : Expr) (type : Option Ty) :
    (arithmetic operator left right type).infer context = (do
      let leftType ← left.infer context
      let rightType ← right.infer context
      arithmeticType (.arithmetic operator left right type) operator leftType rightType) := by
  unfold infer
  rw [check]
  apply Checked.outcome_andThen
  intro _ leftType
  apply Checked.outcome_andThen
  intro _ rightType
  exact Checked.outcome_finish _ _

theorem infer_var (name : String) (type : Option Ty) :
    (var name type).infer context = nameType context.scopes name := by
  simp only [infer, check, Checked.outcome_finish]

theorem infer_index (base position : Expr) (type : Option Ty) :
    (index base position type).infer context = (do
      let baseType ← base.inferPlace context
      let positionType ← position.infer context
      elementType base position baseType positionType) := by
  unfold infer
  rw [check, Checked.outcome_andThen, outcome_asPlace]
  intro _ baseType
  apply Checked.outcome_andThen
  intro _ positionType
  exact Checked.outcome_finish _ _

theorem infer_property (base : Expr) (name : String) (type : Option Ty) :
    (property base name type).infer context = (do
      let baseType ← base.inferPropertyBase context
      propertyType context.environment (.property base name type) base name baseType) := by
  unfold infer
  rw [check, Checked.outcome_andThen, outcome_asPropertyBase]
  intro _ baseType
  exact Checked.outcome_finish _ _

end Expr

section Arguments

variable (context : Context) (whole : Expr)

@[simp] theorem inferArgs_nil (params : List Ty) : inferArgs context whole params [] = .ok () := by
  cases params <;> rfl

theorem inferArgs_surplus (arg : Expr) (args : List Expr) :
    inferArgs context whole [] (arg :: args) = (do
      let _ ← arg.infer context
      .error (.tooManyArguments whole.render)) := by
  unfold inferArgs
  rw [checkArgs]
  exact Checked.outcome_andThen _ _ _ _ fun _ _ => rfl

theorem inferArgs_cons (param : Ty) (params : List Ty) (arg : Expr) (args : List Expr) :
    inferArgs context whole (param :: params) (arg :: args) = (do
      let found ← arg.infer context
      expectType whole.render param found
      inferArgs context whole params args) := by
  unfold inferArgs
  rw [checkArgs]
  apply Checked.outcome_andThen
  intro tree found
  cases expectType whole.render param found <;> rfl

end Arguments

theorem expectType_eq_ok_iff (statement : String) (expected found : Ty) :
    expectType statement expected found = .ok () ↔ found.agrees expected = true := by
  unfold expectType
  split <;> simp_all

theorem arithmeticType_eq_ok_iff (whole : Expr) (operator : Operator) (leftType rightType type : Ty) :
    arithmeticType whole operator leftType rightType = .ok type ↔
      rightType.agrees leftType = true ∧ type = if operator.isComparison then .bool else leftType := by
  unfold arithmeticType
  rw [bind_unit_eq_ok_iff, expectType_eq_ok_iff]
  exact and_congr_right fun _ => ⟨fun same => (Except.ok.inj same).symm, fun same => by rw [same]; rfl⟩

theorem elementType_eq_ok_iff (base position : Expr) (baseType positionType type : Ty) :
    elementType base position baseType positionType = .ok type ↔
      baseType.isArray = true ∧ positionType.isIndexer = true ∧ type = baseType.element := by
  unfold elementType
  cases baseType.isArray <;> cases positionType.isIndexer <;> simp [eq_comm]

theorem propertyType_eq_ok_iff (environment : Environment) (whole base : Expr) (name : String)
    (baseType type : Ty) :
    propertyType environment whole base name baseType = .ok type ↔
      baseType.isArray = false ∧ ∃ object, environment.object? baseType.name = some object ∧
        object.property? name = some type := by
  unfold propertyType
  cases baseType.isArray with
  | true => simp
  | false =>
    cases environment.object? baseType.name with
    | none => simp
    | some object => cases found : object.property? name <;> simp [found]

theorem nameType_eq_ok_iff (scopes : Scopes) (name : String) (type : Ty) :
    nameType scopes name = .ok type ↔ scopes.lookup name = some type := by
  unfold nameType
  cases scopes.lookup name <;> simp

theorem Checked.asPlace_of_isPlace (expr : Expr) (check : Checked Expr Ty) (place : expr.isPlace = true) :
    asPlace expr check = check := if_pos place

theorem Checked.asPropertyBase_of_isPropertyBase (expr : Expr) (check : Checked Expr Ty)
    (allowed : expr.isPropertyBase = true) : asPropertyBase expr check = check := by
  cases expr with
  | call callee args type => rfl
  | _ => exact asPlace_of_isPlace _ check allowed

namespace Expr

variable (context : Context)

theorem inferPlace_eq_ok_iff (expr : Expr) (type : Ty) :
    expr.inferPlace context = .ok type ↔ expr.isPlace = true ∧ expr.infer context = .ok type := by
  unfold inferPlace
  split <;> simp_all

theorem inferPropertyBase_eq_ok_iff (expr : Expr) (type : Ty) :
    expr.inferPropertyBase context = .ok type ↔
      expr.isPropertyBase = true ∧ expr.infer context = .ok type := by
  cases expr with
  | call callee args written => simp [inferPropertyBase, isPropertyBase]
  | _ => exact inferPlace_eq_ok_iff context _ _

theorem infer_call_eq_ok_iff (callee : Expr) (args : List Expr) (written : Option Ty) (type : Ty) :
    (call callee args written).infer context = .ok type ↔
      callee.isPlace = true ∧ callee.infer context = .ok type ∧
        ∃ params, type.params = some params ∧
          inferArgs context (.call callee args written) params args = .ok () := by
  rw [infer_call, bind_eq_ok_iff]
  simp only [inferPlace_eq_ok_iff]
  constructor
  · intro inferred
    obtain ⟨calleeType, ⟨place, found⟩, rest⟩ := inferred
    cases signature : calleeType.params with
    | none => simp [signature] at rest
    | some params =>
      simp only [signature, bind_eq_ok_iff] at rest
      obtain ⟨_, fits, same⟩ := rest
      cases same
      exact ⟨place, found, params, signature, fits⟩
  · intro parts
    obtain ⟨place, found, params, signature, fits⟩ := parts
    refine ⟨type, ⟨place, found⟩, ?_⟩
    simp only [signature, fits]
    rfl

theorem infer_arithmetic_eq_ok_iff (operator : Operator) (left right : Expr) (written : Option Ty)
    (type : Ty) :
    (arithmetic operator left right written).infer context = .ok type ↔
      ∃ leftType rightType, left.infer context = .ok leftType ∧ right.infer context = .ok rightType ∧
        rightType.agrees leftType = true ∧ type = if operator.isComparison then .bool else leftType := by
  simp only [infer_arithmetic, bind_eq_ok_iff, arithmeticType_eq_ok_iff, exists_and_left]

theorem infer_var_eq_ok_iff (name : String) (written : Option Ty) (type : Ty) :
    (var name written).infer context = .ok type ↔ context.scopes.lookup name = some type := by
  rw [infer_var, nameType_eq_ok_iff]

theorem infer_index_eq_ok_iff (base position : Expr) (written : Option Ty) (type : Ty) :
    (index base position written).infer context = .ok type ↔
      base.isPlace = true ∧ ∃ baseType positionType,
        base.infer context = .ok baseType ∧ position.infer context = .ok positionType ∧
          baseType.isArray = true ∧ positionType.isIndexer = true ∧ type = baseType.element := by
  simp only [infer_index, bind_eq_ok_iff, elementType_eq_ok_iff, inferPlace_eq_ok_iff, and_assoc,
    exists_and_left]

theorem infer_property_eq_ok_iff (base : Expr) (name : String) (written : Option Ty) (type : Ty) :
    (property base name written).infer context = .ok type ↔
      base.isPropertyBase = true ∧ ∃ baseType, base.infer context = .ok baseType ∧
        baseType.isArray = false ∧ ∃ object, context.environment.object? baseType.name = some object ∧
          object.property? name = some type := by
  simp only [infer_property, bind_eq_ok_iff, propertyType_eq_ok_iff, inferPropertyBase_eq_ok_iff,
    and_assoc, exists_and_left]

end Expr

theorem inferArgs_surplus_ne_ok (context : Context) (whole arg : Expr) (args : List Expr) :
    inferArgs context whole [] (arg :: args) ≠ .ok () := by
  rw [inferArgs_surplus, Ne, bind_eq_ok_iff]
  simp

theorem inferArgs_cons_eq_ok_iff (context : Context) (whole : Expr) (param : Ty) (params : List Ty)
    (arg : Expr) (args : List Expr) :
    inferArgs context whole (param :: params) (arg :: args) = .ok () ↔
      ∃ found, arg.infer context = .ok found ∧ found.agrees param = true ∧
        inferArgs context whole params args = .ok () := by
  rw [inferArgs_cons, bind_eq_ok_iff]
  simp only [bind_unit_eq_ok_iff, expectType_eq_ok_iff]

end TypedTree
