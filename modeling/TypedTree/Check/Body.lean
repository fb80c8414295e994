import TypedTree.Tree.Render
import TypedTree.Check.Scopes
import TypedTree.Check.Environment
/-! Checking the bodies of functions. A check returns the tree it has decorated so far together with
its outcome: the first problem ends a check, and nothing behind the problem is decorated. -/

namespace TypedTree

structure Context where
  environment : Environment
  scopes : Scopes

structure Checked (α β : Type) where
  tree : α
  outcome : Except Problem β

def expectType (statement : String) (expected found : Ty) : Except Problem Unit :=
  if found.agrees expected then .ok () else .error (.typeMismatch statement expected found)

namespace Checked

variable {α β γ δ : Type}

def andThen (part : Checked α β) (rebuild : α → γ) (next : α → β → Checked γ δ) : Checked γ δ :=
  match part.outcome with
  | .error problem => ⟨rebuild part.tree, .error problem⟩
  | .ok value => next part.tree value

def finish (expr : Expr) (type : Except Problem Ty) : Checked Expr Ty :=
  match type with
  | .error problem => ⟨expr, .error problem⟩
  | .ok type => ⟨expr.decorate type, .ok type⟩

/-- The check of an expression that must denote a storage location or a callee. Another expression is
refused before anything in it is checked. -/
def asPlace (expr : Expr) (check : Checked Expr Ty) : Checked Expr Ty :=
  if expr.isPlace then check else ⟨expr, .error (.notAddressable expr.render)⟩

def asPropertyBase (expr : Expr) (check : Checked Expr Ty) : Checked Expr Ty :=
  match expr with
  | .call .. => check
  | _ => asPlace expr check

end Checked

def elementType (base position : Expr) (baseType positionType : Ty) : Except Problem Ty :=
  if !baseType.isArray then .error (.typeNotIndexable base.render)
  else if !positionType.isIndexer then .error (.typeNotIndexer position.render)
  else .ok baseType.element

def propertyType (environment : Environment) (whole base : Expr) (name : String) (baseType : Ty) :
    Except Problem Ty :=
  if baseType.isArray then .error (.typeNotIndexable base.render)
  else
    match environment.object? baseType.name with
    | none => .error (.objectTypeMissing whole.render)
    | some object =>
      match object.property? name with
      | none => .error (.propertyMissing whole.render)
      | some type => .ok type

def arithmeticType (whole : Expr) (operator : Operator) (leftType rightType : Ty) :
    Except Problem Ty := do
  expectType whole.render leftType rightType
  return if operator.isComparison then .bool else leftType

def nameType (scopes : Scopes) (name : String) : Except Problem Ty :=
  match scopes.lookup name with
  | some type => .ok type
  | none => .error (.missingVariable name)

mutual

def Expr.check (context : Context) : Expr → Checked Expr Ty
  | .call callee args type =>
    (Checked.asPlace callee (callee.check context)).andThen (.call · args type)
      fun checkedCallee calleeType =>
        match calleeType.params with
        | none => ⟨.call checkedCallee args type, .error (.notAMethod callee.render)⟩
        | some params =>
          (checkArgs context (.call callee args type) params args).andThen
            (.call checkedCallee · type)
            fun checkedArgs _ => .finish (.call checkedCallee checkedArgs type) (.ok calleeType)
  | .arithmetic operator left right type =>
    (left.check context).andThen (.arithmetic operator · right type) fun checkedLeft leftType =>
      (right.check context).andThen (.arithmetic operator checkedLeft · type)
        fun checkedRight rightType =>
          .finish (.arithmetic operator checkedLeft checkedRight type)
            (arithmeticType (.arithmetic operator left right type) operator leftType rightType)
  | .var name type => .finish (.var name type) (nameType context.scopes name)
  | .index base position type =>
    (Checked.asPlace base (base.check context)).andThen (.index · position type)
      fun checkedBase baseType =>
        (position.check context).andThen (.index checkedBase · type)
          fun checkedPosition positionType =>
            .finish (.index checkedBase checkedPosition type)
              (elementType base position baseType positionType)
  | .property base name type =>
    (Checked.asPropertyBase base (base.check context)).andThen (.property · name type)
      fun checkedBase baseType =>
        .finish (.property checkedBase name type)
          (propertyType context.environment (.property base name type) base name baseType)
  | .string value type => .finish (.string value type) (.ok .string)
  | .int value type => .finish (.int value type) (.ok .int32)
  | .bool value type => .finish (.bool value type) (.ok .bool)
  | .real value type => .finish (.real value type) (.ok .real64)

/-- Checks the arguments of the call `whole` against the parameters, position by position. A call may
pass fewer arguments than there are parameters but not more. -/
def checkArgs (context : Context) (whole : Expr) : List Ty → List Expr → Checked (List Expr) Unit
  | _, [] => ⟨[], .ok ()⟩
  | [], arg :: args =>
    (arg.check context).andThen (· :: args) fun checkedArg _ =>
      ⟨checkedArg :: args, .error (.tooManyArguments whole.render)⟩
  | param :: params, arg :: args =>
    (arg.check context).andThen (· :: args) fun checkedArg found =>
      match expectType whole.render param found with
      | .error problem => ⟨checkedArg :: args, .error problem⟩
      | .ok () =>
        let rest := checkArgs context whole params args
        ⟨checkedArg :: rest.tree, rest.outcome⟩

end

structure CheckedBody (α : Type) extends Checked α Unit where
  scopes : Scopes

namespace CheckedBody

def exitScope {α : Type} (body : CheckedBody α) : CheckedBody α :=
  { body with scopes := body.scopes.exit }

end CheckedBody

def checkInitializer (context : Context) (whole : Stmt) (type : Ty) :
    Option Expr → Checked (Option Expr) Unit
  | none => ⟨none, .ok ()⟩
  | some value =>
    (value.check context).andThen some fun checkedValue found =>
      ⟨some checkedValue, expectType whole.render type found⟩

def checkDeclare (context : Context) (name : String) (type : Ty) (value : Option Expr) :
    CheckedBody Stmt :=
  let stmt := Stmt.declare name type value
  if context.scopes.isDeclared name then
    { tree := stmt, outcome := .error (.duplicateVariable name), scopes := context.scopes }
  else
    let checked := checkInitializer context stmt type value
    match checked.outcome with
    | .error problem =>
      { tree := .declare name type checked.tree, outcome := .error problem, scopes := context.scopes }
    | .ok () =>
      match context.scopes.define name type with
      | .error problem =>
        { tree := .declare name type checked.tree, outcome := .error problem
          scopes := context.scopes }
      | .ok scopes => { tree := .declare name type checked.tree, outcome := .ok (), scopes }

def checkAssign (context : Context) (target value : Expr) : Checked Stmt Unit :=
  (value.check context).andThen (.assign target ·) fun checkedValue found =>
    (Checked.asPlace target (target.check context)).andThen (.assign · checkedValue)
      fun checkedTarget expected =>
        ⟨.assign checkedTarget checkedValue,
          expectType (Stmt.assign target value).render expected found⟩

mutual

/-- Checks a statement. Both branches of an `if` are checked, in scopes of their own, before the type
of its condition counts. -/
def Stmt.check (environment : Environment) (scopes : Scopes) : Stmt → CheckedBody Stmt
  | .declare name type value => checkDeclare ⟨environment, scopes⟩ name type value
  | .assign target value =>
    { checkAssign ⟨environment, scopes⟩ target value with scopes }
  | .branch condition thenBranch elseBranch =>
    let checkedCondition := condition.check ⟨environment, scopes⟩
    match checkedCondition.outcome with
    | .error problem =>
      { tree := .branch checkedCondition.tree thenBranch elseBranch, outcome := .error problem, scopes }
    | .ok conditionType =>
      let checkedThen := (thenBranch.check environment scopes.enter).exitScope
      match checkedThen.outcome with
      | .error problem =>
        { tree := .branch checkedCondition.tree checkedThen.tree elseBranch
          outcome := .error problem, scopes := checkedThen.scopes }
      | .ok () =>
        let checkedElse := checkElse environment checkedThen.scopes elseBranch
        { tree := .branch checkedCondition.tree checkedThen.tree checkedElse.tree
          scopes := checkedElse.scopes
          outcome := do
            checkedElse.outcome
            if conditionType.agrees .bool then .ok () else .error (.ifNeedsBool condition.render) }
  | .call callee args type =>
    let checked := (Expr.call callee args type).check ⟨environment, scopes⟩
    { tree := checked.tree.toStmt?.getD (.call callee args type)
      outcome := checked.outcome.map fun _ => (), scopes }
  | .block lines =>
    let checked := (checkLines environment scopes.enter lines).exitScope
    { tree := .block checked.tree, outcome := checked.outcome, scopes := checked.scopes }

def checkElse (environment : Environment) (scopes : Scopes) :
    Option Stmt → CheckedBody (Option Stmt)
  | none => { tree := none, outcome := .ok (), scopes }
  | some branch =>
    let checked := (branch.check environment scopes.enter).exitScope
    { tree := some checked.tree, outcome := checked.outcome, scopes := checked.scopes }

def checkLines (environment : Environment) (scopes : Scopes) : List Stmt → CheckedBody (List Stmt)
  | [] => { tree := [], outcome := .ok (), scopes }
  | line :: lines =>
    let checked := line.check environment scopes
    match checked.outcome with
    | .error problem => { tree := checked.tree :: lines, outcome := .error problem, scopes := checked.scopes }
    | .ok () =>
      let rest := checkLines environment checked.scopes lines
      { tree := checked.tree :: rest.tree, outcome := rest.outcome, scopes := rest.scopes }

end

namespace Context

/-- The context in which a function of the environment's program is checked: the outermost scope holds
every function. -/
def ofEnvironment (environment : Environment) : Context :=
  { environment, scopes := Scopes.empty.insertAll environment.functions.entries }

/-- Checks a function, its parameters and the variables of its body in the outermost scope. A later
parameter replaces an earlier one, and hides a function of its name. The context keeps the names for
the next function. -/
def checkFunction (context : Context) (declaration : FunctionDecl) :
    Checked FunctionDecl Unit × Context :=
  let scopes := context.scopes.insertAll
    (declaration.params.map fun parameter => (parameter.name, parameter.type))
  let checked := checkLines context.environment scopes declaration.body
  (⟨{ declaration with body := checked.tree }, checked.outcome⟩,
    { context with scopes := checked.scopes })

end Context

end TypedTree
