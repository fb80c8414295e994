import TypedTree.Proofs.Check.Recheck
/-! What a check cannot notice. Functions and objects may be added to what a function body can refer to: as
long as the body does not name them, and no type that reaches it does, every expression and every statement
is checked as before. -/

namespace TypedTree

mutual

def Expr.names : Expr → List String
  | .call callee args _ => callee.names ++ argsNames args
  | .arithmetic _ left right _ => left.names ++ right.names
  | .index base position _ => base.names ++ position.names
  | .property base name _ => name :: base.names
  | .var name _ => [name]
  | .string .. | .int .. | .bool .. | .real .. => []

def argsNames : List Expr → List String
  | [] => []
  | arg :: args => arg.names ++ argsNames args

end

mutual

def Stmt.names : Stmt → List String
  | .declare name type value => name :: type.name :: value.elim [] Expr.names
  | .assign target value => target.names ++ value.names
  | .branch condition thenBranch elseBranch =>
    condition.names ++ thenBranch.names ++ elseNames elseBranch
  | .call callee args _ => callee.names ++ argsNames args
  | .block lines => linesNames lines

def elseNames : Option Stmt → List String
  | none => []
  | some branch => branch.names

def linesNames : List Stmt → List String
  | [] => []
  | line :: lines => line.names ++ linesNames lines

end

/-- Names of functions, and names of objects that are the names of no types a program has anyway. -/
structure Additions where
  functions : List String
  objects : List String
  fresh : ∀ name ∈ objects, name ∉ Ty.builtinNames ∧ name ≠ Ty.real64.name

namespace Additions

variable (additions : Additions)

def Spares (names : List String) : Prop :=
  ∀ name ∈ names, name ∉ additions.functions ∧ name ∉ additions.objects

def Avoids (type : Ty) : Prop := type.name ∉ additions.objects

theorem spares_append (names others : List String) :
    additions.Spares (names ++ others) ↔ additions.Spares names ∧ additions.Spares others :=
  List.forall_mem_append

theorem spares_cons (name : String) (names : List String) :
    additions.Spares (name :: names) ↔
      (name ∉ additions.functions ∧ name ∉ additions.objects) ∧ additions.Spares names :=
  List.forall_mem_cons

theorem avoids_builtin {type : Ty} (builtin : type.name ∈ Ty.builtinNames) : additions.Avoids type :=
  fun added => (additions.fresh type.name added).left builtin

theorem avoids_real64 : additions.Avoids .real64 := fun added => (additions.fresh _ added).right rfl

end Additions

structure Context.Closed (additions : Additions) (context : Context) : Prop where
  names : ∀ name type, name ∉ additions.functions → context.scopes.lookup name = some type →
    additions.Avoids type
  properties : ∀ name object property type, name ∉ additions.objects →
    context.environment.object? name = some object → object.property? property = some type →
      additions.Avoids type

/-- The contexts give the same types to the same names and the same objects to the same types, apart from
what is added. -/
structure Context.Alike (additions : Additions) (context other : Context) : Prop
    extends context.Closed additions where
  lookup : ∀ name, name ∉ additions.functions → other.scopes.lookup name = context.scopes.lookup name
  object : ∀ name, name ∉ additions.objects →
    other.environment.object? name = context.environment.object? name

section Expressions

variable {additions : Additions} {context other : Context}

theorem Expr.avoids_of_infer (closed : context.Closed additions) {expr : Expr} {type : Ty}
    (spared : additions.Spares expr.names) (found : expr.infer context = .ok type) :
    additions.Avoids type := by
  match expr with
  | .call callee args written =>
    rw [Expr.names, additions.spares_append] at spared
    obtain ⟨-, calleeFound, -⟩ := (Expr.infer_call_eq_ok_iff context _ _ _ _).mp found
    exact Expr.avoids_of_infer closed spared.left calleeFound
  | .arithmetic operator left right written =>
    rw [Expr.names, additions.spares_append] at spared
    obtain ⟨leftType, _, leftFound, -, -, rfl⟩ := (Expr.infer_arithmetic_eq_ok_iff context _ _ _ _ _).mp found
    split
    · exact additions.avoids_builtin (by decide)
    · exact Expr.avoids_of_infer closed spared.left leftFound
  | .var name written =>
    obtain ⟨⟨unnamed, -⟩, -⟩ := (additions.spares_cons name []).mp spared
    exact closed.names name type unnamed ((Expr.infer_var_eq_ok_iff context _ _ _).mp found)
  | .index base position written =>
    rw [Expr.names, additions.spares_append] at spared
    obtain ⟨-, baseType, _, baseFound, -, -, -, rfl⟩ :=
      (Expr.infer_index_eq_ok_iff context _ _ _ _).mp found
    have avoids : additions.Avoids baseType := Expr.avoids_of_infer closed spared.left baseFound
    exact avoids
  | .property base name written =>
    rw [Expr.names, additions.spares_cons] at spared
    obtain ⟨-, baseType, baseFound, -, object, declared, member⟩ :=
      (Expr.infer_property_eq_ok_iff context _ _ _ _).mp found
    have avoids := Expr.avoids_of_infer closed spared.right baseFound
    exact closed.properties baseType.name object name type avoids declared member
  | .string value written | .int value written | .bool value written =>
    cases found
    exact additions.avoids_builtin (by decide)
  | .real value written =>
    cases found
    exact additions.avoids_real64

theorem Checked.andThen_congr {α β γ δ : Type} (part : Checked α β) (rebuild : α → γ)
    {next otherNext : α → β → Checked γ δ}
    (same : ∀ value, part.outcome = .ok value → otherNext part.tree value = next part.tree value) :
    part.andThen rebuild otherNext = part.andThen rebuild next := by
  unfold Checked.andThen
  cases found : part.outcome with
  | error problem => rfl
  | ok value => exact same value found

mutual

theorem Expr.check_alike (alike : context.Alike additions other) (expr : Expr)
    (spared : additions.Spares expr.names) : expr.check other = expr.check context := by
  match expr with
  | .call callee args written =>
    rw [Expr.names, additions.spares_append] at spared
    simp only [Expr.check, callee.check_alike alike spared.left, checkArgs_alike alike _ _ args spared.right]
  | .arithmetic operator left right written =>
    rw [Expr.names, additions.spares_append] at spared
    simp only [Expr.check, left.check_alike alike spared.left, right.check_alike alike spared.right]
  | .var name written =>
    obtain ⟨⟨unnamed, -⟩, -⟩ := (additions.spares_cons name []).mp spared
    simp only [Expr.check, nameType, alike.lookup name unnamed]
  | .index base position written =>
    rw [Expr.names, additions.spares_append] at spared
    simp only [Expr.check, base.check_alike alike spared.left, position.check_alike alike spared.right]
  | .property base name written =>
    rw [Expr.names, additions.spares_cons] at spared
    simp only [Expr.check, base.check_alike alike spared.right]
    apply Checked.andThen_congr
    intro baseType found
    rw [outcome_asPropertyBase, Expr.inferPropertyBase_eq_ok_iff] at found
    have avoids := Expr.avoids_of_infer alike.toClosed spared.right found.right
    simp only [propertyType, alike.object baseType.name avoids]
  | .string .. | .int .. | .bool .. | .real .. => rfl

theorem checkArgs_alike (alike : context.Alike additions other) (whole : Expr) (params : List Ty)
    (args : List Expr) (spared : additions.Spares (argsNames args)) :
    checkArgs other whole params args = checkArgs context whole params args := by
  match params, args with
  | _, [] => simp only [checkArgs]
  | [], arg :: args =>
    rw [argsNames, additions.spares_append] at spared
    simp only [checkArgs, arg.check_alike alike spared.left]
  | param :: params, arg :: args =>
    rw [argsNames, additions.spares_append] at spared
    simp only [checkArgs, arg.check_alike alike spared.left, checkArgs_alike alike whole params args spared.right]

end

end Expressions

section Statements

variable {additions : Additions} {environment otherEnvironment : Environment} {scopes otherScopes : Scopes}

theorem Context.Alike.enter
    (alike : Context.Alike additions ⟨environment, scopes⟩ ⟨otherEnvironment, otherScopes⟩) :
    Context.Alike additions ⟨environment, scopes.enter⟩ ⟨otherEnvironment, otherScopes.enter⟩ where
  names name type unnamed found :=
    alike.names name type unnamed ((Scopes.lookup_enter scopes name).symm.trans found)
  properties := alike.properties
  lookup name unnamed := by
    simp only [Scopes.lookup_enter]
    exact alike.lookup name unnamed
  object := alike.object

theorem Context.Alike.insert
    (alike : Context.Alike additions ⟨environment, scopes⟩ ⟨otherEnvironment, otherScopes⟩) (name : String)
    {type : Ty} (avoids : additions.Avoids type) :
    Context.Alike additions ⟨environment, scopes.insert name type⟩
      ⟨otherEnvironment, otherScopes.insert name type⟩ where
  names other found unnamed lookup := by
    rw [Scopes.lookup_insert] at lookup
    split at lookup
    · cases lookup
      exact avoids
    · exact alike.names other found unnamed lookup
  properties := alike.properties
  lookup other unnamed := by
    simp only [Scopes.lookup_insert]
    split
    · rfl
    · exact alike.lookup other unnamed
  object := alike.object

theorem Context.Alike.scopesAfter
    (alike : Context.Alike additions ⟨environment, scopes⟩ ⟨otherEnvironment, otherScopes⟩) {stmt : Stmt}
    (spared : additions.Spares stmt.names) :
    Context.Alike additions ⟨environment, stmt.scopesAfter scopes⟩
      ⟨otherEnvironment, stmt.scopesAfter otherScopes⟩ := by
  cases stmt with
  | declare name type value =>
    rw [Stmt.names, additions.spares_cons, additions.spares_cons] at spared
    exact alike.insert name spared.right.left.right
  | _ => exact alike

theorem checkInitializer_alike {context other : Context} (alike : context.Alike additions other) (whole : Stmt)
    (type : Ty) {value : Option Expr} (spared : additions.Spares (value.elim [] Expr.names)) :
    checkInitializer other whole type value = checkInitializer context whole type value := by
  cases value with
  | none => rfl
  | some value => simp only [checkInitializer, value.check_alike alike spared]

theorem checkDeclare_alike {context other : Context} (alike : context.Alike additions other) {name : String}
    {type : Ty} {value : Option Expr} (unnamed : name ∉ additions.functions)
    (spared : additions.Spares (value.elim [] Expr.names)) :
    (checkDeclare other name type value).toChecked = (checkDeclare context name type value).toChecked := by
  have declared : other.scopes.isDeclared name = context.scopes.isDeclared name := by
    rw [Scopes.isDeclared, Scopes.isDeclared, alike.lookup name unnamed]
  simp only [checkDeclare, Scopes.define, declared, checkInitializer_alike alike _ type spared]
  split
  · rfl
  · split <;> rfl

mutual

/-- A statement that spares what is added is checked as before. -/
theorem Stmt.check_alike (stmt : Stmt) {scopes otherScopes : Scopes}
    (alike : Context.Alike additions ⟨environment, scopes⟩ ⟨otherEnvironment, otherScopes⟩)
    (spared : additions.Spares stmt.names) :
    (stmt.check otherEnvironment otherScopes).toChecked = (stmt.check environment scopes).toChecked := by
  match stmt with
  | .declare name type value =>
    rw [Stmt.names, additions.spares_cons, additions.spares_cons] at spared
    exact checkDeclare_alike alike spared.left.left spared.right.right
  | .assign target value =>
    rw [Stmt.names, additions.spares_append] at spared
    simp only [Stmt.check, checkAssign, target.check_alike alike spared.left, value.check_alike alike spared.right]
  | .branch condition thenBranch elseBranch =>
    rw [Stmt.names, additions.spares_append, additions.spares_append] at spared
    obtain ⟨⟨conditionSpared, thenSpared⟩, elseSpared⟩ := spared
    -- the first branch gives back both stacks, so that the second one is checked in alike contexts again
    have restored := Stmt.exit_of_scopes_check (thenBranch.scopes_check environment scopes.enter)
    have otherRestored :=
      Stmt.exit_of_scopes_check (thenBranch.scopes_check otherEnvironment otherScopes.enter)
    have sameThen := thenBranch.check_alike alike.enter thenSpared
    have sameElse := checkElse_alike elseBranch alike elseSpared
    simp only [Stmt.check, CheckedBody.exitScope, restored, otherRestored,
      condition.check_alike alike conditionSpared, sameThen, sameElse]
    split
    · rfl
    · split <;> rfl
  | .call callee args written =>
    have whole : additions.Spares (Expr.call callee args written).names := spared
    simp only [Stmt.check, (Expr.call callee args written).check_alike alike whole]
  | .block lines =>
    simp only [Stmt.check, CheckedBody.exitScope]
    rw [checkLines_alike lines alike.enter spared]

theorem checkElse_alike (branch : Option Stmt) {scopes otherScopes : Scopes}
    (alike : Context.Alike additions ⟨environment, scopes⟩ ⟨otherEnvironment, otherScopes⟩)
    (spared : additions.Spares (elseNames branch)) :
    (checkElse otherEnvironment otherScopes branch).toChecked =
      (checkElse environment scopes branch).toChecked := by
  match branch with
  | none => rfl
  | some branch =>
    simp only [checkElse, CheckedBody.exitScope]
    rw [branch.check_alike alike.enter spared]

theorem checkLines_alike (lines : List Stmt) {scopes otherScopes : Scopes}
    (alike : Context.Alike additions ⟨environment, scopes⟩ ⟨otherEnvironment, otherScopes⟩)
    (spared : additions.Spares (linesNames lines)) :
    (checkLines otherEnvironment otherScopes lines).toChecked =
      (checkLines environment scopes lines).toChecked := by
  match lines with
  | [] => rfl
  | line :: lines =>
    rw [linesNames, additions.spares_append] at spared
    have same := line.check_alike alike spared.left
    have behind := line.scopes_check environment scopes
    have otherBehind := line.scopes_check otherEnvironment otherScopes
    simp only [checkLines, same] at otherBehind ⊢
    cases judged : (line.check environment scopes).outcome with
    | error problem => rfl
    | ok value =>
      simp only [judged] at behind otherBehind
      simp only [behind, otherBehind, checkLines_alike lines (alike.scopesAfter spared.left) spared.right]

end

end Statements

end TypedTree
