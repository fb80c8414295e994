import TypedTree.Proofs.Check.Inference
import TypedTree.Proofs.Check.Erasure
import TypedTree.Proofs.Parts
/-! What a successful check of an expression writes: on every part the type inferred for that part.
Inference ignores the types that are written already, so that what is written depends on the erased
expression only. -/

namespace TypedTree

section Erased

variable (context : Context)

theorem arithmeticType_erase (whole : Expr) (operator : Operator) (leftType rightType : Ty) :
    arithmeticType whole.erase operator leftType rightType =
      arithmeticType whole operator leftType rightType := by
  simp only [arithmeticType, Expr.render_erase]

theorem elementType_erase (base position : Expr) (baseType positionType : Ty) :
    elementType base.erase position.erase baseType positionType =
      elementType base position baseType positionType := by
  simp only [elementType, Expr.render_erase]

theorem propertyType_erase (environment : Environment) (whole base : Expr) (name : String)
    (baseType : Ty) : propertyType environment whole.erase base.erase name baseType =
      propertyType environment whole base name baseType := by
  simp only [propertyType, Expr.render_erase]

theorem Expr.inferPlace_erase {expr : Expr} (same : expr.erase.infer context = expr.infer context) :
    expr.erase.inferPlace context = expr.inferPlace context := by
  simp only [inferPlace, isPlace_erase, render_erase, same]

theorem Expr.inferPropertyBase_erase {expr : Expr}
    (same : expr.erase.infer context = expr.infer context) :
    expr.erase.inferPropertyBase context = expr.inferPropertyBase context := by
  cases expr with
  | call callee args type => exact same
  | _ => exact inferPlace_erase context same

mutual

@[simp] theorem Expr.infer_erase (expr : Expr) : expr.erase.infer context = expr.infer context := by
  match expr with
  | .call callee args type =>
    have whole := fun params => inferArgs_erase (.call callee args type) params args
    simp only [Expr.erase] at whole
    simp only [Expr.erase, Expr.infer_call, Expr.inferPlace_erase context (Expr.infer_erase callee),
      Expr.render_erase, whole]
  | .arithmetic operator left right type =>
    have whole := arithmeticType_erase (.arithmetic operator left right type)
    simp only [Expr.erase] at whole
    simp only [Expr.erase, Expr.infer_arithmetic, Expr.infer_erase left, Expr.infer_erase right, whole]
  | .index base position type =>
    simp only [Expr.erase, Expr.infer_index, Expr.inferPlace_erase context (Expr.infer_erase base),
      Expr.infer_erase position, elementType_erase]
  | .property base name type =>
    have whole := propertyType_erase context.environment (.property base name type) base
    simp only [Expr.erase] at whole
    simp only [Expr.erase, Expr.infer_property,
      Expr.inferPropertyBase_erase context (Expr.infer_erase base), whole]
  | .var name type => simp only [Expr.erase, Expr.infer_var]
  | .string .. | .int .. | .bool .. | .real .. => rfl

theorem inferArgs_erase (whole : Expr) (params : List Ty) (args : List Expr) :
    inferArgs context whole.erase params (eraseArgs args) = inferArgs context whole params args := by
  match params, args with
  | _, [] => simp only [eraseArgs, inferArgs_nil]
  | [], arg :: args => simp only [eraseArgs, inferArgs_surplus, Expr.infer_erase arg, Expr.render_erase]
  | param :: params, arg :: args =>
    simp only [eraseArgs, inferArgs_cons, Expr.infer_erase arg, Expr.render_erase,
      inferArgs_erase whole params args]

end

end Erased

mutual

/-- The expression with every part carrying the type inferred for that part, if there is one. -/
def Expr.annotate (context : Context) : Expr → Expr
  | .call callee args type =>
    .call (callee.annotate context) (annotateArgs context args)
      ((Expr.call callee args type).infer context).toOption
  | .arithmetic operator left right type =>
    .arithmetic operator (left.annotate context) (right.annotate context)
      ((Expr.arithmetic operator left right type).infer context).toOption
  | .var name type => .var name ((Expr.var name type).infer context).toOption
  | .index base position type =>
    .index (base.annotate context) (position.annotate context)
      ((Expr.index base position type).infer context).toOption
  | .property base name type =>
    .property (base.annotate context) name ((Expr.property base name type).infer context).toOption
  | .string value _ => .string value (some .string)
  | .int value _ => .int value (some .int32)
  | .bool value _ => .bool value (some .bool)
  | .real value _ => .real value (some .real64)

def annotateArgs (context : Context) : List Expr → List Expr
  | [] => []
  | arg :: args => arg.annotate context :: annotateArgs context args

end

section Annotated

variable (context : Context)

mutual

theorem Expr.annotate_erase (expr : Expr) : expr.erase.annotate context = expr.annotate context := by
  match expr with
  | .call callee args type =>
    have whole := Expr.infer_erase context (.call callee args type)
    simp only [Expr.erase] at whole
    simp only [Expr.erase, Expr.annotate, Expr.annotate_erase callee, annotateArgs_erase args, whole]
  | .arithmetic operator left right type =>
    have whole := Expr.infer_erase context (.arithmetic operator left right type)
    simp only [Expr.erase] at whole
    simp only [Expr.erase, Expr.annotate, Expr.annotate_erase left, Expr.annotate_erase right, whole]
  | .index base position type =>
    have whole := Expr.infer_erase context (.index base position type)
    simp only [Expr.erase] at whole
    simp only [Expr.erase, Expr.annotate, Expr.annotate_erase base, Expr.annotate_erase position, whole]
  | .property base name type =>
    have whole := Expr.infer_erase context (.property base name type)
    simp only [Expr.erase] at whole
    simp only [Expr.erase, Expr.annotate, Expr.annotate_erase base, whole]
  | .var name type => simp only [Expr.erase, Expr.annotate, Expr.infer_var]
  | .string .. | .int .. | .bool .. | .real .. => simp only [Expr.erase, Expr.annotate]

theorem annotateArgs_erase (args : List Expr) :
    annotateArgs context (eraseArgs args) = annotateArgs context args := by
  match args with
  | [] => rfl
  | arg :: args =>
    simp only [eraseArgs, annotateArgs, Expr.annotate_erase arg, annotateArgs_erase args]

end

mutual

@[simp] theorem Expr.erase_annotate (expr : Expr) : (expr.annotate context).erase = expr.erase := by
  match expr with
  | .call callee args _ =>
    simp only [Expr.annotate, Expr.erase, Expr.erase_annotate callee, eraseArgs_annotate args]
  | .arithmetic _ left right _ =>
    simp only [Expr.annotate, Expr.erase, Expr.erase_annotate left, Expr.erase_annotate right]
  | .index base position _ =>
    simp only [Expr.annotate, Expr.erase, Expr.erase_annotate base, Expr.erase_annotate position]
  | .property base _ _ => simp only [Expr.annotate, Expr.erase, Expr.erase_annotate base]
  | .var .. | .string .. | .int .. | .bool .. | .real .. => simp only [Expr.annotate, Expr.erase]

theorem eraseArgs_annotate (args : List Expr) :
    eraseArgs (annotateArgs context args) = eraseArgs args := by
  match args with
  | [] => rfl
  | arg :: args =>
    simp only [annotateArgs, eraseArgs, Expr.erase_annotate arg, eraseArgs_annotate args]

end

mutual

theorem Expr.check_of_infer (expr : Expr) {type : Ty} (found : expr.infer context = .ok type) :
    expr.check context = ⟨expr.annotate context, .ok type⟩ := by
  match expr with
  | .call callee args written =>
    obtain ⟨place, calleeFound, params, signature, fits⟩ :=
      (Expr.infer_call_eq_ok_iff context callee args written type).mp found
    have checkedCallee := Expr.check_of_infer callee calleeFound
    have checkedArgs := checkArgs_of_inferArgs (.call callee args written) params args fits
    simp only [Expr.check, Checked.asPlace_of_isPlace _ _ place, checkedCallee, Checked.andThen, signature,
      checkedArgs, Checked.finish, Expr.decorate, Expr.annotate, found, Except.toOption]
  | .arithmetic operator left right written =>
    obtain ⟨leftType, rightType, leftFound, rightFound, agrees, same⟩ :=
      (Expr.infer_arithmetic_eq_ok_iff context operator left right written type).mp found
    have checkedLeft := Expr.check_of_infer left leftFound
    have checkedRight := Expr.check_of_infer right rightFound
    have result := (arithmeticType_eq_ok_iff (.arithmetic operator left right written) operator
      leftType rightType type).mpr ⟨agrees, same⟩
    simp only [Expr.check, checkedLeft, checkedRight, Checked.andThen, result, Checked.finish,
      Expr.decorate, Expr.annotate, found, Except.toOption]
  | .var name written =>
    have visible := (Expr.infer_var context name written).symm.trans found
    simp only [Expr.check, visible, Checked.finish, Expr.decorate, Expr.annotate, found,
      Except.toOption]
  | .index base position written =>
    obtain ⟨place, baseType, positionType, baseFound, positionFound, indexable⟩ :=
      (Expr.infer_index_eq_ok_iff context base position written type).mp found
    have checkedBase := Expr.check_of_infer base baseFound
    have checkedPosition := Expr.check_of_infer position positionFound
    have result := (elementType_eq_ok_iff base position baseType positionType type).mpr indexable
    simp only [Expr.check, Checked.asPlace_of_isPlace _ _ place, checkedBase, checkedPosition,
      Checked.andThen, result, Checked.finish, Expr.decorate, Expr.annotate, found, Except.toOption]
  | .property base name written =>
    obtain ⟨place, baseType, baseFound, owned⟩ :=
      (Expr.infer_property_eq_ok_iff context base name written type).mp found
    have checkedBase := Expr.check_of_infer base baseFound
    have result := (propertyType_eq_ok_iff context.environment (.property base name written) base name
      baseType type).mpr owned
    simp only [Expr.check, Checked.asPropertyBase_of_isPropertyBase _ _ place, checkedBase,
      Checked.andThen, result, Checked.finish, Expr.decorate, Expr.annotate, found, Except.toOption]
  | .string .. | .int .. | .bool .. | .real .. =>
    cases found
    rfl

theorem checkArgs_of_inferArgs (whole : Expr) (params : List Ty) (args : List Expr)
    (fits : inferArgs context whole params args = .ok ()) :
    checkArgs context whole params args = ⟨annotateArgs context args, .ok ()⟩ := by
  match params, args with
  | _, [] => simp only [checkArgs, annotateArgs]
  | [], arg :: args => exact absurd fits (inferArgs_surplus_ne_ok context whole arg args)
  | param :: params, arg :: args =>
    obtain ⟨found, argFound, agrees, rest⟩ :=
      (inferArgs_cons_eq_ok_iff context whole param params arg args).mp fits
    have checkedArg := Expr.check_of_infer arg argFound
    have checkedRest := checkArgs_of_inferArgs whole params args rest
    have accepted := (expectType_eq_ok_iff whole.render param found).mpr agrees
    simp only [checkArgs, checkedArg, Checked.andThen, accepted, checkedRest, annotateArgs]

end

end Annotated

section Parts

variable (context : Context)

/-- The type written on an expression is the one inferred for it. -/
def Expr.Settled (expr : Expr) : Prop := ∃ type, expr.type? = some type ∧ expr.infer context = .ok type

theorem Expr.infer_of_erase {expr other : Expr} (same : expr.erase = other.erase) :
    expr.infer context = other.infer context := by
  rw [← infer_erase context expr, same, infer_erase]

@[simp] theorem Expr.infer_annotate (expr : Expr) :
    (expr.annotate context).infer context = expr.infer context :=
  infer_of_erase context (erase_annotate context expr)

theorem Expr.type?_annotate (expr : Expr) {type : Ty} (found : expr.infer context = .ok type) :
    (expr.annotate context).type? = some type := by
  cases expr with
  | string | int | bool | real => cases found; rfl
  | _ => simp only [annotate, type?, found, Except.toOption]

theorem Expr.settled_annotate (expr : Expr) {type : Ty} (found : expr.infer context = .ok type) :
    (expr.annotate context).Settled context :=
  ⟨type, expr.type?_annotate context found, (expr.infer_annotate context).trans found⟩

mutual

theorem Expr.settled_parts (expr : Expr) {type : Ty} (found : expr.infer context = .ok type) :
    ∀ part ∈ (expr.annotate context).parts, part.Settled context := by
  have whole := expr.settled_annotate context found
  match expr with
  | .call callee args written =>
    obtain ⟨_, calleeFound, params, _, fits⟩ :=
      (Expr.infer_call_eq_ok_iff context callee args written type).mp found
    simp only [Expr.annotate, Expr.parts, List.forall_mem_append, List.forall_mem_singleton]
    exact ⟨⟨Expr.settled_parts callee calleeFound, settled_argsParts _ params args fits⟩, whole⟩
  | .arithmetic operator left right written =>
    obtain ⟨_, _, leftFound, rightFound, _⟩ :=
      (Expr.infer_arithmetic_eq_ok_iff context operator left right written type).mp found
    simp only [Expr.annotate, Expr.parts, List.forall_mem_append, List.forall_mem_singleton]
    exact ⟨⟨Expr.settled_parts left leftFound, Expr.settled_parts right rightFound⟩, whole⟩
  | .index base position written =>
    obtain ⟨_, _, _, baseFound, positionFound, _⟩ :=
      (Expr.infer_index_eq_ok_iff context base position written type).mp found
    simp only [Expr.annotate, Expr.parts, List.forall_mem_append, List.forall_mem_singleton]
    exact ⟨⟨Expr.settled_parts base baseFound, Expr.settled_parts position positionFound⟩, whole⟩
  | .property base name written =>
    obtain ⟨_, _, baseFound, _⟩ :=
      (Expr.infer_property_eq_ok_iff context base name written type).mp found
    simp only [Expr.annotate, Expr.parts, List.forall_mem_append, List.forall_mem_singleton]
    exact ⟨Expr.settled_parts base baseFound, whole⟩
  | .var .. | .string .. | .int .. | .bool .. | .real .. => exact List.forall_mem_singleton.mpr whole

theorem settled_argsParts (whole : Expr) (params : List Ty) (args : List Expr)
    (fits : inferArgs context whole params args = .ok ()) :
    ∀ part ∈ argsParts (annotateArgs context args), part.Settled context := by
  match params, args with
  | _, [] => exact fun _ member => (nomatch member)
  | [], arg :: args => exact absurd fits (inferArgs_surplus_ne_ok context whole arg args)
  | param :: params, arg :: args =>
    obtain ⟨_, argFound, _, rest⟩ :=
      (inferArgs_cons_eq_ok_iff context whole param params arg args).mp fits
    simp only [annotateArgs, argsParts, List.forall_mem_append]
    exact ⟨Expr.settled_parts arg argFound, settled_argsParts whole params args rest⟩

end

end Parts

end TypedTree
