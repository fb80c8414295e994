import TypedTree.Proofs.Check.Decision
import TypedTree.Proofs.Check.TypeNames
/-! The names of the builtin types and of the type of real literals. A check compares names of objects with
none of them: they belong to the language only as long as no object takes them. A property access reads an
object that is visible in its program, whatever the name, and a declaration may name whatever an object ahead
of it is called. -/

namespace TypedTree

def Ty.reservedNames : List String := builtinNames ++ [real64.name]

/-- No property is read from a value of a builtin type, and no declaration names the type of real literals. -/
def Program.KeepsReserved (program : Program) : Prop :=
  ∀ inside ∈ program.programs,
    (∀ base name written, .property base name written ∈ inside.exprs →
      ∀ type, base.type? = some type → type.name ∉ Ty.builtinNames) ∧
    .uses Ty.real64.name ∉ inside.decls.flatMap Decl.typeEvents

section Accesses

mutual

theorem Expr.base_mem_parts {base : Expr} {name : String} {written : Option Ty} (expr : Expr)
    (access : .property base name written ∈ expr.parts) : base ∈ expr.parts := by
  match expr with
  | .call callee args type =>
    simp only [Expr.parts, List.mem_append, List.mem_singleton, reduceCtorEq, or_false] at access ⊢
    exact .inl (access.imp (Expr.base_mem_parts callee) (base_mem_argsParts args))
  | .arithmetic operator left right type =>
    simp only [Expr.parts, List.mem_append, List.mem_singleton, reduceCtorEq, or_false] at access ⊢
    exact .inl (access.imp (Expr.base_mem_parts left) (Expr.base_mem_parts right))
  | .index inner position type =>
    simp only [Expr.parts, List.mem_append, List.mem_singleton, reduceCtorEq, or_false] at access ⊢
    exact .inl (access.imp (Expr.base_mem_parts inner) (Expr.base_mem_parts position))
  | .property inner other type =>
    simp only [Expr.parts, List.mem_append, List.mem_singleton] at access ⊢
    rcases access with deeper | same
    · exact .inl (Expr.base_mem_parts inner deeper)
    · cases same
      exact .inl base.self_mem_parts
  | .var .. | .string .. | .int .. | .bool .. | .real .. =>
    simp only [Expr.parts, List.mem_singleton, reduceCtorEq] at access

theorem base_mem_argsParts {base : Expr} {name : String} {written : Option Ty} (args : List Expr)
    (access : .property base name written ∈ argsParts args) : base ∈ argsParts args := by
  match args with
  | [] => nomatch access
  | arg :: args =>
    simp only [argsParts, List.mem_append] at access ⊢
    exact access.imp (Expr.base_mem_parts arg) (base_mem_argsParts args)

end

variable {objects : Bindings (Bindings Ty)} {base : Expr} {name : String} {written : Option Ty}

def AccessTruthful (objects : Bindings (Bindings Ty)) (base : Expr) (name : String) (written : Option Ty) : Prop :=
  ∃ names, base.Truthful objects names ∧ (Expr.property base name written).Truthful objects names

theorem AccessTruthful.of_parts {names : Bindings Ty} {expr : Expr}
    (truthful : ∀ part ∈ expr.parts, part.Truthful objects names)
    (access : .property base name written ∈ expr.parts) : AccessTruthful objects base name written :=
  ⟨names, truthful _ (Expr.base_mem_parts expr access), truthful _ access⟩

mutual

theorem Stmt.Truthful.access {names : Bindings Ty} {stmt : Stmt} (truthful : stmt.Truthful objects names)
    (access : .property base name written ∈ stmt.exprs) : AccessTruthful objects base name written := by
  match stmt with
  | .declare _ _ none => nomatch access
  | .declare _ _ (some value) => exact .of_parts truthful access
  | .assign target value =>
    simp only [Stmt.Truthful, List.forall_mem_append] at truthful
    simp only [Stmt.exprs, List.mem_append] at access
    exact access.elim (.of_parts truthful.left) (.of_parts truthful.right)
  | .branch condition thenBranch elseBranch =>
    obtain ⟨inCondition, inThen, inElse⟩ := truthful
    simp only [Stmt.exprs, List.mem_append] at access
    rcases access with (access | access) | access
    · exact .of_parts inCondition access
    · exact Stmt.Truthful.access inThen access
    · exact elseTruthful_access inElse access
  | .call callee args type => exact .of_parts truthful access
  | .block lines => exact linesTruthful_access truthful access

theorem elseTruthful_access {names : Bindings Ty} {branch : Option Stmt}
    (truthful : elseTruthful objects names branch) (access : .property base name written ∈ elseExprs branch) :
    AccessTruthful objects base name written := by
  match branch with
  | none => nomatch access
  | some branch => exact Stmt.Truthful.access truthful access

theorem linesTruthful_access {names : Bindings Ty} {lines : List Stmt}
    (truthful : linesTruthful objects names lines) (access : .property base name written ∈ linesExprs lines) :
    AccessTruthful objects base name written := by
  match lines with
  | [] => nomatch access
  | line :: lines =>
    obtain ⟨first, rest⟩ := truthful
    simp only [linesExprs, List.mem_append] at access
    exact access.elim (Stmt.Truthful.access first) (linesTruthful_access rest)

end

theorem AccessTruthful.object (truthful : AccessTruthful objects base name written) :
    ∃ type properties, base.type? = some type ∧ type.isArray = false ∧
      objects type.name = some properties ∧ written.isSome = true ∧ properties name = written := by
  obtain ⟨names, ⟨type, typeWritten, typeOnly⟩, ⟨found, foundWritten, foundOnly⟩⟩ := truthful
  cases (foundOnly found).mpr rfl with
  | property place baseTyped plain properties owned =>
    cases (typeOnly _).mp baseTyped
    have same : written = some found := foundWritten
    exact ⟨type, _, typeWritten, plain, properties, same ▸ rfl, same ▸ owned⟩

end Accesses

section Bodies

theorem FunctionDecl.truthful_annotate {program : Program} {declaration : FunctionDecl}
    (accepted : declaration.verdict (.declareAll {} program.visible) = .ok ()) :
    (declaration.annotate (.declareAll {} program.visible)).Truthful program := by
  have truthful := linesTruthful_annotate _ _ declaration.body accepted
  rw [declaration.lookup_scopes, program.properties_visible] at truthful
  exact truthful

theorem Program.objects_eq_some {program : Program} (resolved : program.Resolved) {name : String}
    {properties : Bindings Ty} (found : program.objects name = some properties) :
    ∃ declaration, program.lastObject? name = some declaration ∧ properties = declaration.lastType? := by
  rw [← properties_visible, Environment.properties,
    Environment.object?_of_ofProgram (Environment.ofProgram_of_resolved resolved), Option.map_map,
    Option.map_eq_some_iff] at found
  obtain ⟨declaration, last, rfl⟩ := found
  exact ⟨declaration, last, funext declaration.property?_objectType⟩

theorem Program.truthful_of_checkBodiesApart {program checked : Program}
    (accepted : program.checkBodiesApart = .ok checked) :
    ∀ declaration, .function declaration ∈ checked.decls → checked.Resolved ∧ declaration.Truthful checked := by
  intro declaration member
  have environments : Environment.ofProgram program = Environment.ofProgram checked := by
    rw [← Environment.ofProgram_erase, ← erase_of_checkBodiesApart accepted, Environment.ofProgram_erase]
  obtain ⟨imports, decls⟩ := program
  obtain ⟨_, _, _, declsDone, rfl⟩ := (checkBodiesApart_eq_ok_iff imports decls checked).mp accepted
  obtain ⟨source, _, sourceDone⟩ := mem_of_mapM_eq_ok declsDone _ member
  rw [environments] at sourceDone
  cases source with
  | object other => cases sourceDone
  | function source =>
    cases built : Environment.ofProgram ⟨_, _⟩ with
    | error error => rw [built] at sourceDone; cases sourceDone
    | ok environment =>
      rw [built, Decl.checkBody_function] at sourceDone
      obtain ⟨resolved, rfl⟩ := (Environment.ofProgram_eq_ok_iff _ environment).mp built
      split at sourceDone
      · cases sourceDone
      next judged =>
        cases sourceDone
        exact ⟨resolved, FunctionDecl.truthful_annotate judged⟩

/-- In a checked program, and in every program it imports, a property access reads a property of the last
object that is visible there under the name of the type of its base. -/
theorem Program.access_of_checkBodiesApart {program checked : Program}
    (accepted : program.checkBodiesApart = .ok checked) :
    ∀ inside ∈ checked.programs, ∀ base name written, .property base name written ∈ inside.exprs →
      ∃ type declaration, base.type? = some type ∧ type.isArray = false ∧
        inside.lastObject? type.name = some declaration ∧ written.isSome = true ∧
        declaration.lastType? name = written := by
  intro inside reached base name written access
  obtain ⟨source, done⟩ : ∃ source : Program, source.checkBodiesApart = .ok inside := by
    rcases List.mem_cons.mp reached with rfl | below
    · exact ⟨program, accepted⟩
    · obtain ⟨shared, member, rfl⟩ := List.mem_map.mp below
      obtain ⟨source, _, _, done⟩ := modules_of_checkBodiesApart accepted shared member
      exact ⟨source.program, done⟩
  obtain ⟨decl, member, access⟩ := List.mem_flatMap.mp access
  cases decl with
  | object other => nomatch access
  | function declaration =>
    obtain ⟨resolved, truthful⟩ := truthful_of_checkBodiesApart done declaration member
    obtain ⟨type, properties, typeWritten, plain, found, rest⟩ := (linesTruthful_access truthful access).object
    obtain ⟨object, last, rfl⟩ := objects_eq_some resolved found
    exact ⟨type, object, typeWritten, plain, last, rest⟩

end Bodies

section Names

theorem Program.home_of_lastObject? {program : Program} {name : String} {declaration : ObjectDecl}
    (last : program.lastObject? name = some declaration) : ∃ home ∈ program.programs, name ∈ home.objectNames := by
  unfold lastObject? TypedTree.lastObject? at last
  have listed := List.mem_reverse.mp (List.mem_of_find?_eq_some last)
  have named : declaration.name = name := by
    simpa using List.find?_some (p := fun declaration : ObjectDecl => declaration.name = name) last
  obtain ⟨decl, visible, same⟩ := List.mem_filterMap.mp listed
  cases decl with
  | function other => cases same
  | object other =>
    cases same
    rcases List.mem_append.mp visible with imported | own
    · obtain ⟨entry, member, exported⟩ := List.mem_flatMap.mp imported
      cases target : entry.target with
      | none => rw [Import.exported, target] at exported; cases exported
      | some shared =>
        rw [Import.exported, target] at exported
        exact ⟨shared.program, mem_programs_of_import member target shared.program.self_mem_programs,
          mem_objectNames.mpr ⟨declaration, List.mem_of_mem_filter exported, named⟩⟩
    · exact ⟨program, program.self_mem_programs, mem_objectNames.mpr ⟨declaration, own, named⟩⟩

theorem Program.programs_subset {program inside : Program} (reached : inside ∈ program.programs) :
    inside.programs ⊆ program.programs := by
  rcases List.mem_cons.mp reached with rfl | below
  · exact List.Subset.refl _
  · obtain ⟨shared, member, rfl⟩ := List.mem_map.mp below
    refine List.cons_subset.mpr ⟨reached, ?_⟩
    exact List.subset_cons_of_subset _ (List.map_subset _ (modules_subset member))

theorem Program.declares_mem_typeEventsApart {program : Program} {name : String} :
    .declares name ∈ program.typeEventsApart ↔ ∃ home ∈ program.programs, name ∈ home.objectNames := by
  simp only [mem_typeEventsApart, declares_mem_iff]

theorem Program.typeEventsApart_of_checkBodiesApart {program checked : Program}
    (accepted : program.checkBodiesApart = .ok checked) : checked.typeEventsApart = program.typeEventsApart := by
  rw [← typeEventsApart_erase, erase_of_checkBodiesApart accepted, typeEventsApart_erase]

theorem Program.declaredBeforeUse_of_check {program checked : Program} (coherent : program.Coherent)
    (accepted : program.check = .ok checked) : DeclaredBeforeUse program.typeEventsApart := by
  obtain ⟨later, met⟩ := meetAll_of_check coherent accepted
  rcases DeclaredTypes.meetAll_outcome program.typeEventsApart with ⟨_, ordered⟩ | ⟨name, failed, _⟩
  · exact ordered
  · cases met.symm.trans failed

end Names

/-- Wherever a check accepts a program, a property access in it or in a program it imports reads a property of
an object that is visible there under the name of the type of its base, and a declaration names builtin types
and objects that are declared ahead. So the names of the language are reserved if no object has one of them. -/
theorem Program.check_reserved_names {program checked : Program} (coherent : program.Coherent)
    (accepted : program.check = .ok checked) :
    (∀ inside ∈ checked.programs, ∀ base name written, .property base name written ∈ inside.exprs →
      ∃ type declaration, base.type? = some type ∧ type.isArray = false ∧
        inside.lastObject? type.name = some declaration ∧ written.isSome = true ∧
        declaration.lastType? name = written) ∧
    DeclaredBeforeUse program.typeEventsApart ∧
    ((∀ home ∈ program.programs, ∀ name ∈ home.objectNames, name ∉ Ty.reservedNames) →
      checked.KeepsReserved) := by
  have bodies := checkBodiesApart_of_check coherent accepted
  have accesses := access_of_checkBodiesApart bodies
  have events := typeEventsApart_of_checkBodiesApart bodies
  have ordered := declaredBeforeUse_of_check coherent accepted
  refine ⟨accesses, ordered, fun free => ?_⟩
  have undeclared : ∀ name ∈ Ty.reservedNames, .declares name ∉ program.typeEventsApart := by
    intro name reserved declared
    obtain ⟨home, reached, own⟩ := declares_mem_typeEventsApart.mp declared
    exact free home reached name own reserved
  refine fun inside reached => ⟨?_, fun used => ?_⟩
  · intro base name written access type typeWritten builtin
    obtain ⟨found, declaration, foundWritten, _, last, _⟩ := accesses inside reached base name written access
    cases typeWritten.symm.trans foundWritten
    obtain ⟨home, homeReached, own⟩ := home_of_lastObject? last
    have declared := declares_mem_typeEventsApart.mpr ⟨home, programs_subset reached homeReached, own⟩
    rw [events] at declared
    exact undeclared type.name (List.mem_append_left _ builtin) declared
  · have listed := (checked.mem_typeEventsApart _).mpr ⟨inside, reached, used⟩
    rw [events] at listed
    obtain ⟨before, after, split⟩ := List.append_of_mem listed
    rcases ordered before Ty.real64.name after split with builtin | ahead
    · exact absurd builtin (by decide)
    · exact undeclared Ty.real64.name (by decide) (split ▸ List.mem_append_left _ ahead)

/-- Objects may have the names of the language. Then a property is read from an integer, and a variable has
the type of real literals; without the one object or the other, the program is refused. -/
theorem Program.check_reserved_names_taken :
    let access := fun base type => Expr.property (.var "n" base) "x" type
    let main := fun access => FunctionDecl.mk false "main" .void [⟨"n", .int32⟩]
      [.declare "v" .int32 (some access), .declare "r" .real64 none]
    let integer : ObjectDecl := { name := Ty.int32.name, properties := [⟨"x", .int32⟩] }
    let real : ObjectDecl := { name := Ty.real64.name }
    let program := fun access => Program.mk [] [.object integer, .object real, .function (main access)]
    let source := program (access none none)
    let checked := program (access (some .int32) (some .int32))
    source.Coherent ∧ source.check = .ok checked ∧
      (access (some .int32) (some .int32) ∈ checked.exprs ∧ Ty.int32.name ∈ Ty.builtinNames ∧
        ∃ declaration, checked.lastObject? Ty.int32.name = some declaration ∧
          declaration.lastType? "x" = some .int32) ∧
      .uses Ty.real64.name ∈ checked.decls.flatMap Decl.typeEvents ∧ ¬ checked.KeepsReserved ∧
      (Program.mk [] [.object real, .function (main (access none none))]).check =
        .error (.semantic (.objectTypeMissing (access none none).render)) ∧
      (Program.mk [] [.object integer, .function (main (access none none))]).check =
        .error (.undeclaredType Ty.real64.name) := by
  intro access main integer real program source checked
  have coherent : source.Coherent := Program.coherent_of_nodup (by decide)
  have accepted : source.check = .ok checked := rfl
  have accessed : access (some .int32) (some .int32) ∈ checked.exprs :=
    List.mem_cons_of_mem _ List.mem_cons_self
  have used : .uses Ty.real64.name ∈ checked.decls.flatMap Decl.typeEvents := by decide
  have broken : ¬ checked.KeepsReserved := fun keeps => (keeps checked checked.self_mem_programs).right used
  obtain ⟨type, declaration, typed, _, last, _, owned⟩ := (Program.check_reserved_names coherent accepted).1
    checked checked.self_mem_programs _ _ _ accessed
  cases typed
  exact ⟨coherent, accepted, ⟨accessed, by decide, declaration, last, owned⟩, used, broken, rfl, rfl⟩

end TypedTree
