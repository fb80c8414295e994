import TypedTree.Proofs.Check.Visible
/-! Which type names a check knows. The names in declarations share one space with all programs that have
been met, private objects included; a property access knows only the objects that are visible in its own
program. A name can be known to the one and not to the other. -/

namespace TypedTree

def Program.objectNames (program : Program) : List String :=
  (program.decls.filterMap Decl.object?).map ObjectDecl.name

theorem Program.mem_objectNames {program : Program} {name : String} :
    name ∈ program.objectNames ↔ ∃ declaration, .object declaration ∈ program.decls ∧ declaration.name = name := by
  simp only [objectNames, List.mem_map, List.mem_filterMap]
  constructor
  · rintro ⟨declaration, ⟨decl, member, same⟩, named⟩
    cases decl with
    | function other => cases same
    | object other =>
      cases same
      exact ⟨declaration, member, named⟩
  · rintro ⟨declaration, member, named⟩
    exact ⟨declaration, ⟨_, member, rfl⟩, named⟩

theorem Decl.declares_mem_typeEvents {decl : Decl} {name : String} :
    .declares name ∈ decl.typeEvents ↔ ∃ declaration, decl = .object declaration ∧ declaration.name = name := by
  cases decl with
  | object declaration =>
    simp only [typeEvents, List.mem_cons, TypeEvent.declares.injEq, List.mem_map, reduceCtorEq, and_false,
      exists_false, or_false, object.injEq, exists_eq_left']
    exact eq_comm
  | function declaration =>
    simp only [typeEvents, List.cons_append, List.mem_cons, List.mem_append, List.mem_map, reduceCtorEq,
      and_false, exists_false, false_or, false_and, iff_false]
    intro declared
    obtain ⟨_, same⟩ := linesTypeEvents_uses declaration.body _ declared
    cases same

theorem Program.declares_mem_iff {program : Program} {name : String} :
    .declares name ∈ program.decls.flatMap Decl.typeEvents ↔ name ∈ program.objectNames := by
  simp only [List.mem_flatMap, Decl.declares_mem_typeEvents, mem_objectNames]
  constructor
  · rintro ⟨_, member, declaration, rfl, same⟩
    exact ⟨declaration, member, same⟩
  · rintro ⟨declaration, member, same⟩
    exact ⟨_, member, declaration, rfl, same⟩

theorem Program.mem_typeEventsApart (program : Program) (event : TypeEvent) :
    event ∈ program.typeEventsApart ↔
      ∃ inside ∈ program.programs, event ∈ inside.decls.flatMap Decl.typeEvents := by
  have absent := program.forall_sites_iff (fun _ decl => event ∉ decl.typeEvents) none
  rw [program.typeEventsApart_eq none, ← not_iff_not]
  simpa only [List.mem_flatMap, not_exists, not_and] using absent

theorem Program.meetAll_of_check {program checked : Program} (coherent : program.Coherent)
    (accepted : program.check = .ok checked) :
    ∃ later, DeclaredTypes.meetAll {} program.typeEventsApart = .ok later := by
  rw [check_eq_checkApart coherent, checkApart, bind_eq_ok_iff] at accepted
  obtain ⟨later, met, _⟩ := accepted
  exact ⟨later, met⟩

theorem Program.declared_of_uses {program checked : Program} (coherent : program.Coherent)
    (accepted : program.check = .ok checked) {inside : Program} (reached : inside ∈ program.programs)
    {name : String} (used : .uses name ∈ inside.decls.flatMap Decl.typeEvents) :
    name ∈ Ty.builtinNames ∨ ∃ home ∈ program.programs, name ∈ home.objectNames := by
  obtain ⟨later, met⟩ := meetAll_of_check coherent accepted
  have known := (DeclaredTypes.meetAll_ok met).left _
    ((program.mem_typeEventsApart _).mpr ⟨inside, reached, used⟩)
  rcases (DeclaredTypes.contains_meetAll met name).mp known with builtin | declared
  · exact .inl (List.contains_iff_mem.mp builtin)
  · obtain ⟨home, reachedHome, declared⟩ := (program.mem_typeEventsApart _).mp declared
    exact .inr ⟨home, reachedHome, declares_mem_iff.mp declared⟩

section Environments

variable {program : Program} {environment : Environment}

theorem Environment.object?_eq_none_iff (built : ofProgram program = .ok environment) (name : String) :
    environment.object? name = none ↔
      ∀ declaration, .object declaration ∈ program.visible → declaration.name ≠ name := by
  rw [object?_of_ofProgram built, Option.map_eq_none_iff]
  exact lastObject?_eq_none_iff name program.visible

theorem Expr.infer_property_eq_objectTypeMissing_iff (context : Context) (base : Expr) (name : String)
    (written : Option Ty) {baseType : Ty} (inferred : base.inferPropertyBase context = .ok baseType)
    (single : baseType.isArray = false) :
    (property base name written).infer context =
        .error (.objectTypeMissing (property base name written).render) ↔
      context.environment.object? baseType.name = none := by
  rw [infer_property, inferred]
  change propertyType _ _ _ _ _ = _ ↔ _
  rw [propertyType, single]
  cases context.environment.object? baseType.name with
  | none => simp
  | some object => cases found : object.property? name <;> simp [found]

end Environments

/-- In an accepted program every type name is builtin or declared by some object of the program or of the
programs it imports. In the environment of the program that uses the name it has an object exactly if one is
visible there, and where none is, a property of a value of the type is reported as one of no object. -/
theorem Program.check_type_names {program checked : Program} (coherent : program.Coherent)
    (accepted : program.check = .ok checked) :
    ∀ inside ∈ program.programs, ∀ name, .uses name ∈ inside.decls.flatMap Decl.typeEvents →
      (name ∈ Ty.builtinNames ∨ ∃ home ∈ program.programs, name ∈ home.objectNames) ∧
      ∀ environment, Environment.ofProgram inside = .ok environment →
        (environment.object? name = none ↔
          ∀ declaration, .object declaration ∈ inside.visible → declaration.name ≠ name) ∧
        ∀ scopes base baseType property written,
          base.inferPropertyBase ⟨environment, scopes⟩ = .ok baseType → baseType.name = name →
            baseType.isArray = false →
              ((Expr.property base property written).infer ⟨environment, scopes⟩ =
                  .error (.objectTypeMissing (Expr.property base property written).render) ↔
                environment.object? name = none) := by
  intro inside reached name used
  refine ⟨declared_of_uses coherent accepted reached used, fun environment built => ⟨?_, ?_⟩⟩
  · exact Environment.object?_eq_none_iff built name
  · rintro scopes base baseType property written inferred rfl single
    exact Expr.infer_property_eq_objectTypeMissing_iff ⟨environment, scopes⟩ base property written inferred single

/-- A function may use an object that only a sibling of its module declares, if the sibling is imported first.
The name is declared then, but the function has no object for it. -/
theorem Program.check_type_names_sibling :
    let shapes := Program.mk [] [.object { name := "Shape", properties := [⟨"size", .int32⟩] }]
    let measures := Program.mk [] [.function ⟨false, "measure", .void, [⟨"shape", .scalar "Shape"⟩], []⟩]
    let program : Program := ⟨[⟨"shapes", some ⟨0, shapes⟩⟩, ⟨"measures", some ⟨1, measures⟩⟩], []⟩
    program.Coherent ∧ (∃ checked, program.check = .ok checked) ∧
      (∃ home ∈ program.programs, "Shape" ∈ home.objectNames) ∧
      ∃ environment, Environment.ofProgram measures = .ok environment ∧
        (environment.object? "Shape" = none ↔
          ∀ declaration, .object declaration ∈ measures.visible → declaration.name ≠ "Shape") := by
  intro shapes measures program
  have coherent : program.Coherent := Program.coherent_of_nodup (by decide)
  have reached : measures ∈ program.programs := by
    simp [program, programs, modules, importsModules, Import.modules, targetModules, Module.modules, shapes,
      measures]
  have used : TypeEvent.uses "Shape" ∈ measures.decls.flatMap Decl.typeEvents := by decide
  obtain ⟨known, objects⟩ := Program.check_type_names coherent rfl measures reached "Shape" used
  refine ⟨coherent, ⟨_, rfl⟩, known.resolve_left (by decide), _, rfl, (objects _ rfl).left⟩

/-- A type that only a private object of an import declares may be named, though the program has no object
for it. As soon as a property of a value of the type is used, the object is missed. -/
theorem Program.check_type_names_hidden :
    let shapes := Program.mk [] [.object { name := "Shape", properties := [⟨"size", .int32⟩] }]
    let measure := fun body => FunctionDecl.mk false "measure" .void [⟨"shape", .scalar "Shape"⟩] body
    let program := fun body => Program.mk [⟨"shapes", some ⟨0, shapes⟩⟩] [.function (measure body)]
    let size := Expr.property (.var "shape" none) "size" none
    (program []).Accepted ∧ "Shape" ∉ Ty.builtinNames ∧
      (∃ environment, Environment.ofProgram (program []) = .ok environment ∧
        environment.object? "Shape" = none) ∧
      (program [.declare "size" .int32 (some size)]).check =
        .error (.semantic (.objectTypeMissing size.render)) := by
  intro shapes measure program size
  exact ⟨⟨_, rfl⟩, by decide, ⟨_, rfl, rfl⟩, rfl⟩

end TypedTree
